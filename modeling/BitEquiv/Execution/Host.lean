import BitEquiv.Execution.Outcome
import BitEquiv.Execution.Files

/-!
# Hosts

A host starts external programs. What a program does is no part of this library:
it ends somehow, prints something, and leaves some file tree behind.
-/

namespace BitEquiv
namespace Execution

/-- Runs commands on a file tree, with a directory for temporary files and words for what
goes wrong with files. -/
structure Host where
  temporary : String
  wording : FileFault → String
  run : Command → Limits → Files → Except StartError Outcome × Files

namespace Host

def bare : Host where
  temporary := "/tmp"
  wording := FileFault.systemText
  run c _ files := (.error ⟨c.program, "no such program"⟩, files)

end Host
end Execution
end BitEquiv

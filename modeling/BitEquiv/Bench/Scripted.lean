import BitEquiv.Bench.Pipeline
import BitEquiv.Execution.Tool
import BitEquiv.Program.Printer

/-!
# Scripted stages

Stages that do what a script says for each case. They need no compiler, no program
under test and no solver.
-/

namespace BitEquiv
namespace Bench
namespace Scripted

open Execution (Files joinPath)

inductive BuildScript where
  | succeed
  | fail (failure : BuildFailure)
  | breakOff
deriving DecidableEq

def builder (script : String → BuildScript) : Builder := fun c workDir files =>
  let binary := binaryPath c workDir
  match script c.id with
  | .breakOff => (none, files)
  | .succeed =>
      match files.write binary (Text.encode c.sourceHash.toList) with
      | .ok files => (some (.succeeded files c.id binary "" 0), files)
      | .error fault => (some (.failed c.id binary .missingOutput fault.systemText 0), files)
  | .fail failure =>
      let a := BuildArtifact.failed c.id binary failure "scripted failure" 0
      (some (if failure = .exitCode then { a with exitCode := some 1 } else a), files)

inductive SubjectScript where
  | emitReference
  | emit (text : String)
  | timeout
  | crash (reason : String)
deriving DecidableEq

def store (c : Case) (workDir text : String) (files : Files) : Emission × Files :=
  let output := representationPath workDir
  match files.write output (Text.encode text.toList) with
  | .ok files => (.completed c.id output "" 0, files)
  | .error fault => (.crashed c.id fault.systemText "" 0, files)

def subject (script : String → SubjectScript) : Subject := fun c _ workDir files =>
  match script c.id with
  | .timeout => (some (.timedOut c.id "" 0), files)
  | .crash reason => (some (.crashed c.id reason "" 0), files)
  | .emitReference =>
      let (t, files) := store c workDir c.reference.text files
      (some t, files)
  | .emit text =>
      let (t, files) := store c workDir text files
      (some t, files)

def decider (answer : Except DeciderError Solver.Decision) : Decider where
  name := "scripted"
  decide := fun _ _ _ files => (some ⟨answer, 0⟩, files)

def calls (files : Files) : Nat := ((Execution.Tool.recorded? files "calls").getD []).length

def counted (d : Decider) : Decider where
  name := d.name
  decide := fun q timeout dir files =>
    let before := (Execution.Tool.recorded? files "calls").getD []
    d.decide q timeout dir (Execution.Tool.write files "calls" (0 :: before))

/-- The descriptor of a case that is made by `writeCase`. -/
def plainDescriptor : String := "source = \"main.c\"\nreference = \"reference.bvp\"\n"

def writeAll : List (String × String) → Files → Option Files
  | [], files => some files
  | (path, text) :: rest, files => do
      let files ← files.write? path (Text.encode text.toList)
      writeAll rest files

def writeCase (root id reference : String) (files : Files) : Option Files :=
  let dir := joinPath root id
  writeAll [
    (joinPath dir "main.c", "/* " ++ id ++ " */\nint main(void) \x7b return 0; \x7d\n"),
    (joinPath dir "reference.bvp", reference),
    (joinPath dir descriptorFile, plainDescriptor)] (files.makeDirectories dir).2

end Scripted
end Bench
end BitEquiv

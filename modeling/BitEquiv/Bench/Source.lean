import BitEquiv.Execution.Files
import BitEquiv.Program.Load

/-!
# Programs in files
-/

namespace BitEquiv
namespace Bench

open Execution (Files)

inductive SourceFault where
  | unreadable (path reason : String)
  | rejected (e : Program.LoadError)

def SourceFault.message : SourceFault → String
  | unreadable path reason => "cannot read " ++ path ++ ": " ++ reason
  | rejected e => e.message

def loadFile (files : Files) (path : String) : Except SourceFault Program :=
  match files.read? path with
  | none => .error (.unreadable path (files.readReason path))
  | some bytes =>
      match Text.decode? bytes with
      | none => .error (.unreadable path "stream did not contain valid UTF-8")
      | some text =>
          match Program.load text with
          | .error e => .error (.rejected e)
          | .ok p => .ok p

end Bench
end BitEquiv

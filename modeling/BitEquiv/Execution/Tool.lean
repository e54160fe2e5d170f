import BitEquiv.Execution.Host

/-!
# Scripted tools

A tool that prints given bytes, may write a file, and ends in a given way. A host
on which a tool runs writes down what the tool was given.
-/

namespace BitEquiv
namespace Execution

open Text (Bytes)

structure Tool where
  stdout : Bytes
  stderr : Bytes
  output : Option Bytes
  ending : Termination

/-- Whether a word of a command has a null character; no program can be given
one. -/
def Command.hasNull (c : Command) : Bool :=
  (c.program :: c.args).any fun word => word.toList.any fun ch => ch.toNat = 0

def Command.notStarted (c : Command) : StartError :=
  ⟨c.program,
    if c.hasNull then "nul byte found in provided data"
    else "No such file or directory (os error 2)"⟩

namespace Tool

def record (name : String) : Place := ["log", name]

def recorded? (files : Files) (name : String) : Option Bytes :=
  match files.node? (record name) with
  | some (.file bytes) => some bytes
  | _ => none

def write (files : Files) (name : String) (bytes : Bytes) : Files :=
  files.put (record name) (.file bytes)

/-- The arguments of a tool, one a line; without arguments there is one empty
line. -/
def argumentLines (args : List String) : Bytes :=
  Text.encode (((if args.isEmpty then [""] else args).flatMap fun arg => arg.toList ++ ['\n']))

/-- The lines that the arguments of the tool took, when it ran. -/
def arguments? (files : Files) : Option (List String) :=
  (recorded? files "args").map fun bytes =>
    ((Text.splitBy (· == '\n') (Text.decodeLossy bytes)).dropLast).map String.ofList

/-- A host on which one program is a tool. The first `skip` arguments are not the
tool's, and what the tool writes goes to `output`. -/
def host (tool : Tool) (program : String) (skip : Nat) (output : String) : Host where
  temporary := "/tmp"
  wording := FileFault.systemText
  run c limits files :=
    if c.hasNull || c.program ≠ program then (.error c.notStarted, files)
    else
      let files := write files "args" (argumentLines (c.args.drop skip))
      let files := write files "stdin" c.stdin
      let files :=
        match tool.output with
        | some bytes => (files.write? output bytes).getD files
        | none => files
      (.ok ⟨tool.ending, .ofReads limits.outputBytes [some tool.stdout],
        .ofReads limits.outputBytes [some tool.stderr], 0⟩, files)

end Tool
end Execution
end BitEquiv

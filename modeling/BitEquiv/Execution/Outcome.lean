import BitEquiv.Text.Utf8
import BitEquiv.Text.Blank
import BitEquiv.Text.Numeral

/-!
# External programs

A command, how its run ended, and what it printed. Output is kept up to a cap
for each stream.
-/

namespace BitEquiv
namespace Execution

open Text (Bytes)

/-- A program with its arguments and the bytes on its standard input. -/
structure Command where
  program : String
  args : List String
  stdin : Bytes

def quoted (word : String) : String :=
  if word.isEmpty || word.toList.any Text.isBlank then "'" ++ word ++ "'" else word

def Command.text (c : Command) : String :=
  c.program ++ String.join (c.args.map fun arg => " " ++ quoted arg)

inductive Termination where
  | exited (code : Int)
  | signaled (signal : Int)
  | timedOut
  | cpuExceeded (seconds : Nat)
  | memoryExceeded (used limit : Nat)
deriving DecidableEq

namespace Termination

def isSuccess (t : Termination) : Bool := t == exited 0

def wasKilled : Termination → Bool
  | timedOut => true
  | cpuExceeded _ => true
  | memoryExceeded .. => true
  | _ => false

def exitCode : Termination → Option Int
  | exited code => some code
  | _ => none

def text : Termination → String
  | exited code => "exited with code " ++ Text.signedDecimal code
  | signaled signal => "terminated by signal " ++ Text.signedDecimal signal
  | timedOut => "killed at wall-clock deadline"
  | cpuExceeded seconds => "killed after " ++ Text.decimal seconds ++ "s of CPU time"
  | memoryExceeded used limit =>
      "killed at RSS " ++ Text.decimal used ++ " MiB (limit " ++ Text.decimal limit ++ " MiB)"

end Termination

/-- A stream as kept: its first bytes, and whether more came. -/
structure Capture where
  bytes : Bytes
  truncated : Bool
deriving DecidableEq

namespace Capture

def empty : Capture := ⟨[], false⟩

def absorb (cap : Nat) (kept : Capture) (chunk : Bytes) : Capture :=
  let room := cap - kept.bytes.length
  ⟨kept.bytes ++ chunk.take room, kept.truncated || room < chunk.length⟩

/-- Take up the reads of a stream in turn. An empty read is the end of the stream; a read that
fails gives nothing and ends it too. -/
def absorbAll (cap : Nat) : Capture → List (Option Bytes) → Capture
  | kept, [] => kept
  | kept, none :: _ => kept
  | kept, some chunk :: reads =>
      if chunk.isEmpty then kept else absorbAll cap (kept.absorb cap chunk) reads

def ofReads (cap : Nat) (reads : List (Option Bytes)) : Capture := absorbAll cap empty reads

def text (c : Capture) : List Char := Text.decodeLossy c.bytes

end Capture

structure Outcome where
  termination : Termination
  stdout : Capture
  stderr : Capture
  elapsedMs : Nat

/-- Standard output followed by standard error, on a new line where the output
did not end with one. -/
def Outcome.log (o : Outcome) : List Char :=
  let out := o.stdout.text
  let gap := !out.isEmpty && out.getLast? != some '\n' && !o.stderr.bytes.isEmpty
  out ++ (if gap then ['\n'] else []) ++ o.stderr.text

structure StartError where
  program : String
  reason : String
deriving DecidableEq

def StartError.message (e : StartError) : String :=
  "failed to spawn `" ++ e.program ++ "`: " ++ e.reason

/-- Limits of a run; zero switches a budget of processor time or memory off. -/
structure Limits where
  wallSeconds : Nat
  cpuSeconds : Nat
  memoryMiB : Nat
  outputBytes : Nat

/-- Bytes kept of a stream unless a limit says otherwise. -/
def defaultOutputBytes : Nat := 64 * 1024 * 1024

def Limits.ofWall (seconds : Nat) : Limits := ⟨seconds, 0, 0, defaultOutputBytes⟩

end Execution
end BitEquiv

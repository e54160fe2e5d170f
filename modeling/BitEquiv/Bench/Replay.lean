import BitEquiv.Bench.Subject
import BitEquiv.Program.Miter

/-!
# Replay

A counterexample can be replayed on the binary. The binary reads its inputs from
standard input, in order of declaration, each in as many little-endian bytes as it
needs, and prints a line `name=value` for each output. What it prints is evidence
for or against the reference program; it does not change a verdict.
-/

namespace BitEquiv
namespace Bench

open Logic
open Execution (Files Command Host)

inductive ReplayStatus where
  | confirmed
  | diverged
  | inconclusive
deriving DecidableEq

namespace ReplayStatus

def all : List ReplayStatus := [confirmed, diverged, inconclusive]

def text : ReplayStatus → String
  | confirmed => "confirmed"
  | diverged => "diverged"
  | inconclusive => "inconclusive"

def title : ReplayStatus → String
  | confirmed => "Confirmed"
  | diverged => "Diverged"
  | inconclusive => "Inconclusive"

end ReplayStatus

/-- The evidence of a replay, with all values that the binary printed. -/
structure ReplayEvidence where
  status : ReplayStatus
  detail : String
  observed : Assoc Nat
deriving DecidableEq

def ReplayEvidence.inconclusive (detail : String) : ReplayEvidence := ⟨.inconclusive, detail, []⟩

namespace Replay

def lowBytes : Nat → Nat → Text.Bytes
  | 0, _ => []
  | count + 1, n => UInt8.ofNat (n % 256) :: lowBytes count (n / 256)

/-- Bytes of a value of a sort; at least one. -/
def byteCount (s : BvSort) : Nat := max 1 ((s.width + 7) / 8)

theorem lowBytes_length (count n : Nat) : (lowBytes count n).length = count := by
  induction count generalizing n with
  | zero => rfl
  | succ count ih => simp [lowBytes, ih]

/-- What a program reads for values of its inputs; a value that is missing is
zero. -/
def encodeInputs (p : Program) (values : Env) : Text.Bytes :=
  p.inputs.flatMap fun (name, sort) =>
    lowBytes (byteCount sort) ((values.get? name).getD (.zero sort)).raw

/-- The number of a value that was printed; a negative one is taken modulo
`2 ^ 128`. -/
def readNumber (s : List Char) : Option Nat :=
  match s with
  | '-' :: rest =>
      (Text.unsigned 10 Text.wideLimit rest).map fun n =>
        (Text.wideLimit - n) % Text.wideLimit
  | _ => Text.unsigned 10 Text.wideLimit s

def readLine (line : List Char) : Option (String × Nat) := do
  let (name, value) ← Text.cutAt (· == '=') (Text.trim line)
  let n ← readNumber (Text.trim value)
  return (String.ofList (Text.trim name), n)

/-- The values that a binary printed; a later line replaces an earlier one. -/
def observations (output : List Char) : Assoc Nat :=
  Assoc.ofList ((Text.lines output).filterMap readLine)

/-- Compare expected outputs with what was printed, up to the first that is
missing or differs. -/
def judge (observed : Assoc Nat) : List (String × Value) → ReplayEvidence
  | [] => ⟨.confirmed, "binary agrees with the reference model", observed⟩
  | (name, value) :: rest =>
      match observed.get? name with
      | none => ⟨.inconclusive, "binary printed no value for `" ++ name ++ "`", observed⟩
      | some n =>
          let seen := Word.truncate value.sort.width n
          if seen = value.raw then judge observed rest
          else
            ⟨.diverged,
              "binary printed " ++ name ++ "=" ++ Text.decimal seen ++ ", reference model gives "
                ++ Text.decimal value.raw, observed⟩

end Replay

structure Replayer where
  host : Host
  settings : ReplaySettings

namespace Replayer

def command? (r : Replayer) (binary : String) (stdin : Text.Bytes) : Option Command :=
  match r.settings.command.map (replaceAll binaryMark binary) with
  | [] => none
  | program :: args => some ⟨program, args, stdin⟩

/-- Replay inputs on a binary and compare its outputs with those of the reference
program. The time it took comes with the evidence. -/
def replay (r : Replayer) (binary : String) (reference : Program) (inputs : Env) (files : Files) :
    (ReplayEvidence × Nat) × Files :=
  match reference.evaluate inputs with
  | .error e =>
      ((.inconclusive ("reference model cannot be evaluated: " ++ e.message), 0), files)
  | .ok expected =>
      match r.command? binary (Replay.encodeInputs reference inputs) with
      | none => ((.inconclusive "no replay command configured", 0), files)
      | some command =>
          match r.host.run command (.ofWall r.settings.timeoutSecs) files with
          | (.error e, files) => ((.inconclusive e.message, 0), files)
          | (.ok o, files) =>
              if o.termination.isSuccess then
                ((Replay.judge (Replay.observations o.stdout.text) expected, o.elapsedMs), files)
              else
                ((.inconclusive ("binary " ++ o.termination.text), o.elapsedMs), files)

end Replayer
end Bench
end BitEquiv

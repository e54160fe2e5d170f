import BitEquiv.Bench.Replay

/-!
# Verdicts

The verdict on a case says whether the emitted program behaves like the reference.
A verdict of inequivalence may have inputs on which the two differ.
-/

namespace BitEquiv
namespace Bench

open Logic

inductive Finding where
  | equivalent
  | inequivalent
  | unknown
  | error
deriving DecidableEq

namespace Finding

def all : List Finding := [equivalent, inequivalent, unknown, error]

def text : Finding → String
  | equivalent => "equivalent"
  | inequivalent => "inequivalent"
  | unknown => "unknown"
  | error => "error"

end Finding

structure CexInput where
  name : String
  sort : String
  value : String
deriving DecidableEq

/-- Values on which two programs disagree, the inputs of the reference as they are shown
there, and the outputs in which the programs differ. -/
structure Counterexample where
  inputs : List CexInput
  outputs : List Program.OutputDiff
  values : Env
deriving DecidableEq

def plainText : Value → String
  | .bool b => if b then "true" else "false"
  | .word bits _ => Text.decimal bits

/-- The counterexample at an assignment. An input without a value is shown as zero. -/
def Counterexample.of (p : Program) (values : Env) (outputs : List Program.OutputDiff) :
    Counterexample where
  inputs := p.inputs.map fun (name, sort) =>
    ⟨name, sort.text, plainText ((values.get? name).getD (.zero sort))⟩
  outputs := outputs
  values := values

def Counterexample.inputText (c : Counterexample) : String :=
  String.intercalate ", " (c.inputs.map fun input => input.name ++ "=" ++ input.value)

/-- The outputs as `r: 4:bv8 vs 5:bv8`, with semicolons between them. -/
def Counterexample.outputText (c : Counterexample) : String :=
  String.intercalate "; " (c.outputs.map Program.OutputDiff.text)

structure Verdict where
  caseId : String
  finding : Finding
  solverMs : Nat
  counterexample : Option Counterexample
  detail : String
  replay : Option ReplayEvidence
deriving DecidableEq

def Verdict.plain (caseId : String) (finding : Finding) (detail : String) (solverMs : Nat) :
    Verdict :=
  ⟨caseId, finding, solverMs, none, detail, none⟩

end Bench
end BitEquiv

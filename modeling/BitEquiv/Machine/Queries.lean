import BitEquiv.Machine.Terms
import BitEquiv.Solver.Exhaustive

/-!
# Queries on a machine

Checking a query, running its definitions and trying all values of its inputs, with the
arithmetic of a machine.
-/

namespace BitEquiv
namespace Machine

open Logic Run

/-!
## Checks
-/

def scopeDefinitions : Assoc BvSort → List Definition → Run SortError (Assoc BvSort)
  | known, [] => .ok known
  | known, d :: rest => do
      let found ← sortOf known.get? d.term
      if found ≠ d.sort then throw (.error (.definitionSort d.name d.sort found))
      if known.has d.name then throw (.error (.duplicate d.name))
      scopeDefinitions (known.set d.name d.sort) rest

def checkAssertions (known : Assoc BvSort) : List Term → Run SortError Unit
  | [] => .ok ()
  | t :: rest => do
      if (← sortOf known.get? t) ≠ .bool then throw (.error .assertionSort)
      checkAssertions known rest

def validate (q : Query) : Run SortError (Assoc BvSort) := do
  let known ← of (Query.scopeInputs [] q.inputs)
  let known ← scopeDefinitions known q.definitions
  checkAssertions known q.assertions
  return known

/-!
## Values
-/

def definedValues : Env → List Definition → Run EvalError Env
  | env, [] => .ok env
  | env, d :: rest => do
      let v ← eval env d.term
      definedValues (env.set d.name v) rest

def holds (env : Env) : List Term → Run EvalError Bool
  | [] => .ok true
  | t :: rest => do
      match ← eval env t with
      | .bool true => holds env rest
      | .bool false => return false
      | .word .. => throw (.error (.illSorted "assert"))

def satisfiedBy (q : Query) (given : Env) : Run EvalError Bool := do
  let env ← definedValues (Query.inputValues given [] q.inputs) q.definitions
  holds env q.assertions

/-!
## Search

The counter and the widths of inputs have 64 bits here.
-/

def ofRaw : BvSort → Nat → Except Fault Value
  | .bool, raw => .ok (.bool (raw &&& 1 == 1))
  | .bitVec w, raw => ofBits raw w

/-- The assignment that a number stands for, its low bits first. -/
def assignment : List (String × BvSort) → Nat → Env → Except Fault Env
  | [], _, env => .ok env
  | (name, sort) :: rest, counter, env => do
      let low ← sub (← shiftLeft 64 1 sort.width) 1
      let value ← ofRaw sort (counter &&& low)
      assignment rest (← shiftRight 64 counter sort.width) (env.set name value)

def Run.wrap {ε ε' α : Type} (f : ε → ε') : Run ε α → Run ε' α
  | .ok a => .ok a
  | .error (.error e) => .error (.error (f e))
  | .error (.fault e) => .error (.fault e)

def search (q : Query) (wanted : List (String × BvSort)) (expired : Nat → Bool) (total : Nat) :
    Nat → Nat → Run Solver.SolverError Solver.Decision
  | 0, _ => .ok .unsat
  | remaining + 1, counter => do
      let beat ← op (rem counter Solver.Exhaustive.clockInterval)
      if beat = 0 && expired counter then
        return .unknown ("timeout after " ++ Text.decimal counter ++ " of " ++ Text.decimal total
          ++ " assignments")
      else
        let env ← op (assignment q.inputs counter [])
        if ← (satisfiedBy q env).wrap Solver.SolverError.eval then
          return .sat (Solver.Exhaustive.modelOver wanted env)
        else search q wanted expired total remaining (counter + 1)

def decide (bits : Nat) (expired : Nat → Bool) (q : Query) (wanted : List (String × BvSort)) :
    Run Solver.SolverError Solver.Decision := do
  let _ ← (validate q).wrap Solver.SolverError.malformedQuery
  let budget := min bits Solver.Exhaustive.maxBits
  if budget < q.inputBits then
    return .unknown ("input space of " ++ Text.decimal q.inputBits
      ++ " bits exceeds exhaustive budget of " ++ Text.decimal budget ++ " bits")
  else
    let total ← op (shiftLeft 64 1 q.inputBits)
    search q wanted expired total total 0

end Machine
end BitEquiv

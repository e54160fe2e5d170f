import BitEquiv.Logic.Typing
import BitEquiv.Logic.Eval

/-!
# Queries

A query asks for values of its inputs under which all its assertions hold.
Definitions name terms over the inputs and the definitions before them.
-/

namespace BitEquiv
namespace Logic

structure Definition where
  name : String
  sort : BvSort
  term : Term
deriving DecidableEq

structure Query where
  inputs : List (String × BvSort) := []
  definitions : List Definition := []
  assertions : List Term := []
deriving DecidableEq

namespace Query

def empty : Query := ⟨[], [], []⟩

def declare (q : Query) (name : String) (sort : BvSort) : Query :=
  { q with inputs := q.inputs ++ [(name, sort)] }

def define (q : Query) (name : String) (sort : BvSort) (term : Term) : Query :=
  { q with definitions := q.definitions ++ [⟨name, sort, term⟩] }

def assert (q : Query) (term : Term) : Query :=
  { q with assertions := q.assertions ++ [term] }

def append (q r : Query) : Query :=
  ⟨q.inputs ++ r.inputs, q.definitions ++ r.definitions, q.assertions ++ r.assertions⟩

def inputBits (q : Query) : Nat := Text.total (q.inputs.map (·.2.width))

def sortOf (q : Query) (name : String) : Option BvSort :=
  match q.inputs.lookup name with
  | some s => some s
  | none => (q.definitions.find? (·.name = name)).map (·.sort)

def scopeInputs : Assoc BvSort → List (String × BvSort) → Except SortError (Assoc BvSort)
  | known, [] => .ok known
  | known, (name, sort) :: rest =>
      if !sort.isValid then .error (.invalidInput name sort)
      else if known.has name then .error (.duplicate name)
      else scopeInputs (known.set name sort) rest

/-- Bring the definitions into scope: each of its declared sort over the names
before it, no name twice. -/
def scopeDefinitions : Assoc BvSort → List Definition → Except SortError (Assoc BvSort)
  | known, [] => .ok known
  | known, d :: rest => do
      let found ← d.term.sortOf known.get?
      if found ≠ d.sort then throw (.definitionSort d.name d.sort found)
      if known.has d.name then throw (.duplicate d.name)
      scopeDefinitions (known.set d.name d.sort) rest

def checkAssertions (known : Assoc BvSort) : List Term → Except SortError Unit
  | [] => .ok ()
  | t :: rest => do
      if (← t.sortOf known.get?) ≠ .bool then throw .assertionSort
      checkAssertions known rest

def validate (q : Query) : Except SortError (Assoc BvSort) := do
  let known ← scopeInputs [] q.inputs
  let known ← scopeDefinitions known q.definitions
  checkAssertions known q.assertions
  return known

def inputValues (given : Env) : Env → List (String × BvSort) → Env
  | env, [] => env
  | env, (name, sort) :: rest =>
      inputValues given (env.set name ((given.get? name).getD (.zero sort))) rest

def definedValues : Env → List Definition → Except EvalError Env
  | env, [] => .ok env
  | env, d :: rest => do
      let v ← d.term.eval env
      definedValues (env.set d.name v) rest

def evaluate (q : Query) (given : Env) : Except EvalError Env :=
  definedValues (inputValues given [] q.inputs) q.definitions

/-- Whether all assertions hold, up to the first that does not. -/
def holds (env : Env) : List Term → Except EvalError Bool
  | [] => .ok true
  | t :: rest => do
      match ← t.eval env with
      | .bool true => holds env rest
      | .bool false => return false
      | .word .. => throw (.illSorted "assert")

def satisfiedBy (q : Query) (given : Env) : Except EvalError Bool := do
  let env ← q.evaluate given
  holds env q.assertions

end Query
end Logic
end BitEquiv

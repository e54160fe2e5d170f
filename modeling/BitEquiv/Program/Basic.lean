import BitEquiv.Logic.Query

/-!
# Programs

A straight-line program over words: inputs, then bindings in order. Some bindings
are outputs. The term of a binding names inputs and earlier bindings.
-/

namespace BitEquiv

open Logic

structure Binding where
  name : String
  sort : BvSort
  term : Term
  isOutput : Bool
deriving DecidableEq

structure Program where
  name : String
  inputs : List (String × BvSort)
  bindings : List Binding
deriving DecidableEq

namespace Program

def outputs (p : Program) : List Binding := p.bindings.filter (·.isOutput)

def outputSorts (p : Program) : List (String × BvSort) :=
  p.outputs.map fun b => (b.name, b.sort)

/-- Equal inputs and bindings. The names of the programs do not count. -/
def sameDefinition (p q : Program) : Bool :=
  p.inputs == q.inputs && p.bindings == q.bindings

/-- Take over the input values; each must be given and have its sort. -/
def bindInputs (given : Env) : Env → List (String × BvSort) → Except EvalError Env
  | env, [] => .ok env
  | env, (name, sort) :: rest =>
      match given.get? name with
      | none => .error (.unbound name)
      | some v =>
          if v.sort = sort then bindInputs given (env.set name v) rest
          else .error (.illSorted "input")

def runBindings : Env → List Binding → Except EvalError (List (String × Value))
  | _, [] => .ok []
  | env, b :: rest => do
      let v ← b.term.eval env
      let outs ← runBindings (env.set b.name v) rest
      return if b.isOutput then (b.name, v) :: outs else outs

/-- The outputs at an assignment of the inputs, in order of declaration. -/
def evaluate (p : Program) (given : Env) : Except EvalError (List (String × Value)) := do
  let env ← bindInputs given [] p.inputs
  runBindings env p.bindings

end Program
end BitEquiv

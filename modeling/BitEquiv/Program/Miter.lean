import BitEquiv.Program.Basic

/-!
# Comparing two programs

Two programs with the same interface are put into one query over shared inputs.
It is satisfiable exactly when some input makes an output of the reference differ
from that of the candidate.
-/

namespace BitEquiv
namespace Program

open Logic

def inputSymbol (name : String) : String := "in_" ++ name

def bindingSymbol (side name : String) : String := side ++ "_" ++ name

def referenceSide : String := "o"

def candidateSide : String := "t"

def symbolOn (p : Program) (side name : String) : String :=
  if p.inputs.any (·.1 = name) then inputSymbol name else bindingSymbol side name

def definitionsOn (p : Program) (side : String) : List Definition :=
  p.bindings.map fun b =>
    ⟨bindingSymbol side b.name, b.sort, b.term.rename (p.symbolOn side)⟩

def sharedInputs (p : Program) : List (String × BvSort) :=
  p.inputs.map fun (name, sort) => (inputSymbol name, sort)

inductive InterfacePart where
  | inputs
  | outputs
deriving DecidableEq

def InterfacePart.text : InterfacePart → String
  | inputs => "inputs"
  | outputs => "outputs"

/-- How the interface of the candidate differs from that of the reference. -/
structure Mismatch where
  part : InterfacePart
  missing : List String
  extra : List String
  resorted : List (String × BvSort × BvSort)
deriving DecidableEq

namespace Mismatch

def between (part : InterfacePart) (reference candidate : List (String × BvSort)) : Mismatch where
  part := part
  missing := (reference.filter fun (n, _) => (candidate.lookup n).isNone).map (·.1)
  extra := (candidate.filter fun (n, _) => (reference.lookup n).isNone).map (·.1)
  resorted := reference.filterMap fun (n, s) =>
    match candidate.lookup n with
    | some t => if t = s then none else some (n, s, t)
    | none => none

def isEmpty (m : Mismatch) : Bool := m.missing.isEmpty && m.extra.isEmpty && m.resorted.isEmpty

def message (m : Mismatch) : String :=
  let missing :=
    if m.missing.isEmpty then []
    else ["missing in translation: " ++ String.intercalate ", " m.missing]
  let extra :=
    if m.extra.isEmpty then [] else ["only in translation: " ++ String.intercalate ", " m.extra]
  let resorted := m.resorted.map fun (n, s, t) =>
    "`" ++ n ++ "` is " ++ s.text ++ " in the original but " ++ t.text ++ " in translation"
  m.part.text ++ " differ: " ++ String.intercalate "; " (missing ++ extra ++ resorted)

end Mismatch

/-- The first difference between two interfaces, inputs before outputs. The order
of declarations does not count. -/
def mismatch? (reference candidate : Program) : Option Mismatch :=
  let inputs := Mismatch.between .inputs reference.inputs candidate.inputs
  let outputs := Mismatch.between .outputs reference.outputSorts candidate.outputSorts
  if !inputs.isEmpty then some inputs
  else if !outputs.isEmpty then some outputs
  else none

/-- The assertion that an output differs between the two sides. -/
def outputDiffers (name : String) : Term :=
  .distinct (.var (bindingSymbol referenceSide name)) (.var (bindingSymbol candidateSide name))

def miter (reference candidate : Program) : Query where
  inputs := reference.sharedInputs
  definitions :=
    reference.definitionsOn referenceSide ++ candidate.definitionsOn candidateSide
  assertions := [.or (reference.outputs.map fun b => outputDiffers b.name)]

def equivalenceQuery (reference candidate : Program) : Except Mismatch Query :=
  match mismatch? reference candidate with
  | some m => .error m
  | none => .ok (miter reference candidate)

/-- The inputs of a program at a model of a query; zero where the model has no
value of the right sort. -/
def modelInputs (p : Program) (model : Env) : Env :=
  p.inputs.map fun (name, sort) =>
    (name,
      match model.get? (inputSymbol name) with
      | some v => if v.sort = sort then v else .zero sort
      | none => .zero sort)

structure OutputDiff where
  name : String
  reference : Value
  candidate : Value
deriving DecidableEq

def OutputDiff.text (d : OutputDiff) : String :=
  d.name ++ ": " ++ d.reference.text ++ " vs " ++ d.candidate.text

/-- The outputs of the left list whose value on the right differs. -/
def diffs (right : List (String × Value)) :
    List (String × Value) → Except EvalError (List OutputDiff)
  | [] => .ok []
  | (name, v) :: rest =>
      match right.lookup name with
      | none => .error (.unbound name)
      | some w => do
          let ds ← diffs right rest
          return if v = w then ds else ⟨name, v, w⟩ :: ds

/-- The outputs on which two programs differ at an input, in the order of the
reference. -/
def compareAt (reference candidate : Program) (given : Env) :
    Except EvalError (List OutputDiff) := do
  let left ← reference.evaluate given
  let right ← candidate.evaluate given
  diffs right left

end Program
end BitEquiv

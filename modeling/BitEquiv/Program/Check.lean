import BitEquiv.Program.Basic
import BitEquiv.Program.Tree
import BitEquiv.Program.Fault

/-!
# Checking programs

Names are resolved and sorts checked declaration by declaration. The checker goes
on after a fault: a binding whose expression is at fault enters scope with its
declared sort, so that every fault is reported once.
-/

namespace BitEquiv
namespace Program

open Logic

structure Operand where
  term : Term
  sort : BvSort
  span : Span

def faultAt {α : Type} (span : Span) (f : Fault) : Except LocatedFault α := .error ⟨f, span⟩

def Operand.asBool (op : String) (a : Operand) : Except LocatedFault Term :=
  match a.sort with
  | .bool => .ok a.term
  | s => faultAt a.span (.expectedBool op s)

def Operand.asWord (op : String) (a : Operand) : Except LocatedFault (Term × Nat) :=
  match a.sort with
  | .bitVec w => .ok (a.term, w)
  | .bool => faultAt a.span (.expectedWord op)

/-- Check that two operands have one sort; the place is that of the second. -/
def sameSort (op : String) (a b : BvSort) (span : Span) : Except LocatedFault Unit :=
  if a = b then .ok () else faultAt span (.sortsDiffer op a b)

def atMostWidest (w : Nat) (span : Span) : Except LocatedFault Nat :=
  if maxWidth < w then faultAt span (.resultWidth w) else .ok w

def maxIndex : Nat := Text.wideLimit - 1

def wordPair (op : String) (a b : Operand) : Except LocatedFault (Term × Term × Nat) := do
  let (s, v) ← a.asWord op
  let (t, w) ← b.asWord op
  sameSort op (.bitVec v) (.bitVec w) b.span
  return (s, t, v)

def extended (op : String) (count : Located Nat) (a : Operand) :
    Except LocatedFault (Term × Nat × Nat) := do
  let (t, w) ← a.asWord op
  let width ← atMostWidest (min (w + count.value) maxIndex) count.span
  return (t, width - w, width)

/-- Apply an operator to checked operands. The numbers of indices and operands
have been checked before. -/
def applyOp (op : Operator) (indices : List (Located Nat)) (args : List Operand) (span : Span) :
    Except LocatedFault (Term × BvSort) :=
  match op, indices, args with
  | .const, [bits, width], [] => do
      if width.value = 0 then faultAt width.span .zeroWidth
      else
        let w ← atMostWidest width.value width.span
        if bits.value < Nat.pow 2 w then return (.ofBits bits.value w, .bitVec w)
        else faultAt bits.span (.valueRange bits.value w)
  | .not, _, [a] => do
      let t ← a.asBool op.name
      return (.not t, .bool)
  | .and, _, args => do
      let ts ← args.mapM (Operand.asBool op.name)
      return (.and ts, .bool)
  | .or, _, args => do
      let ts ← args.mapM (Operand.asBool op.name)
      return (.or ts, .bool)
  | .xor, _, [a, b] => do
      let s ← a.asBool op.name
      let t ← b.asBool op.name
      return (.xor s t, .bool)
  | .implies, _, [a, b] => do
      let s ← a.asBool op.name
      let t ← b.asBool op.name
      return (.implies s t, .bool)
  | .eq, _, [a, b] => do
      sameSort op.name a.sort b.sort b.span
      return (.eq a.term b.term, .bool)
  | .distinct, _, [a, b] => do
      sameSort op.name a.sort b.sort b.span
      return (.distinct a.term b.term, .bool)
  | .ite, _, [c, a, b] => do
      let t ← c.asBool op.name
      sameSort op.name a.sort b.sort b.span
      return (.ite t a.term b.term, a.sort)
  | .unary o, _, [a] => do
      let (t, w) ← a.asWord op.name
      return (.unary o t, .bitVec w)
  | .binary o, _, [a, b] => do
      let (s, t, w) ← wordPair op.name a b
      return (.binary o s t, .bitVec w)
  | .compare o, _, [a, b] => do
      let (s, t, _) ← wordPair op.name a b
      return (.compare o s t, .bool)
  | .concat, _, [a, b] => do
      let (s, v) ← a.asWord op.name
      let (t, w) ← b.asWord op.name
      let width ← atMostWidest (v + w) span
      return (.concat s t, .bitVec width)
  | .extract, [hi, lo], [a] => do
      let (t, w) ← a.asWord op.name
      if lo.value ≤ hi.value ∧ hi.value < w then
        return (.extract hi.value lo.value t, .bitVec (hi.value - lo.value + 1))
      else faultAt a.span (.extractRange hi.value lo.value w)
  | .zeroExtend, [k], [a] => do
      let (t, count, width) ← extended op.name k a
      return (.zeroExtend count t, .bitVec width)
  | .signExtend, [k], [a] => do
      let (t, count, width) ← extended op.name k a
      return (.signExtend count t, .bitVec width)
  | _, _, _ => faultAt span (.missingOperand op)

mutual

def checkExpr (scope : Assoc BvSort) : Expr → Except LocatedFault (Term × BvSort)
  | .var x span =>
      match scope.get? x with
      | some s => .ok (.var x, s)
      | none => faultAt span (.unknownName x)
  | .boolLit b _ => .ok (.boolLit b, .bool)
  | .bvLit bits w _ => .ok (.ofBits bits w, .bitVec w)
  | .app name indices args span =>
      match Operator.ofName? name.value with
      | none => faultAt name.span (.unknownOperator name.value)
      | some op =>
          if indices.length ≠ op.indexCount then
            faultAt span (.indexCount name.value op.indexCount indices.length)
          else if !op.arity.accepts args.length then
            faultAt span (.operandCount name.value op.arity args.length)
          else do
            let operands ← checkArgs scope args
            applyOp op indices operands span

def checkArgs (scope : Assoc BvSort) : List Expr → Except LocatedFault (List Operand)
  | [] => .ok []
  | e :: rest => do
      let (t, s) ← checkExpr scope e
      let operands ← checkArgs scope rest
      return ⟨t, s, e.span⟩ :: operands

end

/-- What checking has found so far; lists are in order. -/
structure Checked where
  scope : Assoc BvSort
  inputs : List (String × BvSort)
  bindings : List Binding
  faults : List LocatedFault

def Checked.empty : Checked := ⟨[], [], [], []⟩

def Checked.fault (c : Checked) (f : LocatedFault) : Checked := { c with faults := c.faults ++ [f] }

def Checked.declare (c : Checked) (name : String) (sort : BvSort) : Checked :=
  { c with scope := c.scope.set name sort }

def checkBinding (scope : Assoc BvSort) (isOutput : Bool) (name : String) (declared : BvSort)
    (e : Expr) : Except LocatedFault Binding := do
  let (t, found) ← checkExpr scope e
  if found = declared then return ⟨name, declared, t, isOutput⟩
  else faultAt e.span (.declaredSort name declared found)

/-- Check one declaration. A name with an invalid sort, or one that is taken,
does not enter scope. -/
def Checked.decl (c : Checked) (d : Decl) : Checked :=
  if !d.sort.value.isValid then c.fault ⟨.invalidWidth, d.sort.span⟩
  else if c.scope.has d.name.value then c.fault ⟨.duplicate d.name.value, d.name.span⟩
  else
    match d with
    | .input name sort _ =>
        Checked.declare { c with inputs := c.inputs ++ [(name.value, sort.value)] }
          name.value sort.value
    | .binding isOutput name sort e _ =>
        match checkBinding c.scope isOutput name.value sort.value e with
        | .ok b => Checked.declare { c with bindings := c.bindings ++ [b] } name.value sort.value
        | .error f => (c.fault f).declare name.value sort.value

def ofTree (t : Tree) : Except LoadError Program :=
  let c := t.decls.foldl Checked.decl .empty
  if !c.faults.isEmpty then .error (.ofFaults c.faults)
  else if c.bindings.any (·.isOutput) then .ok ⟨t.name.value, c.inputs, c.bindings⟩
  else .error (.noOutputs t.name.value)

end Program
end BitEquiv

import BitEquiv.Bench.Replay
import BitEquiv.Machine.Terms
import BitEquiv.Program.Load

/-!
# Programs on a machine

Loading a program, running it and writing its inputs as bytes, with the arithmetic of a
machine.
-/

namespace BitEquiv
namespace Machine

open Logic Run
open Program (Operator Operand Expr Decl Located LocatedFault Span Checked Tree maxIndex
  atMostWidest faultAt)

/-!
## Operators
-/

def literal (bits w : Nat) : Except Fault Term := do return .ofBits (bits &&& (← mask w)) w

def beyond (bits w : Nat) : Except Fault Nat :=
  if w < maxWidth then shiftRight maxWidth bits w else .ok 0

/-- A word extended by the number of bits that an index gives. Indices have 128 bits. -/
def extended (name : String) (count : Located Nat) (a : Operand) :
    Run LocatedFault (Term × Nat × Nat) := do
  let (t, w) ← of (a.asWord name)
  let width ← of (atMostWidest (min (w + count.value) maxIndex) count.span)
  let more ← op (sub width w)
  return (t, more, width)

def applyOp (o : Operator) (indices : List (Located Nat)) (args : List Operand) (span : Span) :
    Run LocatedFault (Term × BvSort) :=
  match o, indices, args with
  | .const, [bits, width], [] => do
      if width.value = 0 then of (faultAt width.span .zeroWidth)
      else
        let w ← of (atMostWidest width.value width.span)
        if (← op (beyond bits.value w)) = 0 then
          let t ← op (literal bits.value w)
          return (t, .bitVec w)
        else of (faultAt bits.span (.valueRange bits.value w))
  | .concat, _, [a, b] => do
      let (s, v) ← of (a.asWord o.name)
      let (t, w) ← of (b.asWord o.name)
      let sum ← op (add maxWidth v w)
      let width ← of (atMostWidest sum span)
      return (.concat s t, .bitVec width)
  | .extract, [hi, lo], [a] => do
      let (t, w) ← of (a.asWord o.name)
      if lo.value ≤ hi.value ∧ hi.value < w then
        let width ← op (do add 32 (← sub hi.value lo.value) 1)
        return (.extract hi.value lo.value t, .bitVec width)
      else of (faultAt a.span (.extractRange hi.value lo.value w))
  | .zeroExtend, [k], [a] => do
      let (t, count, width) ← extended o.name k a
      return (.zeroExtend count t, .bitVec width)
  | .signExtend, [k], [a] => do
      let (t, count, width) ← extended o.name k a
      return (.signExtend count t, .bitVec width)
  | o, indices, args => of (Program.applyOp o indices args span)

/-!
## Expressions
-/

mutual

def checkExpr (scope : Assoc BvSort) : Expr → Run LocatedFault (Term × BvSort)
  | .var x span =>
      match scope.get? x with
      | some s => .ok (.var x, s)
      | none => of (faultAt span (.unknownName x))
  | .boolLit b _ => .ok (.boolLit b, .bool)
  | .bvLit bits w _ => do
      let t ← op (literal bits w)
      return (t, .bitVec w)
  | .app name indices args span =>
      match Operator.ofName? name.value with
      | none => of (faultAt name.span (.unknownOperator name.value))
      | some o =>
          if indices.length ≠ o.indexCount then
            of (faultAt span (.indexCount name.value o.indexCount indices.length))
          else if !o.arity.accepts args.length then
            of (faultAt span (.operandCount name.value o.arity args.length))
          else do
            let operands ← checkArgs scope args
            applyOp o indices operands span

def checkArgs (scope : Assoc BvSort) : List Expr → Run LocatedFault (List Operand)
  | [] => .ok []
  | e :: rest => do
      let (t, s) ← checkExpr scope e
      let operands ← checkArgs scope rest
      return ⟨t, s, e.span⟩ :: operands

end

/-!
## Texts
-/

def checkBinding (scope : Assoc BvSort) (isOutput : Bool) (name : String) (declared : BvSort)
    (e : Expr) : Run LocatedFault Binding := do
  let (t, found) ← checkExpr scope e
  if found = declared then return ⟨name, declared, t, isOutput⟩
  else of (faultAt e.span (.declaredSort name declared found))

/-- Check one declaration. Faults of the text are collected; one of the machine ends it all. -/
def decl (c : Checked) (d : Decl) : Except Fault Checked :=
  if !d.sort.value.isValid then .ok (c.fault ⟨.invalidWidth, d.sort.span⟩)
  else if c.scope.has d.name.value then .ok (c.fault ⟨.duplicate d.name.value, d.name.span⟩)
  else
    match d with
    | .input name sort _ =>
        .ok (Checked.declare { c with inputs := c.inputs ++ [(name.value, sort.value)] }
          name.value sort.value)
    | .binding isOutput name sort e _ =>
        match checkBinding c.scope isOutput name.value sort.value e with
        | .ok b => .ok (Checked.declare { c with bindings := c.bindings ++ [b] }
            name.value sort.value)
        | .error (.error f) => .ok ((c.fault f).declare name.value sort.value)
        | .error (.fault f) => .error f

def ofTree (t : Tree) : Run Program.LoadError Program := do
  let c ← op (t.decls.foldlM decl .empty)
  if !c.faults.isEmpty then throw (.error (.ofFaults c.faults))
  else if c.bindings.any (·.isOutput) then return ⟨t.name.value, c.inputs, c.bindings⟩
  else throw (.error (.noOutputs t.name.value))

def load (s : List Char) : Run Program.LoadError Program :=
  match Program.parse s with
  | .error f => .error (.error (.single f))
  | .ok t => ofTree t

/-!
## Runs
-/

def runBindings : Env → List Binding → Run EvalError (List (String × Value))
  | _, [] => .ok []
  | env, b :: rest => do
      let v ← eval env b.term
      let outs ← runBindings (env.set b.name v) rest
      return if b.isOutput then (b.name, v) :: outs else outs

def evaluate (p : Program) (given : Env) : Run EvalError (List (String × Value)) := do
  let env ← of (Program.bindInputs given [] p.inputs)
  runBindings env p.bindings

/-!
## Bytes of inputs
-/

open Bench.Replay (byteCount lowBytes)

/-- The bytes of one input, cut from the sixteen bytes of a number. -/
def inputBytes (values : Env) (input : String × BvSort) : Except Fault Text.Bytes :=
  slice (byteCount input.2) (lowBytes 16 ((values.get? input.1).getD (.zero input.2)).raw)

/-- The bytes of inputs behind the bytes that were written before. -/
def appendInputs (values : Env) (bytes : Text.Bytes) :
    List (String × BvSort) → Except Fault Text.Bytes
  | [] => .ok bytes
  | input :: rest => do
      let more ← inputBytes values input
      appendInputs values (bytes ++ more) rest

def encodeInputs (p : Program) (values : Env) : Except Fault Text.Bytes :=
  appendInputs values [] p.inputs

end Machine
end BitEquiv

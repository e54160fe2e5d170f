import BitEquiv.Machine.Arithmetic
import BitEquiv.Logic.Typing

/-!
# Terms on a machine

Sorts and values of terms, computed with the arithmetic of a machine.
-/

namespace BitEquiv
namespace Machine

open Logic

/-!
## Computations that can stop
-/

inductive Halt (ε : Type) where
  | fault (f : Fault)
  | error (e : ε)

abbrev Run (ε α : Type) := Except (Halt ε) α

namespace Run

/-- A computation without machine operations. It has no faults and ends as it is. -/
def of {ε α : Type} (x : Except ε α) : Run ε α := x.mapError .error

def op {ε α : Type} (x : Except Fault α) : Run ε α := x.mapError .fault

end Run

open Run

/-!
## Sorts
-/

mutual

def sortOf (scope : Scope) : Term → Run SortError BvSort
  | .var x =>
      match scope x with
      | some s => .ok s
      | none => .error (.error (.unbound x))
  | .boolLit _ => .ok .bool
  | .bvLit _ w _ => of (Term.checkedWidth w)
  | .not a => do
      of (Term.asBoolSort (← sortOf scope a))
      return .bool
  | .and as => do
      allBool scope as
      return .bool
  | .or as => do
      allBool scope as
      return .bool
  | .xor a b => do
      of (Term.asBoolSort (← sortOf scope a))
      of (Term.asBoolSort (← sortOf scope b))
      return .bool
  | .implies a b => do
      of (Term.asBoolSort (← sortOf scope a))
      of (Term.asBoolSort (← sortOf scope b))
      return .bool
  | .eq a b => do
      let l ← sortOf scope a
      let r ← sortOf scope b
      if l = r then return .bool else throw (.error (.incomparable l r))
  | .distinct a b => do
      let l ← sortOf scope a
      let r ← sortOf scope b
      if l = r then return .bool else throw (.error (.incomparable l r))
  | .ite c a b => do
      of (Term.asBoolSort (← sortOf scope c))
      let t ← sortOf scope a
      let e ← sortOf scope b
      if t = e then return t else throw (.error (.branches t e))
  | .unary _ a => do
      let w ← of (Term.asWordSort (← sortOf scope a))
      return .bitVec w
  | .binary _ a b => do
      let l ← of (Term.asWordSort (← sortOf scope a))
      let r ← of (Term.asWordSort (← sortOf scope b))
      if l = r then return .bitVec l else throw (.error (.widthMismatch l r))
  | .compare _ a b => do
      let l ← of (Term.asWordSort (← sortOf scope a))
      let r ← of (Term.asWordSort (← sortOf scope b))
      if l = r then return .bool else throw (.error (.widthMismatch l r))
  | .extract hi lo a => do
      let w ← of (Term.asWordSort (← sortOf scope a))
      if lo ≤ hi ∧ hi < w then
        let width ← op (do add 32 (← sub hi lo) 1)
        return .bitVec width
      else throw (.error (.extractRange hi lo w))
  | .concat a b => do
      let h ← of (Term.asWordSort (← sortOf scope a))
      let l ← of (Term.asWordSort (← sortOf scope b))
      let width ← op (add 32 h l)
      of (Term.checkedWidth width)
  | .zeroExtend k a => do
      let w ← of (Term.asWordSort (← sortOf scope a))
      of (Term.checkedWidth (Word.extended w k))
  | .signExtend k a => do
      let w ← of (Term.asWordSort (← sortOf scope a))
      of (Term.checkedWidth (Word.extended w k))

def allBool (scope : Scope) : List Term → Run SortError Unit
  | [] => .ok ()
  | t :: ts => do
      of (Term.asBoolSort (← sortOf scope t))
      allBool scope ts

end

/-!
## Values
-/

/-- An operation on the bits of one word, before the result is cut. -/
def wideUnary (s : Nat) : UnaryOp → Nat
  | .not => Word.not maxWidth s
  | .neg => Word.neg maxWidth s

def widened (bits : Except Fault Nat) (width : Nat) : Run EvalError Value :=
  if maxWidth < width then throw (.error (.tooWide width))
  else op (do ofBits (← bits) width)

mutual

def eval (env : Env) : Term → Run EvalError Value
  | .var x =>
      match env.get? x with
      | some v => .ok v
      | none => .error (.error (.unbound x))
  | .boolLit b => .ok (.bool b)
  | .bvLit bits w _ => op (ofBits bits w)
  | .not a => do
      let b ← of ((← eval env a).expectBool "not")
      return .bool (!b)
  | .and as => do
      let bs ← evalAll env "and" as
      return .bool (bs.all id)
  | .or as => do
      let bs ← evalAll env "or" as
      return .bool (bs.any id)
  | .xor a b => do
      let l ← of ((← eval env a).expectBool "xor")
      let r ← of ((← eval env b).expectBool "xor")
      return .bool (l != r)
  | .implies a b => do
      let l ← of ((← eval env a).expectBool "=>")
      if l then
        let r ← of ((← eval env b).expectBool "=>")
        return .bool r
      else return .bool true
  | .eq a b => do
      let l ← eval env a
      let r ← eval env b
      return .bool (← of (l.equal r))
  | .distinct a b => do
      let l ← eval env a
      let r ← eval env b
      return .bool (!(← of (l.equal r)))
  | .ite c a b => do
      let t ← of ((← eval env c).expectBool "ite")
      if t then eval env a else eval env b
  | .unary o a => do
      let (s, w) ← of ((← eval env a).expectWord o.name)
      op (ofBits (wideUnary s o) w)
  | .binary o a b => do
      let l ← eval env a
      let r ← eval env b
      let (s, t, w) ← of (l.expectWords o.name r)
      op (do ofBits (← binary w s t o) w)
  | .compare o a b => do
      let l ← eval env a
      let r ← eval env b
      let (s, t, w) ← of (l.expectWords o.name r)
      return .bool (← op (compare w s t o))
  | .extract hi lo a => do
      let (s, w) ← of ((← eval env a).expectWord "extract")
      if lo ≤ hi ∧ hi < w then
        let bits ← op (shiftRight maxWidth s lo)
        let width ← op (do add 32 (← sub hi lo) 1)
        op (ofBits bits width)
      else throw (.error (.badExtract hi lo w))
  | .concat a b => do
      let (h, v) ← of ((← eval env a).expectWord "concat")
      let (l, w) ← of ((← eval env b).expectWord "concat")
      let width ← op (add 32 v w)
      widened (do
        let high ← if maxWidth ≤ w then .ok 0 else shiftLeft maxWidth h w
        return high ||| l) width
  | .zeroExtend k a => do
      let (s, w) ← of ((← eval env a).expectWord "zero_extend")
      widened (.ok s) (Word.extended w k)
  | .signExtend k a => do
      let (s, w) ← of ((← eval env a).expectWord "sign_extend")
      widened (do return Word.ofInt maxWidth (← toSigned w s)) (Word.extended w k)

def evalAll (env : Env) (op : String) : List Term → Run EvalError (List Bool)
  | [] => .ok []
  | t :: ts => do
      let b ← of ((← eval env t).expectBool op)
      let bs ← evalAll env op ts
      return b :: bs

end

end Machine
end BitEquiv

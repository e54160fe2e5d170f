import BitEquiv.Logic.Term

/-!
# Sorts of terms

A term has at most one sort in a scope. Operands are looked at from left to
right, and the first fault is reported.
-/

namespace BitEquiv
namespace Logic

inductive SortError where
  | unbound (name : String)
  | expectedBool (found : BvSort)
  | expectedWord
  | widthMismatch (lhs rhs : Nat)
  | resultWidth (width : Nat)
  | incomparable (lhs rhs : BvSort)
  | branches (yes no : BvSort)
  | extractRange (hi lo width : Nat)
  | invalidInput (name : String) (sort : BvSort)
  | duplicate (name : String)
  | definitionSort (name : String) (declared found : BvSort)
  | assertionSort
  | nodeWidth (node : String) (expected found : Nat)
  | sliceRange (hi lo width : Nat)
deriving DecidableEq

def SortError.cause : SortError → String
  | unbound x => "unbound variable `" ++ x ++ "`"
  | expectedBool s => "expected bool operand, found " ++ s.text
  | expectedWord => "expected bit-vector operand, found bool"
  | widthMismatch l r => "width mismatch: bv" ++ Text.decimal l ++ " vs bv" ++ Text.decimal r
  | resultWidth w =>
      "result width " ++ Text.decimal w ++ " outside 1..=" ++ Text.decimal maxWidth
  | incomparable l r => "cannot compare " ++ l.text ++ " with " ++ r.text
  | branches t e => "ite branches differ: " ++ t.text ++ " vs " ++ e.text
  | extractRange hi lo w =>
      "extract [" ++ Text.decimal hi ++ ":" ++ Text.decimal lo ++ "] out of range for bv"
        ++ Text.decimal w
  | invalidInput x s => "input `" ++ x ++ "` has invalid sort " ++ s.text
  | duplicate x => "`" ++ x ++ "` declared twice"
  | definitionSort x d f => "`" ++ x ++ "` declared " ++ d.text ++ " but defined as " ++ f.text
  | assertionSort => "assertion is not boolean"
  | nodeWidth n e f =>
      "`" ++ n ++ "` expects width " ++ Text.decimal e ++ ", found " ++ Text.decimal f
  | sliceRange hi lo w =>
      "slice [" ++ Text.decimal hi ++ ":" ++ Text.decimal lo ++ "] out of range for bv"
        ++ Text.decimal w

def SortError.message (e : SortError) : String := "ill-sorted term: " ++ e.cause

abbrev Scope := String → Option BvSort

namespace Term

def checkedWidth (w : Nat) : Except SortError BvSort :=
  if w = 0 ∨ maxWidth < w then .error (.resultWidth w) else .ok (.bitVec w)

def asBoolSort : BvSort → Except SortError Unit
  | .bool => .ok ()
  | .bitVec w => .error (.expectedBool (.bitVec w))

def asWordSort : BvSort → Except SortError Nat
  | .bool => .error .expectedWord
  | .bitVec w => .ok w

mutual

def sortOf (scope : Scope) : Term → Except SortError BvSort
  | var x =>
      match scope x with
      | some s => .ok s
      | none => .error (.unbound x)
  | boolLit _ => .ok .bool
  | bvLit _ w _ => checkedWidth w
  | not a => do
      asBoolSort (← sortOf scope a)
      return .bool
  | and as => do
      allBool scope as
      return .bool
  | or as => do
      allBool scope as
      return .bool
  | xor a b => do
      asBoolSort (← sortOf scope a)
      asBoolSort (← sortOf scope b)
      return .bool
  | implies a b => do
      asBoolSort (← sortOf scope a)
      asBoolSort (← sortOf scope b)
      return .bool
  | eq a b => do
      let l ← sortOf scope a
      let r ← sortOf scope b
      if l = r then return .bool else throw (.incomparable l r)
  | distinct a b => do
      let l ← sortOf scope a
      let r ← sortOf scope b
      if l = r then return .bool else throw (.incomparable l r)
  | ite c a b => do
      asBoolSort (← sortOf scope c)
      let t ← sortOf scope a
      let e ← sortOf scope b
      if t = e then return t else throw (.branches t e)
  | unary _ a => do
      let w ← asWordSort (← sortOf scope a)
      return .bitVec w
  | binary _ a b => do
      let l ← asWordSort (← sortOf scope a)
      let r ← asWordSort (← sortOf scope b)
      if l = r then return .bitVec l else throw (.widthMismatch l r)
  | compare _ a b => do
      let l ← asWordSort (← sortOf scope a)
      let r ← asWordSort (← sortOf scope b)
      if l = r then return .bool else throw (.widthMismatch l r)
  | extract hi lo a => do
      let w ← asWordSort (← sortOf scope a)
      if lo ≤ hi ∧ hi < w then return .bitVec (hi - lo + 1) else throw (.extractRange hi lo w)
  | concat a b => do
      let h ← asWordSort (← sortOf scope a)
      let l ← asWordSort (← sortOf scope b)
      checkedWidth (h + l)
  | zeroExtend k a => do
      let w ← asWordSort (← sortOf scope a)
      checkedWidth (Word.extended w k)
  | signExtend k a => do
      let w ← asWordSort (← sortOf scope a)
      checkedWidth (Word.extended w k)

def allBool (scope : Scope) : List Term → Except SortError Unit
  | [] => .ok ()
  | t :: ts => do
      asBoolSort (← sortOf scope t)
      allBool scope ts

end

end Term
end Logic
end BitEquiv

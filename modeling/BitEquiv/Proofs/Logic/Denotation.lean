import BitEquiv.Proofs.Logic.Typing
import BitEquiv.Logic.Eval

/-!
# The standard meaning of terms

A term denotes a truth value or a vector of bits, as the theory of fixed-size bit-vectors
has it. A vector knows its width and holds nothing beyond it. The meaning is defined
without the evaluator: nothing is cut to size, widths have no upper limit, and a term whose
operands do not fit together has no meaning.
-/

namespace BitEquiv
namespace Logic

inductive Meaning where
  | bool (b : Bool)
  | bits (width : Nat) (x : BitVec width)
deriving DecidableEq

namespace Meaning

def sort : Meaning → BvSort
  | bool _ => .bool
  | bits w _ => .bitVec w

def value : Meaning → Value
  | bool b => .bool b
  | bits w x => .word x.toNat w

def asBool : Meaning → Option Bool
  | bool b => some b
  | bits .. => none

def onBits (f : (w : Nat) → BitVec w → Option Meaning) : Meaning → Option Meaning
  | bool _ => none
  | bits w x => f w x

def onPair (f : (w : Nat) → BitVec w → BitVec w → Meaning) : Meaning → Meaning → Option Meaning
  | bits v x, bits w y => if h : v = w then some (f w (x.cast h) y) else none
  | _, _ => none

def equal (l r : Meaning) : Option Bool := if l.sort = r.sort then some (decide (l = r)) else none

end Meaning

def Value.meaning : Value → Meaning
  | .bool b => .bool b
  | .word bits w => .bits w (BitVec.ofNat w bits)

def UnaryOp.denote {w : Nat} (x : BitVec w) : UnaryOp → BitVec w
  | .not => ~~~x
  | .neg => -x

/-- A quotient by zero is all ones and a remainder by zero is the dividend. Signed quotients
and remainders are those of the magnitudes with the signs put back. -/
def BinaryOp.denote {w : Nat} (x y : BitVec w) : BinaryOp → BitVec w
  | .add => x + y
  | .sub => x - y
  | .mul => x * y
  | .udiv => x.smtUDiv y
  | .urem => x.umod y
  | .sdiv => x.smtSDiv y
  | .srem => x.srem y
  | .and => x &&& y
  | .or => x ||| y
  | .xor => x ^^^ y
  | .shl => x <<< y.toNat
  | .lshr => x >>> y.toNat
  | .ashr => x.sshiftRight y.toNat

def CompareOp.denote {w : Nat} (x y : BitVec w) : CompareOp → Bool
  | .ult => x.ult y
  | .ule => x.ule y
  | .ugt => y.ult x
  | .uge => y.ule x
  | .slt => x.slt y
  | .sle => x.sle y
  | .sgt => y.slt x
  | .sge => y.sle x

abbrev Interpretation := String → Option Meaning

def Env.interpretation (env : Env) : Interpretation := fun x => (env.get? x).map Value.meaning

namespace Term

mutual

def denote (ρ : Interpretation) : Term → Option Meaning
  | var x => ρ x
  | boolLit b => some (.bool b)
  | bvLit bits w _ => some (.bits w (BitVec.ofNat w bits))
  | not a => do
      let p ← (← denote ρ a).asBool
      return .bool (!p)
  | and as => do
      let ps ← denoteAll ρ as
      return .bool (ps.all id)
  | or as => do
      let ps ← denoteAll ρ as
      return .bool (ps.any id)
  | xor a b => do
      let p ← (← denote ρ a).asBool
      let q ← (← denote ρ b).asBool
      return .bool (p ^^ q)
  | implies a b => do
      let p ← (← denote ρ a).asBool
      let q ← (← denote ρ b).asBool
      return .bool (!p || q)
  | eq a b => do
      let p ← (← denote ρ a).equal (← denote ρ b)
      return .bool p
  | distinct a b => do
      let p ← (← denote ρ a).equal (← denote ρ b)
      return .bool (!p)
  | ite c a b => do
      let p ← (← denote ρ c).asBool
      let l ← denote ρ a
      let r ← denote ρ b
      if l.sort = r.sort then return (if p then l else r) else none
  | unary op a => do (← denote ρ a).onBits fun w x => some (.bits w (op.denote x))
  | binary op a b => do
      (← denote ρ a).onPair (fun w x y => .bits w (op.denote x y)) (← denote ρ b)
  | compare op a b => do
      (← denote ρ a).onPair (fun _ x y => .bool (op.denote x y)) (← denote ρ b)
  | extract hi lo a => do
      (← denote ρ a).onBits fun w x =>
        if lo ≤ hi ∧ hi < w then some (.bits (hi - lo + 1) (x.extractLsb hi lo)) else none
  | concat a b => do
      let l ← denote ρ a
      let r ← denote ρ b
      l.onBits fun v x => r.onBits fun w y => some (.bits (v + w) (x ++ y))
  | zeroExtend k a => do
      (← denote ρ a).onBits fun w x => some (.bits (w + k) (x.zeroExtend (w + k)))
  | signExtend k a => do
      (← denote ρ a).onBits fun w x => some (.bits (w + k) (x.signExtend (w + k)))

def denoteAll (ρ : Interpretation) : List Term → Option (List Bool)
  | [] => some []
  | t :: ts => do
      let p ← (← denote ρ t).asBool
      let ps ← denoteAll ρ ts
      return p :: ps

end

end Term

/-!
## Values and what they stand for
-/

namespace Meaning

theorem sort_value (m : Meaning) : m.value.sort = m.sort := by
  cases m with
  | bool b => rfl
  | bits w x => rfl

theorem meaning_value (m : Meaning) : m.value.meaning = m := by
  cases m with
  | bool b => rfl
  | bits w x => simp [value, Value.meaning]

theorem sort_meaning (v : Value) : v.meaning.sort = v.sort := by
  cases v with
  | bool b => rfl
  | word bits w => rfl

theorem value_injective {l r : Meaning} (h : l.value = r.value) : l = r := by
  rw [← meaning_value l, h, meaning_value]

theorem sort_eq_bool {m : Meaning} (h : m.sort = .bool) : ∃ b, m = .bool b := by
  cases m with
  | bool b => exact ⟨b, rfl⟩
  | bits w x => cases h

theorem sort_eq_bitVec {m : Meaning} {w : Nat} (h : m.sort = .bitVec w) :
    ∃ x, m = .bits w x := by
  cases m with
  | bool b => cases h
  | bits v x =>
      cases h
      exact ⟨x, rfl⟩

@[simp] theorem onPair_bits (f : (w : Nat) → BitVec w → BitVec w → Meaning) {w : Nat}
    (x y : BitVec w) :
    (bits w x).onPair f (bits w y) = some (f w x y) := by
  simp [onPair]

theorem equal_of_sort_eq {l r : Meaning} (h : l.sort = r.sort) :
    l.equal r = some (decide (l = r)) :=
  if_pos h

end Meaning

end Logic
end BitEquiv

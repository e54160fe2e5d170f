import BitEquiv.Machine.Arithmetic
import BitEquiv.Proofs.Logic.Arithmetic
import BitEquiv.Proofs.Logic.Evaluation

/-!
# Words on a machine

Each operation as a machine runs it is the operation on words that it stands for, and at the
widths that words can have none is a fault.
-/

namespace BitEquiv
namespace Machine

open Logic

section Operations

variable {bits a b k : Nat}

theorem add_eq (h : a + b < 2 ^ bits) : add bits a b = .ok (a + b) := if_pos h

theorem sub_eq (h : b ≤ a) : sub a b = .ok (a - b) := if_pos h

theorem shiftLeft_eq (h : k < bits) : shiftLeft bits a k = .ok ((a <<< k) % 2 ^ bits) := if_pos h

theorem shiftRight_eq (h : k < bits) : shiftRight bits a k = .ok (a >>> k) := if_pos h

theorem shiftSigned_eq {z : Int} (h : k < bits) : shiftSigned bits z k = .ok (z >>> k) := if_pos h

theorem div_eq (h : b ≠ 0) : div a b = .ok (a / b) := if_neg h

theorem rem_eq (h : b ≠ 0) : rem a b = .ok (a % b) := if_neg h

theorem slice_eq {count : Nat} {buffer : Text.Bytes} (h : count ≤ buffer.length) :
    slice count buffer = .ok (buffer.take count) :=
  if_pos h

theorem shiftLeft_one (h : k < bits) : shiftLeft bits 1 k = .ok (2 ^ k) := by
  rw [shiftLeft_eq h, Nat.one_shiftLeft, Nat.mod_eq_of_lt (Nat.pow_lt_pow_right (by decide) h)]

end Operations

/-!
## Words of a valid width
-/

section Words

variable {w s t : Nat}

@[simp] theorem mask_eq (w : Nat) : mask w = .ok (Word.mask w) := by
  unfold mask Word.mask Word.modulus
  split
  · rename_i h
    rw [Nat.min_eq_right h]
    rfl
  · rename_i h
    rw [Nat.min_eq_left (by omega), shiftLeft_one (by omega)]
    exact sub_eq Nat.one_le_two_pow

theorem and_mask (n w : Nat) : n &&& Word.mask w = Word.truncate w n :=
  Nat.and_two_pow_sub_one_eq_mod n (min w maxWidth)

@[simp] theorem ofBits_eq (bits w : Nat) : ofBits bits w = .ok (.ofBits bits w) := by
  unfold ofBits
  rw [mask_eq]
  show Except.ok (Value.word (bits &&& Word.mask w) w) = _
  rw [and_mask]
  rfl

theorem msb_eq (hmax : w ≤ maxWidth) (s : Nat) : msb w s = .ok (Word.msb w s) := by
  unfold msb Word.msb
  split
  · rename_i hpos
    rw [sub_eq hpos]
    show shiftRight maxWidth s (w - 1) >>= _ = _
    rw [shiftRight_eq (by omega), Nat.min_eq_left hmax, decide_eq_true hpos, Bool.true_and,
      Nat.testBit_eq_decide_div_mod_eq]
    show Except.ok (s >>> (w - 1) &&& 1 == 1) = _
    rw [Nat.and_one_is_mod, Nat.shiftRight_eq_div_pow]
    rfl
  · rename_i hpos
    rw [decide_eq_false hpos, Bool.false_and]

theorem toSigned_eq (hmax : w ≤ maxWidth) (s : Nat) : toSigned w s = .ok (Word.toInt w s) := by
  unfold toSigned
  split
  · rename_i h
    rw [Nat.le_antisymm hmax h, Word.toInt_maxWidth]
  · rw [msb_eq hmax, mask_eq]
    unfold Word.toInt
    cases Word.msb w s <;> simp only [bind, Except.bind, pure, Except.pure, if_true, if_false,
      Bool.false_eq_true]

theorem neg_eq (hmax : w ≤ maxWidth) (s : Nat) : neg w s = .ok (Word.neg w s) := by
  unfold neg
  rw [mask_eq]
  show Except.ok (Word.neg maxWidth s &&& Word.mask w) = _
  rw [and_mask, Word.truncate_neg hmax]

@[simp] theorem udiv_eq (w s t : Nat) : udiv w s t = .ok (Word.udiv w s t) := by
  unfold udiv Word.udiv
  split
  · exact mask_eq w
  · exact div_eq ‹_›

@[simp] theorem urem_eq (s t : Nat) : urem s t = .ok (Word.urem s t) := by
  unfold urem Word.urem
  split
  · rfl
  · exact rem_eq ‹_›

end Words

/-!
## Operations on words
-/

section Operators

variable {w s t : Nat} (hmax : w ≤ maxWidth)

include hmax

theorem sdiv_eq : wide w s t (Word.mask w) (Word.msb w s) (Word.msb w t) .sdiv =
    .ok (Word.sdiv w s t) := by
  unfold wide Word.sdiv
  cases Word.msb w s <;> cases Word.msb w t <;>
    simp [neg_eq hmax]

theorem srem_eq : wide w s t (Word.mask w) (Word.msb w s) (Word.msb w t) .srem =
    .ok (Word.srem w s t) := by
  unfold wide Word.srem
  cases Word.msb w s <;> cases Word.msb w t <;>
    simp [neg_eq hmax]

theorem ashr_eq (mt : Bool) : ∃ r, wide w s t (Word.mask w) (Word.msb w s) mt .ashr = .ok r ∧
    Word.truncate w r = Word.truncate w (Word.ashr w s t) := by
  unfold wide Word.ashr
  dsimp only
  split
  · rename_i ht
    refine ⟨Word.ofInt maxWidth (Word.toInt w s >>> t), ?_, ?_⟩
    · rw [toSigned_eq hmax s]
      show shiftSigned maxWidth (Word.toInt w s) t >>= _ = _
      rw [shiftSigned_eq (by omega)]
      rfl
    · rw [Word.truncate_ofInt hmax, Word.truncate_ofInt_self]
  · exact ⟨_, rfl, rfl⟩

/-- No operation on two words of a valid width is a fault, and its low bits are those of the
operation. -/
theorem wide_eq (op : BinaryOp) :
    ∃ r, wide w s t (Word.mask w) (Word.msb w s) (Word.msb w t) op = .ok r ∧
      Word.truncate w r = Word.truncate w (op.apply w s t) := by
  cases op with
  | add => exact ⟨_, rfl, (Word.truncate_add hmax s t).trans (Word.truncate_truncate w _).symm⟩
  | sub => exact ⟨_, rfl, (Word.truncate_sub hmax s t).trans (Word.truncate_truncate w _).symm⟩
  | mul => exact ⟨_, rfl, (Word.truncate_mul hmax s t).trans (Word.truncate_truncate w _).symm⟩
  | udiv => exact ⟨_, udiv_eq w s t, rfl⟩
  | urem => exact ⟨_, urem_eq s t, rfl⟩
  | sdiv => exact ⟨_, sdiv_eq hmax, rfl⟩
  | srem => exact ⟨_, srem_eq hmax, rfl⟩
  | and => exact ⟨_, rfl, rfl⟩
  | or => exact ⟨_, rfl, rfl⟩
  | xor => exact ⟨_, rfl, rfl⟩
  | shl =>
      unfold wide BinaryOp.apply Word.shl
      dsimp only
      split
      · rename_i ht
        refine ⟨_, shiftLeft_eq (by omega), ?_⟩
        have hdvd : 2 ^ w ∣ 2 ^ maxWidth := Nat.pow_dvd_pow 2 hmax
        rw [Word.truncate_truncate]
        unfold Word.truncate
        rw [Word.modulus_of_le hmax]
        exact Nat.mod_mod_of_dvd _ hdvd
      · exact ⟨0, rfl, rfl⟩
  | lshr =>
      unfold wide BinaryOp.apply Word.lshr
      dsimp only
      split
      · rename_i ht
        exact ⟨_, shiftRight_eq (by omega), (Word.truncate_truncate w _).symm⟩
      · exact ⟨0, rfl, rfl⟩
  | ashr => exact ashr_eq hmax _

theorem binary_eq (op : BinaryOp) : binary w s t op = .ok (Word.truncate w (op.apply w s t)) := by
  rcases wide_eq (s := s) (t := t) hmax op with ⟨r, hr, hcut⟩
  unfold binary
  rw [mask_eq, msb_eq hmax, msb_eq hmax]
  show wide w s t (Word.mask w) (Word.msb w s) (Word.msb w t) op >>= _ = _
  rw [hr]
  show Except.ok (r &&& Word.mask w) = _
  rw [and_mask, hcut]

theorem compare_eq (op : CompareOp) : compare w s t op = .ok (op.apply w s t) := by
  unfold compare
  rw [toSigned_eq hmax s, toSigned_eq hmax t]
  cases op <;> rfl

end Operators

end Machine
end BitEquiv

import Mathlib.Data.Int.ModEq
import BitEquiv.Logic.Word

/-!
# Words as vectors of bits

Each operation on words that are carried as numbers computes the number of the bit-vector
that the operation of the same name gives. The widths are those that words can have.
-/

namespace BitEquiv
namespace Logic
namespace Word

theorem modulus_of_le {w : Nat} (h : w ≤ maxWidth) : modulus w = Nat.pow 2 w := by
  unfold modulus
  rw [Nat.min_eq_left h]

theorem modulus_cast {w : Nat} (h : w ≤ maxWidth) : (modulus w : Int) = 2 ^ w := by
  rw [modulus_of_le h]
  exact Int.natCast_pow 2 w

/-- The low bits of a word are those of its number. -/
theorem truncate_ofInt {w : Nat} (h : w ≤ maxWidth) (z : Int) :
    truncate w (ofInt maxWidth z) = ofInt w z := by
  have hpos : (0 : Int) < 2 ^ w := Int.pow_pos (by decide)
  have hdvd : (2 : Int) ^ w ∣ 2 ^ maxWidth := pow_dvd_pow 2 h
  have hword : (0 : Int) ≤ z % 2 ^ maxWidth := Int.emod_nonneg z (by decide)
  unfold truncate ofInt
  rw [← Int.natCast_inj, Int.natCast_emod, modulus_cast h, modulus_cast (Nat.le_refl maxWidth),
    Int.toNat_of_nonneg hword, Int.emod_emod_of_dvd z hdvd,
    Int.toNat_of_nonneg (Int.emod_nonneg z hpos.ne')]

/-!
## Operations modulo a power of two

Sums, differences, products and complements are those of whole numbers, cut to the width. So
they can be computed at the greatest width and cut afterwards.
-/

section Modular

variable {w : Nat} (h : w ≤ maxWidth) (s t : Nat)

theorem truncate_eq_ofInt (w n : Nat) : truncate w n = ofInt w n := by
  unfold truncate ofInt
  rw [← Int.natCast_emod, Int.toNat_natCast]

theorem natCast_ofInt (w : Nat) (z : Int) : (ofInt w z : Int) = z % modulus w :=
  Int.toNat_of_nonneg (Int.emod_nonneg z (Int.natCast_ne_zero.mpr (modulus_pos w).ne'))

@[simp] theorem truncate_truncate (w n : Nat) : truncate w (truncate w n) = truncate w n :=
  Nat.mod_mod n (modulus w)

@[simp] theorem truncate_ofInt_self (w : Nat) (z : Int) : truncate w (ofInt w z) = ofInt w z := by
  rw [truncate_eq_ofInt, natCast_ofInt]
  unfold ofInt
  rw [Int.emod_emod_of_dvd z (Int.dvd_refl _)]

theorem add_eq_ofInt (w : Nat) : add w s t = ofInt w (s + t) := by
  rw [add, truncate_eq_ofInt, Int.natCast_add]

theorem mul_eq_ofInt (w : Nat) : mul w s t = ofInt w (s * t) := by
  rw [mul, truncate_eq_ofInt, Int.natCast_mul]

theorem sub_eq_ofInt (w : Nat) : sub w s t = ofInt w (s - t) := by
  have hle : truncate w t ≤ modulus w := (truncate_lt w t).le
  have hcut : (truncate w t : Int) = t % modulus w := Int.natCast_emod t (modulus w)
  have hself : (modulus w : Int) ≡ 0 [ZMOD modulus w] := by
    rw [Int.ModEq, Int.emod_self, Int.zero_emod]
  have hmod : (s + (modulus w - t % modulus w) : Int) ≡ s + (0 - t) [ZMOD modulus w] :=
    (hself.sub (Int.mod_modEq t (modulus w))).add_left s
  rw [sub, truncate_eq_ofInt, Int.natCast_add, Int.natCast_sub hle, hcut, ← Int.natCast_inj,
    natCast_ofInt, natCast_ofInt, hmod, Int.zero_sub, ← Int.sub_eq_add_neg]

theorem neg_eq_ofInt (w : Nat) : neg w s = ofInt w (-s) := by
  have hsub : neg w s = sub w 0 s := by
    rw [neg, sub, Nat.zero_add]
  rw [hsub, sub_eq_ofInt, Int.natCast_zero, Int.zero_sub]

theorem not_eq_ofInt (w : Nat) : not w s = ofInt w (-1 - s) := by
  have hle : truncate w s + 1 ≤ modulus w := truncate_lt w s
  have hcut : (truncate w s : Int) = s % modulus w := Int.natCast_emod s (modulus w)
  have hparts := Int.emod_add_mul_ediv s (modulus w)
  have hwhole : (-1 - s : Int) =
      (modulus w - 1 - truncate w s) + modulus w * (-1 - s / modulus w) := by
    rw [hcut, Int.mul_sub]
    generalize (modulus w : Int) * (s / modulus w) = q at hparts ⊢
    omega
  have hvalue : ((not w s : Nat) : Int) = modulus w - 1 - truncate w s := by
    unfold not mask
    omega
  rw [← Int.natCast_inj, natCast_ofInt, hwhole, Int.add_mul_emod_self_left, hvalue]
  exact (Int.emod_eq_of_lt (by omega) (by omega)).symm

include h

theorem truncate_add : truncate w (add maxWidth s t) = add w s t := by
  rw [add_eq_ofInt, truncate_ofInt h, ← add_eq_ofInt]

theorem truncate_sub : truncate w (sub maxWidth s t) = sub w s t := by
  rw [sub_eq_ofInt, truncate_ofInt h, ← sub_eq_ofInt]

theorem truncate_mul : truncate w (mul maxWidth s t) = mul w s t := by
  rw [mul_eq_ofInt, truncate_ofInt h, ← mul_eq_ofInt]

theorem truncate_neg : truncate w (neg maxWidth s) = neg w s := by
  rw [neg_eq_ofInt, truncate_ofInt h, ← neg_eq_ofInt]

theorem truncate_not : truncate w (not maxWidth s) = not w s := by
  rw [not_eq_ofInt, truncate_ofInt h, ← not_eq_ofInt]

end Modular

section Vectors

variable {w : Nat}

/-!
## Readings of a word
-/

theorem truncate_eq (hmax : w ≤ maxWidth) (n : Nat) : truncate w n = (BitVec.ofNat w n).toNat := by
  unfold truncate
  rw [modulus_of_le hmax, BitVec.toNat_ofNat]
  rfl

theorem truncate_toNat (hmax : w ≤ maxWidth) (x : BitVec w) : truncate w x.toNat = x.toNat := by
  rw [truncate_eq hmax, BitVec.ofNat_toNat, BitVec.setWidth_eq]

theorem mask_eq (hmax : w ≤ maxWidth) : mask w = (BitVec.allOnes w).toNat := by
  unfold mask
  rw [modulus_of_le hmax, BitVec.toNat_allOnes]
  rfl

theorem msb_eq (hpos : 1 ≤ w) (hmax : w ≤ maxWidth) (x : BitVec w) :
    msb w x.toNat = x.msb := by
  unfold msb
  rw [Nat.min_eq_left hmax, decide_eq_true (by omega), Bool.true_and, BitVec.testBit_toNat,
    BitVec.msb_eq_getLsbD_last]

theorem msb_eq_decide (hpos : 1 ≤ w) (hmax : w ≤ maxWidth) (x : BitVec w) :
    msb w x.toNat = decide (2 ^ (w - 1) ≤ x.toNat) := by
  rw [msb_eq hpos hmax, BitVec.msb_eq_decide]

theorem or_not_mask (hmax : w ≤ maxWidth) (x : BitVec w) :
    x.toNat ||| not maxWidth (mask w) = x.toNat + (2 ^ maxWidth - 2 ^ w) := by
  have hpow : 2 ^ maxWidth = 2 ^ w * 2 ^ (maxWidth - w) := by
    rw [← Nat.pow_add, Nat.add_sub_cancel' hmax]
  have hle : 2 ^ w ≤ 2 ^ maxWidth := Nat.pow_le_pow_right (by decide) hmax
  have hone : 1 ≤ 2 ^ w := Nat.one_le_two_pow
  have hmask : mask w = 2 ^ w - 1 := by
    unfold mask
    rw [modulus_of_le hmax]
    rfl
  have hnot : not maxWidth (mask w) = 2 ^ w * (2 ^ (maxWidth - w) - 1) := by
    have hwide : mask maxWidth = 2 ^ maxWidth - 1 := rfl
    have hmodulus : modulus maxWidth = 2 ^ maxWidth := rfl
    unfold not truncate
    rw [hwide, hmask, hmodulus, Nat.mod_eq_of_lt (by omega), Nat.mul_sub, ← hpow]
    omega
  rw [hnot, Nat.or_comm, ← Nat.two_pow_add_eq_or_of_lt x.isLt, Nat.mul_sub, ← hpow]
  omega

theorem signed_of_lt {n : Nat} (h : n < 2 ^ (maxWidth - 1)) : signed n = n := by
  have htwice : modulus maxWidth = 2 * 2 ^ (maxWidth - 1) := rfl
  exact Int.bmod_eq_of_le_mul_two (by omega) (by omega)

theorem signed_of_le {n : Nat} (h : 2 ^ (maxWidth - 1) ≤ n) (hmax : n < modulus maxWidth) :
    signed n = n - modulus maxWidth := by
  have htwice : modulus maxWidth = 2 * 2 ^ (maxWidth - 1) := rfl
  unfold signed
  rw [← Int.sub_bmod_right]
  exact Int.bmod_eq_of_le_mul_two (by omega) (by omega)

theorem toInt_eq (hpos : 1 ≤ w) (hmax : w ≤ maxWidth) (x : BitVec w) :
    toInt w x.toNat = x.toInt := by
  have hlt := x.isLt
  have hhalf : 2 ^ (w - 1) ≤ 2 ^ (maxWidth - 1) := Nat.pow_le_pow_right (by decide) (by omega)
  have htwice : 2 ^ w = 2 * 2 ^ (w - 1) := by
    rw [← Nat.pow_succ', Nat.succ_eq_add_one, Nat.sub_add_cancel hpos]
  have hwide : 2 ^ maxWidth = 2 * 2 ^ (maxWidth - 1) := rfl
  have hmodulus : modulus maxWidth = 2 ^ maxWidth := rfl
  unfold toInt
  rw [msb_eq_decide hpos hmax, BitVec.toInt_eq_toNat_cond]
  by_cases hx : 2 ^ (w - 1) ≤ x.toNat
  · rw [decide_eq_true hx, if_pos rfl, or_not_mask hmax, signed_of_le (by omega) (by omega),
      if_neg (by omega)]
    omega
  · rw [decide_eq_false hx, if_neg Bool.false_ne_true, signed_of_lt (by omega), if_pos (by omega)]

theorem toInt_maxWidth (s : Nat) : toInt maxWidth s = signed s := by
  have hmask : not maxWidth (mask maxWidth) = 0 := by decide
  unfold toInt
  rw [hmask, Nat.or_zero, ite_self]

theorem ofInt_eq (hmax : w ≤ maxWidth) (i : Int) : ofInt w i = (BitVec.ofInt w i).toNat := by
  unfold ofInt
  rw [modulus_of_le hmax, BitVec.toNat_ofInt]
  rfl

/-!
## Sums and products
-/

theorem not_eq (hmax : w ≤ maxWidth) (x : BitVec w) : not w x.toNat = (~~~x).toNat := by
  unfold not
  rw [truncate_toNat hmax, mask_eq hmax, BitVec.toNat_allOnes, BitVec.toNat_not]

theorem neg_eq (hmax : w ≤ maxWidth) (x : BitVec w) : neg w x.toNat = (-x).toNat := by
  unfold neg
  rw [truncate_toNat hmax, truncate_eq hmax, modulus_of_le hmax, BitVec.toNat_ofNat,
    BitVec.toNat_neg]
  rfl

theorem add_eq (hmax : w ≤ maxWidth) (x y : BitVec w) :
    add w x.toNat y.toNat = (x + y).toNat := by
  unfold add
  rw [truncate_eq hmax, BitVec.toNat_ofNat, BitVec.toNat_add]

theorem sub_eq (hmax : w ≤ maxWidth) (x y : BitVec w) :
    sub w x.toNat y.toNat = (x - y).toNat := by
  unfold sub
  rw [truncate_toNat hmax, truncate_eq hmax, modulus_of_le hmax, BitVec.toNat_ofNat,
    BitVec.toNat_sub, Nat.add_comm]
  rfl

theorem mul_eq (hmax : w ≤ maxWidth) (x y : BitVec w) :
    mul w x.toNat y.toNat = (x * y).toNat := by
  unfold mul
  rw [truncate_eq hmax, BitVec.toNat_ofNat, BitVec.toNat_mul]

/-!
## Quotients and remainders
-/

theorem udiv_eq (hmax : w ≤ maxWidth) (x y : BitVec w) :
    udiv w x.toNat y.toNat = (x.smtUDiv y).toNat := by
  have hzero : y.toNat = 0 ↔ y = 0 := BitVec.toNat_inj (y := 0)
  unfold udiv BitVec.smtUDiv
  by_cases hy : y = 0
  · rw [if_pos (hzero.mpr hy), if_pos hy, mask_eq hmax]
  · rw [if_neg (mt hzero.mp hy), if_neg hy]
    rfl

theorem urem_eq (x y : BitVec w) : urem x.toNat y.toNat = (x.umod y).toNat := by
  unfold urem
  split <;> rename_i hy
  · show x.toNat = x.toNat % y.toNat
    rw [hy, Nat.mod_zero]
  · rfl

theorem sdiv_eq (hpos : 1 ≤ w) (hmax : w ≤ maxWidth) (x y : BitVec w) :
    sdiv w x.toNat y.toNat = (x.smtSDiv y).toNat := by
  unfold sdiv BitVec.smtSDiv
  rw [msb_eq hpos hmax, msb_eq hpos hmax]
  cases x.msb <;> cases y.msb <;> simp only [neg_eq hmax, udiv_eq hmax] <;> rfl

theorem srem_eq (hpos : 1 ≤ w) (hmax : w ≤ maxWidth) (x y : BitVec w) :
    srem w x.toNat y.toNat = (x.srem y).toNat := by
  unfold srem BitVec.srem
  rw [msb_eq hpos hmax, msb_eq hpos hmax]
  cases x.msb <;> cases y.msb <;> simp only [neg_eq hmax, urem_eq] <;> rfl

/-!
## Shifts

A vector is shifted by any number of places, so an amount not below the width needs no
rule of its own there.
-/

theorem shl_eq (hmax : w ≤ maxWidth) (x y : BitVec w) :
    shl w x.toNat y.toNat = (x <<< y.toNat).toNat := by
  unfold shl
  split <;> rename_i hy
  · rw [truncate_eq hmax, BitVec.toNat_ofNat, BitVec.toNat_shiftLeft]
  · rw [BitVec.shiftLeft_eq_zero (by omega)]
    rfl

theorem lshr_eq (hmax : w ≤ maxWidth) (x y : BitVec w) :
    lshr w x.toNat y.toNat = (x >>> y.toNat).toNat := by
  unfold lshr
  rw [← BitVec.toNat_ushiftRight, truncate_toNat hmax]
  split <;> rename_i hy
  · rfl
  · rw [BitVec.ushiftRight_eq_zero (by omega)]
    rfl

theorem ashr_eq (hpos : 1 ≤ w) (hmax : w ≤ maxWidth) (x y : BitVec w) :
    ashr w x.toNat y.toNat = (x.sshiftRight y.toNat).toNat := by
  unfold ashr
  rw [toInt_eq hpos hmax, msb_eq hpos hmax, ofInt_eq hmax, mask_eq hmax]
  split <;> rename_i hy
  · rfl
  · cases hx : x.msb with
    | false =>
        rw [BitVec.sshiftRight_eq_of_msb_false hx, BitVec.ushiftRight_eq_zero (by omega)]
        rfl
    | true =>
        rw [BitVec.sshiftRight_eq_of_msb_true hx, BitVec.ushiftRight_eq_zero (by omega),
          BitVec.not_zero]
        rfl

end Vectors

end Word
end Logic
end BitEquiv

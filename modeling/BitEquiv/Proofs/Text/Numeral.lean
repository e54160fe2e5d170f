import BitEquiv.Text.Numeral
import Mathlib.Algebra.GroupWithZero.Nat
import Mathlib.Data.List.Induction

/-!
# Reading written numerals

The digits that a number is written with, zeros in front or not, are read as that
number again. A number that is read is below the power of its base that its digits allow.
-/

namespace BitEquiv
namespace Text

theorem digitValue_digitChar {d : Nat} (h : d < 16) : digitValue d.digitChar = some d := by
  revert d
  decide

theorem ofDigits_append (base acc : Nat) (s t : List Char) :
    ofDigits base acc (s ++ t) = (ofDigits base acc s).bind fun n => ofDigits base n t := by
  induction s generalizing acc with
  | nil => rfl
  | cons c s ih =>
      rw [List.cons_append, ofDigits, ofDigits]
      cases digitValue c with
      | none => rfl
      | some d =>
          by_cases hd : d < base
          · simpa [hd] using ih (acc * base + d)
          · simp [hd]

theorem ofDigits_digitChar {base acc d : Nat} (hbase : base ≤ 16) (hd : d < base) :
    ofDigits base acc [d.digitChar] = some (acc * base + d) := by
  unfold ofDigits
  rw [digitValue_digitChar (by omega)]
  simp [hd, ofDigits]

section Written

variable {base : Nat} (hpos : 1 < base) (hbase : base ≤ 16)

include hpos hbase

theorem ofDigits_toDigits (n : Nat) : ofDigits base 0 (Nat.toDigits base n) = some n := by
  induction n using Nat.strongRecOn with
  | ind n ih =>
      rw [Nat.toDigits_eq_if hpos]
      split
      · rename_i hn
        rw [ofDigits_digitChar hbase hn, Nat.zero_mul, Nat.zero_add]
      · rename_i hn
        have hquotient : n / base < n := Nat.div_lt_self (by omega) hpos
        have hremainder : n % base < base := Nat.mod_lt n (by omega)
        rw [ofDigits_append, ih _ hquotient, Option.bind_some,
          ofDigits_digitChar hbase hremainder, Nat.mul_comm, Nat.div_add_mod]

omit hbase in
theorem exists_of_mem_toDigits {n : Nat} {c : Char} (h : c ∈ Nat.toDigits base n) :
    ∃ d, d < base ∧ c = d.digitChar := by
  induction n using Nat.strongRecOn with
  | ind n ih =>
      rw [Nat.toDigits_eq_if hpos] at h
      split at h
      · rename_i hn
        exact ⟨n, hn, List.mem_singleton.mp h⟩
      · rename_i hn
        have hquotient : n / base < n := Nat.div_lt_self (by omega) hpos
        rcases List.mem_append.mp h with h | h
        · exact ih _ hquotient h
        · exact ⟨n % base, Nat.mod_lt n (by omega), List.mem_singleton.mp h⟩

omit hbase in
theorem ofDigits_zeros (count : Nat) (s : List Char) :
    ofDigits base 0 (List.replicate count '0' ++ s) = ofDigits base 0 s := by
  have hzero : digitValue '0' = some 0 := by decide
  have hlt : 0 < base := by omega
  induction count with
  | zero => rfl
  | succ count ih =>
      rw [List.replicate_succ, List.cons_append, ofDigits, hzero]
      simpa [hlt] using ih

theorem ofDigits_padded (count n : Nat) : ofDigits base 0 (padded base count n) = some n := by
  unfold padded
  rw [ofDigits_zeros hpos, ofDigits_toDigits hpos hbase]

omit hbase in
theorem length_padded {count n : Nat} (hcount : 0 < count) (hn : n < Nat.pow base count) :
    (padded base count n).length = count := by
  have hlength := (Nat.length_toDigits_le_iff hpos hcount).mpr hn
  simp only [padded, List.length_append, List.length_replicate]
  omega

omit hbase in
theorem exists_of_mem_padded {count n : Nat} {c : Char} (h : c ∈ padded base count n) :
    ∃ d, d < base ∧ c = d.digitChar := by
  rcases List.mem_append.mp h with h | h
  · exact ⟨0, by omega, List.eq_of_mem_replicate h⟩
  · exact exists_of_mem_toDigits hpos h

omit hpos hbase in
theorem padded_ne_nil (count n : Nat) : padded base count n ≠ [] :=
  List.append_ne_nil_of_right_ne_nil _ Nat.toDigits_ne_nil

end Written

/-!
## Bounds
-/

theorem ofDigits_lt {base acc n : Nat} {s : List Char} (h : ofDigits base acc s = some n) :
    n < (acc + 1) * base ^ s.length := by
  induction s generalizing acc with
  | nil =>
      cases h
      simp
  | cons c s ih =>
      rw [ofDigits] at h
      split at h
      · rename_i d hd
        split at h
        · rename_i hlt
          have hle : acc * base + d + 1 ≤ (acc + 1) * base := by
            rw [Nat.succ_mul]
            omega
          calc n < (acc * base + d + 1) * base ^ s.length := ih h
            _ ≤ (acc + 1) * base * base ^ s.length := Nat.mul_le_mul_right _ hle
            _ = (acc + 1) * base ^ (c :: s).length := by
              rw [List.length_cons, Nat.pow_succ', Nat.mul_assoc]
        · cases h
      · cases h

theorem unsigned_eq (base limit : Nat) (s : List Char) :
    ∃ digits, (s = digits ∨ s = '+' :: digits) ∧ unsigned base limit s =
      if digits.isEmpty then none
      else match ofDigits base 0 digits with
        | some n => if n < limit then some n else none
        | none => none := by
  unfold unsigned
  split
  · exact ⟨_, Or.inr rfl, rfl⟩
  · exact ⟨s, Or.inl rfl, rfl⟩

theorem unsigned_digits {base limit n : Nat} {s : List Char}
    (h : unsigned base limit s = some n) :
    ∃ digits, (s = digits ∨ s = '+' :: digits) ∧ digits ≠ [] ∧
      ofDigits base 0 digits = some n ∧ n < limit := by
  rcases unsigned_eq base limit s with ⟨digits, hs, hdigits⟩
  rw [hdigits] at h
  split at h
  · cases h
  · rename_i hempty
    split at h
    · rename_i m hm
      split at h
      · rename_i hlimit
        cases h
        exact ⟨digits, hs, by simpa using hempty, hm, hlimit⟩
      · cases h
    · cases h

theorem unsigned_lt {base limit n : Nat} {s : List Char} (hbase : 0 < base)
    (h : unsigned base limit s = some n) : n < limit ∧ n < base ^ s.length := by
  rcases unsigned_digits h with ⟨digits, hs, _, hn, hlimit⟩
  have hlength : digits.length ≤ s.length := by
    rcases hs with hs | hs
    · exact Nat.le_of_eq (congrArg List.length hs.symm)
    · rw [hs]
      exact Nat.le_succ _
  have hlt := ofDigits_lt hn
  rw [Nat.zero_add, Nat.one_mul] at hlt
  exact ⟨hlimit, Nat.lt_of_lt_of_le hlt (Nat.pow_le_pow_right hbase hlength)⟩

/-!
## Positions

What digits write, said without a reader: the number in front of the last digit counts as
often as the base says.
-/

/-- A digit of a base and the number that it stands for; letters may have either case. -/
def IsDigit (base : Nat) (c : Char) (d : Nat) : Prop :=
  d < base ∧ (c = d.digitChar ∨ c = d.digitChar.toUpper)

/-- Digits, the highest first, and the number that they write. -/
inductive Writes (base : Nat) : List Char → Nat → Prop
  | digit {c : Char} {d : Nat} : IsDigit base c d → Writes base [c] d
  | more {s : List Char} {c : Char} {n d : Nat} : Writes base s n → IsDigit base c d →
      Writes base (s ++ [c]) (n * base + d)

section Positions

variable {base n : Nat} {s : List Char}

theorem Writes.ne_nil (h : Writes base s n) : s ≠ [] := by
  cases h <;> simp

theorem isDigit_of_decimal {c : Char} {d : Nat} (h : IsDigit 10 c d) : c.isDigit = true := by
  have hboth : ∀ d < 10, d.digitChar.isDigit = true ∧ d.digitChar.toUpper.isDigit = true := by
    decide
  rcases h with ⟨hd, rfl | rfl⟩
  · exact (hboth d hd).1
  · exact (hboth d hd).2

theorem writes_toDigits (hpos : 1 < base) (n : Nat) : Writes base (Nat.toDigits base n) n := by
  induction n using Nat.strongRecOn with
  | ind n ih =>
      rw [Nat.toDigits_eq_if hpos]
      split
      · rename_i hn
        exact .digit ⟨hn, Or.inl rfl⟩
      · rename_i hn
        have hquotient : n / base < n := Nat.div_lt_self (by omega) hpos
        have hlast : IsDigit base (n % base).digitChar (n % base) :=
          ⟨Nat.mod_lt n (by omega), Or.inl rfl⟩
        have hparts : n / base * base + n % base = n := by
          rw [Nat.mul_comm, Nat.div_add_mod]
        have hwrites := Writes.more (ih _ hquotient) hlast
        rw [hparts] at hwrites
        exact hwrites

theorem writes_decimal (n : Nat) : Writes 10 (decimal n).toList n := by
  unfold decimal
  rw [String.toList_ofList]
  exact writes_toDigits (by decide) n

variable (hbase : base ≤ 16)

include hbase

theorem digitValue_of_isDigit {c : Char} {d : Nat} (h : IsDigit base c d) :
    digitValue c = some d := by
  have hupper : ∀ d < 16, digitValue d.digitChar.toUpper = some d := by decide
  rcases h with ⟨hd, rfl | rfl⟩
  · exact digitValue_digitChar (by omega)
  · exact hupper d (by omega)

theorem isAlphanum_of_isDigit {c : Char} {d : Nat} (h : IsDigit base c d) :
    c.isAlphanum = true := by
  have hboth : ∀ d < 16, d.digitChar.isAlphanum = true ∧ d.digitChar.toUpper.isAlphanum = true := by
    decide
  rcases h with ⟨hd, rfl | rfl⟩
  · exact (hboth d (by omega)).1
  · exact (hboth d (by omega)).2

theorem Writes.ofDigits (h : Writes base s n) : Text.ofDigits base 0 s = some n := by
  have hstep : ∀ {acc c d}, IsDigit base c d →
      Text.ofDigits base acc [c] = some (acc * base + d) := by
    intro acc c d hc
    rw [Text.ofDigits, digitValue_of_isDigit hbase hc]
    simp [hc.1, Text.ofDigits]
  induction h with
  | digit hc => rw [hstep hc, Nat.zero_mul, Nat.zero_add]
  | more _ hc ih => rw [ofDigits_append, ih, Option.bind_some, hstep hc]

omit hbase in
theorem Writes.forall_mem {P : Char → Prop} (hdigit : ∀ {c d}, IsDigit base c d → P c)
    (h : Writes base s n) : ∀ c ∈ s, P c := by
  induction h with
  | digit hc =>
      intro c hmem
      rw [List.mem_singleton.mp hmem]
      exact hdigit hc
  | more _ hc ih =>
      intro c hmem
      rcases List.mem_append.mp hmem with hmem | hmem
      · exact ih c hmem
      · rw [List.mem_singleton.mp hmem]
        exact hdigit hc

theorem Writes.isAlphanum (h : Writes base s n) : ∀ c ∈ s, c.isAlphanum = true :=
  h.forall_mem (isAlphanum_of_isDigit hbase)

theorem Writes.unsigned (h : Writes base s n) {limit : Nat} (hn : n < limit) :
    Text.unsigned base limit s = some n := by
  have hempty : s.isEmpty = false := by simpa using h.ne_nil
  unfold Text.unsigned
  split
  · have hplus := h.isAlphanum hbase '+' List.mem_cons_self
    exact absurd hplus (by decide)
  · simp only [hempty, h.ofDigits hbase, if_pos hn, Bool.false_eq_true, if_false]

end Positions

/-!
## What is read
-/

theorem isDigit_of_digitValue {base d : Nat} {c : Char} (h : digitValue c = some d)
    (hd : d < base) : IsDigit base c d := by
  have hdecimal : ∀ k < 10, Char.ofNat (k + '0'.toNat) = k.digitChar := by decide
  have hlower : ∀ k < 6, Char.ofNat (k + 'a'.toNat) = (k + 10).digitChar := by decide
  have hupper : ∀ k < 6, Char.ofNat (k + 'A'.toNat) = (k + 10).digitChar.toUpper := by decide
  -- Each range of digits is counted from its first character.
  have hplace : ∀ {first last : Char}, first ≤ c ∧ c ≤ last →
      Char.ofNat (c.toNat - first.toNat + first.toNat) = c ∧
        c.toNat - first.toNat < last.toNat - first.toNat + 1 := by
    intro first last hrange
    have hfirst : first.toNat ≤ c.toNat := hrange.1
    have hlast : c.toNat ≤ last.toNat := hrange.2
    rw [Nat.sub_add_cancel hfirst, Char.ofNat_toNat]
    constructor
    · rfl
    · omega
  refine ⟨hd, ?_⟩
  unfold digitValue at h
  split at h
  · rename_i hrange
    cases h
    rcases hplace hrange with ⟨hc, hlt⟩
    rw [← hdecimal _ hlt, hc]
    exact Or.inl rfl
  · split at h
    · rename_i hrange
      cases h
      rcases hplace hrange with ⟨hc, hlt⟩
      rw [← hlower _ hlt, hc]
      exact Or.inl rfl
    · split at h
      · rename_i hrange
        cases h
        rcases hplace hrange with ⟨hc, hlt⟩
        rw [← hupper _ hlt, hc]
        exact Or.inr rfl
      · cases h

theorem writes_of_ofDigits {base n : Nat} {s : List Char} (hs : s ≠ [])
    (h : ofDigits base 0 s = some n) : Writes base s n := by
  -- Positions are counted from the last digit, so the digits are taken from the end.
  induction s using List.reverseRecOn generalizing n with
  | nil => exact absurd rfl hs
  | append_singleton s c ih =>
      rw [ofDigits_append] at h
      rcases Option.bind_eq_some_iff.mp h with ⟨m, hm, hlast⟩
      rw [ofDigits] at hlast
      split at hlast
      · rename_i d hd
        split at hlast
        · rename_i hlt
          cases hlast
          have hdigit := isDigit_of_digitValue hd hlt
          cases s with
          | nil =>
              cases hm
              rw [Nat.zero_mul, Nat.zero_add]
              exact .digit hdigit
          | cons c' s => exact .more (ih (List.cons_ne_nil c' s) hm) hdigit
        · cases hlast
      · cases hlast

theorem writes_padded {base : Nat} (hpos : 1 < base) (hbase : base ≤ 16) (count n : Nat) :
    Writes base (padded base count n) n :=
  writes_of_ofDigits (padded_ne_nil count n) (ofDigits_padded hpos hbase count n)

theorem exists_ofDigits {base : Nat} {s : List Char}
    (h : ∀ c ∈ s, ∃ d, digitValue c = some d ∧ d < base) (acc : Nat) :
    ∃ n, ofDigits base acc s = some n := by
  induction s generalizing acc with
  | nil => exact ⟨acc, rfl⟩
  | cons c s ih =>
      rcases List.forall_mem_cons.mp h with ⟨⟨d, hd, hlt⟩, hs⟩
      rw [ofDigits, hd]
      simpa [hlt] using ih hs (acc * base + d)

theorem digitValue_decimal {c : Char} (h : c.isDigit = true) :
    ∃ d, digitValue c = some d ∧ d < 10 := by
  rcases Bool.and_eq_true_iff.mp h with ⟨hfirst, hlast⟩
  have hrange : '0' ≤ c ∧ c ≤ '9' := ⟨of_decide_eq_true hfirst, of_decide_eq_true hlast⟩
  have hlast : c.toNat ≤ '9'.toNat := hrange.2
  refine ⟨c.toNat - '0'.toNat, if_pos hrange, ?_⟩
  have hten : '9'.toNat - '0'.toNat < 10 := by decide
  omega

theorem digitValue_lt {c : Char} {d : Nat} (h : digitValue c = some d) : d < 16 := by
  have hplace : ∀ {first last : Char}, c ≤ last →
      c.toNat - first.toNat ≤ last.toNat - first.toNat := by
    intro first last hle
    exact Nat.sub_le_sub_right hle _
  unfold digitValue at h
  split at h
  · rename_i hrange
    cases h
    exact Nat.lt_of_le_of_lt (hplace hrange.2) (by decide)
  · split at h
    · rename_i hrange
      cases h
      exact Nat.lt_of_le_of_lt (Nat.add_le_add_right (hplace hrange.2) 10) (by decide)
    · split at h
      · rename_i hrange
        cases h
        exact Nat.lt_of_le_of_lt (Nat.add_le_add_right (hplace hrange.2) 10) (by decide)
      · cases h

/-- Digits, or digits behind a plus sign. -/
inductive Numeral (base : Nat) : List Char → Nat → Prop
  | plain {s : List Char} {n : Nat} : Writes base s n → Numeral base s n
  | signed {s : List Char} {n : Nat} : Writes base s n → Numeral base ('+' :: s) n

theorem unsigned_eq_some_iff {base limit n : Nat} {s : List Char} (hbase : base ≤ 16) :
    unsigned base limit s = some n ↔ Numeral base s n ∧ n < limit := by
  constructor
  · intro h
    rcases unsigned_digits h with ⟨digits, hs, hne, hn, hlimit⟩
    have hwrites := writes_of_ofDigits hne hn
    rcases hs with hs | hs
    · rw [hs]
      exact ⟨.plain hwrites, hlimit⟩
    · rw [hs]
      exact ⟨.signed hwrites, hlimit⟩
  · intro h
    rcases h with ⟨hnumeral, hlimit⟩
    cases hnumeral with
    | plain hwrites => exact hwrites.unsigned hbase hlimit
    | signed hwrites =>
        have hempty : ∀ {digits : List Char}, digits ≠ [] → digits.isEmpty = false := by
          intro digits hne
          simpa using hne
        unfold unsigned
        simp only [hempty hwrites.ne_nil, hwrites.ofDigits hbase, if_pos hlimit,
          Bool.false_eq_true, if_false]

/-!
## Decimal
-/

@[simp] theorem natural?_decimal (n : Nat) : natural? (decimal n).toList = some n := by
  unfold natural? decimal
  rw [String.toList_ofList, if_neg (by simp)]
  exact ofDigits_toDigits (by decide) (by decide) n

end Text
end BitEquiv

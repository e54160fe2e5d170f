import BitEquiv.Proofs.Smt.Answers
import BitEquiv.Proofs.Smt.Layout

/-!
# Written values

A value is written as a truth value, in binary or hexadecimal with the digits of its width, or
as a decimal number beside its width. The reader takes a little more than that: a plus sign in
front of digits counts as one of them, and a decimal number need not fit its width.
-/

namespace BitEquiv
namespace Smt

open Logic Solver

/-!
## Forms of values
-/

/-- The forms of a value: its name, or its bits in binary, in hexadecimal, or as a decimal number
with the width. -/
inductive Literal : Value → SExpr → Prop
  | bool (b : Bool) : Literal (.bool b) (.atom (if b then "true" else "false"))
  | binary {n w : Nat} {digits : List Char} : Text.Writes 2 digits n → digits.length = w →
      Literal (.word n w) (.atom (String.ofList ('#' :: 'b' :: digits)))
  | hexadecimal {n w : Nat} {digits : List Char} : Text.Writes 16 digits n →
      4 * digits.length = w → Literal (.word n w) (.atom (String.ofList ('#' :: 'x' :: digits)))
  | decimal {n w : Nat} {digits width : List Char} : Text.Writes 10 digits n →
      Text.Writes 10 width w →
      Literal (.word n w)
        (.list [.atom "_", .atom (String.ofList ('b' :: 'v' :: digits)),
          .atom (String.ofList width)])

/-- The same forms with numerals in place of digits, so that plus signs may occur. -/
inductive Lenient : Value → SExpr → Prop
  | bool (b : Bool) : Lenient (.bool b) (.atom (if b then "true" else "false"))
  | binary {n w : Nat} {digits : List Char} : Text.Numeral 2 digits n → digits.length = w →
      Lenient (.word n w) (.atom (String.ofList ('#' :: 'b' :: digits)))
  | hexadecimal {n w : Nat} {digits : List Char} : Text.Numeral 16 digits n →
      4 * digits.length = w → Lenient (.word n w) (.atom (String.ofList ('#' :: 'x' :: digits)))
  | decimal {n w : Nat} {digits width : List Char} : Text.Numeral 10 digits n →
      Text.Numeral 10 width w →
      Lenient (.word n w)
        (.list [.atom "_", .atom (String.ofList ('b' :: 'v' :: digits)),
          .atom (String.ofList width)])

def Unsigned (e : SExpr) : Prop := ∀ a ∈ SExpr.atoms e, '+' ∉ a.toList

section Forms

variable {v : Value} {e : SExpr}

theorem Literal.lenient (h : Literal v e) : Lenient v e := by
  cases h with
  | bool b => exact .bool b
  | binary hdigits hlength => exact .binary (.plain hdigits) hlength
  | hexadecimal hdigits hlength => exact .hexadecimal (.plain hdigits) hlength
  | decimal hdigits hwidth => exact .decimal (.plain hdigits) (.plain hwidth)

theorem plus_not_mem {base n : Nat} (hbase : base ≤ 16) (mark : List Char) {digits : List Char}
    (hmark : '+' ∉ mark) (h : Text.Writes base digits n) :
    '+' ∉ (String.ofList (mark ++ digits)).toList := by
  rw [String.toList_ofList, List.mem_append]
  intro hmem
  rcases hmem with hmem | hmem
  · exact hmark hmem
  · have hplus := h.isAlphanum hbase '+' hmem
    cases hplus

theorem Literal.unsigned (h : Literal v e) : Unsigned e := by
  unfold Unsigned
  cases h with
  | bool b => cases b <;> decide
  | binary hdigits _ =>
      intro a ha
      rw [List.mem_singleton.mp ha]
      exact plus_not_mem (by decide) ['#', 'b'] (by decide) hdigits
  | hexadecimal hdigits _ =>
      intro a ha
      rw [List.mem_singleton.mp ha]
      exact plus_not_mem (by decide) ['#', 'x'] (by decide) hdigits
  | @decimal n w digits width hdigits hwidth =>
      have hmark : '+' ∉ "_".toList := by decide
      have hnumber := plus_not_mem (by decide) ['b', 'v'] (by decide) hdigits
      have hcount := plus_not_mem (by decide) [] List.not_mem_nil hwidth
      intro a ha
      rcases List.mem_cons.mp ha with rfl | ha
      · exact hmark
      · rcases List.mem_cons.mp ha with rfl | ha
        · exact hnumber
        · rw [List.mem_singleton.mp ha]
          exact hcount

theorem writes_of_numeral {base n : Nat} (mark : List Char) {digits : List Char}
    (h : Text.Numeral base digits n)
    (hplus : '+' ∉ (String.ofList (mark ++ digits)).toList) : Text.Writes base digits n := by
  cases h with
  | plain hdigits => exact hdigits
  | signed _ =>
      rw [String.toList_ofList] at hplus
      exact absurd (List.mem_append_right mark List.mem_cons_self) hplus

theorem Lenient.literal (h : Lenient v e) (hunsigned : Unsigned e) : Literal v e := by
  cases h with
  | bool b => exact .bool b
  | binary hdigits hlength =>
      have hplus := hunsigned _ List.mem_cons_self
      exact .binary (writes_of_numeral ['#', 'b'] hdigits hplus) hlength
  | hexadecimal hdigits hlength =>
      have hplus := hunsigned _ List.mem_cons_self
      exact .hexadecimal (writes_of_numeral ['#', 'x'] hdigits hplus) hlength
  | decimal hdigits hwidth =>
      have hplus := hunsigned _ (List.mem_cons_of_mem _ List.mem_cons_self)
      have hplus' :=
        hunsigned _ (List.mem_cons_of_mem _ (List.mem_cons_of_mem _ List.mem_cons_self))
      exact .decimal (writes_of_numeral ['b', 'v'] hdigits hplus)
        (writes_of_numeral [] hwidth hplus')

end Forms

/-!
## What is read
-/

section Reading

variable {sort : BvSort} {v : Value} {e : SExpr}

theorem readValue_of_lenient (hwidth : v.sort.width < 2 ^ 32) (hraw : v.raw < Text.wideLimit)
    (h : Lenient v e) : readValue v.sort e = some v := by
  cases h with
  | bool b => cases b <;> rfl
  | @binary n w digits hdigits hlength =>
      have hread : Text.unsigned 2 Text.wideLimit digits = some n :=
        (Text.unsigned_eq_some_iff (by decide)).mpr ⟨hdigits, hraw⟩
      simp only [Value.sort, readValue, String.toList_ofList, if_pos hlength, hread,
        Option.map_some]
  | @hexadecimal n w digits hdigits hlength =>
      have hread : Text.unsigned 16 Text.wideLimit digits = some n :=
        (Text.unsigned_eq_some_iff (by decide)).mpr ⟨hdigits, hraw⟩
      rw [Nat.mul_comm] at hlength
      simp only [Value.sort, readValue, String.toList_ofList, if_pos hlength, hread,
        Option.map_some]
  | @decimal n w digits width hdigits hcount =>
      have hread : Text.unsigned 10 Text.wideLimit digits = some n :=
        (Text.unsigned_eq_some_iff (by decide)).mpr ⟨hdigits, hraw⟩
      have hread' : Text.unsigned 10 (Nat.pow 2 32) width = some w :=
        (Text.unsigned_eq_some_iff (by decide)).mpr ⟨hcount, hwidth⟩
      simp only [Value.sort, readValue, String.toList_ofList, if_true, hread, hread']
      exact if_pos rfl

theorem atom_of_toList {a : String} {text : List Char} (h : a.toList = text) :
    SExpr.atom a = .atom (String.ofList text) := by
  rw [← h, String.ofList_toList]

theorem lenient_of_readValue (h : readValue sort e = some v) :
    Lenient v e ∧ v.sort = sort ∧ v.raw < Text.wideLimit := by
  unfold readValue at h
  split at h
  · split at h
    · rename_i htrue
      cases h
      rw [htrue]
      exact ⟨.bool true, rfl, by decide⟩
    · split at h
      · rename_i hfalse
        cases h
        rw [hfalse]
        exact ⟨.bool false, rfl, by decide⟩
      · cases h
  · split at h
    · rename_i w a digits hdigits
      split at h
      · rename_i hlength
        rcases Option.map_eq_some_iff.mp h with ⟨n, hn, rfl⟩
        rcases (Text.unsigned_eq_some_iff (by decide)).mp hn with ⟨hnumeral, hlt⟩
        rw [atom_of_toList hdigits]
        exact ⟨.binary hnumeral hlength, rfl, hlt⟩
      · cases h
    · rename_i w a digits hdigits
      split at h
      · rename_i hlength
        rcases Option.map_eq_some_iff.mp h with ⟨n, hn, rfl⟩
        rcases (Text.unsigned_eq_some_iff (by decide)).mp hn with ⟨hnumeral, hlt⟩
        rw [Nat.mul_comm] at hlength
        rw [atom_of_toList hdigits]
        exact ⟨.hexadecimal hnumeral hlength, rfl, hlt⟩
      · cases h
    · cases h
  · rename_i w u number width
    split at h
    · rename_i hu
      split at h
      · rename_i digits hdigits
        rcases Option.bind_eq_some_iff.mp h with ⟨n, hn, h⟩
        rcases Option.bind_eq_some_iff.mp h with ⟨w', hw', h⟩
        split at h
        · rename_i hwidth
          cases h
          rcases (Text.unsigned_eq_some_iff (by decide)).mp hn with ⟨hnumeral, hlt⟩
          rcases (Text.unsigned_eq_some_iff (by decide)).mp hw' with ⟨hcount, _⟩
          rw [hwidth] at hcount
          rw [hu, atom_of_toList hdigits, atom_of_toList (a := width) rfl]
          exact ⟨.decimal hnumeral hcount, rfl, hlt⟩
        · cases h
      · cases h
    · cases h
  · cases h

/-- Exactly the lenient forms are read, as far as their numbers fit into 128 bits. -/
theorem readValue_eq_some_iff (hwidth : sort.width < 2 ^ 32) :
    readValue sort e = some v ↔ Lenient v e ∧ v.sort = sort ∧ v.raw < Text.wideLimit := by
  constructor
  · exact lenient_of_readValue
  · intro h
    rcases h with ⟨hlenient, rfl, hraw⟩
    exact readValue_of_lenient hwidth hraw hlenient

theorem readValue_of_literal (hv : v.InSort sort) (hwidth : sort.width < 2 ^ 32)
    (h : Literal v e) : readValue sort e = some v :=
  (readValue_eq_some_iff hwidth).mpr ⟨h.lenient, hv.1, Value.raw_lt_wideLimit hv⟩

end Reading

/-- What the reader takes for a value of a sort. Of all that it takes, the literals of the sort
are those without a plus sign whose number fits the width; only a decimal number may not. -/
theorem readValue_exact {sort : BvSort} (hsort : sort.isValid = true) (v : Value) (e : SExpr) :
    (readValue sort e = some v ↔ Lenient v e ∧ v.sort = sort ∧ v.raw < 2 ^ 128) ∧
      (Literal v e ∧ v.sort = sort ∧ v.raw < 2 ^ sort.width ↔
        readValue sort e = some v ∧ Unsigned e ∧ v.raw < 2 ^ sort.width) ∧
      (readValue sort e = some v → v.raw < 2 ^ sort.width ∨
        ∃ number width, e = .list [.atom "_", .atom number, .atom width]) := by
  have hmax : sort.width ≤ maxWidth := Term.width_le_of_isValid hsort
  have hwidth : sort.width < 2 ^ 32 := Nat.lt_of_le_of_lt hmax (by decide)
  have hread := readValue_eq_some_iff (v := v) (e := e) hwidth
  refine ⟨hread, ?_, ?_⟩
  · constructor
    · intro h
      rcases h with ⟨hliteral, hv, hraw⟩
      have hwide : v.raw < Text.wideLimit :=
        Nat.lt_of_lt_of_le hraw (Nat.pow_le_pow_right (by decide) hmax)
      exact ⟨hread.mpr ⟨hliteral.lenient, hv, hwide⟩, hliteral.unsigned, hraw⟩
    · intro h
      rcases h with ⟨hvalue, hunsigned, hraw⟩
      rcases hread.mp hvalue with ⟨hlenient, hv, _⟩
      exact ⟨hlenient.literal hunsigned, hv, hraw⟩
  · intro h
    rcases readValue_sort h with ⟨_, hfits | hdecimal⟩
    · exact Or.inl (Value.raw_lt hfits)
    · exact Or.inr hdecimal

theorem readValue_exact_hexadecimal :
    readValue (.bitVec 8) (.atom "#xfF") = some (.word 255 8) ∧ Unsigned (.atom "#xfF") := by
  have hsort : (BvSort.bitVec 8).isValid = true := rfl
  have hfirst : Text.IsDigit 16 'f' 15 := ⟨by decide, Or.inl rfl⟩
  have hsecond : Text.IsDigit 16 'F' 15 := ⟨by decide, Or.inr rfl⟩
  have hliteral : Literal (.word 255 8) (.atom "#xfF") :=
    .hexadecimal (.more (.digit hfirst) hsecond) rfl
  rcases (readValue_exact hsort _ _).2.1.mp ⟨hliteral, rfl, by decide⟩ with ⟨hread, hunsigned, _⟩
  exact ⟨hread, hunsigned⟩

/-- A sign takes the place of a digit, and a decimal number goes beyond its width. -/
theorem readValue_beyond :
    (readValue (.bitVec 2) (.atom "#b+1") = some (.word 1 2) ∧
        ¬Literal (.word 1 2) (.atom "#b+1")) ∧
      readValue (.bitVec 8) (.list [.atom "_", .atom "bv300", .atom "8"]) = some (.word 300 8) ∧
      ¬(Value.word 300 8).raw < 2 ^ BvSort.width (.bitVec 8) := by
  refine ⟨⟨rfl, ?_⟩, rfl, by decide⟩
  intro h
  have hplus := h.unsigned "#b+1" List.mem_cons_self
  revert hplus
  decide

end Smt
end BitEquiv

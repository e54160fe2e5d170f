import Mathlib.Data.Int.ModEq
import BitEquiv.Proofs.Bench.Encoding
import BitEquiv.Proofs.Program.Comparison
import BitEquiv.Proofs.Solver.External

/-!
# What a replay shows

A line shows a whole number under a name, and the last line of a name counts. An output is
compared with its number modulo the power of two of its width, so an unsigned number and a
negative one can stand for the same word. The reader of numbers is wider than their usual form
in one place: it takes a plus sign behind a minus sign.
-/

namespace BitEquiv
namespace Bench

open Logic

namespace Replay

/-!
## Numbers
-/

/-- A whole number in decimal, with at most one sign in front of its digits. -/
inductive Integer : List Char → Int → Prop
  | plain {s : List Char} {n : Nat} : Text.Writes 10 s n → Integer s n
  | plus {s : List Char} {n : Nat} : Text.Writes 10 s n → Integer ('+' :: s) n
  | minus {s : List Char} {n : Nat} : Text.Writes 10 s n → Integer ('-' :: s) (-n)

/-- A whole number as it is read: behind a minus sign there may be a plus sign. -/
inductive Readable : List Char → Int → Prop
  | unsigned {s : List Char} {n : Nat} : Text.Numeral 10 s n → Readable s n
  | minus {s : List Char} {n : Nat} : Text.Numeral 10 s n → Readable ('-' :: s) (-n)

theorem Integer.readable {s : List Char} {z : Int} (h : Integer s z) : Readable s z := by
  cases h with
  | plain hs => exact .unsigned (.plain hs)
  | plus hs => exact .unsigned (.signed hs)
  | minus hs => exact .minus (.plain hs)

theorem Readable.cases {s : List Char} {z : Int} (h : Readable s z) :
    Integer s z ∨ ∃ digits, s = '-' :: '+' :: digits := by
  cases h with
  | unsigned hs =>
      cases hs with
      | plain hs => exact Or.inl (.plain hs)
      | signed hs => exact Or.inl (.plus hs)
  | minus hs =>
      cases hs with
      | plain hs => exact Or.inl (.minus hs)
      | signed hs => exact Or.inr ⟨_, rfl⟩

theorem integer_signedDecimal (z : Int) : Integer (Text.signedDecimal z).toList z := by
  cases z with
  | ofNat n => exact .plain (Text.writes_decimal n)
  | negSucc n =>
      rw [Text.signedDecimal, String.toList_append]
      exact .minus (Text.writes_decimal (n + 1))

theorem not_numeral_minus {s : List Char} {n : Nat} : ¬ Text.Numeral 10 ('-' :: s) n := by
  intro h
  cases h with
  | plain hs =>
      have hminus := hs.isAlphanum (by decide) '-' List.mem_cons_self
      exact absurd hminus (by decide)

theorem ofInt_natCast {n : Nat} (h : n < Text.wideLimit) : Word.ofInt maxWidth n = n := by
  have hlimit : (Word.modulus maxWidth : Int) = (Text.wideLimit : Int) := rfl
  unfold Word.ofInt
  rw [hlimit, Int.emod_eq_of_lt (by omega) (by omega), Int.toNat_natCast]

theorem ofInt_neg {n : Nat} (h : n < Text.wideLimit) :
    Word.ofInt maxWidth (-n) = (Text.wideLimit - n) % Text.wideLimit := by
  have hlimit : (Word.modulus maxWidth : Int) = (Text.wideLimit : Int) := rfl
  have hsum : ((Text.wideLimit - n : Nat) : Int) = -n + Text.wideLimit := by omega
  unfold Word.ofInt
  rw [hlimit, ← Int.add_emod_right, ← hsum, ← Int.natCast_emod, Int.toNat_natCast]

/-- Numbers of at most 128 bits are read, each as the word of that many bits. -/
theorem readNumber_eq_some_iff {s : List Char} {n : Nat} :
    readNumber s = some n ↔
      ∃ z, Readable s z ∧ z.natAbs < Text.wideLimit ∧ n = Word.ofInt maxWidth z := by
  unfold readNumber
  split
  · rename_i rest
    rw [Option.map_eq_some_iff]
    constructor
    · rintro ⟨m, hm, rfl⟩
      rcases (Text.unsigned_eq_some_iff (by decide)).mp hm with ⟨hnumeral, hlimit⟩
      exact ⟨-m, .minus hnumeral, by omega, (ofInt_neg hlimit).symm⟩
    · rintro ⟨z, hz, hlimit, rfl⟩
      cases hz with
      | unsigned hs => exact absurd hs not_numeral_minus
      | @minus _ m hs =>
          have hlimit : m < Text.wideLimit := by omega
          exact ⟨m, (Text.unsigned_eq_some_iff (by decide)).mpr ⟨hs, hlimit⟩,
            (ofInt_neg hlimit).symm⟩
  · rename_i hminus
    constructor
    · intro h
      rcases (Text.unsigned_eq_some_iff (by decide)).mp h with ⟨hnumeral, hlimit⟩
      exact ⟨n, .unsigned hnumeral, hlimit, (ofInt_natCast hlimit).symm⟩
    · rintro ⟨z, hz, hlimit, rfl⟩
      cases hz with
      | @unsigned _ m hs =>
          have hlimit : m < Text.wideLimit := hlimit
          rw [ofInt_natCast hlimit]
          exact (Text.unsigned_eq_some_iff (by decide)).mpr ⟨hs, hlimit⟩
      | minus hs => exact absurd rfl (hminus _)

/-!
## Lines
-/

/-- A line shows a whole number under a name. -/
def Prints (numeral : List Char → Int → Prop) (line : List Char) (x : String) (z : Int) : Prop :=
  ∃ name value, Text.trim line = name ++ '=' :: value ∧ '=' ∉ name ∧
    Text.trim name = x.toList ∧ numeral (Text.trim value) z ∧ z.natAbs < 2 ^ 128

/-- The last of the lines that show a number under a name shows this one. -/
def LastPrinted (numeral : List Char → Int → Prop) (lines : List (List Char)) (x : String)
    (z : Int) : Prop :=
  ∃ before line after, lines = before ++ line :: after ∧ Prints numeral line x z ∧
    ∀ l ∈ after, ∀ z', ¬ Prints numeral l x z'

theorem readLine_eq_some_iff {line : List Char} {x : String} {n : Nat} :
    readLine line = some (x, n) ↔
      ∃ z, Prints Readable line x z ∧ n = Word.ofInt maxWidth z := by
  unfold readLine
  constructor
  · intro h
    rcases Option.bind_eq_some_iff.mp h with ⟨⟨name, value⟩, hcut, h⟩
    rcases Option.bind_eq_some_iff.mp h with ⟨m, hm, h⟩
    cases h
    rcases Text.cutAt_beq_eq_some_iff.mp hcut with ⟨hline, hname⟩
    rcases readNumber_eq_some_iff.mp hm with ⟨z, hz, hlimit, rfl⟩
    exact ⟨z, ⟨name, value, hline, hname, String.toList_ofList.symm, hz, hlimit⟩, rfl⟩
  · rintro ⟨z, ⟨name, value, hline, hname, hx, hz, hlimit⟩, rfl⟩
    have hcut := Text.cutAt_beq_eq_some_iff.mpr ⟨hline, hname⟩
    have hnumber := readNumber_eq_some_iff.mpr ⟨z, hz, hlimit, rfl⟩
    rw [hcut, Option.bind_eq_bind, Option.bind_some]
    dsimp only
    rw [hnumber, hx, String.ofList_toList]
    rfl

theorem lastPrinted_append_singleton {numeral : List Char → Int → Prop}
    {lines : List (List Char)} {line : List Char} {x : String} {z : Int} :
    LastPrinted numeral (lines ++ [line]) x z ↔
      Prints numeral line x z ∨
        (∀ z', ¬ Prints numeral line x z') ∧ LastPrinted numeral lines x z := by
  constructor
  · rintro ⟨before, l, after, hlines, hl, hafter⟩
    rcases List.eq_nil_or_concat after with rfl | ⟨after, last, rfl⟩
    · rcases List.append_inj' hlines rfl with ⟨_, hlast⟩
      cases hlast
      exact Or.inl hl
    · rw [List.concat_eq_append, ← List.cons_append, ← List.append_assoc] at hlines
      rcases List.append_inj' hlines rfl with ⟨rfl, hlast⟩
      cases hlast
      rw [List.concat_eq_append] at hafter
      refine Or.inr ⟨hafter line (by simp), before, l, after, rfl, hl, ?_⟩
      intro l' hl'
      exact hafter l' (by simp [hl'])
  · rintro (hl | ⟨hlast, before, l, after, rfl, hl, hafter⟩)
    · exact ⟨lines, line, [], rfl, hl, by simp⟩
    · refine ⟨before, l, after ++ [line], by simp, hl, ?_⟩
      intro l' hl'
      rcases List.mem_append.mp hl' with hl' | hl'
      · exact hafter l' hl'
      · rw [List.mem_singleton.mp hl']
        exact hlast

theorem exists_lastPrinted {numeral : List Char → Int → Prop} {lines : List (List Char)}
    {line : List Char} {x : String} {z : Int} (hmem : line ∈ lines)
    (h : Prints numeral line x z) : ∃ z', LastPrinted numeral lines x z' := by
  induction lines using List.reverseRecOn with
  | nil => cases hmem
  | append_singleton lines last ih =>
      by_cases hlast : ∃ z', Prints numeral last x z'
      · rcases hlast with ⟨z', hz'⟩
        exact ⟨z', lastPrinted_append_singleton.mpr (Or.inl hz')⟩
      · have hlast := not_exists.mp hlast
        rcases List.mem_append.mp hmem with hmem | hmem
        · rcases ih hmem with ⟨z', hz'⟩
          exact ⟨z', lastPrinted_append_singleton.mpr (Or.inr ⟨hlast, hz'⟩)⟩
        · rw [List.mem_singleton.mp hmem] at h
          exact absurd h (hlast z)

theorem LastPrinted.exists_line {numeral : List Char → Int → Prop} {lines : List (List Char)}
    {x : String} {z : Int} (h : LastPrinted numeral lines x z) :
    ∃ line ∈ lines, Prints numeral line x z := by
  rcases h with ⟨before, line, after, rfl, hline, _⟩
  exact ⟨line, by simp, hline⟩

theorem not_prints {line : List Char} {x : String} (h : ∀ n, readLine line ≠ some (x, n))
    (z : Int) : ¬ Prints Readable line x z := by
  intro hz
  exact h _ (readLine_eq_some_iff.mpr ⟨z, hz, rfl⟩)

theorem Prints.unique {line : List Char} {x y : String} {z z' : Int}
    (h : Prints Readable line x z) (h' : Prints Readable line y z') :
    x = y ∧ Word.ofInt maxWidth z = Word.ofInt maxWidth z' := by
  have hread := readLine_eq_some_iff.mpr ⟨z, h, rfl⟩
  rw [readLine_eq_some_iff.mpr ⟨z', h', rfl⟩, Option.some.injEq, Prod.mk.injEq] at hread
  exact ⟨hread.1.symm, hread.2.symm⟩

/-- The number that is kept for a name is the word of the last one. -/
theorem get?_observed {lines : List (List Char)} {x : String} {n : Nat} :
    Assoc.get? (Assoc.ofList (lines.filterMap readLine)) x = some n ↔
      ∃ z, LastPrinted Readable lines x z ∧ n = Word.ofInt maxWidth z := by
  rw [Assoc.get?_ofList]
  -- Later lines are in front of the reversed list, so lines are taken from the end.
  induction lines using List.reverseRecOn with
  | nil => simp [LastPrinted]
  | append_singleton lines line ih =>
      rw [List.filterMap_append, List.reverse_append]
      cases hread : readLine line with
      | none =>
          have hnot : ∀ z, ¬ Prints Readable line x z := not_prints (by simp [hread])
          simp only [List.filterMap_cons, hread, List.filterMap_nil, List.reverse_nil,
            List.nil_append, lastPrinted_append_singleton, hnot, false_or, not_false_eq_true,
            implies_true, true_and]
          exact ih
      | some entry =>
          rcases entry with ⟨y, m⟩
          simp only [List.filterMap_cons, hread, List.filterMap_nil, List.reverse_singleton,
            List.singleton_append, Assoc.get?_cons, lastPrinted_append_singleton]
          split
          · rename_i hx
            subst hx
            rcases readLine_eq_some_iff.mp hread with ⟨z, hz, rfl⟩
            constructor
            · rintro ⟨⟩
              exact ⟨z, Or.inl hz, rfl⟩
            · rintro ⟨z', hz' | ⟨hnot, _⟩, rfl⟩
              · rw [(hz.unique hz').2]
              · exact absurd hz (hnot z)
          · rename_i hx
            have hnot : ∀ z, ¬ Prints Readable line x z := not_prints (by simp [hread, Ne.symm hx])
            simp only [hnot, false_or, not_false_eq_true, implies_true, true_and]
            exact ih

/-!
## Words
-/

/-- A whole number stands for a value when both are the same modulo the power of two of its
width. -/
def StandsFor (z : Int) (v : Value) : Prop := z ≡ v.raw [ZMOD 2 ^ v.sort.width]

theorem standsFor_iff {z : Int} {v : Value} {s : BvSort} (hs : s.isValid = true)
    (hv : v.InSort s) : StandsFor z v ↔ Word.ofInt v.sort.width z = v.raw := by
  have hwidth : v.sort.width ≤ maxWidth := by
    rw [hv.1]
    exact Term.width_le_of_isValid hs
  have hpos : (0 : Int) < 2 ^ v.sort.width := Int.pow_pos (by decide)
  have hraw : (v.raw : Int) % 2 ^ v.sort.width = v.raw := by
    have hlt : v.raw < Nat.pow 2 v.sort.width := by
      rw [hv.1]
      exact Value.raw_lt hv
    refine Int.emod_eq_of_lt (Int.natCast_nonneg _) ?_
    exact_mod_cast hlt
  unfold StandsFor Int.ModEq Word.ofInt
  rw [Word.modulus_cast hwidth, hraw, ← Int.natCast_inj,
    Int.toNat_of_nonneg (Int.emod_nonneg z hpos.ne')]

/-!
## Judgements
-/

def FirstBad {α : Type} (good bad : α → Prop) (l : List α) (a : α) : Prop :=
  ∃ before after, l = before ++ a :: after ∧ (∀ b ∈ before, good b) ∧ bad a

theorem firstBad_cons {α : Type} {good bad : α → Prop} {l : List α} {a b : α} :
    FirstBad good bad (b :: l) a ↔ b = a ∧ bad a ∨ good b ∧ FirstBad good bad l a := by
  constructor
  · rintro ⟨_ | ⟨c, before⟩, after, heq, hbefore, ha⟩
    · cases heq
      exact Or.inl ⟨rfl, ha⟩
    · cases heq
      rcases List.forall_mem_cons.mp hbefore with ⟨hb, hbefore⟩
      exact Or.inr ⟨hb, before, after, rfl, hbefore, ha⟩
  · rintro (⟨rfl, ha⟩ | ⟨hb, before, after, rfl, hbefore, ha⟩)
    · exact ⟨[], l, rfl, by simp, ha⟩
    · exact ⟨b :: before, after, rfl, List.forall_mem_cons.mpr ⟨hb, hbefore⟩, ha⟩

section Judgement

variable (shown : String → Int → Prop)

def Agrees (out : String × Value) : Prop := ∃ z, shown out.1 z ∧ StandsFor z out.2

def Differs (out : String × Value) : Prop := ∃ z, shown out.1 z ∧ ¬ StandsFor z out.2

def Missing (out : String × Value) : Prop := ∀ z, ¬ shown out.1 z

/-- The evidence that numbers shown under names give on expected outputs. -/
structure Judged (expected : List (String × Value)) (evidence : ReplayEvidence) : Prop where
  confirmed : evidence.status = .confirmed ↔ ∀ out ∈ expected, Agrees shown out
  diverged : evidence.status = .diverged ↔
    ∃ out, FirstBad (Agrees shown) (Differs shown) expected out
  inconclusive : evidence.status = .inconclusive ↔
    ∃ out, FirstBad (Agrees shown) (Missing shown) expected out
  names : ∀ out, FirstBad (Agrees shown) (Differs shown) expected out →
    ∃ z, shown out.1 z ∧ ¬ StandsFor z out.2 ∧
      evidence.detail = "binary printed " ++ out.1 ++ "=" ++
        Text.decimal (Word.ofInt out.2.sort.width z) ++ ", reference model gives " ++
        Text.decimal out.2.raw

/-- The numbers that are kept for names are the words of those that are shown. -/
def Keeps (observed : Assoc Nat) : Prop :=
  ∀ x n, observed.get? x = some n ↔ ∃ z, shown x z ∧ n = Word.ofInt maxWidth z

variable {shown} {observed : Assoc Nat} {expected : List (String × Value)}
  {evidence : ReplayEvidence} {x : String} {v : Value} {s : BvSort} {n : Nat}

theorem Keeps.missing (h : Keeps shown observed) (hx : observed.get? x = none) :
    Missing shown (x, v) := by
  intro z hz
  rw [(h x _).mpr ⟨z, hz, rfl⟩] at hx
  cases hx

/-- All numbers that are shown under a name have the same word. -/
theorem Keeps.standsFor_iff (h : Keeps shown observed) (hs : s.isValid = true) (hv : v.InSort s)
    (hx : observed.get? x = some n) {z : Int} (hz : shown x z) :
    StandsFor z v ↔ Word.truncate v.sort.width n = v.raw := by
  have hword : some n = some (Word.ofInt maxWidth z) := by
    rw [← hx]
    exact (h x _).mpr ⟨z, hz, rfl⟩
  have hwidth : v.sort.width ≤ maxWidth := by
    rw [hv.1]
    exact Term.width_le_of_isValid hs
  rw [Replay.standsFor_iff hs hv, Option.some.inj hword, Word.truncate_ofInt hwidth]

theorem Judged.nil :
    Judged shown [] ⟨.confirmed, "binary agrees with the reference model", observed⟩ := by
  have hnone : ∀ {bad : String × Value → Prop} {out}, ¬ FirstBad (Agrees shown) bad [] out := by
    rintro _ _ ⟨before, after, heq, _⟩
    exact List.append_ne_nil_of_right_ne_nil _ (List.cons_ne_nil _ _) heq.symm
  constructor <;> simp [hnone]

theorem Judged.agrees {out : String × Value} (hout : Agrees shown out)
    (hdiffers : ¬ Differs shown out) (h : Judged shown expected evidence) :
    Judged shown (out :: expected) evidence := by
  have hmissing : ¬ Missing shown out := by
    rcases hout with ⟨z, hz, _⟩
    exact fun hmissing => hmissing z hz
  have hfirst : ∀ {bad : String × Value → Prop} {other}, ¬ bad out →
      (FirstBad (Agrees shown) bad (out :: expected) other ↔
        FirstBad (Agrees shown) bad expected other) := by
    intro bad other hbad
    rw [firstBad_cons]
    constructor
    · rintro (⟨rfl, hother⟩ | ⟨_, hother⟩)
      · exact absurd hother hbad
      · exact hother
    · exact fun hother => Or.inr ⟨hout, hother⟩
  refine ⟨?_, ?_, ?_, ?_⟩
  · rw [h.confirmed, List.forall_mem_cons]
    exact ⟨fun hrest => ⟨hout, hrest⟩, fun hall => hall.2⟩
  · simp only [hfirst hdiffers]
    exact h.diverged
  · simp only [hfirst hmissing]
    exact h.inconclusive
  · simp only [hfirst hdiffers]
    exact h.names

theorem firstBad_cons_of_not {bad : String × Value → Prop} {out other : String × Value}
    (hout : ¬ Agrees shown out) :
    FirstBad (Agrees shown) bad (out :: expected) other ↔ out = other ∧ bad other := by
  rw [firstBad_cons]
  simp [hout]

theorem Judged.differs {out : String × Value} {z : Int} (hz : shown out.1 z)
    (hnot : ¬ StandsFor z out.2) (hout : ¬ Agrees shown out) :
    Judged shown (out :: expected) ⟨.diverged, "binary printed " ++ out.1 ++ "=" ++
      Text.decimal (Word.ofInt out.2.sort.width z) ++ ", reference model gives " ++
      Text.decimal out.2.raw, observed⟩ := by
  have hmissing : ¬ Missing shown out := fun hmissing => hmissing z hz
  constructor
  case confirmed => simp [hout]
  case diverged => simpa [firstBad_cons_of_not hout] using ⟨z, hz, hnot⟩
  case inconclusive => simpa [firstBad_cons_of_not hout] using hmissing
  case names =>
    intro other hother
    rw [firstBad_cons_of_not hout] at hother
    rcases hother with ⟨rfl, _⟩
    exact ⟨z, hz, hnot, rfl⟩

theorem Judged.missing {out : String × Value} (hout : Missing shown out) :
    Judged shown (out :: expected)
      ⟨.inconclusive, "binary printed no value for `" ++ out.1 ++ "`", observed⟩ := by
  have hagrees : ¬ Agrees shown out := by
    rintro ⟨z, hz, _⟩
    exact hout z hz
  have hdiffers : ¬ Differs shown out := by
    rintro ⟨z, hz, _⟩
    exact hout z hz
  constructor
  case confirmed => simp [hagrees]
  case diverged => simpa [firstBad_cons_of_not hagrees] using hdiffers
  case inconclusive => simpa [firstBad_cons_of_not hagrees] using hout
  case names =>
    intro other hother
    rw [firstBad_cons_of_not hagrees] at hother
    rcases hother with ⟨rfl, hother⟩
    exact absurd hother hdiffers

/-- Outputs are judged in order, by the numbers that are shown. -/
theorem judge_judged (h : Keeps shown observed)
    (hexpected : ∀ out ∈ expected, ∃ s, s.isValid = true ∧ out.2.InSort s) :
    Judged shown expected (judge observed expected) := by
  induction expected with
  | nil => exact .nil
  | cons out expected ih =>
      rcases out with ⟨x, v⟩
      rcases List.forall_mem_cons.mp hexpected with ⟨⟨s, hs, hv⟩, hexpected⟩
      rw [judge]
      cases hx : observed.get? x with
      | none => exact .missing (h.missing hx)
      | some n =>
          rcases (h x n).mp hx with ⟨z, hz, hn⟩
          have hsame : ∀ {z}, shown x z → (StandsFor z v ↔ Word.truncate v.sort.width n = v.raw) :=
            fun hz => h.standsFor_iff hs hv hx hz
          dsimp only
          split
          · rename_i hraw
            refine .agrees ⟨z, hz, (hsame hz).mpr hraw⟩ ?_ (ih hexpected)
            rintro ⟨z', hz', hnot⟩
            exact hnot ((hsame hz').mpr hraw)
          · rename_i hraw
            have hwidth : v.sort.width ≤ maxWidth := by
              rw [hv.1]
              exact Term.width_le_of_isValid hs
            rw [hn, Word.truncate_ofInt hwidth]
            have hshown : shown (x, v).1 z := hz
            refine Judged.differs hshown (mt (hsame hz).mp hraw) ?_
            rintro ⟨z', hz', hstands⟩
            exact hraw ((hsame hz').mp hstands)

end Judgement

/-!
## Written values
-/

/-- A line is an output with its value, as a natural number or in two's complement. -/
def Shows (line : List Char) (out : String × Value) : Prop :=
  line = (out.1 ++ "=" ++ Text.decimal out.2.raw).toList ∨
    line = (out.1 ++ "=" ++
      Text.signedDecimal (BitVec.ofNat out.2.sort.width out.2.raw).toInt).toList

theorem trim_signedDecimal (z : Int) :
    Text.trim (Text.signedDecimal z).toList = (Text.signedDecimal z).toList ∧
      ∀ c ∈ (Text.signedDecimal z).toList, Text.isBlank c = false := by
  have hdigits : ∀ n, ∀ c ∈ (Text.decimal n).toList, Text.isBlank c = false := by
    intro n c hc
    exact Text.isBlank_of_isAlphanum ((Text.writes_decimal n).isAlphanum (by decide) c hc)
  have hnone : ∀ c ∈ (Text.signedDecimal z).toList, Text.isBlank c = false := by
    cases z with
    | ofNat n => exact hdigits n
    | negSucc n =>
        rw [Text.signedDecimal, String.toList_append]
        exact List.forall_mem_cons.mpr ⟨by decide, hdigits (n + 1)⟩
  exact ⟨Text.trimBy_of_none hnone, hnone⟩

theorem not_blank_of_identifier {s : List Char} (h : Program.Identifier s) :
    ∀ c ∈ s, Text.isBlank c = false ∧ c ≠ '=' := by
  intro c hc
  rcases Program.isAlphanum_of_identifier h c hc with halpha | rfl
  · refine ⟨Text.isBlank_of_isAlphanum halpha, ?_⟩
    rintro rfl
    exact absurd halpha (by decide)
  · exact ⟨by decide, by decide⟩

/-- A number behind a name and a sign of equality is read under that name. -/
theorem prints_signedDecimal {x : String} (hx : Program.Identifier x.toList) {z : Int}
    (hz : z.natAbs < 2 ^ 128) :
    Prints Readable (x ++ "=" ++ Text.signedDecimal z).toList x z := by
  rcases trim_signedDecimal z with ⟨htrim, hnumber⟩
  have hname := not_blank_of_identifier hx
  have hline : (x ++ "=" ++ Text.signedDecimal z).toList =
      x.toList ++ '=' :: (Text.signedDecimal z).toList := by
    rw [String.toList_append, String.toList_append, List.append_assoc]
    rfl
  refine ⟨x.toList, (Text.signedDecimal z).toList, ?_, fun hmem => (hname _ hmem).2 rfl,
    Text.trimBy_of_none fun c hc => (hname c hc).1, ?_, hz⟩
  · rw [hline]
    refine Text.trimBy_of_none (List.forall_mem_append.mpr ⟨fun c hc => (hname c hc).1, ?_⟩)
    exact List.forall_mem_cons.mpr ⟨by decide, hnumber⟩
  · rw [htrim]
    exact (integer_signedDecimal z).readable

theorem natAbs_toInt_lt {w : Nat} (h : w ≤ maxWidth) (b : BitVec w) :
    b.toInt.natAbs < 2 ^ 128 := by
  have hlt : b.toNat < 2 ^ 128 :=
    Nat.lt_of_lt_of_le b.isLt (Nat.pow_le_pow_right (by decide) h)
  have hpow : 2 ^ w ≤ 2 ^ 128 := Nat.pow_le_pow_right (by decide) h
  rw [BitVec.toInt_eq_toNat_cond]
  split <;> omega

theorem Shows.prints {line : List Char} {out : String × Value} {s : BvSort}
    (h : Shows line out) (hname : Program.Identifier out.1.toList) (hs : s.isValid = true)
    (hv : out.2.InSort s) : ∃ z, Prints Readable line out.1 z ∧ StandsFor z out.2 := by
  have hwidth : out.2.sort.width ≤ maxWidth := by
    rw [hv.1]
    exact Term.width_le_of_isValid hs
  rcases h with rfl | rfl
  · have hlt : (out.2.raw : Int).natAbs < 2 ^ 128 := by
      rw [Int.natAbs_natCast]
      exact Value.raw_lt_wideLimit hv
    have hdecimal : Text.decimal out.2.raw = Text.signedDecimal out.2.raw := rfl
    rw [hdecimal]
    exact ⟨out.2.raw, prints_signedDecimal hname hlt, Int.ModEq.refl _⟩
  · refine ⟨_, prints_signedDecimal hname (natAbs_toInt_lt hwidth _), ?_⟩
    have hlt : out.2.raw < 2 ^ out.2.sort.width := by
      rw [hv.1]
      exact Value.raw_lt hv
    rw [Replay.standsFor_iff hs hv, Word.ofInt_eq hwidth, BitVec.ofInt_toInt, BitVec.toNat_ofNat,
      Nat.mod_eq_of_lt hlt]

theorem Prints.equals_mem {numeral : List Char → Int → Prop} {line : List Char} {x : String}
    {z : Int} (h : Prints numeral line x z) : '=' ∈ line := by
  rcases h with ⟨name, value, hline, _⟩
  have hmem : '=' ∈ Text.trim line := by
    rw [hline]
    simp
  exact Text.mem_of_mem_trimBy hmem

/-- Lines that show every output with its value, among lines without a sign of equality, agree
with all outputs. -/
theorem agrees_of_shows {lines : List (List Char)} {expected : List (String × Value)}
    (hnames : Assoc.Distinct expected) (hfit : ∀ out ∈ expected,
      Program.Identifier out.1.toList ∧ ∃ s, s.isValid = true ∧ out.2.InSort s)
    (honly : ∀ line ∈ lines, '=' ∈ line → ∃ out ∈ expected, Shows line out)
    (hall : ∀ out ∈ expected, ∃ line ∈ lines, Shows line out) :
    ∀ out ∈ expected, Agrees (LastPrinted Readable lines) out := by
  intro out hout
  rcases hfit out hout with ⟨hname, s, hs, hv⟩
  rcases hall out hout with ⟨line, hline, hshows⟩
  rcases hshows.prints hname hs hv with ⟨z, hz, _⟩
  rcases exists_lastPrinted hline hz with ⟨z', hlast⟩
  rcases hlast.exists_line with ⟨line', hline', hz'⟩
  rcases honly line' hline' hz'.equals_mem with ⟨other, hother, hshows'⟩
  rcases hfit other hother with ⟨hname', s', hs', hv'⟩
  rcases hshows'.prints hname' hs' hv' with ⟨z'', hz'', hstands⟩
  have hsame := hz''.unique hz'
  have hvalue : other.2 = out.2 := by
    have hget := Assoc.get?_of_mem hnames hother
    rw [hsame.1, Assoc.get?_of_mem hnames hout] at hget
    exact (Option.some.inj hget).symm
  rw [hvalue] at hv' hstands
  have hwidth : out.2.sort.width ≤ maxWidth := by
    rw [hv'.1]
    exact Term.width_le_of_isValid hs'
  refine ⟨z', hlast, ?_⟩
  rw [Replay.standsFor_iff hs' hv', ← Word.truncate_ofInt hwidth, ← hsame.2,
    Word.truncate_ofInt hwidth, ← Replay.standsFor_iff hs' hv']
  exact hstands

/-!
## Replays
-/

theorem outputs_fit {p : Program} (hp : p.WellFormed) (hlegible : p.Legible) {values : Env}
    (hvalues : p.FitsValues values) :
    ∃ expected, p.evaluate values = .ok expected ∧ Assoc.Distinct expected ∧
      ∀ out ∈ expected, Program.Identifier out.1.toList ∧
        ∃ s, s.isValid = true ∧ out.2.InSort s := by
  rcases hp.valuesAt hvalues.matches with ⟨env, all, _, hall, hvaluesAt, _, _, hinputs⟩
  have hfits : Fits (Assoc.get? p.inputs) env := by
    intro x s hx
    rw [hinputs x s hx]
    exact hvalues x s (Assoc.mem_of_get? hx)
  have hscope := validScope_of_valid hp.valid
  rcases hp.sorted.definedValues_fits hscope hfits with ⟨all', hall', hfits⟩
  rw [hall] at hall'
  cases hall'
  refine ⟨p.outputsIn all, hp.evaluate_eq hvaluesAt, Program.distinct_outputsIn hp all, ?_⟩
  intro out hout
  rcases List.mem_map.mp hout with ⟨b, hb, rfl⟩
  have hsort := after_of_mem hp.sorted (Program.definition_mem_of_output hb)
  refine ⟨(hlegible.bindings b (List.mem_filter.mp hb).1).1, b.sort,
    hp.sorted.validScope hscope b.name b.sort hsort, ?_⟩
  rcases hfits b.name b.sort hsort with ⟨v, hv, hin⟩
  rw [Program.valueIn, hv]
  exact hin

/-- A line has a number with a plus sign behind a minus sign. -/
def DoublySigned (line : List Char) : Prop :=
  ∃ name value digits, Text.trim line = name ++ '=' :: value ∧ '=' ∉ name ∧
    Text.trim value = '-' :: '+' :: digits

theorem lastPrinted_integer {lines : List (List Char)} (h : ∀ line ∈ lines, ¬ DoublySigned line) :
    LastPrinted Readable lines = LastPrinted Integer lines := by
  have hline : ∀ line ∈ lines, ∀ x z, Prints Readable line x z ↔ Prints Integer line x z := by
    intro line hmem x z
    constructor
    · rintro ⟨name, value, hcut, hname, hx, hz, hlimit⟩
      rcases hz.cases with hz | ⟨digits, hdigits⟩
      · exact ⟨name, value, hcut, hname, hx, hz, hlimit⟩
      · exact absurd ⟨name, value, digits, hcut, hname, hdigits⟩ (h line hmem)
    · rintro ⟨name, value, hcut, hname, hx, hz, hlimit⟩
      exact ⟨name, value, hcut, hname, hx, hz.readable, hlimit⟩
  funext x z
  apply propext
  constructor
  · rintro ⟨before, line, after, rfl, hz, hafter⟩
    refine ⟨before, line, after, rfl, (hline line (by simp) x z).mp hz, ?_⟩
    intro l hl z'
    rw [← hline l (by simp [hl])]
    exact hafter l hl z'
  · rintro ⟨before, line, after, rfl, hz, hafter⟩
    refine ⟨before, line, after, rfl, (hline line (by simp) x z).mpr hz, ?_⟩
    intro l hl z'
    rw [hline l (by simp [hl])]
    exact hafter l hl z'

end Replay

namespace Replayer

open Replay

/-- A run of the binary that ends well is judged by the last number that it printed for each
output, and every other run shows nothing. A binary that prints the expected values, in either
reading of a word, is confirmed. -/
theorem replay_judges {text : List Char} {p : Program} (h : Program.load text = .ok p)
    {values : Env} (hvalues : p.FitsValues values) (r : Replayer) (binary : String)
    {files files' : Execution.Files} {command : Execution.Command} {o : Execution.Outcome}
    (hcommand : r.command? binary (encodeInputs p values) = some command)
    (hrun : r.host.run command (.ofWall r.settings.timeoutSecs) files = (.ok o, files')) :
    ∃ expected, p.evaluate values = .ok expected ∧
      (o.termination ≠ .exited 0 →
        (r.replay binary p values files).1.1.status = .inconclusive) ∧
      (o.termination = .exited 0 →
        Judged (LastPrinted Readable (Text.lines o.stdout.text)) expected
            (r.replay binary p values files).1.1 ∧
          ((∀ line ∈ Text.lines o.stdout.text, ¬ DoublySigned line) →
            Judged (LastPrinted Integer (Text.lines o.stdout.text)) expected
              (r.replay binary p values files).1.1) ∧
          ((∀ line ∈ Text.lines o.stdout.text, '=' ∈ line → ∃ out ∈ expected, Shows line out) →
            (∀ out ∈ expected, ∃ line ∈ Text.lines o.stdout.text, Shows line out) →
              (r.replay binary p values files).1.1.status = .confirmed)) := by
  rcases outputs_fit (Program.load_wellFormed h) (Program.load_legible h) hvalues with
    ⟨expected, hexpected, hnames, hfit⟩
  refine ⟨expected, hexpected, ?_, ?_⟩
  · intro hexit
    have hfailed : o.termination.isSuccess = false := beq_eq_false_iff_ne.mpr hexit
    unfold replay
    rw [hexpected, hcommand]
    dsimp only
    rw [hrun]
    dsimp only
    rw [hfailed, if_neg Bool.false_ne_true]
    rfl
  · intro hexit
    have heq : (r.replay binary p values files).1.1 =
        judge (observations o.stdout.text) expected := by
      have hsuccess : o.termination.isSuccess = true := beq_iff_eq.mpr hexit
      unfold replay
      rw [hexpected, hcommand]
      dsimp only
      rw [hrun]
      dsimp only
      rw [hsuccess, if_pos rfl]
    have hjudged : Judged (LastPrinted Readable (Text.lines o.stdout.text)) expected
        (judge (observations o.stdout.text) expected) :=
      judge_judged (fun _ _ => get?_observed) fun out hout => (hfit out hout).2
    rw [heq]
    refine ⟨hjudged, ?_, ?_⟩
    · intro hlines
      rw [← lastPrinted_integer hlines]
      exact hjudged
    · intro honly hall
      exact hjudged.confirmed.mpr (agrees_of_shows hnames hfit honly hall)

def printing (text : String) : Replayer where
  host := Solver.External.hostOf (Solver.External.printed (.exited 0) text)
  settings := ⟨["run"], 1⟩

/-- The values at which the output of the example is seven below zero. -/
def minusSeven : Env := [("a", .word 4089 12), ("f", .bool true)]

theorem fitsValues_minusSeven : chosen.FitsValues minusSeven := by
  intro x s hx
  rcases List.mem_cons.mp hx with hx | hx
  · cases hx
    exact ⟨.word 4089 12, rfl, rfl, by decide⟩
  · cases List.mem_singleton.mp hx
    exact ⟨.bool true, rfl, rfl, by decide⟩

theorem evaluate_minusSeven : chosen.evaluate minusSeven = .ok [("r", .word 4089 12)] := by
  decide +kernel

/-- The two's complement of the value is printed, between other lines. -/
theorem replay_judges_chosen :
    Program.load chosen.text.toList = .ok chosen ∧ chosen.FitsValues minusSeven ∧
      ((printing "booting\nr=-7\ndone\n").replay "case.elf" chosen minusSeven .empty).1.1.status =
        .confirmed := by
  refine ⟨load_chosen, fitsValues_minusSeven, ?_⟩
  have hlines : Text.lines (Solver.External.printed (.exited 0)
      "booting\nr=-7\ndone\n").stdout.text =
        ["booting".toList, "r=-7".toList, "done".toList] := by
    decide +kernel
  have hshows : Shows "r=-7".toList ("r", .word 4089 12) := by
    refine Or.inr ?_
    decide +kernel
  rcases @replay_judges _ _ load_chosen _ fitsValues_minusSeven (printing "booting\nr=-7\ndone\n")
    "case.elf" .empty _ _ _ rfl rfl with ⟨expected, hexpected, _, hjudged⟩
  rw [evaluate_minusSeven] at hexpected
  cases hexpected
  rw [hlines] at hjudged
  refine (hjudged rfl).2.2 ?_ ?_
  · intro line hline hequals
    simp only [List.mem_cons, List.not_mem_nil, or_false] at hline
    rcases hline with rfl | rfl | rfl
    · exact absurd hequals (by decide)
    · exact ⟨_, List.mem_singleton_self _, hshows⟩
    · exact absurd hequals (by decide)
  · intro out hout
    rw [List.mem_singleton.mp hout]
    exact ⟨"r=-7".toList, by simp, hshows⟩

/-- A line that shows no whole number is taken for the output. -/
theorem replay_doublySigned :
    ∃ expected, chosen.evaluate minusSeven = .ok expected ∧
      ¬ Judged (LastPrinted Integer (Text.lines (Solver.External.printed (.exited 0)
          "r=-+7\n").stdout.text)) expected
        ((printing "r=-+7\n").replay "case.elf" chosen minusSeven .empty).1.1 := by
  refine ⟨_, evaluate_minusSeven, ?_⟩
  intro hjudged
  have hstatus : ((printing "r=-+7\n").replay "case.elf" chosen minusSeven .empty).1.1.status =
      .confirmed := by
    decide +kernel
  have hlines : Text.lines (Solver.External.printed (.exited 0) "r=-+7\n").stdout.text =
      ["r=-+7".toList] := by
    decide +kernel
  rw [hlines] at hjudged
  rcases hjudged.confirmed.mp hstatus _ (List.mem_singleton_self _) with ⟨z, hz, _⟩
  rcases hz.exists_line with ⟨line, hline, name, value, hcut, hname, _, hvalue, _⟩
  rw [List.mem_singleton.mp hline] at hcut
  have hfirst := Text.cutAt_beq_eq_some_iff.mpr ⟨hcut, hname⟩
  have hparts : Text.cutAt (· == '=') (Text.trim "r=-+7".toList) =
      some ("r".toList, "-+7".toList) := by
    decide +kernel
  rw [hparts] at hfirst
  cases hfirst
  have htrim : Text.trim "-+7".toList = '-' :: '+' :: "7".toList := by
    decide +kernel
  rw [htrim] at hvalue
  cases hvalue with
  | plain hs => exact absurd (hs.isAlphanum (by decide) '-' List.mem_cons_self) (by decide)
  | minus hs => exact absurd (hs.isAlphanum (by decide) '+' List.mem_cons_self) (by decide)

end Replayer
end Bench
end BitEquiv

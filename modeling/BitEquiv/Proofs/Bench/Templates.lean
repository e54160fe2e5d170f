import Mathlib.Data.List.Infix
import BitEquiv.Bench.Subject

/-!
# Templates of commands

A template is cut from left to right into characters and places to be filled. One kind of place
is filled after the other, so a value is looked through for the places that come later. A value
that makes no mark with what stands beside it is filled in as the later passes leave it. It is
filled in as it is when it has none of the later marks, and only then in every template.
-/

namespace BitEquiv
namespace Bench
namespace Template

/-!
## Replacing a mark
-/

section Replace

variable {mark value : List Char}

theorem stripStart_append (s : List Char) : Text.stripStart mark (mark ++ s) = some s := by
  unfold Text.stripStart
  rw [if_pos (List.isPrefixOf_iff_prefix.mpr (List.prefix_append mark s)), List.drop_left]

theorem stripStart_of_not_isPrefix {s : List Char} (h : ¬ mark <+: s) :
    Text.stripStart mark s = none := by
  unfold Text.stripStart
  rw [if_neg fun hmark => h (List.isPrefixOf_iff_prefix.mp hmark)]

theorem replaceWithin_congr (hmark : mark ≠ []) {n m : Nat} {s : List Char} (hn : s.length ≤ n)
    (hm : s.length ≤ m) : replaceWithin mark value n s = replaceWithin mark value m s := by
  induction n generalizing m s with
  | zero =>
      rw [List.length_eq_zero_iff.mp (Nat.le_zero.mp hn)]
      cases m <;> rfl
  | succ n ih =>
      cases s with
      | nil => cases m <;> rfl
      | cons c s =>
          cases m with
          | zero => cases hm
          | succ m =>
              -- An occurrence takes several characters and one unit of fuel.
              by_cases hstarts : mark <+: c :: s
              · rcases hstarts with ⟨after, hafter⟩
                have hpos := List.length_pos_iff.mpr hmark
                rw [← hafter, List.length_append] at hn hm
                simp only [replaceWithin]
                rw [← hafter, stripStart_append]
                dsimp only
                rw [ih (m := m) (by omega) (by omega)]
              · rw [List.length_cons] at hn hm
                simp only [replaceWithin, stripStart_of_not_isPrefix hstarts]
                rw [ih (m := m) (by omega) (by omega)]

def replaced (mark value s : List Char) : List Char := replaceWithin mark value s.length s

theorem toList_replaceAll (mark value text : String) :
    (replaceAll mark value text).toList = replaced mark.toList value.toList text.toList := by
  rw [replaceAll, String.toList_ofList, replaced, String.length_toList]

theorem replaced_mark_append (hmark : mark ≠ []) (s : List Char) :
    replaced mark value (mark ++ s) = value ++ replaced mark value s := by
  cases mark with
  | nil => exact absurd rfl hmark
  | cons c mark =>
      have hstrip : Text.stripStart (c :: mark) (c :: (mark ++ s)) = some s := stripStart_append s
      unfold replaced
      rw [List.cons_append, List.length_cons, replaceWithin, hstrip]
      dsimp only
      rw [replaceWithin_congr (n := (mark ++ s).length) hmark (by simp) (Nat.le_refl s.length)]

theorem replaced_cons {c : Char} {s : List Char} (h : ¬ mark <+: c :: s) :
    replaced mark value (c :: s) = c :: replaced mark value s := by
  unfold replaced
  rw [List.length_cons, replaceWithin, stripStart_of_not_isPrefix h]

theorem replaced_of_not_isInfix {s : List Char} (h : ¬ mark <:+: s) :
    replaced mark value s = s := by
  induction s with
  | nil => rfl
  | cons c s ih =>
      rw [replaced_cons fun hstarts => h hstarts.isInfix, ih]
      exact fun hinside => h (hinside.trans (List.suffix_cons c s).isInfix)

/-- A mark begins in one text and ends in the next. -/
def Straddles (mark x y : List Char) : Prop :=
  ∃ u w, mark = u ++ w ∧ u ≠ [] ∧ w ≠ [] ∧ u <:+ x ∧ w <+: y

/-- Two texts are looked through one by one when no mark straddles their border. -/
theorem replaced_append (hmark : mark ≠ []) {x y : List Char} (h : ¬ Straddles mark x y) :
    replaced mark value (x ++ y) = replaced mark value x ++ replaced mark value y := by
  induction hlength : x.length using Nat.strong_induction_on generalizing x with
  | _ n ih =>
      have hrest : ∀ {z : List Char}, z <:+ x → z.length < n →
          replaced mark value (z ++ y) = replaced mark value z ++ replaced mark value y := by
        intro z hz hlt
        refine ih _ hlt ?_ rfl
        rintro ⟨u, w, hsplit, hu, hw, hsuffix, hstarts⟩
        exact h ⟨u, w, hsplit, hu, hw, hsuffix.trans hz, hstarts⟩
      cases x with
      | nil => rfl
      | cons c x =>
          by_cases hstarts : mark <+: c :: x
          · rcases hstarts with ⟨z, hz⟩
            have hlt : z.length < n := by
              have hpos := List.length_pos_iff.mpr hmark
              rw [← hlength, ← hz, List.length_append]
              omega
            rw [← hz, List.append_assoc, replaced_mark_append hmark, replaced_mark_append hmark,
              hrest ⟨mark, hz⟩ hlt, List.append_assoc]
          · -- An occurrence that begins in the first text and ends in the second straddles.
            have hnot : ¬ mark <+: c :: (x ++ y) := by
              rintro ⟨z, hz⟩
              rw [← List.cons_append] at hz
              rcases List.append_eq_append_iff.mp hz with ⟨w, hw, _⟩ | ⟨w, hw, hy⟩
              · exact hstarts ⟨w, hw.symm⟩
              · cases w with
                | nil =>
                    rw [List.append_nil] at hw
                    exact hstarts (hw ▸ List.prefix_rfl)
                | cons d w =>
                    exact h ⟨c :: x, d :: w, hw, by simp, by simp, List.suffix_rfl, ⟨z, hy.symm⟩⟩
            rw [List.cons_append, replaced_cons hnot, replaced_cons hstarts,
              hrest (List.suffix_cons c x) (by rw [← hlength]; exact Nat.lt_succ_self _),
              List.cons_append]

theorem hasMark_eq_true_iff {s : List Char} : hasMark mark s = true ↔ mark <:+: s := by
  induction s with
  | nil => simp [hasMark]
  | cons c s ih =>
      rw [hasMark, Bool.or_eq_true, ih, List.isPrefixOf_iff_prefix, List.infix_cons_iff]

end Replace

/-!
## Pieces of a template
-/

inductive Slot where
  | binary
  | output
  | caseId
deriving DecidableEq

namespace Slot

def mark : Slot → List Char
  | binary => binaryMark.toList
  | output => outputMark.toList
  | caseId => caseMark.toList

theorem mark_ne_nil (s : Slot) : s.mark ≠ [] := by
  cases s <;> decide

theorem eq_of_mark_isPrefix {s t : Slot} : s.mark <+: t.mark → s = t := by
  cases s <;> cases t <;> decide

theorem eq_of_mark_append {s t : Slot} {x y : List Char} (h : s.mark ++ x = t.mark ++ y) :
    s = t ∧ x = y := by
  have hs : s.mark <+: t.mark ++ y := ⟨x, h⟩
  have hst : s = t := by
    rcases List.prefix_or_prefix_of_prefix hs (List.prefix_append t.mark y) with hle | hle
    · exact eq_of_mark_isPrefix hle
    · exact (eq_of_mark_isPrefix hle).symm
  subst hst
  exact ⟨rfl, List.append_cancel_left h⟩

def value (binary output caseId : String) : Slot → List Char
  | .binary => binary.toList
  | .output => output.toList
  | .caseId => caseId.toList

def filledBinary (binary : String) : Slot → List Char
  | .binary => binary.toList
  | .output => mark .output
  | .caseId => mark .caseId

def filledOutput (binary output : String) : Slot → List Char
  | .binary => (replaceAll outputMark output binary).toList
  | .output => output.toList
  | .caseId => mark .caseId

/-- The places after the third pass. Values were looked through for the places that come
later. -/
def settled (binary output caseId : String) : Slot → List Char
  | .binary => (replaceAll caseMark caseId (replaceAll outputMark output binary)).toList
  | .output => (replaceAll caseMark caseId output).toList
  | .caseId => caseId.toList

end Slot

inductive Piece where
  | char (c : Char)
  | slot (s : Slot)

def Piece.text (values : Slot → List Char) : Piece → List Char
  | char c => [c]
  | slot s => values s

def fill (values : Slot → List Char) (ps : List Piece) : List Char := ps.flatMap (Piece.text values)

/-- A text is cut into pieces from left to right. -/
inductive Splits : List Char → List Piece → Prop
  | nil : Splits [] []
  | slot (s : Slot) {rest : List Char} {ps : List Piece} : Splits rest ps →
      Splits (s.mark ++ rest) (.slot s :: ps)
  | char {c : Char} {rest : List Char} {ps : List Piece} : (∀ s : Slot, ¬ s.mark <+: c :: rest) →
      Splits rest ps → Splits (c :: rest) (.char c :: ps)

theorem Splits.fill_mark {t : List Char} {ps : List Piece} (h : Splits t ps) :
    fill Slot.mark ps = t := by
  induction h with
  | nil => rfl
  | slot s _ ih => exact congrArg (s.mark ++ ·) ih
  | char _ _ ih => exact congrArg (_ :: ·) ih

theorem exists_splits (t : List Char) : ∃ ps, Splits t ps := by
  -- On the length, since a mark takes more than the head of the text.
  induction hlength : t.length using Nat.strong_induction_on generalizing t with
  | _ n ih =>
      cases t with
      | nil => exact ⟨[], .nil⟩
      | cons c rest =>
          by_cases hmark : ∃ s : Slot, s.mark <+: c :: rest
          · rcases hmark with ⟨s, after, hafter⟩
            have hlt : after.length < n := by
              have hpos := List.length_pos_iff.mpr s.mark_ne_nil
              rw [← hlength, ← hafter, List.length_append]
              omega
            rcases ih _ hlt after rfl with ⟨ps, hps⟩
            exact ⟨.slot s :: ps, hafter ▸ .slot s hps⟩
          · rcases ih rest.length (by rw [← hlength]; exact Nat.lt_succ_self _) rest rfl with
              ⟨ps, hps⟩
            exact ⟨.char c :: ps, .char (not_exists.mp hmark) hps⟩

theorem Splits.unique {t : List Char} {ps qs : List Piece} (h : Splits t ps) (h' : Splits t qs) :
    ps = qs := by
  induction h generalizing qs with
  | nil =>
      generalize ht : ([] : List Char) = t at h'
      cases h' with
      | nil => rfl
      | slot s _ => exact absurd (List.append_eq_nil_iff.mp ht.symm).1 s.mark_ne_nil
      | char _ _ => cases ht
  | @slot s rest ps _ ih =>
      generalize ht : s.mark ++ rest = t at h'
      cases h' with
      | nil => exact absurd (List.append_eq_nil_iff.mp ht).1 s.mark_ne_nil
      | slot s' h' =>
          rcases Slot.eq_of_mark_append ht with ⟨rfl, rfl⟩
          rw [ih h']
      | char hnot _ => exact absurd ⟨rest, ht⟩ (hnot s)
  | @char c rest ps hnot _ ih =>
      generalize ht : c :: rest = t at h'
      cases h' with
      | nil => cases ht
      | slot s h' => exact absurd ⟨_, ht.symm⟩ (hnot s)
      | char _ h' =>
          cases ht
          rw [ih h']

/-!
## Filling one kind of place
-/

/-- A text makes no mark with what stands beside it, and is none of the inside of a mark. -/
def Apart (mark text : List Char) : Prop :=
  ∀ i < mark.length, 0 < i →
    ¬ mark.drop i <+: text ∧ ¬ text <+: mark.drop i ∧ ¬ mark.take i <:+ text

instance (mark text : List Char) : Decidable (Apart mark text) :=
  inferInstanceAs (Decidable (∀ i < mark.length, 0 < i →
    ¬ mark.drop i <+: text ∧ ¬ text <+: mark.drop i ∧ ¬ mark.take i <:+ text))

theorem Apart.split {mark text u w : List Char} (h : Apart mark text) (heq : mark = u ++ w)
    (hu : u ≠ []) (hw : w ≠ []) : ¬ w <+: text ∧ ¬ text <+: w ∧ ¬ u <:+ text := by
  have hupos := List.length_pos_iff.mpr hu
  have hwpos := List.length_pos_iff.mpr hw
  have hlt : u.length < mark.length := by
    rw [heq, List.length_append]
    omega
  have hsplit := h u.length hlt hupos
  rw [heq, List.drop_left, List.take_left] at hsplit
  exact hsplit

theorem Slot.apart_mark (s t : Slot) : Apart s.mark t.mark := by
  cases s <;> cases t <;> decide

section Pass

variable {target : Slot} {values : Slot → List Char}

/-- The end of a mark that shows in filled pieces was there before they were filled. -/
theorem prefix_of_fill (hvalues : ∀ s, Apart target.mark (values s)) {ps : List Piece}
    {u w : List Char} (hsplit : target.mark = u ++ w) (hu : u ≠ []) (h : w <+: fill values ps) :
    w <+: fill Slot.mark ps := by
  induction ps generalizing u w with
  | nil => exact h
  | cons p ps ih =>
      cases w with
      | nil => exact List.nil_prefix
      | cons d w =>
          cases p with
          | char c =>
              rcases List.cons_prefix_cons.mp h with ⟨rfl, hrest⟩
              refine List.cons_prefix_cons.mpr ⟨rfl, ih (u := u ++ [d]) ?_ (by simp) hrest⟩
              rw [hsplit, List.append_assoc, List.singleton_append]
          | slot s =>
              have hapart := (hvalues s).split hsplit hu (List.cons_ne_nil d w)
              rcases List.prefix_or_prefix_of_prefix h (List.prefix_append (values s) _) with
                hle | hle
              · exact absurd hle hapart.1
              · exact absurd hle hapart.2.1

/-- One pass over pieces looks through the values in them and leaves their characters. -/
theorem replaced_fill (hvalues : ∀ s, Apart target.mark (values s)) {t : List Char}
    {ps : List Piece} (h : Splits t ps) (value : List Char) :
    replaced target.mark value (fill values ps) =
      fill (fun s => replaced target.mark value (values s)) ps := by
  induction h with
  | nil => rfl
  | @slot s rest ps _ ih =>
      have hborder : ¬ Straddles target.mark (values s) (fill values ps) := by
        rintro ⟨u, w, hsplit, hu, hw, hsuffix, _⟩
        exact ((hvalues s).split hsplit hu hw).2.2 hsuffix
      show replaced target.mark value (values s ++ fill values ps) = _
      rw [replaced_append target.mark_ne_nil hborder, ih]
      rfl
  | @char c rest ps hnot hrest ih =>
      -- A mark that begins here ends in the template too, where there is none.
      have hnone : ¬ target.mark <+: c :: fill values ps := by
        intro hstarts
        apply hnot target
        cases hmark : target.mark with
        | nil => exact List.nil_prefix
        | cons d w =>
            rw [hmark] at hstarts
            rcases List.cons_prefix_cons.mp hstarts with ⟨rfl, hw⟩
            have hshown := prefix_of_fill hvalues (u := [d]) hmark (by simp) hw
            rw [hrest.fill_mark] at hshown
            exact List.cons_prefix_cons.mpr ⟨rfl, hshown⟩
      show replaced target.mark value (c :: fill values ps) = _
      rw [replaced_cons hnone, ih]
      rfl

end Pass

theorem replaced_mark (s : Slot) (value : List Char) (t : Slot) :
    replaced s.mark value t.mark = if t = s then value else t.mark := by
  split
  · rename_i hts
    have happend : replaced s.mark value (s.mark ++ []) = value ++ replaced s.mark value [] :=
      replaced_mark_append s.mark_ne_nil []
    rw [List.append_nil] at happend
    rw [hts, happend]
    exact List.append_nil value
  · rename_i hts
    apply replaced_of_not_isInfix
    revert hts
    cases s <;> cases t <;> decide

/-!
## Filling a template
-/

/-- Paths that make no mark of a later place with what stands beside them. -/
structure Detached (binary output : String) : Prop where
  binary_apart : Apart outputMark.toList binary.toList
  output_apart : Apart caseMark.toList output.toList
  settled_apart : Apart caseMark.toList (replaceAll outputMark output binary).toList

section Passes

variable (binary output caseId : String)

theorem replaced_binary :
    (fun s : Slot => replaced Slot.binary.mark binary.toList s.mark) =
      Slot.filledBinary binary := by
  funext s
  rw [replaced_mark]
  cases s <;> rfl

theorem replaced_output :
    (fun s : Slot => replaced Slot.output.mark output.toList (Slot.filledBinary binary s)) =
      Slot.filledOutput binary output := by
  funext s
  cases s with
  | binary => exact (toList_replaceAll outputMark output binary).symm
  | output => exact replaced_mark .output _ .output
  | caseId => exact replaced_mark .output _ .caseId

theorem replaced_caseId :
    (fun s : Slot => replaced Slot.caseId.mark caseId.toList
      (Slot.filledOutput binary output s)) = Slot.settled binary output caseId := by
  funext s
  cases s with
  | binary => exact (toList_replaceAll caseMark caseId _).symm
  | output => exact (toList_replaceAll caseMark caseId output).symm
  | caseId => exact replaced_mark .caseId _ .caseId

end Passes

section Detached

variable {binary output : String}

theorem Detached.filledBinary (h : Detached binary output) (s : Slot) :
    Apart Slot.output.mark (s.filledBinary binary) := by
  cases s with
  | binary => exact h.binary_apart
  | output => exact Slot.apart_mark .output .output
  | caseId => exact Slot.apart_mark .output .caseId

theorem Detached.filledOutput (h : Detached binary output) (s : Slot) :
    Apart Slot.caseId.mark (s.filledOutput binary output) := by
  cases s with
  | binary => exact h.settled_apart
  | output => exact h.output_apart
  | caseId => exact Slot.apart_mark .caseId .caseId

/-- A template is filled with the values as the later passes leave them. -/
theorem expandTemplate_settled (h : Detached binary output) (caseId : String)
    {template : String} {ps : List Piece} (hps : Splits template.toList ps) :
    (expandTemplate template binary output caseId).toList =
      fill (Slot.settled binary output caseId) ps := by
  have hpasses : (expandTemplate template binary output caseId).toList =
      replaced Slot.caseId.mark caseId.toList (replaced Slot.output.mark output.toList
        (replaced Slot.binary.mark binary.toList template.toList)) := by
    unfold expandTemplate
    rw [toList_replaceAll, toList_replaceAll, toList_replaceAll]
    rfl
  rw [hpasses, ← hps.fill_mark, replaced_fill (Slot.apart_mark .binary) hps, replaced_binary,
    replaced_fill h.filledBinary hps, replaced_output, replaced_fill h.filledOutput hps,
    replaced_caseId]

end Detached

theorem splits_mark (s : Slot) : Splits s.mark [.slot s] := by
  have h := Splits.slot s .nil
  rw [List.append_nil] at h
  exact h

theorem fill_slot (values : Slot → List Char) (s : Slot) : fill values [.slot s] = values s :=
  List.append_nil (values s)

theorem replaceAll_of_hasMark {mark value text : String}
    (h : hasMark mark.toList text.toList = false) : replaceAll mark value text = text := by
  apply String.toList_injective
  rw [toList_replaceAll]
  apply replaced_of_not_isInfix
  rw [← hasMark_eq_true_iff, h]
  exact Bool.false_ne_true

/-!
## Ordinary paths
-/

structure Ordinary (path : String) : Prop where
  opening : '\x7b' ∉ path.toList
  closing : '\x7d' ∉ path.toList
  slash : '/' ∈ path.toList

theorem Ordinary.apart {path : String} (h : Ordinary path) (s : Slot) :
    Apart s.mark path.toList := by
  have hmark : '/' ∉ s.mark ∧ ∀ i < s.mark.length, 0 < i →
      '\x7d' ∈ s.mark.drop i ∧ '\x7b' ∈ s.mark.take i := by
    cases s <;> decide
  intro i hlt hpos
  rcases hmark.2 i hlt hpos with ⟨hclosing, hopening⟩
  refine ⟨?_, ?_, ?_⟩
  · intro hstarts
    exact h.closing (hstarts.subset hclosing)
  · intro hstarts
    exact hmark.1 (List.mem_of_mem_drop (hstarts.subset h.slash))
  · intro hsuffix
    exact h.opening (hsuffix.subset hopening)

theorem Ordinary.hasMark_eq_false {path : String} (h : Ordinary path) (s : Slot) :
    hasMark s.mark path.toList = false := by
  have hopening : '\x7b' ∈ s.mark := by
    cases s <;> decide
  rw [← Bool.not_eq_true, hasMark_eq_true_iff]
  exact fun hinside => h.opening (hinside.subset hopening)

theorem Ordinary.detached {binary output : String} (hb : Ordinary binary) (ho : Ordinary output) :
    Detached binary output := by
  refine ⟨hb.apart .output, ho.apart .caseId, ?_⟩
  rw [replaceAll_of_hasMark (hb.hasMark_eq_false .output)]
  exact hb.apart .caseId

/-!
## All templates
-/

/-- A template is cut into pieces in one way, and its places are filled with the values as the
later passes leave them. These are the values themselves just in case all templates are filled
with them, as they are when neither path has the mark of a later place. -/
theorem expandTemplate_fills {binary output : String} (h : Detached binary output)
    (caseId : String) :
    (∀ template : String, ∃ ps, Splits template.toList ps ∧
        (∀ qs, Splits template.toList qs → qs = ps) ∧
        (expandTemplate template binary output caseId).toList =
          fill (Slot.settled binary output caseId) ps) ∧
      ((∀ (template : String) (ps : List Piece), Splits template.toList ps →
          (expandTemplate template binary output caseId).toList =
            fill (Slot.value binary output caseId) ps) ↔
        ∀ s, Slot.settled binary output caseId s = Slot.value binary output caseId s) ∧
      (hasMark outputMark.toList binary.toList = false →
        hasMark caseMark.toList binary.toList = false →
        hasMark caseMark.toList output.toList = false →
        ∀ s, Slot.settled binary output caseId s = Slot.value binary output caseId s) := by
  refine ⟨?_, ?_, ?_⟩
  · intro template
    rcases exists_splits template.toList with ⟨ps, hps⟩
    exact ⟨ps, hps, fun _ hqs => hqs.unique hps, expandTemplate_settled h caseId hps⟩
  · constructor
    · intro hall s
      have hmark : Splits (String.ofList s.mark).toList [.slot s] := by
        rw [String.toList_ofList]
        exact splits_mark s
      have hvalue := hall (String.ofList s.mark) [.slot s] hmark
      rw [expandTemplate_settled h caseId hmark, fill_slot, fill_slot] at hvalue
      exact hvalue
    · intro hsettled template ps hps
      rw [expandTemplate_settled h caseId hps, funext hsettled]
  · intro hbinary hcase hout s
    cases s with
    | binary =>
        rw [Slot.settled, replaceAll_of_hasMark hbinary, replaceAll_of_hasMark hcase, Slot.value]
    | output => rw [Slot.settled, replaceAll_of_hasMark hout, Slot.value]
    | caseId => rfl

/-- A template is filled with ordinary paths, and the name of a case stands as it is even where
it looks like a place. -/
theorem expandTemplate_fills_ordinary :
    Splits "\x7bcase\x7d:\x7bbinary\x7d".toList [.slot .caseId, .char ':', .slot .binary] ∧
      expandTemplate "\x7bcase\x7d:\x7bbinary\x7d" "/work/add-1f/main.elf"
          "/work/add-1f/translated.bvp" "\x7boutput\x7d" =
        "\x7boutput\x7d:/work/add-1f/main.elf" := by
  have hsplits : Splits "\x7bcase\x7d:\x7bbinary\x7d".toList
      [.slot .caseId, .char ':', .slot .binary] := by
    refine .slot .caseId (.char ?_ (splits_mark .binary))
    intro s
    cases s <;> decide
  have hbinary : Ordinary "/work/add-1f/main.elf" := ⟨by decide, by decide, by decide⟩
  have houtput : Ordinary "/work/add-1f/translated.bvp" := ⟨by decide, by decide, by decide⟩
  rcases expandTemplate_fills (hbinary.detached houtput) "\x7boutput\x7d" with
    ⟨_, hiff, hplain⟩
  have hall := hiff.mpr (hplain (hbinary.hasMark_eq_false .output)
    (hbinary.hasMark_eq_false .caseId) (houtput.hasMark_eq_false .caseId))
  refine ⟨hsplits, String.toList_injective ?_⟩
  rw [hall _ _ hsplits]
  decide

/-- The name of the case stands where the name of a source file has its mark. -/
theorem expandTemplate_rescans :
    Splits binaryMark.toList [.slot .binary] ∧
      expandTemplate binaryMark "/work/\x7bcase\x7d.elf" "/work/translated.bvp" "alu/add" =
        "/work/alu/add.elf" ∧
      fill (Slot.value "/work/\x7bcase\x7d.elf" "/work/translated.bvp" "alu/add")
        [.slot .binary] ≠ "/work/alu/add.elf".toList := by
  refine ⟨splits_mark .binary, by decide +kernel, ?_⟩
  rw [fill_slot]
  decide +kernel

end Template
end Bench
end BitEquiv

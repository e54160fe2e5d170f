import Mathlib.Data.List.DropRight
import Mathlib.Data.List.TakeWhile
import BitEquiv.Text.Blank

/-!
# Words and lines of written text

A text that was put together from pieces with separators between them is cut into the same
pieces, as long as no piece holds a separator.
-/

namespace BitEquiv
namespace Text

theorem toNat_of_isAlphanum {c : Char} (h : c.isAlphanum = true) :
    48 ≤ c.toNat ∧ c.toNat ≤ 122 := by
  have hbounds : ∀ {low high : Char}, c.val ≥ low.val → c.val ≤ high.val →
      low.toNat ≤ c.toNat ∧ c.toNat ≤ high.toNat := by
    intro low high hlow hhigh
    exact ⟨UInt32.le_iff_toNat_le.mp hlow, UInt32.le_iff_toNat_le.mp hhigh⟩
  rcases Bool.or_eq_true_iff.mp h with halpha | hdigit
  · rcases Bool.or_eq_true_iff.mp halpha with hupper | hlower
    · rcases of_decide_eq_true hupper with ⟨hlow, hhigh⟩
      have hc : 65 ≤ c.toNat ∧ c.toNat ≤ 90 := hbounds hlow hhigh
      omega
    · rcases Bool.and_eq_true_iff.mp hlower with ⟨hlow, hhigh⟩
      have hc : 97 ≤ c.toNat ∧ c.toNat ≤ 122 :=
        hbounds (of_decide_eq_true hlow) (of_decide_eq_true hhigh)
      omega
  · rcases Bool.and_eq_true_iff.mp hdigit with ⟨hlow, hhigh⟩
    have hc : 48 ≤ c.toNat ∧ c.toNat ≤ 57 :=
      hbounds (of_decide_eq_true hlow) (of_decide_eq_true hhigh)
    omega

theorem isBlank_of_isAlphanum {c : Char} (h : c.isAlphanum = true) : isBlank c = false := by
  rcases toNat_of_isAlphanum h with ⟨hmin, hmax⟩
  unfold isBlank
  simp only [Bool.or_eq_false_iff, Bool.and_eq_false_iff, decide_eq_false_iff_not,
    beq_eq_false_iff_ne]
  omega

section Pieces

variable {p : Char → Bool}

theorem splitBy_of_none {w : List Char} (h : ∀ c ∈ w, p c = false) : splitBy p w = [w] := by
  induction w with
  | nil => rfl
  | cons c w ih =>
      rcases List.forall_mem_cons.mp h with ⟨hc, hw⟩
      unfold splitBy
      rw [hc, if_neg Bool.false_ne_true, ih hw]

/-- A text is cut at each mark, whatever stands before it. -/
theorem splitBy_append_mark {c : Char} (hc : p c = true) (s rest : List Char) :
    splitBy p (s ++ c :: rest) = splitBy p s ++ splitBy p rest := by
  induction s with
  | nil =>
      show splitBy p (c :: rest) = [] :: splitBy p rest
      rw [splitBy, if_pos hc]
  | cons d s ih =>
      rw [List.cons_append, splitBy, splitBy, ih]
      split
      · rfl
      · cases hs : splitBy p s with
        | nil => exact absurd hs (splitBy_ne_nil p s)
        | cons piece pieces => rfl

theorem splitBy_append {w : List Char} (h : ∀ c ∈ w, p c = false) {c : Char} (hc : p c = true)
    (rest : List Char) : splitBy p (w ++ c :: rest) = w :: splitBy p rest := by
  rw [splitBy_append_mark hc, splitBy_of_none h]
  rfl

theorem trimBy_append_singleton {c : Char} (hc : p c = true) (w : List Char) :
    trimBy p (w ++ [c]) = trimBy p w := by
  unfold trimBy
  rw [List.dropWhile_append]
  split
  · rename_i hall
    rw [List.isEmpty_iff.mp hall, List.dropWhile_cons_of_pos hc]
    rfl
  · rw [List.reverse_append, List.reverse_singleton, List.singleton_append,
      List.dropWhile_cons_of_pos hc]

theorem trimBy_eq_nil_iff {s : List Char} : trimBy p s = [] ↔ ∀ c ∈ s, p c = true := by
  unfold trimBy
  rw [List.reverse_eq_nil_iff, List.dropWhile_eq_nil_iff]
  constructor
  · intro h
    have hhead := List.head?_dropWhile_not p s
    cases hrest : s.dropWhile p with
    | nil => exact List.dropWhile_eq_nil_iff.mp hrest
    | cons c rest =>
        rw [hrest] at hhead h
        have hc := h c (List.mem_reverse.mpr List.mem_cons_self)
        rw [show p c = false from hhead] at hc
        cases hc
  · intro h
    rw [List.dropWhile_eq_nil_iff.mpr h]
    simp

/-- A text is left as it is when neither of its ends is of the kind. -/
theorem trimBy_of_ends {s : List Char} (hfirst : ∀ c ∈ s.head?, p c = false)
    (hlast : ∀ c ∈ s.getLast?, p c = false) : trimBy p s = s := by
  have hdrop : ∀ {t : List Char}, (∀ c ∈ t.head?, p c = false) → t.dropWhile p = t := by
    intro t ht
    cases t with
    | nil => rfl
    | cons c t => rw [List.dropWhile_cons, ht c rfl, if_neg Bool.false_ne_true]
  unfold trimBy
  rw [hdrop hfirst, hdrop (by rwa [List.head?_reverse]), List.reverse_reverse]

theorem trimBy_of_none {s : List Char} (h : ∀ c ∈ s, p c = false) : trimBy p s = s :=
  trimBy_of_ends (fun c hc => h c (List.mem_of_head? hc)) fun c hc => h c (List.mem_of_getLast? hc)

theorem head?_dropWhile {s : List Char} {c : Char} (h : c ∈ (s.dropWhile p).head?) :
    p c = false := by
  have hnot := List.head?_dropWhile_not p s
  rw [show (s.dropWhile p).head? = some c from h] at hnot
  exact hnot

theorem getLast?_trimBy {s : List Char} {c : Char} (h : c ∈ (trimBy p s).getLast?) :
    p c = false := by
  unfold trimBy at h
  rw [List.getLast?_reverse] at h
  exact head?_dropWhile h

theorem head?_trimBy {s : List Char} {c : Char} (h : c ∈ (trimBy p s).head?) : p c = false := by
  have hfront : trimBy p s <+: s.dropWhile p := List.rdropWhile_prefix p (s.dropWhile p)
  obtain ⟨back, hback⟩ := hfront
  apply head?_dropWhile (s := s)
  rw [← hback, List.head?_append, show (trimBy p s).head? = some c from h]
  rfl

theorem mem_of_mem_trimBy {s : List Char} {c : Char} (h : c ∈ trimBy p s) : c ∈ s := by
  have hback := (List.dropWhile_sublist p).subset (List.mem_reverse.mp h)
  exact (List.dropWhile_sublist p).subset (List.mem_reverse.mp hback)

theorem cutAt_append {before : List Char} (h : ∀ c ∈ before, p c = false) {c : Char}
    (hc : p c = true) (after : List Char) :
    cutAt p (before ++ c :: after) = some (before, after) := by
  induction before with
  | nil => rw [List.nil_append, cutAt, if_pos hc]
  | cons d before ih =>
      rcases List.forall_mem_cons.mp h with ⟨hd, hbefore⟩
      rw [List.cons_append, cutAt, hd, if_neg Bool.false_ne_true, ih hbefore]
      rfl

/-- A text is cut at the first character of the kind. -/
theorem cutAt_eq_some_iff {s before after : List Char} :
    cutAt p s = some (before, after) ↔
      (∀ c ∈ before, p c = false) ∧ ∃ c, p c = true ∧ s = before ++ c :: after := by
  constructor
  · intro h
    induction s generalizing before with
    | nil => cases h
    | cons c s ih =>
        rw [cutAt] at h
        split at h
        · rename_i hc
          cases h
          exact ⟨by simp, c, hc, rfl⟩
        · rename_i hc
          rcases Option.map_eq_some_iff.mp h with ⟨⟨front, back⟩, hcut, heq⟩
          cases heq
          rcases ih hcut with ⟨hfront, mark, hmark, rfl⟩
          exact ⟨List.forall_mem_cons.mpr ⟨Bool.eq_false_iff.mpr hc, hfront⟩, mark, hmark, rfl⟩
  · rintro ⟨hbefore, c, hc, rfl⟩
    exact cutAt_append hbefore hc after

theorem cutAt_beq_eq_some_iff {mark : Char} {s before after : List Char} :
    cutAt (· == mark) s = some (before, after) ↔ s = before ++ mark :: after ∧ mark ∉ before := by
  rw [cutAt_eq_some_iff]
  simp only [beq_eq_false_iff_ne, beq_iff_eq, exists_eq_left]
  constructor
  · rintro ⟨hbefore, rfl⟩
    exact ⟨rfl, fun hmem => hbefore mark hmem rfl⟩
  · rintro ⟨rfl, hmark⟩
    refine ⟨?_, rfl⟩
    rintro c hc rfl
    exact hmark hc

end Pieces

theorem trim_newline (line : List Char) : trim (line ++ ['\n']) = trim line :=
  trimBy_append_singleton (by decide) line

theorem words_spaced {w : List Char} {ws : List (List Char)}
    (h : ∀ piece ∈ w :: ws, ∀ c ∈ piece, isBlank c = false) :
    words (w ++ ws.flatMap (' ' :: ·)) = (w :: ws).filter fun piece => !piece.isEmpty := by
  have hsplit : splitBy isBlank (w ++ ws.flatMap (' ' :: ·)) = w :: ws := by
    induction ws generalizing w with
    | nil =>
        rw [List.flatMap_nil, List.append_nil]
        exact splitBy_of_none (h w List.mem_cons_self)
    | cons w' ws ih =>
        rcases List.forall_mem_cons.mp h with ⟨hw, hws⟩
        have hblank : isBlank ' ' = true := by decide
        rw [List.flatMap_cons, List.cons_append, splitBy_append hw hblank, ih hws]
  unfold words
  rw [hsplit]

theorem dropReturn_of_not_mem {line : List Char} (h : '\r' ∉ line) : dropReturn line = line := by
  unfold dropReturn
  split
  · rename_i r hr
    have hmem : '\r' ∈ line.reverse := by
      rw [hr]
      exact List.mem_cons_self
    exact absurd (List.mem_reverse.mp hmem) h
  · rfl

theorem newline_free {line : List Char} (h : '\n' ∉ line) : ∀ c ∈ line, (c == '\n') = false := by
  intro c hc
  rw [beq_eq_false_iff_ne]
  rintro rfl
  exact h hc

theorem lines_newline {line : List Char} (h : '\n' ∉ line) (rest : List Char) :
    lines (line ++ '\n' :: rest) = dropReturn line :: lines rest := by
  unfold lines
  rw [splitBy_append (newline_free h) (beq_self_eq_true '\n')]
  cases hrest : splitBy (· == '\n') rest with
  | nil => exact absurd hrest (splitBy_ne_nil _ rest)
  | cons piece pieces => rfl

theorem lines_append {line : List Char} (hnewline : '\n' ∉ line) (hreturn : '\r' ∉ line)
    (rest : List Char) : lines (line ++ '\n' :: rest) = line :: lines rest := by
  rw [lines_newline hnewline, dropReturn_of_not_mem hreturn]

theorem intercalate_splitBy (s : List Char) :
    List.intercalate ['\n'] (splitBy (· == '\n') s) = s := by
  induction s with
  | nil => rfl
  | cons c rest ih =>
      have hne := splitBy_ne_nil (· == '\n') rest
      unfold splitBy
      split
      · rename_i hc
        rw [List.intercalate_cons_of_ne_nil hne, ih, eq_of_beq hc]
        rfl
      · cases hsplit : splitBy (· == '\n') rest with
        | nil => exact absurd hsplit hne
        | cons piece pieces =>
            rw [hsplit] at ih
            cases pieces with
            | nil => simpa using ih
            | cons next more => simpa using ih

/-- A line with its newline is the first piece between newlines; a text without a newline is
one line and one piece. -/
theorem takeLine_splitBy (s : List Char) :
    (∃ piece after, takeLine s = (piece ++ ['\n'], after) ∧
        splitBy (· == '\n') s = piece :: splitBy (· == '\n') after) ∨
      (takeLine s = (s, []) ∧ splitBy (· == '\n') s = [s]) := by
  induction s with
  | nil => exact Or.inr ⟨rfl, rfl⟩
  | cons c rest ih =>
      rw [takeLine, splitBy]
      by_cases hc : (c == '\n') = true
      · rw [if_pos hc, if_pos hc, eq_of_beq hc]
        exact Or.inl ⟨[], rest, rfl, rfl⟩
      · rw [if_neg hc, if_neg hc]
        rcases ih with ⟨piece, after, hline, hpieces⟩ | ⟨hline, hpieces⟩
        · rw [hline, hpieces]
          exact Or.inl ⟨c :: piece, after, rfl, rfl⟩
        · rw [hline, hpieces]
          exact Or.inr ⟨rfl, rfl⟩

end Text
end BitEquiv

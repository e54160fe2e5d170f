import Mathlib.Data.List.DropRight
import BitEquiv.Proofs.Text.Blank

/-!
# Layouts of lines

A line holds words with blanks between and around them. A text holds lines, with silent
ones, blank or a comment, in front of any of them. Reading finds the same words and the same
lines in every layout.
-/

namespace BitEquiv
namespace Text

/-!
## Words on a line
-/

def AllBlank (s : List Char) : Prop := ∀ c ∈ s, isBlank c = true

/-- One or more characters, none of them blank. -/
structure IsWord (w : List Char) : Prop where
  nonempty : w ≠ []
  solid : ∀ c ∈ w, isBlank c = false

def EndsWord (rest : List Char) : Prop := ∀ c ∈ rest.head?, isBlank c = true

instance (s : List Char) : Decidable (AllBlank s) :=
  List.decidableBAll (fun c => isBlank c = true) s

instance (w : List Char) : Decidable (IsWord w) :=
  have := List.decidableBAll (fun c => isBlank c = false) w
  decidable_of_iff (w ≠ [] ∧ ∀ c ∈ w, isBlank c = false)
    ⟨fun h => ⟨h.1, h.2⟩, fun h => ⟨h.nonempty, h.solid⟩⟩

/-- Words with blanks between any two of them and around them all. -/
inductive Spaced : List (List Char) → List Char → Prop
  | nil {s : List Char} : AllBlank s → Spaced [] s
  | cons {lead w rest : List Char} {ws : List (List Char)} : AllBlank lead → IsWord w →
      EndsWord rest → Spaced ws rest → Spaced (w :: ws) (lead ++ (w ++ rest))

section Words

variable {w rest : List Char}

theorem words_append_blank {lead : List Char} (h : AllBlank lead) (s : List Char) :
    words (lead ++ s) = words s := by
  induction lead with
  | nil => rfl
  | cons c lead ih =>
      rcases List.forall_mem_cons.mp h with ⟨hc, hlead⟩
      rw [← ih hlead, List.cons_append, words, splitBy, if_pos hc]
      rfl

theorem words_append_word (hw : IsWord w) (hrest : EndsWord rest) :
    words (w ++ rest) = w :: words rest := by
  have hkeep : (!w.isEmpty) = true := by simpa using hw.nonempty
  cases rest with
  | nil =>
      rw [List.append_nil, words, splitBy_of_none hw.solid]
      exact List.filter_cons_of_pos hkeep
  | cons c rest =>
      have hc : isBlank c = true := hrest c rfl
      rw [words, splitBy_append hw.solid hc, words, splitBy, if_pos hc]
      exact List.filter_cons_of_pos hkeep

theorem Spaced.words {ws : List (List Char)} {s : List Char} (h : Spaced ws s) :
    words s = ws := by
  induction h with
  | nil hblank =>
      have hwords := words_append_blank hblank []
      rw [List.append_nil] at hwords
      exact hwords
  | cons hlead hw hrest _ ih => rw [words_append_blank hlead, words_append_word hw hrest, ih]

theorem Spaced.blank {ws : List (List Char)} {s : List Char} {c : Char} (hc : isBlank c = true)
    (h : Spaced ws s) : Spaced ws (c :: s) := by
  cases h with
  | nil hblank => exact .nil (List.forall_mem_cons.mpr ⟨hc, hblank⟩)
  | @cons lead _ _ _ hlead hw hrest hws =>
      have hlonger : AllBlank (c :: lead) := List.forall_mem_cons.mpr ⟨hc, hlead⟩
      exact .cons hlonger hw hrest hws

/-- A character that is not blank begins a word, or is one where a blank stands behind it. -/
theorem Spaced.solid {ws : List (List Char)} {s : List Char} {c : Char} (hc : isBlank c = false)
    (h : Spaced ws s) : ∃ ws', Spaced ws' (c :: s) := by
  have hnone : AllBlank [] := List.forall_mem_nil _
  have hword : IsWord [c] := ⟨List.cons_ne_nil _ _, List.forall_mem_singleton.mpr hc⟩
  cases h with
  | nil hblank =>
      have hend : EndsWord s := fun d hd => hblank d (List.mem_of_mem_head? hd)
      exact ⟨_, .cons hnone hword hend (.nil hblank)⟩
  | @cons lead w rest ws hlead hw hrest hws =>
      cases lead with
      | nil =>
          have hlonger : IsWord (c :: w) :=
            ⟨List.cons_ne_nil _ _, List.forall_mem_cons.mpr ⟨hc, hw.solid⟩⟩
          exact ⟨_, .cons hnone hlonger hrest hws⟩
      | cons b lead =>
          have hend : EndsWord (b :: lead ++ (w ++ rest)) := by
            rintro d ⟨⟩
            exact hlead b List.mem_cons_self
          exact ⟨_, .cons hnone hword hend (.cons hlead hw hrest hws)⟩

theorem exists_spaced (s : List Char) : ∃ ws, Spaced ws s := by
  induction s with
  | nil => exact ⟨[], .nil (List.forall_mem_nil _)⟩
  | cons c s ih =>
      rcases ih with ⟨ws, h⟩
      cases hc : isBlank c with
      | true => exact ⟨ws, h.blank hc⟩
      | false => exact h.solid hc

theorem spaced_iff {ws : List (List Char)} {s : List Char} : Spaced ws s ↔ Text.words s = ws := by
  constructor
  · exact Spaced.words
  · rintro rfl
    rcases exists_spaced s with ⟨ws, h⟩
    rw [h.words]
    exact h

instance (ws : List (List Char)) (s : List Char) : Decidable (Spaced ws s) :=
  decidable_of_iff (Text.words s = ws) spaced_iff.symm

end Words

/-!
## Lines without the blanks around them
-/

section Trim

variable {lead w rest : List Char}

theorem head_isWord {c : Char} {cs : List Char} (h : IsWord (c :: cs)) : isBlank c = false :=
  h.solid c List.mem_cons_self

theorem dropWhile_append_word (hlead : AllBlank lead) (hw : IsWord w) (rest : List Char) :
    (lead ++ (w ++ rest)).dropWhile isBlank = w ++ rest := by
  rw [List.dropWhile_append_of_pos hlead]
  cases w with
  | nil => exact absurd rfl hw.nonempty
  | cons c cs =>
      rw [List.cons_append, List.dropWhile_cons_of_neg]
      rw [head_isWord hw]
      exact Bool.false_ne_true

theorem rdropWhile_append_word (hw : IsWord w) (lead rest : List Char) :
    (lead ++ (w ++ rest)).rdropWhile isBlank = lead ++ (w ++ rest.rdropWhile isBlank) := by
  have hword : (lead ++ w).rdropWhile isBlank = lead ++ w := by
    rw [List.rdropWhile_eq_self_iff]
    intro hne
    rw [List.getLast_append_right hw.nonempty, hw.solid _ (List.getLast_mem _)]
    exact Bool.false_ne_true
  rw [← List.append_assoc, ← List.append_assoc]
  induction rest using List.reverseRecOn with
  | nil =>
      rw [List.append_nil, hword, List.rdropWhile_nil, List.append_nil]
  | append_singleton rest c ih =>
      rw [← List.append_assoc]
      by_cases hc : isBlank c = true
      · rw [List.rdropWhile_concat_pos _ _ _ hc, List.rdropWhile_concat_pos _ _ _ hc, ih]
      · rw [List.rdropWhile_concat_neg _ _ _ hc, List.rdropWhile_concat_neg _ _ _ hc,
          List.append_assoc]

theorem endsWord_rdropWhile (h : EndsWord rest) : EndsWord (rest.rdropWhile isBlank) := by
  rcases List.rdropWhile_prefix isBlank rest with ⟨blanks, hblanks⟩
  intro c hc
  refine h c ?_
  rw [← hblanks]
  exact List.mem_head?_append_of_mem_head? hc

theorem Spaced.rdropWhile {ws : List (List Char)} {s : List Char} (h : Spaced ws s) :
    Spaced ws (s.rdropWhile isBlank) := by
  induction h with
  | nil hblank =>
      rw [List.rdropWhile_eq_nil_iff.mpr hblank]
      exact .nil (List.forall_mem_nil _)
  | cons hlead hw hrest _ ih =>
      rw [rdropWhile_append_word hw]
      exact .cons hlead hw (endsWord_rdropWhile hrest) ih

theorem trim_append_word (hlead : AllBlank lead) (hw : IsWord w) (rest : List Char) :
    trim (lead ++ (w ++ rest)) = w ++ rest.rdropWhile isBlank := by
  have hend := rdropWhile_append_word hw [] rest
  unfold trim trimBy
  rw [dropWhile_append_word hlead hw]
  exact hend

/-- A line without the blanks around it: it begins with its first word, and is that word when
there is no other. -/
structure Trimmed (w : List Char) (ws : List (List Char)) (line : List Char) : Prop where
  words : words line = w :: ws
  begins : ∃ rest, line = w ++ rest
  single : ws = [] → line = w

theorem Spaced.trim {ws : List (List Char)} {s : List Char} (h : Spaced (w :: ws) s) :
    Trimmed w ws (trim s) := by
  cases h with
  | @cons lead _ rest _ hlead hw hrest hws =>
      rw [trim_append_word hlead hw]
      constructor
      case words => rw [words_append_word hw (endsWord_rdropWhile hrest), hws.rdropWhile.words]
      case begins => exact ⟨_, rfl⟩
      case single =>
        rintro rfl
        cases hws with
        | nil hblank => rw [List.rdropWhile_eq_nil_iff.mpr hblank, List.append_nil]

end Trim

/-!
## Lines of a text
-/

/-- A line of blanks, or a comment with blanks in front of it. -/
inductive Silent : List Char → Prop
  | blank {s : List Char} : AllBlank s → Silent s
  | comment (lead body : List Char) : AllBlank lead → Silent (lead ++ ';' :: body)

/-- A text of lines with the given words, silent lines in front of any of them, and `rest`
behind the last of them. The last line of the whole text may be without its newline. -/
inductive Lined : List (List (List Char)) → List Char → List Char → Prop
  | nil (rest : List Char) : Lined [] rest rest
  | silent (line : List Char) {s rest : List Char} {ws : List (List Char)}
      {ls : List (List (List Char))} : Silent line → '\n' ∉ line → Lined (ws :: ls) s rest →
        Lined (ws :: ls) (line ++ '\n' :: s) rest
  | line (line : List Char) {s rest : List Char} {ws : List (List Char)}
      {ls : List (List (List Char))} : Spaced ws line → '\n' ∉ line → Lined ls s rest →
        Lined (ws :: ls) (line ++ '\n' :: s) rest
  | last (line : List Char) {ws : List (List Char)} : Spaced ws line → '\n' ∉ line →
      Lined [ws] line []

theorem spaced_flatMap {ws : List (List Char)} (h : ∀ w ∈ ws, IsWord w) :
    Spaced ws (ws.flatMap (· ++ [' '])) := by
  have hblank : isBlank ' ' = true := by decide
  induction ws with
  | nil => exact .nil (List.forall_mem_nil _)
  | cons w ws ih =>
      rcases List.forall_mem_cons.mp h with ⟨hw, hws⟩
      have hend : EndsWord (' ' :: ws.flatMap (· ++ [' '])) := by
        rintro c ⟨⟩
        exact hblank
      rw [List.flatMap_cons, List.append_assoc]
      exact .cons (List.forall_mem_nil _) hw hend ((ih hws).blank hblank)

theorem exists_lined {ls : List (List (List Char))} (h : ∀ ws ∈ ls, ∀ w ∈ ws, IsWord w)
    (rest : List Char) : ∃ s, Lined ls s rest := by
  induction ls with
  | nil => exact ⟨rest, .nil rest⟩
  | cons ws ls ih =>
      rcases List.forall_mem_cons.mp h with ⟨hws, hls⟩
      rcases ih hls with ⟨s, hs⟩
      refine ⟨_, .line _ (spaced_flatMap hws) ?_ hs⟩
      intro hmem
      rcases List.mem_flatMap.mp hmem with ⟨w, hw, hmem⟩
      rcases List.mem_append.mp hmem with hmem | hmem
      · exact absurd ((hws w hw).solid _ hmem) (by decide)
      · exact absurd (List.mem_singleton.mp hmem) (by decide)

theorem Spaced.exists_solid {ws : List (List Char)} {line : List Char} (h : Spaced ws line)
    (hws : ws ≠ []) : ∃ c ∈ line, isBlank c = false := by
  cases h with
  | nil => exact absurd rfl hws
  | cons _ hw _ _ =>
      rcases List.exists_mem_of_ne_nil _ hw.nonempty with ⟨c, hc⟩
      exact ⟨c, List.mem_append_right _ (List.mem_append_left _ hc), hw.solid c hc⟩

theorem Lined.exists_solid {ls : List (List (List Char))} {s rest : List Char}
    (h : Lined ls s rest) (hls : ∃ ws ∈ ls, ws ≠ []) : ∃ c ∈ s, isBlank c = false := by
  induction h with
  | nil =>
      rcases hls with ⟨ws, hmem, _⟩
      cases hmem
  | silent _ _ _ _ ih =>
      rcases ih hls with ⟨c, hc, hsolid⟩
      exact ⟨c, List.mem_append_right _ (List.mem_cons_of_mem _ hc), hsolid⟩
  | line _ hspaced _ _ ih =>
      rcases hls with ⟨ws, hmem, hws⟩
      rcases List.mem_cons.mp hmem with rfl | hmem
      · rcases hspaced.exists_solid hws with ⟨c, hc, hsolid⟩
        exact ⟨c, List.mem_append_left _ hc, hsolid⟩
      · rcases ih ⟨ws, hmem, hws⟩ with ⟨c, hc, hsolid⟩
        exact ⟨c, List.mem_append_right _ (List.mem_cons_of_mem _ hc), hsolid⟩
  | last _ hspaced _ =>
      rcases hls with ⟨ws, hmem, hws⟩
      rw [List.mem_singleton.mp hmem] at hws
      exact hspaced.exists_solid hws

/-- A line of words that a reader does not pass over: there is one, and the first does not begin
a comment. -/
structure Telling (ws : List (List Char)) : Prop where
  begins : ∃ c w more, ws = (c :: w) :: more ∧ c ≠ ';'
  isWord : ∀ w ∈ ws, IsWord w

theorem trim_of_silent {line : List Char} (h : Silent line) :
    trim line = [] ∨ ∃ body, trim line = ';' :: body := by
  cases h with
  | blank hblank => exact Or.inl (trimBy_eq_nil_iff.mpr hblank)
  | comment lead body hlead =>
      have hmark : IsWord [';'] :=
        ⟨List.cons_ne_nil _ _, List.forall_mem_singleton.mpr rfl⟩
      exact Or.inr ⟨_, trim_append_word hlead hmark body⟩

theorem trim_of_telling {ws : List (List Char)} {line : List Char} (h : Spaced ws line)
    (hws : Telling ws) : ∃ c rest, trim line = c :: rest ∧ c ≠ ';' := by
  rcases hws.begins with ⟨c, w, more, rfl, hc⟩
  rcases h.trim.begins with ⟨rest, hrest⟩
  exact ⟨c, w ++ rest, hrest, hc⟩

/-!
## Cutting a text at its newlines
-/

section Newlines

variable {line : List Char} (h : '\n' ∉ line)

include h

theorem takeLine_of_not_mem : takeLine line = (line, []) := by
  induction line with
  | nil => rfl
  | cons c line ih =>
      rw [List.mem_cons, not_or] at h
      rw [takeLine, if_neg (by simpa using Ne.symm h.1), ih h.2]

theorem takeLine_newline (s : List Char) : takeLine (line ++ '\n' :: s) = (line ++ ['\n'], s) := by
  induction line with
  | nil => rfl
  | cons c line ih =>
      rw [List.mem_cons, not_or] at h
      rw [List.cons_append, takeLine, if_neg (by simpa using Ne.symm h.1), ih h.2]
      rfl

theorem lines_last (hne : line ≠ []) : lines line = [line] := by
  unfold lines
  rw [splitBy_of_none (newline_free h), linesOf, if_neg (by simpa using hne)]

end Newlines

theorem trim_dropReturn (line : List Char) : trim (dropReturn line) = trim line := by
  have hreturn : isBlank '\r' = true := by decide
  unfold dropReturn
  split
  · rename_i r hr
    rw [← List.reverse_reverse line, hr, List.reverse_cons]
    exact (trimBy_append_singleton hreturn r.reverse).symm
  · rfl

end Text
end BitEquiv

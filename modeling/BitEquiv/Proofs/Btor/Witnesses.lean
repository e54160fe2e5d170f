import BitEquiv.Btor.Witness

/-!
# Where reading a witness fails

A property is read as one byte and a number. Reading breaks off at a property whose first
character takes more than one byte, and nowhere else. An error stands on a line of the text that
says something, or it is one of the text as a whole.
-/

namespace BitEquiv
namespace Btor
namespace Witness

/-!
## Breaking off
-/

theorem readProperty_eq_none_iff {c : Char} {index : List Char} :
    readProperty (c :: index) = none ↔ c.utf8Size ≠ 1 := by
  unfold readProperty
  dsimp only
  constructor
  · intro h
    split at h
    · assumption
    · split at h
      · cases h
      · split at h <;> cases h
  · intro h
    exact if_pos h

/-- Reading breaks off at the first property that is no error and has no answer. -/
theorem readProperties_eq_none_iff {tokens : List (List Char)} :
    readProperties tokens = none ↔
      ∃ before token after, tokens = before ++ token :: after ∧
        (∀ t ∈ before, ∃ p, readProperty t = some (.ok p)) ∧ readProperty token = none := by
  induction tokens with
  | nil =>
      constructor
      · rintro ⟨⟩
      · rintro ⟨before, token, after, h, _⟩
        cases before <;> cases h
  | cons first rest ih =>
      rw [readProperties]
      cases hfirst : readProperty first with
      | none =>
          refine iff_of_true rfl ⟨[], first, rest, rfl, ?_, hfirst⟩
          rintro t ⟨⟩
      | some answer =>
          cases answer with
          | error fault =>
              refine iff_of_false (by rintro ⟨⟩) ?_
              rintro ⟨before, token, after, h, hread, hnone⟩
              cases before with
              | nil =>
                  cases h
                  rw [hfirst] at hnone
                  cases hnone
              | cons t before =>
                  cases h
                  rcases hread first List.mem_cons_self with ⟨p, hp⟩
                  rw [hfirst] at hp
                  cases hp
          | ok p =>
              dsimp only
              rw [Option.map_eq_none_iff, ih]
              constructor
              · rintro ⟨before, token, after, rfl, hread, hnone⟩
                refine ⟨first :: before, token, after, rfl, ?_, hnone⟩
                exact List.forall_mem_cons.mpr ⟨⟨p, hfirst⟩, hread⟩
              · rintro ⟨before, token, after, h, hread, hnone⟩
                cases before with
                | nil =>
                    cases h
                    rw [hfirst] at hnone
                    cases hnone
                | cons t before =>
                    cases h
                    exact ⟨before, token, after, rfl, (List.forall_mem_cons.mp hread).2, hnone⟩

/-- The line after `sat` has, behind properties that can be read, one whose first character
takes more than a byte. -/
def BreaksOff (s : List Char) : Prop :=
  ∃ n m line rest before c index after,
    meaningful s = (n, "sat".toList) :: (m, line) :: rest ∧
      Text.words line = before ++ (c :: index) :: after ∧
      (∀ t ∈ before, ∃ p, readProperty t = some (.ok p)) ∧ c.utf8Size ≠ 1

def behindProperties (m : Nat) (rows : List (Nat × List Char)) :
    Except WitnessFault (List Property) → Except WitnessError Witness
  | .error fault => .error ⟨m, fault⟩
  | .ok [] => .error ⟨m, .emptyProperties⟩
  | .ok ps => (framesFrom ⟨.outside, []⟩ rows).map fun frames => ⟨ps, frames⟩

section Parse

variable {s : List Char}

theorem parse_of_lines {n m : Nat} {line : List Char} {rows : List (Nat × List Char)}
    (h : meaningful s = (n, "sat".toList) :: (m, line) :: rows) :
    parse s = (readProperties (Text.words line)).map (behindProperties m rows) := by
  unfold parse
  rw [h]
  dsimp only
  rw [if_neg (not_not_intro rfl)]
  rfl

/-- A text has a verdict and a line of properties, or it is rejected before that line. -/
theorem lines_or_error (s : List Char) :
    (∃ n m line rows, meaningful s = (n, "sat".toList) :: (m, line) :: rows) ∨
      ∃ e, parse s = some (.error e) ∧
        (e = ⟨0, .empty⟩ ∨ e = ⟨0, .noProperties⟩ ∨ ∃ row ∈ meaningful s, row.1 = e.line) := by
  unfold parse
  generalize meaningful s = rows
  cases rows with
  | nil => exact Or.inr ⟨_, rfl, Or.inl rfl⟩
  | cons row rows =>
      rcases row with ⟨n, first⟩
      by_cases hfirst : first = "sat".toList
      · rw [hfirst]
        cases rows with
        | nil => exact Or.inr ⟨_, rfl, Or.inr (Or.inl rfl)⟩
        | cons row rows => exact Or.inl ⟨n, row.1, row.2, rows, rfl⟩
      · refine Or.inr ⟨⟨n, .expectedSat first⟩, if_pos hfirst, Or.inr (Or.inr ?_)⟩
        exact ⟨_, List.mem_cons_self, rfl⟩

theorem parse_eq_none_iff : parse s = none ↔ BreaksOff s := by
  constructor
  · intro h
    rcases lines_or_error s with ⟨n, m, line, rows, hlines⟩ | ⟨e, herror, _⟩
    · rw [parse_of_lines hlines, Option.map_eq_none_iff] at h
      rcases readProperties_eq_none_iff.mp h with ⟨before, token, after, hwords, hread, hnone⟩
      cases token with
      | nil =>
          have hmem : [] ∈ Text.words line := by
            rw [hwords]
            exact List.mem_append_right _ List.mem_cons_self
          simp [Text.words] at hmem
      | cons c index =>
          exact ⟨n, m, line, rows, before, c, index, after, hlines, hwords, hread,
            readProperty_eq_none_iff.mp hnone⟩
    · rw [herror] at h
      cases h
  · intro h
    rcases h with ⟨n, m, line, rows, before, c, index, after, hlines, hwords, hread, hwide⟩
    rw [parse_of_lines hlines, Option.map_eq_none_iff]
    exact readProperties_eq_none_iff.mpr
      ⟨before, c :: index, after, hwords, hread, readProperty_eq_none_iff.mpr hwide⟩

end Parse

/-!
## Errors
-/

/-- The number is that of a line that is neither blank nor a comment. -/
def SpokenLine (s : List Char) (n : Nat) : Prop :=
  1 ≤ n ∧ ∃ line c rest, (Text.lines s)[n - 1]? = some line ∧ Text.trim line = c :: rest ∧ c ≠ ';'

theorem getElem?_of_mem_numbered {ls : List (List Char)} {n k : Nat} {line : List Char}
    (h : (k, line) ∈ numbered n ls) : n ≤ k ∧ ls[k - n]? = some line := by
  induction ls generalizing n with
  | nil => cases h
  | cons first ls ih =>
      rw [numbered] at h
      rcases List.mem_cons.mp h with heq | h
      · cases heq
        rw [Nat.sub_self]
        exact ⟨Nat.le_refl k, rfl⟩
      · rcases ih h with ⟨hle, hget⟩
        have hnext : k - n = k - (n + 1) + 1 := by omega
        rw [hnext, List.getElem?_cons_succ]
        exact ⟨Nat.le_of_succ_le hle, hget⟩

theorem spokenLine_of_mem {s : List Char} {row : Nat × List Char} (h : row ∈ meaningful s) :
    SpokenLine s row.1 := by
  rcases row with ⟨n, line⟩
  rcases List.mem_filter.mp h with ⟨hmem, hspoken⟩
  rcases getElem?_of_mem_numbered hmem with ⟨hpos, hget⟩
  rw [List.getElem?_map] at hget
  rcases Option.map_eq_some_iff.mp hget with ⟨raw, hraw, htrim⟩
  refine ⟨hpos, raw, ?_⟩
  cases line with
  | nil => cases hspoken
  | cons c rest => exact ⟨c, rest, hraw, htrim, bne_iff_ne.mp hspoken⟩

theorem framesFrom_error {p : Progress} {rows : List (Nat × List Char)} {e : WitnessError}
    (h : framesFrom p rows = .error e) :
    e = ⟨0, .unterminated⟩ ∨ ∃ row ∈ rows, row.1 = e.line := by
  induction rows generalizing p with
  | nil =>
      cases h
      exact Or.inl rfl
  | cons row rows ih =>
      rcases row with ⟨n, text⟩
      have hfirst : (n, text) ∈ (n, text) :: rows := List.mem_cons_self
      rw [framesFrom] at h
      split at h
      · split at h
        · cases h
          exact Or.inr ⟨_, hfirst, rfl⟩
        · cases h
      · split at h
        · rcases ih h with hend | ⟨row, hrow, hline⟩
          · exact Or.inl hend
          · exact Or.inr ⟨row, List.mem_cons_of_mem _ hrow, hline⟩
        · cases h
          exact Or.inr ⟨_, hfirst, rfl⟩

theorem behindProperties_error {m : Nat} {rows : List (Nat × List Char)}
    {read : Except WitnessFault (List Property)} {e : WitnessError}
    (h : behindProperties m rows read = .error e) :
    e.line = m ∨ e = ⟨0, .unterminated⟩ ∨ ∃ row ∈ rows, row.1 = e.line := by
  unfold behindProperties at h
  split at h
  · cases h
    exact Or.inl rfl
  · cases h
    exact Or.inl rfl
  · cases hframes : framesFrom ⟨.outside, []⟩ rows with
    | ok frames =>
        rw [hframes] at h
        cases h
    | error fault =>
        rw [hframes] at h
        cases h
        exact Or.inr (framesFrom_error hframes)

theorem parse_error {s : List Char} {e : WitnessError} (h : parse s = some (.error e)) :
    e = ⟨0, .empty⟩ ∨ e = ⟨0, .noProperties⟩ ∨ e = ⟨0, .unterminated⟩ ∨
      ∃ row ∈ meaningful s, row.1 = e.line := by
  rcases lines_or_error s with ⟨n, m, line, rows, hlines⟩ | ⟨e', herror, hwhere⟩
  · rw [parse_of_lines hlines] at h
    rcases Option.map_eq_some_iff.mp h with ⟨read, _, herror⟩
    rw [hlines]
    rcases behindProperties_error herror with hline | hend | ⟨row, hrow, hline⟩
    · have hmem : (m, line) ∈ (n, "sat".toList) :: (m, line) :: rows :=
        List.mem_cons_of_mem _ List.mem_cons_self
      exact Or.inr (Or.inr (Or.inr ⟨_, hmem, hline.symm⟩))
    · exact Or.inr (Or.inr (Or.inl hend))
    · have hmem := List.mem_cons_of_mem (n, "sat".toList) (List.mem_cons_of_mem (m, line) hrow)
      exact Or.inr (Or.inr (Or.inr ⟨row, hmem, hline⟩))
  · rw [herror] at h
    cases h
    rcases hwhere with hempty | hproperties | hrow
    · exact Or.inl hempty
    · exact Or.inr (Or.inl hproperties)
    · exact Or.inr (Or.inr (Or.inr hrow))

/-- A text gives a witness or an error, unless reading breaks off at a property. An error has
the number of a line that says something; it has line zero when there is no verdict, no line of
properties or no dot. -/
theorem parse_located (s : List Char) :
    (parse s = none ↔ BreaksOff s) ∧
      ∀ e, parse s = some (.error e) →
        (e.line = 0 ∧ (e.fault = .empty ∨ e.fault = .noProperties ∨ e.fault = .unterminated)) ∨
          SpokenLine s e.line := by
  constructor
  · exact parse_eq_none_iff
  · intro e h
    rcases parse_error h with rfl | rfl | rfl | ⟨row, hrow, hline⟩
    · exact Or.inl ⟨rfl, Or.inl rfl⟩
    · exact Or.inl ⟨rfl, Or.inr (Or.inl rfl)⟩
    · exact Or.inl ⟨rfl, Or.inr (Or.inr rfl)⟩
    · rw [← hline]
      exact Or.inr (spokenLine_of_mem hrow)

/-- A value outside of a frame, behind a comment and a blank line. -/
def strayValue : List Char := "sat\n; found\n\nb0 j1\n0 1\n.\n".toList

theorem parse_located_strayValue :
    parse strayValue = some (.error ⟨5, .outsideFrame⟩) ∧ SpokenLine strayValue 5 := by
  have herror : parse strayValue = some (.error ⟨5, .outsideFrame⟩) := rfl
  refine ⟨herror, ?_⟩
  rcases (parse_located strayValue).2 _ herror with ⟨hzero, _⟩ | hspoken
  · cases hzero
  · exact hspoken

/-- Reading breaks off at a property that begins with a character of two bytes. -/
theorem parse_wideProperty : parse "sat\né0\n@0\n.\n".toList = none := by
  rfl

end Witness
end Btor
end BitEquiv

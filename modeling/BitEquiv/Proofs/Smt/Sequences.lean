import BitEquiv.Proofs.Smt.Layout

/-!
# Sequences of expressions

Printed expressions are read back whatever stands between their tokens. Two texts that are
read can be put on lines of their own: what is read of both is what is read of each in turn.
-/

namespace BitEquiv
namespace Smt
namespace SExpr

/-!
## Printed expressions
-/

/-- An atom is printed as it is when that is one token, and between bars otherwise. -/
def printedAtom (a : String) : List Char :=
  if Bare a then a.toList else '|' :: (a.toList ++ ['|'])

def Printed (es : List SExpr) (s : List Char) : Prop := Layout (wordsAll printedAtom es) s

theorem spelling_printedAtom {a : String} (h : '|' ∉ a.toList) :
    Spelling (printedAtom a) (.atom a) := by
  unfold printedAtom
  split
  · rename_i hbare
    exact .bare hbare
  · exact .barred h

theorem layout_spaced (ws : List (List Char)) : Layout ws (ws.flatMap (' ' :: ·)) := by
  induction ws with
  | nil => exact .nil .nil
  | cons w ws ih =>
      have hend : Stops (ws.flatMap (' ' :: ·)) := by
        cases ws with
        | nil => trivial
        | cons w' ws => exact rfl
      exact .cons (.blank (by decide) .nil) (Or.inr hend) ih

theorem printed_spaced (es : List SExpr) :
    Printed es ((wordsAll printedAtom es).flatMap (' ' :: ·)) :=
  layout_spaced _

theorem parseAll_printed {es : List SExpr} {s : List Char}
    (hatoms : ∀ a ∈ atomsAll es, '|' ∉ a.toList) (h : Printed es s) : parseAll s = .ok es :=
  parseAll_layout (spelling_wordsAll fun a ha => spelling_printedAtom (hatoms a ha)) h

/-!
## Texts one after the other
-/

def step : Mode → Char → List Token × Mode
  | .between, c => start c
  | .comment, c => ([], if c == '\n' then .between else .comment)
  | .quoted read, c => if c == '|' then ([bareAtom read], .between) else ([], .quoted (c :: read))
  | .string read, c => ([], if c == '"' then .stringQuote read else .string (c :: read))
  | .stringQuote read, c =>
      if c == '"' then ([], .string ('"' :: read))
      else (stringAtom read :: (start c).1, (start c).2)
  | .bare read, c =>
      if isDelimiter c then (bareAtom read :: (start c).1, (start c).2) else ([], .bare (c :: read))

theorem scan_cons (mode : Mode) (c : Char) (s : List Char) :
    scan mode (c :: s) = before (step mode c).1 (scan (step mode c).2 s) := by
  cases mode with
  | between => rfl
  | comment => rfl
  | string read => rfl
  | quoted read =>
      rw [scan, step]
      split <;> rfl
  | stringQuote read =>
      rw [scan, step]
      split <;> rfl
  | bare read =>
      rw [scan, step]
      split <;> rfl

/-- A newline ends every token that the end of the text would end. -/
theorem step_newline {mode : Mode} (h : (scan mode []).2 = none) :
    step mode '\n' = ((scan mode []).1, .between) := by
  cases mode with
  | between => rfl
  | comment => rfl
  | quoted read => cases h
  | string read => cases h
  | stringQuote read => rfl
  | bare read => rfl

/-- What follows a scanned text and a newline is scanned by itself. -/
theorem scan_append_newline {mode : Mode} {s : List Char} (h : (scan mode s).2 = none)
    (rest : List Char) :
    scan mode (s ++ '\n' :: rest) = before (scan mode s).1 (scan .between rest) := by
  induction s generalizing mode with
  | nil => rw [List.nil_append, scan_cons, step_newline h]
  | cons c s ih =>
      rw [scan_cons] at h
      rw [List.cons_append, scan_cons, scan_cons mode c s, ih h, ← before_append]
      rfl

theorem parseAll_append_newline {s s' : List Char} {es es' : List SExpr}
    (h : parseAll s = .ok es) (h' : parseAll s' = .ok es') :
    parseAll (s ++ '\n' :: s') = .ok (es ++ es') := by
  rw [parseAll_eq_ok_iff] at h h' ⊢
  have hdone : (scan .between s).2 = none := by rw [h]
  rw [scan_append_newline hdone, h, h', tokensAll_append]
  rfl

/-!
## Faithful reading
-/

/-- Expressions whose atoms have no bars can be printed, and every print of them is read as
just these expressions. Texts with a newline between them are read one after the other. -/
theorem parseAll_faithful :
    (∀ es : List SExpr, (∀ a ∈ atomsAll es, '|' ∉ a.toList) →
      (∃ s, Printed es s) ∧ ∀ s, Printed es s → parseAll s = .ok es) ∧
    ∀ (s s' : List Char) (es es' : List SExpr), parseAll s = .ok es → parseAll s' = .ok es' →
      parseAll (s ++ '\n' :: s') = .ok (es ++ es') := by
  constructor
  · intro es hatoms
    refine ⟨⟨_, printed_spaced es⟩, ?_⟩
    intro s hs
    exact parseAll_printed hatoms hs
  · intro s s' es es' h h'
    exact parseAll_append_newline h h'

/-- A comment ends an atom, bars keep its blanks, and a comment at the end of the first text
does not swallow the second. -/
theorem parseAll_faithful_comments :
    let es := [list [atom "a", atom "b c", list []], atom ""]
    let s := "(a;one\n|b c|())\t|| ;two".toList
    (∀ a ∈ atomsAll es, '|' ∉ a.toList) ∧ Printed es s ∧ parseAll s = .ok es ∧
      parseAll (s ++ '\n' :: s) = .ok (es ++ es) := by
  intro es s
  have hatoms : ∀ a ∈ atomsAll es, '|' ∉ a.toList := by decide
  have hopen : ∀ rest, Separate ['('] rest := fun _ => Or.inl ⟨'(', rfl, rfl⟩
  have hclose : ∀ rest, Separate [')'] rest := fun _ => Or.inl ⟨')', rfl, rfl⟩
  have hempty : ∀ rest, Separate (printedAtom "") rest := fun _ => Or.inl ⟨'|', by decide, rfl⟩
  have hblank : ∀ rest, Separate (printedAtom "b c") rest := fun _ => Or.inl ⟨'|', by decide, rfl⟩
  have hs : Printed es s := show Layout (wordsAll printedAtom es) _ from
    .cons .nil (hopen _) <| .cons .nil (Or.inr (by rfl)) <|
    .cons (.comment "one".toList (by decide) .nil) (hblank _) <| .cons .nil (hopen _) <|
    .cons .nil (hclose _) <| .cons .nil (hclose _) <|
    .cons (.blank (by decide) .nil) (hempty _) <|
    .comment (.blank (by decide) .nil) (by decide)
  have hread := (parseAll_faithful.1 es hatoms).2 s hs
  exact ⟨hatoms, hs, hread, parseAll_faithful.2 s s es es hread hread⟩

end SExpr
end Smt
end BitEquiv

import BitEquiv.Proofs.Logic.Evaluation
import BitEquiv.Proofs.Logic.Typing
import BitEquiv.Proofs.Text.Assoc
import BitEquiv.Proofs.Text.Blank
import BitEquiv.Proofs.Text.Numeral
import BitEquiv.Smt.Answer

/-!
# What the answers of SMT-LIB solvers decide

One line of the output decides. The text after it is asked only for values, and each value
of a model stands in it beside its name.
-/

namespace BitEquiv
namespace Smt

open Logic Solver

/-!
## The line that decides
-/

/-- Whether a line says something: it is neither blank nor a comment. -/
def speaks (line : List Char) : Bool :=
  !((Text.trim line).isEmpty || (Text.trim line).head? == some ';')

/-- The first of several lines that says something, without the blanks at its ends, and the
lines after it. -/
def firstSpoken (lines : List (List Char)) : Option (List Char × List (List Char)) :=
  match lines.dropWhile fun line => !speaks line with
  | [] => none
  | line :: rest => some (Text.trim line, rest)

def answerOf (s : List Char) : Option (List Char × List Char) :=
  (firstSpoken (Text.splitBy (· == '\n') s)).map fun (line, rest) =>
    (line, List.intercalate ['\n'] rest)

theorem firstSpoken_cons (line : List Char) (rest : List (List Char)) :
    firstSpoken (line :: rest) =
      if speaks line then some (Text.trim line, rest) else firstSpoken rest := by
  unfold firstSpoken
  by_cases h : speaks line = true
  · rw [List.dropWhile_cons_of_neg (by simp [h]), if_pos h]
  · rw [List.dropWhile_cons_of_pos (by simp [h]), if_neg h]

theorem speaks_newline (line : List Char) : speaks (line ++ ['\n']) = speaks line := by
  unfold speaks
  rw [Text.trim_newline]

theorem answerOf_eq (s : List Char) :
    answerOf s =
      if speaks (Text.takeLine s).1 then some (Text.trim (Text.takeLine s).1, (Text.takeLine s).2)
      else answerOf (Text.takeLine s).2 := by
  rcases Text.takeLine_splitBy s with ⟨piece, after, hline, hpieces⟩ | ⟨hline, hpieces⟩
  · rw [hline, answerOf, hpieces, firstSpoken_cons, speaks_newline]
    dsimp only
    split
    · rw [Option.map_some, Text.intercalate_splitBy, Text.trim_newline]
    · rfl
  · rw [hline, answerOf, hpieces, firstSpoken_cons]
    split <;> rfl

theorem statusOf_eq_some {line : List Char} {status : Status} :
    statusOf line = some status ↔
      (line = "sat".toList ∧ status = .sat) ∨ (line = "unsat".toList ∧ status = .unsat) ∨
        (line = "unknown".toList ∧ status = .unknown "solver returned unknown") := by
  constructor
  · intro h
    unfold statusOf at h
    split at h
    · exact Or.inl ⟨by assumption, (Option.some.inj h).symm⟩
    · split at h
      · exact Or.inr (Or.inl ⟨by assumption, (Option.some.inj h).symm⟩)
      · split at h
        · exact Or.inr (Or.inr ⟨by assumption, (Option.some.inj h).symm⟩)
        · cases h
  · rintro (⟨rfl, rfl⟩ | ⟨rfl, rfl⟩ | ⟨rfl, rfl⟩) <;> decide

theorem stripStart_error_of_statusOf {line : List Char} {status : Status}
    (h : statusOf line = some status) : (Text.stripStart "(error".toList line).isSome = false := by
  rcases statusOf_eq_some.mp h with ⟨rfl, _⟩ | ⟨rfl, _⟩ | ⟨rfl, _⟩ <;> decide

theorem readStatus_eq {s : List Char} (hs : s ≠ []) :
    readStatus s =
      if speaks (Text.takeLine s).1 then
        if (Text.stripStart "(error".toList (Text.trim (Text.takeLine s).1)).isSome then
          .error (.reported (errorMessage (Text.trim (Text.takeLine s).1)))
        else
          match statusOf (Text.trim (Text.takeLine s).1) with
          | some status => .ok (status, (Text.takeLine s).2)
          | none => .error (.malformedAnswer (.expectedVerdict s))
      else readStatus (Text.takeLine s).2 := by
  rw [readStatus, dif_neg hs]
  cases hspeaks : speaks (Text.takeLine s).1 with
  | false =>
      rw [speaks, Bool.not_eq_false'] at hspeaks
      exact if_pos hspeaks
  | true =>
      rw [speaks, Bool.not_eq_true'] at hspeaks
      exact if_neg (Bool.eq_false_iff.mp hspeaks)

theorem readStatus_ok_iff {s rest : List Char} {status : Status} :
    readStatus s = .ok (status, rest) ↔
      ∃ line, answerOf s = some (line, rest) ∧ statusOf line = some status := by
  induction hlength : s.length using Nat.strongRecOn generalizing s with
  | ind n ih =>
      by_cases hs : s = []
      · subst hs
        rw [readStatus, dif_pos rfl]
        constructor
        · rintro ⟨⟩
        · rintro ⟨line, h, _⟩
          cases h
      · rw [answerOf_eq, readStatus_eq hs]
        split
        · constructor
          · intro h
            split at h
            · cases h
            · split at h
              · rename_i found hfound
                cases h
                exact ⟨_, rfl, hfound⟩
              · cases h
          · rintro ⟨line, hanswer, hstatus⟩
            cases hanswer
            rw [stripStart_error_of_statusOf hstatus, if_neg Bool.false_ne_true, hstatus]
        · exact ih _ (hlength ▸ Text.takeLine_length s hs) rfl

/-!
## The values of a model
-/

theorem inSort_word {n w : Nat} (hwide : n < Text.wideLimit) (hn : n < 2 ^ w) :
    (Value.word n w).InSort (.bitVec w) := by
  refine ⟨rfl, ?_⟩
  have hlt : n < Word.modulus w := by
    unfold Word.modulus
    rcases Nat.le_total w maxWidth with h | h
    · rw [Nat.min_eq_left h]
      exact hn
    · rw [Nat.min_eq_right h]
      exact hwide
  simp only [Value.canonical, Value.ofBits, Word.truncate, Nat.mod_eq_of_lt hlt]

/-- A value has its sort. Its bits fit the width as well, unless it is written with a decimal
number: the number may be too large. -/
theorem readValue_sort {sort : BvSort} {e : SExpr} {v : Value} (h : readValue sort e = some v) :
    v.sort = sort ∧
      (v.InSort sort ∨ ∃ number width, e = .list [.atom "_", .atom number, .atom width]) := by
  unfold readValue at h
  split at h
  · split at h
    · cases h
      exact ⟨rfl, Or.inl ⟨rfl, rfl⟩⟩
    · split at h
      · cases h
        exact ⟨rfl, Or.inl ⟨rfl, rfl⟩⟩
      · cases h
  · split at h
    · rename_i w a digits hdigits
      split at h
      · rename_i hlength
        rcases Option.map_eq_some_iff.mp h with ⟨n, hn, rfl⟩
        rcases Text.unsigned_lt (by decide) hn with ⟨hwide, hlt⟩
        rw [hlength] at hlt
        exact ⟨rfl, Or.inl (inSort_word hwide hlt)⟩
      · cases h
    · rename_i w a digits hdigits
      split at h
      · rename_i hlength
        rcases Option.map_eq_some_iff.mp h with ⟨n, hn, rfl⟩
        rcases Text.unsigned_lt (by decide) hn with ⟨hwide, hlt⟩
        rw [show 16 = 2 ^ 4 from rfl, ← Nat.pow_mul, Nat.mul_comm, hlength] at hlt
        exact ⟨rfl, Or.inl (inSort_word hwide hlt)⟩
      · cases h
    · cases h
  · rename_i w u number width
    split at h
    · rename_i hu
      subst hu
      split at h
      · rcases Option.bind_eq_some_iff.mp h with ⟨bits, _, h⟩
        rcases Option.bind_eq_some_iff.mp h with ⟨width', _, h⟩
        split at h
        · cases h
          exact ⟨rfl, Or.inr ⟨number, width, rfl⟩⟩
        · cases h
      · cases h
    · cases h
  · cases h

/-- A value stands beside a name in a list of the answer. A word fits its width, unless it is
written with a decimal number. -/
def Written (es : List SExpr) (x : String) (v : Value) : Prop :=
  ∃ items e, .list items ∈ es ∧ .list [.atom x, e] ∈ items ∧ readValue v.sort e = some v ∧
    (v.InSort v.sort ∨ ∃ number width, e = .list [.atom "_", .atom number, .atom width])

/-- The values of a model are written values of wanted names. -/
def FromAnswer (wanted : List (String × BvSort)) (es : List SExpr) (model : Model) : Prop :=
  ∀ x v, model.get? x = some v → (Assoc.ofList wanted).get? x = some v.sort ∧ Written es x v

theorem foldlM_induct {ε α β : Type} {f : β → α → Except ε β} {P : β → Prop} {l : List α}
    (hstep : ∀ b a b', a ∈ l → P b → f b a = .ok b' → P b') {b b' : β} (hb : P b)
    (h : l.foldlM f b = .ok b') : P b' := by
  induction l generalizing b with
  | nil =>
      cases h
      exact hb
  | cons a l ih =>
      rw [List.foldlM_cons] at h
      rcases except_bind_eq_ok.mp h with ⟨b₁, hb₁, h⟩
      have hP₁ := hstep b a b₁ List.mem_cons_self hb hb₁
      exact ih (fun b a b' ha => hstep b a b' (List.mem_cons_of_mem _ ha)) hP₁ h

section Model

variable {wanted : List (String × BvSort)} {es : List SExpr}

theorem readPair_fromAnswer {model model' : Model} {items : List SExpr} {e : SExpr}
    (hitems : .list items ∈ es) (he : e ∈ items) (hmodel : FromAnswer wanted es model)
    (h : readPair wanted model e = .ok model') : FromAnswer wanted es model' := by
  unfold readPair at h
  split at h
  · rename_i name value
    split at h
    · cases h
      exact hmodel
    · rename_i sort hsort
      split at h
      · rename_i v hv
        cases h
        intro x v' hx
        rw [Assoc.get?_set] at hx
        split at hx
        · rename_i heq
          cases hx
          rcases readValue_sort hv with ⟨rfl, hfits⟩
          rw [heq]
          exact ⟨hsort, items, value, hitems, he, hv, hfits⟩
        · exact hmodel x v' hx
      · cases h
  · cases h
    exact hmodel

theorem readValues_fromAnswer {model model' : Model} {e : SExpr} (he : e ∈ es)
    (hmodel : FromAnswer wanted es model) (h : readValues wanted model e = .ok model') :
    FromAnswer wanted es model' := by
  unfold readValues at h
  split at h
  · cases h
    exact hmodel
  · rename_i items
    split at h
    · cases h
    · refine foldlM_induct ?_ hmodel h
      intro m pair m' hpair hm hm'
      exact readPair_fromAnswer he hpair hm hm'

theorem readModel_ok {s : List Char} {model : Model} (h : readModel wanted s = .ok model) :
    wanted = [] ∧ model = [] ∨
      ∃ es, SExpr.parseAll s = .ok es ∧ FromAnswer wanted es model ∧
        ∀ pair ∈ wanted, model.has pair.1 = true := by
  unfold readModel at h
  split at h
  · rename_i hempty
    cases h
    exact Or.inl ⟨List.isEmpty_iff.mp hempty, rfl⟩
  · split at h
    · cases h
    · rename_i es hes
      rcases except_bind_eq_ok.mp h with ⟨read, hread, h⟩
      split at h
      · cases h
      · rename_i hfind
        cases h
        refine Or.inr ⟨es, hes, ?_, ?_⟩
        · refine foldlM_induct ?_ ?_ hread
          · intro m e m' he hm hm'
            exact readValues_fromAnswer he hm hm'
          · rintro x v ⟨⟩
        · intro pair hpair
          have hhas := List.find?_eq_none.mp hfind pair hpair
          simpa using hhas

end Model

end Smt
end BitEquiv

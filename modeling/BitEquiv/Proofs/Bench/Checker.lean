import BitEquiv.Bench.Checker
import BitEquiv.Proofs.Program.Miter

/-!
# Truthful verdicts

Nothing is asked of a decider here: it can answer anything, with values that are
missing, that name nothing, or that have the wrong sorts. A verdict of inequivalence
still holds of the programs, and an answer is blamed on the decider only when it is
wrong.
-/

namespace BitEquiv
namespace Bench

open Logic
open Program (SameInterface)

/-!
## What verdicts say
-/

/-- The outputs of a program, in order, that have different values in two results. -/
def differences (p : Program) (left right : List (String × Value)) : List Program.OutputDiff :=
  p.outputs.filterMap fun b =>
    match left.lookup b.name, right.lookup b.name with
    | some v, some w => if v = w then none else some ⟨b.name, v, w⟩
    | _, _ => none

/-- An input is shown with its sort and with the value that an assignment gives it. -/
def CexInput.Shows (values : Env) (input : CexInput) (declared : String × BvSort) : Prop :=
  input.name = declared.1 ∧ input.sort = declared.2.text ∧
    ∃ v, values.get? declared.1 = some v ∧ v.sort = declared.2 ∧ input.value = plainText v

/-- The counterexample shows every input of the reference with its value, in order, and lists
the outputs on which the two programs differ there. There is one. -/
structure Counterexample.Separates (c : Counterexample) (p q : Program) : Prop where
  inputs : List.Forall₂ (CexInput.Shows c.values) c.inputs p.inputs
  values : c.values.map (fun input => (input.1, input.2.sort)) = p.inputs
  outputs : ∃ left right, p.evaluate c.values = .ok left ∧ q.evaluate c.values = .ok right ∧
    c.outputs = differences p left right
  differ : c.outputs ≠ []

section Programs

variable {p q : Program}

theorem differences_eq (hp : p.WellFormed) (hq : q.WellFormed) (hsame : SameInterface p q)
    (left right : Env) :
    differences p (p.outputsIn left) (q.outputsIn right) = p.outputDiffs left right := by
  have hself : SameInterface p p := ⟨fun _ => rfl, fun _ => rfl⟩
  unfold differences Program.outputDiffs
  apply List.filterMap_congr
  intro b hb
  rw [Program.lookup_outputsIn hp hp hself hb left, Program.lookup_outputsIn hp hq hsame hb right]

theorem compareAt_modelInputs (hp : p.WellFormed) (hq : q.WellFormed)
    (hsame : SameInterface p q) (model : Env) :
    ∃ left right, p.evaluate (p.modelInputs model) = .ok left ∧
      q.evaluate (p.modelInputs model) = .ok right ∧
      Program.compareAt p q (p.modelInputs model) = .ok (differences p left right) := by
  have hgiven : Matches (Assoc.get? p.inputs) (p.modelInputs model) :=
    Program.matches_modelInputs
  rcases hp.valuesAt hgiven with ⟨_, left, _, _, hleft, _⟩
  rcases hq.valuesAt (hsame.matches_inputs hgiven) with ⟨_, right, _, _, hright, _⟩
  refine ⟨p.outputsIn left, q.outputsIn right, hp.evaluate_eq hleft, hq.evaluate_eq hright, ?_⟩
  rw [differences_eq hp hq hsame]
  exact Program.compareAt_eq hp hq hsame hleft hright

/-- No input is shown as zero for want of a value. -/
theorem shows_inputs (hp : p.WellFormed) {values : Env}
    (hvalues : Matches (Assoc.get? p.inputs) values) (outputs : List Program.OutputDiff) :
    List.Forall₂ (CexInput.Shows values) (Counterexample.of p values outputs).inputs
      p.inputs := by
  unfold Counterexample.of
  rw [List.forall₂_map_left_iff, List.forall₂_same]
  rintro ⟨x, s⟩ hinput
  rcases hvalues x s (Assoc.get?_of_mem hp.distinct hinput) with ⟨v, hv, hsort⟩
  refine ⟨rfl, rfl, v, hv, hsort, ?_⟩
  simp only [hv, Option.getD_some]

theorem separates_of_compareAt (hp : p.WellFormed) (hq : q.WellFormed)
    (hsame : SameInterface p q) {model : Env} {ds : List Program.OutputDiff}
    (h : Program.compareAt p q (p.modelInputs model) = .ok ds) (hds : ds ≠ []) :
    (Counterexample.of p (p.modelInputs model) ds).Separates p q := by
  rcases compareAt_modelInputs hp hq hsame model with ⟨left, right, hleft, hright, hcompare⟩
  rw [hcompare] at h
  refine ⟨shows_inputs hp Program.matches_modelInputs ds, Program.sorts_modelInputs,
    ⟨left, right, hleft, hright, ?_⟩, hds⟩
  exact (Except.ok.inj h).symm

theorem sameDefinition_iff :
    p.sameDefinition q = true ↔ p.inputs = q.inputs ∧ p.bindings = q.bindings := by
  simp [Program.sameDefinition]

theorem sameInterface_of_sameDefinition (h : p.sameDefinition q = true) : SameInterface p q := by
  rcases sameDefinition_iff.mp h with ⟨hinputs, hbindings⟩
  refine ⟨fun x => by rw [hinputs], fun x => ?_⟩
  unfold Program.outputSorts Program.outputs
  rw [hbindings]

theorem compareAt_of_sameDefinition (hp : p.WellFormed) (hq : q.WellFormed)
    (h : p.sameDefinition q = true) {given : Env}
    (hgiven : Matches (Assoc.get? p.inputs) given) :
    Program.compareAt p q given = .ok [] := by
  rcases sameDefinition_iff.mp h with ⟨hinputs, hbindings⟩
  rcases hp.valuesAt hgiven with ⟨_, env, _, _, hvalues, _⟩
  have hvalues' : q.valuesAt given = .ok env := by
    unfold Program.valuesAt Program.definitions at hvalues ⊢
    rw [← hinputs, ← hbindings]
    exact hvalues
  rw [Program.compareAt_eq hp hq (sameInterface_of_sameDefinition h) hvalues hvalues']
  simp [Program.outputDiffs]

end Programs

/-!
## Verdicts
-/

namespace Checker

section Verdicts

variable {p q : Program} (hp : p.WellFormed) (hq : q.WellFormed)

include hp hq

end Verdicts

/-- The three ways of a check: the definitions are the same, the interfaces differ, or the
decider is asked. -/
theorem check_cases {p : Program} (hp : p.WellFormed) (q : Program) (k : Checker)
    (caseId : String) (timeoutSecs : Nat) (dumpDir : Option String) (files : Execution.Files) :
    (p.sameDefinition q = true ∧ k.check caseId timeoutSecs dumpDir p q files =
        (some (.plain caseId .equivalent "identical definitions" 0), files)) ∨
      (¬SameInterface p q ∧ ∃ detail, k.check caseId timeoutSecs dumpDir p q files =
        (some (.plain caseId .inequivalent detail 0), files)) ∨
      (p.sameDefinition q = false ∧ SameInterface p q ∧
        k.check caseId timeoutSecs dumpDir p q files =
          match k.decider.decide (Program.miter p q) timeoutSecs dumpDir files with
          | (none, files) => (none, files)
          | (some d, files) => (some (judge k.decider.name caseId p q d), files)) := by
  unfold check Program.equivalenceQuery
  cases hdefinition : p.sameDefinition q with
  | true => exact Or.inl ⟨rfl, rfl⟩
  | false =>
      cases hmismatch : Program.mismatch? p q with
      | some m =>
          refine Or.inr (Or.inl ⟨?_, m.message, rfl⟩)
          intro hsame
          rw [(Program.mismatch?_eq_none_iff hp).mpr hsame] at hmismatch
          cases hmismatch
      | none =>
          have hsame := (Program.mismatch?_eq_none_iff hp).mp hmismatch
          exact Or.inr (Or.inr ⟨rfl, hsame, rfl⟩)

end Checker

end Bench
end BitEquiv

import BitEquiv.Proofs.Logic.Validation
import BitEquiv.Proofs.Solver.Exhaustive

/-!
# Accepted queries are never ill sorted

Evaluation cannot fail after the checks: neither of a term in its scope, nor of a query at
input values in their sorts, nor while assignments are searched.
-/

namespace BitEquiv
namespace Solver

open Logic

namespace Exhaustive

section Search

variable {q : Query}

theorem givenInSort_assignment (hdistinct : Assoc.Distinct q.inputs) (n : Nat) :
    q.GivenInSort (assignment q.inputs n []) :=
  Query.givenInSort_of_fits fun _ _ hx => inSort_assignment hdistinct hx n []

theorem search_ne_eval (hq : q.WellFormed) (wanted : List (String × BvSort))
    (expired : Nat → Bool) (total : Nat) (e : EvalError) (remaining counter : Nat) :
    search q wanted expired total remaining counter ≠ .error (.eval e) := by
  induction remaining generalizing counter with
  | zero =>
      intro h
      cases h
  | succ remaining ih =>
      rcases hq.satisfiedBy (givenInSort_assignment hq.distinct counter) with ⟨b, hb⟩
      unfold search
      split
      · intro h
        cases h
      · dsimp only
        rw [hb]
        cases b with
        | true =>
            intro h
            cases h
        | false => exact ih (counter + 1)

theorem decide_ne_eval (bits : Nat) (expired : Nat → Bool) (q : Query)
    (wanted : List (String × BvSort)) (e : EvalError) :
    decide bits expired q wanted ≠ .error (.eval e) := by
  unfold decide
  cases hvalid : q.validate with
  | error fault =>
      intro h
      cases h
  | ok known =>
      dsimp only
      split
      · intro h
        cases h
      · exact search_ne_eval (Query.wellFormed_of_validate hvalid) wanted expired _ e _ _

end Search

/-- Sort soundness, of queries, of terms and of the search. -/
theorem validate_sound :
    (∀ q known, Query.validate q = .ok known → ∀ given : Env,
      (∀ x s, (x, s) ∈ q.inputs → ∀ v, given.get? x = some v → v.InSort s) →
        ∃ env b, q.evaluate given = .ok env ∧ q.satisfiedBy given = .ok b ∧
          (∀ x s, (x, s) ∈ q.inputs → ∃ v, env.get? x = some v ∧ v.InSort s) ∧
          ∀ d ∈ q.definitions, ∃ v, env.get? d.name = some v ∧ v.InSort d.sort) ∧
      (∀ (scope : Scope) (t : Term) (s : BvSort) (env : Env), Term.ValidScope scope →
        t.sortOf scope = .ok s → Matches scope env →
          ∃ v, t.eval env = .ok v ∧ v.sort = s ∧ (Fits scope env → v.InSort s)) ∧
      ∀ bits expired q wanted e, decide bits expired q wanted ≠ .error (.eval e) := by
  refine ⟨?_, ?_, decide_ne_eval⟩
  · intro q known hvalid given hgiven
    have hq := Query.wellFormed_of_validate hvalid
    have hin : q.GivenInSort given := by
      intro x s hx
      exact hgiven x s (Assoc.mem_of_get? hx)
    rcases hq.evaluate hin with ⟨env, henv, hfits⟩
    rcases hq.satisfiedBy hin with ⟨b, hb⟩
    refine ⟨env, b, henv, hb, ?_, ?_⟩
    · intro x s hx
      exact hfits x s (hq.scope_input (Assoc.get?_of_mem hq.distinct hx))
    · intro d hd
      exact hfits d.name d.sort (hq.scope_definition hd)
  · intro scope t s env hscope hsort hmatches
    have ht := Term.hasSort_of_sortOf hsort
    rcases ht.eval hmatches with ⟨v, hv, hvsort⟩
    refine ⟨v, hv, hvsort, ?_⟩
    intro hfits
    rcases ht.eval_inSort hscope hfits with ⟨w, hw, hin⟩
    rw [hv] at hw
    cases hw
    exact hin

def negativeByte : Query where
  inputs := [("x", .bitVec 8), ("wanted", .bool)]
  definitions := [⟨"wide", .bitVec 16, .signExtend 8 (.var "x")⟩]
  assertions := [.ite (.var "wanted") (.compare .slt (.var "wide") (.bvLit 0 16)) (.boolLit true)]

theorem validate_sound_negativeByte :
    (∃ env b, negativeByte.evaluate [("x", .word 200 8)] = .ok env ∧
      negativeByte.satisfiedBy [("x", .word 200 8)] = .ok b ∧
      (∀ x s, (x, s) ∈ negativeByte.inputs → ∃ v, env.get? x = some v ∧ v.InSort s) ∧
      (∀ d ∈ negativeByte.definitions, ∃ v, env.get? d.name = some v ∧ v.InSort d.sort) ∧
      env = [("x", .word 200 8), ("wanted", .bool false), ("wide", .word 0xffc8 16)]) ∧
    (Term.signExtend 8 (.var "x")).sortOf (Assoc.get? [("x", .bitVec 8)]) = .ok (.bitVec 16) ∧
    (∃ v, (Term.signExtend 8 (.var "x")).eval [("x", .word 200 8)] = .ok v ∧
      v.InSort (.bitVec 16)) ∧
    ∀ e, decide 9 (fun _ => false) negativeByte negativeByte.inputs ≠ .error (.eval e) := by
  rcases validate_sound with ⟨hqueries, hterms, hsearch⟩
  refine ⟨?_, rfl, ?_, hsearch _ _ _ _⟩
  · have hgiven : ∀ x s, (x, s) ∈ negativeByte.inputs →
        ∀ v, Assoc.get? [("x", Value.word 200 8)] x = some v → v.InSort s := by
      intro x s hx v hv
      rcases List.mem_singleton.mp (Assoc.mem_of_get? hv) with ⟨⟩
      rcases List.mem_cons.mp hx with hx | hx
      · cases hx
        exact ⟨by decide, by decide⟩
      · simp at hx
    rcases hqueries negativeByte _ rfl _ hgiven with
      ⟨env, b, henv, hb, hinputs, hdefinitions⟩
    refine ⟨env, b, henv, hb, hinputs, hdefinitions, ?_⟩
    have hvalue : negativeByte.evaluate [("x", .word 200 8)] =
        .ok [("x", .word 200 8), ("wanted", .bool false), ("wide", .word 0xffc8 16)] := rfl
    rw [hvalue] at henv
    exact (Except.ok.inj henv).symm
  · have hfits : Fits (Assoc.get? [("x", .bitVec 8)]) [("x", .word 200 8)] := by
      intro x s hx
      rcases List.mem_singleton.mp (Assoc.mem_of_get? hx) with ⟨⟩
      exact ⟨_, rfl, by decide, by decide⟩
    have hscope : Term.ValidScope (Assoc.get? [("x", .bitVec 8)]) :=
      validScope_of_valid (by decide)
    rcases hterms _ (.signExtend 8 (.var "x")) _ _ hscope rfl hfits.matches with
      ⟨v, hv, _, hin⟩
    exact ⟨v, hv, hin hfits⟩

end Exhaustive

end Solver
end BitEquiv

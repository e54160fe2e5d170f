import BitEquiv.Machine.Queries
import BitEquiv.Proofs.Machine.Terms
import BitEquiv.Proofs.Solver.Soundness

/-!
# Queries on a machine

Checking has no faults on any query. Values are found without faults once the query was
accepted, and the counter of the search has enough bits once the budget was compared.
-/

namespace BitEquiv
namespace Machine

open Logic Run

/-!
## Checks
-/

theorem scopeDefinitions_eq {known : Assoc BvSort} (hknown : Term.ValidScope known.get?)
    (ds : List Definition) : scopeDefinitions known ds = of (Query.scopeDefinitions known ds) := by
  induction ds generalizing known with
  | nil => rfl
  | cons d ds ih =>
      rw [scopeDefinitions, Query.scopeDefinitions, sortOf_eq hknown]
      refine bind_of fun found hfound => ?_
      by_cases hsort : found = d.sort
      · have hset : Term.ValidScope (known.set d.name d.sort).get? := by
          rw [get?_set_eq_extend, ← hsort]
          exact validScope_extend hknown ((Term.hasSort_of_sortOf hfound).isValid hknown)
        simp only [hsort, ne_eq, not_true_eq_false, if_false, ih hset, of_bind, of_ite, of_throw]
      · simp only [hsort, ne_eq, not_false_eq_true, if_true]
        rfl

theorem checkAssertions_eq {known : Assoc BvSort} (hknown : Term.ValidScope known.get?)
    (ts : List Term) : checkAssertions known ts = of (Query.checkAssertions known ts) := by
  induction ts with
  | nil => rfl
  | cons t ts ih =>
      simp only [checkAssertions, Query.checkAssertions, sortOf_eq hknown, ih, of_bind, of_ite,
        of_throw]

theorem validate_eq (q : Query) : validate q = of q.validate := by
  refine bind_of fun known hinputs => ?_
  have hnone : Assoc.Distinct ([] : Assoc BvSort) := List.nodup_nil
  rcases Query.scopeInputs_eq_ok hnone hinputs with ⟨rfl, hvalid, _⟩
  have hinputs : Term.ValidScope (Assoc.get? q.inputs) := validScope_of_valid hvalid
  rw [List.nil_append, scopeDefinitions_eq hinputs]
  refine bind_of fun known hdefinitions => ?_
  rcases Query.scopeDefinitions_eq_ok hdefinitions with ⟨hafter, hsorted⟩
  have hknown : Term.ValidScope known.get? := by
    rw [hafter]
    exact hsorted.validScope hinputs
  rw [checkAssertions_eq hknown]
  exact bind_of fun _ _ => rfl

/-!
## Values
-/

theorem definedValues_eq {scope : Scope} {ds : List Definition} {env : Env}
    (hscope : Term.ValidScope scope) (hsorted : Sorted scope ds) (henv : Fits scope env) :
    definedValues env ds = of (Query.definedValues env ds) := by
  induction ds generalizing scope env with
  | nil => rfl
  | cons d ds ih =>
      rcases hsorted with ⟨_, hterm, hrest⟩
      rw [definedValues, Query.definedValues, eval_eq hscope henv hterm]
      refine bind_of fun v hv => ?_
      have hin := inSort_of_eval hscope henv hterm hv
      exact ih (validScope_extend hscope (hterm.isValid hscope)) hrest (fits_set henv hin)

theorem holds_eq {scope : Scope} {env : Env} (hscope : Term.ValidScope scope)
    (henv : Fits scope env) {ts : List Term} (hts : ∀ t ∈ ts, t.HasSort scope .bool) :
    holds env ts = of (Query.holds env ts) := by
  induction ts with
  | nil => rfl
  | cons t ts ih =>
      rcases List.forall_mem_cons.mp hts with ⟨ht, hts⟩
      rw [holds, Query.holds, eval_eq hscope henv ht]
      refine bind_of fun v _ => ?_
      cases v with
      | bool b =>
          cases b with
          | false => rfl
          | true => exact ih hts
      | word bits w => rfl

theorem satisfiedBy_eq {q : Query} (hq : q.WellFormed) {given : Env}
    (hgiven : q.GivenInSort given) : satisfiedBy q given = of (q.satisfiedBy given) := by
  have hinputs := Query.fits_inputValues hq.distinct hgiven
  unfold satisfiedBy Query.satisfiedBy
  rw [definedValues_eq hq.validScope_inputs hq.sorted hinputs]
  refine bind_of fun env henv => ?_
  have hfits : Fits q.scope env := by
    rcases hq.evaluate hgiven with ⟨env', henv', hfits⟩
    rw [Query.evaluate, henv] at henv'
    cases henv'
    exact hfits
  exact holds_eq hq.validScope hfits hq.assertions

/-!
## Search
-/

theorem Run.wrap_of {ε ε' α : Type} (f : ε → ε') (x : Except ε α) :
    (of x).wrap f = of (x.mapError f) := by
  cases x <;> rfl

theorem ofRaw_eq (s : BvSort) (n : Nat) : ofRaw s n = .ok (.ofRaw s n) := by
  cases s with
  | bool =>
      rw [ofRaw, Nat.and_one_is_mod]
      rfl
  | bitVec w => exact ofBits_eq n w

theorem assignment_eq {inputs : List (String × BvSort)}
    (hwidths : ∀ input ∈ inputs, input.2.width < 64) (counter : Nat) (env : Env) :
    assignment inputs counter env = .ok (Solver.Exhaustive.assignment inputs counter env) := by
  induction inputs generalizing counter env with
  | nil => rfl
  | cons input inputs ih =>
      rcases input with ⟨name, sort⟩
      rcases List.forall_mem_cons.mp hwidths with ⟨hwidth, hwidths⟩
      rw [assignment, shiftLeft_one hwidth]
      show sub (2 ^ sort.width) 1 >>= _ = _
      rw [sub_eq Nat.one_le_two_pow]
      show ofRaw sort (counter &&& (2 ^ sort.width - 1)) >>= _ = _
      rw [ofRaw_eq, Nat.and_two_pow_sub_one_eq_mod, shiftRight_eq hwidth]
      exact ih hwidths _ _

theorem width_le_inputBits {inputs : List (String × BvSort)} :
    ∀ input ∈ inputs, input.2.width ≤ Text.total (inputs.map (·.2.width)) := by
  induction inputs with
  | nil => simp
  | cons input inputs ih =>
      refine List.forall_mem_cons.mpr ⟨Nat.le_add_right _ _, ?_⟩
      intro other hother
      exact Nat.le_trans (ih other hother) (Nat.le_add_left _ _)

theorem search_eq {q : Query} (hq : q.WellFormed) (hwidths : ∀ input ∈ q.inputs, input.2.width < 64)
    (wanted : List (String × BvSort)) (expired : Nat → Bool) (total remaining counter : Nat) :
    search q wanted expired total remaining counter =
      of (Solver.Exhaustive.search q wanted expired total remaining counter) := by
  induction remaining generalizing counter with
  | zero => rfl
  | succ remaining ih =>
      have hbeat : rem counter Solver.Exhaustive.clockInterval =
          .ok (counter % Solver.Exhaustive.clockInterval) :=
        rem_eq (by decide)
      have hgiven := Solver.Exhaustive.givenInSort_assignment hq.distinct counter
      rw [search, Solver.Exhaustive.search, hbeat]
      simp only [op_ok, bind, Except.bind]
      split
      · rfl
      · rw [assignment_eq hwidths]
        simp only [op_ok]
        rw [satisfiedBy_eq hq hgiven, Run.wrap_of]
        cases q.satisfiedBy (Solver.Exhaustive.assignment q.inputs counter []) with
        | error e => rfl
        | ok b =>
            cases b with
            | true => rfl
            | false => exact ih (counter + 1)

/-- The search has no faults: it rejects a query, finds it beyond the budget, or counts with
64 bits. -/
theorem decide_eq (bits : Nat) (expired : Nat → Bool) (q : Query)
    (wanted : List (String × BvSort)) :
    decide bits expired q wanted = of (Solver.Exhaustive.decide bits expired q wanted) := by
  unfold decide Solver.Exhaustive.decide
  rw [validate_eq, Run.wrap_of]
  cases hvalid : q.validate with
  | error e => rfl
  | ok known =>
      simp only [Except.mapError, of_ok, bind, Except.bind]
      split
      · rfl
      · rename_i hbudget
        have hbits : q.inputBits < 64 := by
          have hmax : min bits Solver.Exhaustive.maxBits ≤ 32 := Nat.min_le_right _ _
          omega
        have hwidths : ∀ input ∈ q.inputs, input.2.width < 64 := by
          intro input hinput
          exact Nat.lt_of_le_of_lt (width_le_inputBits input hinput) hbits
        rw [shiftLeft_one hbits]
        exact search_eq (Query.wellFormed_of_validate hvalid) hwidths wanted expired _ _ _

end Machine
end BitEquiv

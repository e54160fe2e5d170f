import BitEquiv.Program.Miter
import BitEquiv.Proofs.Program.WellFormed

/-!
# Running a program

A well-formed program has a value for every name at any input values of the right
sorts. Its outputs are what those values say, whether the bindings are run one by one or
taken as definitions.
-/

namespace BitEquiv
namespace Program

open Logic

/-!
## Inputs
-/

theorem bindInputs_ok {given : Env} (env : Env) {inputs : Assoc BvSort}
    (hdistinct : Assoc.Distinct inputs) (hgiven : Matches inputs.get? given) :
    ∃ env', bindInputs given env inputs = .ok env' ∧
      ∀ x, env'.get? x = if (Assoc.get? inputs x).isSome then given.get? x else env.get? x := by
  induction inputs generalizing env with
  | nil => exact ⟨env, rfl, fun _ => rfl⟩
  | cons input inputs ih =>
      rcases input with ⟨name, sort⟩
      rcases Assoc.distinct_cons.mp hdistinct with ⟨hnew, hdistinct⟩
      have hnone := Assoc.get?_eq_none_iff.mpr hnew
      rcases hgiven name sort (by rw [Assoc.get?_cons, if_pos rfl]) with ⟨v, hv, hsort⟩
      have hrest : Matches (Assoc.get? inputs) given := by
        intro x s hx
        exact hgiven x s (Assoc.get?_cons_of_new hnone hx)
      rcases ih (env.set name v) hdistinct hrest with ⟨env', henv', hget⟩
      refine ⟨env', ?_, ?_⟩
      · unfold bindInputs
        rw [hv]
        simp only [hsort, if_true]
        exact henv'
      · intro x
        rw [hget, Assoc.get?_cons, Assoc.get?_set]
        by_cases hx : x = name
        · subst hx
          rw [hnone, if_pos rfl, if_pos rfl]
          simp [hv]
        · rw [if_neg hx, if_neg hx]

theorem matches_of_bindInputs {given env : Env} {inputs : Assoc BvSort}
    (hgiven : Matches inputs.get? given)
    (hget : ∀ x, env.get? x =
      if (Assoc.get? inputs x).isSome then given.get? x else Assoc.get? [] x) :
    Matches inputs.get? env := by
  intro x s hx
  rw [hget, hx]
  exact hgiven x s hx

/-!
## Values of all names
-/

def valuesAt (p : Program) (given : Env) : Except EvalError Env := do
  let env ← bindInputs given [] p.inputs
  Query.definedValues env p.definitions

def valueIn (env : Env) (b : Binding) : Value := (env.get? b.name).getD (.zero b.sort)

def outputsIn (p : Program) (env : Env) : List (String × Value) :=
  p.outputs.map fun b => (b.name, valueIn env b)

def scope (p : Program) : Scope := Scope.after (Assoc.get? p.inputs) p.definitions

section WellFormed

variable {p : Program} {given : Env}

theorem WellFormed.valuesAt (hp : p.WellFormed) (hgiven : Matches (Assoc.get? p.inputs) given) :
    ∃ env env', bindInputs given [] p.inputs = .ok env ∧
      Query.definedValues env p.definitions = .ok env' ∧ p.valuesAt given = .ok env' ∧
      Matches (Assoc.get? p.inputs) env ∧ Matches p.scope env' ∧
      ∀ x s, Assoc.get? p.inputs x = some s → env.get? x = given.get? x := by
  rcases bindInputs_ok [] hp.distinct hgiven with ⟨env, henv, hget⟩
  have hmatches := matches_of_bindInputs hgiven hget
  rcases hp.sorted.definedValues hmatches with ⟨env', henv', hmatches'⟩
  refine ⟨env, env', henv, henv', ?_, hmatches, hmatches', ?_⟩
  · unfold Program.valuesAt
    rw [henv]
    exact henv'
  · intro x s hx
    rw [hget, hx]
    rfl

theorem runBindings_ok {scope : Scope} {bs : List Binding} {env env' : Env}
    (hsorted : Sorted scope (bs.map Binding.definition))
    (h : Query.definedValues env (bs.map Binding.definition) = .ok env') :
    runBindings env bs =
      .ok ((bs.filter (·.isOutput)).map fun b => (b.name, valueIn env' b)) := by
  induction bs generalizing scope env with
  | nil => rfl
  | cons b bs ih =>
      rcases hsorted with ⟨_, _, hrest⟩
      rw [List.map_cons, Query.definedValues] at h
      rcases except_bind_eq_ok.mp h with ⟨v, hv, h⟩
      have hget : env'.get? b.name = some v := by
        have hothers := get?_definedValues h (hrest.ne_of_mem (extend_self _ _ _))
        rw [Assoc.get?_set, if_pos rfl] at hothers
        exact hothers
      have hvalue : valueIn env' b = v := by
        rw [valueIn, hget, Option.getD_some]
      have hv' : b.term.eval env = .ok v := hv
      have hbs := ih hrest h
      rw [runBindings, hv']
      show (runBindings (env.set b.name v) bs >>= _) = _
      rw [show runBindings (env.set b.name v) bs = _ from hbs]
      cases hb : b.isOutput with
      | false => simp [hb]
      | true => simp [hb, hvalue]

theorem WellFormed.evaluate_eq (hp : p.WellFormed) {env : Env} (h : p.valuesAt given = .ok env) :
    p.evaluate given = .ok (p.outputsIn env) := by
  rcases except_bind_eq_ok.mp h with ⟨start, hstart, henv⟩
  unfold Program.evaluate
  rw [hstart]
  exact runBindings_ok hp.sorted henv

theorem WellFormed.evaluate (hp : p.WellFormed)
    (hgiven : Matches (Assoc.get? p.inputs) given) : ∃ outs, p.evaluate given = .ok outs := by
  rcases hp.valuesAt hgiven with ⟨_, env, _, _, henv, _⟩
  exact ⟨p.outputsIn env, hp.evaluate_eq henv⟩

theorem definition_mem_of_output {b : Binding} (hb : b ∈ p.outputs) :
    b.definition ∈ p.definitions :=
  List.mem_map_of_mem (List.mem_filter.mp hb).1

theorem WellFormed.get?_output (hp : p.WellFormed) {env : Env} (henv : Matches p.scope env)
    {b : Binding} (hb : b ∈ p.outputs) :
    env.get? b.name = some (valueIn env b) ∧ (valueIn env b).sort = b.sort := by
  rcases henv b.name b.sort (after_of_mem hp.sorted (definition_mem_of_output hb)) with
    ⟨v, hv, hsort⟩
  unfold valueIn
  rw [hv]
  exact ⟨rfl, hsort⟩

end WellFormed

/-!
## Differing outputs
-/

def differing (right : List (String × Value)) (out : String × Value) : Option OutputDiff :=
  match right.lookup out.1 with
  | some w => if out.2 = w then none else some ⟨out.1, out.2, w⟩
  | none => none

theorem diffs_ok {right left : List (String × Value)}
    (h : ∀ out ∈ left, ∃ w, right.lookup out.1 = some w) :
    diffs right left = .ok (left.filterMap (differing right)) := by
  induction left with
  | nil => rfl
  | cons out left ih =>
      rcases out with ⟨name, v⟩
      rcases List.forall_mem_cons.mp h with ⟨⟨w, hw⟩, hrest⟩
      have hw' : right.lookup name = some w := hw
      unfold diffs
      rw [hw', ih hrest]
      by_cases hvw : v = w
      · simp [differing, hw', hvw]
      · simp [differing, hw', hvw]

end Program
end BitEquiv

import BitEquiv.Proofs.Logic.Query
import BitEquiv.Proofs.Logic.StandardEvaluation

/-!
# Accepted queries

The checks of queries accept exactly the well-formed ones. At input values in their sorts,
every name of such a query has a value in its sort and every assertion is a truth value.
-/

namespace BitEquiv
namespace Logic

theorem Sorted.hasSort_of_mem {scope : Scope} {ds : List Definition} (h : Sorted scope ds)
    {d : Definition} (hd : d ∈ ds) : d.term.HasSort (scope.after ds) d.sort := by
  induction ds generalizing scope with
  | nil => cases hd
  | cons d' ds ih =>
      rcases h with ⟨hnew, hterm, hrest⟩
      rcases List.mem_cons.mp hd with rfl | hd
      · exact hterm.mono fun x s hx => after_of_scope hrest (subset_extend hnew hx)
      · exact ih hrest hd

namespace Query

/-!
## What the checks accept
-/

theorem scopeInputs_eq_ok {known inputs known' : Assoc BvSort} (hknown : Assoc.Distinct known)
    (h : scopeInputs known inputs = .ok known') :
    known' = known ++ inputs ∧ (∀ input ∈ inputs, input.2.isValid = true) ∧
      Assoc.Distinct (known ++ inputs) := by
  induction inputs generalizing known with
  | nil =>
      cases h
      rw [List.append_nil]
      exact ⟨rfl, by simp, hknown⟩
  | cons input inputs ih =>
      rcases input with ⟨name, sort⟩
      unfold scopeInputs at h
      split at h
      · cases h
      · rename_i hvalid
        split at h
        · cases h
        · rename_i hhas
          have hnew : known.get? name = none :=
            Assoc.has_eq_false_iff.mp (Bool.eq_false_iff.mpr hhas)
          rw [Assoc.set_of_new hnew] at h
          rcases ih (Assoc.distinct_append_singleton hknown hnew) h with
            ⟨hresult, hinputs, hdistinct⟩
          rw [← List.append_cons] at hresult hdistinct
          refine ⟨hresult, ?_, hdistinct⟩
          exact List.forall_mem_cons.mpr ⟨by simpa using hvalid, hinputs⟩

theorem scopeDefinitions_eq_ok {known known' : Assoc BvSort} {ds : List Definition}
    (h : scopeDefinitions known ds = .ok known') :
    known'.get? = Scope.after known.get? ds ∧ Sorted known.get? ds := by
  induction ds generalizing known with
  | nil =>
      cases h
      exact ⟨rfl, trivial⟩
  | cons d ds ih =>
      unfold scopeDefinitions at h
      rcases except_bind_eq_ok.mp h with ⟨found, hfound, h⟩
      dsimp only at h
      by_cases hsort : found = d.sort
      · rw [if_neg (not_not_intro hsort)] at h
        cases hhas : known.has d.name with
        | true =>
            rw [hhas, if_pos rfl] at h
            cases h
        | false =>
            rw [hhas, if_neg Bool.false_ne_true] at h
            rcases ih h with ⟨hafter, hsorted⟩
            rw [get?_set_eq_extend] at hafter hsorted
            refine ⟨hafter, Assoc.has_eq_false_iff.mp hhas, ?_, hsorted⟩
            rw [← hsort]
            exact Term.hasSort_of_sortOf hfound
      · rw [if_pos hsort] at h
        cases h

theorem checkAssertions_eq_ok {known : Assoc BvSort} {ts : List Term} {u : Unit}
    (h : checkAssertions known ts = .ok u) : ∀ t ∈ ts, t.HasSort known.get? .bool := by
  induction ts with
  | nil => simp
  | cons t ts ih =>
      unfold checkAssertions at h
      rcases except_bind_eq_ok.mp h with ⟨found, hfound, h⟩
      split at h
      · cases h
      · rename_i hsort
        rw [ne_eq, Decidable.not_not] at hsort
        rw [hsort] at hfound
        exact List.forall_mem_cons.mpr ⟨Term.hasSort_of_sortOf hfound, ih h⟩

def names (q : Query) : List String := q.inputs.map (·.1) ++ q.definitions.map (·.name)

def scope (q : Query) : Scope := Scope.after (Assoc.get? q.inputs) q.definitions

/-- Inputs are distinct and of valid sorts, each definition has its sort over the names
before it, and assertions are truth values. -/
structure WellFormed (q : Query) : Prop where
  valid : ∀ input ∈ q.inputs, input.2.isValid = true
  distinct : Assoc.Distinct q.inputs
  sorted : Sorted (Assoc.get? q.inputs) q.definitions
  assertions : ∀ t ∈ q.assertions, t.HasSort q.scope .bool

theorem validate_eq_ok {q : Query} {known : Assoc BvSort} (h : q.validate = .ok known) :
    q.WellFormed ∧ known.get? = q.scope := by
  unfold validate at h
  rcases except_bind_eq_ok.mp h with ⟨declared, hdeclared, h⟩
  rcases except_bind_eq_ok.mp h with ⟨defined, hdefined, h⟩
  rcases except_bind_eq_ok.mp h with ⟨_, hassertions, hknown⟩
  cases hknown
  have hempty : Assoc.Distinct ([] : Assoc BvSort) := List.nodup_nil
  rcases scopeInputs_eq_ok hempty hdeclared with ⟨rfl, hvalid, hdistinct⟩
  rcases scopeDefinitions_eq_ok hdefined with ⟨hafter, hsorted⟩
  have hterms := checkAssertions_eq_ok hassertions
  rw [hafter] at hterms
  exact ⟨⟨hvalid, hdistinct, hsorted, hterms⟩, hafter⟩

theorem wellFormed_of_validate {q : Query} {known : Assoc BvSort} (h : q.validate = .ok known) :
    q.WellFormed :=
  (validate_eq_ok h).1

/-- The sorts that the checks find are those of all names. -/
theorem get?_of_validate {q : Query} {known : Assoc BvSort} (h : q.validate = .ok known) :
    known.get? = q.scope :=
  (validate_eq_ok h).2

theorem validate_eq_ok_iff {q : Query} : (∃ known, q.validate = .ok known) ↔ q.WellFormed := by
  constructor
  · rintro ⟨known, h⟩
    exact wellFormed_of_validate h
  · intro h
    exact validate_ok h.valid h.distinct h.sorted h.assertions

theorem WellFormed.validScope_inputs {q : Query} (h : q.WellFormed) :
    Term.ValidScope (Assoc.get? q.inputs) :=
  validScope_of_valid h.valid

theorem WellFormed.width_le {q : Query} (h : q.WellFormed) :
    ∀ input ∈ q.inputs, input.2.width ≤ maxWidth :=
  fun input hinput => Term.width_le_of_isValid (h.valid input hinput)

theorem WellFormed.validScope {q : Query} (h : q.WellFormed) : Term.ValidScope q.scope :=
  h.sorted.validScope h.validScope_inputs

theorem mem_names_of_scope {q : Query} {x : String} {s : BvSort} (h : q.scope x = some s) :
    x ∈ q.names := by
  rcases after_eq_some h with ⟨d, hd, rfl, _⟩ | hx
  · exact List.mem_append_right _ (List.mem_map_of_mem hd)
  · exact List.mem_append_left _ (List.mem_map_of_mem (Assoc.mem_of_get? hx))

end Query

/-!
## Values in their sorts
-/

theorem inSort_zero (s : BvSort) : (Value.zero s).InSort s := by
  cases s with
  | bool => exact ⟨rfl, rfl⟩
  | bitVec w => exact ⟨rfl, by simp [Value.zero, Value.canonical, Value.ofBits, Word.truncate]⟩

theorem fits_set {scope : Scope} {env : Env} (henv : Fits scope env) {name : String}
    {sort : BvSort} {v : Value} (hv : v.InSort sort) :
    Fits (scope.extend name sort) (env.set name v) := by
  intro x s hx
  rw [Assoc.get?_set]
  by_cases hname : x = name
  · rw [hname, extend_self] at hx
    cases hx
    exact ⟨v, if_pos hname, hv⟩
  · rw [extend_of_ne _ _ hname] at hx
    rw [if_neg hname]
    exact henv x s hx

theorem Term.HasSort.eval_inSort {scope : Scope} {env : Env} (hscope : ValidScope scope)
    (henv : Fits scope env) {t : Term} {s : BvSort} (h : HasSort scope t s) :
    ∃ v, t.eval env = .ok v ∧ v.InSort s := by
  rcases h.standard hscope henv with ⟨m, _, rfl, hv⟩
  exact ⟨m.value, hv, Meaning.inSort_value (h.isValid hscope)⟩

theorem Sorted.definedValues_fits {scope : Scope} {ds : List Definition} {env : Env}
    (hscope : Term.ValidScope scope) (h : Sorted scope ds) (henv : Fits scope env) :
    ∃ env', Query.definedValues env ds = .ok env' ∧ Fits (scope.after ds) env' := by
  induction ds generalizing scope env with
  | nil => exact ⟨env, rfl, henv⟩
  | cons d ds ih =>
      rcases h with ⟨_, hterm, hrest⟩
      rcases hterm.eval_inSort hscope henv with ⟨v, hv, hin⟩
      have hextended : Term.ValidScope (scope.extend d.name d.sort) :=
        validScope_extend hscope (hterm.isValid hscope)
      rcases ih hextended hrest (fits_set henv hin) with ⟨env', henv', hfits⟩
      refine ⟨env', ?_, hfits⟩
      unfold Query.definedValues
      rw [hv]
      exact henv'

theorem holds_denoteAll {env : Env} {ts : List Term} (h : ∀ t ∈ ts, Term.Standard env t .bool)
    {ps : List Bool} (hps : Term.denoteAll env.interpretation ts = some ps) :
    Query.holds env ts = .ok (ps.all id) := by
  induction ts generalizing ps with
  | nil =>
      cases hps
      rfl
  | cons t ts ih =>
      rcases List.forall_mem_cons.mp h with ⟨ht, hts⟩
      rcases ht.bool with ⟨p, hp, hv⟩
      rcases Term.evalAll_denoteAll "assert" hts with ⟨qs, hqs, _⟩
      simp only [Term.denoteAll, hp, hqs, Meaning.asBool, bind, Option.bind_some, pure,
        Option.some.injEq] at hps
      subst hps
      have hrest := ih hts hqs
      unfold Query.holds
      rw [hv]
      cases p with
      | false => rfl
      | true => exact hrest

theorem holds_ok {scope : Scope} {env : Env} (henv : Matches scope env) {ts : List Term}
    (h : ∀ t ∈ ts, t.HasSort scope .bool) : ∃ b, Query.holds env ts = .ok b := by
  induction ts with
  | nil => exact ⟨true, rfl⟩
  | cons t ts ih =>
      rcases List.forall_mem_cons.mp h with ⟨ht, hts⟩
      rcases ht.eval henv with ⟨v, hv, hsort⟩
      rcases sort_eq_bool hsort with ⟨b, rfl⟩
      unfold Query.holds
      rw [hv]
      cases b with
      | false => exact ⟨false, rfl⟩
      | true => exact ih hts

namespace Query

section Values

variable {q : Query} {given : Env}

def GivenInSort (q : Query) (given : Env) : Prop :=
  ∀ x s, Assoc.get? q.inputs x = some s → ∀ v, given.get? x = some v → v.InSort s

theorem givenInSort_of_fits (hgiven : Fits (Assoc.get? q.inputs) given) : q.GivenInSort given := by
  intro x s hx v hv
  rcases hgiven x s hx with ⟨v', hv', hin⟩
  rw [hv] at hv'
  cases hv'
  exact hin

theorem fits_inputValues (hdistinct : Assoc.Distinct q.inputs) (hgiven : q.GivenInSort given) :
    Fits (Assoc.get? q.inputs) (inputValues given [] q.inputs) := by
  intro x s hx
  rw [get?_inputValues hdistinct, hx]
  refine ⟨_, rfl, ?_⟩
  cases hv : given.get? x with
  | none => exact inSort_zero s
  | some v => exact hgiven x s hx v hv

theorem WellFormed.evaluate (h : q.WellFormed) (hgiven : q.GivenInSort given) :
    ∃ env, q.evaluate given = .ok env ∧ Fits q.scope env :=
  h.sorted.definedValues_fits h.validScope_inputs (fits_inputValues h.distinct hgiven)

theorem WellFormed.get?_evaluate (h : q.WellFormed) {env : Env} (henv : q.evaluate given = .ok env)
    {x : String} {s : BvSort} (hx : Assoc.get? q.inputs x = some s) {v : Value}
    (hv : given.get? x = some v) : env.get? x = some v := by
  rw [get?_definedValues henv (h.sorted.ne_of_mem hx), get?_inputValues h.distinct, hx, hv]
  rfl

theorem WellFormed.satisfiedBy (h : q.WellFormed) (hgiven : q.GivenInSort given) :
    ∃ b, q.satisfiedBy given = .ok b := by
  rcases h.evaluate hgiven with ⟨env, henv, hfits⟩
  unfold Query.satisfiedBy
  rw [henv]
  exact holds_ok hfits.matches h.assertions

theorem WellFormed.scope_input (h : q.WellFormed) {x : String} {s : BvSort}
    (hx : Assoc.get? q.inputs x = some s) : q.scope x = some s :=
  after_of_scope h.sorted hx

theorem WellFormed.scope_definition (h : q.WellFormed) {d : Definition}
    (hd : d ∈ q.definitions) : q.scope d.name = some d.sort :=
  after_of_mem h.sorted hd

end Values

end Query

end Logic
end BitEquiv

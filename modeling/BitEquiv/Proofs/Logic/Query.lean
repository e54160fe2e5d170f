import BitEquiv.Proofs.Logic.Evaluation
import BitEquiv.Proofs.Text.Assoc

/-!
# Queries with sorted definitions

Each definition of a query is a term over the names before it. A sequence that is
sorted over a scope passes the checks of queries, and it has values of its sorts in
every assignment that matches the scope. Renaming commutes with taking those values.
-/

namespace BitEquiv
namespace Logic

/-!
## Scopes
-/

def Scope.extend (scope : Scope) (name : String) (sort : BvSort) : Scope :=
  fun x => if x = name then some sort else scope x

def Scope.after (scope : Scope) : List Definition → Scope
  | [] => scope
  | d :: rest => (scope.extend d.name d.sort).after rest

/-- Every definition has its sort over the names before it and is itself new. -/
def Sorted : Scope → List Definition → Prop
  | _, [] => True
  | scope, d :: rest =>
      scope d.name = none ∧ d.term.HasSort scope d.sort ∧
        Sorted (scope.extend d.name d.sort) rest

theorem sorted_cons {scope : Scope} {d : Definition} {ds : List Definition} :
    Sorted scope (d :: ds) ↔ scope d.name = none ∧ d.term.HasSort scope d.sort ∧
      Sorted (scope.extend d.name d.sort) ds :=
  Iff.rfl

theorem get?_set_eq_extend (known : Assoc BvSort) (name : String) (sort : BvSort) :
    (known.set name sort).get? = Scope.extend known.get? name sort := by
  funext x
  exact Assoc.get?_set known name sort x

theorem extend_self (scope : Scope) (name : String) (sort : BvSort) :
    scope.extend name sort name = some sort :=
  if_pos rfl

theorem extend_of_ne (scope : Scope) {name x : String} (sort : BvSort) (h : x ≠ name) :
    scope.extend name sort x = scope x :=
  if_neg h

theorem extend_eq_some {scope : Scope} {name x : String} {sort s : BvSort}
    (h : scope.extend name sort x = some s) : (x = name ∧ sort = s) ∨ scope x = some s := by
  unfold Scope.extend at h
  split at h
  · rename_i hx
    exact Or.inl ⟨hx, Option.some.inj h⟩
  · exact Or.inr h

theorem extend_eq_none {scope : Scope} {name x : String} {sort : BvSort} :
    scope.extend name sort x = none ↔ x ≠ name ∧ scope x = none := by
  unfold Scope.extend
  split <;> rename_i hx <;> simp [hx]

theorem subset_extend {scope : Scope} {name : String} {sort : BvSort} (hnew : scope name = none)
    {x : String} {s : BvSort} (h : scope x = some s) : scope.extend name sort x = some s := by
  have hne : x ≠ name := by
    rintro rfl
    rw [hnew] at h
    cases h
  rw [extend_of_ne scope sort hne]
  exact h

theorem extend_mono {scope scope' : Scope} (hsub : ∀ x s, scope x = some s → scope' x = some s)
    (name : String) (sort : BvSort) :
    ∀ x s, scope.extend name sort x = some s → scope'.extend name sort x = some s := by
  intro x s h
  unfold Scope.extend at h ⊢
  split at h
  · rename_i hx
    rw [if_pos hx]
    exact h
  · rename_i hx
    rw [if_neg hx]
    exact hsub x s h

theorem validScope_of_valid {inputs : Assoc BvSort}
    (h : ∀ input ∈ inputs, input.2.isValid = true) : Term.ValidScope inputs.get? :=
  fun x s hx => h (x, s) (Assoc.mem_of_get? hx)

theorem validScope_extend {scope : Scope} {name : String} {sort : BvSort}
    (hscope : Term.ValidScope scope) (hsort : sort.isValid = true) :
    Term.ValidScope (scope.extend name sort) := by
  intro x s h
  rcases extend_eq_some h with ⟨_, rfl⟩ | h
  · exact hsort
  · exact hscope x s h

theorem get?_append_eq_extend {known : Assoc BvSort} {name : String}
    (hnew : known.get? name = none) (sort : BvSort) :
    Assoc.get? (known ++ [(name, sort)]) = Scope.extend known.get? name sort := by
  funext x
  rw [Assoc.get?_append, Assoc.get?_cons]
  unfold Scope.extend
  by_cases hx : x = name
  · rw [hx, hnew, if_pos rfl, if_pos rfl]
    rfl
  · rw [if_neg hx, if_neg hx, Assoc.get?_nil, Option.or_none]

theorem extend_comm (scope : Scope) {x y : String} (hxy : x ≠ y) (s t : BvSort) :
    (scope.extend x s).extend y t = (scope.extend y t).extend x s := by
  funext z
  unfold Scope.extend
  by_cases hzx : z = x
  · rw [hzx, if_neg hxy, if_pos rfl, if_pos rfl]
  · rw [if_neg hzx, if_neg hzx]

theorem after_extend {scope : Scope} {ds : List Definition} {name : String} {sort : BvSort}
    (hds : ∀ d ∈ ds, d.name ≠ name) :
    (scope.extend name sort).after ds = (scope.after ds).extend name sort := by
  induction ds generalizing scope with
  | nil => rfl
  | cons d ds ih =>
      rcases List.forall_mem_cons.mp hds with ⟨hd, hds⟩
      unfold Scope.after
      rw [extend_comm scope hd.symm, ih hds]

theorem after_append (scope : Scope) (ds ds' : List Definition) :
    scope.after (ds ++ ds') = (scope.after ds).after ds' := by
  induction ds generalizing scope with
  | nil => rfl
  | cons d ds ih => exact ih (scope.extend d.name d.sort)

theorem sorted_append {scope : Scope} {ds ds' : List Definition} :
    Sorted scope (ds ++ ds') ↔ Sorted scope ds ∧ Sorted (scope.after ds) ds' := by
  induction ds generalizing scope with
  | nil => exact (iff_of_eq (true_and _)).symm
  | cons d ds ih =>
      rw [List.cons_append, sorted_cons, sorted_cons, ih, and_assoc, and_assoc]
      rfl

section Sorted

variable {scope scope' : Scope} {ds : List Definition}

theorem Sorted.fresh (h : Sorted scope ds) : ∀ d ∈ ds, scope d.name = none := by
  induction ds generalizing scope with
  | nil => simp
  | cons d ds ih =>
      rcases h with ⟨hnew, _, hrest⟩
      refine List.forall_mem_cons.mpr ⟨hnew, ?_⟩
      intro d' hd'
      exact (extend_eq_none.mp (ih hrest d' hd')).2

theorem Sorted.ne_of_mem (h : Sorted scope ds) {x : String} {s : BvSort} (hx : scope x = some s) :
    ∀ d ∈ ds, d.name ≠ x := by
  intro d hd heq
  have hnone := h.fresh d hd
  rw [heq, hx] at hnone
  cases hnone

theorem Sorted.nodup (h : Sorted scope ds) : (ds.map (·.name)).Nodup := by
  induction ds generalizing scope with
  | nil => exact List.nodup_nil
  | cons d ds ih =>
      rcases h with ⟨_, _, hrest⟩
      rw [List.map_cons, List.nodup_cons]
      refine ⟨?_, ih hrest⟩
      intro hmem
      rcases List.mem_map.mp hmem with ⟨d', hd', heq⟩
      exact hrest.ne_of_mem (extend_self scope d.name d.sort) d' hd' heq

/-- No name is declared twice by distinct inputs and definitions over them. -/
theorem Sorted.nodup_names {inputs : Assoc BvSort} (hdistinct : Assoc.Distinct inputs)
    (h : Sorted inputs.get? ds) : (inputs.map (·.1) ++ ds.map (·.name)).Nodup := by
  rw [List.nodup_append]
  refine ⟨hdistinct, h.nodup, ?_⟩
  intro x hx y hy heq
  rcases List.mem_map.mp hx with ⟨input, hinput, rfl⟩
  rcases List.mem_map.mp hy with ⟨d, hd, rfl⟩
  exact Assoc.get?_eq_none_iff.mp (h.fresh d hd) input hinput heq

theorem after_of_scope (h : Sorted scope ds) {x : String} {s : BvSort} (hx : scope x = some s) :
    scope.after ds x = some s := by
  induction ds generalizing scope with
  | nil => exact hx
  | cons d ds ih =>
      rcases h with ⟨hnew, _, hrest⟩
      exact ih hrest (subset_extend hnew hx)

theorem after_of_mem (h : Sorted scope ds) {d : Definition} (hd : d ∈ ds) :
    scope.after ds d.name = some d.sort := by
  induction ds generalizing scope with
  | nil => cases hd
  | cons d' ds ih =>
      rcases h with ⟨_, _, hrest⟩
      rcases List.mem_cons.mp hd with rfl | hd
      · exact after_of_scope hrest (extend_self scope d.name d.sort)
      · exact ih hrest hd

theorem after_eq_some {x : String} {s : BvSort} (h : scope.after ds x = some s) :
    (∃ d ∈ ds, d.name = x ∧ d.sort = s) ∨ scope x = some s := by
  induction ds generalizing scope with
  | nil => exact Or.inr h
  | cons d ds ih =>
      rcases ih h with ⟨d', hd', hname, hsort⟩ | h
      · exact Or.inl ⟨d', List.mem_cons_of_mem d hd', hname, hsort⟩
      · rcases extend_eq_some h with ⟨hx, hs⟩ | h
        · exact Or.inl ⟨d, List.mem_cons_self, hx.symm, hs⟩
        · exact Or.inr h

theorem after_eq_none_iff (h : Sorted scope ds) {x : String} :
    scope.after ds x = none ↔ scope x = none ∧ ∀ d ∈ ds, d.name ≠ x := by
  constructor
  · intro hx
    constructor
    · cases hscope : scope x with
      | none => rfl
      | some s =>
          rw [after_of_scope h hscope] at hx
          cases hx
    · rintro d hd rfl
      rw [after_of_mem h hd] at hx
      cases hx
  · rintro ⟨hx, hds⟩
    cases hafter : scope.after ds x with
    | none => rfl
    | some s =>
        rcases after_eq_some hafter with ⟨d, hd, hname, _⟩ | hsome
        · exact absurd hname (hds d hd)
        · rw [hx] at hsome
          cases hsome

/-- Definitions stay sorted over a larger scope that has none of their names. -/
theorem Sorted.mono (hsub : ∀ x s, scope x = some s → scope' x = some s)
    (hfresh : ∀ d ∈ ds, scope' d.name = none) (h : Sorted scope ds) : Sorted scope' ds := by
  induction ds generalizing scope scope' with
  | nil => trivial
  | cons d ds ih =>
      rcases h with ⟨_, hterm, hrest⟩
      rcases List.forall_mem_cons.mp hfresh with ⟨hnew, hfresh⟩
      refine ⟨hnew, hterm.mono hsub, ih (extend_mono hsub d.name d.sort) ?_ hrest⟩
      intro d' hd'
      rw [extend_of_ne _ _ (hrest.ne_of_mem (extend_self scope d.name d.sort) d' hd')]
      exact hfresh d' hd'

theorem Sorted.validScope (hscope : Term.ValidScope scope) (h : Sorted scope ds) :
    Term.ValidScope (scope.after ds) := by
  induction ds generalizing scope with
  | nil => exact hscope
  | cons d ds ih =>
      rcases h with ⟨_, hterm, hrest⟩
      exact ih (validScope_extend hscope (hterm.isValid hscope)) hrest

end Sorted

/-!
## The checks of queries
-/

theorem scopeInputs_ok {known inputs : Assoc BvSort}
    (hvalid : ∀ input ∈ inputs, input.2.isValid = true)
    (hdistinct : Assoc.Distinct (known ++ inputs)) :
    Query.scopeInputs known inputs = .ok (known ++ inputs) := by
  induction inputs generalizing known with
  | nil => rw [List.append_nil, Query.scopeInputs]
  | cons input inputs ih =>
      rcases List.forall_mem_cons.mp hvalid with ⟨hinput, hvalid⟩
      have hnew := Assoc.get?_eq_none_of_distinct hdistinct
      have hhas := Assoc.has_eq_false_iff.mpr hnew
      rw [List.append_cons] at hdistinct ⊢
      unfold Query.scopeInputs
      simp only [hinput, hhas, Bool.not_true, Bool.false_eq_true, if_false]
      rw [Assoc.set_of_new hnew]
      exact ih hvalid hdistinct

theorem scopeDefinitions_ok {known : Assoc BvSort} {ds : List Definition}
    (h : Sorted known.get? ds) :
    ∃ known', Query.scopeDefinitions known ds = .ok known' ∧
      known'.get? = Scope.after known.get? ds := by
  induction ds generalizing known with
  | nil => exact ⟨known, rfl, rfl⟩
  | cons d ds ih =>
      rcases h with ⟨hnew, hterm, hrest⟩
      rw [← get?_set_eq_extend] at hrest
      rcases ih hrest with ⟨known', hknown', hget⟩
      refine ⟨known', ?_, ?_⟩
      · have hhas := Assoc.has_eq_false_iff.mpr hnew
        unfold Query.scopeDefinitions
        rw [Term.sortOf_of_hasSort hterm]
        simpa [hhas] using hknown'
      · rw [hget, get?_set_eq_extend]
        rfl

theorem checkAssertions_ok {known : Assoc BvSort} {ts : List Term}
    (h : ∀ t ∈ ts, t.HasSort known.get? .bool) : Query.checkAssertions known ts = .ok () := by
  induction ts with
  | nil => rfl
  | cons t ts ih =>
      rcases List.forall_mem_cons.mp h with ⟨ht, hts⟩
      unfold Query.checkAssertions
      rw [Term.sortOf_of_hasSort ht]
      exact ih hts

/-- A query is accepted when its inputs are distinct and valid, its definitions are sorted
over them, and its assertions are truth values over both. -/
theorem validate_ok {q : Query} (hvalid : ∀ input ∈ q.inputs, input.2.isValid = true)
    (hdistinct : Assoc.Distinct q.inputs) (hsorted : Sorted (Assoc.get? q.inputs) q.definitions)
    (hassertions : ∀ t ∈ q.assertions,
      t.HasSort (Scope.after (Assoc.get? q.inputs) q.definitions) .bool) :
    ∃ known, q.validate = .ok known := by
  have hinputs : Query.scopeInputs [] q.inputs = .ok ([] ++ q.inputs) :=
    scopeInputs_ok hvalid hdistinct
  rcases scopeDefinitions_ok hsorted with ⟨known, hknown, hget⟩
  rw [← hget] at hassertions
  refine ⟨known, ?_⟩
  unfold Query.validate
  rw [hinputs, List.nil_append]
  show (Query.scopeDefinitions q.inputs q.definitions >>= _) = _
  rw [hknown]
  show (Query.checkAssertions known q.assertions >>= _) = _
  rw [checkAssertions_ok hassertions]
  rfl

/-!
## Values
-/

theorem get?_inputValues {given env : Env} {inputs : Assoc BvSort}
    (hdistinct : Assoc.Distinct inputs) (x : String) :
    (Query.inputValues given env inputs).get? x =
      match Assoc.get? inputs x with
      | some s => some ((given.get? x).getD (.zero s))
      | none => env.get? x := by
  induction inputs generalizing env with
  | nil => rfl
  | cons input inputs ih =>
      rcases input with ⟨name, sort⟩
      rcases Assoc.distinct_cons.mp hdistinct with ⟨hnew, hdistinct⟩
      unfold Query.inputValues
      rw [ih hdistinct, Assoc.get?_cons]
      by_cases hx : x = name
      · subst hx
        rw [Assoc.get?_eq_none_iff.mpr hnew, if_pos rfl]
        simp only [Assoc.get?_set, if_true]
      · rw [if_neg hx]
        simp only [Assoc.get?_set, if_neg hx]

theorem matches_set {scope : Scope} {env : Env} (henv : Matches scope env) (name : String)
    (v : Value) : Matches (scope.extend name v.sort) (env.set name v) := by
  intro x s hx
  rw [Assoc.get?_set]
  rcases extend_eq_some hx with ⟨rfl, rfl⟩ | hx'
  · exact ⟨v, if_pos rfl, rfl⟩
  · by_cases hxn : x = name
    · subst hxn
      rw [extend_self] at hx
      exact ⟨v, if_pos rfl, Option.some.inj hx⟩
    · rw [if_neg hxn]
      exact henv x s hx'

theorem Sorted.definedValues {scope : Scope} {ds : List Definition} {env : Env}
    (h : Sorted scope ds) (henv : Matches scope env) :
    ∃ env', Query.definedValues env ds = .ok env' ∧ Matches (scope.after ds) env' := by
  induction ds generalizing scope env with
  | nil => exact ⟨env, rfl, henv⟩
  | cons d ds ih =>
      rcases h with ⟨_, hterm, hrest⟩
      rcases hterm.eval henv with ⟨v, hv, hsort⟩
      have hset := matches_set henv d.name v
      rw [hsort] at hset
      rcases ih hrest hset with ⟨env', henv', hmatches⟩
      refine ⟨env', ?_, hmatches⟩
      unfold Query.definedValues
      rw [hv]
      exact henv'

theorem get?_definedValues {ds : List Definition} {env env' : Env}
    (h : Query.definedValues env ds = .ok env') {x : String} (hx : ∀ d ∈ ds, d.name ≠ x) :
    env'.get? x = env.get? x := by
  induction ds generalizing env with
  | nil =>
      cases h
      rfl
  | cons d ds ih =>
      rcases List.forall_mem_cons.mp hx with ⟨hdx, hx⟩
      unfold Query.definedValues at h
      rcases except_bind_eq_ok.mp h with ⟨v, _, h⟩
      rw [ih h hx, Assoc.get?_set, if_neg hdx.symm]

theorem definedValues_append {env : Env} {ds ds' : List Definition} :
    Query.definedValues env (ds ++ ds') =
      Query.definedValues env ds >>= fun env' => Query.definedValues env' ds' := by
  induction ds generalizing env with
  | nil => rfl
  | cons d ds ih =>
      rw [List.cons_append, Query.definedValues, Query.definedValues]
      cases d.term.eval env with
      | error e => rfl
      | ok v => exact ih

/-!
## Renaming
-/

def Definition.rename (f : String → String) (d : Definition) : Definition :=
  ⟨f d.name, d.sort, d.term.rename f⟩

section Renaming

variable {scope scope' : Scope} {f : String → String} {ds : List Definition}

theorem Sorted.rename (hf : Function.Injective f)
    (hscope : ∀ x s, scope x = some s → scope' (f x) = some s)
    (hfresh : ∀ d ∈ ds, scope' (f d.name) = none) (h : Sorted scope ds) :
    Sorted scope' (ds.map (Definition.rename f)) := by
  induction ds generalizing scope scope' with
  | nil => trivial
  | cons d ds ih =>
      rcases h with ⟨_, hterm, hrest⟩
      rcases List.forall_mem_cons.mp hfresh with ⟨hnew, hfresh⟩
      refine ⟨hnew, hterm.rename hscope, ih ?_ ?_ hrest⟩
      · intro x s hx
        rcases extend_eq_some hx with ⟨rfl, rfl⟩ | hx
        · exact extend_self _ _ _
        · exact subset_extend hnew (hscope x s hx)
      · intro d' hd'
        have hne := hrest.ne_of_mem (extend_self scope d.name d.sort) d' hd'
        exact extend_eq_none.mpr ⟨fun heq => hne (hf heq), hfresh d' hd'⟩

theorem carries_set {env env' : Env} (hf : Function.Injective f)
    (henv : Term.Carries scope f env env') (name : String) (sort : BvSort) (v : Value) :
    Term.Carries (scope.extend name sort) f (env.set name v) (env'.set (f name) v) := by
  intro x s hx
  rw [Assoc.get?_set, Assoc.get?_set]
  by_cases hxn : x = name
  · exact ⟨v, if_pos hxn, if_pos (congrArg f hxn)⟩
  · rw [extend_of_ne _ _ hxn] at hx
    rw [if_neg hxn, if_neg fun heq => hxn (hf heq)]
    exact henv x s hx

/-- Renamed definitions have the values of the old ones under the new names. -/
theorem Sorted.definedValues_rename {env env' env₁ : Env} (hf : Function.Injective f)
    (h : Sorted scope ds) (hcarries : Term.Carries scope f env env')
    (henv₁ : Query.definedValues env ds = .ok env₁) :
    ∃ env₁', Query.definedValues env' (ds.map (Definition.rename f)) = .ok env₁' ∧
      Term.Carries (scope.after ds) f env₁ env₁' := by
  induction ds generalizing scope env env' with
  | nil =>
      cases henv₁
      exact ⟨env', rfl, hcarries⟩
  | cons d ds ih =>
      rcases h with ⟨_, hterm, hrest⟩
      unfold Query.definedValues at henv₁
      rcases except_bind_eq_ok.mp henv₁ with ⟨v, hv, henv₁⟩
      rcases ih hrest (carries_set hf hcarries d.name d.sort v) henv₁ with
        ⟨env₁', henv₁', hcarries'⟩
      refine ⟨env₁', ?_, hcarries'⟩
      have hv' : (d.term.rename f).eval env' = .ok v := by
        rw [hterm.eval_rename hcarries, hv]
      show (d.term.rename f).eval env' >>= _ = _
      rw [hv']
      exact henv₁'

end Renaming

end Logic
end BitEquiv

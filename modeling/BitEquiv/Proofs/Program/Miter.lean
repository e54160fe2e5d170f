import BitEquiv.Proofs.Program.Interfaces

/-!
# The query for two programs

The bindings of both programs are definitions of one query over shared inputs. The
three kinds of names never clash, so each side runs as if it were alone, and the query
holds of exactly the inputs on which some output differs.
-/

namespace BitEquiv
namespace Program

open Logic

/-!
## Names of the query
-/

theorem inputSymbol_injective : Function.Injective inputSymbol := by
  intro x y h
  rw [← String.toList_inj] at h ⊢
  simpa [inputSymbol] using h

theorem bindingSymbol_injective {side x y : String}
    (h : bindingSymbol side x = bindingSymbol side y) : x = y := by
  rw [← String.toList_inj] at h ⊢
  simpa [bindingSymbol] using h

def Apart (side : String) : Prop := ∀ x y, inputSymbol x ≠ bindingSymbol side y

theorem apart_reference : Apart referenceSide := by
  intro x y h
  rw [← String.toList_inj] at h
  simp [inputSymbol, bindingSymbol, referenceSide] at h

theorem apart_candidate : Apart candidateSide := by
  intro x y h
  rw [← String.toList_inj] at h
  simp [inputSymbol, bindingSymbol, candidateSide] at h

theorem reference_ne_candidate (x y : String) :
    bindingSymbol referenceSide x ≠ bindingSymbol candidateSide y := by
  intro h
  rw [← String.toList_inj] at h
  simp [bindingSymbol, referenceSide, candidateSide] at h

section Symbols

variable {p : Program} {side : String}

theorem symbolOn_input {x : String} {s : BvSort} (h : Assoc.get? p.inputs x = some s) :
    p.symbolOn side x = inputSymbol x := by
  unfold symbolOn
  rw [if_pos]
  exact List.any_eq_true.mpr ⟨(x, s), Assoc.mem_of_get? h, by simp⟩

theorem symbolOn_binding {x : String} (h : Assoc.get? p.inputs x = none) :
    p.symbolOn side x = bindingSymbol side x := by
  unfold symbolOn
  rw [if_neg]
  rw [List.any_eq_true]
  rintro ⟨input, hinput, heq⟩
  exact Assoc.get?_eq_none_iff.mp h input hinput (by simpa using heq)

theorem symbolOn_cases (p : Program) (side x : String) :
    p.symbolOn side x = inputSymbol x ∨ p.symbolOn side x = bindingSymbol side x := by
  cases h : Assoc.get? p.inputs x with
  | none => exact Or.inr (symbolOn_binding h)
  | some s => exact Or.inl (symbolOn_input h)

theorem symbolOn_injective (hside : Apart side) : Function.Injective (p.symbolOn side) := by
  intro x y h
  rcases symbolOn_cases p side x with hx | hx <;> rcases symbolOn_cases p side y with hy | hy
  · rw [hx, hy] at h
    exact inputSymbol_injective h
  · rw [hx, hy] at h
    exact absurd h (hside x y)
  · rw [hx, hy] at h
    exact absurd h.symm (hside y x)
  · rw [hx, hy] at h
    exact bindingSymbol_injective h

theorem definitionsOn_eq (hp : p.WellFormed) (side : String) :
    p.definitionsOn side = p.definitions.map (Definition.rename (p.symbolOn side)) := by
  unfold definitionsOn definitions
  rw [List.map_map]
  apply List.map_congr_left
  intro b hb
  have hnew : Assoc.get? p.inputs b.name = none :=
    hp.sorted.fresh b.definition (List.mem_map_of_mem hb)
  show _ = Definition.mk (p.symbolOn side b.name) b.sort (b.term.rename (p.symbolOn side))
  rw [symbolOn_binding hnew]

theorem exists_name_of_definitionsOn {d : Definition} (hd : d ∈ p.definitionsOn side) :
    ∃ x, d.name = bindingSymbol side x := by
  rcases List.mem_map.mp hd with ⟨b, _, rfl⟩
  exact ⟨b.name, rfl⟩

end Symbols

/-!
## Shared inputs
-/

section SharedInputs

variable {p : Program}

theorem get?_sharedInputs (x : String) :
    Assoc.get? p.sharedInputs (inputSymbol x) = Assoc.get? p.inputs x :=
  Assoc.get?_map_names inputSymbol_injective p.inputs x

theorem exists_input_of_shared {input : String × BvSort} (h : input ∈ p.sharedInputs) :
    ∃ x s, (x, s) ∈ p.inputs ∧ input = (inputSymbol x, s) := by
  rcases List.mem_map.mp h with ⟨⟨x, s⟩, hmem, rfl⟩
  exact ⟨x, s, hmem, rfl⟩

theorem get?_sharedInputs_binding {side : String} (hside : Apart side) (x : String) :
    Assoc.get? p.sharedInputs (bindingSymbol side x) = none := by
  rw [Assoc.get?_eq_none_iff]
  intro input hinput heq
  rcases exists_input_of_shared hinput with ⟨y, s, _, rfl⟩
  exact hside y x heq

theorem WellFormed.distinct_sharedInputs (hp : p.WellFormed) :
    Assoc.Distinct p.sharedInputs := by
  have hnodup := List.Nodup.map inputSymbol_injective hp.distinct
  rw [List.map_map] at hnodup
  unfold Assoc.Distinct sharedInputs
  rw [List.map_map]
  exact hnodup

theorem WellFormed.valid_sharedInputs (hp : p.WellFormed) :
    ∀ input ∈ p.sharedInputs, input.2.isValid = true := by
  intro input hinput
  rcases exists_input_of_shared hinput with ⟨x, s, hmem, rfl⟩
  exact hp.valid (x, s) hmem

end SharedInputs

/-!
## The query is accepted
-/

section Accepted

variable {p q : Program} (hp : p.WellFormed) (hq : q.WellFormed) (hsame : SameInterface p q)

include hp hsame in
/-- Every output of the reference is one of the candidate, with the same sort. -/
theorem exists_output {b : Binding} (hb : b ∈ p.outputs) :
    ∃ b' ∈ q.outputs, b'.name = b.name ∧ b'.sort = b.sort := by
  have hmem : (b.name, b.sort) ∈ p.outputSorts := List.mem_map_of_mem hb
  have hget := Assoc.get?_of_mem hp.distinct_outputs hmem
  rw [hsame.outputs] at hget
  rcases List.mem_map.mp (Assoc.mem_of_get? hget) with ⟨b', hb', heq⟩
  rcases Prod.mk.inj heq with ⟨hname, hsort⟩
  exact ⟨b', hb', hname, hsort⟩

include hp hq hsame

theorem sorted_miter :
    Sorted (Assoc.get? p.sharedInputs)
      (p.definitionsOn referenceSide ++ q.definitionsOn candidateSide) := by
  rw [sorted_append]
  have hleft : Sorted (Assoc.get? p.sharedInputs) (p.definitionsOn referenceSide) := by
    rw [definitionsOn_eq hp]
    refine hp.sorted.rename (symbolOn_injective apart_reference) ?_ ?_
    · intro x s hx
      rw [symbolOn_input hx, get?_sharedInputs]
      exact hx
    · intro d hd
      rw [symbolOn_binding (hp.sorted.fresh d hd)]
      exact get?_sharedInputs_binding apart_reference d.name
  refine ⟨hleft, ?_⟩
  rw [definitionsOn_eq hq]
  refine hq.sorted.rename (symbolOn_injective apart_candidate) ?_ ?_
  · intro x s hx
    apply after_of_scope hleft
    rw [symbolOn_input hx, get?_sharedInputs, hsame.inputs]
    exact hx
  · intro d hd
    rw [symbolOn_binding (hq.sorted.fresh d hd), after_eq_none_iff hleft]
    refine ⟨get?_sharedInputs_binding apart_candidate d.name, ?_⟩
    intro d' hd' heq
    rcases exists_name_of_definitionsOn hd' with ⟨x, hx⟩
    rw [hx] at heq
    exact reference_ne_candidate x d.name heq

theorem hasSort_outputDiffers {b : Binding} (hb : b ∈ p.outputs) :
    (outputDiffers b.name).HasSort
      (Scope.after (Assoc.get? p.sharedInputs)
        (p.definitionsOn referenceSide ++ q.definitionsOn candidateSide)) .bool := by
  have hsorted := sorted_miter hp hq hsame
  rcases exists_output hp hsame hb with ⟨b', hb', hname, hsort⟩
  have hleft := after_of_mem hsorted
    (List.mem_append_left _ (List.mem_map_of_mem (List.mem_filter.mp hb).1))
  have hright := after_of_mem hsorted
    (List.mem_append_right _ (List.mem_map_of_mem (List.mem_filter.mp hb').1))
  simp only [hname, hsort] at hleft hright
  exact .distinct (.var hleft) (.var hright)

theorem validate_miter : ∃ known, (miter p q).validate = .ok known := by
  refine validate_ok hp.valid_sharedInputs hp.distinct_sharedInputs
    (sorted_miter hp hq hsame) ?_
  intro t ht
  rw [List.mem_singleton.mp ht]
  refine .or ?_
  intro a ha
  rcases List.mem_map.mp ha with ⟨b, hb, rfl⟩
  exact hasSort_outputDiffers hp hq hsame hb

end Accepted

/-!
## The query and the programs
-/

section Simulation

variable {p q : Program} {env : Env}

/-- A model gives every input that it binds a value of the input's sort. -/
def FitsInputs (p : Program) (env : Env) : Prop :=
  ∀ x s v, (x, s) ∈ p.inputs → env.get? (inputSymbol x) = some v → v.sort = s

def modelValue (model : Env) (x : String) (s : BvSort) : Value :=
  match model.get? (inputSymbol x) with
  | some v => if v.sort = s then v else .zero s
  | none => .zero s

theorem sort_modelValue (model : Env) (x : String) (s : BvSort) :
    (modelValue model x s).sort = s := by
  unfold modelValue
  split
  · split
    · assumption
    · exact sort_zero s
  · exact sort_zero s

theorem modelInputs_eq :
    p.modelInputs env = p.inputs.map fun input => (input.1, modelValue env input.1 input.2) :=
  rfl

theorem get?_modelInputs (x : String) :
    (p.modelInputs env).get? x = (Assoc.get? p.inputs x).map (modelValue env x) := by
  rw [modelInputs_eq]
  induction p.inputs with
  | nil => rfl
  | cons input inputs ih =>
      rcases input with ⟨name, sort⟩
      rw [List.map_cons, Assoc.get?_cons, Assoc.get?_cons, ih]
      by_cases hx : x = name
      · rw [if_pos hx, if_pos hx, hx]
        rfl
      · rw [if_neg hx, if_neg hx]

theorem matches_modelInputs : Matches (Assoc.get? p.inputs) (p.modelInputs env) := by
  intro x s hx
  rw [get?_modelInputs, hx]
  exact ⟨_, rfl, sort_modelValue env x s⟩

theorem sorts_modelInputs :
    (p.modelInputs env).map (fun input => (input.1, input.2.sort)) = p.inputs := by
  rw [modelInputs_eq, List.map_map]
  refine List.map_id'' ?_ p.inputs
  intro input
  exact Prod.ext rfl (sort_modelValue env input.1 input.2)

theorem carries_modelInputs (hp : p.WellFormed) (hfits : p.FitsInputs env) (side : String)
    {start : Env} (hstart : ∀ x s, Assoc.get? p.inputs x = some s →
      start.get? x = (p.modelInputs env).get? x) :
    Term.Carries (Assoc.get? p.inputs) (p.symbolOn side) start
      (Query.inputValues env [] p.sharedInputs) := by
  intro x s hx
  rw [hstart x s hx, symbolOn_input hx, get?_inputValues hp.distinct_sharedInputs,
    get?_sharedInputs, get?_modelInputs, hx]
  refine ⟨_, rfl, ?_⟩
  cases hv : env.get? (inputSymbol x) with
  | none => simp [modelValue, hv]
  | some v =>
      have hsort := hfits x s v (Assoc.mem_of_get? hx) hv
      simp [modelValue, hv, hsort]

/-- Each side of the query has the values of its program under its own names. -/
theorem evaluate_miter (hp : p.WellFormed) (hq : q.WellFormed) (hsame : SameInterface p q)
    (hfits : p.FitsInputs env) :
    ∃ left right all, p.valuesAt (p.modelInputs env) = .ok left ∧
      q.valuesAt (p.modelInputs env) = .ok right ∧ (miter p q).evaluate env = .ok all ∧
      Matches p.scope left ∧ Matches q.scope right ∧
      Term.Carries p.scope (p.symbolOn referenceSide) left all ∧
      Term.Carries q.scope (q.symbolOn candidateSide) right all := by
  have hgiven : Matches (Assoc.get? p.inputs) (p.modelInputs env) := matches_modelInputs
  rcases hp.valuesAt hgiven with ⟨start, left, _, hleft, hpvalues, _, hpmatches, hstart⟩
  rcases hq.valuesAt (hsame.matches_inputs hgiven) with
    ⟨start', right, _, hright, hqvalues, _, hqmatches, hstart'⟩
  rcases hp.sorted.definedValues_rename (symbolOn_injective apart_reference)
      (carries_modelInputs hp hfits referenceSide hstart) hleft with
    ⟨middle, hmiddle, hcarries⟩
  rw [← definitionsOn_eq hp] at hmiddle
  have hinputs : Term.Carries (Assoc.get? q.inputs) (q.symbolOn candidateSide) start' middle := by
    intro x s hx
    have hx' := hx
    rw [← hsame.inputs] at hx'
    rcases carries_modelInputs hp hfits referenceSide hstart x s hx' with ⟨v, hv, hv'⟩
    refine ⟨v, ?_, ?_⟩
    · rw [hstart' x s hx, ← hstart x s hx']
      exact hv
    · rw [symbolOn_input hx'] at hv'
      rw [symbolOn_input hx]
      rw [← hv']
      refine get?_definedValues hmiddle ?_
      intro d hd heq
      rcases exists_name_of_definitionsOn hd with ⟨y, hy⟩
      exact apart_reference x y (heq.symm.trans hy)
  rcases hq.sorted.definedValues_rename (symbolOn_injective apart_candidate) hinputs hright with
    ⟨all, hall, hcarries'⟩
  rw [← definitionsOn_eq hq] at hall
  refine ⟨left, right, all, hpvalues, hqvalues, ?_, hpmatches, hqmatches, ?_, hcarries'⟩
  · show Query.definedValues _ (p.definitionsOn referenceSide ++ q.definitionsOn candidateSide) = _
    rw [definedValues_append]
    show Query.definedValues (Query.inputValues env [] p.sharedInputs) _ >>= _ = _
    rw [hmiddle]
    exact hall
  · intro x s hx
    rcases hcarries x s hx with ⟨v, hv, hv'⟩
    refine ⟨v, hv, ?_⟩
    rw [← hv']
    refine get?_definedValues hall ?_
    intro d hd heq
    rcases exists_name_of_definitionsOn hd with ⟨y, hy⟩
    rcases symbolOn_cases p referenceSide x with hsymbol | hsymbol
    · exact apart_candidate x y (hsymbol.symm.trans (heq.symm.trans hy))
    · exact reference_ne_candidate x y (hsymbol.symm.trans (heq.symm.trans hy))

end Simulation

/-!
## Differing outputs and the assertion
-/

section Outputs

variable {p q : Program}

theorem distinct_outputsIn (hq : q.WellFormed) (env : Env) : Assoc.Distinct (q.outputsIn env) := by
  have hdistinct := hq.distinct_outputs
  unfold Assoc.Distinct outputSorts at hdistinct
  unfold Assoc.Distinct outputsIn
  rw [List.map_map] at hdistinct ⊢
  exact hdistinct

/-- The value of an output of the reference on the side of the candidate. -/
theorem lookup_outputsIn (hp : p.WellFormed) (hq : q.WellFormed) (hsame : SameInterface p q)
    {b : Binding} (hb : b ∈ p.outputs) (env : Env) :
    (q.outputsIn env).lookup b.name = some (valueIn env b) := by
  rcases exists_output hp hsame hb with ⟨b', hb', hname, hsort⟩
  have hmem : (b'.name, valueIn env b') ∈ q.outputsIn env := List.mem_map_of_mem hb'
  have hget := Assoc.get?_of_mem (distinct_outputsIn hq env) hmem
  unfold valueIn at hget ⊢
  rw [hname, hsort] at hget
  exact hget

def outputDiffs (p : Program) (left right : Env) : List OutputDiff :=
  p.outputs.filterMap fun b =>
    if valueIn left b = valueIn right b then none
    else some ⟨b.name, valueIn left b, valueIn right b⟩

theorem compareAt_eq (hp : p.WellFormed) (hq : q.WellFormed) (hsame : SameInterface p q)
    {given left right : Env} (hleft : p.valuesAt given = .ok left)
    (hright : q.valuesAt given = .ok right) :
    compareAt p q given = .ok (p.outputDiffs left right) := by
  have hlookup : ∀ out ∈ p.outputsIn left, ∃ w, (q.outputsIn right).lookup out.1 = some w := by
    intro out hout
    rcases List.mem_map.mp hout with ⟨b, hb, rfl⟩
    exact ⟨_, lookup_outputsIn hp hq hsame hb right⟩
  unfold compareAt
  rw [hp.evaluate_eq hleft, hq.evaluate_eq hright]
  show diffs (q.outputsIn right) (p.outputsIn left) = _
  rw [diffs_ok hlookup]
  unfold outputsIn outputDiffs
  rw [List.filterMap_map]
  refine congrArg Except.ok (List.filterMap_congr ?_)
  intro b hb
  have hvalue := lookup_outputsIn hp hq hsame hb right
  unfold outputsIn at hvalue
  simp [differing, hvalue]

theorem outputDiffs_isEmpty (left right : Env) :
    (p.outputDiffs left right).isEmpty =
      p.outputs.all fun b => valueIn left b == valueIn right b := by
  unfold outputDiffs
  induction p.outputs with
  | nil => rfl
  | cons b bs ih =>
      rw [List.filterMap_cons, List.all_cons]
      by_cases h : valueIn left b = valueIn right b
      · simp only [h, if_true, beq_self_eq_true, Bool.true_and]
        exact ih
      · simp [h]

theorem get?_symbolOn (hp : p.WellFormed) {side : String} {env all : Env}
    (hcarries : Term.Carries p.scope (p.symbolOn side) env all) {b : Binding}
    (hb : b ∈ p.outputs) : all.get? (bindingSymbol side b.name) = some (valueIn env b) := by
  have hmem := definition_mem_of_output hb
  rcases hcarries b.name b.sort (after_of_mem hp.sorted hmem) with ⟨v, hv, hv'⟩
  have hnew : Assoc.get? p.inputs b.name = none := hp.sorted.fresh b.definition hmem
  rw [symbolOn_binding hnew] at hv'
  have hvalue : valueIn env b = v := by
    rw [valueIn, hv, Option.getD_some]
  rw [hvalue]
  exact hv'

theorem evalAll_of_eval {env : Env} {op : String} {bs : List Binding} {f : Binding → Term}
    {g : Binding → Bool} (h : ∀ b ∈ bs, (f b).eval env = .ok (.bool (g b))) :
    Term.evalAll env op (bs.map f) = .ok (bs.map g) := by
  induction bs with
  | nil => rfl
  | cons b bs ih =>
      rcases List.forall_mem_cons.mp h with ⟨hb, hbs⟩
      rw [List.map_cons, Term.evalAll, hb, ih hbs]
      rfl

theorem satisfiedBy_miter (hp : p.WellFormed) (hq : q.WellFormed) (hsame : SameInterface p q)
    {env : Env} (hfits : p.FitsInputs env) :
    ∃ ds, compareAt p q (p.modelInputs env) = .ok ds ∧
      (miter p q).satisfiedBy env = .ok (!ds.isEmpty) := by
  rcases evaluate_miter hp hq hsame hfits with
    ⟨left, right, all, hleft, hright, hall, hpmatches, hqmatches, hpcarries, hqcarries⟩
  refine ⟨p.outputDiffs left right, compareAt_eq hp hq hsame hleft hright, ?_⟩
  have hdiffers : ∀ b ∈ p.outputs, (outputDiffers b.name).eval all =
      .ok (.bool (!(valueIn left b == valueIn right b))) := by
    intro b hb
    rcases exists_output hp hsame hb with ⟨b', hb', hname, hsort⟩
    have hb'value : valueIn right b' = valueIn right b := by
      rw [valueIn, valueIn, hname, hsort]
    have hv := get?_symbolOn hp hpcarries hb
    have hw := get?_symbolOn hq hqcarries hb'
    rw [hname, hb'value] at hw
    have hsorts : (valueIn left b).sort = (valueIn right b).sort := by
      rw [(hp.get?_output hpmatches hb).2, ← hb'value, (hq.get?_output hqmatches hb').2, hsort]
    unfold outputDiffers
    simp only [Term.eval, hv, hw]
    show ((valueIn left b).equal (valueIn right b) >>= _) = _
    rw [equal_of_sort_eq hsorts]
    rfl
  have hor : (Term.or (p.outputs.map fun b => outputDiffers b.name)).eval all =
      .ok (.bool (!(p.outputDiffs left right).isEmpty)) := by
    rw [Term.eval, evalAll_of_eval hdiffers, outputDiffs_isEmpty]
    show Except.ok (Value.bool _) = _
    congr 2
    rw [List.any_map, List.not_all_eq_any_not]
    rfl
  unfold Query.satisfiedBy
  rw [hall]
  show Query.holds all [Term.or (p.outputs.map fun b => outputDiffers b.name)] = _
  unfold Query.holds
  rw [hor]
  cases (p.outputDiffs left right).isEmpty with
  | false => rfl
  | true => rfl

end Outputs

/-!
## Loaded programs
-/

theorem nodup_names_miter {p q : Program} (hp : p.WellFormed) (hq : q.WellFormed)
    (hsame : SameInterface p q) :
    ((miter p q).inputs.map (·.1) ++ (miter p q).definitions.map (·.name)).Nodup :=
  (sorted_miter hp hq hsame).nodup_names hp.distinct_sharedInputs

/-- Two programs of one interface have a query. It is accepted, none of its names clash,
and it holds of a model exactly when the inputs of that model make an output differ. -/
theorem equivalenceQuery_correct {s t : List Char} {p q : Program} (hp : load s = .ok p)
    (hq : load t = .ok q) (hinterface : mismatch? p q = none) :
    ∃ query known, equivalenceQuery p q = .ok query ∧ query.validate = .ok known ∧
      (query.inputs.map (·.1) ++ query.definitions.map (·.name)).Nodup ∧
      ∀ env, p.FitsInputs env →
        ∃ b ds, query.satisfiedBy env = .ok b ∧
          compareAt p q (p.modelInputs env) = .ok ds ∧ (b = true ↔ ds ≠ []) := by
  have hpw := load_wellFormed hp
  have hqw := load_wellFormed hq
  have hsame := (mismatch?_eq_none_iff hpw).mp hinterface
  rcases validate_miter hpw hqw hsame with ⟨known, hknown⟩
  refine ⟨miter p q, known, ?_, hknown, nodup_names_miter hpw hqw hsame, ?_⟩
  · unfold equivalenceQuery
    rw [hinterface]
  · intro env hfits
    rcases satisfiedBy_miter hpw hqw hsame hfits with ⟨ds, hds, hsatisfied⟩
    refine ⟨!ds.isEmpty, ds, hsatisfied, hds, ?_⟩
    cases ds with
    | nil => simp
    | cons d ds => simp

def doubling : Program :=
  ⟨"doubling", [("x", .bitVec 2)], [⟨"r", .bitVec 2, .binary .add (.var "x") (.var "x"), true⟩]⟩

def shifting : Program :=
  ⟨"shifting", [("x", .bitVec 2)],
    [⟨"r", .bitVec 2, .binary .shl (.var "x") (.bvLit 1 2), true⟩]⟩

theorem load_doubling : load doubling.text.toList = .ok doubling := by
  refine load_text ⟨by decide, by decide, ⟨rfl, Term.hasSort_of_sortOf rfl, trivial⟩, by decide⟩
    ⟨by decide, by decide, ?_⟩
  have hx : Writable (.var "x") := .var (by decide) (by decide) (by decide)
  intro b hb
  rw [List.mem_singleton.mp hb]
  refine ⟨by decide, @Writable.app (.binary .add) [] [.var "x", .var "x"] _ (by decide) rfl
    (by decide) ?_⟩
  simp [hx]

theorem load_shifting : load shifting.text.toList = .ok shifting := by
  refine load_text ⟨by decide, by decide, ⟨rfl, Term.hasSort_of_sortOf rfl, trivial⟩, by decide⟩
    ⟨by decide, by decide, ?_⟩
  have hx : Writable (.var "x") := .var (by decide) (by decide) (by decide)
  have hone : Writable (.bvLit 1 2) := .bvLit (by decide) (by decide)
  intro b hb
  rw [List.mem_singleton.mp hb]
  refine ⟨by decide, @Writable.app (.binary .shl) [] [.var "x", .bvLit 1 2] _ (by decide) rfl
    (by decide) ?_⟩
  simp [hx, hone]

theorem equivalenceQuery_correct_doubling :
    load doubling.text.toList = .ok doubling ∧ load shifting.text.toList = .ok shifting ∧
      mismatch? doubling shifting = none ∧
      ∃ query known, equivalenceQuery doubling shifting = .ok query ∧
        query.validate = .ok known ∧
        (query.inputs.map (·.1) ++ query.definitions.map (·.name)).Nodup ∧
        ∀ env, doubling.FitsInputs env →
          ∃ b ds, query.satisfiedBy env = .ok b ∧
            compareAt doubling shifting (doubling.modelInputs env) = .ok ds ∧
            (b = true ↔ ds ≠ []) :=
  ⟨load_doubling, load_shifting, by decide,
    equivalenceQuery_correct load_doubling load_shifting (by decide)⟩

end Program
end BitEquiv

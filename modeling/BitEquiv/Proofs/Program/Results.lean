import BitEquiv.Proofs.Logic.Validation
import BitEquiv.Proofs.Program.Agreement
import BitEquiv.Proofs.Program.RoundTrip

/-!
# Results of loaded programs

What the checker accepts has no loose ends: names are declared once, sorts are ones that
words can have, and every binding has its sort over what stands before it. So a loaded
program has outputs exactly where all its inputs are given in their sorts. Elsewhere its
evaluation stops at the first input that is not.
-/

namespace BitEquiv
namespace Program

open Logic

/-!
## What is promised
-/

def sortsBefore (p : Program) (before : List Binding) : Assoc BvSort :=
  p.inputs ++ before.map fun b => (b.name, b.sort)

/-- Every name is declared once, sorts are those of truth values and of words, every term
has the declared sort over the names before it, and there is an output. -/
structure WellSorted (p : Program) : Prop where
  names : (p.inputs.map (·.1) ++ p.bindings.map (·.name)).Nodup
  sorts : ∀ s ∈ p.inputs.map (·.2) ++ p.bindings.map (·.sort),
    s = .bool ∨ ∃ n, s = .bitVec n ∧ 1 ≤ n ∧ n ≤ 128
  terms : ∀ before b after, p.bindings = before ++ b :: after →
    b.term.sortOf (p.sortsBefore before).get? = .ok b.sort
  output : ∃ b ∈ p.bindings, b.isOutput = true

def Gives (given : Env) (input : String × BvSort) : Prop :=
  ∃ v, given.get? input.1 = some v ∧ v.sort = input.2

def inputFault (given : Env) (input : String × BvSort) : Option EvalError :=
  match given.get? input.1 with
  | none => some (.unbound input.1)
  | some v => if v.sort = input.2 then none else some (.illSorted "input")

/-- Every input has its given value, and every binding the value of its term. -/
structure Solution (p : Program) (given env : Env) : Prop where
  inputs : ∀ input ∈ p.inputs, env.get? input.1 = given.get? input.1
  bindings : ∀ b ∈ p.bindings, ∃ v, b.term.eval env = .ok v ∧ env.get? b.name = some v

/-- What evaluation makes of given values. -/
structure Evaluates (p : Program) (given : Env) : Prop where
  ok : (∃ outs, p.evaluate given = .ok outs) ↔ ∀ input ∈ p.inputs, Gives given input
  sorts : ∀ outs, p.evaluate given = .ok outs →
    outs.map (fun out => (out.1, out.2.sort)) = p.outputSorts
  values : ∀ outs, p.evaluate given = .ok outs →
    ∃ env, p.Solution given env ∧ outs = p.outputsIn env
  error : ∀ e, p.evaluate given = .error e ↔ p.inputs.findSome? (inputFault given) = some e
  congr : ∀ given', (∀ input ∈ p.inputs, given'.get? input.1 = given.get? input.1) →
    p.evaluate given' = p.evaluate given

/-!
## Sorts
-/

theorem isValid_cases {s : BvSort} (h : s.isValid = true) :
    s = .bool ∨ ∃ n, s = .bitVec n ∧ 1 ≤ n ∧ n ≤ 128 := by
  cases s with
  | bool => exact Or.inl rfl
  | bitVec n => exact Or.inr ⟨n, rfl, Term.isValid_bitVec.mp h⟩

theorem get?_sortsBefore {inputs : Assoc BvSort} {bs : List Binding}
    (h : Sorted inputs.get? (bs.map Binding.definition)) :
    Assoc.get? (inputs ++ bs.map fun b => (b.name, b.sort)) =
      Scope.after inputs.get? (bs.map Binding.definition) := by
  induction bs generalizing inputs with
  | nil => rw [List.map_nil, List.append_nil]; rfl
  | cons b bs ih =>
      rcases h with ⟨hnew, _, hrest⟩
      have hget : Assoc.get? (inputs ++ [(b.name, b.sort)]) =
          Scope.extend inputs.get? b.name b.sort := get?_append_eq_extend hnew b.sort
      have hsorted : Sorted (Assoc.get? (inputs ++ [(b.name, b.sort)]))
          (bs.map Binding.definition) := by
        rw [hget]
        exact hrest
      rw [List.map_cons, List.append_cons, ih hsorted, hget]
      rfl

theorem WellFormed.wellSorted {p : Program} (hp : p.WellFormed) : p.WellSorted where
  names := by
    have hnames := hp.sorted.nodup_names hp.distinct
    rw [definitions, List.map_map] at hnames
    exact hnames
  sorts := by
    intro s hs
    rcases List.mem_append.mp hs with hs | hs
    · rcases List.mem_map.mp hs with ⟨input, hinput, rfl⟩
      exact isValid_cases (hp.valid input hinput)
    · rcases List.mem_map.mp hs with ⟨b, hb, rfl⟩
      have hterm := hp.sorted.hasSort_of_mem (List.mem_map_of_mem hb)
      exact isValid_cases (hterm.isValid (hp.sorted.validScope (validScope_of_valid hp.valid)))
  terms := by
    intro before b after hbindings
    have hsorted := hp.sorted
    rw [definitions, hbindings, List.map_append, sorted_append] at hsorted
    rcases hsorted with ⟨hbefore, _, hterm, _⟩
    rw [sortsBefore, get?_sortsBefore hbefore]
    exact Term.sortOf_of_hasSort hterm
  output := hp.output

/-!
## Input values
-/

theorem inputFault_eq_none_iff {given : Env} {input : String × BvSort} :
    inputFault given input = none ↔ Gives given input := by
  unfold inputFault Gives
  cases given.get? input.1 with
  | none => simp
  | some v => simp

theorem gives_iff_matches {inputs : Assoc BvSort} (hdistinct : Assoc.Distinct inputs)
    {given : Env} : (∀ input ∈ inputs, Gives given input) ↔ Matches inputs.get? given := by
  constructor
  · intro h x s hx
    exact h (x, s) (Assoc.mem_of_get? hx)
  · rintro h ⟨x, s⟩ hinput
    exact h x s (Assoc.get?_of_mem hdistinct hinput)

/-- Inputs are taken over up to the first that is at fault. -/
theorem bindInputs_eq_error_iff {given env : Env} {inputs : List (String × BvSort)}
    {e : EvalError} :
    bindInputs given env inputs = .error e ↔ inputs.findSome? (inputFault given) = some e := by
  induction inputs generalizing env with
  | nil => simp [bindInputs]
  | cons input inputs ih =>
      rcases input with ⟨name, sort⟩
      unfold bindInputs
      rw [List.findSome?_cons, inputFault]
      cases hv : given.get? name with
      | none => simp
      | some v =>
          by_cases hsort : v.sort = sort
          · simp only [if_pos hsort]
            exact ih
          · simp [if_neg hsort]

/-!
## Values of all names
-/

theorem eval_definedValues {scope : Scope} {ds : List Definition} {env env' : Env}
    (hsorted : Sorted scope ds) (hmatches : Matches scope env)
    (h : Query.definedValues env ds = .ok env') {d : Definition} (hd : d ∈ ds) :
    ∃ v, d.term.eval env' = .ok v ∧ env'.get? d.name = some v := by
  induction ds generalizing scope env with
  | nil => cases hd
  | cons d' ds ih =>
      rcases hsorted with ⟨hnew, hterm, hrest⟩
      rcases except_bind_eq_ok.mp h with ⟨v, hv, hds⟩
      have hsort : v.sort = d'.sort := by
        rcases hterm.eval hmatches with ⟨w, hw, hsort⟩
        rw [hv] at hw
        cases hw
        exact hsort
      have hset := matches_set hmatches d'.name v
      rw [hsort] at hset
      rcases List.mem_cons.mp hd with rfl | hd
      · -- The names of the term keep their values when later definitions are run.
        have hcarries : Term.Carries scope id env env' := by
          intro x s hx
          rcases hmatches x s hx with ⟨w, hw, _⟩
          refine ⟨w, hw, ?_⟩
          rw [id, get?_definedValues hds (hrest.ne_of_mem (subset_extend hnew hx)),
            Assoc.get?_set, if_neg, hw]
          rintro rfl
          rw [hnew] at hx
          cases hx
        have heval := hterm.eval_rename hcarries
        rw [Term.rename_id] at heval
        refine ⟨v, heval.trans hv, ?_⟩
        rw [get?_definedValues hds (hrest.ne_of_mem (extend_self _ _ _)), Assoc.get?_set,
          if_pos rfl]
      · exact ih hrest hset hds hd

theorem WellFormed.solution {p : Program} (hp : p.WellFormed) {given : Env}
    (hgiven : Matches (Assoc.get? p.inputs) given) :
    ∃ env, p.Solution given env ∧ Matches p.scope env ∧
      p.evaluate given = .ok (p.outputsIn env) := by
  rcases hp.valuesAt hgiven with ⟨start, env, _, hdefined, hvalues, hstart, hmatches, hget⟩
  refine ⟨env, ⟨?_, ?_⟩, hmatches, hp.evaluate_eq hvalues⟩
  · rintro ⟨x, s⟩ hinput
    have hx := Assoc.get?_of_mem hp.distinct hinput
    show env.get? x = given.get? x
    rw [get?_definedValues hdefined (hp.sorted.ne_of_mem hx), hget x s hx]
  · intro b hb
    exact eval_definedValues hp.sorted hstart hdefined (List.mem_map_of_mem hb)

/-!
## Evaluation
-/

theorem WellFormed.evaluate_eq_error_iff {p : Program} (hp : p.WellFormed) {given : Env}
    {e : EvalError} :
    p.evaluate given = .error e ↔ p.inputs.findSome? (inputFault given) = some e := by
  cases hinputs : bindInputs given [] p.inputs with
  | error fault =>
      have hfault : bindInputs given [] p.inputs = .error e ↔
          p.inputs.findSome? (inputFault given) = some e := bindInputs_eq_error_iff
      rw [← hfault, hinputs]
      unfold Program.evaluate
      rw [hinputs]
      rfl
  | ok start =>
      have hnone : p.inputs.findSome? (inputFault given) = none := by
        cases hfault : p.inputs.findSome? (inputFault given) with
        | none => rfl
        | some fault =>
            rw [bindInputs_eq_error_iff.mpr hfault] at hinputs
            cases hinputs
      have hgives : ∀ input ∈ p.inputs, Gives given input := by
        intro input hinput
        exact inputFault_eq_none_iff.mp (List.findSome?_eq_none_iff.mp hnone input hinput)
      rcases hp.evaluate ((gives_iff_matches hp.distinct).mp hgives) with ⟨outs, houts⟩
      rw [houts, hnone]
      simp

theorem WellFormed.evaluates {p : Program} (hp : p.WellFormed) (given : Env) :
    p.Evaluates given := by
  have hok : (∃ outs, p.evaluate given = .ok outs) ↔ ∀ input ∈ p.inputs, Gives given input := by
    constructor
    · rintro ⟨outs, houts⟩ input hinput
      apply inputFault_eq_none_iff.mp
      cases hfault : p.inputs.findSome? (inputFault given) with
      | none => exact List.findSome?_eq_none_iff.mp hfault input hinput
      | some e =>
          rw [hp.evaluate_eq_error_iff.mpr hfault] at houts
          cases houts
    · intro h
      exact hp.evaluate ((gives_iff_matches hp.distinct).mp h)
  refine ⟨hok, ?_, ?_, fun e => hp.evaluate_eq_error_iff, ?_⟩
  · intro outs houts
    rcases hp.solution ((gives_iff_matches hp.distinct).mp (hok.mp ⟨outs, houts⟩)) with
      ⟨env, _, hmatches, heq⟩
    rw [houts] at heq
    cases heq
    unfold outputsIn outputSorts
    rw [List.map_map]
    apply List.map_congr_left
    intro b hb
    show (b.name, (valueIn env b).sort) = (b.name, b.sort)
    rw [(hp.get?_output hmatches hb).2]
  · intro outs houts
    rcases hp.solution ((gives_iff_matches hp.distinct).mp (hok.mp ⟨outs, houts⟩)) with
      ⟨env, hsolution, _, heq⟩
    rw [houts] at heq
    exact ⟨env, hsolution, Except.ok.inj heq⟩
  · intro given' h
    exact evaluate_congr fun x s hx => h (x, s) hx

/-- A loaded program is sorted throughout. Given values either have one of its sort for
every input, and its outputs are then the values of their terms, or evaluation stops at
the first input without. -/
theorem load_evaluates {s : List Char} {p : Program} (h : load s = .ok p) :
    p.WellSorted ∧ ∀ given, p.Evaluates given :=
  ⟨(load_wellFormed h).wellSorted, (load_wellFormed h).evaluates⟩

theorem load_evaluates_compact :
    load compactText.toList = .ok compactProgram ∧ compactProgram.WellSorted ∧
      compactProgram.Evaluates [("x", .word 9 4)] ∧
      compactProgram.evaluate [("x", .bool true)] = .error (.illSorted "input") :=
  ⟨load_compactText, (load_evaluates load_compactText).1,
    (load_evaluates load_compactText).2 _,
    (((load_evaluates load_compactText).2 _).error _).mpr rfl⟩

end Program
end BitEquiv

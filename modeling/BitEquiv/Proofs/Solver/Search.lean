import BitEquiv.Proofs.Solver.Soundness

/-!
# Exhaustive search finds the first model

Read as one binary number, first input lowest, the values of the inputs go through all
assignments. A search without a time limit answers with the least number at which the query
is satisfied, and says that there is none exactly when no assignment satisfies it.
-/

namespace BitEquiv

namespace Logic
namespace Query

variable {q : Query}

def Satisfied (q : Query) (given : Env) : Prop :=
  ∃ env, q.evaluate given = .ok env ∧ ∀ t ∈ q.assertions, t.eval env = .ok (.bool true)

theorem holds_eq_true_iff {env : Env} {ts : List Term} :
    holds env ts = .ok true ↔ ∀ t ∈ ts, t.eval env = .ok (.bool true) := by
  induction ts with
  | nil => exact iff_of_true rfl (List.forall_mem_nil _)
  | cons t ts ih =>
      rw [List.forall_mem_cons, ← ih, holds]
      cases ht : t.eval env with
      | error e => exact iff_of_false (by rintro ⟨⟩) (by simp)
      | ok v =>
          cases v with
          | word bits w => exact iff_of_false (by rintro ⟨⟩) (by simp)
          | bool b =>
              cases b with
              | false => exact iff_of_false (by rintro ⟨⟩) (by simp)
              | true => exact (and_iff_right rfl).symm

theorem satisfiedBy_eq_true_iff {given : Env} :
    q.satisfiedBy given = .ok true ↔ q.Satisfied given := by
  unfold satisfiedBy Satisfied
  rw [except_bind_eq_ok]
  exact exists_congr fun env => and_congr_right fun _ => holds_eq_true_iff

theorem inputValues_congr {given given' : Env} {inputs : List (String × BvSort)}
    (h : ∀ input ∈ inputs, given.get? input.1 = given'.get? input.1) (env : Env) :
    inputValues given env inputs = inputValues given' env inputs := by
  induction inputs generalizing env with
  | nil => rfl
  | cons input inputs ih =>
      rcases List.forall_mem_cons.mp h with ⟨hinput, h⟩
      unfold inputValues
      rw [hinput, ih h]

theorem satisfied_congr {given given' : Env}
    (h : ∀ input ∈ q.inputs, given.get? input.1 = given'.get? input.1) :
    q.Satisfied given ↔ q.Satisfied given' := by
  unfold Satisfied evaluate
  rw [inputValues_congr h]

end Query
end Logic

namespace Solver
namespace Exhaustive

open Logic

/-!
## The first model
-/

/-- Values in their sorts for the inputs of a query and for nothing else, which satisfy it.
Their number is the least one of all such values. -/
structure FirstModel (q : Query) (model : Model) : Prop where
  names : model.map (·.1) = q.inputs.map (·.1)
  fits : Fits (Assoc.get? q.inputs) model
  satisfied : q.Satisfied model
  least : ∀ env, Fits (Assoc.get? q.inputs) env → q.Satisfied env →
    number q.inputs model ≤ number q.inputs env

section Models

variable {q : Query}

theorem get?_input {inputs : List (String × BvSort)} (hdistinct : Assoc.Distinct inputs)
    {x : String} (hx : x ∈ inputs.map (·.1)) : ∃ s, Assoc.get? inputs x = some s := by
  rcases List.mem_map.mp hx with ⟨⟨x, s⟩, hmem, rfl⟩
  exact ⟨s, Assoc.get?_of_mem hdistinct hmem⟩

theorem FirstModel.unique (hdistinct : Assoc.Distinct q.inputs) {model model' : Model}
    (h : FirstModel q model) (h' : FirstModel q model') : model = model' := by
  have hnumber : number q.inputs model = number q.inputs model' :=
    Nat.le_antisymm (h.least model' h'.fits h'.satisfied) (h'.least model h.fits h.satisfied)
  have hmodel : Assoc.Distinct model := by
    unfold Assoc.Distinct
    rw [h.names]
    exact hdistinct
  refine Assoc.eq_of_get? (h.names.trans h'.names.symm) hmodel ?_
  intro x hx
  rw [h.names] at hx
  rcases get?_input hdistinct hx with ⟨s, hs⟩
  rw [← get?_assignment_number hdistinct h.fits [] hs, hnumber,
    get?_assignment_number hdistinct h'.fits [] hs]

theorem names_modelOver {wanted : List (String × BvSort)} (hdistinct : Assoc.Distinct wanted)
    {env : Env} (henv : Fits (Assoc.get? wanted) env) :
    (modelOver wanted env).map (·.1) = wanted.map (·.1) := by
  have hnames : ∀ inputs : List (String × BvSort),
      (∀ input ∈ inputs, ∃ v, env.get? input.1 = some v) →
        (inputs.filterMap fun input => (env.get? input.1).map fun v => (input.1, v)).map (·.1) =
          inputs.map (·.1) := by
    intro inputs h
    induction inputs with
    | nil => rfl
    | cons input inputs ih =>
        rcases List.forall_mem_cons.mp h with ⟨⟨v, hv⟩, h⟩
        rw [List.filterMap_cons_some (b := (input.1, v)) (by simp [hv]), List.map_cons, ih h]
        rfl
  have hvalues : ∀ input ∈ wanted, ∃ v, env.get? input.1 = some v := by
    intro input hinput
    rcases henv input.1 input.2 (Assoc.get?_of_mem hdistinct hinput) with ⟨v, hv, _⟩
    exact ⟨v, hv⟩
  have hall := hnames wanted hvalues
  show (Assoc.ofList (wanted.filterMap fun input =>
    (env.get? input.1).map fun v => (input.1, v))).map (·.1) = wanted.map (·.1)
  rw [Assoc.ofList_of_distinct, hall]
  unfold Assoc.Distinct
  rw [hall]
  exact hdistinct

/-- The model of the first number at which a query holds is its first model. -/
theorem firstModel_of_number (hq : q.WellFormed) {n : Nat} (hlt : n < Nat.pow 2 q.inputBits)
    (hn : q.Satisfied (assignment q.inputs n []))
    (hfirst : ∀ m < n, ¬q.Satisfied (assignment q.inputs m [])) :
    FirstModel q (modelOver q.inputs (assignment q.inputs n [])) := by
  have hfits : Fits (Assoc.get? q.inputs) (assignment q.inputs n []) :=
    fun x s hx => inSort_assignment hq.distinct hx n []
  have hget : ∀ input ∈ q.inputs,
      (modelOver q.inputs (assignment q.inputs n [])).get? input.1 =
        (assignment q.inputs n []).get? input.1 := by
    intro input hinput
    rw [get?_modelOver, Assoc.get?_of_mem hq.distinct hinput]
    rfl
  constructor
  case names => exact names_modelOver hq.distinct hfits
  case fits =>
    intro x s hx
    rw [hget (x, s) (Assoc.mem_of_get? hx)]
    exact hfits x s hx
  case satisfied => exact (Query.satisfied_congr hget).mpr hn
  case least =>
    intro env henv hsatisfied
    rw [number_congr hget, number_assignment hq.distinct hq.width_le hlt]
    -- A smaller number would stand for the same values, and hold as well.
    refine Nat.not_lt.mp fun hsmaller => hfirst _ hsmaller ?_
    refine (Query.satisfied_congr ?_).mpr hsatisfied
    intro input hinput
    exact get?_assignment_number hq.distinct henv [] (Assoc.get?_of_mem hq.distinct hinput)

end Models

/-!
## Answers
-/

def InReach (bits : Nat) (q : Query) : Prop :=
  (∃ known, q.validate = .ok known) ∧ q.inputBits ≤ min bits 32

/-- What a search with a budget of bits says about a query. -/
structure Answers (bits : Nat) (q : Query) (answer : Except SolverError Decision) : Prop where
  malformed : ∀ e, answer = .error (.malformedQuery e) ↔ q.validate = .error e
  unknown : (∃ reason, answer = .ok (.unknown reason)) ↔
    (∃ known, q.validate = .ok known) ∧ min bits 32 < q.inputBits
  unsat : answer = .ok .unsat ↔
    InReach bits q ∧ ∀ env, Fits (Assoc.get? q.inputs) env → ¬q.Satisfied env
  sat : (∃ model, answer = .ok (.sat model)) ↔
    InReach bits q ∧ ∃ env, Fits (Assoc.get? q.inputs) env ∧ q.Satisfied env
  model : ∀ model, answer = .ok (.sat model) ↔ InReach bits q ∧ FirstModel q model

section Answers

variable {bits : Nat} {q : Query}

theorem answers_of_rejected {e : SortError} (h : q.validate = .error e) :
    Answers bits q (.error (.malformedQuery e)) := by
  have hreject : ¬∃ known, q.validate = .ok known := by
    rintro ⟨known, hknown⟩
    rw [h] at hknown
    cases hknown
  constructor
  case malformed =>
    intro e'
    rw [h]
    simp
  case unknown => exact iff_of_false (by simp) (fun h => hreject h.1)
  case unsat => exact iff_of_false (by simp) (fun h => hreject h.1.1)
  case sat => exact iff_of_false (by simp) (fun h => hreject h.1.1)
  case model => exact fun model => iff_of_false (by simp) (fun h => hreject h.1.1)

section Accepted

variable {known : Assoc BvSort} (hvalid : q.validate = .ok known)

include hvalid

theorem answers_of_beyond (hbits : min bits 32 < q.inputBits) (reason : String) :
    Answers bits q (.ok (.unknown reason)) := by
  have hbeyond : ¬InReach bits q := fun h => Nat.not_le.mpr hbits h.2
  constructor
  case malformed => simp [hvalid]
  case unknown => exact iff_of_true ⟨reason, rfl⟩ ⟨⟨known, hvalid⟩, hbits⟩
  case unsat => exact iff_of_false (by simp) (fun h => hbeyond h.1)
  case sat => exact iff_of_false (by simp) (fun h => hbeyond h.1)
  case model => exact fun model => iff_of_false (by simp) (fun h => hbeyond h.1)

variable (hbits : q.inputBits ≤ min bits 32)

include hbits

theorem answers_of_unsat
    (hnone : ∀ env, Fits (Assoc.get? q.inputs) env → ¬q.Satisfied env) :
    Answers bits q (.ok .unsat) := by
  constructor
  case malformed => simp [hvalid]
  case unknown => exact iff_of_false (by simp) (fun h => Nat.not_lt.mpr hbits h.2)
  case unsat => exact iff_of_true rfl ⟨⟨⟨known, hvalid⟩, hbits⟩, hnone⟩
  case sat =>
    refine iff_of_false (by simp) ?_
    rintro ⟨_, env, hfits, hsatisfied⟩
    exact hnone env hfits hsatisfied
  case model => exact fun model => iff_of_false (by simp) (fun h => hnone _ h.2.fits h.2.satisfied)

theorem answers_of_sat {model : Model} (hmodel : FirstModel q model) :
    Answers bits q (.ok (.sat model)) := by
  have hreach : InReach bits q := ⟨⟨known, hvalid⟩, hbits⟩
  constructor
  case malformed => simp [hvalid]
  case unknown => exact iff_of_false (by simp) (fun h => Nat.not_lt.mpr hbits h.2)
  case unsat => exact iff_of_false (by simp) (fun h => h.2 model hmodel.fits hmodel.satisfied)
  case sat => exact iff_of_true ⟨model, rfl⟩ ⟨hreach, model, hmodel.fits, hmodel.satisfied⟩
  case model =>
    intro model'
    constructor
    · rintro ⟨⟩
      exact ⟨hreach, hmodel⟩
    · rintro ⟨_, hmodel'⟩
      rw [hmodel.unique (Query.wellFormed_of_validate hvalid).distinct hmodel']

end Accepted

end Answers

/-- A search that no clock stops finds the first model of a query that was loaded into a
solver without any, or that it has none. -/
theorem decide_first (bits : Nat) (q : Query) :
    Answers bits q (decide bits (fun _ => false) (Query.empty.append q) q.inputs) := by
  show Answers bits q (decide bits (fun _ => false) q q.inputs)
  cases hvalid : q.validate with
  | error e =>
      unfold decide
      rw [hvalid]
      exact answers_of_rejected hvalid
  | ok known =>
      by_cases hbits : q.inputBits ≤ min bits 32
      · have hq := Query.wellFormed_of_validate hvalid
        have hvalue : ∀ n, ∃ b, q.satisfiedBy (assignment q.inputs n []) = .ok b :=
          fun n => hq.satisfiedBy (givenInSort_assignment hq.distinct n)
        have hfails : ∀ n, q.satisfiedBy (assignment q.inputs n []) = .ok false →
            ¬q.Satisfied (assignment q.inputs n []) := by
          intro n hn hsatisfied
          rw [Query.satisfiedBy_eq_true_iff.mpr hsatisfied] at hn
          cases hn
        rcases decide_ok q.inputs (fun _ => rfl) hvalid hbits hvalue with
          ⟨n, hn, hanswer, hlt, hfirst⟩ | ⟨hanswer, hall⟩
        · rw [hanswer]
          exact answers_of_sat hvalid hbits (firstModel_of_number hq hlt
            (Query.satisfiedBy_eq_true_iff.mp hn) fun m hm => hfails m (hfirst m hm))
        · rw [hanswer]
          refine answers_of_unsat hvalid hbits ?_
          intro env henv hsatisfied
          refine hfails _ (hall _ (number_lt hq.distinct henv)) ?_
          refine (Query.satisfied_congr ?_).mpr hsatisfied
          intro input hinput
          exact get?_assignment_number hq.distinct henv []
            (Assoc.get?_of_mem hq.distinct hinput)
      · have hbeyond := Nat.not_le.mp hbits
        rcases decide_beyond q.inputs (fun _ => false) hvalid hbeyond with ⟨reason, hreason⟩
        rw [hreason]
        exact answers_of_beyond hvalid hbeyond reason

/-- Of the satisfying numbers 6 and 7 the first one counts. -/
example :
    decide 3 (fun _ => false)
      { inputs := [("in_x", .bitVec 2), ("in_b", .bool)]
        assertions := [.and [.var "in_b", .compare .ugt (.var "in_x") (.bvLit 1 2)]] }
      [("in_x", .bitVec 2), ("in_b", .bool)] =
      .ok (.sat [("in_x", .word 2 2), ("in_b", .bool true)]) := by
  rfl

end Exhaustive
end Solver
end BitEquiv

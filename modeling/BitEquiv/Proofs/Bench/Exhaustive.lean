import BitEquiv.Proofs.Bench.Checker
import BitEquiv.Proofs.Program.Agreement
import BitEquiv.Proofs.Solver.Exhaustive

/-!
# Exact verdicts

Search in memory reads the same query as a solver, and it is known to be right. Within
its budget the verdict on two programs is equivalence exactly when they agree at all
values of their inputs, and no error occurs.
-/

namespace BitEquiv

open Logic

namespace Program

def inputBits (p : Program) : Nat := Text.total (p.inputs.map (·.2.width))

/-!
## Assignments of the shared inputs
-/

section Assignments

open Solver.Exhaustive (assignment modelOver)

variable {p q : Program}

theorem inputBits_miter (p q : Program) : (miter p q).inputBits = p.inputBits := by
  show Text.total (p.sharedInputs.map _) = _
  unfold sharedInputs
  rw [List.map_map]
  rfl

def numbered (p : Program) (n : Nat) : Env := assignment p.sharedInputs n []

theorem inSort_numbered (hp : p.WellFormed) {x : String} {s : BvSort} (hx : (x, s) ∈ p.inputs)
    (n : Nat) : ∃ v, (p.numbered n).get? (inputSymbol x) = some v ∧ v.InSort s := by
  have hget := Assoc.get?_of_mem hp.distinct hx
  rw [← get?_sharedInputs] at hget
  exact Solver.Exhaustive.inSort_assignment hp.distinct_sharedInputs hget n []

theorem fitsInputs_numbered (hp : p.WellFormed) (n : Nat) : p.FitsInputs (p.numbered n) := by
  intro x s v hx hv
  rcases inSort_numbered hp hx n with ⟨v', hv', hsort, _⟩
  rw [hv] at hv'
  cases hv'
  exact hsort

theorem get?_modelInputs_numbered (hp : p.WellFormed) {x : String} {s : BvSort}
    (hx : (x, s) ∈ p.inputs) (n : Nat) :
    (p.modelInputs (p.numbered n)).get? x = (p.numbered n).get? (inputSymbol x) := by
  rcases inSort_numbered hp hx n with ⟨v, hv, hsort, _⟩
  rw [get?_modelInputs, Assoc.get?_of_mem hp.distinct hx, hv]
  simp [modelValue, hv, hsort]

theorem fitsValues_numbered (hp : p.WellFormed) (n : Nat) :
    p.FitsValues (p.modelInputs (p.numbered n)) := by
  intro x s hx
  rw [get?_modelInputs_numbered hp hx]
  exact inSort_numbered hp hx n

def sharedValues (given : Env) : Env := given.map fun input => (inputSymbol input.1, input.2)

theorem get?_sharedValues (given : Env) (x : String) :
    (sharedValues given).get? (inputSymbol x) = given.get? x :=
  Assoc.get?_map_names inputSymbol_injective given x

theorem exists_numbered (hp : p.WellFormed) {given : Env} (hgiven : p.FitsValues given) :
    ∃ n < Nat.pow 2 p.inputBits, ∀ x s, (x, s) ∈ p.inputs →
      (p.modelInputs (p.numbered n)).get? x = given.get? x := by
  have hfits : ∀ y s, Assoc.get? p.sharedInputs y = some s →
      ∃ v, (sharedValues given).get? y = some v ∧ v.InSort s := by
    intro y s hy
    rcases exists_input_of_shared (Assoc.mem_of_get? hy) with ⟨x, t, hx, heq⟩
    cases heq
    rw [get?_sharedValues]
    exact hgiven x s hx
  rcases Solver.Exhaustive.exists_assignment hp.distinct_sharedInputs hfits [] with ⟨n, hn, hget⟩
  refine ⟨n, ?_, ?_⟩
  · rw [← inputBits_miter p p]
    exact hn
  · intro x s hx
    have hx' := Assoc.get?_of_mem hp.distinct hx
    rw [← get?_sharedInputs] at hx'
    rw [get?_modelInputs_numbered hp hx, ← get?_sharedValues given]
    exact hget (inputSymbol x) s hx'

/-- The model that search finds gives the inputs the values of its assignment. -/
theorem modelInputs_modelOver (hp : p.WellFormed) (n : Nat) :
    p.modelInputs (modelOver p.sharedInputs (p.numbered n)).toEnv =
      p.modelInputs (p.numbered n) := by
  unfold modelInputs
  apply List.map_congr_left
  rintro ⟨x, s⟩ hx
  rcases inSort_numbered hp hx n with ⟨v, hv, _, hcanonical⟩
  have hget : (modelOver p.sharedInputs (p.numbered n)).toEnv.get? (inputSymbol x) = some v := by
    unfold Model.toEnv
    rw [Assoc.get?_mapValues, Solver.Exhaustive.get?_modelOver, get?_sharedInputs,
      Assoc.get?_of_mem hp.distinct hx, hv]
    simp [hcanonical]
  simp only [hget, hv]

/-- The query holds of a number exactly when the programs do not agree there. -/
theorem satisfiedBy_numbered (hp : p.WellFormed) (hq : q.WellFormed) (hsame : SameInterface p q)
    (n : Nat) :
    ∃ ds, compareAt p q (p.modelInputs (p.numbered n)) = .ok ds ∧
      (miter p q).satisfiedBy (p.numbered n) = .ok (!ds.isEmpty) ∧
      (AgreeAt p q (p.modelInputs (p.numbered n)) ↔ ds = []) := by
  rcases satisfiedBy_miter hp hq hsame (fitsInputs_numbered hp n) with ⟨ds, hds, hvalue⟩
  refine ⟨ds, hds, hvalue, ?_⟩
  rw [agreeAt_iff hp hq hsame matches_modelInputs, hds, Except.ok.injEq]

end Assignments

/-- Programs agree exactly when their query holds of no number below the power of two of
their input bits. -/
theorem agree_iff {p q : Program} (hp : p.WellFormed) (hq : q.WellFormed)
    (hsame : SameInterface p q) :
    Agree p q ↔
      ∀ n < Nat.pow 2 p.inputBits, (miter p q).satisfiedBy (p.numbered n) = .ok false := by
  constructor
  · intro hagree n _
    rcases satisfiedBy_numbered hp hq hsame n with ⟨ds, _, hvalue, hiff⟩
    rw [hvalue, hiff.mp (hagree _ (fitsValues_numbered hp n))]
    rfl
  · intro hall given hgiven
    rcases exists_numbered hp hgiven with ⟨n, hn, hget⟩
    rcases satisfiedBy_numbered hp hq hsame n with ⟨ds, _, hvalue, hiff⟩
    rw [hall n hn] at hvalue
    have hds : ds = [] := by simpa using hvalue
    exact (hiff.mpr hds).congr hq hsame hget

theorem agree_of_sameDefinition {p q : Program} (hp : p.WellFormed) (hq : q.WellFormed)
    (h : p.sameDefinition q = true) : Agree p q := by
  intro given hgiven
  rw [agreeAt_iff hp hq (Bench.sameInterface_of_sameDefinition h) hgiven.matches]
  exact Bench.compareAt_of_sameDefinition hp hq h hgiven.matches

end Program

namespace Bench

open Program (SameInterface Agree)

/-!
## Verdicts of exhaustive search
-/

/-- The verdict says exactly whether two programs agree, as far as the budget goes. -/
structure Verdict.Exact (v : Verdict) (p q : Program) (budget : Nat) : Prop where
  noError : v.finding ≠ .error
  interface : ¬SameInterface p q → v.finding = .inequivalent ∧ v.counterexample = none
  equivalent : SameInterface p q → p.inputBits ≤ budget →
    (v.finding = .equivalent ↔ Agree p q)
  inequivalent : SameInterface p q → p.inputBits ≤ budget → ¬Agree p q →
    v.finding = .inequivalent ∧
      ∃ c, v.counterexample = some c ∧ c.Separates p q ∧ p.FitsValues c.values
  beyond : SameInterface p q → budget < p.inputBits →
    v.finding = if p.sameDefinition q then .equivalent else .unknown

namespace Checker

theorem judgeModel_of_differ {p q : Program} {model : Env} {ds : List Program.OutputDiff}
    (h : Program.compareAt p q (p.modelInputs model) = .ok ds) (hds : ds ≠ []) (caseId : String)
    (elapsedMs : Nat) :
    (judgeModel caseId p q elapsedMs model).finding = .inequivalent ∧
      (judgeModel caseId p q elapsedMs model).counterexample =
        some (.of p (p.modelInputs model) ds) := by
  cases ds with
  | nil => exact absurd rfl hds
  | cons d ds => simp [judgeModel, h]

theorem decide_exhaustive (host : Execution.Host) {settings : SolverSettings}
    (hbackend : settings.backend = .exhaustive) (query : Query) (timeoutSecs : Nat)
    (dumpDir : Option String) (files : Execution.Files) :
    (ofSettings host settings).decider.decide query timeoutSecs dumpDir files =
      (Decider.ofReply ⟨some (Solver.Exhaustive.decide settings.exhaustiveBits (fun _ => false)
        query query.inputs), 0⟩, files) := by
  unfold ofSettings Decider.ofSettings
  simp only [hbackend]

section Exact

variable {p q : Program} {budget : Nat}

theorem exact_of_agree (hsame : SameInterface p q) (hagree : Agree p q)
    (hbeyond : budget < p.inputBits → p.sameDefinition q = true) (caseId detail : String) :
    (Verdict.plain caseId .equivalent detail 0).Exact p q budget := by
  constructor
  · intro herror
    cases herror
  · intro hdiffer
    exact absurd hsame hdiffer
  · intro _ _
    exact iff_of_true rfl hagree
  · intro _ _ hdiffer
    exact absurd hagree hdiffer
  · intro _ hlt
    rw [if_pos (hbeyond hlt)]
    rfl

theorem exact_of_mismatch (h : ¬SameInterface p q) (caseId detail : String) :
    (Verdict.plain caseId .inequivalent detail 0).Exact p q budget := by
  constructor
  · intro herror
    cases herror
  · intro _
    exact ⟨rfl, rfl⟩
  · intro hsame
    exact absurd hsame h
  · intro hsame
    exact absurd hsame h
  · intro hsame
    exact absurd hsame h

theorem exact_of_beyond (hdefinition : p.sameDefinition q = false) (hsame : SameInterface p q)
    (hbits : budget < p.inputBits) (caseId detail : String) :
    (Verdict.plain caseId .unknown detail 0).Exact p q budget := by
  constructor
  · intro herror
    cases herror
  · intro hdiffer
    exact absurd hsame hdiffer
  · intro _ hle
    exact absurd hbits (Nat.not_lt.mpr hle)
  · intro _ hle
    exact absurd hbits (Nat.not_lt.mpr hle)
  · intro _ _
    rw [hdefinition]
    rfl

theorem exact_of_differ (hp : p.WellFormed) (hq : q.WellFormed) (hsame : SameInterface p q)
    (hbits : p.inputBits ≤ budget) {n : Nat}
    (hn : (Program.miter p q).satisfiedBy (p.numbered n) = .ok true) (caseId : String) :
    (judgeModel caseId p q 0
      (Solver.Exhaustive.modelOver p.sharedInputs (p.numbered n)).toEnv).Exact p q budget := by
  rcases Program.satisfiedBy_numbered hp hq hsame n with ⟨ds, hds, hvalue, hiff⟩
  have hne : ds ≠ [] := by
    rintro rfl
    rw [hvalue] at hn
    cases hn
  have hdiffer : ¬Agree p q := by
    intro hagree
    exact hne (hiff.mp (hagree _ (Program.fitsValues_numbered hp n)))
  rw [← Program.modelInputs_modelOver hp n] at hds
  rcases judgeModel_of_differ hds hne caseId 0 with ⟨hfinding, hcounterexample⟩
  constructor
  · rw [hfinding]
    exact Finding.noConfusion
  · intro hinterface
    exact absurd hsame hinterface
  · intro _ _
    rw [hfinding]
    exact iff_of_false Finding.noConfusion hdiffer
  · intro _ _ _
    refine ⟨hfinding, _, hcounterexample, separates_of_compareAt hp hq hsame hds hne, ?_⟩
    show p.FitsValues (p.modelInputs _)
    rw [Program.modelInputs_modelOver hp n]
    exact Program.fitsValues_numbered hp n
  · intro _ hlt
    exact absurd hlt (Nat.not_lt.mpr hbits)

/-- Search decides the query of two programs, and the verdict on its decision is exact. -/
theorem exact_of_search (hp : p.WellFormed) (hq : q.WellFormed)
    (hdefinition : p.sameDefinition q = false) (hsame : SameInterface p q)
    (hbudget : budget ≤ Solver.Exhaustive.maxBits) :
    ∃ d, Solver.Exhaustive.decide budget (fun _ => false) (Program.miter p q) p.sharedInputs =
        .ok d ∧
      ∀ deciderName caseId,
        (judge deciderName caseId p q ⟨.ok d.canonical, 0⟩).Exact p q budget := by
  have hexpired : ∀ n : Nat, (fun _ => false : Nat → Bool) n = false := fun _ => rfl
  have hinputs := Program.inputBits_miter p q
  have hmin := Nat.min_eq_left hbudget
  rcases Program.validate_miter hp hq hsame with ⟨known, hvalid⟩
  by_cases hbits : budget < p.inputBits
  · have hbeyond : min budget Solver.Exhaustive.maxBits < (Program.miter p q).inputBits := by
      rw [hmin, hinputs]
      exact hbits
    rcases Solver.Exhaustive.decide_beyond p.sharedInputs _ hvalid hbeyond with
      ⟨reason, hreason⟩
    exact ⟨_, hreason, fun _ _ => exact_of_beyond hdefinition hsame hbits _ _⟩
  · have hle := Nat.not_lt.mp hbits
    have hwithin : (Program.miter p q).inputBits ≤ min budget Solver.Exhaustive.maxBits := by
      rw [hmin, hinputs]
      exact hle
    have hvalue : ∀ n, ∃ b, (Program.miter p q).satisfiedBy (p.numbered n) = .ok b := by
      intro n
      rcases Program.satisfiedBy_numbered hp hq hsame n with ⟨ds, _, hvalue, _⟩
      exact ⟨_, hvalue⟩
    rcases Solver.Exhaustive.decide_ok p.sharedInputs hexpired hvalid hwithin hvalue with
      ⟨n, hn, hsat, _⟩ | ⟨hunsat, hall⟩
    · exact ⟨_, hsat, fun _ _ => exact_of_differ hp hq hsame hle hn _⟩
    · rw [hinputs] at hall
      have hagree := (Program.agree_iff hp hq hsame).mpr hall
      exact ⟨_, hunsat,
        fun _ _ => exact_of_agree hsame hagree (fun hlt => absurd hlt hbits) _ _⟩

end Exact

/-- Search in memory decides whether two loaded programs agree, within its budget. -/
theorem check_exhaustive {s t : List Char} {p q : Program} (hp : Program.load s = .ok p)
    (hq : Program.load t = .ok q) (host : Execution.Host) (settings : SolverSettings)
    (hbackend : settings.backend = .exhaustive)
    (hbudget : settings.exhaustiveBits ≤ Solver.Exhaustive.maxBits) (caseId : String)
    (timeoutSecs : Nat) (dumpDir : Option String) (files : Execution.Files) :
    ∃ v, (ofSettings host settings).check caseId timeoutSecs dumpDir p q files = (some v, files) ∧
      v.Exact p q settings.exhaustiveBits := by
  have hpw := Program.load_wellFormed hp
  have hqw := Program.load_wellFormed hq
  rcases check_cases hpw q (ofSettings host settings) caseId timeoutSecs dumpDir files with
    ⟨hdefinition, hcheck⟩ | ⟨hdiffer, detail, hcheck⟩ | ⟨hdefinition, hsame, hcheck⟩
  · have hsame := sameInterface_of_sameDefinition hdefinition
    have hagree := Program.agree_of_sameDefinition hpw hqw hdefinition
    exact ⟨_, hcheck, exact_of_agree hsame hagree (fun _ => hdefinition) _ _⟩
  · exact ⟨_, hcheck, exact_of_mismatch hdiffer _ _⟩
  · rcases exact_of_search hpw hqw hdefinition hsame hbudget with ⟨d, hdecide, hexact⟩
    rw [decide_exhaustive host hbackend] at hcheck
    rw [show (Program.miter p q).inputs = p.sharedInputs from rfl, hdecide] at hcheck
    exact ⟨_, hcheck, hexact _ _⟩

def searching : SolverSettings := { Settings.default.solver with backend := .exhaustive }

theorem check_exhaustive_doubling :
    Program.load Program.doubling.text.toList = .ok Program.doubling ∧
      Program.load Program.shifting.text.toList = .ok Program.shifting ∧
      searching.backend = .exhaustive ∧
      searching.exhaustiveBits ≤ Solver.Exhaustive.maxBits ∧
      ∃ v, (ofSettings .bare searching).check "case" 1 none Program.doubling Program.shifting
          .empty = (some v, .empty) ∧
        v.Exact Program.doubling Program.shifting searching.exhaustiveBits :=
  ⟨Program.load_doubling, Program.load_shifting, rfl, by decide,
    check_exhaustive Program.load_doubling Program.load_shifting .bare searching rfl (by decide)
      "case" 1 none .empty⟩

end Checker
end Bench
end BitEquiv

import BitEquiv.Solver.Exhaustive
import BitEquiv.Proofs.Logic.StandardEvaluation
import BitEquiv.Proofs.Text.Assoc

/-!
# Exhaustive search is complete

The numbers below a power of two stand for all assignments of well-sorted values to the
inputs. A search that no clock stops therefore decides a query whose inputs fit its
budget, and it gives up on any other.
-/

namespace BitEquiv
namespace Solver
namespace Exhaustive

open Logic

/-!
## Numbers in two parts
-/

section Parts

variable {width low high bits : Nat}

theorem low_of_parts (hlow : low < Nat.pow 2 width) (high : Nat) :
    (low + Nat.pow 2 width * high) % Nat.pow 2 width = low := by
  rw [Nat.add_mul_mod_self_left, Nat.mod_eq_of_lt hlow]

theorem high_of_parts (hlow : low < Nat.pow 2 width) (high : Nat) :
    (low + Nat.pow 2 width * high) >>> width = high := by
  have hpos : 0 < Nat.pow 2 width := Nat.two_pow_pos width
  rw [Nat.shiftRight_eq_div_pow]
  show (low + Nat.pow 2 width * high) / Nat.pow 2 width = high
  rw [Nat.add_mul_div_left low high hpos, Nat.div_eq_of_lt hlow, Nat.zero_add]

theorem parts_lt (hlow : low < Nat.pow 2 width) (hhigh : high < Nat.pow 2 bits) :
    low + Nat.pow 2 width * high < Nat.pow 2 (width + bits) := by
  calc low + Nat.pow 2 width * high
      < Nat.pow 2 width + Nat.pow 2 width * high := Nat.add_lt_add_right hlow _
    _ = Nat.pow 2 width * (high + 1) := by rw [Nat.mul_succ, Nat.add_comm]
    _ ≤ Nat.pow 2 width * Nat.pow 2 bits := Nat.mul_le_mul_left _ hhigh
    _ = Nat.pow 2 (width + bits) := (Nat.pow_add 2 width bits).symm

end Parts

/-!
## Numbers as assignments
-/

section Assignments

variable {inputs : List (String × BvSort)}

theorem get?_assignment_of_new {x : String} (hx : Assoc.get? inputs x = none) (n : Nat)
    (env : Env) : (assignment inputs n env).get? x = env.get? x := by
  induction inputs generalizing n env with
  | nil => rfl
  | cons input inputs ih =>
      rcases input with ⟨name, sort⟩
      rw [Assoc.get?_cons] at hx
      split at hx
      · cases hx
      · rename_i hne
        unfold assignment
        rw [ih hx, Assoc.get?_set, if_neg hne]

theorem get?_assignment_cons {name : String} {sort : BvSort}
    (hnew : Assoc.get? inputs name = none) (n : Nat) (env : Env) :
    (assignment ((name, sort) :: inputs) n env).get? name =
      some (.ofRaw sort (n % Nat.pow 2 sort.width)) := by
  unfold assignment
  rw [get?_assignment_of_new hnew, Assoc.get?_set, if_pos rfl]

theorem inSort_assignment (hdistinct : Assoc.Distinct inputs) {x : String} {s : BvSort}
    (hx : Assoc.get? inputs x = some s) (n : Nat) (env : Env) :
    ∃ v, (assignment inputs n env).get? x = some v ∧ v.InSort s := by
  induction inputs generalizing n env with
  | nil => cases hx
  | cons input inputs ih =>
      rcases input with ⟨name, sort⟩
      rcases Assoc.distinct_cons.mp hdistinct with ⟨hnew, hdistinct⟩
      rw [Assoc.get?_cons] at hx
      split at hx
      · rename_i hname
        cases hx
        rw [hname]
        exact ⟨_, get?_assignment_cons (Assoc.get?_eq_none_iff.mpr hnew) n env,
          Value.inSort_ofRaw _ _⟩
      · exact ih hdistinct hx _ _

/-- The number of an assignment: the value of the first input has the lowest bits, and a
missing value counts as zero. -/
def number : List (String × BvSort) → Env → Nat
  | [], _ => 0
  | (name, sort) :: rest, env =>
      ((env.get? name).map Value.raw).getD 0 + Nat.pow 2 sort.width * number rest env

theorem number_cons {name : String} {env : Env} {v : Value} (hv : env.get? name = some v)
    (sort : BvSort) :
    number ((name, sort) :: inputs) env = v.raw + Nat.pow 2 sort.width * number inputs env := by
  rw [number, hv]
  rfl

theorem fits_cons {name : String} {sort : BvSort} {given : Env}
    (hnew : Assoc.get? inputs name = none)
    (h : Fits (Assoc.get? ((name, sort) :: inputs)) given) :
    (∃ v, given.get? name = some v ∧ v.InSort sort) ∧ Fits (Assoc.get? inputs) given := by
  constructor
  · exact h name sort (by rw [Assoc.get?_cons, if_pos rfl])
  · intro x s hx
    exact h x s (Assoc.get?_cons_of_new hnew hx)

theorem number_lt (hdistinct : Assoc.Distinct inputs) {given : Env}
    (hgiven : Fits (Assoc.get? inputs) given) :
    number inputs given < Nat.pow 2 (Text.total (inputs.map (·.2.width))) := by
  induction inputs with
  | nil => exact Nat.one_pos
  | cons input inputs ih =>
      rcases input with ⟨name, sort⟩
      rcases Assoc.distinct_cons.mp hdistinct with ⟨hnew, hdistinct⟩
      rcases fits_cons (Assoc.get?_eq_none_iff.mpr hnew) hgiven with ⟨⟨v, hv, hsort⟩, hrest⟩
      rw [number_cons hv]
      exact parts_lt (Value.raw_lt hsort) (ih hdistinct hrest)

theorem get?_assignment_number (hdistinct : Assoc.Distinct inputs) {given : Env}
    (hgiven : Fits (Assoc.get? inputs) given) (env : Env) {x : String} {s : BvSort}
    (hx : Assoc.get? inputs x = some s) :
    (assignment inputs (number inputs given) env).get? x = given.get? x := by
  induction inputs generalizing env with
  | nil => cases hx
  | cons input inputs ih =>
      rcases input with ⟨name, sort⟩
      rcases Assoc.distinct_cons.mp hdistinct with ⟨hnew, hdistinct⟩
      have hnone := Assoc.get?_eq_none_iff.mpr hnew
      rcases fits_cons hnone hgiven with ⟨⟨v, hv, hsort⟩, hrest⟩
      have hraw := Value.raw_lt hsort
      -- The value of the first input stands in the lowest bits.
      have hlow := low_of_parts hraw (number inputs given)
      have hhigh := high_of_parts hraw (number inputs given)
      rw [number_cons hv]
      rw [Assoc.get?_cons] at hx
      split at hx
      · rename_i hname
        rw [hname, get?_assignment_cons hnone, hlow, Value.ofRaw_raw hsort, hv]
      · unfold assignment
        rw [hhigh, hlow, Value.ofRaw_raw hsort]
        exact ih hdistinct hrest (env.set name v) hx

/-- Every choice of well-sorted values has a number with as many bits as the inputs. -/
theorem exists_assignment (hdistinct : Assoc.Distinct inputs) {given : Env}
    (hgiven : ∀ x s, Assoc.get? inputs x = some s → ∃ v, given.get? x = some v ∧ v.InSort s)
    (env : Env) :
    ∃ n < Nat.pow 2 (Text.total (inputs.map (·.2.width))), ∀ x s, Assoc.get? inputs x = some s →
      (assignment inputs n env).get? x = given.get? x :=
  ⟨number inputs given, number_lt hdistinct hgiven,
    fun _ _ hx => get?_assignment_number hdistinct hgiven env hx⟩

/-- Numbers with as many bits as the inputs stand for different assignments. -/
theorem number_assignment (hdistinct : Assoc.Distinct inputs)
    (hwidth : ∀ input ∈ inputs, input.2.width ≤ maxWidth) {n : Nat}
    (hn : n < Nat.pow 2 (Text.total (inputs.map (·.2.width)))) (env : Env) :
    number inputs (assignment inputs n env) = n := by
  induction inputs generalizing n env with
  | nil =>
      have hzero : n = 0 := Nat.lt_one_iff.mp hn
      rw [hzero]
      rfl
  | cons input inputs ih =>
      rcases input with ⟨name, sort⟩
      rcases Assoc.distinct_cons.mp hdistinct with ⟨hnew, hdistinct⟩
      rcases List.forall_mem_cons.mp hwidth with ⟨hsort, hwidth⟩
      have hpos : 0 < Nat.pow 2 sort.width := Nat.two_pow_pos sort.width
      have hhigh : n >>> sort.width < Nat.pow 2 (Text.total (inputs.map (·.2.width))) := by
        rw [Nat.shiftRight_eq_div_pow]
        exact Nat.div_lt_of_lt_mul (Nat.lt_of_lt_of_eq hn (Nat.pow_add 2 sort.width _))
      have hfirst : (assignment ((name, sort) :: inputs) n env).get? name =
          some (.ofRaw sort (n % Nat.pow 2 sort.width)) :=
        get?_assignment_cons (Assoc.get?_eq_none_iff.mpr hnew) n env
      rw [number_cons hfirst, Value.raw_ofRaw hsort (Nat.mod_lt n hpos)]
      unfold assignment
      rw [ih hdistinct hwidth hhigh, Nat.shiftRight_eq_div_pow]
      exact Nat.mod_add_div n _

theorem number_congr {env env' : Env}
    (h : ∀ input ∈ inputs, env.get? input.1 = env'.get? input.1) :
    number inputs env = number inputs env' := by
  induction inputs with
  | nil => rfl
  | cons input inputs ih =>
      rcases List.forall_mem_cons.mp h with ⟨hinput, h⟩
      unfold number
      rw [hinput, ih h]

end Assignments

/-!
## Models
-/

theorem get?_foldl_set (wanted : List (String × BvSort)) (env known : Env) (x : String) :
    Assoc.get? ((wanted.filterMap fun (name, _) => (env.get? name).map fun v => (name, v)).foldl
        (fun m (name, v) => m.set name v) known) x =
      if (Assoc.get? wanted x).isSome then (env.get? x).or (known.get? x) else known.get? x := by
  induction wanted generalizing known with
  | nil => rfl
  | cons pair wanted ih =>
      rcases pair with ⟨name, sort⟩
      rw [Assoc.get?_cons]
      cases hv : env.get? name with
      | none =>
          rw [List.filterMap_cons_none (by simp [hv]), ih]
          by_cases hx : x = name
          · subst hx
            simp [hv]
          · rw [if_neg hx]
      | some v =>
          rw [List.filterMap_cons_some (b := (name, v)) (by simp [hv]), List.foldl_cons, ih,
            Assoc.get?_set]
          by_cases hx : x = name
          · subst hx
            simp [hv]
          · rw [if_neg hx, if_neg hx]

/-- A model has the values of the wanted names, and no others. -/
theorem get?_modelOver (wanted : List (String × BvSort)) (env : Env) (x : String) :
    (modelOver wanted env).get? x =
      if (Assoc.get? wanted x).isSome then env.get? x else none := by
  have hget := get?_foldl_set wanted env [] x
  rw [Assoc.get?_nil, Option.or_none] at hget
  exact hget

/-!
## Decisions
-/

section Search

variable {q : Query} (wanted : List (String × BvSort)) {expired : Nat → Bool}

/-- What a search without a time limit finds: the model of the first number in its range at
which the query holds, or that there is none. -/
theorem search_ok (hexpired : ∀ n, expired n = false)
    (hvalue : ∀ n, ∃ b, q.satisfiedBy (assignment q.inputs n []) = .ok b)
    (total remaining counter : Nat) :
    (∃ n, q.satisfiedBy (assignment q.inputs n []) = .ok true ∧
        search q wanted expired total remaining counter =
          .ok (.sat (modelOver wanted (assignment q.inputs n []))) ∧
        n < counter + remaining ∧
        ∀ m, counter ≤ m → m < n → q.satisfiedBy (assignment q.inputs m []) = .ok false) ∨
      (search q wanted expired total remaining counter = .ok .unsat ∧
        ∀ n, counter ≤ n → n < counter + remaining →
          q.satisfiedBy (assignment q.inputs n []) = .ok false) := by
  induction remaining generalizing counter with
  | zero =>
      refine Or.inr ⟨rfl, ?_⟩
      intro n hle hlt
      omega
  | succ remaining ih =>
      unfold search
      simp only [hexpired, Bool.and_false, Bool.false_eq_true, if_false]
      rcases hvalue counter with ⟨b, hb⟩
      rw [hb]
      cases b with
      | true =>
          refine Or.inl ⟨counter, hb, rfl, by omega, ?_⟩
          intro m hle hlt
          omega
      | false =>
          -- The numbers that are passed over now include the counter.
          have hpassed : ∀ {bound}, (∀ m, counter + 1 ≤ m → m < bound →
                q.satisfiedBy (assignment q.inputs m []) = .ok false) →
              ∀ m, counter ≤ m → m < bound →
                q.satisfiedBy (assignment q.inputs m []) = .ok false := by
            intro bound h m hle hlt
            rcases Nat.eq_or_lt_of_le hle with rfl | hlt'
            · exact hb
            · exact h m hlt' hlt
          have hend : counter + 1 + remaining = counter + (remaining + 1) := by omega
          rcases ih (counter + 1) with ⟨n, hn, hsat, hlt, hfirst⟩ | ⟨hunsat, hall⟩
          · exact Or.inl ⟨n, hn, hsat, hend ▸ hlt, hpassed hfirst⟩
          · exact Or.inr ⟨hunsat, hpassed (hend ▸ hall)⟩

variable {bits : Nat}

theorem decide_ok (hexpired : ∀ n, expired n = false) {known : Assoc BvSort}
    (hvalid : q.validate = .ok known) (hbits : q.inputBits ≤ min bits maxBits)
    (hvalue : ∀ n, ∃ b, q.satisfiedBy (assignment q.inputs n []) = .ok b) :
    (∃ n, q.satisfiedBy (assignment q.inputs n []) = .ok true ∧
        decide bits expired q wanted =
          .ok (.sat (modelOver wanted (assignment q.inputs n []))) ∧
        n < Nat.pow 2 q.inputBits ∧
        ∀ m < n, q.satisfiedBy (assignment q.inputs m []) = .ok false) ∨
      (decide bits expired q wanted = .ok .unsat ∧
        ∀ n < Nat.pow 2 q.inputBits, q.satisfiedBy (assignment q.inputs n []) = .ok false) := by
  unfold decide
  rw [hvalid]
  simp only [if_neg (Nat.not_lt.mpr hbits)]
  rcases search_ok wanted hexpired hvalue (Nat.pow 2 q.inputBits) (Nat.pow 2 q.inputBits) 0 with
    ⟨n, hn, hsat, hlt, hfirst⟩ | ⟨hunsat, hall⟩
  · rw [Nat.zero_add] at hlt
    exact Or.inl ⟨n, hn, hsat, hlt, fun m hm => hfirst m (Nat.zero_le m) hm⟩
  · refine Or.inr ⟨hunsat, ?_⟩
    intro n hn
    exact hall n (Nat.zero_le n) (by rw [Nat.zero_add]; exact hn)

theorem decide_beyond (expired : Nat → Bool) {known : Assoc BvSort}
    (hvalid : q.validate = .ok known) (hbits : min bits maxBits < q.inputBits) :
    ∃ reason, decide bits expired q wanted = .ok (.unknown reason) := by
  unfold decide
  rw [hvalid]
  simp only [if_pos hbits]
  exact ⟨_, rfl⟩

/-- A search ends under any time limit, be it that the time is up. -/
theorem search_ends (expired : Nat → Bool)
    (hvalue : ∀ n, ∃ b, q.satisfiedBy (assignment q.inputs n []) = .ok b)
    (total remaining counter : Nat) :
    ∃ d, search q wanted expired total remaining counter = .ok d := by
  induction remaining generalizing counter with
  | zero => exact ⟨_, rfl⟩
  | succ remaining ih =>
      unfold search
      split
      · exact ⟨_, rfl⟩
      · rcases hvalue counter with ⟨b, hb⟩
        dsimp only
        rw [hb]
        cases b with
        | true => exact ⟨_, rfl⟩
        | false => exact ih (counter + 1)

theorem decide_ends (expired : Nat → Bool) {known : Assoc BvSort}
    (hvalid : q.validate = .ok known)
    (hvalue : ∀ n, ∃ b, q.satisfiedBy (assignment q.inputs n []) = .ok b) :
    ∃ d, decide bits expired q wanted = .ok d := by
  unfold decide
  rw [hvalid]
  dsimp only
  split
  · exact ⟨_, rfl⟩
  · exact search_ends wanted expired hvalue _ _ _

/-- Under any time limit, what is found is the model of a number at which the query holds. -/
theorem search_sat {total remaining counter : Nat} {model : Model}
    (h : search q wanted expired total remaining counter = .ok (.sat model)) :
    ∃ n, q.satisfiedBy (assignment q.inputs n []) = .ok true ∧
      model = modelOver wanted (assignment q.inputs n []) := by
  induction remaining generalizing counter with
  | zero => cases h
  | succ remaining ih =>
      unfold search at h
      split at h
      · cases h
      · dsimp only at h
        split at h
        · cases h
        · rename_i hholds
          cases h
          exact ⟨counter, hholds, rfl⟩
        · exact ih h

theorem decide_sat {model : Model} (h : decide bits expired q wanted = .ok (.sat model)) :
    ∃ n, q.satisfiedBy (assignment q.inputs n []) = .ok true ∧
      model = modelOver wanted (assignment q.inputs n []) := by
  unfold decide at h
  split at h
  · cases h
  · dsimp only at h
    split at h
    · cases h
    · exact search_sat wanted h

end Search

end Exhaustive
end Solver
end BitEquiv

import BitEquiv.Proofs.Program.Miter

/-!
# Programs that agree

Two programs agree at input values when both have outputs there and every name has the
same value in both. Only the values of the inputs count, and for programs of one interface
agreement is that a comparison finds no differing output.
-/

namespace BitEquiv
namespace Program

open Logic

def FitsValues (p : Program) (given : Env) : Prop :=
  ∀ x s, (x, s) ∈ p.inputs → ∃ v, given.get? x = some v ∧ v.InSort s

/-- Both programs have outputs at the given values, and the same ones. -/
def AgreeAt (p q : Program) (given : Env) : Prop :=
  ∃ left right, p.evaluate given = .ok left ∧ q.evaluate given = .ok right ∧
    ∀ x, left.lookup x = right.lookup x

def Agree (p q : Program) : Prop := ∀ given, p.FitsValues given → AgreeAt p q given

/-!
## Values that are not read
-/

theorem bindInputs_congr {given given' env : Env} {inputs : List (String × BvSort)}
    (h : ∀ x s, (x, s) ∈ inputs → given.get? x = given'.get? x) :
    bindInputs given env inputs = bindInputs given' env inputs := by
  induction inputs generalizing env with
  | nil => rfl
  | cons input inputs ih =>
      rcases input with ⟨name, sort⟩
      have hrest : ∀ x s, (x, s) ∈ inputs → given.get? x = given'.get? x := by
        intro x s hx
        exact h x s (List.mem_cons_of_mem _ hx)
      unfold bindInputs
      rw [h name sort List.mem_cons_self]
      cases given'.get? name with
      | none => rfl
      | some v => simp only [ih hrest]

theorem evaluate_congr {p : Program} {given given' : Env}
    (h : ∀ x s, (x, s) ∈ p.inputs → given.get? x = given'.get? x) :
    p.evaluate given = p.evaluate given' := by
  unfold evaluate
  rw [bindInputs_congr h]

/-!
## Agreement and differing outputs
-/

section Agreement

variable {p q : Program}

theorem SameInterface.mem_inputs (hq : q.WellFormed) (hsame : SameInterface p q) {x : String}
    {s : BvSort} (h : (x, s) ∈ q.inputs) : (x, s) ∈ p.inputs := by
  have hget := Assoc.get?_of_mem hq.distinct h
  rw [← hsame.inputs] at hget
  exact Assoc.mem_of_get? hget

theorem AgreeAt.congr (hq : q.WellFormed) (hsame : SameInterface p q) {given given' : Env}
    (hget : ∀ x s, (x, s) ∈ p.inputs → given.get? x = given'.get? x) (h : AgreeAt p q given) :
    AgreeAt p q given' := by
  have hget' : ∀ x s, (x, s) ∈ q.inputs → given.get? x = given'.get? x := by
    intro x s hx
    exact hget x s (hsame.mem_inputs hq hx)
  unfold AgreeAt at h ⊢
  rw [evaluate_congr hget, evaluate_congr hget'] at h
  exact h

theorem FitsValues.matches {given : Env} (h : p.FitsValues given) :
    Matches (Assoc.get? p.inputs) given := by
  intro x s hx
  rcases h x s (Assoc.mem_of_get? hx) with ⟨v, hv, hsort, _⟩
  exact ⟨v, hv, hsort⟩

theorem lookup_outputsIn_eq_none_iff (env : Env) (x : String) :
    (p.outputsIn env).lookup x = none ↔ Assoc.get? p.outputSorts x = none := by
  show Assoc.get? (p.outputsIn env) x = none ↔ _
  rw [Assoc.get?_eq_none_iff, Assoc.get?_eq_none_iff]
  simp [outputsIn, outputSorts]

theorem lookup_outputsIn_eq_iff (hp : p.WellFormed) (hq : q.WellFormed)
    (hsame : SameInterface p q) (left right : Env) :
    (∀ x, (p.outputsIn left).lookup x = (q.outputsIn right).lookup x) ↔
      p.outputDiffs left right = [] := by
  have hself : SameInterface p p := ⟨fun _ => rfl, fun _ => rfl⟩
  unfold outputDiffs
  rw [List.filterMap_eq_nil_iff]
  constructor
  · intro h b hb
    have hvalue := h b.name
    rw [lookup_outputsIn hp hp hself hb, lookup_outputsIn hp hq hsame hb] at hvalue
    exact if_pos (Option.some.inj hvalue)
  · intro h x
    cases hx : Assoc.get? p.outputSorts x with
    | none =>
        have hx' := hx
        rw [hsame.outputs] at hx'
        rw [(lookup_outputsIn_eq_none_iff left x).mpr hx,
          (lookup_outputsIn_eq_none_iff right x).mpr hx']
    | some s =>
        rcases List.mem_map.mp (Assoc.mem_of_get? hx) with ⟨b, hb, heq⟩
        rcases Prod.mk.inj heq with ⟨rfl, _⟩
        rw [lookup_outputsIn hp hp hself hb, lookup_outputsIn hp hq hsame hb]
        have hdiffer := h b hb
        split at hdiffer
        · rename_i hvalue
          rw [hvalue]
        · cases hdiffer

theorem agreeAt_iff (hp : p.WellFormed) (hq : q.WellFormed) (hsame : SameInterface p q)
    {given : Env} (hgiven : Matches (Assoc.get? p.inputs) given) :
    AgreeAt p q given ↔ compareAt p q given = .ok [] := by
  rcases hp.valuesAt hgiven with ⟨_, left, _, _, hleft, _⟩
  rcases hq.valuesAt (hsame.matches_inputs hgiven) with ⟨_, right, _, _, hright, _⟩
  rw [compareAt_eq hp hq hsame hleft hright, Except.ok.injEq,
    ← lookup_outputsIn_eq_iff hp hq hsame]
  unfold AgreeAt
  rw [hp.evaluate_eq hleft, hq.evaluate_eq hright]
  constructor
  · rintro ⟨_, _, hl, hr, hlookup⟩
    cases hl
    cases hr
    exact hlookup
  · intro hlookup
    exact ⟨_, _, rfl, rfl, hlookup⟩

end Agreement

end Program
end BitEquiv

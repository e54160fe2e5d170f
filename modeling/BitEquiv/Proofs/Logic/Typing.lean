import BitEquiv.Logic.Typing

/-!
# The sort relation

The sort checker computes at most one sort for a term. This module says which one
without the order of the checks: a relation with one rule for each form of a term,
and the statement that the checker decides it. Facts about well-sorted terms are
proved by induction on the rules.
-/

namespace BitEquiv
namespace Logic

/-!
## Computations that can fail
-/

@[simp] theorem except_ok_bind {ε α β : Type} (a : α) (k : α → Except ε β) :
    ((.ok a : Except ε α) >>= k) = k a := rfl

@[simp] theorem except_ok_map {ε α β : Type} (f : α → β) (a : α) :
    f <$> (.ok a : Except ε α) = .ok (f a) := rfl

@[simp] theorem except_bind_eq_ok {ε α β : Type} {x : Except ε α} {k : α → Except ε β} {b : β} :
    (x >>= k) = .ok b ↔ ∃ a, x = .ok a ∧ k a = .ok b := by
  cases x with
  | error e =>
      constructor
      · intro h
        cases h
      · rintro ⟨a, ha, _⟩
        cases ha
  | ok a =>
      constructor
      · intro h
        exact ⟨a, rfl, h⟩
      · rintro ⟨a', ha, h⟩
        cases ha
        exact h

@[simp] theorem except_map_eq_ok {ε α β : Type} {x : Except ε α} {f : α → β} {b : β} :
    (f <$> x) = .ok b ↔ ∃ a, x = .ok a ∧ f a = b := by
  cases x with
  | error e =>
      constructor
      · intro h
        cases h
      · rintro ⟨a, ha, _⟩
        cases ha
  | ok a =>
      constructor
      · intro h
        exact ⟨a, rfl, Except.ok.inj h⟩
      · rintro ⟨a', ha, rfl⟩
        cases ha
        rfl

@[simp] theorem ite_throw_eq_ok {ε α : Type} {c : Prop} [Decidable c] {e : ε} {a b : α} :
    (if c then (pure a : Except ε α) else throw e) = .ok b ↔ c ∧ a = b := by
  split <;> rename_i hc
  · constructor
    · intro h
      cases h
      exact ⟨hc, rfl⟩
    · rintro ⟨_, rfl⟩
      rfl
  · constructor
    · intro h
      cases h
    · rintro ⟨h, _⟩
      exact absurd h hc

@[simp] theorem pure_eq_ok {ε α : Type} {a b : α} : (pure a : Except ε α) = .ok b ↔ a = b := by
  constructor
  · intro h
    cases h
    rfl
  · rintro rfl
    rfl

namespace Term

/-!
## Checks on single sorts
-/

@[simp] theorem checkedWidth_eq_ok {w : Nat} {s : BvSort} :
    checkedWidth w = .ok s ↔ 1 ≤ w ∧ w ≤ maxWidth ∧ s = .bitVec w := by
  unfold checkedWidth
  split
  · constructor
    · intro h
      cases h
    · rintro ⟨hpos, hmax, _⟩
      omega
  · constructor
    · intro h
      cases h
      exact ⟨by omega, by omega, rfl⟩
    · rintro ⟨_, _, rfl⟩
      rfl

@[simp] theorem asBoolSort_eq_ok {s : BvSort} {u : Unit} : asBoolSort s = .ok u ↔ s = .bool := by
  cases s <;> simp [asBoolSort]

@[simp] theorem asWordSort_eq_ok {s : BvSort} {w : Nat} : asWordSort s = .ok w ↔ s = .bitVec w := by
  cases s <;> simp [asWordSort]

/-- Extended widths are counted far beyond the widest word, so a width that words
can have is a plain sum. -/
theorem checkedWidth_extended_eq_ok {w k : Nat} {s : BvSort} :
    checkedWidth (Word.extended w k) = .ok s ↔
      1 ≤ w + k ∧ w + k ≤ maxWidth ∧ s = .bitVec (w + k) := by
  have hbig : maxWidth < Nat.pow 2 32 - 1 := by decide
  rw [checkedWidth_eq_ok]
  unfold Word.extended
  constructor
  · rintro ⟨hpos, hmax, rfl⟩
    have hsum : min (w + k) (Nat.pow 2 32 - 1) = w + k := by omega
    rw [hsum] at hpos hmax ⊢
    exact ⟨hpos, hmax, rfl⟩
  · rintro ⟨hpos, hmax, rfl⟩
    have hsum : min (w + k) (Nat.pow 2 32 - 1) = w + k := by omega
    rw [hsum]
    exact ⟨hpos, hmax, rfl⟩

/-!
## The rules
-/

/-- `HasSort scope t s`: the term `t` has the sort `s` when its variables have the
sorts of `scope`. -/
inductive HasSort (scope : Scope) : Term → BvSort → Prop
  | var {x s} (hx : scope x = some s) : HasSort scope (.var x) s
  | boolLit {b} : HasSort scope (.boolLit b) .bool
  | bvLit {bits w fits} (hpos : 1 ≤ w) (hmax : w ≤ maxWidth) :
      HasSort scope (.bvLit bits w fits) (.bitVec w)
  | not {a} (ha : HasSort scope a .bool) : HasSort scope (.not a) .bool
  | and {as} (has : ∀ a ∈ as, HasSort scope a .bool) : HasSort scope (.and as) .bool
  | or {as} (has : ∀ a ∈ as, HasSort scope a .bool) : HasSort scope (.or as) .bool
  | xor {a b} (ha : HasSort scope a .bool) (hb : HasSort scope b .bool) :
      HasSort scope (.xor a b) .bool
  | implies {a b} (ha : HasSort scope a .bool) (hb : HasSort scope b .bool) :
      HasSort scope (.implies a b) .bool
  | eq {a b s} (ha : HasSort scope a s) (hb : HasSort scope b s) : HasSort scope (.eq a b) .bool
  | distinct {a b s} (ha : HasSort scope a s) (hb : HasSort scope b s) :
      HasSort scope (.distinct a b) .bool
  | ite {c a b s} (hc : HasSort scope c .bool) (ha : HasSort scope a s) (hb : HasSort scope b s) :
      HasSort scope (.ite c a b) s
  | unary {op a w} (ha : HasSort scope a (.bitVec w)) : HasSort scope (.unary op a) (.bitVec w)
  | binary {op a b w} (ha : HasSort scope a (.bitVec w)) (hb : HasSort scope b (.bitVec w)) :
      HasSort scope (.binary op a b) (.bitVec w)
  | compare {op a b w} (ha : HasSort scope a (.bitVec w)) (hb : HasSort scope b (.bitVec w)) :
      HasSort scope (.compare op a b) .bool
  | extract {hi lo a w} (ha : HasSort scope a (.bitVec w)) (hlo : lo ≤ hi) (hhi : hi < w) :
      HasSort scope (.extract hi lo a) (.bitVec (hi - lo + 1))
  | concat {a b v w} (ha : HasSort scope a (.bitVec v)) (hb : HasSort scope b (.bitVec w))
      (hpos : 1 ≤ v + w) (hmax : v + w ≤ maxWidth) : HasSort scope (.concat a b) (.bitVec (v + w))
  | zeroExtend {k a w} (ha : HasSort scope a (.bitVec w)) (hpos : 1 ≤ w + k)
      (hmax : w + k ≤ maxWidth) : HasSort scope (.zeroExtend k a) (.bitVec (w + k))
  | signExtend {k a w} (ha : HasSort scope a (.bitVec w)) (hpos : 1 ≤ w + k)
      (hmax : w + k ≤ maxWidth) : HasSort scope (.signExtend k a) (.bitVec (w + k))

mutual

theorem hasSort_of_sortOf {scope : Scope} :
    ∀ {t : Term} {s : BvSort}, t.sortOf scope = .ok s → HasSort scope t s
  | .var x, s, h => by
      unfold sortOf at h
      cases hx : scope x with
      | none =>
          rw [hx] at h
          cases h
      | some s' =>
          rw [hx] at h
          cases h
          exact .var hx
  | .boolLit b, s, h => by
      cases h
      exact .boolLit
  | .bvLit bits w _, s, h => by
      rcases checkedWidth_eq_ok.mp h with ⟨hpos, hmax, rfl⟩
      exact .bvLit hpos hmax
  | .not a, s, h => by
      simp only [sortOf, except_bind_eq_ok, asBoolSort_eq_ok, pure_eq_ok] at h
      rcases h with ⟨_, ha, _, rfl, rfl⟩
      exact .not (hasSort_of_sortOf ha)
  | .and as, s, h => by
      simp only [sortOf, except_bind_eq_ok, pure_eq_ok] at h
      rcases h with ⟨_, has, rfl⟩
      exact .and (hasSort_of_allBool has)
  | .or as, s, h => by
      simp only [sortOf, except_bind_eq_ok, pure_eq_ok] at h
      rcases h with ⟨_, has, rfl⟩
      exact .or (hasSort_of_allBool has)
  | .xor a b, s, h => by
      simp only [sortOf, except_bind_eq_ok, asBoolSort_eq_ok, pure_eq_ok] at h
      rcases h with ⟨_, ha, _, rfl, _, hb, _, rfl, rfl⟩
      exact .xor (hasSort_of_sortOf ha) (hasSort_of_sortOf hb)
  | .implies a b, s, h => by
      simp only [sortOf, except_bind_eq_ok, asBoolSort_eq_ok, pure_eq_ok] at h
      rcases h with ⟨_, ha, _, rfl, _, hb, _, rfl, rfl⟩
      exact .implies (hasSort_of_sortOf ha) (hasSort_of_sortOf hb)
  | .eq a b, s, h => by
      simp only [sortOf, except_bind_eq_ok, ite_throw_eq_ok] at h
      rcases h with ⟨_, ha, _, hb, rfl, rfl⟩
      exact .eq (hasSort_of_sortOf ha) (hasSort_of_sortOf hb)
  | .distinct a b, s, h => by
      simp only [sortOf, except_bind_eq_ok, ite_throw_eq_ok] at h
      rcases h with ⟨_, ha, _, hb, rfl, rfl⟩
      exact .distinct (hasSort_of_sortOf ha) (hasSort_of_sortOf hb)
  | .ite c a b, s, h => by
      simp only [sortOf, except_bind_eq_ok, asBoolSort_eq_ok, ite_throw_eq_ok] at h
      rcases h with ⟨_, hc, _, rfl, _, ha, _, hb, rfl, rfl⟩
      exact .ite (hasSort_of_sortOf hc) (hasSort_of_sortOf ha) (hasSort_of_sortOf hb)
  | .unary op a, s, h => by
      simp only [sortOf, except_bind_eq_ok, asWordSort_eq_ok, pure_eq_ok] at h
      rcases h with ⟨_, ha, w, rfl, rfl⟩
      exact .unary (hasSort_of_sortOf ha)
  | .binary op a b, s, h => by
      simp only [sortOf, except_bind_eq_ok, asWordSort_eq_ok, ite_throw_eq_ok] at h
      rcases h with ⟨_, ha, v, rfl, _, hb, w, rfl, rfl, rfl⟩
      exact .binary (hasSort_of_sortOf ha) (hasSort_of_sortOf hb)
  | .compare op a b, s, h => by
      simp only [sortOf, except_bind_eq_ok, asWordSort_eq_ok, ite_throw_eq_ok] at h
      rcases h with ⟨_, ha, v, rfl, _, hb, w, rfl, rfl, rfl⟩
      exact .compare (hasSort_of_sortOf ha) (hasSort_of_sortOf hb)
  | .extract hi lo a, s, h => by
      simp only [sortOf, except_bind_eq_ok, asWordSort_eq_ok, ite_throw_eq_ok] at h
      rcases h with ⟨_, ha, w, rfl, ⟨hlo, hhi⟩, rfl⟩
      exact .extract (hasSort_of_sortOf ha) hlo hhi
  | .concat a b, s, h => by
      simp only [sortOf, except_bind_eq_ok, asWordSort_eq_ok, checkedWidth_eq_ok] at h
      rcases h with ⟨_, ha, v, rfl, _, hb, w, rfl, hpos, hmax, rfl⟩
      exact .concat (hasSort_of_sortOf ha) (hasSort_of_sortOf hb) hpos hmax
  | .zeroExtend k a, s, h => by
      simp only [sortOf, except_bind_eq_ok, asWordSort_eq_ok, checkedWidth_extended_eq_ok] at h
      rcases h with ⟨_, ha, w, rfl, hpos, hmax, rfl⟩
      exact .zeroExtend (hasSort_of_sortOf ha) hpos hmax
  | .signExtend k a, s, h => by
      simp only [sortOf, except_bind_eq_ok, asWordSort_eq_ok, checkedWidth_extended_eq_ok] at h
      rcases h with ⟨_, ha, w, rfl, hpos, hmax, rfl⟩
      exact .signExtend (hasSort_of_sortOf ha) hpos hmax

theorem hasSort_of_allBool {scope : Scope} :
    ∀ {ts : List Term} {u : Unit}, allBool scope ts = .ok u → ∀ t ∈ ts, HasSort scope t .bool
  | [], _, _ => by
      intro t ht
      cases ht
  | a :: as, _, h => by
      simp only [allBool, except_bind_eq_ok, asBoolSort_eq_ok] at h
      rcases h with ⟨_, ha, _, rfl, has⟩
      intro t ht
      rcases List.mem_cons.mp ht with hta | ht
      · rw [hta]
        exact hasSort_of_sortOf ha
      · exact hasSort_of_allBool has t ht

end

theorem allBool_eq_ok {scope : Scope} {ts : List Term}
    (h : ∀ t ∈ ts, t.sortOf scope = .ok .bool) : allBool scope ts = .ok () := by
  induction ts with
  | nil => rfl
  | cons t ts ih =>
      unfold allBool
      rw [h t List.mem_cons_self]
      exact ih fun a ha => h a (List.mem_cons_of_mem t ha)

theorem sortOf_of_hasSort {scope : Scope} {t : Term} {s : BvSort} (h : HasSort scope t s) :
    t.sortOf scope = .ok s := by
  induction h with
  | var hx =>
      unfold sortOf
      rw [hx]
  | boolLit => rfl
  | bvLit hpos hmax => exact checkedWidth_eq_ok.mpr ⟨hpos, hmax, rfl⟩
  | not _ iha =>
      unfold sortOf
      rw [iha]
      rfl
  | and _ ihas =>
      unfold sortOf
      rw [allBool_eq_ok ihas]
      rfl
  | or _ ihas =>
      unfold sortOf
      rw [allBool_eq_ok ihas]
      rfl
  | xor _ _ iha ihb =>
      unfold sortOf
      rw [iha, ihb]
      rfl
  | implies _ _ iha ihb =>
      unfold sortOf
      rw [iha, ihb]
      rfl
  | eq _ _ iha ihb =>
      unfold sortOf
      rw [iha, ihb]
      exact if_pos rfl
  | distinct _ _ iha ihb =>
      unfold sortOf
      rw [iha, ihb]
      exact if_pos rfl
  | ite _ _ _ ihc iha ihb =>
      unfold sortOf
      rw [ihc, iha, ihb]
      exact if_pos rfl
  | unary _ iha =>
      unfold sortOf
      rw [iha]
      rfl
  | binary _ _ iha ihb =>
      unfold sortOf
      rw [iha, ihb]
      exact if_pos rfl
  | compare _ _ iha ihb =>
      unfold sortOf
      rw [iha, ihb]
      exact if_pos rfl
  | extract _ hlo hhi iha =>
      unfold sortOf
      rw [iha]
      exact if_pos ⟨hlo, hhi⟩
  | concat _ _ hpos hmax iha ihb =>
      unfold sortOf
      rw [iha, ihb]
      exact checkedWidth_eq_ok.mpr ⟨hpos, hmax, rfl⟩
  | zeroExtend _ hpos hmax iha =>
      unfold sortOf
      rw [iha]
      exact checkedWidth_extended_eq_ok.mpr ⟨hpos, hmax, rfl⟩
  | signExtend _ hpos hmax iha =>
      unfold sortOf
      rw [iha]
      exact checkedWidth_extended_eq_ok.mpr ⟨hpos, hmax, rfl⟩

theorem sortOf_eq_ok_iff {scope : Scope} {t : Term} {s : BvSort} :
    t.sortOf scope = .ok s ↔ HasSort scope t s :=
  ⟨hasSort_of_sortOf, sortOf_of_hasSort⟩

/-!
## What the rules keep
-/

/-- Every sort of a scope is one that values can have. -/
def ValidScope (scope : Scope) : Prop :=
  ∀ x s, scope x = some s → s.isValid = true

theorem isValid_bitVec {w : Nat} :
    (BvSort.bitVec w).isValid = true ↔ 1 ≤ w ∧ w ≤ maxWidth := by
  simp [BvSort.isValid]

theorem width_le_of_isValid {s : BvSort} (h : s.isValid = true) : s.width ≤ maxWidth := by
  cases s with
  | bool => exact Nat.le_add_left 1 127
  | bitVec w => exact (isValid_bitVec.mp h).2

theorem HasSort.isValid {scope : Scope} (hscope : ValidScope scope) {t : Term} {s : BvSort}
    (h : HasSort scope t s) : s.isValid = true := by
  induction h with
  | var hx => exact hscope _ _ hx
  | boolLit => rfl
  | bvLit hpos hmax => exact isValid_bitVec.mpr ⟨hpos, hmax⟩
  | not _ _ => rfl
  | and _ _ => rfl
  | or _ _ => rfl
  | xor _ _ _ _ => rfl
  | implies _ _ _ _ => rfl
  | eq _ _ _ _ => rfl
  | distinct _ _ _ _ => rfl
  | ite _ _ _ _ iha _ => exact iha
  | unary _ iha => exact iha
  | binary _ _ iha _ => exact iha
  | compare _ _ _ _ => rfl
  | extract _ hlo hhi iha =>
      have hw := isValid_bitVec.mp iha
      exact isValid_bitVec.mpr (by omega)
  | concat _ _ hpos hmax _ _ => exact isValid_bitVec.mpr ⟨hpos, hmax⟩
  | zeroExtend _ hpos hmax _ => exact isValid_bitVec.mpr ⟨hpos, hmax⟩
  | signExtend _ hpos hmax _ => exact isValid_bitVec.mpr ⟨hpos, hmax⟩

theorem forall_mem_renameAll {f : String → String} {ts : List Term} {P : Term → Prop}
    (h : ∀ t ∈ ts, P (t.rename f)) : ∀ t ∈ renameAll f ts, P t := by
  rw [renameAll_eq_map]
  intro t ht
  rcases List.mem_map.mp ht with ⟨a, ha, rfl⟩
  exact h a ha

/-- A renamed term has its sort in every scope that gives the new names the sorts of
the old ones. -/
theorem HasSort.rename {scope scope' : Scope} {f : String → String}
    (hf : ∀ x s, scope x = some s → scope' (f x) = some s) {t : Term} {s : BvSort}
    (h : HasSort scope t s) : HasSort scope' (t.rename f) s := by
  induction h with
  | var hx => exact .var (hf _ _ hx)
  | boolLit => exact .boolLit
  | bvLit hpos hmax => exact .bvLit hpos hmax
  | not _ iha => exact .not iha
  | and _ ihas => exact .and (forall_mem_renameAll ihas)
  | or _ ihas => exact .or (forall_mem_renameAll ihas)
  | xor _ _ iha ihb => exact .xor iha ihb
  | implies _ _ iha ihb => exact .implies iha ihb
  | eq _ _ iha ihb => exact .eq iha ihb
  | distinct _ _ iha ihb => exact .distinct iha ihb
  | ite _ _ _ ihc iha ihb => exact .ite ihc iha ihb
  | unary _ iha => exact .unary iha
  | binary _ _ iha ihb => exact .binary iha ihb
  | compare _ _ iha ihb => exact .compare iha ihb
  | extract _ hlo hhi iha => exact .extract iha hlo hhi
  | concat _ _ hpos hmax iha ihb => exact .concat iha ihb hpos hmax
  | zeroExtend _ hpos hmax iha => exact .zeroExtend iha hpos hmax
  | signExtend _ hpos hmax iha => exact .signExtend iha hpos hmax

mutual

theorem rename_id : ∀ t : Term, t.rename id = t
  | .var _ => rfl
  | .boolLit _ => rfl
  | .bvLit .. => rfl
  | .not a => by rw [Term.rename, rename_id a]
  | .and as => by rw [Term.rename, renameAll_id as]
  | .or as => by rw [Term.rename, renameAll_id as]
  | .xor a b => by rw [Term.rename, rename_id a, rename_id b]
  | .implies a b => by rw [Term.rename, rename_id a, rename_id b]
  | .eq a b => by rw [Term.rename, rename_id a, rename_id b]
  | .distinct a b => by rw [Term.rename, rename_id a, rename_id b]
  | .ite c a b => by rw [Term.rename, rename_id c, rename_id a, rename_id b]
  | .unary _ a => by rw [Term.rename, rename_id a]
  | .binary _ a b => by rw [Term.rename, rename_id a, rename_id b]
  | .compare _ a b => by rw [Term.rename, rename_id a, rename_id b]
  | .extract _ _ a => by rw [Term.rename, rename_id a]
  | .concat a b => by rw [Term.rename, rename_id a, rename_id b]
  | .zeroExtend _ a => by rw [Term.rename, rename_id a]
  | .signExtend _ a => by rw [Term.rename, rename_id a]

theorem renameAll_id : ∀ ts : List Term, renameAll id ts = ts
  | [] => rfl
  | t :: ts => by rw [renameAll, rename_id t, renameAll_id ts]

end

theorem HasSort.mono {scope scope' : Scope}
    (hsub : ∀ x s, scope x = some s → scope' x = some s) {t : Term} {s : BvSort}
    (h : HasSort scope t s) : HasSort scope' t s := by
  have hid := h.rename (f := id) hsub
  rw [rename_id] at hid
  exact hid

end Term
end Logic
end BitEquiv

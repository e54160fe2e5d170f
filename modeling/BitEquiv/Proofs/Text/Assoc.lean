import BitEquiv.Text.Assoc

/-!
# Look-ups in finite maps

A list of pairs is a map in which the first pair of a name counts. When no name occurs
twice, the look-up of a name and membership of its pair are the same.
-/

namespace BitEquiv
namespace Assoc

variable {α : Type}

def Distinct (m : Assoc α) : Prop := (m.map (·.1)).Nodup

instance (m : Assoc α) : Decidable (Distinct m) :=
  inferInstanceAs (Decidable (m.map (·.1)).Nodup)

theorem distinct_cons {pair : String × α} {m : Assoc α} :
    Distinct (pair :: m) ↔ (∀ other ∈ m, other.1 ≠ pair.1) ∧ Distinct m := by
  unfold Distinct
  rw [List.map_cons, List.nodup_cons, List.mem_map]
  constructor
  · rintro ⟨hnew, hrest⟩
    exact ⟨fun other hother heq => hnew ⟨other, hother, heq⟩, hrest⟩
  · rintro ⟨hnew, hrest⟩
    refine ⟨?_, hrest⟩
    rintro ⟨other, hother, heq⟩
    exact hnew other hother heq

theorem get?_eq_none_iff {m : Assoc α} {x : String} :
    get? m x = none ↔ ∀ pair ∈ m, pair.1 ≠ x := by
  unfold get?
  rw [List.lookup_eq_none_iff]
  constructor
  · intro h pair hpair heq
    have hne := h pair hpair
    rw [heq] at hne
    simp at hne
  · intro h pair hpair
    simpa using (h pair hpair).symm

theorem not_mem_names_iff {m : Assoc α} {x : String} : x ∉ m.names ↔ get? m x = none := by
  rw [get?_eq_none_iff]
  unfold names
  rw [List.mem_map]
  constructor
  · intro h pair hpair heq
    exact h ⟨pair, hpair, heq⟩
  · rintro h ⟨pair, hpair, heq⟩
    exact h pair hpair heq

theorem mem_of_get? {m : Assoc α} {x : String} {a : α} (h : get? m x = some a) : (x, a) ∈ m := by
  induction m with
  | nil => cases h
  | cons pair m ih =>
      rcases pair with ⟨n, b⟩
      rw [get?_cons] at h
      split at h
      · rename_i hx
        cases h
        rw [hx]
        exact List.mem_cons_self
      · exact List.mem_cons_of_mem _ (ih h)

theorem mem_names_of_get? {m : Assoc α} {x : String} {a : α} (h : get? m x = some a) :
    x ∈ m.names :=
  List.mem_map_of_mem (mem_of_get? h)

theorem get?_of_mem {m : Assoc α} (hm : Distinct m) {x : String} {a : α} (h : (x, a) ∈ m) :
    get? m x = some a := by
  induction m with
  | nil => cases h
  | cons pair m ih =>
      rcases pair with ⟨n, b⟩
      rcases distinct_cons.mp hm with ⟨hnew, hm⟩
      rw [get?_cons]
      rcases List.mem_cons.mp h with heq | h
      · cases heq
        exact if_pos rfl
      · rw [if_neg (hnew (x, a) h)]
        exact ih hm h

theorem get?_cons_of_new {m : Assoc α} {n x : String} {a b : α} (hn : get? m n = none)
    (h : get? m x = some b) : get? ((n, a) :: m) x = some b := by
  rw [get?_cons, if_neg, h]
  rintro rfl
  rw [hn] at h
  cases h

theorem get?_map_names {f : String → String} (hf : Function.Injective f) (m : Assoc α)
    (x : String) : get? (m.map fun pair => (f pair.1, pair.2)) (f x) = get? m x := by
  induction m with
  | nil => rfl
  | cons pair m ih =>
      rcases pair with ⟨n, a⟩
      rw [List.map_cons, get?_cons, get?_cons, ih]
      by_cases hx : x = n
      · rw [if_pos hx, if_pos (congrArg f hx)]
      · rw [if_neg hx, if_neg fun heq => hx (hf heq)]

theorem get?_append (m m' : Assoc α) (x : String) :
    get? (m ++ m') x = (get? m x).or (get? m' x) :=
  List.lookup_append

theorem set_of_new {m : Assoc α} {x : String} (hx : get? m x = none) (a : α) :
    set m x a = m ++ [(x, a)] := by
  induction m with
  | nil => rfl
  | cons pair m ih =>
      rcases pair with ⟨n, b⟩
      rw [get?_cons] at hx
      split at hx
      · cases hx
      · rename_i hne
        rw [set, if_neg fun heq => hne heq.symm, ih hx]
        rfl

theorem distinct_append_singleton {m : Assoc α} {x : String} {a : α} (hm : Distinct m)
    (hx : get? m x = none) : Distinct (m ++ [(x, a)]) := by
  unfold Distinct
  rw [List.map_append, List.nodup_append]
  refine ⟨hm, by simp, ?_⟩
  intro y hy z hz
  rcases List.mem_map.mp hy with ⟨pair, hpair, rfl⟩
  rw [List.map_singleton, List.mem_singleton] at hz
  rw [hz]
  exact get?_eq_none_iff.mp hx pair hpair

theorem get?_eq_none_of_distinct {m m' : Assoc α} {pair : String × α}
    (h : Distinct (m ++ pair :: m')) : get? m pair.1 = none := by
  unfold Distinct at h
  rw [List.map_append, List.nodup_append] at h
  rw [get?_eq_none_iff]
  intro other hother
  exact h.2.2 other.1 (List.mem_map_of_mem hother) pair.1 List.mem_cons_self

theorem get?_foldl_pairs (pairs m : Assoc α) (x : String) :
    get? (pairs.foldl (fun m (name, a) => set m name a) m) x =
      (get? pairs.reverse x).or (get? m x) := by
  induction pairs generalizing m with
  | nil => rfl
  | cons pair pairs ih =>
      rcases pair with ⟨n, a⟩
      rw [List.foldl_cons, ih, List.reverse_cons, get?_append, Option.or_assoc, get?_set, get?_cons]
      split <;> rfl

/-- Pairs of new names are added at the end, in their order. -/
theorem foldl_set_of_distinct {m pairs : Assoc α} (h : Distinct (m ++ pairs)) :
    pairs.foldl (fun m (name, a) => set m name a) m = m ++ pairs := by
  induction pairs generalizing m with
  | nil => exact (List.append_nil m).symm
  | cons pair pairs ih =>
      rcases pair with ⟨n, a⟩
      have hset : set m n a = m ++ [(n, a)] := set_of_new (get?_eq_none_of_distinct h) a
      rw [List.append_cons] at h ⊢
      rw [List.foldl_cons]
      show pairs.foldl _ (set m n a) = _
      rw [hset]
      exact ih h

theorem ofList_of_distinct {pairs : Assoc α} (h : Distinct pairs) : ofList pairs = pairs :=
  foldl_set_of_distinct (m := []) h

/-- Maps with the same names in the same order are equal when their values are. -/
theorem eq_of_get? {m m' : Assoc α} (hnames : m.map (·.1) = m'.map (·.1)) (hm : Distinct m)
    (h : ∀ x ∈ m.map (·.1), get? m x = get? m' x) : m = m' := by
  induction m generalizing m' with
  | nil => exact (List.map_eq_nil_iff.mp hnames.symm).symm
  | cons pair m ih =>
      rcases pair with ⟨n, a⟩
      cases m' with
      | nil => cases hnames
      | cons pair' m' =>
          rcases pair' with ⟨n', a'⟩
          have hcons : n :: m.map (·.1) = n' :: m'.map (·.1) := hnames
          rcases List.cons.inj hcons with ⟨rfl, hrest⟩
          rcases distinct_cons.mp hm with ⟨hnew, hm⟩
          have hvalue := h n List.mem_cons_self
          rw [get?_cons, get?_cons, if_pos rfl, if_pos rfl] at hvalue
          cases hvalue
          rw [ih hrest hm]
          intro x hx
          have hne : x ≠ n := by
            rcases List.mem_map.mp hx with ⟨other, hother, rfl⟩
            exact hnew other hother
          have hx' := h x (List.mem_cons_of_mem n hx)
          rw [get?_cons, get?_cons, if_neg hne, if_neg hne] at hx'
          exact hx'

theorem get?_ofList (pairs : Assoc α) (x : String) :
    get? (ofList pairs) x = get? pairs.reverse x := by
  rw [ofList, get?_foldl_pairs, get?_nil, Option.or_none]

theorem mem_of_get?_ofList {pairs : Assoc α} {x : String} {a : α}
    (h : get? (ofList pairs) x = some a) : (x, a) ∈ pairs := by
  rw [get?_ofList] at h
  exact List.mem_reverse.mp (mem_of_get? h)

theorem get?_ofList_of_unique {pairs : Assoc α} {x : String} {a : α} (hmem : (x, a) ∈ pairs)
    (hunique : ∀ b, (x, b) ∈ pairs → b = a) : get? (ofList pairs) x = some a := by
  cases hget : get? (ofList pairs) x with
  | some b => rw [hunique b (mem_of_get?_ofList hget)]
  | none =>
      rw [get?_ofList, get?_eq_none_iff] at hget
      exact absurd rfl (hget _ (List.mem_reverse.mpr hmem))

theorem has_eq_false_iff {m : Assoc α} {x : String} : has m x = false ↔ get? m x = none := by
  unfold has
  rw [Option.isSome_eq_false_iff, Option.isNone_iff_eq_none]

end Assoc
end BitEquiv

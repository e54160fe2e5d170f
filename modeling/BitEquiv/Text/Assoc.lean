/-!
# Finite maps by name

A finite map is a list of pairs in the order in which the names first came.
Setting a name replaces its value in place, so a name occurs at most once in a
map that was built by `set`.
-/

namespace BitEquiv

abbrev Assoc (α : Type) := List (String × α)

namespace Assoc

variable {α β : Type}

def get? (m : Assoc α) (name : String) : Option α := m.lookup name

/-- Give `name` a value: in place when it has one, at the end when not. -/
def set (m : Assoc α) (name : String) (a : α) : Assoc α :=
  match m with
  | [] => [(name, a)]
  | (n, b) :: rest => if n = name then (n, a) :: rest else (n, b) :: set rest name a

def names (m : Assoc α) : List String := m.map (·.1)

def has (m : Assoc α) (name : String) : Bool := (m.get? name).isSome

def ofList (pairs : List (String × α)) : Assoc α :=
  pairs.foldl (fun m (name, a) => set m name a) []

def mapValues (f : α → β) (m : Assoc α) : Assoc β := m.map fun (name, a) => (name, f a)

@[simp] theorem get?_nil (name : String) : get? ([] : Assoc α) name = none := rfl

theorem get?_cons (n : String) (a : α) (m : Assoc α) (name : String) :
    get? ((n, a) :: m) name = if name = n then some a else get? m name := by
  unfold get?
  rw [List.lookup_cons]
  by_cases h : name = n
  · simp [h]
  · have hb : (name == n) = false := by simpa using h
    simp [h, hb]

/-- A look-up after `set` finds the new value for that name and the old one for
every other name. -/
theorem get?_set (m : Assoc α) (n : String) (a : α) (name : String) :
    get? (set m n a) name = if name = n then some a else get? m name := by
  induction m with
  | nil => simp [set, get?_cons]
  | cons pair rest ih =>
      obtain ⟨k, b⟩ := pair
      by_cases hk : k = n
      · subst hk
        simp only [set, if_true, get?_cons]
        by_cases hn : name = k <;> simp [hn]
      · simp only [set, hk, if_false, get?_cons, ih]
        by_cases hn : name = k
        · subst hn
          simp [hk]
        · simp [hn]

theorem get?_mapValues (f : α → β) (m : Assoc α) (name : String) :
    get? (mapValues f m) name = (get? m name).map f := by
  induction m with
  | nil => rfl
  | cons pair rest ih =>
      obtain ⟨k, b⟩ := pair
      have ih' : get? (List.map (fun x => (x.1, f x.2)) rest) name = (get? rest name).map f := ih
      simp only [mapValues, List.map_cons, get?_cons, ih']
      split <;> rfl

theorem has_iff (m : Assoc α) (name : String) : has m name = true ↔ ∃ a, get? m name = some a := by
  simp [has, Option.isSome_iff_exists]

end Assoc
end BitEquiv

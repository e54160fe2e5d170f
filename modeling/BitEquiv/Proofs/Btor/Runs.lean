import BitEquiv.Proofs.Btor.Reading

/-!
# Runs of numbered rows

A row defines its own identifier and nothing else, so a run keeps what it has defined. What a
row mentions has been defined by then, which makes it the identifier of a row before it.
-/

namespace BitEquiv
namespace Btor

/-!
## Numbered lines
-/

theorem numbered_append (id : Nat) (lines lines' : List Line) :
    numbered id (lines ++ lines') = numbered id lines ++ numbered (id + lines.length) lines' := by
  induction lines generalizing id with
  | nil => rfl
  | cons line lines ih =>
      rw [List.cons_append, numbered, ih, numbered, List.length_cons, List.cons_append,
        Nat.add_assoc, Nat.add_comm 1]

theorem map_fst_numbered (id : Nat) (lines : List Line) :
    (numbered id lines).map (·.1) = List.range' id lines.length := by
  induction lines generalizing id with
  | nil => rfl
  | cons line lines ih => rw [numbered, List.map_cons, ih, List.length_cons, List.range'_succ]

theorem run?_append (rows rows' : List Row) (r : Run) :
    run? (rows ++ rows') r = (run? rows r).bind (run? rows') := by
  induction rows generalizing r with
  | nil => rfl
  | cons row rows ih =>
      show (row.2.step? row.1 r).bind (run? (rows ++ rows')) =
        ((row.2.step? row.1 r).bind (run? rows)).bind (run? rows')
      cases row.2.step? row.1 r with
      | none => rfl
      | some r' => exact ih r'

/-!
## What is defined
-/

namespace Run

/-- Sorts and nodes have positive identifiers below `n`. -/
structure Within (r : Run) (n : Nat) : Prop where
  sorts : ∀ i w, r.sorts i = some w → 1 ≤ i ∧ i < n
  nodes : ∀ i x, r.nodes i = some x → 1 ≤ i ∧ i < n

structure Extends (r r' : Run) : Prop where
  sorts : ∀ i w, r.sorts i = some w → r'.sorts i = some w
  nodes : ∀ i x, r.nodes i = some x → r'.nodes i = some x

theorem Extends.refl (r : Run) : r.Extends r := ⟨fun _ _ h => h, fun _ _ h => h⟩

theorem Extends.trans {r r' r'' : Run} (h : r.Extends r') (h' : r'.Extends r'') :
    r.Extends r'' :=
  ⟨fun i w hi => h'.sorts i w (h.sorts i w hi), fun i x hi => h'.nodes i x (h.nodes i x hi)⟩

structure Grows (r r' : Run) : Prop extends Extends r r' where
  inputs : r'.inputs = r.inputs
  pending : r'.pending = r.pending
  bad : r'.bad = r.bad

theorem Grows.refl (r : Run) : r.Grows r := ⟨.refl r, rfl, rfl, rfl⟩

theorem Grows.trans {r r' r'' : Run} (h : r.Grows r') (h' : r'.Grows r'') : r.Grows r'' :=
  ⟨h.toExtends.trans h'.toExtends, h'.inputs.trans h.inputs, h'.pending.trans h.pending,
    h'.bad.trans h.bad⟩

theorem within_start (values : List Bits) : (start values).Within 1 := by
  constructor
  · rintro i w ⟨⟩
  · rintro i x ⟨⟩

section Definitions

variable {α : Type} {f : Nat → Option α} {n : Nat}

theorem within_update (h : ∀ i a, f i = some a → 1 ≤ i ∧ i < n) (hn : 1 ≤ n) (a : α) :
    ∀ i b, Function.update f n (some a) i = some b → 1 ≤ i ∧ i < n + 1 := by
  intro i b hi
  by_cases heq : i = n
  · omega
  · rw [Function.update_of_ne heq] at hi
    have := h i b hi
    omega

theorem update_of_within (h : ∀ i a, f i = some a → 1 ≤ i ∧ i < n) (a : α) :
    ∀ i b, f i = some b → Function.update f n (some a) i = some b := by
  intro i b hi
  have hlt := (h i b hi).2
  rw [Function.update_of_ne (Nat.ne_of_lt hlt), hi]

theorem succ_of_within (h : ∀ i a, f i = some a → 1 ≤ i ∧ i < n) :
    ∀ i a, f i = some a → 1 ≤ i ∧ i < n + 1 := by
  intro i a hi
  have := h i a hi
  omega

end Definitions

section Steps

variable {r : Run} {n : Nat} (h : r.Within n)

include h

theorem Within.defineSort (hn : 1 ≤ n) (w : Nat) : (r.defineSort n w).Within (n + 1) :=
  ⟨within_update h.sorts hn w, succ_of_within h.nodes⟩

theorem Within.defineNode (hn : 1 ≤ n) (x : Bits) : (r.defineNode n x).Within (n + 1) :=
  ⟨succ_of_within h.sorts, within_update h.nodes hn x⟩

theorem extends_defineSort (w : Nat) : r.Extends (r.defineSort n w) :=
  ⟨update_of_within h.sorts w, fun _ _ hi => hi⟩

theorem extends_defineNode (x : Bits) : r.Extends (r.defineNode n x) :=
  ⟨fun _ _ hi => hi, update_of_within h.nodes x⟩

end Steps

end Run

/-!
## Steps
-/

theorem operands_of_result? {nodes : Nat → Option Bits} {o : Operation} {args : List Nat} {x : Bits}
    (h : o.result? nodes args = some x) : ∀ a ∈ o.operands args, ∃ y, nodes a = some y := by
  have hone : ∀ {a}, (∃ y, nodes a = some y) → ∀ i ∈ [a], ∃ y, nodes i = some y := by
    intro a ha i hi
    rw [List.mem_singleton.mp hi]
    exact ha
  have htwo : ∀ {a b}, (∃ y, nodes a = some y) → (∃ y, nodes b = some y) →
      ∀ i ∈ [a, b], ∃ y, nodes i = some y := by
    intro a b ha hb
    exact List.forall_mem_cons.mpr ⟨ha, hone hb⟩
  unfold Operation.result? at h
  split at h
  case h_12 => cases h
  all_goals simp only [bind, Option.bind_eq_some_iff] at h
  case h_1 | h_9 | h_10 | h_11 =>
    rcases h with ⟨x, hx, _⟩
    exact hone ⟨x, hx⟩
  case h_4 =>
    rcases h with ⟨x, hx, _, _, y, hy, _⟩
    exact htwo ⟨x, hx⟩ ⟨y, hy⟩
  case h_7 =>
    rcases h with ⟨z, hz, _, _, x, hx, y, hy, _⟩
    exact List.forall_mem_cons.mpr ⟨⟨z, hz⟩, htwo ⟨x, hx⟩ ⟨y, hy⟩⟩
  all_goals
    rcases h with ⟨x, hx, y, hy, _⟩
    exact htwo ⟨x, hx⟩ ⟨y, hy⟩

section Steps

variable {line : Line} {r r' : Run} {id : Nat} (hr : r.Within id)
  (h : line.step? id r = some r')

include hr h

theorem mentions_of_step? : ∀ i ∈ line.mentions, 1 ≤ i ∧ i < id := by
  cases line with
  | sort w => simp [Line.mentions]
  | input s name =>
      rcases Option.bind_eq_some_iff.mp h with ⟨w, hw, _⟩
      simpa [Line.mentions] using hr.sorts s w hw
  | const s bits width =>
      rcases Option.bind_eq_some_iff.mp h with ⟨w, hw, _⟩
      simpa [Line.mentions] using hr.sorts s w hw
  | node op s args =>
      rcases Option.bind_eq_some_iff.mp h with ⟨w, hw, h⟩
      rcases Option.bind_eq_some_iff.mp h with ⟨x, hx, _⟩
      rcases Option.bind_eq_some_iff.mp hx with ⟨o, ho, hx⟩
      refine List.forall_mem_cons.mpr ⟨hr.sorts s w hw, ?_⟩
      intro a ha
      rw [ho] at ha
      rcases operands_of_result? hx a ha with ⟨y, hy⟩
      exact hr.nodes a y hy
  | bad n =>
      rcases Option.bind_eq_some_iff.mp h with ⟨x, hx, _⟩
      simpa [Line.mentions] using hr.nodes n x hx

theorem within_of_step? (hid : 1 ≤ id) : r'.Within (id + 1) := by
  have hnode : ∀ x, (r.defineNode id x).Within (id + 1) := hr.defineNode hid
  cases line with
  | sort w =>
      rcases Option.ite_none_right_eq_some.mp h with ⟨_, heq⟩
      cases heq
      exact hr.defineSort hid w
  | input s name =>
      rcases Option.bind_eq_some_iff.mp h with ⟨w, _, h⟩
      rcases Option.bind_eq_some_iff.mp h with ⟨x, _, h⟩
      rcases Option.ite_none_right_eq_some.mp h with ⟨_, heq⟩
      cases heq
      exact ⟨(hnode x).sorts, (hnode x).nodes⟩
  | const s bits width =>
      rcases Option.bind_eq_some_iff.mp h with ⟨w, _, h⟩
      rcases Option.ite_none_right_eq_some.mp h with ⟨_, heq⟩
      cases heq
      exact hnode _
  | node op s args =>
      rcases Option.bind_eq_some_iff.mp h with ⟨w, _, h⟩
      rcases Option.bind_eq_some_iff.mp h with ⟨x, _, h⟩
      rcases Option.ite_none_right_eq_some.mp h with ⟨_, heq⟩
      cases heq
      exact hnode x
  | bad n =>
      rcases Option.bind_eq_some_iff.mp h with ⟨x, _, h⟩
      rcases Option.ite_none_right_eq_some.mp h with ⟨_, heq⟩
      cases heq
      exact ⟨Run.succ_of_within hr.sorts, Run.succ_of_within hr.nodes⟩

end Steps

/-!
## Runs
-/

theorem mentions_of_run? {lines : List Line} {r r' : Run} {id : Nat} (hr : r.Within id)
    (hid : 1 ≤ id) (h : run? (numbered id lines) r = some r') :
    r'.Within (id + lines.length) ∧
      ∀ row ∈ numbered id lines, ∀ i ∈ row.2.mentions, 1 ≤ i ∧ i < row.1 := by
  induction lines generalizing r id with
  | nil =>
      cases h
      exact ⟨hr, List.forall_mem_nil _⟩
  | cons line lines ih =>
      rcases Option.bind_eq_some_iff.mp h with ⟨next, hstep, hrest⟩
      rcases ih (within_of_step? hr hstep hid) (by omega) hrest with ⟨hwithin, hmentions⟩
      constructor
      · rw [List.length_cons, Nat.add_comm lines.length, ← Nat.add_assoc]
        exact hwithin
      · exact List.forall_mem_cons.mpr ⟨mentions_of_step? hr hstep, hmentions⟩

end Btor
end BitEquiv

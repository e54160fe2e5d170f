import BitEquiv.Proofs.Program.Evaluation
import BitEquiv.Proofs.Program.RoundTrip
import Mathlib.Data.List.Nodup

/-!
# Differences between interfaces

Two programs are compared by the maps from their names to sorts. A mismatch lists exactly the
differences of the first part in which the maps differ, and the comparison the other way round
finds the same differences from the other side.
-/

namespace BitEquiv
namespace Program

open Logic

namespace Mismatch

variable {part : InterfacePart} {left right : Assoc BvSort} {m m' : Mismatch}

/-!
## Two maps
-/

/-- All differences between two maps: the names of the left map only and of the right map only,
each in the order of its map, and the names to which the maps give different sorts. -/
structure Tells (m : Mismatch) (left right : Assoc BvSort) : Prop where
  missing : m.missing = left.names.filter (· ∉ right.names)
  extra : m.extra = right.names.filter (· ∉ left.names)
  resorted : ∀ x s t,
    (x, s, t) ∈ m.resorted ↔ left.get? x = some s ∧ right.get? x = some t ∧ s ≠ t
  ordered : (m.resorted.map (·.1)).Sublist left.names

/-- The same differences from the other side. The names that changed their sort come in the order
of the other map. -/
structure Mirrors (m m' : Mismatch) : Prop where
  part : m'.part = m.part
  missing : m'.missing = m.extra
  extra : m'.extra = m.missing
  resorted : m'.resorted.Perm (m.resorted.map fun (x, s, t) => (x, t, s))

theorem names_filter_isNone (left right : Assoc BvSort) :
    (left.filter fun (x, _) => (right.lookup x).isNone).map (·.1) =
      left.names.filter (· ∉ right.names) := by
  unfold Assoc.names
  rw [List.filter_map]
  congr 1
  apply List.filter_congr
  rintro ⟨x, s⟩ _
  have habsent : x ∉ right.map (·.1) ↔ right.lookup x = none := Assoc.not_mem_names_iff
  show (right.lookup x).isNone = decide (x ∉ right.map (·.1))
  rw [Bool.eq_iff_iff, Option.isNone_iff_eq_none, decide_eq_true_iff, habsent]

theorem mem_resorted_iff (hleft : Assoc.Distinct left) {x : String} {s t : BvSort} :
    (x, s, t) ∈ (between part left right).resorted ↔
      left.get? x = some s ∧ right.get? x = some t ∧ s ≠ t := by
  show (x, s, t) ∈ left.filterMap _ ↔ _
  rw [List.mem_filterMap]
  constructor
  · rintro ⟨⟨y, u⟩, hmem, hpair⟩
    dsimp only at hpair
    split at hpair
    · rename_i v hv
      split at hpair
      · cases hpair
      · rename_i hne
        cases hpair
        exact ⟨Assoc.get?_of_mem hleft hmem, hv, Ne.symm hne⟩
    · cases hpair
  · rintro ⟨hx, hy, hne⟩
    refine ⟨(x, s), Assoc.mem_of_get? hx, ?_⟩
    dsimp only
    rw [show right.lookup x = some t from hy]
    dsimp only
    rw [if_neg (Ne.symm hne)]

theorem sublist_resorted (part : InterfacePart) (left right : Assoc BvSort) :
    ((between part left right).resorted.map (·.1)).Sublist left.names := by
  unfold between Assoc.names
  dsimp only
  induction left with
  | nil => exact List.Sublist.slnil
  | cons pair left ih =>
      rw [List.filterMap_cons]
      split
      · exact ih.cons _
      · rename_i entry hentry
        -- An entry keeps the name of its pair.
        have hname : entry.1 = pair.1 := by
          split at hentry
          · split at hentry
            · cases hentry
            · cases hentry
              rfl
          · cases hentry
        rw [List.map_cons, List.map_cons, hname]
        exact ih.cons_cons _

theorem tells_between (part : InterfacePart) (hleft : Assoc.Distinct left)
    (right : Assoc BvSort) : (between part left right).Tells left right where
  missing := names_filter_isNone left right
  extra := names_filter_isNone right left
  resorted _ _ _ := mem_resorted_iff hleft
  ordered := sublist_resorted part left right

theorem Tells.nodup (h : m.Tells left right) (hleft : Assoc.Distinct left) :
    (m.resorted.map (·.1)).Nodup :=
  h.ordered.nodup hleft

/-- What is told from one side is the mirror image of what is told from the other. -/
theorem Tells.mirrors (h : m.Tells left right) (h' : m'.Tells right left)
    (hleft : Assoc.Distinct left) (hright : Assoc.Distinct right) (hpart : m'.part = m.part) :
    m.Mirrors m' where
  part := hpart
  missing := h'.missing.trans h.extra.symm
  extra := h'.extra.trans h.missing.symm
  resorted := by
    have hnodup : (m.resorted.map fun (x, s, t) => (x, t, s)).Nodup := by
      apply List.Nodup.of_map (·.1)
      rw [List.map_map]
      exact h.nodup hleft
    apply (List.perm_ext_iff_of_nodup (h'.nodup hright).of_map hnodup).mpr
    rintro ⟨x, t, s⟩
    rw [h'.resorted, List.mem_map]
    constructor
    · rintro ⟨ht, hs, hne⟩
      exact ⟨(x, s, t), (h.resorted x s t).mpr ⟨hs, ht, hne.symm⟩, rfl⟩
    · rintro ⟨⟨y, u, v⟩, hmem, heq⟩
      cases heq
      rcases (h.resorted x s t).mp hmem with ⟨hs, ht, hne⟩
      exact ⟨ht, hs, hne.symm⟩

@[simp] theorem isEmpty_iff :
    m.isEmpty = true ↔ m.missing = [] ∧ m.extra = [] ∧ m.resorted = [] := by
  unfold isEmpty
  simp only [Bool.and_eq_true, List.isEmpty_iff, and_assoc]

/-- There is nothing to tell of two maps exactly when they are the same. -/
theorem Tells.isEmpty_iff (h : m.Tells left right) :
    m.isEmpty = true ↔ ∀ x, left.get? x = right.get? x := by
  have hmissing : m.missing = [] ↔ ∀ x ∈ left.names, x ∈ right.names := by
    rw [h.missing, List.filter_eq_nil_iff]
    simp
  have hextra : m.extra = [] ↔ ∀ x ∈ right.names, x ∈ left.names := by
    rw [h.extra, List.filter_eq_nil_iff]
    simp
  rw [Mismatch.isEmpty_iff, hmissing, hextra, List.eq_nil_iff_forall_not_mem]
  constructor
  · rintro ⟨hleft, hright, hsorts⟩ x
    cases hx : left.get? x with
    | none =>
        have hnew : x ∉ right.names := fun hmem =>
          Assoc.not_mem_names_iff.mpr hx (hright x hmem)
        exact (Assoc.not_mem_names_iff.mp hnew).symm
    | some s =>
        cases hy : right.get? x with
        | none =>
            have hmem := hleft x (Assoc.mem_names_of_get? hx)
            exact absurd hmem (Assoc.not_mem_names_iff.mpr hy)
        | some t =>
            by_contra hne
            apply hsorts (x, s, t)
            exact (h.resorted x s t).mpr ⟨hx, hy, fun heq => hne (congrArg some heq)⟩
  · intro hsame
    have hnames : ∀ x, x ∉ left.names ↔ x ∉ right.names := by
      intro x
      rw [Assoc.not_mem_names_iff, Assoc.not_mem_names_iff, hsame]
    refine ⟨fun x => (not_iff_not.mp (hnames x)).mp, fun x => (not_iff_not.mp (hnames x)).mpr, ?_⟩
    rintro ⟨x, s, t⟩ hmem
    rcases (h.resorted x s t).mp hmem with ⟨hx, hy, hne⟩
    rw [hsame x, hy] at hx
    cases hx
    exact hne rfl

end Mismatch

/-!
## Two programs
-/

/-- The same inputs and outputs with the same sorts, in any order. -/
structure SameInterface (p q : Program) : Prop where
  inputs : ∀ x, Assoc.get? p.inputs x = Assoc.get? q.inputs x
  outputs : ∀ x, Assoc.get? p.outputSorts x = Assoc.get? q.outputSorts x

def interface (p : Program) : InterfacePart → Assoc BvSort
  | .inputs => p.inputs
  | .outputs => p.outputSorts

def differences (p q : Program) (part : InterfacePart) : Mismatch :=
  .between part (p.interface part) (q.interface part)

theorem WellFormed.distinct_outputs {p : Program} (hp : p.WellFormed) :
    Assoc.Distinct p.outputSorts := by
  have hnodup := hp.sorted.nodup
  unfold definitions at hnodup
  rw [List.map_map] at hnodup
  unfold Assoc.Distinct outputSorts
  rw [List.map_map]
  exact hnodup.sublist (List.filter_sublist.map _)

theorem SameInterface.matches_inputs {p q : Program} (hsame : SameInterface p q) {given : Env}
    (h : Matches (Assoc.get? p.inputs) given) : Matches (Assoc.get? q.inputs) given := by
  intro x s hx
  rw [← hsame.inputs] at hx
  exact h x s hx

theorem WellFormed.distinct_interface {p : Program} (hp : p.WellFormed) (part : InterfacePart) :
    Assoc.Distinct (p.interface part) := by
  cases part with
  | inputs => exact hp.distinct
  | outputs => exact hp.distinct_outputs

theorem differences_isEmpty_iff {p : Program} (hp : p.WellFormed) (q : Program)
    (part : InterfacePart) :
    (differences p q part).isEmpty = true ↔
      ∀ x, (p.interface part).get? x = (q.interface part).get? x :=
  (Mismatch.tells_between part (hp.distinct_interface part) _).isEmpty_iff

def differingPart? (p q : Program) : Option InterfacePart :=
  [.inputs, .outputs].find? fun part => !(differences p q part).isEmpty

theorem mismatch?_eq (p q : Program) :
    mismatch? p q = (differingPart? p q).map (differences p q) := by
  have hdef : mismatch? p q =
      if !(differences p q .inputs).isEmpty then some (differences p q .inputs)
      else if !(differences p q .outputs).isEmpty then some (differences p q .outputs)
      else none := rfl
  rw [hdef]
  unfold differingPart?
  cases hin : (differences p q .inputs).isEmpty <;>
    cases hout : (differences p q .outputs).isEmpty <;> simp [hin, hout]

theorem mismatch?_eq_some_iff {p q : Program} {m : Mismatch} :
    mismatch? p q = some m ↔ differingPart? p q = some m.part ∧ m = differences p q m.part := by
  rw [mismatch?_eq, Option.map_eq_some_iff]
  constructor
  · rintro ⟨part, hpart, rfl⟩
    exact ⟨hpart, rfl⟩
  · rintro ⟨hpart, heq⟩
    exact ⟨m.part, hpart, heq.symm⟩

section Parts

variable {p q : Program} {part : InterfacePart}

theorem isEmpty_of_differingPart? (h : differingPart? p q = some part) :
    (differences p q part).isEmpty = false := by
  simpa using List.find?_some h

theorem differingPart?_eq_inputs_iff (hp : p.WellFormed) (h : differingPart? p q = some part) :
    part = .inputs ↔ ¬ ∀ x, Assoc.get? p.inputs x = Assoc.get? q.inputs x := by
  have hsame : (differences p q .inputs).isEmpty = true ↔
      ∀ x, Assoc.get? p.inputs x = Assoc.get? q.inputs x :=
    differences_isEmpty_iff hp q .inputs
  rw [← hsame, Bool.not_eq_true]
  unfold differingPart? at h
  cases hin : (differences p q .inputs).isEmpty with
  | false =>
      rw [List.find?_cons_of_pos (by simp [hin])] at h
      cases h
      simp
  | true =>
      rw [List.find?_cons_of_neg (by simp [hin])] at h
      have hmem := List.mem_of_find?_eq_some h
      rw [List.mem_singleton.mp hmem]
      simp

theorem differingPart?_eq_none_iff (hp : p.WellFormed) :
    differingPart? p q = none ↔ SameInterface p q := by
  unfold differingPart?
  rw [List.find?_eq_none]
  constructor
  · intro h
    have hsame : ∀ part, (differences p q part).isEmpty = true := by
      intro part
      cases part with
      | inputs => simpa using h .inputs (by decide)
      | outputs => simpa using h .outputs (by decide)
    exact ⟨(differences_isEmpty_iff hp q .inputs).mp (hsame .inputs),
      (differences_isEmpty_iff hp q .outputs).mp (hsame .outputs)⟩
  · rintro ⟨hinputs, houtputs⟩ part _
    rw [Bool.not_eq_true, Bool.not_eq_false']
    cases part with
    | inputs => exact (differences_isEmpty_iff hp q .inputs).mpr hinputs
    | outputs => exact (differences_isEmpty_iff hp q .outputs).mpr houtputs

theorem mismatch?_eq_none_iff (hp : p.WellFormed) : mismatch? p q = none ↔ SameInterface p q := by
  rw [mismatch?_eq, Option.map_eq_none_iff, differingPart?_eq_none_iff hp]

theorem differingPart?_swap (hp : p.WellFormed) (hq : q.WellFormed) :
    differingPart? q p = differingPart? p q := by
  have hswap : ∀ part, (differences q p part).isEmpty = (differences p q part).isEmpty := by
    intro part
    rw [Bool.eq_iff_iff, differences_isEmpty_iff hp, differences_isEmpty_iff hq]
    exact forall_congr' fun x => eq_comm
  unfold differingPart?
  simp only [hswap]

end Parts

/-- Interfaces are accepted exactly when they are the same maps. Otherwise the differences of the
inputs are told where they differ, else those of the outputs, and there is at least one; seen
from the other program they are the same. -/
theorem mismatch?_tells {s t : List Char} {p q : Program} (hp : load s = .ok p)
    (hq : load t = .ok q) :
    (mismatch? p q = none ↔ SameInterface p q) ∧
      ∀ m, mismatch? p q = some m →
        (m.part = .inputs ↔ ¬ ∀ x, Assoc.get? p.inputs x = Assoc.get? q.inputs x) ∧
        m.Tells (p.interface m.part) (q.interface m.part) ∧
        (m.missing ≠ [] ∨ m.extra ≠ [] ∨ m.resorted ≠ []) ∧
        ∃ m', mismatch? q p = some m' ∧ m.Mirrors m' := by
  have hpw := load_wellFormed hp
  have hqw := load_wellFormed hq
  refine ⟨mismatch?_eq_none_iff hpw, ?_⟩
  intro m hm
  rcases mismatch?_eq_some_iff.mp hm with ⟨hpart, heq⟩
  have hleft := hpw.distinct_interface m.part
  have hright := hqw.distinct_interface m.part
  have htells : m.Tells (p.interface m.part) (q.interface m.part) := by
    have hbetween := Mismatch.tells_between m.part hleft (q.interface m.part)
    rw [show Mismatch.between m.part _ _ = m from heq.symm] at hbetween
    exact hbetween
  have hback := Mismatch.tells_between m.part hright (p.interface m.part)
  have hempty : ¬ (m.missing = [] ∧ m.extra = [] ∧ m.resorted = []) := by
    rw [← Mismatch.isEmpty_iff, heq, isEmpty_of_differingPart? hpart]
    exact Bool.false_ne_true
  refine ⟨differingPart?_eq_inputs_iff hpw hpart, htells, ?_, differences q p m.part, ?_, ?_⟩
  · rw [not_and_or, not_and_or] at hempty
    exact hempty
  · rw [mismatch?_eq_some_iff, differingPart?_swap hpw hqw]
    exact ⟨hpart, rfl⟩
  · exact htells.mirrors hback hleft hright rfl

def byteAndFlag : Program :=
  ⟨"flagged", [("a", .bitVec 8), ("k", .bool)], [⟨"r", .bitVec 8, .var "a", true⟩]⟩

def wordAndByte : Program :=
  ⟨"worded", [("k", .bitVec 3), ("c", .bitVec 8)], [⟨"r", .bitVec 8, .var "c", true⟩]⟩

theorem load_byteAndFlag : load byteAndFlag.text.toList = .ok byteAndFlag := by
  refine load_text ⟨by decide, by decide, ⟨rfl, Term.hasSort_of_sortOf rfl, trivial⟩, by decide⟩
    ⟨by decide, by decide, ?_⟩
  intro b hb
  rw [List.mem_singleton.mp hb]
  exact ⟨by decide, .var (by decide) (by decide) (by decide)⟩

theorem load_wordAndByte : load wordAndByte.text.toList = .ok wordAndByte := by
  refine load_text ⟨by decide, by decide, ⟨rfl, Term.hasSort_of_sortOf rfl, trivial⟩, by decide⟩
    ⟨by decide, by decide, ?_⟩
  intro b hb
  rw [List.mem_singleton.mp hb]
  exact ⟨by decide, .var (by decide) (by decide) (by decide)⟩

theorem mismatch?_tells_flag :
    let m : Mismatch := ⟨.inputs, ["a"], ["c"], [("k", .bool, .bitVec 3)]⟩
    load byteAndFlag.text.toList = .ok byteAndFlag ∧
      load wordAndByte.text.toList = .ok wordAndByte ∧
      mismatch? byteAndFlag wordAndByte = some m ∧
      m.Tells byteAndFlag.inputs wordAndByte.inputs ∧
      ∃ m', mismatch? wordAndByte byteAndFlag = some m' ∧ m.Mirrors m' := by
  have hm : mismatch? byteAndFlag wordAndByte =
      some ⟨.inputs, ["a"], ["c"], [("k", .bool, .bitVec 3)]⟩ := by decide
  rcases (mismatch?_tells load_byteAndFlag load_wordAndByte).2 _ hm with ⟨_, htells, _, hback⟩
  exact ⟨load_byteAndFlag, load_wordAndByte, hm, htells, hback⟩

end Program
end BitEquiv

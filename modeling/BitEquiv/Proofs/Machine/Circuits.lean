import BitEquiv.Machine.Circuits
import BitEquiv.Proofs.Btor.Totality
import BitEquiv.Proofs.Machine.Queries

/-!
# Circuits on a machine

The node of a term is as wide as its sort says, and the widths of an accepted query have
their sums.
-/

namespace BitEquiv
namespace Machine

open Logic Run
open Btor (Circuit Line unaryName binaryName compareName)
open Btor.Circuit (expectWidth)

theorem width_extend {w w' k : Nat} (hw : w' = w) (hmax : w + k ≤ maxWidth) :
    add 32 w' k = .ok (w' + k) := by
  have hbig : maxWidth < 2 ^ 32 := by decide
  rw [hw]
  exact add_eq (Nat.lt_of_le_of_lt hmax hbig)

section Terms

open Btor (Binds)

variable {scope : Scope} {c : Circuit}

/-- Behind an operand the names are what they were, and its node is as wide as its sort. -/
theorem added {t : Term} {s : BvSort} (h : t.HasSort scope s) (hc : Binds scope c)
    {r : Circuit × Nat × Nat} (hr : c.addTerm t = .ok r) :
    Binds scope r.1 ∧ r.2.2 = s.width := by
  rcases Btor.adds h hc with ⟨c', n, hadd, hnames⟩
  rw [hr] at hadd
  cases hadd
  exact ⟨hc.congr hnames, rfl⟩

theorem addAll_eq {ts : List Term} (hts : ∀ t ∈ ts, t.HasSort scope .bool)
    (h : ∀ t ∈ ts, ∀ {c}, Binds scope c → addTerm c t = of (c.addTerm t))
    (hc : Binds scope c) (name : String) (unit : Bool) (done : Option Nat) :
    addAll c name unit done ts = of (c.addAll name unit done ts) := by
  induction ts generalizing c done with
  | nil => cases done <;> rfl
  | cons t ts ih =>
      rcases List.forall_mem_cons.mp hts with ⟨ht, hts⟩
      rcases List.forall_mem_cons.mp h with ⟨hadd, h⟩
      rw [addAll, Circuit.addAll, hadd hc]
      refine bind_of fun r hr => ?_
      rcases r with ⟨c₁, n, w⟩
      have hc₁ := (added ht hc hr).1
      refine bind_of fun _ _ => ?_
      cases done with
      | none => exact ih hts h hc₁ (some n)
      | some m => exact ih hts h (hc₁.congr (Btor.names_addNode c₁ name 1 [m, n])) _

variable (hscope : Term.ValidScope scope)

include hscope

theorem addTerm_eq {t : Term} {s : BvSort} (h : t.HasSort scope s) (hc : Binds scope c) :
    addTerm c t = of (c.addTerm t) := by
  induction h generalizing c with
  | @var x s hx =>
      unfold addTerm Circuit.addTerm
      cases c.names.get? x <;> rfl
  | boolLit => rfl
  | bvLit _ _ => rfl
  | not _ iha | unary _ iha =>
      rw [addTerm, Circuit.addTerm, iha hc]
      exact bind_of fun _ _ => rfl
  | and hts ihts | or hts ihts =>
      rw [addTerm, Circuit.addTerm, addAll_eq hts (fun t ht _ => ihts t ht) hc]
      exact bind_of fun _ _ => rfl
  | xor ha hb iha ihb | implies ha hb iha ihb =>
      rw [addTerm, Circuit.addTerm, iha hc]
      refine bind_of ?_
      rintro ⟨c₁, m, v⟩ hr
      dsimp only
      rw [ihb (added ha hc hr).1]
      exact bind_of fun _ _ => bind_of fun _ _ => bind_of fun _ _ => rfl
  | eq ha hb iha ihb | distinct ha hb iha ihb | binary ha hb iha ihb | compare ha hb iha ihb =>
      rw [addTerm, Circuit.addTerm, iha hc]
      refine bind_of ?_
      rintro ⟨c₁, m, v⟩ hr
      dsimp only
      rw [ihb (added ha hc hr).1]
      exact bind_of fun _ _ => bind_of fun _ _ => rfl
  | ite hk ha hb ihk iha ihb =>
      rw [addTerm, Circuit.addTerm, ihk hc]
      refine bind_of ?_
      rintro ⟨c₁, l, u⟩ hr
      refine bind_of fun _ _ => ?_
      have hc₁ := (added hk hc hr).1
      rw [iha hc₁]
      refine bind_of ?_
      rintro ⟨c₂, m, v⟩ hr'
      dsimp only
      rw [ihb (added ha hc₁ hr').1]
      exact bind_of fun _ _ => bind_of fun _ _ => rfl
  | @extract hi lo a w ha hlo hhi iha =>
      rw [addTerm, Circuit.addTerm, iha hc]
      refine bind_of fun r hr => ?_
      rcases r with ⟨c₁, n, v⟩
      have hv : v = w := (added ha hc hr).2
      have hmax := (Term.isValid_bitVec.mp (ha.isValid hscope)).2
      have hrange : lo ≤ hi ∧ hi < w := ⟨hlo, hhi⟩
      dsimp only
      rw [hv, if_pos hrange, if_pos hrange, width_extract hlo hhi hmax]
      rfl
  | @concat a b v w ha hb hpos hmax iha ihb =>
      rw [addTerm, Circuit.addTerm, iha hc]
      refine bind_of ?_
      rintro ⟨c₁, m, v'⟩ hr
      rcases added ha hc hr with ⟨hc₁, hv⟩
      dsimp only at hc₁ hv ⊢
      rw [ihb hc₁]
      refine bind_of ?_
      rintro ⟨c₂, n, w'⟩ hr'
      have hw := (added hb hc₁ hr').2
      dsimp only at hw ⊢
      have hvmax : v' ≤ maxWidth := hv ▸ Term.width_le_of_isValid (ha.isValid hscope)
      have hwmax : w' ≤ maxWidth := hw ▸ Term.width_le_of_isValid (hb.isValid hscope)
      rw [width_add hvmax hwmax]
      rfl
  | @zeroExtend k a w ha hpos hmax iha | @signExtend k a w ha hpos hmax iha =>
      rw [addTerm, Circuit.addTerm, iha hc]
      refine bind_of ?_
      rintro ⟨c₁, n, w'⟩ hr
      have hw : w' = w := (added ha hc hr).2
      dsimp only
      rw [width_extend hw hmax]
      rfl

end Terms

theorem addDefinitions_eq {scope : Scope} {c : Circuit} {ds : List Definition}
    (hscope : Term.ValidScope scope) (hsorted : Sorted scope ds) (hc : Btor.Binds scope c) :
    addDefinitions c ds = of (c.addDefinitions ds) := by
  induction ds generalizing scope c with
  | nil => rfl
  | cons d ds ih =>
      rcases hsorted with ⟨_, hterm, hrest⟩
      rw [addDefinitions, Circuit.addDefinitions, addTerm_eq hscope hterm hc]
      refine bind_of ?_
      rintro ⟨c₁, n, w⟩ hr
      rcases added hterm hc hr with ⟨hc₁, hw⟩
      dsimp only at hc₁ hw
      refine bind_of fun _ _ => ?_
      have hnext : Term.ValidScope (scope.extend d.name d.sort) :=
        validScope_extend hscope (hterm.isValid hscope)
      rw [hw]
      exact ih hnext hrest (hc₁.bindName d.name n d.sort)

/-- The model of an accepted query is written without a fault. -/
theorem linesOf_eq {q : Query} (hq : q.WellFormed) : linesOf q = of (Btor.linesOf q) := by
  have hnone : Btor.Binds (Assoc.get? []) Circuit.empty := by
    rintro x s ⟨⟩
  have hinputs : Btor.Binds (Assoc.get? ([] ++ q.inputs)) (Circuit.empty.addInputs q.inputs) :=
    Btor.addInputs_binds hq.distinct hnone
  unfold linesOf Btor.linesOf
  dsimp only
  rw [addDefinitions_eq hq.validScope_inputs hq.sorted hinputs]
  refine bind_of fun c hdefinitions => ?_
  have hc : Btor.Binds q.scope c := by
    rcases Btor.addDefinitions_ok hq.sorted hinputs with ⟨c', hc', hbinds⟩
    rw [hdefinitions] at hc'
    cases hc'
    exact hbinds
  rw [addAll_eq hq.assertions (fun t ht _ => addTerm_eq hq.validScope (hq.assertions t ht)) hc]
  exact bind_of fun _ _ => rfl

end Machine
end BitEquiv

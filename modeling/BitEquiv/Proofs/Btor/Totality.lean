import BitEquiv.Proofs.Btor.Terms
import BitEquiv.Proofs.Logic.Validation

/-!
# Every accepted query has a model

A circuit knows the width of each name in scope. So none of the width checks fails on a
well-sorted term, whatever the names are and whatever the bits of its literals.
-/

namespace BitEquiv
namespace Btor

open Logic Circuit

section Terms

variable {scope : Scope} {c c' : Circuit}

def Binds (scope : Scope) (c : Circuit) : Prop :=
  ∀ x s, scope x = some s → ∃ n, c.names.get? x = some (n, s.width)

theorem Binds.congr (h : Binds scope c) (hnames : c'.names = c.names) : Binds scope c' := by
  unfold Binds
  rw [hnames]
  exact h

theorem Binds.bindName (h : Binds scope c) (x : String) (n : Nat) (s : BvSort) :
    Binds (scope.extend x s) (c.bindName x n s.width) := by
  intro y s' hy
  show ∃ m, Assoc.get? (Assoc.set c.names x (n, s.width)) y = some (m, s'.width)
  rw [Assoc.get?_set]
  by_cases hx : y = x
  · rw [hx, extend_self] at hy
    cases hy
    exact ⟨n, if_pos hx⟩
  · rw [extend_of_ne _ _ hx] at hy
    rw [if_neg hx]
    exact h y s' hy

theorem names_withSort (c : Circuit) (w : Nat) : (c.withSort w).1.names = c.names := by
  unfold withSort
  split <;> rfl

theorem names_addConst (c : Circuit) (bits w : Nat) : (c.addConst bits w).1.names = c.names :=
  names_withSort c w

theorem names_addNode (c : Circuit) (op : String) (w : Nat) (args : List Nat) :
    (c.addNode op w args).1.names = c.names :=
  names_withSort c w

/-- The term becomes a node of its width, and the names stay as they are. -/
def Adds (t : Term) (s : BvSort) (c : Circuit) : Prop :=
  ∃ c' n, c.addTerm t = .ok (c', n, s.width) ∧ c'.names = c.names

theorem adds_operands {a b : Term} {s s' : BvSort} (hc : Binds scope c) (ha : Adds a s c)
    (hb : ∀ c', Binds scope c' → Adds b s' c') :
    ∃ c₁ c₂ m n, c.addTerm a = .ok (c₁, m, s.width) ∧ c₁.addTerm b = .ok (c₂, n, s'.width) ∧
      c₂.names = c.names := by
  rcases ha with ⟨c₁, m, hadd, hnames⟩
  rcases hb c₁ (hc.congr hnames) with ⟨c₂, n, hadd', hnames'⟩
  exact ⟨c₁, c₂, m, n, hadd, hadd', hnames'.trans hnames⟩

theorem adds_node {t : Term} {s : BvSort} {op : String} {args : List Nat}
    (hnames : c'.names = c.names)
    (hadd : c.addTerm t =
      .ok ((c'.addNode op s.width args).1, (c'.addNode op s.width args).2, s.width)) :
    Adds t s c :=
  ⟨_, _, hadd, (names_addNode c' op s.width args).trans hnames⟩

theorem addAll_ok {ts : List Term} (hts : ∀ t ∈ ts, ∀ c, Binds scope c → Adds t .bool c)
    (hc : Binds scope c) (op : String) (unit : Bool) (done : Option Nat) :
    ∃ c' n, c.addAll op unit done ts = .ok (c', n) ∧ c'.names = c.names := by
  induction ts generalizing c done with
  | nil =>
      cases done with
      | none => exact ⟨_, _, rfl, names_addConst c unit.toNat 1⟩
      | some n => exact ⟨c, n, rfl, rfl⟩
  | cons t ts ih =>
      rcases List.forall_mem_cons.mp hts with ⟨ht, hts⟩
      rcases ht c hc with ⟨c₁, n, hadd, hnames⟩
      cases done with
      | none =>
          rw [addAll_first hadd, ← hnames]
          exact ih hts (hc.congr hnames) (some n)
      | some m =>
          have hnames₂ := (names_addNode c₁ op 1 [m, n]).trans hnames
          rw [addAll_next hadd, ← hnames₂]
          exact ih hts (hc.congr hnames₂) _

theorem adds {t : Term} {s : BvSort} (h : t.HasSort scope s) (hc : Binds scope c) :
    Adds t s c := by
  induction h generalizing c with
  | @var x s hx =>
      rcases hc x s hx with ⟨n, hname⟩
      refine ⟨c, n, ?_, rfl⟩
      simp [Circuit.addTerm, hname]
  | @boolLit b => exact ⟨_, _, rfl, names_addConst c b.toNat 1⟩
  | @bvLit bits w => exact ⟨_, _, rfl, names_addConst c bits w⟩
  | not _ iha =>
      rcases iha hc with ⟨c₁, n, hadd, hnames⟩
      exact adds_node hnames (except_bind_eq_ok.mpr ⟨_, hadd, rfl⟩)
  | and _ ihas =>
      rcases addAll_ok (fun t ht c hc => ihas t ht hc) hc "and" true none with
        ⟨c', n, hall, hnames⟩
      exact ⟨c', n, except_bind_eq_ok.mpr ⟨_, hall, rfl⟩, hnames⟩
  | or _ ihas =>
      rcases addAll_ok (fun t ht c hc => ihas t ht hc) hc "or" false none with
        ⟨c', n, hall, hnames⟩
      exact ⟨c', n, except_bind_eq_ok.mpr ⟨_, hall, rfl⟩, hnames⟩
  | xor _ _ iha ihb =>
      rcases adds_operands hc (iha hc) (fun _ => ihb) with ⟨c₁, c₂, m, n, hadd, hadd', hnames⟩
      exact adds_node hnames (except_bind_eq_ok.mpr ⟨_, hadd, except_bind_eq_ok.mpr
        ⟨_, hadd', rfl⟩⟩)
  | implies _ _ iha ihb =>
      rcases adds_operands hc (iha hc) (fun _ => ihb) with ⟨c₁, c₂, m, n, hadd, hadd', hnames⟩
      exact adds_node hnames (except_bind_eq_ok.mpr ⟨_, hadd, except_bind_eq_ok.mpr
        ⟨_, hadd', rfl⟩⟩)
  | @eq a b s _ _ iha ihb =>
      rcases adds_operands hc (iha hc) (fun _ => ihb) with ⟨c₁, c₂, m, n, hadd, hadd', hnames⟩
      exact adds_node hnames (except_bind_eq_ok.mpr ⟨_, hadd, except_bind_eq_ok.mpr
        ⟨_, hadd', except_bind_eq_ok.mpr ⟨_, expectWidth_self "eq" s.width, rfl⟩⟩⟩)
  | @distinct a b s _ _ iha ihb =>
      rcases adds_operands hc (iha hc) (fun _ => ihb) with ⟨c₁, c₂, m, n, hadd, hadd', hnames⟩
      exact adds_node hnames (except_bind_eq_ok.mpr ⟨_, hadd, except_bind_eq_ok.mpr
        ⟨_, hadd', except_bind_eq_ok.mpr ⟨_, expectWidth_self "neq" s.width, rfl⟩⟩⟩)
  | @ite k a b s _ _ _ ihk iha ihb =>
      rcases ihk hc with ⟨c₀, l, hadd₀, hnames₀⟩
      have hc₀ := hc.congr hnames₀
      rcases adds_operands hc₀ (iha hc₀) (fun _ => ihb) with ⟨c₁, c₂, m, n, hadd, hadd', hnames⟩
      exact adds_node (hnames.trans hnames₀) (except_bind_eq_ok.mpr ⟨_, hadd₀,
        except_bind_eq_ok.mpr ⟨_, expectWidth_self "ite" 1, except_bind_eq_ok.mpr ⟨_, hadd,
          except_bind_eq_ok.mpr ⟨_, hadd',
            except_bind_eq_ok.mpr ⟨_, expectWidth_self "ite" s.width, rfl⟩⟩⟩⟩⟩)
  | @unary op a w _ iha =>
      rcases iha hc with ⟨c₁, n, hadd, hnames⟩
      exact adds_node hnames (except_bind_eq_ok.mpr ⟨_, hadd, rfl⟩)
  | @binary op a b w _ _ iha ihb =>
      rcases adds_operands hc (iha hc) (fun _ => ihb) with ⟨c₁, c₂, m, n, hadd, hadd', hnames⟩
      exact adds_node hnames (except_bind_eq_ok.mpr ⟨_, hadd, except_bind_eq_ok.mpr
        ⟨_, hadd', except_bind_eq_ok.mpr ⟨_, expectWidth_self (binaryName op) w, rfl⟩⟩⟩)
  | @compare op a b w _ _ iha ihb =>
      rcases adds_operands hc (iha hc) (fun _ => ihb) with ⟨c₁, c₂, m, n, hadd, hadd', hnames⟩
      exact adds_node hnames (except_bind_eq_ok.mpr ⟨_, hadd, except_bind_eq_ok.mpr
        ⟨_, hadd', except_bind_eq_ok.mpr ⟨_, expectWidth_self (compareName op) w, rfl⟩⟩⟩)
  | @extract hi lo a w _ hlo hhi iha =>
      rcases iha hc with ⟨c₁, n, hadd, hnames⟩
      exact adds_node (s := .bitVec (hi - lo + 1)) hnames
        (except_bind_eq_ok.mpr ⟨_, hadd, if_pos ⟨hlo, hhi⟩⟩)
  | concat _ _ _ _ iha ihb =>
      rcases adds_operands hc (iha hc) (fun _ => ihb) with ⟨c₁, c₂, m, n, hadd, hadd', hnames⟩
      exact adds_node hnames (except_bind_eq_ok.mpr ⟨_, hadd, except_bind_eq_ok.mpr
        ⟨_, hadd', rfl⟩⟩)
  | zeroExtend _ _ _ iha =>
      rcases iha hc with ⟨c₁, n, hadd, hnames⟩
      exact adds_node hnames (except_bind_eq_ok.mpr ⟨_, hadd, rfl⟩)
  | signExtend _ _ _ iha =>
      rcases iha hc with ⟨c₁, n, hadd, hnames⟩
      exact adds_node hnames (except_bind_eq_ok.mpr ⟨_, hadd, rfl⟩)

end Terms

/-!
## Queries
-/

section Queries

variable {c : Circuit}

theorem addInputs_binds {done inputs : Assoc BvSort} (hdistinct : Assoc.Distinct (done ++ inputs))
    (hc : Binds (Assoc.get? done) c) :
    Binds (Assoc.get? (done ++ inputs)) (c.addInputs inputs) := by
  induction inputs generalizing done c with
  | nil =>
      rw [List.append_nil]
      exact hc
  | cons input inputs ih =>
      rcases input with ⟨name, sort⟩
      have hnew : Assoc.get? done name = none := Assoc.get?_eq_none_of_distinct hdistinct
      have hadded : Binds (Assoc.get? (done ++ [(name, sort)])) (c.addInput name sort.width) := by
        rw [get?_append_eq_extend hnew]
        exact (hc.congr (names_withSort c sort.width)).bindName name _ sort
      rw [List.append_cons] at hdistinct ⊢
      exact ih hdistinct hadded

theorem addDefinitions_ok {scope : Scope} {ds : List Definition} (hsorted : Sorted scope ds)
    (hc : Binds scope c) :
    ∃ c', c.addDefinitions ds = .ok c' ∧ Binds (scope.after ds) c' := by
  induction ds generalizing scope c with
  | nil => exact ⟨c, rfl, hc⟩
  | cons d ds ih =>
      rcases d with ⟨name, sort, term⟩
      rcases hsorted with ⟨_, hterm, hrest⟩
      rcases adds hterm hc with ⟨c₁, n, hadd, hnames⟩
      rcases ih hrest ((hc.congr hnames).bindName name n sort) with ⟨c', hds, hbinds⟩
      refine ⟨c', ?_, hbinds⟩
      exact except_bind_eq_ok.mpr ⟨_, hadd,
        except_bind_eq_ok.mpr ⟨_, expectWidth_self name sort.width, hds⟩⟩

theorem modelText_ok {q : Query} (hq : q.WellFormed) : ∃ text, modelText q = .ok text := by
  have hnone : Binds (Assoc.get? []) Circuit.empty := by
    rintro x s ⟨⟩
  have hinputs : Binds (Assoc.get? ([] ++ q.inputs)) (Circuit.empty.addInputs q.inputs) :=
    addInputs_binds hq.distinct hnone
  rcases addDefinitions_ok hq.sorted hinputs with ⟨c, hdefinitions, hbinds⟩
  have hassertions : ∀ t ∈ q.assertions, ∀ c, Binds q.scope c → Adds t .bool c :=
    fun t ht c => adds (hq.assertions t ht)
  rcases addAll_ok hassertions hbinds "and" true none with ⟨c', n, hall, _⟩
  have hlines : linesOf q = .ok (c'.push (.bad n)).lines.reverse :=
    except_bind_eq_ok.mpr ⟨_, hdefinitions, except_bind_eq_ok.mpr ⟨_, hall, rfl⟩⟩
  exact ⟨_, except_bind_eq_ok.mpr ⟨_, hlines, rfl⟩⟩

end Queries

end Btor
end BitEquiv

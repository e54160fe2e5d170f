import BitEquiv.Proofs.Btor.Circuit
import BitEquiv.Proofs.Logic.Arithmetic

/-!
# Terms as nodes

A well-sorted term becomes a node whose bits are its meaning, in every circuit that has nodes
for the names in scope. The induction is on the sort rules, at all circuits: operands are
added one after the other, and the nodes of the first ones are still there at the last.
-/

namespace BitEquiv
namespace Btor

open Logic Circuit

section Terms

variable {values : List Bits} {scope : Scope} {ρ : Interpretation} {c c' : Circuit} {r r' : Run}

def Knows (scope : Scope) (ρ : Interpretation) (c : Circuit) (r : Run) : Prop :=
  ∀ x s, scope x = some s → ∃ m n, ρ x = some m ∧ m.sort = s ∧
    c.names.get? x = some (n, s.width) ∧ r.nodes n = some (bitsOf m)

theorem Knows.mono (h : Knows scope ρ c r) (hnames : c'.names = c.names) (hkept : r.Extends r') :
    Knows scope ρ c' r' := by
  intro x s hx
  rcases h x s hx with ⟨m, n, hm, hs, hname, hnode⟩
  refine ⟨m, n, hm, hs, ?_, hkept.nodes n _ hnode⟩
  rw [hnames]
  exact hname

theorem Knows.leads (h : Knows scope ρ c r) (hleads : Leads values c r c' r') :
    Knows scope ρ c' r' :=
  h.mono hleads.names hleads.grows.toExtends

/-- The term becomes a node that carries its meaning. -/
def Compiles (values : List Bits) (ρ : Interpretation) (t : Term) (s : BvSort) (c : Circuit)
    (r : Run) : Prop :=
  ∃ m c' n r', t.denote ρ = some m ∧ m.sort = s ∧ c.addTerm t = .ok (c', n, s.width) ∧
    Leads values c r c' r' ∧ r'.nodes n = some (bitsOf m)

theorem Compiles.bool {t : Term} (h : Compiles values ρ t .bool c r) :
    ∃ b c' n r', t.denote ρ = some (.bool b) ∧ c.addTerm t = .ok (c', n, 1) ∧
      Leads values c r c' r' ∧ r'.nodes n = some (.ofBool b) := by
  rcases h with ⟨m, c', n, r', hm, hs, hadd, hleads, hnode⟩
  rcases Meaning.sort_eq_bool hs with ⟨b, rfl⟩
  exact ⟨b, c', n, r', hm, hadd, hleads, hnode⟩

theorem Compiles.bits {t : Term} {w : Nat} (h : Compiles values ρ t (.bitVec w) c r) :
    ∃ x c' n r', t.denote ρ = some (.bits w x) ∧ c.addTerm t = .ok (c', n, w) ∧
      Leads values c r c' r' ∧ r'.nodes n = some ⟨w, x⟩ := by
  rcases h with ⟨m, c', n, r', hm, hs, hadd, hleads, hnode⟩
  rcases Meaning.sort_eq_bitVec hs with ⟨x, rfl⟩
  exact ⟨x, c', n, r', hm, hadd, hleads, hnode⟩

/-- Two operands, one after the other: both nodes are there at the end. -/
theorem operands {a b : Term} {s s' : BvSort} (ha : Compiles values ρ a s c r)
    (hb : ∀ c' r', Leads values c r c' r' → Compiles values ρ b s' c' r') :
    ∃ x y c₁ c₂ m n r', a.denote ρ = some x ∧ b.denote ρ = some y ∧ x.sort = s ∧ y.sort = s' ∧
      c.addTerm a = .ok (c₁, m, s.width) ∧ c₁.addTerm b = .ok (c₂, n, s'.width) ∧
      Leads values c r c₂ r' ∧ r'.nodes m = some (bitsOf x) ∧ r'.nodes n = some (bitsOf y) := by
  rcases ha with ⟨x, c₁, m, r₁, hx, hs, hadd, hleads, hm⟩
  rcases hb c₁ r₁ hleads with ⟨y, c₂, n, r₂, hy, hs', hadd', hleads', hn⟩
  exact ⟨x, y, c₁, c₂, m, n, r₂, hx, hy, hs, hs', hadd, hadd', hleads.trans hleads',
    hleads'.node hm, hn⟩

theorem operands_bool {a b : Term} (ha : Compiles values ρ a .bool c r)
    (hb : ∀ c' r', Leads values c r c' r' → Compiles values ρ b .bool c' r') :
    ∃ p q c₁ c₂ m n r', a.denote ρ = some (.bool p) ∧ b.denote ρ = some (.bool q) ∧
      c.addTerm a = .ok (c₁, m, 1) ∧ c₁.addTerm b = .ok (c₂, n, 1) ∧
      Leads values c r c₂ r' ∧ r'.nodes m = some (.ofBool p) ∧ r'.nodes n = some (.ofBool q) := by
  rcases operands ha hb with
    ⟨x, y, c₁, c₂, m, n, r', hx, hy, hs, hs', hadd, hadd', hleads, hm, hn⟩
  rcases Meaning.sort_eq_bool hs with ⟨p, rfl⟩
  rcases Meaning.sort_eq_bool hs' with ⟨q, rfl⟩
  exact ⟨p, q, c₁, c₂, m, n, r', hx, hy, hadd, hadd', hleads, hm, hn⟩

theorem operands_bits {a b : Term} {v w : Nat} (ha : Compiles values ρ a (.bitVec v) c r)
    (hb : ∀ c' r', Leads values c r c' r' → Compiles values ρ b (.bitVec w) c' r') :
    ∃ x y c₁ c₂ m n r', a.denote ρ = some (.bits v x) ∧ b.denote ρ = some (.bits w y) ∧
      c.addTerm a = .ok (c₁, m, v) ∧ c₁.addTerm b = .ok (c₂, n, w) ∧
      Leads values c r c₂ r' ∧ r'.nodes m = some ⟨v, x⟩ ∧ r'.nodes n = some ⟨w, y⟩ := by
  rcases operands ha hb with
    ⟨x, y, c₁, c₂, m, n, r', hx, hy, hs, hs', hadd, hadd', hleads, hm, hn⟩
  rcases Meaning.sort_eq_bitVec hs with ⟨x, rfl⟩
  rcases Meaning.sort_eq_bitVec hs' with ⟨y, rfl⟩
  exact ⟨x, y, c₁, c₂, m, n, r', hx, hy, hadd, hadd', hleads, hm, hn⟩

theorem width_pos {s : BvSort} (h : s.isValid = true) : 0 < s.width := by
  cases s with
  | bool => exact Nat.one_pos
  | bitVec w => exact (Term.isValid_bitVec.mp h).1

theorem compiles_node {t : Term} {s : BvSort} {m : Meaning} {op : String} {args : List Nat}
    (hm : t.denote ρ = some m) (hs : m.sort = s) (hvalid : s.isValid = true)
    (hleads : Leads values c r c' r') (hop : op ∈ opcodes) (hargs : args ≠ [])
    (happly : result? r'.nodes op args = some (bitsOf m))
    (hadd : c.addTerm t =
      .ok ((c'.addNode op s.width args).1, (c'.addNode op s.width args).2, s.width)) :
    Compiles values ρ t s c r := by
  have hwidth : (bitsOf m).width = s.width := by
    rw [width_bitsOf, hs]
  have hpos : 0 < (bitsOf m).width := by
    rw [hwidth]
    exact width_pos hvalid
  rcases hleads.follows.addNode hop hargs happly hpos with ⟨r₁, hleads₁, hnode⟩
  rw [hwidth] at hleads₁ hnode
  exact ⟨m, _, _, r₁, hm, hs, hadd, hleads.trans hleads₁, hnode⟩

theorem expectWidth_self (op : String) (w : Nat) : expectWidth op w w = .ok () := if_pos rfl

/-!
## Connectives
-/

/-- The operands so far come to `p`; without any, `p` is the unit. -/
def Collected (r : Run) (unit p : Bool) : Option Nat → Prop
  | none => p = unit
  | some n => r.nodes n = some (.ofBool p)

/-- The first operand stands for the result so far as it is. -/
theorem addAll_first {t : Term} {n : Nat} (h : c.addTerm t = .ok (c', n, 1)) (op : String)
    (unit : Bool) (ts : List Term) :
    c.addAll op unit none (t :: ts) = c'.addAll op unit (some n) ts := by
  rw [Circuit.addAll, h]
  show (expectWidth op 1 1 >>= fun _ => c'.addAll op unit (some n) ts) = _
  rw [expectWidth_self]
  rfl

theorem addAll_next {t : Term} {n : Nat} (h : c.addTerm t = .ok (c', n, 1)) (op : String)
    (unit : Bool) (m : Nat) (ts : List Term) :
    c.addAll op unit (some m) (t :: ts) =
      (c'.addNode op 1 [m, n]).1.addAll op unit (some (c'.addNode op 1 [m, n]).2) ts := by
  rw [Circuit.addAll, h]
  show (expectWidth op 1 1 >>= fun _ => Circuit.addAll (c'.addNode op 1 [m, n]).1 op unit
    (some (c'.addNode op 1 [m, n]).2) ts) = _
  rw [expectWidth_self]
  rfl

/-- Operands that become nodes in every circuit are collected from left to right. -/
theorem addAll_collects {op : String} {f : Bool → Bool → Bool} {unit : Bool}
    (hop : op ∈ opcodes) (hunit : ∀ p, f unit p = p)
    (happly : ∀ {nodes : Nat → Option Bits} {m n p q}, nodes m = some (.ofBool p) →
      nodes n = some (.ofBool q) → result? nodes op [m, n] = some (.ofBool (f p q)))
    {ts : List Term}
    (hts : ∀ t ∈ ts, ∀ c r, Follows values c r → Knows scope ρ c r → Compiles values ρ t .bool c r)
    (hc : Follows values c r) (hknows : Knows scope ρ c r) {done : Option Nat} {p : Bool}
    (hdone : Collected r unit p done) :
    ∃ ps c' n r', Term.denoteAll ρ ts = some ps ∧ c.addAll op unit done ts = .ok (c', n) ∧
      Leads values c r c' r' ∧ r'.nodes n = some (.ofBool (ps.foldl f p)) := by
  induction ts generalizing c r done p with
  | nil =>
      cases done with
      | none =>
          rcases hc.addBool unit with ⟨r', hleads, hnode⟩
          rw [← (show p = unit from hdone)] at hnode
          exact ⟨[], _, _, r', rfl, rfl, hleads, hnode⟩
      | some n => exact ⟨[], c, n, r, rfl, rfl, .refl hc, hdone⟩
  | cons t ts ih =>
      rcases List.forall_mem_cons.mp hts with ⟨ht, hts⟩
      rcases (ht c r hc hknows).bool with ⟨q, c₁, n, r₁, hm, hadd, hleads, hn⟩
      have hnext : ∃ c₂ m r₂, Leads values c r c₂ r₂ ∧ r₂.nodes m = some (.ofBool (f p q)) ∧
          c.addAll op unit done (t :: ts) = c₂.addAll op unit (some m) ts := by
        cases done with
        | none =>
            refine ⟨c₁, n, r₁, hleads, ?_, addAll_first hadd op unit ts⟩
            rw [show p = unit from hdone, hunit]
            exact hn
        | some m =>
            rcases hleads.follows.addNode hop (List.cons_ne_nil m [n])
              (happly (hleads.node hdone) hn) Nat.one_pos with ⟨r₂, hleads₂, hnode⟩
            exact ⟨_, _, r₂, hleads.trans hleads₂, hnode, addAll_next hadd op unit m ts⟩
      rcases hnext with ⟨c₂, m, r₂, hleads₂, hm₂, hrest⟩
      have hcollected : Collected r₂ unit (f p q) (some m) := hm₂
      rcases ih hts hleads₂.follows (hknows.leads hleads₂) hcollected with
        ⟨ps, c', n', r', hps, hall, hleads', hn'⟩
      refine ⟨q :: ps, c', n', r', ?_, hrest.trans hall, hleads₂.trans hleads', hn'⟩
      simp [Term.denoteAll, hm, hps, Meaning.asBool]

theorem foldl_and (p : Bool) (ps : List Bool) : ps.foldl (· && ·) p = (p && ps.all id) := by
  induction ps generalizing p with
  | nil => simp
  | cons q ps ih => rw [List.foldl_cons, ih, List.all_cons, Bool.and_assoc, id]

theorem foldl_or (p : Bool) (ps : List Bool) : ps.foldl (· || ·) p = (p || ps.any id) := by
  induction ps generalizing p with
  | nil => simp
  | cons q ps ih => rw [List.foldl_cons, ih, List.any_cons, Bool.or_assoc, id]

theorem compiles_and {as : List Term}
    (h : ∀ a ∈ as, ∀ c r, Follows values c r → Knows scope ρ c r → Compiles values ρ a .bool c r)
    (hc : Follows values c r) (hknows : Knows scope ρ c r) :
    Compiles values ρ (.and as) .bool c r := by
  have hunit : Collected r true true none := rfl
  rcases addAll_collects (by decide) Bool.true_and result?_and h hc hknows hunit with
    ⟨ps, c', n, r', hps, hadd, hleads, hnode⟩
  refine ⟨.bool (ps.all id), c', n, r', ?_, rfl, except_bind_eq_ok.mpr ⟨_, hadd, rfl⟩, hleads, ?_⟩
  · simp [Term.denote, hps]
  · rw [foldl_and, Bool.true_and] at hnode
    exact hnode

theorem compiles_or {as : List Term}
    (h : ∀ a ∈ as, ∀ c r, Follows values c r → Knows scope ρ c r → Compiles values ρ a .bool c r)
    (hc : Follows values c r) (hknows : Knows scope ρ c r) :
    Compiles values ρ (.or as) .bool c r := by
  have hunit : Collected r false false none := rfl
  rcases addAll_collects (by decide) Bool.false_or result?_or h hc hknows hunit with
    ⟨ps, c', n, r', hps, hadd, hleads, hnode⟩
  refine ⟨.bool (ps.any id), c', n, r', ?_, rfl, except_bind_eq_ok.mpr ⟨_, hadd, rfl⟩, hleads, ?_⟩
  · simp [Term.denote, hps]
  · rw [foldl_or, Bool.false_or] at hnode
    exact hnode

/-!
## Terms
-/

theorem compiles (hscope : Term.ValidScope scope) {t : Term} {s : BvSort}
    (h : t.HasSort scope s) (hc : Follows values c r)
    (hknows : Knows scope ρ c r) : Compiles values ρ t s c r := by
  induction h generalizing c r with
  | @var x s hx =>
      rcases hknows x s hx with ⟨m, n, hm, hs, hname, hnode⟩
      refine ⟨m, c, n, r, hm, hs, ?_, .refl hc, hnode⟩
      simp [Circuit.addTerm, hname]
  | @boolLit b =>
      rcases hc.addBool b with ⟨r', hleads, hnode⟩
      exact ⟨.bool b, _, _, r', rfl, rfl, rfl, hleads, hnode⟩
  | @bvLit bits w hfits hpos hmax =>
      have hbits : bits < Nat.pow 2 w := Nat.lt_of_lt_of_eq hfits (Word.modulus_of_le hmax)
      rcases hc.addConst hpos hbits with ⟨r', hleads, hnode⟩
      exact ⟨.bits w (BitVec.ofNat w bits), _, _, r', rfl, rfl, rfl, hleads, hnode⟩
  | not _ iha =>
      rcases (iha hc hknows).bool with ⟨p, c₁, n, r₁, hp, hadd, hleads, hn⟩
      refine compiles_node (m := .bool !p) ?_ rfl rfl hleads (by decide) (by simp)
        (result?_not hn) ?_
      · simp [Term.denote, hp, Meaning.asBool]
      · exact except_bind_eq_ok.mpr ⟨_, hadd, rfl⟩
  | and _ ihas =>
      exact compiles_and (fun a ha c r => ihas a ha) hc hknows
  | or _ ihas =>
      exact compiles_or (fun a ha c r => ihas a ha) hc hknows
  | xor _ _ iha ihb =>
      rcases operands_bool (iha hc hknows)
        (fun _ _ hleads => ihb hleads.follows (hknows.leads hleads)) with
        ⟨p, q, c₁, c₂, m, n, r', hp, hq, hadd, hadd', hleads, hm, hn⟩
      refine compiles_node (m := .bool (p ^^ q)) ?_ rfl rfl hleads (by decide) (by simp)
        (result?_xor hm hn) ?_
      · simp [Term.denote, hp, hq, Meaning.asBool]
      · exact except_bind_eq_ok.mpr ⟨_, hadd, except_bind_eq_ok.mpr ⟨_, hadd', rfl⟩⟩
  | implies _ _ iha ihb =>
      rcases operands_bool (iha hc hknows)
        (fun _ _ hleads => ihb hleads.follows (hknows.leads hleads)) with
        ⟨p, q, c₁, c₂, m, n, r', hp, hq, hadd, hadd', hleads, hm, hn⟩
      refine compiles_node (m := .bool (!p || q)) ?_ rfl rfl hleads (by decide) (by simp)
        (result?_implies hm hn) ?_
      · simp [Term.denote, hp, hq, Meaning.asBool]
      · exact except_bind_eq_ok.mpr ⟨_, hadd, except_bind_eq_ok.mpr ⟨_, hadd', rfl⟩⟩
  | @eq a b s _ _ iha ihb =>
      rcases operands (iha hc hknows)
        (fun _ _ hleads => ihb hleads.follows (hknows.leads hleads)) with
        ⟨x, y, c₁, c₂, m, n, r', hx, hy, hs, hs', hadd, hadd', hleads, hm, hn⟩
      have hsort : x.sort = y.sort := hs.trans hs'.symm
      refine compiles_node (m := .bool (decide (x = y))) ?_ rfl rfl hleads (by decide) (by simp)
        (result?_eq hm hn hsort) ?_
      · simp [Term.denote, hx, hy, Meaning.equal_of_sort_eq hsort]
      · exact except_bind_eq_ok.mpr ⟨_, hadd, except_bind_eq_ok.mpr ⟨_, hadd',
          except_bind_eq_ok.mpr ⟨_, expectWidth_self "eq" s.width, rfl⟩⟩⟩
  | @distinct a b s _ _ iha ihb =>
      rcases operands (iha hc hknows)
        (fun _ _ hleads => ihb hleads.follows (hknows.leads hleads)) with
        ⟨x, y, c₁, c₂, m, n, r', hx, hy, hs, hs', hadd, hadd', hleads, hm, hn⟩
      have hsort : x.sort = y.sort := hs.trans hs'.symm
      refine compiles_node (m := .bool !decide (x = y)) ?_ rfl rfl hleads (by decide) (by simp)
        (result?_neq hm hn hsort) ?_
      · simp [Term.denote, hx, hy, Meaning.equal_of_sort_eq hsort]
      · exact except_bind_eq_ok.mpr ⟨_, hadd, except_bind_eq_ok.mpr ⟨_, hadd',
          except_bind_eq_ok.mpr ⟨_, expectWidth_self "neq" s.width, rfl⟩⟩⟩
  | @ite k a b s _ ha _ ihk iha ihb =>
      rcases (ihk hc hknows).bool with ⟨p, c₀, l, r₀, hp, hadd₀, hleads₀, hl⟩
      have hknows₀ := hknows.leads hleads₀
      rcases operands (iha hleads₀.follows hknows₀)
        (fun _ _ hleads => ihb hleads.follows (hknows₀.leads hleads)) with
        ⟨x, y, c₁, c₂, m, n, r', hx, hy, hs, hs', hadd, hadd', hleads, hm, hn⟩
      have hsort : x.sort = y.sort := hs.trans hs'.symm
      have hresult : (if p then x else y).sort = s := by
        cases p
        · exact hs'
        · exact hs
      refine compiles_node ?_ hresult (ha.isValid hscope) (hleads₀.trans hleads) (by decide)
        (by simp) (result?_ite hm hn hsort (hleads.node hl)) ?_
      · simp [Term.denote, hp, hx, hy, hsort, Meaning.asBool]
      · exact except_bind_eq_ok.mpr ⟨_, hadd₀, except_bind_eq_ok.mpr ⟨_, expectWidth_self "ite" 1,
          except_bind_eq_ok.mpr ⟨_, hadd, except_bind_eq_ok.mpr ⟨_, hadd',
            except_bind_eq_ok.mpr ⟨_, expectWidth_self "ite" s.width, rfl⟩⟩⟩⟩⟩
  | @unary op a w ha iha =>
      have hvalid : (BvSort.bitVec w).isValid = true := ha.isValid hscope
      rcases (iha hc hknows).bits with ⟨x, c₁, n, r₁, hx, hadd, hleads, hn⟩
      refine compiles_node (m := .bits w (op.denote x)) ?_ rfl hvalid hleads ?_ (by simp)
        (result?_unary op hn) ?_
      · simp [Term.denote, hx, Meaning.onBits]
      · cases op <;> decide
      · exact except_bind_eq_ok.mpr ⟨_, hadd, rfl⟩
  | @binary op a b w ha _ iha ihb =>
      have hvalid : (BvSort.bitVec w).isValid = true := ha.isValid hscope
      rcases operands_bits (iha hc hknows)
        (fun _ _ hleads => ihb hleads.follows (hknows.leads hleads)) with
        ⟨x, y, c₁, c₂, m, n, r', hx, hy, hadd, hadd', hleads, hm, hn⟩
      refine compiles_node (m := .bits w (op.denote x y)) ?_ rfl hvalid hleads ?_ (by simp)
        (result?_binary op hm hn) ?_
      · simp [Term.denote, hx, hy]
      · cases op <;> decide
      · exact except_bind_eq_ok.mpr ⟨_, hadd, except_bind_eq_ok.mpr ⟨_, hadd',
          except_bind_eq_ok.mpr ⟨_, expectWidth_self (binaryName op) w, rfl⟩⟩⟩
  | @compare op a b w _ _ iha ihb =>
      rcases operands_bits (iha hc hknows)
        (fun _ _ hleads => ihb hleads.follows (hknows.leads hleads)) with
        ⟨x, y, c₁, c₂, m, n, r', hx, hy, hadd, hadd', hleads, hm, hn⟩
      refine compiles_node (m := .bool (op.denote x y)) ?_ rfl rfl hleads ?_ (by simp)
        (result?_compare op hm hn) ?_
      · simp [Term.denote, hx, hy]
      · cases op <;> decide
      · exact except_bind_eq_ok.mpr ⟨_, hadd, except_bind_eq_ok.mpr ⟨_, hadd',
          except_bind_eq_ok.mpr ⟨_, expectWidth_self (compareName op) w, rfl⟩⟩⟩
  | @extract hi lo a w ha hlo hhi iha =>
      have hvalid : (BvSort.bitVec (hi - lo + 1)).isValid = true :=
        (Term.HasSort.extract ha hlo hhi).isValid hscope
      rcases (iha hc hknows).bits with ⟨x, c₁, n, r₁, hx, hadd, hleads, hn⟩
      refine compiles_node (m := .bits (hi - lo + 1) (x.extractLsb hi lo)) ?_ rfl hvalid hleads
        (by decide) (by simp) (result?_slice hn hlo hhi) ?_
      · simp [Term.denote, hx, Meaning.onBits, hlo, hhi]
      · exact except_bind_eq_ok.mpr ⟨_, hadd, if_pos ⟨hlo, hhi⟩⟩
  | @concat a b v w ha hb hpos hmax iha ihb =>
      have hvalid : (BvSort.bitVec (v + w)).isValid = true := Term.isValid_bitVec.mpr ⟨hpos, hmax⟩
      rcases operands_bits (iha hc hknows)
        (fun _ _ hleads => ihb hleads.follows (hknows.leads hleads)) with
        ⟨x, y, c₁, c₂, m, n, r', hx, hy, hadd, hadd', hleads, hm, hn⟩
      refine compiles_node (m := .bits (v + w) (x ++ y)) ?_ rfl hvalid hleads (by decide)
        (by simp) (result?_concat hm hn) ?_
      · simp [Term.denote, hx, hy, Meaning.onBits]
      · exact except_bind_eq_ok.mpr ⟨_, hadd, except_bind_eq_ok.mpr ⟨_, hadd', rfl⟩⟩
  | @zeroExtend k a w ha hpos hmax iha =>
      have hvalid : (BvSort.bitVec (w + k)).isValid = true := Term.isValid_bitVec.mpr ⟨hpos, hmax⟩
      rcases (iha hc hknows).bits with ⟨x, c₁, n, r₁, hx, hadd, hleads, hn⟩
      refine compiles_node (m := .bits (w + k) (x.zeroExtend (w + k))) ?_ rfl hvalid hleads
        (by decide) (by simp) (result?_uext hn k) ?_
      · simp [Term.denote, hx, Meaning.onBits]
      · exact except_bind_eq_ok.mpr ⟨_, hadd, rfl⟩
  | @signExtend k a w ha hpos hmax iha =>
      have hvalid : (BvSort.bitVec (w + k)).isValid = true := Term.isValid_bitVec.mpr ⟨hpos, hmax⟩
      rcases (iha hc hknows).bits with ⟨x, c₁, n, r₁, hx, hadd, hleads, hn⟩
      refine compiles_node (m := .bits (w + k) (x.signExtend (w + k))) ?_ rfl hvalid hleads
        (by decide) (by simp) (result?_sext hn k) ?_
      · simp [Term.denote, hx, Meaning.onBits]
      · exact except_bind_eq_ok.mpr ⟨_, hadd, rfl⟩

end Terms

end Btor
end BitEquiv

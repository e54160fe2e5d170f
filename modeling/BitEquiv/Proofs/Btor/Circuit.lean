import BitEquiv.Proofs.Btor.Runs
import BitEquiv.Proofs.Logic.Arithmetic

/-!
# Circuits and their runs

A circuit under construction has a run at any values of its inputs, and the run grows with
the circuit. The lemmas here say what each way to add a line does to the run: a sort is known
afterwards, and a node has the value of its operator.
-/

namespace BitEquiv
namespace Btor

open Logic

/-!
## Operators on nodes
-/

def bitsOf : Meaning → Bits
  | .bool b => .ofBool b
  | .bits w x => ⟨w, x⟩

@[simp] theorem width_bitsOf (m : Meaning) : (bitsOf m).width = m.sort.width := by
  cases m with
  | bool b => rfl
  | bits w x => rfl

namespace Bits

@[simp] theorem onPair_bits (f : (w : Nat) → BitVec w → BitVec w → Bits) {w : Nat}
    (x y : BitVec w) :
    onPair f ⟨w, x⟩ ⟨w, y⟩ = some (f w x y) := by
  simp [onPair]

end Bits

section Operators

variable {nodes : Nat → Option Bits} {a b c : Nat}

theorem result?_of_operation {op : String} {o : Operation} (hop : operation? op = some o)
    (args : List Nat) : result? nodes op args = o.result? nodes args := by
  show ((operation? op).bind fun o => o.result? nodes args) = _
  rw [hop]
  rfl

section Words

variable {v w : Nat} {x : BitVec w}

theorem result?_unary (op : UnaryOp) (ha : nodes a = some ⟨w, x⟩) :
    result? nodes (unaryName op) [a] = some ⟨w, op.denote x⟩ := by
  have hop : operation? (unaryName op) = some (.unary op) := by
    cases op <;> rfl
  rw [result?_of_operation hop]
  show (nodes a).bind _ = _
  rw [ha]
  rfl

theorem result?_binary (op : BinaryOp) {y : BitVec w} (ha : nodes a = some ⟨w, x⟩)
    (hb : nodes b = some ⟨w, y⟩) :
    result? nodes (binaryName op) [a, b] = some ⟨w, op.denote x y⟩ := by
  have hop : operation? (binaryName op) = some (.binary op) := by
    cases op <;> rfl
  rw [result?_of_operation hop]
  show ((nodes a).bind fun x => (nodes b).bind fun y => Bits.onPair _ x y) = _
  rw [ha, hb, Option.bind_some, Option.bind_some, Bits.onPair_bits]

theorem result?_compare (op : CompareOp) {y : BitVec w} (ha : nodes a = some ⟨w, x⟩)
    (hb : nodes b = some ⟨w, y⟩) :
    result? nodes (compareName op) [a, b] = some (.ofBool (op.denote x y)) := by
  have hop : operation? (compareName op) = some (.compare op) := by
    cases op <;> rfl
  rw [result?_of_operation hop]
  show ((nodes a).bind fun x => (nodes b).bind fun y => Bits.onPair _ x y) = _
  rw [ha, hb, Option.bind_some, Option.bind_some, Bits.onPair_bits]

theorem result?_concat {y : BitVec v} (ha : nodes a = some ⟨w, x⟩) (hb : nodes b = some ⟨v, y⟩) :
    result? nodes "concat" [a, b] = some ⟨w + v, x ++ y⟩ := by
  show ((nodes a).bind fun x => (nodes b).bind _) = _
  rw [ha, hb]
  rfl

theorem result?_slice {hi lo : Nat} (ha : nodes a = some ⟨w, x⟩) (hlo : lo ≤ hi) (hhi : hi < w) :
    result? nodes "slice" [a, hi, lo] = some ⟨hi - lo + 1, x.extractLsb hi lo⟩ := by
  show (nodes a).bind _ = _
  rw [ha]
  exact if_pos ⟨hlo, hhi⟩

theorem result?_uext (ha : nodes a = some ⟨w, x⟩) (k : Nat) :
    result? nodes "uext" [a, k] = some ⟨w + k, x.zeroExtend (w + k)⟩ := by
  show (nodes a).bind _ = _
  rw [ha]
  rfl

theorem result?_sext (ha : nodes a = some ⟨w, x⟩) (k : Nat) :
    result? nodes "sext" [a, k] = some ⟨w + k, x.signExtend (w + k)⟩ := by
  show (nodes a).bind _ = _
  rw [ha]
  rfl

end Words

section Booleans

variable {p q : Bool}

theorem result?_not (ha : nodes a = some (.ofBool p)) :
    result? nodes "not" [a] = some (.ofBool !p) := by
  refine (result?_unary .not ha).trans ?_
  cases p <;> rfl

variable (ha : nodes a = some (.ofBool p)) (hb : nodes b = some (.ofBool q))

include ha hb

theorem result?_and : result? nodes "and" [a, b] = some (.ofBool (p && q)) := by
  refine (result?_binary .and ha hb).trans ?_
  cases p <;> cases q <;> rfl

theorem result?_or : result? nodes "or" [a, b] = some (.ofBool (p || q)) := by
  refine (result?_binary .or ha hb).trans ?_
  cases p <;> cases q <;> rfl

theorem result?_xor : result? nodes "xor" [a, b] = some (.ofBool (p ^^ q)) := by
  refine (result?_binary .xor ha hb).trans ?_
  cases p <;> cases q <;> rfl

theorem result?_implies : result? nodes "implies" [a, b] = some (.ofBool (!p || q)) := by
  show ((nodes a).bind fun x => x.bool?.bind fun _ => (nodes b).bind _) = _
  rw [ha, hb]
  cases p <;> cases q <;> rfl

end Booleans

section Sorted

variable {l r : Meaning}

theorem onPair_bitsOf (hsort : l.sort = r.sort) (f : Bool → Bool) :
    (bitsOf l).onPair (fun _ x y => .ofBool (f (x == y))) (bitsOf r) =
      some (.ofBool (f (decide (l = r)))) := by
  cases l with
  | bool p =>
      rcases Meaning.sort_eq_bool hsort.symm with ⟨q, rfl⟩
      have heq : (BitVec.ofBool p == BitVec.ofBool q) =
          decide (Meaning.bool p = Meaning.bool q) := by
        cases p <;> cases q <;> rfl
      exact (Bits.onPair_bits _ _ _).trans (by rw [heq])
  | bits w x =>
      rcases Meaning.sort_eq_bitVec hsort.symm with ⟨y, rfl⟩
      have heq : (x == y) = decide (Meaning.bits w x = Meaning.bits w y) := by
        rw [beq_eq_decide]
        simp
      exact (Bits.onPair_bits _ _ _).trans (by rw [heq])

variable (ha : nodes a = some (bitsOf l)) (hb : nodes b = some (bitsOf r)) (hsort : l.sort = r.sort)

include ha hb hsort

theorem result?_ite {p : Bool} (hc : nodes c = some (.ofBool p)) :
    result? nodes "ite" [c, a, b] = some (bitsOf (if p then l else r)) := by
  have hwidth : (bitsOf l).width = (bitsOf r).width := by
    rw [width_bitsOf, width_bitsOf, hsort]
  show ((nodes c).bind fun z => z.bool?.bind fun p => (nodes a).bind fun x => (nodes b).bind _) = _
  rw [hc, ha, hb]
  cases p with
  | false => exact if_pos hwidth
  | true => exact if_pos hwidth

theorem result?_eq : result? nodes "eq" [a, b] = some (.ofBool (decide (l = r))) := by
  show ((nodes a).bind fun x => (nodes b).bind fun y => Bits.onPair _ x y) = _
  rw [ha, hb, Option.bind_some, Option.bind_some]
  exact onPair_bitsOf hsort id

theorem result?_neq : result? nodes "neq" [a, b] = some (.ofBool !decide (l = r)) := by
  show ((nodes a).bind fun x => (nodes b).bind fun y => Bits.onPair _ x y) = _
  rw [ha, hb, Option.bind_some, Option.bind_some]
  exact onPair_bitsOf hsort not

end Sorted

end Operators

/-!
## Runs of circuits
-/

namespace Circuit

def rows (c : Circuit) : List Row := numbered 1 (c.lines.reverse.map Line.seen)

/-- The run of a circuit at values of its inputs. Its table of sorts is that of the run. -/
structure Follows (values : List Bits) (c : Circuit) (r : Run) : Prop where
  run : run? c.rows (.start values) = some r
  legible : ∀ line ∈ c.lines, line.Legible
  sorts : ∀ w id, c.sorts.lookup w = some id → r.sorts id = some w

theorem rows_push (c : Circuit) (line : Line) :
    (c.push line).rows = c.rows ++ [(c.size + 1, line.seen)] := by
  show numbered 1 ((line :: c.lines).reverse.map Line.seen) = _
  rw [List.reverse_cons, List.map_append, numbered_append, List.length_map, List.length_reverse,
    Nat.add_comm 1]
  rfl

variable {values : List Bits} {c : Circuit} {r r' : Run}

theorem follows_empty (values : List Bits) : Follows values empty (.start values) where
  run := rfl
  legible := List.forall_mem_nil _
  sorts := by
    rintro w id ⟨⟩

theorem Follows.within (h : Follows values c r) : r.Within (c.size + 1) := by
  have hwithin := (mentions_of_run? (Run.within_start values) (Nat.le_refl 1) h.run).1
  rw [List.length_map, List.length_reverse, Nat.add_comm] at hwithin
  exact hwithin

theorem Follows.push (h : Follows values c r) {line : Line} (hline : line.Legible)
    (hstep : line.seen.step? (c.size + 1) r = some r') (hkept : r.Extends r') :
    Follows values (c.push line) r' where
  run := by
    rw [rows_push, run?_append, h.run]
    show (line.seen.step? (c.size + 1) r).bind (run? []) = some r'
    rw [hstep]
    rfl
  legible := List.forall_mem_cons.mpr ⟨hline, h.legible⟩
  sorts := by
    intro w id hid
    exact hkept.sorts id w (h.sorts w id hid)

structure Leads (values : List Bits) (c : Circuit) (r : Run) (c' : Circuit) (r' : Run) : Prop where
  follows : Follows values c' r'
  names : c'.names = c.names
  grows : r.Grows r'

theorem Leads.refl (h : Follows values c r) : Leads values c r c r := ⟨h, rfl, .refl r⟩

theorem Leads.trans {c' c'' : Circuit} {r'' : Run} (h : Leads values c r c' r')
    (h' : Leads values c' r' c'' r'') : Leads values c r c'' r'' :=
  ⟨h'.follows, h'.names.trans h.names, h.grows.trans h'.grows⟩

theorem Leads.node {c' : Circuit} (h : Leads values c r c' r') {n : Nat} {x : Bits}
    (hn : r.nodes n = some x) : r'.nodes n = some x :=
  h.grows.nodes n x hn

theorem Leads.pushNode {c' : Circuit} (h : Leads values c r c' r') {line : Line}
    (hline : line.Legible) {x : Bits}
    (hstep : line.seen.step? (c'.size + 1) r' = some (r'.defineNode (c'.size + 1) x)) :
    Leads values c r (c'.push line) (r'.defineNode (c'.size + 1) x) := by
  have hkept := Run.extends_defineNode h.follows.within x
  exact h.trans ⟨h.follows.push hline hstep hkept, rfl, hkept, rfl, rfl, rfl⟩

theorem Follows.withSort (h : Follows values c r) {w : Nat} (hw : 0 < w) :
    ∃ r', Leads values c r (c.withSort w).1 r' ∧ r'.nodes = r.nodes ∧
      r'.sorts (c.withSort w).2 = some w := by
  unfold Circuit.withSort
  cases hlookup : c.sorts.lookup w with
  | some id => exact ⟨r, .refl h, rfl, h.sorts w id hlookup⟩
  | none =>
      have hkept := Run.extends_defineSort h.within w
      have hnew : (r.defineSort (c.size + 1) w).sorts (c.size + 1) = some w :=
        Function.update_self _ _ _
      have hline : (Line.sort w).Legible := trivial
      have hpush := h.push hline (if_pos hw) hkept
      refine ⟨r.defineSort (c.size + 1) w, ⟨?_, rfl, hkept, rfl, rfl, rfl⟩, rfl, hnew⟩
      refine ⟨hpush.run, hpush.legible, ?_⟩
      -- The table has one entry more than that of the pushed circuit.
      intro v id hid
      change List.lookup v ((w, c.size + 1) :: c.sorts) = some id at hid
      rw [List.lookup_cons] at hid
      by_cases hv : v = w
      · simp only [hv, beq_self_eq_true] at hid
        cases hid
        rw [hv]
        exact hnew
      · simp only [beq_eq_false_iff_ne.mpr hv] at hid
        exact hpush.sorts v id hid

theorem Follows.addNode (h : Follows values c r) {op : String} {args : List Nat} {x : Bits}
    (hop : op ∈ opcodes) (hargs : args ≠ []) (hx : result? r.nodes op args = some x)
    (hpos : 0 < x.width) :
    ∃ r', Leads values c r (c.addNode op x.width args).1 r' ∧
      r'.nodes (c.addNode op x.width args).2 = some x := by
  rcases h.withSort hpos with ⟨r₁, hleads, hnodes, hsort⟩
  rw [← hnodes] at hx
  have hline : (Line.node op (c.withSort x.width).2 args).Legible := ⟨hop, hargs⟩
  refine ⟨_, hleads.pushNode hline ?_, Function.update_self _ _ _⟩
  simp [Line.seen, Line.step?, hsort, hx]

theorem Follows.addConst (h : Follows values c r) {bits w : Nat} (hpos : 0 < w)
    (hbits : bits < Nat.pow 2 w) :
    ∃ r', Leads values c r (c.addConst bits w).1 r' ∧
      r'.nodes (c.addConst bits w).2 = some ⟨w, BitVec.ofNat w bits⟩ := by
  rcases h.withSort hpos with ⟨r₁, hleads, _, hsort⟩
  have hline : (Line.const (c.withSort w).2 bits w).Legible := ⟨hpos, hbits⟩
  refine ⟨_, hleads.pushNode hline ?_, Function.update_self _ _ _⟩
  simp [Line.seen, Line.step?, hsort]

theorem Follows.addBool (h : Follows values c r) (b : Bool) :
    ∃ r', Leads values c r (c.addConst b.toNat 1).1 r' ∧
      r'.nodes (c.addConst b.toNat 1).2 = some (.ofBool b) := by
  have hbits : b.toNat < Nat.pow 2 1 := b.toNat_lt
  rcases h.addConst Nat.one_pos hbits with ⟨r', hleads, hnode⟩
  refine ⟨r', hleads, hnode.trans ?_⟩
  cases b <;> rfl

end Circuit

end Btor
end BitEquiv

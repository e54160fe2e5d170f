import BitEquiv.Proofs.Logic.Typing
import BitEquiv.Logic.Eval
import Mathlib.Data.List.Forall2

/-!
# Connectives of fewer than two operands

A conjunction or disjunction of one term is that term, and of no term its unit. A term keeps
its sorts and its values when all such connectives in it are replaced. It may gain some: a
word has a sort and a value, and a conjunction of one word has neither. That is the only way.
-/

namespace BitEquiv
namespace Logic
namespace Term

/-- A connective applied to operands, or what it comes to for fewer than two. -/
def joined (connective : List Term → Term) (unit : Bool) : List Term → Term
  | [] => boolLit unit
  | [a] => a
  | as => connective as

mutual

/-- The term without connectives of fewer than two operands. -/
def collapse : Term → Term
  | var x => var x
  | boolLit b => boolLit b
  | bvLit bits w fits => bvLit bits w fits
  | not a => not (collapse a)
  | and as => joined and true (collapseAll as)
  | or as => joined or false (collapseAll as)
  | xor a b => xor (collapse a) (collapse b)
  | implies a b => implies (collapse a) (collapse b)
  | eq a b => eq (collapse a) (collapse b)
  | distinct a b => distinct (collapse a) (collapse b)
  | ite c a b => ite (collapse c) (collapse a) (collapse b)
  | unary op a => unary op (collapse a)
  | binary op a b => binary op (collapse a) (collapse b)
  | compare op a b => compare op (collapse a) (collapse b)
  | extract hi lo a => extract hi lo (collapse a)
  | concat a b => concat (collapse a) (collapse b)
  | zeroExtend k a => zeroExtend k (collapse a)
  | signExtend k a => signExtend k (collapse a)

def collapseAll : List Term → List Term
  | [] => []
  | t :: ts => collapse t :: collapseAll ts

end

mutual

/-- The property holds of the operand of every connective of one operand. -/
def Singles (P : Term → Prop) : Term → Prop
  | var _ => True
  | boolLit _ => True
  | bvLit .. => True
  | not a => Singles P a
  | and as => (∀ a, as = [a] → P a) ∧ AllSingles P as
  | or as => (∀ a, as = [a] → P a) ∧ AllSingles P as
  | xor a b => Singles P a ∧ Singles P b
  | implies a b => Singles P a ∧ Singles P b
  | eq a b => Singles P a ∧ Singles P b
  | distinct a b => Singles P a ∧ Singles P b
  | ite c a b => Singles P c ∧ Singles P a ∧ Singles P b
  | unary _ a => Singles P a
  | binary _ a b => Singles P a ∧ Singles P b
  | compare _ a b => Singles P a ∧ Singles P b
  | extract _ _ a => Singles P a
  | concat a b => Singles P a ∧ Singles P b
  | zeroExtend _ a => Singles P a
  | signExtend _ a => Singles P a

def AllSingles (P : Term → Prop) : List Term → Prop
  | [] => True
  | t :: ts => Singles P t ∧ AllSingles P ts

end

/-!
## Sorts
-/

section Sorts

variable {scope : Scope}

theorem forall_mem_collapseAll {ts : List Term} {P : Term → Prop}
    (h : ∀ t ∈ ts, P t.collapse) : ∀ t ∈ collapseAll ts, P t := by
  induction ts with
  | nil => simp [collapseAll]
  | cons t ts ih =>
      rcases List.forall_mem_cons.mp h with ⟨ht, hts⟩
      exact List.forall_mem_cons.mpr ⟨ht, ih hts⟩

theorem hasSort_joined {connective : List Term → Term} {unit : Bool}
    (hconnective : ∀ ts, (∀ t ∈ ts, HasSort scope t .bool) → HasSort scope (connective ts) .bool)
    {ts : List Term} (h : ∀ t ∈ ts, HasSort scope t .bool) :
    HasSort scope (joined connective unit ts) .bool := by
  cases ts with
  | nil => exact .boolLit
  | cons a as =>
      cases as with
      | nil => exact h a List.mem_cons_self
      | cons b bs => exact hconnective _ h

theorem HasSort.collapse {t : Term} {s : BvSort} (h : HasSort scope t s) :
    HasSort scope t.collapse s := by
  induction h with
  | var hx => exact .var hx
  | boolLit => exact .boolLit
  | bvLit hpos hmax => exact .bvLit hpos hmax
  | not _ iha => exact .not iha
  | and _ ihas => exact hasSort_joined (fun _ => .and) (forall_mem_collapseAll ihas)
  | or _ ihas => exact hasSort_joined (fun _ => .or) (forall_mem_collapseAll ihas)
  | xor _ _ iha ihb => exact .xor iha ihb
  | implies _ _ iha ihb => exact .implies iha ihb
  | eq _ _ iha ihb => exact .eq iha ihb
  | distinct _ _ iha ihb => exact .distinct iha ihb
  | ite _ _ _ ihc iha ihb => exact .ite ihc iha ihb
  | unary _ iha => exact .unary iha
  | binary _ _ iha ihb => exact .binary iha ihb
  | compare _ _ iha ihb => exact .compare iha ihb
  | extract _ hlo hhi iha => exact .extract iha hlo hhi
  | concat _ _ hpos hmax iha ihb => exact .concat iha ihb hpos hmax
  | zeroExtend _ hpos hmax iha => exact .zeroExtend iha hpos hmax
  | signExtend _ hpos hmax iha => exact .signExtend iha hpos hmax

theorem sortOf_collapse {t : Term} {s : BvSort} (h : t.sortOf scope = .ok s) :
    t.collapse.sortOf scope = .ok s :=
  sortOf_of_hasSort (hasSort_of_sortOf h).collapse

def NoWordSort (scope : Scope) (t : Term) : Prop := ∀ w, t.sortOf scope ≠ .ok (.bitVec w)

theorem allBool_congr {ts ts' : List Term}
    (h : List.Forall₂ (fun t' t => t'.sortOf scope = t.sortOf scope) ts' ts) :
    allBool scope ts' = allBool scope ts := by
  induction h with
  | nil => rfl
  | cons ht _ ih => rw [allBool, allBool, ht, ih]

/-- A connective keeps its sort, or the lack of one, when it is replaced. -/
theorem sortOf_joined {connective : List Term → Term} {unit : Bool}
    (hconnective : ∀ ts, (connective ts).sortOf scope = (allBool scope ts).map fun _ => .bool)
    {ts ts' : List Term}
    (h : List.Forall₂ (fun t' t => t'.sortOf scope = t.sortOf scope) ts' ts)
    (hsingle : ∀ a, ts = [a] → NoWordSort scope a) :
    (joined connective unit ts').sortOf scope = (connective ts).sortOf scope := by
  rw [hconnective]
  cases h with
  | nil => rfl
  | @cons a' a as' as ha has =>
      cases has with
      | nil =>
          rw [joined, ha, allBool, allBool]
          cases hsort : a.sortOf scope with
          | error e => rfl
          | ok s =>
              cases s with
              | bool => rfl
              | bitVec w => exact absurd hsort (hsingle a rfl w)
      | cons hb hbs =>
          show (connective _).sortOf scope = _
          rw [hconnective, allBool_congr (.cons ha (.cons hb hbs))]

mutual

theorem sortOf_collapse_eq :
    ∀ t : Term, t.Singles (NoWordSort scope) → t.collapse.sortOf scope = t.sortOf scope
  | .var _, _ => rfl
  | .boolLit _, _ => rfl
  | .bvLit .., _ => rfl
  | .not a, h => by rw [collapse, sortOf, sortOf, sortOf_collapse_eq a h]
  | .and as, h => by
      rw [collapse]
      exact sortOf_joined (fun _ => rfl) (sortOf_collapseAll_eq as h.2) h.1
  | .or as, h => by
      rw [collapse]
      exact sortOf_joined (fun _ => rfl) (sortOf_collapseAll_eq as h.2) h.1
  | .xor a b, h => by
      rw [collapse, sortOf, sortOf, sortOf_collapse_eq a h.1, sortOf_collapse_eq b h.2]
  | .implies a b, h => by
      rw [collapse, sortOf, sortOf, sortOf_collapse_eq a h.1, sortOf_collapse_eq b h.2]
  | .eq a b, h => by
      rw [collapse, sortOf, sortOf, sortOf_collapse_eq a h.1, sortOf_collapse_eq b h.2]
  | .distinct a b, h => by
      rw [collapse, sortOf, sortOf, sortOf_collapse_eq a h.1, sortOf_collapse_eq b h.2]
  | .ite c a b, h => by
      rw [collapse, sortOf, sortOf, sortOf_collapse_eq c h.1, sortOf_collapse_eq a h.2.1,
        sortOf_collapse_eq b h.2.2]
  | .unary _ a, h => by rw [collapse, sortOf, sortOf, sortOf_collapse_eq a h]
  | .binary _ a b, h => by
      rw [collapse, sortOf, sortOf, sortOf_collapse_eq a h.1, sortOf_collapse_eq b h.2]
  | .compare _ a b, h => by
      rw [collapse, sortOf, sortOf, sortOf_collapse_eq a h.1, sortOf_collapse_eq b h.2]
  | .extract _ _ a, h => by rw [collapse, sortOf, sortOf, sortOf_collapse_eq a h]
  | .concat a b, h => by
      rw [collapse, sortOf, sortOf, sortOf_collapse_eq a h.1, sortOf_collapse_eq b h.2]
  | .zeroExtend _ a, h => by rw [collapse, sortOf, sortOf, sortOf_collapse_eq a h]
  | .signExtend _ a, h => by rw [collapse, sortOf, sortOf, sortOf_collapse_eq a h]

theorem sortOf_collapseAll_eq : ∀ ts : List Term, AllSingles (NoWordSort scope) ts →
    List.Forall₂ (fun t' t => t'.sortOf scope = t.sortOf scope) (collapseAll ts) ts
  | [], _ => .nil
  | t :: ts, h => .cons (sortOf_collapse_eq t h.1) (sortOf_collapseAll_eq ts h.2)

end

end Sorts

/-!
## Values

A term that has a value keeps it, in assignments of any kind. A computation is carried over
to another that has the same result whenever the first has one.
-/

section Refinement

variable {ε α β : Type}

/-- The second computation ends in every result of the first. -/
def Refines (x y : Except ε α) : Prop := ∀ a, x = .ok a → y = .ok a

theorem Refines.refl (x : Except ε α) : Refines x x := fun _ h => h

theorem Refines.bind {x y : Except ε α} {k k' : α → Except ε β} (hx : Refines x y)
    (hk : ∀ a, Refines (k a) (k' a)) : Refines (x >>= k) (y >>= k') := by
  intro b h
  rcases except_bind_eq_ok.mp h with ⟨a, ha, hb⟩
  exact except_bind_eq_ok.mpr ⟨a, hx a ha, hk a b hb⟩

theorem Refines.bind_left {x y : Except ε α} (hx : Refines x y) (k : α → Except ε β) :
    Refines (x >>= k) (y >>= k) :=
  hx.bind fun a => .refl (k a)

end Refinement

section Values

variable {env : Env}

theorem evalAll_singleton {op : String} {a : Term} {ps : List Bool}
    (h : evalAll env op [a] = .ok ps) : ∃ p, a.eval env = .ok (.bool p) ∧ ps = [p] := by
  rcases except_bind_eq_ok.mp h with ⟨v, ha, h⟩
  rcases except_bind_eq_ok.mp h with ⟨p, hp, h⟩
  cases v with
  | word bits w => cases hp
  | bool b =>
      cases hp
      cases h
      exact ⟨p, ha, rfl⟩

/-- A connective with the truth function `f` keeps its value when it is replaced. -/
theorem eval_joined {connective : List Term → Term} {unit : Bool} {op : String}
    {f : List Bool → Bool} (hnone : f [] = unit) (hone : ∀ p, f [p] = p)
    (hmany : ∀ ts ps, evalAll env op ts = .ok ps →
      (connective ts).eval env = .ok (.bool (f ps)))
    {ts : List Term} {ps : List Bool} (h : evalAll env op ts = .ok ps) :
    (joined connective unit ts).eval env = .ok (.bool (f ps)) := by
  cases ts with
  | nil =>
      cases h
      rw [hnone]
      rfl
  | cons a as =>
      cases as with
      | nil =>
          rcases evalAll_singleton h with ⟨p, ha, rfl⟩
          rw [hone]
          exact ha
      | cons b bs => exact hmany _ _ h

theorem eval_joined_and {ts : List Term} {ps : List Bool} (h : evalAll env "and" ts = .ok ps) :
    (joined and true ts).eval env = .ok (.bool (ps.all id)) := by
  refine eval_joined (f := fun ps => ps.all id) rfl (by simp) ?_ h
  intro ts ps hts
  rw [Term.eval, hts]
  rfl

theorem eval_joined_or {ts : List Term} {ps : List Bool} (h : evalAll env "or" ts = .ok ps) :
    (joined or false ts).eval env = .ok (.bool (ps.any id)) := by
  refine eval_joined (f := fun ps => ps.any id) rfl (by simp) ?_ h
  intro ts ps hts
  rw [Term.eval, hts]
  rfl

mutual

theorem refines_collapse : ∀ t : Term, Refines (t.eval env) (t.collapse.eval env)
  | .var _ => .refl _
  | .boolLit _ => .refl _
  | .bvLit .. => .refl _
  | .not a => by
      rw [collapse, Term.eval, Term.eval]
      exact (refines_collapse a).bind_left _
  | .and as => by
      intro v h
      rw [Term.eval] at h
      rcases except_bind_eq_ok.mp h with ⟨ps, has, h⟩
      cases h
      exact eval_joined_and (refines_collapseAll "and" as ps has)
  | .or as => by
      intro v h
      rw [Term.eval] at h
      rcases except_bind_eq_ok.mp h with ⟨ps, has, h⟩
      cases h
      exact eval_joined_or (refines_collapseAll "or" as ps has)
  | .xor a b => by
      rw [collapse, Term.eval, Term.eval]
      exact (refines_collapse a).bind fun _ => (Refines.refl _).bind fun _ =>
        (refines_collapse b).bind_left _
  | .implies a b => by
      rw [collapse, Term.eval, Term.eval]
      refine (refines_collapse a).bind fun _ => (Refines.refl _).bind fun p => ?_
      cases p with
      | false => exact .refl _
      | true => exact (refines_collapse b).bind_left _
  | .eq a b => by
      rw [collapse, Term.eval, Term.eval]
      exact (refines_collapse a).bind fun _ => (refines_collapse b).bind_left _
  | .distinct a b => by
      rw [collapse, Term.eval, Term.eval]
      exact (refines_collapse a).bind fun _ => (refines_collapse b).bind_left _
  | .ite c a b => by
      rw [collapse, Term.eval, Term.eval]
      refine (refines_collapse c).bind fun _ => (Refines.refl _).bind fun p => ?_
      cases p with
      | false => exact refines_collapse b
      | true => exact refines_collapse a
  | .unary _ a => by
      rw [collapse, Term.eval, Term.eval]
      exact (refines_collapse a).bind_left _
  | .binary _ a b => by
      rw [collapse, Term.eval, Term.eval]
      exact (refines_collapse a).bind fun _ => (refines_collapse b).bind_left _
  | .compare _ a b => by
      rw [collapse, Term.eval, Term.eval]
      exact (refines_collapse a).bind fun _ => (refines_collapse b).bind_left _
  | .extract _ _ a => by
      rw [collapse, Term.eval, Term.eval]
      exact (refines_collapse a).bind_left _
  | .concat a b => by
      rw [collapse, Term.eval, Term.eval]
      exact (refines_collapse a).bind fun _ => (Refines.refl _).bind fun _ =>
        (refines_collapse b).bind_left _
  | .zeroExtend _ a => by
      rw [collapse, Term.eval, Term.eval]
      exact (refines_collapse a).bind_left _
  | .signExtend _ a => by
      rw [collapse, Term.eval, Term.eval]
      exact (refines_collapse a).bind_left _

theorem refines_collapseAll (op : String) :
    ∀ ts : List Term, Refines (evalAll env op ts) (evalAll env op (collapseAll ts))
  | [] => .refl _
  | t :: ts => by
      rw [collapseAll, evalAll, evalAll]
      exact (refines_collapse t).bind fun _ => (Refines.refl _).bind fun _ =>
        (refines_collapseAll op ts).bind_left _

end

def NoWordValue (env : Env) (t : Term) : Prop := ∀ bits w, t.eval env ≠ .ok (.word bits w)

theorem evalAll_congr (op : String) {ts ts' : List Term}
    (h : List.Forall₂ (fun t' t => t'.eval env = t.eval env) ts' ts) :
    evalAll env op ts' = evalAll env op ts := by
  induction h with
  | nil => rfl
  | cons ht _ ih => rw [evalAll, evalAll, ht, ih]

/-- A connective keeps its value, or the lack of one, when it is replaced. -/
theorem eval_joined_eq {connective : List Term → Term} {unit : Bool} {op : String}
    {f : List Bool → Bool} (hnone : f [] = unit) (hone : ∀ p, f [p] = p)
    (hconnective : ∀ ts, (connective ts).eval env = (evalAll env op ts).map fun ps => .bool (f ps))
    {ts ts' : List Term} (h : List.Forall₂ (fun t' t => t'.eval env = t.eval env) ts' ts)
    (hsingle : ∀ a, ts = [a] → NoWordValue env a) :
    (joined connective unit ts').eval env = (connective ts).eval env := by
  rw [hconnective]
  cases h with
  | nil =>
      rw [← hnone]
      rfl
  | @cons a' a as' as ha has =>
      cases has with
      | nil =>
          rw [joined, ha, evalAll, evalAll]
          cases hvalue : a.eval env with
          | error e => rfl
          | ok v =>
              cases v with
              | bool p => exact congrArg (fun p => Except.ok (Value.bool p)) (hone p).symm
              | word bits w => exact absurd hvalue (hsingle a rfl bits w)
      | cons hb hbs =>
          show (connective _).eval env = _
          rw [hconnective, evalAll_congr op (.cons ha (.cons hb hbs))]

mutual

theorem eval_collapse_eq :
    ∀ t : Term, t.Singles (NoWordValue env) → t.collapse.eval env = t.eval env
  | .var _, _ => rfl
  | .boolLit _, _ => rfl
  | .bvLit .., _ => rfl
  | .not a, h => by rw [collapse, Term.eval, Term.eval, eval_collapse_eq a h]
  | .and as, h => by
      rw [collapse]
      exact eval_joined_eq (f := fun ps => ps.all id) rfl (by simp) (fun _ => rfl)
        (eval_collapseAll_eq as h.2) h.1
  | .or as, h => by
      rw [collapse]
      exact eval_joined_eq (f := fun ps => ps.any id) rfl (by simp) (fun _ => rfl)
        (eval_collapseAll_eq as h.2) h.1
  | .xor a b, h => by
      rw [collapse, Term.eval, Term.eval, eval_collapse_eq a h.1, eval_collapse_eq b h.2]
  | .implies a b, h => by
      rw [collapse, Term.eval, Term.eval, eval_collapse_eq a h.1, eval_collapse_eq b h.2]
  | .eq a b, h => by
      rw [collapse, Term.eval, Term.eval, eval_collapse_eq a h.1, eval_collapse_eq b h.2]
  | .distinct a b, h => by
      rw [collapse, Term.eval, Term.eval, eval_collapse_eq a h.1, eval_collapse_eq b h.2]
  | .ite c a b, h => by
      rw [collapse, Term.eval, Term.eval, eval_collapse_eq c h.1, eval_collapse_eq a h.2.1,
        eval_collapse_eq b h.2.2]
  | .unary _ a, h => by rw [collapse, Term.eval, Term.eval, eval_collapse_eq a h]
  | .binary _ a b, h => by
      rw [collapse, Term.eval, Term.eval, eval_collapse_eq a h.1, eval_collapse_eq b h.2]
  | .compare _ a b, h => by
      rw [collapse, Term.eval, Term.eval, eval_collapse_eq a h.1, eval_collapse_eq b h.2]
  | .extract _ _ a, h => by rw [collapse, Term.eval, Term.eval, eval_collapse_eq a h]
  | .concat a b, h => by
      rw [collapse, Term.eval, Term.eval, eval_collapse_eq a h.1, eval_collapse_eq b h.2]
  | .zeroExtend _ a, h => by rw [collapse, Term.eval, Term.eval, eval_collapse_eq a h]
  | .signExtend _ a, h => by rw [collapse, Term.eval, Term.eval, eval_collapse_eq a h]

theorem eval_collapseAll_eq : ∀ ts : List Term, AllSingles (NoWordValue env) ts →
    List.Forall₂ (fun t' t => t'.eval env = t.eval env) (collapseAll ts) ts
  | [], _ => .nil
  | t :: ts, h => .cons (eval_collapse_eq t h.1) (eval_collapseAll_eq ts h.2)

end

end Values

end Term
end Logic
end BitEquiv

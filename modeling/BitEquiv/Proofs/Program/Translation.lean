import BitEquiv.Proofs.Logic.Typing
import BitEquiv.Program.Check

/-!
# Expressions and terms

The checker turns an expression into a term and finds its sort in one pass. Here the
two are told apart: an expression stands for a term by its form alone, and the checker
accepts it exactly when that term is well sorted.
-/

namespace BitEquiv
namespace Program

open Logic Logic.Term

def Operator.build? : Operator → List Nat → List Term → Option Term
  | .const, [bits, width], [] =>
      if 1 ≤ width ∧ width ≤ maxWidth ∧ bits < Nat.pow 2 width then some (.ofBits bits width)
      else none
  | .not, [], [a] => some (.not a)
  | .and, [], a :: b :: rest => some (.and (a :: b :: rest))
  | .or, [], a :: b :: rest => some (.or (a :: b :: rest))
  | .xor, [], [a, b] => some (.xor a b)
  | .implies, [], [a, b] => some (.implies a b)
  | .eq, [], [a, b] => some (.eq a b)
  | .distinct, [], [a, b] => some (.distinct a b)
  | .ite, [], [c, a, b] => some (.ite c a b)
  | .unary o, [], [a] => some (.unary o a)
  | .binary o, [], [a, b] => some (.binary o a b)
  | .compare o, [], [a, b] => some (.compare o a b)
  | .concat, [], [a, b] => some (.concat a b)
  | .extract, [hi, lo], [a] => some (.extract hi lo a)
  | .zeroExtend, [k], [a] => some (.zeroExtend k a)
  | .signExtend, [k], [a] => some (.signExtend k a)
  | _, _, _ => none

mutual

def Expr.term? : Expr → Option Term
  | .var x _ => some (.var x)
  | .boolLit b _ => some (.boolLit b)
  | .bvLit bits w _ => some (.ofBits bits w)
  | .app name indices args _ =>
      match Operator.ofName? name.value, Expr.terms? args with
      | some op, some ts => op.build? (indices.map (·.value)) ts
      | _, _ => none

def Expr.terms? : List Expr → Option (List Term)
  | [] => some []
  | e :: rest =>
      match e.term?, Expr.terms? rest with
      | some t, some ts => some (t :: ts)
      | _, _ => none

end

/-!
## Checks on operands
-/

@[simp] theorem faultAt_ne_ok {α : Type} {span : Span} {f : Fault} {a : α} :
    faultAt span f ≠ .ok a := by
  intro h
  cases h

@[simp] theorem asBool_eq_ok {op : String} {a : Operand} {t : Term} :
    a.asBool op = .ok t ↔ a.sort = .bool ∧ a.term = t := by
  unfold Operand.asBool
  cases a.sort with
  | bool => simp
  | bitVec w => simp

@[simp] theorem asWord_eq_ok {op : String} {a : Operand} {t : Term} {w : Nat} :
    a.asWord op = .ok (t, w) ↔ a.sort = .bitVec w ∧ a.term = t := by
  unfold Operand.asWord
  cases a.sort with
  | bool => simp
  | bitVec v => simp [and_comm]

@[simp] theorem sameSort_eq_ok {op : String} {a b : BvSort} {span : Span} {u : Unit} :
    sameSort op a b span = .ok u ↔ a = b := by
  unfold sameSort
  split <;> rename_i h <;> simp [h]

@[simp] theorem atMostWidest_eq_ok {w v : Nat} {span : Span} :
    atMostWidest w span = .ok v ↔ w ≤ maxWidth ∧ w = v := by
  unfold atMostWidest
  split <;> rename_i h
  · simp only [faultAt_ne_ok, false_iff]
    omega
  · simp only [Except.ok.injEq]
    omega

@[simp] theorem wordPair_eq_ok {op : String} {a b : Operand} {s t : Term} {w : Nat} :
    wordPair op a b = .ok (s, t, w) ↔
      a.sort = .bitVec w ∧ b.sort = .bitVec w ∧ a.term = s ∧ b.term = t := by
  simp only [wordPair, except_bind_eq_ok, Prod.exists, asWord_eq_ok, sameSort_eq_ok, pure_eq_ok,
    Prod.mk.injEq]
  constructor
  · rintro ⟨_, v, ⟨hasort, rfl⟩, _, v', ⟨hbsort, rfl⟩, _, hv, rfl, rfl, rfl⟩
    cases hv
    exact ⟨hasort, hbsort, rfl, rfl⟩
  · rintro ⟨hasort, hbsort, rfl, rfl⟩
    exact ⟨_, _, ⟨hasort, rfl⟩, _, _, ⟨hbsort, rfl⟩, ⟨⟩, rfl, rfl, rfl, rfl⟩

@[simp] theorem extended_eq_ok {op : String} {count : Located Nat} {a : Operand} {t : Term}
    {k width : Nat} :
    extended op count a = .ok (t, k, width) ↔
      ∃ w, a.sort = .bitVec w ∧ a.term = t ∧ w + count.value ≤ maxWidth ∧
        k = count.value ∧ width = w + count.value := by
  have hbig : maxWidth < maxIndex := by decide
  simp only [extended, except_bind_eq_ok, Prod.exists, asWord_eq_ok, atMostWidest_eq_ok,
    pure_eq_ok, Prod.mk.injEq]
  constructor
  · rintro ⟨_, w, ⟨hasort, rfl⟩, v, ⟨hmax, rfl⟩, rfl, rfl, rfl⟩
    exact ⟨w, hasort, rfl, by omega, by omega, by omega⟩
  · rintro ⟨w, hasort, rfl, hmax, rfl, rfl⟩
    exact ⟨_, w, ⟨hasort, rfl⟩, _, ⟨by omega, rfl⟩, rfl, by omega, by omega⟩

@[simp] theorem mapM_asBool_eq_ok {op : String} {os : List Operand} {ts : List Term} :
    os.mapM (Operand.asBool op) = .ok ts ↔
      (∀ o ∈ os, o.sort = .bool) ∧ os.map (·.term) = ts := by
  induction os generalizing ts with
  | nil =>
      rw [List.mapM_nil, pure_eq_ok]
      simp
  | cons o os ih =>
      rw [List.mapM_cons]
      simp only [except_bind_eq_ok, asBool_eq_ok, ih, pure_eq_ok]
      constructor
      · rintro ⟨t, ⟨ho, rfl⟩, ts', ⟨hos, rfl⟩, rfl⟩
        exact ⟨List.forall_mem_cons.mpr ⟨ho, hos⟩, rfl⟩
      · rintro ⟨hall, rfl⟩
        rcases List.forall_mem_cons.mp hall with ⟨ho, hos⟩
        exact ⟨o.term, ⟨ho, rfl⟩, _, ⟨hos, rfl⟩, rfl⟩

/-!
## Applications

The operands of an application have the sorts that were found for them. The cases are
the forms that the checker tells apart, in its order.
-/

theorem exists_two_of_atLeast {os : List Operand}
    (h : (Arity.atLeast 2).accepts os.length = true) : ∃ a b rest, os = a :: b :: rest := by
  match os with
  | [] => cases h
  | [a] => cases h
  | a :: b :: rest => exact ⟨a, b, rest, rfl⟩

section Applications

variable {scope : Scope} {op : Operator} {indices : List (Located Nat)} {os : List Operand}
  {span : Span} {t : Term} {s : BvSort}

theorem operand_hasSort {o : Operand} (hos : ∀ o ∈ os, HasSort scope o.term o.sort)
    (ho : o ∈ os) (h : o.sort = s) : HasSort scope o.term s := by
  rw [← h]
  exact hos o ho

theorem operands_hasSort (hos : ∀ o ∈ os, HasSort scope o.term o.sort)
    (h : ∀ o ∈ os, o.sort = s) : ∀ t ∈ os.map (·.term), HasSort scope t s := by
  intro t ht
  rcases List.mem_map.mp ht with ⟨o, ho, rfl⟩
  exact operand_hasSort hos ho (h o ho)

theorem one_le_of_isValid {o : Operand} {w : Nat} (hscope : ValidScope scope)
    (ho : HasSort scope o.term (.bitVec w)) : 1 ≤ w :=
  (isValid_bitVec.mp (ho.isValid hscope)).1

theorem applyOp_sound (hscope : ValidScope scope) (hos : ∀ o ∈ os, HasSort scope o.term o.sort)
    (hcount : indices.length = op.indexCount) (harity : op.arity.accepts os.length = true)
    (h : applyOp op indices os span = .ok (t, s)) :
    op.build? (indices.map (·.value)) (os.map (·.term)) = some t ∧ HasSort scope t s := by
  unfold applyOp at h
  split at h
  · rename_i bits width
    split at h
    · exact absurd h faultAt_ne_ok
    · rename_i hzero
      simp only [except_bind_eq_ok, atMostWidest_eq_ok] at h
      rcases h with ⟨_, ⟨hmax, rfl⟩, h⟩
      split at h
      · rename_i hfit
        cases h
        have hpos : 1 ≤ width.value := by omega
        exact ⟨if_pos ⟨hpos, hmax, hfit⟩, .bvLit hpos hmax⟩
      · exact absurd h faultAt_ne_ok
  · rename_i a
    simp only [except_bind_eq_ok, asBool_eq_ok, pure_eq_ok, Prod.mk.injEq] at h
    rcases h with ⟨_, ⟨hasort, rfl⟩, rfl, rfl⟩
    rcases List.length_eq_zero_iff.mp hcount with rfl
    exact ⟨rfl, .not (operand_hasSort hos (by simp) hasort)⟩
  · simp only [except_bind_eq_ok, mapM_asBool_eq_ok, pure_eq_ok, Prod.mk.injEq] at h
    rcases h with ⟨_, ⟨hall, rfl⟩, rfl, rfl⟩
    rcases List.length_eq_zero_iff.mp hcount with rfl
    refine ⟨?_, .and (operands_hasSort hos hall)⟩
    rcases exists_two_of_atLeast harity with ⟨a, b, rest, rfl⟩
    rfl
  · simp only [except_bind_eq_ok, mapM_asBool_eq_ok, pure_eq_ok, Prod.mk.injEq] at h
    rcases h with ⟨_, ⟨hall, rfl⟩, rfl, rfl⟩
    rcases List.length_eq_zero_iff.mp hcount with rfl
    refine ⟨?_, .or (operands_hasSort hos hall)⟩
    rcases exists_two_of_atLeast harity with ⟨a, b, rest, rfl⟩
    rfl
  · rename_i a b
    simp only [except_bind_eq_ok, asBool_eq_ok, pure_eq_ok, Prod.mk.injEq] at h
    rcases h with ⟨_, ⟨hasort, rfl⟩, _, ⟨hbsort, rfl⟩, rfl, rfl⟩
    rcases List.length_eq_zero_iff.mp hcount with rfl
    exact ⟨rfl, .xor (operand_hasSort hos (by simp) hasort) (operand_hasSort hos (by simp) hbsort)⟩
  · rename_i a b
    simp only [except_bind_eq_ok, asBool_eq_ok, pure_eq_ok, Prod.mk.injEq] at h
    rcases h with ⟨_, ⟨hasort, rfl⟩, _, ⟨hbsort, rfl⟩, rfl, rfl⟩
    rcases List.length_eq_zero_iff.mp hcount with rfl
    exact ⟨rfl,
      .implies (operand_hasSort hos (by simp) hasort) (operand_hasSort hos (by simp) hbsort)⟩
  · rename_i a b
    simp only [except_bind_eq_ok, sameSort_eq_ok, pure_eq_ok, Prod.mk.injEq] at h
    rcases h with ⟨_, hsame, rfl, rfl⟩
    rcases List.length_eq_zero_iff.mp hcount with rfl
    exact ⟨rfl, .eq (operand_hasSort hos (by simp) hsame) (hos b (by simp))⟩
  · rename_i a b
    simp only [except_bind_eq_ok, sameSort_eq_ok, pure_eq_ok, Prod.mk.injEq] at h
    rcases h with ⟨_, hsame, rfl, rfl⟩
    rcases List.length_eq_zero_iff.mp hcount with rfl
    exact ⟨rfl, .distinct (operand_hasSort hos (by simp) hsame) (hos b (by simp))⟩
  · rename_i c a b
    simp only [except_bind_eq_ok, asBool_eq_ok, sameSort_eq_ok, pure_eq_ok, Prod.mk.injEq] at h
    rcases h with ⟨_, ⟨hcsort, rfl⟩, _, hsame, rfl, rfl⟩
    rcases List.length_eq_zero_iff.mp hcount with rfl
    exact ⟨rfl, .ite (operand_hasSort hos (by simp) hcsort) (hos a (by simp))
      (operand_hasSort hos (by simp) hsame.symm)⟩
  · rename_i a
    simp only [except_bind_eq_ok, Prod.exists, asWord_eq_ok, pure_eq_ok, Prod.mk.injEq] at h
    rcases h with ⟨_, w, ⟨hasort, rfl⟩, rfl, rfl⟩
    rcases List.length_eq_zero_iff.mp hcount with rfl
    exact ⟨rfl, .unary (operand_hasSort hos (by simp) hasort)⟩
  · rename_i a b
    simp only [except_bind_eq_ok, Prod.exists, wordPair_eq_ok, pure_eq_ok, Prod.mk.injEq] at h
    rcases h with ⟨_, _, w, ⟨hasort, hbsort, rfl, rfl⟩, rfl, rfl⟩
    rcases List.length_eq_zero_iff.mp hcount with rfl
    exact ⟨rfl,
      .binary (operand_hasSort hos (by simp) hasort) (operand_hasSort hos (by simp) hbsort)⟩
  · rename_i a b
    simp only [except_bind_eq_ok, Prod.exists, wordPair_eq_ok, pure_eq_ok, Prod.mk.injEq] at h
    rcases h with ⟨_, _, w, ⟨hasort, hbsort, rfl, rfl⟩, rfl, rfl⟩
    rcases List.length_eq_zero_iff.mp hcount with rfl
    exact ⟨rfl,
      .compare (operand_hasSort hos (by simp) hasort) (operand_hasSort hos (by simp) hbsort)⟩
  · rename_i a b
    simp only [except_bind_eq_ok, Prod.exists, asWord_eq_ok, atMostWidest_eq_ok, pure_eq_ok,
      Prod.mk.injEq] at h
    rcases h with ⟨_, v, ⟨hasort, rfl⟩, _, w, ⟨hbsort, rfl⟩, _, ⟨hmax, rfl⟩, rfl, rfl⟩
    rcases List.length_eq_zero_iff.mp hcount with rfl
    have ha := operand_hasSort hos (by simp) hasort
    have hb := operand_hasSort hos (by simp) hbsort
    have hpos := one_le_of_isValid hscope ha
    exact ⟨rfl, .concat ha hb (by omega) hmax⟩
  · rename_i hi lo a
    simp only [except_bind_eq_ok, Prod.exists, asWord_eq_ok] at h
    rcases h with ⟨_, w, ⟨hasort, rfl⟩, h⟩
    split at h
    · rename_i hrange
      cases h
      exact ⟨rfl, .extract (operand_hasSort hos (by simp) hasort) hrange.1 hrange.2⟩
    · exact absurd h faultAt_ne_ok
  · rename_i k a
    simp only [except_bind_eq_ok, Prod.exists, extended_eq_ok, pure_eq_ok, Prod.mk.injEq] at h
    rcases h with ⟨_, _, _, ⟨w, hasort, rfl, hmax, rfl, rfl⟩, rfl, rfl⟩
    have ha := operand_hasSort hos (by simp) hasort
    have hpos := one_le_of_isValid hscope ha
    exact ⟨rfl, .zeroExtend ha (by omega) hmax⟩
  · rename_i k a
    simp only [except_bind_eq_ok, Prod.exists, extended_eq_ok, pure_eq_ok, Prod.mk.injEq] at h
    rcases h with ⟨_, _, _, ⟨w, hasort, rfl, hmax, rfl, rfl⟩, rfl, rfl⟩
    have ha := operand_hasSort hos (by simp) hasort
    have hpos := one_le_of_isValid hscope ha
    exact ⟨rfl, .signExtend ha (by omega) hmax⟩
  · exact absurd h faultAt_ne_ok

theorem exists_of_map_eq_one {α β : Type} {f : α → β} {l : List α} {b : β}
    (h : l.map f = [b]) : ∃ a, l = [a] ∧ f a = b := by
  rcases List.map_eq_cons_iff.mp h with ⟨a, l', rfl, ha, hl'⟩
  rcases List.map_eq_nil_iff.mp hl' with rfl
  exact ⟨a, rfl, ha⟩

theorem exists_of_map_eq_two {α β : Type} {f : α → β} {l : List α} {b c : β}
    (h : l.map f = [b, c]) : ∃ a a', l = [a, a'] ∧ f a = b ∧ f a' = c := by
  rcases List.map_eq_cons_iff.mp h with ⟨a, l', rfl, ha, hl'⟩
  rcases exists_of_map_eq_one hl' with ⟨a', rfl, ha'⟩
  exact ⟨a, a', rfl, ha, ha'⟩

theorem exists_of_map_eq_three {α β : Type} {f : α → β} {l : List α} {b c d : β}
    (h : l.map f = [b, c, d]) :
    ∃ a a' a'', l = [a, a', a''] ∧ f a = b ∧ f a' = c ∧ f a'' = d := by
  rcases List.map_eq_cons_iff.mp h with ⟨a, l', rfl, ha, hl'⟩
  rcases exists_of_map_eq_two hl' with ⟨a', a'', rfl, ha', ha''⟩
  exact ⟨a, a', a'', rfl, ha, ha', ha''⟩

theorem sort_unique {t : Term} {s s' : BvSort} (h : HasSort scope t s) (h' : HasSort scope t s') :
    s = s' := by
  have hs := sortOf_of_hasSort h
  rw [sortOf_of_hasSort h'] at hs
  cases hs
  rfl

theorem operand_sort {o : Operand} (hos : ∀ o ∈ os, HasSort scope o.term o.sort)
    (ho : o ∈ os) (h : HasSort scope o.term s) : o.sort = s :=
  sort_unique (hos o ho) h

theorem operands_sort (hos : ∀ o ∈ os, HasSort scope o.term o.sort)
    (h : ∀ t ∈ os.map (·.term), HasSort scope t s) : ∀ o ∈ os, o.sort = s := by
  intro o ho
  exact operand_sort hos ho (h o.term (List.mem_map.mpr ⟨o, ho, rfl⟩))

theorem applyOp_complete (hos : ∀ o ∈ os, HasSort scope o.term o.sort)
    (hbuild : op.build? (indices.map (·.value)) (os.map (·.term)) = some t)
    (ht : HasSort scope t s) : applyOp op indices os span = .ok (t, s) := by
  unfold Operator.build? at hbuild
  split at hbuild
  · rename_i hindices hargs
    rcases exists_of_map_eq_two hindices with ⟨bits, width, rfl, rfl, rfl⟩
    rcases List.map_eq_nil_iff.mp hargs with rfl
    split at hbuild
    · rename_i hrange
      rcases hrange with ⟨hpos, hmax, hfit⟩
      cases hbuild
      cases ht
      simp only [applyOp]
      rw [if_neg (by omega)]
      exact except_bind_eq_ok.mpr ⟨_, atMostWidest_eq_ok.mpr ⟨hmax, rfl⟩, if_pos hfit⟩
    · cases hbuild
  · rename_i hindices hargs
    rcases exists_of_map_eq_one hargs with ⟨a, rfl, rfl⟩
    cases hbuild
    cases ht with
    | not ha =>
        have hasort := operand_sort hos (by simp) ha
        simp [applyOp, hasort]
  · rename_i hindices hargs
    cases hbuild
    cases ht with
    | and has =>
        rw [← hargs] at has ⊢
        simpa [applyOp] using operands_sort hos has
  · rename_i hindices hargs
    cases hbuild
    cases ht with
    | or has =>
        rw [← hargs] at has ⊢
        simpa [applyOp] using operands_sort hos has
  · rename_i hindices hargs
    rcases exists_of_map_eq_two hargs with ⟨a, b, rfl, rfl, rfl⟩
    cases hbuild
    cases ht with
    | xor ha hb =>
        have hasort := operand_sort hos (by simp) ha
        have hbsort := operand_sort hos (by simp) hb
        simp [applyOp, hasort, hbsort]
  · rename_i hindices hargs
    rcases exists_of_map_eq_two hargs with ⟨a, b, rfl, rfl, rfl⟩
    cases hbuild
    cases ht with
    | implies ha hb =>
        have hasort := operand_sort hos (by simp) ha
        have hbsort := operand_sort hos (by simp) hb
        simp [applyOp, hasort, hbsort]
  · rename_i hindices hargs
    rcases exists_of_map_eq_two hargs with ⟨a, b, rfl, rfl, rfl⟩
    cases hbuild
    cases ht with
    | eq ha hb =>
        have hasort := operand_sort hos (by simp) ha
        have hbsort := operand_sort hos (by simp) hb
        simp [applyOp, hasort, hbsort]
  · rename_i hindices hargs
    rcases exists_of_map_eq_two hargs with ⟨a, b, rfl, rfl, rfl⟩
    cases hbuild
    cases ht with
    | distinct ha hb =>
        have hasort := operand_sort hos (by simp) ha
        have hbsort := operand_sort hos (by simp) hb
        simp [applyOp, hasort, hbsort]
  · rename_i hindices hargs
    rcases exists_of_map_eq_three hargs with ⟨c, a, b, rfl, rfl, rfl, rfl⟩
    cases hbuild
    cases ht with
    | ite hc ha hb =>
        have hcsort := operand_sort hos (by simp) hc
        have hasort := operand_sort hos (by simp) ha
        have hbsort := operand_sort hos (by simp) hb
        simp [applyOp, hcsort, hasort, hbsort]
  · rename_i hindices hargs
    rcases exists_of_map_eq_one hargs with ⟨a, rfl, rfl⟩
    cases hbuild
    cases ht with
    | unary ha =>
        have hasort := operand_sort hos (by simp) ha
        simp [applyOp, hasort]
  · rename_i hindices hargs
    rcases exists_of_map_eq_two hargs with ⟨a, b, rfl, rfl, rfl⟩
    cases hbuild
    cases ht with
    | binary ha hb =>
        have hasort := operand_sort hos (by simp) ha
        have hbsort := operand_sort hos (by simp) hb
        simp [applyOp, hasort, hbsort]
  · rename_i hindices hargs
    rcases exists_of_map_eq_two hargs with ⟨a, b, rfl, rfl, rfl⟩
    cases hbuild
    cases ht with
    | compare ha hb =>
        have hasort := operand_sort hos (by simp) ha
        have hbsort := operand_sort hos (by simp) hb
        simp [applyOp, hasort, hbsort]
  · rename_i hindices hargs
    rcases exists_of_map_eq_two hargs with ⟨a, b, rfl, rfl, rfl⟩
    cases hbuild
    cases ht with
    | concat ha hb _ hmax =>
        have hasort := operand_sort hos (by simp) ha
        have hbsort := operand_sort hos (by simp) hb
        simp only [applyOp, except_bind_eq_ok, Prod.exists, asWord_eq_ok, atMostWidest_eq_ok,
          pure_eq_ok]
        exact ⟨_, _, ⟨hasort, rfl⟩, _, _, ⟨hbsort, rfl⟩, _, ⟨hmax, rfl⟩, rfl⟩
  · rename_i hindices hargs
    rcases exists_of_map_eq_two hindices with ⟨hi, lo, rfl, rfl, rfl⟩
    rcases exists_of_map_eq_one hargs with ⟨a, rfl, rfl⟩
    cases hbuild
    cases ht with
    | extract ha hlo hhi =>
        have hasort := operand_sort hos (by simp) ha
        simp only [applyOp, except_bind_eq_ok, Prod.exists, asWord_eq_ok]
        exact ⟨_, _, ⟨hasort, rfl⟩, if_pos ⟨hlo, hhi⟩⟩
  · rename_i hindices hargs
    rcases exists_of_map_eq_one hindices with ⟨k, rfl, rfl⟩
    rcases exists_of_map_eq_one hargs with ⟨a, rfl, rfl⟩
    cases hbuild
    cases ht with
    | zeroExtend ha _ hmax =>
        have hasort := operand_sort hos (by simp) ha
        simp only [applyOp, except_bind_eq_ok, Prod.exists, extended_eq_ok, pure_eq_ok]
        exact ⟨_, _, _, ⟨_, hasort, rfl, hmax, rfl, rfl⟩, rfl⟩
  · rename_i hindices hargs
    rcases exists_of_map_eq_one hindices with ⟨k, rfl, rfl⟩
    rcases exists_of_map_eq_one hargs with ⟨a, rfl, rfl⟩
    cases hbuild
    cases ht with
    | signExtend ha _ hmax =>
        have hasort := operand_sort hos (by simp) ha
        simp only [applyOp, except_bind_eq_ok, Prod.exists, extended_eq_ok, pure_eq_ok]
        exact ⟨_, _, _, ⟨_, hasort, rfl, hmax, rfl, rfl⟩, rfl⟩
  · cases hbuild

theorem counts_of_build? {indices : List Nat} {ts : List Term}
    (h : op.build? indices ts = some t) :
    indices.length = op.indexCount ∧ op.arity.accepts ts.length = true := by
  unfold Operator.build? at h
  split at h
  case h_3 => simp [Operator.indexCount, Operator.arity, Arity.accepts]
  case h_4 => simp [Operator.indexCount, Operator.arity, Arity.accepts]
  case h_17 => cases h
  all_goals exact ⟨rfl, rfl⟩

theorem operands_sorted_of_build? {indices : List Nat} {ts : List Term}
    (h : op.build? indices ts = some t) (ht : HasSort scope t s) :
    ∀ a ∈ ts, ∃ s, HasSort scope a s := by
  unfold Operator.build? at h
  split at h
  case h_1 => simp
  case h_17 => cases h
  case h_3 =>
    cases h
    cases ht with
    | and has => exact fun a ha => ⟨_, has a ha⟩
  case h_4 =>
    cases h
    cases ht with
    | or has => exact fun a ha => ⟨_, has a ha⟩
  all_goals
    cases h
    cases ht
    simp only [List.mem_cons, List.not_mem_nil, or_false, forall_eq_or_imp, forall_eq]
    repeat' apply And.intro
    all_goals exact ⟨_, by assumption⟩

end Applications

/-!
## Expressions
-/

mutual

def Expr.LiteralsFit : Expr → Prop
  | .var _ _ => True
  | .boolLit _ _ => True
  | .bvLit _ w _ => 1 ≤ w ∧ w ≤ maxWidth
  | .app _ _ args _ => Expr.AllLiteralsFit args

def Expr.AllLiteralsFit : List Expr → Prop
  | [] => True
  | e :: rest => e.LiteralsFit ∧ Expr.AllLiteralsFit rest

end

section Expressions

variable {scope : Assoc BvSort}

mutual

theorem checkExpr_sound (hscope : ValidScope scope.get?) :
    ∀ {e : Expr} {t : Term} {s : BvSort}, e.LiteralsFit → checkExpr scope e = .ok (t, s) →
      e.term? = some t ∧ HasSort scope.get? t s
  | .var x span, t, s, _, h => by
      unfold checkExpr at h
      split at h
      · rename_i hx
        cases h
        exact ⟨rfl, .var hx⟩
      · exact absurd h faultAt_ne_ok
  | .boolLit b span, t, s, _, h => by
      cases h
      exact ⟨rfl, .boolLit⟩
  | .bvLit bits w span, t, s, hfit, h => by
      cases h
      exact ⟨rfl, .bvLit hfit.1 hfit.2⟩
  | .app name indices args span, t, s, hfit, h => by
      unfold checkExpr at h
      split at h
      · exact absurd h faultAt_ne_ok
      · rename_i op hop
        split at h
        · exact absurd h faultAt_ne_ok
        · rename_i hcount
          split at h
          · exact absurd h faultAt_ne_ok
          · rename_i harity
            rcases except_bind_eq_ok.mp h with ⟨os, hos, happ⟩
            rcases checkArgs_sound hscope hfit hos with ⟨hterms, hsorts, hlength⟩
            have haccepts : op.arity.accepts os.length = true := by
              rw [hlength]
              simpa using harity
            rcases applyOp_sound hscope hsorts (by simpa using hcount) haccepts happ with
              ⟨hbuild, ht⟩
            refine ⟨?_, ht⟩
            unfold Expr.term?
            rw [hop, hterms]
            exact hbuild

theorem checkArgs_sound (hscope : ValidScope scope.get?) :
    ∀ {es : List Expr} {os : List Operand}, Expr.AllLiteralsFit es →
      checkArgs scope es = .ok os → Expr.terms? es = some (os.map (·.term)) ∧
        (∀ o ∈ os, HasSort scope.get? o.term o.sort) ∧ os.length = es.length
  | [], os, _, h => by
      cases h
      exact ⟨rfl, by simp, rfl⟩
  | e :: rest, os, hfit, h => by
      simp only [checkArgs, except_bind_eq_ok, Prod.exists, pure_eq_ok] at h
      rcases h with ⟨t, s, he, os', hrest, rfl⟩
      rcases checkExpr_sound hscope hfit.1 he with ⟨hterm, ht⟩
      rcases checkArgs_sound hscope hfit.2 hrest with ⟨hterms, hsorts, hlength⟩
      refine ⟨?_, List.forall_mem_cons.mpr ⟨ht, hsorts⟩, by simp [hlength]⟩
      unfold Expr.terms?
      rw [hterm, hterms]
      rfl

end

theorem length_of_terms? :
    ∀ {es : List Expr} {ts : List Term}, Expr.terms? es = some ts → ts.length = es.length
  | [], ts, h => by
      cases h
      rfl
  | e :: rest, ts, h => by
      unfold Expr.terms? at h
      split at h
      · rename_i t ts' _ hrest
        cases h
        simp [length_of_terms? hrest]
      · cases h

mutual

theorem checkExpr_complete :
    ∀ {e : Expr} {t : Term} {s : BvSort}, e.term? = some t → HasSort scope.get? t s →
      checkExpr scope e = .ok (t, s)
  | .var x span, t, s, hterm, ht => by
      cases hterm
      cases ht with
      | var hx =>
          unfold checkExpr
          rw [hx]
  | .boolLit b span, t, s, hterm, ht => by
      cases hterm
      cases ht
      rfl
  | .bvLit bits w span, t, s, hterm, ht => by
      cases hterm
      cases ht
      rfl
  | .app name indices args span, t, s, hterm, ht => by
      unfold Expr.term? at hterm
      split at hterm
      · rename_i op ts hop hterms
        rcases counts_of_build? hterm with ⟨hcount, harity⟩
        rcases checkArgs_complete hterms (operands_sorted_of_build? hterm ht) with
          ⟨os, hos, rfl, hsorts⟩
        have hlength := length_of_terms? hterms
        unfold checkExpr
        rw [hop]
        show (if _ then _ else if _ then _ else _) = _
        rw [if_neg (by simpa using hcount), if_neg (by simpa [← hlength] using harity), hos]
        exact applyOp_complete hsorts hterm ht
      · cases hterm

theorem checkArgs_complete :
    ∀ {es : List Expr} {ts : List Term}, Expr.terms? es = some ts →
      (∀ t ∈ ts, ∃ s, HasSort scope.get? t s) →
      ∃ os, checkArgs scope es = .ok os ∧ os.map (·.term) = ts ∧
        ∀ o ∈ os, HasSort scope.get? o.term o.sort
  | [], ts, hterms, _ => by
      cases hterms
      exact ⟨[], rfl, rfl, by simp⟩
  | e :: rest, ts, hterms, hsorted => by
      unfold Expr.terms? at hterms
      split at hterms
      · rename_i t ts' hterm hrest
        cases hterms
        rcases List.forall_mem_cons.mp hsorted with ⟨⟨s, ht⟩, hsorted'⟩
        rcases checkArgs_complete hrest hsorted' with ⟨os, hos, rfl, hsorts⟩
        refine ⟨⟨t, s, e.span⟩ :: os, ?_, rfl, List.forall_mem_cons.mpr ⟨ht, hsorts⟩⟩
        unfold checkArgs
        rw [checkExpr_complete hterm ht, hos]
        rfl
      · cases hterms

end

/-- The checker accepts an expression exactly when the term that it stands for is well
sorted, and gives that term and its sort. -/
theorem checkExpr_eq_ok_iff (hscope : ValidScope scope.get?) {e : Expr} (he : e.LiteralsFit)
    {t : Term} {s : BvSort} :
    checkExpr scope e = .ok (t, s) ↔ e.term? = some t ∧ HasSort scope.get? t s := by
  constructor
  · intro h
    exact checkExpr_sound hscope he h
  · rintro ⟨hterm, ht⟩
    exact checkExpr_complete hterm ht

end Expressions

theorem checkBinding_eq_ok {scope : Assoc BvSort} {isOutput : Bool} {name : String}
    {declared : BvSort} {e : Expr} {b : Binding} :
    checkBinding scope isOutput name declared e = .ok b ↔
      ∃ t, checkExpr scope e = .ok (t, declared) ∧ b = ⟨name, declared, t, isOutput⟩ := by
  simp only [checkBinding, except_bind_eq_ok, Prod.exists]
  constructor
  · intro h
    rcases h with ⟨t, found, he, hb⟩
    split at hb
    · rename_i hfound
      cases hb
      rw [hfound] at he
      exact ⟨t, he, rfl⟩
    · exact absurd hb faultAt_ne_ok
  · intro h
    rcases h with ⟨t, he, hb⟩
    refine ⟨t, declared, he, ?_⟩
    rw [if_pos rfl, hb]
    rfl

end Program
end BitEquiv

import BitEquiv.Proofs.Logic.Typing
import BitEquiv.Logic.Query

/-!
# Evaluation of well-sorted terms

A well-sorted term has a value of its sort in every assignment that gives the names
in scope values of their sorts. None of the errors of evaluation can occur.
-/

namespace BitEquiv
namespace Logic

/-!
## Values and assignments
-/

theorem sort_eq_bool {v : Value} (h : v.sort = .bool) : ∃ b, v = .bool b := by
  cases v with
  | bool b => exact ⟨b, rfl⟩
  | word bits w => cases h

theorem sort_eq_bitVec {v : Value} {w : Nat} (h : v.sort = .bitVec w) :
    ∃ bits, v = .word bits w := by
  cases v with
  | bool b => cases h
  | word bits w' =>
      cases h
      exact ⟨bits, rfl⟩

theorem sort_zero (s : BvSort) : (Value.zero s).sort = s := by
  cases s <;> rfl

def Matches (scope : Scope) (env : Env) : Prop :=
  ∀ x s, scope x = some s → ∃ v, env.get? x = some v ∧ v.sort = s

namespace Value

/-- A value is of the sort, and its bits are below the modulus of its width. -/
def InSort (v : Value) (s : BvSort) : Prop := v.sort = s ∧ v.canonical = v

theorem inSort_ofRaw (s : BvSort) (n : Nat) : (ofRaw s n).InSort s := by
  cases s with
  | bool => exact ⟨rfl, rfl⟩
  | bitVec w =>
      refine ⟨rfl, ?_⟩
      simp [ofRaw, ofBits, canonical, Word.truncate]

theorem ofRaw_raw {v : Value} {s : BvSort} (h : v.InSort s) : ofRaw s v.raw = v := by
  rcases h with ⟨hsort, hcanonical⟩
  cases v with
  | bool b =>
      cases hsort
      cases b <;> rfl
  | word bits w =>
      cases hsort
      exact hcanonical

theorem raw_ofRaw {s : BvSort} {n : Nat} (hwidth : s.width ≤ maxWidth)
    (hn : n < Nat.pow 2 s.width) : (ofRaw s n).raw = n := by
  cases s with
  | bool =>
      have hlt : n < 2 := hn
      rcases Nat.le_one_iff_eq_zero_or_eq_one.mp (Nat.le_of_lt_succ hlt) with rfl | rfl <;> rfl
  | bitVec w =>
      have hmin : min w maxWidth = w := Nat.min_eq_left hwidth
      show n % Nat.pow 2 (min w maxWidth) = n
      rw [hmin]
      exact Nat.mod_eq_of_lt hn

theorem raw_lt {v : Value} {s : BvSort} (h : v.InSort s) : v.raw < Nat.pow 2 s.width := by
  rcases h with ⟨hsort, hcanonical⟩
  cases v with
  | bool b =>
      cases hsort
      cases b <;> decide
  | word bits w =>
      cases hsort
      have hbits : Word.truncate w bits = bits := (Value.word.inj hcanonical).1
      have hlt := Word.truncate_lt w bits
      rw [hbits] at hlt
      exact Nat.lt_of_lt_of_le hlt (Nat.pow_le_pow_right (by decide) (Nat.min_le_left w maxWidth))

theorem raw_lt_wideLimit {v : Value} {s : BvSort} (h : v.InSort s) : v.raw < Text.wideLimit := by
  rcases h with ⟨_, hcanonical⟩
  cases v with
  | bool b => cases b <;> decide
  | word bits w =>
      have hbits : Word.truncate w bits = bits := (Value.word.inj hcanonical).1
      have hlt := Word.truncate_lt w bits
      rw [hbits] at hlt
      exact Nat.lt_of_lt_of_le hlt (Nat.pow_le_pow_right (by decide) (Nat.min_le_right w maxWidth))

end Value

/-!
## Operations on operands of the right sorts
-/

@[simp] theorem expectWords_same (op : String) (s t w : Nat) :
    (Value.word s w).expectWords op (.word t w) = .ok (s, t, w) := by
  simp [Value.expectWords, Value.expectWord]

theorem equal_of_sort_eq {l r : Value} (h : l.sort = r.sort) : l.equal r = .ok (l == r) :=
  if_pos h

theorem widened_of_le {bits w : Nat} (h : w ≤ maxWidth) :
    Value.widened bits w = .ok (.ofBits bits w) :=
  if_neg (by omega)

theorem extended_of_le {w k : Nat} (h : w + k ≤ maxWidth) : Word.extended w k = w + k := by
  have hbig : maxWidth < Nat.pow 2 32 - 1 := by decide
  unfold Word.extended
  omega

namespace Term

theorem evalAll_ok {env : Env} (op : String) {ts : List Term}
    (h : ∀ t ∈ ts, ∃ v, t.eval env = .ok v ∧ v.sort = .bool) :
    ∃ bs, evalAll env op ts = .ok bs := by
  induction ts with
  | nil => exact ⟨[], rfl⟩
  | cons t ts ih =>
      rcases h t List.mem_cons_self with ⟨v, hv, hsort⟩
      rcases sort_eq_bool hsort with ⟨b, rfl⟩
      rcases ih fun a ha => h a (List.mem_cons_of_mem t ha) with ⟨bs, hbs⟩
      refine ⟨b :: bs, ?_⟩
      unfold evalAll
      rw [hv, hbs]
      rfl

theorem HasSort.eval {scope : Scope} {env : Env} (henv : Matches scope env) {t : Term}
    {s : BvSort} (h : HasSort scope t s) : ∃ v, t.eval env = .ok v ∧ v.sort = s := by
  induction h with
  | var hx =>
      rcases henv _ _ hx with ⟨v, hv, hsort⟩
      refine ⟨v, ?_, hsort⟩
      unfold Term.eval
      rw [hv]
  | boolLit => exact ⟨_, rfl, rfl⟩
  | bvLit _ _ => exact ⟨_, rfl, rfl⟩
  | not _ iha =>
      rcases iha with ⟨v, hv, hsort⟩
      rcases sort_eq_bool hsort with ⟨b, rfl⟩
      unfold Term.eval
      rw [hv]
      exact ⟨_, rfl, rfl⟩
  | and _ ihas =>
      rcases evalAll_ok "and" ihas with ⟨bs, hbs⟩
      unfold Term.eval
      rw [hbs]
      exact ⟨_, rfl, rfl⟩
  | or _ ihas =>
      rcases evalAll_ok "or" ihas with ⟨bs, hbs⟩
      unfold Term.eval
      rw [hbs]
      exact ⟨_, rfl, rfl⟩
  | xor _ _ iha ihb =>
      rcases iha with ⟨v, hv, hvsort⟩
      rcases ihb with ⟨w, hw, hwsort⟩
      rcases sort_eq_bool hvsort with ⟨b, rfl⟩
      rcases sort_eq_bool hwsort with ⟨c, rfl⟩
      unfold Term.eval
      rw [hv, hw]
      exact ⟨_, rfl, rfl⟩
  | implies _ _ iha ihb =>
      rcases iha with ⟨v, hv, hvsort⟩
      rcases ihb with ⟨w, hw, hwsort⟩
      rcases sort_eq_bool hvsort with ⟨b, rfl⟩
      rcases sort_eq_bool hwsort with ⟨c, rfl⟩
      unfold Term.eval
      rw [hv, hw]
      cases b with
      | false => exact ⟨_, rfl, rfl⟩
      | true => exact ⟨_, rfl, rfl⟩
  | eq _ _ iha ihb =>
      rcases iha with ⟨v, hv, hvsort⟩
      rcases ihb with ⟨w, hw, hwsort⟩
      unfold Term.eval
      rw [hv, hw]
      refine ⟨.bool (v == w), ?_, rfl⟩
      show (v.equal w >>= fun b => pure (Value.bool b)) = _
      rw [equal_of_sort_eq (hvsort.trans hwsort.symm)]
      rfl
  | distinct _ _ iha ihb =>
      rcases iha with ⟨v, hv, hvsort⟩
      rcases ihb with ⟨w, hw, hwsort⟩
      unfold Term.eval
      rw [hv, hw]
      refine ⟨.bool (!(v == w)), ?_, rfl⟩
      show (v.equal w >>= fun b => pure (Value.bool (!b))) = _
      rw [equal_of_sort_eq (hvsort.trans hwsort.symm)]
      rfl
  | ite _ _ _ ihc iha ihb =>
      rcases ihc with ⟨u, hu, husort⟩
      rcases sort_eq_bool husort with ⟨b, rfl⟩
      unfold Term.eval
      rw [hu]
      cases b with
      | false => exact ihb
      | true => exact iha
  | unary _ iha =>
      rcases iha with ⟨v, hv, hsort⟩
      rcases sort_eq_bitVec hsort with ⟨bits, rfl⟩
      unfold Term.eval
      rw [hv]
      exact ⟨_, rfl, rfl⟩
  | @binary op a b w _ _ iha ihb =>
      rcases iha with ⟨u, hu, husort⟩
      rcases ihb with ⟨v, hv, hvsort⟩
      rcases sort_eq_bitVec husort with ⟨s, rfl⟩
      rcases sort_eq_bitVec hvsort with ⟨t, rfl⟩
      refine ⟨.ofBits (op.apply w s t) w, ?_, rfl⟩
      unfold Term.eval
      rw [hu, hv]
      show ((Value.word s w).expectWords op.name (.word t w) >>= _) = _
      rw [expectWords_same]
      rfl
  | @compare op a b w _ _ iha ihb =>
      rcases iha with ⟨u, hu, husort⟩
      rcases ihb with ⟨v, hv, hvsort⟩
      rcases sort_eq_bitVec husort with ⟨s, rfl⟩
      rcases sort_eq_bitVec hvsort with ⟨t, rfl⟩
      refine ⟨.bool (op.apply w s t), ?_, rfl⟩
      unfold Term.eval
      rw [hu, hv]
      show ((Value.word s w).expectWords op.name (.word t w) >>= _) = _
      rw [expectWords_same]
      rfl
  | @extract hi lo a w _ hlo hhi iha =>
      rcases iha with ⟨v, hv, hsort⟩
      rcases sort_eq_bitVec hsort with ⟨bits, rfl⟩
      refine ⟨.ofBits (bits >>> lo) (hi - lo + 1), ?_, rfl⟩
      unfold Term.eval
      rw [hv]
      exact if_pos ⟨hlo, hhi⟩
  | @concat a b v w _ _ _ hmax iha ihb =>
      rcases iha with ⟨l, hl, hlsort⟩
      rcases ihb with ⟨r, hr, hrsort⟩
      rcases sort_eq_bitVec hlsort with ⟨s, rfl⟩
      rcases sort_eq_bitVec hrsort with ⟨t, rfl⟩
      unfold Term.eval
      rw [hl, hr]
      exact ⟨_, widened_of_le hmax, rfl⟩
  | @zeroExtend k a w _ _ hmax iha =>
      rcases iha with ⟨v, hv, hsort⟩
      rcases sort_eq_bitVec hsort with ⟨bits, rfl⟩
      refine ⟨.ofBits bits (w + k), ?_, rfl⟩
      unfold Term.eval
      rw [hv]
      show Value.widened bits (Word.extended w k) = _
      rw [extended_of_le hmax, widened_of_le hmax]
  | @signExtend k a w _ _ hmax iha =>
      rcases iha with ⟨v, hv, hsort⟩
      rcases sort_eq_bitVec hsort with ⟨bits, rfl⟩
      refine ⟨.ofBits (Word.ofInt (w + k) (Word.toInt w bits)) (w + k), ?_, rfl⟩
      unfold Term.eval
      rw [hv]
      show Value.widened (Word.ofInt (Word.extended w k) (Word.toInt w bits)) (Word.extended w k) =
        _
      rw [extended_of_le hmax, widened_of_le hmax]

/-!
## Renaming

A renamed term is evaluated in an assignment that has the values of the old names
under the new ones. Only names in scope matter.
-/

/-- Every name in scope has one value in both assignments, under its own name in the
first and under its new name in the second. -/
def Carries (scope : Scope) (f : String → String) (env env' : Env) : Prop :=
  ∀ x s, scope x = some s → ∃ v, env.get? x = some v ∧ env'.get? (f x) = some v

theorem evalAll_rename {f : String → String} {env env' : Env} {op : String} {ts : List Term}
    (h : ∀ t ∈ ts, (t.rename f).eval env' = t.eval env) :
    evalAll env' op (renameAll f ts) = evalAll env op ts := by
  induction ts with
  | nil => rfl
  | cons t ts ih =>
      simp only [renameAll, evalAll]
      rw [h t List.mem_cons_self, ih fun a ha => h a (List.mem_cons_of_mem t ha)]

theorem HasSort.eval_rename {scope : Scope} {f : String → String} {env env' : Env}
    (hf : Carries scope f env env') {t : Term} {s : BvSort} (h : HasSort scope t s) :
    (t.rename f).eval env' = t.eval env := by
  induction h with
  | var hx =>
      rcases hf _ _ hx with ⟨v, hv, hv'⟩
      simp only [Term.rename, Term.eval]
      rw [hv, hv']
  | boolLit => rfl
  | bvLit _ _ => rfl
  | not _ iha => simp only [Term.rename, Term.eval, iha]
  | and _ ihas => simp only [Term.rename, Term.eval, evalAll_rename ihas]
  | or _ ihas => simp only [Term.rename, Term.eval, evalAll_rename ihas]
  | xor _ _ iha ihb => simp only [Term.rename, Term.eval, iha, ihb]
  | implies _ _ iha ihb => simp only [Term.rename, Term.eval, iha, ihb]
  | eq _ _ iha ihb => simp only [Term.rename, Term.eval, iha, ihb]
  | distinct _ _ iha ihb => simp only [Term.rename, Term.eval, iha, ihb]
  | ite _ _ _ ihc iha ihb => simp only [Term.rename, Term.eval, ihc, iha, ihb]
  | unary _ iha => simp only [Term.rename, Term.eval, iha]
  | binary _ _ iha ihb => simp only [Term.rename, Term.eval, iha, ihb]
  | compare _ _ iha ihb => simp only [Term.rename, Term.eval, iha, ihb]
  | extract _ _ _ iha => simp only [Term.rename, Term.eval, iha]
  | concat _ _ _ _ iha ihb => simp only [Term.rename, Term.eval, iha, ihb]
  | zeroExtend _ _ _ iha => simp only [Term.rename, Term.eval, iha]
  | signExtend _ _ _ iha => simp only [Term.rename, Term.eval, iha]

end Term
end Logic
end BitEquiv

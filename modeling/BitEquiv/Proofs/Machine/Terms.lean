import BitEquiv.Machine.Terms
import BitEquiv.Proofs.Logic.Validation
import BitEquiv.Proofs.Machine.Arithmetic

/-!
# Terms on a machine

The widths of a valid scope are small enough for every sum of two of them, so no operation is
a fault, and sorts and values of terms are found as they are over all numbers.
-/

namespace BitEquiv
namespace Machine

open Logic

/-!
## Computations that can stop
-/

namespace Run

section Of

variable {ε α β : Type}

@[simp] theorem of_bind (x : Except ε α) (k : α → Except ε β) :
    of (x >>= k) = of x >>= fun a => of (k a) := by
  cases x <;> rfl

theorem bind_of {x : Except ε α} {k : α → Run ε β} {k' : α → Except ε β}
    (h : ∀ a, x = .ok a → k a = of (k' a)) : (of x >>= k) = of (x >>= k') := by
  cases x with
  | error e => rfl
  | ok a => exact h a rfl

@[simp] theorem of_map (f : α → β) (x : Except ε α) : of (f <$> x) = f <$> of x := by
  cases x <;> rfl

@[simp] theorem of_pure (a : α) : of (pure a : Except ε α) = pure a := rfl

@[simp] theorem of_ok (a : α) : of (.ok a : Except ε α) = .ok a := rfl

@[simp] theorem of_throw (e : ε) : of (throw e : Except ε α) = throw (.error e) := rfl

@[simp] theorem of_ite {c : Prop} [Decidable c] (x y : Except ε α) :
    of (if c then x else y) = if c then of x else of y :=
  apply_ite of c x y

@[simp] theorem op_ok (a : α) : op (.ok a : Except Fault α) = (.ok a : Run ε α) := rfl

end Of

end Run

open Run

/-!
## Sorts
-/

/-- The width of bits that were cut out of a word. -/
theorem width_extract {hi lo w : Nat} (hlo : lo ≤ hi) (hhi : hi < w) (hmax : w ≤ maxWidth) :
    (do add 32 (← sub hi lo) 1) = .ok (hi - lo + 1) := by
  have hbig : maxWidth + 1 < 2 ^ 32 := by decide
  rw [sub_eq hlo]
  exact add_eq (by omega)

theorem width_add {v w : Nat} (hv : v ≤ maxWidth) (hw : w ≤ maxWidth) :
    add 32 v w = .ok (v + w) := by
  have hbig : maxWidth + maxWidth < 2 ^ 32 := by decide
  exact add_eq (by omega)

theorem width_of_sortOf {scope : Scope} (hscope : Term.ValidScope scope) {t : Term} {w : Nat}
    (h : t.sortOf scope = .ok (.bitVec w)) : w ≤ maxWidth :=
  (Term.isValid_bitVec.mp ((Term.hasSort_of_sortOf h).isValid hscope)).2

mutual

theorem sortOf_eq {scope : Scope} (hscope : Term.ValidScope scope) :
    ∀ t : Term, sortOf scope t = of (t.sortOf scope)
  | .var x => by
      unfold sortOf Term.sortOf
      cases scope x <;> rfl
  | .boolLit _ => rfl
  | .bvLit .. => rfl
  | .not a | .unary _ a => by
      simp [sortOf, Term.sortOf, sortOf_eq hscope a]
  | .and as | .or as => by
      simp [sortOf, Term.sortOf, allBool_eq hscope as]
  | .xor a b | .implies a b => by
      simp [sortOf, Term.sortOf, sortOf_eq hscope a, sortOf_eq hscope b]
  | .eq a b | .distinct a b | .binary _ a b | .compare _ a b => by
      simp [sortOf, Term.sortOf, sortOf_eq hscope a, sortOf_eq hscope b]
  | .ite c a b => by
      simp [sortOf, Term.sortOf, sortOf_eq hscope c, sortOf_eq hscope a, sortOf_eq hscope b]
  | .extract hi lo a => by
      rw [sortOf, Term.sortOf, sortOf_eq hscope a]
      refine bind_of fun s ha => bind_of fun w hw => ?_
      rw [Term.asWordSort_eq_ok.mp hw] at ha
      by_cases hrange : lo ≤ hi ∧ hi < w
      · rw [if_pos hrange, if_pos hrange,
          width_extract hrange.1 hrange.2 (width_of_sortOf hscope ha)]
        rfl
      · rw [if_neg hrange, if_neg hrange]
        rfl
  | .concat a b => by
      rw [sortOf, Term.sortOf, sortOf_eq hscope a, sortOf_eq hscope b]
      refine bind_of fun s ha => bind_of fun v hv => bind_of fun s' hb => bind_of fun w hw => ?_
      rw [Term.asWordSort_eq_ok.mp hv] at ha
      rw [Term.asWordSort_eq_ok.mp hw] at hb
      rw [width_add (width_of_sortOf hscope ha) (width_of_sortOf hscope hb)]
      rfl
  | .zeroExtend k a | .signExtend k a => by
      simp [sortOf, Term.sortOf, sortOf_eq hscope a]

theorem allBool_eq {scope : Scope} (hscope : Term.ValidScope scope) :
    ∀ ts : List Term, allBool scope ts = of (Term.allBool scope ts)
  | [] => rfl
  | t :: ts => by
      simp [allBool, Term.allBool, sortOf_eq hscope t, allBool_eq hscope ts]

end

/-!
## Values
-/

section Values

theorem evalAll_eq {env : Env} (name : String) {ts : List Term}
    (h : ∀ t ∈ ts, eval env t = of (t.eval env)) :
    evalAll env name ts = of (Term.evalAll env name ts) := by
  induction ts with
  | nil => rfl
  | cons t ts ih =>
      rcases List.forall_mem_cons.mp h with ⟨ht, hts⟩
      simp [evalAll, Term.evalAll, ht, ih hts]

theorem widened_eq {bits : Except Fault Nat} {n w : Nat} (hbits : bits = .ok n)
    (hmax : w ≤ maxWidth) : widened bits w = .ok (.ofBits n w) := by
  unfold widened
  rw [if_neg (by omega), hbits]
  show op (ofBits n w) = _
  rw [ofBits_eq]
  rfl

theorem ofBits_congr {m n w : Nat} (h : Word.truncate w m = Word.truncate w n) :
    Value.ofBits m w = .ofBits n w :=
  congrArg (Value.word · w) h

theorem truncate_wideUnary {w : Nat} (hmax : w ≤ maxWidth) (s : Nat) (o : UnaryOp) :
    Word.truncate w (wideUnary s o) = Word.truncate w (o.apply w s) := by
  cases o with
  | not => rw [wideUnary, UnaryOp.apply, Word.truncate_not hmax, Word.not_eq_ofInt,
      Word.truncate_ofInt_self]
  | neg => rw [wideUnary, UnaryOp.apply, Word.truncate_neg hmax, Word.neg_eq_ofInt,
      Word.truncate_ofInt_self]

/-- No bit of a word is lost when another one is put behind it. -/
theorem concat_bits {h v w : Nat} (l : Nat) (hlt : h < 2 ^ v) (hv : 1 ≤ v)
    (hmax : v + w ≤ maxWidth) :
    (do
      let high ← if maxWidth ≤ w then .ok 0 else shiftLeft maxWidth h w
      return high ||| l) = Except.ok (h <<< w ||| l) := by
  have hshift : w < maxWidth := by omega
  have hfits : (h <<< w) % 2 ^ maxWidth = h <<< w := by
    refine Nat.mod_eq_of_lt ?_
    calc h <<< w = h * 2 ^ w := Nat.shiftLeft_eq h w
      _ < 2 ^ v * 2 ^ w := Nat.mul_lt_mul_of_pos_right hlt (Nat.two_pow_pos w)
      _ = 2 ^ (v + w) := (Nat.pow_add 2 v w).symm
      _ ≤ 2 ^ maxWidth := Nat.pow_le_pow_right (by decide) hmax
  rw [if_neg (by omega), shiftLeft_eq hshift, hfits]
  rfl

theorem signExtend_bits {s w : Nat} (hmax : w ≤ maxWidth) :
    (do return Word.ofInt maxWidth (← toSigned w s)) =
      Except.ok (Word.ofInt maxWidth (Word.toInt w s)) := by
  rw [toSigned_eq hmax s]
  rfl

variable {scope : Scope} {env : Env} (hscope : Term.ValidScope scope) (henv : Fits scope env)

include hscope henv

theorem inSort_of_eval {t : Term} {s : BvSort} {v : Value} (h : t.HasSort scope s)
    (hv : t.eval env = .ok v) : v.InSort s := by
  rcases h.eval_inSort hscope henv with ⟨v', hv', hin⟩
  rw [hv] at hv'
  cases hv'
  exact hin

/-- A term of words has a value with as many bits as its width says. -/
theorem eval_word {t : Term} {w : Nat} (h : t.HasSort scope (.bitVec w)) :
    ∃ s, t.eval env = .ok (.word s w) ∧ s < 2 ^ w ∧ 1 ≤ w ∧ w ≤ maxWidth := by
  rcases h.eval_inSort hscope henv with ⟨v, hv, hin⟩
  rcases Term.isValid_bitVec.mp (h.isValid hscope) with ⟨hpos, hmax⟩
  rcases sort_eq_bitVec hin.1 with ⟨s, rfl⟩
  exact ⟨s, hv, Value.raw_lt hin, hpos, hmax⟩

theorem eval_eq {t : Term} {s : BvSort} (h : t.HasSort scope s) :
    eval env t = of (t.eval env) := by
  induction h with
  | @var x s hx =>
      unfold eval Term.eval
      cases env.get? x <;> rfl
  | boolLit => rfl
  | @bvLit bits w _ _ _ =>
      rw [eval, ofBits_eq]
      rfl
  | not _ iha => simp [eval, Term.eval, iha]
  | and _ ihas => simp [eval, Term.eval, evalAll_eq "and" ihas]
  | or _ ihas => simp [eval, Term.eval, evalAll_eq "or" ihas]
  | xor _ _ iha ihb | eq _ _ iha ihb | distinct _ _ iha ihb =>
      simp [eval, Term.eval, iha, ihb]
  | implies _ _ iha ihb => simp [eval, Term.eval, iha, ihb]
  | ite _ _ _ ihc iha ihb => simp [eval, Term.eval, ihc, iha, ihb]
  | @unary o a w ha iha =>
      rcases eval_word hscope henv ha with ⟨s, hs, _, _, hmax⟩
      rw [eval, Term.eval, iha, hs]
      show op (ofBits (wideUnary s o) w) = .ok (.ofBits (o.apply w s) w)
      rw [ofBits_eq, ofBits_congr (truncate_wideUnary hmax s o)]
      rfl
  | @binary o a b w ha hb iha ihb =>
      rcases eval_word hscope henv ha with ⟨s, hs, _, _, hmax⟩
      rcases eval_word hscope henv hb with ⟨t, ht, _⟩
      rw [eval, Term.eval, iha, ihb, hs, ht]
      simp [binary_eq hmax, ofBits_congr (Word.truncate_truncate w _)]
  | @compare o a b w ha hb iha ihb =>
      rcases eval_word hscope henv ha with ⟨s, hs, _, _, hmax⟩
      rcases eval_word hscope henv hb with ⟨t, ht, _⟩
      rw [eval, Term.eval, iha, ihb, hs, ht]
      simp [compare_eq hmax]
  | @extract hi lo a w ha hlo hhi iha =>
      rcases eval_word hscope henv ha with ⟨s, hs, _, _, hmax⟩
      have hwidth := width_extract hlo hhi hmax
      have hrange : lo ≤ hi ∧ hi < w := ⟨hlo, hhi⟩
      have hshift : lo < maxWidth := by omega
      rw [eval, Term.eval, iha, hs]
      simp only [bind, Except.bind] at hwidth
      simp only [of_ok, bind, Except.bind, Value.expectWord, if_pos hrange, shiftRight_eq hshift,
        op_ok, hwidth, ofBits_eq]
      rfl
  | @concat a b v w ha hb hpos hmax iha ihb =>
      rcases eval_word hscope henv ha with ⟨h, hh, hlt, hv, hvmax⟩
      rcases eval_word hscope henv hb with ⟨l, hl, _, _, hwmax⟩
      rw [eval, Term.eval, iha, ihb, hh, hl]
      simp only [of_ok, except_ok_bind, Value.expectWord, width_add hvmax hwmax, op_ok,
        widened_of_le hmax]
      exact widened_eq (concat_bits l hlt hv hmax) hmax
  | @zeroExtend k a w ha hpos hmax iha =>
      rcases eval_word hscope henv ha with ⟨s, hs, _⟩
      rw [eval, Term.eval, iha, hs]
      simp only [of_ok, except_ok_bind, Value.expectWord, extended_of_le hmax,
        widened_of_le hmax]
      exact widened_eq rfl hmax
  | @signExtend k a w ha hpos hmax iha =>
      rcases eval_word hscope henv ha with ⟨s, hs, _, _, hwmax⟩
      have hcut : Word.truncate (w + k) (Word.ofInt maxWidth (Word.toInt w s)) =
          Word.truncate (w + k) (Word.ofInt (w + k) (Word.toInt w s)) := by
        rw [Word.truncate_ofInt hmax, Word.truncate_ofInt_self]
      rw [eval, Term.eval, iha, hs]
      simp only [of_ok, except_ok_bind, Value.expectWord, extended_of_le hmax,
        widened_of_le hmax, ← ofBits_congr hcut]
      exact widened_eq (signExtend_bits hwmax) hmax

end Values

end Machine
end BitEquiv

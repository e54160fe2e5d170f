import BitEquiv.Proofs.Logic.Arithmetic
import BitEquiv.Proofs.Logic.Denotation
import BitEquiv.Proofs.Logic.Evaluation
import BitEquiv.Proofs.Text.Assoc

/-!
# Evaluation computes the standard meaning

Where every name in scope has a value in its sort, a well-sorted term has a meaning, and its
value is the one that carries it. The statement is proved by induction on the sort rules;
each operation brings the equation between words and vectors of its own.
-/

namespace BitEquiv
namespace Logic

/-!
## Values in their sorts
-/

/-- Every name in scope has a value of its sort whose bits are below the width. -/
def Fits (scope : Scope) (env : Env) : Prop :=
  ∀ x s, scope x = some s → ∃ v, env.get? x = some v ∧ v.InSort s

theorem Fits.matches {scope : Scope} {env : Env} (h : Fits scope env) : Matches scope env := by
  intro x s hx
  rcases h x s hx with ⟨v, hv, hsort, _⟩
  exact ⟨v, hv, hsort⟩

theorem Value.value_meaning {v : Value} {s : BvSort} (hs : s.isValid = true) (hv : v.InSort s) :
    v.meaning.value = v := by
  rcases hv with ⟨rfl, hcanonical⟩
  cases v with
  | bool b => rfl
  | word bits w =>
      have hmax : w ≤ maxWidth := (Term.isValid_bitVec.mp hs).2
      have hbits : Word.truncate w bits = bits := (Value.word.inj hcanonical).1
      show Value.word (BitVec.ofNat w bits).toNat w = Value.word bits w
      rw [← Word.truncate_eq hmax, hbits]

theorem Meaning.inSort_value {m : Meaning} (hs : m.sort.isValid = true) :
    m.value.InSort m.sort := by
  refine ⟨m.sort_value, ?_⟩
  cases m with
  | bool b => rfl
  | bits w x =>
      show Value.word (Word.truncate w x.toNat) w = Value.word x.toNat w
      rw [Word.truncate_toNat (Term.isValid_bitVec.mp hs).2]

/-!
## Operations
-/

section Operations

variable {w : Nat}

theorem ofBits_eq (hmax : w ≤ maxWidth) (n : Nat) :
    Value.ofBits n w = (Meaning.bits w (BitVec.ofNat w n)).value := by
  show Value.word (Word.truncate w n) w = Value.word (BitVec.ofNat w n).toNat w
  rw [Word.truncate_eq hmax]

theorem ofBits_toNat (hmax : w ≤ maxWidth) (x : BitVec w) :
    Value.ofBits x.toNat w = (Meaning.bits w x).value := by
  rw [ofBits_eq hmax, BitVec.ofNat_toNat, BitVec.setWidth_eq]

theorem unary_apply (hmax : w ≤ maxWidth) (op : UnaryOp) (x : BitVec w) :
    op.apply w x.toNat = (op.denote x).toNat := by
  cases op with
  | not => exact Word.not_eq hmax x
  | neg => exact Word.neg_eq hmax x

theorem binary_apply (hpos : 1 ≤ w) (hmax : w ≤ maxWidth) (op : BinaryOp) (x y : BitVec w) :
    op.apply w x.toNat y.toNat = (op.denote x y).toNat := by
  cases op with
  | add => exact Word.add_eq hmax x y
  | sub => exact Word.sub_eq hmax x y
  | mul => exact Word.mul_eq hmax x y
  | udiv => exact Word.udiv_eq hmax x y
  | urem => exact Word.urem_eq x y
  | sdiv => exact Word.sdiv_eq hpos hmax x y
  | srem => exact Word.srem_eq hpos hmax x y
  | and => exact (BitVec.toNat_and x y).symm
  | or => exact (BitVec.toNat_or x y).symm
  | xor => exact (BitVec.toNat_xor x y).symm
  | shl => exact Word.shl_eq hmax x y
  | lshr => exact Word.lshr_eq hmax x y
  | ashr => exact Word.ashr_eq hpos hmax x y

theorem compare_apply (hpos : 1 ≤ w) (hmax : w ≤ maxWidth) (op : CompareOp) (x y : BitVec w) :
    op.apply w x.toNat y.toNat = op.denote x y := by
  cases op with
  | ult => rfl
  | ule => rfl
  | ugt => rfl
  | uge => rfl
  | slt => simp only [CompareOp.apply, CompareOp.denote, Word.toInt_eq hpos hmax, BitVec.slt]
  | sle => simp only [CompareOp.apply, CompareOp.denote, Word.toInt_eq hpos hmax, BitVec.sle]
  | sgt => simp only [CompareOp.apply, CompareOp.denote, Word.toInt_eq hpos hmax, BitVec.slt]
  | sge => simp only [CompareOp.apply, CompareOp.denote, Word.toInt_eq hpos hmax, BitVec.sle]

theorem value_beq (l r : Meaning) : (l.value == r.value) = decide (l = r) := by
  by_cases h : l = r
  · rw [h, decide_eq_true rfl, beq_self_eq_true]
  · rw [decide_eq_false h, beq_eq_false_iff_ne]
    exact fun heq => h (Meaning.value_injective heq)

end Operations

namespace Term

def Standard (env : Env) (t : Term) (s : BvSort) : Prop :=
  ∃ m, t.denote env.interpretation = some m ∧ m.sort = s ∧ t.eval env = .ok m.value

section Forms

variable {env : Env}

theorem Standard.bool {t : Term} (h : Standard env t .bool) :
    ∃ b, t.denote env.interpretation = some (.bool b) ∧ t.eval env = .ok (.bool b) := by
  rcases h with ⟨m, hm, hsort, hv⟩
  rcases Meaning.sort_eq_bool hsort with ⟨b, rfl⟩
  exact ⟨b, hm, hv⟩

theorem Standard.bits {t : Term} {w : Nat} (h : Standard env t (.bitVec w)) :
    ∃ x, t.denote env.interpretation = some (.bits w x) ∧ t.eval env = .ok (.word x.toNat w) := by
  rcases h with ⟨m, hm, hsort, hv⟩
  rcases Meaning.sort_eq_bitVec hsort with ⟨x, rfl⟩
  exact ⟨x, hm, hv⟩

theorem evalAll_denoteAll (op : String) {ts : List Term} (h : ∀ t ∈ ts, Standard env t .bool) :
    ∃ ps, denoteAll env.interpretation ts = some ps ∧ evalAll env op ts = .ok ps := by
  induction ts with
  | nil => exact ⟨[], rfl, rfl⟩
  | cons t ts ih =>
      rcases List.forall_mem_cons.mp h with ⟨ht, hts⟩
      rcases ht.bool with ⟨b, hm, hv⟩
      rcases ih hts with ⟨ps, hms, hvs⟩
      refine ⟨b :: ps, ?_, ?_⟩
      · simp [denoteAll, hm, hms, Meaning.asBool]
      · unfold evalAll
        rw [hv, hvs]
        rfl

end Forms

theorem HasSort.standard {scope : Scope} {env : Env} (hscope : ValidScope scope)
    (henv : Fits scope env) {t : Term} {s : BvSort} (h : HasSort scope t s) :
    Standard env t s := by
  induction h with
  | @var x s hx =>
      rcases henv x s hx with ⟨v, hv, hin⟩
      refine ⟨v.meaning, ?_, ?_, ?_⟩
      · simp [denote, Env.interpretation, hv]
      · rw [← Meaning.sort_value, Value.value_meaning (hscope x s hx) hin, hin.1]
      · unfold Term.eval
        rw [hv, Value.value_meaning (hscope x s hx) hin]
  | @boolLit b => exact ⟨.bool b, rfl, rfl, rfl⟩
  | @bvLit bits w _ _ hmax =>
      refine ⟨.bits w (BitVec.ofNat w bits), rfl, rfl, ?_⟩
      rw [← ofBits_eq hmax]
      rfl
  | not _ iha =>
      rcases iha.bool with ⟨b, hm, hv⟩
      refine ⟨.bool (!b), ?_, rfl, ?_⟩
      · simp [denote, hm, Meaning.asBool]
      · unfold Term.eval
        rw [hv]
        rfl
  | and _ ihas =>
      rcases evalAll_denoteAll "and" ihas with ⟨ps, hm, hv⟩
      refine ⟨.bool (ps.all id), ?_, rfl, ?_⟩
      · simp [denote, hm]
      · unfold Term.eval
        rw [hv]
        rfl
  | or _ ihas =>
      rcases evalAll_denoteAll "or" ihas with ⟨ps, hm, hv⟩
      refine ⟨.bool (ps.any id), ?_, rfl, ?_⟩
      · simp [denote, hm]
      · unfold Term.eval
        rw [hv]
        rfl
  | xor _ _ iha ihb =>
      rcases iha.bool with ⟨p, hpm, hpv⟩
      rcases ihb.bool with ⟨q, hqm, hqv⟩
      refine ⟨.bool (p ^^ q), ?_, rfl, ?_⟩
      · simp [denote, hpm, hqm, Meaning.asBool]
      · unfold Term.eval
        rw [hpv, hqv]
        rfl
  | implies _ _ iha ihb =>
      rcases iha.bool with ⟨p, hpm, hpv⟩
      rcases ihb.bool with ⟨q, hqm, hqv⟩
      refine ⟨.bool (!p || q), ?_, rfl, ?_⟩
      · simp [denote, hpm, hqm, Meaning.asBool]
      · unfold Term.eval
        rw [hpv, hqv]
        cases p with
        | false => rfl
        | true => rfl
  | eq _ _ iha ihb =>
      rcases iha with ⟨l, hlm, hlsort, hlv⟩
      rcases ihb with ⟨r, hrm, hrsort, hrv⟩
      have hsort : l.sort = r.sort := hlsort.trans hrsort.symm
      refine ⟨.bool (decide (l = r)), ?_, rfl, ?_⟩
      · simp [denote, hlm, hrm, Meaning.equal_of_sort_eq hsort]
      · unfold Term.eval
        rw [hlv, hrv, ← value_beq]
        show (l.value.equal r.value >>= fun b => pure (Value.bool b)) = _
        rw [equal_of_sort_eq (by rw [Meaning.sort_value, Meaning.sort_value, hsort])]
        rfl
  | distinct _ _ iha ihb =>
      rcases iha with ⟨l, hlm, hlsort, hlv⟩
      rcases ihb with ⟨r, hrm, hrsort, hrv⟩
      have hsort : l.sort = r.sort := hlsort.trans hrsort.symm
      refine ⟨.bool (!decide (l = r)), ?_, rfl, ?_⟩
      · simp [denote, hlm, hrm, Meaning.equal_of_sort_eq hsort]
      · unfold Term.eval
        rw [hlv, hrv, ← value_beq]
        show (l.value.equal r.value >>= fun b => pure (Value.bool (!b))) = _
        rw [equal_of_sort_eq (by rw [Meaning.sort_value, Meaning.sort_value, hsort])]
        rfl
  | ite _ _ _ ihc iha ihb =>
      rcases ihc.bool with ⟨p, hpm, hpv⟩
      rcases iha with ⟨l, hlm, hlsort, hlv⟩
      rcases ihb with ⟨r, hrm, hrsort, hrv⟩
      have hsort : l.sort = r.sort := hlsort.trans hrsort.symm
      refine ⟨if p then l else r, ?_, ?_, ?_⟩
      · simp [denote, hpm, hlm, hrm, hsort, Meaning.asBool]
      · cases p with
        | false => exact hrsort
        | true => exact hlsort
      · unfold Term.eval
        rw [hpv]
        cases p with
        | false => exact hrv
        | true => exact hlv
  | @unary op a w ha iha =>
      have hw := isValid_bitVec.mp (ha.isValid hscope)
      rcases iha.bits with ⟨x, hm, hv⟩
      refine ⟨.bits w (op.denote x), ?_, rfl, ?_⟩
      · simp [denote, hm, Meaning.onBits]
      · rw [← ofBits_toNat hw.2, ← unary_apply hw.2]
        unfold Term.eval
        rw [hv]
        rfl
  | @binary op a b w ha _ iha ihb =>
      have hw := isValid_bitVec.mp (ha.isValid hscope)
      rcases iha.bits with ⟨x, hxm, hxv⟩
      rcases ihb.bits with ⟨y, hym, hyv⟩
      refine ⟨.bits w (op.denote x y), ?_, rfl, ?_⟩
      · simp [denote, hxm, hym]
      · rw [← ofBits_toNat hw.2, ← binary_apply hw.1 hw.2]
        unfold Term.eval
        rw [hxv, hyv]
        show ((Value.word x.toNat w).expectWords op.name (.word y.toNat w) >>= _) = _
        rw [expectWords_same]
        rfl
  | @compare op a b w ha _ iha ihb =>
      have hw := isValid_bitVec.mp (ha.isValid hscope)
      rcases iha.bits with ⟨x, hxm, hxv⟩
      rcases ihb.bits with ⟨y, hym, hyv⟩
      refine ⟨.bool (op.denote x y), ?_, rfl, ?_⟩
      · simp [denote, hxm, hym]
      · rw [← compare_apply hw.1 hw.2]
        unfold Term.eval
        rw [hxv, hyv]
        show ((Value.word x.toNat w).expectWords op.name (.word y.toNat w) >>= _) = _
        rw [expectWords_same]
        rfl
  | @extract hi lo a w ha hlo hhi iha =>
      have hw := isValid_bitVec.mp (ha.isValid hscope)
      rcases iha.bits with ⟨x, hm, hv⟩
      refine ⟨.bits (hi - lo + 1) (x.extractLsb hi lo), ?_, rfl, ?_⟩
      · simp [denote, hm, Meaning.onBits, hlo, hhi]
      · show _ = Except.ok (Meaning.bits _ (BitVec.ofNat (hi - lo + 1) (x.toNat >>> lo))).value
        rw [← ofBits_eq (by omega)]
        unfold Term.eval
        rw [hv]
        exact if_pos ⟨hlo, hhi⟩
  | @concat a b v w ha hb hpos hmax iha ihb =>
      rcases iha.bits with ⟨x, hxm, hxv⟩
      rcases ihb.bits with ⟨y, hym, hyv⟩
      refine ⟨.bits (v + w) (x ++ y), ?_, rfl, ?_⟩
      · simp [denote, hxm, hym, Meaning.onBits]
      · rw [← ofBits_toNat hmax, BitVec.toNat_append]
        unfold Term.eval
        rw [hxv, hyv]
        exact widened_of_le hmax
  | @zeroExtend k a w ha hpos hmax iha =>
      rcases iha.bits with ⟨x, hm, hv⟩
      refine ⟨.bits (w + k) (x.zeroExtend (w + k)), ?_, rfl, ?_⟩
      · simp [denote, hm, Meaning.onBits]
      · show _ = Except.ok (Meaning.bits (w + k) (x.setWidth (w + k))).value
        rw [← BitVec.ofNat_toNat, ← ofBits_eq hmax]
        unfold Term.eval
        rw [hv]
        show Value.widened x.toNat (Word.extended w k) = _
        rw [extended_of_le hmax, widened_of_le hmax]
  | @signExtend k a w ha hpos hmax iha =>
      rcases iha.bits with ⟨x, hm, hv⟩
      refine ⟨.bits (w + k) (x.signExtend (w + k)), ?_, rfl, ?_⟩
      · simp [denote, hm, Meaning.onBits]
      · have hw := isValid_bitVec.mp (ha.isValid hscope)
        rw [← ofBits_toNat hmax]
        unfold Term.eval
        rw [hv]
        show Value.widened (Word.ofInt (Word.extended w k) (Word.toInt w x.toNat))
          (Word.extended w k) = _
        rw [extended_of_le hmax, widened_of_le hmax, Word.toInt_eq hw.1 hw.2, Word.ofInt_eq hmax]
        rfl

/-- Evaluation agrees with the standard semantics at every sort that words can have. -/
theorem eval_standard {scope : Scope} {env : Env} {t : Term} {s : BvSort}
    (hscope : ValidScope scope) (hsort : t.sortOf scope = .ok s) (henv : Fits scope env) :
    ∃ m, t.denote env.interpretation = some m ∧ m.sort = s ∧ t.eval env = .ok m.value :=
  (hasSort_of_sortOf hsort).standard hscope henv

/-- The least value of a width divided by minus one and by zero, and shifted by more places
than it has. -/
def extremes : Term :=
  .concat (.binary .sdiv (.var "x") (.bvLit 255 8))
    (.concat (.binary .srem (.var "x") (.bvLit 0 8)) (.binary .ashr (.var "x") (.bvLit 9 8)))

def byteScope : Scope := Assoc.get? [("x", .bitVec 8)]

theorem eval_standard_extremes :
    ValidScope byteScope ∧ extremes.sortOf byteScope = .ok (.bitVec 24) ∧
      Fits byteScope [("x", .word 128 8)] ∧
      ∃ m, extremes.denote (Env.interpretation [("x", .word 128 8)]) = some m ∧
        m.sort = .bitVec 24 ∧ extremes.eval [("x", .word 128 8)] = .ok m.value ∧
        m.value = .word 0x8080ff 24 := by
  have hbyte : ∀ x s, byteScope x = some s → x = "x" ∧ s = .bitVec 8 := by
    intro x s hx
    rcases List.mem_singleton.mp (Assoc.mem_of_get? hx) with ⟨⟩
    exact ⟨rfl, rfl⟩
  have hscope : ValidScope byteScope := by
    intro x s hx
    rw [(hbyte x s hx).2]
    decide
  have hfits : Fits byteScope [("x", .word 128 8)] := by
    intro x s hx
    rcases hbyte x s hx with ⟨rfl, rfl⟩
    exact ⟨.word 128 8, by decide, by decide, by decide⟩
  have hbits : extremes.sortOf byteScope = .ok (.bitVec 24) := rfl
  rcases eval_standard hscope hbits hfits with ⟨m, hm, hsort, hv⟩
  have hvalue : extremes.eval [("x", .word 128 8)] = .ok (.word 0x8080ff 24) := rfl
  refine ⟨hscope, hbits, hfits, m, hm, hsort, hv, ?_⟩
  rw [hvalue] at hv
  exact (Except.ok.inj hv).symm

end Term
end Logic
end BitEquiv

import BitEquiv.Machine.Programs
import BitEquiv.Proofs.Bench.Replay
import BitEquiv.Proofs.Machine.Circuits
import BitEquiv.Proofs.Program.Faults

/-!
# Programs on a machine

The texts that are loaded can be at fault; the machine is not.
-/

namespace BitEquiv
namespace Machine

open Logic Run
open Program (Operator Operand Expr Decl Located LocatedFault Span Checked Tree maxIndex
  atMostWidest faultAt)

/-!
## Operators
-/

theorem literal_eq (bits w : Nat) : literal bits w = .ok (.ofBits bits w) := by
  unfold literal
  rw [mask_eq]
  show Except.ok (Term.ofBits (bits &&& Word.mask w) w) = _
  simp only [Term.ofBits, and_mask, Word.truncate_truncate]

section Operators

variable {indices : List (Located Nat)} {args : List Operand}

theorem width_of_asWord {a : Operand} {name : String} {t : Term} {w : Nat}
    (ha : a.sort.isValid = true) (h : a.asWord name = .ok (t, w)) : w ≤ maxWidth := by
  rw [(Program.asWord_eq_ok.mp h).1] at ha
  exact (Term.isValid_bitVec.mp ha).2

theorem extended_eq {name : String} {count : Located Nat} {a : Operand}
    (ha : a.sort.isValid = true) :
    extended name count a = of (Program.extended name count a) := by
  refine bind_of ?_
  rintro ⟨t, w⟩ hword
  have hmax := width_of_asWord ha hword
  refine bind_of fun width hwidth => ?_
  have hle : w ≤ width := by
    have hbig : maxWidth ≤ maxIndex := by decide
    rcases Program.atMostWidest_eq_ok.mp hwidth with ⟨_, rfl⟩
    exact Nat.le_min.mpr ⟨Nat.le_add_right w _, Nat.le_trans hmax hbig⟩
  rw [sub_eq hle]
  rfl

/-- A number has no bits beyond a width when it is below the power of that width. -/
theorem beyond_eq {bits w : Nat} (hbits : bits ≤ maxIndex) (hmax : w ≤ maxWidth) :
    ∃ more, beyond bits w = .ok more ∧ (more = 0 ↔ bits < Nat.pow 2 w) := by
  unfold beyond
  split
  · rename_i hlt
    refine ⟨bits >>> w, shiftRight_eq hlt, ?_⟩
    rw [Nat.shiftRight_eq_div_pow, Nat.div_eq_zero_iff_lt (Nat.two_pow_pos w)]
    rfl
  · rename_i hlt
    have hwidth : w = maxWidth := by omega
    have hlimit : maxIndex < Nat.pow 2 maxWidth := by decide
    refine ⟨0, rfl, iff_of_true rfl ?_⟩
    rw [hwidth]
    exact Nat.lt_of_le_of_lt hbits hlimit

theorem const_eq {bits width : Located Nat} {span : Span} (hbits : bits.value ≤ maxIndex) :
    applyOp .const [bits, width] [] span = of (Program.applyOp .const [bits, width] [] span) := by
  unfold applyOp Program.applyOp
  dsimp only
  rw [of_ite]
  refine if_congr Iff.rfl rfl (bind_of fun w hw => ?_)
  rcases Program.atMostWidest_eq_ok.mp hw with ⟨hmax, rfl⟩
  rcases beyond_eq hbits hmax with ⟨more, hmore, hfit⟩
  rw [hmore, literal_eq, of_ite]
  exact if_congr hfit rfl rfl

theorem concat_eq {a b : Operand} {span : Span} (ha : a.sort.isValid = true)
    (hb : b.sort.isValid = true) :
    applyOp .concat indices [a, b] span = of (Program.applyOp .concat indices [a, b] span) := by
  unfold applyOp Program.applyOp
  dsimp only
  refine bind_of ?_
  rintro ⟨s, v⟩ hs
  refine bind_of ?_
  rintro ⟨t, w⟩ ht
  have hv := width_of_asWord ha hs
  have hw := width_of_asWord hb ht
  have hbig : maxWidth + maxWidth < 2 ^ maxWidth := by decide
  have hsum : add maxWidth v w = .ok (v + w) := add_eq (by omega)
  rw [hsum]
  exact bind_of fun _ _ => rfl

theorem extract_eq {hi lo : Located Nat} {a : Operand} {span : Span}
    (ha : a.sort.isValid = true) :
    applyOp .extract [hi, lo] [a] span = of (Program.applyOp .extract [hi, lo] [a] span) := by
  unfold applyOp Program.applyOp
  dsimp only
  refine bind_of ?_
  rintro ⟨t, w⟩ ht
  have hw := width_of_asWord ha ht
  dsimp only
  by_cases hrange : lo.value ≤ hi.value ∧ hi.value < w
  · rw [if_pos hrange, if_pos hrange, width_extract hrange.1 hrange.2 hw]
    rfl
  · rw [if_neg hrange, if_neg hrange]

theorem applyOp_eq (hindices : ∀ n ∈ indices, n.value ≤ maxIndex)
    (hargs : ∀ a ∈ args, a.sort.isValid = true) (o : Operator) (span : Span) :
    applyOp o indices args span = of (Program.applyOp o indices args span) := by
  rw [applyOp.eq_def]
  split
  · exact const_eq (hindices _ List.mem_cons_self)
  · exact concat_eq (hargs _ (by simp)) (hargs _ (by simp))
  · exact extract_eq (hargs _ (by simp))
  · rw [extended_eq (hargs _ (by simp))]
    exact bind_of fun _ _ => rfl
  · rw [extended_eq (hargs _ (by simp))]
    exact bind_of fun _ _ => rfl
  · rfl

end Operators

/-!
## Expressions
-/

section Expressions

variable {scope : Assoc BvSort}

mutual

theorem checkExpr_eq (hscope : Term.ValidScope scope.get?) :
    ∀ {e : Expr}, e.LiteralsFit → e.beyond? = none →
      checkExpr scope e = of (Program.checkExpr scope e)
  | .var x span, _, _ => by
      unfold checkExpr Program.checkExpr
      cases scope.get? x <;> rfl
  | .boolLit b span, _, _ => rfl
  | .bvLit bits w span, _, _ => by
      rw [checkExpr, literal_eq]
      rfl
  | .app name indices args span, hfit, hlimits => by
      rcases Program.beyond?_app_eq_none_iff.mp hlimits with ⟨hindices, hlimits⟩
      unfold checkExpr Program.checkExpr
      cases Operator.ofName? name.value with
      | none => rfl
      | some o =>
          dsimp only
          rw [checkArgs_eq hscope hfit hlimits]
          simp only [of_ite]
          refine if_congr Iff.rfl rfl (if_congr Iff.rfl rfl (bind_of fun operands h => ?_))
          have hsorts := (Program.checkArgs_sound hscope hfit h).2.1
          exact applyOp_eq hindices (fun a ha => (hsorts a ha).isValid hscope) o span

theorem checkArgs_eq (hscope : Term.ValidScope scope.get?) :
    ∀ {es : List Expr}, Expr.AllLiteralsFit es → (∀ e ∈ es, e.beyond? = none) →
      checkArgs scope es = of (Program.checkArgs scope es)
  | [], _, _ => rfl
  | e :: rest, hfit, hlimits => by
      rcases List.forall_mem_cons.mp hlimits with ⟨hfirst, hrest⟩
      rw [checkArgs, Program.checkArgs, checkExpr_eq hscope hfit.1 hfirst,
        checkArgs_eq hscope hfit.2 hrest]
      exact bind_of fun _ _ => bind_of fun _ _ => rfl

end

end Expressions

/-!
## Texts
-/

section Texts

variable {c : Checked}

theorem checkBinding_eq (hscope : Term.ValidScope c.scope.get?) {e : Expr} (hfit : e.LiteralsFit)
    (hlimits : e.beyond? = none) (isOutput : Bool) (name : String) (declared : BvSort) :
    checkBinding c.scope isOutput name declared e =
      of (Program.checkBinding c.scope isOutput name declared e) := by
  rw [checkBinding, Program.checkBinding, checkExpr_eq hscope hfit hlimits]
  refine bind_of fun r _ => ?_
  rw [of_ite]
  rfl

theorem ok_ite {α : Type} {p : Prop} [Decidable p] (x y : α) :
    (Except.ok (if p then x else y) : Except Fault α) = if p then .ok x else .ok y :=
  apply_ite Except.ok p x y

theorem decl_eq (hscope : Term.ValidScope c.scope.get?) {d : Decl} (hd : d.Legal)
    (hlimits : d.beyond? = none) : decl c d = .ok (c.decl d) := by
  unfold decl Checked.decl
  cases hd with
  | input => simp only [ok_ite]
  | @binding isOutput name sort e span hname he =>
      have hexpr := (Option.or_eq_none_iff.mp hlimits).2
      have hfit := (he.canonical hexpr).literalsFit
      simp only [ok_ite]
      refine if_congr Iff.rfl rfl (if_congr Iff.rfl rfl ?_)
      rw [checkBinding_eq hscope hfit hexpr]
      cases Program.checkBinding c.scope isOutput name.value sort.value e <;> rfl

/-- Only names with valid sorts enter scope, be there faults or not. -/
theorem validScope_decl (hscope : Term.ValidScope c.scope.get?) (d : Decl) :
    Term.ValidScope (c.decl d).scope.get? := by
  rw [Program.Checked.decl_scope]
  unfold Program.scopeWith
  split
  · rename_i hnew
    rw [get?_set_eq_extend]
    exact validScope_extend hscope (Bool.and_eq_true_iff.mp hnew).1
  · exact hscope

theorem foldlM_decl_eq (hscope : Term.ValidScope c.scope.get?) {ds : List Decl}
    (hds : ∀ d ∈ ds, d.Legal ∧ d.beyond? = none) :
    ds.foldlM decl c = .ok (ds.foldl Checked.decl c) := by
  induction ds generalizing c with
  | nil => rfl
  | cons d ds ih =>
      rcases List.forall_mem_cons.mp hds with ⟨⟨hlegal, hlimits⟩, hds⟩
      rw [List.foldlM_cons, decl_eq hscope hlegal hlimits]
      exact ih (validScope_decl hscope d) hds

/-- A text is loaded, or its faults are found, without a fault of the machine. -/
theorem load_eq (s : List Char) : load s = of (Program.load s) := by
  unfold load Program.load
  cases hparse : Program.parse s with
  | error f => rfl
  | ok t =>
      have hempty : Term.ValidScope (Assoc.get? ([] : Assoc BvSort)) := by
        rintro x sort ⟨⟩
      have hdecls := (Program.parse_legal hparse).2
      dsimp only
      unfold ofTree Program.ofTree
      rw [foldlM_decl_eq (c := .empty) hempty hdecls]
      simp only [of_ite]
      rfl

end Texts

/-!
## Runs
-/

theorem runBindings_eq {scope : Scope} {bs : List Binding} {env : Env}
    (hscope : Term.ValidScope scope) (hsorted : Sorted scope (bs.map Binding.definition))
    (henv : Fits scope env) : runBindings env bs = of (Program.runBindings env bs) := by
  induction bs generalizing scope env with
  | nil => rfl
  | cons b bs ih =>
      have hb : b.term.HasSort scope b.sort ∧
          Sorted (scope.extend b.name b.sort) (bs.map Binding.definition) := hsorted.2
      rcases hb with ⟨hterm, hrest⟩
      rw [runBindings, Program.runBindings, eval_eq hscope henv hterm]
      refine bind_of fun v hv => ?_
      have hin := inSort_of_eval hscope henv hterm hv
      rw [ih (validScope_extend hscope (hterm.isValid hscope)) hrest (fits_set henv hin)]
      exact bind_of fun _ _ => rfl

theorem evaluate_eq {p : Program} (hp : p.WellFormed) {given : Env} (hgiven : p.FitsValues given) :
    evaluate p given = of (p.evaluate given) := by
  refine bind_of fun env henv => ?_
  have hfits : Fits (Assoc.get? p.inputs) env := by
    rcases Program.bindInputs_ok [] hp.distinct hgiven.matches with ⟨env', henv', hget⟩
    rw [henv] at henv'
    cases henv'
    intro x s hx
    rw [hget, hx]
    exact hgiven x s (Assoc.mem_of_get? hx)
  exact runBindings_eq (validScope_of_valid hp.valid) hp.sorted hfits

/-!
## Bytes of inputs
-/

open Bench.Replay (byteCount lowBytes)

theorem take_lowBytes {k count : Nat} (h : k ≤ count) (n : Nat) :
    (lowBytes count n).take k = lowBytes k n := by
  induction k generalizing count n with
  | zero => rfl
  | succ k ih =>
      cases count with
      | zero => cases h
      | succ count => rw [lowBytes, List.take_succ_cons, ih (Nat.le_of_succ_le_succ h)]; rfl

theorem byteCount_le {s : BvSort} (hs : s.isValid = true) : byteCount s ≤ 16 := by
  have hmax : s.width ≤ 128 := Term.width_le_of_isValid hs
  unfold byteCount
  omega

theorem inputBytes_eq {input : String × BvSort} (hvalid : input.2.isValid = true)
    (values : Env) : inputBytes values input = .ok (Bench.Replay.inputBytes values input) := by
  have hcount := byteCount_le hvalid
  have hlength : byteCount input.2 ≤ (lowBytes 16
      ((values.get? input.1).getD (.zero input.2)).raw).length := by
    rw [Bench.Replay.lowBytes_length]
    exact hcount
  unfold inputBytes Bench.Replay.inputBytes
  rw [slice_eq hlength, take_lowBytes hcount]

theorem appendInputs_eq (values : Env) (bytes : Text.Bytes) {inputs : List (String × BvSort)}
    (hvalid : ∀ input ∈ inputs, input.2.isValid = true) :
    appendInputs values bytes inputs =
      .ok (bytes ++ inputs.flatMap (Bench.Replay.inputBytes values)) := by
  induction inputs generalizing bytes with
  | nil => rw [appendInputs, List.flatMap_nil, List.append_nil]
  | cons input inputs ih =>
      rcases List.forall_mem_cons.mp hvalid with ⟨hfirst, hrest⟩
      rw [appendInputs, inputBytes_eq hfirst, List.flatMap_cons, ← List.append_assoc]
      exact ih _ hrest

/-- The bytes of the inputs are written without a fault, whatever the values are. -/
theorem encodeInputs_eq {p : Program} (hp : p.WellFormed) (values : Env) :
    encodeInputs p values = .ok (Bench.Replay.encodeInputs p values) :=
  appendInputs_eq values [] hp.valid

/-!
## Accepted queries and programs
-/

section Queries

variable {q : Query} {known : Assoc BvSort} (h : q.validate = .ok known)

include h

theorem satisfiedBy_ok {given : Env} (hgiven : q.GivenInSort given) :
    ∃ b, q.satisfiedBy given = .ok b ∧ satisfiedBy q given = .ok b := by
  have hq := Query.wellFormed_of_validate h
  rcases hq.satisfiedBy hgiven with ⟨b, hb⟩
  refine ⟨b, hb, ?_⟩
  rw [satisfiedBy_eq hq hgiven, hb]
  rfl

theorem decide_ok (bits : Nat) (expired : Nat → Bool) (wanted : List (String × BvSort)) :
    ∃ d, Solver.Exhaustive.decide bits expired q wanted = .ok d ∧
      decide bits expired q wanted = .ok d := by
  have hq := Query.wellFormed_of_validate h
  have hvalue : ∀ n, ∃ b, q.satisfiedBy (Solver.Exhaustive.assignment q.inputs n []) = .ok b :=
    fun n => hq.satisfiedBy (Solver.Exhaustive.givenInSort_assignment hq.distinct n)
  rcases Solver.Exhaustive.decide_ends wanted expired h hvalue with ⟨d, hd⟩
  refine ⟨d, hd, ?_⟩
  rw [decide_eq, hd]
  rfl

theorem linesOf_ok : ∃ lines, Btor.linesOf q = .ok lines ∧ linesOf q = .ok lines := by
  have hq := Query.wellFormed_of_validate h
  rcases Btor.modelText_ok hq with ⟨text, htext⟩
  rcases except_bind_eq_ok.mp htext with ⟨lines, hlines, _⟩
  refine ⟨lines, hlines, ?_⟩
  rw [linesOf_eq hq, hlines]
  rfl

end Queries

theorem evaluate_ok {p : Program} (hp : p.WellFormed) {values : Env}
    (hvalues : p.FitsValues values) :
    ∃ outs, p.evaluate values = .ok outs ∧ evaluate p values = .ok outs := by
  rcases hp.evaluate hvalues.matches with ⟨outs, houts⟩
  refine ⟨outs, houts, ?_⟩
  rw [evaluate_eq hp hvalues, houts]
  rfl

/-- No operation of a machine leaves its range, and every result is that over all numbers: for
an accepted query, its check, its values at any inputs in their sorts, the search for such
inputs under any budget and time limit, and its model; for a loaded text, the loading, the
outputs at any inputs in their sorts, and the bytes of those inputs. -/
theorem arithmetic_in_range :
    (∀ q known, q.validate = .ok known →
      validate q = .ok known ∧
        (∀ given, q.GivenInSort given →
          ∃ b, q.satisfiedBy given = .ok b ∧ satisfiedBy q given = .ok b) ∧
        (∀ bits expired wanted, ∃ d, Solver.Exhaustive.decide bits expired q wanted = .ok d ∧
          decide bits expired q wanted = .ok d) ∧
        ∃ lines, Btor.linesOf q = .ok lines ∧ linesOf q = .ok lines) ∧
      ∀ text p, Program.load text = .ok p →
        load text = .ok p ∧ ∀ values, p.FitsValues values →
          (∃ outs, p.evaluate values = .ok outs ∧ evaluate p values = .ok outs) ∧
            encodeInputs p values = .ok (Bench.Replay.encodeInputs p values) := by
  constructor
  · intro q known h
    have hvalidate : validate q = .ok known := by
      rw [validate_eq, h]
      rfl
    exact ⟨hvalidate, fun _ => satisfiedBy_ok h, decide_ok h, linesOf_ok h⟩
  · intro text p h
    have hp := Program.load_wellFormed h
    have hload : load text = .ok p := by
      rw [load_eq, h]
      rfl
    exact ⟨hload, fun values hvalues => ⟨evaluate_ok hp hvalues, encodeInputs_eq hp values⟩⟩

open Solver.Exhaustive (negativeByte)
open Bench.Replay (chosen load_chosen)
open Bench.Replayer (minusSeven fitsValues_minusSeven evaluate_minusSeven)

/-- A byte that is widened and compared, and a word of twelve bits in two bytes. -/
theorem arithmetic_in_range_negativeByte :
    satisfiedBy negativeByte [("x", .word 200 8), ("wanted", .bool true)] = .ok true ∧
      decide 9 (fun _ => false) negativeByte [("x", .bitVec 8)] = .ok (.sat [("x", .word 0 8)]) ∧
      evaluate chosen minusSeven = .ok [("r", .word 4089 12)] ∧
      encodeInputs chosen minusSeven = .ok [0xf9, 0x0f, 0x01] := by
  have hgiven : negativeByte.GivenInSort [("x", .word 200 8), ("wanted", .bool true)] := by
    intro x s hx v hv
    rcases List.mem_cons.mp (Assoc.mem_of_get? hx) with hx | hx
    · cases hx
      cases hv
      exact ⟨rfl, by decide⟩
    · cases List.mem_singleton.mp hx
      cases hv
      exact ⟨rfl, by decide⟩
  have hholds : negativeByte.satisfiedBy [("x", .word 200 8), ("wanted", .bool true)] =
      .ok true := rfl
  have hfound : Solver.Exhaustive.decide 9 (fun _ => false) negativeByte [("x", .bitVec 8)] =
      .ok (.sat [("x", .word 0 8)]) := rfl
  rcases arithmetic_in_range.1 negativeByte _ rfl with ⟨_, hvalues, hsearch, _⟩
  rcases arithmetic_in_range.2 _ _ load_chosen with ⟨_, hruns⟩
  rcases hvalues _ hgiven with ⟨b, hb, hvalue⟩
  rcases hsearch 9 (fun _ => false) [("x", .bitVec 8)] with ⟨d, hd, hdecide⟩
  rcases hruns _ fitsValues_minusSeven with ⟨⟨outs, houts, hrun⟩, hbytes⟩
  rw [hholds] at hb
  rw [hfound] at hd
  rw [evaluate_minusSeven] at houts
  cases hb
  cases hd
  cases houts
  exact ⟨hvalue, hdecide, hrun, hbytes⟩

end Machine
end BitEquiv

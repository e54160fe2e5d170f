import Mathlib.Data.List.Forall2
import BitEquiv.Proofs.Btor.Terms
import BitEquiv.Proofs.Program.Comparison

/-!
# Models of queries

The text of a model is read as rows whose run, at any values of the inputs, decides the query
there: the operand of the only bad state is one exactly when all assertions hold.
-/

namespace BitEquiv
namespace Btor

open Logic Circuit
open Text (isBlank)

section Names

variable {values : List Bits} {scope : Scope} {ρ ρ' : Interpretation} {c : Circuit} {r : Run}

theorem Circuit.Follows.bindName (h : Follows values c r) (x : String) (n w : Nat) :
    Follows values (c.bindName x n w) r :=
  ⟨h.run, h.legible, h.sorts⟩

theorem Knows.bindName (h : Knows scope ρ c r) {x : String} {m : Meaning} {n : Nat}
    (hother : ∀ y, y ≠ x → ρ' y = ρ y) (hm : ρ' x = some m) (hn : r.nodes n = some (bitsOf m)) :
    Knows (scope.extend x m.sort) ρ' (c.bindName x n m.sort.width) r := by
  intro y s hy
  by_cases hx : y = x
  · rw [hx, extend_self] at hy
    cases hy
    refine ⟨m, n, hx ▸ hm, rfl, ?_, hn⟩
    rw [hx]
    exact (Assoc.get?_set _ _ _ _).trans (if_pos rfl)
  · rw [extend_of_ne _ _ hx] at hy
    rcases h y s hy with ⟨m', n', hm', hs, hname, hn'⟩
    refine ⟨m', n', (hother y hx).trans hm', hs, ?_, hn'⟩
    exact ((Assoc.get?_set _ _ _ _).trans (if_neg hx)).trans hname

end Names

/-!
## Inputs
-/

section Inputs

variable {values : List Bits} {ρ : Interpretation} {c : Circuit} {r : Run}

theorem addInput_follows (h : Follows values c r) {x : String}
    (hx : ∀ d ∈ x.toList, isBlank d = false) {m : Meaning} (hvalid : m.sort.isValid = true)
    {rest : List Bits} (hpending : r.pending = bitsOf m :: rest) :
    ∃ n r', Follows values (c.addInput x m.sort.width) r' ∧ r.Extends r' ∧
      (c.addInput x m.sort.width).names = c.names.set x (n, m.sort.width) ∧
      r'.nodes n = some (bitsOf m) ∧ r'.inputs = r.inputs ++ [(visible x, m.sort.width)] ∧
      r'.pending = rest ∧ r'.bad = r.bad := by
  rcases h.withSort (width_pos hvalid) with ⟨r₁, hleads, _, hsort⟩
  have hpending₁ : r₁.pending = bitsOf m :: rest := hleads.grows.pending.trans hpending
  have hkept := Run.extends_defineNode hleads.follows.within (bitsOf m)
  let next : Run :=
    { r₁.defineNode ((c.withSort m.sort.width).1.size + 1) (bitsOf m) with
      inputs := r₁.inputs ++ [(visible x, m.sort.width)], pending := rest }
  have hstep : (Line.input (c.withSort m.sort.width).2 x).seen.step?
      ((c.withSort m.sort.width).1.size + 1) r₁ = some next := by
    simp [Line.seen, Line.step?, hsort, hpending₁, next]
  have hnext : r₁.Extends next := ⟨hkept.sorts, hkept.nodes⟩
  have hline : (Line.input (c.withSort m.sort.width).2 x).Legible := hx
  refine ⟨_, next, (hleads.follows.push hline hstep hnext).bindName x _ _,
    hleads.grows.toExtends.trans hnext, ?_, Function.update_self _ _ _, ?_, rfl, hleads.grows.bad⟩
  · rw [← hleads.names]
    rfl
  · show r₁.inputs ++ [(visible x, m.sort.width)] = _
    rw [hleads.grows.inputs]

/-- What is declared of an input, and the bits that it gets. -/
structure Takes (ρ : Interpretation) (input : String × BvSort) (x : Bits) : Prop where
  name : ∀ d ∈ input.1.toList, isBlank d = false
  valid : input.2.isValid = true
  meaning : ∃ m, ρ input.1 = some m ∧ m.sort = input.2 ∧ bitsOf m = x

def declared (input : String × BvSort) : String × Nat := (visible input.1, input.2.width)

theorem addInputs_knows {done inputs : Assoc BvSort} {given : List Bits}
    (hgiven : List.Forall₂ (Takes ρ) inputs given) (hdistinct : Assoc.Distinct (done ++ inputs))
    (h : Follows values c r) (hknows : Knows (Assoc.get? done) ρ c r)
    (hpending : r.pending = given) :
    ∃ r', Follows values (c.addInputs inputs) r' ∧
      Knows (Assoc.get? (done ++ inputs)) ρ (c.addInputs inputs) r' ∧
      r'.inputs = r.inputs ++ inputs.map declared ∧ r'.pending = [] ∧ r'.bad = r.bad := by
  induction hgiven generalizing done c r with
  | nil =>
      rw [List.append_nil]
      exact ⟨r, h, hknows, (List.append_nil _).symm, hpending, rfl⟩
  | @cons input x inputs given htakes _ ih =>
      rcases input with ⟨name, sort⟩
      rcases htakes with ⟨hname, hvalid, m, hm, rfl, rfl⟩
      rcases addInput_follows h hname hvalid hpending with
        ⟨n, r₁, hfollows, hkept, hnames, hnode, hinputs, hpending₁, hbad⟩
      have hnew : Assoc.get? done name = none := Assoc.get?_eq_none_of_distinct hdistinct
      have hknows₁ : Knows (Assoc.get? (done ++ [(name, m.sort)])) ρ
          (c.addInput name m.sort.width) r₁ := by
        rw [get?_append_eq_extend hnew]
        have hbound := (hknows.mono rfl hkept).bindName (fun _ _ => rfl) hm hnode
        exact hbound.mono hnames (.refl r₁)
      rw [List.append_cons] at hdistinct ⊢
      rcases ih hdistinct hfollows hknows₁ hpending₁ with
        ⟨r', hfollows', hknows', hinputs', hpending', hbad'⟩
      refine ⟨r', hfollows', hknows', ?_, hpending', hbad'.trans hbad⟩
      rw [hinputs', hinputs, List.append_assoc]
      rfl

end Inputs

/-!
## Definitions
-/

theorem interpretation_set (env : Env) (x : String) (m : Meaning) :
    Env.interpretation (env.set x m.value) x = some m := by
  unfold Env.interpretation
  rw [Assoc.get?_set, if_pos rfl, Option.map_some, Meaning.meaning_value]

theorem interpretation_set_of_ne (env : Env) {x y : String} (v : Value) (h : y ≠ x) :
    Env.interpretation (env.set x v) y = env.interpretation y := by
  unfold Env.interpretation
  rw [Assoc.get?_set, if_neg h]

theorem addDefinitions_knows {values : List Bits} {scope : Scope} {ds : List Definition} {env : Env}
    {c : Circuit} {r : Run} (hscope : Term.ValidScope scope) (hsorted : Sorted scope ds)
    (henv : Fits scope env) (hc : Follows values c r)
    (hknows : Knows scope env.interpretation c r) :
    ∃ c' r' env', c.addDefinitions ds = .ok c' ∧ Query.definedValues env ds = .ok env' ∧
      Follows values c' r' ∧ r.Grows r' ∧ Fits (scope.after ds) env' ∧
      Knows (scope.after ds) env'.interpretation c' r' := by
  induction ds generalizing scope env c r with
  | nil => exact ⟨c, r, env, rfl, rfl, hc, .refl r, henv, hknows⟩
  | cons d ds ih =>
      rcases d with ⟨name, sort, term⟩
      rcases hsorted with ⟨_, hterm, hrest⟩
      rcases compiles hscope hterm hc hknows with
        ⟨m, c₁, n, r₁, hm, rfl, hadd, hleads, hnode⟩
      rcases hterm.standard hscope henv with ⟨m', hm', _, hv⟩
      rw [hm] at hm'
      cases hm'
      have hvalid : m.sort.isValid = true := hterm.isValid hscope
      have hextended : Term.ValidScope (scope.extend name m.sort) :=
        validScope_extend hscope hvalid
      have hbound := (hknows.leads hleads).bindName
        (fun y hy => interpretation_set_of_ne env m.value hy) (interpretation_set env name m) hnode
      rcases ih hextended hrest (fits_set henv (Meaning.inSort_value hvalid))
        (hleads.follows.bindName name n m.sort.width) hbound with
        ⟨c', r', env', hds, hvalues, hfollows, hgrows, henv', hknows'⟩
      refine ⟨c', r', env', ?_, ?_, hfollows, hleads.grows.trans hgrows, henv', hknows'⟩
      · exact except_bind_eq_ok.mpr ⟨_, hadd,
          except_bind_eq_ok.mpr ⟨_, expectWidth_self name m.sort.width, hds⟩⟩
      · exact except_bind_eq_ok.mpr ⟨_, hv, hvalues⟩

/-!
## Models
-/

def inputVectors (q : Query) (given : Env) : List Bits :=
  q.inputs.map fun input => bitsOf ((given.get? input.1).getD (.zero input.2)).meaning

section Query

variable {q : Query} {given : Env} (hq : q.WellFormed)

include hq

theorem takes_inputVectors (hnames : ∀ input ∈ q.inputs, ∀ d ∈ input.1.toList, isBlank d = false)
    (hgiven : q.GivenInSort given) :
    List.Forall₂ (Takes (Query.inputValues given [] q.inputs).interpretation) q.inputs
      (inputVectors q given) := by
  unfold inputVectors
  rw [List.forall₂_map_right_iff, List.forall₂_same]
  rintro ⟨name, sort⟩ hmem
  have hget := Assoc.get?_of_mem hq.distinct hmem
  refine ⟨hnames _ hmem, hq.valid _ hmem, _, ?_, ?_, rfl⟩
  · unfold Env.interpretation
    rw [get?_inputValues hq.distinct, hget]
    rfl
  · rw [Meaning.sort_meaning]
    cases hvalue : given.get? name with
    | none => exact (inSort_zero sort).1
    | some v => exact (hgiven name sort hget v hvalue).1

theorem linesOf_run
    (hnames : ∀ input ∈ q.inputs, ∀ d ∈ input.1.toList, isBlank d = false)
    (hgiven : q.GivenInSort given) :
    ∃ lines r b, linesOf q = .ok lines ∧ (∀ line ∈ lines, line.Legible) ∧
      run? (numbered 1 (lines.map Line.seen)) (.start (inputVectors q given)) = some r ∧
      r.inputs = q.inputs.map declared ∧ r.pending = [] ∧ r.bad = [.ofBool b] ∧
      q.satisfiedBy given = .ok b := by
  have hnone : Knows (Assoc.get? []) (Query.inputValues given [] q.inputs).interpretation
      Circuit.empty (.start (inputVectors q given)) := by
    rintro x s ⟨⟩
  have hdistinct : Assoc.Distinct ([] ++ q.inputs) := hq.distinct
  rcases addInputs_knows (takes_inputVectors hq hnames hgiven) hdistinct (follows_empty _) hnone rfl
    with ⟨r₁, hfollows₁, hknows₁, hinputs₁, hpending₁, hbad₁⟩
  rcases addDefinitions_knows hq.validScope_inputs hq.sorted
    (Query.fits_inputValues hq.distinct hgiven) hfollows₁ hknows₁ with
    ⟨c₂, r₂, env, hdefinitions, henv, hfollows₂, hgrows₂, hfits, hknows₂⟩
  have hassertions : ∀ t ∈ q.assertions, ∀ c r, Follows (inputVectors q given) c r →
      Knows q.scope env.interpretation c r →
      Compiles (inputVectors q given) env.interpretation t .bool c r := by
    intro t ht c r hc hknows
    exact compiles hq.validScope (hq.assertions t ht) hc hknows
  have hunit : Collected r₂ true true none := rfl
  rcases addAll_collects (by decide) Bool.true_and result?_and hassertions hfollows₂ hknows₂ hunit
    with ⟨ps, c₃, n, r₃, hps, hall, hleads₃, hnode⟩
  rw [foldl_and, Bool.true_and] at hnode
  have hstep : (Line.bad n).seen.step? (c₃.size + 1) r₃ =
      some { r₃ with bad := r₃.bad ++ [.ofBool (ps.all id)] } := by
    simp [Line.seen, Line.step?, hnode, Bits.ofBool]
  have hbad : (Line.bad n).Legible := trivial
  have hfollows := hleads₃.follows.push hbad hstep ⟨fun _ _ h => h, fun _ _ h => h⟩
  have hgrows := hgrows₂.trans hleads₃.grows
  refine ⟨_, _, ps.all id, ?_, ?_, hfollows.run, ?_, ?_, ?_, ?_⟩
  · exact except_bind_eq_ok.mpr ⟨_, hdefinitions, except_bind_eq_ok.mpr ⟨_, hall, rfl⟩⟩
  · intro line hline
    exact hfollows.legible line (List.mem_reverse.mp hline)
  · exact hgrows.inputs.trans hinputs₁
  · exact hgrows.pending.trans hpending₁
  · show r₃.bad ++ [.ofBool (ps.all id)] = _
    rw [hgrows.bad, hbad₁]
    rfl
  · have hstandard : ∀ t ∈ q.assertions, Term.Standard env t .bool := by
      intro t ht
      exact (hq.assertions t ht).standard hq.validScope hfits
    exact except_bind_eq_ok.mpr ⟨env, henv, holds_denoteAll hstandard hps⟩

end Query

/-- The rows are numbered from one and mention only rows before them. At any values of the
inputs in their sorts they take the inputs in order, and the operand of the only bad state is
one exactly where the query is satisfied. -/
structure Models (q : Query) (rows : List Row) : Prop where
  ids : rows.map (·.1) = List.range' 1 rows.length
  earlier : ∀ row ∈ rows, ∀ i ∈ row.2.mentions, 1 ≤ i ∧ i < row.1
  decides : ∀ given, q.GivenInSort given → ∃ r x b,
    run? rows (.start (inputVectors q given)) = some r ∧ r.inputs = q.inputs.map declared ∧
      r.pending = [] ∧ r.bad = [⟨1, x⟩] ∧ q.satisfiedBy given = .ok b ∧ (x = 1#1 ↔ b = true)

theorem exists_models {q : Query} (hq : q.WellFormed)
    (hnames : ∀ input ∈ q.inputs, ∀ d ∈ input.1.toList, isBlank d = false) :
    ∃ text rows, modelText q = .ok text ∧ read? text.toList = some rows ∧ Models q rows := by
  have hempty : q.GivenInSort [] := by
    rintro x s _ v ⟨⟩
  rcases linesOf_run hq hnames hempty with ⟨lines, r₀, _, hlines, hlegible, hrun₀, _⟩
  have hmentions := (mentions_of_run? (Run.within_start _) (Nat.le_refl 1) hrun₀).2
  refine ⟨writeLines 1 lines, numbered 1 (lines.map Line.seen), ?_, read?_writeLines hlegible 1, ?_⟩
  · exact except_bind_eq_ok.mpr ⟨_, hlines, rfl⟩
  · constructor
    · have hlength := congrArg List.length (map_fst_numbered 1 (lines.map Line.seen))
      rw [List.length_map, List.length_range'] at hlength
      rw [map_fst_numbered, hlength]
    · exact hmentions
    · intro given hgiven
      rcases linesOf_run hq hnames hgiven with
        ⟨lines', r, b, hlines', _, hrun, hinputs, hpending, hbad, hsatisfied⟩
      rw [hlines] at hlines'
      cases hlines'
      refine ⟨r, BitVec.ofBool b, b, hrun, hinputs, hpending, hbad, hsatisfied, ?_⟩
      cases b with
      | false => decide
      | true => decide

/-- Every accepted query has a model, and it can be read. Of the names of a query only those
of its inputs are written. -/
theorem modelText_correct {q : Query} {known : Assoc BvSort} (hvalid : q.validate = .ok known)
    (hnames : ∀ input ∈ q.inputs, ∀ d ∈ input.1.toList, isBlank d = false) :
    ∃ text rows, modelText q = .ok text ∧ read? text.toList = some rows ∧ Models q rows :=
  exists_models (Query.wellFormed_of_validate hvalid) hnames

def lowBits : Query where
  inputs := [("in_b", .bool), ("in_x", .bitVec 4)]
  definitions := [⟨"low", .bitVec 2, .extract 1 0 (.signExtend 2 (.var "in_x"))⟩]
  assertions := [.and [.var "in_b", .eq (.var "low") (.bvLit 3 2)]]

theorem modelText_correct_lowBits :
    (∃ known, lowBits.validate = .ok known) ∧
      (∀ input ∈ lowBits.inputs, ∀ d ∈ input.1.toList, isBlank d = false) ∧
      lowBits.satisfiedBy [("in_b", .bool true), ("in_x", .word 7 4)] = .ok true ∧
      ∃ text rows, modelText lowBits = .ok text ∧ read? text.toList = some rows ∧
        Models lowBits rows := by
  have hvalid : lowBits.validate =
      .ok [("in_b", .bool), ("in_x", .bitVec 4), ("low", .bitVec 2)] := rfl
  have hall : lowBits.inputs.all (fun input => input.1.toList.all fun d => !isBlank d) = true := by
    decide
  have hnames : ∀ input ∈ lowBits.inputs, ∀ d ∈ input.1.toList, isBlank d = false := by
    simpa using hall
  exact ⟨⟨_, hvalid⟩, hnames, rfl, modelText_correct hvalid hnames⟩

theorem modelText_equivalenceQuery {s s' : List Char} {p p' : Program} {q : Query}
    (hp : Program.load s = .ok p) (hp' : Program.load s' = .ok p')
    (hq : Program.equivalenceQuery p p' = .ok q) :
    ∃ text rows, modelText q = .ok text ∧ read? text.toList = some rows ∧ Models q rows := by
  rcases Program.equivalenceQuery_wellFormed hp hp' hq with ⟨hwellFormed, hnames⟩
  refine exists_models hwellFormed ?_
  intro input hinput d hd
  have hmarked := hnames input.1 (List.mem_append_left _ (List.mem_map_of_mem hinput))
  rcases Program.chars_of_marked hmarked d hd with hd | rfl
  · exact Text.isBlank_of_isAlphanum hd
  · decide

end Btor
end BitEquiv

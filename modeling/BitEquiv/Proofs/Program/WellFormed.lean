import BitEquiv.Proofs.Logic.Query
import BitEquiv.Proofs.Program.Reading
import BitEquiv.Proofs.Program.Translation

/-!
# Well-formed programs

Loading a text gives a program whose names are all different, whose sorts are ones that
values can have, and whose bindings are sorted over the inputs and the bindings before
them. Inputs can be declared after bindings; the bindings before them do not mind.
-/

namespace BitEquiv

open Logic

def Binding.definition (b : Binding) : Definition := ⟨b.name, b.sort, b.term⟩

namespace Program

def definitions (p : Program) : List Definition := p.bindings.map Binding.definition

structure WellFormed (p : Program) : Prop where
  distinct : Assoc.Distinct p.inputs
  valid : ∀ input ∈ p.inputs, input.2.isValid = true
  sorted : Sorted (Assoc.get? p.inputs) p.definitions
  output : ∃ b ∈ p.bindings, b.isOutput = true

/-!
## Literals within their limits
-/

theorem allLiteralsFit {args : List Expr} (h : ∀ e ∈ args, e.LiteralsFit) :
    Expr.AllLiteralsFit args := by
  induction args with
  | nil => trivial
  | cons e rest ih =>
      rcases List.forall_mem_cons.mp h with ⟨he, hrest⟩
      exact ⟨he, ih hrest⟩

/-- Literals are as wide as words can be, and their bits fit into their width. -/
inductive Expr.Canonical : Expr → Prop
  | var {x span} : Canonical (.var x span)
  | boolLit {b span} : Canonical (.boolLit b span)
  | bvLit {bits w span} (hpos : 1 ≤ w) (hmax : w ≤ maxWidth) (hbits : bits < Nat.pow 2 w) :
      Canonical (.bvLit bits w span)
  | app {op indices args span} (hargs : ∀ e ∈ args, Canonical e) :
      Canonical (.app op indices args span)

theorem Expr.Canonical.literalsFit {e : Expr} (h : e.Canonical) : e.LiteralsFit := by
  induction h with
  | var => trivial
  | boolLit => trivial
  | bvLit hpos hmax _ => exact ⟨hpos, hmax⟩
  | app _ ih => exact allLiteralsFit ih

theorem Expr.Legal.canonical {e : Expr} (he : e.Legal) (hlimits : e.beyond? = none) :
    e.Canonical := by
  induction he with
  | var _ _ _ => exact .var
  | boolLit => exact .boolLit
  | bvLit hpos hbits =>
      rw [Expr.beyond?] at hlimits
      split at hlimits
      · cases hlimits
      · exact .bvLit hpos (by omega) hbits
  | app _ ih =>
      rcases beyond?_app_eq_none_iff.mp hlimits with ⟨_, hargs⟩
      exact .app fun e he => ih e he (hargs e he)

/-!
## Declarations without faults
-/

namespace Checked

theorem fault_ne_nil {c : Checked} {f : LocatedFault} : (c.fault f).faults ≠ [] := by
  simp [fault]

/-- A declaration without a fault: its sort is valid, its name is new, and the
expression of a binding has the declared sort. -/
theorem decl_cases {c : Checked} {d : Decl} (h : (c.decl d).faults = []) :
    d.sort.value.isValid = true ∧ c.scope.get? d.name.value = none ∧ c.faults = [] ∧
      ((∃ name sort span, d = .input name sort span ∧
          c.decl d = Checked.declare { c with inputs := c.inputs ++ [(name.value, sort.value)] }
            name.value sort.value) ∨
        ∃ isOutput name sort e span t, d = .binding isOutput name sort e span ∧
          checkExpr c.scope e = .ok (t, sort.value) ∧
          c.decl d =
            Checked.declare
              { c with bindings := c.bindings ++ [⟨name.value, sort.value, t, isOutput⟩] }
              name.value sort.value) := by
  unfold decl at h ⊢
  split at h
  · exact absurd h fault_ne_nil
  · rename_i hvalid
    split at h
    · exact absurd h fault_ne_nil
    · rename_i hnew
      rw [if_neg hvalid, if_neg hnew]
      have hvalid' : d.sort.value.isValid = true := by simpa using hvalid
      have hnew' := Assoc.has_eq_false_iff.mp (Bool.eq_false_iff.mpr hnew)
      refine ⟨hvalid', hnew', ?_⟩
      cases d with
      | input name sort span => exact ⟨h, Or.inl ⟨name, sort, span, rfl, rfl⟩⟩
      | binding isOutput name sort e span =>
          simp only at h ⊢
          split at h
          · rename_i b hb
            rcases checkBinding_eq_ok.mp hb with ⟨t, he, rfl⟩
            exact ⟨h, Or.inr ⟨isOutput, name, sort, e, span, t, rfl, he, rfl⟩⟩
          · exact absurd h fault_ne_nil

theorem faults_of_foldl {c : Checked} {ds : List Decl} (h : (ds.foldl decl c).faults = []) :
    c.faults = [] := by
  induction ds generalizing c with
  | nil => exact h
  | cons d ds ih => exact (decl_cases (ih h)).2.2.1

/-- What every declaration without a fault keeps holds after all of them. -/
theorem foldl_decl {P : Checked → Prop} {ds : List Decl} {c : Checked}
    (hstep : ∀ c, ∀ d ∈ ds, P c → (c.decl d).faults = [] → P (c.decl d)) (hc : P c)
    (h : (ds.foldl decl c).faults = []) : P (ds.foldl decl c) := by
  induction ds generalizing c with
  | nil => exact hc
  | cons d ds ih =>
      refine ih ?_ ?_ h
      · intro c' d' hd'
        exact hstep c' d' (List.mem_cons_of_mem d hd')
      · exact hstep c d List.mem_cons_self hc (faults_of_foldl h)

/-- The inputs and bindings found so far are well formed, and they are what is in
scope. -/
structure Consistent (c : Checked) : Prop where
  distinct : Assoc.Distinct c.inputs
  valid : ∀ input ∈ c.inputs, input.2.isValid = true
  sorted : Sorted (Assoc.get? c.inputs) (c.bindings.map Binding.definition)
  scope : c.scope.get? = Scope.after (Assoc.get? c.inputs) (c.bindings.map Binding.definition)

theorem consistent_empty : Consistent empty where
  distinct := List.nodup_nil
  valid := by simp [empty]
  sorted := trivial
  scope := rfl

theorem Consistent.validScope {c : Checked} (hc : c.Consistent) :
    Term.ValidScope c.scope.get? := by
  rw [hc.scope]
  exact hc.sorted.validScope (validScope_of_valid hc.valid)

theorem Consistent.fresh {c : Checked} (hc : c.Consistent) {x : String}
    (hx : c.scope.get? x = none) :
    Assoc.get? c.inputs x = none ∧
      ∀ d ∈ c.bindings.map Binding.definition, d.name ≠ x := by
  rw [hc.scope] at hx
  exact (after_eq_none_iff hc.sorted).mp hx

theorem Consistent.input {c : Checked} (hc : c.Consistent) {name : String} {sort : BvSort}
    (hnew : c.scope.get? name = none) (hvalid : sort.isValid = true) :
    Consistent
      (Checked.declare { c with inputs := c.inputs ++ [(name, sort)] } name sort) := by
  rcases hc.fresh hnew with ⟨hinput, hbindings⟩
  have hget := get?_append_eq_extend hinput sort
  refine ⟨Assoc.distinct_append_singleton hc.distinct hinput, ?_, ?_, ?_⟩
  · intro input hmem
    rcases List.mem_append.mp hmem with hmem | hmem
    · exact hc.valid input hmem
    · rw [List.mem_singleton.mp hmem]
      exact hvalid
  · show Sorted (Assoc.get? (c.inputs ++ [(name, sort)])) _
    rw [hget]
    apply hc.sorted.mono (fun x s hx => subset_extend hinput hx)
    intro d hd
    exact extend_eq_none.mpr ⟨hbindings d hd, hc.sorted.fresh d hd⟩
  · show (c.scope.set name sort).get? =
      Scope.after (Assoc.get? (c.inputs ++ [(name, sort)])) (c.bindings.map Binding.definition)
    rw [get?_set_eq_extend, hc.scope, hget, after_extend hbindings]

theorem Consistent.binding {c : Checked} (hc : c.Consistent) {b : Binding}
    (hnew : c.scope.get? b.name = none) (hterm : b.term.HasSort c.scope.get? b.sort) :
    Consistent
      (Checked.declare { c with bindings := c.bindings ++ [b] } b.name b.sort) := by
  rw [hc.scope] at hnew hterm
  refine ⟨hc.distinct, hc.valid, ?_, ?_⟩
  · show Sorted (Assoc.get? c.inputs) ((c.bindings ++ [b]).map Binding.definition)
    rw [List.map_append, sorted_append]
    exact ⟨hc.sorted, hnew, hterm, trivial⟩
  · show (c.scope.set b.name b.sort).get? =
      Scope.after (Assoc.get? c.inputs) ((c.bindings ++ [b]).map Binding.definition)
    rw [get?_set_eq_extend, hc.scope, List.map_append, after_append]
    rfl

theorem Consistent.decl {c : Checked} (hc : c.Consistent) {d : Decl} (hd : d.Legal)
    (hlimits : d.beyond? = none) (h : (c.decl d).faults = []) : (c.decl d).Consistent := by
  rcases decl_cases h with ⟨hvalid, hnew, _, hcases⟩
  rcases hcases with
    ⟨name, sort, span, rfl, hstep⟩ | ⟨isOutput, name, sort, e, span, t, rfl, he, hstep⟩
  · rw [hstep]
    exact hc.input hnew hvalid
  · rw [hstep]
    cases hd with
    | binding _ helegal =>
        have hfit := (helegal.canonical (Option.or_eq_none_iff.mp hlimits).2).literalsFit
        have hterm := (checkExpr_sound hc.validScope hfit he).2
        exact hc.binding (b := ⟨name.value, sort.value, t, isOutput⟩) hnew hterm

end Checked

/-!
## Loaded programs
-/

theorem ofTree_eq_ok {t : Tree} {p : Program} (h : ofTree t = .ok p) :
    (t.decls.foldl Checked.decl .empty).faults = [] ∧
      (∃ b ∈ (t.decls.foldl Checked.decl .empty).bindings, b.isOutput = true) ∧
      p = ⟨t.name.value, (t.decls.foldl Checked.decl .empty).inputs,
        (t.decls.foldl Checked.decl .empty).bindings⟩ := by
  simp only [ofTree] at h
  split at h
  · cases h
  · rename_i hfaults
    split at h
    · rename_i houtput
      cases h
      exact ⟨by simpa using hfaults, List.any_eq_true.mp houtput, rfl⟩
    · cases h

theorem load_eq_ok {s : List Char} {p : Program} (h : load s = .ok p) :
    ∃ t, parse s = .ok t ∧ ofTree t = .ok p := by
  unfold load at h
  split at h
  · cases h
  · rename_i t hparse
    exact ⟨t, hparse, h⟩

theorem load_wellFormed {s : List Char} {p : Program} (h : load s = .ok p) : p.WellFormed := by
  rcases load_eq_ok h with ⟨t, hparse, htree⟩
  rcases parse_legal hparse with ⟨_, hdecls⟩
  rcases ofTree_eq_ok htree with ⟨hfaults, houtput, rfl⟩
  have hconsistent : (t.decls.foldl Checked.decl .empty).Consistent := by
    refine Checked.foldl_decl ?_ Checked.consistent_empty hfaults
    intro c d hd hc
    exact hc.decl (hdecls d hd).1 (hdecls d hd).2
  exact ⟨hconsistent.distinct, hconsistent.valid, hconsistent.sorted, houtput⟩

end Program
end BitEquiv

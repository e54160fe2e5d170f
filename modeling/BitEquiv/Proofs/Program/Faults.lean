import BitEquiv.Proofs.Program.Elaboration
import Mathlib.Data.List.ReduceOption

/-!
# Faults of declarations

The checker goes on after a fault, and what it reports of a declaration hangs on that
declaration and on the names and declared sorts before it. No fault is the consequence of
another one: an expression can be mended without any change to what is reported elsewhere.
-/

namespace BitEquiv
namespace Program

open Logic

def LoadError.faults : LoadError → List LocatedFault
  | .single f => [f]
  | .several fs => fs
  | .noOutputs _ => []

def Decl.header (d : Decl) : String × BvSort := (d.name.value, d.sort.value)

def Decl.isOutput : Decl → Bool
  | .input .. => false
  | .binding isOutput .. => isOutput

/-- A name enters scope with its declared sort, when the sort is valid and the name new. -/
def scopeWith (scope : Assoc BvSort) (header : String × BvSort) : Assoc BvSort :=
  if header.2.isValid && !scope.has header.1 then scope.set header.1 header.2 else scope

def scopeAfter (headers : List (String × BvSort)) : Assoc BvSort := headers.foldl scopeWith []

def Decl.fault? (scope : Assoc BvSort) (d : Decl) : Option LocatedFault :=
  if !d.sort.value.isValid then some ⟨.invalidWidth, d.sort.span⟩
  else if scope.has d.name.value then some ⟨.duplicate d.name.value, d.name.span⟩
  else
    match d with
    | .input .. => none
    | .binding isOutput name sort e _ =>
        match checkBinding scope isOutput name.value sort.value e with
        | .ok _ => none
        | .error f => some f

namespace Tree

def scopeAt (t : Tree) (i : Nat) : Assoc BvSort := scopeAfter ((t.decls.map Decl.header).take i)

/-- One place for each declaration, with its fault if it has one. -/
def slots (t : Tree) : List (Option LocatedFault) :=
  t.decls.mapIdx fun i d => d.fault? (t.scopeAt i)

def faults (t : Tree) : List LocatedFault :=
  match ofTree t with
  | .ok _ => []
  | .error e => e.faults

def replace (t : Tree) (i : Nat) (d : Decl) : Tree := { t with decls := t.decls.set i d }

end Tree

/-!
## One declaration
-/

namespace Checked

variable {c : Checked}

theorem decl_scope (d : Decl) : (c.decl d).scope = scopeWith c.scope d.header := by
  unfold decl scopeWith Decl.header
  cases hvalid : d.sort.value.isValid with
  | false => rfl
  | true =>
      cases hhas : c.scope.has d.name.value with
      | true => rfl
      | false =>
          cases d with
          | input name sort span => rfl
          | binding isOutput name sort e span =>
              simp only [Bool.not_true, Bool.false_eq_true, if_false]
              split <;> rfl

theorem decl_faults (d : Decl) :
    (c.decl d).faults = c.faults ++ (d.fault? c.scope).toList := by
  unfold decl Decl.fault?
  cases hvalid : d.sort.value.isValid with
  | false => rfl
  | true =>
      cases hhas : c.scope.has d.name.value with
      | true => rfl
      | false =>
          cases d with
          | input name sort span => exact (List.append_nil _).symm
          | binding isOutput name sort e span =>
              simp only [Bool.not_true, Bool.false_eq_true, if_false]
              cases checkBinding c.scope isOutput name.value sort.value e with
              | ok b => exact (List.append_nil _).symm
              | error f => rfl

theorem decl_output {d : Decl} (h : (c.decl d).faults = []) :
    (c.decl d).bindings.any (·.isOutput) = (c.bindings.any (·.isOutput) || d.isOutput) := by
  rcases decl_cases h with ⟨_, _, _, hcases⟩
  rcases hcases with
    ⟨name, sort, span, rfl, hstep⟩ | ⟨isOutput, name, sort, e, span, t, rfl, _, hstep⟩
  · rw [hstep]
    exact (Bool.or_false _).symm
  · rw [hstep]
    show (c.bindings ++ [_]).any _ = _
    rw [List.any_append]
    simp [Decl.isOutput]

/-!
## All declarations
-/

theorem foldl_faults (headers : List (String × BvSort)) (hscope : c.scope = scopeAfter headers)
    (ds : List Decl) :
    (ds.foldl decl c).faults = c.faults ++
      (ds.mapIdx fun i d =>
        d.fault? (scopeAfter (headers ++ (ds.map Decl.header).take i))).reduceOption := by
  induction ds generalizing c headers with
  | nil => exact (List.append_nil _).symm
  | cons d ds ih =>
      have hnext : (c.decl d).scope = scopeAfter (headers ++ [d.header]) := by
        rw [decl_scope, hscope]
        unfold scopeAfter
        rw [List.foldl_append]
        rfl
      rw [List.foldl_cons, ih (headers ++ [d.header]) hnext, decl_faults, List.mapIdx_cons, hscope]
      simp only [List.map_cons, List.take_succ_cons, List.take_zero, List.append_nil,
        List.append_assoc, List.singleton_append]
      cases d.fault? (scopeAfter headers) with
      | none => rw [List.reduceOption_cons_of_none]; rfl
      | some f => rw [List.reduceOption_cons_of_some]; rfl

theorem foldl_outputs {ds : List Decl} (h : (ds.foldl decl c).faults = []) :
    (ds.foldl decl c).bindings.any (·.isOutput) =
      (c.bindings.any (·.isOutput) || ds.any Decl.isOutput) := by
  induction ds generalizing c with
  | nil => exact (Bool.or_false _).symm
  | cons d ds ih =>
      have hfirst : (c.decl d).faults = [] := faults_of_foldl h
      rw [List.foldl_cons, ih h, decl_output hfirst, List.any_cons, Bool.or_assoc]

end Checked

@[simp] theorem faults_ofFaults {fs : List LocatedFault} : (LoadError.ofFaults fs).faults = fs := by
  unfold LoadError.ofFaults
  split <;> rfl

namespace Tree

theorem ofTree_eq (t : Tree) :
    t.faults = (t.decls.foldl Checked.decl .empty).faults ∧
      ((∃ p, ofTree t = .ok p) ↔ (t.decls.foldl Checked.decl .empty).faults = [] ∧
        (t.decls.foldl Checked.decl .empty).bindings.any (·.isOutput) = true) := by
  unfold Tree.faults ofTree
  generalize t.decls.foldl Checked.decl .empty = c
  cases hfaults : c.faults with
  | nil =>
      cases houtput : c.bindings.any (·.isOutput) with
      | false => simp [hfaults, houtput, LoadError.faults]
      | true => simp [hfaults, houtput]
  | cons f fs => simp [hfaults]

theorem faults_eq_slots (t : Tree) : t.faults = t.slots.reduceOption := by
  rw [(ofTree_eq t).1, Checked.foldl_faults [] rfl]
  rfl

theorem getElem?_slots (t : Tree) (i : Nat) :
    t.slots[i]? = t.decls[i]?.map (Decl.fault? (t.scopeAt i)) := by
  unfold slots
  rw [List.getElem?_mapIdx]

section Replacement

variable {t : Tree} {i : Nat} {d d' : Decl} (h : t.decls[i]? = some d)
  (hheader : d'.header = d.header)

include h hheader

/-- Declarations with the same header are the same to all others. -/
theorem scopeAt_replace (j : Nat) : (t.replace i d').scopeAt j = t.scopeAt j := by
  rcases List.getElem?_eq_some_iff.mp h with ⟨hi, hd⟩
  have hheaders : (t.decls.set i d').map Decl.header = t.decls.map Decl.header := by
    have hlength : i < (t.decls.map Decl.header).length := by simpa using hi
    have hsame : (t.decls.map Decl.header)[i] = d.header := by
      rw [List.getElem_map, hd]
    rw [List.map_set, hheader, ← hsame, List.set_getElem_self]
  unfold scopeAt
  rw [← hheaders]
  rfl

theorem slots_replace (hfault : d'.fault? (t.scopeAt i) = none) :
    (t.replace i d').slots = t.slots.set i none := by
  rcases List.getElem?_eq_some_iff.mp h with ⟨hi, _⟩
  apply List.ext_getElem?
  intro j
  have hlength : t.slots.length = t.decls.length := List.length_mapIdx
  rw [getElem?_slots, scopeAt_replace h hheader, List.getElem?_set, hlength, if_pos hi]
  show Option.map _ ((t.decls.set i d')[j]?) = _
  rw [List.getElem?_set, if_pos hi]
  split
  · rename_i hij
    rw [← hij, Option.map_some, hfault]
  · exact (getElem?_slots t j).symm

end Replacement

theorem exists_program_iff (t : Tree) :
    (∃ p, ofTree t = .ok p) ↔ t.faults = [] ∧ ∃ d ∈ t.decls, d.isOutput = true := by
  rw [(ofTree_eq t).2, (ofTree_eq t).1]
  apply and_congr_right
  intro hfaults
  rw [Checked.foldl_outputs hfaults, ← List.any_eq_true]
  rfl

end Tree

theorem fault?_of_checkExpr {scope : Assoc BvSort} {isOutput : Bool} {name : Located String}
    {sort : Located BvSort} {e : Expr} {span : Span} {u : Term}
    (hvalid : sort.value.isValid = true) (hnew : scope.has name.value = false)
    (he : checkExpr scope e = .ok (u, sort.value)) :
    (Decl.binding isOutput name sort e span).fault? scope = none := by
  have hbinding : checkBinding scope isOutput name.value sort.value e =
      .ok ⟨name.value, sort.value, u, isOutput⟩ :=
    checkBinding_eq_ok.mpr ⟨u, he, rfl⟩
  simp [Decl.fault?, Decl.sort, Decl.name, hvalid, hnew, hbinding]

/-- The faults of a tree are those of its declarations, in order and one for each at most,
where the fault of a declaration is found from the declaration and the headers before it. An
expression of the declared sort in place of another one takes away the fault of its
declaration and leaves all others; the sort is what the checker says, or that of the term to
which the expression elaborates. A tree is a program when there is no fault and some
declaration is an output. -/
theorem faults_of_declarations (t : Tree) :
    t.faults = t.slots.reduceOption ∧
      (∀ (u : Tree) (i : Nat), t.decls[i]? = u.decls[i]? →
        (t.decls.map Decl.header).take i = (u.decls.map Decl.header).take i →
          t.slots[i]? = u.slots[i]?) ∧
      (∀ i isOutput name sort e span, t.decls[i]? = some (.binding isOutput name sort e span) →
        sort.value.isValid = true → (t.scopeAt i).has name.value = false →
        ∀ e' span' a,
          checkExpr (t.scopeAt i) e' = .ok (a, sort.value) ∨
            (Elaborates e' a ∧ a.sortOf (t.scopeAt i).get? = .ok sort.value) →
          (t.replace i (.binding isOutput name sort e' span')).faults =
            (t.slots.set i none).reduceOption) ∧
      ((∃ p, ofTree t = .ok p) ↔ t.faults = [] ∧ ∃ d ∈ t.decls, d.isOutput = true) := by
  refine ⟨t.faults_eq_slots, ?_, ?_, t.exists_program_iff⟩
  · intro u i hdecl hheaders
    have hscope : t.scopeAt i = u.scopeAt i := congrArg scopeAfter hheaders
    rw [Tree.getElem?_slots, Tree.getElem?_slots, hdecl, hscope]
  · intro i isOutput name sort e span hdecl hvalid hnew e' span' a hsorted
    have he' : checkExpr (t.scopeAt i) e' = .ok (a, sort.value) := by
      rcases hsorted with h | ⟨helaborates, hsort⟩
      · exact h
      · exact checkExpr_of_elaborates helaborates hsort
    have hheader : (Decl.binding isOutput name sort e' span').header =
        (Decl.binding isOutput name sort e span).header := rfl
    have hfault : (Decl.binding isOutput name sort e' span').fault? (t.scopeAt i) = none :=
      fault?_of_checkExpr hvalid hnew he'
    rw [Tree.faults_eq_slots, Tree.slots_replace hdecl hheader hfault]

/-- An ill-sorted binding, a use of a name that is not known beside a use of that binding, and
a name that is taken. -/
def faultyTree : Tree :=
  ⟨⟨"p", nowhere⟩,
    [.input ⟨"x", nowhere⟩ ⟨.bitVec 8, nowhere⟩ nowhere,
      .binding false ⟨"a", nowhere⟩ ⟨.bool, nowhere⟩ (.var "x" nowhere) nowhere,
      .binding true ⟨"b", nowhere⟩ ⟨.bool, nowhere⟩
        (.app ⟨"and", nowhere⟩ [] [.var "a" nowhere, .var "y" nowhere] nowhere) nowhere,
      .input ⟨"x", nowhere⟩ ⟨.bool, nowhere⟩ nowhere]⟩

/-- An expression that compares the input with itself mends the first fault. -/
theorem faults_of_declarations_faulty :
    faultyTree.faults =
        [⟨.declaredSort "a" .bool (.bitVec 8), nowhere⟩, ⟨.unknownName "y", nowhere⟩,
          ⟨.duplicate "x", nowhere⟩] ∧
      (faultyTree.replace 1 (.binding false ⟨"a", nowhere⟩ ⟨.bool, nowhere⟩
          (.app ⟨"=", nowhere⟩ [] [.var "x" nowhere, .var "x" nowhere] nowhere) nowhere)).faults =
        [⟨.unknownName "y", nowhere⟩, ⟨.duplicate "x", nowhere⟩] := by
  rcases faults_of_declarations faultyTree with ⟨hfaults, _, hreplace, _⟩
  have helaborates : Elaborates
      (.app ⟨"=", nowhere⟩ [] [.var "x" nowhere, .var "x" nowhere] nowhere)
      (.eq (.var "x") (.var "x")) :=
    .app rfl rfl rfl (Or.inr (List.forall_mem_nil _)) (.cons .var (.cons .var .nil)) rfl
  constructor
  · rw [hfaults]
    rfl
  · rw [hreplace 1 _ _ _ _ _ rfl rfl rfl _ _ _ (Or.inr ⟨helaborates, rfl⟩)]
    rfl

end Program
end BitEquiv

import BitEquiv.Proofs.Logic.Validation
import BitEquiv.Proofs.Program.Printing
import BitEquiv.Proofs.Program.WellFormed

/-!
# Two sort checkers

Expressions are checked while they are turned into terms, and queries check the terms of
their definitions. What an expression is turned into does not hang on sorts, so the two
checks can be compared: an expression is accepted exactly when the term it elaborates to
has a sort, and a declaration exactly when a query accepts it as a definition.
-/

namespace BitEquiv
namespace Logic
namespace Query

/-- One more definition is accepted when its name is new and its term has the declared sort. -/
theorem wellFormed_define {q : Query} (hq : q.WellFormed) {name : String} {sort : BvSort}
    {t : Term} :
    (q.define name sort t).WellFormed ↔ q.scope name = none ∧ t.HasSort q.scope sort := by
  constructor
  · intro h
    have hsorted := sorted_append.mp h.sorted
    rcases hsorted with ⟨_, hnew, ht, _⟩
    exact ⟨hnew, ht⟩
  · intro h
    rcases h with ⟨hnew, ht⟩
    have hscope : (q.define name sort t).scope = q.scope.extend name sort := by
      show Scope.after _ (q.definitions ++ [⟨name, sort, t⟩]) = _
      rw [after_append]
      rfl
    constructor
    case valid => exact hq.valid
    case distinct => exact hq.distinct
    case sorted => exact sorted_append.mpr ⟨hq.sorted, hnew, ht, trivial⟩
    case assertions =>
      intro a ha
      rw [hscope]
      apply (hq.assertions a ha).mono
      intro x s hx
      exact subset_extend hnew hx

end Query
end Logic

namespace Program

open Logic Logic.Term

/-!
## What an expression is turned into
-/

def indexLimit : Nat := Nat.pow 2 32

/-- The parts of an expression make up the term: operators are known and have the numbers
of indices and operands that their table gives, and indices that go into the term are
representable there. A literal with its width as an index has to fit. -/
inductive Elaborates : Expr → Term → Prop
  | var {x span} : Elaborates (.var x span) (.var x)
  | boolLit {b span} : Elaborates (.boolLit b span) (.boolLit b)
  | bvLit {bits w span fits} : Elaborates (.bvLit bits w span) (.bvLit bits w fits)
  | app {name indices args span op ts t} (hop : Operator.ofName? name.value = some op)
      (hcount : indices.length = op.indexCount) (harity : op.arity.accepts args.length = true)
      (hindices : op = .const ∨ ∀ n ∈ indices, n.value < indexLimit)
      (hargs : List.Forall₂ Elaborates args ts)
      (hterm : op.build? (indices.map (·.value)) ts = some t) :
      Elaborates (.app name indices args span) t

section Elaboration

variable {scope : Scope}

/-- Indices of a well-sorted term are far below the limit: extracted bits lie within a word,
and extended words are no wider than words can be. -/
theorem indices_lt_of_build? (hscope : ValidScope scope) {op : Operator} {indices : List Nat}
    {ts : List Term} {t : Term} {s : BvSort} (h : op.build? indices ts = some t)
    (ht : HasSort scope t s) : op = .const ∨ ∀ n ∈ indices, n < indexLimit := by
  have hlimit : maxWidth < indexLimit := by decide
  have hwidth : ∀ {a w}, HasSort scope a (.bitVec w) → w ≤ maxWidth := by
    intro a w ha
    exact (isValid_bitVec.mp (ha.isValid hscope)).2
  unfold Operator.build? at h
  split at h
  case h_1 => exact Or.inl rfl
  case h_14 =>
    cases h
    cases ht with
    | extract ha hlo hhi =>
        have hw := hwidth ha
        simp only [List.mem_cons, List.not_mem_nil, or_false, forall_eq_or_imp, forall_eq]
        omega
  case h_15 =>
    cases h
    cases ht with
    | zeroExtend ha _ hmax =>
        simp only [List.mem_cons, List.not_mem_nil, or_false, forall_eq]
        omega
  case h_16 =>
    cases h
    cases ht with
    | signExtend ha _ hmax =>
        simp only [List.mem_cons, List.not_mem_nil, or_false, forall_eq]
        omega
  case h_17 => cases h
  all_goals simp

mutual

theorem elaborates_of_term? (hscope : ValidScope scope) :
    ∀ {e : Expr} {t : Term} {s : BvSort}, e.Canonical → e.term? = some t → HasSort scope t s →
      Elaborates e t
  | .var x span, t, s, _, hterm, _ => by
      cases hterm
      exact .var
  | .boolLit b span, t, s, _, hterm, _ => by
      cases hterm
      exact .boolLit
  | .bvLit bits w span, t, s, he, hterm, _ => by
      cases hterm
      cases he with
      | bvLit _ hmax hbits =>
          rw [Term.ofBits_of_lt (Nat.lt_of_lt_of_eq hbits (Word.modulus_of_le hmax).symm)]
          exact .bvLit
  | .app name indices args span, t, s, he, hterm, ht => by
      unfold Expr.term? at hterm
      split at hterm
      · rename_i op ts hop hterms
        rcases counts_of_build? hterm with ⟨hcount, harity⟩
        rw [List.length_map] at hcount
        rw [length_of_terms? hterms] at harity
        have hindices := indices_lt_of_build? hscope hterm ht
        rw [List.forall_mem_map] at hindices
        cases he with
        | app hcanonical =>
            have hargs := elaboratesAll_of_terms? hscope hcanonical hterms
              (operands_sorted_of_build? hterm ht)
            exact .app hop hcount harity hindices hargs hterm
      · cases hterm

theorem elaboratesAll_of_terms? (hscope : ValidScope scope) :
    ∀ {es : List Expr} {ts : List Term}, (∀ e ∈ es, e.Canonical) → Expr.terms? es = some ts →
      (∀ t ∈ ts, ∃ s, HasSort scope t s) → List.Forall₂ Elaborates es ts
  | [], ts, _, hterms, _ => by
      cases hterms
      exact .nil
  | e :: rest, ts, hcanonical, hterms, hsorted => by
      unfold Expr.terms? at hterms
      split at hterms
      · rename_i t ts' hterm hrest
        cases hterms
        rcases List.forall_mem_cons.mp hcanonical with ⟨he, hes⟩
        rcases List.forall_mem_cons.mp hsorted with ⟨⟨s, ht⟩, hsorts⟩
        exact .cons (elaborates_of_term? hscope he hterm ht)
          (elaboratesAll_of_terms? hscope hes hrest hsorts)
      · cases hterms

end

mutual

theorem term?_of_elaborates :
    ∀ {e : Expr} {t : Term}, Elaborates e t → e.term? = some t
  | .var x span, t, h => by
      cases h
      rfl
  | .boolLit b span, t, h => by
      cases h
      rfl
  | .bvLit bits w span, t, h => by
      cases h with
      | bvLit => rw [Expr.term?, Term.ofBits_of_lt]
  | .app name indices args span, t, h => by
      cases h with
      | app hop _ _ _ hargs hterm =>
          rw [Expr.term?, hop, terms?_of_elaborates hargs]
          exact hterm

theorem terms?_of_elaborates :
    ∀ {es : List Expr} {ts : List Term}, List.Forall₂ Elaborates es ts →
      Expr.terms? es = some ts
  | [], ts, h => by
      cases h
      rfl
  | e :: rest, ts, h => by
      cases h with
      | cons hfirst hrest =>
          rw [Expr.terms?, term?_of_elaborates hfirst, terms?_of_elaborates hrest]

end

/-- An expression that elaborates to a term of some sort is one that stands for it. -/
theorem elaborates_iff (hscope : ValidScope scope) {e : Expr} (he : e.Canonical) {t : Term}
    {s : BvSort} : Elaborates e t ∧ HasSort scope t s ↔ e.term? = some t ∧ HasSort scope t s := by
  constructor
  · intro h
    exact ⟨term?_of_elaborates h.1, h.2⟩
  · intro h
    exact ⟨elaborates_of_term? hscope he h.1 h.2, h.2⟩

end Elaboration

theorem checkExpr_of_elaborates {scope : Assoc BvSort} {e : Expr} {t : Term} {s : BvSort}
    (he : Elaborates e t) (ht : t.sortOf scope.get? = .ok s) :
    checkExpr scope e = .ok (t, s) :=
  checkExpr_complete (term?_of_elaborates he) (hasSort_of_sortOf ht)

/-!
## Checks on expressions and on terms
-/

/-- Over valid sorts, the checker of expressions finds a term and a sort exactly when the
expression elaborates to that term and the checker of terms finds that sort. Over the names
of a query, a new declaration is accepted exactly when the query with its elaborated term as
a definition is. -/
theorem checkExpr_agrees {scope : Assoc BvSort} (hscope : ValidScope scope.get?) {e : Expr}
    (he : e.Canonical) :
    (∀ t s, checkExpr scope e = .ok (t, s) ↔ Elaborates e t ∧ t.sortOf scope.get? = .ok s) ∧
      ∀ q : Query, q.validate = .ok scope →
        ∀ isOutput name declared b, scope.has name = false →
          (checkBinding scope isOutput name declared e = .ok b ↔
            ∃ t known, b = ⟨name, declared, t, isOutput⟩ ∧ Elaborates e t ∧
              (q.define name declared t).validate = .ok known) := by
  have hcheck : ∀ t s,
      checkExpr scope e = .ok (t, s) ↔ Elaborates e t ∧ HasSort scope.get? t s := by
    intro t s
    rw [checkExpr_eq_ok_iff hscope he.literalsFit, elaborates_iff hscope he]
  constructor
  · intro t s
    rw [hcheck, sortOf_eq_ok_iff]
  · intro q hq isOutput name declared b hnew
    have hnames : scope.get? = q.scope := Query.get?_of_validate hq
    rw [Assoc.has_eq_false_iff, hnames] at hnew
    have hdefine : ∀ t, (∃ known, (q.define name declared t).validate = .ok known) ↔
        HasSort scope.get? t declared := by
      intro t
      rw [Query.validate_eq_ok_iff, Query.wellFormed_define (Query.wellFormed_of_validate hq),
        hnames]
      exact and_iff_right hnew
    rw [checkBinding_eq_ok]
    constructor
    · intro h
      rcases h with ⟨t, ht, hb⟩
      rcases (hcheck t declared).mp ht with ⟨helaborates, hsort⟩
      rcases (hdefine t).mpr hsort with ⟨known, hknown⟩
      exact ⟨t, known, hb, helaborates, hknown⟩
    · intro h
      rcases h with ⟨t, known, hb, helaborates, hknown⟩
      have hsort := (hdefine t).mp ⟨known, hknown⟩
      exact ⟨t, (hcheck t declared).mpr ⟨helaborates, hsort⟩, hb⟩

def paddedByte : Expr :=
  .app ⟨"concat", nowhere⟩ []
    [.app ⟨"zext", nowhere⟩ [⟨4, nowhere⟩] [.var "x" nowhere] nowhere,
      .app ⟨"bv", nowhere⟩ [⟨5, nowhere⟩, ⟨4, nowhere⟩] [] nowhere]
    nowhere

def paddedTerm : Term := .concat (.zeroExtend 4 (.var "x")) (.bvLit 5 4)

def byteQuery : Query := ⟨[("x", .bitVec 8)], [], []⟩

theorem checkExpr_agrees_padded :
    Elaborates paddedByte paddedTerm ∧
      paddedTerm.sortOf (Assoc.get? [("x", .bitVec 8)]) = .ok (.bitVec 16) ∧
      ∃ known, (byteQuery.define "y" (.bitVec 16) paddedTerm).validate = .ok known := by
  have hscope : ValidScope (Assoc.get? [("x", .bitVec 8)]) := validScope_of_valid (by decide)
  have hcanonical : paddedByte.Canonical := by
    apply Expr.Canonical.app
    simp only [List.forall_mem_cons, List.not_mem_nil, false_implies, implies_true, and_true]
    constructor
    · exact .app (List.forall_mem_singleton.mpr .var)
    · exact .app (List.forall_mem_nil _)
  have hcheck : checkExpr [("x", .bitVec 8)] paddedByte = .ok (paddedTerm, .bitVec 16) := rfl
  have hbinding : checkBinding [("x", .bitVec 8)] true "y" (.bitVec 16) paddedByte =
      .ok ⟨"y", .bitVec 16, paddedTerm, true⟩ := rfl
  rcases checkExpr_agrees hscope hcanonical with ⟨hsorts, hqueries⟩
  rcases (hsorts _ _).mp hcheck with ⟨helaborates, hsort⟩
  rcases (hqueries byteQuery rfl _ _ _ _ rfl).mp hbinding with ⟨t, known, hb, _, hknown⟩
  cases hb
  exact ⟨helaborates, hsort, known, hknown⟩

end Program
end BitEquiv

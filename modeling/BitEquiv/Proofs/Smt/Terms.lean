import BitEquiv.Proofs.Logic.Arithmetic
import BitEquiv.Proofs.Logic.Collapse
import BitEquiv.Proofs.Smt.Expressions
import BitEquiv.Proofs.Smt.Reading
import BitEquiv.Proofs.Text.Numeral
import BitEquiv.Smt.Script

/-!
# Printed terms are read again

The text of a well-sorted term is that of an expression, which stands for the term up to
connectives of fewer than two operands. The induction is on the sort rules: they bound the
widths of literals, whose digits are counted on reading.
-/

namespace BitEquiv
namespace Smt

open Logic
open SExpr (Plain AllPlain Bare)

/-!
## Texts of expressions
-/

/-- The text is that of an expression that stands for the term. -/
def Reads (s : String) (t : Term) : Prop :=
  ∃ e, Plain e ∧ e.text = s ∧ term? e = some t

def ReadsAll (parts : List String) (ts : List Term) : Prop :=
  ∃ es, AllPlain es ∧ SExpr.texts es = parts ∧ terms? es = some ts

def Operates (s : String) (name : String) (indices : List Nat) : Prop :=
  ∃ e, Plain e ∧ e.text = s ∧ operation? e = some (name, indices)

theorem readsAll_nil : ReadsAll [] [] := ⟨[], trivial, rfl, rfl⟩

theorem readsAll_cons {s : String} {t : Term} {parts : List String} {ts : List Term}
    (h : Reads s t) (hs : ReadsAll parts ts) : ReadsAll (s :: parts) (t :: ts) := by
  rcases h with ⟨e, he, htext, hterm⟩
  rcases hs with ⟨es, hes, htexts, hterms⟩
  refine ⟨e :: es, ⟨he, hes⟩, ?_, ?_⟩
  · rw [SExpr.texts, htext, htexts]
  · simp [terms?, hterm, hterms]

theorem readsAll_pair {s s' : String} {t t' : Term} (h : Reads s t) (h' : Reads s' t') :
    ReadsAll [s, s'] [t, t'] :=
  readsAll_cons h (readsAll_cons h' readsAll_nil)

theorem text_list (items : List SExpr) : (SExpr.list items).text = form (SExpr.texts items) := by
  rw [SExpr.text, form]

theorem reads_form {s name : String} {indices : List Nat} {parts : List String} {ts : List Term}
    {t : Term} (hs : Operates s name indices) (hparts : ReadsAll parts ts)
    (ht : application? name indices ts = some t) : Reads (form (s :: parts)) t := by
  rcases hs with ⟨e, he, htext, hoperation⟩
  rcases hparts with ⟨es, hes, htexts, hterms⟩
  refine ⟨.list (e :: es), ⟨he, hes⟩, ?_, ?_⟩
  · rw [text_list, SExpr.texts, htext, htexts]
  · simp [term?, hoperation, hterms, ht]

theorem operates_name {name : String} (hbare : Bare name) (hsymbol : isSymbol name = true) :
    Operates name name [] :=
  ⟨.atom name, hbare, rfl, by simp [operation?, hsymbol]⟩

/-!
## Numerals and literals
-/

theorem isDelimiter_digitChar {d : Nat} (h : d < 16) :
    SExpr.isDelimiter d.digitChar = false := by
  revert d
  decide

theorem bare_decimal (n : Nat) : Bare (Text.decimal n) := by
  unfold Text.decimal Bare
  rw [String.toList_ofList]
  refine ⟨Nat.toDigits_ne_nil, ?_⟩
  intro c hc
  rcases Text.exists_of_mem_toDigits (by decide) hc with ⟨d, hd, rfl⟩
  exact isDelimiter_digitChar (by omega)

@[simp] theorem numeral?_decimal (n : Nat) : numeral? (Text.decimal n) = some n :=
  Text.natural?_decimal n

theorem bare_underscore : Bare "_" := by decide

theorem operates_index {name : String} (hbare : Bare name) (n : Nat) :
    Operates (form ["_", name, Text.decimal n]) name [n] := by
  refine ⟨.list [.atom "_", .atom name, .atom (Text.decimal n)], ?_, text_list _, ?_⟩
  · exact ⟨bare_underscore, hbare, bare_decimal n, trivial⟩
  · simp [operation?, indices?]

theorem operates_indices {name : String} (hbare : Bare name) (m n : Nat) :
    Operates (form ["_", name, Text.decimal m, Text.decimal n]) name [m, n] := by
  refine ⟨.list [.atom "_", .atom name, .atom (Text.decimal m), .atom (Text.decimal n)], ?_,
    text_list _, ?_⟩
  · exact ⟨bare_underscore, hbare, bare_decimal m, bare_decimal n, trivial⟩
  · simp [operation?, indices?]

/-- An atom that opens with a hash and goes on in digits. -/
theorem reads_literal {a : String} {c : Char} {base : Nat} {digits : List Char} {t : Term}
    (hbase : base ≤ 16) (ha : a.toList = '#' :: c :: digits) (hc : SExpr.isDelimiter c = false)
    (hdigits : ∀ d ∈ digits, ∃ n, n < base ∧ d = n.digitChar) (ht : literal? a = some t) :
    Reads a t := by
  refine ⟨.atom a, ⟨?_, ?_⟩, rfl, ?_⟩
  · rw [ha]
    simp
  · rw [ha]
    refine List.forall_mem_cons.mpr ⟨by decide, List.forall_mem_cons.mpr ⟨hc, ?_⟩⟩
    intro d hd
    rcases hdigits d hd with ⟨n, hn, rfl⟩
    exact isDelimiter_digitChar (by omega)
  · have htrue : a ≠ "true" := by
      rintro rfl
      cases ha
    have hfalse : a ≠ "false" := by
      rintro rfl
      cases ha
    have hsymbol : isSymbol a = false := by
      unfold isSymbol
      rw [ha]
      rfl
    simp [term?, atomTerm?, htrue, hfalse, hsymbol, ht]

theorem reads_wordLiteral {bits w : Nat} (hpos : 1 ≤ w) (hmax : w ≤ maxWidth)
    (hfits : bits < Word.modulus w) : Reads (wordLiteral bits w) (.bvLit bits w hfits) := by
  have hlt : bits < Nat.pow 2 w := Nat.lt_of_lt_of_eq hfits (Word.modulus_of_le hmax)
  unfold wordLiteral
  split
  · rename_i hfour
    have hwidth : 4 * (w / 4) = w := by omega
    have hlt16 : bits < Nat.pow 16 (w / 4) := by
      calc bits
          < Nat.pow 2 w := hlt
        _ = Nat.pow 2 (4 * (w / 4)) := congrArg (Nat.pow 2) hwidth.symm
        _ = Nat.pow 16 (w / 4) := Nat.pow_mul 2 4 (w / 4)
    have htext : ("#x" ++ String.ofList (Text.padded 16 (w / 4) bits)).toList =
        '#' :: 'x' :: Text.padded 16 (w / 4) bits := by
      simp
    refine reads_literal (Nat.le_refl 16) htext (by decide) ?_ ?_
    · intro d hd
      exact Text.exists_of_mem_padded (by decide) hd
    · have hlength : (Text.padded 16 (w / 4) bits).length = w / 4 :=
        Text.length_padded (by decide) (by omega) hlt16
      have hne : (Text.padded 16 (w / 4) bits).isEmpty = false := by
        simpa using Text.padded_ne_nil (w / 4) bits
      unfold literal?
      rw [htext]
      simp [hne, hlength, hwidth, Text.ofDigits_padded, word?, hfits]
  · have htext : ("#b" ++ String.ofList (Text.padded 2 w bits)).toList =
        '#' :: 'b' :: Text.padded 2 w bits := by
      simp
    refine reads_literal (Nat.le_add_left 2 14) htext (by decide) ?_ ?_
    · intro d hd
      exact Text.exists_of_mem_padded (by decide) hd
    · have hlength : (Text.padded 2 w bits).length = w :=
        Text.length_padded (by decide) (by omega) hlt
      have hne : (Text.padded 2 w bits).isEmpty = false := by
        simpa using Text.padded_ne_nil w bits
      unfold literal?
      rw [htext]
      simp [hne, hlength, Text.ofDigits_padded, word?, hfits]

/-!
## Names
-/

/-- A name that is printed as it is and read as a variable. -/
structure Readable (x : String) : Prop where
  simple : isSimple x.toList = true
  bare : Bare x
  symbol : isSymbol x = true
  ne_true : x ≠ "true"
  ne_false : x ≠ "false"

theorem symbol_of_readable {x : String} (h : Readable x) : symbol x = x := by
  unfold symbol
  rw [if_pos h.simple]

theorem reads_symbol {x : String} (h : Readable x) : Reads (symbol x) (.var x) := by
  rw [symbol_of_readable h]
  refine ⟨.atom x, h.bare, rfl, ?_⟩
  simp [term?, atomTerm?, h.symbol, h.ne_true, h.ne_false]

/-!
## Terms
-/

theorem reads_boolLit (b : Bool) : Reads (termText (.boolLit b)) (.boolLit b) := by
  have hfalse : Bare "false" := by decide
  have htrue : Bare "true" := by decide
  cases b with
  | false => exact ⟨.atom "false", hfalse, rfl, rfl⟩
  | true => exact ⟨.atom "true", htrue, rfl, rfl⟩

theorem readsAll_termTexts {ts : List Term} (h : ∀ t ∈ ts, Reads (termText t) t.collapse) :
    ReadsAll (termTexts ts) (Term.collapseAll ts) := by
  induction ts with
  | nil => exact readsAll_nil
  | cons t ts ih =>
      rcases List.forall_mem_cons.mp h with ⟨ht, hts⟩
      exact readsAll_cons ht (ih hts)

theorem reads_connective {op : String} (unit : Bool) {make : List Term → Term} {ts : List Term}
    (hbare : Bare op) (hsymbol : isSymbol op = true)
    (hmake : ∀ a b more, application? op [] (a :: b :: more) = some (make (a :: b :: more)))
    (h : ∀ t ∈ ts, Reads (termText t) t.collapse) :
    Reads (connective op (termText (.boolLit unit)) (termTexts ts))
      (Term.joined make unit (Term.collapseAll ts)) := by
  cases ts with
  | nil => exact reads_boolLit unit
  | cons a as =>
      cases as with
      | nil => exact h a List.mem_cons_self
      | cons b bs =>
          exact reads_form (operates_name hbare hsymbol) (readsAll_termTexts h)
            (hmake a.collapse b.collapse (Term.collapseAll bs))

/-- The text of a well-sorted term with readable names is read as the term up to
connectives of fewer than two operands. -/
theorem reads_termText {scope : Scope} (hnames : ∀ x s, scope x = some s → Readable x)
    {t : Term} {s : BvSort} (h : t.HasSort scope s) :
    Reads (termText t) t.collapse := by
  induction h with
  | var hx => exact reads_symbol (hnames _ _ hx)
  | boolLit => exact reads_boolLit _
  | bvLit hpos hmax => exact reads_wordLiteral hpos hmax _
  | not _ iha =>
      exact reads_form (operates_name (by decide) (by decide))
        (readsAll_cons iha readsAll_nil) rfl
  | and _ ihas =>
      exact reads_connective true (by decide) (by decide) (fun _ _ _ => rfl) ihas
  | or _ ihas =>
      exact reads_connective false (by decide) (by decide) (fun _ _ _ => rfl) ihas
  | xor _ _ iha ihb =>
      exact reads_form (operates_name (by decide) (by decide))
        (readsAll_pair iha ihb) rfl
  | implies _ _ iha ihb =>
      exact reads_form (operates_name (by decide) (by decide))
        (readsAll_pair iha ihb) rfl
  | eq _ _ iha ihb =>
      exact reads_form (operates_name (by decide) (by decide))
        (readsAll_pair iha ihb) rfl
  | distinct _ _ iha ihb =>
      exact reads_form (operates_name (by decide) (by decide))
        (readsAll_pair iha ihb) rfl
  | ite _ _ _ ihc iha ihb =>
      exact reads_form (operates_name (by decide) (by decide))
        (readsAll_cons ihc (readsAll_pair iha ihb)) rfl
  | @unary op a w _ iha =>
      refine reads_form (operates_name ?_ ?_) (readsAll_cons iha readsAll_nil) ?_
      · cases op <;> decide
      · cases op <;> decide
      · cases op <;> rfl
  | @binary op a b w _ _ iha ihb =>
      refine reads_form (operates_name ?_ ?_) (readsAll_pair iha ihb) ?_
      · cases op <;> decide
      · cases op <;> decide
      · cases op <;> rfl
  | @compare op a b w _ _ iha ihb =>
      refine reads_form (operates_name ?_ ?_) (readsAll_pair iha ihb) ?_
      · cases op <;> decide
      · cases op <;> decide
      · cases op <;> rfl
  | extract _ _ _ iha =>
      exact reads_form (operates_indices (by decide) _ _)
        (readsAll_cons iha readsAll_nil) rfl
  | concat _ _ _ _ iha ihb =>
      exact reads_form (operates_name (by decide) (by decide))
        (readsAll_pair iha ihb) rfl
  | zeroExtend _ _ _ iha =>
      exact reads_form (operates_index (by decide) _)
        (readsAll_cons iha readsAll_nil) rfl
  | signExtend _ _ _ iha =>
      exact reads_form (operates_index (by decide) _)
        (readsAll_cons iha readsAll_nil) rfl

end Smt
end BitEquiv

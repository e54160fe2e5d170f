import BitEquiv.Program.Printer
import BitEquiv.Proofs.Logic.Arithmetic
import BitEquiv.Proofs.Program.Layouts
import BitEquiv.Proofs.Program.Translation

/-!
# Printed terms

A term that came from an expression is printed as a text that is read as an expression
for the same term. The parts of the text are laid out with single blanks, so that the
statement goes from the parts of a term to the term.
-/

namespace BitEquiv
namespace Program

open Logic

/-!
## Terms that can be written
-/

/-- The terms of expressions: variables are words that are no literals, literals have a valid
width, and indices are within their limit. -/
inductive Writable : Term → Prop
  | var {x} (hx : Identifier x.toList) (htrue : x ≠ "true") (hfalse : x ≠ "false") :
      Writable (.var x)
  | boolLit {b} : Writable (.boolLit b)
  | bvLit {bits w fits} (hpos : 1 ≤ w) (hmax : w ≤ maxWidth) : Writable (.bvLit bits w fits)
  | app {op : Operator} {indices args t} (hop : op ≠ .const)
      (hbuild : op.build? indices args = some t) (hindices : ∀ i ∈ indices, i ≤ maxIndex)
      (hargs : ∀ a ∈ args, Writable a) : Writable t

theorem writable_ofBits {bits w : Nat} (hpos : 1 ≤ w) (hmax : w ≤ maxWidth) :
    Writable (.ofBits bits w) :=
  .bvLit hpos hmax

theorem terms?_eq_some_iff {es : List Expr} {ts : List Term} :
    Expr.terms? es = some ts ↔ List.Forall₂ (fun e t => e.term? = some t) es ts := by
  induction es generalizing ts with
  | nil =>
      rw [List.forall₂_nil_left_iff, Expr.terms?]
      exact ⟨fun h => (Option.some.inj h).symm, fun h => congrArg some h.symm⟩
  | cons e es ih =>
      unfold Expr.terms?
      constructor
      · intro h
        split at h
        · rename_i t ts' hterm hterms
          cases h
          exact .cons hterm (ih.mp hterms)
        · cases h
      · intro h
        cases h with
        | cons hterm hterms => rw [hterm, ih.mpr hterms]

theorem writable_of_const {indices : List Nat} {args : List Term} {t : Term}
    (h : Operator.const.build? indices args = some t) : Writable t := by
  unfold Operator.build? at h
  split at h
  case h_1 =>
    split at h
    · rename_i hrange
      cases h
      exact writable_ofBits hrange.1 hrange.2.1
    · cases h
  all_goals contradiction

theorem writable_of_term? {e : Expr} (he : e.Legal) (hlimits : e.beyond? = none) {t : Term}
    (h : e.term? = some t) : Writable t := by
  induction he generalizing t with
  | var hx htrue hfalse =>
      cases h
      exact .var hx htrue hfalse
  | boolLit =>
      cases h
      exact .boolLit
  | bvLit hpos _ =>
      rw [Expr.beyond?] at hlimits
      split at hlimits
      · cases hlimits
      · cases h
        exact writable_ofBits hpos (by omega)
  | @app name indices args span _ ih =>
      rcases beyond?_app_eq_none_iff.mp hlimits with ⟨hindices, hargs⟩
      unfold Expr.term? at h
      split at h
      · rename_i op ts _ hterms
        by_cases hop : op = .const
        · subst hop
          exact writable_of_const h
        · refine .app hop h ?_ ?_
          · intro i hi
            rcases List.mem_map.mp hi with ⟨n, hn, rfl⟩
            exact hindices n hn
          · intro a ha
            rcases exists_of_forall₂ (terms?_eq_some_iff.mp hterms) ha with ⟨e, he, hterm⟩
            exact ih e he (hargs e he) hterm
      · cases h

/-!
## Spelling of applications
-/

open Token (Spells Breaks)

theorem spells_space {ls ls' : List Lexeme} {s s' : List Char} (h : Spells ls s)
    (h' : Spells ls' s') : Spells (ls ++ ls') (s ++ ' ' :: s') :=
  Token.spells_blank rfl (by decide) h h'

theorem spells_intercalate {lss : List (List Lexeme)} {parts : List String}
    (h : List.Forall₂ (fun ls s => Spells ls s.toList) lss parts) (hne : parts ≠ []) :
    Spells lss.flatten (String.intercalate " " parts).toList := by
  induction h with
  | nil => exact absurd rfl hne
  | @cons ls part lss parts hfirst hrest ih =>
      cases hrest with
      | nil => simpa using hfirst
      | @cons ls' part' lss' parts' _ _ =>
          have htail := ih (by simp)
          rw [String.intercalate_cons_cons, String.toList_append, String.toList_append,
            List.append_assoc]
          exact spells_space hfirst htail

theorem spells_form {lss : List (List Lexeme)} {parts : List String}
    (h : List.Forall₂ (fun ls s => Spells ls s.toList) lss parts) (hne : parts ≠ []) :
    Spells (.opening :: (lss.flatten ++ [.closing])) (Smt.form parts).toList := by
  intro ls rest hbreaks hrest
  have hclosing : Token.Layout (.closing :: ls) (')' :: rest) :=
    Token.layout_mark (l := .closing) trivial trivial hrest
  have hinner := spells_intercalate h hne _ _ (Token.breaks_cons (by decide)) hclosing
  have hall := Token.layout_mark (l := .opening) trivial trivial hinner
  have htext : (Smt.form parts).toList ++ rest =
      '(' :: ((String.intercalate " " parts).toList ++ ')' :: rest) := by
    unfold Smt.form
    rw [String.toList_append, String.toList_append, List.append_assoc, List.append_assoc]
    rfl
  rw [htext, List.cons_append, List.append_assoc]
  exact hall

namespace Operator

theorem ofName?_name (op : Operator) : ofName? op.name = some op := by
  cases op with
  | unary o => cases o <;> decide
  | binary o => cases o <;> decide
  | compare o => cases o <;> decide
  | _ => decide

theorem spells_name (op : Operator) : Spells [Tree.operatorLexeme op.name] op.name.toList := by
  have hword : ∀ name, Tree.operatorLexeme name = .word name → Identifier name.toList →
      Spells [Tree.operatorLexeme name] name.toList := by
    intro name hname hidentifier
    rw [hname]
    exact Token.spells_lexeme (l := .word name) hidentifier
  cases op with
  | eq => exact Token.spells_lexeme (l := .equals) trivial
  | implies => exact Token.spells_lexeme (l := .arrow) trivial
  | unary o => exact hword _ (by cases o <;> rfl) (by cases o <;> decide)
  | binary o => exact hword _ (by cases o <;> rfl) (by cases o <;> decide)
  | compare o => exact hword _ (by cases o <;> rfl) (by cases o <;> decide)
  | _ => exact hword _ rfl (by decide)

end Operator

theorem spells_decimal (n : Nat) :
    Spells [.numeral (Nat.toDigits 10 n)] (Text.decimal n).toList := by
  have hlegal : (Lexeme.numeral (Nat.toDigits 10 n)).Legal :=
    legal_numeral Text.isDigit_of_decimal (Text.writes_toDigits (by omega) n)
  rw [Text.decimal, String.toList_ofList]
  exact Token.spells_lexeme hlegal

theorem digits_decimal (n : Nat) : Tree.digits 10 (Nat.toDigits 10 n) = n :=
  digits_of_writes (by omega) (Text.writes_toDigits (by omega) n)

theorem spells_application {op : Operator} {indices : List Nat} {lss : List (List Lexeme)}
    {parts : List String} (h : List.Forall₂ (fun ls s => Spells ls s.toList) lss parts) :
    Spells (Tree.appLexemes op.name (indices.map (Nat.toDigits 10)) lss)
      (application op indices parts).toList := by
  have hindices : List.Forall₂ (fun ls s => Spells ls s.toList)
      (indices.map fun n => [.numeral (Nat.toDigits 10 n)]) (indices.map Text.decimal) := by
    rw [List.forall₂_map_left_iff, List.forall₂_map_right_iff, List.forall₂_same]
    exact fun n _ => spells_decimal n
  have hparts : List.Forall₂ (fun ls s => Spells ls s.toList)
      ([Tree.operatorLexeme op.name] ::
        ((indices.map fun n => [.numeral (Nat.toDigits 10 n)]) ++ lss))
      (op.name :: (indices.map Text.decimal ++ parts)) :=
    .cons op.spells_name (List.rel_append hindices h)
  have hspells := spells_form hparts (by simp)
  have hlexemes : (indices.map fun n => [Lexeme.numeral (Nat.toDigits 10 n)]).flatten =
      (indices.map (Nat.toDigits 10)).map Lexeme.numeral := by
    rw [← List.flatMap_def, List.map_map, List.map_eq_flatMap]
    rfl
  rw [List.flatten_cons, List.flatten_append, hlexemes] at hspells
  unfold Tree.appLexemes
  simpa [application] using hspells

/-!
## Printed terms
-/

/-- The expression stands for the term, and its numbers are within their limits. -/
def StandsFor (e : Expr) (t : Term) : Prop := e.term? = some t ∧ e.beyond? = none

/-- The text is spelled by lexemes that are read as an expression for the term. -/
def Prints (s : String) (t : Term) : Prop :=
  ∃ ls, Spells ls s.toList ∧ Tree.ReadsAs ls (StandsFor · t)

theorem exprTexts_eq_map (ts : List Term) : exprTexts ts = ts.map exprText := by
  induction ts with
  | nil => rfl
  | cons t ts ih => rw [exprTexts, ih, List.map_cons]

theorem exprText_of_build? {op : Operator} {indices : List Nat} {args : List Term} {t : Term}
    (hop : op ≠ .const) (h : op.build? indices args = some t) :
    exprText t = application op indices (args.map exprText) := by
  unfold Operator.build? at h
  split at h
  case h_1 => exact absurd rfl hop
  case h_3 =>
    cases h
    rw [exprText, exprTexts_eq_map]
  case h_4 =>
    cases h
    rw [exprText, exprTexts_eq_map]
  case h_17 => cases h
  all_goals
    cases h
    rfl

theorem prints_word {word : String} {t : Term} (hword : Identifier word.toList)
    (h : ∀ span, ∃ e, StandsFor e t ∧ Tree.leaf? ⟨.word word, span⟩ = some e) : Prints word t :=
  ⟨[.word word], Token.spells_lexeme (l := .word word) hword, Tree.readsAs_leaf h⟩

theorem standsFor_bvLit {bits w : Nat} {fits : bits < Word.modulus w} {span : Span}
    (hmax : w ≤ maxWidth) : StandsFor (.bvLit bits w span) (.bvLit bits w fits) := by
  constructor
  · rw [Expr.term?, Term.ofBits_of_lt fits]
  · rw [Expr.beyond?, if_neg (by omega)]

theorem prints_bvLit {bits w : Nat} {fits : bits < Word.modulus w} (hpos : 1 ≤ w)
    (hmax : w ≤ maxWidth) : Prints (Smt.wordLiteral bits w) (.bvLit bits w fits) := by
  have hbits : bits < Nat.pow 2 w := Nat.lt_of_lt_of_eq fits (Word.modulus_of_le hmax)
  unfold Smt.wordLiteral
  split
  · rename_i hfour
    have hwidth : 4 * (w / 4) = w := by omega
    have hsixteen : Nat.pow 16 (w / 4) = Nat.pow 2 (4 * (w / 4)) := (Nat.pow_mul 2 4 (w / 4)).symm
    have hfits : bits < Nat.pow 16 (w / 4) := by
      rw [hsixteen, hwidth]
      exact hbits
    have hlength := Text.length_padded (show 1 < 16 by omega) (by omega) hfits
    have hwrites : Text.Writes 16 (Text.padded 16 (w / 4) bits) bits :=
      Text.writes_padded (by omega) (by omega) _ _
    have hlegal : (Lexeme.hex (Text.padded 16 (w / 4) bits)).Legal :=
      legal_numeral isHexDigit_of_isDigit hwrites
    refine ⟨[.hex (Text.padded 16 (w / 4) bits)], ?_, Tree.readsAs_leaf ?_⟩
    · rw [String.toList_append, String.toList_ofList, String.toList_ofList]
      exact Token.spells_lexeme hlegal
    · intro span
      refine ⟨.bvLit bits w span, standsFor_bvLit hmax, ?_⟩
      simp only [Tree.leaf?]
      rw [digits_of_writes (by omega) hwrites, hlength, hwidth]
  · have hlength := Text.length_padded (show 1 < 2 by omega) hpos hbits
    have hwrites : Text.Writes 2 (Text.padded 2 w bits) bits :=
      Text.writes_padded (by omega) (by omega) _ _
    have hlegal : (Lexeme.binary (Text.padded 2 w bits)).Legal :=
      legal_numeral isBinaryDigit_of_isDigit hwrites
    refine ⟨[.binary (Text.padded 2 w bits)], ?_, Tree.readsAs_leaf ?_⟩
    · rw [String.toList_append, String.toList_ofList, String.toList_ofList]
      exact Token.spells_lexeme hlegal
    · intro span
      refine ⟨.bvLit bits w span, standsFor_bvLit hmax, ?_⟩
      simp only [Tree.leaf?]
      rw [digits_of_writes (by omega) hwrites, hlength]

theorem exists_lexemes {args : List Term} (h : ∀ a ∈ args, Prints (exprText a) a) :
    ∃ lss, List.Forall₂ (fun ls s => Spells ls s.toList) lss (args.map exprText) ∧
      List.Forall₂ (fun ls a => Tree.ReadsAs ls (StandsFor · a)) lss args := by
  induction args with
  | nil => exact ⟨[], .nil, .nil⟩
  | cons a args ih =>
      rcases h a List.mem_cons_self with ⟨ls, hspells, hreads⟩
      rcases ih fun b hb => h b (List.mem_cons_of_mem a hb) with ⟨lss, hspellsAll, hreadsAll⟩
      exact ⟨ls :: lss, .cons hspells hspellsAll, .cons hreads hreadsAll⟩

theorem standsFor_app {op : Operator} {name : Located String} {indices : List (Located Nat)}
    {es : List Expr} {ts : List Term} {t : Term} {span : Span} (hname : name.value = op.name)
    (hindices : ∀ n ∈ indices, n.value ≤ maxIndex) (hes : List.Forall₂ StandsFor es ts)
    (hbuild : op.build? (indices.map (·.value)) ts = some t) :
    StandsFor (.app name indices es span) t := by
  have hterms : Expr.terms? es = some ts :=
    terms?_eq_some_iff.mpr (hes.imp fun _ _ he => he.1)
  constructor
  · rw [Expr.term?, hname, Operator.ofName?_name, hterms]
    exact hbuild
  · apply beyond?_app_eq_none_iff.mpr
    refine ⟨hindices, ?_⟩
    intro e he
    rcases exists_of_forall₂ hes.flip he with ⟨a, _, ha⟩
    exact ha.2

theorem Writable.prints {t : Term} (h : Writable t) : Prints (exprText t) t := by
  induction h with
  | @var x hx htrue hfalse =>
      rw [exprText]
      apply prints_word hx
      intro span
      exact ⟨.var x span, ⟨rfl, rfl⟩, by simp [Tree.leaf?, htrue, hfalse]⟩
  | @boolLit b =>
      cases b with
      | false => exact prints_word (by decide) fun span => ⟨.boolLit false span, ⟨rfl, rfl⟩, rfl⟩
      | true => exact prints_word (by decide) fun span => ⟨.boolLit true span, ⟨rfl, rfl⟩, rfl⟩
  | bvLit hpos hmax => exact prints_bvLit hpos hmax
  | @app op indices args t hop hbuild hindices _ ih =>
      rcases exists_lexemes ih with ⟨lss, hspells, hreads⟩
      rw [exprText_of_build? hop hbuild]
      refine ⟨_, spells_application hspells, (Tree.readsAs_app hreads).imp ?_⟩
      rintro e ⟨name, places, es, span, rfl, hname, hplaces, hes⟩
      have hvalues : places.map (·.value) = indices := by
        rw [hplaces, List.map_map]
        exact List.map_id'' digits_decimal indices
      refine standsFor_app hname ?_ hes (by rw [hvalues]; exact hbuild)
      intro n hn
      have hmem : n.value ∈ indices := by
        rw [← hvalues]
        exact List.mem_map_of_mem hn
      exact hindices _ hmem

end Program
end BitEquiv

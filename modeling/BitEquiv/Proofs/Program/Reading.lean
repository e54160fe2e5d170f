import BitEquiv.Program.Load
import BitEquiv.Proofs.Program.Spans
import BitEquiv.Proofs.Text.Numeral
import Mathlib.Data.List.Forall2

/-!
# Reading expressions and declarations

Reading goes from token to token with the open applications on a stack. This module
says what a whole expression does to that stack, so that the reading of a text follows
the structure of what the text says.
-/

namespace BitEquiv
namespace Program

open Logic (BvSort)

theorem exists_of_forall₂ {α β : Type} {R : α → β → Prop} {as : List α} {bs : List β}
    (h : List.Forall₂ R as bs) {b : β} (hb : b ∈ bs) : ∃ a, a ∈ as ∧ R a b := by
  induction h with
  | nil => cases hb
  | cons hab _ ih =>
      rcases List.mem_cons.mp hb with rfl | hb
      · exact ⟨_, List.mem_cons_self, hab⟩
      · rcases ih hb with ⟨a, ha, hab⟩
        exact ⟨a, List.mem_cons_of_mem _ ha, hab⟩

def nowhere : Span := ⟨0, 0⟩

namespace Tree

/-!
## Whole expressions
-/

/-- A finished expression goes to the innermost open application. -/
def supply : List Frame → Expr → List Token → Option (Expr × List Token)
  | [], e, rest => some (e, rest)
  | f :: outer, e, rest => readExpr (f.addArg e :: outer) rest

/-- Tokens that are read as one expression wherever an expression can stand. -/
def Reads (tokens : List Token) (e : Expr) : Prop :=
  ∀ frames rest, readExpr frames (tokens ++ rest) = supply frames e rest

/-- Lexemes that are read as an expression with the property `P`, whatever the places
of their tokens are. -/
def ReadsAs (ls : List Lexeme) (P : Expr → Prop) : Prop :=
  ∀ tokens : List Token, tokens.map (·.value) = ls → ∃ e, P e ∧ Reads tokens e

theorem reads_leaf {t : Token} {e : Expr} (h : leaf? t = some e) : Reads [t] e := by
  intro frames rest
  rw [List.singleton_append, readExpr.eq_def]
  have hleaf := h
  unfold leaf? at h
  split at h
  · rename_i w hvalue
    simp only [hvalue, hleaf]
    cases frames <;> rfl
  · rename_i ds hvalue
    simp only [hvalue, hleaf]
    cases frames <;> rfl
  · rename_i ds hvalue
    simp only [hvalue, hleaf]
    cases frames <;> rfl
  · cases h

theorem readsAs_leaf {l : Lexeme} {P : Expr → Prop}
    (h : ∀ span, ∃ e, P e ∧ leaf? ⟨l, span⟩ = some e) : ReadsAs [l] P := by
  intro tokens htokens
  rcases List.map_eq_cons_iff.mp htokens with ⟨t, rest, rfl, hvalue, hrest⟩
  rcases List.map_eq_nil_iff.mp hrest with rfl
  rcases h t.span with ⟨e, he, hleaf⟩
  subst hvalue
  exact ⟨e, he, reads_leaf hleaf⟩

theorem ReadsAs.imp {ls : List Lexeme} {P Q : Expr → Prop} (h : ReadsAs ls P)
    (himp : ∀ e, P e → Q e) : ReadsAs ls Q := by
  intro tokens htokens
  rcases h tokens htokens with ⟨e, he, hreads⟩
  exact ⟨e, himp e he, hreads⟩

/-!
## Applications
-/

def operatorLexeme (name : String) : Lexeme :=
  if name = "=" then .equals else if name = "=>" then .arrow else .word name

theorem operator?_operatorLexeme {t : Token} {name : String}
    (h : t.value = operatorLexeme name) : operator? t = some ⟨name, t.span⟩ := by
  unfold operatorLexeme at h
  unfold operator?
  split at h
  · rename_i hname
    rw [h, hname]
  · split at h
    · rename_i hname
      rw [h, hname]
    · rw [h]

theorem readExpr_numerals {dss : List (List Char)} {tokens : List Token}
    (htokens : tokens.map (·.value) = dss.map Lexeme.numeral) {f : Frame} (hf : f.args = []) :
    ∃ indices : List (Located Nat), indices.map (·.value) = dss.map (digits 10) ∧
      ∀ outer rest, readExpr (f :: outer) (tokens ++ rest) =
        readExpr ({ f with indices := f.indices ++ indices } :: outer) rest := by
  induction dss generalizing tokens f with
  | nil =>
      rcases List.map_eq_nil_iff.mp htokens with rfl
      refine ⟨[], rfl, ?_⟩
      intro outer rest
      simp
  | cons ds dss ih =>
      rcases List.map_eq_cons_iff.mp htokens with ⟨t, tokens, rfl, hvalue, hrest⟩
      have hargs : (f.addIndex ⟨digits 10 ds, t.span⟩).args = [] := hf
      rcases ih hrest hargs with ⟨indices, hindices, hread⟩
      refine ⟨⟨digits 10 ds, t.span⟩ :: indices, by simp [hindices], ?_⟩
      intro outer rest
      rw [List.cons_append, readExpr.eq_def]
      simp only [hvalue, hf, List.isEmpty_nil, if_true]
      rw [hread]
      simp [Frame.addIndex, hf]

theorem readExpr_operands {α : Type} {R : Expr → α → Prop} {lss : List (List Lexeme)}
    {xs : List α} (h : List.Forall₂ (fun ls x => ReadsAs ls (R · x)) lss xs)
    {tokens : List Token} (htokens : tokens.map (·.value) = lss.flatten) :
    ∃ args, List.Forall₂ R args xs ∧ ∀ (f : Frame) outer rest,
      readExpr (f :: outer) (tokens ++ rest) =
        readExpr ({ f with args := f.args ++ args } :: outer) rest := by
  induction h generalizing tokens with
  | nil =>
      rcases List.map_eq_nil_iff.mp htokens with rfl
      refine ⟨[], .nil, ?_⟩
      intro f outer rest
      simp
  | cons hfirst _ ih =>
      rw [List.flatten_cons] at htokens
      rcases List.map_eq_append_iff.mp htokens with ⟨first, tokens, rfl, hvalues, hrest⟩
      rcases hfirst first hvalues with ⟨e, he, hreads⟩
      rcases ih hrest with ⟨args, hargs, hread⟩
      refine ⟨e :: args, .cons he hargs, ?_⟩
      intro f outer rest
      rw [List.append_assoc, hreads]
      show readExpr (f.addArg e :: outer) (tokens ++ rest) = _
      rw [hread]
      simp [Frame.addArg]

theorem reads_app {t o c : Token} {name : String} {numerals operands : List Token}
    {indices : List (Located Nat)} {args : List Expr} (ht : t.value = .opening)
    (ho : o.value = operatorLexeme name) (hc : c.value = .closing)
    (hnumerals : ∀ outer rest,
      readExpr (⟨t.span.start, ⟨name, o.span⟩, [], []⟩ :: outer) (numerals ++ rest) =
        readExpr (⟨t.span.start, ⟨name, o.span⟩, indices, []⟩ :: outer) rest)
    (hoperands : ∀ outer rest,
      readExpr (⟨t.span.start, ⟨name, o.span⟩, indices, []⟩ :: outer) (operands ++ rest) =
        readExpr (⟨t.span.start, ⟨name, o.span⟩, indices, args⟩ :: outer) rest) :
    Reads (t :: o :: (numerals ++ (operands ++ [c])))
      (.app ⟨name, o.span⟩ indices args ⟨t.span.start, c.span.stop⟩) := by
  intro frames rest
  rw [List.cons_append, List.cons_append, readExpr.eq_def]
  simp only [ht, operator?_operatorLexeme ho]
  rw [List.append_assoc, hnumerals, List.append_assoc, hoperands]
  rw [List.singleton_append, readExpr.eq_def]
  simp only [hc]
  cases frames <;> rfl

def appLexemes (name : String) (numerals : List (List Char)) (operands : List (List Lexeme)) :
    List Lexeme :=
  .opening :: operatorLexeme name ::
    (numerals.map Lexeme.numeral ++ (operands.flatten ++ [.closing]))

theorem readsAs_app {α : Type} {R : Expr → α → Prop} {name : String} {dss : List (List Char)}
    {lss : List (List Lexeme)} {xs : List α}
    (h : List.Forall₂ (fun ls x => ReadsAs ls (R · x)) lss xs) :
    ReadsAs (appLexemes name dss lss) fun e =>
      ∃ op indices args span, e = .app op indices args span ∧ op.value = name ∧
        indices.map (·.value) = dss.map (digits 10) ∧ List.Forall₂ R args xs := by
  intro tokens htokens
  rcases List.map_eq_cons_iff.mp htokens with ⟨t, _, rfl, ht, htokens⟩
  rcases List.map_eq_cons_iff.mp htokens with ⟨o, _, rfl, ho, htokens⟩
  rcases List.map_eq_append_iff.mp htokens with ⟨numerals, _, rfl, hnumerals, htokens⟩
  rcases List.map_eq_append_iff.mp htokens with ⟨operands, _, rfl, hoperands, htokens⟩
  rcases List.map_eq_cons_iff.mp htokens with ⟨c, _, rfl, hc, htokens⟩
  rcases List.map_eq_nil_iff.mp htokens with rfl
  rcases readExpr_numerals hnumerals (f := ⟨t.span.start, ⟨name, o.span⟩, [], []⟩) rfl with
    ⟨indices, hindices, hread₁⟩
  rcases readExpr_operands h hoperands with ⟨args, hargs, hread₂⟩
  refine ⟨.app ⟨name, o.span⟩ indices args ⟨t.span.start, c.span.stop⟩,
    ⟨_, _, _, _, rfl, rfl, hindices, hargs⟩, ?_⟩
  exact reads_app ht ho hc hread₁ fun outer rest => hread₂ _ outer rest

/-!
## Declarations
-/

/-- Lexemes that are read as a declaration with the property `P`, whatever follows. -/
def DeclReadsAs (ls : List Lexeme) (P : Decl → Prop) : Prop :=
  ∀ tokens : List Token, tokens.map (·.value) = ls →
    ∃ d, P d ∧ ∀ rest, readDecls (tokens ++ rest) = (readDecls rest).map (d :: ·)

theorem DeclReadsAs.imp {ls : List Lexeme} {P Q : Decl → Prop} (h : DeclReadsAs ls P)
    (himp : ∀ d, P d → Q d) : DeclReadsAs ls Q := by
  intro tokens htokens
  rcases h tokens htokens with ⟨d, hd, hreads⟩
  exact ⟨d, himp d hd, hreads⟩

def headLexemes (keyword name sort : String) : List Lexeme :=
  [.word keyword, .word name, .colon, .word sort]

theorem exists_token {l : Lexeme} {ls : List Lexeme} {tokens : List Token}
    (h : tokens.map (·.value) = l :: ls) :
    ∃ span rest, tokens = ⟨l, span⟩ :: rest ∧ rest.map (·.value) = ls := by
  rcases List.map_eq_cons_iff.mp h with ⟨⟨_, span⟩, rest, htokens, rfl, hrest⟩
  exact ⟨span, rest, htokens, hrest⟩

theorem exists_head {keyword name sort : String} {ls : List Lexeme} {tokens : List Token}
    (h : tokens.map (·.value) = headLexemes keyword name sort ++ ls) :
    ∃ first nameSpan colonSpan sortSpan rest,
      tokens = ⟨.word keyword, first⟩ :: ⟨.word name, nameSpan⟩ :: ⟨.colon, colonSpan⟩ ::
        ⟨.word sort, sortSpan⟩ :: rest ∧ rest.map (·.value) = ls := by
  rcases exists_token h with ⟨first, _, rfl, hname⟩
  rcases exists_token hname with ⟨nameSpan, _, rfl, hcolon⟩
  rcases exists_token hcolon with ⟨colonSpan, _, rfl, hsort⟩
  rcases exists_token hsort with ⟨sortSpan, rest, rfl, hrest⟩
  exact ⟨first, nameSpan, colonSpan, sortSpan, rest, rfl, hrest⟩

theorem declReadsAs_input {name word : String} {sort : BvSort} (hsort : sort? word = some sort) :
    DeclReadsAs (headLexemes "input" name word) fun d =>
      ∃ n s span, d = .input n s span ∧ n.value = name ∧ s.value = sort := by
  intro tokens htokens
  rw [← List.append_nil (headLexemes _ _ _)] at htokens
  rcases exists_head htokens with ⟨first, nameSpan, colonSpan, sortSpan, body, rfl, hbody⟩
  rcases List.map_eq_nil_iff.mp hbody with rfl
  refine ⟨.input ⟨name, nameSpan⟩ ⟨sort, sortSpan⟩ ⟨first.start, sortSpan.stop⟩,
    ⟨_, _, _, rfl, rfl, rfl⟩, ?_⟩
  intro rest
  show readDecls (_ :: _ :: _ :: _ :: rest) = _
  rw [readDecls]
  simp [hsort]

theorem readDecls_binding {keyword name word : String} {sort : BvSort} {e : Expr}
    {first nameSpan colonSpan sortSpan equalsSpan : Span} {body rest : List Token}
    (hkeyword : keyword = "let" ∨ keyword = "output") (hsort : sort? word = some sort)
    (hread : readExpr [] body = some (e, rest)) :
    readDecls (⟨.word keyword, first⟩ :: ⟨.word name, nameSpan⟩ :: ⟨.colon, colonSpan⟩ ::
        ⟨.word word, sortSpan⟩ :: ⟨.equals, equalsSpan⟩ :: body) =
      (readDecls rest).map
        (.binding (keyword = "output") ⟨name, nameSpan⟩ ⟨sort, sortSpan⟩ e
          ⟨first.start, e.span.stop⟩ :: ·) := by
  have hinput : keyword ≠ "input" := by
    rintro rfl
    revert hkeyword
    decide
  rw [readDecls]
  simp only [hsort]
  rw [if_neg hinput, if_pos hkeyword]
  split
  · rename_i hnone
    cases hnone.symm.trans hread
  · rename_i hsome
    cases hsome.symm.trans hread
    rfl

theorem declReadsAs_binding {name word : String} {sort : BvSort} (isOutput : Bool)
    {body : List Lexeme} {P : Expr → Prop} (hsort : sort? word = some sort)
    (hbody : ReadsAs body P) :
    DeclReadsAs
      (headLexemes (if isOutput then "output" else "let") name word ++ .equals :: body) fun d =>
      ∃ n s e span, d = .binding isOutput n s e span ∧ n.value = name ∧ s.value = sort ∧ P e := by
  intro tokens htokens
  rcases exists_head htokens with ⟨first, nameSpan, colonSpan, sortSpan, _, rfl, hequals⟩
  rcases exists_token hequals with ⟨equalsSpan, tokens, rfl, hvalues⟩
  rcases hbody tokens hvalues with ⟨e, he, hreads⟩
  refine ⟨.binding isOutput ⟨name, nameSpan⟩ ⟨sort, sortSpan⟩ e ⟨first.start, e.span.stop⟩,
    ⟨_, _, _, _, rfl, rfl, rfl, he⟩, ?_⟩
  intro rest
  have hread : readExpr [] (tokens ++ rest) = some (e, rest) := hreads [] rest
  cases isOutput with
  | false => exact readDecls_binding (Or.inl rfl) hsort hread
  | true => exact readDecls_binding (Or.inr rfl) hsort hread

theorem readDecls_append {α : Type} {R : Decl → α → Prop} {lss : List (List Lexeme)} {xs : List α}
    (h : List.Forall₂ (fun ls x => DeclReadsAs ls (R · x)) lss xs) {tokens : List Token}
    (htokens : tokens.map (·.value) = lss.flatten) :
    ∃ ds, List.Forall₂ R ds xs ∧
      ∀ rest, readDecls (tokens ++ rest) = (readDecls rest).map (ds ++ ·) := by
  induction h generalizing tokens with
  | nil =>
      rcases List.map_eq_nil_iff.mp htokens with rfl
      refine ⟨[], .nil, ?_⟩
      intro rest
      simp
  | cons hfirst _ ih =>
      rw [List.flatten_cons] at htokens
      rcases List.map_eq_append_iff.mp htokens with ⟨first, tokens, rfl, hvalues, hrest⟩
      rcases hfirst first hvalues with ⟨d, hd, hread⟩
      rcases ih hrest with ⟨ds, hds, hreadAll⟩
      refine ⟨d :: ds, .cons hd hds, ?_⟩
      intro rest
      rw [List.append_assoc, hread, hreadAll, Option.map_map]
      rfl

/-!
## What can be read

Names in a tree are identifiers, and a word that is a literal is no variable.
-/

end Tree

inductive Expr.Legal : Expr → Prop
  | var {x span} (hx : Identifier x.toList) (htrue : x ≠ "true") (hfalse : x ≠ "false") :
      Legal (.var x span)
  | boolLit {b span} : Legal (.boolLit b span)
  | bvLit {bits w span} (hpos : 1 ≤ w) (hbits : bits < Nat.pow 2 w) : Legal (.bvLit bits w span)
  | app {op indices args span} (hargs : ∀ e ∈ args, Legal e) : Legal (.app op indices args span)

theorem beyondAny?_eq_none_iff {args : List Expr} :
    Expr.beyondAny? args = none ↔ ∀ e ∈ args, e.beyond? = none := by
  induction args with
  | nil => simp [Expr.beyondAny?]
  | cons e rest ih => rw [Expr.beyondAny?, Option.or_eq_none_iff, ih, List.forall_mem_cons]

theorem beyond?_app_eq_none_iff {op : Located String} {indices : List (Located Nat)}
    {args : List Expr} {span : Span} :
    (Expr.app op indices args span).beyond? = none ↔
      (∀ n ∈ indices, n.value ≤ maxIndex) ∧ ∀ e ∈ args, e.beyond? = none := by
  have hnone : indices.find? (fun n => decide (maxIndex < n.value)) = none ↔
      ∀ n ∈ indices, n.value ≤ maxIndex := by
    simp
  rw [Expr.beyond?, ← hnone, ← beyondAny?_eq_none_iff]
  cases indices.find? (fun n => decide (maxIndex < n.value)) with
  | none => exact (and_iff_right rfl).symm
  | some n => simp

theorem beyond?_input {name : Located String} {sort : Located BvSort} {span : Span}
    (h : sort.value.width < Nat.pow 2 64) : (Decl.input name sort span).beyond? = none := by
  unfold Decl.beyond?
  simp only [Decl.sort]
  cases hsort : sort.value with
  | bool => rfl
  | bitVec w =>
      rw [hsort] at h
      exact if_neg (Nat.not_le.mpr h)

theorem beyond?_binding {isOutput : Bool} {name : Located String} {sort : Located BvSort}
    {e : Expr} {span : Span} (h : sort.value.width < Nat.pow 2 64) (he : e.beyond? = none) :
    (Decl.binding isOutput name sort e span).beyond? = none := by
  have hsort : (Decl.input name sort span).beyond?.or e.beyond? = none := by
    rw [beyond?_input h, he]
    rfl
  exact hsort

inductive Decl.Legal : Decl → Prop
  | input {name sort span} (hname : Identifier name.value.toList) : Legal (.input name sort span)
  | binding {isOutput name sort e span} (hname : Identifier name.value.toList) (he : e.Legal) :
      Legal (.binding isOutput name sort e span)

namespace Tree

theorem digits_lt {base : Nat} (hbase : 0 < base) (ds : List Char) :
    digits base ds < base ^ ds.length := by
  unfold digits
  cases h : Text.ofDigits base 0 ds with
  | none => exact Nat.pow_pos hbase
  | some n =>
      have hlt := Text.ofDigits_lt h
      rw [Nat.zero_add, Nat.one_mul] at hlt
      exact hlt

theorem leaf?_legal {t : Token} {e : Expr} (ht : Token.LegalOrStray t.value)
    (h : leaf? t = some e) : e.Legal := by
  unfold leaf? at h
  split at h
  · rename_i w hvalue
    rw [hvalue] at ht
    have hw : Identifier w.toList := ht.resolve_left (by simp)
    split at h
    · cases h
      exact .boolLit
    · rename_i htrue
      split at h
      · cases h
        exact .boolLit
      · rename_i hfalse
        cases h
        exact .var hw htrue hfalse
  · rename_i ds hvalue
    rw [hvalue] at ht
    rcases ht.resolve_left (by simp) with ⟨hne, _⟩ : Lexeme.Legal (.hex ds)
    have hlength := List.length_pos_iff.mpr hne
    have hlt : digits 16 ds < (2 ^ 4) ^ ds.length := digits_lt (by decide) ds
    cases h
    rw [← Nat.pow_mul] at hlt
    exact .bvLit (by omega) hlt
  · rename_i ds hvalue
    rw [hvalue] at ht
    rcases ht.resolve_left (by simp) with ⟨hne, _⟩ : Lexeme.Legal (.binary ds)
    cases h
    exact .bvLit (List.length_pos_iff.mpr hne) (digits_lt (by decide) ds)
  · cases h

theorem readExpr_legal {frames : List Frame} {tokens : List Token} {e : Expr}
    {rest : List Token} (hframes : ∀ f ∈ frames, ∀ a ∈ f.args, a.Legal)
    (htokens : ∀ t ∈ tokens, Token.LegalOrStray t.value)
    (h : readExpr frames tokens = some (e, rest)) :
    e.Legal ∧ ∀ t ∈ rest, Token.LegalOrStray t.value := by
  fun_induction readExpr frames tokens with
  | case1 => cases h
  | case2 => cases h
  | case3 frames t _ o tokens op _ ih =>
      simp only [List.forall_mem_cons] at htokens
      exact ih (List.forall_mem_cons.mpr ⟨by simp, hframes⟩) htokens.2.2 h
  | case4 => cases h
  | case5 => cases h
  | case6 t tokens _ f =>
      cases h
      exact ⟨.app (hframes f (by simp)), (List.forall_mem_cons.mp htokens).2⟩
  | case7 t tokens _ f g outer ih =>
      simp only [List.forall_mem_cons] at hframes htokens
      rcases hframes with ⟨hf, hg, houter⟩
      refine ih (List.forall_mem_cons.mpr ⟨?_, houter⟩) htokens.2 h
      intro a ha
      rcases List.mem_append.mp ha with ha | ha
      · exact hg a ha
      · rw [List.mem_singleton.mp ha]
        exact .app hf
  | case8 => cases h
  | case9 t tokens ds _ f outer _ ih =>
      simp only [List.forall_mem_cons] at hframes htokens
      exact ih (List.forall_mem_cons.mpr hframes) htokens.2 h
  | case10 => cases h
  | case11 => cases h
  | case12 t tokens e hleaf _ _ _ =>
      simp only [List.forall_mem_cons] at htokens
      cases h
      exact ⟨leaf?_legal htokens.1 hleaf, htokens.2⟩
  | case13 t tokens e hleaf _ _ _ f outer ih =>
      simp only [List.forall_mem_cons] at hframes htokens
      rcases hframes with ⟨hf, houter⟩
      refine ih (List.forall_mem_cons.mpr ⟨?_, houter⟩) htokens.2 h
      intro a ha
      rcases List.mem_append.mp ha with ha | ha
      · exact hf a ha
      · rw [List.mem_singleton.mp ha]
        exact leaf?_legal htokens.1 hleaf

theorem identifier_of_legal {name : String} (h : Token.LegalOrStray (.word name)) :
    Identifier name.toList :=
  h.resolve_left (by simp)

theorem readDecls_legal {tokens : List Token} {ds : List Decl}
    (htokens : ∀ t ∈ tokens, Token.LegalOrStray t.value) (h : readDecls tokens = some ds) :
    ∀ d ∈ ds, d.Legal := by
  fun_induction readDecls tokens generalizing ds with
  | case1 =>
      cases h
      simp
  | case2 => cases h
  | case3 _ name _ _ _ _ _ _ _ ih =>
      simp only [List.forall_mem_cons] at htokens
      rcases htokens with ⟨_, hname, _, _, hrest⟩
      rcases Option.map_eq_some_iff.mp h with ⟨ds', hds', rfl⟩
      exact List.forall_mem_cons.mpr ⟨.input (identifier_of_legal hname), ih hrest hds'⟩
  | case4 => cases h
  | case5 _ _ name _ _ _ _ _ _ _ _ _ body e after hread ih =>
      simp only [List.forall_mem_cons] at htokens
      rcases htokens with ⟨_, hname, _, _, _, hbody⟩
      rcases Option.map_eq_some_iff.mp h with ⟨ds', hds', rfl⟩
      rcases readExpr_legal (by simp) hbody hread with ⟨he, hafter⟩
      exact List.forall_mem_cons.mpr
        ⟨.binding (identifier_of_legal hname) he, ih hafter hds'⟩
  | case6 => cases h
  | case7 => cases h
  | case8 => cases h

theorem ofTokens?_legal {tokens : List Token} {t : Tree}
    (htokens : ∀ t ∈ tokens, Token.LegalOrStray t.value) (h : ofTokens? tokens = some t) :
    Identifier t.name.value.toList ∧ ∀ d ∈ t.decls, d.Legal := by
  unfold ofTokens? at h
  split at h
  · simp only [List.forall_mem_cons] at htokens
    rcases htokens with ⟨_, hname, hrest⟩
    split at h
    · rcases Option.map_eq_some_iff.mp h with ⟨ds, hds, rfl⟩
      exact ⟨identifier_of_legal hname, readDecls_legal hrest hds⟩
    · cases h
  · cases h

end Tree

/-- What is known of the tree of a text: it can be written, and its numbers are within
their limits. -/
theorem parse_legal {s : List Char} {t : Tree} (h : parse s = .ok t) :
    Identifier t.name.value.toList ∧ ∀ d ∈ t.decls, d.Legal ∧ d.beyond? = none := by
  unfold parse at h
  split at h
  · cases h
  · rename_i t' htree
    split at h
    · cases h
    · rename_i hlimits
      cases h
      rcases Tree.ofTokens?_legal (Token.ofText_legal s) htree with ⟨hname, hlegal⟩
      exact ⟨hname, fun d hd => ⟨hlegal d hd, List.findSome?_eq_none_iff.mp hlimits d hd⟩⟩

end Program
end BitEquiv

import BitEquiv.Proofs.Program.Reading

/-!
# Programs in any layout

A tree is written with lexemes, and lexemes are laid out with blanks and comments. Every
text that lays out what a tree is written with is read as that tree, up to the places of its
parts.
-/

namespace BitEquiv
namespace Program

open Logic

/-!
## Trees without places
-/

def Located.bare {α : Type} (a : Located α) : Located α := ⟨a.value, nowhere⟩

mutual

def Expr.bare : Expr → Expr
  | .var x _ => .var x nowhere
  | .boolLit b _ => .boolLit b nowhere
  | .bvLit bits w _ => .bvLit bits w nowhere
  | .app op indices args _ =>
      .app op.bare (indices.map Located.bare) (Expr.bareAll args) nowhere

def Expr.bareAll : List Expr → List Expr
  | [] => []
  | e :: rest => e.bare :: Expr.bareAll rest

end

def Decl.bare : Decl → Decl
  | .input name sort _ => .input name.bare sort.bare nowhere
  | .binding isOutput name sort e _ => .binding isOutput name.bare sort.bare e.bare nowhere

def Tree.bare (t : Tree) : Tree := ⟨t.name.bare, t.decls.map Decl.bare⟩

/-!
## What trees are written with
-/

inductive SortWord : BvSort → String → Prop
  | bool : SortWord .bool "bool"
  | bitVec {w ds} (hds : Text.Writes 10 ds w) :
      SortWord (.bitVec w) (String.ofList ('b' :: 'v' :: ds))

def IndexDigits (ds : List Char) (n : Located Nat) : Prop :=
  Text.Writes 10 ds n.value ∧ n.value < Text.wideLimit

/-- The lexemes of an expression. A literal is written in binary, or in hexadecimal when
digits of four bits fill its width. -/
inductive Expr.Written : Expr → List Lexeme → Prop
  | var {x span} (hx : Identifier x.toList) (htrue : x ≠ "true") (hfalse : x ≠ "false") :
      Written (.var x span) [.word x]
  | boolLit {b span} : Written (.boolLit b span) [.word (if b then "true" else "false")]
  | binary {bits w ds span} (hds : Text.Writes 2 ds bits) (hw : ds.length = w)
      (hmax : w ≤ maxWidth) : Written (.bvLit bits w span) [.binary ds]
  | hex {bits w ds span} (hds : Text.Writes 16 ds bits) (hw : 4 * ds.length = w)
      (hmax : w ≤ maxWidth) : Written (.bvLit bits w span) [.hex ds]
  | app {name indices args span dss lss}
      (hname : name.value = "=" ∨ name.value = "=>" ∨ Identifier name.value.toList)
      (hindices : List.Forall₂ IndexDigits dss indices) (hargs : List.Forall₂ Written args lss) :
      Written (.app name indices args span) (Tree.appLexemes name.value dss lss)

/-- The lexemes of a declaration. The width of a sort has at most 64 bits. -/
inductive Decl.Written : Decl → List Lexeme → Prop
  | input {name sort span word} (hname : Identifier name.value.toList)
      (hwidth : sort.value.width < Nat.pow 2 64) (hsort : SortWord sort.value word) :
      Written (.input name sort span) (Tree.headLexemes "input" name.value word)
  | binding {isOutput name sort e span word body} (hname : Identifier name.value.toList)
      (hwidth : sort.value.width < Nat.pow 2 64) (hsort : SortWord sort.value word)
      (he : e.Written body) :
      Written (.binding isOutput name sort e span)
        (Tree.headLexemes (if isOutput then "output" else "let") name.value word ++
          .equals :: body)

inductive Tree.Written : Tree → List Lexeme → Prop
  | mk {name decls lss} (hname : Identifier name.value.toList)
      (hdecls : List.Forall₂ Decl.Written decls lss) :
      Written ⟨name, decls⟩ (.word "program" :: .word name.value :: lss.flatten)

/-!
## Reading what is written
-/

/-- The expression is another one up to places, and its numbers are within their limits. -/
def Expr.Reproduces (e' e : Expr) : Prop := e'.bare = e.bare ∧ e'.beyond? = none

/-- The declaration is another one up to places, and its numbers are within their limits. -/
def Decl.Reproduces (d' d : Decl) : Prop := d'.bare = d.bare ∧ d'.beyond? = none

theorem digits_of_writes {base n : Nat} {ds : List Char} (hbase : base ≤ 16)
    (h : Text.Writes base ds n) : Tree.digits base ds = n := by
  unfold Tree.digits
  rw [h.ofDigits hbase]
  rfl

theorem bareAll_of_reproduces {args' args : List Expr}
    (h : List.Forall₂ Expr.Reproduces args' args) : Expr.bareAll args' = Expr.bareAll args := by
  induction h with
  | nil => rfl
  | cons he _ ih => rw [Expr.bareAll, Expr.bareAll, he.1, ih]

theorem values_of_indexDigits {dss : List (List Char)} {indices : List (Located Nat)}
    (h : List.Forall₂ IndexDigits dss indices) :
    dss.map (Tree.digits 10) = indices.map (·.value) ∧
      ∀ n ∈ indices.map (·.value), n ≤ maxIndex := by
  induction h with
  | nil => exact ⟨rfl, by simp⟩
  | cons hfirst _ ih =>
      rcases hfirst with ⟨hds, hlt⟩
      rw [List.map_cons, List.map_cons, List.forall_mem_cons, ih.1,
        digits_of_writes (by decide) hds]
      exact ⟨rfl, Nat.le_sub_one_of_lt hlt, ih.2⟩

theorem reproduces_app {name name' : Located String} {indices indices' : List (Located Nat)}
    {args args' : List Expr} {span span' : Span} (hname : name'.value = name.value)
    (hindices : indices'.map (·.value) = indices.map (·.value))
    (hlimits : ∀ n ∈ indices.map (·.value), n ≤ maxIndex)
    (hargs : List.Forall₂ Expr.Reproduces args' args) :
    (Expr.app name' indices' args' span').Reproduces (.app name indices args span) := by
  constructor
  · have hplaces : ∀ ns : List (Located Nat),
        ns.map Located.bare = (ns.map (·.value)).map fun n => ⟨n, nowhere⟩ := by
      intro ns
      rw [List.map_map]
      rfl
    rw [Expr.bare, Expr.bare, hplaces, hplaces, hindices, bareAll_of_reproduces hargs, Located.bare,
      Located.bare, hname]
  · apply beyond?_app_eq_none_iff.mpr
    constructor
    · intro n hn
      apply hlimits
      rw [← hindices]
      exact List.mem_map_of_mem hn
    · intro a ha
      rcases exists_of_forall₂ hargs.flip ha with ⟨e, _, he⟩
      exact he.2

mutual

theorem readsAs_written :
    ∀ {e : Expr} {ls : List Lexeme}, e.Written ls → Tree.ReadsAs ls (Expr.Reproduces · e)
  | .var x span, ls, h => by
      cases h with
      | var _ htrue hfalse =>
          apply Tree.readsAs_leaf
          intro span'
          refine ⟨.var x span', ⟨rfl, rfl⟩, ?_⟩
          simp [Tree.leaf?, htrue, hfalse]
  | .boolLit b span, ls, h => by
      cases h
      apply Tree.readsAs_leaf
      intro span'
      refine ⟨.boolLit b span', ⟨rfl, rfl⟩, ?_⟩
      cases b <;> rfl
  | .bvLit bits w span, ls, h => by
      have hbeyond : ∀ span', w ≤ maxWidth → (Expr.bvLit bits w span').beyond? = none := by
        intro span' hmax
        rw [Expr.beyond?, if_neg (by omega)]
      cases h with
      | binary hds hw hmax =>
          apply Tree.readsAs_leaf
          intro span'
          refine ⟨.bvLit bits w span', ⟨rfl, hbeyond span' hmax⟩, ?_⟩
          simp only [Tree.leaf?]
          rw [digits_of_writes (by decide) hds, hw]
      | hex hds hw hmax =>
          apply Tree.readsAs_leaf
          intro span'
          refine ⟨.bvLit bits w span', ⟨rfl, hbeyond span' hmax⟩, ?_⟩
          simp only [Tree.leaf?]
          rw [digits_of_writes (by decide) hds, hw]
  | .app name indices args span, ls, h => by
      cases h with
      | app hname hindices hargs =>
          rcases values_of_indexDigits hindices with ⟨hvalues, hlimits⟩
          apply (Tree.readsAs_app (readsAs_writtenAll hargs)).imp
          intro e he
          rcases he with ⟨name', indices', args', span', rfl, hname', hindices', hargs'⟩
          exact reproduces_app hname' (hindices'.trans hvalues) hlimits hargs'

theorem readsAs_writtenAll :
    ∀ {args : List Expr} {lss : List (List Lexeme)}, List.Forall₂ Expr.Written args lss →
      List.Forall₂ (fun ls e => Tree.ReadsAs ls (Expr.Reproduces · e)) lss args
  | [], lss, h => by
      cases h
      exact .nil
  | e :: rest, lss, h => by
      cases h with
      | cons hfirst hrest => exact .cons (readsAs_written hfirst) (readsAs_writtenAll hrest)

end

theorem sort?_of_sortWord {sort : BvSort} {word : String} (h : SortWord sort word) :
    Tree.sort? word = some sort := by
  cases h with
  | bool => rfl
  | @bitVec w ds hds =>
      have hne : String.ofList ('b' :: 'v' :: ds) ≠ "bool" := by
        intro hword
        have hchars := congrArg String.toList hword
        rw [String.toList_ofList] at hchars
        cases hchars
      have hdigits : ds.all Char.isDigit = true :=
        List.all_eq_true.mpr (hds.forall_mem Text.isDigit_of_decimal)
      have hempty : ds.isEmpty = false := by simpa using hds.ne_nil
      unfold Tree.sort?
      rw [if_neg hne, String.toList_ofList]
      simp [hdigits, hempty, digits_of_writes (by decide) hds]

theorem readsAs_decl {d : Decl} {ls : List Lexeme} (h : d.Written ls) :
    Tree.DeclReadsAs ls (Decl.Reproduces · d) := by
  cases h with
  | @input name sort span word _ hwidth hsort =>
      apply (Tree.declReadsAs_input (sort?_of_sortWord hsort)).imp
      intro d' hd'
      rcases hd' with ⟨name', sort', span', rfl, hname, hvalue⟩
      constructor
      · rw [Decl.bare, Decl.bare, Located.bare, Located.bare, hname, hvalue]
        rfl
      · rw [← hvalue] at hwidth
        exact beyond?_input hwidth
  | @binding isOutput name sort e span word body _ hwidth hsort he =>
      apply (Tree.declReadsAs_binding isOutput (sort?_of_sortWord hsort) (readsAs_written he)).imp
      intro d' hd'
      rcases hd' with ⟨name', sort', e', span', rfl, hname, hvalue, hbare, hlimits⟩
      constructor
      · rw [Decl.bare, Decl.bare, Located.bare, Located.bare, hname, hvalue, hbare]
        rfl
      · rw [← hvalue] at hwidth
        exact beyond?_binding hwidth hlimits

theorem bare_of_reproduces {ds' ds : List Decl} (h : List.Forall₂ Decl.Reproduces ds' ds) :
    ds'.map Decl.bare = ds.map Decl.bare ∧ ds'.findSome? Decl.beyond? = none := by
  induction h with
  | nil => exact ⟨rfl, rfl⟩
  | cons hd _ ih =>
      constructor
      · rw [List.map_cons, List.map_cons, hd.1, ih.1]
      · rw [List.findSome?_cons_of_isNone (by rw [hd.2]; rfl), ih.2]

theorem ofTokens?_written {t : Tree} {ls : List Lexeme} (h : t.Written ls) {tokens : List Token}
    (htokens : tokens.map (·.value) = ls) :
    ∃ t', Tree.ofTokens? tokens = some t' ∧ t'.bare = t.bare ∧
      t'.decls.findSome? Decl.beyond? = none := by
  cases h with
  | @mk name decls lss hname hdecls =>
      rcases Tree.exists_token htokens with ⟨first, _, rfl, hrest⟩
      rcases Tree.exists_token hrest with ⟨span, rest, rfl, hbody⟩
      have hreads :
          List.Forall₂ (fun ls d => Tree.DeclReadsAs ls (Decl.Reproduces · d)) lss decls :=
        hdecls.flip.imp fun _ _ hd => readsAs_decl hd
      rcases Tree.readDecls_append hreads hbody with ⟨ds, hds, hread⟩
      rcases bare_of_reproduces hds with ⟨hbare, hlimits⟩
      have hnil : Tree.readDecls [] = some [] := by
        rw [Tree.readDecls]
      have hall := hread []
      rw [List.append_nil, hnil] at hall
      refine ⟨⟨⟨name.value, span⟩, ds⟩, ?_, ?_, hlimits⟩
      · simp [Tree.ofTokens?, hall]
      · rw [Tree.bare, Tree.bare, hbare]
        rfl

/-!
## Lexemes of trees
-/

theorem legal_numeral {base n : Nat} {ds : List Char} {P : Char → Prop}
    (hdigit : ∀ {c d}, Text.IsDigit base c d → P c) (h : Text.Writes base ds n) :
    ds ≠ [] ∧ ∀ d ∈ ds, P d :=
  ⟨h.ne_nil, h.forall_mem hdigit⟩

theorem isHexDigit_of_isDigit {c : Char} {d : Nat} (h : Text.IsDigit 16 c d) :
    Token.isHexDigit c = true := by
  unfold Token.isHexDigit
  rw [Text.digitValue_of_isDigit (by decide) h]
  rfl

theorem isBinaryDigit_of_isDigit {c : Char} {d : Nat} (h : Text.IsDigit 2 c d) :
    (c == '0' || c == '1') = true := by
  have hboth : ∀ d < 2, (d.digitChar == '0' || d.digitChar == '1') = true ∧
      (d.digitChar.toUpper == '0' || d.digitChar.toUpper == '1') = true := by
    decide
  rcases h with ⟨hd, rfl | rfl⟩
  · exact (hboth d hd).1
  · exact (hboth d hd).2

theorem legal_operatorLexeme {name : String}
    (h : name = "=" ∨ name = "=>" ∨ Identifier name.toList) : (Tree.operatorLexeme name).Legal := by
  unfold Tree.operatorLexeme
  split
  · trivial
  · rename_i hequals
    split
    · trivial
    · rename_i harrow
      exact (h.resolve_left hequals).resolve_left harrow

theorem legal_indices {dss : List (List Char)} {indices : List (Located Nat)}
    (h : List.Forall₂ IndexDigits dss indices) : ∀ l ∈ dss.map Lexeme.numeral, l.Legal := by
  induction h with
  | nil => simp
  | cons hfirst _ ih =>
      rw [List.map_cons]
      exact List.forall_mem_cons.mpr ⟨legal_numeral Text.isDigit_of_decimal hfirst.1, ih⟩

mutual

theorem legal_written : ∀ {e : Expr} {ls : List Lexeme}, e.Written ls → ∀ l ∈ ls, l.Legal
  | .var x span, ls, h => by
      cases h with
      | var hx _ _ => exact List.forall_mem_singleton.mpr hx
  | .boolLit b span, ls, h => by
      cases h
      have hboth : ∀ b : Bool, Identifier (if b then "true" else "false").toList := by decide
      intro l hl
      rw [List.mem_singleton.mp hl]
      exact hboth b
  | .bvLit bits w span, ls, h => by
      cases h with
      | binary hds _ _ =>
          exact List.forall_mem_singleton.mpr (legal_numeral isBinaryDigit_of_isDigit hds)
      | hex hds _ _ =>
          exact List.forall_mem_singleton.mpr (legal_numeral isHexDigit_of_isDigit hds)
  | .app name indices args span, ls, h => by
      cases h with
      | app hname hindices hargs =>
          have hclosing : ∀ l ∈ [Lexeme.closing], l.Legal := List.forall_mem_singleton.mpr trivial
          unfold Tree.appLexemes
          simp only [List.forall_mem_cons, List.forall_mem_append]
          exact ⟨trivial, legal_operatorLexeme hname, legal_indices hindices,
            legal_writtenAll hargs, by simpa using hclosing⟩

theorem legal_writtenAll :
    ∀ {args : List Expr} {lss : List (List Lexeme)}, List.Forall₂ Expr.Written args lss →
      ∀ l ∈ lss.flatten, l.Legal
  | [], lss, h => by
      cases h
      simp
  | e :: rest, lss, h => by
      cases h with
      | cons hfirst hrest =>
          rw [List.flatten_cons, List.forall_mem_append]
          exact ⟨legal_written hfirst, legal_writtenAll hrest⟩

end

theorem identifier_sortWord {sort : BvSort} {word : String} (h : SortWord sort word) :
    Identifier word.toList := by
  cases h with
  | bool => decide
  | bitVec hds =>
      rw [String.toList_ofList]
      refine ⟨rfl, List.forall_mem_cons.mpr ⟨rfl, ?_⟩⟩
      intro c hc
      have halphanum := hds.isAlphanum (by decide) c hc
      simp [Token.isWordChar, halphanum]

theorem legal_head {keyword name word : String} {sort : BvSort}
    (hkeyword : Identifier keyword.toList) (hname : Identifier name.toList)
    (hsort : SortWord sort word) : ∀ l ∈ Tree.headLexemes keyword name word, l.Legal := by
  unfold Tree.headLexemes
  simp only [List.forall_mem_cons, List.not_mem_nil, false_implies, implies_true, and_true]
  exact ⟨hkeyword, hname, trivial, identifier_sortWord hsort⟩

theorem legal_decl {d : Decl} {ls : List Lexeme} (h : d.Written ls) : ∀ l ∈ ls, l.Legal := by
  cases h with
  | input hname _ hsort =>
      have hkeyword : Identifier "input".toList := by decide
      exact legal_head hkeyword hname hsort
  | @binding isOutput name sort e span word body hname _ hsort he =>
      have hkeyword : ∀ b : Bool, Identifier (if b then "output" else "let").toList := by decide
      rw [List.forall_mem_append, List.forall_mem_cons]
      exact ⟨legal_head (hkeyword isOutput) hname hsort, trivial, legal_written he⟩

theorem legal_decls {ds : List Decl} {lss : List (List Lexeme)}
    (h : List.Forall₂ Decl.Written ds lss) : ∀ l ∈ lss.flatten, l.Legal := by
  induction h with
  | nil => simp
  | cons hd _ ih =>
      rw [List.flatten_cons, List.forall_mem_append]
      exact ⟨legal_decl hd, ih⟩

theorem Tree.Written.legal {t : Tree} {ls : List Lexeme} (h : t.Written ls) :
    ∀ l ∈ ls, l.Legal := by
  cases h with
  | mk hname hdecls =>
      have hkeyword : Identifier "program".toList := by decide
      rw [List.forall_mem_cons, List.forall_mem_cons]
      exact ⟨hkeyword, hname, legal_decls hdecls⟩

/-!
## Layouts
-/

namespace Token

theorem breaks_gap {g : List Char} (hg : Gap g) : Breaks g := by
  cases hg with
  | nil =>
      intro c rest h
      cases h
  | @blank c g hc _ =>
      simp only [isBlank, Bool.or_eq_true, beq_iff_eq] at hc
      apply breaks_cons
      simp only [breaks, List.mem_cons]
      tauto
  | comment _ _ => exact breaks_cons (by decide)

theorem breaks_append {g : List Char} (hg : Breaks g) (hne : g ≠ []) (s : List Char) :
    Breaks (g ++ s) := by
  cases g with
  | nil => exact absurd rfl hne
  | cons c g => exact breaks_cons (hg c g rfl)

/-- A text that begins with the first lexeme and has a gap, not an empty one, between any
two of them; any gap can follow the last one. -/
inductive Spaced : List Lexeme → List Char → Prop
  | last {l g} (hg : Gap g) : Spaced [l] (l.spelling ++ g)
  | cons {l ls g s} (hg : Gap g) (hne : g ≠ []) (hrest : Spaced ls s) :
      Spaced (l :: ls) (l.spelling ++ (g ++ s))

theorem layout_of_spaced {ls : List Lexeme} {s : List Char} (h : Spaced ls s)
    (hlegal : ∀ l ∈ ls, l.Legal) : Layout ls s := by
  induction h with
  | @last l g hg =>
      have hl : l.Legal := hlegal l List.mem_cons_self
      exact .cons .nil hl (Or.inr (breaks_gap hg)) (.nil hg)
  | @cons l ls g s hg hne _ ih =>
      rcases List.forall_mem_cons.mp hlegal with ⟨hl, hls⟩
      exact .cons .nil hl (Or.inr (breaks_append (breaks_gap hg) hne s)) (layout_gap hg (ih hls))

theorem spaced_intercalate {g : List Char} (hg : Gap g) (hne : g ≠ []) :
    ∀ {ls : List Lexeme}, ls ≠ [] → Spaced ls (g.intercalate (ls.map Lexeme.spelling))
  | [], h => absurd rfl h
  | [l], _ => by
      have hlast := Spaced.last (l := l) Gap.nil
      simpa [List.intercalate] using hlast
  | l :: l' :: ls, _ => by
      have hrest := Spaced.cons (l := l) hg hne
        (spaced_intercalate hg hne (List.cons_ne_nil l' ls))
      simpa [List.intercalate] using hrest

end Token

/-- Every text that lays out what a tree is written with is read as the tree. -/
theorem parse_of_written {t : Tree} {ls : List Lexeme} (h : t.Written ls) {s : List Char}
    (hs : Token.Layout ls s) : ∃ t', parse s = .ok t' ∧ t'.bare = t.bare := by
  rcases ofTokens?_written h (Token.ofText_layout hs) with ⟨t', htree, hbare, hlimits⟩
  refine ⟨t', ?_, hbare⟩
  unfold parse
  rw [htree]
  simp only [hlimits]

/-- What a tree is written with, with gaps in front, between any two lexemes and at the
end, is read as the tree. -/
theorem parse_spaced {t : Tree} {ls : List Lexeme} {lead s : List Char} (ht : t.Written ls)
    (hlead : Token.Gap lead) (hs : Token.Spaced ls s) :
    ∃ t', parse (lead ++ s) = .ok t' ∧ t'.bare = t.bare :=
  parse_of_written ht (Token.layout_gap hlead (Token.layout_of_spaced hs ht.legal))

def commented : Tree :=
  ⟨⟨"p", nowhere⟩,
    [.binding true ⟨"let", nowhere⟩ ⟨.bitVec 8, nowhere⟩
      (.app ⟨"true", nowhere⟩ [⟨7, nowhere⟩] [.bvLit 1 4 nowhere, .var "x" nowhere] nowhere)
      nowhere]⟩

def commentedLexemes : List Lexeme :=
  [.word "program", .word "p", .word "output", .word "let", .colon, .word "bv8", .equals,
    .opening, .word "true", .numeral ['7'], .hex ['1'], .word "x", .closing]

theorem parse_spaced_commented :
    commented.Written commentedLexemes ∧ Token.Gap ['\t'] ∧
      Token.Spaced commentedLexemes
        ([' ', ';', '=', '\n'].intercalate (commentedLexemes.map Lexeme.spelling)) ∧
      ∃ t, parse (['\t'] ++
          [' ', ';', '=', '\n'].intercalate (commentedLexemes.map Lexeme.spelling)) = .ok t ∧
        t.bare = commented.bare := by
  have hseven : Text.Writes 10 ['7'] 7 := .digit ⟨by decide, Or.inl rfl⟩
  have hone : Text.Writes 16 ['1'] 1 := .digit ⟨by decide, Or.inl rfl⟩
  have height : Text.Writes 10 ['8'] 8 := .digit ⟨by decide, Or.inl rfl⟩
  have hindex : IndexDigits ['7'] ⟨7, nowhere⟩ := ⟨hseven, by decide⟩
  have hliteral : Expr.Written (.bvLit 1 4 nowhere) [.hex ['1']] := .hex hone rfl (by decide)
  have hx : Expr.Written (.var "x" nowhere) [.word "x"] := .var (by decide) (by decide) (by decide)
  have happ : Expr.Written
      (.app ⟨"true", nowhere⟩ [⟨7, nowhere⟩] [.bvLit 1 4 nowhere, .var "x" nowhere] nowhere)
      (Tree.appLexemes "true" [['7']] [[.hex ['1']], [.word "x"]]) :=
    .app (Or.inr (Or.inr (by decide))) (.cons hindex .nil) (.cons hliteral (.cons hx .nil))
  have htree : commented.Written commentedLexemes :=
    .mk (by decide) (.cons (.binding (by decide) (by decide) (.bitVec height) happ) .nil)
  have hlead : Token.Gap ['\t'] := .blank rfl .nil
  have hcomment : ∀ c ∈ ['='], (c != '\n') = true := by simp
  have hgap : Token.Gap [' ', ';', '=', '\n'] := .blank rfl (.comment hcomment .nil)
  have hne : commentedLexemes ≠ [] := by decide
  have hspaced := Token.spaced_intercalate hgap (by decide) hne
  exact ⟨htree, hlead, hspaced, parse_spaced htree hlead hspaced⟩

end Program
end BitEquiv

import BitEquiv.Proofs.Program.Layouts
import BitEquiv.Proofs.Program.Printing
import BitEquiv.Proofs.Program.WellFormed

/-!
# Printing and loading again

The text of a program is read declaration by declaration as the program that it was
printed from. A program that was loaded has only names and terms that can be written,
so it is found again whatever its own text looked like.
-/

namespace BitEquiv
namespace Program

open Logic

/-- Names are identifiers, and the terms of bindings can be written. -/
structure Legible (p : Program) : Prop where
  name : Identifier p.name.toList
  inputs : ∀ input ∈ p.inputs, Identifier input.1.toList
  bindings : ∀ b ∈ p.bindings, Identifier b.name.toList ∧ Writable b.term

/-!
## Loaded programs are legible
-/

namespace Checked

structure Legible (c : Checked) : Prop where
  inputs : ∀ input ∈ c.inputs, Identifier input.1.toList
  bindings : ∀ b ∈ c.bindings, Identifier b.name.toList ∧ Writable b.term

theorem Legible.decl {c : Checked} (hc : c.Legible) (hconsistent : c.Consistent) {d : Decl}
    (hd : d.Legal) (hlimits : d.beyond? = none) (h : (c.decl d).faults = []) :
    (c.decl d).Legible := by
  rcases decl_cases h with ⟨_, _, _, hcases⟩
  rcases hcases with
    ⟨name, sort, span, rfl, hstep⟩ | ⟨isOutput, name, sort, e, span, t, rfl, he, hstep⟩
  · rw [hstep]
    cases hd with
    | input hname =>
        refine ⟨?_, hc.bindings⟩
        intro input hmem
        rcases List.mem_append.mp hmem with hmem | hmem
        · exact hc.inputs input hmem
        · rw [List.mem_singleton.mp hmem]
          exact hname
  · rw [hstep]
    cases hd with
    | binding hname helegal =>
        have helimits := (Option.or_eq_none_iff.mp hlimits).2
        have hterm := (checkExpr_sound hconsistent.validScope
          (helegal.canonical helimits).literalsFit he).1
        refine ⟨hc.inputs, ?_⟩
        intro b hmem
        rcases List.mem_append.mp hmem with hmem | hmem
        · exact hc.bindings b hmem
        · rw [List.mem_singleton.mp hmem]
          exact ⟨hname, writable_of_term? helegal helimits hterm⟩

end Checked

theorem load_legible {s : List Char} {p : Program} (h : load s = .ok p) : p.Legible := by
  rcases load_eq_ok h with ⟨t, hparse, htree⟩
  rcases parse_legal hparse with ⟨hname, hdecls⟩
  rcases ofTree_eq_ok htree with ⟨hfaults, _, rfl⟩
  have hlegible : (t.decls.foldl Checked.decl .empty).Consistent ∧
      (t.decls.foldl Checked.decl .empty).Legible := by
    refine Checked.foldl_decl (P := fun c => c.Consistent ∧ c.Legible) ?_ ?_ hfaults
    · rintro c d hd ⟨hconsistent, hc⟩ hstep
      rcases hdecls d hd with ⟨hlegal, hlimits⟩
      exact ⟨hconsistent.decl hlegal hlimits hstep, hc.decl hconsistent hlegal hlimits hstep⟩
    · exact ⟨Checked.consistent_empty, by simp [Checked.empty], by simp [Checked.empty]⟩
  exact ⟨hname, hlegible.2.inputs, hlegible.2.bindings⟩

/-!
## Lines of a program
-/

open Token (Spells SpellsLines)

def DeclaresInput (d : Decl) (input : String × BvSort) : Prop :=
  ∃ name sort span, d = .input name sort span ∧ name.value = input.1 ∧ sort.value = input.2

def DeclaresBinding (d : Decl) (b : Binding) : Prop :=
  ∃ name sort e span, d = .binding b.isOutput name sort e span ∧ name.value = b.name ∧
    sort.value = b.sort ∧ StandsFor e b.term

theorem spells_word {word : String} (h : Identifier word.toList) :
    Spells [.word word] word.toList :=
  Token.spells_lexeme (l := .word word) h

theorem toList_bitVecText (w : Nat) :
    (BvSort.bitVec w).text.toList = 'b' :: 'v' :: Nat.toDigits 10 w := by
  rw [BvSort.text, String.toList_append, Text.decimal, String.toList_ofList, String.toList_ofList]
  rfl

theorem sortWord_text (s : BvSort) : SortWord s s.text := by
  cases s with
  | bool => exact .bool
  | bitVec w =>
      rw [← String.ofList_toList (s := (BvSort.bitVec w).text), toList_bitVecText]
      exact .bitVec (Text.writes_toDigits (by decide) w)

theorem spells_head {keyword name : String} (sort : BvSort) (hkeyword : Identifier keyword.toList)
    (hname : Identifier name.toList) :
    Spells (Tree.headLexemes keyword name sort.text)
      (keyword.toList ++ ' ' :: (name.toList ++ ' ' :: ([':'] ++ ' ' :: sort.text.toList))) :=
  spells_space (spells_word hkeyword)
    (spells_space (spells_word hname)
      (spells_space (Token.spells_lexeme (l := .colon) trivial)
        (spells_word (identifier_sortWord (sortWord_text sort)))))

theorem inputLine_reads {input : String × BvSort} (hname : Identifier input.1.toList) :
    ∃ ls, SpellsLines ls (inputLine input.1 input.2).toList ∧
      Tree.DeclReadsAs ls (DeclaresInput · input) := by
  refine ⟨_, ?_, Tree.declReadsAs_input (sort?_of_sortWord (sortWord_text input.2))⟩
  have hkeyword : Identifier "input".toList := by decide
  have hline := Token.spellsLines_newline
    (spells_head input.2 hkeyword hname)
  simpa [inputLine] using hline

theorem bindingLine_reads {b : Binding} (hname : Identifier b.name.toList)
    (hterm : Writable b.term) :
    ∃ ls, SpellsLines ls (bindingLine b).toList ∧ Tree.DeclReadsAs ls (DeclaresBinding · b) := by
  rcases hterm.prints with ⟨body, hspells, hreads⟩
  refine ⟨_, ?_,
    Tree.declReadsAs_binding b.isOutput (sort?_of_sortWord (sortWord_text b.sort)) hreads⟩
  have hkeyword : Identifier (if b.isOutput then "output" else "let").toList := by
    cases b.isOutput <;> decide
  have hline := Token.spellsLines_newline
    (spells_space (spells_head b.sort hkeyword hname)
      (spells_space (Token.spells_lexeme (l := .equals) trivial) hspells))
  cases hb : b.isOutput with
  | false =>
      rw [hb] at hline
      simpa [bindingLine, hb, Lexeme.spelling] using hline
  | true =>
      rw [hb] at hline
      simpa [bindingLine, hb, Lexeme.spelling] using hline

theorem lines_read {α : Type} {R : Decl → α → Prop} {line : α → String} {xs : List α}
    (h : ∀ x ∈ xs, ∃ ls, SpellsLines ls (line x).toList ∧ Tree.DeclReadsAs ls (R · x)) :
    ∃ lss, SpellsLines lss.flatten (String.join (xs.map line)).toList ∧
      List.Forall₂ (fun ls x => Tree.DeclReadsAs ls (R · x)) lss xs := by
  induction xs with
  | nil => exact ⟨[], Token.spellsLines_nil, .nil⟩
  | cons x xs ih =>
      rcases h x List.mem_cons_self with ⟨ls, hspells, hreads⟩
      rcases ih fun y hy => h y (List.mem_cons_of_mem x hy) with ⟨lss, hspellsAll, hreadsAll⟩
      refine ⟨ls :: lss, ?_, .cons hreads hreadsAll⟩
      rw [List.map_cons, String.join_cons, String.toList_append]
      exact Token.spellsLines_append hspells hspellsAll

theorem header_spells {name : String} (h : Identifier name.toList) :
    SpellsLines [.word "program", .word name] ("program " ++ name ++ "\n").toList := by
  have hkeyword : Identifier "program".toList := by decide
  have hline := Token.spellsLines_newline
    (spells_space (spells_word hkeyword) (spells_word h))
  simpa using hline

/-- The declarations in the text of a program are those of its inputs and then those of
its bindings. -/
theorem ofTokens?_text {p : Program} (hp : p.Legible) :
    ∃ span inputs bindings,
      Tree.ofTokens? (Token.ofText p.text.toList) = some ⟨⟨p.name, span⟩, inputs ++ bindings⟩ ∧
      List.Forall₂ DeclaresInput inputs p.inputs ∧
      List.Forall₂ DeclaresBinding bindings p.bindings := by
  have hinputLines : ∀ input ∈ p.inputs, ∃ ls,
      SpellsLines ls (inputLine input.1 input.2).toList ∧
        Tree.DeclReadsAs ls (DeclaresInput · input) :=
    fun input hinput => inputLine_reads (hp.inputs input hinput)
  have hbindingLines : ∀ b ∈ p.bindings, ∃ ls, SpellsLines ls (bindingLine b).toList ∧
      Tree.DeclReadsAs ls (DeclaresBinding · b) :=
    fun b hb => bindingLine_reads (hp.bindings b hb).1 (hp.bindings b hb).2
  rcases lines_read hinputLines with ⟨inputs, hinputs, hreadInputs⟩
  rcases lines_read hbindingLines with ⟨bindings, hbindings, hreadBindings⟩
  have hlayout : Token.Layout
      (.word "program" :: .word p.name :: (inputs.flatten ++ bindings.flatten)) p.text.toList := by
    have hlines := Token.layout_of_spellsLines (Token.spellsLines_append (header_spells hp.name)
      (Token.spellsLines_append hinputs hbindings))
    rw [← String.toList_append, ← String.toList_append, ← String.append_assoc] at hlines
    exact hlines
  rcases Tree.exists_token (Token.ofText_layout hlayout) with ⟨first, _, htokens, hname⟩
  rcases Tree.exists_token hname with ⟨span, _, rfl, hdecls⟩
  rcases List.map_eq_append_iff.mp hdecls with ⟨tokens, tokens', rfl, hvalues, hvalues'⟩
  rcases Tree.readDecls_append hreadInputs hvalues with ⟨ds, hds, hread⟩
  rcases Tree.readDecls_append hreadBindings hvalues' with ⟨ds', hds', hread'⟩
  refine ⟨span, ds, ds', ?_, hds, hds'⟩
  have hnil : Tree.readDecls [] = some [] := by
    rw [Tree.readDecls]
  have hrest := hread' []
  rw [List.append_nil, hnil] at hrest
  rw [htokens]
  simp [Tree.ofTokens?, hread, hrest]

/-!
## Checking what was printed
-/

theorem width_lt_of_isValid {s : BvSort} (h : s.isValid = true) : s.width < Nat.pow 2 64 := by
  cases s with
  | bool => decide
  | bitVec w =>
      have hmax : maxWidth < Nat.pow 2 64 := by decide
      exact Nat.lt_of_le_of_lt (Term.isValid_bitVec.mp h).2 hmax

theorem DeclaresInput.beyond? {d : Decl} {input : String × BvSort} (hd : DeclaresInput d input)
    (hvalid : input.2.isValid = true) : d.beyond? = none := by
  rcases hd with ⟨name, sort, span, rfl, _, hsort⟩
  rw [← hsort] at hvalid
  exact beyond?_input (width_lt_of_isValid hvalid)

theorem DeclaresBinding.beyond? {d : Decl} {b : Binding} (hd : DeclaresBinding d b)
    (hvalid : b.sort.isValid = true) : d.beyond? = none := by
  rcases hd with ⟨name, sort, e, span, rfl, _, hsort, _, hlimits⟩
  rw [← hsort] at hvalid
  exact beyond?_binding (width_lt_of_isValid hvalid) hlimits

namespace Checked

theorem decl_input {c : Checked} {d : Decl} {input : String × BvSort} (hd : DeclaresInput d input)
    (hvalid : input.2.isValid = true) (hnew : c.scope.get? input.1 = none) :
    c.decl d =
      Checked.declare { c with inputs := c.inputs ++ [input] } input.1 input.2 := by
  rcases input with ⟨x, s⟩
  rcases hd with ⟨name, sort, span, rfl, rfl, rfl⟩
  have hhas := Assoc.has_eq_false_iff.mpr hnew
  simp only at hvalid
  simp [decl, Decl.name, Decl.sort, hvalid, hhas]

theorem decl_binding {c : Checked} {d : Decl} {b : Binding} (hd : DeclaresBinding d b)
    (hvalid : b.sort.isValid = true) (hnew : c.scope.get? b.name = none)
    (hterm : b.term.HasSort c.scope.get? b.sort) :
    c.decl d =
      Checked.declare { c with bindings := c.bindings ++ [b] } b.name b.sort := by
  rcases b with ⟨x, s, t, isOutput⟩
  rcases hd with ⟨name, sort, e, span, rfl, rfl, rfl, he, _⟩
  have hhas := Assoc.has_eq_false_iff.mpr hnew
  have hcheck := checkExpr_complete he hterm
  simp only at hvalid
  simp [decl, Decl.name, Decl.sort, hvalid, hhas, checkBinding, hcheck, bind, Except.bind, pure,
    Except.pure]

theorem foldl_inputs {ds : List Decl} {inputs : Assoc BvSort}
    (h : List.Forall₂ DeclaresInput ds inputs) {c : Checked} (hc : c.Consistent)
    (hbindings : c.bindings = []) (hdistinct : Assoc.Distinct (c.inputs ++ inputs))
    (hvalid : ∀ input ∈ inputs, input.2.isValid = true) :
    (ds.foldl decl c).Consistent ∧ (ds.foldl decl c).inputs = c.inputs ++ inputs ∧
      (ds.foldl decl c).bindings = [] ∧ (ds.foldl decl c).faults = c.faults := by
  induction h generalizing c with
  | nil => exact ⟨hc, (List.append_nil _).symm, hbindings, rfl⟩
  | @cons d input ds inputs hd _ ih =>
      rcases List.forall_mem_cons.mp hvalid with ⟨hinput, hrest⟩
      have hnew : c.scope.get? input.1 = none := by
        rw [hc.scope, hbindings]
        exact Assoc.get?_eq_none_of_distinct hdistinct
      have hstep := decl_input hd hinput hnew
      have hnext := hc.input hnew hinput
      rw [List.append_cons] at hdistinct ⊢
      rw [List.foldl_cons, hstep]
      exact ih hnext hbindings hdistinct hrest

theorem foldl_bindings {ds : List Decl} {bs : List Binding}
    (h : List.Forall₂ DeclaresBinding ds bs) {c : Checked} (hc : c.Consistent)
    (hsorted : Sorted c.scope.get? (bs.map Binding.definition)) :
    (ds.foldl decl c).inputs = c.inputs ∧ (ds.foldl decl c).bindings = c.bindings ++ bs ∧
      (ds.foldl decl c).faults = c.faults := by
  induction h generalizing c with
  | nil => exact ⟨rfl, (List.append_nil _).symm, rfl⟩
  | @cons d b ds bs hd _ ih =>
      rcases hsorted with ⟨hnew, hterm, hrest⟩
      have hstep := decl_binding hd (hterm.isValid hc.validScope) hnew hterm
      have hnext := hc.binding hnew hterm
      rw [List.append_cons, List.foldl_cons, hstep]
      apply ih hnext
      show Sorted (c.scope.set b.name b.sort).get? _
      rw [get?_set_eq_extend]
      exact hrest

end Checked

theorem load_text {p : Program} (hp : p.WellFormed) (hlegible : p.Legible) :
    load p.text.toList = .ok p := by
  rcases ofTokens?_text hlegible with ⟨span, ds, ds', htree, hds, hds'⟩
  have hvalid : ∀ b ∈ p.bindings, b.sort.isValid = true := by
    intro b hb
    have hscope := hp.sorted.validScope (validScope_of_valid hp.valid)
    have hafter := after_of_mem hp.sorted (List.mem_map_of_mem hb)
    exact hscope _ _ hafter
  have hlimits : (ds ++ ds').findSome? Decl.beyond? = none := by
    rw [List.findSome?_eq_none_iff]
    intro d hd
    rcases List.mem_append.mp hd with hd | hd
    · rcases exists_of_forall₂ (List.Forall₂.flip hds) hd with ⟨input, hinput, hdeclares⟩
      exact DeclaresInput.beyond? hdeclares (hp.valid input hinput)
    · rcases exists_of_forall₂ (List.Forall₂.flip hds') hd with ⟨b, hb, hdeclares⟩
      exact DeclaresBinding.beyond? hdeclares (hvalid b hb)
  rcases Checked.foldl_inputs hds Checked.consistent_empty rfl hp.distinct hp.valid with
    ⟨hconsistent, hinputs, hbindings, hfaults⟩
  have hsorted : Sorted (ds.foldl Checked.decl .empty).scope.get?
      (p.bindings.map Binding.definition) := by
    rw [hconsistent.scope, hinputs, hbindings]
    exact hp.sorted
  rcases Checked.foldl_bindings hds' hconsistent hsorted with ⟨hinputs', hbindings', hfaults'⟩
  rw [hinputs] at hinputs'
  rw [hbindings] at hbindings'
  rw [hfaults] at hfaults'
  have hparse : parse p.text.toList = .ok ⟨⟨p.name, span⟩, ds ++ ds'⟩ := by
    unfold parse
    rw [htree]
    simp only [hlimits]
  have houtput : p.bindings.any (·.isOutput) = true := List.any_eq_true.mpr hp.output
  unfold load
  rw [hparse]
  simp only [ofTree]
  rw [List.foldl_append, hinputs', hbindings', hfaults']
  simp [Checked.empty, houtput]

/-- Printing a loaded program and loading it again gives the same program, and so does loading
the print of any program that is well formed and whose names can be written. -/
theorem load_text_of_load :
    (∀ (s : List Char) (p : Program), load s = .ok p → load p.text.toList = .ok p) ∧
      ∀ p : Program, p.WellFormed → p.Legible → load p.text.toList = .ok p := by
  constructor
  · intro s p h
    exact load_text (load_wellFormed h) (load_legible h)
  · intro p hp hlegible
    exact load_text hp hlegible

/-- A text whose names are keywords, whose input comes last, and whose parts stand close
together. -/
def compactText : String := "program let output input:bool=(= #x3 #b0110);c\ninput x:bv4\n"

def compactProgram : Program :=
  ⟨"let", [("x", .bitVec 4)], [⟨"input", .bool, .eq (.bvLit 3 4) (.bvLit 6 4), true⟩]⟩

theorem load_compactText : load compactText.toList = .ok compactProgram := by
  have htokens : Token.ofText compactText.toList =
      [⟨.word "program", ⟨0, 7⟩⟩, ⟨.word "let", ⟨8, 11⟩⟩, ⟨.word "output", ⟨12, 18⟩⟩,
        ⟨.word "input", ⟨19, 24⟩⟩, ⟨.colon, ⟨24, 25⟩⟩, ⟨.word "bool", ⟨25, 29⟩⟩,
        ⟨.equals, ⟨29, 30⟩⟩, ⟨.opening, ⟨30, 31⟩⟩, ⟨.equals, ⟨31, 32⟩⟩, ⟨.hex ['3'], ⟨33, 36⟩⟩,
        ⟨.binary ['0', '1', '1', '0'], ⟨37, 43⟩⟩, ⟨.closing, ⟨43, 44⟩⟩,
        ⟨.word "input", ⟨47, 52⟩⟩, ⟨.word "x", ⟨53, 54⟩⟩, ⟨.colon, ⟨54, 55⟩⟩,
        ⟨.word "bv4", ⟨55, 58⟩⟩] := by
    decide
  have htree : Tree.ofTokens? (Token.ofText compactText.toList) =
      some ⟨⟨"let", ⟨8, 11⟩⟩,
        [.binding true ⟨"input", ⟨19, 24⟩⟩ ⟨.bool, ⟨25, 29⟩⟩
          (.app ⟨"=", ⟨31, 32⟩⟩ [] [.bvLit 3 4 ⟨33, 36⟩, .bvLit 6 4 ⟨37, 43⟩] ⟨30, 44⟩) ⟨12, 44⟩,
          .input ⟨"x", ⟨53, 54⟩⟩ ⟨.bitVec 4, ⟨55, 58⟩⟩ ⟨47, 58⟩]⟩ := by
    rw [htokens]
    simp [Tree.ofTokens?, Tree.readDecls, Tree.sort?, Tree.readExpr, Tree.leaf?, Tree.operator?,
      Tree.Frame.addArg, Tree.Frame.close, Tree.digits, Text.ofDigits, Text.digitValue, Expr.span]
  unfold load parse
  rw [htree]
  rfl

def echo : Program := ⟨"echo", [("x", .bool)], [⟨"r", .bool, .var "x", true⟩]⟩

theorem load_text_of_load_compact :
    load compactText.toList = .ok compactProgram ∧
      load compactProgram.text.toList = .ok compactProgram ∧ load echo.text.toList = .ok echo := by
  have hwellFormed : echo.WellFormed := by
    constructor
    case distinct => decide
    case valid => decide
    case sorted => exact ⟨rfl, .var rfl, trivial⟩
    case output => exact ⟨_, List.mem_singleton_self _, rfl⟩
  have hlegible : echo.Legible := by
    constructor
    case name => decide
    case inputs => decide
    case bindings =>
      intro b hb
      cases List.mem_singleton.mp hb
      have hx : Identifier "x".toList := by decide
      exact ⟨by decide, .var hx (by decide) (by decide)⟩
  rcases load_text_of_load with ⟨hloaded, hwritten⟩
  exact ⟨load_compactText, hloaded _ _ load_compactText, hwritten echo hwellFormed hlegible⟩

end Program
end BitEquiv

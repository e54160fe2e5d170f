import Mathlib.Data.List.Forall2
import BitEquiv.Proofs.Program.Comparison
import BitEquiv.Proofs.Smt.Layout
import BitEquiv.Proofs.Smt.Terms
import BitEquiv.Proofs.Text.Blank

/-!
# Printed queries are read again

Each line of a script is one command. A script is read as the declarations, definitions and
assertions of its query, in order, between the commands that every script has.
-/

namespace BitEquiv
namespace Smt

open Logic
open Program (marks Marked)
open SExpr (Plain AllPlain Bare)

/-!
## Names
-/

theorem isSymbolChar_of_marked {x : String} (h : Marked x) :
    ∀ c ∈ x.toList, isSymbolChar c = true := by
  intro c hc
  unfold isSymbolChar
  rcases Program.chars_of_marked h c hc with hc | rfl
  · rw [hc, Bool.true_or]
  · decide

theorem mem_of_marked {x : String} (h : Marked x) : '_' ∈ x.toList := by
  rcases h with ⟨mark, hmark, rest, hx, _⟩
  have hmarks : ∀ mark ∈ marks, '_' ∈ mark.toList := by decide
  rw [hx]
  exact List.mem_append_left rest (hmarks mark hmark)

theorem exists_cons_of_marked {x : String} (h : Marked x) :
    ∃ c s, x.toList = c :: s ∧ c ∈ ['i', 'o', 't'] := by
  rcases h with ⟨mark, hmark, rest, hx, _⟩
  simp only [marks, List.mem_cons, List.not_mem_nil, or_false] at hmark
  rcases hmark with rfl | rfl | rfl
  · exact ⟨'i', _, hx, by decide⟩
  · exact ⟨'o', _, hx, by decide⟩
  · exact ⟨'t', _, hx, by decide⟩

theorem readable_of_marked {x : String} (h : Marked x) : Readable x := by
  have hchars := isSymbolChar_of_marked h
  have hmark := mem_of_marked h
  rcases exists_cons_of_marked h with ⟨c, s, hx, hc⟩
  have hstarts : ['i', 'o', 't'].all
      (fun c => !(c.isDigit || c == '#' || c == ':' || c == '"')) = true := by decide
  have hstart := List.all_eq_true.mp hstarts c hc
  have hdigit : c.isDigit = false := by
    simp only [Bool.not_eq_true', Bool.or_eq_false_iff] at hstart
    exact hstart.1.1.1
  have hsimple : isSimple x.toList = true := by
    rw [hx] at hchars ⊢
    have hall : (c :: s).all isSymbolChar = true := List.all_eq_true.mpr hchars
    simp [isSimple, hdigit, hall]
  refine ⟨hsimple, bare_of_isSimple hsimple, ?_, ?_, ?_⟩
  · unfold isSymbol
    rw [hx]
    exact hstart
  · rintro rfl
    exact absurd hmark (by decide)
  · rintro rfl
    exact absurd hmark (by decide)

/-!
## Commands
-/

/-- The line is that of an expression that stands for the command. -/
def Orders (line : String) (c : Command) : Prop :=
  ∃ e, Plain e ∧ e.text ++ "\n" = line ∧ Command.ofExpr? e = some c

theorem orders_command {items : List SExpr} {parts : List String} {c : Command}
    (hplain : AllPlain items) (hparts : SExpr.texts items = parts)
    (hc : Command.ofExpr? (.list items) = some c) : Orders (command parts) c := by
  refine ⟨.list items, hplain, ?_, hc⟩
  rw [text_list, hparts, command]

/-- The sort is printed as an expression that is read as the sort. -/
theorem exists_sort (s : BvSort) :
    ∃ e, Plain e ∧ e.text = sortText s ∧ sort? e = some s := by
  cases s with
  | bool =>
      have hbool : Bare "Bool" := by decide
      exact ⟨.atom "Bool", hbool, rfl, rfl⟩
  | bitVec w =>
      have hbitVec : Bare "BitVec" := by decide
      refine ⟨.list [.atom "_", .atom "BitVec", .atom (Text.decimal w)], ?_, ?_, ?_⟩
      · exact ⟨bare_underscore, hbitVec, bare_decimal w, trivial⟩
      · rw [← String.toList_inj]
        simp [SExpr.text, SExpr.texts, sortText]
      · simp [sort?]

theorem orders_declaration {x : String} (hx : Readable x) (s : BvSort) :
    Orders (command ["declare-const", symbol x, sortText s]) (.declareConst x s) := by
  rcases exists_sort s with ⟨e, he, htext, hs⟩
  have hname : Bare "declare-const" := by decide
  have hplain : AllPlain [.atom "declare-const", .atom x, e] := ⟨hname, hx.bare, he, trivial⟩
  refine orders_command hplain ?_ ?_
  · rw [symbol_of_readable hx, ← htext]
    rfl
  · simp [Command.ofExpr?, symbol?, hx.symbol, hs]

theorem orders_definition {x : String} (hx : Readable x) (s : BvSort) {text : String} {t : Term}
    (ht : Reads text t) :
    Orders (command ["define-fun", symbol x, "()", sortText s, text]) (.defineFun x s t) := by
  rcases exists_sort s with ⟨e, he, hsort, hs⟩
  rcases ht with ⟨body, hbody, rfl, hterm⟩
  have hname : Bare "define-fun" := by decide
  have hplain : AllPlain [.atom "define-fun", .atom x, .list [], e, body] :=
    ⟨hname, hx.bare, trivial, he, hbody, trivial⟩
  refine orders_command hplain ?_ ?_
  · rw [symbol_of_readable hx, ← hsort]
    rfl
  · simp [Command.ofExpr?, symbol?, hx.symbol, hs, hterm]

theorem orders_assertion {text : String} {t : Term} (ht : Reads text t) :
    Orders (command ["assert", text]) (.assert t) := by
  rcases ht with ⟨e, he, rfl, hterm⟩
  have hname : Bare "assert" := by decide
  have hplain : AllPlain [.atom "assert", e] := ⟨hname, he, trivial⟩
  refine orders_command hplain rfl ?_
  simp [Command.ofExpr?, hterm]

theorem orders_getValue {texts : List String} {ts : List Term} (hts : ReadsAll texts ts) :
    Orders (command ["get-value", form texts]) (.getValue ts) := by
  rcases hts with ⟨es, hes, rfl, hterms⟩
  have hname : Bare "get-value" := by decide
  have hplain : AllPlain [.atom "get-value", .list es] := ⟨hname, hes, trivial⟩
  refine orders_command hplain ?_ ?_
  · rw [← text_list]
    rfl
  · simp [Command.ofExpr?, hterms]

theorem orders_option :
    Orders (command ["set-option", ":produce-models", "true"])
      (.setOption ":produce-models" "true") := by
  have hplain : AllPlain [.atom "set-option", .atom ":produce-models", .atom "true"] :=
    ⟨show Bare _ by decide, show Bare _ by decide, show Bare _ by decide, trivial⟩
  exact orders_command hplain rfl rfl

theorem orders_logic : Orders (command ["set-logic", "QF_BV"]) (.setLogic "QF_BV") := by
  have hplain : AllPlain [.atom "set-logic", .atom "QF_BV"] :=
    ⟨show Bare _ by decide, show Bare _ by decide, trivial⟩
  exact orders_command hplain rfl rfl

theorem orders_checkSat : Orders (command ["check-sat"]) .checkSat := by
  have hplain : AllPlain [.atom "check-sat"] := ⟨show Bare _ by decide, trivial⟩
  exact orders_command hplain rfl rfl

theorem orders_exit : Orders (command ["exit"]) .exit := by
  have hplain : AllPlain [.atom "exit"] := ⟨show Bare _ by decide, trivial⟩
  exact orders_command hplain rfl rfl

/-!
## Scripts
-/

/-- The commands of a query. In its terms there are no connectives of fewer than two operands. -/
def commandsOf (q : Query) (wanted : List String) : List Command :=
  [.setOption ":produce-models" "true", .setLogic "QF_BV"] ++
    q.inputs.map (fun input => .declareConst input.1 input.2) ++
    q.definitions.map (fun d => .defineFun d.name d.sort d.term.collapse) ++
    q.assertions.map (fun t => .assert t.collapse) ++
    [.checkSat] ++ [.getValue (wanted.map .var)] ++ [.exit]

theorem exists_lines {lines : List String} {cs : List Command}
    (h : List.Forall₂ Orders lines cs) :
    ∃ es, AllPlain es ∧ (es.map fun e => e.text ++ "\n") = lines ∧
      es.mapM Command.ofExpr? = some cs := by
  induction h with
  | nil => exact ⟨[], trivial, rfl, rfl⟩
  | cons hline _ ih =>
      rcases hline with ⟨e, he, hline, hc⟩
      rcases ih with ⟨es, hes, hlines, hcs⟩
      refine ⟨e :: es, ⟨he, hes⟩, ?_, ?_⟩
      · rw [List.map_cons, hline, hlines]
      · simp [List.mapM_cons, hc, hcs]

theorem orders_each {α : Type} {l : List α} {line : α → String} {c : α → Command}
    (h : ∀ a ∈ l, Orders (line a) (c a)) : List.Forall₂ Orders (l.map line) (l.map c) := by
  rw [List.forall₂_map_left_iff, List.forall₂_map_right_iff, List.forall₂_same]
  exact h

theorem orders_append {lines lines' : List String} {cs cs' : List Command}
    (h : List.Forall₂ Orders lines cs) (h' : List.Forall₂ Orders lines' cs') :
    List.Forall₂ Orders (lines ++ lines') (cs ++ cs') :=
  List.rel_append h h'

theorem readsAll_symbols {xs : List String} (h : ∀ x ∈ xs, Readable x) :
    ReadsAll (xs.map symbol) (xs.map .var) := by
  induction xs with
  | nil => exact readsAll_nil
  | cons x xs ih =>
      rcases List.forall_mem_cons.mp h with ⟨hx, hxs⟩
      exact readsAll_cons (reads_symbol hx) (ih hxs)

section Script

variable {q : Query} (hq : q.WellFormed) (hnames : ∀ x ∈ q.names, Readable x)

include hq hnames

theorem orders_definitions :
    List.Forall₂ Orders
      (q.definitions.map fun d =>
        command ["define-fun", symbol d.name, "()", sortText d.sort, termText d.term])
      (q.definitions.map fun d => .defineFun d.name d.sort d.term.collapse) := by
  refine orders_each fun d hd => ?_
  have hname : d.name ∈ q.names := List.mem_append_right _ (List.mem_map_of_mem hd)
  have hterm := reads_termText (fun x s hx => hnames x (Query.mem_names_of_scope hx))
    (hq.sorted.hasSort_of_mem hd)
  exact orders_definition (hnames d.name hname) d.sort hterm

theorem orders_assertions :
    List.Forall₂ Orders (q.assertions.map fun t => command ["assert", termText t])
      (q.assertions.map fun t => .assert t.collapse) := by
  refine orders_each fun t ht => ?_
  exact orders_assertion (reads_termText (fun x s hx => hnames x (Query.mem_names_of_scope hx))
    (hq.assertions t ht))

omit hq in
theorem orders_inputs :
    List.Forall₂ Orders
      (q.inputs.map fun input => command ["declare-const", symbol input.1, sortText input.2])
      (q.inputs.map fun input => .declareConst input.1 input.2) := by
  refine orders_each fun input hinput => ?_
  have hname : input.1 ∈ q.names := List.mem_append_left _ (List.mem_map_of_mem hinput)
  exact orders_declaration (hnames input.1 hname) input.2

theorem script_commands {wanted : List String} (hne : wanted ≠ [])
    (hwanted : ∀ x ∈ wanted, x ∈ q.inputs.map (·.1)) :
    ∃ es, SExpr.parseAll (script q wanted).toList = .ok es ∧
      es.mapM Command.ofExpr? = some (commandsOf q wanted) := by
  have hsymbols : ∀ x ∈ wanted, Readable x := by
    intro x hx
    exact hnames x (List.mem_append_left _ (hwanted x hx))
  have hvalues := orders_getValue (readsAll_symbols hsymbols)
  have hempty : wanted.isEmpty = false := by simpa using hne
  have hopening : List.Forall₂ Orders _ _ := .cons orders_option (.cons orders_logic .nil)
  have hbody := orders_append (orders_append (orders_append hopening (orders_inputs hnames))
    (orders_definitions hq hnames)) (orders_assertions hq hnames)
  have hlines := orders_append (orders_append (orders_append hbody
    (.cons orders_checkSat .nil)) (.cons hvalues .nil)) (.cons orders_exit .nil)
  rcases exists_lines hlines with ⟨es, hes, htexts, hcs⟩
  have hscript : script q wanted = String.join (es.map fun e => e.text ++ "\n") := by
    unfold script
    rw [hempty, if_neg Bool.false_ne_true, htexts]
  refine ⟨es, ?_, hcs⟩
  rw [hscript]
  exact SExpr.parseAll_lines hes

end Script

/-- Nothing of a query is lost in its script: the lines are read as the commands of the query,
and what its terms are read as has their sorts and their values. It has no others, unless a
word is the operand of a connective of one operand. -/
theorem script_read_back {q : Query} {known : Assoc BvSort} {wanted : List String}
    (hvalid : q.validate = .ok known) (hnames : ∀ x ∈ q.names, Marked x)
    (hne : wanted ≠ []) (hwanted : ∀ x ∈ wanted, x ∈ q.inputs.map (·.1)) :
    (∃ es, SExpr.parseAll (script q wanted).toList = .ok es ∧
      es.mapM Command.ofExpr? = some (commandsOf q wanted)) ∧
    ∀ t : Term, (∀ scope s, t.sortOf scope = .ok s → t.collapse.sortOf scope = .ok s) ∧
      (∀ env v, t.eval env = .ok v → t.collapse.eval env = .ok v) ∧
      (∀ scope, t.Singles (Term.NoWordSort scope) →
        t.collapse.sortOf scope = t.sortOf scope) ∧
      ∀ env, t.Singles (Term.NoWordValue env) → t.collapse.eval env = t.eval env := by
  constructor
  · refine script_commands (Query.wellFormed_of_validate hvalid) ?_ hne hwanted
    intro x hx
    exact readable_of_marked (hnames x hx)
  · intro t
    refine ⟨?_, ?_, ?_, ?_⟩
    · intro scope s ht
      exact Term.sortOf_collapse ht
    · intro env v ht
      exact Term.refines_collapse t v ht
    · intro scope ht
      exact Term.sortOf_collapse_eq t ht
    · intro env ht
      exact Term.eval_collapse_eq t ht

/-- The only assertion of this query is a disjunction of one operand. Without a scope its sort
is missing before and after. -/
theorem script_read_back_doubling :
    (∃ known, (Program.miter Program.doubling Program.shifting).validate = .ok known) ∧
    (∀ x ∈ (Program.miter Program.doubling Program.shifting).names, Marked x) ∧
    (∃ es, SExpr.parseAll
        (script (Program.miter Program.doubling Program.shifting) ["in_x"]).toList = .ok es ∧
      es.mapM Command.ofExpr? = some
        [.setOption ":produce-models" "true", .setLogic "QF_BV",
          .declareConst "in_x" (.bitVec 2),
          .defineFun "o_r" (.bitVec 2) (.binary .add (.var "in_x") (.var "in_x")),
          .defineFun "t_r" (.bitVec 2) (.binary .shl (.var "in_x") (.bvLit 1 2)),
          .assert (.distinct (.var "o_r") (.var "t_r")),
          .checkSat, .getValue [.var "in_x"], .exit]) ∧
    ∀ t ∈ (Program.miter Program.doubling Program.shifting).assertions,
      t.collapse = .distinct (.var "o_r") (.var "t_r") ∧
        t.collapse.sortOf (Assoc.get? [("o_r", .bitVec 2), ("t_r", .bitVec 2)]) = .ok .bool ∧
        t.collapse.eval [("o_r", .word 2 2), ("t_r", .word 3 2)] = .ok (.bool true) ∧
        t.collapse.sortOf (fun _ => none) = .error (.unbound "o_r") ∧
        t.collapse.eval [] = .error (.unbound "o_r") := by
  have hp := Program.load_legible Program.load_doubling
  have hq := Program.load_legible Program.load_shifting
  have hvalid : (Program.miter Program.doubling Program.shifting).validate =
      .ok [("in_x", .bitVec 2), ("o_r", .bitVec 2), ("t_r", .bitVec 2)] := rfl
  have hnames := Program.marked_miter hp hq
  rcases @script_read_back _ _ ["in_x"] hvalid hnames (by decide) (by decide) with
    ⟨hscript, hterms⟩
  refine ⟨⟨_, hvalid⟩, hnames, hscript, ?_⟩
  intro t ht
  cases List.mem_singleton.mp ht
  rcases hterms (.or [Program.outputDiffers "r"]) with ⟨hsort, hvalue, hsorts, hvalues⟩
  refine ⟨rfl, hsort _ _ rfl, hvalue _ _ rfl, ?_, ?_⟩
  · refine (hsorts _ ⟨?_, ⟨trivial, trivial⟩, trivial⟩).trans rfl
    intro a ha w hsort
    cases ha
    cases hsort
  · refine (hvalues _ ⟨?_, ⟨trivial, trivial⟩, trivial⟩).trans rfl
    intro a ha bits w hvalue
    cases ha
    cases hvalue

def oneOperand : Query where
  inputs := [("in_x", .bool)]
  definitions := []
  assertions := [.or [.var "in_x"]]

/-- The assertion is read as the input, which has a sort and a value also as a word. The
disjunction has neither there. -/
theorem oneOperand_read_back :
    (∃ known, oneOperand.validate = .ok known) ∧ (∀ x ∈ oneOperand.names, Marked x) ∧
    (∃ es, SExpr.parseAll (script oneOperand ["in_x"]).toList = .ok es ∧
      es.mapM Command.ofExpr? = some
        [.setOption ":produce-models" "true", .setLogic "QF_BV", .declareConst "in_x" .bool,
          .assert (.var "in_x"), .checkSat, .getValue [.var "in_x"], .exit]) ∧
    (Term.var "in_x").sortOf (Assoc.get? [("in_x", .bitVec 8)]) = .ok (.bitVec 8) ∧
    (Term.or [.var "in_x"]).sortOf (Assoc.get? [("in_x", .bitVec 8)]) =
      .error (.expectedBool (.bitVec 8)) ∧
    (Term.var "in_x").eval [("in_x", .word 3 8)] = .ok (.word 3 8) ∧
    (Term.or [.var "in_x"]).eval [("in_x", .word 3 8)] = .error (.illSorted "or") := by
  have hvalid : oneOperand.validate = .ok [("in_x", .bool)] := rfl
  have hnames : ∀ x ∈ oneOperand.names, Marked x := by
    intro x hx
    cases List.mem_singleton.mp hx
    refine ⟨"in_", by decide, ['x'], rfl, ?_⟩
    intro c hc
    cases List.mem_singleton.mp hc
    exact .inl rfl
  refine ⟨⟨_, hvalid⟩, hnames, ?_, rfl, rfl, rfl, rfl⟩
  exact script_commands (Query.wellFormed_of_validate hvalid)
    (fun x hx => readable_of_marked (hnames x hx)) (by decide) (by decide)

theorem script_equivalenceQuery {s s' : List Char} {p p' : Program} {q : Query}
    {wanted : List String} (hp : Program.load s = .ok p) (hp' : Program.load s' = .ok p')
    (hq : Program.equivalenceQuery p p' = .ok q) (hne : wanted ≠ [])
    (hwanted : ∀ x ∈ wanted, x ∈ q.inputs.map (·.1)) :
    ∃ es, SExpr.parseAll (script q wanted).toList = .ok es ∧
      es.mapM Command.ofExpr? = some (commandsOf q wanted) := by
  rcases Program.equivalenceQuery_wellFormed hp hp' hq with ⟨hwellFormed, hnames⟩
  exact script_commands hwellFormed (fun x hx => readable_of_marked (hnames x hx)) hne hwanted

end Smt
end BitEquiv

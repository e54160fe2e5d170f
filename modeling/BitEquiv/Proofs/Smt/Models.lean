import BitEquiv.Proofs.Smt.Values
import BitEquiv.Proofs.Text.Layout

/-!
# Answers are read as the models they write

Behind a line `sat` stand lists of names with values. In any layout, order and grouping, with
each value in any of its forms, they are read as the model that gives those values.
-/

namespace BitEquiv
namespace Smt

open Logic Solver

/-!
## The line `sat`
-/

theorem speaks_eq_false {line : List Char} (h : Text.Silent line) : speaks line = false := by
  unfold speaks
  rcases Text.trim_of_silent h with hnil | ⟨body, hbody⟩
  · rw [hnil]
    rfl
  · rw [hbody]
    rfl

theorem readStatus_of_silent {line : List Char} (h : Text.Silent line) (hline : '\n' ∉ line)
    (s : List Char) : readStatus (line ++ '\n' :: s) = readStatus s := by
  rw [readStatus_eq (by simp), Text.takeLine_newline hline, speaks_newline, speaks_eq_false h]
  rfl

theorem readStatus_of_line {s line rest word : List Char} {status : Status}
    (htake : Text.takeLine s = (line, rest)) (htrim : Text.trim line = word)
    (hstatus : statusOf word = some status) : readStatus s = .ok (status, rest) := by
  have hs : s ≠ [] := by
    rintro rfl
    cases htake
    cases htrim
    cases hstatus
  have hspeaks : speaks line = true := by
    unfold speaks
    rw [htrim]
    rcases statusOf_eq_some.mp hstatus with ⟨rfl, _⟩ | ⟨rfl, _⟩ | ⟨rfl, _⟩ <;> decide
  rw [readStatus_eq hs, htake, if_pos hspeaks, htrim, stripStart_error_of_statusOf hstatus,
    if_neg Bool.false_ne_true, hstatus]

theorem readStatus_of_lined {s rest : List Char} (h : Text.Lined [["sat".toList]] s rest) :
    readStatus s = .ok (.sat, rest) := by
  have hstatus : statusOf "sat".toList = some .sat := rfl
  generalize hls : [["sat".toList]] = ls at h
  induction h with
  | nil => cases hls
  | silent _ hsilent hline _ ih => rw [readStatus_of_silent hsilent hline, ih hls]
  | line line hspaced hline hrest _ =>
      cases hls
      cases hrest
      have htrim : Text.trim (line ++ ['\n']) = "sat".toList :=
        (Text.trim_newline line).trans (hspaced.trim.single rfl)
      exact readStatus_of_line (Text.takeLine_newline hline _) htrim hstatus
  | last _ hspaced hline =>
      cases hls
      exact readStatus_of_line (Text.takeLine_of_not_mem hline) (hspaced.trim.single rfl) hstatus

/-!
## Written values
-/

theorem bare_numeral {base n : Nat} (hbase : base ≤ 16) (mark : List Char) {digits : List Char}
    (hmark : mark.all (fun c => !SExpr.isDelimiter c) = true) (h : Text.Writes base digits n) :
    SExpr.Bare (String.ofList (mark ++ digits)) := by
  unfold SExpr.Bare
  rw [String.toList_ofList]
  constructor
  · intro hnil
    exact h.ne_nil (List.append_eq_nil_iff.mp hnil).2
  · intro c hc
    rcases List.mem_append.mp hc with hc | hc
    · simpa using List.all_eq_true.mp hmark c hc
    · exact SExpr.isDelimiter_of_isAlphanum (h.isAlphanum hbase c hc)

theorem Literal.bare {v : Value} {e : SExpr} (h : Literal v e) :
    ∀ a ∈ SExpr.atoms e, SExpr.Bare a := by
  cases h with
  | bool b => cases b <;> decide
  | binary hdigits _ =>
      intro a ha
      rw [List.mem_singleton.mp ha]
      exact bare_numeral (by decide) ['#', 'b'] (by decide) hdigits
  | hexadecimal hdigits _ =>
      intro a ha
      rw [List.mem_singleton.mp ha]
      exact bare_numeral (by decide) ['#', 'x'] (by decide) hdigits
  | @decimal n w digits width hdigits hwidth =>
      have hnumber := bare_numeral (by decide) ['b', 'v'] (by decide) hdigits
      have hcount := bare_numeral (by decide) [] (by decide) hwidth
      have hsign : SExpr.Bare "_" := by decide
      intro a ha
      rcases List.mem_cons.mp ha with rfl | ha
      · exact hsign
      · rcases List.mem_cons.mp ha with rfl | ha
        · exact hnumber
        · rw [List.mem_singleton.mp ha]
          exact hcount

/-!
## Answers
-/

/-- A name with its value, and an expression that writes the value. -/
structure Entry where
  name : String
  value : Value
  expr : SExpr
  literal : Literal value expr

namespace Entry

def pair (entry : Entry) : String × Value := (entry.name, entry.value)

def listed (entry : Entry) : SExpr := .list [.atom entry.name, entry.expr]

/-- The name as a symbol and the value as it is, in parentheses. -/
def words (entry : Entry) : List (List Char) :=
  ['('] :: (symbol entry.name).toList :: (SExpr.words String.toList entry.expr ++ [[')']])

end Entry

def answerWords (answer : List (List Entry)) : List (List Char) :=
  answer.flatMap fun entries => ['('] :: (entries.flatMap Entry.words ++ [[')']])

def answerExprs (answer : List (List Entry)) : List SExpr :=
  answer.map fun entries => .list (entries.map Entry.listed)

theorem Entry.spelling {entry : Entry} (h : '|' ∉ entry.name.toList) :
    List.Forall₂ SExpr.Spelling entry.words (SExpr.tokens entry.listed) := by
  have hvalue : List.Forall₂ SExpr.Spelling (SExpr.words String.toList entry.expr)
      (SExpr.tokens entry.expr) :=
    SExpr.spelling_words fun a ha => .bare (entry.literal.bare a ha)
  refine .cons .opening (.cons (spelling_symbol h) ?_)
  rw [SExpr.tokensAll, SExpr.tokensAll, List.append_nil]
  exact List.rel_append hvalue (.cons .closing .nil)

theorem spelling_entries {entries : List Entry} (h : ∀ entry ∈ entries, '|' ∉ entry.name.toList) :
    List.Forall₂ SExpr.Spelling (entries.flatMap Entry.words)
      (SExpr.tokensAll (entries.map Entry.listed)) := by
  induction entries with
  | nil => exact .nil
  | cons entry entries ih =>
      rcases List.forall_mem_cons.mp h with ⟨hentry, h⟩
      exact List.rel_append (Entry.spelling hentry) (ih h)

theorem spelling_answer {answer : List (List Entry)}
    (h : ∀ entry ∈ answer.flatten, '|' ∉ entry.name.toList) :
    List.Forall₂ SExpr.Spelling (answerWords answer) (SExpr.tokensAll (answerExprs answer)) := by
  induction answer with
  | nil => exact .nil
  | cons entries answer ih =>
      rw [List.flatten_cons, List.forall_mem_append] at h
      have hlist : List.Forall₂ SExpr.Spelling
          (['('] :: (entries.flatMap Entry.words ++ [[')']]))
          (SExpr.tokens (.list (entries.map Entry.listed))) :=
        .cons .opening (List.rel_append (spelling_entries h.1) (.cons .closing .nil))
      exact List.rel_append hlist (ih h.2)

/-!
## Reading the values
-/

section Wanted

variable {wanted : List (String × BvSort)}

def Entry.Fits (wanted : List (String × BvSort)) (entry : Entry) : Prop :=
  ∃ sort, (Assoc.ofList wanted).get? entry.name = some sort ∧ entry.value.InSort sort ∧
    sort.width < 2 ^ 32

theorem readPair_listed {entry : Entry} (h : entry.Fits wanted) (model : Model) :
    readPair wanted model entry.listed = .ok (model.set entry.name entry.value) := by
  rcases h with ⟨sort, hsort, hvalue, hwidth⟩
  simp only [Entry.listed, readPair, hsort, readValue_of_literal hvalue hwidth entry.literal]

theorem foldlM_readPair {entries : List Entry} (h : ∀ entry ∈ entries, entry.Fits wanted)
    (model : Model) :
    (entries.map Entry.listed).foldlM (readPair wanted) model =
      .ok ((entries.map Entry.pair).foldl (fun m (name, v) => m.set name v) model) := by
  induction entries generalizing model with
  | nil => rfl
  | cons entry entries ih =>
      rcases List.forall_mem_cons.mp h with ⟨hentry, h⟩
      rw [List.map_cons, List.foldlM_cons, readPair_listed hentry]
      exact ih h _

/-- A list of entries is no error form: its first item is no atom. -/
theorem readValues_entries {entries : List Entry} (h : ∀ entry ∈ entries, entry.Fits wanted)
    (model : Model) :
    readValues wanted model (.list (entries.map Entry.listed)) =
      .ok ((entries.map Entry.pair).foldl (fun m (name, v) => m.set name v) model) := by
  rw [← foldlM_readPair h]
  cases entries <;> rfl

theorem foldlM_readValues {answer : List (List Entry)}
    (h : ∀ entry ∈ answer.flatten, entry.Fits wanted) (model : Model) :
    (answerExprs answer).foldlM (readValues wanted) model =
      .ok ((answer.flatten.map Entry.pair).foldl (fun m (name, v) => m.set name v) model) := by
  induction answer generalizing model with
  | nil => rfl
  | cons entries answer ih =>
      rw [List.flatten_cons, List.forall_mem_append] at h
      rw [List.flatten_cons, List.map_append, List.foldl_append, ← ih h.2]
      show (List.foldlM (readValues wanted) model (_ :: answerExprs answer)) = _
      rw [List.foldlM_cons, readValues_entries h.1]
      rfl

/-- Whatever the layout, order and grouping of the entries, a value for each wanted name makes
the model. -/
theorem readModel_entries {answer : List (List Entry)} {s : List Char}
    (hread : SExpr.parseAll s = .ok (answerExprs answer))
    (hfits : ∀ entry ∈ answer.flatten, entry.Fits wanted)
    (hnames : ((answer.flatten.map Entry.pair).map (·.1)).Perm (wanted.map (·.1)))
    (hdistinct : Assoc.Distinct wanted) :
    readModel wanted s = .ok (answer.flatten.map Entry.pair) := by
  have hpairs : Assoc.Distinct (answer.flatten.map Entry.pair) := hnames.nodup_iff.mpr hdistinct
  have hfold : (answerExprs answer).foldlM (readValues wanted) [] =
      .ok (answer.flatten.map Entry.pair) := by
    rw [foldlM_readValues hfits]
    exact congrArg Except.ok (Assoc.ofList_of_distinct hpairs)
  have hall : wanted.find? (fun pair => !Assoc.has (answer.flatten.map Entry.pair) pair.1) =
      none := by
    rw [List.find?_eq_none]
    rintro ⟨name, sort⟩ hpair
    have hmem := hnames.mem_iff.mpr (List.mem_map_of_mem hpair)
    rcases List.mem_map.mp hmem with ⟨⟨x, v⟩, hv, rfl⟩
    have hhas := (Assoc.has_iff _ x).mpr ⟨v, Assoc.get?_of_mem hpairs hv⟩
    simpa using hhas
  unfold readModel
  split
  · rename_i hempty
    rw [List.isEmpty_iff.mp hempty, List.map_nil] at hnames
    rw [List.map_eq_nil_iff.mp hnames.eq_nil]
  · simp only [hread, hfold, hall, bind, Except.bind, pure, Except.pure]

end Wanted

/-!
## Answers that give a model
-/

/-- An answer of `sat` that writes a value of its sort for each of several variables, in any
layout, order and grouping, is read as the model of these values. -/
theorem answer_read_back {wanted : List (String × BvSort)} {values : String → Value}
    {answer : List (List Entry)} {s rest : List Char} (hdistinct : Assoc.Distinct wanted)
    (hnames : ∀ pair ∈ wanted, '|' ∉ pair.1.toList)
    (hwidths : ∀ pair ∈ wanted, pair.2.width < 2 ^ 32)
    (hvalues : ∀ pair ∈ wanted, (values pair.1).InSort pair.2)
    (hanswer : (answer.flatten.map Entry.pair).Perm
      (wanted.map fun pair => (pair.1, values pair.1)))
    (hstatus : Text.Lined [["sat".toList]] s rest)
    (hlayout : SExpr.Layout (answerWords answer) rest) :
    readStatus s = .ok (.sat, rest) ∧
      ∃ model, readModel wanted rest = .ok model ∧
        model.Perm (wanted.map fun pair => (pair.1, values pair.1)) := by
  have hentry : ∀ entry ∈ answer.flatten,
      ∃ sort, (entry.name, sort) ∈ wanted ∧ entry.value = values entry.name := by
    intro entry hmem
    have hpair := hanswer.mem_iff.mp (List.mem_map_of_mem (f := Entry.pair) hmem)
    rcases List.mem_map.mp hpair with ⟨⟨x, sort⟩, hx, heq⟩
    have hname : x = entry.name := congrArg Prod.fst heq
    have hvalue : values x = entry.value := congrArg Prod.snd heq
    subst hname
    exact ⟨sort, hx, hvalue.symm⟩
  have hfits : ∀ entry ∈ answer.flatten, entry.Fits wanted := by
    intro entry hmem
    rcases hentry entry hmem with ⟨sort, hx, hvalue⟩
    refine ⟨sort, ?_, hvalue ▸ hvalues _ hx, hwidths _ hx⟩
    rw [Assoc.ofList_of_distinct hdistinct]
    exact Assoc.get?_of_mem hdistinct hx
  have hbars : ∀ entry ∈ answer.flatten, '|' ∉ entry.name.toList := by
    intro entry hmem
    rcases hentry entry hmem with ⟨sort, hx, _⟩
    exact hnames _ hx
  have hperm : ((answer.flatten.map Entry.pair).map (·.1)).Perm (wanted.map (·.1)) := by
    have hmap := hanswer.map Prod.fst
    rw [List.map_map (l := wanted)] at hmap
    exact hmap
  refine ⟨readStatus_of_lined hstatus, _, ?_, hanswer⟩
  exact readModel_entries (SExpr.parseAll_layout (spelling_answer hbars) hlayout) hfits hperm
    hdistinct

theorem answer_read_back_twoLists :
    let wanted := [("a", BvSort.bool), ("b c", .bitVec 8)]
    let rest := "((|b c| #xA5)); one\n((a true))".toList
    readStatus ("; ready\n\n sat\n".toList ++ rest) = .ok (.sat, rest) ∧
      ∃ model, readModel wanted rest = .ok model ∧
        model.Perm [("a", .bool true), ("b c", .word 165 8)] := by
  have hopen : ∀ rest, SExpr.Separate ['('] rest := fun _ => Or.inl ⟨'(', rfl, rfl⟩
  have hclose : ∀ rest, SExpr.Separate [')'] rest := fun _ => Or.inl ⟨')', rfl, rfl⟩
  have hbar : ∀ rest, SExpr.Separate (symbol "b c").toList rest :=
    fun _ => Or.inl ⟨'|', by decide, rfl⟩
  have hspace : SExpr.Gap [' '] := .blank rfl .nil
  have hdigits : Text.Writes 16 ['A', '5'] 165 :=
    .more (s := ['A']) (n := 10) (d := 5) (.digit ⟨by decide, Or.inr rfl⟩) ⟨by decide, Or.inl rfl⟩
  let answer : List (List Entry) :=
    [[⟨"b c", .word 165 8, _, .hexadecimal hdigits rfl⟩], [⟨"a", .bool true, _, .bool true⟩]]
  have hlayout := show SExpr.Layout (answerWords answer) _ from
    .cons .nil (hopen _) <| .cons .nil (hopen _) <| .cons .nil (hbar _) <|
    .cons hspace (Or.inr (by rfl)) <| .cons .nil (hclose _) <| .cons .nil (hclose _) <|
    .cons (.comment " one".toList (by decide) .nil) (hopen _) <|
    .cons .nil (hopen _) <| .cons .nil (Or.inr (by rfl)) <| .cons hspace (Or.inr (by rfl)) <|
    .cons .nil (hclose _) <| .cons .nil (hclose _) <| .nil .nil
  have hstatus := fun rest => show Text.Lined [["sat".toList]] _ rest from
    .silent "; ready".toList (.comment [] _ (by decide)) (by decide) <|
    .silent [] (.blank (by decide)) (by decide) <|
    .line " sat".toList (by decide) (by decide) (.nil rest)
  let values : String → Value := fun x => if x = "a" then .bool true else .word 165 8
  have hvalues : ∀ pair ∈ [("a", BvSort.bool), ("b c", .bitVec 8)],
      (values pair.1).InSort pair.2 :=
    List.forall_mem_cons.mpr ⟨⟨rfl, rfl⟩, List.forall_mem_singleton.mpr ⟨rfl, rfl⟩⟩
  have hread : ∃ rest, SExpr.Layout (answerWords answer) rest ∧
      rest = "((|b c| #xA5)); one\n((a true))".toList := by
    refine ⟨_, hlayout, ?_⟩
    dsimp only
    decide
  rcases hread with ⟨_, hread, rfl⟩
  have hpairs : (answer.flatten.map Entry.pair).Perm
      ([("a", BvSort.bool), ("b c", .bitVec 8)].map fun pair => (pair.1, values pair.1)) :=
    List.Perm.swap ..
  exact answer_read_back (by decide) (by decide) (by decide) hvalues hpairs (hstatus _) hread

end Smt
end BitEquiv

import Mathlib.Data.List.TakeWhile
import BitEquiv.Proofs.Btor.Language
import BitEquiv.Proofs.Text.Blank
import BitEquiv.Proofs.Text.Numeral

/-!
# Written models are read again

A line is written as words with single blanks between them. All of it is read again but the
symbol of an input that would open a comment.
-/

namespace BitEquiv
namespace Btor

open Text (decimal isBlank)

/-!
## Words of lines
-/

def opcodes : List String :=
  ["not", "neg", "add", "sub", "mul", "udiv", "urem", "sdiv", "srem", "and", "or", "xor", "sll",
    "srl", "sra", "ult", "ulte", "ugt", "ugte", "slt", "slte", "sgt", "sgte", "eq", "neq",
    "implies", "ite", "concat", "slice", "uext", "sext"]

/-- Lines that are told apart when they are read. -/
def Line.Legible : Line → Prop
  | sort _ => True
  | input _ name => ∀ c ∈ name.toList, isBlank c = false
  | const _ bits w => 0 < w ∧ bits < Nat.pow 2 w
  | node op _ args => op ∈ opcodes ∧ args ≠ []
  | bad _ => True

/-- What is seen of a symbol: a semicolon in front makes a comment of it. -/
def visible (name : String) : String := if name.toList.head? = some ';' then "" else name

def Line.seen : Line → Line
  | input s name => input s (visible name)
  | line => line

def Line.words : Line → List String
  | sort w => ["sort", "bitvec", decimal w]
  | input s name => ["input", decimal s, name]
  | const s bits w => ["const", decimal s, String.ofList (Text.padded 2 w bits)]
  | node op s args => op :: decimal s :: args.map decimal
  | bad n => ["bad", decimal n]

theorem toList_text (id : Nat) (line : Line) :
    (line.text id).toList =
      (decimal id).toList ++ (line.words.map String.toList).flatMap (' ' :: ·) := by
  cases line with
  | node op s args =>
      have hargs : (String.join (args.map fun a => " " ++ decimal a)).toList =
          ((args.map decimal).map String.toList).flatMap (' ' :: ·) := by
        induction args with
        | nil => rfl
        | cons a args ih => simpa using ih
      simp [Line.text, Line.words, hargs]
  | _ => simp [Line.text, Line.words]

def Clear (w : List Char) : Prop := (∀ c ∈ w, isBlank c = false) ∧ w ≠ [] ∧ w.head? ≠ some ';'

instance : DecidablePred Clear := fun w =>
  @instDecidableAnd _ _ (List.decidableBAll _ w) _

/-- Words in front of others that may be empty or open a comment. -/
theorem code_append {w : List Char} {ws rest : List (List Char)}
    (h : ∀ piece ∈ w :: ws, Clear piece) (hrest : ∀ piece ∈ rest, ∀ c ∈ piece, isBlank c = false) :
    code (w ++ (ws ++ rest).flatMap (' ' :: ·)) =
      ((w :: ws) ++ (rest.filter fun piece => !piece.isEmpty).takeWhile
        (·.head? != some ';')).map String.ofList := by
  have hall : ∀ piece ∈ w :: (ws ++ rest), ∀ c ∈ piece, isBlank c = false := by
    rw [← List.cons_append, List.forall_mem_append]
    exact ⟨fun piece hpiece => (h piece hpiece).1, hrest⟩
  have hfilter : ((w :: ws).filter fun piece => !piece.isEmpty) = w :: ws := by
    rw [List.filter_eq_self]
    intro piece hpiece
    simpa using (h piece hpiece).2.1
  have htake : ∀ piece ∈ w :: ws, (piece.head? != some ';') = true := by
    intro piece hpiece
    simpa using (h piece hpiece).2.2
  unfold code
  rw [Text.words_spaced hall, ← List.cons_append, List.filter_append, hfilter,
    List.takeWhile_append_of_pos htake]

theorem code_of_clear {w : List Char} {ws : List (List Char)} (h : ∀ piece ∈ w :: ws, Clear piece) :
    code (w ++ ws.flatMap (' ' :: ·)) = (w :: ws).map String.ofList := by
  have hcode := @code_append w ws [] h (List.forall_mem_nil _)
  simpa using hcode

theorem clear_of_digits {base : Nat} (hbase : base ≤ 16) {w : List Char} (hne : w ≠ [])
    (h : ∀ c ∈ w, ∃ d, d < base ∧ c = d.digitChar) : Clear w := by
  have hdigit : ∀ d < 16, isBlank d.digitChar = false ∧ d.digitChar ≠ ';' := by decide
  refine ⟨?_, hne, ?_⟩
  · intro c hc
    rcases h c hc with ⟨d, hd, rfl⟩
    exact (hdigit d (by omega)).1
  · intro hhead
    rcases h ';' (List.mem_of_head? hhead) with ⟨d, hd, hsemicolon⟩
    exact (hdigit d (by omega)).2 hsemicolon.symm

theorem clear_decimal (n : Nat) : Clear (decimal n).toList := by
  unfold decimal
  rw [String.toList_ofList]
  have hbase : 10 ≤ 16 := by decide
  refine clear_of_digits hbase Nat.toDigits_ne_nil ?_
  intro c hc
  exact Text.exists_of_mem_toDigits (by decide) hc

theorem clear_padded (count n : Nat) : Clear (Text.padded 2 count n) := by
  have hbase : 2 ≤ 16 := by decide
  refine clear_of_digits hbase (Text.padded_ne_nil count n) ?_
  intro c hc
  exact Text.exists_of_mem_padded (by decide) hc

def Line.IsInput : Line → Prop
  | input _ _ => True
  | _ => False

theorem clear_words {line : Line} (h : line.Legible) (hinput : ¬ line.IsInput) :
    ∀ word ∈ line.words, Clear word.toList := by
  cases line with
  | sort w =>
      have hsort : Clear "sort".toList := by decide
      have hbitvec : Clear "bitvec".toList := by decide
      simp only [Line.words, List.forall_mem_cons]
      exact ⟨hsort, hbitvec, clear_decimal w, List.forall_mem_nil _⟩
  | input s name => exact absurd trivial hinput
  | const s bits w =>
      have hconst : Clear "const".toList := by decide
      simp only [Line.words, List.forall_mem_cons, String.toList_ofList]
      exact ⟨hconst, clear_decimal s, clear_padded w bits, List.forall_mem_nil _⟩
  | node op s args =>
      have hopcodes : ∀ op ∈ opcodes, Clear op.toList := by decide
      refine List.forall_mem_cons.mpr ⟨hopcodes op h.1, ?_⟩
      intro word hword
      rw [← List.map_cons] at hword
      rcases List.mem_map.mp hword with ⟨n, _, rfl⟩
      exact clear_decimal n
  | bad n =>
      have hbad : Clear "bad".toList := by decide
      simp only [Line.words, List.forall_mem_cons]
      exact ⟨hbad, clear_decimal n, List.forall_mem_nil _⟩

theorem clear_input (s : Nat) : ∀ word ∈ ["input", decimal s], Clear word.toList := by
  have hinput : Clear "input".toList := by decide
  simp only [List.forall_mem_cons]
  exact ⟨hinput, clear_decimal s, List.forall_mem_nil _⟩

theorem isBlank_of_mem_words {line : Line} (h : line.Legible) :
    ∀ word ∈ line.words, ∀ c ∈ word.toList, isBlank c = false := by
  cases line with
  | input s name =>
      intro word hword
      rcases List.mem_append.mp (show word ∈ ["input", decimal s] ++ [name] from hword) with
        hword | hword
      · exact (clear_input s word hword).1
      · rw [List.mem_singleton.mp hword]
        exact h
  | _ => exact fun word hword => (clear_words h id word hword).1

/-!
## Reading a line
-/

theorem mapM_numeral? (ns : List Nat) : (ns.map decimal).mapM numeral? = some ns := by
  induction ns with
  | nil => rfl
  | cons n ns ih =>
      rw [List.map_cons, List.mapM_cons, ih, numeral?, Text.natural?_decimal]
      rfl

theorem ofWords?_node {op : String} (hop : op ∈ opcodes) (s : Nat) {args : List Nat}
    (hargs : args ≠ []) :
    Line.ofWords? (op :: decimal s :: args.map decimal) = some (.node op s args) := by
  have hother : ∀ word ∈ ["sort", "input", "const"], op ≠ word := by
    rintro word hword rfl
    have hnone : ∀ word ∈ ["sort", "input", "const"], word ∉ opcodes := by decide
    exact hnone op hword hop
  cases args with
  | nil => exact absurd rfl hargs
  | cons a args =>
      have hall := mapM_numeral? (a :: args)
      rw [List.map_cons] at hall
      simp [Line.ofWords?, hother "sort" (by simp), hother "input" (by simp),
        hother "const" (by simp), numeral?, hall]

theorem ofWords?_words {line : Line} (h : line.Legible) : Line.ofWords? line.words = some line := by
  cases line with
  | node op s args => exact ofWords?_node h.1 s h.2
  | const s bits w =>
      have hlength : (Text.padded 2 w bits).length = w :=
        Text.length_padded (by decide) h.1 h.2
      simp [Line.words, Line.ofWords?, numeral?, Text.ofDigits_padded, hlength]
  | _ => simp [Line.words, Line.ofWords?, numeral?]

theorem row?_of_code {id : Nat} {s : List Char} {words : List String} {line : Line}
    (hcode : code s = decimal id :: words) (hline : Line.ofWords? words = some line) :
    row? s = some (id, line) := by
  simp [row?, hcode, numeral?, hline]

theorem row?_of_clear {id : Nat} {line : Line} (h : line.Legible)
    (hclear : ∀ word ∈ line.words, Clear word.toList) :
    row? (line.text id).toList = some (id, line) := by
  have hall : ∀ piece ∈ (decimal id).toList :: line.words.map String.toList, Clear piece :=
    List.forall_mem_cons.mpr ⟨clear_decimal id, List.forall_mem_map.mpr hclear⟩
  refine row?_of_code ?_ (ofWords?_words h)
  rw [toList_text, code_of_clear hall]
  simp

/-- An empty symbol and one that opens a comment are both read as none. -/
theorem row?_hidden {id s : Nat} {name : String} (h : ∀ c ∈ name.toList, isBlank c = false)
    (hhidden : name.toList = [] ∨ name.toList.head? = some ';') :
    row? ((Line.input s name).text id).toList = some (id, .input s "") := by
  have hclear : ∀ piece ∈ (decimal id).toList :: ["input", decimal s].map String.toList,
      Clear piece :=
    List.forall_mem_cons.mpr ⟨clear_decimal id, List.forall_mem_map.mpr (clear_input s)⟩
  have hrest : (([name.toList].filter fun piece => !piece.isEmpty).takeWhile
      (·.head? != some ';')) = [] := by
    rcases hhidden with hempty | hsemicolon
    · simp [hempty]
    · cases hname : name.toList with
      | nil => rfl
      | cons c cs =>
          rw [hname] at hsemicolon
          cases hsemicolon
          rfl
  have hcode := code_append hclear (List.forall_mem_singleton.mpr h)
  rw [hrest, List.append_nil] at hcode
  have hwords : code ((Line.input s name).text id).toList = [decimal id, "input", decimal s] := by
    rw [toList_text]
    refine hcode.trans ?_
    simp
  refine row?_of_code hwords ?_
  simp [Line.ofWords?, numeral?]

theorem row?_input {id s : Nat} {name : String} (h : ∀ c ∈ name.toList, isBlank c = false) :
    row? ((Line.input s name).text id).toList = some (id, .input s (visible name)) := by
  unfold visible
  by_cases hsemicolon : name.toList.head? = some ';'
  · rw [if_pos hsemicolon]
    exact row?_hidden h (.inr hsemicolon)
  · rw [if_neg hsemicolon]
    by_cases hempty : name.toList = []
    · rw [String.toList_eq_nil_iff.mp hempty] at h ⊢
      exact row?_hidden h (.inl rfl)
    · refine row?_of_clear h ?_
      intro word hword
      rcases List.mem_append.mp (show word ∈ ["input", decimal s] ++ [name] from hword) with
        hword | hword
      · exact clear_input s word hword
      · rw [List.mem_singleton.mp hword]
        exact ⟨h, hempty, hsemicolon⟩

theorem row?_text {id : Nat} {line : Line} (h : line.Legible) :
    row? (line.text id).toList = some (id, line.seen) := by
  cases line with
  | input s name => exact row?_input h
  | _ => exact row?_of_clear h (clear_words h False.elim)

/-!
## Reading a model
-/

def numbered : Nat → List Line → List Row
  | _, [] => []
  | id, line :: rest => (id, line) :: numbered (id + 1) rest

theorem not_mem_text {id : Nat} {line : Line} (h : line.Legible) {c : Char} (hc : isBlank c = true)
    (hspace : c ≠ ' ') : c ∉ (line.text id).toList := by
  have hpiece : ∀ piece ∈ (decimal id).toList :: line.words.map String.toList, c ∉ piece := by
    intro piece hpiece hmem
    have hblank : isBlank c = false := by
      rcases List.mem_cons.mp hpiece with rfl | hpiece
      · exact (clear_decimal id).1 c hmem
      · rcases List.mem_map.mp hpiece with ⟨word, hword, rfl⟩
        exact isBlank_of_mem_words h word hword c hmem
    rw [hc] at hblank
    cases hblank
  rcases List.forall_mem_cons.mp hpiece with ⟨hid, hwords⟩
  rw [toList_text, List.mem_append, not_or]
  refine ⟨hid, ?_⟩
  intro hmem
  rcases List.mem_flatMap.mp hmem with ⟨piece, hpiece, hmem⟩
  rcases List.mem_cons.mp hmem with hmem | hmem
  · exact hspace hmem
  · exact hwords piece hpiece hmem

/-- The rows of a text are the lines that were written, numbered as they were. -/
theorem read?_writeLines {lines : List Line} (h : ∀ line ∈ lines, line.Legible) (id : Nat) :
    read? (writeLines id lines).toList = some (numbered id (lines.map Line.seen)) := by
  unfold read?
  induction lines generalizing id with
  | nil => rfl
  | cons line lines ih =>
      rcases List.forall_mem_cons.mp h with ⟨hline, hlines⟩
      have htext : (writeLines id (line :: lines)).toList =
          (line.text id).toList ++ '\n' :: (writeLines (id + 1) lines).toList := by
        simp [writeLines]
      have hnewline : '\n' ∉ (line.text id).toList := not_mem_text hline (by decide) (by decide)
      have hreturn : '\r' ∉ (line.text id).toList := not_mem_text hline (by decide) (by decide)
      rw [htext, Text.lines_append hnewline hreturn, List.mapM_cons, row?_text hline, ih hlines]
      rfl

end Btor
end BitEquiv

import BitEquiv.Program.Token
import Mathlib.Tactic.SplitIfs

/-!
# Tokens and layouts

A text is a layout of a list of lexemes when it spells them in order with gaps of
blanks and comments between them; next to a mark a gap can be empty. The tokens of a
layout are its lexemes.
-/

namespace BitEquiv
namespace Program

/-!
## Spelling of lexemes
-/

/-- A letter or underscore, then letters, digits and underscores. -/
def Identifier : List Char → Prop
  | [] => False
  | c :: rest => Token.isWordStart c = true ∧ ∀ d ∈ rest, Token.isWordChar d = true

instance : DecidablePred Identifier
  | [] => isFalse id
  | _ :: rest => @instDecidableAnd _ _ _ (List.decidableBAll _ rest)

namespace Lexeme

def spelling : Lexeme → List Char
  | opening => ['(']
  | closing => [')']
  | colon => [':']
  | equals => ['=']
  | arrow => ['=', '>']
  | word text => text.toList
  | numeral ds => ds
  | hex ds => '#' :: 'x' :: ds
  | binary ds => '#' :: 'b' :: ds
  | stray => []

def Legal : Lexeme → Prop
  | word text => Identifier text.toList
  | numeral ds => ds ≠ [] ∧ ∀ d ∈ ds, d.isDigit = true
  | hex ds => ds ≠ [] ∧ ∀ d ∈ ds, Token.isHexDigit d = true
  | binary ds => ds ≠ [] ∧ ∀ d ∈ ds, (d == '0' || d == '1') = true
  | stray => False
  | _ => True

/-- Marks end by themselves; whatever follows starts a new token. -/
def IsMark : Lexeme → Prop
  | opening => True
  | closing => True
  | colon => True
  | arrow => True
  | _ => False

end Lexeme

namespace Token

/-- The characters that end every token before them. -/
def breaks : List Char := [' ', '\t', '\r', '\n', ';', '(', ')', ':']

/-- A text that begins with a break, or is empty. -/
def Breaks (s : List Char) : Prop :=
  ∀ c rest, s = c :: rest → c ∈ breaks

theorem breaks_cons {c : Char} {rest : List Char} (h : c ∈ breaks) : Breaks (c :: rest) := by
  intro d rest' hd
  cases hd
  exact h

/-!
## Steps of the scanner
-/

theorem scan_cons (pos : Nat) (mode : Mode) (c : Char) (rest : List Char) :
    scan pos mode (c :: rest) =
      (step pos mode c).1 ++ scan (pos + c.utf8Size) (step pos mode c).2 rest := rfl

theorem step_of_extend {pos : Nat} {mode next : Mode} {c : Char}
    (h : mode.extend c = some next) : step pos mode c = ([], next) := by
  cases mode with
  | equals start => cases h
  | between => cases h
  | comment => simp [step, h]
  | word start read => simp [step, h]
  | numeral start read => simp [step, h]
  | hash start => simp [step, h]
  | hex start read => simp [step, h]
  | binary start read => simp [step, h]

theorem step_of_stop {pos : Nat} {mode : Mode} {c : Char} (h : mode.extend c = none)
    (hc : c ≠ '>') :
    step pos mode c = (mode.close pos ++ (openAt pos c).1, (openAt pos c).2) := by
  unfold step
  split
  · exact absurd rfl hc
  · rw [h]

theorem step_between (pos : Nat) (c : Char) : step pos .between c = openAt pos c := rfl

/-- A token under way ends before a character that does not extend it. -/
theorem scan_stop {pos : Nat} {mode : Mode} {s : List Char}
    (h : ∀ c rest, s = c :: rest → mode.extend c = none ∧ c ≠ '>') :
    scan pos mode s = mode.close pos ++ scan pos .between s := by
  cases s with
  | nil => simp [scan, Mode.close]
  | cons c rest =>
      rcases h c rest rfl with ⟨hstop, hc⟩
      rw [scan_cons, scan_cons, step_of_stop hstop hc, step_between, List.append_assoc]

/-- Characters that extend a token under way are read one after the other. -/
theorem scan_extend (mode : List Char → Mode) {p : Char → Bool}
    (hmode : ∀ c read, p c = true → (mode read).extend c = some (mode (c :: read)))
    {ds : List Char} (hds : ∀ d ∈ ds, p d = true) (pos : Nat) (read rest : List Char) :
    ∃ pos', scan pos (mode read) (ds ++ rest) = scan pos' (mode (ds.reverse ++ read)) rest := by
  induction ds generalizing pos read with
  | nil => exact ⟨pos, rfl⟩
  | cons d ds ih =>
      rcases List.forall_mem_cons.mp hds with ⟨hd, hds⟩
      rcases ih hds (pos + d.utf8Size) (d :: read) with ⟨pos', hpos'⟩
      refine ⟨pos', ?_⟩
      rw [List.cons_append, scan_cons, step_of_extend (hmode d read hd)]
      simpa using hpos'

/-!
## First characters
-/

theorem beq_eq_false_of_class {p : Char → Bool} {c d : Char} (hc : p c = true)
    (hd : p d = false) : (c == d) = false := by
  rw [beq_eq_false_iff_ne]
  rintro rfl
  rw [hc] at hd
  cases hd

theorem openAt_of_isWordStart {pos : Nat} {c : Char} (h : isWordStart c = true) :
    openAt pos c = ([], .word pos [c]) := by
  have hne : ∀ d : Char, isWordStart d = false → (c == d) = false :=
    fun d => beq_eq_false_of_class h
  unfold openAt isBlank
  simp [hne '(' rfl, hne ')' rfl, hne ':' rfl, hne '=' rfl, hne ';' rfl, hne '#' rfl,
    hne ' ' rfl, hne '\t' rfl, hne '\r' rfl, hne '\n' rfl, h]

theorem isWordStart_of_isDigit {c : Char} (h : c.isDigit = true) : isWordStart c = false := by
  have hle : c.val ≤ '9'.val := of_decide_eq_true (Bool.and_eq_true_iff.mp h).2
  have hupper : c.isUpper = false := by
    apply decide_eq_false
    rintro ⟨hge, _⟩
    exact absurd (UInt32.le_trans hge hle) (by decide)
  have hlower : c.isLower = false := by
    apply Bool.and_eq_false_imp.mpr
    intro hge
    exact absurd (UInt32.le_trans (of_decide_eq_true hge) hle) (by decide)
  have hne : (c == '_') = false := beq_eq_false_of_class h rfl
  show (c.isUpper || c.isLower || c == '_') = false
  rw [hupper, hlower, hne]
  rfl

theorem openAt_of_isDigit {pos : Nat} {c : Char} (h : c.isDigit = true) :
    openAt pos c = ([], .numeral pos [c]) := by
  have hne : ∀ d : Char, d.isDigit = false → (c == d) = false :=
    fun d => beq_eq_false_of_class h
  unfold openAt isBlank
  simp [hne '(' rfl, hne ')' rfl, hne ':' rfl, hne '=' rfl, hne ';' rfl, hne '#' rfl,
    hne ' ' rfl, hne '\t' rfl, hne '\r' rfl, hne '\n' rfl, h, isWordStart_of_isDigit h]

/-!
## Lexemes before a break
-/

theorem forall_breaks {P : Char → Prop} [DecidablePred P]
    (h : breaks.all (fun c => decide (P c)) = true) : ∀ c ∈ breaks, P c := by
  simpa using h

theorem stops_of_breaks {mode : Mode} {s : List Char}
    (hmode : ∀ c ∈ breaks, mode.extend c = none) (hs : Breaks s) :
    ∀ c rest, s = c :: rest → mode.extend c = none ∧ c ≠ '>' := by
  intro c rest h
  have hc := hs c rest h
  have hne : ∀ d ∈ breaks, d ≠ '>' := forall_breaks (by decide)
  exact ⟨hmode c hc, hne c hc⟩

theorem extend_equals_break (start : Nat) : ∀ c ∈ breaks, (Mode.equals start).extend c = none :=
  fun _ _ => rfl

theorem extend_word_break {start : Nat} {read : List Char} :
    ∀ c ∈ breaks, (Mode.word start read).extend c = none := by
  have hclass : ∀ c ∈ breaks, isWordChar c = false := forall_breaks (by decide)
  intro c hc
  simp [Mode.extend, hclass c hc]

theorem extend_numeral_break {start : Nat} {read : List Char} :
    ∀ c ∈ breaks, (Mode.numeral start read).extend c = none := by
  have hclass : ∀ c ∈ breaks, c.isDigit = false := forall_breaks (by decide)
  intro c hc
  simp [Mode.extend, hclass c hc]

theorem extend_hex_break {start : Nat} {read : List Char} :
    ∀ c ∈ breaks, (Mode.hex start read).extend c = none := by
  have hclass : ∀ c ∈ breaks, isHexDigit c = false := forall_breaks (by decide)
  intro c hc
  simp [Mode.extend, hclass c hc]

theorem extend_binary_break {start : Nat} {read : List Char} :
    ∀ c ∈ breaks, (Mode.binary start read).extend c = none := by
  have hclass : ∀ c ∈ breaks, (c == '0' || c == '1') = false := forall_breaks (by decide)
  intro c hc
  simp [Mode.extend, hclass c hc]

theorem extend_binary {start : Nat} {c : Char} {read : List Char}
    (hc : (c == '0' || c == '1') = true) :
    (Mode.binary start read).extend c = some (.binary start (c :: read)) :=
  if_pos hc

theorem extend_comment {c : Char} (hc : (c != '\n') = true) :
    Mode.comment.extend c = some .comment := by
  have hne : c ≠ '\n' := by simpa using hc
  simp [Mode.extend, hne]

/-- Spelling a legal lexeme gives its token, when a break follows or the lexeme is a
mark. -/
theorem scan_spelling {l : Lexeme} (hl : l.Legal) {rest : List Char}
    (hrest : l.IsMark ∨ Breaks rest) (pos : Nat) :
    ∃ span pos', scan pos .between (l.spelling ++ rest) = ⟨l, span⟩ :: scan pos' .between rest := by
  cases l with
  | opening => exact ⟨_, _, rfl⟩
  | closing => exact ⟨_, _, rfl⟩
  | colon => exact ⟨_, _, rfl⟩
  | arrow => exact ⟨_, _, rfl⟩
  | stray => cases hl
  | equals =>
      have hbreaks : Breaks rest := hrest.resolve_left id
      have hstop := stops_of_breaks (extend_equals_break pos) hbreaks
      refine ⟨⟨pos, pos + '='.utf8Size⟩, pos + '='.utf8Size, ?_⟩
      show scan (pos + '='.utf8Size) (.equals pos) rest = _
      rw [scan_stop hstop]
      rfl
  | word text =>
      have hbreaks : Breaks rest := hrest.resolve_left id
      cases htext : text.toList with
      | nil =>
          simp only [Lexeme.Legal, htext] at hl
          cases hl
      | cons c cs =>
          simp only [Lexeme.Legal, htext] at hl
          rcases hl with ⟨hc, hcs⟩
          rcases scan_extend (.word pos) (fun d read hd => by simp [Mode.extend, hd]) hcs
              (pos + c.utf8Size) [c] rest with
            ⟨pos', hpos'⟩
          have hread : String.ofList (cs.reverse ++ [c]).reverse = text := by
            rw [List.reverse_append, List.reverse_reverse, ← String.ofList_toList (s := text),
              htext]
            rfl
          refine ⟨⟨pos, pos'⟩, pos', ?_⟩
          show scan pos .between (text.toList ++ rest) = _
          rw [htext, List.cons_append, scan_cons, step_between, openAt_of_isWordStart hc]
          rw [List.nil_append, hpos', scan_stop (stops_of_breaks extend_word_break hbreaks)]
          show ([⟨.word (String.ofList (cs.reverse ++ [c]).reverse), ⟨pos, pos'⟩⟩] :
            List Token) ++ _
            = _
          rw [hread]
          rfl
  | numeral ds =>
      have hbreaks : Breaks rest := hrest.resolve_left id
      rcases hl with ⟨hne, hds⟩
      cases ds with
      | nil => exact absurd rfl hne
      | cons d ds =>
          rcases List.forall_mem_cons.mp hds with ⟨hd, hds⟩
          rcases scan_extend (.numeral pos) (fun e read he => by simp [Mode.extend, he]) hds
              (pos + d.utf8Size) [d] rest with
            ⟨pos', hpos'⟩
          refine ⟨⟨pos, pos'⟩, pos', ?_⟩
          show scan pos .between (d :: ds ++ rest) = _
          rw [List.cons_append, scan_cons, step_between, openAt_of_isDigit hd]
          rw [List.nil_append, hpos', scan_stop (stops_of_breaks extend_numeral_break hbreaks)]
          simp [Mode.close]
  | hex ds =>
      have hbreaks : Breaks rest := hrest.resolve_left id
      rcases hl with ⟨hne, hds⟩
      rcases scan_extend (.hex pos) (fun e read he => by simp [Mode.extend, he]) hds
          (pos + '#'.utf8Size + 'x'.utf8Size) [] rest with
        ⟨pos', hpos'⟩
      refine ⟨⟨pos, pos'⟩, pos', ?_⟩
      show scan (pos + '#'.utf8Size + 'x'.utf8Size) (.hex pos []) (ds ++ rest) = _
      rw [hpos', scan_stop (stops_of_breaks extend_hex_break hbreaks)]
      simp [Mode.close, hne]
  | binary ds =>
      have hbreaks : Breaks rest := hrest.resolve_left id
      rcases hl with ⟨hne, hds⟩
      rcases scan_extend (.binary pos) (fun e read he => extend_binary he) hds
          (pos + '#'.utf8Size + 'b'.utf8Size) [] rest with
        ⟨pos', hpos'⟩
      refine ⟨⟨pos, pos'⟩, pos', ?_⟩
      show scan (pos + '#'.utf8Size + 'b'.utf8Size) (.binary pos []) (ds ++ rest) = _
      rw [hpos', scan_stop (stops_of_breaks extend_binary_break hbreaks)]
      simp [Mode.close, hne]

/-!
## Layouts
-/

/-- Blanks, and comments up to the ends of their lines. -/
inductive Gap : List Char → Prop
  | nil : Gap []
  | blank {c rest} (hc : isBlank c = true) (hrest : Gap rest) : Gap (c :: rest)
  | comment {body rest} (hbody : ∀ c ∈ body, (c != '\n') = true) (hrest : Gap rest) :
      Gap (';' :: (body ++ '\n' :: rest))

theorem openAt_of_isBlank {pos : Nat} {c : Char} (h : isBlank c = true) :
    openAt pos c = ([], .between) := by
  have hne : ∀ d : Char, isBlank d = false → (c == d) = false :=
    fun d => beq_eq_false_of_class h
  unfold openAt
  simp [hne '(' rfl, hne ')' rfl, hne ':' rfl, hne '=' rfl, hne ';' rfl, hne '#' rfl, h]

theorem scan_gap {g : List Char} (hg : Gap g) (pos : Nat) (rest : List Char) :
    ∃ pos', scan pos .between (g ++ rest) = scan pos' .between rest := by
  induction hg generalizing pos with
  | nil => exact ⟨pos, rfl⟩
  | @blank c g hc _ ih =>
      rcases ih (pos + c.utf8Size) with ⟨pos', hpos'⟩
      refine ⟨pos', ?_⟩
      rw [List.cons_append, scan_cons, step_between, openAt_of_isBlank hc]
      exact hpos'
  | @comment body g hbody _ ih =>
      rcases scan_extend (fun _ => .comment) (fun c _ hc => extend_comment hc) hbody
          (pos + ';'.utf8Size) [] ('\n' :: (g ++ rest)) with
        ⟨pos₁, hpos₁⟩
      rcases ih (pos₁ + '\n'.utf8Size) with ⟨pos', hpos'⟩
      refine ⟨pos', ?_⟩
      show scan pos .between (';' :: ((body ++ '\n' :: g) ++ rest)) = _
      rw [List.append_assoc]
      show scan (pos + ';'.utf8Size) .comment (body ++ '\n' :: (g ++ rest)) = _
      rw [hpos₁]
      exact hpos'

/-- A text that spells lexemes in order, with gaps between them. Without a gap, the
lexeme before or the one after has to be a mark. -/
inductive Layout : List Lexeme → List Char → Prop
  | nil {g} (hg : Gap g) : Layout [] g
  | cons {g l ls rest} (hg : Gap g) (hl : l.Legal) (hbreak : l.IsMark ∨ Breaks rest)
      (hrest : Layout ls rest) : Layout (l :: ls) (g ++ (l.spelling ++ rest))

theorem scan_layout {ls : List Lexeme} {s : List Char} (h : Layout ls s) (pos : Nat) :
    (scan pos .between s).map (·.value) = ls := by
  induction h generalizing pos with
  | nil hg =>
      rcases scan_gap hg pos [] with ⟨pos', hpos'⟩
      rw [List.append_nil] at hpos'
      rw [hpos']
      rfl
  | cons hg hl hbreak _ ih =>
      rcases scan_gap hg pos _ with ⟨pos₁, hpos₁⟩
      rcases scan_spelling hl hbreak pos₁ with ⟨span, pos', hpos'⟩
      rw [hpos₁, hpos', List.map_cons, ih pos']

theorem ofText_layout {ls : List Lexeme} {s : List Char} (h : Layout ls s) :
    (ofText s).map (·.value) = ls :=
  scan_layout h 0

/-- `Spells ls s`: the text `s` spells the lexemes `ls` in front of any layout that
begins with a break. -/
def Spells (ls : List Lexeme) (s : List Char) : Prop :=
  ∀ ls' rest, Breaks rest → Layout ls' rest → Layout (ls ++ ls') (s ++ rest)

theorem gap_append {g g' : List Char} (hg : Gap g) (hg' : Gap g') : Gap (g ++ g') := by
  induction hg with
  | nil => exact hg'
  | blank hc _ ih => exact .blank hc ih
  | @comment body g hbody _ ih =>
      rw [List.cons_append, List.append_assoc, List.cons_append]
      exact .comment hbody ih

theorem layout_gap {g : List Char} (hg : Gap g) {ls : List Lexeme} {s : List Char}
    (h : Layout ls s) : Layout ls (g ++ s) := by
  cases h with
  | nil hs => exact .nil (gap_append hg hs)
  | @cons lead l ls rest hlead hl hbreak hrest =>
      rw [← List.append_assoc]
      exact .cons (gap_append hg hlead) hl hbreak hrest

theorem layout_blank {c : Char} (hc : isBlank c = true) {ls : List Lexeme} {s : List Char}
    (h : Layout ls s) : Layout ls (c :: s) :=
  layout_gap (.blank hc .nil) h

theorem layout_mark {l : Lexeme} (hl : l.Legal) (hmark : l.IsMark) {ls : List Lexeme}
    {s : List Char} (h : Layout ls s) : Layout (l :: ls) (l.spelling ++ s) :=
  .cons .nil hl (Or.inl hmark) h

theorem spells_lexeme {l : Lexeme} (hl : l.Legal) : Spells [l] l.spelling := by
  intro ls rest hbreaks hrest
  exact .cons .nil hl (Or.inr hbreaks) hrest

theorem spells_blank {c : Char} (hc : isBlank c = true) (hbreak : c ∈ breaks)
    {ls ls' : List Lexeme} {s s' : List Char} (h : Spells ls s) (h' : Spells ls' s') :
    Spells (ls ++ ls') (s ++ c :: s') := by
  intro ls'' rest hbreaks hrest
  rw [List.append_assoc, List.append_assoc]
  exact h _ _ (breaks_cons hbreak) (layout_blank hc (h' _ _ hbreaks hrest))

/-- A text that ends its last line, so that any layout can follow. -/
def SpellsLines (ls : List Lexeme) (s : List Char) : Prop :=
  ∀ ls' rest, Layout ls' rest → Layout (ls ++ ls') (s ++ rest)

theorem spellsLines_newline {ls : List Lexeme} {s : List Char} (h : Spells ls s) :
    SpellsLines ls (s ++ ['\n']) := by
  intro ls' rest hrest
  rw [List.append_assoc]
  exact h _ _ (breaks_cons (by decide)) (layout_blank rfl hrest)

theorem spellsLines_nil : SpellsLines [] [] :=
  fun _ _ hrest => hrest

theorem spellsLines_append {ls ls' : List Lexeme} {s s' : List Char} (h : SpellsLines ls s)
    (h' : SpellsLines ls' s') : SpellsLines (ls ++ ls') (s ++ s') := by
  intro ls'' rest hrest
  rw [List.append_assoc, List.append_assoc]
  exact h _ _ (h' _ _ hrest)

theorem layout_of_spellsLines {ls : List Lexeme} {s : List Char} (h : SpellsLines ls s) :
    Layout ls s := by
  have hlayout := h [] [] (.nil .nil)
  rw [List.append_nil, List.append_nil] at hlayout
  exact hlayout

end Token
end Program
end BitEquiv

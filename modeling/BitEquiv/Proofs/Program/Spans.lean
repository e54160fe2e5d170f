import BitEquiv.Proofs.Program.Scanning

/-!
# Tokens of any text

A span is a stretch of a text between two of its characters. Every token of a text is legal
or stray, and stands where its span says, behind the tokens before it.
-/

namespace BitEquiv
namespace Program

/-!
## Stretches of a text
-/

def byteSize (s : List Char) : Nat := Text.total (s.map Char.utf8Size)

theorem byteSize_append (s s' : List Char) : byteSize (s ++ s') = byteSize s + byteSize s' := by
  induction s with
  | nil => exact (Nat.zero_add _).symm
  | cons c s ih =>
      show c.utf8Size + byteSize (s ++ s') = c.utf8Size + byteSize s + byteSize s'
      rw [ih, Nat.add_assoc]

/-- A place between two characters of a text, or at one of its ends. -/
def Boundary (s : List Char) (pos : Nat) : Prop :=
  ∃ before after, s = before ++ after ∧ pos = byteSize before

theorem Boundary.le {s : List Char} {pos : Nat} (h : Boundary s pos) : pos ≤ byteSize s := by
  rcases h with ⟨before, after, rfl, rfl⟩
  rw [byteSize_append]
  exact Nat.le_add_right _ _

namespace Span

structure InText (s : List Char) (span : Span) : Prop where
  start : Boundary s span.start
  stop : Boundary s span.stop
  ordered : span.start ≤ span.stop

def Holds (s : List Char) (span : Span) (mid : List Char) : Prop :=
  ∃ before after, s = before ++ (mid ++ after) ∧
    span = ⟨byteSize before, byteSize (before ++ mid)⟩

/-- The parts lie inside the span, in order and apart. -/
structure Contains (span : Span) (parts : List Span) : Prop where
  inside : ∀ part ∈ parts, span.start ≤ part.start ∧ part.stop ≤ span.stop
  apart : parts.Pairwise fun a b => a.stop ≤ b.start

theorem Holds.inText {s mid : List Char} {span : Span} (h : span.Holds s mid) :
    span.InText s := by
  rcases h with ⟨before, after, rfl, rfl⟩
  constructor
  · exact ⟨before, mid ++ after, rfl, rfl⟩
  · exact ⟨before ++ mid, after, (List.append_assoc _ _ _).symm, rfl⟩
  · show byteSize before ≤ byteSize (before ++ mid)
    rw [byteSize_append]
    exact Nat.le_add_right _ _

/-- A stretch of the text goes on for no longer than the text. -/
theorem InText.start_add_length {s : List Char} {span : Span} (h : span.InText s) :
    span.start + span.length ≤ byteSize s := by
  have hstop := h.stop.le
  have hordered := h.ordered
  unfold length
  omega

theorem contains_nil {span : Span} : span.Contains [] := ⟨by simp, .nil⟩

theorem Contains.snoc {lo pos : Nat} {parts : List Span} {part : Span}
    (h : Contains ⟨lo, pos⟩ parts) (hlo : lo ≤ pos) (hpos : pos ≤ part.start)
    (hpart : part.start ≤ part.stop) : Contains ⟨lo, part.stop⟩ (parts ++ [part]) := by
  constructor
  · intro p hp
    rcases List.mem_append.mp hp with hp | hp
    · have hinside := h.inside p hp
      simp only at hinside ⊢
      omega
    · rw [List.mem_singleton.mp hp]
      exact ⟨Nat.le_trans hlo hpos, Nat.le_refl _⟩
  · rw [List.pairwise_append]
    refine ⟨h.apart, List.pairwise_singleton _ _, ?_⟩
    intro p hp q hq
    rw [List.mem_singleton.mp hq]
    exact Nat.le_trans (h.inside p hp).2 hpos

theorem Contains.cons {lo hi : Nat} {parts : List Span} {part : Span}
    (h : Contains ⟨part.stop, hi⟩ parts) (hlo : lo ≤ part.start)
    (hpart : part.start ≤ part.stop) (hhi : part.stop ≤ hi) :
    Contains ⟨lo, hi⟩ (part :: parts) := by
  constructor
  · intro p hp
    rcases List.mem_cons.mp hp with rfl | hp
    · exact ⟨hlo, hhi⟩
    · have hinside := h.inside p hp
      simp only at hinside ⊢
      omega
  · exact .cons (fun p hp => (h.inside p hp).1) h.apart

theorem Contains.widen {lo pos hi : Nat} {parts : List Span} (h : Contains ⟨lo, pos⟩ parts)
    (hhi : pos ≤ hi) : Contains ⟨lo, hi⟩ parts :=
  ⟨fun p hp => ⟨(h.inside p hp).1, Nat.le_trans (h.inside p hp).2 hhi⟩, h.apart⟩

end Span

/-!
## Tokens where they stand
-/

namespace Token

def LegalOrStray (l : Lexeme) : Prop := l = .stray ∨ l.Legal

def SpelledAs (l : Lexeme) (mid : List Char) : Prop := l = .stray ∨ (l.Legal ∧ l.spelling = mid)

def Spelled (s : List Char) (t : Token) : Prop :=
  ∃ mid, t.span.Holds s mid ∧ SpelledAs t.value mid

/-- Tokens from a place on, each behind the ones before it. -/
inductive From (s : List Char) : Nat → List Token → Prop
  | nil {pos} : From s pos []
  | cons {pos t rest} (hpos : pos ≤ t.span.start) (ht : t.Spelled s)
      (hrest : From s t.span.stop rest) : From s pos (t :: rest)

theorem From.mono {s : List Char} {lo pos : Nat} {tokens : List Token} (h : From s pos tokens)
    (hlo : lo ≤ pos) : From s lo tokens := by
  cases h with
  | nil => exact .nil
  | cons hpos ht hrest => exact .cons (Nat.le_trans hlo hpos) ht hrest

theorem From.legalOrStray {s : List Char} {pos : Nat} {tokens : List Token}
    (h : From s pos tokens) : ∀ t ∈ tokens, LegalOrStray t.value := by
  induction h with
  | nil => simp
  | cons _ ht _ ih =>
      rcases ht with ⟨mid, _, hspelled⟩
      exact List.forall_mem_cons.mpr ⟨hspelled.imp_right And.left, ih⟩

/-!
## Tokens under way
-/

/-- The token under way: where it starts, and its characters so far. -/
def Mode.underWay : Mode → Option (Nat × List Char)
  | .between => none
  | .comment => none
  | .word start read => some (start, read.reverse)
  | .numeral start read => some (start, read.reverse)
  | .hash start => some (start, ['#'])
  | .hex start read => some (start, '#' :: 'x' :: read.reverse)
  | .binary start read => some (start, '#' :: 'b' :: read.reverse)
  | .equals start => some (start, ['='])

/-- The characters of the token under way can begin a legal lexeme. -/
def Mode.Legal : Mode → Prop
  | .word _ read => Identifier read.reverse
  | .numeral _ read => read ≠ [] ∧ ∀ d ∈ read, d.isDigit = true
  | .hex _ read => ∀ d ∈ read, isHexDigit d = true
  | .binary _ read => ∀ d ∈ read, (d == '0' || d == '1') = true
  | _ => True

theorem identifier_append {s : List Char} {c : Char} (hs : Identifier s)
    (hc : isWordChar c = true) : Identifier (s ++ [c]) := by
  cases s with
  | nil => cases hs
  | cons d rest =>
      refine ⟨hs.1, ?_⟩
      intro e he
      rcases List.mem_append.mp he with he | he
      · exact hs.2 e he
      · rw [List.mem_singleton.mp he]
        exact hc

theorem Mode.close_of_underWay {mode : Mode} {start : Nat} {mid : List Char}
    (h : mode.underWay = some (start, mid)) (hlegal : mode.Legal) (stop : Nat) :
    ∃ l : Lexeme, mode.close stop = [⟨l, ⟨start, stop⟩⟩] ∧ SpelledAs l mid := by
  cases mode with
  | between => cases h
  | comment => cases h
  | equals start =>
      cases h
      exact ⟨_, rfl, Or.inr ⟨trivial, rfl⟩⟩
  | hash start =>
      cases h
      exact ⟨_, rfl, Or.inl rfl⟩
  | word start read =>
      cases h
      have hword : (String.ofList read.reverse).toList = read.reverse := String.toList_ofList
      refine ⟨_, rfl, Or.inr ⟨?_, hword⟩⟩
      show Identifier (String.ofList read.reverse).toList
      rw [hword]
      exact hlegal
  | numeral start read =>
      cases h
      refine ⟨_, rfl, Or.inr ⟨⟨?_, ?_⟩, rfl⟩⟩
      · simpa using hlegal.1
      · exact fun d hd => hlegal.2 d (List.mem_reverse.mp hd)
  | hex start read =>
      cases h
      refine ⟨_, rfl, ?_⟩
      cases read with
      | nil => exact Or.inl rfl
      | cons c read =>
          exact Or.inr ⟨⟨by simp, fun d hd => hlegal d (List.mem_reverse.mp hd)⟩, rfl⟩
  | binary start read =>
      cases h
      refine ⟨_, rfl, ?_⟩
      cases read with
      | nil => exact Or.inl rfl
      | cons c read =>
          exact Or.inr ⟨⟨by simp, fun d hd => hlegal d (List.mem_reverse.mp hd)⟩, rfl⟩

theorem Mode.extend_of_underWay {mode next : Mode} {c : Char} {start : Nat} {mid : List Char}
    (h : mode.underWay = some (start, mid)) (hlegal : mode.Legal)
    (hnext : mode.extend c = some next) :
    next.underWay = some (start, mid ++ [c]) ∧ next.Legal := by
  cases mode with
  | between => cases h
  | comment => cases h
  | equals start => cases hnext
  | word start read =>
      cases h
      simp only [Mode.extend] at hnext
      split at hnext
      · rename_i hc
        cases hnext
        simp only [Mode.underWay, Mode.Legal, List.reverse_cons]
        exact ⟨trivial, identifier_append hlegal hc⟩
      · cases hnext
  | numeral start read =>
      cases h
      simp only [Mode.extend] at hnext
      split at hnext
      · rename_i hc
        cases hnext
        simp only [Mode.underWay, List.reverse_cons]
        exact ⟨trivial, List.cons_ne_nil c read, List.forall_mem_cons.mpr ⟨hc, hlegal.2⟩⟩
      · cases hnext
  | hash start =>
      cases h
      simp only [Mode.extend, beq_iff_eq] at hnext
      split at hnext
      · rename_i hc
        cases hnext
        rw [hc]
        exact ⟨rfl, List.forall_mem_nil _⟩
      · split at hnext
        · rename_i hc
          cases hnext
          rw [hc]
          exact ⟨rfl, List.forall_mem_nil _⟩
        · cases hnext
  | hex start read =>
      cases h
      simp only [Mode.extend] at hnext
      split at hnext
      · rename_i hc
        cases hnext
        simp only [Mode.underWay, List.reverse_cons]
        exact ⟨rfl, List.forall_mem_cons.mpr ⟨hc, hlegal⟩⟩
      · cases hnext
  | binary start read =>
      cases h
      simp only [Mode.extend] at hnext
      split at hnext
      · rename_i hc
        cases hnext
        simp only [Mode.underWay, List.reverse_cons]
        exact ⟨rfl, List.forall_mem_cons.mpr ⟨hc, hlegal⟩⟩
      · cases hnext

theorem Mode.extend_of_idle {mode next : Mode} {c : Char} (h : mode.underWay = none)
    (hnext : mode.extend c = some next) : next.underWay = none := by
  cases mode with
  | between => cases hnext
  | comment =>
      simp only [Mode.extend] at hnext
      split at hnext <;> cases hnext <;> rfl
  | equals start => cases h
  | word start read => cases h
  | numeral start read => cases h
  | hash start => cases h
  | hex start read => cases h
  | binary start read => cases h

/-- A character that does not extend a token is one, is left out, or begins one. -/
inductive Opens (pos : Nat) (c : Char) : List Token × Mode → Prop
  | token {l : Lexeme} (hl : SpelledAs l [c]) :
      Opens pos c ([⟨l, ⟨pos, pos + c.utf8Size⟩⟩], .between)
  | idle {next : Mode} (h : next.underWay = none) : Opens pos c ([], next)
  | busy {next : Mode} (h : next.underWay = some (pos, [c])) (hlegal : next.Legal) :
      Opens pos c ([], next)

theorem opens_openAt (pos : Nat) (c : Char) : Opens pos c (openAt pos c) := by
  unfold openAt
  simp only [beq_iff_eq]
  repeat' split
  · rename_i hc
    exact .token (Or.inr ⟨trivial, congrArg List.singleton hc.symm⟩)
  · rename_i hc
    exact .token (Or.inr ⟨trivial, congrArg List.singleton hc.symm⟩)
  · rename_i hc
    exact .token (Or.inr ⟨trivial, congrArg List.singleton hc.symm⟩)
  · rename_i hc
    rw [hc]
    exact .busy rfl trivial
  · exact .idle rfl
  · rename_i hc
    rw [hc]
    exact .busy rfl trivial
  · exact .idle rfl
  · rename_i hc
    exact .busy rfl ⟨hc, List.forall_mem_nil _⟩
  · rename_i hc
    exact .busy rfl ⟨List.cons_ne_nil c [], by simpa using hc⟩
  · exact .token (Or.inl rfl)

/-!
## Tokens in their places
-/

/-- What comes next starts at the given place or later, once the scanner is behind `before`. -/
inductive Mode.Since (before : List Char) (mode : Mode) : Nat → Prop
  | idle (h : mode.underWay = none) : Since before mode (byteSize before)
  | busy {start mid} (h : mode.underWay = some (byteSize start, mid)) (hlegal : mode.Legal)
      (hbefore : before = start ++ mid) : Since before mode (byteSize start)

section Steps

variable {s before after : List Char} {mode : Mode} {lo : Nat}

theorem from_close (hs : s = before ++ after) (h : mode.Since before lo) {tokens : List Token}
    (htokens : From s (byteSize before) tokens) :
    From s lo (mode.close (byteSize before) ++ tokens) := by
  cases h with
  | idle hidle =>
      have hclose : mode.close (byteSize before) = [] := by
        cases mode <;> first | rfl | cases hidle
      rw [hclose]
      exact htokens
  | @busy start mid hbusy hlegal hbefore =>
      rcases Mode.close_of_underWay hbusy hlegal (byteSize before) with ⟨l, hclose, hl⟩
      rw [hclose]
      refine .cons (Nat.le_refl _) ⟨mid, ⟨start, after, ?_, ?_⟩, hl⟩ htokens
      · rw [hs, hbefore, List.append_assoc]
      · rw [hbefore]

theorem from_openAt {c : Char} (hs : s = before ++ c :: after) :
    ∃ lo', (openAt (byteSize before) c).2.Since (before ++ [c]) lo' ∧
      ∀ tokens, From s lo' tokens →
        From s (byteSize before) ((openAt (byteSize before) c).1 ++ tokens) := by
  have hsize : byteSize before + c.utf8Size = byteSize (before ++ [c]) := by
    rw [byteSize_append]
    rfl
  have hopens := opens_openAt (byteSize before) c
  generalize openAt (byteSize before) c = opened at hopens ⊢
  cases hopens with
  | token hl =>
      rw [hsize]
      refine ⟨byteSize (before ++ [c]), .idle rfl, ?_⟩
      intro tokens htokens
      exact .cons (Nat.le_refl _) ⟨[c], ⟨before, after, hs, rfl⟩, hl⟩ htokens
  | idle hidle =>
      refine ⟨byteSize (before ++ [c]), .idle hidle, ?_⟩
      intro tokens htokens
      exact htokens.mono (by omega)
  | busy hbusy hlegal =>
      exact ⟨byteSize before, .busy hbusy hlegal rfl, fun tokens htokens => htokens⟩

/-- The tokens of a step take their places in front of all later ones. -/
theorem from_step {c : Char} (hs : s = before ++ c :: after) (h : mode.Since before lo) :
    ∃ lo', (step (byteSize before) mode c).2.Since (before ++ [c]) lo' ∧
      ∀ tokens, From s lo' tokens →
        From s lo ((step (byteSize before) mode c).1 ++ tokens) := by
  unfold step
  split
  · rename_i start
    cases h with
    | idle hidle => cases hidle
    | @busy start mid hbusy _ hbefore =>
        cases hbusy
        have hspan : byteSize before + 1 = byteSize (start ++ ['=', '>']) := by
          rw [hbefore, byteSize_append, byteSize_append]
          rfl
        refine ⟨byteSize (before ++ ['>']), .idle rfl, ?_⟩
        intro tokens htokens
        refine .cons (Nat.le_refl _) ⟨['=', '>'], ⟨start, after, ?_, ?_⟩, Or.inr ⟨trivial, rfl⟩⟩ ?_
        · rw [hs, hbefore, List.append_assoc]
          rfl
        · rw [hspan]
        · rw [byteSize_append] at htokens
          exact htokens
  · split
    · rename_i next hnext
      cases h with
      | idle hidle =>
          refine ⟨byteSize (before ++ [c]), .idle (Mode.extend_of_idle hidle hnext), ?_⟩
          intro tokens htokens
          rw [byteSize_append] at htokens
          exact htokens.mono (Nat.le_add_right _ _)
      | @busy start mid hbusy hlegal hbefore =>
          rcases Mode.extend_of_underWay hbusy hlegal hnext with ⟨hbusy', hlegal'⟩
          refine ⟨byteSize start, .busy hbusy' hlegal' ?_, fun tokens htokens => htokens⟩
          rw [hbefore, List.append_assoc]
    · rcases from_openAt hs with ⟨lo', hsince, hfrom⟩
      refine ⟨lo', hsince, ?_⟩
      intro tokens htokens
      rw [List.append_assoc]
      exact from_close hs h (hfrom tokens htokens)

end Steps

theorem from_scan {s before rest : List Char} (hs : s = before ++ rest) {mode : Mode} {lo : Nat}
    (h : mode.Since before lo) : From s lo (scan (byteSize before) mode rest) := by
  induction rest generalizing before mode lo with
  | nil =>
      have hclose := from_close hs h From.nil
      rw [List.append_nil] at hclose
      exact hclose
  | cons c rest ih =>
      rcases from_step hs h with ⟨lo', hsince, hfrom⟩
      have hsize : byteSize before + c.utf8Size = byteSize (before ++ [c]) := by
        rw [byteSize_append]
        rfl
      rw [scan_cons, hsize]
      apply hfrom
      exact ih (by rw [hs, List.append_assoc]; rfl) hsince

/-- The tokens of a text stand in it where their spans say. -/
theorem from_ofText (s : List Char) : From s 0 (ofText s) := by
  have hsince : Mode.between.Since [] 0 := .idle rfl
  exact from_scan (List.nil_append s).symm hsince

theorem ofText_legal (s : List Char) : ∀ t ∈ ofText s, LegalOrStray t.value :=
  (from_ofText s).legalOrStray

end Token

end Program
end BitEquiv

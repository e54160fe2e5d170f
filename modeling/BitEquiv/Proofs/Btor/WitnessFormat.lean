import BitEquiv.Btor.Witness
import BitEquiv.Proofs.Text.Layout
import BitEquiv.Proofs.Text.Numeral

/-!
# Printed witnesses

The lines that print a witness, each as its words. No line of them is passed over by a reader,
and every witness that can be printed has a text.
-/

namespace BitEquiv
namespace Btor

/-!
## Printed witnesses
-/

/-- A mark with a number behind it. -/
def markWord (mark : Char) (n : Nat) : List Char := mark :: (Text.decimal n).toList

namespace Property

def index : Property → Nat
  | bad i => i
  | justice i => i

def word : Property → List Char
  | bad i => markWord 'b' i
  | justice i => markWord 'j' i

end Property

namespace Assignment

/-- The identifier, the index of an array element, the bits and the symbol. -/
def words (a : Assignment) : List (List Char) :=
  (Text.decimal a.id).toList ::
    ((a.index.map fun index => '[' :: (index ++ [']'])).toList ++ a.bits :: a.symbol.toList)

/-- The number fits a machine word, the bits and the index are bits, and the symbol is one
word. -/
structure Printable (a : Assignment) : Prop where
  id : a.id < 2 ^ 64
  index : ∀ index ∈ a.index, Witness.isBinary index = true
  bits : Witness.isBinary a.bits = true
  symbol : ∀ symbol ∈ a.symbol, Text.IsWord symbol

end Assignment

namespace Frame

/-- An input part, and a state part in front of it. Without states that part may be left out. -/
inductive Prints : Frame → List (List (List Char)) → Prop
  | both (f : Frame) :
      Prints f ([markWord '#' f.step] :: f.states.map Assignment.words ++
        [markWord '@' f.step] :: f.inputs.map Assignment.words)
  | inputs {f : Frame} : f.states = [] →
      Prints f ([markWord '@' f.step] :: f.inputs.map Assignment.words)

structure Printable (f : Frame) : Prop where
  step : f.step < 2 ^ 64
  states : ∀ a ∈ f.states, a.Printable
  inputs : ∀ a ∈ f.inputs, a.Printable

end Frame

inductive PrintsFrames : List Frame → List (List (List Char)) → Prop
  | nil : PrintsFrames [] [[['.']]]
  | cons {f : Frame} {fs : List Frame} {ls ls' : List (List (List Char))} :
      f.Prints ls → PrintsFrames fs ls' → PrintsFrames (f :: fs) (ls ++ ls')

namespace Witness

inductive Prints : Witness → List (List (List Char)) → Prop
  | mk {w : Witness} {ls : List (List (List Char))} : PrintsFrames w.frames ls →
      Prints w (["sat".toList] :: w.properties.map Property.word :: ls)

/-- There is a property, and all numbers, bits and symbols can be written. -/
structure Printable (w : Witness) : Prop where
  nonempty : w.properties ≠ []
  properties : ∀ p ∈ w.properties, p.index < 2 ^ 64
  frames : ∀ f ∈ w.frames, f.Printable

/-!
## Words
-/

theorem exists_digit (n : Nat) :
    ∃ c digits, (Text.decimal n).toList = c :: digits ∧ c.isAlphanum = true := by
  have hwrites := Text.writes_decimal n
  cases hdigits : (Text.decimal n).toList with
  | nil => exact absurd hdigits hwrites.ne_nil
  | cons c digits =>
      have hc : c ∈ (Text.decimal n).toList := by
        rw [hdigits]
        exact List.mem_cons_self
      exact ⟨c, digits, rfl, hwrites.isAlphanum (by decide) c hc⟩

theorem isWord_decimal (n : Nat) : Text.IsWord (Text.decimal n).toList := by
  have hwrites := Text.writes_decimal n
  exact ⟨hwrites.ne_nil,
    fun c hc => Text.isBlank_of_isAlphanum (hwrites.isAlphanum (by decide) c hc)⟩

theorem isWord_mark {mark : Char} (h : Text.isBlank mark = false) (n : Nat) :
    Text.IsWord (markWord mark n) :=
  ⟨List.cons_ne_nil _ _, List.forall_mem_cons.mpr ⟨h, (isWord_decimal n).solid⟩⟩

theorem isWord_binary {bits : List Char} (h : isBinary bits = true) : Text.IsWord bits := by
  rcases Bool.and_eq_true_iff.mp h with ⟨hne, hbits⟩
  refine ⟨by simpa using hne, ?_⟩
  intro c hc
  have hdigit : c = '0' ∨ c = '1' := by simpa using List.all_eq_true.mp hbits c hc
  rcases hdigit with rfl | rfl <;> decide

theorem isWord_brackets {index : List Char} (h : isBinary index = true) :
    Text.IsWord ('[' :: (index ++ [']'])) := by
  refine ⟨List.cons_ne_nil _ _, List.forall_mem_cons.mpr ⟨by decide, ?_⟩⟩
  rw [List.forall_mem_append]
  exact ⟨(isWord_binary h).solid, List.forall_mem_singleton.mpr (by decide)⟩

theorem isWord_assignment {a : Assignment} (h : a.Printable) : ∀ w ∈ a.words, Text.IsWord w := by
  unfold Assignment.words
  rw [List.forall_mem_cons, List.forall_mem_append, List.forall_mem_cons]
  refine ⟨isWord_decimal a.id, ?_, isWord_binary h.bits, ?_⟩
  · intro w hw
    rcases Option.map_eq_some_iff.mp (Option.mem_toList.mp hw) with ⟨index, hindex, rfl⟩
    exact isWord_brackets (h.index index hindex)
  · intro w hw
    exact h.symbol w (Option.mem_toList.mp hw)

/-!
## Lines
-/

theorem telling_mark {mark : Char} (hblank : Text.isBlank mark = false) (hmark : mark ≠ ';')
    (n : Nat) : Text.Telling [markWord mark n] :=
  ⟨⟨mark, _, [], rfl, hmark⟩, List.forall_mem_singleton.mpr (isWord_mark hblank n)⟩

theorem telling_assignment {a : Assignment} (h : a.Printable) : Text.Telling a.words := by
  rcases exists_digit a.id with ⟨c, digits, hdigits, hc⟩
  refine ⟨⟨c, digits, a.words.tail, ?_, ?_⟩, isWord_assignment h⟩
  · rw [← hdigits]
    rfl
  · rintro rfl
    cases hc

theorem telling_assignments {as : List Assignment} (h : ∀ a ∈ as, a.Printable) :
    ∀ ws ∈ as.map Assignment.words, Text.Telling ws := by
  intro ws hws
  rcases List.mem_map.mp hws with ⟨a, ha, rfl⟩
  exact telling_assignment (h a ha)

theorem telling_frame {f : Frame} (hf : f.Printable) {ls : List (List (List Char))}
    (h : f.Prints ls) : ∀ ws ∈ ls, Text.Telling ws := by
  have hinputs : ∀ ws ∈ [markWord '@' f.step] :: f.inputs.map Assignment.words,
      Text.Telling ws :=
    List.forall_mem_cons.mpr ⟨telling_mark (by decide) (by decide) _,
      telling_assignments hf.inputs⟩
  cases h with
  | both =>
      rw [List.cons_append, List.forall_mem_cons, List.forall_mem_append]
      exact ⟨telling_mark (by decide) (by decide) _, telling_assignments hf.states, hinputs⟩
  | inputs => exact hinputs

theorem telling_frames {fs : List Frame} (hfs : ∀ f ∈ fs, f.Printable)
    {ls : List (List (List Char))} (h : PrintsFrames fs ls) : ∀ ws ∈ ls, Text.Telling ws := by
  induction h with
  | nil =>
      have hdot : Text.IsWord ['.'] := by decide
      exact List.forall_mem_singleton.mpr ⟨⟨'.', [], [], rfl, by decide⟩,
        List.forall_mem_singleton.mpr hdot⟩
  | cons hf _ ih =>
      rcases List.forall_mem_cons.mp hfs with ⟨hprintable, hfs⟩
      exact List.forall_mem_append.mpr ⟨telling_frame hprintable hf, ih hfs⟩

theorem telling_properties {ps : List Property} (h : ps ≠ []) :
    Text.Telling (ps.map Property.word) := by
  constructor
  · cases ps with
    | nil => exact absurd rfl h
    | cons p ps =>
        cases p with
        | bad i => exact ⟨'b', _, _, rfl, by decide⟩
        | justice i => exact ⟨'j', _, _, rfl, by decide⟩
  · intro w hw
    rcases List.mem_map.mp hw with ⟨p, _, rfl⟩
    cases p with
    | bad i => exact isWord_mark (by decide) i
    | justice i => exact isWord_mark (by decide) i

theorem telling_printed {w : Witness} (hw : w.Printable) {ls : List (List (List Char))}
    (h : w.Prints ls) : ∀ ws ∈ ls, Text.Telling ws := by
  have hsat : Text.IsWord "sat".toList := by decide
  cases h with
  | mk hframes =>
      exact List.forall_mem_cons.mpr
        ⟨⟨⟨'s', _, [], rfl, by decide⟩, List.forall_mem_singleton.mpr hsat⟩,
          List.forall_mem_cons.mpr
            ⟨telling_properties hw.nonempty, telling_frames hw.frames hframes⟩⟩

theorem exists_words {w : Witness} {ls : List (List (List Char))} (h : w.Prints ls) :
    ∃ ws ∈ ls, ws ≠ [] := by
  cases h with
  | mk _ => exact ⟨_, List.mem_cons_self, List.cons_ne_nil _ _⟩

theorem exists_frames (fs : List Frame) : ∃ ls, PrintsFrames fs ls := by
  induction fs with
  | nil => exact ⟨_, .nil⟩
  | cons f fs ih =>
      rcases ih with ⟨ls, hls⟩
      exact ⟨_, .cons (.both f) hls⟩

theorem exists_printed {w : Witness} (hw : w.Printable) (rest : List Char) :
    ∃ ls s, w.Prints ls ∧ Text.Lined ls s rest := by
  rcases exists_frames w.frames with ⟨ls, hls⟩
  have hprints : w.Prints (["sat".toList] :: w.properties.map Property.word :: ls) := .mk hls
  rcases Text.exists_lined (fun ws hws => (telling_printed hw hprints ws hws).isWord) rest with
    ⟨s, hs⟩
  exact ⟨_, s, hprints, hs⟩

end Witness
end Btor
end BitEquiv

import BitEquiv.Proofs.Btor.Witnesses
import BitEquiv.Proofs.Btor.WitnessText
import Mathlib.Data.List.Forall2

/-!
# The parts of a witness

Between its properties and its dot a witness has lines that open a part or assign a value. They
are accepted when they are frames: an input part, behind a state part of the same step if there
is one. But a state part may also break off where another state part begins. It then stands for
a frame that has no input part.
-/

namespace BitEquiv
namespace Btor
namespace Witness

/-!
## Lines of frames
-/

/-- What a line of a frame says: it opens a part, or it assigns a value in the part under way. -/
inductive Entry where
  | states (step : Nat)
  | inputs (step : Nat)
  | value (a : Assignment)

def readEntry (text : List Char) : Except WitnessFault Entry :=
  match text with
  | '#' :: step => (readNumber "frame number" step).map .states
  | '@' :: step => (readNumber "frame number" step).map .inputs
  | _ => (readAssignment text).map .value

def Progress.enter (p : Progress) : Entry → Except WitnessFault Progress
  | .states step => .ok (p.openStates step)
  | .inputs step => p.openInputs step
  | .value a => p.assign a

theorem line_eq (p : Progress) (text : List Char) : p.line text = readEntry text >>= p.enter := by
  unfold readEntry
  split
  · rename_i step
    show (readNumber "frame number" step >>= fun k => pure (p.openStates k)) =
      (readNumber "frame number" step).map Entry.states >>= p.enter
    cases readNumber "frame number" step <;> rfl
  · rename_i step
    show (readNumber "frame number" step >>= fun k => p.openInputs k) =
      (readNumber "frame number" step).map Entry.inputs >>= p.enter
    cases readNumber "frame number" step <;> rfl
  · rename_i hstates hinputs
    have hvalue : p.line text = readAssignment text >>= p.assign := by
      unfold Progress.line
      split
      · exact absurd rfl (hstates _)
      · exact absurd rfl (hinputs _)
      · rfl
    rw [hvalue]
    cases readAssignment text <;> rfl

inductive Enters : Progress → List Entry → Progress → Prop
  | nil (p : Progress) : Enters p [] p
  | cons {p p' p'' : Progress} {e : Entry} {es : List Entry} :
      p.enter e = .ok p' → Enters p' es p'' → Enters p (e :: es) p''

def ReadsAs (rows : List (Nat × List Char)) (es : List Entry) : Prop :=
  List.Forall₂ (fun row e => readEntry row.2 = .ok e) rows es

theorem readEntry_ne_dot {text : List Char} {e : Entry} (h : readEntry text = .ok e) :
    text ≠ ['.'] := by
  intro hdot
  have hfault : readEntry ['.'] = .error (.expectedNumber "assignment id" ['.']) := rfl
  rw [hdot, hfault] at h
  cases h

section Lines

variable {p : Progress} {rows : List (Nat × List Char)} {es : List Entry} {fs : List Frame}

theorem framesFrom_dot (p : Progress) (n : Nat) (rest : List (Nat × List Char)) :
    framesFrom p ((n, ['.']) :: rest) = .ok fs ↔ p.part ≠ .states ∧ p.frames.reverse = fs := by
  rw [framesFrom, if_pos rfl]
  split
  · rename_i hpart
    constructor
    · intro h
      cases h
    · intro h
      exact absurd hpart h.1
  · rename_i hpart
    constructor
    · intro h
      exact ⟨hpart, Except.ok.inj h⟩
    · intro h
      rw [h.2]

theorem framesFrom_entry {n : Nat} {text : List Char} {e : Entry} (h : readEntry text = .ok e)
    (p : Progress) (rest : List (Nat × List Char)) :
    framesFrom p ((n, text) :: rest) = .ok fs ↔
      ∃ p', p.enter e = .ok p' ∧ framesFrom p' rest = .ok fs := by
  have hline : p.line text = p.enter e := by
    rw [line_eq, h]
    rfl
  rw [framesFrom, if_neg (readEntry_ne_dot h), hline]
  cases p.enter e with
  | error fault => simp
  | ok p' => simp

/-- Lines up to the dot are accepted when their entries are, and no state part is under way. -/
theorem framesFrom_readsAs (h : ReadsAs rows es) (n : Nat) (rest : List (Nat × List Char)) :
    framesFrom p (rows ++ (n, ['.']) :: rest) = .ok fs ↔
      ∃ p', Enters p es p' ∧ p'.part ≠ .states ∧ p'.frames.reverse = fs := by
  induction h generalizing p with
  | nil =>
      rw [List.nil_append, framesFrom_dot]
      constructor
      · intro h
        exact ⟨p, .nil p, h⟩
      · intro h
        rcases h with ⟨p', henters, h⟩
        cases henters
        exact h
  | @cons row e rows es hrow hrows ih =>
      rw [List.cons_append, framesFrom_entry hrow]
      constructor
      · intro h
        rcases h with ⟨p', hp', h⟩
        rcases ih.mp h with ⟨p'', henters, h⟩
        exact ⟨p'', .cons hp' henters, h⟩
      · intro h
        rcases h with ⟨p'', henters, h⟩
        cases henters with
        | cons hp' henters => exact ⟨_, hp', ih.mpr ⟨p'', henters, h⟩⟩

/-- Accepted lines have a dot, and what stands in front of it can be read. -/
theorem exists_dot (h : framesFrom p rows = .ok fs) :
    ∃ before es n rest, rows = before ++ (n, ['.']) :: rest ∧ ReadsAs before es := by
  induction rows generalizing p with
  | nil => cases h
  | cons row rows ih =>
      rcases row with ⟨n, text⟩
      by_cases hdot : text = ['.']
      · rw [hdot]
        exact ⟨[], [], n, rows, rfl, .nil⟩
      · rw [framesFrom, if_neg hdot, line_eq] at h
        cases hentry : readEntry text with
        | error fault =>
            rw [hentry] at h
            cases h
        | ok e =>
            have hfrom : framesFrom p ((n, text) :: rows) = .ok fs := by
              rw [framesFrom, if_neg hdot, line_eq]
              exact h
            rcases (framesFrom_entry hentry p rows).mp hfrom with ⟨p', _, hrest⟩
            rcases ih hrest with ⟨before, es, m, rest, hrows, hreads⟩
            refine ⟨(n, text) :: before, e :: es, m, rest, ?_, .cons hentry hreads⟩
            rw [hrows, List.cons_append]

end Lines

/-!
## Sections
-/

/-- Entries that make up frames. The last rule is for a state part that breaks off at the next
one. -/
inductive Sections : List Entry → List Frame → Prop
  | nil : Sections [] []
  | inputs {es : List Entry} {fs : List Frame} (k : Nat) (is : List Assignment) :
      Sections es fs → Sections (.inputs k :: (is.map .value ++ es)) (⟨k, [], is⟩ :: fs)
  | both {es : List Entry} {fs : List Frame} (k : Nat) (ss is : List Assignment) :
      Sections es fs →
        Sections (.states k :: (ss.map .value ++ .inputs k :: (is.map .value ++ es)))
          (⟨k, ss, is⟩ :: fs)
  | broken {es : List Entry} {fs : List Frame} (k j : Nat) (ss : List Assignment) :
      Sections (.states j :: es) fs →
        Sections (.states k :: (ss.map .value ++ .states j :: es)) (⟨k, ss, []⟩ :: fs)

/-- Entries that make up frames with an input part each. -/
inductive Formed : List Entry → List Frame → Prop
  | nil : Formed [] []
  | inputs {es : List Entry} {fs : List Frame} (k : Nat) (is : List Assignment) :
      Formed es fs → Formed (.inputs k :: (is.map .value ++ es)) (⟨k, [], is⟩ :: fs)
  | both {es : List Entry} {fs : List Frame} (k : Nat) (ss is : List Assignment) :
      Formed es fs →
        Formed (.states k :: (ss.map .value ++ .inputs k :: (is.map .value ++ es)))
          (⟨k, ss, is⟩ :: fs)

/-- Entries that complete the frame whose part is under way, with the frames behind it. -/
inductive Completes : Part → Frame → List Entry → List Frame → Prop
  | done {es : List Entry} {fs : List Frame} (f : Frame) :
      Sections es fs → Completes .inputs f es (f :: fs)
  | input {f : Frame} {es : List Entry} {fs : List Frame} {a : Assignment} :
      Completes .inputs { f with inputs := f.inputs ++ [a] } es fs →
        Completes .inputs f (.value a :: es) fs
  | state {f : Frame} {es : List Entry} {fs : List Frame} {a : Assignment} :
      Completes .states { f with states := f.states ++ [a] } es fs →
        Completes .states f (.value a :: es) fs
  | both {f : Frame} {es : List Entry} {fs : List Frame} :
      Completes .inputs f es fs → Completes .states f (.inputs f.step :: es) fs
  | broken {es : List Entry} {fs : List Frame} (f : Frame) (j : Nat) :
      Sections (.states j :: es) fs → Completes .states f (.states j :: es) (f :: fs)

section Sections

variable {es : List Entry} {f : Frame} {fs : List Frame}

theorem Completes.inputs_split (h : Completes .inputs f es fs) :
    ∃ is es' fs', es = is.map .value ++ es' ∧ Sections es' fs' ∧
      fs = { f with inputs := f.inputs ++ is } :: fs' := by
  generalize hpart : Part.inputs = part at h
  induction h with
  | done f hsections =>
      refine ⟨[], _, _, rfl, hsections, ?_⟩
      rw [List.append_nil]
  | @input f es fs a _ ih =>
      rcases ih rfl with ⟨is, es', fs', hes, hsections, hfs⟩
      refine ⟨a :: is, es', fs', ?_, hsections, ?_⟩
      · rw [hes]
        rfl
      · rw [hfs, List.append_assoc]
        rfl
  | state _ _ => cases hpart
  | both _ _ => cases hpart
  | broken _ _ _ => cases hpart

theorem Completes.sections_states (h : Completes .states f es fs) (hinputs : f.inputs = []) :
    Sections (.states f.step :: (f.states.map .value ++ es)) fs := by
  generalize hpart : Part.states = part at h
  induction h with
  | done _ _ => cases hpart
  | input _ _ => cases hpart
  | @state f es fs a _ ih =>
      have hsections := ih hinputs rfl
      rw [List.map_append, List.append_assoc] at hsections
      exact hsections
  | @both f es fs h _ =>
      rcases h.inputs_split with ⟨is, es', fs', hes, hsections, hfs⟩
      rw [hes, hfs, hinputs, List.nil_append]
      exact .both f.step f.states is hsections
  | @broken es fs f j hsections =>
      rcases f with ⟨k, ss, is⟩
      cases hinputs
      exact .broken k j ss hsections

theorem Completes.sections_inputs {k : Nat} (h : Completes .inputs ⟨k, [], []⟩ es fs) :
    Sections (.inputs k :: es) fs := by
  rcases h.inputs_split with ⟨is, es', fs', hes, hsections, hfs⟩
  rw [hes, hfs]
  exact .inputs k is hsections

/-- What an entry does while a part of a frame is under way. -/
inductive Continues (f : Frame) (done : List Frame) : Part → Entry → Progress → Prop
  | states {part : Part} (k : Nat) : part ≠ .outside →
      Continues f done part (.states k) ⟨.states, ⟨k, [], []⟩ :: f :: done⟩
  | inputs (k : Nat) :
      Continues f done .inputs (.inputs k) ⟨.inputs, ⟨k, [], []⟩ :: f :: done⟩
  | both : Continues f done .states (.inputs f.step) ⟨.inputs, f :: done⟩
  | state (a : Assignment) :
      Continues f done .states (.value a)
        ⟨.states, { f with states := f.states ++ [a] } :: done⟩
  | input (a : Assignment) :
      Continues f done .inputs (.value a)
        ⟨.inputs, { f with inputs := f.inputs ++ [a] } :: done⟩

theorem continues_of_enter {part : Part} (hpart : part ≠ .outside) {done : List Frame} {e : Entry}
    {p : Progress} (h : Progress.enter ⟨part, f :: done⟩ e = .ok p) :
    Continues f done part e p := by
  cases e with
  | states k =>
      cases h
      exact .states k hpart
  | inputs k =>
      cases part with
      | outside => exact absurd rfl hpart
      | states =>
          unfold Progress.enter Progress.openInputs at h
          dsimp only at h
          split at h
          · rename_i hstep
            cases h
            rw [← hstep]
            exact .both
          · cases h
      | inputs =>
          cases h
          exact .inputs k
  | value a =>
      cases part with
      | outside => exact absurd rfl hpart
      | states =>
          cases h
          exact .state a
      | inputs =>
          cases h
          exact .input a

/-- Entries that are taken up to the end of an input part complete the frame under way. -/
theorem completes_of_enters {part : Part} (hpart : part ≠ .outside) {done : List Frame}
    {p : Progress} (hp : p.part ≠ .states) (h : Enters ⟨part, f :: done⟩ es p) :
    ∃ fs, Completes part f es fs ∧ p.frames.reverse = done.reverse ++ fs := by
  have hstates : Part.states ≠ .outside := by decide
  have hinputs : Part.inputs ≠ .outside := by decide
  induction es generalizing part f done with
  | nil =>
      cases h
      cases part with
      | outside => exact absurd rfl hpart
      | states => exact absurd rfl hp
      | inputs => exact ⟨[f], .done f .nil, List.reverse_cons⟩
  | cons e es ih =>
      cases h with
      | cons henter h =>
          cases continues_of_enter hpart henter with
          | states k _ =>
              rcases ih hstates h with ⟨fs, hcompletes, hframes⟩
              have hsections := hcompletes.sections_states rfl
              rw [List.reverse_cons, List.append_assoc] at hframes
              cases part with
              | outside => exact absurd rfl hpart
              | states => exact ⟨f :: fs, .broken f k hsections, hframes⟩
              | inputs => exact ⟨f :: fs, .done f hsections, hframes⟩
          | inputs k =>
              rcases ih hinputs h with ⟨fs, hcompletes, hframes⟩
              rw [List.reverse_cons, List.append_assoc] at hframes
              exact ⟨f :: fs, .done f hcompletes.sections_inputs, hframes⟩
          | both =>
              rcases ih hinputs h with ⟨fs, hcompletes, hframes⟩
              exact ⟨fs, .both hcompletes, hframes⟩
          | state a =>
              rcases ih hstates h with ⟨fs, hcompletes, hframes⟩
              exact ⟨fs, .state hcompletes, hframes⟩
          | input a =>
              rcases ih hinputs h with ⟨fs, hcompletes, hframes⟩
              exact ⟨fs, .input hcompletes, hframes⟩

def Progress.start : Progress := ⟨.outside, []⟩

theorem sections_of_enters {p : Progress} (h : Enters .start es p) (hp : p.part ≠ .states) :
    Sections es p.frames.reverse := by
  cases h with
  | nil => exact .nil
  | @cons _ p' _ e es henter h =>
      cases e with
      | states k =>
          cases henter
          have hstates : Part.states ≠ .outside := by decide
          rcases completes_of_enters hstates hp h with ⟨fs, hcompletes, hframes⟩
          rw [hframes]
          exact hcompletes.sections_states rfl
      | inputs k =>
          cases henter
          have hinputs : Part.inputs ≠ .outside := by decide
          rcases completes_of_enters hinputs hp h with ⟨fs, hcompletes, hframes⟩
          rw [hframes]
          exact hcompletes.sections_inputs
      | value a => cases henter

theorem Enters.append {p p' p'' : Progress} {es' : List Entry} (h : Enters p es p')
    (h' : Enters p' es' p'') : Enters p (es ++ es') p'' := by
  induction h with
  | nil _ => exact h'
  | cons henter _ ih => exact .cons henter (ih h')

theorem enters_stateValues (f : Frame) (done : List Frame) (as : List Assignment) :
    Enters ⟨.states, f :: done⟩ (as.map .value)
      ⟨.states, { f with states := f.states ++ as } :: done⟩ := by
  induction as generalizing f with
  | nil =>
      rw [List.append_nil]
      exact .nil _
  | cons a as ih =>
      have hrest := ih { f with states := f.states ++ [a] }
      rw [List.append_assoc] at hrest
      exact .cons rfl hrest

theorem enters_inputValues (f : Frame) (done : List Frame) (as : List Assignment) :
    Enters ⟨.inputs, f :: done⟩ (as.map .value)
      ⟨.inputs, { f with inputs := f.inputs ++ as } :: done⟩ := by
  induction as generalizing f with
  | nil =>
      rw [List.append_nil]
      exact .nil _
  | cons a as ih =>
      have hrest := ih { f with inputs := f.inputs ++ [a] }
      rw [List.append_assoc] at hrest
      exact .cons rfl hrest

/-- Frames are read where no state part is under way, and also behind one when they begin with
a state part. -/
theorem enters_of_sections (h : Sections es fs) {p : Progress}
    (hp : p.part ≠ .states ∨ ∃ j rest, es = .states j :: rest) :
    ∃ p', Enters p es p' ∧ p'.part ≠ .states ∧ p'.frames.reverse = p.frames.reverse ++ fs := by
  have hinputs : Part.inputs ≠ .states := by decide
  induction h generalizing p with
  | nil =>
      rcases hp with hp | ⟨j, rest, hes⟩
      · exact ⟨p, .nil p, hp, (List.append_nil _).symm⟩
      · cases hes
  | inputs k is _ ih =>
      rcases hp with hp | ⟨j, rest, hes⟩
      · have hvalues := enters_inputValues ⟨k, [], []⟩ p.frames is
        rcases ih (p := ⟨.inputs, ⟨k, [], is⟩ :: p.frames⟩) (Or.inl hinputs) with
          ⟨p', henters, hp', hframes⟩
        refine ⟨p', .cons (openInputs_of_ne hp k) (hvalues.append henters), hp', ?_⟩
        rw [hframes, List.reverse_cons, List.append_assoc]
        rfl
      · cases hes
  | both k ss is _ ih =>
      have hstates := enters_stateValues ⟨k, [], []⟩ p.frames ss
      have hvalues := enters_inputValues ⟨k, ss, []⟩ p.frames is
      rcases ih (p := ⟨.inputs, ⟨k, ss, is⟩ :: p.frames⟩) (Or.inl hinputs) with
        ⟨p', henters, hp', hframes⟩
      refine ⟨p', .cons rfl (hstates.append (.cons (openInputs_states _ _)
        (hvalues.append henters))), hp', ?_⟩
      rw [hframes, List.reverse_cons, List.append_assoc]
      rfl
  | broken k j ss _ ih =>
      have hstates := enters_stateValues ⟨k, [], []⟩ p.frames ss
      rcases ih (p := ⟨.states, ⟨k, ss, []⟩ :: p.frames⟩) (Or.inr ⟨j, _, rfl⟩) with
        ⟨p', henters, hp', hframes⟩
      refine ⟨p', .cons rfl (hstates.append henters), hp', ?_⟩
      rw [hframes, List.reverse_cons, List.append_assoc]
      rfl

theorem framesFrom_eq_ok_iff {rows : List (Nat × List Char)} (h : ReadsAs rows es) (n : Nat)
    (rest : List (Nat × List Char)) :
    framesFrom .start (rows ++ (n, ['.']) :: rest) = .ok fs ↔ Sections es fs := by
  rw [framesFrom_readsAs h]
  constructor
  · intro h
    rcases h with ⟨p, henters, hp, rfl⟩
    exact sections_of_enters henters hp
  · intro h
    have hstart : Progress.start.part ≠ .states := by decide
    exact enters_of_sections h (Or.inl hstart)

/-- Behind some values, the entry is the first that opens a part. -/
def Behind (after : List Entry) (e : Entry) : Prop :=
  ∃ (as : List Assignment) (rest : List Entry), after = as.map .value ++ e :: rest

theorem suffix_of_values {k : Nat} {after : List Entry} (as : List Assignment)
    (h : (.states k :: after) <:+ as.map Entry.value ++ es) : (.states k :: after) <:+ es := by
  induction as with
  | nil => exact h
  | cons a as ih =>
      rcases List.suffix_cons_iff.mp h with heq | h
      · cases heq
      · exact ih h

theorem suffix_of_inputs {k k' : Nat} {after : List Entry} (is : List Assignment)
    (h : (.states k :: after) <:+ .inputs k' :: (is.map Entry.value ++ es)) :
    (.states k :: after) <:+ es := by
  rcases List.suffix_cons_iff.mp h with heq | h
  · cases heq
  · exact suffix_of_values is h

theorem suffix_inputs (k : Nat) (is : List Assignment) :
    es <:+ .inputs k :: (is.map Entry.value ++ es) :=
  (List.suffix_append (is.map Entry.value) es).trans (List.suffix_cons _ _)

/-- A state part ends in the input part of its step or in another state part. -/
theorem behind_of_sections (h : Sections es fs) {k : Nat} {after : List Entry}
    (hafter : (.states k :: after) <:+ es) :
    Behind after (.inputs k) ∨ ∃ j, Behind after (.states j) := by
  induction h with
  | nil => cases List.suffix_nil.mp hafter
  | inputs k' is _ ih => exact ih (suffix_of_inputs is hafter)
  | both k' ss is _ ih =>
      rcases List.suffix_cons_iff.mp hafter with heq | hafter
      · cases heq
        exact Or.inl ⟨ss, _, rfl⟩
      · exact ih (suffix_of_inputs is (suffix_of_values ss hafter))
  | broken k' j ss _ ih =>
      rcases List.suffix_cons_iff.mp hafter with heq | hafter
      · cases heq
        exact Or.inr ⟨j, ss, _, rfl⟩
      · exact ih (suffix_of_values ss hafter)

theorem behind_of_formed (h : Formed es fs) {k : Nat} {after : List Entry}
    (hafter : (.states k :: after) <:+ es) : Behind after (.inputs k) := by
  induction h with
  | nil => cases List.suffix_nil.mp hafter
  | inputs k' is _ ih => exact ih (suffix_of_inputs is hafter)
  | both k' ss is _ ih =>
      rcases List.suffix_cons_iff.mp hafter with heq | hafter
      · cases heq
        exact ⟨ss, _, rfl⟩
      · exact ih (suffix_of_inputs is (suffix_of_values ss hafter))

theorem not_behind_states {k j : Nat} (ss : List Assignment) :
    ¬Behind (ss.map Entry.value ++ .states j :: es) (.inputs k) := by
  intro h
  rcases h with ⟨as, rest, heq⟩
  induction ss generalizing as with
  | nil => cases as <;> cases heq
  | cons a ss ih =>
      cases as with
      | nil => cases heq
      | cons a' as => exact ih as (List.cons.inj heq).2

/-- Accepted entries are well formed unless a state part breaks off. -/
theorem formed_iff (h : Sections es fs) :
    Formed es fs ↔ ∀ k after, (.states k :: after) <:+ es → Behind after (.inputs k) := by
  constructor
  · intro hformed k after hafter
    exact behind_of_formed hformed hafter
  · intro hbehind
    induction h with
    | nil => exact .nil
    | inputs k is _ ih =>
        refine .inputs k is (ih ?_)
        intro j after hafter
        exact hbehind j after (hafter.trans (suffix_inputs k is))
    | both k ss is _ ih =>
        refine .both k ss is (ih ?_)
        intro j after hafter
        have hinputs := hafter.trans (suffix_inputs k is)
        have hvalues := hinputs.trans (List.suffix_append (ss.map Entry.value) _)
        exact hbehind j after (hvalues.trans (List.suffix_cons _ _))
    | broken k j ss _ _ => exact absurd (hbehind k _ List.suffix_rfl) (not_behind_states ss)

end Sections

/-!
## Texts
-/

/-- The lines of a text are the verdict, some properties, entries of frames, and the dot. -/
def Tells (s : List Char) (ps : List Property) (es : List Entry) : Prop :=
  ∃ n m k line rows rest,
    meaningful s = (n, "sat".toList) :: (m, line) :: (rows ++ (k, ['.']) :: rest) ∧
      readProperties (Text.words line) = some (.ok ps) ∧ ps ≠ [] ∧ ReadsAs rows es

section Texts

variable {s : List Char} {ps : List Property} {es : List Entry}

theorem parse_of_properties {n m : Nat} {line : List Char} {rows : List (Nat × List Char)}
    (hlines : meaningful s = (n, "sat".toList) :: (m, line) :: rows)
    (hproperties : readProperties (Text.words line) = some (.ok ps)) (hne : ps ≠ []) :
    parse s = some ((framesFrom .start rows).map fun frames => ⟨ps, frames⟩) := by
  rw [parse_of_lines hlines, hproperties, Option.map_some]
  cases ps with
  | nil => exact absurd rfl hne
  | cons p ps => rfl

theorem exists_properties {w : Witness} (h : parse s = some (.ok w)) :
    ∃ n m line rows, meaningful s = (n, "sat".toList) :: (m, line) :: rows ∧
      readProperties (Text.words line) = some (.ok w.properties) ∧ w.properties ≠ [] ∧
      framesFrom .start rows = .ok w.frames := by
  rcases lines_or_error s with ⟨n, m, line, rows, hlines⟩ | ⟨e, herror, _⟩
  · refine ⟨n, m, line, rows, hlines, ?_⟩
    rw [parse_of_lines hlines] at h
    rcases Option.map_eq_some_iff.mp h with ⟨read, hread, hwitness⟩
    unfold behindProperties at hwitness
    split at hwitness
    · cases hwitness
    · cases hwitness
    · rename_i ps hne
      cases hframes : framesFrom ⟨.outside, []⟩ rows with
      | error fault =>
          rw [hframes] at hwitness
          cases hwitness
      | ok frames =>
          rw [hframes] at hwitness
          cases hwitness
          exact ⟨hread, hne, hframes⟩
  · rw [herror] at h
    cases h

theorem parse_of_tells (h : Tells s ps es) :
    (∀ fs, parse s = some (.ok ⟨ps, fs⟩) ↔ Sections es fs) ∧
      ((∃ fs, parse s = some (.ok ⟨ps, fs⟩)) ∨ ∃ e, parse s = some (.error e)) := by
  rcases h with ⟨n, m, k, line, rows, rest, hlines, hproperties, hne, hreads⟩
  rw [parse_of_properties hlines hproperties hne]
  constructor
  · intro fs
    rw [← framesFrom_eq_ok_iff hreads k rest]
    cases framesFrom .start (rows ++ (k, ['.']) :: rest) with
    | error e => simp [Except.map]
    | ok frames => simp [Except.map]
  · cases framesFrom .start (rows ++ (k, ['.']) :: rest) with
    | error e => exact Or.inr ⟨e, rfl⟩
    | ok frames => exact Or.inl ⟨_, rfl⟩

theorem tells_of_parse {w : Witness} (h : parse s = some (.ok w)) :
    ∃ es, Tells s w.properties es := by
  rcases exists_properties h with ⟨n, m, line, rows, hlines, hproperties, hne, hframes⟩
  rcases exists_dot hframes with ⟨before, es, k, rest, hrows, hreads⟩
  rw [hrows] at hlines
  exact ⟨es, n, m, k, line, before, rest, hlines, hproperties, hne, hreads⟩

end Texts

/-- A text is accepted exactly when its lines are frames. Each state part is then followed by
the input part of its step, unless it breaks off at another state part; any other text with a
state part alone is rejected. -/
theorem parse_parts (s : List Char) :
    (∀ w, parse s = some (.ok w) ↔ ∃ es, Tells s w.properties es ∧ Sections es w.frames) ∧
      (∀ w es, parse s = some (.ok w) → Tells s w.properties es →
        (Formed es w.frames ↔
          ∀ k after, (.states k :: after) <:+ es → Behind after (.inputs k))) ∧
      (∀ ps es k after, Tells s ps es → (.states k :: after) <:+ es →
        Behind after (.inputs k) ∨ (∃ j, Behind after (.states j)) ∨
          ∃ e, parse s = some (.error e)) ∧
      ((∃ w, parse s = some (.ok w)) ∨ (∃ e, parse s = some (.error e)) ∨ BreaksOff s) := by
  refine ⟨?_, ?_, ?_, ?_⟩
  · intro w
    constructor
    · intro h
      rcases tells_of_parse h with ⟨es, htells⟩
      exact ⟨es, htells, ((parse_of_tells htells).1 w.frames).mp h⟩
    · intro h
      rcases h with ⟨es, htells, hsections⟩
      exact ((parse_of_tells htells).1 w.frames).mpr hsections
  · intro w es h htells
    exact formed_iff (((parse_of_tells htells).1 w.frames).mp h)
  · intro ps es k after htells hafter
    rcases (parse_of_tells htells).2 with ⟨fs, hfs⟩ | herror
    · have hsections := ((parse_of_tells htells).1 fs).mp hfs
      rcases behind_of_sections hsections hafter with hinputs | hstates
      · exact Or.inl hinputs
      · exact Or.inr (Or.inl hstates)
    · exact Or.inr (Or.inr herror)
  · cases hparse : parse s with
    | none => exact Or.inr (Or.inr (parse_eq_none_iff.mp hparse))
    | some read =>
        cases read with
        | error e => exact Or.inr (Or.inl ⟨e, rfl⟩)
        | ok w => exact Or.inl ⟨w, rfl⟩

/-- Two steps, the first without an input part. -/
def brokenState : List Char := "sat\nb0\n#0\n0 1\n#1\n@1\n.\n".toList

theorem parse_parts_brokenState :
    parse brokenState =
        some (.ok ⟨[.bad 0], [⟨0, [⟨0, none, ['1'], none⟩], []⟩, ⟨1, [], []⟩]⟩) ∧
      (∃ j, Behind [.value ⟨0, none, ['1'], none⟩, .states 1, .inputs 1] (.states j)) ∧
      ¬Formed [.states 0, .value ⟨0, none, ['1'], none⟩, .states 1, .inputs 1]
        [⟨0, [⟨0, none, ['1'], none⟩], []⟩, ⟨1, [], []⟩] := by
  have htells : Tells brokenState [.bad 0]
      [.states 0, .value ⟨0, none, ['1'], none⟩, .states 1, .inputs 1] :=
    ⟨1, 2, 7, "b0".toList, [(3, "#0".toList), (4, "0 1".toList), (5, "#1".toList),
      (6, "@1".toList)], [], rfl, rfl, by decide,
      .cons rfl (.cons rfl (.cons rfl (.cons rfl .nil)))⟩
  have hapart : ¬Behind [.value ⟨0, none, ['1'], none⟩, .states 1, .inputs 1] (.inputs 0) :=
    not_behind_states [⟨0, none, ['1'], none⟩]
  rcases parse_parts brokenState with ⟨haccepts, hformed, hbehind, _⟩
  have hparse := (haccepts ⟨[.bad 0], [⟨0, [⟨0, none, ['1'], none⟩], []⟩, ⟨1, [], []⟩]⟩).mpr
    ⟨_, htells, .broken 0 1 [⟨0, none, ['1'], none⟩] (.both 1 [] [] .nil)⟩
  refine ⟨hparse, ?_, ?_⟩
  · rcases hbehind _ _ 0 _ htells List.suffix_rfl with hinputs | hstates | ⟨e, herror⟩
    · exact absurd hinputs hapart
    · exact hstates
    · rw [hparse] at herror
      cases herror
  · intro h
    exact hapart ((hformed _ _ hparse htells).mp h 0 _ List.suffix_rfl)

/-- A witness is accepted although its first frame has no input part. -/
theorem parse_stateAlone :
    parse "sat\nb0\n#0\n#1\n@1\n.\n".toList =
        some (.ok ⟨[.bad 0], [⟨0, [], []⟩, ⟨1, [], []⟩]⟩) ∧
      Tells "sat\nb0\n#0\n#1\n@1\n.\n".toList [.bad 0]
        [.states 0, .states 1, .inputs 1] ∧
      ¬Behind [.states 1, .inputs 1] (.inputs 0) := by
  refine ⟨rfl, ?_, not_behind_states []⟩
  exact ⟨1, 2, 6, "b0".toList, [(3, "#0".toList), (4, "#1".toList), (5, "@1".toList)], [], rfl, rfl,
    by decide, .cons rfl (.cons rfl (.cons rfl .nil))⟩

end Witness
end Btor
end BitEquiv

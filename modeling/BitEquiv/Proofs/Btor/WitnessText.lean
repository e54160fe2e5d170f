import BitEquiv.Proofs.Btor.WitnessFormat

/-!
# Witnesses are read back

A witness is printed as lines of words. The reader goes over them line by line, and what it
has read is the part of the witness that stands on these lines. So it reads the witness back
from every text that lays the lines out, and stops at the dot.
-/

namespace BitEquiv
namespace Btor
namespace Witness

/-!
## Lines with their numbers
-/

def meaningfulFrom (n : Nat) (s : List Char) : List (Nat × List Char) :=
  (numbered n ((Text.lines s).map Text.trim)).filter fun (_, line) =>
    match line with
    | [] => false
    | c :: _ => c != ';'

/-- Numbered lines with the given words and without the blanks around them, and any lines
behind them. -/
inductive Rows : List (List (List Char)) → List (Nat × List Char) → Prop
  | nil (rows : List (Nat × List Char)) : Rows [] rows
  | cons {n : Nat} {w line : List Char} {ws : List (List Char)} {ls : List (List (List Char))}
      {rows : List (Nat × List Char)} :
      Text.Trimmed w ws line → Rows ls rows → Rows ((w :: ws) :: ls) ((n, line) :: rows)

theorem meaningfulFrom_silent {line : List Char} (h : Text.Silent line) (hline : '\n' ∉ line)
    (n : Nat) (s : List Char) :
    meaningfulFrom n (line ++ '\n' :: s) = meaningfulFrom (n + 1) s := by
  unfold meaningfulFrom
  rw [Text.lines_newline hline, List.map_cons, numbered, Text.trim_dropReturn]
  rcases Text.trim_of_silent h with hnil | ⟨body, hbody⟩
  · rw [hnil]
    exact List.filter_cons_of_neg Bool.false_ne_true
  · rw [hbody]
    exact List.filter_cons_of_neg Bool.false_ne_true

theorem meaningfulFrom_line {line : List Char} {ws : List (List Char)} (h : Text.Spaced ws line)
    (hws : Text.Telling ws) (hline : '\n' ∉ line) (n : Nat) (s : List Char) :
    meaningfulFrom n (line ++ '\n' :: s) = (n, Text.trim line) :: meaningfulFrom (n + 1) s := by
  unfold meaningfulFrom
  rw [Text.lines_newline hline, List.map_cons, numbered, Text.trim_dropReturn]
  refine List.filter_cons_of_pos ?_
  rcases Text.trim_of_telling h hws with ⟨c, rest, htrim, hc⟩
  simpa only [htrim, bne_iff_ne] using hc

theorem meaningfulFrom_last {line : List Char} {ws : List (List Char)} (h : Text.Spaced ws line)
    (hws : Text.Telling ws) (hline : '\n' ∉ line) (n : Nat) :
    meaningfulFrom n line = [(n, Text.trim line)] := by
  rcases Text.trim_of_telling h hws with ⟨c, rest, htrim, hc⟩
  have hne : line ≠ [] := by
    rintro rfl
    cases htrim
  unfold meaningfulFrom
  rw [Text.lines_last hline hne, List.map_singleton, numbered, numbered]
  refine List.filter_cons_of_pos ?_
  simpa only [htrim, bne_iff_ne] using hc

theorem rows_of_lined {ls : List (List (List Char))} {s rest : List Char}
    (h : Text.Lined ls s rest) (hls : ∀ ws ∈ ls, Text.Telling ws) (n : Nat) :
    Rows ls (meaningfulFrom n s) := by
  induction h generalizing n with
  | nil => exact .nil _
  | silent _ hsilent hline _ ih =>
      rw [meaningfulFrom_silent hsilent hline]
      exact ih hls (n + 1)
  | line _ hspaced hline _ ih =>
      rcases List.forall_mem_cons.mp hls with ⟨hws, hrest⟩
      rw [meaningfulFrom_line hspaced hws hline]
      rcases hws.begins with ⟨c, w, more, rfl, _⟩
      exact .cons hspaced.trim (ih hrest (n + 1))
  | last _ hspaced hline =>
      have hws := hls _ List.mem_cons_self
      rw [meaningfulFrom_last hspaced hws hline]
      rcases hws.begins with ⟨c, w, more, rfl, _⟩
      exact .cons hspaced.trim (.nil [])

/-!
## Single lines
-/

theorem readNumber_decimal {n : Nat} (h : n < 2 ^ 64) (what : String) :
    readNumber what (Text.decimal n).toList = .ok n := by
  have hread : Text.unsigned 10 (Nat.pow 2 64) (Text.decimal n).toList = some n :=
    (Text.writes_decimal n).unsigned (by decide) h
  unfold readNumber
  rw [hread]

theorem readProperty_word {p : Property} (h : p.index < 2 ^ 64) :
    readProperty p.word = some (.ok p) := by
  cases p with
  | bad i =>
      have hread : readNumber "property index" (Text.decimal i).toList = .ok i :=
        readNumber_decimal h _
      show some ((readNumber "property index" (Text.decimal i).toList).map Property.bad) = _
      rw [hread]
      rfl
  | justice i =>
      have hread : readNumber "property index" (Text.decimal i).toList = .ok i :=
        readNumber_decimal h _
      show some ((readNumber "property index" (Text.decimal i).toList).map Property.justice) = _
      rw [hread]
      rfl

theorem readProperties_words {ps : List Property} (h : ∀ p ∈ ps, p.index < 2 ^ 64) :
    readProperties (ps.map Property.word) = some (.ok ps) := by
  induction ps with
  | nil => rfl
  | cons p ps ih =>
      rcases List.forall_mem_cons.mp h with ⟨hp, hps⟩
      rw [List.map_cons, readProperties, readProperty_word hp]
      dsimp only
      rw [ih hps]
      rfl

theorem valueTokens_symbol {bits : List Char} (h : isBinary bits = true) (id : Nat)
    (index symbol : Option (List Char)) :
    valueTokens id index bits symbol.toList = .ok ⟨id, index, bits, symbol⟩ := by
  unfold valueTokens
  rw [h]
  cases symbol <;> rfl

theorem head_of_isBinary {bits : List Char} (h : isBinary bits = true) :
    bits.head? ≠ some '[' := by
  cases bits with
  | nil => rintro ⟨⟩
  | cons c bits =>
      intro hc
      cases hc
      cases h

theorem bracketed_brackets (index : List Char) :
    bracketed ('[' :: (index ++ [']'])) = some index := by
  unfold bracketed
  simp

theorem readAssignment_words {a : Assignment} (h : a.Printable) {line : List Char}
    (hwords : Text.words line = a.words) : readAssignment line = .ok a := by
  rcases a with ⟨id, index, bits, symbol⟩
  have hid : readNumber "assignment id" (Text.decimal id).toList = .ok id :=
    readNumber_decimal h.id _
  have hbits : isBinary bits = true := h.bits
  unfold readAssignment
  rw [hwords]
  cases index with
  | none =>
      simp only [Assignment.words, Option.map_none, Option.toList_none, List.nil_append,
        List.headD_cons, List.tail_cons, hid, head_of_isBinary hbits, if_false, bind, Except.bind]
      exact valueTokens_symbol hbits id none symbol
  | some index =>
      have hindex : isBinary index = true := h.index index rfl
      simp only [Assignment.words, Option.map_some, Option.toList_some, List.singleton_append,
        List.headD_cons, List.tail_cons, hid, List.head?_cons, if_true, bracketed_brackets, hindex,
        bind, Except.bind]
      exact valueTokens_symbol hbits id (some index) symbol

/-!
## Reading line by line
-/

section Lines

variable {p p' : Progress}

theorem line_states {k : Nat} (h : k < 2 ^ 64) :
    p.line (markWord '#' k) = .ok (p.openStates k) := by
  show (readNumber "frame number" (Text.decimal k).toList >>= fun step =>
    return p.openStates step) = _
  rw [readNumber_decimal h]
  rfl

theorem line_inputs {k : Nat} (h : k < 2 ^ 64) : p.line (markWord '@' k) = p.openInputs k := by
  show (readNumber "frame number" (Text.decimal k).toList >>= p.openInputs) = _
  rw [readNumber_decimal h]
  rfl

/-- The line of an assignment begins with a digit, so it is no mark and no dot. -/
theorem line_assignment {a : Assignment} (h : a.Printable) {ws : List (List Char)}
    {line : List Char} (hline : Text.Trimmed (Text.decimal a.id).toList ws line)
    (hws : a.words = (Text.decimal a.id).toList :: ws) :
    line ≠ ['.'] ∧ p.line line = p.assign a := by
  have hread := readAssignment_words h (hline.words.trans hws.symm)
  rcases hline.begins with ⟨rest, rfl⟩
  rcases exists_digit a.id with ⟨c, digits, hdigits, hc⟩
  rw [hdigits] at hread ⊢
  have hne : ∀ d, d.isAlphanum = false → c ≠ d := by
    rintro d hd rfl
    rw [hc] at hd
    cases hd
  refine ⟨fun hdot => hne '.' (by decide) (List.cons.inj hdot).1, ?_⟩
  unfold Progress.line
  split
  · rename_i heq
    exact absurd (List.cons.inj heq).1 (hne '#' (by decide))
  · rename_i heq
    exact absurd (List.cons.inj heq).1 (hne '@' (by decide))
  · rw [hread]
    rfl

/-- Lines with the given words take the reader from one progress to another, whatever lines
stand behind them. -/
def Reads (p : Progress) (ls : List (List (List Char))) (p' : Progress) : Prop :=
  ∀ ls' rows, Rows (ls ++ ls') rows →
    ∃ rows', Rows ls' rows' ∧ framesFrom p rows = framesFrom p' rows'

theorem Reads.nil : Reads p [] p := fun _ rows hrows => ⟨rows, hrows, rfl⟩

theorem Reads.append {p'' : Progress} {ls ls' : List (List (List Char))} (h : Reads p ls p')
    (h' : Reads p' ls' p'') : Reads p (ls ++ ls') p'' := by
  intro more rows hrows
  rw [List.append_assoc] at hrows
  rcases h _ _ hrows with ⟨between, hbetween, heq⟩
  rcases h' _ _ hbetween with ⟨rows', hrows', heq'⟩
  exact ⟨rows', hrows', heq.trans heq'⟩

theorem Reads.line {w : List Char} {ws : List (List Char)}
    (h : ∀ line, Text.Trimmed w ws line → line ≠ ['.'] ∧ p.line line = .ok p') :
    Reads p [w :: ws] p' := by
  intro ls' rows hrows
  cases hrows with
  | cons hline hrows =>
      rcases h _ hline with ⟨hdot, hstep⟩
      refine ⟨_, hrows, ?_⟩
      rw [framesFrom, if_neg hdot, hstep]

theorem reads_mark {mark : Char} {k : Nat} (hmark : mark ≠ '.')
    (h : p.line (markWord mark k) = .ok p') : Reads p [[markWord mark k]] p' := by
  apply Reads.line
  intro line hline
  rw [hline.single rfl]
  exact ⟨fun hdot => hmark (List.cons.inj hdot).1, h⟩

theorem reads_assignment {a : Assignment} (h : a.Printable) (hassign : p.assign a = .ok p') :
    Reads p [a.words] p' := by
  apply Reads.line
  intro line hline
  rw [← hassign]
  exact line_assignment h hline rfl

end Lines

section Parts

variable (frame : Frame) (done : List Frame) {as : List Assignment}

theorem reads_states (h : ∀ a ∈ as, a.Printable) :
    Reads ⟨.states, frame :: done⟩ (as.map Assignment.words)
      ⟨.states, { frame with states := frame.states ++ as } :: done⟩ := by
  induction as generalizing frame with
  | nil =>
      rw [List.append_nil]
      exact .nil
  | cons a as ih =>
      rcases List.forall_mem_cons.mp h with ⟨ha, has⟩
      have hrest := ih { frame with states := frame.states ++ [a] } has
      rw [List.append_assoc] at hrest
      exact (reads_assignment ha rfl).append hrest

theorem reads_inputs (h : ∀ a ∈ as, a.Printable) :
    Reads ⟨.inputs, frame :: done⟩ (as.map Assignment.words)
      ⟨.inputs, { frame with inputs := frame.inputs ++ as } :: done⟩ := by
  induction as generalizing frame with
  | nil =>
      rw [List.append_nil]
      exact .nil
  | cons a as ih =>
      rcases List.forall_mem_cons.mp h with ⟨ha, has⟩
      have hrest := ih { frame with inputs := frame.inputs ++ [a] } has
      rw [List.append_assoc] at hrest
      exact (reads_assignment ha rfl).append hrest

end Parts

/-- An input part belongs to the frame whose state part is under way. -/
theorem openInputs_states (frame : Frame) (done : List Frame) :
    Progress.openInputs ⟨.states, frame :: done⟩ frame.step = .ok ⟨.inputs, frame :: done⟩ :=
  if_pos rfl

theorem openInputs_of_ne {p : Progress} (h : p.part ≠ .states) (k : Nat) :
    p.openInputs k = .ok ⟨.inputs, ⟨k, [], []⟩ :: p.frames⟩ := by
  unfold Progress.openInputs
  split
  · rename_i hpart _
    exact absurd hpart h
  · rfl

/-- The lines of a frame add the frame, when no state part waits for its input part. -/
theorem reads_frame {f : Frame} (hf : f.Printable) {ls : List (List (List Char))}
    (h : f.Prints ls) {p : Progress} (hp : p.part ≠ .states) :
    Reads p ls ⟨.inputs, f :: p.frames⟩ := by
  rcases f with ⟨k, states, inputs⟩
  cases h with
  | both =>
      have hmark : Reads p [[markWord '#' k]] (p.openStates k) :=
        reads_mark (by decide) (line_states hf.step)
      have hstates := reads_states ⟨k, [], []⟩ p.frames hf.states
      have hmark' : Reads ⟨.states, ⟨k, states, []⟩ :: p.frames⟩ [[markWord '@' k]]
          ⟨.inputs, ⟨k, states, []⟩ :: p.frames⟩ :=
        reads_mark (by decide) ((line_inputs hf.step).trans (openInputs_states _ _))
      have hinputs := reads_inputs ⟨k, states, []⟩ p.frames hf.inputs
      exact (hmark.append hstates).append (hmark'.append hinputs)
  | inputs hnone =>
      cases hnone
      have hmark : Reads p [[markWord '@' k]] ⟨.inputs, ⟨k, [], []⟩ :: p.frames⟩ :=
        reads_mark (by decide) ((line_inputs hf.step).trans (openInputs_of_ne hp k))
      have hinputs := reads_inputs ⟨k, [], []⟩ p.frames hf.inputs
      exact hmark.append hinputs

/-- The frames are read up to the dot, whatever has been read before and stands behind it. -/
theorem framesFrom_printed {fs : List Frame} (hfs : ∀ f ∈ fs, f.Printable)
    {ls : List (List (List Char))} (h : PrintsFrames fs ls) {p : Progress}
    (hp : p.part ≠ .states) {rows : List (Nat × List Char)} (hrows : Rows ls rows) :
    framesFrom p rows = .ok (p.frames.reverse ++ fs) := by
  induction h generalizing p rows with
  | nil =>
      cases hrows with
      | cons hline _ =>
          rw [framesFrom, if_pos (hline.single rfl), if_neg hp, List.append_nil]
  | cons hf _ ih =>
      rcases List.forall_mem_cons.mp hfs with ⟨hprintable, hfs⟩
      rcases reads_frame hprintable hf hp _ _ hrows with ⟨rows', hrows', heq⟩
      have hinputs : Part.inputs ≠ Part.states := by decide
      rw [heq, ih hfs hinputs hrows', List.reverse_cons, List.append_assoc]
      rfl

/-!
## Whole witnesses
-/

theorem parse_rows {w : Witness} (hw : w.Printable) {ls : List (List (List Char))}
    (hls : w.Prints ls) {s : List Char} (h : Rows ls (meaningful s)) : parse s = some (.ok w) := by
  rcases w with ⟨ps, fs⟩
  cases hls with
  | @mk ls hframes =>
      have hproperties : readProperties (ps.map Property.word) = some (.ok ps) :=
        readProperties_words hw.properties
      have houtside : Part.outside ≠ Part.states := by decide
      unfold parse
      generalize ps.map Property.word = line at h hproperties
      generalize meaningful s = rows at h ⊢
      cases h with
      | cons hsat h =>
          cases h with
          | cons hline hrows =>
              have hread : framesFrom ⟨.outside, []⟩ _ = .ok fs :=
                framesFrom_printed hw.frames hframes houtside hrows
              dsimp only
              rw [if_neg (not_not_intro (hsat.single rfl)), hline.words, hproperties,
                Option.map_some]
              cases ps with
              | nil => exact absurd rfl hw.nonempty
              | cons p ps =>
                  dsimp only
                  rw [hread]
                  rfl

/-- A witness can be written, and it is read back from every text that lays out its lines,
whatever stands behind the dot. -/
theorem parse_printed {w : Witness} (hw : w.Printable) (rest : List Char) :
    (∃ ls s, w.Prints ls ∧ Text.Lined ls s rest) ∧
      ∀ ls s, w.Prints ls → Text.Lined ls s rest → parse s = some (.ok w) := by
  constructor
  · exact exists_printed hw rest
  · intro ls s hls h
    exact parse_rows hw hls (rows_of_lined h (telling_printed hw hls) 1)

theorem parse_printed_twoFrames :
    parse "; found\nsat\nb0 j1 \n\n#0\n 1\t[01] 1111 mem@0\n@0\n0 1 i@0\r\n@1\n.\nsat".toList =
      some (.ok ⟨[.bad 0, .justice 1],
        [⟨0, [⟨1, some "01".toList, "1111".toList, some "mem@0".toList⟩],
            [⟨0, none, "1".toList, some "i@0".toList⟩]⟩,
          ⟨1, [], []⟩]⟩) := by
  have hfirst : Frame.Printable ⟨0, [⟨1, some "01".toList, "1111".toList, some "mem@0".toList⟩],
      [⟨0, none, "1".toList, some "i@0".toList⟩]⟩ :=
    ⟨by decide, List.forall_mem_singleton.mpr ⟨by decide, by decide, by decide, by decide⟩,
      List.forall_mem_singleton.mpr ⟨by decide, by decide, by decide, by decide⟩⟩
  have hsecond : Frame.Printable ⟨1, [], []⟩ :=
    ⟨by decide, List.forall_mem_nil _, List.forall_mem_nil _⟩
  have hframes := List.forall_mem_cons.mpr ⟨hfirst, List.forall_mem_singleton.mpr hsecond⟩
  refine (parse_printed ⟨by decide, by decide, hframes⟩ "sat".toList).2 _ _
    (.mk (.cons (.both _) (.cons (.inputs rfl) .nil))) ?_
  exact .silent "; found".toList (.comment [] _ (by decide)) (by decide) <|
    .line "sat".toList (by decide) (by decide) <|
    .line "b0 j1 ".toList (by decide) (by decide) <|
    .silent [] (.blank (by decide)) (by decide) <|
    .line "#0".toList (by decide) (by decide) <|
    .line " 1\t[01] 1111 mem@0".toList (by decide) (by decide) <|
    .line "@0".toList (by decide) (by decide) <|
    .line "0 1 i@0\r".toList (by decide) (by decide) <|
    .line "@1".toList (by decide) (by decide) <|
    .line ".".toList (by decide) (by decide) <| .nil _

end Witness
end Btor
end BitEquiv

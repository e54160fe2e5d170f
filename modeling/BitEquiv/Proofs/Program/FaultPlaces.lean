import BitEquiv.Proofs.Program.Faults
import BitEquiv.Proofs.Program.Places

/-!
# Places of faults

A fault of the form is told at a place that the grammar reached, and every other fault at the
span of a part of the tree. So no fault points behind the end of the text.
-/

namespace BitEquiv
namespace Program

open Logic

/-!
## How far the grammar comes
-/

namespace Grammar

/-- Both words and digits go on as far as they can. -/
theorem class_suffix {p q : Char → Bool} {s rest : List Char}
    (h : (match s with
      | c :: rest => if p c then some (rest.dropWhile q) else none
      | [] => none) = some rest) : rest <:+ s := by
  split at h
  · split at h
    · cases h
      exact (List.dropWhile_suffix _).trans (List.suffix_cons _ _)
    · cases h
  · cases h

theorem some?_suffix {p : Char → Bool} {s rest : List Char} (h : some? p s = some rest) :
    rest <:+ s :=
  class_suffix h

theorem ident?_suffix {s rest : List Char} (h : ident? s = some rest) : rest <:+ s :=
  class_suffix h

theorem after?_suffix {start : String} {s rest : List Char} (h : after? start s = some rest) :
    rest <:+ s := by
  unfold after? at h
  split at h
  · cases h
    exact List.drop_suffix _ _
  · cases h

theorem boundary?_suffix {s rest : List Char} (h : boundary? s = some rest) : rest <:+ s := by
  unfold boundary? at h
  split at h
  · split at h
    · cases h
    · cases h
      exact List.suffix_rfl
  · cases h
    exact List.suffix_rfl

theorem suffix_of_bind {x : Option (List Char)} {f : List Char → Option (List Char)}
    {s rest : List Char} (h : x.bind f = some rest) (hx : ∀ s', x = some s' → s' <:+ s)
    (hf : ∀ s' rest', f s' = some rest' → rest' <:+ s') : rest <:+ s := by
  rcases Option.bind_eq_some_iff.mp h with ⟨s', hs', hrest⟩
  exact (hf s' rest hrest).trans (hx s' hs')

theorem suffix_of_or {x y : Option (List Char)} {s rest : List Char} (h : x.or y = some rest)
    (hx : ∀ s', x = some s' → s' <:+ s) (hy : ∀ s', y = some s' → s' <:+ s) : rest <:+ s := by
  rcases Option.or_eq_some_iff.mp h with h | ⟨_, h⟩
  · exact hx rest h
  · exact hy rest h

theorem keyword?_suffix {word : String} {s rest : List Char} (h : keyword? word s = some rest) :
    rest <:+ s :=
  suffix_of_bind h (fun _ => after?_suffix) fun _ _ => boundary?_suffix

theorem token?_suffix {s rest : List Char} {r : Rule} (h : token? s r = some rest) :
    rest <:+ s := by
  cases r with
  | eoi =>
      simp only [token?] at h
      split at h <;> cases h
      exact List.nil_suffix
  | ident => exact ident?_suffix h
  | numeral => exact some?_suffix h
  | kwProgram => exact keyword?_suffix h
  | kwInput => exact keyword?_suffix h
  | kwLet => exact keyword?_suffix h
  | kwOutput => exact keyword?_suffix h
  | boolSort => exact keyword?_suffix h
  | bvSort =>
      apply suffix_of_bind h
      · intro s' hs'
        exact suffix_of_bind hs' (fun _ => after?_suffix) fun _ _ => some?_suffix
      · exact fun _ _ => boundary?_suffix
  | hexLit => exact suffix_of_bind h (fun _ => after?_suffix) fun _ _ => some?_suffix
  | binLit => exact suffix_of_bind h (fun _ => after?_suffix) fun _ _ => some?_suffix
  | boolLit =>
      apply suffix_of_bind h
      · intro s' hs'
        exact suffix_of_or hs' (fun _ => after?_suffix) fun _ => after?_suffix
      · exact fun _ _ => boundary?_suffix
  | operator =>
      apply suffix_of_or h
      · intro s' hs'
        exact suffix_of_or hs' (fun _ => after?_suffix) fun _ => after?_suffix
      · exact fun _ => ident?_suffix
  | _ => cases h

theorem skipBlank_suffix (inComment : Bool) (s : List Char) : skipBlank inComment s <:+ s := by
  induction s generalizing inComment with
  | nil => cases inComment <;> exact List.suffix_rfl
  | cons c s ih =>
      cases inComment with
      | true => exact (ih _).trans (List.suffix_cons _ _)
      | false =>
          unfold skipBlank
          split
          · exact (ih _).trans (List.suffix_cons _ _)
          · split
            · exact (ih _).trans (List.suffix_cons _ _)
            · exact List.suffix_rfl

def Cursor.Within (size : Nat) (c : Cursor) : Prop := c.pos + byteSize c.rest = size

def Stays (size : Nat) (outcome : Option Cursor × Attempts) : Prop :=
  (∀ c, outcome.1 = some c → c.Within size) ∧ outcome.2.pos ≤ size

section Runs

variable {size : Nat} {c : Cursor} {a : Attempts}

theorem Cursor.Within.pos_le (hc : c.Within size) : c.pos ≤ size :=
  Nat.le.intro hc

theorem Cursor.Within.moveTo (hc : c.Within size) {rest : List Char} (h : rest <:+ c.rest) :
    (c.moveTo rest).Within size := by
  rcases h with ⟨taken, htaken⟩
  have hlength : c.rest.length - rest.length = taken.length := by
    rw [← htaken, List.length_append, Nat.add_sub_cancel]
  unfold Within at hc ⊢
  unfold Cursor.moveTo
  rw [hlength, ← htaken, List.take_left, ← hc, ← htaken, byteSize_append, ← Nat.add_assoc]
  rfl

theorem Cursor.Within.skip (hc : c.Within size) : c.skip.Within size :=
  hc.moveTo (skipBlank_suffix _ _)

theorem stays_some (hc : c.Within size) (ha : a.pos ≤ size) : Stays size (some c, a) := by
  constructor
  · intro d hd
    cases hd
    exact hc
  · exact ha

theorem stays_none (ha : a.pos ≤ size) : Stays size (none, a) := by
  constructor
  · intro d hd
    cases hd
  · exact ha

theorem note_pos_le {r : Rule} {pos before : Nat} (ha : a.pos ≤ size) (hpos : pos ≤ size) :
    (a.note r pos before).pos ≤ size := by
  unfold Attempts.note
  repeat' split
  · exact ha
  · exact hpos
  · exact hpos
  · exact ha

/-- Every token ends a part of the text that is still to come, so the cursor and the furthest
failure stay in the text. -/
theorem run_stays (fuel : Nat) (p : Pattern) (hc : c.Within size) (ha : a.pos ≤ size) :
    Stays size (run fuel p c a) := by
  induction fuel generalizing p c a with
  | zero => exact stays_none ha
  | succ fuel ih =>
      cases p with
      | token r =>
          rw [run]
          split
          · rename_i rest hrest
            exact stays_some (hc.moveTo (token?_suffix hrest)) ha
          · exact stays_none (note_pos_le ha hc.pos_le)
      | mark m =>
          rw [run]
          split
          · rename_i x rest hrest
            split
            · have hsuffix : rest <:+ c.rest := by
                rw [hrest]
                exact List.suffix_cons _ _
              exact stays_some (hc.moveTo hsuffix) ha
            · exact stays_none ha
          · exact stays_none ha
      | rule r =>
          have hbody := ih (body r) hc ha
          rw [run]
          split
          · rename_i d b hrun
            rw [hrun] at hbody
            exact hbody
          · rename_i b hrun
            rw [hrun] at hbody
            exact stays_none (note_pos_le hbody.2 hc.pos_le)
      | seq first second =>
          have hfirst := ih first hc ha
          rw [run]
          split
          · rename_i d b hrun
            rw [hrun] at hfirst
            exact ih second (hfirst.1 d rfl).skip hfirst.2
          · rename_i b hrun
            rw [hrun] at hfirst
            exact hfirst
      | alt first second =>
          have hfirst := ih first hc ha
          rw [run]
          split
          · rename_i d b hrun
            rw [hrun] at hfirst
            exact hfirst
          · rename_i b hrun
            rw [hrun] at hfirst
            exact ih second hc hfirst.2
      | many q =>
          have hfirst := ih q hc ha
          rw [run]
          split
          · rename_i b hrun
            rw [hrun] at hfirst
            exact stays_some hc hfirst.2
          · rename_i d b hrun
            rw [hrun] at hfirst
            have hd := hfirst.1 d rfl
            have hrest := ih (.many q) hd.skip hfirst.2
            split
            · rename_i e b' hrun'
              rw [hrun'] at hrest
              split
              · exact hrest
              · exact stays_some hd hrest.2
            · rename_i b' hrun'
              rw [hrun'] at hrest
              exact stays_some hd hrest.2

end Runs

theorem explain_pos_le (s : List Char) : (explain s).pos ≤ byteSize s := by
  have hstart : Cursor.Within (byteSize s) ⟨0, s⟩ := Nat.zero_add _
  exact (run_stays _ _ hstart.skip (Nat.zero_le _)).2

end Grammar

/-!
## Faults at parts of a tree
-/

/-- Every fault of a computation has a span with the property `P`. -/
def FaultsIn {α : Type} (P : Span → Prop) (x : Except LocatedFault α) : Prop :=
  ∀ f, x = .error f → P f.span

section Checking

variable {P : Span → Prop}

theorem faultsIn_ok {α : Type} {a : α} : FaultsIn P (.ok a : Except LocatedFault α) := by
  intro f h
  cases h

theorem faultsIn_faultAt {α : Type} {span : Span} {f : Fault} (h : P span) :
    FaultsIn P (faultAt span f : Except LocatedFault α) := by
  intro g hg
  cases hg
  exact h

theorem FaultsIn.bind {α β : Type} {x : Except LocatedFault α} {f : α → Except LocatedFault β}
    (hx : FaultsIn P x) (hf : ∀ a, x = .ok a → FaultsIn P (f a)) : FaultsIn P (x >>= f) := by
  cases x with
  | ok a => exact hf a rfl
  | error g =>
      intro g' hg
      cases hg
      exact hx g rfl

theorem asBool_faultsIn {op : String} {a : Operand} (h : P a.span) :
    FaultsIn P (a.asBool op) := by
  unfold Operand.asBool
  split
  · exact faultsIn_ok
  · exact faultsIn_faultAt h

theorem asWord_faultsIn {op : String} {a : Operand} (h : P a.span) :
    FaultsIn P (a.asWord op) := by
  unfold Operand.asWord
  split
  · exact faultsIn_ok
  · exact faultsIn_faultAt h

theorem sameSort_faultsIn {op : String} {a b : BvSort} {span : Span} (h : P span) :
    FaultsIn P (sameSort op a b span) := by
  unfold sameSort
  split
  · exact faultsIn_ok
  · exact faultsIn_faultAt h

theorem atMostWidest_faultsIn {w : Nat} {span : Span} (h : P span) :
    FaultsIn P (atMostWidest w span) := by
  unfold atMostWidest
  split
  · exact faultsIn_faultAt h
  · exact faultsIn_ok

theorem wordPair_faultsIn {op : String} {a b : Operand} (ha : P a.span) (hb : P b.span) :
    FaultsIn P (wordPair op a b) := by
  apply (asWord_faultsIn ha).bind
  intro _ _
  apply (asWord_faultsIn hb).bind
  intro _ _
  apply (sameSort_faultsIn hb).bind
  intro _ _
  exact faultsIn_ok

theorem extended_faultsIn {op : String} {count : Located Nat} {a : Operand} (hcount : P count.span)
    (ha : P a.span) : FaultsIn P (extended op count a) := by
  apply (asWord_faultsIn ha).bind
  intro _ _
  apply (atMostWidest_faultsIn hcount).bind
  intro _ _
  exact faultsIn_ok

theorem mapM_faultsIn {α β : Type} {f : α → Except LocatedFault β} {xs : List α}
    (h : ∀ x ∈ xs, FaultsIn P (f x)) : FaultsIn P (xs.mapM f) := by
  induction xs with
  | nil => exact faultsIn_ok
  | cons x xs ih =>
      rcases List.forall_mem_cons.mp h with ⟨hx, hxs⟩
      rw [List.mapM_cons]
      apply hx.bind
      intro _ _
      apply (ih hxs).bind
      intro _ _
      exact faultsIn_ok

/-- An operator finds fault with the whole application, an index or an operand. -/
theorem applyOp_faultsIn {op : Operator} {indices : List (Located Nat)} {args : List Operand}
    {span : Span} (hspan : P span) (hindices : ∀ n ∈ indices, P n.span)
    (hargs : ∀ a ∈ args, P a.span) : FaultsIn P (applyOp op indices args span) := by
  -- One case for each shape of operator, indices and operands that is applied; the last one
  -- is any other shape.
  unfold applyOp
  split <;> simp -failIfUnchanged only [List.forall_mem_cons] at hindices hargs
  · rename_i bits width
    rcases hindices with ⟨hbits, hwidth, _⟩
    split
    · exact faultsIn_faultAt hwidth
    · apply (atMostWidest_faultsIn hwidth).bind
      intro w _
      split
      · exact faultsIn_ok
      · exact faultsIn_faultAt hbits
  · apply (asBool_faultsIn hargs.1).bind
    intro _ _
    exact faultsIn_ok
  · apply (mapM_faultsIn fun a ha => asBool_faultsIn (hargs a ha)).bind
    intro _ _
    exact faultsIn_ok
  · apply (mapM_faultsIn fun a ha => asBool_faultsIn (hargs a ha)).bind
    intro _ _
    exact faultsIn_ok
  · apply (asBool_faultsIn hargs.1).bind
    intro _ _
    apply (asBool_faultsIn hargs.2.1).bind
    intro _ _
    exact faultsIn_ok
  · apply (asBool_faultsIn hargs.1).bind
    intro _ _
    apply (asBool_faultsIn hargs.2.1).bind
    intro _ _
    exact faultsIn_ok
  · apply (sameSort_faultsIn hargs.2.1).bind
    intro _ _
    exact faultsIn_ok
  · apply (sameSort_faultsIn hargs.2.1).bind
    intro _ _
    exact faultsIn_ok
  · apply (asBool_faultsIn hargs.1).bind
    intro _ _
    apply (sameSort_faultsIn hargs.2.2.1).bind
    intro _ _
    exact faultsIn_ok
  · apply (asWord_faultsIn hargs.1).bind
    intro _ _
    exact faultsIn_ok
  · apply (wordPair_faultsIn hargs.1 hargs.2.1).bind
    intro _ _
    exact faultsIn_ok
  · apply (wordPair_faultsIn hargs.1 hargs.2.1).bind
    intro _ _
    exact faultsIn_ok
  · apply (asWord_faultsIn hargs.1).bind
    intro _ _
    apply (asWord_faultsIn hargs.2.1).bind
    intro _ _
    apply (atMostWidest_faultsIn hspan).bind
    intro _ _
    exact faultsIn_ok
  · rename_i hi lo a
    apply (asWord_faultsIn hargs.1).bind
    intro word _
    show FaultsIn P (if lo.value ≤ hi.value ∧ hi.value < word.2 then _ else _)
    split
    · exact faultsIn_ok
    · exact faultsIn_faultAt hargs.1
  · apply (extended_faultsIn hindices.1 hargs.1).bind
    intro _ _
    exact faultsIn_ok
  · apply (extended_faultsIn hindices.1 hargs.1).bind
    intro _ _
    exact faultsIn_ok
  · exact faultsIn_faultAt hspan

end Checking

section Trees

variable {s : List Char} {scope : Assoc BvSort}

theorem spans_of_checkArgs {args : List Expr} {operands : List Operand}
    (h : checkArgs scope args = .ok operands) : operands.map (·.span) = args.map Expr.span := by
  induction args generalizing operands with
  | nil =>
      rw [checkArgs] at h
      cases h
      rfl
  | cons e rest ih =>
      rw [checkArgs] at h
      rcases except_bind_eq_ok.mp h with ⟨⟨t, sort⟩, _, h⟩
      rcases except_bind_eq_ok.mp h with ⟨others, hothers, h⟩
      cases h
      rw [List.map_cons, List.map_cons, ih hothers]

mutual

theorem checkExpr_faultsIn :
    ∀ {e : Expr}, e.Placed s → FaultsIn (Span.InText s) (checkExpr scope e)
  | .var x span, h => by
      rw [checkExpr]
      split
      · exact faultsIn_ok
      · exact faultsIn_faultAt h.inText
  | .boolLit b span, _ => by
      rw [checkExpr]
      exact faultsIn_ok
  | .bvLit bits w span, _ => by
      rw [checkExpr]
      exact faultsIn_ok
  | .app name indices args span, h => by
      cases h with
      | app hspan hname hindices hargs _ =>
          rw [checkExpr]
          split
          · exact faultsIn_faultAt hname.inText
          · split
            · exact faultsIn_faultAt hspan
            · split
              · exact faultsIn_faultAt hspan
              · apply (checkArgs_faultsIn hargs).bind
                intro operands hoperands
                apply applyOp_faultsIn hspan
                · intro n hn
                  rcases hindices n hn with ⟨ds, _, hholds⟩
                  exact hholds.inText
                · intro a ha
                  have hmem : a.span ∈ operands.map (·.span) := List.mem_map_of_mem ha
                  rw [spans_of_checkArgs hoperands] at hmem
                  rcases List.mem_map.mp hmem with ⟨e, he, hspan⟩
                  rw [← hspan]
                  exact (hargs e he).inText

theorem checkArgs_faultsIn :
    ∀ {args : List Expr}, (∀ e ∈ args, e.Placed s) →
      FaultsIn (Span.InText s) (checkArgs scope args)
  | [], _ => by
      rw [checkArgs]
      exact faultsIn_ok
  | e :: rest, h => by
      rcases List.forall_mem_cons.mp h with ⟨he, hrest⟩
      rw [checkArgs]
      apply (checkExpr_faultsIn he).bind
      intro _ _
      apply (checkArgs_faultsIn hrest).bind
      intro _ _
      exact faultsIn_ok

end

theorem checkBinding_faultsIn {isOutput : Bool} {name : String} {sort : BvSort} {e : Expr}
    (he : e.Placed s) : FaultsIn (Span.InText s) (checkBinding scope isOutput name sort e) := by
  apply (checkExpr_faultsIn he).bind
  intro checked _
  show FaultsIn _ (if checked.2 = sort then _ else _)
  split
  · exact faultsIn_ok
  · exact faultsIn_faultAt he.inText

theorem Decl.Placed.head_inText {d : Decl} (hd : d.Placed s) :
    d.name.span.InText s ∧ d.sort.span.InText s := by
  cases hd with
  | input _ hname hsort _ =>
      rcases hsort with ⟨word, _, hholds⟩
      exact ⟨hname.inText, hholds.inText⟩
  | binding _ hname hsort _ _ =>
      rcases hsort with ⟨word, _, hholds⟩
      exact ⟨hname.inText, hholds.inText⟩

theorem fault?_inText {d : Decl} {f : LocatedFault} (hd : d.Placed s)
    (h : d.fault? scope = some f) : f.span.InText s := by
  unfold Decl.fault? at h
  split at h
  · cases h
    exact hd.head_inText.2
  · split at h
    · cases h
      exact hd.head_inText.1
    · cases hd with
      | input _ _ _ _ => cases h
      | @binding isOutput name sort e span _ _ _ he _ =>
          simp only at h
          split at h
          · cases h
          · rename_i hg
            cases h
            exact checkBinding_faultsIn he _ hg

theorem faults_inText {t : Tree} (ht : t.Placed s) : ∀ f ∈ t.faults, f.span.InText s := by
  intro f hf
  rw [Tree.faults_eq_slots, List.reduceOption_mem_iff] at hf
  unfold Tree.slots at hf
  rcases List.mem_mapIdx.mp hf with ⟨i, hi, hfault⟩
  exact fault?_inText (ht.decls _ (List.getElem_mem hi)) hfault

mutual

theorem beyond?_inText :
    ∀ {e : Expr} {f : LocatedFault}, e.Placed s → e.beyond? = some f → f.span.InText s
  | .var x span, f, _, h => by
      rw [Expr.beyond?] at h
      cases h
  | .boolLit b span, f, _, h => by
      rw [Expr.beyond?] at h
      cases h
  | .bvLit bits w span, f, he, h => by
      rw [Expr.beyond?] at h
      split at h
      · cases h
        exact he.inText
      · cases h
  | .app name indices args span, f, he, h => by
      cases he with
      | app _ _ hindices hargs _ =>
          rw [Expr.beyond?] at h
          split at h
          · rename_i n hn
            cases h
            rcases hindices n (List.mem_of_find?_eq_some hn) with ⟨ds, _, hholds⟩
            exact hholds.inText
          · exact beyondAny?_inText hargs h

theorem beyondAny?_inText :
    ∀ {args : List Expr} {f : LocatedFault}, (∀ e ∈ args, e.Placed s) →
      Expr.beyondAny? args = some f → f.span.InText s
  | [], f, _, h => by
      rw [Expr.beyondAny?] at h
      cases h
  | e :: rest, f, hargs, h => by
      rcases List.forall_mem_cons.mp hargs with ⟨he, hrest⟩
      rw [Expr.beyondAny?] at h
      rcases Option.or_eq_some_iff.mp h with h | ⟨_, h⟩
      · exact beyond?_inText he h
      · exact beyondAny?_inText hrest h

end

theorem input_beyond?_inText {name : Located String} {sort : Located BvSort} {span : Span}
    {f : LocatedFault} (hsort : sort.span.InText s)
    (h : (Decl.input name sort span).beyond? = some f) : f.span.InText s := by
  unfold Decl.beyond? at h
  simp only [Decl.sort] at h
  split at h
  · split at h
    · cases h
      exact hsort
    · cases h
  · cases h

theorem decl_beyond?_inText {d : Decl} {f : LocatedFault} (hd : d.Placed s)
    (h : d.beyond? = some f) : f.span.InText s := by
  have hsort := hd.head_inText.2
  cases hd with
  | input _ _ _ _ => exact input_beyond?_inText hsort h
  | @binding isOutput name sort e span _ _ _ he _ =>
      have hparts : (Decl.input name sort span).beyond?.or e.beyond? = some f := h
      rcases Option.or_eq_some_iff.mp hparts with h | ⟨_, h⟩
      · exact input_beyond?_inText hsort h
      · exact beyond?_inText he h

end Trees

/-!
## Faults of texts
-/

theorem parse_eq_error {s : List Char} {f : LocatedFault} (h : parse s = .error f) :
    f.span.start + f.span.length ≤ byteSize s := by
  unfold parse at h
  split at h
  · cases h
    have hpos := Grammar.explain_pos_le s
    have hspan : ∀ pos ≤ byteSize s, pos + (min (pos + 1) (byteSize s) - pos) ≤ byteSize s := by
      omega
    exact hspan _ hpos
  · rename_i t htree
    split at h
    · rename_i g hg
      cases h
      rcases List.exists_of_findSome?_eq_some hg with ⟨d, hd, hbeyond⟩
      have hplaced := (Tree.ofTokens?_placed htree).decls d hd
      exact (decl_beyond?_inText hplaced hbeyond).start_add_length
    · cases h

theorem parse_placed {s : List Char} {t : Tree} (h : parse s = .ok t) : t.Placed s := by
  unfold parse at h
  split at h
  · cases h
  · rename_i t' htree
    split at h
    · cases h
    · cases h
      exact Tree.ofTokens?_placed htree

/-- A tree stands in its text, and no fault of a text points behind its end. -/
theorem spans_of_text (s : List Char) :
    (∀ t, parse s = .ok t → t.Placed s) ∧
      ∀ e, load s = .error e → ∀ f ∈ e.faults, f.span.start + f.span.length ≤ byteSize s := by
  constructor
  · intro t ht
    exact parse_placed ht
  · intro e he f hf
    unfold load at he
    split at he
    · rename_i g hparse
      cases he
      rw [List.mem_singleton.mp hf]
      exact parse_eq_error hparse
    · rename_i t hparse
      have hfaults : t.faults = e.faults := by
        unfold Tree.faults
        rw [he]
      rw [← hfaults] at hf
      exact (faults_inText (parse_placed hparse) f hf).start_add_length

/-- A text with a letter of two bytes in front of a width and an index that are at fault. -/
def accentedText : String := "program p;é\ninput x:bv0 output r:bool=(not 07 x)"

def accentedTree : Tree :=
  ⟨⟨"p", ⟨8, 9⟩⟩,
    [.input ⟨"x", ⟨19, 20⟩⟩ ⟨.bitVec 0, ⟨21, 24⟩⟩ ⟨13, 24⟩,
      .binding true ⟨"r", ⟨32, 33⟩⟩ ⟨.bool, ⟨34, 38⟩⟩
        (.app ⟨"not", ⟨40, 43⟩⟩ [⟨7, ⟨44, 46⟩⟩] [.var "x" ⟨47, 48⟩] ⟨39, 49⟩) ⟨25, 49⟩]⟩

theorem parse_accentedText : parse accentedText.toList = .ok accentedTree := by
  have htokens : Token.ofText accentedText.toList =
      [⟨.word "program", ⟨0, 7⟩⟩, ⟨.word "p", ⟨8, 9⟩⟩, ⟨.word "input", ⟨13, 18⟩⟩,
        ⟨.word "x", ⟨19, 20⟩⟩, ⟨.colon, ⟨20, 21⟩⟩, ⟨.word "bv0", ⟨21, 24⟩⟩,
        ⟨.word "output", ⟨25, 31⟩⟩, ⟨.word "r", ⟨32, 33⟩⟩, ⟨.colon, ⟨33, 34⟩⟩,
        ⟨.word "bool", ⟨34, 38⟩⟩, ⟨.equals, ⟨38, 39⟩⟩, ⟨.opening, ⟨39, 40⟩⟩,
        ⟨.word "not", ⟨40, 43⟩⟩, ⟨.numeral ['0', '7'], ⟨44, 46⟩⟩, ⟨.word "x", ⟨47, 48⟩⟩,
        ⟨.closing, ⟨48, 49⟩⟩] := by
    decide
  have htree : Tree.ofTokens? (Token.ofText accentedText.toList) = some accentedTree := by
    rw [htokens]
    simp [accentedTree, Tree.ofTokens?, Tree.readDecls, Tree.sort?, Tree.readExpr, Tree.leaf?,
      Tree.operator?, Tree.Frame.addArg, Tree.Frame.addIndex, Tree.Frame.close, Tree.digits,
      Text.ofDigits, Text.digitValue, Expr.span]
  unfold parse
  rw [htree]
  rfl

def accentedError : LoadError :=
  .several [⟨.invalidWidth, ⟨21, 24⟩⟩, ⟨.indexCount "not" 0 1, ⟨39, 49⟩⟩]

theorem load_accentedText : load accentedText.toList = .error accentedError := by
  unfold load
  rw [parse_accentedText]
  rfl

theorem spans_of_text_accented :
    parse accentedText.toList = .ok accentedTree ∧ accentedTree.Placed accentedText.toList ∧
      load accentedText.toList = .error accentedError ∧
        ∀ f ∈ accentedError.faults,
          f.span.start + f.span.length ≤ byteSize accentedText.toList := by
  rcases spans_of_text accentedText.toList with ⟨hplaced, hfaults⟩
  exact ⟨parse_accentedText, hplaced _ parse_accentedText, load_accentedText,
    hfaults _ load_accentedText⟩

end Program
end BitEquiv

import BitEquiv.Proofs.Program.Layouts

/-!
# Places of the parts of a tree

The parts of a tree take over the places of their tokens. What stands at the span of a name is
the name, a numeral for an index stands at its span, and the spans of the parts of anything
lie inside its own, in order and apart.
-/

namespace BitEquiv
namespace Program

open Logic (BvSort)

/-!
## Trees in a text
-/

def Expr.partSpans (op : Located String) (indices : List (Located Nat)) (args : List Expr) :
    List Span :=
  op.span :: (indices.map (·.span) ++ args.map Expr.span)

def IndexPlaced (s : List Char) (n : Located Nat) : Prop :=
  ∃ ds, Text.Writes 10 ds n.value ∧ n.span.Holds s ds

/-- Every part of an expression stands in the text where its span says. -/
inductive Expr.Placed (s : List Char) : Expr → Prop
  | var {x span} (hx : span.Holds s x.toList) : Placed s (.var x span)
  | boolLit {b span} (hb : span.Holds s (if b then "true" else "false").toList) :
      Placed s (.boolLit b span)
  | binary {bits w ds span} (hds : Text.Writes 2 ds bits) (hw : ds.length = w)
      (hspan : span.Holds s ('#' :: 'b' :: ds)) : Placed s (.bvLit bits w span)
  | hex {bits w ds span} (hds : Text.Writes 16 ds bits) (hw : 4 * ds.length = w)
      (hspan : span.Holds s ('#' :: 'x' :: ds)) : Placed s (.bvLit bits w span)
  | app {op indices args span} (hspan : span.InText s) (hop : op.span.Holds s op.value.toList)
      (hindices : ∀ n ∈ indices, IndexPlaced s n) (hargs : ∀ e ∈ args, Placed s e)
      (hparts : span.Contains (Expr.partSpans op indices args)) :
      Placed s (.app op indices args span)

def Decl.span : Decl → Span
  | .input _ _ span => span
  | .binding _ _ _ _ span => span

def SortPlaced (s : List Char) (sort : Located BvSort) : Prop :=
  ∃ word, SortWord sort.value word ∧ sort.span.Holds s word.toList

/-- Every part of a declaration stands in the text where its span says. -/
inductive Decl.Placed (s : List Char) : Decl → Prop
  | input {name sort span} (hspan : span.InText s) (hname : name.span.Holds s name.value.toList)
      (hsort : SortPlaced s sort) (hparts : span.Contains [name.span, sort.span]) :
      Placed s (.input name sort span)
  | binding {isOutput name sort e span} (hspan : span.InText s)
      (hname : name.span.Holds s name.value.toList) (hsort : SortPlaced s sort) (he : e.Placed s)
      (hparts : span.Contains [name.span, sort.span, e.span]) :
      Placed s (.binding isOutput name sort e span)

/-- Every part of a tree stands in the text where its span says. -/
structure Tree.Placed (s : List Char) (t : Tree) : Prop where
  name : t.name.span.Holds s t.name.value.toList
  decls : ∀ d ∈ t.decls, d.Placed s
  parts : Span.Contains ⟨0, byteSize s⟩ (t.name.span :: t.decls.map Decl.span)

theorem Expr.Placed.inText {s : List Char} {e : Expr} (h : e.Placed s) : e.span.InText s := by
  cases h with
  | var hx => exact hx.inText
  | boolLit hb => exact hb.inText
  | binary _ _ hspan => exact hspan.inText
  | hex _ _ hspan => exact hspan.inText
  | app hspan _ _ _ _ => exact hspan

theorem Decl.Placed.inText {s : List Char} {d : Decl} (h : d.Placed s) : d.span.InText s := by
  cases h with
  | input hspan _ _ _ => exact hspan
  | binding hspan _ _ _ _ => exact hspan

/-!
## Digits of tokens
-/

theorem writes_digits {base : Nat} {ds : List Char} (hne : ds ≠ [])
    (h : ∀ c ∈ ds, ∃ d, Text.digitValue c = some d ∧ d < base) :
    Text.Writes base ds (Tree.digits base ds) := by
  rcases Text.exists_ofDigits h 0 with ⟨n, hn⟩
  unfold Tree.digits
  rw [hn]
  exact Text.writes_of_ofDigits hne hn

theorem writes_of_legal_numeral {ds : List Char} (h : (Lexeme.numeral ds).Legal) :
    Text.Writes 10 ds (Tree.digits 10 ds) :=
  writes_digits h.1 fun c hc => Text.digitValue_decimal (h.2 c hc)

theorem writes_of_legal_hex {ds : List Char} (h : (Lexeme.hex ds).Legal) :
    Text.Writes 16 ds (Tree.digits 16 ds) := by
  apply writes_digits h.1
  intro c hc
  rcases Option.isSome_iff_exists.mp (h.2 c hc) with ⟨d, hd⟩
  exact ⟨d, hd, Text.digitValue_lt hd⟩

theorem writes_of_legal_binary {ds : List Char} (h : (Lexeme.binary ds).Legal) :
    Text.Writes 2 ds (Tree.digits 2 ds) := by
  apply writes_digits h.1
  intro c hc
  have hbit := h.2 c hc
  rw [Bool.or_eq_true, beq_iff_eq, beq_iff_eq] at hbit
  rcases hbit with rfl | rfl
  · exact ⟨0, by decide, by decide⟩
  · exact ⟨1, by decide, by decide⟩

theorem sortWord_of_sort? {word : String} {sort : BvSort} (h : Tree.sort? word = some sort) :
    SortWord sort word := by
  unfold Tree.sort? at h
  split at h
  · rename_i hbool
    cases h
    rw [hbool]
    exact .bool
  · split at h
    · rename_i ds hword
      split at h
      · rename_i hds
        cases h
        simp only [Bool.and_eq_true, Bool.not_eq_true', List.isEmpty_eq_false_iff,
          List.all_eq_true] at hds
        rw [← String.ofList_toList (s := word), hword]
        exact .bitVec (writes_of_legal_numeral hds)
      · cases h
    · cases h

/-!
## Expressions
-/

section Reading

variable {s : List Char}

theorem Token.Spelled.holds {t : Token} {l : Lexeme} (h : t.Spelled s) (hvalue : t.value = l)
    (hl : l ≠ .stray) : l.Legal ∧ t.span.Holds s l.spelling := by
  rcases h with ⟨mid, hholds, hspelled⟩
  rw [hvalue] at hspelled
  rcases hspelled.resolve_left hl with ⟨hlegal, rfl⟩
  exact ⟨hlegal, hholds⟩

theorem Token.Spelled.inText {t : Token} (h : t.Spelled s) : t.span.InText s := by
  rcases h with ⟨mid, hholds, _⟩
  exact hholds.inText

namespace Tree

theorem leaf?_placed {t : Token} {e : Expr} (ht : t.Spelled s) (h : leaf? t = some e) :
    e.Placed s ∧ e.span = t.span := by
  unfold leaf? at h
  split at h
  · rename_i w hvalue
    have hholds := (ht.holds hvalue (by simp)).2
    split at h
    · rename_i htrue
      cases h
      rw [htrue] at hholds
      exact ⟨.boolLit hholds, rfl⟩
    · split at h
      · rename_i hfalse
        cases h
        rw [hfalse] at hholds
        exact ⟨.boolLit hholds, rfl⟩
      · cases h
        exact ⟨.var hholds, rfl⟩
  · rename_i ds hvalue
    rcases ht.holds hvalue (by simp) with ⟨hds, hholds⟩
    cases h
    exact ⟨.hex (writes_of_legal_hex hds) rfl hholds, rfl⟩
  · rename_i ds hvalue
    rcases ht.holds hvalue (by simp) with ⟨hds, hholds⟩
    cases h
    exact ⟨.binary (writes_of_legal_binary hds) rfl hholds, rfl⟩
  · cases h

theorem operator?_placed {t : Token} {op : Located String} (ht : t.Spelled s)
    (h : operator? t = some op) : op.span.Holds s op.value.toList ∧ op.span = t.span := by
  unfold operator? at h
  split at h
  · rename_i w hvalue
    rcases ht.holds hvalue (by simp) with ⟨_, hholds⟩
    cases h
    exact ⟨hholds, rfl⟩
  · rename_i hvalue
    rcases ht.holds hvalue (by simp) with ⟨_, hholds⟩
    have hname : "=".toList = ['='] := by decide
    cases h
    rw [hname]
    exact ⟨hholds, rfl⟩
  · rename_i hvalue
    rcases ht.holds hvalue (by simp) with ⟨_, hholds⟩
    have hname : "=>".toList = ['=', '>'] := by decide
    cases h
    rw [hname]
    exact ⟨hholds, rfl⟩
  · cases h

/-- The parts of an open application stand in the text up to a place. -/
structure Frame.Placed (s : List Char) (f : Frame) (pos : Nat) : Prop where
  start : Boundary s f.start
  ordered : f.start ≤ pos
  op : f.op.span.Holds s f.op.value.toList
  indices : ∀ n ∈ f.indices, IndexPlaced s n
  args : ∀ e ∈ f.args, e.Placed s
  parts : Span.Contains ⟨f.start, pos⟩ (Expr.partSpans f.op f.indices f.args)

theorem Frame.Placed.mono {f : Frame} {pos pos' : Nat} (hf : f.Placed s pos) (h : pos ≤ pos') :
    f.Placed s pos' :=
  ⟨hf.start, Nat.le_trans hf.ordered h, hf.op, hf.indices, hf.args, hf.parts.widen h⟩

/-- Each open application stands in front of the ones inside it, and all stand at `lo` or
later. -/
inductive Stack (s : List Char) (lo : Nat) : List Frame → Nat → Prop
  | nil {pos} (hlo : lo ≤ pos) : Stack s lo [] pos
  | cons {f outer pos} (hf : f.Placed s pos) (houter : Stack s lo outer f.start) :
      Stack s lo (f :: outer) pos

theorem Stack.le {lo pos : Nat} {frames : List Frame} (h : Stack s lo frames pos) : lo ≤ pos := by
  induction h with
  | nil hlo => exact hlo
  | cons hf _ ih => exact Nat.le_trans ih hf.ordered

theorem Stack.mono {lo pos pos' : Nat} {frames : List Frame} (h : Stack s lo frames pos)
    (hpos : pos ≤ pos') : Stack s lo frames pos' := by
  cases h with
  | nil hlo => exact .nil (Nat.le_trans hlo hpos)
  | cons hf houter => exact .cons (hf.mono hpos) houter

theorem Frame.Placed.opened {start pos : Nat} {op : Located String} (hstart : Boundary s start)
    (hop : op.span.Holds s op.value.toList) (hpos : start ≤ op.span.start)
    (hstop : op.span.stop = pos) : Frame.Placed s ⟨start, op, [], []⟩ pos := by
  have hordered := hop.inText.ordered
  subst hstop
  constructor
  · exact hstart
  · exact Nat.le_trans hpos hordered
  · exact hop
  · simp
  · simp
  · have hnone : Span.Contains ⟨op.span.stop, op.span.stop⟩ [] := Span.contains_nil
    exact hnone.cons hpos hordered (Nat.le_refl _)

theorem Frame.Placed.addIndex {f : Frame} {pos : Nat} {n : Located Nat} (hf : f.Placed s pos)
    (hargs : f.args = []) (hn : IndexPlaced s n) (hpos : pos ≤ n.span.start) :
    (f.addIndex n).Placed s n.span.stop := by
  rcases hn with ⟨ds, hds, hholds⟩
  have hordered := hholds.inText.ordered
  have hparts := hf.parts.snoc hf.ordered hpos hordered
  constructor
  · exact hf.start
  · exact Nat.le_trans hf.ordered (Nat.le_trans hpos hordered)
  · exact hf.op
  · intro m hm
    rcases List.mem_append.mp hm with hm | hm
    · exact hf.indices m hm
    · rw [List.mem_singleton.mp hm]
      exact ⟨ds, hds, hholds⟩
  · exact hf.args
  · simpa [Expr.partSpans, Frame.addIndex, hargs] using hparts

theorem Frame.Placed.addArg {f : Frame} {pos : Nat} {e : Expr} (hf : f.Placed s pos)
    (he : e.Placed s) (hpos : pos ≤ e.span.start) : (f.addArg e).Placed s e.span.stop := by
  have hordered := he.inText.ordered
  have hparts := hf.parts.snoc hf.ordered hpos hordered
  constructor
  · exact hf.start
  · exact Nat.le_trans hf.ordered (Nat.le_trans hpos hordered)
  · exact hf.op
  · exact hf.indices
  · intro a ha
    rcases List.mem_append.mp ha with ha | ha
    · exact hf.args a ha
    · rw [List.mem_singleton.mp ha]
      exact he
  · simpa [Expr.partSpans, Frame.addArg] using hparts

theorem Frame.Placed.close {f : Frame} {pos : Nat} {span : Span} (hf : f.Placed s pos)
    (hspan : span.InText s) (hpos : pos ≤ span.start) : (f.close span.stop).Placed s := by
  have hstop : pos ≤ span.stop := Nat.le_trans hpos hspan.ordered
  have hordered : f.start ≤ span.stop := Nat.le_trans hf.ordered hstop
  exact .app ⟨hf.start, hspan.stop, hordered⟩ hf.op hf.indices hf.args (hf.parts.widen hstop)

/-- What is read as an expression stands in the text, behind all that was read before. -/
theorem readExpr_placed {lo pos : Nat} {frames : List Frame} {tokens : List Token} {e : Expr}
    {rest : List Token} (hframes : Stack s lo frames pos) (htokens : Token.From s pos tokens)
    (h : readExpr frames tokens = some (e, rest)) :
    e.Placed s ∧ lo ≤ e.span.start ∧ Token.From s e.span.stop rest := by
  -- Each token is taken by the innermost open application, whose parts lie in front of it.
  fun_induction readExpr frames tokens generalizing pos with
  | case1 => cases h
  | case2 => cases h
  | case3 frames t _ o tokens op hop ih =>
      cases htokens with
      | cons hpos ht hrest =>
          cases hrest with
          | cons hpos' ho hrest' =>
              rcases operator?_placed ho hop with ⟨hholds, hspan⟩
              have hstart : t.span.start ≤ op.span.start := by
                rw [hspan]
                exact Nat.le_trans ht.inText.ordered hpos'
              have hframe := Frame.Placed.opened ht.inText.start hholds hstart
                (congrArg Span.stop hspan)
              exact ih (.cons hframe (hframes.mono hpos)) hrest' h
  | case4 => cases h
  | case5 => cases h
  | case6 t tokens _ f =>
      cases h
      cases htokens with
      | cons hpos ht hrest =>
          cases hframes with
          | cons hf houter => exact ⟨hf.close ht.inText hpos, houter.le, hrest⟩
  | case7 t tokens _ f g outer ih =>
      cases htokens with
      | cons hpos ht hrest =>
          cases hframes with
          | cons hf houter =>
              cases houter with
              | cons hg houter =>
                  have hclosed := hf.close ht.inText hpos
                  have hnext := hg.addArg hclosed (Nat.le_refl f.start)
                  exact ih (.cons hnext houter) hrest h
  | case8 => cases h
  | case9 t tokens ds hvalue f outer hargs ih =>
      cases htokens with
      | cons hpos ht hrest =>
          cases hframes with
          | cons hf houter =>
              rcases ht.holds hvalue (by simp) with ⟨hds, hholds⟩
              have hplaced : IndexPlaced s ⟨digits 10 ds, t.span⟩ :=
                ⟨ds, writes_of_legal_numeral hds, hholds⟩
              have hnext := hf.addIndex (List.isEmpty_iff.mp hargs) hplaced hpos
              exact ih (.cons hnext houter) hrest h
  | case10 => cases h
  | case11 => cases h
  | case12 t tokens e hleaf _ _ _ =>
      cases h
      cases htokens with
      | cons hpos ht hrest =>
          cases hframes with
          | nil hlo =>
              rcases leaf?_placed ht hleaf with ⟨he, hspan⟩
              rw [hspan]
              exact ⟨he, Nat.le_trans hlo hpos, hrest⟩
  | case13 t tokens e hleaf _ _ _ f outer ih =>
      cases htokens with
      | cons hpos ht hrest =>
          cases hframes with
          | cons hf houter =>
              rcases leaf?_placed ht hleaf with ⟨he, hspan⟩
              rw [← hspan] at hpos hrest
              exact ih (.cons (hf.addArg he hpos) houter) hrest h

/-!
## Declarations
-/

theorem head_placed {pos : Nat} {keyword name word : String}
    {first nameSpan colonSpan sortSpan : Span} {rest : List Token}
    (h : Token.From s pos (⟨.word keyword, first⟩ :: ⟨.word name, nameSpan⟩ ::
      ⟨.colon, colonSpan⟩ :: ⟨.word word, sortSpan⟩ :: rest)) :
    pos ≤ first.start ∧ Span.InText s ⟨first.start, sortSpan.stop⟩ ∧
      nameSpan.Holds s name.toList ∧ sortSpan.Holds s word.toList ∧
      Span.Contains ⟨first.start, sortSpan.stop⟩ [nameSpan, sortSpan] ∧
      Token.From s sortSpan.stop rest := by
  cases h with
  | cons hpos hfirst h =>
  cases h with
  | cons hname hspelled h =>
  cases h with
  | cons hcolon hmark h =>
  cases h with
  | cons hsort hword h =>
      have hnameHolds := (hspelled.holds rfl (by simp)).2
      have hsortHolds := (hword.holds rfl (by simp)).2
      have hfirstLe := hfirst.inText.ordered
      have hnameLe := hnameHolds.inText.ordered
      have hcolonLe := hmark.inText.ordered
      have hsortLe := hsortHolds.inText.ordered
      simp only at hname hcolon hsort hfirstLe hnameLe hcolonLe hsortLe
      have hparts : Span.Contains ⟨nameSpan.stop, sortSpan.stop⟩ [sortSpan] :=
        Span.contains_nil.cons (by omega) hsortLe (Nat.le_refl _)
      refine ⟨hpos, ⟨hfirst.inText.start, hsortHolds.inText.stop, ?_⟩, hnameHolds, hsortHolds,
        hparts.cons (by omega) hnameLe (by omega), h⟩
      show first.start ≤ sortSpan.stop
      omega

theorem decls_cons {pos : Nat} {d : Decl} {ds : List Decl} (hd : d.Placed s)
    (hpos : pos ≤ d.span.start)
    (hds : (∀ d ∈ ds, d.Placed s) ∧
      Span.Contains ⟨d.span.stop, byteSize s⟩ (ds.map Decl.span)) :
    (∀ d' ∈ d :: ds, d'.Placed s) ∧
      Span.Contains ⟨pos, byteSize s⟩ ((d :: ds).map Decl.span) := by
  constructor
  · exact List.forall_mem_cons.mpr ⟨hd, hds.1⟩
  · exact hds.2.cons hpos hd.inText.ordered hd.inText.stop.le

theorem readDecls_placed {pos : Nat} {tokens : List Token} {ds : List Decl}
    (htokens : Token.From s pos tokens) (h : readDecls tokens = some ds) :
    (∀ d ∈ ds, d.Placed s) ∧ Span.Contains ⟨pos, byteSize s⟩ (ds.map Decl.span) := by
  fun_induction readDecls tokens generalizing pos ds with
  | case1 =>
      cases h
      exact ⟨by simp, Span.contains_nil⟩
  | case2 => cases h
  | case3 first name nameSpan colonSpan word sortSpan rest declared hword ih =>
      rcases Option.map_eq_some_iff.mp h with ⟨ds', hds', rfl⟩
      rcases head_placed htokens with ⟨hpos, hspan, hname, hsort, hparts, hrest⟩
      have hd : Decl.Placed s (.input ⟨name, nameSpan⟩ ⟨declared, sortSpan⟩
          ⟨first.start, sortSpan.stop⟩) :=
        .input hspan hname ⟨word, sortWord_of_sort? hword, hsort⟩ hparts
      exact decls_cons hd hpos (ih hrest hds')
  | case4 => cases h
  | case5 keyword first name nameSpan colonSpan word sortSpan declared hword _ _ equalsSpan body e
      after hread ih =>
      rcases Option.map_eq_some_iff.mp h with ⟨ds', hds', rfl⟩
      rcases head_placed htokens with ⟨hpos, hspan, hname, hsort, hparts, hequals⟩
      cases hequals with
      | cons hmark hspelled hbody =>
          rcases readExpr_placed (.nil (Nat.le_refl _)) hbody hread with ⟨he, hbehind, hafter⟩
          have hsortStop : sortSpan.stop ≤ e.span.start :=
            Nat.le_trans hmark (Nat.le_trans hspelled.inText.ordered hbehind)
          have hordered := he.inText.ordered
          have hwhole : Span.InText s ⟨first.start, e.span.stop⟩ := by
            refine ⟨hspan.start, he.inText.stop, ?_⟩
            exact Nat.le_trans hspan.ordered (Nat.le_trans hsortStop hordered)
          have hd : Decl.Placed s (.binding (keyword = "output") ⟨name, nameSpan⟩
              ⟨declared, sortSpan⟩ e ⟨first.start, e.span.stop⟩) :=
            .binding hwhole hname ⟨word, sortWord_of_sort? hword, hsort⟩ he
              (hparts.snoc hspan.ordered hsortStop hordered)
          exact decls_cons hd hpos (ih hafter hds')
  | case6 => cases h
  | case7 => cases h
  | case8 => cases h

theorem ofTokens?_placed {t : Tree} (h : ofTokens? (Token.ofText s) = some t) : t.Placed s := by
  have htokens := Token.from_ofText s
  unfold ofTokens? at h
  split at h
  · rename_i keyword first name span rest hofText
    rw [hofText] at htokens
    split at h
    · rcases Option.map_eq_some_iff.mp h with ⟨ds, hds, rfl⟩
      cases htokens with
      | cons _ _ hname =>
          cases hname with
          | cons hpos hspelled hrest =>
              have hholds := (hspelled.holds rfl (by simp)).2
              have hinText := hholds.inText
              rcases readDecls_placed hrest hds with ⟨hplaced, hspans⟩
              exact ⟨hholds, hplaced, hspans.cons (Nat.zero_le _) hinText.ordered hinText.stop.le⟩
    · cases h
  · cases h

end Tree

end Reading

end Program
end BitEquiv

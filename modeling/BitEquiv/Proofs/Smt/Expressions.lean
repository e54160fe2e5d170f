import BitEquiv.Proofs.Text.Blank
import BitEquiv.Smt.SExpr

/-!
# Printed expressions are read again

An expression whose atoms are single tokens is printed as a text that is scanned to the
tokens of its parts, and those tokens are put together to the expression.
-/

namespace BitEquiv
namespace Smt
namespace SExpr

/-!
## Atoms that are single tokens
-/

/-- An atom of one or more characters, none of which ends it. -/
def Bare (a : String) : Prop := a.toList ≠ [] ∧ ∀ c ∈ a.toList, isDelimiter c = false

instance : DecidablePred Bare := fun a =>
  @instDecidableAnd _ _ _ (List.decidableBAll _ a.toList)

theorem isDelimiter_of_isAlphanum {c : Char} (h : c.isAlphanum = true) :
    isDelimiter c = false := by
  have hne : ∀ d : Char, d.isAlphanum = false → (c == d) = false := by
    intro d hd
    rw [beq_eq_false_iff_ne]
    rintro rfl
    rw [h] at hd
    cases hd
  unfold isDelimiter
  rw [Text.isBlank_of_isAlphanum h, hne '(' rfl, hne ')' rfl, hne ';' rfl, hne '|' rfl, hne '"' rfl]
  rfl

mutual

def Plain : SExpr → Prop
  | atom a => Bare a
  | list items => AllPlain items

def AllPlain : List SExpr → Prop
  | [] => True
  | e :: es => Plain e ∧ AllPlain es

end

mutual

def tokens : SExpr → List Token
  | atom a => [.atom a]
  | list items => .opening :: (tokensAll items ++ [.closing])

def tokensAll : List SExpr → List Token
  | [] => []
  | e :: es => tokens e ++ tokensAll es

end

/-!
## Scanning
-/

/-- A text before which a bare atom ends. -/
def Stops : List Char → Prop
  | [] => True
  | c :: _ => isDelimiter c = true

def before (ts : List Token) (scanned : List Token × Option Fault) : List Token × Option Fault :=
  (ts ++ scanned.1, scanned.2)

/-- The text `s` is scanned as the tokens `ts` where it is followed by an end of atoms. -/
def Scans (s : List Char) (ts : List Token) : Prop :=
  ∀ rest, Stops rest → scan .between (s ++ rest) = before ts (scan .between rest)

theorem before_append (ts ts' : List Token) (scanned : List Token × Option Fault) :
    before (ts ++ ts') scanned = before ts (before ts' scanned) := by
  simp [before]

theorem start_of_bare {c : Char} (h : isDelimiter c = false) : start c = ([], .bare [c]) := by
  unfold isDelimiter at h
  simp only [Bool.or_eq_false_iff] at h
  rcases h with ⟨⟨⟨⟨⟨hblank, hopen⟩, hclose⟩, hcomment⟩, hbar⟩, hquote⟩
  simp [start, hblank, hopen, hclose, hcomment, hbar, hquote]

theorem scan_bare {s rest : List Char} (hs : ∀ c ∈ s, isDelimiter c = false)
    (hrest : Stops rest) (read : List Char) :
    scan (.bare read) (s ++ rest) =
      before [bareAtom (s.reverse ++ read)] (scan .between rest) := by
  induction s generalizing read with
  | nil =>
      cases rest with
      | nil => rfl
      | cons c rest =>
          have hc : isDelimiter c = true := hrest
          simp [scan, hc, before]
  | cons c s ih =>
      rcases List.forall_mem_cons.mp hs with ⟨hc, hs⟩
      rw [List.cons_append, scan, hc, if_neg Bool.false_ne_true, ih hs, List.reverse_cons,
        List.append_assoc]
      rfl

theorem scans_atom {a : String} (h : Bare a) : Scans a.toList [.atom a] := by
  intro rest hrest
  rcases h with ⟨hne, ha⟩
  cases hs : a.toList with
  | nil => exact absurd hs hne
  | cons c s =>
      rw [hs] at ha
      rcases List.forall_mem_cons.mp ha with ⟨hc, hstail⟩
      have hread : bareAtom (s.reverse ++ [c]) = .atom a := by
        unfold bareAtom
        rw [List.reverse_append, List.reverse_reverse, List.reverse_singleton,
          List.singleton_append, ← hs, String.ofList_toList]
      rw [List.cons_append, scan, start_of_bare hc]
      show before [] (scan (.bare [c]) (s ++ rest)) = _
      rw [scan_bare hstail hrest, hread]
      rfl

theorem scan_mark {c : Char} {ts : List Token} (h : start c = (ts, .between)) (rest : List Char) :
    scan .between (c :: rest) = before ts (scan .between rest) := by
  simp [scan, h, before]

theorem scan_opening (rest : List Char) :
    scan .between ('(' :: rest) = before [.opening] (scan .between rest) :=
  scan_mark rfl rest

theorem scan_closing (rest : List Char) :
    scan .between (')' :: rest) = before [.closing] (scan .between rest) :=
  scan_mark rfl rest

theorem scan_blank {c : Char} (h : Text.isBlank c = true) (rest : List Char) :
    scan .between (c :: rest) = scan .between rest := by
  have hne : ∀ d : Char, Text.isBlank d = false → (c == d) = false := by
    intro d hd
    rw [beq_eq_false_iff_ne]
    rintro rfl
    rw [h] at hd
    cases hd
  have hstart : start c = ([], .between) := by
    unfold start
    rw [hne '(' rfl, hne ')' rfl, hne ';' rfl, hne '|' rfl, hne '"' rfl, h]
    rfl
  exact scan_mark hstart rest

mutual

theorem scans_text : ∀ {e : SExpr}, Plain e → Scans (text e).toList (tokens e)
  | .atom _, h => scans_atom h
  | .list items, h => by
      intro rest _
      have hitems := scans_texts h (')' :: rest) rfl
      have htext : (text (.list items)).toList ++ rest =
          '(' :: ((String.intercalate " " (texts items)).toList ++ ')' :: rest) := by
        simp [text]
      rw [htext, scan_opening, hitems, scan_closing, ← before_append, ← before_append]
      rfl

theorem scans_texts : ∀ {es : List SExpr}, AllPlain es →
    Scans (String.intercalate " " (texts es)).toList (tokensAll es)
  | [], _ => by
      intro rest _
      rfl
  | [e], ⟨he, _⟩ => by
      intro rest hrest
      have htext : String.intercalate " " (texts [e]) = text e := by
        simp [texts]
      rw [htext, scans_text he rest hrest, tokensAll, tokensAll, List.append_nil]
  | e :: e' :: es, ⟨he, hes⟩ => by
      intro rest hrest
      have htext : (String.intercalate " " (texts (e :: e' :: es))).toList ++ rest =
          (text e).toList ++
            ' ' :: ((String.intercalate " " (texts (e' :: es))).toList ++ rest) := by
        simp [texts, String.intercalate_cons_cons]
      have hspace : Stops (' ' :: ((String.intercalate " " (texts (e' :: es))).toList ++ rest)) :=
        rfl
      rw [htext, scans_text he _ hspace, scan_blank (by decide), scans_texts hes rest hrest,
        ← before_append]
      rfl

end

/-!
## Putting tokens together
-/

mutual

theorem build_tokens : ∀ (e : SExpr) (items : List SExpr) (outer : List (List SExpr))
    (rest : List Token) (fault : Option Fault),
    build items outer (tokens e ++ rest) fault = build (e :: items) outer rest fault
  | .atom _, _, _, _, _ => rfl
  | .list es, items, outer, rest, fault => by
      have htokens : tokens (.list es) ++ rest =
          .opening :: (tokensAll es ++ .closing :: rest) := by
        simp [tokens]
      rw [htokens, build, build_tokensAll es, build, List.append_nil, List.reverse_reverse]

theorem build_tokensAll : ∀ (es items : List SExpr) (outer : List (List SExpr))
    (rest : List Token) (fault : Option Fault),
    build items outer (tokensAll es ++ rest) fault = build (es.reverse ++ items) outer rest fault
  | [], _, _, _, _ => rfl
  | e :: es, items, outer, rest, fault => by
      rw [tokensAll, List.append_assoc, build_tokens e, build_tokensAll es, List.reverse_cons,
        List.append_assoc]
      rfl

end

theorem tokensAll_append (es es' : List SExpr) :
    tokensAll (es ++ es') = tokensAll es ++ tokensAll es' := by
  induction es with
  | nil => rfl
  | cons e es ih => rw [List.cons_append, tokensAll, tokensAll, ih, List.append_assoc]

def consumed (items : List SExpr) : List (List SExpr) → List Token
  | [] => tokensAll items.reverse
  | parent :: outer => consumed parent outer ++ .opening :: tokensAll items.reverse

theorem consumed_cons (e : SExpr) (items : List SExpr) (outer : List (List SExpr)) :
    consumed (e :: items) outer = consumed items outer ++ tokens e := by
  have hlast : tokensAll (e :: items).reverse = tokensAll items.reverse ++ tokens e := by
    rw [List.reverse_cons, tokensAll_append, tokensAll, tokensAll, List.append_nil]
  cases outer with
  | nil => exact hlast
  | cons parent outer =>
      rw [consumed, consumed, hlast, List.append_assoc]
      rfl

/-- Nothing is lost on the way: the tokens before a stack and those after it are the tokens of
the expressions that are built. -/
theorem consumed_of_build {items : List SExpr} {outer : List (List SExpr)} {ts : List Token}
    {fault : Option Fault} {es : List SExpr} (h : build items outer ts fault = .ok es) :
    fault = none ∧ consumed items outer ++ ts = tokensAll es := by
  induction ts generalizing items outer with
  | nil =>
      cases fault with
      | some fault => simp [build] at h
      | none =>
          cases outer with
          | cons parent outer => cases h
          | nil =>
              cases h
              exact ⟨rfl, List.append_nil _⟩
  | cons t ts ih =>
      cases t with
      | opening =>
          rcases ih h with ⟨hfault, htokens⟩
          refine ⟨hfault, ?_⟩
          rw [← htokens, consumed, List.append_assoc]
          rfl
      | closing =>
          cases outer with
          | nil => cases h
          | cons parent outer =>
              rcases ih h with ⟨hfault, htokens⟩
              refine ⟨hfault, ?_⟩
              rw [← htokens, consumed_cons, consumed, tokens]
              simp
      | atom a =>
          rcases ih h with ⟨hfault, htokens⟩
          refine ⟨hfault, ?_⟩
          rw [← htokens, consumed_cons, List.append_assoc]
          rfl

/-- A text is read as the expressions whose tokens are scanned in it. -/
theorem parseAll_eq_ok_iff {s : List Char} {es : List SExpr} :
    parseAll s = .ok es ↔ scan .between s = (tokensAll es, none) := by
  unfold parseAll
  constructor
  · intro h
    rcases consumed_of_build h with ⟨hfault, htokens⟩
    exact Prod.ext htokens hfault
  · intro h
    have hbuild := build_tokensAll es [] [] [] none
    rw [List.append_nil, List.append_nil] at hbuild
    rw [h]
    show build [] [] (tokensAll es) none = _
    rw [hbuild, build, List.reverse_reverse]

theorem parseAll_lines {es : List SExpr} (h : AllPlain es) :
    parseAll (String.join (es.map fun e => text e ++ "\n")).toList = .ok es := by
  rw [parseAll_eq_ok_iff]
  induction es with
  | nil => rfl
  | cons e es ih =>
      rcases h with ⟨he, hes⟩
      have htext : (String.join ((e :: es).map fun e => text e ++ "\n")).toList =
          (text e).toList ++
            '\n' :: (String.join (es.map fun e => text e ++ "\n")).toList := by
        simp
      have hstop : Stops ('\n' :: (String.join (es.map fun e => text e ++ "\n")).toList) := rfl
      rw [htext, scans_text he _ hstop, scan_blank (by decide), ih hes]
      rfl

end SExpr
end Smt
end BitEquiv

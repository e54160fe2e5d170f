import Mathlib.Data.List.Forall2
import BitEquiv.Proofs.Smt.Expressions
import BitEquiv.Smt.Script

/-!
# Expressions in any layout

The tokens of expressions may have blanks and comments around them, and an atom may stand
between bars. The scanner finds the same tokens in every such text, and the expressions they
were made of are put together again.
-/

namespace BitEquiv
namespace Smt
namespace SExpr

/-!
## Written tokens
-/

/-- How a token is written: an atom as it is when nothing in it ends it, or between bars. -/
inductive Spelling : List Char → Token → Prop
  | opening : Spelling ['('] .opening
  | closing : Spelling [')'] .closing
  | bare {a : String} : Bare a → Spelling a.toList (.atom a)
  | barred {a : String} : '|' ∉ a.toList → Spelling ('|' :: (a.toList ++ ['|'])) (.atom a)

/-- Blanks, and comments that a newline ends. -/
inductive Gap : List Char → Prop
  | nil : Gap []
  | blank {c : Char} {s : List Char} : Text.isBlank c = true → Gap s → Gap (c :: s)
  | comment (body : List Char) {s : List Char} : '\n' ∉ body → Gap s →
      Gap (';' :: (body ++ '\n' :: s))

/-- A written token may be followed directly by `rest`: it has an end of its own, or `rest`
begins with a character that ends it. -/
def Separate (w rest : List Char) : Prop :=
  (∃ c ∈ w.getLast?, isDelimiter c = true) ∨ Stops rest

/-- Written tokens with gaps between any two of them and around them all. A comment at the end
may be without its newline. -/
inductive Layout : List (List Char) → List Char → Prop
  | nil {gap : List Char} : Gap gap → Layout [] gap
  | comment {gap body : List Char} : Gap gap → '\n' ∉ body → Layout [] (gap ++ ';' :: body)
  | cons {gap w rest : List Char} {ws : List (List Char)} : Gap gap → Separate w rest →
      Layout ws rest → Layout (w :: ws) (gap ++ (w ++ rest))

/-!
## Scanning
-/

theorem scan_comment {body : List Char} (h : '\n' ∉ body) (rest : List Char) :
    scan .comment (body ++ '\n' :: rest) = scan .between rest := by
  induction body with
  | nil => rfl
  | cons c body ih =>
      rw [List.mem_cons, not_or] at h
      rw [List.cons_append, scan, if_neg (by simpa using Ne.symm h.1), ih h.2]

theorem scan_comment_end {body : List Char} (h : '\n' ∉ body) :
    scan .comment body = ([], none) := by
  induction body with
  | nil => rfl
  | cons c body ih =>
      rw [List.mem_cons, not_or] at h
      rw [scan, if_neg (by simpa using Ne.symm h.1), ih h.2]

theorem scan_semicolon (rest : List Char) :
    scan .between (';' :: rest) = scan .comment rest := by
  rw [scan, show start ';' = ([], .comment) from rfl]
  rfl

theorem scan_gap {gap : List Char} (h : Gap gap) (rest : List Char) :
    scan .between (gap ++ rest) = scan .between rest := by
  induction h with
  | nil => rfl
  | blank hc _ ih => rw [List.cons_append, scan_blank hc, ih]
  | comment _ hbody _ ih =>
      rw [List.cons_append, List.append_assoc, List.cons_append, scan_semicolon,
        scan_comment hbody, ih]

theorem scan_barred {s : List Char} (h : '|' ∉ s) (read rest : List Char) :
    scan (.quoted read) (s ++ '|' :: rest) =
      before [bareAtom (s.reverse ++ read)] (scan .between rest) := by
  induction s generalizing read with
  | nil => rfl
  | cons c s ih =>
      rw [List.mem_cons, not_or] at h
      rw [List.cons_append, scan, if_neg (by simpa using Ne.symm h.1), ih h.2,
        List.reverse_cons, List.append_assoc]
      rfl

theorem scan_spelling {w : List Char} {t : Token} (h : Spelling w t) {rest : List Char}
    (hrest : Separate w rest) : scan .between (w ++ rest) = before [t] (scan .between rest) := by
  cases h with
  | opening => exact scan_opening rest
  | closing => exact scan_closing rest
  | bare ha =>
      refine scans_atom ha rest (hrest.resolve_left ?_)
      rintro ⟨c, hc, hdelimiter⟩
      rw [ha.2 c (List.mem_of_getLast? hc)] at hdelimiter
      cases hdelimiter
  | @barred a ha =>
      have hread : bareAtom (a.toList.reverse ++ []) = .atom a := by
        unfold bareAtom
        rw [List.append_nil, List.reverse_reverse, String.ofList_toList]
      rw [List.cons_append, List.append_assoc, List.singleton_append, scan,
        show start '|' = ([], .quoted []) from rfl]
      show before [] (scan (.quoted []) (a.toList ++ '|' :: rest)) = _
      rw [scan_barred ha, hread]
      rfl

theorem Layout.scan {ws : List (List Char)} {s : List Char} (h : Layout ws s)
    {ts : List Token} (hts : List.Forall₂ Spelling ws ts) :
    SExpr.scan .between s = (ts, none) := by
  induction h generalizing ts with
  | @nil gap hgap =>
      cases hts
      have hscan := scan_gap hgap []
      rw [List.append_nil] at hscan
      exact hscan
  | comment hgap hbody =>
      cases hts
      rw [scan_gap hgap, scan_semicolon, scan_comment_end hbody]
  | cons hgap hrest _ ih =>
      cases hts with
      | cons hw hts =>
          rw [scan_gap hgap, scan_spelling hw hrest, ih hts]
          rfl

/-!
## Written expressions
-/

mutual

def atoms : SExpr → List String
  | atom a => [a]
  | list items => atomsAll items

def atomsAll : List SExpr → List String
  | [] => []
  | e :: es => atoms e ++ atomsAll es

end

section Words

variable (spell : String → List Char)

mutual

/-- An expression as written tokens; `spell` writes its atoms. -/
def words : SExpr → List (List Char)
  | atom a => [spell a]
  | list items => ['('] :: (wordsAll items ++ [[')']])

def wordsAll : List SExpr → List (List Char)
  | [] => []
  | e :: es => words e ++ wordsAll es

end

variable {spell}

mutual

theorem spelling_words : ∀ {e : SExpr}, (∀ a ∈ atoms e, Spelling (spell a) (.atom a)) →
    List.Forall₂ Spelling (words spell e) (tokens e)
  | .atom a, h => .cons (h a List.mem_cons_self) .nil
  | .list _, h => .cons .opening (List.rel_append (spelling_wordsAll h) (.cons .closing .nil))

theorem spelling_wordsAll : ∀ {es : List SExpr},
    (∀ a ∈ atomsAll es, Spelling (spell a) (.atom a)) →
    List.Forall₂ Spelling (wordsAll spell es) (tokensAll es)
  | [], _ => .nil
  | _ :: _, h =>
      List.rel_append (spelling_words fun a ha => h a (List.mem_append_left _ ha))
        (spelling_wordsAll fun a ha => h a (List.mem_append_right _ ha))

end

end Words

theorem parseAll_layout {es : List SExpr} {ws : List (List Char)} {s : List Char}
    (hws : List.Forall₂ Spelling ws (tokensAll es)) (h : Layout ws s) : parseAll s = .ok es :=
  parseAll_eq_ok_iff.mpr (h.scan hws)

end SExpr

/-!
## Symbols
-/

open SExpr (Bare isDelimiter)

theorem isDelimiter_of_isSymbolChar {c : Char} (h : isSymbolChar c = true) :
    isDelimiter c = false := by
  rcases Bool.or_eq_true_iff.mp h with h | h
  · exact SExpr.isDelimiter_of_isAlphanum h
  · have hmarks : "~!@$%^&*_-+=<>.?/".toList.all (fun d => !isDelimiter d) = true := by decide
    simpa using List.all_eq_true.mp hmarks c (List.contains_iff_mem.mp h)

theorem bare_of_isSimple {name : String} (h : isSimple name.toList = true) : Bare name := by
  unfold isSimple at h
  unfold Bare
  cases hname : name.toList with
  | nil =>
      rw [hname] at h
      cases h
  | cons c rest =>
      rw [hname] at h
      have hchars := List.all_eq_true.mp (Bool.and_eq_true_iff.mp h).2
      exact ⟨List.cons_ne_nil c rest, fun d hd => isDelimiter_of_isSymbolChar (hchars d hd)⟩

theorem spelling_symbol {name : String} (h : '|' ∉ name.toList) :
    SExpr.Spelling (symbol name).toList (.atom name) := by
  unfold symbol
  split
  · rename_i hsimple
    exact .bare (bare_of_isSimple hsimple)
  · have htext : ("|" ++ name ++ "|").toList = '|' :: (name.toList ++ ['|']) := by
      simp
    rw [htext]
    exact .barred h

end Smt
end BitEquiv

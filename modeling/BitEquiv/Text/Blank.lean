/-!
# Blank characters, words and lines

Text is handled as a list of characters. Blank means the Unicode property
`White_Space`; a line ends with a newline, with or without a carriage return
before it.
-/

namespace BitEquiv
namespace Text

/-- The characters with the Unicode property `White_Space`. -/
def isBlank (c : Char) : Bool :=
  let n := c.toNat
  (9 ≤ n && n ≤ 13) || n == 0x20 || n == 0x85 || n == 0xA0 || n == 0x1680 ||
    (0x2000 ≤ n && n ≤ 0x200A) || n == 0x2028 || n == 0x2029 || n == 0x202F ||
    n == 0x205F || n == 0x3000

/-- Drop the characters in front that satisfy `p`, and those at the end. -/
def trimBy (p : Char → Bool) (s : List Char) : List Char :=
  ((s.dropWhile p).reverse.dropWhile p).reverse

def trim (s : List Char) : List Char := trimBy isBlank s

/-- The pieces between the characters that satisfy `p`; there is always one. -/
def splitBy (p : Char → Bool) : List Char → List (List Char)
  | [] => [[]]
  | c :: rest =>
      if p c then [] :: splitBy p rest
      else
        match splitBy p rest with
        | [] => [[c]]
        | piece :: pieces => (c :: piece) :: pieces

theorem splitBy_ne_nil (p : Char → Bool) (s : List Char) : splitBy p s ≠ [] := by
  cases s with
  | nil => simp [splitBy]
  | cons c rest =>
      unfold splitBy
      split
      · simp
      · split <;> simp

def words (s : List Char) : List (List Char) :=
  (splitBy isBlank s).filter (fun w => !w.isEmpty)

/-- A line that ended with a newline, without the carriage return before it. -/
def dropReturn (line : List Char) : List Char :=
  match line.reverse with
  | '\r' :: r => r.reverse
  | _ => line

/-- The pieces of a text that its newlines end, with the last piece when it is
not empty. -/
def linesOf : List (List Char) → List (List Char)
  | [] => []
  | [last] => if last.isEmpty then [] else [last]
  | line :: rest => dropReturn line :: linesOf rest

def lines (s : List Char) : List (List Char) :=
  linesOf (splitBy (· == '\n') s)

def takeLine : List Char → List Char × List Char
  | [] => ([], [])
  | c :: rest =>
      if c == '\n' then ([c], rest)
      else
        let (line, after) := takeLine rest
        (c :: line, after)

theorem takeLine_append (s : List Char) :
    (takeLine s).1 ++ (takeLine s).2 = s := by
  induction s with
  | nil => rfl
  | cons c rest ih =>
      unfold takeLine
      split
      · rfl
      · simpa using ih

theorem takeLine_length (s : List Char) (h : s ≠ []) :
    (takeLine s).2.length < s.length := by
  have happ := congrArg List.length (takeLine_append s)
  have hpos : 0 < (takeLine s).1.length := by
    cases s with
    | nil => exact absurd rfl h
    | cons c rest =>
        unfold takeLine
        split <;> simp
  simp only [List.length_append] at happ
  omega

def cutAt (p : Char → Bool) : List Char → Option (List Char × List Char)
  | [] => none
  | c :: rest =>
      if p c then some ([], rest)
      else (cutAt p rest).map fun (before, after) => (c :: before, after)

def stripStart (start : List Char) (s : List Char) : Option (List Char) :=
  if start.isPrefixOf s then some (s.drop start.length) else none

/-- At most the first `limit` characters with three dots when that leaves some
out; newlines are written as backslash and `n`. -/
def excerpt (limit : Nat) (s : List Char) : List Char :=
  let shown := if s.length > limit then s.take limit ++ ['.', '.', '.'] else s.take limit
  shown.flatMap fun c => if c == '\n' then ['\\', 'n'] else [c]

end Text
end BitEquiv

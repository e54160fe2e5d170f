import BitEquiv.Text.Blank
import BitEquiv.Text.Datum
import BitEquiv.Text.Escape

/-!
# Values of variables

The value of an environment variable is text that may look like something more:
a truth value, a number, a quoted text, a list in brackets or a table in braces.
What does not look like any of these as a whole is taken as it stands.
-/

namespace BitEquiv
namespace Text
namespace Variable

def isSeparator (c : Char) : Bool :=
  c = ',' || c = '[' || c = ']' || c = '\x7b' || c = '\x7d'

def isSpace (c : Char) : Bool :=
  c = ' ' || c = '\t' || c = '\n' || c = '\r' || c.toNat = 12

def skipSpace (s : List Char) : List Char := s.dropWhile isSpace

def integer? (s : List Char) : Option Int :=
  match s with
  | '-' :: rest =>
      match rest with
      | '+' :: _ => none
      | _ => (unsigned 10 (Nat.pow 2 63 + 1) rest).map fun n => -(n : Int)
  | _ => (unsigned 10 (Nat.pow 2 64) s).map Int.ofNat

def isFraction (s : List Char) : Bool :=
  let body :=
    match s with
    | '-' :: rest => rest
    | '+' :: rest => rest
    | _ => s
  let (mantissa, exponent) := body.span fun c => c ≠ 'e' && c ≠ 'E'
  let (whole, part) := mantissa.span (· ≠ '.')
  let power :=
    match exponent.tail with
    | '-' :: rest => rest
    | '+' :: rest => rest
    | rest => rest
  !part.isEmpty && whole.all Char.isDigit && part.tail.all Char.isDigit &&
    !(whole.isEmpty && part.tail.isEmpty) &&
    (exponent.isEmpty || (!power.isEmpty && power.all Char.isDigit))

def word (s : List Char) : Datum :=
  let s := trim s
  if isFraction s then .fraction
  else
    match integer? s with
    | some n => .integer n
    | none => .text (String.ofList s)

/-- The characters of a quoted text: no control character but the tab. -/
def isQuotable (c : Char) : Bool := c = '\t' || (0x20 ≤ c.toNat && c.toNat ≠ 0x7F)

/-- What stands between double quotes, after the first. A backslash keeps the
character after it from ending the text. -/
def spanQuoted : List Char → Option (List Char × List Char)
  | [] => none
  | '"' :: rest => some ([], rest)
  | '\\' :: c :: rest => (spanQuoted rest).map fun (body, rest) => ('\\' :: c :: body, rest)
  | c :: rest => (spanQuoted rest).map fun (body, rest) => (c :: body, rest)

def unescape? : Nat → List Char → Option (List Char)
  | _, [] => some []
  | 0, _ => none
  | fuel + 1, c :: rest =>
      if c = '\\' then do
        let (e, rest) ← readEscape? rest
        return e :: (← unescape? fuel rest)
      else if isQuotable c then (unescape? fuel rest).map (c :: ·)
      else none

def takeBytes : Nat → List Char → List Char
  | _, [] => []
  | bytes, c :: rest =>
      if c.utf8Size ≤ bytes then c :: takeBytes (bytes - c.utf8Size) rest else []

/-- What a quoted text stands for. The text before the first escape is held in as
many bytes as it has characters, and what these do not hold is lost; a text without
escapes stands for itself. -/
def quoted? (body : List Char) : Option (List Char) :=
  let (plain, escaped) := body.span (· ≠ '\\')
  if plain.all isQuotable then
    if escaped.isEmpty then some plain
    else (unescape? escaped.length escaped).map (takeBytes plain.length plain ++ ·)
  else none

def readQuoted (s : List Char) : Option (List Char × List Char) := do
  let (body, rest) ← spanQuoted s
  return (← quoted? body, rest)

def isKeyChar (c : Char) : Bool := c.isAlphanum || c = '_' || c = '-'

def readKey (s : List Char) : Option (String × List Char) :=
  match s with
  | '"' :: rest => (readQuoted rest).map fun (k, rest) => (String.ofList k, rest)
  | _ =>
      match s.span isKeyChar with
      | ([], _) => none
      | (k, rest) => some (String.ofList k, rest)

mutual

def readValue : Nat → List Char → Option (Datum × List Char)
  | 0, _ => none
  | fuel + 1, s => do
      let (d, rest) ←
        match skipSpace s with
        | 't' :: 'r' :: 'u' :: 'e' :: rest => some (Datum.truth true, rest)
        | 'f' :: 'a' :: 'l' :: 's' :: 'e' :: rest => some (.truth false, rest)
        | '"' :: rest => (readQuoted rest).map fun (t, rest) => (.text (String.ofList t), rest)
        | '\'' :: c :: '\'' :: rest => some (.text (String.ofList [c]), rest)
        | '\'' :: _ => none
        | '[' :: rest => (readItems fuel rest).map fun (items, rest) => (.list items, rest)
        | '\x7b' :: rest => (readPairs fuel [] rest).map fun (pairs, rest) => (.table pairs, rest)
        | s =>
            let (w, rest) := s.span (!isSeparator ·)
            some (word w, rest)
      return (d, skipSpace rest)

def readItems : Nat → List Char → Option (List Datum × List Char)
  | 0, _ => none
  | fuel + 1, s =>
      match s with
      | ']' :: rest => some ([], rest)
      | _ => do
          let (d, rest) ← readValue fuel s
          match rest with
          | ',' :: rest =>
              let (items, rest) ← readItems fuel rest
              return (d :: items, rest)
          | ']' :: rest => return ([d], rest)
          | _ => none

def readPairs : Nat → Assoc Datum → List Char → Option (Assoc Datum × List Char)
  | 0, _, _ => none
  | fuel + 1, pairs, s =>
      match s with
      | '\x7d' :: rest => some (pairs, rest)
      | _ => do
          let (k, rest) ← readKey (skipSpace s)
          match skipSpace rest with
          | '=' :: rest =>
              let (d, rest) ← readValue fuel rest
              match rest with
              | ',' :: rest => readPairs fuel (pairs.set k d) rest
              | '\x7d' :: rest => return (pairs.set k d, rest)
              | _ => none
          | _ => none

end

def datum (value : String) : Datum :=
  match readValue (2 * value.length + 2) value.toList with
  | some (d, []) => d
  | _ => .text value

end Variable
end Text
end BitEquiv

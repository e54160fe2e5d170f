import BitEquiv.Text.Datum
import BitEquiv.Text.Escape

/-!
# TOML documents

A reader for TOML 1.0. A document is read line by line into a tree that remembers
how each table came to be: by a header, on the way to a header, or by a dotted
key. This decides which later lines may add to a table; a name is never given
twice. Readers take a text and give what they read with the text after it; the
fuel of a reader is a bound on the characters left.
-/

namespace BitEquiv
namespace Text
namespace Toml

/-! ## Blanks, comments and line ends -/

def isGap (c : Char) : Bool := c = ' ' || c = '\t'

def isPlain (c : Char) : Bool :=
  c = '\t' || (0x20 ≤ c.toNat && c.toNat ≤ 0x7E) || 0x80 ≤ c.toNat

def skipGap (s : List Char) : List Char := s.dropWhile isGap

def skipComment (s : List Char) : List Char :=
  match skipGap s with
  | '#' :: rest => rest.dropWhile isPlain
  | rest => rest

def newline? : List Char → Option (List Char)
  | '\n' :: rest => some rest
  | '\r' :: '\n' :: rest => some rest
  | _ => none

/-- The text after the blanks, the comment and the newline that may follow a line's
content. -/
def endLine? (s : List Char) : Option (List Char) :=
  match skipComment s with
  | [] => some []
  | rest => newline? rest

def skipLines : Nat → List Char → List Char
  | 0, s => s
  | fuel + 1, s =>
      match newline? (skipComment s) with
      | some rest => skipLines fuel rest
      | none => skipComment s

/-! ## Strings -/

def readBasic : Nat → List Char → List Char → Option (List Char × List Char)
  | 0, _, _ => none
  | _ + 1, _, [] => none
  | fuel + 1, acc, c :: rest =>
      if c = '"' then some (acc.reverse, rest)
      else if c = '\\' then do
        let (e, rest) ← readEscape? rest
        readBasic fuel (e :: acc) rest
      else if isPlain c then readBasic fuel (c :: acc) rest
      else none

def readLiteral (s : List Char) : Option (List Char × List Char) :=
  match s.span (fun c => isPlain c && c ≠ '\'') with
  | (body, '\'' :: rest) => some (body, rest)
  | _ => none

def skipBreaks : Nat → List Char → List Char
  | 0, s => s
  | fuel + 1, s =>
      match newline? (skipGap s) with
      | some rest => skipBreaks fuel rest
      | none => skipGap s

/-- The text after a backslash at the end of a line: blanks and newlines up to the
next character are left out. -/
def skipFold? (s : List Char) : Option (List Char) :=
  (newline? (skipGap s)).map fun rest => skipBreaks rest.length rest

/-- A string between runs of three quotes, after the first run and its newline.
At most two quotes may stand before the closing run. Escapes are read in strings
with double quotes. -/
def readMultiline (quote : Char) : Nat → List Char → List Char → Option (List Char × List Char)
  | 0, _, _ => none
  | fuel + 1, acc, s =>
      match s with
      | [] => none
      | c :: rest =>
          if c = quote then
            let run := s.takeWhile (· = quote)
            if run.length < 3 then
              readMultiline quote fuel (run ++ acc) (s.drop run.length)
            else if run.length ≤ 5 then some ((run.drop 3 ++ acc).reverse, s.drop run.length)
            else none
          else if c = '\\' ∧ quote = '"' then
            match skipFold? rest with
            | some rest => readMultiline quote fuel acc rest
            | none => do
                let (e, rest) ← readEscape? rest
                readMultiline quote fuel (e :: acc) rest
          else
            match newline? s with
            | some rest => readMultiline quote fuel ('\n' :: acc) rest
            | none => if isPlain c then readMultiline quote fuel (c :: acc) rest else none

def dropNewline (s : List Char) : List Char := (newline? s).getD s

def readString (s : List Char) : Option (List Char × List Char) :=
  match s with
  | '"' :: '"' :: '"' :: rest => readMultiline '"' s.length [] (dropNewline rest)
  | '\'' :: '\'' :: '\'' :: rest => readMultiline '\'' s.length [] (dropNewline rest)
  | '"' :: rest => readBasic s.length [] rest
  | '\'' :: rest => readLiteral rest
  | _ => none

/-! ## Keys -/

def isBare (c : Char) : Bool := c.isAlphanum || c = '_' || c = '-'

def readName (s : List Char) : Option (String × List Char) :=
  match s with
  | '"' :: rest => (readBasic s.length [] rest).map fun (n, rest) => (String.ofList n, rest)
  | '\'' :: rest => (readLiteral rest).map fun (n, rest) => (String.ofList n, rest)
  | _ =>
      match s.span isBare with
      | ([], _) => none
      | (name, rest) => some (String.ofList name, rest)

/-- How deep lists and tables on one line may stand in each other, and how many
names a key may have. -/
def maxDepth : Nat := 79

/-- A key of a limited number of names, with dots between them. -/
def readNames : Nat → List Char → Option (List String × List Char)
  | 0, _ => none
  | limit + 1, s => do
      let (name, rest) ← readName (skipGap s)
      match skipGap rest with
      | '.' :: rest =>
          let (names, rest) ← readNames limit rest
          return (name :: names, rest)
      | rest => return ([name], rest)

def readKey (s : List Char) : Option (List String × List Char) := readNames maxDepth s

/-! ## Numbers and moments -/

def digits? (base : Nat) (s : List Char) : Option Nat :=
  if (splitBy s).any List.isEmpty then none else ofDigits base 0 (s.filter (· ≠ '_'))
where
  /-- The pieces between underscores. -/
  splitBy : List Char → List (List Char)
    | [] => [[]]
    | c :: rest =>
        if c = '_' then [] :: splitBy rest
        else
          match splitBy rest with
          | [] => [[c]]
          | piece :: pieces => (c :: piece) :: pieces

/-- A number without sign; a zero in front stands alone. -/
def unsigned? (s : List Char) : Option Nat :=
  match s with
  | '0' :: _ :: _ => none
  | _ => digits? 10 s

def takeSign : List Char → Bool × List Char
  | '-' :: rest => (true, rest)
  | '+' :: rest => (false, rest)
  | s => (false, s)

def integer? (s : List Char) : Option Int := do
  let n : Int ←
    match s with
    | '0' :: 'x' :: rest => (digits? 16 rest).map Int.ofNat
    | '0' :: 'o' :: rest => (digits? 8 rest).map Int.ofNat
    | '0' :: 'b' :: rest => (digits? 2 rest).map Int.ofNat
    | _ =>
        let (negative, rest) := takeSign s
        (unsigned? rest).map fun n => if negative then -(n : Int) else n
  if -Int.ofNat (Nat.pow 2 63) ≤ n ∧ n < Int.ofNat (Nat.pow 2 63) then some n else none

/-- The first number beyond those that double precision rounds to a finite one. -/
def floatLimit : Nat := Nat.pow 2 1024 - Nat.pow 2 970

/-- Whether digits times a power of ten are below the limit of double precision.
The number of digits settles it for large powers, and for powers below zero one
compares with the limit times a power of ten. -/
def isFinite (digits : Nat) (power : Int) : Bool :=
  let size := (Nat.toDigits 10 digits).length + power
  digits = 0 || size < 300 ||
    (size < 400 &&
      digits * Nat.pow 10 power.toNat < floatLimit * Nat.pow 10 (-power).toNat)

/-- Whether a number without sign, written with a fraction or an exponent, is
finite in double precision. -/
def isFiniteText (s : List Char) : Bool :=
  let (mantissa, exponent) := (s.filter (· ≠ '_')).span fun c => c ≠ 'e' && c ≠ 'E'
  let part := (mantissa.dropWhile (· ≠ '.')).drop 1
  let (negative, power) := takeSign (exponent.drop 1)
  let power : Int := (natural? power).getD 0
  isFinite ((natural? (mantissa.filter (· ≠ '.'))).getD 0)
    ((if negative then -power else power) - part.length)

/-- Whether a text is a number with a fraction or an exponent. Only negative numbers
may be too large for double precision. -/
def isFraction (s : List Char) : Bool :=
  let (negative, s) := takeSign s
  let (mantissa, exponent) := s.span fun c => c ≠ 'e' && c ≠ 'E'
  let (whole, part) := mantissa.span (· ≠ '.')
  let partOk :=
    match part with
    | [] => !exponent.isEmpty
    | _ :: ds => (digits? 10 ds).isSome
  let exponentOk :=
    match exponent with
    | [] => true
    | _ :: ds => (digits? 10 (takeSign ds).2).isSome
  s = ['i', 'n', 'f'] || s = ['n', 'a', 'n'] ||
    ((unsigned? whole).isSome && partOk && exponentOk && (negative || isFiniteText s))

def within? (count low high : Nat) (s : List Char) : Option Nat :=
  if s.length = count then
    (ofDigits 10 0 s).bind fun n => if low ≤ n ∧ n ≤ high then some n else none
  else none

def daysIn (year month : Nat) : Nat :=
  if month = 2 then
    if year % 4 = 0 ∧ (year % 100 ≠ 0 ∨ year % 400 = 0) then 29 else 28
  else if month = 4 ∨ month = 6 ∨ month = 9 ∨ month = 11 then 30
  else 31

def isDate (s : List Char) : Bool :=
  match within? 4 0 9999 (s.take 4), within? 2 1 12 ((s.drop 5).take 2) with
  | some year, some month =>
      (s.drop 4).head? = some '-' && (s.drop 7).head? = some '-' &&
        (within? 2 1 (daysIn year month) (s.drop 8)).isSome
  | _, _ => false

def isClock (s : List Char) : Bool :=
  (within? 2 0 23 (s.take 2)).isSome && (s.drop 2).head? = some ':' &&
    (within? 2 0 59 (s.drop 3)).isSome

/-- A time as `hh:mm:ss`, with an optional fraction of a second. -/
def isTime (s : List Char) : Bool :=
  isClock (s.take 5) && (s.drop 5).head? = some ':' &&
    (within? 2 0 60 ((s.drop 6).take 2)).isSome &&
    match s.drop 8 with
    | [] => true
    | '.' :: ds => !ds.isEmpty && ds.all Char.isDigit
    | _ => false

def isZonedTime (s : List Char) : Bool :=
  match s.reverse with
  | 'Z' :: r => isTime r.reverse
  | 'z' :: r => isTime r.reverse
  | _ =>
      isTime s ||
        (let zone := s.drop (s.length - 6)
         (zone.head? = some '+' || zone.head? = some '-') && isClock zone.tail &&
           isTime (s.take (s.length - 6)))

/-- A date, a time, or both with a letter between them. -/
def isMoment (s : List Char) : Bool :=
  isDate s || isTime s ||
    (isDate (s.take 10) && ((s.drop 10).head? = some 'T' || (s.drop 10).head? = some 't') &&
      isZonedTime (s.drop 11))

def isWordChar (c : Char) : Bool :=
  c.isAlphanum || c = '_' || c = '-' || c = '+' || c = '.' || c = ':'

/-- A moment in time is a table with one reserved name. -/
def moment (word : List Char) : Datum :=
  .table [("$__toml_private_datetime", .text (String.ofList word))]

/-- A value that is one word: a truth value, a number or a moment. A date may be
followed by a blank and a time. -/
def readWord (s : List Char) : Option (Datum × List Char) :=
  let (word, rest) := s.span isWordChar
  if word = "true".toList then some (.truth true, rest)
  else if word = "false".toList then some (.truth false, rest)
  else if isDate word then
    match rest with
    | ' ' :: c :: after =>
        if c.isDigit then
          let (time, rest) := (c :: after).span isWordChar
          if isZonedTime time then some (moment (word ++ 'T' :: time), rest) else none
        else some (moment word, rest)
    | _ => some (moment word, rest)
  else if isMoment word then some (moment word, rest)
  else
    match integer? word with
    | some n => some (.integer n, rest)
    | none => if isFraction word then some (.fraction, rest) else none

/-! ## Tables under construction -/

/-- A part of a document. A table is `passing` while it only stands on the way to
a header or comes from a dotted key, and `dotted` in the second case. -/
inductive Node where
  | value (d : Datum)
  | table (passing dotted : Bool) (fields : List (String × Node))
  | tables (items : List (List (String × Node)))

mutual

def Node.datum : Node → Datum
  | .value d => d
  | .table _ _ fields => .table (fieldData fields)
  | .tables items => .list (itemData items)

def fieldData : List (String × Node) → List (String × Datum)
  | [] => []
  | field :: rest => fieldDatum field :: fieldData rest

def fieldDatum : String × Node → String × Datum
  | (name, node) => (name, node.datum)

def itemData : List (List (String × Node)) → List Datum
  | [] => []
  | fields :: rest => .table (fieldData fields) :: itemData rest

end

/-- Change the table at the end of a path, making the tables on the way. Dotted
keys may not pass through a table that has a header. -/
def changeAt (dotted : Bool) (change : Bool → Assoc Node → Option (Assoc Node)) :
    List String → Bool → Assoc Node → Option (Assoc Node)
  | [], own, fields => change own fields
  | name :: path, _, fields =>
      match fields.get? name with
      | none => do
          let inner ← changeAt dotted change path dotted []
          return fields.set name (.table true dotted inner)
      | some (.table passing d inner) =>
          if dotted && !passing then none
          else do
            let inner ← changeAt dotted change path d inner
            return fields.set name (.table passing d inner)
      | some (.tables items) =>
          match items.getLast? with
          | some last => do
              let last ← changeAt dotted change path false last
              return fields.set name (.tables (items.dropLast ++ [last]))
          | none => none
      | some (.value _) => none

/-- Give a name its value. The table must come from the same dotted key, or be the
one that the line stands in. -/
def addValue (path : List String) (name : String) (d : Datum) (fields : Assoc Node) :
    Option (Assoc Node) :=
  changeAt true
    (fun own fields =>
      if own = path.isEmpty ∨ fields.has name then none
      else some (fields.set name (.value d)))
    path false fields

/-- The table of a header `[a.b]`. -/
def openTable (path : List String) (name : String) (fields : Assoc Node) : Option (Assoc Node) :=
  changeAt false
    (fun _ fields =>
      match fields.get? name with
      | none => some (fields.set name (.table false false []))
      | some (.table true false inner) => some (fields.set name (.table false false inner))
      | some _ => none)
    path false fields

/-- A new item of the list of tables of a header `[[a.b]]`. -/
def openItem (path : List String) (name : String) (fields : Assoc Node) : Option (Assoc Node) :=
  changeAt false
    (fun _ fields =>
      match fields.get? name with
      | none => some (fields.set name (.tables [[]]))
      | some (.tables items) => some (fields.set name (.tables (items ++ [[]])))
      | some _ => none)
    path false fields

def addUnder (header : List String) (key : List String) (d : Datum) (fields : Assoc Node) :
    Option (Assoc Node) :=
  match key.getLast? with
  | none => none
  | some name =>
      changeAt false (fun _ inner => addValue key.dropLast name d inner) header false fields

/-! ## Values -/

mutual

/-- A value of any kind, with room for a number of lists and tables in each other. -/
def readValue : Nat → Nat → List Char → Option (Datum × List Char)
  | 0, _, _ => none
  | fuel + 1, room, s =>
      match s with
      | '"' :: _ => (readString s).map fun (t, rest) => (.text (String.ofList t), rest)
      | '\'' :: _ => (readString s).map fun (t, rest) => (.text (String.ofList t), rest)
      | '[' :: rest =>
          if room = 0 then none
          else (readItems fuel (room - 1) rest).map fun (items, rest) => (.list items, rest)
      | '\x7b' :: rest =>
          if room = 0 then none
          else
            match skipGap rest with
            | '\x7d' :: rest => some (.table [], rest)
            | rest => (readPairs fuel (room - 1) [] rest).map fun (d, rest) => (d, rest)
      | _ => readWord s

def readItems : Nat → Nat → List Char → Option (List Datum × List Char)
  | 0, _, _ => none
  | fuel + 1, room, s =>
      match skipLines s.length s with
      | ']' :: rest => some ([], rest)
      | s => do
          let (d, rest) ← readValue fuel room s
          match skipLines rest.length rest with
          | ']' :: rest => return ([d], rest)
          | ',' :: rest =>
              let (items, rest) ← readItems fuel room rest
              return (d :: items, rest)
          | _ => none

/-- The pairs of a table on one line, after its brace or a comma. -/
def readPairs : Nat → Nat → Assoc Node → List Char → Option (Datum × List Char)
  | 0, _, _, _ => none
  | fuel + 1, room, fields, s => do
      let (key, rest) ← readKey s
      match rest with
      | '=' :: rest =>
          let (d, rest) ← readValue fuel room (skipGap rest)
          let fields ← addUnder [] key d fields
          match skipGap rest with
          | '\x7d' :: rest => return ((Node.table false false fields).datum, rest)
          | ',' :: rest => readPairs fuel room fields rest
          | _ => none
      | _ => none

end

/-! ## Documents -/

/-- A document so far: its fields, and the header that lines belong to. -/
structure Draft where
  fields : Assoc Node
  header : List String

def Draft.readLine (draft : Draft) (s : List Char) : Option (Draft × List Char) :=
  match skipGap s with
  | [] => some (draft, [])
  | '[' :: '[' :: rest => do
      let (key, rest) ← readKey rest
      match rest with
      | ']' :: ']' :: rest =>
          let name ← key.getLast?
          let fields ← openItem key.dropLast name draft.fields
          return (⟨fields, key⟩, ← endLine? rest)
      | _ => none
  | '[' :: rest => do
      let (key, rest) ← readKey rest
      match rest with
      | ']' :: rest =>
          let name ← key.getLast?
          let fields ← openTable key.dropLast name draft.fields
          return (⟨fields, key⟩, ← endLine? rest)
      | _ => none
  | '#' :: _ => (endLine? s).map fun rest => (draft, rest)
  | c :: rest =>
      match newline? (c :: rest) with
      | some rest => some (draft, rest)
      | none => do
          let (key, rest) ← readKey (c :: rest)
          match rest with
          | '=' :: rest =>
              let (d, rest) ← readValue (2 * s.length + 2) maxDepth (skipGap rest)
              let fields ← addUnder draft.header key d draft.fields
              return (⟨fields, draft.header⟩, ← endLine? rest)
          | _ => none

def Draft.readLines : Nat → Draft → List Char → Option Draft
  | _, draft, [] => some draft
  | 0, _, _ => none
  | fuel + 1, draft, s => do
      let (draft, rest) ← draft.readLine s
      readLines fuel draft rest

def parse (s : List Char) : Option (Assoc Datum) :=
  let s :=
    match s with
    | c :: rest => if c.toNat = 0xFEFF then rest else s
    | [] => []
  (Draft.readLines (s.length + 1) ⟨[], []⟩ s).map fun draft => fieldData draft.fields

end Toml
end Text
end BitEquiv

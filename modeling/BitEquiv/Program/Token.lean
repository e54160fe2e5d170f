import BitEquiv.Text.Numeral

/-!
# Tokens of programs

A program text is cut into words, numerals, literals and marks, each with its
place in the text in bytes. Blank means space, tab, carriage return or newline; a
comment goes from a semicolon to the end of the line.

A token is as long as it can be. Nothing has to stand between two tokens that
cannot run together: `#x1g` is a literal and a word.
-/

namespace BitEquiv
namespace Program

structure Span where
  start : Nat
  stop : Nat
deriving DecidableEq

def Span.length (s : Span) : Nat := s.stop - s.start

structure Located (α : Type) where
  value : α
  span : Span
deriving DecidableEq

inductive Lexeme where
  | opening
  | closing
  | colon
  | equals
  | arrow
  | word (text : String)
  | numeral (digits : List Char)
  | hex (digits : List Char)
  | binary (digits : List Char)
  | stray
deriving DecidableEq

abbrev Token := Located Lexeme

namespace Token

def isWordChar (c : Char) : Bool := c.isAlphanum || c == '_'

def isWordStart (c : Char) : Bool := c.isAlpha || c == '_'

def isHexDigit (c : Char) : Bool := (Text.digitValue c).isSome

def isBlank (c : Char) : Bool := c == ' ' || c == '\t' || c == '\r' || c == '\n'

/-- Where the scanner stands. A token under way has its start and the characters
that count, last first. -/
inductive Mode where
  | between
  | comment
  | word (start : Nat) (read : List Char)
  | numeral (start : Nat) (read : List Char)
  | hash (start : Nat)
  | hex (start : Nat) (read : List Char)
  | binary (start : Nat) (read : List Char)
  | equals (start : Nat)

def Mode.close (stop : Nat) : Mode → List Token
  | between => []
  | comment => []
  | word start read => [⟨.word (String.ofList read.reverse), ⟨start, stop⟩⟩]
  | numeral start read => [⟨.numeral read.reverse, ⟨start, stop⟩⟩]
  | hash start => [⟨.stray, ⟨start, stop⟩⟩]
  | hex start read =>
      [⟨if read.isEmpty then .stray else .hex read.reverse, ⟨start, stop⟩⟩]
  | binary start read =>
      [⟨if read.isEmpty then .stray else .binary read.reverse, ⟨start, stop⟩⟩]
  | equals start => [⟨.equals, ⟨start, stop⟩⟩]

/-- The mode after a character that belongs to what is under way. -/
def Mode.extend (c : Char) : Mode → Option Mode
  | between => none
  | comment => if c == '\n' then some between else some comment
  | word start read => if isWordChar c then some (word start (c :: read)) else none
  | numeral start read => if c.isDigit then some (numeral start (c :: read)) else none
  | hash start =>
      if c == 'x' then some (hex start [])
      else if c == 'b' then some (binary start [])
      else none
  | hex start read => if isHexDigit c then some (hex start (c :: read)) else none
  | binary start read => if c == '0' || c == '1' then some (binary start (c :: read)) else none
  | equals _ => none

/-- The token that a character is by itself, if any, and the mode after it. -/
def openAt (pos : Nat) (c : Char) : List Token × Mode :=
  let here : Span := ⟨pos, pos + c.utf8Size⟩
  if c == '(' then ([⟨.opening, here⟩], .between)
  else if c == ')' then ([⟨.closing, here⟩], .between)
  else if c == ':' then ([⟨.colon, here⟩], .between)
  else if c == '=' then ([], .equals pos)
  else if c == ';' then ([], .comment)
  else if c == '#' then ([], .hash pos)
  else if isBlank c then ([], .between)
  else if isWordStart c then ([], .word pos [c])
  else if c.isDigit then ([], .numeral pos [c])
  else ([⟨.stray, here⟩], .between)

/-- One character at `pos`: the tokens that it completes, and the mode after
it. -/
def step (pos : Nat) (mode : Mode) (c : Char) : List Token × Mode :=
  match mode, c with
  | .equals start, '>' => ([⟨.arrow, ⟨start, pos + 1⟩⟩], .between)
  | mode, c =>
      match mode.extend c with
      | some next => ([], next)
      | none =>
          let (tokens, next) := openAt pos c
          (mode.close pos ++ tokens, next)

def scan (pos : Nat) (mode : Mode) : List Char → List Token
  | [] => mode.close pos
  | c :: rest =>
      let (tokens, next) := step pos mode c
      tokens ++ scan (pos + c.utf8Size) next rest

def ofText (s : List Char) : List Token := scan 0 .between s

end Token
end Program
end BitEquiv

import BitEquiv.Text.Blank
import BitEquiv.Text.Numeral
import BitEquiv.Execution.Shell.Script

/-!
# Tokens of shell scripts

The tokens between which a script has its structure, the faults that scripts can have,
and the state of reading one. Documents that a line announces are read when the line
ends; until then the tokens know them by numbers.
-/

namespace BitEquiv
namespace Execution
namespace Shell

/-- A token. A redirection is known by its descriptor and its sign; its word is a
token of its own. -/
inductive Token where
  | word (w : Word)
  | keyword (text : String)
  | sign (text : String)
  | redirection (descriptor : Option Nat) (sign : String)
  | newline
  | finish

def keywords : List String :=
  ["!", "case", "do", "done", "elif", "else", "esac", "fi", "for", "if", "in", "then",
    "until", "while", "\x7b", "\x7d"]

namespace Token

def shown : Token → String
  | word _ => "word"
  | keyword text => "\"" ++ text ++ "\""
  | sign text => "\"" ++ text ++ "\""
  | redirection .. => "redirection"
  | newline => "newline"
  | finish => "end of file"

def isKeyword (text : String) : Token → Bool
  | keyword t => t = text
  | _ => false

def isSign (text : String) : Token → Bool
  | sign t => t = text
  | _ => false

def isNewline : Token → Bool
  | newline => true
  | _ => false

def isFinish : Token → Bool
  | finish => true
  | _ => false

def endsList : Token → Bool
  | keyword t =>
      ["do", "done", "elif", "else", "esac", "fi", "then", "\x7d"].contains t
  | sign t => t = ")" || t = ";;"
  | finish => true
  | _ => false

def asKeyword : Token → Token
  | word w =>
      match w.bare? with
      | some text =>
          if keywords.contains (String.ofList text) then keyword (String.ofList text)
          else word w
      | none => word w
  | t => t

end Token

/-! ## Faults -/

inductive Cause where
  | unexpected (found : Token) (expected : Option String)
  | openQuote
  | openBrace
  | openArithmetic
  | openBackquote
  | loopVariable
  | functionName

structure Fault where
  line : Nat
  cause : Cause

namespace Fault

def text (f : Fault) : String :=
  match f.cause with
  | .unexpected found expected =>
      found.shown ++ " unexpected" ++
        (match expected with
        | some e => " (expecting " ++ e ++ ")"
        | none => "")
  | .openQuote => "Unterminated quoted string"
  | .openBrace => "Missing '\x7d'"
  | .openArithmetic => "Missing '))'"
  | .openBackquote => "EOF in backquote substitution"
  | .loopVariable => "Bad for loop variable"
  | .functionName => "Bad function name"

def message (f : Fault) : String := "Syntax error: " ++ f.text

end Fault

/-! ## Reading -/

/-- A document that was announced: its number, the line that ends it, whether tabs in
front of its lines are dropped, and whether its text is taken as it is. -/
structure Announced where
  id : Nat
  mark : List Char
  dropsTabs : Bool
  isPlain : Bool

/-- What has not been read of a script, with a token that was looked at. An alias is a
text that stands for the name of a command; it is out of use while its own text is read,
which is up to where some characters are left. -/
structure Reader where
  rest : List Char
  line : Nat
  ahead : Option Token
  announced : List Announced
  documents : List (Nat × Word)
  nextId : Nat
  aliases : List (String × String)
  aliasEnds : List (String × Nat)

def Reader.ofText (text : List Char) (line nextId : Nat) : Reader :=
  ⟨text, line, none, [], [], nextId, [], []⟩

abbrev Parser := StateT Reader (Except Fault)

namespace Parser

def fail {α : Type} (cause : Cause) : Parser α := fun r => .error ⟨r.line, cause⟩

def unexpected {α : Type} (found : Token) (expected : Option String) : Parser α :=
  fail (.unexpected found expected)

def putBack (t : Token) : Parser Unit := modify fun r => { r with ahead := some t }

def goTo (rest : List Char) : Parser Unit := modify fun r => { r with rest := rest }

def goDown (lines : Nat) (rest : List Char) : Parser Unit :=
  modify fun r => { r with rest := rest, line := r.line + lines }

end Parser

def countLines (text : List Char) : Nat := text.count '\n'

/-- A text without the joined line ends in front of it, and how many there were. -/
def dropJoins : List Char → Nat × List Char
  | '\\' :: '\n' :: rest =>
      let (count, rest) := dropJoins rest
      (count + 1, rest)
  | text => (0, text)

/-- The text of a document up to its mark, from the lines that follow, and the lines
after it. -/
def spanDocument (d : Announced) : List (List Char) → List Char × List (List Char)
  | [] => ([], [])
  | line :: rest =>
      let line := if d.dropsTabs then line.dropWhile (· = '\t') else line
      if line = d.mark then ([], rest)
      else if rest.isEmpty then (line, [])
      else
        let (text, rest) := spanDocument d rest
        (line ++ '\n' :: text, rest)

def endsWord (c : Char) : Bool :=
  c = ' ' || c = '\t' || c = '\n' || c = ';' || c = '&' || c = '|' || c = '<' || c = '>'
    || c = '(' || c = ')'

def signs : List String := [";;", ";", "&&", "&", "||", "|", "(", ")"]

def redirectionSigns : List String := [">>", ">|", ">&", ">", "<<-", "<<", "<&", "<>", "<"]

/-- The first of some signs that a text begins with, and the text after it. -/
def readSign (signs : List String) (text : List Char) : Option (String × List Char) :=
  signs.findSome? fun sign => (Text.stripStart sign.toList text).map fun rest => (sign, rest)

end Shell
end Execution
end BitEquiv

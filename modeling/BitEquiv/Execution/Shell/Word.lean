/-!
# Words

A word of a script is a sequence of pieces: text, parameters, outputs of scripts and
arithmetic. A quoted piece is taken as it is once it has been expanded; of an unquoted
one the expansion is split into fields and matched against file names.
-/

namespace BitEquiv
namespace Execution
namespace Shell

mutual

/-- What is made of the value of a parameter. Where a use says what happens without a
value, `alsoEmpty` lets an empty value count as none. -/
inductive Use where
  | value
  | length
  | otherwise (alsoEmpty : Bool) (word : List Piece)
  | assign (alsoEmpty : Bool) (word : List Piece)
  | demand (alsoEmpty : Bool) (word : List Piece)
  | instead (alsoEmpty : Bool) (word : List Piece)
  | trim (fromEnd longest : Bool) (pattern : List Piece)
  | bad

inductive Piece where
  | text (text : List Char) (isQuoted : Bool)
  | parameter (name : String) (use : Use) (isQuoted : Bool)
  | output (script : List Char) (line : Nat) (isQuoted : Bool)
  | arithmetic (body : List Piece) (isQuoted : Bool)

end

abbrev Word := List Piece

namespace Word

def pushText (text : List Char) (isQuoted : Bool) : Word → Word
  | .text before q :: rest =>
      if q = isQuoted then .text (before ++ text) q :: rest
      else .text text isQuoted :: .text before q :: rest
  | pieces => .text text isQuoted :: pieces

def bare? : Word → Option (List Char)
  | [] => some []
  | [.text text false] => some text
  | _ => none

def hasQuotes (w : Word) : Bool :=
  w.any fun
    | .text _ isQuoted => isQuoted
    | .parameter _ _ isQuoted => isQuoted
    | .output _ _ isQuoted => isQuoted
    | .arithmetic _ isQuoted => isQuoted

def text (w : Word) : List Char :=
  w.flatMap fun
    | .text text _ => text
    | _ => []

end Word

def isNameStart (c : Char) : Bool := c.isAlpha || c = '_'

def isNameChar (c : Char) : Bool := c.isAlphanum || c = '_'

def isName : List Char → Bool
  | [] => false
  | c :: rest => isNameStart c && rest.all isNameChar

def isSpecial (c : Char) : Bool :=
  c = '#' || c = '$' || c = '@' || c = '*' || c = '?' || c = '!' || c = '-'

def Word.setting? : Word → Option (String × Word)
  | .text text false :: rest =>
      let (name, after) := text.span isNameChar
      match after with
      | '=' :: value =>
          if isName name then
            some (String.ofList name,
              if value.isEmpty then rest else .text value false :: rest)
          else none
      | _ => none
  | _ => none

end Shell
end Execution
end BitEquiv

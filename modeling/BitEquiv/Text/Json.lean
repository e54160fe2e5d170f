import BitEquiv.Text.Numeral

/-!
# JSON documents

Documents are trees whose objects keep the order of their fields. The writer
puts one item on a line and indents by two blanks a level.
-/

namespace BitEquiv
namespace Text

inductive Json where
  | text (s : String)
  | number (n : Int)
  | truth (b : Bool)
  | list (items : List Json)
  | object (fields : List (String × Json))

namespace Json

/-- A character inside of a string. Only quotes, backslashes and control
characters are escaped. -/
def escapeChar (c : Char) : List Char :=
  if c = '"' then ['\\', '"']
  else if c = '\\' then ['\\', '\\']
  else if c = '\n' then ['\\', 'n']
  else if c = '\r' then ['\\', 'r']
  else if c = '\t' then ['\\', 't']
  else if c.toNat = 8 then ['\\', 'b']
  else if c.toNat = 12 then ['\\', 'f']
  else if c.toNat < 32 then ['\\', 'u'] ++ padded 16 4 c.toNat
  else [c]

def quoted (s : String) : String :=
  "\"" ++ String.ofList (s.toList.flatMap escapeChar) ++ "\""

def newLine (level : Nat) : String :=
  "\n" ++ String.ofList (List.replicate (2 * level) ' ')

/-- The texts of items between brackets, one a line; without items the brackets
stand alone. -/
def enclosed (level : Nat) (opening closing : String) (items : List String) : String :=
  if items.isEmpty then opening ++ closing
  else
    opening ++ newLine (level + 1) ++ String.intercalate ("," ++ newLine (level + 1)) items
      ++ newLine level ++ closing

mutual

def textAt (level : Nat) : Json → String
  | text s => quoted s
  | number n => signedDecimal n
  | truth b => if b then "true" else "false"
  | list items => enclosed level "[" "]" (itemTexts (level + 1) items)
  | object fields => enclosed level "\x7b" "\x7d" (fieldTexts (level + 1) fields)

def itemTexts (level : Nat) : List Json → List String
  | [] => []
  | item :: rest => textAt level item :: itemTexts level rest

def fieldTexts (level : Nat) : List (String × Json) → List String
  | [] => []
  | field :: rest => fieldText level field :: fieldTexts level rest

def fieldText (level : Nat) : String × Json → String
  | (name, value) => quoted name ++ ": " ++ textAt level value

end

def document (j : Json) : String := textAt 0 j ++ "\n"

def natural (n : Nat) : Json := number (Int.ofNat n)

def texts (items : List String) : Json := list (items.map text)

def optional {α : Type} (name : String) (value : α → Json) : Option α → List (String × Json)
  | none => []
  | some a => [(name, value a)]

def nonEmpty {α : Type} (name : String) (value : α → Json) (items : List α) :
    List (String × Json) :=
  if items.isEmpty then [] else [(name, list (items.map value))]

end Json
end Text
end BitEquiv

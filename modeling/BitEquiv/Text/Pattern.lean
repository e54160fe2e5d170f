import BitEquiv.Text.Octet

/-!
# Patterns

A pattern is fitted to a whole text: a star fits any text, a question mark one
character, and brackets one of some characters. Quoted characters fit themselves.
-/

namespace BitEquiv
namespace Text

structure Mark where
  char : Char
  isQuoted : Bool
deriving DecidableEq

def Mark.isBare (c : Char) (m : Mark) : Bool := m.char = c && !m.isQuoted

namespace Pattern

inductive Choice where
  | range (low high : Char)
  | named (name : String)

def Choice.admits (c : Char) : Choice → Bool
  | range low high => low ≤ c && c ≤ high
  | named name => ((Octet.classes.lookup name).map fun p => p c).getD false

inductive Element where
  | exactly (c : Char)
  | any
  | many
  | oneOf (isNegated : Bool) (choices : List Choice)

def Element.admits (c : Char) : Element → Bool
  | exactly d => c = d
  | any => true
  | many => true
  | oneOf isNegated choices => choices.any (Choice.admits c) != isNegated

/-- The name of a class of characters, after its bracket and colon. -/
def spanClass : List Mark → Option (List Char × List Mark)
  | a :: b :: rest =>
      if a.isBare ':' && b.isBare ']' then some ([], rest)
      else if a.char.isAlpha then
        (spanClass (b :: rest)).map fun (name, rest) => (a.char :: name, rest)
      else none
  | _ => none

/-- The choices up to the closing bracket. The first character is none. -/
def spanChoices : Nat → (isFirst : Bool) → List Mark → Option (List Choice × List Mark)
  | 0, _, _ => none
  | _, _, [] => none
  | fuel + 1, isFirst, m :: rest =>
      if m.isBare ']' && !isFirst then some ([], rest)
      else
        let one : Choice × List Mark :=
          match rest with
          | colon :: inner =>
              match (if m.isBare '[' && colon.isBare ':' then spanClass inner else none) with
              | some (name, rest) => (.named (String.ofList name), rest)
              | none =>
                  match inner with
                  | high :: after =>
                      if colon.isBare '-' && !high.isBare ']' then
                        (.range m.char high.char, after)
                      else (.range m.char m.char, rest)
                  | [] => (.range m.char m.char, rest)
          | [] => (.range m.char m.char, rest)
        (spanChoices fuel false one.2).map fun (choices, rest) => (one.1 :: choices, rest)

/-- The elements of a pattern. A bracket that is not closed stands for itself. -/
def elements : Nat → List Mark → List Element
  | 0, _ => []
  | _, [] => []
  | fuel + 1, m :: rest =>
      if m.isBare '*' then .many :: elements fuel rest
      else if m.isBare '?' then .any :: elements fuel rest
      else if m.isBare '[' then
        let isNegated := (rest.head?.map (Mark.isBare '!')).getD false
        match spanChoices (rest.length + 1) true (if isNegated then rest.drop 1 else rest) with
        | some (choices, rest) => .oneOf isNegated choices :: elements fuel rest
        | none => .exactly m.char :: elements fuel rest
      else .exactly m.char :: elements fuel rest

end Pattern

abbrev Pattern := List Pattern.Element

namespace Pattern

def ofMarks (marks : List Mark) : Pattern := elements (marks.length + 1) marks

def someEnd (kind : List Char → Bool) : List Char → Bool
  | [] => kind []
  | c :: text => kind (c :: text) || someEnd kind text

def fits : Pattern → List Char → Bool
  | [], text => text.isEmpty
  | .many :: rest, text => someEnd (fits rest) text
  | _ :: _, [] => false
  | e :: rest, c :: text => e.admits c && fits rest text

def isOpen (p : Pattern) : Bool :=
  p.any fun
    | .exactly _ => false
    | _ => true

/-- The beginnings and ends of a text, the shortest beginning first. -/
def cuts : List Char → List (List Char × List Char)
  | [] => [([], [])]
  | c :: rest => ([], c :: rest) :: (cuts rest).map fun (a, b) => (c :: a, b)

def trim (fromEnd longest : Bool) (p : Pattern) (text : List Char) : List Char :=
  let cuts := if fromEnd = longest then cuts text else (cuts text).reverse
  let found :=
    cuts.find? fun (before, after) => fits p (if fromEnd then after else before)
  match found with
  | some (before, after) => if fromEnd then before else after
  | none => text

end Pattern
end Text
end BitEquiv

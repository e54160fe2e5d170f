import BitEquiv.Text.Blank

/-!
# S-expressions

A text is cut into tokens, and the tokens are put together to expressions.
Comments go from a semicolon to the end of the line. A symbol between bars loses
its bars; a string literal keeps its outer quotes, and a doubled quote inside it
stands for one.
-/

namespace BitEquiv
namespace Smt

inductive SExpr where
  | atom (text : String)
  | list (items : List SExpr)

namespace SExpr

mutual

/-- An expression as text; atoms are written as they were read. -/
def text : SExpr → String
  | atom a => a
  | list items => "(" ++ String.intercalate " " (texts items) ++ ")"

def texts : List SExpr → List String
  | [] => []
  | e :: es => text e :: texts es

end

inductive Fault where
  | unbalancedClose
  | unbalancedOpen
  | openSymbol
  | openString
deriving DecidableEq

def Fault.message : Fault → String
  | unbalancedClose => "unbalanced `)`"
  | unbalancedOpen => "unbalanced `(`"
  | openSymbol => "unterminated quoted symbol"
  | openString => "unterminated string literal"

inductive Token where
  | opening
  | closing
  | atom (text : String)
deriving DecidableEq

/-- Where the scanner stands; the characters of the token under way are kept
last first. -/
inductive Mode where
  | between
  | comment
  | quoted (read : List Char)
  | string (read : List Char)
  /-- After a quote in a string: another one is part of the string. -/
  | stringQuote (read : List Char)
  | bare (read : List Char)

def isDelimiter (c : Char) : Bool :=
  Text.isBlank c || c == '(' || c == ')' || c == ';' || c == '|' || c == '"'

/-- The token that a character between tokens is, if any, and the mode after
it. -/
def start (c : Char) : List Token × Mode :=
  if c == '(' then ([.opening], .between)
  else if c == ')' then ([.closing], .between)
  else if c == ';' then ([], .comment)
  else if c == '|' then ([], .quoted [])
  else if c == '"' then ([], .string [])
  else if Text.isBlank c then ([], .between)
  else ([], .bare [c])

def bareAtom (read : List Char) : Token := .atom (String.ofList read.reverse)

def stringAtom (read : List Char) : Token :=
  .atom (String.ofList ('"' :: (read.reverse ++ ['"'])))

/-- The tokens of a text, with a fault when the last one is not ended. -/
def scan : Mode → List Char → List Token × Option Fault
  | .between, [] => ([], none)
  | .comment, [] => ([], none)
  | .quoted _, [] => ([], some .openSymbol)
  | .string _, [] => ([], some .openString)
  | .stringQuote read, [] => ([stringAtom read], none)
  | .bare read, [] => ([bareAtom read], none)
  | .between, c :: rest =>
      let (now, mode) := start c
      let (later, fault) := scan mode rest
      (now ++ later, fault)
  | .comment, c :: rest => scan (if c == '\n' then .between else .comment) rest
  | .quoted read, c :: rest =>
      if c == '|' then
        let (later, fault) := scan .between rest
        (bareAtom read :: later, fault)
      else scan (.quoted (c :: read)) rest
  | .string read, c :: rest =>
      scan (if c == '"' then .stringQuote read else .string (c :: read)) rest
  | .stringQuote read, c :: rest =>
      if c == '"' then scan (.string ('"' :: read)) rest
      else
        let (now, mode) := start c
        let (later, fault) := scan mode rest
        (stringAtom read :: (now ++ later), fault)
  | .bare read, c :: rest =>
      if isDelimiter c then
        let (now, mode) := start c
        let (later, fault) := scan mode rest
        (bareAtom read :: (now ++ later), fault)
      else scan (.bare (c :: read)) rest

/-- Put tokens together. `items` are the expressions of the innermost open
list, last first, and `outer` those of the lists around it. -/
def build : List SExpr → List (List SExpr) → List Token → Option Fault → Except Fault (List SExpr)
  | _, _, [], some fault => .error fault
  | items, [], [], none => .ok items.reverse
  | _, _ :: _, [], none => .error .unbalancedOpen
  | items, outer, .opening :: rest, fault => build [] (items :: outer) rest fault
  | _, [], .closing :: _, _ => .error .unbalancedClose
  | items, parent :: outer, .closing :: rest, fault =>
      build (list items.reverse :: parent) outer rest fault
  | items, outer, .atom a :: rest, fault => build (atom a :: items) outer rest fault

def parseAll (s : List Char) : Except Fault (List SExpr) :=
  let (tokens, fault) := scan .between s
  build [] [] tokens fault

end SExpr
end Smt
end BitEquiv

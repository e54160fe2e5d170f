import BitEquiv.Text.Pattern

/-!
# Regular expressions

The basic and the extended regular expressions of text utilities. A match is the first
one in the text, and of those that begin there the longest. Groups hold what they matched
last.
-/

namespace BitEquiv
namespace Text

inductive Regex where
  | nothing
  | exactly (c : Char)
  | any
  | oneOf (isNegated : Bool) (choices : List Pattern.Choice)
  | lineStart
  | lineEnd
  | wordEdge (isStart isEnd : Bool)
  | noWordEdge
  | seq (first second : Regex)
  | alt (first second : Regex)
  | repeated (least : Nat) (most : Option Nat) (r : Regex)
  | group (n : Nat) (r : Regex)
  | back (n : Nat)

namespace Regex

/-! ## Matching -/

/-- A place in a text: what comes before it and after it, and what groups have
matched so far as pairs of places. -/
structure At where
  place : Nat
  before : Option Char
  rest : List Char
  groups : List (Nat × Nat × Nat)
deriving DecidableEq

def isWordChar (c : Char) : Bool := c.isAlphanum || c = '_'

def At.edges (a : At) : Bool × Bool :=
  let left := (a.before.map isWordChar).getD false
  let right := (a.rest.head?.map isWordChar).getD false
  (!left && right, left && !right)

def At.next (a : At) (c : Char) (rest : List Char) : At :=
  { a with place := a.place + 1, before := some c, rest := rest }

/-- How characters are compared, the text that groups refer to, and whether the
expression refers to groups. -/
structure Setting where
  ignoresCase : Bool
  whole : List Char
  refersBack : Bool

def Setting.same (s : Setting) (c d : Char) : Bool :=
  c = d || (s.ignoresCase && c.toLower = d.toLower)

def Setting.chosen (s : Setting) (choices : List Pattern.Choice) (c : Char) : Bool :=
  choices.any (Pattern.Choice.admits c) ||
    (s.ignoresCase && (choices.any (Pattern.Choice.admits c.toLower)
      || choices.any (Pattern.Choice.admits c.toUpper)))

def At.across (s : Setting) (a : At) : List Char → Option At
  | [] => some a
  | c :: text =>
      match a.rest with
      | d :: rest => if s.same c d then (a.next d rest).across s text else none
      | [] => none

/-- The first of those at the same place. Only where an expression refers to groups can
what groups hold make a difference further on. -/
def Setting.distinct (s : Setting) (found : List At) : List At :=
  if s.refersBack then found.eraseDups
  else
    (found.foldl
      (fun (kept : List At × List Nat) a =>
        if kept.2.contains a.place then kept else (a :: kept.1, a.place :: kept.2))
      ([], [])).1.reverse

/-- The places that repetitions of a step lead to, those after more steps first. All
places after one more step are found together; a step beyond the least number of them
has to get on. -/
def iterate (s : Setting) (step : At → List At) (least : Nat) (most : Option Nat) :
    Nat → Nat → List At → List At → List At
  | 0, _, _, found => found
  | fuel + 1, count, here, found =>
      let found := if least ≤ count then here ++ found else found
      let mayGoOn := (most.map fun n => decide (count < n)).getD true
      if here.isEmpty || !mayGoOn then found
      else
        let further (a : At) := (step a).filter fun b => b.place ≠ a.place || count < least
        iterate s step least most fuel (count + 1) (s.distinct (here.flatMap further)) found

/-- The places that an expression leads to from a place, the preferred ones first. -/
def ends (s : Setting) : Regex → At → List At
  | nothing, a => [a]
  | exactly c, a =>
      match a.rest with
      | d :: rest => if s.same c d then [a.next d rest] else []
      | [] => []
  | any, a =>
      match a.rest with
      | d :: rest => [a.next d rest]
      | [] => []
  | oneOf isNegated choices, a =>
      match a.rest with
      | d :: rest => if s.chosen choices d != isNegated then [a.next d rest] else []
      | [] => []
  | lineStart, a => if a.place = 0 then [a] else []
  | lineEnd, a => if a.rest.isEmpty then [a] else []
  | wordEdge isStart isEnd, a =>
      let (starts, stops) := a.edges
      if (isStart && starts) || (isEnd && stops) then [a] else []
  | noWordEdge, a =>
      let (starts, stops) := a.edges
      if starts || stops then [] else [a]
  | seq first second, a => s.distinct ((ends s first a).flatMap (ends s second))
  | alt first second, a => s.distinct (ends s first a ++ ends s second a)
  | repeated least most r, a =>
      iterate s (ends s r) least most (a.rest.length + least + 2) 0 [a] []
  | group n r, a =>
      (ends s r a).map fun b =>
        { b with groups := (n, a.place, b.place) :: b.groups.filter (·.1 ≠ n) }
  | back n, a =>
      match a.groups.lookup n with
      | some (start, stop) =>
          (a.across s ((s.whole.take stop).drop start)).toList
      | none => []

structure Match where
  start : Nat
  stop : Nat
  groups : List (Nat × Nat × Nat)

def matchAt (s : Setting) (r : Regex) (a : At) : Option Match :=
  let best : Option At := (ends s r a).foldl
    (fun best b =>
      match best with
      | some c => if c.place < b.place then some b else some c
      | none => some b)
    none
  best.map fun b => ⟨a.place, b.place, b.groups⟩

def searchFrom (s : Setting) (r : Regex) : List Char → Option Char → Nat → Option Match
  | [], before, place => matchAt s r ⟨place, before, [], []⟩
  | c :: rest, before, place =>
      match matchAt s r ⟨place, before, c :: rest, []⟩ with
      | some m => some m
      | none => searchFrom s r rest (some c) (place + 1)

/-- The largest number by which an expression refers to a group. -/
def lastBack : Regex → Nat
  | back n => n
  | seq a b => max (lastBack a) (lastBack b)
  | alt a b => max (lastBack a) (lastBack b)
  | repeated _ _ r => lastBack r
  | group _ r => lastBack r
  | _ => 0

def search (r : Regex) (ignoresCase : Bool) (text : List Char) (start : Nat) : Option Match :=
  let before := if start = 0 then none else text[start - 1]?
  searchFrom ⟨ignoresCase, text, lastBack r ≠ 0⟩ r (text.drop start) before start

def Match.group (m : Match) (text : List Char) (n : Nat) : List Char :=
  if n = 0 then (text.take m.stop).drop m.start
  else
    match m.groups.lookup n with
    | some (start, stop) => (text.take stop).drop start
    | none => []

/-! ## Reading -/

/-- The signs of an expression, whichever way they are written. -/
inductive Sign where
  | one (r : Regex)
  | opening
  | closing
  | bar
  | times (least : Nat) (most : Option Nat)

def bounds? (text : List Char) : Option (Nat × Option Nat) :=
  match cutAt (· == ',') text with
  | none => (natural? text).map fun n => (n, some n)
  | some (low, high) => do
      let least ← if low.isEmpty then some 0 else natural? low
      if high.isEmpty then return (least, none)
      return (least, some (← natural? high))

def letterSign (c : Char) : Option Regex :=
  let word : List Pattern.Choice := [.named "alnum", .range '_' '_']
  match c with
  | 'w' => some (oneOf false word)
  | 'W' => some (oneOf true word)
  | 's' => some (oneOf false [.named "space"])
  | 'S' => some (oneOf true [.named "space"])
  | 'b' => some (wordEdge true true)
  | 'B' => some noWordEdge
  | '<' => some (wordEdge true false)
  | '>' => some (wordEdge false true)
  | 'n' => some (exactly '\n')
  | 't' => some (exactly '\t')
  | _ => if '1' ≤ c && c ≤ '9' then some (back (c.toNat - '0'.toNat)) else none

def isStart : Option Sign → Bool
  | none => true
  | some .opening => true
  | some .bar => true
  | _ => false

def hasNothing : Option Sign → Bool
  | some (.one .lineStart) => true
  | s => isStart s

/-- The signs of an expression. In basic expressions some signs have a backslash that
in extended ones have none. -/
def signs (isExtended : Bool) : Nat → Option Sign → List Char → Except String (List Sign)
  | 0, _, _ => .ok []
  | _, _, [] => .ok []
  | fuel + 1, last, c :: rest => do
      let go (s : Sign) (rest : List Char) : Except String (List Sign) := do
        return s :: (← signs isExtended fuel (some s) rest)
      let plain (c : Char) (rest : List Char) := go (.one (.exactly c)) rest
      /- A sign of the kind that is written with a backslash in basic expressions. -/
      let marked (c : Char) (rest : List Char) : Option (Except String (List Sign)) :=
        match c with
        | '(' => some (go .opening rest)
        | ')' => some (go .closing rest)
        | '|' => some (go .bar rest)
        | '+' => if hasNothing last then none else some (go (.times 1 none) rest)
        | '?' => if hasNothing last then none else some (go (.times 0 (some 1)) rest)
        | '\x7b' =>
            let close := if isExtended then ['\x7d'] else ['\\', '\x7d']
            match cutAtText close rest with
            | some (inner, after) =>
                match bounds? inner with
                | some (least, most) =>
                    if hasNothing last then none else some (go (.times least most) after)
                | none =>
                    if isExtended then none
                    else some (.error "Invalid content of \\\x7b\\\x7d")
            | none => if isExtended then none else some (.error "Unmatched \\\x7b")
        | _ => none
      if c = '\\' then
        match rest with
        | [] => .error "Trailing backslash"
        | d :: rest =>
            match (if isExtended then none else marked d rest) with
            | some found => found
            | none =>
                match letterSign d with
                | some r => go (.one r) rest
                | none => plain d rest
      else if c = '[' then
        let isNegated := rest.head? = some '^'
        let inner := if isNegated then rest.drop 1 else rest
        match Pattern.spanChoices (inner.length + 1) true (inner.map fun c => ⟨c, false⟩) with
        | none => .error "unterminated ["
        | some (choices, after) => go (.one (.oneOf isNegated choices)) (after.map (·.char))
      else if c = '.' then go (.one .any) rest
      else if c = '*' then if hasNothing last then plain c rest else go (.times 0 none) rest
      else if c = '^' then
        if isExtended || isStart last then go (.one .lineStart) rest else plain c rest
      else if c = '$' then
        let isLast := rest.isEmpty || (stripStart ['\\', ')'] rest).isSome
          || (stripStart ['\\', '|'] rest).isSome
        if isExtended || isLast then go (.one .lineEnd) rest else plain c rest
      else
        match (if isExtended then marked c rest else none) with
        | some found => found
        | none => plain c rest

mutual

/-- Alternatives, with the number of groups so far and the signs after them. -/
def alternatives : Nat → Nat → List Sign → Except String (Regex × Nat × List Sign)
  | 0, n, ss => .ok (nothing, n, ss)
  | fuel + 1, n, ss => do
      let (first, n, ss) ← sequence fuel n ss
      match ss with
      | .bar :: rest =>
          let (second, n, ss) ← alternatives fuel n rest
          return (alt first second, n, ss)
      | _ => return (first, n, ss)

def sequence : Nat → Nat → List Sign → Except String (Regex × Nat × List Sign)
  | 0, n, ss => .ok (nothing, n, ss)
  | fuel + 1, n, ss => do
      match ss with
      | .one r :: rest => more fuel n r rest
      | .opening :: rest =>
          let (inner, m, ss) ← alternatives fuel (n + 1) rest
          match ss with
          | .closing :: rest => more fuel m (group (n + 1) inner) rest
          | _ => .error "Unmatched ( or \\("
      | _ => return (nothing, n, ss)

def more : Nat → Nat → Regex → List Sign → Except String (Regex × Nat × List Sign)
  | 0, n, r, ss => .ok (r, n, ss)
  | fuel + 1, n, r, ss => do
      match ss with
      | .times least most :: rest => more fuel n (repeated least most r) rest
      | _ =>
          let (second, n, ss) ← sequence fuel n ss
          return (seq r second, n, ss)

end

def parse (isExtended : Bool) (text : List Char) : Except String Regex := do
  let ss ← signs isExtended (text.length + 1) none text
  let (r, n, rest) ← alternatives (4 * ss.length + 4) 0 ss
  if !rest.isEmpty then .error "Unmatched ) or \\)"
  else if n < lastBack r then .error "Invalid back reference"
  else return r

def ofText (text : List Char) : Regex := text.foldr (fun c r => seq (exactly c) r) nothing

end Regex
end Text
end BitEquiv

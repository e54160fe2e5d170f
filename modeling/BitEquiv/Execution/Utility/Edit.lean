import BitEquiv.Text.Regex
import BitEquiv.Execution.Utility.Show

/-!
# Edits

The commands by which a stream editor changes lines, and how they are read. A command
has addresses that say for which lines it runs. Blocks and labels are resolved to the
places of commands in the list.
-/

namespace BitEquiv
namespace Execution
namespace Utility
namespace Edit

open Text (Regex)

/-- A place that an address names. Without an expression of its own a match uses the
last one that was used. -/
inductive Address where
  | line (n : Nat)
  | every (first step : Nat)
  | last
  | matching (r : Option Regex) (ignoresCase : Bool)

inductive RangeEnd where
  | address (a : Address)
  | after (count : Nat)
  | multiple (n : Nat)

inductive Part where
  | char (c : Char)
  | group (n : Nat)
  | casing (letter : Char)

structure Substitution where
  regex : Option Regex
  ignoresCase : Bool
  parts : List Part
  number : Nat
  isGlobal : Bool
  prints : Bool
  file : Option String

inductive Action where
  | block (close : Nat)
  | nothing
  | lineNumber
  | append (text : List Char)
  | insert (text : List Char)
  | change (text : List Char)
  | branch (kind : Char) (label : String)
  | delete
  | deleteFirst
  | print
  | printFirst
  | next
  | joinNext
  | quit (prints : Bool) (status : Nat)
  | readFile (path : String)
  | writeFile (path : String)
  | hold (appends : Bool)
  | recall (appends : Bool)
  | exchange
  | list
  | substitute (s : Substitution)
  | exchangeChars (pairs : List (Char × Char))
  | clear
  | fileName

structure Command where
  first : Option Address
  stop : Option RangeEnd
  isNegated : Bool
  action : Action

/-- What was read of a script, and the places where its labels stand. -/
structure Reading where
  commands : List Command
  labels : List (String × Nat)
  openBlocks : List Nat

/-- What is wrong with a script, and what had not been read when that was seen. -/
abbrev ScriptFault := String × List Char

/-! ## Pieces of commands -/

def dropSpaces (text : List Char) : List Char := text.dropWhile fun c => c = ' ' || c = '\t'

def spanNat (text : List Char) : Option (Nat × List Char) :=
  let digits := text.takeWhile Char.isDigit
  (Text.natural? digits).map fun n => (n, text.drop digits.length)

/-- The text up to a delimiter that is not quoted, and the text after it. In an
expression a bracket hides delimiters, and a quoted delimiter loses its backslash. -/
def spanDelimited (delimiter : Char) (isRegex : Bool) :
    Nat → (inBracket : Bool) → List Char → Option (List Char × List Char)
  | 0, _, _ => none
  | _, _, [] => none
  | fuel + 1, inBracket, c :: rest =>
      let go (kept : List Char) (inBracket : Bool) (rest : List Char) :=
        (spanDelimited delimiter isRegex fuel inBracket rest).map fun (text, rest) =>
          (kept ++ text, rest)
      if c = delimiter && !inBracket then some ([], rest)
      else if c = '\\' && !inBracket then
        match rest with
        | [] => none
        | d :: rest =>
            if d = delimiter && isRegex then go [d] false rest
            else if d = 'n' && isRegex then go ['\n'] false rest
            else go ['\\', d] false rest
      else if c = '\\' && rest.head? = some 'n' && isRegex then go ['\n'] true (rest.drop 1)
      else if c = '[' && isRegex && !inBracket then
        match rest with
        | '^' :: ']' :: rest => go ['[', '^', ']'] true rest
        | ']' :: rest => go ['[', ']'] true rest
        | _ => go ['['] true rest
      else if c = '[' && inBracket && rest.head? = some ':' then
        match Text.cutAtText [':', ']'] (rest.drop 1) with
        | some (name, rest) => go ("[:".toList ++ name ++ ":]".toList) true rest
        | none => go ['['] true rest
      else if c = ']' && inBracket then go [']'] false rest
      else go [c] inBracket rest

/-- An expression in front of some text that has not been read. -/
def parseRegex (isExtended : Bool) (text rest : List Char) :
    Except ScriptFault (Option Regex) :=
  if text.isEmpty then .ok none
  else ((Regex.parse isExtended text).map some).mapError fun message => (message, rest)

def partsOf : Nat → List Char → List Part
  | 0, _ => []
  | _, [] => []
  | fuel + 1, '\\' :: c :: rest =>
      let part : Part :=
        if c.isDigit then .group (c.toNat - '0'.toNat)
        else if ['L', 'U', 'l', 'u', 'E'].contains c then .casing c
        else if c = 'n' then .char '\n'
        else if c = 't' then .char '\t'
        else if c = 'r' then .char '\r'
        else if c = 'a' then .char (Char.ofNat 7)
        else if c = 'f' then .char (Char.ofNat 12)
        else if c = 'v' then .char (Char.ofNat 11)
        else .char c
      part :: partsOf fuel rest
  | fuel + 1, c :: rest => (if c = '&' then .group 0 else .char c) :: partsOf fuel rest

def spanAddress (isExtended : Bool) (text : List Char) :
    Except ScriptFault (Option (Address × List Char)) := do
  let matching (delimiter : Char) (rest : List Char) := do
    match spanDelimited delimiter true (rest.length + 1) false rest with
    | none => throw ("unterminated address regex", [])
    | some (inner, rest) =>
        let flags := rest.takeWhile fun c => c = 'I' || c = 'M'
        let rest := rest.drop flags.length
        let r ← parseRegex isExtended inner rest
        return some (Address.matching r (flags.contains 'I'), rest)
  match text with
  | '$' :: rest => return some (.last, rest)
  | '/' :: rest => matching '/' rest
  | '\\' :: c :: rest => matching c rest
  | _ =>
      match spanNat text with
      | none => return none
      | some (n, rest) =>
          match rest with
          | '~' :: rest =>
              match spanNat rest with
              | some (step, rest) => return some (.every n step, rest)
              | none => return some (.every n 0, rest)
          | _ => return some (.line n, rest)

def spanRangeEnd (isExtended : Bool) (text : List Char) :
    Except ScriptFault (RangeEnd × List Char) := do
  let text := dropSpaces text
  match text with
  | '+' :: rest =>
      let (n, rest) := (spanNat rest).getD (0, rest)
      return (.after n, rest)
  | '~' :: rest =>
      let (n, rest) := (spanNat rest).getD (0, rest)
      return (.multiple n, rest)
  | _ =>
      match ← spanAddress isExtended text with
      | some (a, rest) => return (.address a, rest)
      | none => throw ("unexpected `,'", text.drop 1)

/-- The text of a command that takes lines of text. Lines end with a backslash but for
the last one. -/
def spanText (text : List Char) : List Char × List Char :=
  let text := dropSpaces text
  match text with
  | '\\' :: rest =>
      match dropSpaces rest with
      | [] => ([], [])
      | '\n' :: rest => lines (rest.length + 1) rest
      | _ => lines (rest.length + 1) rest
  | _ => lines (text.length + 1) text
where
  lines : Nat → List Char → List Char × List Char
    | 0, _ => (['\n'], [])
    | _, [] => (['\n'], [])
    | _, '\n' :: rest => (['\n'], rest)
    | fuel + 1, '\\' :: c :: rest =>
        let (text, rest) := lines fuel rest
        (c :: text, rest)
    | _, ['\\'] => (['\n'], [])
    | fuel + 1, c :: rest =>
        let (text, rest) := lines fuel rest
        (c :: text, rest)

def spanName (text : List Char) : String × List Char :=
  let text := dropSpaces text
  let name := text.takeWhile (· ≠ '\n')
  (String.ofList name, text.drop name.length)

def spanLabel (text : List Char) : String × List Char :=
  let text := dropSpaces text
  let name := text.takeWhile fun c => c ≠ '\n' && c ≠ ';'
  (String.ofList name, text.drop name.length)

def spanFlags : Nat → Substitution → (hasNumber : Bool) → List Char →
    Except ScriptFault (Substitution × List Char)
  | 0, s, _, text => .ok (s, text)
  | _, s, _, [] => .ok (s, [])
  | fuel + 1, s, hasNumber, c :: rest =>
      let multiple (what : String) : Except ScriptFault (Substitution × List Char) :=
        .error ("multiple " ++ what ++ " options to `s' command", rest)
      if c = 'g' then
        if s.isGlobal then multiple "`g'"
        else spanFlags fuel { s with isGlobal := true } hasNumber rest
      else if c = 'p' then
        if s.prints then multiple "`p'"
        else spanFlags fuel { s with prints := true } hasNumber rest
      else if c = 'i' || c = 'I' then
        spanFlags fuel { s with ignoresCase := true } hasNumber rest
      else if c = 'm' || c = 'M' || c = 'e' || c = ' ' then spanFlags fuel s hasNumber rest
      else if c = 'w' then
        let (name, rest) := spanName rest
        if name.isEmpty then .error ("missing filename in r/R/w/W commands", [])
        else .ok ({ s with file := some name }, rest)
      else if c.isDigit then
        match spanNat (c :: rest) with
        | some (n, after) =>
            if hasNumber then .error ("multiple number options to `s' command", after)
            else if n = 0 then
              .error ("number option to `s' command may not be zero", after)
            else spanFlags fuel { s with number := n } true after
        | none => .ok (s, c :: rest)
      else if c = '\n' || c = ';' || c = '\x7d' || c = '#' || c = '\r' then .ok (s, c :: rest)
      else .error ("unknown option to `s'", rest)

def groupsIn : Regex → Nat
  | .group n r => max n (groupsIn r)
  | .seq a b => max (groupsIn a) (groupsIn b)
  | .alt a b => max (groupsIn a) (groupsIn b)
  | .repeated _ _ r => groupsIn r
  | _ => 0

def groupsUsed (parts : List Part) : Nat :=
  parts.foldl
    (fun n part =>
      match part with
      | .group m => max n m
      | _ => n)
    0

def spanSubstitution (isExtended : Bool) (text : List Char) :
    Except ScriptFault (Substitution × List Char) := do
  let side (delimiter : Char) (isRegex : Bool) (text : List Char) :=
    match spanDelimited delimiter isRegex (text.length + 1) false text with
    | some found => Except.ok found
    | none => .error ("unterminated `s' command", [])
  match text with
  | [] => throw ("unterminated `s' command", [])
  | delimiter :: rest =>
      let (pattern, rest) ← side delimiter true rest
      let (replacement, rest) ← side delimiter false rest
      let parts := partsOf (replacement.length + 1) replacement
      let (s, rest) ← spanFlags (rest.length + 1) ⟨none, false, parts, 1, false, false, none⟩
        false rest
      let seen := if rest.head? = some ';' || rest.head? = some '\n' then rest.drop 1 else rest
      let r ← parseRegex isExtended pattern seen
      let opened := (r.map groupsIn).getD 0
      if r.isSome && opened < groupsUsed parts then
        throw ("invalid reference \\" ++ Text.decimal (groupsUsed parts)
          ++ " on `s' command's RHS", seen)
      return ({ s with regex := r }, rest)

def tableChars (delimiter : Char) : List Char → List Char
  | '\\' :: c :: rest =>
      (if c = 'n' then ['\n'] else if c = '\\' || c = delimiter then [c] else ['\\', c])
        ++ tableChars delimiter rest
  | c :: rest => c :: tableChars delimiter rest
  | [] => []

def spanTable (text : List Char) : Except ScriptFault (Action × List Char) := do
  let side (delimiter : Char) (text : List Char) :=
    match spanDelimited delimiter false (text.length + 1) false text with
    | some found => Except.ok found
    | none => .error ("unterminated `y' command", [])
  match text with
  | [] => throw ("unterminated `y' command", [])
  | delimiter :: rest =>
      let (given, rest) ← side delimiter rest
      let (wanted, rest) ← side delimiter rest
      let sources := tableChars delimiter given
      let targets := tableChars delimiter wanted
      if sources.length ≠ targets.length then
        throw ("strings for `y' command are different lengths", rest)
      return (.exchangeChars (sources.zip targets), rest)

/-! ## Scripts -/

def spanAction (isExtended : Bool) (letter : Char) (rest : List Char) :
    Except ScriptFault (Action × List Char) :=
  let status (rest : List Char) : Nat × List Char :=
    (spanNat (dropSpaces rest)).getD (0, rest)
  let text (make : List Char → Action) : Except ScriptFault (Action × List Char) :=
    if (dropSpaces rest).isEmpty then .error ("expected \\ after `a', `c' or `i'", [])
    else
      let (text, rest) := spanText rest
      .ok (make text, rest)
  match letter with
  | '=' => .ok (.lineNumber, rest)
  | 'a' => text .append
  | 'i' => text .insert
  | 'c' => text .change
  | 'b' | 't' | 'T' =>
      let (label, rest) := spanLabel rest
      .ok (.branch letter label, rest)
  | 'd' => .ok (.delete, rest)
  | 'D' => .ok (.deleteFirst, rest)
  | 'p' => .ok (.print, rest)
  | 'P' => .ok (.printFirst, rest)
  | 'n' => .ok (.next, rest)
  | 'N' => .ok (.joinNext, rest)
  | 'q' => .ok (.quit true (status rest).1, (status rest).2)
  | 'Q' => .ok (.quit false (status rest).1, (status rest).2)
  | 'r' | 'R' =>
      let (name, rest) := spanName rest
      if name.isEmpty then .error ("missing filename in r/R/w/W commands", [])
      else .ok (.readFile name, rest)
  | 'w' | 'W' =>
      let (name, rest) := spanName rest
      if name.isEmpty then .error ("missing filename in r/R/w/W commands", [])
      else .ok (.writeFile name, rest)
  | 'h' => .ok (.hold false, rest)
  | 'H' => .ok (.hold true, rest)
  | 'g' => .ok (.recall false, rest)
  | 'G' => .ok (.recall true, rest)
  | 'x' => .ok (.exchange, rest)
  | 'l' => .ok (.list, (status rest).2)
  | 's' => do
      let (s, rest) ← spanSubstitution isExtended rest
      return (.substitute s, rest)
  | 'y' => spanTable rest
  | 'z' => .ok (.clear, rest)
  | 'F' => .ok (.fileName, rest)
  | c => .error ("unknown command: `" ++ String.ofList [c] ++ "'", rest)

def closeBlock (r : Reading) : Option Reading :=
  match r.openBlocks with
  | [] => none
  | place :: rest =>
      let close := r.commands.length
      some { r with
        openBlocks := rest
        commands := r.commands.modify place fun c => { c with action := .block close } }

def misusesZero : Option Address → Option RangeEnd → Bool
  | some (.line 0), some (.address (.matching ..)) => false
  | some (.line 0), _ => true
  | _, _ => false

def isForOneLine : Action → Bool
  | .quit .. => true
  | _ => false

def commands (isExtended : Bool) : Nat → Reading → List Char → Except ScriptFault Reading
  | 0, r, _ => .ok r
  | fuel + 1, r, text => do
      let text := text.dropWhile fun c => Text.Octet.isSpace c || c = ';'
      match text with
      | [] => return r
      | '#' :: rest => commands isExtended fuel r (rest.dropWhile (· ≠ '\n'))
      | _ =>
          let (first, text) :=
            match ← spanAddress isExtended text with
            | some (a, rest) => (some a, dropSpaces rest)
            | none => (none, text)
          let (stop, text) ←
            match first, text with
            | some _, ',' :: rest => do
                let (stop, rest) ← spanRangeEnd isExtended rest
                pure (some stop, dropSpaces rest)
            | _, _ => pure (none, text)
          if misusesZero first stop then
            throw ("invalid usage of line address 0", text.drop 1)
          let (isNegated, text) ←
            match text with
            | '!' :: rest =>
                match dropSpaces rest with
                | '!' :: rest => throw ("multiple `!'s", rest)
                | rest => pure (true, rest)
            | _ => pure (false, text)
          let add (action : Action) (r : Reading) : Reading :=
            { r with commands := r.commands ++ [⟨first, stop, isNegated, action⟩] }
          match text with
          | [] => throw ("missing command", [])
          | '\x7b' :: rest =>
              let place := r.commands.length
              let r := add .nothing r
              commands isExtended fuel { r with openBlocks := place :: r.openBlocks } rest
          | '\x7d' :: rest =>
              match closeBlock r with
              | none => throw ("unexpected `\x7d'", rest)
              | some r =>
                  if first.isSome then throw ("\x7d doesn't want any addresses", rest)
                  else finish fuel r rest
          | ':' :: rest =>
              if first.isSome then throw (": doesn't want any addresses", rest)
              else
                let (label, rest) := spanLabel rest
                if label.isEmpty then throw ("\":\" lacks a label", rest)
                else
                  let label := label.trimAsciiEnd.toString
                  let r := { r with labels := (label, r.commands.length) :: r.labels }
                  finish fuel r rest
          | c :: rest => do
              let (action, after) ← spanAction isExtended c rest
              if stop.isSome && isForOneLine action then
                throw ("command only uses one address", rest)
              match action with
              | .append _ | .insert _ | .change _ => commands isExtended fuel (add action r) after
              | _ => finish fuel (add action r) after
where
  /-- The end of a command. -/
  finish (fuel : Nat) (r : Reading) (rest : List Char) : Except ScriptFault Reading :=
    match dropSpaces rest with
    | [] => .ok r
    | c :: after =>
        if c = ';' || c = '\n' || c = '\r' then commands isExtended fuel r after
        else if c = '\x7d' || c = '#' then commands isExtended fuel r (c :: after)
        else .error ("extra characters after command", after)

def missingLabel? (r : Reading) : Option String :=
  r.commands.findSome? fun c =>
    match c.action with
    | .branch _ label =>
        if label.isEmpty || (r.labels.lookup label).isSome then none else some label
    | _ => none

/-- Read a script; a fault comes with the status that it leads to. -/
def parse (isExtended : Bool) (text : List Char) : Except (Nat × String) Reading :=
  match commands isExtended (text.length + 1) ⟨[], [], []⟩ text with
  | .error (message, rest) =>
      .error (1, "-e expression #1, char " ++ Text.decimal (text.length - rest.length) ++ ": "
        ++ message)
  | .ok r =>
      if !r.openBlocks.isEmpty then .error (1, "-e expression #1, char 0: unmatched `\x7b'")
      else
        match missingLabel? r with
        | some label => .error (4, "can't find label for jump to `" ++ label ++ "'")
        | none => .ok r

end Edit
end Utility
end Execution
end BitEquiv

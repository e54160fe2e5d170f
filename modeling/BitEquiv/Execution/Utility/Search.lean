import BitEquiv.Text.Pattern
import BitEquiv.Text.Regex
import BitEquiv.Execution.Utility.Show
import BitEquiv.Execution.Utility.Tree

/-!
# Searching and expressions

The utility that shows the lines in which patterns match, and the one that computes
with its arguments.
-/

namespace BitEquiv
namespace Execution
namespace Utility

open Text (Pattern Regex wholeLines)
open Job (inQuotes)

/-! ## Searching -/

structure Search where
  regex : Regex
  ignoresCase : Bool
  wholeLines : Bool
  wholeWords : Bool

namespace Search

/-- Whether a match stands between characters that are in no word. -/
def isWord (line : List Char) (m : Regex.Match) : Bool :=
  let outside (c : Option Char) : Bool := !((c.map Regex.isWordChar).getD false)
  outside (line.take m.start).getLast? && outside (line.drop m.stop).head?

def find? (s : Search) (line : List Char) : Nat → Nat → Option Regex.Match
  | 0, _ => none
  | fuel + 1, start =>
      match s.regex.search s.ignoresCase line start with
      | none => none
      | some m =>
          let counts :=
            if s.wholeLines then m.start = 0 && m.stop = line.length
            else !s.wholeWords || isWord line m
          if counts then some m
          else if s.wholeLines then none
          else if line.length ≤ m.start then none
          else find? s line fuel (m.start + 1)

def hits (s : Search) (line : List Char) : Bool := (s.find? line (line.length + 1) 0).isSome

def all (s : Search) (line : List Char) : Nat → Nat → List (List Char)
  | 0, _ => []
  | fuel + 1, start =>
      match s.find? line (line.length + 1) start with
      | none => []
      | some m =>
          if m.stop = m.start then
            if line.length ≤ m.stop then [] else all s line fuel (m.stop + 1)
          else m.group line 0 :: all s line fuel m.stop

end Search

def anyOf (parse : List Char → Except String Regex) :
    List (List Char) → Except String Regex
  | [] => .error ""
  | [only] => parse only
  | first :: rest => do return .alt (← parse first) (← anyOf parse rest)

def grepFlags : List Job.Flag :=
  Job.switches [('a', "text"), ('b', "byte-offset"), ('c', "count"), ('E', "extended-regexp"),
    ('F', "fixed-strings"), ('G', "basic-regexp"), ('h', "no-filename"), ('H', "with-filename"),
    ('i', "ignore-case"), ('y', ""), ('I', ""), ('l', "files-with-matches"),
    ('L', "files-without-match"), ('n', "line-number"), ('o', "only-matching"), ('q', "quiet"),
    ('r', "recursive"), ('R', "dereference-recursive"), ('s', "no-messages"), ('v', "invert-match"),
    ('w', "word-regexp"), ('x', "line-regexp"), ('z', "null-data"), ('q', "silent")]
  ++ Job.takers [('e', "regexp"), ('f', "file"), ('m', "max-count"), ('A', "after-context"),
    ('B', "before-context"), ('C', "context"), ('d', "directories"), ('N', "include"),
    ('X', "exclude")]
  ++ [⟨'k', "color", .perhaps⟩, ⟨'k', "colour", .perhaps⟩]

/-- The numbers of lines that are shown: those that match with some before and after. -/
def withContext (before after : Nat) (found : List Nat) (count : Nat) : List Nat :=
  (List.range count).filter fun n =>
    found.any fun m => m ≤ n + before && n ≤ m + after

def grepText (p : Job.Parsed) (s : Search) (shown : String) (named : Bool) (text : List Char) :
    List Char × Nat :=
  let lines := (wholeLines text).1
  let hits := ((lines.zipIdx.filter fun (line, _) => s.hits line != p.has 'v').map (·.2))
  let hits :=
    match (p.last? 'm').bind count? with
    | some n => hits.take n
    | none => hits
  let number (c : Char) : Option Nat := (p.last? c).bind count?
  let around := (number 'C').getD 0
  let before := (number 'B').getD around
  let after := (number 'A').getD around
  let label (mark : Char) (n : Nat) : List Char :=
    (if named then shown.toList ++ [mark] else [])
      ++ (if p.has 'n' then (Text.decimal (n + 1)).toList ++ [mark] else [])
  let chosen := withContext before after hits lines.length
  let text (n : Nat) : List Char :=
    let line := lines.getD n []
    let isHit := hits.contains n
    if p.has 'o' then
      if p.has 'v' || !isHit then []
      else (s.all line (line.length + 2) 0).flatMap fun t => label ':' n ++ t ++ ['\n']
    else label (if isHit then ':' else '-') n ++ line ++ ['\n']
  let hasGaps := before + after > 0
  let out := chosen.zipIdx.flatMap fun (n, i) =>
    let gap := hasGaps && i > 0 && chosen.getD (i - 1) 0 + 1 ≠ n
    (if gap then ['-', '-', '\n'] else []) ++ text n
  let out :=
    if p.has 'q' then []
    else if p.has 'l' then if hits.isEmpty then [] else shown.toList ++ ['\n']
    else if p.has 'L' then if hits.isEmpty then shown.toList ++ ['\n'] else []
    else if p.has 'c' then
      (if named then shown.toList ++ [':'] else []) ++ (Text.decimal hits.length).toList ++ ['\n']
    else out
  (out, hits.length)

def filesBelow (j : Job) : Nat → String → List String
  | 0, path => [path]
  | depth + 1, path =>
      if j.isDirectory path then
        (j.children path).flatMap fun name => filesBelow j depth (joinPath path name)
      else [path]

def grepOperands (p : Job.Parsed) (s : Search) (operands : List String) (j : Job) : Job :=
  let isDeep := p.has 'r' || p.has 'R'
  let operands := if operands.isEmpty then [if isDeep then "." else "-"] else operands
  let named := (operands.length > 1 || isDeep || p.has 'H') && !p.has 'h'
  let fits (letter : Char) (path : String) : Bool :=
    p.options.any fun (other, glob) => other = letter
      && Pattern.fits (Pattern.ofMarks (glob.toList.map fun c => ⟨c, false⟩)) (baseName path).toList
  let isWanted (path : String) : Bool := (!p.has 'N' || fits 'N' path) && !fits 'X' path
  let operands :=
    if isDeep then (operands.flatMap (filesBelow j 32)).filter isWanted else operands
  let start : Job × Bool × Bool := (j, false, false)
  let (j, found, failed) := operands.foldl
    (fun (j, found, failed) operand =>
      match j.readOperand operand with
      | .error fault =>
          let j := if p.has 's' then j else j.complain (Job.plainComplaint operand fault)
          (j, found, failed || fault ≠ .isDirectory)
      | .ok text =>
          let shown := if operand = "-" then "(standard input)" else operand
          let (out, count) := grepText p s shown named text
          let hit := if p.has 'L' then count = 0 else count > 0
          ((j.afterRead operand).print out, found || hit, failed))
    start
  j.withStatus (if failed && !(p.has 'q' && found) then 2 else if found then 0 else 1)

def grepWith (fixed extended : Bool) : Utility := fun j =>
  Job.withOptions grepFlags 2
    (fun p j =>
      let given := (p.options.filter (·.1 = 'e')).map (·.2)
      let read := (p.options.filter (·.1 = 'f')).map fun o => j.readOperand o.2
      let texts := given.map String.toList ++ read.filterMap fun
        | .ok text => some (if text.getLast? = some '\n' then text.dropLast else text)
        | .error _ => none
      let isGiven := !given.isEmpty || !read.isEmpty
      let texts := if isGiven then texts else (p.operands.take 1).map String.toList
      let operands := if isGiven then p.operands else p.operands.drop 1
      if texts.isEmpty && !isGiven then
        ((j.printError "Usage: grep [OPTION]... PATTERNS [FILE]...\n").printError
          "Try 'grep --help' for more information.\n").withStatus 2
      else
        let isFixed := p.has 'F' || (fixed && !p.has 'E' && !p.has 'G')
        let isExtended := p.has 'E' || (extended && !p.has 'G')
        let parse (text : List Char) : Except String Regex :=
          if isFixed then .ok (Regex.ofText text) else Regex.parse isExtended text
        let patterns := texts.flatMap fun text => Text.splitBy (· == '\n') text
        match anyOf parse patterns with
        | .error complaint =>
            let complaint := if complaint = "unterminated [" then
              "Unmatched [, [^, [:, [., or [=" else complaint
            j.failWith 2 complaint
        | .ok regex =>
            grepOperands p ⟨regex, p.has 'i' || p.has 'y', p.has 'x', p.has 'w'⟩ operands j)
    { j with args := j.args.map fun a =>
        match a.toList with
        | '-' :: d :: more =>
            if (d :: more).all Char.isDigit then "-C" ++ String.ofList (d :: more) else a
        | _ => a }

def grep : Utility := grepWith false false

def olderGrep (fixed : Bool) : Utility := fun j =>
  let option := if fixed then "grep -F" else "grep -E"
  grepWith fixed (!fixed)
    (j.printError
      (j.name ++ ": warning: " ++ j.name ++ " is obsolescent; using " ++ option ++ "\n"))

/-! ## Expressions -/

abbrev Computed := Except String (String × List String)

def isTrue (value : String) : Bool :=
  value ≠ "" && (value.toList.dropWhile (· = '-')).any (· ≠ '0')

def wholeNumber? (value : String) : Option Int :=
  match value.toList with
  | '-' :: rest => (Text.natural? rest).map fun n => -(n : Int)
  | rest => (Text.natural? rest).map fun n => (n : Int)

def ofCondition (b : Bool) : String := if b then "1" else "0"

def compared (op a b : String) : String :=
  let order :=
    match wholeNumber? a, wholeNumber? b with
    | some m, some n => compare m n
    | _, _ => if a < b then .lt else if b < a then .gt else .eq
  ofCondition (match op with
    | "<" => order = .lt
    | "<=" => order ≠ .gt
    | ">" => order = .gt
    | ">=" => order ≠ .lt
    | "!=" => order ≠ .eq
    | _ => order = .eq)

/-- Match an expression at the start of a text: the first group, or the length of the
match. -/
def matched (text pattern : String) : Except String String := do
  let r ← Regex.parse false pattern.toList
  let hasGroup := (Text.cutAtText ['\\', '('] pattern.toList).isSome
  match Regex.matchAt ⟨false, text.toList, Regex.lastBack r ≠ 0⟩ r ⟨0, none, text.toList, []⟩ with
  | none => return if hasGroup then "" else "0"
  | some m =>
      return if hasGroup then String.ofList (m.group text.toList 1) else Text.decimal m.stop

def calculated (op a b : String) : Except String String :=
  match wholeNumber? a, wholeNumber? b with
  | some m, some n =>
      match op with
      | "+" => .ok (Text.signedDecimal (m + n))
      | "-" => .ok (Text.signedDecimal (m - n))
      | "*" => .ok (Text.signedDecimal (m * n))
      | _ =>
          if n = 0 then .error "division by zero"
          else .ok (Text.signedDecimal (if op = "/" then Int.tdiv m n else Int.tmod m n))
  | _, _ => .error "non-integer argument"

/-- The operators between two arguments, from the weakest to the strongest. -/
def exprLevels : List (List String) :=
  [["|"], ["&"], ["<", "<=", "=", "==", "!=", ">=", ">"], ["+", "-"], ["*", "/", "%"], [":"]]

def applied (op a b : String) : Except String String :=
  match op with
  | "|" => .ok (if isTrue a then a else if isTrue b then b else "0")
  | "&" => .ok (if isTrue a && isTrue b then a else "0")
  | ":" => matched a b
  | _ => if ["+", "-", "*", "/", "%"].contains op then calculated op a b else .ok (compared op a b)

mutual

def exprLevel : Nat → Nat → List String → Computed
  | 0, _, args => .ok ("", args)
  | fuel + 1, level, args => do
      if exprLevels.length ≤ level then exprPrimary fuel args
      else
        let (first, rest) ← exprLevel fuel (level + 1) args
        exprMore fuel level first rest

def exprMore : Nat → Nat → String → List String → Computed
  | 0, _, first, args => .ok (first, args)
  | fuel + 1, level, first, args => do
      match args with
      | op :: rest =>
          if (exprLevels.getD level []).contains op then
            if rest.isEmpty then
              throw ("syntax error: missing argument after '" ++ op ++ "'")
            let (second, rest) ← exprLevel fuel (level + 1) rest
            exprMore fuel level (← applied op first second) rest
          else return (first, args)
      | [] => return (first, [])

def exprPrimary : Nat → List String → Computed
  | 0, args => .ok ("", args)
  | fuel + 1, args => do
      match args with
      | "(" :: rest =>
          let (value, rest) ← exprLevel fuel 0 rest
          match rest with
          | ")" :: rest => return (value, rest)
          | [] => .error ("syntax error: expecting ')' after '" ++ value ++ "'")
          | other :: _ => .error ("syntax error: expecting ')' instead of '" ++ other ++ "'")
      | "length" :: word :: rest => return (Text.decimal word.length, rest)
      | "match" :: text :: pattern :: rest => return (← matched text pattern, rest)
      | "substr" :: text :: start :: count :: rest =>
          let part :=
            match Text.natural? start.toList, Text.natural? count.toList with
            | some s, some c => if s = 0 then [] else (text.toList.drop (s - 1)).take c
            | _, _ => []
          return (String.ofList part, rest)
      | "index" :: text :: chars :: rest =>
          let place := text.toList.findIdx? fun c => chars.toList.contains c
          return (Text.decimal ((place.map (· + 1)).getD 0), rest)
      | "+" :: word :: rest => return (word, rest)
      | ")" :: _ => .error "syntax error: unexpected ')'"
      | word :: rest => return (word, rest)
      | [] => .error "syntax error: missing argument"

end

def expr : Utility := fun j =>
  let args := if j.args.head? = some "--" then j.args.drop 1 else j.args
  if args.isEmpty then j.misuse 2 "missing operand"
  else
    match exprLevel (16 * args.length + 16) 0 args with
    | .error complaint =>
        j.failWith 2 complaint
    | .ok (value, []) => (j.printLine value).withStatus (if isTrue value then 0 else 1)
    | .ok (_, extra :: _) => j.failWith 2 ("syntax error: unexpected argument '" ++ extra ++ "'")

end Utility
end Execution
end BitEquiv

import BitEquiv.Text.Sha256
import BitEquiv.Execution.Utility.Job

/-!
# Utilities that show files

Whole files, their first or last parts, how much is in them, and whether two of them
differ.
-/

namespace BitEquiv
namespace Execution
namespace Utility

open Text (wholeLines Octet.toBytes Octet.toText)
open Job (inQuotes plainComplaint)

/-- A text whose lines end, as a text in front of which there may be one that does
not. -/
def linesOf (text : List Char) : List (List Char) :=
  let (lines, endsWell) := wholeLines text
  lines.zipIdx.map fun (line, n) =>
    if n + 1 < lines.length || endsWell then line ++ ['\n'] else line

/-! ## Whole files -/

def visible (showsTabs : Bool) (c : Char) : List Char :=
  let n := c.toNat
  let low (n : Nat) : List Char :=
    if n < 32 then ['^', Char.ofNat (n + 64)]
    else if n = 127 then ['^', '?']
    else [Char.ofNat n]
  if c = '\n' || (c = '\t' && !showsTabs) then [c]
  else if n < 128 then low n
  else ['M', '-'] ++ low (n - 128)

structure Showing where
  numbersAll : Bool
  numbersFull : Bool
  showsEnds : Bool
  squeezes : Bool
  showsOthers : Bool
  showsTabs : Bool

/-- The lines under way: the number of the last one, whether it was empty, and whether
it is still open. -/
structure Shown where
  number : Nat
  isAfterEmpty : Bool
  isOpen : Bool
  text : List (List Char)

def showLine (h : Showing) (s : Shown) (line : List Char) : Shown :=
  let isEmpty := line = ['\n'] && !s.isOpen
  if h.squeezes && isEmpty && s.isAfterEmpty then s
  else
    let isNumbered := !s.isOpen && (if h.numbersFull then !isEmpty else h.numbersAll)
    let number := if isNumbered then s.number + 1 else s.number
    let digits := (Text.decimal number).toList
    let label :=
      if isNumbered then List.replicate (6 - digits.length) ' ' ++ digits ++ ['\t'] else []
    let shown :=
      line.flatMap fun c =>
        if c = '\n' && h.showsEnds then ['$', '\n']
        else if c = '\t' && h.showsTabs then ['^', 'I']
        else if h.showsOthers then visible h.showsTabs c
        else [c]
    ⟨number, isEmpty, line.getLast? ≠ some '\n', (label ++ shown) :: s.text⟩

def cat : Utility :=
  Job.withOptions
    (Job.switches [('A', "show-all"), ('b', "number-nonblank"), ('e', ""), ('E', "show-ends"),
      ('n', "number"), ('s', "squeeze-blank"), ('t', ""), ('T', "show-tabs"), ('u', ""),
      ('v', "show-nonprinting")])
    1 fun p j =>
      let has (letters : List Char) := letters.any p.has
      let h : Showing :=
        ⟨p.has 'n', p.has 'b', has ['A', 'e', 'E'], p.has 's', has ['A', 'e', 't', 'v'],
          has ['A', 't', 'T']⟩
      let isPlain := p.options.all (·.1 = 'u')
      let operands := if p.operands.isEmpty then ["-"] else p.operands
      let start : Shown := ⟨0, false, false, []⟩
      (operands.foldl
        (fun (j, s) operand =>
          match j.readOperand operand with
          | .error fault => (j.complain (plainComplaint operand fault), s)
          | .ok text =>
              let j := j.afterRead operand
              if isPlain then (j.print text, s)
              else
                let s := (linesOf text).foldl (showLine h) { s with text := [] }
                (j.print s.text.reverse.flatten, s))
        (j, start)).1

def tac : Utility :=
  Job.withOptions [] 1 fun p j =>
    let (found, j) := j.gather p.operands fun operand fault =>
      "failed to open " ++ inQuotes operand ++ " for reading: " ++ fault.text
    found.foldl (fun j (_, text) => j.print (linesOf text).reverse.flatten) j

def rev : Utility := fun j =>
  let (found, j) := j.gather (j.args.filter fun a => a = "-" || !a.startsWith "-") plainComplaint
  found.foldl
    (fun j (_, text) =>
      j.print ((linesOf text).flatMap fun line =>
        if line.getLast? = some '\n' then line.dropLast.reverse ++ ['\n'] else line.reverse))
    j

def tee : Utility :=
  Job.withOptions (Job.switches [('a', "append"), ('i', "ignore-interrupts"), ('p', "")]) 1
    fun p j =>
      let text := j.input
      let j := { j with input := [] }.print text
      j.each p.operands fun j path =>
        match j.write path text (p.has 'a') with
        | .ok j => j
        | .error fault => j.complain (plainComplaint path fault)

/-! ## Parts of files -/

def count? (word : String) : Option Nat :=
  let digits := word.toList.takeWhile Char.isDigit
  let unit := String.ofList (word.toList.drop digits.length)
  let factors := [("", 1), ("b", 512), ("kB", 1000), ("k", 1024), ("K", 1024), ("KiB", 1024),
    ("MB", 1000000), ("M", 1048576), ("MiB", 1048576), ("G", 1073741824)]
  match Text.natural? digits, factors.lookup unit with
  | some n, some factor => some (n * factor)
  | _, _ => none

/-- A part of a file: counted in lines or octets, and from which end. -/
structure Part where
  inLines : Bool
  sign : Option Char
  count : Nat

/-- Arguments in which a count after a sign is written as an option of its own. -/
def withCount : List String → List String
  | [] => []
  | arg :: rest =>
      match arg.toList with
      | '+' :: d :: more =>
          let digits := (d :: more).takeWhile Char.isDigit
          let unit := (d :: more).drop digits.length
          if digits.isEmpty || rest.length > 1 || !(unit = [] || unit = ['c'] || unit = ['l']) then
            arg :: rest
          else (if unit = ['c'] then "-c" else "-n") :: String.ofList ('+' :: digits) :: rest
      | '-' :: d :: more =>
          if d.isDigit then
            let digits := (d :: more).takeWhile Char.isDigit
            let unit := (d :: more).drop digits.length
            (if unit = ['c'] then "-c" else "-n") :: String.ofList digits :: rest
          else arg :: rest
      | _ => arg :: rest

def partOf (p : Job.Parsed) : Except String Part :=
  let letter := (p.lastOf? ['n', 'c']).getD 'n'
  let word := (p.last? letter).getD "10"
  let (sign, digits) :=
    match word.toList with
    | '-' :: rest => (some '-', String.ofList rest)
    | '+' :: rest => (some '+', String.ofList rest)
    | _ => (none, word)
  match count? digits with
  | some n => .ok ⟨letter = 'n', sign, n⟩
  | none =>
      .error ("invalid number of " ++ (if letter = 'n' then "lines" else "bytes") ++ ": "
        ++ inQuotes word)

def showParts (part : List Char → List Char) (p : Job.Parsed) (j : Job) : Job :=
  let operands := if p.operands.isEmpty then ["-"] else p.operands
  let hasHeadings := (operands.length > 1 || p.has 'v') && !p.has 'q'
  let start : Job × Bool := (j, true)
  (operands.foldl
    (fun (j, isFirst) operand =>
      let shown := if operand = "-" then "standard input" else operand
      let heading (j : Job) : Job :=
        if hasHeadings then
          j.print ((if isFirst then "" else "\n") ++ "==> " ++ shown ++ " <==\n").toList
        else j
      match j.readOperand operand with
      | .ok text =>
          let kept := part text
          let j := heading j
          let rest :=
            if (operand = "-" || operand = "/dev/stdin") && j.inputIsFile && p.has 'H' then
              text.drop kept.length
            else []
          let j := j.afterRead operand
          (({ j with input := if rest.isEmpty then j.input else rest }).print kept, false)
      | .error .isDirectory =>
          ((heading j).complain ("error reading " ++ inQuotes shown ++ ": Is a directory"), false)
      | .error fault =>
          (j.complain ("cannot open " ++ inQuotes operand ++ " for reading: " ++ fault.text),
            isFirst))
    start).1

def partFlags : List Job.Flag :=
  Job.switches [('q', "quiet"), ('v', "verbose"), ('z', "zero-terminated")]
  ++ Job.takers [('n', "lines"), ('c', "bytes")]

/-- Show files by a part, which `cut` takes from a text. -/
def parts (flags : List Job.Flag) (isHead : Bool) (cut : Part → List Char → List Char) : Utility :=
  fun j =>
    Job.withOptions flags 1
      (fun p j =>
        match partOf p with
        | .error complaint => j.complain complaint
        | .ok part =>
            let p := if isHead then p.addOption 'H' "" else p
            showParts (cut part) p j)
      { j with args := if isHead && (j.args.headD "").startsWith "+" then j.args
        else withCount j.args }

def head : Utility :=
  parts partFlags true fun part text =>
    let units := if part.inLines then linesOf text else text.map fun c => [c]
    let n := if part.sign = some '-' then units.length - part.count else part.count
    (units.take n).flatten

def tail : Utility :=
  parts (partFlags ++ Job.switches [('f', "follow"), ('F', "")] ++ Job.takers [('s', "")]) false
    fun part text =>
      let units := if part.inLines then linesOf text else text.map fun c => [c]
      let n := if part.sign = some '+' then part.count - 1 else units.length - part.count
      (units.drop n).flatten

/-! ## Counts -/

def countWords (text : List Char) : Nat :=
  ((Text.splitBy Text.Octet.isSpace text).filter fun w => !w.isEmpty).length

def longestLine (text : List Char) : Nat :=
  (Text.splitBy (· == '\n') text).foldl (fun n line => max n line.length) 0

/-- The counts of a text that options ask for, in their fixed order. -/
def countsOf (p : Job.Parsed) (text : List Char) : List Nat :=
  let isDefault := p.options.isEmpty
  (if isDefault || p.has 'l' then [text.count '\n'] else [])
    ++ (if isDefault || p.has 'w' then [countWords text] else [])
    ++ (if p.has 'm' then [text.length] else [])
    ++ (if isDefault || p.has 'c' then [text.length] else [])
    ++ (if p.has 'L' then [longestLine text] else [])

def alignRight (width : Nat) (s : String) : String :=
  String.ofList (List.replicate (width - s.length) ' ') ++ s

def wc : Utility :=
  Job.withOptions
    (Job.switches [('c', "bytes"), ('l', "lines"), ('m', "chars"), ('w', "words"),
      ('L', "max-line-length")])
    1 fun p j =>
      let operands := if p.operands.isEmpty then ["-"] else p.operands
      let sizeOf (operand : String) : Option Nat :=
        if operand = "-" then if j.inputIsFile then some j.input.length else none
        else
          match System.kind? j.files operand with
          | some (.file size) => some size
          | some _ => none
          | none => some 0
      let sizes := operands.map sizeOf
      let columns := (countsOf p []).length
      let width :=
        if operands.length = 1 && columns = 1 then 1
        else
          let digits := (Text.decimal (Text.total (sizes.map fun n => n.getD 0))).length
          if sizes.any (·.isNone) then max 7 digits else digits
      let row (counts : List Nat) (name : String) : String :=
        String.intercalate " " (counts.map fun n => alignRight width (Text.decimal n))
          ++ (if name.isEmpty then "" else " " ++ name)
      let nameOf (operand : String) := if p.operands.isEmpty then "" else operand
      let add (a b : List Nat) : List Nat := a.zipWith (· + ·) b
      let start : Job × List Nat := (j, (countsOf p []).map fun _ => 0)
      let (j, totals) := operands.foldl
        (fun (j, totals) operand =>
          match j.readOperand operand with
          | .ok text =>
              let counts := countsOf p text
              ((j.afterRead operand).printLine (row counts (nameOf operand)), add totals counts)
          | .error .isDirectory =>
              ((j.complain (plainComplaint operand .isDirectory)).printLine
                (row ((countsOf p []).map fun _ => 0) operand), totals)
          | .error fault => (j.complain (plainComplaint operand fault), totals))
        start
      if operands.length > 1 then j.printLine (row totals "total") else j

/-! ## Numbered lines and codes -/

def nl : Utility :=
  Job.withOptions (Job.takers [('b', "body-numbering"), ('s', "number-separator"),
      ('w', "number-width"), ('v', "starting-line-number")]) 1
    fun p j =>
      let (found, j) := j.gather p.operands plainComplaint
      let text := (found.map (·.2)).flatten
      let width := ((p.last? 'w').bind count?).getD 6
      let between := ((p.last? 's').getD "\t").toList
      let first := ((p.last? 'v').bind count?).getD 1
      let start : Nat × List (List Char) := (first, [])
      let (_, lines) := (linesOf text).foldl
        (fun (n, lines) line =>
          if line ≠ ['\n'] || p.last? 'b' = some "a" then
            (n + 1, ((alignRight width (Text.decimal n)).toList ++ between ++ line) :: lines)
          else (n, (List.replicate (width + between.length) ' ' ++ line) :: lines))
        start
      j.print lines.reverse.flatten

/-- How a dump shows octets: in groups of a size, each as text of a width. -/
structure DumpForm where
  size : Nat
  width : Nat
  shown : List Char → List Char

def littleEndian (octets : List Char) : Nat :=
  octets.foldr (fun c n => c.toNat + 256 * n) 0

/-- An octet as a character, or as the escape or the code of one. -/
def dumpedChar (c : Char) : List Char :=
  match [(0, 0), (7, 'a'.toNat), (8, 'b'.toNat), (9, 't'.toNat), (10, 'n'.toNat),
      (11, 'v'.toNat), (12, 'f'.toNat), (13, 'r'.toNat)].lookup c.toNat with
  | some 0 => ['\\', '0']
  | some letter => ['\\', Char.ofNat letter]
  | none => if ' ' ≤ c && c ≤ '~' then [c] else Text.padded 8 3 c.toNat

def dumpForm? (type : String) : Option DumpForm :=
  match type.toList with
  | ['c'] => some ⟨1, 3, fun octets => octets.flatMap dumpedChar⟩
  | kind :: rest =>
      let size :=
        match Text.natural? rest with
        | some n => n
        | none => if rest = ['C'] then 1 else if rest = ['S'] then 2 else 4
      let digits := match kind with
        | 'x' => 2 * size
        | 'o' => (8 * size + 2) / 3
        | _ => match size with
          | 1 => 3
          | 2 => 5
          | _ => 10
      let number (octets : List Char) : List Char :=
        let n := littleEndian octets
        match kind with
        | 'x' => Text.padded 16 digits n
        | 'o' => Text.padded 8 digits n
        | 'u' => Nat.toDigits 10 n
        | _ =>
            let half := Nat.pow 2 (8 * size - 1)
            (Text.signedDecimal (if n < half then n else (n : Int) - (2 * half : Nat))).toList
      if ['x', 'o', 'u', 'd'].contains kind then
        some ⟨size, if kind = 'd' then digits + 1 else digits, number⟩
      else none
  | [] => none

def chunks {α : Type} (size : Nat) : Nat → List α → List (List α)
  | 0, _ => []
  | _, [] => []
  | fuel + 1, xs => xs.take size :: chunks size fuel (xs.drop size)

def od : Utility :=
  Job.withOptions
    (Job.switches [('b', ""), ('c', ""), ('d', ""), ('o', ""), ('x', ""),
        ('v', "output-duplicates")]
      ++ Job.takers [('A', "address-radix"), ('t', "format"), ('N', "read-bytes"),
        ('j', "skip-bytes"), ('w', "width")])
    1 fun p j =>
      let (found, j) := j.gather p.operands plainComplaint
      let nothingFound := found.isEmpty && !p.operands.isEmpty
      let text := (found.map (·.2)).flatten
      let text := text.drop (((p.last? 'j').bind count?).getD 0)
      let text :=
        match (p.last? 'N').bind count? with
        | some n => text.take n
        | none => text
      let type :=
        match p.last? 't' with
        | some type => type
        | none =>
            if p.has 'c' then "c" else if p.has 'b' then "o1" else if p.has 'x' then "x2"
            else if p.has 'd' then "u2" else "o2"
      match dumpForm? type with
      | none => j.complain ("invalid type string " ++ inQuotes type)
      | some form =>
          let address (n : Nat) : List Char :=
            match p.last? 'A' with
            | some "n" => []
            | some "d" => Text.padded 10 7 n
            | some "x" => Text.padded 16 6 n
            | _ => Text.padded 8 7 n
          let size := max form.size 1
          let per := ((p.last? 'w').bind count?).getD 16
          let lines := chunks (max per 1) (text.length + 1) text
          let shown := lines.zipIdx.flatMap fun (line, n) =>
            let groups := chunks size (line.length + 1) line
            address (n * per) ++ (groups.flatMap fun group =>
              let shown := form.shown group
              ' ' :: List.replicate (form.width - shown.length) ' ' ++ shown) ++ ['\n']
          let last := if nothingFound then [] else address text.length
          j.print (shown ++ (if last.isEmpty then [] else last ++ ['\n']))

/-! ## Differences -/

def readBoth (j : Job) (first second : String) (status : Nat) :
    Except Job (List Char × List Char × Job) :=
  match j.readOperand first with
  | .error fault => .error (j.failWith status (plainComplaint first fault))
  | .ok a =>
      let j := j.afterRead first
      match j.readOperand second with
      | .error fault => .error (j.failWith status (plainComplaint second fault))
      | .ok b => .ok (a, b, j.afterRead second)

/-- The number of octets that two texts have in common at their beginnings. -/
def commonLength : List Char → List Char → Nat
  | a :: as, b :: bs => if a = b then commonLength as bs + 1 else 0
  | _, _ => 0

def cmp : Utility :=
  Job.withOptions
    (Job.switches [('s', "quiet"), ('l', "verbose"), ('b', "print-bytes")]
      ++ Job.takers [('n', "bytes")])
    2 fun p j =>
      match p.operands with
      | [] => j.misuse 2 "missing operand after 'cmp'"
      | first :: rest =>
          let second := rest.headD "-"
          match readBoth j first second 2 with
          | .error j => j
          | .ok (a, b, j) =>
              if a = b then j
              else if p.has 's' then j.withStatus 1
              else
                let n := commonLength a b
                let line := (a.take n).count '\n' + 1
                let position (unit : String) (n line : Nat) :=
                  " " ++ unit ++ " " ++ Text.decimal n ++ ", line " ++ Text.decimal line
                if n = a.length || n = b.length then
                  let shorter := if n = a.length then first else second
                  let place :=
                    if n = 0 then " which is empty"
                    else
                      let endsLine := (a.take n).getLast? = some '\n'
                      " after" ++ position "byte" n (if endsLine then line - 1 else line)
                  (j.complain ("EOF on " ++ shorter ++ place)).withStatus 1
                else
                  (j.printLine (first ++ " " ++ second ++ " differ:"
                    ++ position "char" (n + 1) line)).withStatus 1

end Utility
end Execution
end BitEquiv

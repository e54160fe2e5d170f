import BitEquiv.Execution.Utility.Lines
import BitEquiv.Execution.Utility.Tree

/-!
# Tables and pieces

Joining lines by their fields, tabulators, pieces of files, and small questions about
numbers and programs.
-/

namespace BitEquiv
namespace Execution
namespace Utility

open Text (Octet.toText wholeLines)
open Job (inQuotes plainComplaint)

/-! ## Joining lines -/

/-- How lines are joined: the mark between fields, the fields that are compared, the
fields that are shown, and what stands for an empty field. -/
structure JoinPlan where
  mark : Option Char
  first : Nat
  second : Nat
  shown : Option (List (Nat × Nat))
  filler : List Char
  alone : List Nat
  showsPairs : Bool
  ignoresCase : Bool

def JoinPlan.fields (plan : JoinPlan) (line : List Char) : List (List Char) :=
  match plan.mark with
  | some c => Text.splitBy (· == c) line
  | none => (Text.splitBy (fun c => c == ' ' || c == '\t') line).filter fun w => !w.isEmpty

/-- A line with its fields, and the one that it is compared by. -/
structure Row where
  key : List Char
  fields : List (List Char)

def JoinPlan.rows (plan : JoinPlan) (place : Nat) (text : List Char) : List Row :=
  (wholeLines text).1.map fun line =>
    let fields := plan.fields line
    let key := fields.getD (place - 1) []
    ⟨if plan.ignoresCase then key.map Char.toLower else key, fields⟩

/-- The line that a pair of rows makes; either may be missing. -/
def JoinPlan.line (plan : JoinPlan) (a b : Option Row) : List Char :=
  let others (place : Nat) (r : Option Row) : List (List Char) :=
    ((r.map fun r => r.fields.eraseIdx (place - 1))).getD []
  let keyOf (place : Nat) (r : Option Row) : Option (List Char) :=
    r.map fun r => r.fields.getD (place - 1) []
  let key := ((keyOf plan.first a).orElse fun _ => keyOf plan.second b).getD []
  let fields :=
    match plan.shown with
    | none => key :: (others plan.first a ++ others plan.second b)
    | some wanted =>
        wanted.map fun (file, place) =>
          if file = 0 then key
          else
            let row := if file = 1 then a else b
            let field := ((row.map fun r => r.fields.getD (place - 1) [])).getD []
            if field.isEmpty then plan.filler else field
  [plan.mark.getD ' '].intercalate fields ++ ['\n']

def JoinPlan.merge (plan : JoinPlan) : Nat → List Row → List Row → List Char
  | 0, _, _ => []
  | fuel + 1, xs, ys =>
      let aloneFirst (x : Row) := if plan.alone.contains 1 then plan.line (some x) none else []
      let aloneSecond (y : Row) := if plan.alone.contains 2 then plan.line none (some y) else []
      match xs, ys with
      | [], ys => ys.flatMap aloneSecond
      | xs, [] => xs.flatMap aloneFirst
      | x :: xs', y :: ys' =>
          if x.key < y.key then aloneFirst x ++ plan.merge fuel xs' ys
          else if y.key < x.key then aloneSecond y ++ plan.merge fuel xs ys'
          else
            let sameX := xs.takeWhile fun r => r.key = x.key
            let sameY := ys.takeWhile fun r => r.key = y.key
            let pairs := if plan.showsPairs then
                sameX.flatMap fun a => sameY.flatMap fun b => plan.line (some a) (some b)
              else []
            pairs ++ plan.merge fuel (xs.drop sameX.length) (ys.drop sameY.length)

def shownFields? (word : String) : Option (List (Nat × Nat)) :=
  let parts := (Text.splitBy (fun c => c == ',' || c == ' ') word.toList).filter fun w => !w.isEmpty
  parts.mapM fun part =>
    match part with
    | ['0'] => some (0, 0)
    | file :: '.' :: place =>
        if file = '1' || file = '2' then
          (Text.natural? place).map fun n => (file.toNat - '0'.toNat, n)
        else none
    | _ => none

def join : Utility :=
  Job.withOptions
    (Job.switches [('i', "ignore-case"), ('z', "zero-terminated")]
      ++ Job.takers [('1', ""), ('2', ""), ('a', ""), ('e', ""), ('j', ""), ('o', ""), ('t', ""),
        ('v', "")])
    1 fun p j =>
      let number (letter : Char) : Option Nat :=
        (p.last? letter).bind fun w => Text.natural? w.toList
      let place (letter : Char) : Nat := ((number letter).orElse fun _ => number 'j').getD 1
      let chosen (letter : Char) : List Nat :=
        (p.options.filter (·.1 = letter)).filterMap fun o => Text.natural? o.2.toList
      let plan : JoinPlan := {
        mark := (p.last? 't').bind fun t => t.toList.head?
        first := place '1'
        second := place '2'
        shown := (p.last? 'o').bind shownFields?
        filler := ((p.last? 'e').getD "").toList
        alone := chosen 'a' ++ chosen 'v'
        showsPairs := !p.has 'v'
        ignoresCase := p.has 'i' }
      match p.operands with
      | [] => j.misuse 1 "missing operand"
      | [only] => j.misuse 1 ("missing operand after " ++ inQuotes only)
      | first :: second :: _ =>
          match j.readOperand first with
          | .error fault => j.complain (plainComplaint first fault)
          | .ok a =>
              let j := j.afterRead first
              match j.readOperand second with
              | .error fault => j.complain (plainComplaint second fault)
              | .ok b =>
                  let xs := plan.rows plan.first a
                  let ys := plan.rows plan.second b
                  (j.afterRead second).print (plan.merge (xs.length + ys.length + 1) xs ys)

/-! ## Tabulators -/

def expandLine (width : Nat) (line : List Char) : List Char :=
  (line.foldl
    (fun (n, out) c =>
      if c = '\t' then
        let count := width - n % width
        (n + count, List.replicate count ' ' ++ out)
      else (n + 1, c :: out))
    (0, ([] : List Char))).2.reverse

def expand : Utility :=
  Job.withOptions (Job.switches [('i', "initial")] ++ Job.takers [('t', "tabs")]) 1 fun p j =>
    let (found, j) := j.gather p.operands plainComplaint
    let width := max (((p.last? 't').bind fun w => Text.natural? w.toList).getD 8) 1
    let text := (found.map (·.2)).flatten
    j.print ((linesOf text).flatMap (expandLine width))

def unexpandLine (width : Nat) (line : List Char) : List Char :=
  let blanks := line.takeWhile fun c => c = ' ' || c = '\t'
  let columns := (expandLine width blanks).length
  List.replicate (columns / width) '\t' ++ List.replicate (columns % width) ' '
    ++ line.drop blanks.length

def unexpand : Utility :=
  Job.withOptions (Job.switches [('a', "all")] ++ Job.takers [('t', "tabs")]) 1 fun p j =>
    let (found, j) := j.gather p.operands plainComplaint
    let width := max (((p.last? 't').bind fun w => Text.natural? w.toList).getD 8) 1
    let text := (found.map (·.2)).flatten
    j.print ((linesOf text).flatMap (unexpandLine width))

/-! ## Pieces of files -/

def pieceEnding (isNumeric : Bool) (length n : Nat) : List Char :=
  if isNumeric then Text.padded 10 length n
  else letters length n
where
  letters : Nat → Nat → List Char
    | 0, _ => []
    | count + 1, n => letters count (n / 26) ++ [Char.ofNat ('a'.toNat + n % 26)]

def split : Utility :=
  Job.withOptions
    (Job.switches [('d', "")]
      ++ Job.takers [('a', "suffix-length"), ('b', "bytes"), ('l', "lines"), ('n', "number")])
    1 fun p j =>
      let operand := p.operands.headD "-"
      let start := (p.operands.drop 1).headD "x"
      match j.readOperand operand with
      | .error fault =>
          j.complain ("cannot open " ++ inQuotes operand ++ " for reading: " ++ fault.text)
      | .ok text =>
          let count (letter : Char) : Option Nat := (p.last? letter).bind count?
          let pieces :=
            match count 'b', count 'n' with
            | some size, _ => chunks (max size 1) (text.length + 1) text
            | none, some n =>
                let size := text.length / max n 1
                (List.range n).map fun i =>
                  let rest := text.drop (i * size)
                  if i + 1 = n then rest else rest.take size
            | none, none =>
                let lines := linesOf text
                (chunks (max ((count 'l').getD 1000) 1) (lines.length + 1) lines).map List.flatten
          let length := (count 'a').getD 2
          pieces.zipIdx.foldl
            (fun j (piece, n) =>
              let path := start ++ String.ofList (pieceEnding (p.has 'd') length n)
              match j.write path piece false with
              | .ok j => j
              | .error fault => j.complain (path ++ ": " ++ fault.text))
            (j.afterRead operand)

/-! ## Questions -/

def primeFactors : Nat → Nat → Nat → List Nat
  | 0, _, n => [n]
  | fuel + 1, d, n =>
      if n < 2 then []
      else if n < d * d then [n]
      else if n % d = 0 then d :: primeFactors fuel d (n / d)
      else primeFactors fuel (d + 1) n

def factor : Utility := fun j =>
  let words :=
    if j.args.isEmpty then
      ((Text.splitBy Text.Octet.isSpace j.input).filter fun w => !w.isEmpty).map String.ofList
    else j.args
  let j := if j.args.isEmpty then j.afterRead "-" else j
  j.each words fun j word =>
    match Text.natural? word.toList with
    | some n =>
        let factors := (primeFactors (n.log2 + 100000) 2 n).map fun f => " " ++ Text.decimal f
        j.printLine (Text.decimal n ++ ":" ++ String.join factors)
    | none => j.complain (inQuotes word ++ " is not a valid positive integer")

def which : Utility := fun j =>
  let names := j.args.filter fun a => a ≠ "-a"
  let dirs := ((j.environment.lookup "PATH").getD "").splitOn ":"
  let find (name : String) : Option String :=
    let paths := if name.toList.contains '/' then [name] else dirs.map fun d => joinPath d name
    paths.find? fun path => System.isStartable j.files path
  if names.isEmpty then j.withStatus 1
  else
    j.each names fun j name =>
      match find name with
      | some path => j.printLine path
      | none => j.withStatus 1

def link : Utility := fun j =>
  match j.args with
  | [] => j.misuse 1 "missing operand"
  | [only] => j.misuse 1 ("missing operand after " ++ inQuotes only)
  | [target, path] => linkOne false false target path j
  | _ :: _ :: extra :: _ => j.misuse 1 ("extra operand " ++ inQuotes extra)

def tty : Utility := fun j =>
  if j.args.any fun a => a = "-s" || a = "--silent" || a = "--quiet" then j.withStatus 1
  else (j.printLine "not a tty").withStatus 1

/-- The first moment of the calendar, in the form that letters ask for. -/
def dateText : List Char → List Char
  | '%' :: c :: rest =>
      let shown :=
        match c with
        | 'Y' => "1970"
        | 'y' => "70"
        | 'm' | 'd' => "01"
        | 'H' | 'M' | 'S' => "00"
        | 's' => "0"
        | 'N' => "000000000"
        | 'F' => "1970-01-01"
        | 'T' => "00:00:00"
        | 'Z' => "UTC"
        | 'n' => "\n"
        | 't' => "\t"
        | '%' => "%"
        | 'j' => "001"
        | 'a' => "Thu"
        | 'b' => "Jan"
        | c => String.ofList ['%', c]
      shown.toList ++ dateText rest
  | c :: rest => c :: dateText rest
  | [] => []

def date : Utility := fun j =>
  match j.args.find? fun a => a.startsWith "+" with
  | some format => j.printLine (String.ofList (dateText (format.toList.drop 1)))
  | none =>
      match j.args.find? fun a => !a.startsWith "-" with
      | some word => j.complain ("invalid date " ++ inQuotes word)
      | none => j.printLine "Thu Jan  1 00:00:00 UTC 1970"

end Utility
end Execution
end BitEquiv

import BitEquiv.Execution.Utility.Format
import BitEquiv.Execution.Utility.Show

/-!
# Utilities on lines

Sorting lines, leaving some out, and taking them apart.
-/

namespace BitEquiv
namespace Execution
namespace Utility

open Text (Octet.isSpace wholeLines unlines)
open Job (inQuotes plainComplaint)

def allLines (found : List (String × List Char)) : List (List Char) :=
  found.flatMap fun (_, text) => (wholeLines text).1

/-! ## Order -/

/-- A part of a line that lines are compared by: its first field and character, its last
ones, and the letters of its own options. -/
structure Key where
  field : Nat
  char : Nat
  lastField : Option Nat
  lastChar : Nat
  options : List Char

def spanKeyEnd (text : List Char) : Option (Nat × Nat × List Char × List Char) :=
  let digits := text.takeWhile Char.isDigit
  let rest := text.drop digits.length
  let (chars, rest) :=
    match rest with
    | '.' :: rest =>
        let chars := rest.takeWhile Char.isDigit
        (chars, rest.drop chars.length)
    | _ => ([], rest)
  let letters := rest.takeWhile Char.isAlpha
  (Text.natural? digits).map fun field =>
    (field, (Text.natural? chars).getD 0, letters, rest.drop letters.length)

def keyOf? (text : String) : Option Key := do
  let (field, char, letters, rest) ← spanKeyEnd text.toList
  if field = 0 then none
  match rest with
  | [] => return ⟨field, char, none, 0, letters⟩
  | ',' :: rest =>
      let (lastField, lastChar, more, rest) ← spanKeyEnd rest
      if rest.isEmpty then return ⟨field, char, some lastField, lastChar, letters ++ more⟩
      else none
  | _ => none

/-- The fields of a line, each with the blanks in front of it; or those between
separators. -/
def fieldsOf (separator : Option Char) (line : List Char) : List (List Char) :=
  match separator with
  | some c => Text.splitBy (· == c) line
  | none => blankFields (line.length + 1) line
where
  blankFields : Nat → List Char → List (List Char)
    | 0, _ => []
    | _, [] => []
    | fuel + 1, line =>
        let isBlank (c : Char) := c = ' ' || c = '\t'
        let blanks := line.takeWhile isBlank
        let word := (line.drop blanks.length).takeWhile fun c => !isBlank c
        (blanks ++ word) :: blankFields fuel (line.drop (blanks.length + word.length))

def Key.part (k : Key) (separator : Option Char) (line : List Char) : List Char :=
  let fields := fieldsOf separator line
  let between := separator.toList
  let trim (field : List Char) :=
    if k.options.contains 'b' then field.dropWhile fun c => c = ' ' || c = '\t' else field
  let lengthTo (n : Nat) : Nat := (between.intercalate (fields.take n)).length
  let start := lengthTo (k.field - 1) + (if k.field = 1 then 0 else between.length)
  let first := (fields.drop (k.field - 1)).headD []
  let skipped := first.length - (trim first).length
  let start := start + skipped + (k.char - 1)
  let stop :=
    match k.lastField with
    | none => line.length
    | some n =>
        if k.lastChar = 0 then lengthTo n
        else lengthTo (n - 1) + (if n = 1 then 0 else between.length) + k.lastChar
  (line.take stop).drop start

/-- The number at the start of a text; a text without one counts as zero. -/
def leadingNumber (text : List Char) : Rat :=
  let text := text.dropWhile Octet.isSpace
  let text := if text.head? = some '+' then [] else text
  match Text.spanDecimal (text.takeWhile fun c => c.isDigit || c = '.' || c = '-') with
  | some (x, _) => x
  | none => 0

def comparedText (options : List Char) (text : List Char) : List Char :=
  let text :=
    if options.contains 'd' then text.filter fun c => c.isAlphanum || c = ' ' || c = '\t'
    else text
  if options.contains 'f' then text.map Char.toUpper else text

def compareBy (options : List Char) (a b : List Char) : Ordering :=
  let order :=
    if options.contains 'n' || options.contains 'g' || options.contains 'h' then
      let x := leadingNumber a
      let y := leadingNumber b
      if x < y then .lt else if y < x then .gt else .eq
    else
      let a := comparedText options a
      let b := comparedText options b
      if a < b then .lt else if b < a then .gt else .eq
  if options.contains 'r' then order.swap else order

def compareKeys (separator : Option Char) (common : List Char) (keys : List Key)
    (a b : List Char) : Ordering :=
  keys.foldl
    (fun order k =>
      let own := k.options.filter (· ≠ 'b')
      let options := if own.isEmpty then common else own
      order.then (compareBy options (k.part separator a) (k.part separator b)))
    .eq

/-- The lines without those that are equal to the one before them. -/
def dropEqual {α : Type} (equal : α → α → Bool) : List α → List α
  | [] => []
  | [x] => [x]
  | x :: y :: rest =>
      if equal x y then dropEqual equal (x :: rest) else x :: dropEqual equal (y :: rest)

def disorder? (inOrder : List Char → List Char → Bool) : Nat → List (List Char) → Option Nat
  | n, a :: b :: rest => if inOrder a b then disorder? inOrder (n + 1) (b :: rest) else some (n + 1)
  | _, _ => none

def sort : Utility :=
  Job.withOptions
    (Job.switches [('b', "ignore-leading-blanks"), ('c', "check"), ('C', ""),
        ('d', "dictionary-order"),
        ('f', "ignore-case"), ('g', "general-numeric-sort"), ('h', "human-numeric-sort"),
        ('i', "ignore-nonprinting"), ('m', "merge"), ('M', "month-sort"), ('n', "numeric-sort"),
        ('r', "reverse"), ('s', "stable"), ('u', "unique"), ('V', "version-sort"),
        ('z', "zero-terminated")]
      ++ Job.takers [('k', "key"), ('o', "output"), ('S', "buffer-size"), ('t', "field-separator"),
        ('T', "temporary-directory")])
    2 fun p j =>
      let separator := (p.last? 't').bind fun t => t.toList.head?
      let common := ['b', 'd', 'f', 'g', 'h', 'n', 'r'].filter p.has
      let words := (p.options.filter (·.1 = 'k')).map (·.2)
      match words.find? fun w => (keyOf? w).isNone, p.last? 't' with
      | some w, _ =>
          j.failWith 2 ("invalid number at field start: invalid count at start of " ++ inQuotes w)
      | none, some t =>
          if t.length > 1 then j.failWith 2 ("multi-character tab " ++ inQuotes t)
          else order p j separator common (words.filterMap keyOf?)
      | none, none => order p j separator common (words.filterMap keyOf?)
where
  order (p : Job.Parsed) (j : Job) (separator : Option Char) (common : List Char)
      (keys : List Key) : Job :=
    let isCheck := p.has 'c' || p.has 'C'
    let isReadable (operand : String) : Bool := (j.readOperand operand).isOk
    match p.operands.find? fun operand => !isReadable operand with
    | some operand =>
        let fault :=
          match j.readOperand operand with
          | .error fault => fault.text
          | .ok _ => ""
        let isOpen := isCheck && fault ≠ FileFault.isDirectory.text
        j.failWith 2 ((if isOpen then "open failed: " else
          if fault = FileFault.isDirectory.text then "read failed: " else "cannot read: ")
          ++ operand ++ ": " ++ fault)
    | none =>
      let (found, j) := j.gather p.operands plainComplaint
      let lines := allLines found
      let byKeys (a b : List Char) : Ordering :=
        if keys.isEmpty then
          let trim (l : List Char) :=
            if common.contains 'b' then l.dropWhile fun c => c = ' ' || c = '\t' else l
          compareBy common (trim a) (trim b)
        else compareKeys separator common keys a b
      let whole (a b : List Char) : Ordering :=
        if p.has 's' || p.has 'u' then .eq
        else compareBy (if p.has 'r' then ['r'] else []) a b
      let inOrder (a b : List Char) : Bool := ((byKeys a b).then (whole a b)) ≠ .gt
      if p.has 'c' || p.has 'C' then
        let strict (a b : List Char) : Bool :=
          if p.has 'u' then byKeys a b = .lt else inOrder a b
        match disorder? strict 1 lines with
        | none => j
        | some n =>
            if p.has 'C' then j.withStatus 1
            else
              let line := String.ofList ((lines.drop (n - 1)).headD [])
              (j.complain (p.operands.headD "-" ++ ":" ++ Text.decimal n ++ ": disorder: "
                ++ line)).withStatus 1
      else
        let sorted := lines.mergeSort inOrder
        let sorted := if p.has 'u' then dropEqual (fun a b => byKeys a b = .eq) sorted else sorted
        let text := unlines sorted
        match p.last? 'o' with
        | none => j.print text
        | some path =>
            match j.write path text false with
            | .ok j => j
            | .error fault => j.failWith 2 ("open failed: " ++ path ++ ": " ++ fault.text)

/-! ## Repeated lines -/

def runs (equal : List Char → List Char → Bool) : List (List Char) → List (List Char × Nat)
  | [] => []
  | line :: rest =>
      match runs equal rest with
      | (next, n) :: more =>
          if equal line next then (line, n + 1) :: more else (line, 1) :: (next, n) :: more
      | [] => [(line, 1)]

def uniq : Utility :=
  Job.withOptions
    (Job.switches [('c', "count"), ('d', "repeated"), ('D', ""), ('i', "ignore-case"),
        ('u', "unique"), ('z', "zero-terminated")]
      ++ Job.takers [('f', "skip-fields"), ('s', "skip-chars"), ('w', "check-chars")])
    1 fun p j =>
      match p.operands.drop 2 with
      | extra :: _ => j.misuse 1 ("extra operand " ++ inQuotes extra)
      | [] =>
          let input := p.operands.headD "-"
          match j.readOperand input with
          | .error fault => j.complain (plainComplaint input fault)
          | .ok text =>
              let j := j.afterRead input
              let number (c : Char) := ((p.last? c).bind count?).getD 0
              let keyed (line : List Char) : List Char :=
                let rest := ((fieldsOf none line).drop (number 'f')).flatten.drop (number 's')
                let rest := if (p.last? 'w').isSome then rest.take (number 'w') else rest
                if p.has 'i' then rest.map Char.toUpper else rest
              let found := runs (fun a b => keyed a = keyed b) (wholeLines text).1
              let kept := found.filter fun (_, n) =>
                (!p.has 'd' || n > 1) && (!p.has 'u' || n = 1)
              let shown := kept.flatMap fun (line, n) =>
                (if p.has 'c' then (alignRight 7 (Text.decimal n)).toList ++ [' '] else [])
                  ++ line ++ ['\n']
              match p.operands.drop 1 with
              | [] => j.print shown
              | output :: _ =>
                  match j.write output shown false with
                  | .ok j => j
                  | .error fault => j.complain (plainComplaint output fault)

/-! ## Parts of lines -/

structure Span where
  first : Nat
  last : Option Nat

def Span.has (n : Nat) (s : Span) : Bool :=
  s.first ≤ n && (s.last.map fun last => decide (n ≤ last)).getD true

def spans? (text : String) : Option (List Span) :=
  (text.splitOn ",").mapM fun word =>
    match Text.cutAt (· == '-') word.toList with
    | none => (Text.natural? word.toList).map fun n => ⟨n, some n⟩
    | some (low, high) => do
        let first ← if low.isEmpty then some 1 else Text.natural? low
        if high.isEmpty then if low.isEmpty then none else return ⟨first, none⟩
        else return ⟨first, some (← Text.natural? high)⟩

def chosen {α : Type} (isIn : Nat → Bool) (parts : List α) : List α :=
  (parts.zipIdx.filter fun (_, n) => isIn (n + 1)).map (·.1)

def cut : Utility :=
  Job.withOptions
    (Job.switches [('n', ""), ('s', "only-delimited"), ('C', "complement"),
        ('z', "zero-terminated")]
      ++ Job.takers [('b', "bytes"), ('c', "characters"), ('d', "delimiter"), ('f', "fields"),
        ('O', "output-delimiter")])
    1 fun p j =>
      let lists := p.options.filter fun o => ['b', 'c', 'f'].contains o.1
      match lists, p.last? 'd' with
      | [], _ => j.misuse 1 "you must specify a list of bytes, characters, or fields"
      | _ :: _ :: _, _ => j.misuse 1 "only one list may be specified"
      | [(letter, list)], delimiter =>
          if (delimiter.map fun d => decide (d.length > 1)).getD false then
            j.misuse 1 "the delimiter must be a single character"
          else
            match spans? list with
            | none =>
                j.misuse 1 ((if letter = 'f' then "invalid field value "
                  else "invalid byte/character position ") ++ inQuotes list)
            | some spans =>
                if spans.any (·.first = 0) then
                  j.misuse 1 (if letter = 'f' then "fields are numbered from 1"
                    else "byte/character positions are numbered from 1")
                else
                  let isIn (n : Nat) : Bool := spans.any (Span.has n) != p.has 'C'
                  let separator := (delimiter.bind fun d => d.toList.head?).getD '\t'
                  let between := ((p.last? 'O').map String.toList).getD [separator]
                  let shorten (line : List Char) : Option (List Char) :=
                    if letter ≠ 'f' then some (chosen isIn line)
                    else if !line.contains separator then
                      if p.has 's' then none else some line
                    else some (between.intercalate
                      (chosen isIn (Text.splitBy (· == separator) line)))
                  let (found, j) := j.gather p.operands plainComplaint
                  j.print (unlines ((allLines found).filterMap shorten))

def paste : Utility :=
  Job.withOptions (Job.switches [('s', "serial")] ++ Job.takers [('d', "delimiters")]) 1 fun p j =>
    let (found, j) := j.gather p.operands plainComplaint
    let delimiters := ((p.last? 'd').getD "\t").toList
    let join (parts : List (List Char)) : List Char :=
      (parts.zipIdx.map fun (part, n) =>
        if n = 0 then part
        else (delimiters[(n - 1) % (max delimiters.length 1)]?).toList ++ part).flatten
    let columns := found.map fun (_, text) => (wholeLines text).1
    if p.has 's' then j.print (unlines (columns.map join))
    else
      let height := columns.foldl (fun n c => max n c.length) 0
      j.print (unlines ((List.range height).map fun n => join (columns.map fun c => c.getD n [])))

def fold : Utility :=
  Job.withOptions (Job.switches [('b', "bytes"), ('s', "spaces")] ++ Job.takers [('w', "width")]) 1
    fun p j =>
      let (found, j) := j.gather p.operands plainComplaint
      let width := max 1 (((p.last? 'w').bind count?).getD 80)
      found.foldl
        (fun j (_, text) =>
          j.print ((linesOf text).flatMap fun line =>
            let endsLine := line.getLast? = some '\n'
            let body := if endsLine then line.dropLast else line
            ['\n'].intercalate (chunks width (body.length + 1) body)
              ++ (if endsLine then ['\n'] else [])))
        j

/-- The lines of two sorted lists: in the first, the second, or both. -/
def compareLines : Nat → List (List Char) → List (List Char) → List (Nat × List Char)
  | 0, _, _ => []
  | _, [], ys => ys.map fun y => (1, y)
  | _, xs, [] => xs.map fun x => (0, x)
  | fuel + 1, x :: xs, y :: ys =>
      if x = y then (2, x) :: compareLines fuel xs ys
      else if x < y then (0, x) :: compareLines fuel xs (y :: ys)
      else (1, y) :: compareLines fuel (x :: xs) ys

def comm : Utility :=
  Job.withOptions (Job.switches [('1', ""), ('2', ""), ('3', "")]) 1 fun p j =>
    match p.operands with
    | [first, second] =>
        match readBoth j first second 1 with
        | .error j => j
        | .ok (a, b, j) =>
            let xs := (wholeLines a).1
            let ys := (wholeLines b).1
            let hidden (n : Nat) : Bool := p.has (Char.ofNat ('1'.toNat + n))
            let found := compareLines (xs.length + ys.length + 1) xs ys
            let lines := found.filter fun l => !hidden l.1
            j.print (unlines (lines.map fun (n, line) =>
              List.replicate ((List.range n).filter fun m => !hidden m).length '\t' ++ line))
    | [] => j.misuse 1 "missing operand"
    | [only] => j.misuse 1 ("missing operand after " ++ inQuotes only)
    | _ => j.misuse 1 ("extra operand " ++ inQuotes ((p.operands.drop 2).headD ""))

/-! ## Characters -/

/-- The characters of a set, which may be given by ranges, classes and escapes. -/
def setChars : Nat → List Char → List Char
  | 0, _ => []
  | _, [] => []
  | fuel + 1, '[' :: ':' :: rest =>
      let name := rest.takeWhile Char.isAlpha
      match Text.Octet.classes.lookup (String.ofList name), rest.drop name.length with
      | some p, ':' :: ']' :: rest =>
          ((List.range 256).map Char.ofNat).filter p ++ setChars fuel rest
      | _, _ => '[' :: setChars fuel (':' :: rest)
  | fuel + 1, '\\' :: c :: rest =>
      match Format.escape .shell false (c :: rest) with
      | some ([d], rest) => range fuel d rest
      | _ => range fuel c rest
  | fuel + 1, c :: rest => range fuel c rest
where
  /-- A character, or the range that it begins. -/
  range (fuel : Nat) (c : Char) (rest : List Char) : List Char :=
    match rest with
    | '-' :: high :: rest =>
        if c ≤ high then
          (List.range (high.toNat - c.toNat + 1)).map (fun n => Char.ofNat (c.toNat + n))
            ++ setChars fuel rest
        else c :: setChars fuel ('-' :: high :: rest)
    | _ => c :: setChars fuel rest

def filledSet (length : Nat) (text : List Char) : List Char :=
  match Text.cutAtText ['*', ']'] text with
  | some (before, after) =>
      match before.reverse with
      | c :: '[' :: front =>
          let head := setChars (front.length + 1) front.reverse
          let rest := setChars (after.length + 1) after
          head ++ List.replicate (length - head.length - rest.length) c ++ rest
      | _ => setChars (text.length + 1) text
  | none => setChars (text.length + 1) text

def squeeze (set : List Char) : List Char → List Char
  | [] => []
  | [c] => [c]
  | c :: d :: rest =>
      if c = d && set.contains c then squeeze set (d :: rest) else c :: squeeze set (d :: rest)

def tr : Utility :=
  Job.withOptions
    (Job.switches [('c', "complement"), ('C', ""), ('d', "delete"), ('s', "squeeze-repeats"),
      ('t', "truncate-set1")])
    1 fun p j =>
      let text := j.input
      let first := setChars ((p.operands.headD "").length + 1) (p.operands.headD "").toList
      let complements := p.has 'c' || p.has 'C'
      let first :=
        if complements then ((List.range 256).map Char.ofNat).filter fun c => !first.contains c
        else first
      let done (text : List Char) : Job := { j with input := [] }.print text
      match p.operands, p.has 'd', p.has 's' with
      | [], _, _ => j.misuse 1 "missing operand"
      | [_], true, false => done (text.filter fun c => !first.contains c)
      | [_], false, true => done (squeeze first text)
      | [only], false, false =>
          ((j.complain ("missing operand after " ++ inQuotes only)).printError
            "Two strings must be given when translating.\n").advise 1
      | [only], true, true =>
          ((j.complain ("missing operand after " ++ inQuotes only)).printError
            "Two strings must be given when both deleting and squeezing repeats.\n").advise 1
      | [_, extra], true, false =>
          ((j.complain ("extra operand " ++ inQuotes extra)).printError
            "Only one string may be given when deleting without squeezing repeats.\n").advise 1
      | [_, set], true, true =>
          let second := setChars (set.length + 1) set.toList
          done (squeeze second (text.filter fun c => !first.contains c))
      | [_, set], false, squeezes =>
          let second := filledSet first.length set.toList
          if second.isEmpty && !p.has 't' then
            j.complain "when not truncating set1, string2 must be non-empty"
          else
            let first := if p.has 't' then first.take second.length else first
            let last := second.getLast?.getD ' '
            let table := (first.zipIdx.map fun (c, n) => (c, second.getD n last)).reverse
            let text := text.map fun c => (table.lookup c).getD c
            done (if squeezes then squeeze second text else text)
      | _ :: _ :: extra :: _, _, _ => j.misuse 1 ("extra operand " ++ inQuotes extra)

/-! ## Numbers in a row -/

def placesOf (word : String) : Nat :=
  match Text.cutAt (· == '.') word.toList with
  | some (_, places) => places.length
  | none => 0

def numbers (step last : Rat) : Nat → Rat → List Rat
  | 0, _ => []
  | fuel + 1, x =>
      if (0 ≤ step && last < x) || (step < 0 && x < last) then []
      else x :: numbers step last fuel (x + step)

def signedPlaces (places : Nat) (x : Rat) : String :=
  let text := String.ofList (Text.fixedPlaces places (if x < 0 then -x else x))
  if x < 0 then "-" ++ text else text

/-- Options in front of the numbers of a sequence, whose signs are not taken for
options. -/
def seqOptions : List String → Job.Parsed → Except String Job.Parsed
  | [], p => .ok p
  | "-s" :: between :: rest, p => seqOptions rest (p.addOption 's' between)
  | "-f" :: form :: rest, p => seqOptions rest (p.addOption 'f' form)
  | "-w" :: rest, p => seqOptions rest (p.addOption 'w' "")
  | arg :: rest, p =>
      match arg.toList with
      | '-' :: c :: more =>
          if c.isDigit || c = '.' then .ok { p with operands := arg :: rest }
          else if c = 's' && !more.isEmpty then
            seqOptions rest (p.addOption 's' (String.ofList more))
          else .error ("invalid option -- '" ++ String.ofList [c] ++ "'")
      | _ => .ok { p with operands := arg :: rest }

def seq : Utility := fun j =>
  match seqOptions j.args .empty with
  | .error complaint => j.misuse 1 complaint
  | .ok p =>
      let number? (word : String) : Option Rat :=
        match Text.spanDecimal word.toList with
        | some (x, []) => some x
        | _ => none
      match p.operands.find? fun w => (number? w).isNone, p.operands.length with
      | _, 0 => j.misuse 1 "missing operand"
      | some w, _ => j.misuse 1 ("invalid floating point argument: " ++ inQuotes w)
      | none, count =>
          if count > 3 then j.misuse 1 ("extra operand " ++ inQuotes ((p.operands.drop 3).headD ""))
          else
            let first := if count > 1 then p.operands.headD "1" else "1"
            let step := if count > 2 then (p.operands.drop 1).headD "1" else "1"
            let last := p.operands.getLast?.getD "1"
            let value (w : String) : Rat := (number? w).getD 0
            if value step = 0 then
              j.misuse 1 ("invalid Zero increment value: " ++ inQuotes step)
            else
              let places := max (placesOf first) (placesOf step)
              let found := numbers (value step) (value last) 1000000 (value first)
              let shown (x : Rat) : String :=
                match p.last? 'f' with
                | some form =>
                    String.ofList
                      (Format.print .program form [signedPlaces places x]).text.reverse
                | none => signedPlaces places x
              let shown := found.map shown
              let width := shown.foldl (fun n w => max n w.length) 0
              let shown :=
                if p.has 'w' then
                  shown.map fun w => String.ofList (List.replicate (width - w.length) '0') ++ w
                else shown
              let between := (p.last? 's').getD "\n"
              if shown.isEmpty then j else j.printLine (String.intercalate between shown)

end Utility
end Execution
end BitEquiv

import BitEquiv.Text.Octet
import BitEquiv.Text.Places

/-!
# Formats

A format is text with directives, each of which takes the next argument. It is used
again until the arguments are used up. The command of shells and the program of the
same name differ in a few escapes and in what they complain about.
-/

namespace BitEquiv
namespace Execution
namespace Format

open Text (Octet.isSpace)

inductive Printer where
  | shell
  | program
deriving DecidableEq

def Printer.precision : Printer → Nat
  | .shell => 53
  | .program => 64

/-! ## Escapes -/

def isOctal (c : Char) : Bool := '0' ≤ c && c ≤ '7'

/-- The characters for which a letter stands after a backslash. -/
def letterEscapes : List (Char × Char) := [
  ('a', Char.ofNat 7), ('b', Char.ofNat 8), ('f', Char.ofNat 12), ('n', '\n'), ('r', '\r'),
  ('t', '\t'), ('v', Char.ofNat 11), ('\\', '\\')]

def spanCode (base most : Nat) (p : Char → Bool) (text : List Char) : Char × List Char :=
  let digits := (text.takeWhile p).take most
  (Char.ofNat ((Text.ofDigits base 0 digits).getD 0 % 256), text.drop digits.length)

/-- What a backslash and the text after it stand for, and the rest of the text. With
`\c` all output ends. -/
def escape (p : Printer) (zeroFirst : Bool) (text : List Char) : Option (List Char × List Char) :=
  match text with
  | [] => some (['\\'], [])
  | c :: rest =>
      if isOctal c then
        let (octet, rest) :=
          if zeroFirst && c = '0' then spanCode 8 3 isOctal rest else spanCode 8 3 isOctal text
        some ([octet], rest)
      else
        match letterEscapes.lookup c with
        | some d => some ([d], rest)
        | none =>
            if c = 'e' then some ([Char.ofNat 27], rest)
            else if c = 'c' && (zeroFirst || p = .program) then none
            else if c = '"' && p = .program then some (['"'], rest)
            else if c = 'x' && p = .program && (rest.head?.bind Text.digitValue).isSome then
              let (octet, rest) := spanCode 16 2 (fun c => (Text.digitValue c).isSome) rest
              some ([octet], rest)
            else some (['\\', c], rest)

/-- A text with its escapes resolved, and whether they end all output. -/
def escaped (p : Printer) (zeroFirst : Bool) : Nat → List Char → List Char × Bool
  | 0, _ => ([], false)
  | _, [] => ([], false)
  | fuel + 1, c :: rest =>
      if c = '\\' then
        match escape p zeroFirst rest with
        | none => ([], true)
        | some (text, rest) =>
            let (more, isOver) := escaped p zeroFirst fuel rest
            (text ++ more, isOver)
      else
        let (more, isOver) := escaped p zeroFirst fuel rest
        (c :: more, isOver)

/-! ## Numbers -/

structure Numeral where
  value : Int
  complaint : Option String

/-- The digits of a numeral, whose first ones tell its base, and the text after them. -/
def spanWhole (text : List Char) : Option (Nat × List Char) :=
  let read (base : Nat) (text : List Char) :=
    let digits := text.takeWhile fun c =>
      ((Text.digitValue c).map fun d => decide (d < base)).getD false
    if digits.isEmpty then none
    else some ((Text.ofDigits base 0 digits).getD 0, text.drop digits.length)
  match text with
  | '0' :: x :: rest =>
      if x = 'x' || x = 'X' then
        match read 16 rest with
        | some found => some found
        | none => some (0, x :: rest)
      else read 8 text
  | '0' :: rest => some (0, rest)
  | _ => read 10 text

def shown (p : Printer) (arg : List Char) : String :=
  match p with
  | .shell => String.ofList arg
  | .program => "'" ++ String.ofList arg ++ "'"

def notNumeric (p : Printer) (arg : List Char) : String :=
  shown p arg ++ (match p with
    | .shell => ": expected numeric value"
    | .program => ": expected a numeric value")

def notWhole (p : Printer) (arg : List Char) : String :=
  shown p arg ++ (match p with
    | .shell => ": not completely converted"
    | .program => ": value not completely converted")

/-- Read an argument as a whole number. After a quote it is the code of a character. -/
def numeral (p : Printer) (isSigned : Bool) (arg : List Char) : Numeral :=
  match arg with
  | [] => ⟨0, none⟩
  | quote :: c :: _ =>
      if quote = '\'' || quote = '"' then ⟨c.toNat, none⟩ else plain
  | _ => plain
where
  plain : Numeral :=
    let (isNegative, digits) :=
      match arg.dropWhile Octet.isSpace with
      | '-' :: rest => (true, rest)
      | '+' :: rest => (false, rest)
      | rest => (false, rest)
    match spanWhole digits with
    | none => ⟨0, some (notNumeric p arg)⟩
    | some (n, rest) =>
        let value : Int := if isNegative then -n else n
        let high : Int := if isSigned then Nat.pow 2 63 - 1 else Nat.pow 2 64 - 1
        let low : Int := if isSigned then -(Nat.pow 2 63 : Nat) else -(Nat.pow 2 64 : Nat)
        if value < low || high < value then
          ⟨max low (min high value),
            some (shown p arg ++ ": Numerical result out of range")⟩
        else ⟨value, if rest.isEmpty then none else some (notWhole p arg)⟩

def fraction (p : Printer) (arg : List Char) : Rat × Option String :=
  match arg with
  | [] => (0, none)
  | quote :: c :: _ =>
      if quote = '\'' || quote = '"' then ((c.toNat : Nat), none) else plain
  | _ => plain
where
  plain : Rat × Option String :=
    match Text.spanDecimal (arg.dropWhile Octet.isSpace) with
    | none => (0, some (notNumeric p arg))
    | some (x, rest) =>
        (Text.binaryNear p.precision x, if rest.isEmpty then none else some (notWhole p arg))

/-! ## Directives -/

structure Layout where
  flags : List Char
  width : Nat
  precision : Option Nat

namespace Layout

/-- Fill a text up to the width, with zeros after its sign or with spaces. -/
def pad (l : Layout) (canHaveZeros : Bool) (sign body : List Char) : List Char :=
  let room := l.width - (sign.length + body.length)
  if l.flags.contains '-' then sign ++ body ++ List.replicate room ' '
  else if l.flags.contains '0' && canHaveZeros then sign ++ List.replicate room '0' ++ body
  else List.replicate room ' ' ++ sign ++ body

def sign (l : Layout) (isNegative : Bool) : List Char :=
  if isNegative then ['-']
  else if l.flags.contains '+' then ['+']
  else if l.flags.contains ' ' then [' ']
  else []

/-- Digits with at least as many places as the precision asks for. -/
def whole (l : Layout) (base n : Nat) : List Char :=
  match l.precision with
  | some 0 => if n = 0 then [] else Nat.toDigits base n
  | some places => Text.padded base places n
  | none => Nat.toDigits base n

def signed (l : Layout) (n : Int) : List Char :=
  l.pad l.precision.isNone (l.sign (n < 0)) (l.whole 10 n.natAbs)

/-- A number without a sign; negative ones are taken modulo 2^64. -/
def unsigned (l : Layout) (conversion : Char) (n : Int) : List Char :=
  let n := (n % (Nat.pow 2 64 : Nat)).toNat
  let marked := l.flags.contains '#'
  match conversion with
  | 'o' =>
      let digits := l.whole 8 n
      let digits := if marked && digits.head? ≠ some '0' then '0' :: digits else digits
      l.pad l.precision.isNone [] digits
  | 'x' => l.pad l.precision.isNone (if marked && n ≠ 0 then ['0', 'x'] else []) (l.whole 16 n)
  | 'X' =>
      l.pad l.precision.isNone (if marked && n ≠ 0 then ['0', 'X'] else [])
        ((l.whole 16 n).map Char.toUpper)
  | _ => l.pad l.precision.isNone [] (l.whole 10 n)

/-- A decimal fraction in one of the forms that letters stand for. -/
def fraction (l : Layout) (conversion : Char) (x : Rat) : List Char :=
  let size := if x < 0 then -x else x
  let places := l.precision.getD 6
  let body :=
    match conversion.toLower with
    | 'f' => Text.fixedPlaces places size
    | 'e' => Text.scientific places size
    | _ => Text.general places (l.flags.contains '#') size
  l.pad true (l.sign (x < 0)) (if conversion.isUpper then body.map Char.toUpper else body)

def text (l : Layout) (s : List Char) : List Char :=
  l.pad false [] (match l.precision with
    | some n => s.take n
    | none => s)

end Layout

/-! ## Printing -/

/-- What has been printed, in reverse order; the complaints so far; and whether all
output is over. -/
structure Printed where
  text : List Char
  complaints : List String
  status : Nat
  isOver : Bool

namespace Printed

def empty : Printed := ⟨[], [], 0, false⟩

def add (d : Printed) (text : List Char) : Printed := { d with text := text.reverse ++ d.text }

def complain (d : Printed) (complaint : Option String) : Printed :=
  match complaint with
  | some text => { d with complaints := d.complaints ++ [text], status := 1 }
  | none => d

def stop (d : Printed) (complaint : String) (status : Nat) : Printed :=
  { d with complaints := d.complaints ++ [complaint], status := status, isOver := true }

end Printed

/-- A number in a format, or the number that the next argument gives. -/
def spanCount (text : List Char) (args : List String) : Option Int × List Char × List String :=
  match text with
  | '*' :: rest =>
      (some (numeral .shell true (args.headD "").toList).value, rest, args.drop 1)
  | _ =>
      let digits := text.takeWhile Char.isDigit
      ((Text.natural? digits).map fun n => (n : Int), text.drop digits.length, args)

def convert (p : Printer) (l : Layout) (conversion : Char) (arg : List Char) (d : Printed) :
    Printed :=
  if conversion = 's' then d.add (l.text arg)
  else if conversion = 'c' then
    d.add (l.pad false [] [arg.headD (Char.ofNat 0)])
  else if conversion = 'b' then
    let (text, isOver) := escaped p true (arg.length + 1) arg
    { d.add (l.text text) with isOver := isOver }
  else if conversion = 'd' || conversion = 'i' then
    let n := numeral p true arg
    (d.add (l.signed n.value)).complain n.complaint
  else if ['o', 'u', 'x', 'X'].contains conversion then
    let n := numeral p false arg
    (d.add (l.unsigned conversion n.value)).complain n.complaint
  else
    let (x, complaint) := fraction p arg
    (d.add (l.fraction conversion x)).complain complaint

def conversions : List Char :=
  ['s', 'c', 'b', 'd', 'i', 'o', 'u', 'x', 'X', 'f', 'F', 'e', 'E', 'g', 'G']

/-- A directive after its percent sign: print by it, and give what is left of the format
and of the arguments. -/
def directive (p : Printer) (text : List Char) (args : List String) (d : Printed) :
    Printed × List Char × List String :=
  let flags := text.takeWhile fun c => ['-', '+', ' ', '0', '#'].contains c
  let (width, rest, args) := spanCount (text.drop flags.length) args
  let (precision, rest, args) :=
    match rest with
    | '.' :: rest =>
        let (precision, rest, args) := spanCount rest args
        (some (precision.getD 0), rest, args)
    | _ => (none, rest, args)
  let rest :=
    if p = .program then rest.dropWhile fun c => ['h', 'l', 'L', 'j', 't', 'z'].contains c
    else rest
  let isLeft := (width.map fun n => decide (n < 0)).getD false
  let layout : Layout :=
    ⟨if isLeft then '-' :: flags else flags, ((width.getD 0).natAbs),
      precision.bind fun n => if n < 0 then none else some n.toNat⟩
  let shownDirective (rest : List Char) :=
    "%" ++ String.ofList (text.take (text.length - rest.length))
  match rest with
  | [] =>
      match p with
      | .shell => (d.stop "missing format character" 2, [], args)
      | .program =>
          (d.stop (shownDirective rest ++ ": invalid conversion specification") 1, [], args)
  | c :: rest =>
      if conversions.contains c then
        (convert p layout c (args.headD "").toList d, rest, args.drop 1)
      else
        match p with
        | .shell =>
            (d.stop ("%" ++ String.ofList (text.take (text.length - rest.length))
              ++ ": invalid directive") 2, [], args)
        | .program =>
            (d.stop (shownDirective rest ++ ": invalid conversion specification") 1, [], args)

def once (p : Printer) : Nat → List Char → List String → Printed → Printed × List String
  | 0, _, args, d => (d, args)
  | _, [], args, d => (d, args)
  | fuel + 1, c :: rest, args, d =>
      if d.isOver then (d, args)
      else if c = '\\' then
        match escape p false rest with
        | none => ({ d with isOver := true }, args)
        | some (text, rest) => once p fuel rest args (d.add text)
      else if c = '%' then
        match rest with
        | '%' :: rest => once p fuel rest args (d.add ['%'])
        | _ =>
            let (d, rest, args) := directive p rest args d
            once p fuel rest args d
      else once p fuel rest args (d.add [c])

/-- Use a format until there are no arguments left, or it takes none. -/
def repeated (p : Printer) (format : List Char) : Nat → List String → Printed → Printed
  | 0, _, d => d
  | fuel + 1, args, d =>
      let (d, left) := once p (format.length + 1) format args d
      if left.isEmpty || d.isOver then d
      else if left.length < args.length then repeated p format fuel left d
      else if p = .program then
        { d with complaints := d.complaints ++
            ["warning: ignoring excess arguments, starting with '" ++ left.headD "" ++ "'"] }
      else d

def print (p : Printer) (format : String) (args : List String) : Printed :=
  repeated p format.toList (args.length + 1) args .empty

/-! ## Echoes -/

/-- The arguments with spaces between them, and whether a line end follows; escapes
are always resolved. -/
def echoShell (args : List String) : List Char :=
  let (endsLine, args) :=
    match args with
    | "-n" :: rest => (false, rest)
    | _ => (true, args)
  let whole := (String.intercalate " " args).toList
  let (text, isOver) := escaped .shell true (whole.length + 1) whole
  if endsLine && !isOver then text ++ ['\n'] else text

/-- The options in front of what the program echoes: letters that end or keep the line
end, and turn escapes on and off. -/
def spanEchoOptions : Bool → Bool → List String → Bool × Bool × List String
  | endsLine, escapes, [] => (endsLine, escapes, [])
  | endsLine, escapes, arg :: rest =>
      match arg.toList with
      | '-' :: c :: letters =>
          if (c :: letters).all fun c => c = 'n' || c = 'e' || c = 'E' then
            let escapes :=
              (c :: letters).foldl (fun e c => if c = 'n' then e else c == 'e') escapes
            spanEchoOptions (endsLine && !(c :: letters).contains 'n') escapes rest
          else (endsLine, escapes, arg :: rest)
      | _ => (endsLine, escapes, arg :: rest)

def echoProgram (args : List String) : List Char :=
  let (endsLine, escapes, args) := spanEchoOptions true false args
  let whole := (String.intercalate " " args).toList
  let (text, isOver) :=
    if escapes then escaped .program true (whole.length + 1) whole else (whole, false)
  if endsLine && !isOver then text ++ ['\n'] else text

end Format
end Execution
end BitEquiv

import BitEquiv.Text.Numeral
import BitEquiv.Execution.Utility.System

/-!
# Conditions

Conditions on texts, numbers and files, given as the arguments of a command. How an
argument is read depends on what stands around it: an operator without room for its
operands is itself an operand.
-/

namespace BitEquiv
namespace Execution
namespace Condition

open Text (Octet.isSpace Octet.toText)

def binaryOperators : List String :=
  ["=", "!=", "<", ">", "-eq", "-ne", "-gt", "-ge", "-lt", "-le", "-nt", "-ot", "-ef"]

def unaryOperators : List String :=
  ["-r", "-w", "-x", "-e", "-f", "-d", "-c", "-b", "-p", "-u", "-g", "-k", "-s", "-t", "-z",
    "-n", "-h", "-O", "-G", "-L", "-S"]

def isOperator (word : String) : Bool :=
  binaryOperators.contains word || unaryOperators.contains word
    || ["!", "-a", "-o", "(", ")"].contains word

/-- Whether the operator in front of some arguments is an operand there. -/
def isOperand : List String → Bool
  | [] => true
  | [_] => false
  | next :: _ => binaryOperators.contains next

/-- The operator in front of some arguments, if it is one there. -/
def operator? : List String → Option String
  | [] => none
  | word :: rest =>
      if isOperator word && !(unaryOperators.contains word && isOperand rest)
        && !(word = "(" && rest.isEmpty) then some word
      else none

def number (word : String) : Except String Int :=
  let text := Text.trimBy Octet.isSpace word.toList
  let (isNegative, digits) :=
    match text with
    | '-' :: rest => (true, rest)
    | '+' :: rest => (false, rest)
    | _ => (false, text)
  match Text.natural? digits with
  | some n => .ok (if isNegative then -(n : Int) else n)
  | none => .error ("Illegal number: " ++ word)

def fileHolds (files : Files) (operator path : String) : Bool :=
  match System.kind? files path with
  | none => false
  | some kind =>
      match operator, kind with
      | "-f", .file _ => true
      | "-f", .program => true
      | "-f", _ => false
      | "-d", _ => kind = .directory
      | "-c", _ => kind = .device
      | "-s", .file size => size > 0
      | "-s", .device => false
      | "-s", _ => true
      | "-x", .file _ => System.isStartable files path
      | "-x", .device => false
      | "-x", _ => true
      | _, _ => ["-e", "-r", "-w", "-O", "-G"].contains operator

def unaryHolds (files : Files) (operator operand : String) : Except String Bool :=
  match operator with
  | "-z" => .ok operand.isEmpty
  | "-n" => .ok !operand.isEmpty
  | "-t" => (number operand).map fun _ => false
  | _ => .ok (fileHolds files operator operand)

def binaryHolds (files : Files) (first operator second : String) : Except String Bool :=
  let compared (p : Int → Int → Bool) : Except String Bool := do
    return p (← number first) (← number second)
  let aged (p : Nat → Nat → Bool) : Bool :=
    match System.age? files first, System.age? files second with
    | some m, some n => p m n
    | _, _ => false
  match operator with
  | "=" => .ok (first = second)
  | "!=" => .ok (first ≠ second)
  | "<" => .ok (first < second)
  | ">" => .ok (second < first)
  | "-eq" => compared fun m n => m = n
  | "-ne" => compared fun m n => m ≠ n
  | "-gt" => compared fun m n => m > n
  | "-ge" => compared fun m n => m ≥ n
  | "-lt" => compared fun m n => m < n
  | "-le" => compared fun m n => m ≤ n
  | "-nt" => .ok (aged fun m n => m < n)
  | "-ot" => .ok (aged fun m n => n < m)
  | _ =>
      let place (path : String) := files.resolve (Octet.toText path)
      .ok ((place first).isSome && place first = place second)

/-- A value, with the arguments from the last one that was used. -/
abbrev Partial := Except String (Bool × List String)

mutual

def disjunction (files : Files) : Nat → List String → Partial
  | 0, ts => .ok (false, ts)
  | fuel + 1, ts => do
      let (first, ts) ← conjunction files fuel ts
      if operator? (ts.drop 1) = some "-o" then
        let (second, ts) ← disjunction files fuel (ts.drop 2)
        return (first || second, ts)
      else return (first, ts)

def conjunction (files : Files) : Nat → List String → Partial
  | 0, ts => .ok (false, ts)
  | fuel + 1, ts => do
      let (first, ts) ← negation files fuel ts
      if operator? (ts.drop 1) = some "-a" then
        let (second, ts) ← conjunction files fuel (ts.drop 2)
        return (first && second, ts)
      else return (first, ts)

def negation (files : Files) : Nat → List String → Partial
  | 0, ts => .ok (false, ts)
  | fuel + 1, ts => do
      if operator? ts = some "!" then
        if (ts.drop 1).isEmpty then return (true, ts)
        let (value, ts) ← negation files fuel (ts.drop 1)
        return (!value, ts)
      else primary files fuel ts

def primary (files : Files) : Nat → List String → Partial
  | 0, ts => .ok (false, ts)
  | _, [] => .ok (false, [])
  | fuel + 1, word :: rest => do
      if operator? (word :: rest) = some "(" then
        if operator? rest = some ")" then return (false, rest)
        let (value, ts) ← disjunction files fuel rest
        if operator? (ts.drop 1) = some ")" then return (value, ts.drop 1)
        else .error "closing paren expected"
      else if (operator? (word :: rest)).any unaryOperators.contains then
        match rest with
        | [] => .error (word ++ ": argument expected")
        | operand :: after => return (← unaryHolds files word operand, operand :: after)
      else
        match (operator? rest).any binaryOperators.contains, rest with
        | true, [operator] => .error (operator ++ ": argument expected")
        | true, operator :: second :: after =>
            return (← binaryHolds files word operator second, second :: after)
        | _, _ => return (!word.isEmpty, word :: rest)

end

def whole (files : Files) (args : List String) : Except String Bool := do
  let (value, left) ← disjunction files (4 * args.length + 8) args
  match left with
  | word :: _ :: _ => .error (word ++ ": unexpected operator")
  | _ => return value

/-- Whether all arguments of a condition hold. Few arguments are first looked at as a
comparison, a negation or a condition in parentheses. -/
def holds (files : Files) (args : List String) : Except String Bool :=
  match args with
  | [] => .ok false
  | [a, op, b] =>
      if binaryOperators.contains op then binaryHolds files a op b
      else if a = "(" && b = ")" then whole files [op]
      else if a = "!" then (holds files [op, b]).map (!·)
      else whole files args
  | [a, b, c, d] =>
      if a = "(" && d = ")" then whole files [b, c]
      else if a = "!" then (holds files [b, c, d]).map (!·)
      else whole files args
  | _ => whole files args

end Condition
end Execution
end BitEquiv

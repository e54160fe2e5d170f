import BitEquiv.Execution.Shell.State

/-!
# Arithmetic

Expressions over whole numbers of 64 bits, with the operators and the precedence of C.
What is not to be evaluated is read all the same, but has no effect and no faults of
its own.
-/

namespace BitEquiv
namespace Execution
namespace Shell

def wrap (n : Int) : Int := Int.bmod n (Nat.pow 2 64)

namespace Arithmetic

inductive Token where
  | number (n : Int)
  | name (text : String)
  | sign (text : String)
  | bad
deriving DecidableEq

def signs : List String := [
  "<<=", ">>=", "<<", ">>", "<=", ">=", "==", "!=", "&&", "||", "*=", "/=", "%=", "+=",
  "-=", "&=", "^=", "|=", "=", "<", ">", "&", "|", "^", "!", "~", "*", "/", "%", "+", "-",
  "(", ")", "?", ":"]

/-- A numeral in base ten, or in base eight or sixteen after its marks, and the text
after it. -/
def spanNumber (text : List Char) : Int × List Char :=
  let read (base : Nat) (text : List Char) :=
    let (digits, rest) :=
      text.span fun c => ((Text.digitValue c).map fun d => decide (d < base)).getD false
    ((((Text.ofDigits base 0 digits).getD 0 : Nat) : Int), rest)
  match text with
  | '0' :: x :: d :: rest =>
      if (x = 'x' || x = 'X') && (Text.digitValue d).isSome then read 16 (d :: rest)
      else read 8 text
  | '0' :: _ => read 8 text
  | _ => read 10 text

def tokens : Nat → List Char → List Token
  | 0, _ => []
  | _, [] => []
  | fuel + 1, c :: rest =>
      if c = ' ' || c = '\t' || c = '\n' then tokens fuel rest
      else if c.isDigit then
        let (n, rest) := spanNumber (c :: rest)
        .number (wrap n) :: tokens fuel rest
      else if isNameStart c then
        let (name, rest) := (c :: rest).span isNameChar
        .name (String.ofList name) :: tokens fuel rest
      else
        match readSign signs (c :: rest) with
        | some (sign, rest) => .sign sign :: tokens fuel rest
        | none => [.bad]

def strength (sign : String) : Option Nat :=
  if ["*", "/", "%"].contains sign then some 8
  else if ["+", "-"].contains sign then some 7
  else if ["<<", ">>"].contains sign then some 6
  else if ["<", "<=", ">", ">="].contains sign then some 5
  else if ["==", "!="].contains sign then some 4
  else if sign = "&" then some 3
  else if sign = "^" then some 2
  else if sign = "|" then some 1
  else none

def ofBool (b : Bool) : Int := if b then 1 else 0

def onBits (f : Nat → Nat → Nat) (a b : Int) : Int :=
  let bits (n : Int) : Nat := (n % (Nat.pow 2 64 : Nat)).toNat
  wrap (f (bits a) (bits b))

/-- The result of an operator. Nothing is the result of a division by zero. -/
def apply (sign : String) (a b : Int) : Option Int :=
  let places := (b % 64).toNat
  match sign with
  | "*" => some (wrap (a * b))
  | "/" => if b = 0 then none else some (wrap (Int.tdiv a b))
  | "%" => if b = 0 then none else some (wrap (Int.tmod a b))
  | "+" => some (wrap (a + b))
  | "-" => some (wrap (a - b))
  | "<<" => some (wrap (a * (Nat.pow 2 places : Nat)))
  | ">>" => some (Int.fdiv a (Nat.pow 2 places : Nat))
  | "<" => some (ofBool (a < b))
  | "<=" => some (ofBool (a ≤ b))
  | ">" => some (ofBool (a > b))
  | ">=" => some (ofBool (a ≥ b))
  | "==" => some (ofBool (a = b))
  | "!=" => some (ofBool (a ≠ b))
  | "&" => some (onBits Nat.land a b)
  | "^" => some (onBits Nat.xor a b)
  | _ => some (onBits Nat.lor a b)

/-- A numeral with blanks around it and a sign in front, as a number of 64 bits. -/
def numeral? (text : List Char) : Option Int :=
  let text := Text.trimBy Text.Octet.isSpace text
  let (isNegative, digits) :=
    match text with
    | '-' :: rest => (true, rest)
    | '+' :: rest => (false, rest)
    | _ => (false, text)
  match digits with
  | c :: _ =>
      if c.isDigit then
        let (n, rest) := spanNumber digits
        let limit : Int := (Nat.pow 2 63 : Nat)
        let n := if isNegative then -n else n
        if rest.isEmpty then some (max (-limit) (min (limit - 1) n)) else none
      else none
  | [] => none

def fail {α : Type} (whole : List Char) (reason : String) : Action α :=
  Action.die ("arithmetic expression: " ++ reason ++ ": \"" ++ String.ofList whole ++ "\"")

/-- The number that a variable holds; without a value it holds zero. -/
def lookup (name : String) : Action Int := do
  let text := ((← get).value? name).getD ""
  if text.isEmpty then return 0
  match numeral? text.toList with
  | some n => return n
  | none => Action.die ("Illegal number: " ++ text)

def head (ts : List Token) : String :=
  match ts with
  | .sign text :: _ => text
  | _ => ""

def updates (sign : String) : Option String :=
  if ["*=", "/=", "%=", "+=", "-=", "<<=", ">>=", "&=", "^=", "|="].contains sign then
    some (sign.dropEnd 1).toString
  else none

def applyOrFail (whole : List Char) (runs : Bool) (sign : String) (a b : Int) : Action Int :=
  match apply sign a b with
  | some n => pure n
  | none => if runs then fail whole "division by zero" else pure 0

mutual

def expression (whole : List Char) : Nat → Bool → List Token → Action (Int × List Token)
  | 0, _, ts => pure (0, ts)
  | fuel + 1, runs, ts => do
      match ts with
      | .name name :: .sign sign :: rest =>
          if sign = "=" then
            let (n, rest) ← expression whole fuel runs rest
            if runs then Action.assign name (Text.signedDecimal n)
            return (n, rest)
          else
            match updates sign with
            | some op =>
                let (n, rest) ← expression whole fuel runs rest
                let old ← if runs then lookup name else pure 0
                let n ← applyOrFail whole runs op old n
                if runs then Action.assign name (Text.signedDecimal n)
                return (n, rest)
            | none => choice whole fuel runs ts
      | _ => choice whole fuel runs ts

def choice (whole : List Char) : Nat → Bool → List Token → Action (Int × List Token)
  | 0, _, ts => pure (0, ts)
  | fuel + 1, runs, ts => do
      let (test, rest) ← disjunction whole fuel runs ts
      if head rest ≠ "?" then return (test, rest)
      let (yes, rest) ← expression whole fuel (runs && test ≠ 0) (rest.drop 1)
      if head rest ≠ ":" then fail whole "expecting ':'"
      let (no, rest) ← choice whole fuel (runs && test = 0) (rest.drop 1)
      return (if test ≠ 0 then yes else no, rest)

def disjunction (whole : List Char) : Nat → Bool → List Token → Action (Int × List Token)
  | 0, _, ts => pure (0, ts)
  | fuel + 1, runs, ts => do
      let (first, rest) ← conjunction whole fuel runs ts
      if head rest ≠ "||" then return (first, rest)
      let (second, rest) ← disjunction whole fuel (runs && first = 0) (rest.drop 1)
      return (ofBool (first ≠ 0 || second ≠ 0), rest)

def conjunction (whole : List Char) : Nat → Bool → List Token → Action (Int × List Token)
  | 0, _, ts => pure (0, ts)
  | fuel + 1, runs, ts => do
      let (first, rest) ← primary whole fuel runs ts
      let (first, rest) ← chain whole fuel runs 1 first rest
      if head rest ≠ "&&" then return (first, rest)
      let (second, rest) ← conjunction whole fuel (runs && first ≠ 0) (rest.drop 1)
      return (ofBool (first ≠ 0 && second ≠ 0), rest)

/-- Operators that bind at least so strongly, after their first operand. -/
def chain (whole : List Char) :
    Nat → Bool → Nat → Int → List Token → Action (Int × List Token)
  | 0, _, _, first, ts => pure (first, ts)
  | fuel + 1, runs, least, first, ts => do
      match strength (head ts) with
      | none => return (first, ts)
      | some s =>
          if s < least then return (first, ts)
          let (second, rest) ← primary whole fuel runs (ts.drop 1)
          let (second, rest) ← chain whole fuel runs (s + 1) second rest
          let n ← applyOrFail whole runs (head ts) first second
          chain whole fuel runs least n rest

def primary (whole : List Char) : Nat → Bool → List Token → Action (Int × List Token)
  | 0, _, ts => pure (0, ts)
  | fuel + 1, runs, ts => do
      match ts with
      | .number n :: rest => return (n, rest)
      | .name name :: rest => return (← if runs then lookup name else pure 0, rest)
      | .sign "(" :: rest =>
          let (n, rest) ← expression whole fuel runs rest
          if head rest ≠ ")" then fail whole "expecting ')'"
          return (n, rest.drop 1)
      | .sign "+" :: rest => primary whole fuel runs rest
      | .sign "-" :: rest =>
          let (n, rest) ← primary whole fuel runs rest
          return (wrap (-n), rest)
      | .sign "!" :: rest =>
          let (n, rest) ← primary whole fuel runs rest
          return (ofBool (n = 0), rest)
      | .sign "~" :: rest =>
          let (n, rest) ← primary whole fuel runs rest
          return (wrap (-n - 1), rest)
      | _ => fail whole "expecting primary"

end

def evaluate (text : List Char) : Action Int := do
  let ts := tokens (text.length + 1) text
  let (n, rest) ← expression text (16 * ts.length + 16) true ts
  if !rest.isEmpty then fail text "expecting EOF"
  return n

end Arithmetic
end Shell
end Execution
end BitEquiv

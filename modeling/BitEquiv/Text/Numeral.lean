/-!
# Numerals

Natural numbers in decimal, binary and hexadecimal: writing with a least number
of digits, and reading with an upper limit.
-/

namespace BitEquiv
namespace Text

def decimal (n : Nat) : String := String.ofList (Nat.toDigits 10 n)

def padded (base count n : Nat) : List Char :=
  let digits := Nat.toDigits base n
  List.replicate (count - digits.length) '0' ++ digits

def digitValue (c : Char) : Option Nat :=
  if '0' ≤ c ∧ c ≤ '9' then some (c.toNat - '0'.toNat)
  else if 'a' ≤ c ∧ c ≤ 'f' then some (c.toNat - 'a'.toNat + 10)
  else if 'A' ≤ c ∧ c ≤ 'F' then some (c.toNat - 'A'.toNat + 10)
  else none

/-- The number that the digits `s` of `base` stand for, after `acc`. -/
def ofDigits (base : Nat) : Nat → List Char → Option Nat
  | acc, [] => some acc
  | acc, c :: rest =>
      match digitValue c with
      | some d => if d < base then ofDigits base (acc * base + d) rest else none
      | none => none

def wideLimit : Nat := Nat.pow 2 128

/-- A numeral of one or more digits with at most one plus sign in front, when
its value is below `limit`. -/
def unsigned (base limit : Nat) (s : List Char) : Option Nat :=
  let digits :=
    match s with
    | '+' :: rest => rest
    | _ => s
  if digits.isEmpty then none
  else
    match ofDigits base 0 digits with
    | some n => if n < limit then some n else none
    | none => none

def natural? (s : List Char) : Option Nat := if s.isEmpty then none else ofDigits 10 0 s

def total : List Nat → Nat
  | [] => 0
  | n :: rest => n + total rest

/-- A whole number in decimal, its sign in front when it is negative. -/
def signedDecimal : Int → String
  | .ofNat n => decimal n
  | .negSucc n => "-" ++ decimal (n + 1)

end Text
end BitEquiv

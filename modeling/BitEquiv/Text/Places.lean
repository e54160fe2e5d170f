import BitEquiv.Text.Numeral

/-!
# Decimal fractions

Rational numbers in decimal, with a number of places after the point: as they are, or
with a power of ten. What is left out is rounded to the nearest, a tie to the even
digit.
-/

namespace BitEquiv
namespace Text

/-- The nearest whole number, of two the even one. -/
def roundEven (x : Rat) : Int :=
  let low := x.floor
  let above := x - low
  let half := mkRat 1 2
  if above < half then low
  else if half < above then low + 1
  else if low % 2 = 0 then low
  else low + 1

def pow10 (n : Nat) : Rat := (Nat.pow 10 n : Nat)

/-- The nearest number with a significand of some binary digits. -/
def binaryNear (bits : Nat) (x : Rat) : Rat :=
  if x = 0 then 0
  else
    let guess : Int := (x.num.natAbs.log2 : Int) - x.den.log2
    let power (e : Int) : Rat :=
      match e with
      | .ofNat n => (Nat.pow 2 n : Nat)
      | .negSucc n => 1 / (Nat.pow 2 (n + 1) : Nat)
    let size := if x < 0 then -x else x
    let e := if power guess ≤ size then guess else guess - 1
    let unit := power (e - bits + 1)
    (roundEven (x / unit) : Rat) * unit

def scale (e : Int) (x : Rat) : Rat :=
  match e with
  | .ofNat n => x * pow10 n
  | .negSucc n => x / pow10 (n + 1)

/-- A number that is not negative, with some places after the point. -/
def fixedPlaces (places : Nat) (x : Rat) : List Char :=
  let digits := padded 10 (places + 1) (roundEven (x * pow10 places)).toNat
  let whole := digits.take (digits.length - places)
  if places = 0 then whole else whole ++ '.' :: digits.drop (digits.length - places)

/-- The exponent of the power of ten at or below a positive number. -/
def exponent (x : Rat) : Int :=
  if 1 ≤ x then (Nat.toDigits 10 x.floor.toNat).length - 1
  else
    let guess : Int := (Nat.toDigits 10 x.den).length - (Nat.toDigits 10 x.num.natAbs).length
    if 1 ≤ scale guess x then -guess else -(guess + 1)

/-- The digit and the places of a positive number, and its exponent after rounding. -/
def mantissa (places : Nat) (x : Rat) : List Char × Int :=
  if x = 0 then (fixedPlaces places 0, 0)
  else
    let e := exponent x
    let text := fixedPlaces places (scale (-e) x)
    if text.take 2 = ['1', '0'] then (fixedPlaces places (scale (-e - 1) x), e + 1)
    else (text, e)

def scientific (places : Nat) (x : Rat) : List Char :=
  let (digits, e) := mantissa places x
  digits ++ 'e' :: (if e < 0 then '-' else '+') :: padded 10 2 e.natAbs

def dropZeros (text : List Char) : List Char :=
  if text.contains '.' then
    match text.reverse.dropWhile (· = '0') with
    | '.' :: rest => rest.reverse
    | rest => rest.reverse
  else text

/-- A number that is not negative in the shorter of the two forms, with some digits. -/
def general (digits : Nat) (keepsZeros : Bool) (x : Rat) : List Char :=
  let digits := max digits 1
  let trimmed (text : List Char) := if keepsZeros then text else dropZeros text
  let (text, e) := mantissa (digits - 1) x
  if e < -4 ∨ (digits : Int) ≤ e then
    trimmed text ++ 'e' :: (if e < 0 then '-' else '+') :: padded 10 2 e.natAbs
  else trimmed (fixedPlaces ((digits : Int) - 1 - e).toNat x)

def fractionOf (whole places : List Char) : Rat :=
  let digits := whole ++ places
  ((ofDigits 10 0 digits).getD 0 : Nat) / pow10 places.length

def spanExponent (text : List Char) : Int × List Char :=
  match text with
  | e :: rest =>
      if e = 'e' || e = 'E' then
        let (isNegative, digits) :=
          match rest with
          | '-' :: rest => (true, rest)
          | '+' :: rest => (false, rest)
          | _ => (false, rest)
        let (digits, after) := digits.span Char.isDigit
        match ofDigits 10 0 digits with
        | some n =>
            if digits.isEmpty then (0, text)
            else (if isNegative then -(min n 400 : Nat) else (min n 400 : Nat), after)
        | none => (0, text)
      else (0, text)
  | [] => (0, [])

def spanDecimal (text : List Char) : Option (Rat × List Char) :=
  let (isNegative, rest) :=
    match text with
    | '-' :: rest => (true, rest)
    | '+' :: rest => (false, rest)
    | _ => (false, text)
  let (whole, rest) := rest.span Char.isDigit
  let (places, rest) :=
    match rest with
    | '.' :: after =>
        let (places, after) := after.span Char.isDigit
        if whole.isEmpty && places.isEmpty then ([], rest) else (places, after)
    | _ => ([], rest)
  if whole.isEmpty && places.isEmpty then none
  else
    let (e, rest) := spanExponent rest
    let x := scale e (fractionOf whole places)
    some (if isNegative then -x else x, rest)

end Text
end BitEquiv

/-!
# Words

Arithmetic on words of `width` bits, carried as natural numbers. No word is
wider than 128 bits: a larger width behaves like 128 wherever bits are cut.
-/

namespace BitEquiv
namespace Logic

def maxWidth : Nat := 128

namespace Word

def modulus (width : Nat) : Nat := Nat.pow 2 (min width maxWidth)

def mask (width : Nat) : Nat := modulus width - 1

/-- The width of a word extended by a count of bits. Widths are counted up to
`2 ^ 32 - 1`. -/
def extended (width count : Nat) : Nat := min (width + count) (Nat.pow 2 32 - 1)

def truncate (width bits : Nat) : Nat := bits % modulus width

theorem modulus_pos (width : Nat) : 0 < modulus width := Nat.two_pow_pos _

theorem truncate_lt (width bits : Nat) : truncate width bits < modulus width :=
  Nat.mod_lt _ (modulus_pos width)

def msb (width bits : Nat) : Bool := 0 < width && bits.testBit (min width maxWidth - 1)

def not (width s : Nat) : Nat := mask width - truncate width s

/-- A number of 128 bits read as a two's complement number. -/
def signed (bits : Nat) : Int := (bits : Int).bmod (modulus maxWidth)

/-- A word read as a two's complement number. A negative word is extended by its sign;
otherwise bits above the width count as they are. -/
def toInt (width bits : Nat) : Int :=
  if msb width bits then signed (bits ||| not maxWidth (mask width)) else signed bits

def ofInt (width : Nat) (i : Int) : Nat := (i % (modulus width : Int)).toNat

def neg (width s : Nat) : Nat := truncate width (modulus width - truncate width s)

def add (width s t : Nat) : Nat := truncate width (s + t)

def sub (width s t : Nat) : Nat := truncate width (s + (modulus width - truncate width t))

def mul (width s t : Nat) : Nat := truncate width (s * t)

/-- Unsigned quotient; by zero it is all ones. -/
def udiv (width s t : Nat) : Nat := if t = 0 then mask width else s / t

/-- Unsigned remainder; by zero it is the dividend. -/
def urem (s t : Nat) : Nat := if t = 0 then s else s % t

/-- Signed quotient, rounded toward zero, by the signs of the operands. -/
def sdiv (width s t : Nat) : Nat :=
  match msb width s, msb width t with
  | false, false => udiv width s t
  | true, false => neg width (udiv width (neg width s) t)
  | false, true => neg width (udiv width s (neg width t))
  | true, true => udiv width (neg width s) (neg width t)

/-- Signed remainder; its sign is that of the dividend. -/
def srem (width s t : Nat) : Nat :=
  match msb width s, msb width t with
  | false, false => urem s t
  | true, false => neg width (urem (neg width s) t)
  | false, true => urem s (neg width t)
  | true, true => neg width (urem (neg width s) (neg width t))

/-- Shift left; an amount not below the width gives zero. -/
def shl (width s t : Nat) : Nat := if t < width then truncate width (s <<< t) else 0

/-- Shift right with zeros; an amount not below the width gives zero. -/
def lshr (width s t : Nat) : Nat := if t < width then truncate width (s >>> t) else 0

/-- Shift right with copies of the sign; an amount not below the width leaves
only those. -/
def ashr (width s t : Nat) : Nat :=
  if t < width then ofInt width (toInt width s >>> t)
  else if msb width s then mask width
  else 0

end Word
end Logic
end BitEquiv

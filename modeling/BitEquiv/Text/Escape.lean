import BitEquiv.Text.Numeral

/-!
# Escapes

What a backslash in a quoted text stands for, together with the characters after
it: a control character, a quote or backslash, or the character of a hexadecimal
code.
-/

namespace BitEquiv
namespace Text

/-- The character of a hexadecimal code with a number of digits. -/
def readCode? (count : Nat) (s : List Char) : Option (Char × List Char) :=
  if s.length < count then none
  else
    match ofDigits 16 0 (s.take count) with
    | some n => if h : n.isValidChar then some (Char.ofNatAux n h, s.drop count) else none
    | none => none

/-- The character that an escape stands for, after its backslash. -/
def readEscape? : List Char → Option (Char × List Char)
  | 'b' :: rest => some (Char.ofNat 8, rest)
  | 't' :: rest => some ('\t', rest)
  | 'n' :: rest => some ('\n', rest)
  | 'f' :: rest => some (Char.ofNat 12, rest)
  | 'r' :: rest => some ('\r', rest)
  | '"' :: rest => some ('"', rest)
  | '\\' :: rest => some ('\\', rest)
  | 'u' :: rest => readCode? 4 rest
  | 'U' :: rest => readCode? 8 rest
  | _ => none

end Text
end BitEquiv

import BitEquiv.Text.Utf8
import BitEquiv.Text.Blank

/-!
# Octets

Text that programs hand to each other need not be well formed. It is handled as a
list of octets: characters below 256, one for each byte. Classes of characters are
those of ASCII.
-/

namespace BitEquiv
namespace Text

namespace Octet

def ofBytes (bytes : Bytes) : List Char := bytes.map fun b => Char.ofNat b.toNat

def toBytes (octets : List Char) : Bytes := octets.map fun c => UInt8.ofNat c.toNat

def ofText (text : String) : String := String.ofList (ofBytes (encode text.toList))

/-- The text that octets store, as far as they are well formed. -/
def toText (octets : String) : String := String.ofList (decodeLossy (toBytes octets.toList))

def isSpace (c : Char) : Bool := c = ' ' || ('\t' ≤ c && c ≤ '\r')

def isPunctuation (c : Char) : Bool := '!' ≤ c && c ≤ '~' && !c.isAlphanum

def isControl (c : Char) : Bool := c.toNat < 32 || c.toNat = 127

def classes : List (String × (Char → Bool)) := [
  ("alpha", Char.isAlpha),
  ("digit", Char.isDigit),
  ("alnum", Char.isAlphanum),
  ("upper", Char.isUpper),
  ("lower", Char.isLower),
  ("space", isSpace),
  ("blank", fun c => c = ' ' || c = '\t'),
  ("punct", isPunctuation),
  ("print", fun c => ' ' ≤ c && c ≤ '~'),
  ("graph", fun c => '!' ≤ c && c ≤ '~'),
  ("cntrl", isControl),
  ("xdigit", fun c => (digitValue c).isSome)]

end Octet

/-- Whole lines of a text, with whether the last one has its line end. -/
def wholeLines (text : List Char) : List (List Char) × Bool :=
  match (splitBy (· == '\n') text).reverse with
  | [] :: before => (before.reverse, true)
  | pieces => (pieces.reverse, false)

def unlines (lines : List (List Char)) : List Char := lines.flatMap fun l => l ++ ['\n']

def cutAtText (mark : List Char) : List Char → Option (List Char × List Char)
  | [] => if mark.isEmpty then some ([], []) else none
  | c :: rest =>
      match stripStart mark (c :: rest) with
      | some after => some ([], after)
      | none => (cutAtText mark rest).map fun (before, after) => (c :: before, after)

end Text
end BitEquiv

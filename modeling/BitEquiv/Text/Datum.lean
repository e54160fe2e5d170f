import BitEquiv.Text.Assoc

/-!
# Data

Trees of plain data, as a document or a set of environment variables gives them.
A table keeps the order in which its names came.
-/

namespace BitEquiv
namespace Text

/-- A tree of plain data. Nothing is computed with fractions, so only the fact that
one was written is kept. -/
inductive Datum where
  | nothing
  | text (s : String)
  | integer (n : Int)
  | fraction
  | truth (b : Bool)
  | list (items : List Datum)
  | table (fields : List (String × Datum))

namespace Datum

def nested : List String → Datum → Datum
  | [], d => d
  | name :: path, d => table [(name, nested path d)]

mutual

/-- Lay a datum over another. Tables are merged name by name; everything else
replaces what was there. -/
def onto : Datum → Datum → Datum
  | table upper, table lower => table (ontoFields upper lower)
  | d, _ => d

def ontoFields : List (String × Datum) → Assoc Datum → Assoc Datum
  | [], lower => lower
  | field :: rest, lower => ontoFields rest (ontoField field lower)

def ontoField : String × Datum → Assoc Datum → Assoc Datum
  | (name, d), lower =>
      match lower.get? name with
      | some old => lower.set name (onto d old)
      | none => lower.set name d

end

def field? : Datum → String → Option Datum
  | table fields, name => Assoc.get? fields name
  | _, _ => none

end Datum
end Text
end BitEquiv

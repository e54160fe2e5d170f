import BitEquiv.Execution.Files
import BitEquiv.Text.Pattern

/-!
# Fields

What an unquoted word expands to is split into fields at the characters that separate
them, and a field that is an open pattern stands for the paths that it fits.
-/

namespace BitEquiv
namespace Execution
namespace Shell

open Text (Mark Pattern Octet.ofText Octet.toText)

/-- A part of an expanded word: a character, which may split the word where it
separates fields; the end of a field; or nothing, but in a field. -/
inductive Atom where
  | char (mark : Mark) (splits : Bool)
  | fieldEnd
  | hold

namespace Atom

def ofText (isQuoted splits : Bool) (text : List Char) : List Atom :=
  (if isQuoted then [hold] else []) ++ text.map fun c => char ⟨c, isQuoted⟩ splits

def split : Atom → Atom
  | char m splits => char m (splits || !m.isQuoted)
  | a => a

def marks (atoms : List Atom) : List Mark :=
  atoms.flatMap fun
    | char m _ => [m]
    | fieldEnd => [⟨' ', true⟩]
    | hold => []

end Atom

/-- Fields under way: the finished ones last first, the one that is being read, and
whether a blank has just ended one. -/
structure Splitting where
  done : List (List Mark)
  current : Option (List Mark)
  isAfterBlank : Bool

namespace Splitting

def finish (s : Splitting) : Splitting :=
  match s.current with
  | some marks => ⟨marks.reverse :: s.done, none, s.isAfterBlank⟩
  | none => s

/-- Take up an atom. A separator ends a field, which may be empty; a blank one ends a
field only where there is one. -/
def take (separators : List Char) (s : Splitting) : Atom → Splitting
  | .hold => { s with current := some (s.current.getD []), isAfterBlank := false }
  | .fieldEnd => { s.finish with isAfterBlank := false }
  | .char m splits =>
      if splits && !m.isQuoted && separators.contains m.char then
        if m.char = ' ' || m.char = '\t' || m.char = '\n' then
          { s.finish with isAfterBlank := s.isAfterBlank || s.current.isSome }
        else if s.isAfterBlank then { s with isAfterBlank := false }
        else { s with current := some (s.current.getD []) }.finish
      else { s with current := some (m :: s.current.getD []), isAfterBlank := false }

def fields (separators : List Char) (atoms : List Atom) : List (List Mark) :=
  ((atoms.foldl (take separators) ⟨[], none, false⟩).finish).done.reverse

end Splitting

/-! ## Paths that a pattern fits -/

def patternParts (marks : List Mark) : List (List Mark) :=
  marks.foldr (fun m parts =>
    if m.char = '/' then [] :: parts
    else
      match parts with
      | [] => [[m]]
      | part :: rest => (m :: part) :: rest) [[]]

/-- The names in a directory that a pattern fits. A dot in front of a name has to be
given. -/
def namesThatFit (files : Files) (path : String) (marks : List Mark) : List String :=
  match files.resolve (if path.isEmpty then "." else Octet.toText path) with
  | none => []
  | some place =>
      let pattern := Pattern.ofMarks marks
      let startsWithDot := (marks.head?.map fun m => m.char == '.').getD false
      let names := (files.childrenAt place).map Octet.ofText
      let names := if startsWithDot then "." :: ".." :: names else names
      names.filter fun name =>
        (startsWithDot || !name.startsWith ".") && Pattern.fits pattern name.toList

def pathsThatFit (files : Files) : String → List (List Mark) → List String
  | path, [] => if (files.find? (Octet.toText path)).isSome then [path] else []
  | path, part :: rest =>
      let close (name : String) := if rest.isEmpty then path ++ name else path ++ name ++ "/"
      if (Pattern.ofMarks part).isOpen then
        (namesThatFit files path part).flatMap fun name =>
          if rest.isEmpty || files.isDirectory (Octet.toText (path ++ name)) then
            pathsThatFit files (close name) rest
          else []
      else pathsThatFit files (close (String.ofList (part.map (·.char)))) rest

def fieldPaths (files : Files) (marks : List Mark) : List String :=
  let plain := String.ofList (marks.map (·.char))
  if (Pattern.ofMarks marks).isOpen then
    match pathsThatFit files "" (patternParts marks) with
    | [] => [plain]
    | paths => paths.mergeSort Files.nameLe
  else [plain]

end Shell
end Execution
end BitEquiv

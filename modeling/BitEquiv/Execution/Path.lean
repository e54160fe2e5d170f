import BitEquiv.Text.Blank

/-!
# Paths

A path is text: names with slashes between them. An absolute path begins with a
slash. Two slashes in a row count as one, and so does a dot between slashes.
-/

namespace BitEquiv
namespace Execution

def joinPath (base path : String) : String :=
  if path.startsWith "/" || base.isEmpty then path
  else if base.endsWith "/" then base ++ path
  else base ++ "/" ++ path

def pathParts (path : String) : List String :=
  (Text.splitBy (· == '/') path.toList).map String.ofList

def fileName (path : String) : Option String :=
  match (pathParts path).reverse.dropWhile (fun p => p = "" ∨ p = ".") with
  | [] => none
  | last :: _ => if last = ".." then none else some last

/-- A file name up to its last dot; a dot in front does not count. -/
def stemOf (name : String) : String :=
  match Text.cutAt (· == '.') name.toList.reverse with
  | some (_, before) => if before.isEmpty then name else String.ofList before.reverse
  | none => name

/-- Parts in reverse order without the empty ones and the dots that come first. The
first part of a path stays when it is a dot or stands for the root. -/
def dropIdleParts (isAbsolute : Bool) : List String → List String
  | [] => []
  | [part] => if part.isEmpty && !isAbsolute then [] else [part]
  | part :: rest =>
      if part = "" ∨ part = "." then dropIdleParts isAbsolute rest else part :: rest

/-- A path without its last part. The root and the empty path have none. -/
def parentPath (path : String) : Option String :=
  let isAbsolute := path.startsWith "/"
  let trimmed := dropIdleParts isAbsolute
  match trimmed (pathParts path).reverse with
  | [] => none
  | [_] => if isAbsolute then none else some ""
  | _ :: before =>
      match trimmed before with
      | [""] => some "/"
      | kept => some (String.intercalate "/" kept.reverse)

end Execution
end BitEquiv

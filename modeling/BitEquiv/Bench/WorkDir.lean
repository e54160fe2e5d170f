import BitEquiv.Execution.Files
import BitEquiv.Text.Sha256

/-!
# Directories of cases

Each case has a directory of its own. Its name is the name of the case without
characters that file systems mind, with a part of a hash: the hash keeps apart
cases whose names become the same.
-/

namespace BitEquiv
namespace Bench

def isUnderscore (c : Char) : Bool := c = '_'

/-- A character of a directory name: letters become small, separators and blanks
become underscores, and everything else is left out. -/
def directoryChar (c : Char) : List Char :=
  if c.isAlphanum || c = '-' || c = '_' then [c.toLower]
  else if c = '.' || c = '/' || c = '\\' || Text.isBlank c then ['_']
  else []

def directoryName (name : String) : String :=
  let compact := Text.trimBy isUnderscore (name.toList.flatMap directoryChar)
  if compact.isEmpty then "case" else String.ofList compact

def hashOf (text : String) : String := Text.sha256 (Text.encode text.toList)

def caseWorkDir (root caseId : String) : String :=
  Execution.joinPath root
    (directoryName caseId ++ "-" ++ String.ofList ((hashOf caseId).toList.take 8))

end Bench
end BitEquiv

import BitEquiv.Text.Utf8
import BitEquiv.Execution.Path

/-!
# File trees

The files that a run reads and writes, as a value: a finite map from places to
files and directories. A place is the list of names from the root. A path is
text; it is walked name by name from the root or from the working directory, and
every step but the last needs a directory.
-/

namespace BitEquiv
namespace Execution

open Text (Bytes)

abbrev Place := List String

inductive Node where
  | file (bytes : Bytes)
  | directory
deriving DecidableEq

inductive FileFault where
  | absent
  | notDirectory
  | isDirectory
  | present
  | notEmpty
  | invalid
  | busy
deriving DecidableEq

namespace FileFault

def text : FileFault → String
  | absent => "No such file or directory"
  | notDirectory => "Not a directory"
  | isDirectory => "Is a directory"
  | present => "File exists"
  | notEmpty => "Directory not empty"
  | invalid => "Invalid argument"
  | busy => "Device or resource busy"

def number : FileFault → Nat
  | absent => 2
  | busy => 16
  | present => 17
  | notDirectory => 20
  | isDirectory => 21
  | invalid => 22
  | notEmpty => 39

def systemText (fault : FileFault) : String :=
  fault.text ++ " (os error " ++ Text.decimal fault.number ++ ")"

end FileFault

/-- A file tree with a working directory. The root is always a directory. Some of
the files may be marked as programs that can be started. -/
structure Files where
  entries : List (Place × Node)
  cwd : Place
  startable : List Place := []

namespace Files

def empty : Files := ⟨[], [], []⟩

def node? (files : Files) (place : Place) : Option Node :=
  if place = [] then some .directory else files.entries.lookup place

def isDirectoryAt (files : Files) (place : Place) : Bool :=
  files.node? place == some .directory

def enter (files : Files) (place : Place) : Except FileFault Unit :=
  match files.node? place with
  | some .directory => .ok ()
  | some (.file _) => .error .notDirectory
  | none => .error .absent

def walk (files : Files) : Place → List String → Except FileFault Place
  | place, [] => .ok place
  | place, part :: rest =>
      match files.enter place with
      | .error fault => .error fault
      | .ok () =>
          if part = "" ∨ part = "." then walk files place rest
          else if part = ".." then walk files place.dropLast rest
          else walk files (place ++ [part]) rest

def start (files : Files) (path : String) : Place :=
  if path.startsWith "/" then [] else files.cwd

/-- The place of a path; nothing need be there. No place stands for the empty
path. -/
def locate (files : Files) (path : String) : Except FileFault Place :=
  if path.isEmpty then .error .absent else files.walk (files.start path) (pathParts path)

def resolve (files : Files) (path : String) : Option Place := (files.locate path).toOption

def find? (files : Files) (path : String) : Option Node :=
  (files.resolve path).bind files.node?

def isFile (files : Files) (path : String) : Bool :=
  match files.find? path with
  | some (.file _) => true
  | _ => false

def isDirectory (files : Files) (path : String) : Bool :=
  files.find? path == some .directory

def read (files : Files) (path : String) : Except FileFault Bytes :=
  match files.locate path with
  | .error fault => .error fault
  | .ok place =>
      match files.node? place with
      | some (.file bytes) => .ok bytes
      | some .directory => .error .isDirectory
      | none => .error .absent

def read? (files : Files) (path : String) : Option Bytes := (files.read path).toOption

def readReason (files : Files) (path : String) : String :=
  match files.find? path with
  | some .directory => "is a directory"
  | _ => "no such file"

def put (files : Files) (place : Place) (node : Node) : Files :=
  { files with entries := (place, node) :: files.entries.filter (·.1 ≠ place) }

/-- The place of a file that is to be written: its directory must exist, and no
directory may be in its place. -/
def target (files : Files) (path : String) : Except FileFault Place :=
  match files.locate path with
  | .error fault => .error fault
  | .ok place =>
      match files.node? place with
      | some (.file _) => .ok place
      | some .directory => .error .isDirectory
      | none => if path.endsWith "/" then .error .isDirectory else .ok place

def write (files : Files) (path : String) (bytes : Bytes) : Except FileFault Files :=
  (files.target path).map fun place => files.put place (.file bytes)

def write? (files : Files) (path : String) (bytes : Bytes) : Option Files :=
  (files.write path bytes).toOption

/-- The place of the directory that a path leads to, with the last part of the
path. Slashes at the end are left out. -/
def lastStep (files : Files) (path : String) : Except FileFault (Place × String) :=
  match (pathParts path).reverse.dropWhile (·.isEmpty) with
  | [] => if path.isEmpty then .error .absent else .ok ([], ".")
  | last :: before =>
      match files.walk (files.start path) before.reverse with
      | .error fault => .error fault
      | .ok place => (files.enter place).map fun () => (place, last)

def makeDirectory (files : Files) (path : String) : Except FileFault Files :=
  match files.lastStep path with
  | .error fault => .error fault
  | .ok (place, last) =>
      if last = "." ∨ last = ".." then .error .present
      else if (files.node? (place ++ [last])).isSome then .error .present
      else .ok (files.put (place ++ [last]) .directory)

def ancestors : Nat → String → List String
  | 0, path => [path]
  | count + 1, path =>
      path :: match parentPath path with
        | some parent => ancestors count parent
        | none => []

/-- Make the first of some paths, which stand above each other, and what is missing
above it. Directories that were made stay, whether or not the others can be made. -/
def makeAll : List String → Files → Option FileFault × Files
  | [], files => (some .absent, files)
  | path :: above, files =>
      if path.isEmpty then (none, files)
      else
        match files.makeDirectory path with
        | .ok files => (none, files)
        | .error .absent =>
            match makeAll above files with
            | (some fault, files) => (some fault, files)
            | (none, files) =>
                match files.makeDirectory path with
                | .ok files => (none, files)
                | .error fault => (if files.isDirectory path then none else some fault, files)
        | .error fault => (if files.isDirectory path then none else some fault, files)

/-- Make a directory and those above it, or say why it is not there now. -/
def makeDirectories (files : Files) (path : String) : Option FileFault × Files :=
  makeAll (ancestors (pathParts path).length path) files

/-- Write a text below a directory, with the directories on its way. A path that
ends with a slash is a directory. -/
def lay (root path text : String) (files : Files) : Files :=
  let path := joinPath root path
  if path.endsWith "/" then (files.makeDirectories path).2
  else
    let dir := String.intercalate "/" (pathParts path).dropLast
    let files := (files.makeDirectories dir).2
    (files.write? path (Text.encode text.toList)).getD files

def layAll (root : String) (texts : List (String × String)) (files : Files) : Files :=
  texts.foldl (fun files (path, text) => files.lay root path text) files

def without (files : Files) (place : Place) : Files :=
  { files with
    entries := files.entries.filter fun e => !place.isPrefixOf e.1
    startable := files.startable.filter fun p => !place.isPrefixOf p }

def unlink (files : Files) (path : String) : Except FileFault Files :=
  match files.locate path with
  | .error fault => .error fault
  | .ok place =>
      match files.node? place with
      | some (.file _) => .ok (files.without place)
      | some .directory => .error .isDirectory
      | none => .error .absent

def copyTree (files : Files) (source target : Place) : Files :=
  let moved (place : Place) : Place := target ++ place.drop source.length
  let files :=
    (files.entries.filter fun e => source.isPrefixOf e.1).foldr
      (fun e files => files.put (moved e.1) e.2) files
  let startable := (files.startable.filter fun p => source.isPrefixOf p).map moved
  { files with startable := startable ++ files.startable }

def removeFile (files : Files) (path : String) : Files :=
  (files.unlink path).toOption.getD files

def removeTree (files : Files) (path : String) : Files :=
  match files.resolve path with
  | some place => files.without place
  | none => files

def clear (files : Files) (place : Place) : Files :=
  { files with entries := files.entries.filter fun e => e.1 = place || !place.isPrefixOf e.1 }

/-- Remove a directory and all below it, or say why it is still there. A path that
ends in dots cannot name a directory to remove: what is below goes, and the directory
stays unless the path to the dots went with it. -/
def removeDirectory (files : Files) (path : String) : Option FileFault × Files :=
  let parts := (pathParts path).reverse.dropWhile (·.isEmpty)
  match files.resolve path, parts with
  | some place, last :: before =>
      if last = "." ∨ last = ".." then
        let files := files.clear place
        let there := (files.walk (files.start path) before.reverse).toOption
        let fault : FileFault := if last = "." then .invalid else .notEmpty
        (if there.any files.isDirectoryAt then some fault else none, files)
      else (none, files.removeTree path)
  | _, _ => (none, files)

def nameLe (a b : String) : Bool := !(b < a)

def childrenAt (files : Files) (place : Place) : List String :=
  let names := files.entries.filterMap fun (p, _) =>
    if p.dropLast = place then p.getLast? else none
  names.mergeSort nameLe

end Files

abbrev Attempt (α : Type) := Files → Option α × Files

end Execution
end BitEquiv

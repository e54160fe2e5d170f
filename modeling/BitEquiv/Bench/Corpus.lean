import BitEquiv.Bench.Config
import BitEquiv.Bench.Source
import BitEquiv.Text.Sha256

/-!
# Corpora

A corpus is a directory; every directory in it that holds a descriptor is a case.
The descriptor names the source text of the case and its reference program. A
case that cannot be loaded does not keep the others from running.
-/

namespace BitEquiv
namespace Bench

open Text (Datum)
open Execution (Files Place joinPath parentPath)

def descriptorFile : String := "case.toml"

/-- Time limits of a case in seconds, where it has its own. -/
structure Timeouts where
  build : Option Nat
  run : Option Nat
  solver : Option Nat
deriving DecidableEq

def Timeouts.none : Timeouts := ⟨.none, .none, .none⟩

/-- A source text with the behaviour that it must have. -/
structure Case where
  id : String
  dir : String
  source : String
  reference : Program
  cflags : List String
  tags : List String
  notes : Option String
  timeouts : Timeouts
  sourceHash : String

/-- The name of the source without its last extension; it names what is built. -/
def Case.stem (c : Case) : String :=
  match Execution.fileName c.source with
  | some name => Execution.stemOf name
  | none => "case"

structure MalformedCase where
  id : String
  reason : String
deriving DecidableEq

def MalformedCase.message (m : MalformedCase) : String :=
  "case `" ++ m.id ++ "` is malformed: " ++ m.reason

/-! ## Descriptors -/

structure Descriptor where
  source : String
  reference : String
  cflags : List String
  tags : List String
  notes : Option String
  timeouts : Timeouts

namespace Descriptor

def getOr {α : Type} (fields : Assoc Datum) (name : String) (default : α)
    (read : Datum → Option α) : Except String α :=
  match fields.get? name with
  | none => .ok default
  | some d =>
      match read d with
      | some a => .ok a
      | none => .error ("invalid value for `" ++ name ++ "`")

def get {α : Type} (fields : Assoc Datum) (name : String) (read : Datum → Option α) :
    Except String α :=
  match fields.get? name with
  | none => .error ("missing field `" ++ name ++ "`")
  | some d =>
      match read d with
      | some a => .ok a
      | none => .error ("invalid value for `" ++ name ++ "`")

def expectKnown (known : List String) (fields : Assoc Datum) : Except String Unit :=
  match fields.find? fun field => !known.contains field.1 with
  | some field => .error ("unknown field `" ++ field.1 ++ "`")
  | none => .ok ()

def timeoutNames : List String := ["build_secs", "run_secs", "solver_secs"]

/-- The time limits by their names. A list gives one to each name in turn, and must
reach the last name. -/
def asTimeouts : Datum → Option (Assoc Datum)
  | .table fields => some fields
  | .list items =>
      if timeoutNames.length ≤ items.length then some (timeoutNames.zip items) else none
  | _ => none

def readTimeouts (fields : Assoc Datum) : Except String Timeouts := do
  expectKnown timeoutNames fields
  let seconds := fun name => getOr fields name none (fun d => (Config.asLong d).map some)
  return ⟨← seconds "build_secs", ← seconds "run_secs", ← seconds "solver_secs"⟩

def read (fields : Assoc Datum) : Except String Descriptor := do
  expectKnown ["source", "reference", "cflags", "tags", "notes", "timeouts"] fields
  let timeouts ← getOr fields "timeouts" [] asTimeouts
  return {
    source := ← get fields "source" Config.asText
    reference := ← get fields "reference" Config.asText
    cflags := ← getOr fields "cflags" [] Config.asTexts
    tags := ← getOr fields "tags" [] Config.asTexts
    notes := ← getOr fields "notes" none (fun d => (Config.asText d).map some)
    timeouts := ← readTimeouts timeouts }

def parse (text : List Char) : Except String Descriptor :=
  match Text.Toml.parse text with
  | none => .error "not a document"
  | some fields => read fields

def zeroTimeout? (d : Descriptor) : Option String :=
  if d.timeouts.build = some 0 then some "timeouts.build_secs"
  else if d.timeouts.run = some 0 then some "timeouts.run_secs"
  else if d.timeouts.solver = some 0 then some "timeouts.solver_secs"
  else none

end Descriptor

def loadCase (files : Files) (id dir : String) : Except MalformedCase Case :=
  let path := joinPath dir descriptorFile
  match files.read? path with
  | none =>
      .error ⟨id, "cannot read " ++ descriptorFile ++ ": " ++ files.readReason path⟩
  | some bytes =>
      match Text.decode? bytes with
      | none =>
          .error ⟨id, "cannot read " ++ descriptorFile ++ ": stream did not contain valid UTF-8"⟩
      | some text =>
          match Descriptor.parse text with
          | .error reason => .error ⟨id, "invalid " ++ descriptorFile ++ ": " ++ reason⟩
          | .ok d =>
              match d.zeroTimeout? with
              | some field => .error ⟨id, field ++ " must be greater than zero"⟩
              | none =>
                  let source := joinPath dir d.source
                  match files.read? source with
                  | none =>
                      .error ⟨id, "cannot read source " ++ d.source ++ ": "
                        ++ files.readReason source⟩
                  | some contents =>
                      match loadFile files (joinPath dir d.reference) with
                      | .error e => .error ⟨id, "reference " ++ d.reference ++ ": " ++ e.message⟩
                      | .ok reference =>
                          .ok {
                            id := id
                            dir := dir
                            source := source
                            reference := reference
                            cflags := d.cflags
                            tags := d.tags
                            notes := d.notes
                            timeouts := d.timeouts
                            sourceHash := Text.sha256 contents }

/-! ## Discovery -/

/-- The cases of a corpus: their names and directories, in order of the names. -/
structure Corpus where
  root : String
  entries : List (String × String)

def caseName (below : Place) : String :=
  if below.isEmpty then "." else String.intercalate "/" below

def caseDir (root : String) (below : Place) : String :=
  let descriptor := joinPath (below.foldl joinPath root) descriptorFile
  (parentPath descriptor).getD descriptor

namespace Corpus

def caseDirs (files : Files) (root : Place) : List Place :=
  files.entries.filterMap fun (place, node) =>
    match node with
    | .file _ =>
        if place.getLast? = some descriptorFile ∧ root.isPrefixOf place.dropLast then
          some (place.dropLast.drop root.length)
        else none
    | .directory => none

def entryLe (a b : String × String) : Bool := Files.nameLe a.1 b.1

def discover (files : Files) (root : String) : Except String Corpus :=
  match files.resolve root with
  | some place =>
      if files.isDirectoryAt place then
        .ok ⟨root,
          ((caseDirs files place).map fun below =>
            (caseName below, caseDir root below)).mergeSort entryLe⟩
      else if (files.node? place).isSome then .error "not a directory"
      else .error "no such directory"
  | none => .error "no such directory"

def ids (c : Corpus) : List String := c.entries.map (·.1)

def load (c : Corpus) (files : Files) : List Case × List MalformedCase :=
  let loaded := c.entries.map fun (id, dir) => loadCase files id dir
  (loaded.filterMap fun
    | .ok case => some case
    | .error _ => none,
   loaded.filterMap fun
    | .ok _ => none
    | .error e => some e)

end Corpus
end Bench
end BitEquiv

import BitEquiv.Bench.Settings
import BitEquiv.Text.Toml
import BitEquiv.Text.Variable
import BitEquiv.Text.Utf8
import BitEquiv.Execution.Files

/-!
# Configuration

Settings come in layers: the defaults, a configuration file, the environment and
the command line, each over the ones before. A section must not have a name that
it does not know; names outside of the sections are left alone.
-/

namespace BitEquiv
namespace Bench

open Text (Datum)
open Execution (Files)

def configFile : String := "rotor.toml"

/-- The start of the names of environment variables that count. -/
def variableStart : String := "ROTOR_"

inductive ConfigFault where
  | unreadable (reason : String)
  | missingFile (path : String)
  | invalidValue (field reason : String)
deriving DecidableEq

def ConfigFault.message : ConfigFault → String
  | unreadable reason => "configuration error: " ++ reason
  | missingFile path => "configuration file " ++ path ++ " does not exist"
  | invalidValue field reason =>
      "invalid configuration value for '" ++ field ++ "': " ++ reason

namespace Config

/-! ## Layers -/

def textList (items : List String) : Datum := .list (items.map .text)

def ofNat (n : Nat) : Datum := .integer n

def ofSettings (s : Settings) : Datum :=
  .table [
    ("corpus", .text s.corpus), ("work_dir", .text s.workDir),
    ("report_dir", .text s.reportDir), ("workers", ofNat s.workers), ("clean", .truth s.clean),
    ("toolchain", .table [
      ("compiler", .text s.toolchain.compiler), ("flags", textList s.toolchain.flags),
      ("timeout_secs", ofNat s.toolchain.timeoutSecs)]),
    ("subject", .table [
      ("command", .text s.subject.command), ("args", textList s.subject.args),
      ("timeout_secs", ofNat s.subject.timeoutSecs), ("cpu_secs", ofNat s.subject.cpuSecs),
      ("memory_mb", ofNat s.subject.memoryMiB),
      ("allow_degraded", .truth s.subject.allowDegraded)]),
    ("solver", .table [
      ("backend", .text s.solver.backend.name),
      ("command", (s.solver.command.map .text).getD .nothing), ("args", textList s.solver.args),
      ("timeout_secs", ofNat s.solver.timeoutSecs), ("memory_mb", ofNat s.solver.memoryMiB),
      ("exhaustive_bits", ofNat s.solver.exhaustiveBits), ("kmax", ofNat s.solver.kmax),
      ("dump_queries", .truth s.solver.dumpQueries)]),
    ("replay", .table [
      ("command", textList s.replay.command), ("timeout_secs", ofNat s.replay.timeoutSecs)]),
    ("policy", .table [("strict", .truth s.policy.strict)])]

def pathNames (path : List Char) : List String :=
  ((Text.splitBy (· == '.') path).takeWhile (!·.isEmpty)).map String.ofList

def single (path : String) (d : Datum) : Datum := Datum.nested (pathNames path.toList) d

def dotted : List Char → List Char
  | '_' :: '_' :: rest => '.' :: dotted rest
  | c :: rest => c :: dotted rest
  | [] => []

/-- The setting of an environment variable, when its name counts: it must have the
start of such names, and no name on the path after it may be empty. -/
def ofVariable (name value : String) : Option Datum :=
  let lower := (Text.trim name.toList).map Char.toLower
  match Text.stripStart (variableStart.toList.map Char.toLower) lower with
  | none => none
  | some rest =>
      let path := Text.splitBy (· == '.') (Text.trim (dotted rest))
      if path.any List.isEmpty then none
      else some (Datum.nested (path.map String.ofList) (Text.Variable.datum value))

def layered (lowest : Datum) (layers : List Datum) : Datum :=
  layers.foldl (fun lower upper => upper.onto lower) lowest

/-- The layer of the environment. Its variables are first laid over each other. -/
def ofEnvironment (environment : List (String × String)) : Datum :=
  layered (.table []) (environment.filterMap fun (name, value) => ofVariable name value)

def isTable : Datum → Bool
  | .table _ => true
  | _ => false

/-! ## Reading -/

abbrev Reading (α : Type) := Except ConfigFault α

def asText : Datum → Option String
  | .text s => some s
  | _ => none

def asTexts : Datum → Option (List String)
  | .list items => items.mapM asText
  | _ => none

def asTruth : Datum → Option Bool
  | .truth b => some b
  | _ => none

def asBelow (limit : Nat) : Datum → Option Nat
  | .integer n => if 0 ≤ n ∧ n < limit then some n.toNat else none
  | _ => none

def asOptional {α : Type} (read : Datum → Option α) : Datum → Option (Option α)
  | .nothing => some none
  | d => (read d).map some

def asBackend : Datum → Option Backend
  | .text s => Backend.all.find? (·.name = s)
  | .table fields =>
      match fields.mergeSort fun a b => Files.nameLe a.1 b.1 with
      | (name, .nothing) :: _ => Backend.all.find? (·.name = name)
      | _ => none
  | _ => none

def asLong : Datum → Option Nat := asBelow (Nat.pow 2 64)

def asShort : Datum → Option Nat := asBelow (Nat.pow 2 32)

def get {α : Type} (fields : Assoc Datum) (name : String) (read : Datum → Option α) : Reading α :=
  match fields.get? name with
  | none => .error (.unreadable ("missing field `" ++ name ++ "`"))
  | some d =>
      match read d with
      | some a => .ok a
      | none => .error (.unreadable ("invalid value for `" ++ name ++ "`"))

def defaultSection (name : String) : Assoc Datum :=
  match (ofSettings .default).field? name with
  | some (.table fields) => fields
  | _ => []

def setAll (fields values : Assoc Datum) : Assoc Datum :=
  values.foldl (fun all field => all.set field.1 field.2) fields

/-- The fields of a section that knows some names. A list gives values to the names
in turn, and items beyond the last name do not count. Names without a value have
their defaults. -/
def inSection (fields : Assoc Datum) (name : String) (known : List String) :
    Reading (Assoc Datum) :=
  match fields.get? name with
  | some (.table inner) =>
      match inner.find? fun field => !known.contains field.1 with
      | some field => .error (.unreadable ("unknown field `" ++ field.1 ++ "` in " ++ name))
      | none => .ok (setAll (defaultSection name) inner)
  | some (.list items) => .ok (setAll (defaultSection name) (known.zip items))
  | _ => .error (.unreadable ("invalid section `" ++ name ++ "`"))

def readToolchain (root : Assoc Datum) : Reading ToolchainSettings := do
  let t ← inSection root "toolchain" ["compiler", "flags", "timeout_secs"]
  return ⟨← get t "compiler" asText, ← get t "flags" asTexts, ← get t "timeout_secs" asLong⟩

def readSubject (root : Assoc Datum) : Reading SubjectSettings := do
  let s ← inSection root "subject"
    ["command", "args", "timeout_secs", "cpu_secs", "memory_mb", "allow_degraded"]
  return ⟨← get s "command" asText, ← get s "args" asTexts, ← get s "timeout_secs" asLong,
    ← get s "cpu_secs" asLong, ← get s "memory_mb" asLong, ← get s "allow_degraded" asTruth⟩

def readSolver (root : Assoc Datum) : Reading SolverSettings := do
  let s ← inSection root "solver"
    ["backend", "command", "args", "timeout_secs", "memory_mb", "exhaustive_bits", "kmax",
      "dump_queries"]
  return ⟨← get s "backend" asBackend, ← get s "command" (asOptional asText),
    ← get s "args" asTexts, ← get s "timeout_secs" asLong, ← get s "memory_mb" asLong,
    ← get s "exhaustive_bits" asShort, ← get s "kmax" asShort, ← get s "dump_queries" asTruth⟩

def readReplay (root : Assoc Datum) : Reading ReplaySettings := do
  let r ← inSection root "replay" ["command", "timeout_secs"]
  return ⟨← get r "command" asTexts, ← get r "timeout_secs" asLong⟩

def readPolicy (root : Assoc Datum) : Reading PolicySettings := do
  let p ← inSection root "policy" ["strict"]
  return ⟨← get p "strict" asTruth⟩

def read : Datum → Reading Settings
  | .table root => do
      return {
        corpus := ← get root "corpus" asText
        workDir := ← get root "work_dir" asText
        reportDir := ← get root "report_dir" asText
        workers := ← get root "workers" asLong
        clean := ← get root "clean" asTruth
        toolchain := ← readToolchain root
        subject := ← readSubject root
        solver := ← readSolver root
        replay := ← readReplay root
        policy := ← readPolicy root }
  | _ => .error (.unreadable "not a table")

def validated (s : Settings) : Reading Settings :=
  match s.complaint? with
  | some (field, reason) => .error (.invalidValue field reason)
  | none => .ok s

def resolve (layers : List Datum) : Reading Settings :=
  if layers.all isTable then do
    validated (← read (layered (ofSettings .default) layers))
  else .error (.unreadable "a layer without names")

def ofFile (files : Files) (path : String) : Reading Datum :=
  match (files.read? path).bind Text.decode? with
  | none => .error (.unreadable ("cannot read " ++ path))
  | some text =>
      match Text.Toml.parse text with
      | some fields => .ok (.table fields)
      | none => .error (.unreadable ("invalid document " ++ path))

/-- The layers of the file, the environment and the command line. A file that is
named must exist; the usual one is read when it is there. -/
def load (files : Files) (file : Option String) (environment : List (String × String))
    (overrides : List (String × Datum)) : Reading Settings := do
  let document ←
    match file with
    | some path =>
        if files.isFile path then do
          let d ← ofFile files path
          pure [d]
        else .error (.missingFile path)
    | none =>
        if files.isFile configFile then do
          let d ← ofFile files configFile
          pure [d]
        else pure []
  resolve (document ++ ofEnvironment environment :: overrides.map fun (path, d) => single path d)

end Config
end Bench
end BitEquiv

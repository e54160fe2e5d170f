import BitEquiv.Bench.SelfCheck

/-!
# The command line

A command line names one of two modes, and settings that go over those of the
configuration file and the environment. Arguments are read from left to right; the
first that is wrong, or asks for help or the version, ends the reading.
-/

namespace BitEquiv
namespace Bench

open Text (Datum)
open Execution (Files Host joinPath)

inductive OutputFormat where
  | text
  | json
deriving DecidableEq

def OutputFormat.ofWord? : String → Option OutputFormat
  | "text" => some .text
  | "json" => some .json
  | _ => none

/-- What a command line asks for. Time limits are in seconds. -/
structure Options where
  integration : Bool
  unit : Bool
  strict : Bool
  clean : Bool
  verbose : Bool
  corpus : Option String
  config : Option String
  buildTimeout : Option Nat
  runTimeout : Option Nat
  solverTimeout : Option Nat
  workers : Option Nat
  workDir : Option String
  reportDir : Option String
  backend : Option Backend
  solver : Option String
  format : Option OutputFormat
deriving DecidableEq

namespace Options

def none : Options where
  integration := false
  unit := false
  strict := false
  clean := false
  verbose := false
  corpus := .none
  config := .none
  buildTimeout := .none
  runTimeout := .none
  solverTimeout := .none
  workers := .none
  workDir := .none
  reportDir := .none
  backend := .none
  solver := .none
  format := .none

end Options

inductive Stop where
  | help
  | version
  | usage (message : String)
deriving DecidableEq

namespace CommandLine

/-! ## Reading -/

def raise (name : String) (given : Bool) (o : Options) : Except Stop Options :=
  if given then .error (.usage ("the argument '" ++ name ++ "' cannot be used multiple times"))
  else .ok o

def switch? (name : String) (o : Options) : Option (Except Stop Options) :=
  match name with
  | "--integration" => some (raise name o.integration { o with integration := true })
  | "--unit" => some (raise name o.unit { o with unit := true })
  | "--strict" => some (raise name o.strict { o with strict := true })
  | "--clean" => some (raise name o.clean { o with clean := true })
  | "--verbose" => some (raise name o.verbose { o with verbose := true })
  | "--help" => some (.error .help)
  | "--version" => some (.error .version)
  | _ => none

def longName? : Char → Option String
  | 'i' => some "--integration"
  | 'u' => some "--unit"
  | 'v' => some "--verbose"
  | 'h' => some "--help"
  | 'V' => some "--version"
  | _ => none

def readLetters (arg : String) : List Char → Options → Except Stop Options
  | [], o => .ok o
  | c :: rest, o =>
      match (longName? c).bind fun name => switch? name o with
      | some result => do readLetters arg rest (← result)
      | none => .error (.usage ("unexpected argument '" ++ arg ++ "' found"))

def once {α : Type} (name value : String) (old : Option α) (read : String → Option α)
    (set : α → Options) : Except Stop Options :=
  match read value with
  | none => .error (.usage ("invalid value '" ++ value ++ "' for '" ++ name ++ "'"))
  | some a =>
      if old.isSome then
        .error (.usage ("the argument '" ++ name ++ "' cannot be used multiple times"))
      else .ok (set a)

/-- A path has at least one character. -/
def asPath (s : String) : Option String := if s.isEmpty then none else some s

def asNumber (s : String) : Option Nat := Text.unsigned 10 (Nat.pow 2 64) s.toList

def asBackend (s : String) : Option Backend := (Backend.ofWord? s).toOption

def valued? (name : String) (o : Options) : Option (String → Except Stop Options) :=
  match name with
  | "--corpus" => some fun v => once name v o.corpus asPath fun a => { o with corpus := some a }
  | "--config" => some fun v => once name v o.config asPath fun a => { o with config := some a }
  | "--build-timeout" =>
      some fun v => once name v o.buildTimeout asNumber fun a => { o with buildTimeout := some a }
  | "--run-timeout" =>
      some fun v => once name v o.runTimeout asNumber fun a => { o with runTimeout := some a }
  | "--solver-timeout" =>
      some fun v => once name v o.solverTimeout asNumber fun a => { o with solverTimeout := some a }
  | "--workers" =>
      some fun v => once name v o.workers asNumber fun a => { o with workers := some a }
  | "--work-dir" => some fun v => once name v o.workDir asPath fun a => { o with workDir := some a }
  | "--report-dir" =>
      some fun v => once name v o.reportDir asPath fun a => { o with reportDir := some a }
  | "--solver-backend" =>
      some fun v => once name v o.backend asBackend fun a => { o with backend := some a }
  | "--solver" => some fun v => once name v o.solver some fun a => { o with solver := some a }
  | "--format" =>
      some fun v => once name v o.format OutputFormat.ofWord? fun a => { o with format := some a }
  | _ => none

/-- Whether an argument can be the value of the option before it. -/
def isValue (arg : String) : Bool := !arg.startsWith "-" || arg = "-"

/-- An argument that starts with two hyphens: its name, and a value after an equals
sign. -/
def splitLong (arg : String) : String × Option String :=
  match Text.cutAt (· == '=') arg.toList with
  | some (name, value) => (String.ofList name, some (String.ofList value))
  | none => (arg, none)

def readArgs : List String → Options → Except Stop Options
  | [], o => .ok o
  | arg :: rest, o =>
      let unexpected := Except.error (Stop.usage ("unexpected argument '" ++ arg ++ "' found"))
      if arg = "--" then if rest.isEmpty then .ok o else unexpected
      else if arg.startsWith "--" then
        let (name, attached) := splitLong arg
        match switch? name o, valued? name o, attached with
        | some result, _, none => do readArgs rest (← result)
        | some _, _, some _ => unexpected
        | none, some set, some value => do readArgs rest (← set value)
        | none, some set, none =>
            match rest with
            | value :: rest =>
                if isValue value then do readArgs rest (← set value)
                else .error (.usage ("a value is required for '" ++ name ++ "'"))
            | [] => .error (.usage ("a value is required for '" ++ name ++ "'"))
        | none, none, _ => unexpected
      else if arg.startsWith "-" ∧ arg ≠ "-" then do
        readArgs rest (← readLetters arg (arg.toList.drop 1) o)
      else unexpected

def read (args : List String) : Except Stop Options := do
  let o ← readArgs args .none
  if o.integration = o.unit then
    throw (.usage "exactly one of '--integration' and '--unit' must be given")
  else return o

/-! ## Running -/

def overrides (o : Options) : List (String × Datum) :=
  let one := fun (path : String) (d : Option Datum) => d.toList.map fun d => (path, d)
  let number := fun (n : Option Nat) => n.map Config.ofNat
  let text := fun (s : Option String) => s.map Datum.text
  let flag := fun (b : Bool) => if b then some (Datum.truth true) else none
  one "corpus" (text o.corpus) ++ one "work_dir" (text o.workDir)
    ++ one "report_dir" (text o.reportDir) ++ one "workers" (number o.workers)
    ++ one "toolchain.timeout_secs" (number o.buildTimeout)
    ++ one "subject.timeout_secs" (number o.runTimeout)
    ++ one "solver.timeout_secs" (number o.solverTimeout)
    ++ one "solver.backend" (text (o.backend.map Backend.name))
    ++ one "solver.command" (text o.solver) ++ one "policy.strict" (flag o.strict)
    ++ one "clean" (flag o.clean)

structure Finish where
  exitCode : Nat
  stdout : String
  stderr : String
deriving DecidableEq

def versionText : String := "rotor-bench 0.1.0\n"

def usageText : String := "Usage: rotor-bench [OPTIONS] <--integration|--unit>\n"

def helpLine (option purpose : String) : String :=
  let padding := String.ofList (List.replicate (39 - option.length) ' ')
  "  " ++ (if purpose.isEmpty then option else option ++ padding ++ purpose) ++ "\n"

def helpText : String :=
  "Check that a binary-to-model translator preserves program behavior\n\n" ++ usageText
    ++ "\nOptions:\n"
    ++ helpLine "-i, --integration" "Build, translate and check every case of the corpus"
    ++ helpLine "-u, --unit" "Run the harness contract checks against fixtures"
    ++ helpLine "    --corpus <CORPUS>" "Corpus root (one directory per case)"
    ++ helpLine "    --config <CONFIG>" "Configuration file (default: ./rotor.toml when present)"
    ++ helpLine "    --build-timeout <S>" "Build timeout in seconds"
    ++ helpLine "    --run-timeout <S>" "Subject timeout in seconds"
    ++ helpLine "    --solver-timeout <S>" "Solver timeout in seconds"
    ++ helpLine "    --workers <N>" "Worker threads (0 = available parallelism)"
    ++ helpLine "    --work-dir <DIR>" ""
    ++ helpLine "    --report-dir <DIR>" ""
    ++ helpLine "    --solver-backend <SOLVER_BACKEND>"
        "Solver backend: smtlib | btor2 | exhaustive"
    ++ helpLine "    --solver <CMD>" "Solver executable"
    ++ helpLine "    --strict" "Fail the run on inconclusive cases"
    ++ helpLine "    --clean" "Remove the work directory after the report is written"
    ++ helpLine "    --format <FORMAT>" "Output format: text | json [default: text]"
    ++ helpLine "-v, --verbose" "Debug logging"
    ++ helpLine "-h, --help" "Print help"
    ++ helpLine "-V, --version" "Print version"

def faulted (f : RunFault) : Finish := ⟨faultExitCode, "", f.message ++ "\n"⟩

def runIntegration (host : Host) (processors : Nat) (s : Settings) (format : OutputFormat)
    (files : Files) : Finish × Files :=
  match Run.corpus s (.ofSettings host s) processors files with
  | (.error f, files) => (faulted f, files)
  | (.ok report, files) =>
      match Run.publish s report files with
      | (.error f, files) => (faulted f, files)
      | (.ok _, files) =>
          let text :=
            match format with
            | .text => report.summary
            | .json => report.document
          (⟨report.exitCode, text, ""⟩, files)

def runUnit (host : Host) (s : Settings) (format : OutputFormat) (files : Files) :
    Finish × Files :=
  let report := SelfCheck.run host s files
  match files.makeDirectories s.reportDir with
  | (some fault, files) => (faulted (.directory s.reportDir fault.systemText), files)
  | (none, files) =>
      match Run.writeReport (joinPath s.reportDir "unit-report.json") report.document files with
      | .error f => (faulted f, files)
      | .ok files =>
          let text :=
            match format with
            | .text => report.summary
            | .json => report.document
          (⟨report.exitCode, text, ""⟩, files)

/-- Run the program with arguments and environment variables on a file tree. -/
def run (host : Host) (processors : Nat) (args : List String) (environment : List (String × String))
    (files : Files) : Finish × Files :=
  match read args with
  | .error .help => (⟨0, helpText, ""⟩, files)
  | .error .version => (⟨0, versionText, ""⟩, files)
  | .error (.usage message) =>
      (⟨usageExitCode, "", "error: " ++ message ++ "\n\n" ++ usageText⟩, files)
  | .ok o =>
      match Config.load files o.config environment (overrides o) with
      | .error f => (faulted (.config f), files)
      | .ok s =>
          let format := o.format.getD .text
          if o.unit then runUnit host s format files
          else runIntegration host processors s format files

end CommandLine
end Bench
end BitEquiv

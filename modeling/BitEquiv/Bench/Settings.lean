import BitEquiv.Solver.Exhaustive
import BitEquiv.Text.Blank

/-!
# Settings

What a run can be told: where its files are, how each external program is
started, and how strict it is. The defaults are a complete setting.
-/

namespace BitEquiv
namespace Bench

inductive Backend where
  | smtlib
  | btor2
  | exhaustive
deriving DecidableEq

namespace Backend

def all : List Backend := [smtlib, btor2, exhaustive]

def name : Backend → String
  | smtlib => "smtlib"
  | btor2 => "btor2"
  | exhaustive => "exhaustive"

def defaultCommand : Backend → String
  | smtlib => "bitwuzla"
  | btor2 => "btormc"
  | exhaustive => ""

/-- The backend that a word names, whatever the case of its letters. -/
def ofWord? (word : String) : Except String Backend :=
  let name := String.ofList ((Text.trim word.toList).map Char.toLower)
  match all.find? (·.name = name) with
  | some b => .ok b
  | none =>
      .error ("unknown solver backend '" ++ name
        ++ "' (expected smtlib, btor2 or exhaustive)")

end Backend

structure ToolchainSettings where
  compiler : String
  flags : List String
  timeoutSecs : Nat
deriving DecidableEq

/-- The program under test. The words of `args` may hold the places `{binary}`,
`{output}` and `{case}`. -/
structure SubjectSettings where
  command : String
  args : List String
  timeoutSecs : Nat
  cpuSecs : Nat
  memoryMiB : Nat
  allowDegraded : Bool
deriving DecidableEq

structure SolverSettings where
  backend : Backend
  command : Option String
  args : List String
  timeoutSecs : Nat
  memoryMiB : Nat
  exhaustiveBits : Nat
  kmax : Nat
  dumpQueries : Bool
deriving DecidableEq

/-- The runner of the binaries; without a command nothing is replayed. -/
structure ReplaySettings where
  command : List String
  timeoutSecs : Nat
deriving DecidableEq

structure PolicySettings where
  strict : Bool
deriving DecidableEq

structure Settings where
  corpus : String
  workDir : String
  reportDir : String
  workers : Nat
  clean : Bool
  toolchain : ToolchainSettings
  subject : SubjectSettings
  solver : SolverSettings
  replay : ReplaySettings
  policy : PolicySettings
deriving DecidableEq

def SolverSettings.program (s : SolverSettings) : String :=
  s.command.getD s.backend.defaultCommand

def ReplaySettings.isEnabled (s : ReplaySettings) : Bool := !s.command.isEmpty

namespace Settings

def default : Settings where
  corpus := "corpus"
  workDir := "target/rotor-work"
  reportDir := "target/rotor-report"
  workers := 0
  clean := false
  toolchain := ⟨"riscv64-unknown-elf-gcc", ["-static"], 60⟩
  subject := ⟨"rotor", ["\x7bbinary\x7d"], 120, 120, 8192, false⟩
  solver := ⟨.smtlib, none, [], 300, 0, 20, 1, false⟩
  replay := ⟨[], 10⟩
  policy := ⟨false⟩

def isBlankText (s : String) : Bool := (Text.trim s.toList).isEmpty

def positive (s : Settings) : List (String × Nat) :=
  [("toolchain.timeout_secs", s.toolchain.timeoutSecs),
   ("subject.timeout_secs", s.subject.timeoutSecs),
   ("solver.timeout_secs", s.solver.timeoutSecs),
   ("replay.timeout_secs", s.replay.timeoutSecs)]

/-- The first setting with a value that makes no sense, and what is wrong with
it. -/
def complaint? (s : Settings) : Option (String × String) :=
  match s.positive.find? (·.2 = 0) with
  | some (field, _) => some (field, "must be greater than zero")
  | none =>
      if isBlankText s.toolchain.compiler then some ("toolchain.compiler", "must be non-empty")
      else if isBlankText s.subject.command then some ("subject.command", "must be non-empty")
      else if s.solver.backend ≠ .exhaustive ∧ isBlankText s.solver.program then
        some ("solver.command", "must be non-empty")
      else if s.solver.exhaustiveBits = 0 ∨ Solver.Exhaustive.maxBits < s.solver.exhaustiveBits then
        some ("solver.exhaustive_bits",
          "must be between 1 and " ++ Text.decimal Solver.Exhaustive.maxBits ++ ", got "
            ++ Text.decimal s.solver.exhaustiveBits)
      else if s.replay.command.any isBlankText then
        some ("replay.command", "must not contain empty parts")
      else none

end Settings
end Bench
end BitEquiv

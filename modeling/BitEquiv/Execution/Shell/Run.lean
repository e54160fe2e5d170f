import BitEquiv.Execution.Host
import BitEquiv.Execution.Shell.Evaluate

/-!
# A host with a shell

A host on which a shell, the usual utilities and the scripts of a file tree can be
started. Programs start in the working directory of the tree, and leave it as it was.
-/

namespace BitEquiv
namespace Execution
namespace Shell

open Text (Octet.ofBytes Octet.ofText Octet.toBytes Octet.toText)

def hostVariables : List (String × String) := [
  ("PATH", "/usr/local/sbin:/usr/local/bin:/usr/sbin:/usr/bin:/sbin:/bin"),
  ("HOME", "/root")]

/-- A bound on the commands that a run takes before it is taken to be endless. -/
def stepBound : Nat := 500000

def depthBound : Nat := 20000

def State.initial (c : Command) (limits : Limits) (files : Files) : State where
  name := c.program
  dialect := .plain
  args := []
  bindings :=
    hostVariables.map (fun (name, value) => (name, ⟨some value, true, false⟩))
      ++ [("PWD", ⟨some (Octet.ofText ("/" ++ String.intercalate "/" files.cwd)), true, false⟩),
        ("IFS", ⟨some " \t\n", false, false⟩), ("OPTIND", ⟨some "1", false, false⟩),
        ("PS1", ⟨some "# ", false, false⟩), ("PS2", ⟨some "> ", false, false⟩),
        ("PS4", ⟨some "+ ", false, false⟩)]
  functions := []
  options := []
  traps := []
  pending := []
  descriptors := [(0, 0), (1, 1), (2, 2)]
  status := 0
  outputStatus := 0
  endedBy := none
  line := 0
  command := none
  leaving := .staying
  loops := 0
  depth := 0
  locals := []
  pid := 1000
  owner := 1000
  parent := 999
  jobs := []
  documents := []
  nextId := 0
  optionPlace := 0
  umask := 18
  aliases := []
  tracked := []
  world := {
    files := files
    channels := #[.source (Octet.ofBytes c.stdin), .sink [], .sink []]
    clock := 0
    deadline := limits.wallSeconds * 1000
    steps := stepBound
    lastPid := 1000 }

/-- How a program ended. One that has run out of its steps was busy until a limit. -/
def State.termination (limits : Limits) (s : State) : Termination :=
  match s.leaving, s.endedBy with
  | .expired, _ =>
      if s.world.steps = 0 && 0 < limits.cpuSeconds && limits.cpuSeconds < limits.wallSeconds then
        .cpuExceeded limits.cpuSeconds
      else .timedOut
  | .killed signal _, _ => .signaled signal
  | _, some signal => .signaled signal
  | _, none => .exited s.status

def scriptFault (text : List Char) (s : State) : Option String :=
  match interpreter? text with
  | none => some "Exec format error (os error 8)"
  | some words =>
      match startFault .plain "" (findAt s (words.headD "")) with
      | some (_, 126) => some "Permission denied (os error 13)"
      | some _ => some "No such file or directory (os error 2)"
      | none => none

def hostFault (program : String) (s : State) : Option String :=
  let lookedUp := program.toList.contains '/'
  let found := if lookedUp then findAt s program else findProgram s program
  match found with
  | .missing => some "No such file or directory (os error 2)"
  | .denied => some "Permission denied (os error 13)"
  | .program _ => none
  | .script path => scriptFault (s.fileText path) s

def host : Host where
  temporary := "/tmp"
  wording := FileFault.systemText
  run c limits files :=
    if (c.program :: c.args).any fun word => word.toList.any fun ch => ch.toNat = 0 then
      (.error ⟨c.program, "nul byte found in provided data"⟩, files)
    else
      let start := State.initial c limits files
      let program := Octet.ofText c.program
      match hostFault program start with
      | some reason => (.error ⟨c.program, reason⟩, files)
      | none =>
          let s := launch depthBound program (c.args.map Octet.ofText) start
          let written (id : Nat) : Capture :=
            .ofReads limits.outputBytes [some (Octet.toBytes (s.world.written id))]
          (.ok ⟨s.termination limits, written 1, written 2, 0⟩,
            { s.world.files with cwd := files.cwd })

end Shell
end Execution
end BitEquiv

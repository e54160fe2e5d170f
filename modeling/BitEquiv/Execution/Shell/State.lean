import BitEquiv.Text.Octet
import BitEquiv.Text.Assoc
import BitEquiv.Execution.Files
import BitEquiv.Execution.Signal
import BitEquiv.Execution.Shell.Token

/-!
# The state of a shell

A shell has variables, functions and descriptors of its own. Shells that start each
other share one world: the file tree, what descriptors are connected with, and the
time. All text in it is octets.
-/

namespace BitEquiv
namespace Execution
namespace Shell

open Text (Octet.ofBytes Octet.toBytes Octet.toText)

/-! ## The world -/

/-- What a descriptor can be connected with: nothing, text that is read, text that is
written (in reverse order), or a place in a file. -/
inductive Channel where
  | nothing
  | source (rest : List Char)
  | sink (written : List Char)
  | file (place : Place) (offset : Nat) (opening : Opening)

/-- What shells that start each other share. Times are milliseconds; the steps are a
bound on the commands that are still run before the deadline. -/
structure World where
  files : Files
  channels : Array Channel
  clock : Nat
  deadline : Nat
  steps : Nat
  lastPid : Nat

namespace World

def channel (w : World) (id : Nat) : Channel := w.channels.getD id .nothing

def setChannel (w : World) (id : Nat) (c : Channel) : World :=
  { w with channels := w.channels.setIfInBounds id c }

def addChannel (w : World) (c : Channel) : Nat × World :=
  (w.channels.size, { w with channels := w.channels.push c })

def contents (w : World) (place : Place) : List Char :=
  match w.files.node? place with
  | some (.file bytes) => Octet.ofBytes bytes
  | _ => []

/-- Put text into a text, with null characters where it begins beyond the end. -/
def overlay (offset : Nat) (text whole : List Char) : List Char :=
  whole.take offset ++ List.replicate (offset - whole.length) (Char.ofNat 0) ++ text
    ++ whole.drop (offset + text.length)

def write (w : World) (id : Nat) (text : List Char) : World :=
  match w.channel id with
  | .sink written => w.setChannel id (.sink (text.reverse ++ written))
  | .file place offset opening =>
      if (w.files.node? place).isNone || text.isEmpty then w
      else
        let whole := w.contents place
        let offset := if opening = .append then whole.length else offset
        let whole := overlay offset text whole
        let files := w.files.put place (.file (Octet.toBytes whole))
        { w with files := files }.setChannel id (.file place (offset + text.length) opening)
  | _ => w

def pending (w : World) (id : Nat) : List Char :=
  match w.channel id with
  | .source rest => rest
  | .file place offset opening =>
      if opening = .read || opening = .both then (w.contents place).drop offset else []
  | _ => []

/-- Go on after some of the text that can be read from a channel. -/
def advance (w : World) (id count : Nat) : World :=
  match w.channel id with
  | .source rest => w.setChannel id (.source (rest.drop count))
  | .file place offset opening => w.setChannel id (.file place (offset + count) opening)
  | _ => w

def written (w : World) (id : Nat) : List Char :=
  match w.channel id with
  | .sink written => written.reverse
  | _ => []

end World

inductive Change where
  | put (node : Node)
  | append (bytes : Text.Bytes)
  | remove

/-- What a script that runs beside the shell will have done in the end, beyond what it
did at once: text for channels, and changes of the file tree. -/
structure LateWork where
  writings : List (Nat × List Char)
  changes : List (Place × Change)

namespace LateWork

def none : LateWork := ⟨[], []⟩

def changeTo (node : Node) (before : Option Node) : Option Change :=
  match node, before with
  | .file new, some (.file old) =>
      if old = new then Option.none
      else if old.isPrefixOf new then some (.append (new.drop old.length))
      else some (.put node)
  | .directory, some .directory => Option.none
  | _, _ => some (.put node)

def between (before after : World) : LateWork :=
  let ids := List.range before.channels.size
  let writings := ids.filterMap fun id =>
    match before.channel id, after.channel id with
    | .sink old, .sink new =>
        if old.length < new.length then some (id, new.reverse.drop old.length) else Option.none
    | _, _ => Option.none
  let made := after.files.entries.reverse.filterMap fun (place, node) =>
    (changeTo node (before.files.node? place)).map fun change => (place, change)
  let gone := before.files.entries.filter fun (place, _) => (after.files.node? place).isNone
  ⟨writings, made ++ gone.map fun (place, _) => (place, .remove)⟩

def applyTo (place : Place) (files : Files) : Change → Files
  | .put node => files.put place node
  | .append bytes =>
      match files.node? place with
      | some (.file old) => files.put place (.file (old ++ bytes))
      | _ => files
  | .remove => files.without place

def doneIn (late : LateWork) (w : World) : World :=
  let w := late.writings.foldl (fun w (id, text) => w.write id text) w
  let files := late.changes.foldl (fun files (place, change) => applyTo place files change) w.files
  { w with files := files }

end LateWork

/-! ## Shells -/

structure Variable where
  value : Option String
  isExported : Bool
  isReadOnly : Bool

def optionNames : List (String × Char) := [
  ("errexit", 'e'), ("noglob", 'f'), ("ignoreeof", 'I'), ("interactive", 'i'), ("monitor", 'm'),
  ("noexec", 'n'), ("stdin", 's'), ("xtrace", 'x'), ("verbose", 'v'), ("vi", 'V'), ("emacs", 'E'),
  ("noclobber", 'C'), ("allexport", 'a'), ("notify", 'b'), ("nounset", 'u'), ("nolog", ' '),
  ("debug", ' ')]

/-- Whether a shell goes on with the next command, and if not, what it leaves. -/
inductive Leaving where
  | staying
  | breaking (levels : Nat)
  | continuing (levels : Nat)
  | returning
  | exiting
  | killed (signal pid : Nat)
  | expired
deriving DecidableEq

/-- A script that runs beside the shell: how it will have ended, and when. -/
structure BackgroundJob where
  pid : Nat
  status : Nat
  endedBy : Option Nat
  finish : Nat
  late : LateWork

/-- The families of shells, which differ in how they word complaints and in what they
echo. -/
inductive Dialect where
  | plain
  | extended
deriving DecidableEq

/-- A shell. The status of the last command goes with that of the last output that was
put into a word, and with the signal, if any, that ended the last program. -/
structure State where
  name : String
  dialect : Dialect
  args : List String
  bindings : List (String × Variable)
  functions : List (String × Script)
  options : List Char
  traps : List (String × String)
  pending : List String
  descriptors : List (Nat × Nat)
  status : Nat
  outputStatus : Nat
  endedBy : Option Nat
  line : Nat
  command : Option String
  leaving : Leaving
  loops : Nat
  depth : Nat
  locals : List (List (String × Option Variable))
  pid : Nat
  owner : Nat
  parent : Nat
  jobs : List BackgroundJob
  documents : List (Nat × Word)
  nextId : Nat
  optionPlace : Nat
  umask : Nat
  aliases : List (String × String)
  tracked : List (String × String)
  world : World

namespace State

def withStatus (s : State) (n : Nat) : State := { s with status := n }

def isStaying (s : State) : Bool := s.leaving = .staying

def leave (s : State) (l : Leaving) : State := { s with leaving := l }

def has (s : State) (option : Char) : Bool := s.options.contains option

/-! ### Variables -/

def binding? (s : State) (name : String) : Option Variable := s.bindings.lookup name

def value? (s : State) (name : String) : Option String :=
  (s.binding? name).bind (·.value)

def setVariable (s : State) (name : String) (v : Variable) : State :=
  let bindings :=
    if (s.binding? name).isSome then
      s.bindings.map fun (other, old) => if other = name then (name, v) else (other, old)
    else (name, v) :: s.bindings
  { s with bindings := bindings, tracked := if name = "PATH" then [] else s.tracked }

def dropVariable (s : State) (name : String) : State :=
  { s with bindings := s.bindings.filter (·.1 ≠ name) }

def restore (s : State) (name : String) (old : Option Variable) : State :=
  match old with
  | some v => s.setVariable name v
  | none => s.dropVariable name

def put (s : State) (name value : String) : State :=
  let v := (s.binding? name).getD ⟨none, false, false⟩
  let isExported := v.isExported || s.has 'a'
  s.setVariable name { v with value := some value, isExported := isExported }

def isReadOnly (s : State) (name : String) : Bool :=
  ((s.binding? name).map (·.isReadOnly)).getD false

def environment (s : State) : List (String × String) :=
  s.bindings.reverse.filterMap fun (name, v) =>
    if v.isExported then v.value.map fun value => (name, value) else none

def separators (s : State) : List Char := ((s.value? "IFS").getD " \t\n").toList

/-! ### Descriptors -/

def channel? (s : State) (descriptor : Nat) : Option Nat := s.descriptors.lookup descriptor

def connect (s : State) (descriptor channel : Nat) : State :=
  { s with descriptors := (descriptor, channel) :: s.descriptors.filter (·.1 ≠ descriptor) }

def disconnect (s : State) (descriptor : Nat) : State :=
  { s with descriptors := s.descriptors.filter (·.1 ≠ descriptor) }

def writeTo (s : State) (descriptor : Nat) (text : List Char) : State :=
  match s.channel? descriptor with
  | some id => { s with world := s.world.write id text }
  | none => s

def print (s : State) (text : List Char) : State := s.writeTo 1 text

def input (s : State) : List Char := ((s.channel? 0).map s.world.pending).getD []

def advanceInput (s : State) (count : Nat) : State :=
  match s.channel? 0 with
  | some id => { s with world := s.world.advance id count }
  | none => s

/-! ### Complaints -/

def warn (s : State) (text : String) : State :=
  let command :=
    match s.command with
    | some name => name ++ ": "
    | none => ""
  let line :=
    match s.dialect with
    | .plain => Text.decimal s.line
    | .extended => "line " ++ Text.decimal s.line
  s.writeTo 2 (s.name ++ ": " ++ line ++ ": " ++ command ++ text ++ "\n").toList

def describeSignal (s : State) (endedBy : Option Nat) : State :=
  match endedBy with
  | some signal =>
      if signal = 2 || signal = 13 then s
      else s.writeTo 2 (Signal.describe signal ++ "\n").toList
  | none => s

def die (s : State) (text : String) : State :=
  ((s.warn text).withStatus 2).leave .exiting

/-- Spend one step. A shell without steps has run into its deadline. -/
def step (s : State) : State :=
  match s.world.steps with
  | 0 => s.leave .expired
  | steps + 1 => { s with world := { s.world with steps := steps } }

def settle (s : State) : State :=
  let isDue (j : BackgroundJob) : Bool := j.finish ≤ s.world.clock
  let due := s.jobs.reverse.filter isDue
  let world := due.foldl (fun w j => j.late.doneIn w) s.world
  let jobs := s.jobs.map fun j => if isDue j then { j with late := .none } else j
  { s with world := world, jobs := jobs }

def wait (s : State) (milliseconds : Nat) : State :=
  let clock := s.world.clock + milliseconds
  let s := { s with world := { s.world with clock := clock } }.settle
  if s.world.deadline ≤ clock then s.leave .expired else s

end State

abbrev Action := OptionT (StateM State)

namespace Action

def die {α : Type} (text : String) : Action α := do
  modify fun s => s.die text
  failure

def ofStep (f : State → State) : Action Unit := do
  modify f
  if (← get).isStaying then pure () else failure

def run {α : Type} (a : Action α) (s : State) : Option α × State := OptionT.run a s

def assign (name value : String) : Action Unit := do
  if (← get).isReadOnly name then die (name ++ ": is read only")
  modify fun s => s.put name value

end Action

end Shell
end Execution
end BitEquiv

import BitEquiv.Execution.Shell.Descriptor
import BitEquiv.Execution.Shell.Grammar
import BitEquiv.Execution.Shell.Program

/-!
# Running scripts

Scripts run on the state of a shell. What runs in a shell of its own starts from a copy
of the state and leaves only the world behind. Fuel is a bound on the depth of a run; a
script that runs out of it, or of its steps, is taken to run into its deadline.
-/

namespace BitEquiv
namespace Execution
namespace Shell

open Text (Octet.ofBytes Octet.toText Pattern)

/-! ## Shells in shells -/

/-- The shell after one that it started. It ends as the other one when that one ran
into the deadline, or was ended by a signal that was not for it alone. -/
def State.afterChild (s child : State) : State :=
  let files := { child.world.files with cwd := s.world.files.cwd }
  let world := { child.world with files := files }
  let s := { s with world := world, status := child.status, endedBy := none }
  match child.leaving with
  | .expired => s.leave .expired
  | .killed signal pid =>
      if pid = child.pid then { s with status := 128 + signal, endedBy := some signal }
      else s.leave (.killed signal pid)
  | _ => s

def State.child (s : State) : State :=
  let pid := s.world.lastPid + 1
  { s with
    pid := pid
    parent := s.pid
    jobs := []
    traps := s.traps.filter (·.2 = "")
    pending := []
    world := { s.world with lastPid := pid } }

def inChild (run : State → State) (s : State) : State := s.afterChild (run s.child)

def reportSignal (s : State) : State :=
  if s.isStaying then { s.describeSignal s.endedBy with endedBy := none } else s

/-! ## Loops -/

def State.afterRound (s : State) : State × Bool :=
  match s.leaving with
  | .staying => (s, true)
  | .breaking levels =>
      (s.leave (if levels ≤ 1 then .staying else .breaking (levels - 1)), false)
  | .continuing levels =>
      if levels ≤ 1 then (s.leave .staying, true)
      else (s.leave (.continuing (levels - 1)), false)
  | _ => (s, false)

def runLoop (isUntil : Bool) (condition body : State → State) : Nat → Nat → State → State
  | 0, _, s => s.leave .expired
  | rounds + 1, status, s =>
      let s := condition s.step
      if !s.isStaying then
        match s.afterRound with
        | (s, true) => runLoop isUntil condition body rounds status s
        | (s, false) => s
      else if (s.status = 0) = isUntil then s.withStatus status
      else
        match (body s).afterRound with
        | (s, true) => runLoop isUntil condition body rounds s.status s
        | (s, false) => s

def runEach (name : String) (body : State → State) : List String → State → State
  | [], s => s
  | word :: rest, s =>
      let (done, s) := (Action.assign name word).run s.step
      if done.isNone then s
      else
        match (body s).afterRound with
        | (s, true) => runEach name body rest s
        | (s, false) => s

/-! ## Reading scripts -/

def runReader (run : Script → State → State) : Nat → Reader → State → State
  | 0, _, s => s
  | fuel + 1, r, s =>
      match { r with aliases := s.aliases }.command with
      | .error fault => { s with line := fault.line }.die fault.message
      | .ok (none, _) => s
      | .ok (some script, after) =>
          let s := { s with
            documents := after.documents ++ s.documents
            nextId := max s.nextId after.nextId }
          let s := if script.isNothing || s.has 'n' then s else run script s
          if s.isStaying then
            runReader run fuel { after with documents := [], nextId := s.nextId } s
          else s

/-! ## Words of commands -/

def settingCommands : List String := ["export", "readonly", "local", "alias"]

/-- The fields of the words of a command, after some. What sets a variable is one
field. -/
def commandFields (capture : Capturer) : List String → List Word → Action (List String)
  | found, [] => pure found
  | found, w :: rest => do
      let setting :=
        if settingCommands.contains ((dropPlainMarks false found).2.headD "") then w.setting?
        else none
      match setting with
      | some (target, value) =>
          let value ← Expansion.settingText capture value
          commandFields capture (found ++ [target ++ "=" ++ value]) rest
      | none => commandFields capture (found ++ (← Expansion.fields capture w)) rest

def traced (words : List String) (s : State) : State :=
  if s.has 'x' then s.writeTo 2 ("+ " ++ String.intercalate " " words ++ "\n").toList else s

/-- Set the variables in front of a command in turn. Those that are not kept are for the
command alone. -/
def assignSettings (capture : Capturer) (isKept showsEach : Bool) :
    List Word → Action (List (String × String))
  | [] => pure []
  | w :: rest => do
      match w.setting? with
      | none => assignSettings capture isKept showsEach rest
      | some (name, value) =>
          let value ← Expansion.settingText capture value
          if isKept then Action.assign name value
          else if (← get).isReadOnly name then Action.die (name ++ ": is read only")
          else modify fun s => s.setVariable name ⟨some value, true, false⟩
          if showsEach then modify (traced [name ++ "=" ++ value])
          return (name, value) :: (← assignSettings capture isKept showsEach rest)

/-! ## Evaluation -/

/-- Fuel for a depth of functions that call each other. -/
def functionDepth : Nat := 1000

def checked (isTested : Bool) (s : State) : State :=
  if s.isStaying && s.status ≠ 0 && s.has 'e' && !isTested then s.leave .exiting else s

/-- What a complaint about a program that cannot be started says, and the status. -/
def startFault (dialect : Dialect) (name : String) : Found → Option (String × Nat)
  | .denied => some ("Permission denied", 126)
  | .missing =>
      match dialect with
      | .plain => some ("not found", 127)
      | .extended =>
          if name.toList.contains '/' then some ("No such file or directory", 127)
          else some ("command not found", 127)
  | _ => none

mutual

def run : Nat → Bool → Script → State → State
  | 0, _, _, s => s.leave .expired
  | fuel + 1, isTested, script, s =>
      if !s.isStaying then s
      else
        match script with
        | .nothing => s.withStatus 0
        | .simple line settings words redirects =>
            checked isTested (runSimple fuel isTested line settings words redirects s)
        | .pipe stages => checked isTested (runPipe fuel isTested stages s)
        | .negated script =>
            let s := run fuel true script s
            s.withStatus (if s.status = 0 then 1 else 0)
        | .background script => runBeside fuel script s
        | .sequence first second =>
            if second.isNothing then run fuel isTested first s
            else run fuel isTested second (run fuel isTested first s)
        | .both first second =>
            let s := run fuel true first s
            if s.isStaying && s.status = 0 then run fuel isTested second s else s
        | .either first second =>
            let s := run fuel true first s
            if s.isStaying && s.status ≠ 0 then run fuel isTested second s else s
        | .subshell line body redirects =>
            let s := { s with line := line }
            let inner (s : State) : State :=
              match (redirect (capture fuel) redirects).run s with
              | (some true, s) => finish fuel (run fuel isTested body s)
              | (_, s) => finish fuel s
            checked isTested (reportSignal (inChild inner s))
        | .redirected line body redirects =>
            let before := s.descriptors
            let (done, s) := (redirect (capture fuel) redirects).run { s with line := line }
            let s := if done = some true then run fuel isTested body s else s
            { s with descriptors := before }
        | .loop isUntil condition body =>
            let s := { s with loops := s.loops + 1 }
            let s := runLoop isUntil (run fuel true condition) (run fuel isTested body)
              (s.world.steps + 1) 0 s
            { s with loops := s.loops - 1 }
        | .each line name words body =>
            let (found, s) := (Expansion.allFields (capture fuel) words).run { s with line := line }
            match found with
            | none => s
            | some words =>
                let s := { s with loops := s.loops + 1, status := 0 }
                let s := runEach name (run fuel isTested body) words s
                { s with loops := s.loops - 1 }
        | .cond condition yes no =>
            let s := run fuel true condition s
            if !s.isStaying then s
            else if s.status = 0 then run fuel isTested yes s
            else run fuel isTested no s
        | .choice line subject arms =>
            let chosen : Action Script := do
              let text ← Expansion.text (capture fuel) subject
              for (patterns, body) in arms do
                for word in patterns do
                  let pattern ← Expansion.pattern (capture fuel) word
                  if Pattern.fits pattern text.toList then return body
              return .nothing
            match chosen.run { s with line := line } with
            | (some body, s) => run fuel isTested body s
            | (none, s) => s
        | .define name body =>
            { s with
              functions := (name, body) :: s.functions.filter (·.1 ≠ name)
              status := 0 }

/-- Run commands of which each one reads what the one before it prints. -/
def runPipe : Nat → Bool → List Script → State → State
  | 0, _, _, s => s.leave .expired
  | fuel + 1, isTested, stages, s =>
      let before := s.descriptors
      let last := stages.length - 1
      let s := stages.zipIdx.foldl
        (fun (s : State) (stage, n) =>
          if !s.isStaying then s
          else
            let (id, world) := s.world.addChannel (.sink [])
            let s := { s with world := world }
            let inner := if n < last then s.connect 1 id
              else { s with descriptors := (s.descriptors.filter (·.1 ≠ 1))
                  ++ before.filter (·.1 = 1) }
            let child := inChild (fun s => finish fuel (run fuel isTested stage s)) inner
            let (source, world) := child.world.addChannel (.source (child.world.written id))
            { child with world := world, descriptors := before }.connect 0 source)
        s
      reportSignal { s with descriptors := before }

/-- Run a script beside the shell, which goes on at once: what the script does after some
time is kept for then. -/
def runBeside : Nat → Script → State → State
  | 0, _, s => s.leave .expired
  | fuel + 1, script, s =>
      let clock := s.world.clock
      let ranUntil (deadline : Nat) : State :=
        let inner (s : State) : State :=
          let (id, world) := s.world.addChannel .nothing
          let world := { world with deadline := deadline }
          finish fuel (run fuel false script ({ s with world := world }.connect 0 id))
        inChild inner s
      let whole := ranUntil s.world.deadline
      let ownsTime := whole.leaving = .expired || clock < whole.world.clock
      let atOnce := if ownsTime then ranUntil (clock + 1) else whole
      let expired := whole.leaving = .expired
      let world := { atOnce.world with
        clock := clock
        deadline := s.world.deadline
        steps := if expired then s.world.steps else whole.world.steps
        lastPid := whole.world.lastPid }
      let job : BackgroundJob := {
        pid := s.world.lastPid + 1
        status := whole.status
        endedBy := whole.endedBy
        finish := if expired then s.world.deadline else whole.world.clock
        late := if ownsTime then .between atOnce.world whole.world else .none }
      { s with
        world := world
        jobs := job :: s.jobs
        status := 0
        leaving := if expired then .staying else whole.leaving }

/-- Run a simple command: expand its words, make its redirections, set its variables,
and run what its name stands for. -/
def runSimple : Nat → Bool → Nat → List Word → List Word → List Redirect → State → State
  | 0, _, _, _, _, _, s => s.leave .expired
  | fuel + 1, isTested, line, settings, words, redirects, s =>
      let s := { s.step with line := line, outputStatus := 0 }
      let (found, s) := (commandFields (capture fuel) [] words).run s
      match found with
      | none => s
      | some fields =>
          let (isPlain, fields) := dropPlainMarks false fields
          let before := s.descriptors
          let name := fields.headD ""
          let isSpecial := specialBuiltins.contains name && !isPlain
          let (done, s) := (redirect (capture fuel) redirects).run s
          match done with
          | none => { s with descriptors := before }
          | some false =>
              let s := { s with descriptors := before }
              if isSpecial then s.leave .exiting else s
          | some true =>
              let isKept := fields.isEmpty || isSpecial
              let outer := s
              let setAll := assignSettings (capture fuel) isKept fields.isEmpty settings
              match setAll.run s with
              | (none, s) => { s with descriptors := before }
              | (some pairs, s) =>
                  match fields with
                  | [] => { s with descriptors := before, status := s.outputStatus }
                  | name :: args =>
                      let s := traced (pairs.map (fun (n, v) => n ++ "=" ++ v) ++ fields) s
                      let s := call fuel isTested isPlain name args s
                      let s := if isKept then s else pairs.foldl
                        (fun s (name, _) => s.restore name (outer.binding? name)) s
                      let keeps := name = "exec" && args.isEmpty
                      let s := if keeps then s else { s with descriptors := before }
                      runTraps fuel s

def runTraps : Nat → State → State
  | 0, s => s
  | fuel + 1, s =>
      match s.pending with
      | [] => s
      | name :: rest =>
          if !s.isStaying then s
          else
            let status := s.status
            let action := (s.traps.lookup name).getD ""
            let s := runText fuel false action.toList 1 { s with pending := rest }
            if s.isStaying then runTraps fuel (s.withStatus status) else s

/-- Run what a name stands for. A plain command is no function, and its faults do not
leave the shell. -/
def call : Nat → Bool → Bool → String → List String → State → State
  | 0, _, _, _, _, s => s.leave .expired
  | fuel + 1, isTested, isPlain, name, args, s =>
      match (if isPlain then none else s.functions.lookup name) with
      | some body => runFunction fuel isTested body args s
      | none =>
          if isBuiltin name then
            let outer := s.command
            let isSpecial := specialBuiltins.contains name && !isPlain
            let s := { s with command := some name }
            let s :=
              match builtins.lookup name with
              | some builtin =>
                  let (done, after) := (builtin args).run (s.withStatus 0)
                  let after := if name = "exit" || name = "return" then
                      ((builtin args).run s).2 else after
                  if done.isNone && after.leaving = Leaving.exiting && !isSpecial then
                    after.leave .staying
                  else after
              | none => runRunner fuel isTested isSpecial name args s
            { s with command := outer }
          else
            match startFault s.dialect name (findProgram s name) with
            | some (reason, status) =>
                (s.warn (name ++ ": " ++ reason)).withStatus status
            | none => reportSignal (launch fuel name args (s.track name))

def runFunction : Nat → Bool → Script → List String → State → State
  | 0, _, _, _, s => s.leave .expired
  | fuel + 1, isTested, body, args, s =>
      if functionDepth ≤ s.depth then
        s.die ("Maximum function recursion depth (" ++ Text.decimal functionDepth ++ ") reached")
      else
        let after := run fuel isTested body { s with
          args := args
          depth := s.depth + 1
          loops := 0
          locals := [] :: s.locals
          optionPlace := 0 }
        let frame := after.locals.headD []
        let after := frame.foldl (fun s (name, old) => s.restore name old) after
        { after with
          args := s.args
          depth := s.depth
          loops := s.loops
          locals := s.locals
          optionPlace := s.optionPlace
          leaving := if after.leaving = .returning then .staying else after.leaving }

def runRunner : Nat → Bool → Bool → String → List String → State → State
  | 0, _, _, _, _, s => s.leave .expired
  | fuel + 1, isTested, isSpecial, name, args, s =>
      let die (text : String) : State :=
        let s := s.die text
        if isSpecial then s else s.leave .staying
      match name, args with
      | "eval", _ =>
          let text := (String.intercalate " " args).toList
          runText fuel isTested text 1 (s.withStatus 0)
      | ".", [] => s
      | ".", path :: _ =>
          let found :=
            if path.toList.contains '/' then some path
            else
              (searchPath s).findSome? fun dir =>
                let full := joinPath dir path
                if s.world.files.isFile (Octet.toText full) then some full else none
          match found with
          | none => die (path ++ ": not found")
          | some full =>
              match s.world.files.read (Octet.toText full) with
              | .error .isDirectory => s.withStatus 0
              | .error _ => die ("cannot open " ++ full ++ ": No such file")
              | .ok bytes =>
                  let s := { s with command := some full, status := 0 }
                  let s := runText fuel false (Octet.ofBytes bytes) 1 s
                  if s.leaving = .returning then s.leave .staying else s
      | "exec", [] => s.withStatus 0
      | "exec", program :: args =>
          match startFault s.dialect program (findProgram s program) with
          | some (reason, status) =>
              ((s.warn (program ++ ": " ++ reason)).withStatus status).leave .exiting
          | none =>
              let s := launch fuel program args { s with traps := [] }
              if !s.isStaying then s
              else
                match s.endedBy with
                | some signal => s.leave (.killed signal s.pid)
                | none => s.leave .exiting
      | _, [] => s.withStatus 0
      | _, _ =>
          match name, args with
          | "command", "-v" :: names => (names.take 1).foldl (describe false) (s.withStatus 0)
          | "command", "-V" :: names => (names.take 1).foldl (describe true) (s.withStatus 0)
          | "command", option :: _ =>
              (s.warn ("Illegal option " ++ (option.take 2).toString)).withStatus 2
          | _, names => names.foldl (describe true) (s.withStatus 0)

def launch : Nat → String → List String → State → State
  | 0, _, _, s => s.leave .expired
  | fuel + 1, name, args, s =>
      let s := { s with endedBy := none }
      match findProgram s name with
      | .program program =>
          match Utility.catalog.lookup program with
          | some u => runUtility u name args s
          | none => launchOther fuel program name args s
      | .script path =>
          let text := s.fileText path
          match interpreter? text with
          | some (program :: words) => launch fuel program (words ++ path :: args) s
          | _ => runShell fuel [] path args text s
      | .denied => s.withStatus 126
      | .missing => s.withStatus 127

def runShell : Nat → List Char → String → List String → List Char → State → State
  | 0, _, _, _, _, s => s.leave .expired
  | fuel + 1, options, name, args, text, s =>
      let fresh (s : State) : State :=
        { s with
          name := name
          args := args
          bindings := s.bindings.filter (·.2.isExported)
          functions := []
          aliases := []
          tracked := []
          options := options
          command := none
          loops := 0
          depth := 0
          locals := []
          owner := s.pid
          status := 0 }
      inChild (fun s => finish fuel (runText fuel false text 1 (fresh s))) s

def launchOther : Nat → String → String → List String → State → State
  | 0, _, _, _, s => s.leave .expired
  | fuel + 1, program, shown, args, s =>
      /- Start the program that some words name. -/
      let go (words : List String) (s : State) : State :=
        match words with
        | [] => s
        | name :: rest =>
            match findProgram s name with
            | .denied =>
                (s.writeTo 2 (shown ++ ": " ++ (if program = "env" || program = "timeout"
                  || program = "nohup" || program = "nice" then Job.inQuotes name else name)
                  ++ ": Permission denied\n").toList).withStatus 126
            | .missing =>
                (s.writeTo 2 ((match program with
                  | "env" | "nohup" | "nice" => shown ++ ": " ++ Job.inQuotes name
                  | "timeout" => shown ++ ": failed to run command " ++ Job.inQuotes name
                  | _ => shown ++ ": " ++ name)
                  ++ ": No such file or directory\n").toList).withStatus 127
            | _ => launch fuel name rest s
      let misuse (status : Nat) (text : String) : State :=
        (s.writeTo 2 (shown ++ ": " ++ text ++ "\nTry '" ++ shown
          ++ " --help' for more information.\n").toList).withStatus status
      match program with
      | "sh" | "dash" => { startShell fuel shown args { s with dialect := .plain } with
          dialect := s.dialect }
      | "bash" => { startShell fuel shown args { s with dialect := .extended } with
          dialect := s.dialect }
      | "env" =>
          let flags :=
            Job.switches [('i', "ignore-environment"), ('0', "null"), ('v', "debug")]
              ++ Job.takers [('u', "unset"), ('C', "chdir"), ('S', "split-string")]
          let args := args.map fun a => if a = "-" then "-i" else a
          match Job.parse flags false args with
          | .error complaint => misuse 125 complaint
          | .ok p =>
              let operands := ((p.last? 'S').map fun w => (w.splitOn " ").filter (· ≠ "")).getD []
                ++ p.operands
              let (pairs, words) := spanSettings operands
              let outer := s.bindings
              let s := if p.has 'i' then
                  { s with bindings := s.bindings.filter fun (_, v) => !v.isExported }
                else s
              let s := p.options.foldl
                (fun s o => if o.1 = 'u' then s.dropVariable o.2 else s) s
              let s := pairs.foldl
                (fun s (name, value) => s.setVariable name ⟨some value, true, false⟩) s
              let s :=
                if words.isEmpty then
                  s.environment.foldl
                    (fun s (name, value) => s.print (name ++ "=" ++ value ++ "\n").toList)
                    (s.withStatus 0)
                else
                  let path := if (s.value? "PATH").isNone then
                      s.setVariable "PATH" ⟨some "/bin:/usr/bin", false, false⟩ else s
                  go words path
              { s with bindings := outer }
      | "timeout" =>
          let flags :=
            Job.switches [('f', "foreground"), ('p', "preserve-status"), ('v', "verbose")]
              ++ Job.takers [('k', "kill-after"), ('s', "signal")]
          match Job.parse flags false args with
          | .error complaint => misuse 125 complaint
          | .ok p =>
              match p.operands with
              | [] | [_] =>
                  (s.writeTo 2 ("Try '" ++ shown
                    ++ " --help' for more information.\n").toList).withStatus 125
              | limit :: words =>
                  match Utility.duration? limit with
                  | none => misuse 125 ("invalid time interval " ++ Job.inQuotes limit)
                  | some ms =>
                      let outer := s.world.deadline
                      let stop := if ms = 0 then outer else min outer (s.world.clock + ms)
                      let s := go words { s with world := { s.world with deadline := stop } }
                      let s := { s with world := { s.world with deadline := outer } }
                      if s.leaving = .expired && stop < outer then
                        let signal := ((p.last? 's').bind Signal.number?).getD 15
                        let world := { s.world with clock := stop }
                        let status := if signal = 9 then 137
                          else if p.has 'p' then 128 + signal else 124
                        { s with
                          world := world
                          leaving := .staying
                          status := status
                          endedBy := if signal = 9 then some 9 else none }
                      else s
      | "xargs" =>
          let flags :=
            Job.switches [('0', "null"), ('r', "no-run-if-empty"), ('t', "verbose"), ('x', "exit"),
                ('p', "interactive")]
              ++ Job.takers [('d', "delimiter"), ('I', ""), ('L', "max-lines"), ('n', "max-args"),
                ('P', "max-procs"), ('s', "max-chars"), ('a', "arg-file"), ('E', "")]
          match Job.parse flags false args with
          | .error complaint => misuse 1 complaint
          | .ok p =>
              let text := s.input
              let commands := xargsCommands p p.operands text
              let s := (s.advanceInput text.length).withStatus 0
              let (id, world) := s.world.addChannel .nothing
              let inner := { s with world := world }.connect 0 id
              let after := commands.foldl
                (fun (s : State) words =>
                  if !s.isStaying || 123 < s.status then s
                  else
                    let s := if p.has 't' then
                        s.writeTo 2 (String.intercalate " " words ++ "\n").toList else s
                    let before := s.status
                    let s := go words s
                    if s.status = 0 then s.withStatus before
                    else if s.status < 126 then s.withStatus 123
                    else s)
                inner
              { after with descriptors := s.descriptors }
      | "find" =>
          let j : Job := ⟨shown, args, [], false, s.environment, s.world.files, [], 0, 0⟩
          let (_, commands) := Utility.find j
          let s := runUtility (fun j => (Utility.find j).1) shown args s
          let status := s.status
          let s := commands.foldl (fun (s : State) words => if s.isStaying then go words s else s) s
          s.withStatus status
      | "nice" | "stdbuf" | "setsid" | "nohup" =>
          let words := args.dropWhile fun a => a.startsWith "-" || (Text.natural? a.toList).isSome
          if words.isEmpty then if program = "nice" then s.print ['0', '\n'] else
            misuse 125 "missing operand"
          else go words s
      | _ =>
          (s.writeTo 2 (shown ++ ": cannot run\n").toList).withStatus 1

def startShell : Nat → String → List String → State → State
  | 0, _, _, s => s.leave .expired
  | fuel + 1, shown, args, s =>
      let fault (text : String) : State :=
        (s.writeTo 2 (shown ++ ": 0: " ++ text ++ "\n").toList).withStatus 2
      let found := ShellOptions.ofArgs args
      let isCommand := found.letters.contains 'c'
      let isInput := found.letters.contains 's'
      let rest := found.rest
      let isKnown (name : String) : Bool := (optionNames.lookup name).isSome
      match found.letters.find? fun c => !Builtin.isOption c && c ≠ 'c',
          found.names.find? fun name => !isKnown name with
      | some c, _ => fault ("Illegal option -" ++ String.ofList [c])
      | none, some name => fault ("Illegal option -o " ++ name)
      | none, none =>
          let options := found.letters.filter (fun c => c ≠ 'c' && c ≠ 's')
            ++ found.names.filterMap fun name => optionNames.lookup name
          let start := runShell fuel options
          if isCommand then
            match rest with
            | [] => fault "-c requires an argument"
            | text :: [] => start shown [] text.toList s
            | text :: name :: args => start name args text.toList s
          else
            match rest with
            | [] =>
                let text := s.input
                start shown [] text (s.advanceInput text.length)
            | path :: args =>
                if isInput then
                  let text := s.input
                  start shown rest text (s.advanceInput text.length)
                else
                  match s.world.files.read (Octet.toText path) with
                  | .ok bytes => start path args (Octet.ofBytes bytes) s
                  | .error .isDirectory => s.withStatus 0
                  | .error _ =>
                      if System.isDirectory s.world.files path then s.withStatus 0
                      else
                        match s.dialect with
                        | .plain => fault ("cannot open " ++ path ++ ": No such file")
                        | .extended =>
                            (s.writeTo 2 (shown ++ ": " ++ path
                              ++ ": No such file or directory\n").toList).withStatus 127

def runText : Nat → Bool → List Char → Nat → State → State
  | 0, _, _, _, s => s.leave .expired
  | fuel + 1, isTested, text, line, s =>
      runReader (run fuel isTested) (text.length + 2) (Reader.ofText text line s.nextId) s

def finish : Nat → State → State
  | 0, s => s.leave .expired
  | fuel + 1, s =>
      match s.leaving, s.traps.lookup "EXIT" with
      | .expired, _ => s
      | .killed .., _ => s
      | _, some action =>
          let status := s.status
          let others := s.traps.filter (·.1 ≠ "EXIT")
          let s := { s with traps := others, command := none }.leave .staying
          let s := runText fuel false action.toList 1 s
          if s.isStaying then (s.withStatus status).leave .exiting else s
      | _, none => s

def capture : Nat → List Char → Nat → State → List Char × State
  | 0, _, _, s => ([], s.leave .expired)
  | fuel + 1, text, line, s =>
      let (id, world) := s.world.addChannel (.sink [])
      let inner (s : State) : State := finish fuel (runText fuel false text line (s.connect 1 id))
      let after := inChild inner { s with world := world }
      (after.world.written id, { after with outputStatus := after.status, status := s.status })

end

end Shell
end Execution
end BitEquiv

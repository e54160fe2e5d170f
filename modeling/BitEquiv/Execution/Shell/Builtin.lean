import BitEquiv.Execution.Signal
import BitEquiv.Execution.Utility.Condition
import BitEquiv.Execution.Utility.Format
import BitEquiv.Execution.Shell.Expansion

/-!
# Commands of the shell

The commands that a shell has itself and that run no other commands. A command that
gives up has printed why; whether the shell is then left is not decided here.
-/

namespace BitEquiv
namespace Execution
namespace Shell

open Text (Octet.ofText Octet.toText Octet.isSpace)

/-- A command of the shell itself, as a function of its arguments. -/
abbrev Builtin := List String → Action Unit

namespace Builtin

def setStatus (n : Nat) : Action Unit := modify fun s => s.withStatus n

def warn (text : String) (status : Nat) : Action Unit :=
  modify fun s => (s.warn text).withStatus status

def print (text : List Char) : Action Unit := modify fun s => s.print text

def printLine (text : String) : Action Unit := print (text.toList ++ ['\n'])

def number (word : String) : Action Nat :=
  match Text.natural? word.toList with
  | some n => pure n
  | none => Action.die ("Illegal number: " ++ word)

/-- An operand that is no option, without the end of options. -/
def dropDashes : List String → List String
  | "--" :: rest => rest
  | args => args

/-! ## Printing -/

def printChecked (name : String) (text : List Char) : Action Unit := do
  if ((← get).channel? 1).isNone then warn (name ++ ": I/O error") 1
  else print text

def echo : Builtin := fun args => do
  let text :=
    match (← get).dialect with
    | .plain => Format.echoShell args
    | .extended => Format.echoProgram args
  printChecked "echo" text

def printf : Builtin := fun args => do
  match dropDashes args with
  | [] => Action.die "usage: printf format [arg ...]"
  | format :: args =>
      let printed := Format.print .shell format args
      printChecked "printf" printed.text.reverse
      for complaint in printed.complaints do
        warn complaint printed.status
      if ((← get).channel? 1).isSome then setStatus printed.status

/-! ## Conditions -/

def test (inBrackets : Bool) : Builtin := fun args => do
  if inBrackets && args.getLast? ≠ some "]" then Action.die "missing ]"
  let args := if inBrackets then args.dropLast else args
  match Condition.holds (← get).world.files args with
  | .ok holds => setStatus (if holds then 0 else 1)
  | .error complaint => Action.die complaint

/-! ## Directories -/

def setDirectory (place : Place) : Action Unit := do
  let s ← get
  let old := (s.value? "PWD").getD ""
  let files := { s.world.files with cwd := place }
  let s := { s with world := { s.world with files := files } }
  set ((s.put "OLDPWD" old).put "PWD" (Octet.ofText ("/" ++ String.intercalate "/" place)))

def cd : Builtin := fun args => do
  let args := dropDashes (args.filter fun a => a ≠ "-P" && a ≠ "-L")
  let s ← get
  let target :=
    match args with
    | [] => (s.value? "HOME").getD ""
    | "-" :: _ => (s.value? "OLDPWD").getD ""
    | path :: _ => path
  if target.isEmpty then return
  match s.world.files.resolve (Octet.toText target) with
  | some place =>
      if System.isDirectory s.world.files target then
        setDirectory place
        if args = ["-"] then
          printLine (((← get).value? "PWD").getD "")
      else Action.die ("can't cd to " ++ target)
  | none => Action.die ("can't cd to " ++ target)

def pwd : Builtin := fun _ => do
  printLine (Octet.ofText ("/" ++ String.intercalate "/" (← get).world.files.cwd))

/-! ## Variables -/

def nameAndValue (arg : String) : String × Option String :=
  match Text.cutAt (· == '=') arg.toList with
  | some (name, value) => (String.ofList name, some (String.ofList value))
  | none => (arg, none)

def quotedValue (value : String) : String :=
  "'" ++ String.join (value.toList.map fun c => if c = '\'' then "'\"'\"'" else String.ofList [c])
    ++ "'"

def markVariables (command : String) (mark : Variable → Variable) (isMarked : Variable → Bool) :
    Builtin := fun args => do
  let args := dropDashes args
  if args.isEmpty || args = ["-p"] then
    let found := (← get).bindings.filter fun (_, v) => isMarked v
    for (name, v) in found.mergeSort fun a b => Files.nameLe a.1 b.1 do
      printLine (command ++ " " ++ name ++ (match v.value with
        | some value => "=" ++ quotedValue value
        | none => ""))
  else
    for arg in args do
      let (name, value) := nameAndValue arg
      if !isName name.toList then Action.die (name ++ ": bad variable name")
      if let some value := value then Action.assign name value
      modify fun s =>
        s.setVariable name (mark ((s.binding? name).getD ⟨none, false, false⟩))

def export_ : Builtin :=
  markVariables "export" (fun v => { v with isExported := true }) (·.isExported)

def readonly : Builtin :=
  markVariables "readonly" (fun v => { v with isReadOnly := true }) (·.isReadOnly)

def unset : Builtin := fun args => do
  let ofFunctions := args.head? = some "-f"
  let args := args.filter fun a => a ≠ "-f" && a ≠ "-v"
  for name in args do
    if ofFunctions then
      modify fun s => { s with functions := s.functions.filter (·.1 ≠ name) }
    else
      if (← get).isReadOnly name then Action.die (name ++ ": is read only")
      modify fun s => s.dropVariable name

def local_ : Builtin := fun args => do
  match (← get).locals with
  | [] => Action.die "not in a function"
  | _ =>
      for arg in args do
        let (name, value) := nameAndValue arg
        modify fun s =>
          let saved := (name, s.binding? name)
          { s with locals := s.locals.modifyHead fun frame =>
              if (frame.lookup name).isSome then frame else saved :: frame }
        if let some value := value then Action.assign name value

/-- A line that was read: its characters, how many octets it took, and whether it had
its end. -/
structure LineRead where
  marks : List Atom
  consumed : Nat
  isEnded : Bool

/-- Read a line; a backslash quotes the next character unless all are plain. -/
def spanLine (isPlain : Bool) : Nat → List Char → LineRead
  | 0, _ => ⟨[], 0, false⟩
  | _, [] => ⟨[], 0, false⟩
  | fuel + 1, c :: rest =>
      let add (marks : List Atom) (count : Nat) (rest : List Char) : LineRead :=
        let line := spanLine isPlain fuel rest
        { line with marks := marks ++ line.marks, consumed := line.consumed + count }
      if c = '\n' then ⟨[], 1, true⟩
      else if c = '\\' && !isPlain then
        match rest with
        | [] => ⟨[], 1, false⟩
        | '\n' :: rest => add [] 2 rest
        | d :: rest => add [.char ⟨d, true⟩ false] 2 rest
      else add [.char ⟨c, false⟩ true] 1 rest

def spanField (separators : List Char) (atoms : List Atom) : List Char × List Atom :=
  let isSeparator : Atom → Bool
    | .char m splits => splits && !m.isQuoted && separators.contains m.char
    | _ => false
  let isBlank : Atom → Bool
    | .char m splits => splits && !m.isQuoted && separators.contains m.char && Octet.isSpace m.char
    | _ => false
  let atoms := atoms.dropWhile isBlank
  let field := atoms.takeWhile fun a => !isSeparator a
  let rest := (atoms.drop field.length).dropWhile isBlank
  let rest :=
    match rest with
    | a :: after =>
        if isSeparator a && !isBlank a then after.dropWhile isBlank else rest
    | [] => []
  ((Atom.marks field).map (·.char), rest)

/-- Give names to the fields of a line; the last name gets what is left. -/
def nameFields (separators : List Char) : List String → List Atom → Action Unit
  | [], _ => pure ()
  | [name], atoms => do
      let (field, rest) := spanField separators atoms
      if rest.isEmpty then Action.assign name (String.ofList field)
      else
        let isBlank : Atom → Bool
          | .char m splits =>
              splits && !m.isQuoted && separators.contains m.char && Octet.isSpace m.char
          | _ => false
        let kept := ((atoms.dropWhile isBlank).reverse.dropWhile isBlank).reverse
        Action.assign name (String.ofList ((Atom.marks kept).map (·.char)))
  | name :: names, atoms => do
      let (field, rest) := spanField separators atoms
      Action.assign name (String.ofList field)
      nameFields separators names rest

def read : Builtin := fun args => do
  let isPlain := args.contains "-r"
  let names :=
    match args with
    | "-r" :: "-p" :: _ :: names => names
    | "-p" :: _ :: names => names.filter (· ≠ "-r")
    | _ => args.filter (· ≠ "-r")
  if names.isEmpty then Action.die "arg count"
  let s ← get
  let line := spanLine isPlain (s.input.length + 1) s.input
  set (s.advanceInput line.consumed)
  nameFields s.separators names line.marks
  setStatus (if line.isEnded then 0 else 1)

/-! ## Arguments and options -/

def shift : Builtin := fun args => do
  let n ←
    match args with
    | [] => pure 1
    | word :: _ => number word
  let s ← get
  if s.args.length < n then Action.die "can't shift that many"
  set { s with args := s.args.drop n, optionPlace := 0 }

def isOption (c : Char) : Bool := optionNames.any fun o => o.2 = c && c ≠ ' '

def setOption (isOn : Bool) (c : Char) (s : State) : State :=
  let others := s.options.filter (· ≠ c)
  { s with options := if isOn then others ++ [c] else others }

/-- Set options from letters; what is wrong is named as it was written. -/
def setLetters (isOn : Bool) : List Char → Action Unit
  | [] => pure ()
  | c :: rest => do
      if !isOption c then
        Action.die ("Illegal option " ++ (if isOn then "-" else "+") ++ String.ofList [c])
      modify (setOption isOn c)
      setLetters isOn rest

def printOptions : Action Unit := do
  printLine "Current option settings"
  for (name, c) in optionNames do
    let padding := String.ofList (List.replicate (16 - name.length) ' ')
    printLine (name ++ padding ++ (if (← get).has c then "on" else "off"))

def setNamed (isOn : Bool) (name : String) : Action Unit :=
  match optionNames.lookup name with
  | some c => modify (setOption isOn c)
  | none => Action.die ("Illegal option " ++ (if isOn then "-o " else "+o ") ++ name)

/-- Set options from arguments, and give the arguments after them and whether they were
ended. -/
def setOptions : Nat → List String → Action (List String × Bool)
  | 0, args => pure (args, false)
  | _, [] => pure ([], false)
  | fuel + 1, arg :: rest => do
      match arg.toList with
      | ['-'] =>
          modify fun s => setOption false 'x' (setOption false 'v' s)
          return (rest, false)
      | ['-', '-'] => return (rest, true)
      | sign :: letters =>
          if sign ≠ '-' && sign ≠ '+' then return (arg :: rest, false)
          let isOn := sign = '-'
          if letters.getLast? = some 'o' then
            setLetters isOn letters.dropLast
            match rest with
            | name :: rest => do
                setNamed isOn name
                setOptions fuel rest
            | [] => do
                printOptions
                return ([], false)
          else
            setLetters isOn letters
            setOptions fuel rest
      | [] => return (arg :: rest, false)

def set_ : Builtin := fun args => do
  if args.isEmpty then
    for (name, v) in (← get).bindings.mergeSort fun a b => Files.nameLe a.1 b.1 do
      if let some value := v.value then printLine (name ++ "=" ++ quotedValue value)
  else
    let (rest, isEnded) ← setOptions (args.length + 1) args
    if isEnded || !rest.isEmpty then
      modify fun s => { s with args := rest, optionPlace := 0 }

/-- One step through options: the next letter and what is left of its word. -/
def nextOption (args : List String) (index place : Nat) : Option (Char × List Char × Nat) :=
  let current := if index ≤ 1 || place = 0 then [] else
    ((args.drop (index - 2)).headD "").toList.drop place
  match current with
  | c :: rest => some (c, rest, index)
  | [] =>
      match ((args.drop (index - 1)).headD "").toList with
      | '-' :: '-' :: [] => none
      | '-' :: c :: rest => some (c, rest, index + 1)
      | _ => none

def getopts : Builtin := fun args => do
  match args with
  | letters :: name :: rest => do
      let s ← get
      let words := if rest.isEmpty then s.args else rest
      let index := ((s.value? "OPTIND").bind fun w => Text.natural? w.toList).getD 1
      let isQuiet := letters.startsWith ":"
      let finish (c : Char) (index place status : Nat) : Action Unit := do
        Action.assign "OPTIND" (Text.decimal index)
        Action.assign name (String.ofList [c])
        modify fun s => { s with optionPlace := place, status := status }
      match nextOption words index (if index ≤ 1 then 0 else s.optionPlace) with
      | none =>
          let skips := (words.drop (index - 1)).head? = some "--"
          finish '?' (if skips then index + 1 else index) 0 1
      | some (c, left, index) =>
          let place :=
            if left.isEmpty then 0
            else ((words.drop (index - 2)).headD "").length - left.length
          match (letters.toList.dropWhile (· ≠ c)).drop 1, c ≠ ':' && letters.toList.contains c with
          | _, false =>
              if isQuiet then Action.assign "OPTARG" (String.ofList [c])
              else
                modify fun s => (s.writeTo 2
                  ("Illegal option -" ++ String.ofList [c] ++ "\n").toList).dropVariable "OPTARG"
              finish '?' index place 0
          | ':' :: _, true =>
              if !left.isEmpty then
                Action.assign "OPTARG" (String.ofList left)
                finish c index 0 0
              else
                match words.drop (index - 1) with
                | value :: _ =>
                    Action.assign "OPTARG" value
                    finish c (index + 1) 0 0
                | [] =>
                    if isQuiet then
                      Action.assign "OPTARG" (String.ofList [c])
                      finish ':' index 0 0
                    else
                      modify fun s => (s.writeTo 2
                        ("No arg for -" ++ String.ofList [c] ++ " option\n").toList).dropVariable
                          "OPTARG"
                      finish '?' index 0 0
          | _, true =>
              Action.assign "OPTARG" ""
              finish c index place 0
  | _ => Action.die "Usage: getopts optstring var [arg]"

/-! ## Leaving -/

def statusOf (args : List String) : Action Nat := do
  match args with
  | [] => return (← get).status
  | word :: _ => return (← number word) % 256

def exit : Builtin := fun args => do
  let status ← statusOf args
  modify fun s => (s.withStatus status).leave .exiting

def return_ : Builtin := fun args => do
  let status ←
    match args with
    | [] => pure (← get).status
    | word :: _ => number word
  modify fun s => (s.withStatus status).leave .returning

def loopControl (isBreak : Bool) : Builtin := fun args => do
  let n ←
    match args with
    | [] => pure 1
    | word :: _ => number word
  if n = 0 then Action.die ("Illegal number: " ++ args.headD "")
  let levels := min n (← get).loops
  if levels > 0 then
    modify fun s => s.leave (if isBreak then .breaking levels else .continuing levels)

/-! ## Signals -/

def killUsage : String :=
  "Usage: kill [-s sigspec | -signum | -sigspec] [pid | job]... or\nkill -l [exitstatus]"

def signalShell (signal pid : Nat) : Action Unit := do
  let s ← get
  let name := ((Signal.find? signal).map (·.name)).getD ""
  match s.traps.lookup name with
  | some "" => pure ()
  | some _ =>
      if pid = s.pid && signal ≠ 9 then set { s with pending := s.pending ++ [name] }
      else set (s.leave (.killed signal pid))
  | none => if Signal.isFatal signal then set (s.leave (.killed signal pid))

def sendSignal (signal : Nat) (target : String) : Action Unit := do
  let s ← get
  let isGroup := target.startsWith "-" || target = "0"
  match Text.natural? (if target.startsWith "-" then target.toList.drop 1 else target.toList) with
  | none =>
      if target.startsWith "%" then warn ("No such job: " ++ target) 1
      else Action.die ("Illegal number: " ++ target)
  | some pid =>
      if isGroup || pid = s.pid || pid = s.owner || pid = s.parent then
        signalShell signal (if isGroup then 0 else pid)
      else
        match s.jobs.find? fun j => j.pid = pid && s.world.clock < j.finish with
        | some job =>
            if Signal.isFatal signal then
              let ended := { job with
                status := 128 + signal
                endedBy := some signal
                finish := s.world.clock
                late := .none }
              set { s with
                jobs := s.jobs.map fun (j : BackgroundJob) => if j.pid = pid then ended else j }
        | none => warn "No such process\n" 1

def kill : Builtin := fun args => do
  let send (signal : Nat) (targets : List String) : Action Unit := do
    if targets.isEmpty then Action.die killUsage
    for target in targets do
      sendSignal signal target
  let named (name : String) (targets : List String) : Action Unit :=
    match Signal.number? name with
    | some n => send n targets
    | none => Action.die ("invalid signal number or name: " ++ name)
  match args with
  | [] => Action.die killUsage
  | "-l" :: [] =>
      printLine "0"
      for signal in Signal.all do printLine signal.name
  | "-l" :: word :: _ =>
      let n ← number word
      let n := if 128 < n then n - 128 else n
      match Signal.find? n with
      | some signal => printLine signal.name
      | none => Action.die ("invalid signal number or name: " ++ word)
  | "-s" :: name :: targets => named name (dropDashes targets)
  | "--" :: targets => send 15 targets
  | arg :: targets =>
      match arg.toList with
      | '-' :: 's' :: name =>
          if (Signal.number? (String.ofList ('s' :: name))).isSome then
            named (String.ofList ('s' :: name)) (dropDashes targets)
          else named (String.ofList name) (dropDashes targets)
      | '-' :: c :: name =>
          match Signal.number? (String.ofList (c :: name)) with
          | some n => send n (dropDashes targets)
          | none => Action.die ("Illegal option -" ++ String.ofList [c])
      | _ => send 15 args

def trap : Builtin := fun args => do
  let args := dropDashes args
  let forSignals (action : Option String) (names : List String) : Action Unit := do
    for name in names do
      match Signal.number? name with
      | none =>
          modify fun s => (s.writeTo 2 ("trap: " ++ name ++ ": bad trap\n").toList).withStatus 1
      | some n =>
          let name := ((Signal.find? n).map (·.name)).getD "EXIT"
          modify fun s =>
            let others := s.traps.filter (·.1 ≠ name)
            { s with traps := match action with
                | some text => others ++ [(name, text)]
                | none => others }
  match args with
  | [] =>
      for (name, text) in (← get).traps do
        printLine ("trap -- " ++ quotedValue text ++ " " ++ name)
  | [name] => forSignals none [name]
  | "-" :: names => forSignals none names
  | action :: names =>
      if (Text.natural? action.toList).isSome then forSignals none args
      else forSignals (some action) names

def wait : Builtin := fun args => do
  let waitFor (job : BackgroundJob) : Action Unit :=
    Action.ofStep fun s => s.wait (job.finish - s.world.clock)
  match args with
  | [] =>
      for job in (← get).jobs do
        waitFor job
      modify fun s => { s with jobs := [], status := 0 }
  | _ =>
      for word in args do
        let pid ← number (if word.startsWith "%" then "0" else word)
        match (← get).jobs.find? (·.pid = pid) with
        | none => setStatus 127
        | some job =>
            waitFor job
            let s ← get
            set ((s.describeSignal job.endedBy).withStatus job.status)

/-! ## Others -/

def umask : Builtin := fun args => do
  match args with
  | [] => print (Text.padded 8 4 (← get).umask ++ ['\n'])
  | "-S" :: _ =>
      let mask := (← get).umask
      let rights (shift : Nat) : String :=
        let denied := mask / shift % 8
        String.ofList ([(4, 'r'), (2, 'w'), (1, 'x')].filterMap fun (bit, c) =>
          if denied / bit % 2 = 0 then some c else none)
      printLine ("u=" ++ rights 64 ++ ",g=" ++ rights 8 ++ ",o=" ++ rights 1)
  | word :: _ =>
      match Text.ofDigits 8 0 word.toList with
      | some n => modify fun s => { s with umask := n }
      | none => if (word.toList.head?.map Char.isDigit).getD false then
          Action.die ("Illegal number: " ++ word)

def alias_ : Builtin := fun args => do
  let showAlias (name text : String) : Action Unit :=
    printLine (name ++ "=" ++ quotedValue text)
  if args.isEmpty then
    for (name, text) in (← get).aliases do showAlias name text
  else
    for arg in args do
      match nameAndValue arg with
      | (name, some text) =>
          modify fun s =>
            { s with aliases := s.aliases.filter (·.1 ≠ name) ++ [(name, text)] }
      | (name, none) =>
          match (← get).aliases.lookup name with
          | some text => showAlias name text
          | none =>
              modify fun s =>
                (s.writeTo 2 ("alias: " ++ name ++ " not found\n").toList).withStatus 1

def unalias : Builtin := fun args => do
  if args = ["-a"] then modify fun s => { s with aliases := [] }
  else
    for name in args do
      if ((← get).aliases.lookup name).isNone then
        modify fun s => (s.writeTo 2 ("unalias: " ++ name ++ " not found\n").toList).withStatus 1
      modify fun s => { s with aliases := s.aliases.filter (·.1 ≠ name) }

def hash : Builtin := fun args => do
  if args = ["-r"] then modify fun s => { s with tracked := [] }
  else
    for (_, path) in (← get).tracked do printLine path

def times : Builtin := fun _ => print "0m0.000000s 0m0.000000s\n0m0.000000s 0m0.000000s\n".toList

def ulimit : Builtin := fun args => do
  if args.all fun a => a.startsWith "-" then printLine "unlimited"

end Builtin

def builtins : List (String × Builtin) := [
  (":", fun _ => pure ()),
  ("true", fun _ => pure ()),
  ("false", fun _ => Builtin.setStatus 1),
  ("echo", Builtin.echo),
  ("printf", Builtin.printf),
  ("test", Builtin.test false),
  ("[", Builtin.test true),
  ("cd", Builtin.cd),
  ("chdir", Builtin.cd),
  ("pwd", Builtin.pwd),
  ("export", Builtin.export_),
  ("readonly", Builtin.readonly),
  ("unset", Builtin.unset),
  ("local", Builtin.local_),
  ("read", Builtin.read),
  ("shift", Builtin.shift),
  ("set", Builtin.set_),
  ("getopts", Builtin.getopts),
  ("exit", Builtin.exit),
  ("return", Builtin.return_),
  ("break", Builtin.loopControl true),
  ("continue", Builtin.loopControl false),
  ("kill", Builtin.kill),
  ("trap", Builtin.trap),
  ("wait", Builtin.wait),
  ("umask", Builtin.umask),
  ("times", Builtin.times),
  ("ulimit", Builtin.ulimit),
  ("alias", Builtin.alias_),
  ("unalias", Builtin.unalias),
  ("hash", Builtin.hash),
  ("jobs", fun _ => pure ()),
  ("bg", fun _ => pure ()),
  ("fg", fun _ => pure ())]

def runners : List String := ["eval", ".", "exec", "command", "type"]

end Shell
end Execution
end BitEquiv

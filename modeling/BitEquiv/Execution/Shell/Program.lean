import BitEquiv.Execution.Utility.Catalog
import BitEquiv.Execution.Shell.Builtin
import BitEquiv.Execution.Shell.Grammar

/-!
# Programs by their names

What the name of a command stands for besides functions and commands of the shell, and
how the programs that start other ones read their arguments.
-/

namespace BitEquiv
namespace Execution
namespace Shell

open Text (Octet.ofBytes Octet.toText)

inductive Found where
  | program (name : String)
  | script (path : String)
  | denied
  | missing

def State.fileText (s : State) (path : String) : List Char :=
  Octet.ofBytes ((s.world.files.read? (Octet.toText path)).getD [])

/-- The program that a script names in its first line, and the argument that it gives
it. -/
def interpreter? (text : List Char) : Option (List String) :=
  match text with
  | '#' :: '!' :: rest =>
      let isBlank (c : Char) : Bool := c = ' ' || c = '\t'
      let line := (rest.takeWhile (· ≠ '\n')).dropWhile isBlank
      let line := (line.reverse.dropWhile isBlank).reverse
      let (program, rest) := line.span fun c => !isBlank c
      let argument := rest.dropWhile isBlank
      let words := if argument.isEmpty then [program] else [program, argument]
      if program.isEmpty then none else some (words.map String.ofList)
  | _ => none

def findAt (s : State) (path : String) : Found :=
  match System.programAt? path with
  | some name => .program name
  | none =>
      match System.kind? s.world.files path with
      | none => .missing
      | some (.file _) =>
          if !System.isStartable s.world.files path then .denied
          else
            match interpreter? (s.fileText path) with
            | some (program :: _) =>
                if (System.kind? s.world.files program).isSome then .script path else .missing
            | _ => .script path
      | some _ => .denied

def searchPath (s : State) : List String := ((s.value? "PATH").getD "").splitOn ":"

def findProgram (s : State) (name : String) : Found :=
  if name.toList.contains '/' then findAt s name
  else
    let found := (searchPath s).map fun dir => findAt s (joinPath dir name)
    let usable := found.find? fun
      | .program _ => true
      | .script _ => true
      | _ => false
    usable.getD .missing

def pathOfProgram (s : State) (name : String) : Option String :=
  if name.toList.contains '/' then
    match findAt s name with
    | .program _ => some name
    | .script _ => some name
    | _ => none
  else
    let paths := (searchPath s).map fun dir => joinPath dir name
    paths.find? fun path =>
      match findAt s path with
      | .program _ => true
      | .script _ => true
      | _ => false

def isBuiltin (name : String) : Bool := (builtins.lookup name).isSome || runners.contains name

def State.track (s : State) (name : String) : State :=
  if name.toList.contains '/' || (s.tracked.lookup name).isSome then s
  else
    match pathOfProgram s name with
    | some path => { s with tracked := s.tracked ++ [(name, path)] }
    | none => s

/-- Say what a name stands for: in words, or in the form in which it is called. -/
def describe (inWords : Bool) (s : State) (name : String) : State :=
  let found (kind : String) (callable : String) : State :=
    s.print ((if inWords then name ++ " is " ++ kind else callable) ++ "\n").toList
  if let some text := s.aliases.lookup name then
    found ("an alias for " ++ text) ("alias " ++ name ++ "=" ++ Builtin.quotedValue text)
  else if keywords.contains name then found "a shell keyword" name
  else if (s.functions.lookup name).isSome then found "a shell function" name
  else if specialBuiltins.contains name then found "a special shell builtin" name
  else if isBuiltin name then found "a shell builtin" name
  else
    match pathOfProgram s name with
    | some path =>
        if (s.tracked.lookup name).isSome then found ("a tracked alias for " ++ path) path
        else (found path path).track name
    | none =>
        if inWords then (s.print (name ++ ": not found\n").toList).withStatus 127
        else s.withStatus 127

/-- A command without the words in front that say that it is no function, and whether
there were such words. -/
def dropPlainMarks : Bool → List String → Bool × List String
  | isPlain, "command" :: "-p" :: word :: rest =>
      if word.startsWith "-" then (isPlain, "command" :: word :: rest)
      else dropPlainMarks true (word :: rest)
  | _, "command" :: "--" :: word :: rest => dropPlainMarks true (word :: rest)
  | isPlain, "command" :: word :: rest =>
      if word.startsWith "-" then (isPlain, "command" :: word :: rest)
      else dropPlainMarks true (word :: rest)
  | isPlain, words => (isPlain, words)
termination_by _ words => words.length

def runUtility (u : Utility) (name : String) (args : List String) (s : State) : State :=
  let input := s.input
  let isFile :=
    match s.channel? 0 with
    | some id =>
        match s.world.channel id with
        | .file .. => true
        | _ => false
    | none => false
  let j := u ⟨name, args, input, isFile, s.environment, s.world.files, [], 0, 0⟩
  let s := s.advanceInput (input.length - j.input.length)
  let s := { s with world := { s.world with files := j.files } }
  let s := j.outputs.reverse.foldl
    (fun s o => s.writeTo (if o.isError then 2 else 1) o.text) s
  (s.withStatus j.status).wait j.elapsedMs

/-! ## Options of programs that start others -/

/-- The options with which a shell is started: their letters, the names after `o`, and
the arguments after all of them. -/
structure ShellOptions where
  letters : List Char
  names : List String
  rest : List String

def ShellOptions.ofArgs : List String → ShellOptions
  | [] => ⟨[], [], []⟩
  | [arg] =>
      match arg.toList with
      | ['-'] | ['-', '-'] => ⟨[], [], []⟩
      | '-' :: letters => ⟨letters, [], []⟩
      | '+' :: _ => ⟨[], [], []⟩
      | _ => ⟨[], [], [arg]⟩
  | arg :: next :: rest =>
      match arg.toList with
      | ['-'] | ['-', '-'] => ⟨[], [], next :: rest⟩
      | '-' :: letters =>
          if letters.contains 'o' then
            let found := ofArgs rest
            { found with
              letters := letters.filter (· ≠ 'o') ++ found.letters
              names := next :: found.names }
          else
            let found := ofArgs (next :: rest)
            { found with letters := letters ++ found.letters }
      | '+' :: _ => ofArgs (next :: rest)
      | _ => ⟨[], [], arg :: next :: rest⟩

def spanSettings : List String → List (String × String) × List String
  | [] => ([], [])
  | word :: rest =>
      match Builtin.nameAndValue word with
      | (name, some value) =>
          let (pairs, rest) := spanSettings rest
          ((name, value) :: pairs, rest)
      | _ => ([], word :: rest)

/-- Arguments split at blanks, with quotes and backslashes that keep them together. -/
def quotedWords : Nat → Option (List Char) → List Char → List String
  | 0, current, _ => (current.map fun w => String.ofList w.reverse).toList
  | _, current, [] => (current.map fun w => String.ofList w.reverse).toList
  | fuel + 1, current, c :: rest =>
      if Text.Octet.isSpace c then
        match current with
        | some w => String.ofList w.reverse :: quotedWords fuel none rest
        | none => quotedWords fuel none rest
      else if c = '\'' || c = '"' then
        let inner := rest.takeWhile (· ≠ c)
        quotedWords fuel (some (inner.reverse ++ current.getD [])) (rest.drop (inner.length + 1))
      else if c = '\\' then
        quotedWords fuel (some ((rest.headD '\\') :: current.getD [])) (rest.drop 1)
      else quotedWords fuel (some (c :: current.getD [])) rest

/-- The commands that arguments from a text make, with the letters of options. -/
def xargsCommands (p : Job.Parsed) (command : List String) (text : List Char) :
    List (List String) :=
  let command := if command.isEmpty then ["echo"] else command
  let lines := (Text.splitBy (· == '\n') text).filter fun l => !l.isEmpty
  let words :=
    if p.has '0' then
      ((Text.splitBy (·.toNat == 0) text).filter fun l => !l.isEmpty).map String.ofList
    else
      match p.last? 'd' with
      | some d =>
          ((Text.splitBy (· == d.toList.headD '\n') text).filter fun l => !l.isEmpty).map
            String.ofList
      | none => quotedWords (text.length + 1) none text
  match p.last? 'I' with
  | some mark =>
      let items := if p.has '0' || p.has 'd' then words else
        lines.map fun l => String.ofList (l.dropWhile Text.Octet.isSpace)
      items.map fun item => command.map fun w => w.replace mark item
  | none =>
      match (p.last? 'n').bind fun n => Text.natural? n.toList with
      | some n => (Utility.chunks (max n 1) (words.length + 1) words).map fun ws => command ++ ws
      | none =>
          if p.has 'L' then lines.map fun l => command ++ quotedWords (l.length + 1) none l
          else if words.isEmpty && p.has 'r' then []
          else [command ++ words]

end Shell
end Execution
end BitEquiv

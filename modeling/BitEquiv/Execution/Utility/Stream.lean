import BitEquiv.Execution.Utility.Edit

/-!
# The stream editor

Lines are read one at a time into a working space, changed by the commands of a script,
and printed. A second space holds text for later.
-/

namespace BitEquiv
namespace Execution
namespace Utility
namespace Edit

open Text (Regex)

/-- An input line: its text, whether it has its line end, and its file. -/
structure Line where
  text : List Char
  hasEnd : Bool
  file : String

/-- The state of an editor. Output is kept in reverse order. A range is known by the
place of its command, with the line where it ends if that is a number. -/
structure Editor where
  job : Job
  coming : List Line
  space : List Char
  hasEnd : Bool
  held : List Char
  number : Nat
  file : String
  queue : List (List Char)
  ranges : List (Nat × Option Nat)
  lastRegex : Option (Regex × Bool)
  hasChanged : Bool
  output : List Char
  lacksEnd : Bool
  written : List (String × List Char)
  ended : Option Nat

/-- What comes after a command: the one at a place, the next line, or the same working
space again; whether the space is printed before the next line. -/
inductive Onward where
  | go (place : Nat)
  | cycle (prints : Bool)
  | again

namespace Editor

def isLast (e : Editor) : Bool := e.coming.isEmpty

def emit (e : Editor) (text : List Char) : Editor :=
  let before := if e.lacksEnd then '\n' :: e.output else e.output
  { e with output := text.reverse ++ before, lacksEnd := false }

/-- Print a line, whose end is left out where its input had none. -/
def emitLine (e : Editor) (text : List Char) : Editor :=
  if e.hasEnd then e.emit (text ++ ['\n']) else { e.emit text with lacksEnd := true }

def flush (e : Editor) : Editor :=
  { e.queue.foldl emit e with queue := [] }

def writeFile (e : Editor) (path : String) (text : List Char) : Editor :=
  if path = "/dev/stdout" then e.emit text
  else if path = "/dev/stderr" then { e with job := e.job.printError (String.ofList text) }
  else
    let old := (e.written.lookup path).getD []
    { e with written := (path, old ++ text) :: e.written.filter (·.1 ≠ path) }

def readLine (e : Editor) : Editor :=
  match e.coming with
  | [] => e
  | l :: rest =>
      { e with
        coming := rest
        space := l.text
        hasEnd := l.hasEnd
        file := l.file
        number := e.number + 1 }

def use (e : Editor) (r : Option Regex) (ignoresCase : Bool) : Option (Regex × Bool) × Editor :=
  match r with
  | some r => (some (r, ignoresCase), { e with lastRegex := some (r, ignoresCase) })
  | none => (e.lastRegex, e)

def isAt (e : Editor) : Address → Bool × Editor
  | .line n => (e.number = n, e)
  | .every first step =>
      (if step = 0 then e.number = first
        else first ≤ e.number && (e.number - first) % step = 0, e)
  | .last => (e.isLast, e)
  | .matching r ignoresCase =>
      let (found, e) := e.use r ignoresCase
      (match found with
        | some (r, ignoresCase) => (r.search ignoresCase e.space 0).isSome
        | none => false, e)

def closeRange (e : Editor) (place : Nat) : Editor :=
  { e with ranges := e.ranges.filter (·.1 ≠ place) }

def openRange (e : Editor) (place : Nat) (stop : Option Nat) : Editor :=
  { e with ranges := (place, stop) :: e.ranges }

def selects (e : Editor) (place : Nat) (c : Command) : Bool × Editor :=
  match c.first, c.stop with
  | none, _ => (true, e)
  | some a, none => e.isAt a
  | some a, some stop =>
      match e.ranges.lookup place with
      | some (some n) =>
          (e.number ≤ n, if n ≤ e.number then e.closeRange place else e)
      | some none =>
          match stop with
          | .address b =>
              let (isEnd, e) := e.isAt b
              (true, if isEnd then e.closeRange place else e)
          | _ => (true, e)
      | none =>
          let (starts, e) := e.isAt a
          if !starts then (false, e)
          else
            let upTo (n : Nat) : Editor :=
              if n ≤ e.number then e else e.openRange place (some n)
            match stop with
            | .address (.line n) => (true, upTo n)
            | .address .last => (true, if e.isLast then e else e.openRange place none)
            | .address _ => (true, e.openRange place none)
            | .after count => (true, upTo (e.number + count))
            | .multiple n =>
                (true, if n = 0 then e else upTo ((e.number + n - 1) / n * n))

/-! ## Substitution -/

/-- How the letters of a replacement are changed: all of them, and the next one. -/
structure Casing where
  all : Option Char
  one : Option Char

def cased (letter : Option Char) (c : Char) : Char :=
  match letter with
  | some 'U' | some 'u' => c.toUpper
  | some 'L' | some 'l' => c.toLower
  | _ => c

def Casing.apply (k : Casing) : List Char → List Char × Casing
  | [] => ([], k)
  | c :: rest =>
      let c := if k.one.isSome then cased k.one c else cased k.all c
      (c :: rest.map (cased k.all), { k with one := none })

def replacement (text : List Char) (m : Regex.Match) (parts : List Part) : List Char :=
  (parts.foldl
    (fun (out, k) part =>
      match part with
      | .casing letter =>
          if letter = 'u' || letter = 'l' then (out, { k with one := some letter })
          else if letter = 'E' then (out, ⟨none, none⟩)
          else (out, { k with all := some letter })
      | .char c =>
          let (t, k) := k.apply [c]
          (out ++ t, k)
      | .group n =>
          let (t, k) := k.apply (m.group text n)
          (out ++ t, k))
    (([], ⟨none, none⟩) : List Char × Casing)).1

/-- Replace matches from a place on. An empty match just after another one does not
count. -/
def replaceFrom (s : Substitution) (r : Regex) (ignoresCase : Bool) (text : List Char) :
    Nat → (start count : Nat) → (afterMatch : Bool) → List Char × Bool
  | 0, start, _, _ => (text.drop start, false)
  | fuel + 1, start, count, afterMatch =>
      match r.search ignoresCase text start with
      | none => (text.drop start, false)
      | some m =>
          let between := (text.take m.start).drop start
          let isEmpty := m.stop = m.start
          let skipped := if isEmpty then (text.drop m.stop).take 1 else []
          let next := if isEmpty then m.stop + 1 else m.stop
          let isOver := text.length < next
          let go (shown : List Char) (count : Nat) (changed : Bool) : List Char × Bool :=
            if isOver then (between ++ shown ++ skipped, changed)
            else
              let (rest, more) := replaceFrom s r ignoresCase text fuel next count (!isEmpty)
              (between ++ shown ++ skipped ++ rest, changed || more)
          if isEmpty && afterMatch && m.start = start then go [] count false
          else
            let count := count + 1
            if count < s.number then go (m.group text 0) count false
            else if s.isGlobal then go (replacement text m s.parts) count true
            else (between ++ replacement text m s.parts ++ text.drop m.stop, true)

def substitute (e : Editor) (s : Substitution) : Editor :=
  let (found, e) := e.use s.regex s.ignoresCase
  match found with
  | none => e
  | some (r, ignoresCase) =>
      let (text, changed) :=
        replaceFrom s r (ignoresCase || s.ignoresCase) e.space (e.space.length + 2) 0 0 false
      if !changed then e
      else
        let e := { e with space := text, hasChanged := true }
        let e := if s.prints then e.emitLine e.space else e
        match s.file with
        | some path => e.writeFile path (e.space ++ ['\n'])
        | none => e

/-! ## Commands -/

/-- A text with all its characters visible, on lines of a limited length. -/
def listing (text : List Char) : List Char :=
  let shown := text.map fun c =>
    match [('\\', "\\\\"), (Char.ofNat 7, "\\a"), (Char.ofNat 8, "\\b"), (Char.ofNat 12, "\\f"),
        ('\n', "\\n"), ('\r', "\\r"), ('\t', "\\t"), (Char.ofNat 11, "\\v")].lookup c with
    | some t => t.toList
    | none => if ' ' ≤ c && c ≤ '~' then [c] else '\\' :: Text.padded 8 3 c.toNat
  let folded := shown.foldl
    (fun (out, width) piece =>
      if width + piece.length > 69 then (out ++ ['\\', '\n'] ++ piece, piece.length)
      else (out ++ piece, width + piece.length))
    (([], 0) : List Char × Nat)
  folded.1 ++ ['$', '\n']

def isOpen (e : Editor) (place : Nat) : Bool := (e.ranges.lookup place).isSome

def act (quiet : Bool) (labels : List (String × Nat)) (count place : Nat) (c : Command)
    (e : Editor) : Editor × Onward :=
  let next := Onward.go (place + 1)
  let jump (label : String) : Onward := .go ((labels.lookup label).getD count)
  match c.action with
  | .block _ => (e, next)
  | .nothing => (e, next)
  | .lineNumber => (e.emit ((Text.decimal e.number).toList ++ ['\n']), next)
  | .append text => ({ e with queue := e.queue ++ [text] }, next)
  | .insert text => (e.emit text, next)
  | .change text =>
      (if c.isNegated || !e.isOpen place then e.emit text else e, .cycle false)
  | .branch kind label =>
      if kind = 'b' then (e, jump label)
      else if e.hasChanged = (kind == 't') then
        ({ e with hasChanged := false }, jump label)
      else ({ e with hasChanged := false }, next)
  | .delete => (e, .cycle false)
  | .deleteFirst =>
      match Text.cutAt (· == '\n') e.space with
      | some (_, rest) => ({ e with space := rest }, .again)
      | none => (e, .cycle false)
  | .print => (e.emitLine e.space, next)
  | .printFirst => (e.emit (e.space.takeWhile (· ≠ '\n') ++ ['\n']), next)
  | .next =>
      if e.isLast then ({ e with ended := some 0 }, .cycle true)
      else
        let e := if quiet then e else e.emitLine e.space
        (e.flush.readLine, next)
  | .joinNext =>
      if e.isLast then ({ e with ended := some 0 }, .cycle true)
      else
        let before := e.space
        let e := e.flush.readLine
        ({ e with space := before ++ '\n' :: e.space }, next)
  | .quit prints status => ({ e with ended := some status }, .cycle prints)
  | .readFile path =>
      match e.job.read path with
      | .ok text => ({ e with queue := e.queue ++ [text] }, next)
      | .error _ => (e, next)
  | .writeFile path => (e.writeFile path (e.space ++ ['\n']), next)
  | .hold appends =>
      ({ e with held := if appends then e.held ++ '\n' :: e.space else e.space }, next)
  | .recall appends =>
      ({ e with space := if appends then e.space ++ '\n' :: e.held else e.held }, next)
  | .exchange => ({ e with space := e.held, held := e.space }, next)
  | .list => (e.emit (listing e.space), next)
  | .substitute s => (e.substitute s, next)
  | .exchangeChars pairs =>
      ({ e with space := e.space.map fun c => (pairs.lookup c).getD c }, next)
  | .clear => ({ e with space := [] }, next)
  | .fileName => (e.emit (e.file.toList ++ ['\n']), next)

def run (quiet : Bool) (r : Reading) : Nat → Nat → Editor → Editor × Onward
  | 0, _, e => ({ e with ended := some 1 }, .cycle false)
  | fuel + 1, place, e =>
      match r.commands[place]? with
      | none => (e, .cycle true)
      | some c =>
          let (isSelected, e) := e.selects place c
          if isSelected != c.isNegated then
            match e.act quiet r.labels r.commands.length place c with
            | (e, .go place) => run quiet r fuel place e
            | done => done
          else
            match c.action with
            | .block close => run quiet r fuel close e
            | _ => run quiet r fuel (place + 1) e

def cycleFuel : Nat := 20000

/-- Take up lines until there are no more, or a command ends the editor. -/
def cycles (quiet : Bool) (r : Reading) : Nat → (keeps : Bool) → Editor → Editor
  | 0, _, e => e
  | fuel + 1, keeps, e =>
      if !keeps && (e.isLast || e.ended.isSome) then e
      else
        let e := if keeps then e else e.readLine
        let (e, onward) := e.run quiet r cycleFuel 0
        match onward with
        | .again => cycles quiet r fuel true e.flush
        | .cycle prints =>
            let e := if prints && !quiet then e.emitLine e.space else e
            cycles quiet r fuel false { e.flush with hasChanged := false }
        | .go _ => e

end Editor

/-! ## The program -/

def linesIn (file : String) (text : List Char) : List Line :=
  let (lines, endsWell) := Text.wholeLines text
  lines.zipIdx.map fun (line, n) => ⟨line, n + 1 < lines.length || endsWell, file⟩

def Editor.start (r : Reading) (job : Job) (lines : List Line) : Editor :=
  let isFromStart (c : Command) : Bool :=
    match c.first, c.stop with
    | some (.line 0), some _ => true
    | _, _ => false
  let ranges := (r.commands.zipIdx.filter fun (c, _) => isFromStart c).map fun (_, n) =>
    (n, (none : Option Nat))
  ⟨job, lines, [], true, [], 0, "-", [], ranges, none, false, [], false, [], none⟩

def Editor.edit (quiet : Bool) (r : Reading) (e : Editor) : Editor :=
  e.cycles quiet r (2 * (e.coming.length + 1) * 64) false

def writtenPaths (r : Reading) : List String :=
  r.commands.filterMap fun c =>
    match c.action with
    | .writeFile path => some path
    | .substitute s => s.file
    | _ => none

def storeWritten (r : Reading) (e : Editor) (j : Job) : Job :=
  let paths := (writtenPaths r).filter fun path => !path.startsWith "/dev/"
  j.each paths.eraseDups fun j path =>
    match j.write path ((e.written.lookup path).getD []) false with
    | .ok j => j
    | .error fault => j.failWith 4 ("couldn't open file " ++ path ++ ": " ++ fault.text)

def inPlace (quiet : Bool) (r : Reading) (ending : String) (paths : List String) (j : Job) : Job :=
  j.each paths fun j path =>
    match j.read path with
    | .error .isDirectory => j.failWith 4 ("couldn't edit " ++ path ++ ": not a regular file")
    | .error fault => j.failWith 2 ("can't read " ++ path ++ ": " ++ fault.text)
    | .ok text =>
        let e := (Editor.start r j (linesIn path text)).edit quiet r
        let rest := (e.coming.flatMap fun l => l.text ++ (if l.hasEnd then ['\n'] else []))
        let store (path : String) (text : List Char) (j : Job) : Job :=
          (j.write path text false).toOption.getD j
        let j := if ending.isEmpty then j else store (path ++ ending) text j
        storeWritten r e (store path (e.output.reverse ++ rest) j)

def sedFlags : List Job.Flag :=
  Job.switches [('n', "quiet"), ('n', "silent"), ('E', "regexp-extended"), ('r', ""),
    ('s', "separate"), ('u', "unbuffered"), ('z', "null-data"), ('p', "posix")]
  ++ Job.takers [('e', "expression"), ('f', "file"), ('l', "line-length")]
  ++ [⟨'i', "in-place", .perhaps⟩]

def scriptOf (p : Job.Parsed) (j : Job) : Except String (List Char × List String) := do
  let given := p.options.filter fun o => o.1 = 'e' || o.1 = 'f'
  if given.isEmpty then
    match p.operands with
    | [] => throw ""
    | script :: rest => return (script.toList, rest)
  let pieces ← given.mapM fun (letter, value) =>
    if letter = 'e' then .ok value.toList
    else
      match j.readOperand value with
      | .ok text => .ok (if text.getLast? = some '\n' then text.dropLast else text)
      | .error fault => .error ("couldn't open file " ++ value ++ ": " ++ fault.text)
  return (['\n'].intercalate pieces, p.operands)

end Edit

open Edit in
def sed : Utility :=
  Job.withOptions sedFlags 1 fun p j =>
    match scriptOf p j with
    | .error "" =>
        (j.printError ("Usage: " ++ j.name
          ++ " [OPTION]... \x7bscript-only-if-no-other-script\x7d [input-file]...\n")).withStatus 1
    | .error complaint => j.failWith 1 complaint
    | .ok (script, operands) =>
        match parse (p.has 'E' || p.has 'r') script with
        | .error (status, complaint) => j.failWith status complaint
        | .ok r =>
            let isQuiet := p.has 'n' || script = ['#', 'n'] || script.take 3 = ['#', 'n', '\n']
            match p.last? 'i' with
            | some ending =>
                if operands.isEmpty then j.failWith 4 "no input files"
                else inPlace isQuiet r ending operands j
            | none =>
                let operands := if operands.isEmpty then ["-"] else operands
                let start : List (List Line) × Job := ([], j)
                let (found, j) := operands.foldl
                  (fun (found, j) operand =>
                    match j.readOperand operand with
                    | .ok text => (found ++ [linesIn operand text], j.afterRead operand)
                    | .error .isDirectory =>
                        (found, j.failWith 2 ("couldn't read " ++ operand ++ ": Is a directory"))
                    | .error fault =>
                        (found, j.failWith 2 ("can't read " ++ operand ++ ": " ++ fault.text)))
                  start
                let groups := if p.has 's' then found else [found.flatten]
                groups.foldl
                  (fun j lines =>
                    let e := (Editor.start r j lines).edit isQuiet r
                    let j := storeWritten r e (e.job.print e.output.reverse)
                    match e.ended with
                    | some status => if status = 0 then j else j.withStatus status
                    | none => j)
                  j

end Utility
end Execution
end BitEquiv

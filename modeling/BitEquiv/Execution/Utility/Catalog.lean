import BitEquiv.Text.Pattern
import BitEquiv.Execution.Utility.Condition
import BitEquiv.Execution.Utility.Digest
import BitEquiv.Execution.Utility.Lines
import BitEquiv.Execution.Utility.Search
import BitEquiv.Execution.Utility.Stream
import BitEquiv.Execution.Utility.Table
import BitEquiv.Execution.Utility.Tree

/-!
# The catalog of utilities

The remaining small utilities, and the table of all utilities by their names.
-/

namespace BitEquiv
namespace Execution
namespace Utility

open Text (Octet.ofText Octet.toText Pattern wholeLines)
open Job (inQuotes plainComplaint)

/-! ## Printing and asking -/

def echo : Utility := fun j => j.print (Format.echoProgram j.args)

def printf : Utility := fun j =>
  match (if j.args.head? = some "--" then j.args.drop 1 else j.args) with
  | [] => j.misuse 1 "missing operand"
  | format :: args =>
      let printed := Format.print .program format args
      let j := j.print printed.text.reverse
      (printed.complaints.foldl Job.complain j).withStatus printed.status

def test (inBrackets : Bool) : Utility := fun j =>
  if inBrackets && j.args.getLast? ≠ some "]" then j.failWith 2 "missing ']'"
  else
    match Condition.holds j.files (if inBrackets then j.args.dropLast else j.args) with
    | .ok holds => j.withStatus (if holds then 0 else 1)
    | .error complaint => j.failWith 2 complaint

def pwd : Utility := fun j => j.printLine (placePath j.files.cwd)

def printenv : Utility := fun j =>
  let names := j.args.filter fun a => !a.startsWith "-"
  if names.isEmpty then
    j.environment.foldl (fun j (name, value) => j.printLine (name ++ "=" ++ value)) j
  else
    j.each names fun j name =>
      match j.environment.lookup name with
      | some value => j.printLine value
      | none => j.withStatus 1

def duration? (word : String) : Option Nat :=
  match Text.spanDecimal word.toList with
  | none => none
  | some (x, unit) =>
      let factor :=
        match unit with
        | [] | ['s'] => some 1
        | ['m'] => some 60
        | ['h'] => some 3600
        | ['d'] => some 86400
        | _ => none
      factor.bind fun (f : Nat) =>
        if x < 0 then none else some (Text.roundEven (x * f * 1000)).toNat

def sleep : Utility := fun j =>
  match j.args with
  | [] => j.misuse 1 "missing operand"
  | words =>
      match words.find? fun w => (duration? w).isNone with
      | some w =>
          if w = "infinity" || w = "inf" then { j with elapsedMs := 1000000000 }
          else if w.startsWith "-" then
            j.misuse 1 ("invalid option -- '" ++ ((w.drop 1).take 1).toString ++ "'")
          else j.misuse 1 ("invalid time interval " ++ inQuotes w)
      | none => { j with elapsedMs := Text.total (words.map fun w => (duration? w).getD 0) }

def yes : Utility := fun j =>
  let line := String.intercalate " " (if j.args.isEmpty then ["y"] else j.args)
  let text := (List.replicate 8192 (line.toList ++ ['\n'])).flatten
  (j.print text).withStatus 141

def id : Utility := fun j =>
  if j.args.any fun a => a = "-un" || a = "-gn" then j.printLine "root"
  else if j.args.any fun a => a.startsWith "-" then j.printLine "0"
  else j.printLine "uid=0(root) gid=0(root) groups=0(root)"

def uname : Utility := fun j =>
  j.printLine (if j.args = ["-m"] then "x86_64" else "Linux")

/-! ## Blocks of octets -/

/-- The value of an operand of the form `name=value`. -/
def setting? (args : List String) (name : String) : Option String :=
  args.reverse.findSome? fun a =>
    if a.startsWith (name ++ "=") then some (a.drop (name.length + 1)).toString else none

def dd : Utility := fun j =>
  let number (name : String) (default : Nat) : Nat :=
    ((setting? j.args name).bind count?).getD default
  let input := setting? j.args "if"
  match (match input with
    | some path => j.read path
    | none => .ok j.input) with
  | .error fault =>
      j.complain ("failed to open " ++ inQuotes (input.getD "") ++ ": " ++ fault.text)
  | .ok text =>
      let j := if input.isNone then j.afterRead "-" else j
      let size := number "bs" (number "ibs" 512)
      let text := text.drop (size * number "skip" 0)
      let text :=
        if input = some "/dev/zero" then
          List.replicate (size * number "count" 1) (Char.ofNat 0)
        else if (setting? j.args "count").isSome then text.take (size * number "count" 0)
        else text
      let seek := size * number "seek" 0
      let result :=
        match setting? j.args "of" with
        | none => Except.ok (j.print text)
        | some path =>
            let old := (j.read path).toOption.getD []
            let keeps := ((setting? j.args "conv").getD "").startsWith "notrunc"
            let front := sized seek old
            j.write path (front ++ text ++ (if keeps then old.drop (seek + text.length) else []))
              false
      match result with
      | .error fault =>
          j.complain ("failed to open " ++ inQuotes ((setting? j.args "of").getD "") ++ ": "
            ++ fault.text)
      | .ok j =>
          if setting? j.args "status" = some "none" then j
          else
            let records := Text.decimal (text.length / size) ++ "+"
              ++ Text.decimal (if text.length % size = 0 then 0 else 1)
            let size := Text.decimal text.length
            j.printError (records ++ " records in\n" ++ records ++ " records out\n" ++ size
              ++ " bytes copied, 0 s, 0 kB/s\n")

/-! ## Differences -/

/-- The lengths of the longest common subsequences of the ends of two lists, for all
ends of the first and the whole second one, from those of one line less. -/
def commonRow (line : List Char) (ys : List (List Char)) (below : List Nat) : List Nat :=
  (ys.zip (below.zip (below.drop 1))).foldr
    (fun (y, here, next) row =>
      (if y = line then next + 1 else max here (row.headD 0)) :: row)
    [0]

/-- The rows of the table of common subsequences, the first line's row first. -/
def commonRows (ys : List (List Char)) : List (List Char) → List (List Nat)
  | [] => [List.replicate (ys.length + 1) 0]
  | x :: xs =>
      let rows := commonRows ys xs
      commonRow x ys (rows.headD []) :: rows

/-- A run of lines that were taken out at a place or put in at another. -/
structure Hunk where
  oldStart : Nat
  newStart : Nat
  old : List (List Char)
  new : List (List Char)

/-- The hunks between two lists, with the numbers of the lines before them. -/
def hunks : Nat → Nat → Nat → List (List Nat) → List (List Char) → List (List Char) → List Hunk
  | 0, _, _, _, _, _ => []
  | fuel + 1, m, n, rows, xs, ys =>
      let add (old new : List (List Char)) (rest : List Hunk) : List Hunk :=
        match rest with
        | h :: more =>
            if h.oldStart = m + old.length && h.newStart = n + new.length then
              ⟨m, n, old ++ h.old, new ++ h.new⟩ :: more
            else ⟨m, n, old, new⟩ :: rest
        | [] => [⟨m, n, old, new⟩]
      match xs, ys with
      | [], [] => []
      | x :: xs, [] => add [x] [] (hunks fuel (m + 1) n (rows.drop 1) xs [])
      | [], y :: ys => add [] [y] (hunks fuel m (n + 1) (rows.map (·.drop 1)) [] ys)
      | x :: xs, y :: ys =>
          if x = y then
            hunks fuel (m + 1) (n + 1) ((rows.drop 1).map (·.drop 1)) xs ys
          else
            let down := (((rows.drop 1).headD []).headD 0)
            let right := ((rows.headD []).drop 1).headD 0
            if right ≤ down then add [x] [] (hunks fuel (m + 1) n (rows.drop 1) xs (y :: ys))
            else add [] [y] (hunks fuel m (n + 1) (rows.map (·.drop 1)) (x :: xs) ys)

def spanText (start count : Nat) : String :=
  if count ≤ 1 then Text.decimal (start + count)
  else Text.decimal (start + 1) ++ "," ++ Text.decimal (start + count)

def hunkText (h : Hunk) : List Char :=
  let kind := if h.new.isEmpty then "d" else if h.old.isEmpty then "a" else "c"
  let shown (mark : String) (line : List Char) : List Char :=
    if line.getLast? = some '\n' then mark.toList ++ line
    else mark.toList ++ line ++ "\n\\ No newline at end of file\n".toList
  (spanText h.oldStart h.old.length ++ kind ++ spanText h.newStart h.new.length ++ "\n").toList
    ++ h.old.flatMap (shown "< ")
    ++ (if kind = "c" then "---\n".toList else [])
    ++ h.new.flatMap (shown "> ")

def diff : Utility :=
  Job.withOptions
    (Job.switches [('q', "brief"), ('s', "report-identical-files"), ('r', "recursive"), ('u', ""),
      ('w', "ignore-all-space"), ('b', ""), ('i', "ignore-case"), ('N', "new-file"), ('a', "text")])
    2 fun p j =>
      match p.operands with
      | [first, second] =>
          match readBoth j first second 2 with
          | .error j => j
          | .ok (a, b, j) =>
              if a = b then
                if p.has 's' then
                  j.printLine ("Files " ++ first ++ " and " ++ second ++ " are identical")
                else j
              else if p.has 'q' then
                (j.printLine ("Files " ++ first ++ " and " ++ second ++ " differ")).withStatus 1
              else
                let xs := linesOf a
                let ys := linesOf b
                let found := hunks (xs.length + ys.length + 1) 0 0 (commonRows ys xs) xs ys
                (j.print (found.flatMap hunkText)).withStatus 1
      | [] => j.misuse 2 "missing operand after 'diff'"
      | only :: _ => j.misuse 2 ("missing operand after " ++ inQuotes only)

/-! ## Searching trees -/

inductive Question where
  | isType (letter : Char)
  | named (pattern : Pattern) (ignoresCase : Bool)
  | pathed (pattern : Pattern)
  | isEmpty
  | sized (order : Ordering) (unit count : Nat)
  | newerThan (path : String)
  | startable
  | always
  | negated (q : Question)

def marksOf (word : String) : Pattern :=
  Pattern.ofMarks (word.toList.map fun c => ⟨c, false⟩)

/-- What is done with a path for which all questions are answered with yes. -/
inductive FindAction where
  | print (close : Char)
  | run (words : List String) (isJoined : Bool)
  | delete

/-- A search: its questions in groups of which any may hold, its actions, and the least
and the greatest depth. -/
structure FindPlan where
  groups : List (List Question)
  actions : List FindAction
  least : Nat
  most : Nat

def addQuestion (q : Question) (negated : Bool) (plan : FindPlan) : FindPlan :=
  let q := if negated then .negated q else q
  match plan.groups with
  | group :: rest => { plan with groups := (group ++ [q]) :: rest }
  | [] => { plan with groups := [[q]] }

/-- A question about a size: a count of units, or more or less than that. -/
def sizeQuestion? (word : List Char) : Option Question :=
  let (order, word) :=
    match word with
    | '+' :: rest => (Ordering.gt, rest)
    | '-' :: rest => (Ordering.lt, rest)
    | _ => (Ordering.eq, word)
  let digits := word.takeWhile Char.isDigit
  let unit :=
    match word.drop digits.length with
    | [] | ['b'] => some 512
    | ['c'] => some 1
    | ['w'] => some 2
    | ['k'] => some 1024
    | ['M'] => some 1048576
    | ['G'] => some 1073741824
    | _ => none
  match Text.natural? digits, unit with
  | some n, some unit => some (.sized order unit n)
  | _, _ => none

def findPlan : Nat → (negated : Bool) → List String → FindPlan → Except String FindPlan
  | 0, _, _, plan => .ok plan
  | _, _, [], plan => .ok plan
  | fuel + 1, negated, word :: rest, plan =>
      let ask (q : Question) (rest : List String) :=
        findPlan fuel false rest (addQuestion q negated plan)
      let act (a : FindAction) (rest : List String) :=
        findPlan fuel false rest { plan with actions := plan.actions ++ [a] }
      match word, rest with
      | "!", _ | "-not", _ => findPlan fuel true rest plan
      | "-a", _ | "-and", _ | "(", _ | ")", _ => findPlan fuel negated rest plan
      | "-o", _ | "-or", _ => findPlan fuel false rest { plan with groups := [] :: plan.groups }
      | "-type", t :: rest => ask (.isType (t.toList.headD 'f')) rest
      | "-name", w :: rest => ask (.named (marksOf w) false) rest
      | "-iname", w :: rest =>
          ask (.named (marksOf (String.ofList (w.toList.map Char.toLower))) true) rest
      | "-size", w :: rest =>
          match sizeQuestion? w.toList with
          | some q => ask q rest
          | none => .error ("invalid argument `" ++ w ++ "' to `-size'")
      | "-newer", w :: rest => ask (.newerThan w) rest
      | "-executable", _ => ask .startable rest
      | "-readable", _ | "-writable", _ => ask .always rest
      | "-path", w :: rest => ask (.pathed (marksOf w)) rest
      | "-empty", _ => ask .isEmpty rest
      | "-true", _ => ask .always rest
      | "-maxdepth", n :: rest =>
          findPlan fuel negated rest { plan with most := (Text.natural? n.toList).getD 0 }
      | "-mindepth", n :: rest =>
          findPlan fuel negated rest { plan with least := (Text.natural? n.toList).getD 0 }
      | "-print", _ => act (.print '\n') rest
      | "-print0", _ => act (.print (Char.ofNat 0)) rest
      | "-delete", _ => act .delete rest
      | "-exec", _ =>
          let words := rest.takeWhile fun w => w ≠ ";" && w ≠ "+"
          let isJoined := (rest.drop words.length).head? = some "+"
          act (.run words isJoined) (rest.drop (words.length + 1))
      | _, [] =>
          if ["-type", "-name", "-iname", "-path", "-maxdepth", "-mindepth", "-size",
              "-newer"].contains word then
            .error ("missing argument to " ++ "`" ++ word ++ "'")
          else .error ("unknown predicate `" ++ word ++ "'")
      | _, _ => .error ("unknown predicate `" ++ word ++ "'")

def Question.holds (j : Job) (path : String) : Question → Bool
  | isType letter =>
      match letter, System.kind? j.files path with
      | 'd', some .directory => true
      | 'f', some (.file _) => true
      | _, _ => false
  | named pattern ignoresCase =>
      let name := (baseName path).toList
      Pattern.fits pattern (if ignoresCase then name.map Char.toLower else name)
  | sized order unit count =>
      let size :=
        match System.kind? j.files path with
        | some (.file n) => n
        | _ => 4096
      compare ((size + unit - 1) / unit) count = order
  | newerThan other =>
      match System.age? j.files path, System.age? j.files other with
      | some m, some n => m < n
      | _, _ => false
  | startable => j.isDirectory path || System.isStartable j.files path
  | pathed pattern => Pattern.fits pattern path.toList
  | isEmpty =>
      match System.kind? j.files path with
      | some (.file n) => n = 0
      | some .directory => (j.children path).isEmpty
      | _ => false
  | always => true
  | negated q => !q.holds j path

def pathsBelow (j : Job) : Nat → Nat → String → List (Nat × String)
  | 0, depth, path => [(depth, path)]
  | fuel + 1, depth, path =>
      (depth, path) ::
        if j.isDirectory path then
          (j.children path).flatMap fun name =>
            pathsBelow j fuel (depth + 1) (joinPath path name)
        else []

/-- Search trees. The commands that are to be run come with the job that is done. -/
def find (j : Job) : Job × List (List String) :=
  let isStart (w : String) : Bool := !w.startsWith "-" && w ≠ "!" && w ≠ "("
  let starts := j.args.takeWhile isStart
  let plan := findPlan (j.args.length + 1) false (j.args.drop starts.length) ⟨[[]], [], 0, 64⟩
  match plan with
  | .error complaint => (j.complain complaint, [])
  | .ok plan =>
      let starts := if starts.isEmpty then ["."] else starts
      let j := j.each starts fun j path =>
        if j.has path then j
        else j.complain (inQuotes path ++ ": " ++ (j.locateFault path).text)
      let all := (starts.filter j.has).flatMap fun path => pathsBelow j plan.most 0 path
      let found := all.filter fun (depth, path) =>
        plan.least ≤ depth && depth ≤ plan.most
          && plan.groups.any fun group => group.all (Question.holds j path)
      let paths := found.map (·.2)
      let actions := if plan.actions.isEmpty then [FindAction.print '\n'] else plan.actions
      let filled (words : List String) (path : String) : List String :=
        words.map fun w => w.replace "\x7b\x7d" path
      let start : Job × List (List String) := (j, [])
      actions.foldl
        (fun (j, commands) action =>
          match action with
          | .print close => (j.print (paths.flatMap fun path => path.toList ++ [close]), commands)
          | .delete =>
              (j.each paths.reverse fun j path => removeOne true true false false path j, commands)
          | .run words true =>
              let fixed := words.filter (· ≠ "\x7b\x7d")
              (j, commands ++ if paths.isEmpty then [] else [fixed ++ paths])
          | .run words false => (j, commands ++ paths.map (filled words)))
        start

/-! ## The table -/

def catalog : List (String × Utility) := [
  ("[", test true), ("arch", fun j => j.printLine "x86_64"), ("base64", base64),
  ("basename", basename), ("cat", cat), ("chmod", chmod), ("cksum", cksum), ("cmp", cmp),
  ("comm", comm), ("cp", cp), ("cut", cut), ("date", date), ("dd", dd), ("diff", diff),
  ("dirname", dirname), ("echo", echo), ("egrep", olderGrep false), ("expand", expand),
  ("expr", expr), ("factor", factor), ("false", fun j => j.withStatus 1),
  ("fgrep", olderGrep true), ("fold", fold), ("grep", grep), ("head", head),
  ("hostname", fun j => j.printLine "localhost"), ("id", id), ("install", install),
  ("join", join), ("link", link), ("ln", ln), ("ls", ls), ("md5sum", md5sum),
  ("mkdir", mkdir), ("mktemp", mktemp), ("mv", mv), ("nl", nl),
  ("nproc", fun j => j.printLine "1"), ("od", od), ("paste", paste), ("printenv", printenv),
  ("printf", printf), ("pwd", pwd), ("readlink", readlink), ("realpath", realpath), ("rev", rev),
  ("rm", rm), ("rmdir", rmdir), ("sed", sed), ("seq", seq), ("sha1sum", sha1sum),
  ("sha256sum", sha256sum), ("sleep", sleep), ("sort", sort), ("split", split), ("stat", stat),
  ("sync", fun j => j), ("tac", tac), ("tail", tail), ("tee", tee), ("test", test false),
  ("touch", touch), ("tr", tr), ("true", fun j => j), ("truncate", truncate), ("tty", tty),
  ("uname", uname), ("unexpand", unexpand), ("uniq", uniq), ("unlink", unlink), ("wc", wc),
  ("which", which), ("whoami", fun j => j.printLine "root"), ("yes", yes)]

end Utility
end Execution
end BitEquiv

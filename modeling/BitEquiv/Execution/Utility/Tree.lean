import BitEquiv.Execution.Utility.Job

/-!
# Utilities on file trees

Copying, moving, making and removing files and directories, and asking for their
names.
-/

namespace BitEquiv
namespace Execution
namespace Utility

open Text (Octet.toText Octet.ofText)
open Job (inQuotes)

def baseName (path : String) : String :=
  match (pathParts path).reverse.dropWhile (·.isEmpty) with
  | last :: _ => last
  | [] => if path.isEmpty then "" else "/"

def directoryName (path : String) : String :=
  let isAbsolute := path.startsWith "/"
  match (pathParts path).reverse.dropWhile (·.isEmpty) with
  | [] => if path.isEmpty then "." else "/"
  | _ :: before =>
      match before.dropWhile (·.isEmpty) with
      | [] => if isAbsolute then "/" else "."
      | kept => String.intercalate "/" kept.reverse

def pathInto (directory source : String) : String := joinPath directory (baseName source)

/-! ## Copies -/

structure Copying where
  isDeep : Bool
  isVerbose : Bool
  keepsOld : Bool
  marksStartable : Bool

def copyTo (c : Copying) (source target : String) (j : Job) : Job :=
  let report (j : Job) : Job :=
    if c.isVerbose then j.printLine (inQuotes source ++ " -> " ++ inQuotes target) else j
  let place? (path : String) := j.files.resolve (Octet.toText path)
  match System.kind? j.files source with
  | none => j.complain ("cannot stat " ++ inQuotes source ++ ": " ++ (j.locateFault source).text)
  | some .directory =>
      if !c.isDeep then
        j.complain ("-r not specified; omitting directory " ++ inQuotes source)
      else
        match place? source, j.files.locate (Octet.toText target) with
        | some origin, .ok goal =>
            if origin = goal || (origin.isPrefixOf goal && (j.files.node? goal).isNone) then
              j.complain ("cannot copy a directory, " ++ inQuotes source ++ ", into itself, "
                ++ inQuotes target)
            else
              match j.files.node? goal with
              | some (.file _) =>
                  j.complain ("cannot overwrite non-directory " ++ inQuotes target
                    ++ " with directory " ++ inQuotes source)
              | _ => report { j with files := j.files.copyTree origin goal }
        | _, .error fault =>
            j.complain ("cannot create directory " ++ inQuotes target ++ ": " ++ fault.text)
        | none, _ => j
  | some _ =>
      if (place? source).isSome && place? source = place? target then
        j.complain (inQuotes source ++ " and " ++ inQuotes target ++ " are the same file")
      else if j.isDirectory target then
        j.complain ("cannot overwrite directory " ++ inQuotes target ++ " with non-directory")
      else if c.keepsOld && j.has target then j
      else
        match j.read source with
        | .error fault =>
            j.complain ("cannot open " ++ inQuotes source ++ " for reading: " ++ fault.text)
        | .ok text =>
            match (j.afterRead source).write target text false with
            | .error fault =>
                let isUnmade := target.endsWith "/" && j.isDirectory (directoryName target)
                let fault := if fault = .isDirectory || isUnmade then .notDirectory else fault
                j.complain ("cannot create regular file " ++ inQuotes target ++ ": " ++ fault.text)
            | .ok after =>
                let isStartable := c.marksStartable || System.isStartable j.files source
                match after.files.resolve (Octet.toText target) with
                | some place =>
                    let startable :=
                      if isStartable then place :: after.files.startable
                      else after.files.startable
                    report { after with files := { after.files with startable := startable } }
                | none => report after

/-- The sources and the target of a command, or what is wrong with its operands. When
the last value is true the target is a directory that the sources go into. -/
def sourcesAndTarget (j : Job) (p : Job.Parsed) :
    Except (Bool × String) (List String × String × Bool) :=
  match p.last? 't' with
  | some dir =>
      if p.operands.isEmpty then .error (true, "missing file operand")
      else if j.isDirectory dir then .ok (p.operands, dir, true)
      else
        let fault := if j.has dir then FileFault.notDirectory else j.locateFault dir
        .error (false, "target directory " ++ inQuotes dir ++ ": " ++ fault.text)
  | none =>
      match p.operands with
      | [] => .error (true, "missing file operand")
      | [only] => .error (true, "missing destination file operand after " ++ inQuotes only)
      | [source, target] =>
          .ok ([source], target, !p.has 'T' && j.isDirectory target)
      | many =>
          let target := many.getLast?.getD ""
          if j.isDirectory target then .ok (many.dropLast, target, true)
          else
            let fault := if j.has target then FileFault.notDirectory else j.locateFault target
            .error (false, "target " ++ inQuotes target ++ ": " ++ fault.text)

def deliver (step : String → String → Job → Job) (p : Job.Parsed) : Utility := fun j =>
  match sourcesAndTarget j p with
  | .error (isMisuse, text) => if isMisuse then j.misuse 1 text else j.complain text
  | .ok (sources, target, isInto) =>
      j.each sources fun j source =>
        step source (if isInto then pathInto target source else target) j

def copyFlags : List Job.Flag :=
  Job.switches [
    ('a', "archive"), ('b', ""), ('d', ""), ('f', "force"), ('H', ""), ('i', "interactive"),
    ('l', "link"), ('L', "dereference"), ('n', "no-clobber"), ('p', ""), ('P', "no-dereference"),
    ('r', "recursive"), ('R', ""), ('s', "symbolic-link"), ('T', "no-target-directory"),
    ('u', "update"), ('v', "verbose"), ('x', "one-file-system")]
  ++ Job.takers [('t', "target-directory"), ('S', "suffix")]
  ++ [⟨'k', "preserve", .perhaps⟩, ⟨'B', "backup", .perhaps⟩]

def cp : Utility :=
  Job.withOptions copyFlags 1 fun p =>
    let isDeep := p.has 'r' || p.has 'R' || p.has 'a'
    deliver (copyTo ⟨isDeep, p.has 'v', p.has 'n', false⟩) p

def install : Utility :=
  Job.withOptions
    (Job.switches [('d', "directory"), ('D', ""), ('v', "verbose"), ('c', ""), ('p', ""),
        ('s', ""), ('T', "no-target-directory")]
      ++ Job.takers [('m', "mode"), ('o', "owner"), ('g', "group"), ('t', "target-directory")])
    1 fun p j =>
      if p.has 'd' then
        j.each p.operands fun j path =>
          { j with files := (j.files.makeDirectories (Octet.toText path)).2 }
      else
        let step (source target : String) (j : Job) :=
          let j :=
            if p.has 'D' then
              let dir := Octet.toText (directoryName target)
              { j with files := (j.files.makeDirectories dir).2 }
            else j
          copyTo ⟨false, p.has 'v', false, true⟩ source target j
        deliver step p j

/-! ## Moves -/

def moveTo (isVerbose keepsOld : Bool) (source target : String) (j : Job) : Job :=
  let cannot (fault : FileFault) : Job :=
    j.complain ("cannot move " ++ inQuotes source ++ " to " ++ inQuotes target ++ ": "
      ++ fault.text)
  match j.files.resolve (Octet.toText source) with
  | none => j.complain ("cannot stat " ++ inQuotes source ++ ": " ++ (j.locateFault source).text)
  | some origin =>
      match j.files.node? origin, j.files.locate (Octet.toText target) with
      | none, _ =>
          j.complain ("cannot stat " ++ inQuotes source ++ ": " ++ (j.locateFault source).text)
      | some _, .error fault => cannot fault
      | some node, .ok goal =>
          let done (files : Files) : Job :=
            let j := { j with files := (files.copyTree origin goal).without origin }
            if isVerbose then
              j.printLine ("renamed " ++ inQuotes source ++ " -> " ++ inQuotes target)
            else j
          if origin = goal then
            j.complain (inQuotes source ++ " and " ++ inQuotes target ++ " are the same file")
          else
            match node, j.files.node? goal with
            | .file _, some .directory =>
                j.complain ("cannot overwrite directory " ++ inQuotes target
                  ++ " with non-directory")
            | .directory, some (.file _) =>
                j.complain ("cannot overwrite non-directory " ++ inQuotes target
                  ++ " with directory " ++ inQuotes source)
            | .directory, found =>
                if origin.isPrefixOf goal then
                  j.complain ("cannot move " ++ inQuotes source ++ " to a subdirectory of itself, "
                    ++ inQuotes target)
                else if found.isSome && !(j.files.childrenAt goal).isEmpty then
                  j.complain ("cannot overwrite " ++ inQuotes target ++ ": "
                    ++ FileFault.notEmpty.text)
                else done j.files
            | .file _, none => if target.endsWith "/" then cannot .notDirectory else done j.files
            | .file _, some (.file _) => if keepsOld then j else done (j.files.without goal)

def mv : Utility :=
  Job.withOptions
    (Job.switches [('b', ""), ('f', "force"), ('i', "interactive"), ('n', "no-clobber"),
        ('T', "no-target-directory"), ('u', "update"), ('v', "verbose")]
      ++ Job.takers [('t', "target-directory"), ('S', "suffix")])
    1 fun p => deliver (moveTo (p.has 'v') (p.has 'n')) p

/-! ## Removal -/

def removeOne (isDeep isForced isEmptyOnly isVerbose : Bool) (path : String) (j : Job) : Job :=
  let last := baseName path
  let cannot (fault : FileFault) : Job :=
    j.complain ("cannot remove " ++ inQuotes path ++ ": " ++ fault.text)
  let report (isDirectory : Bool) (j : Job) : Job :=
    if isVerbose then
      j.printLine ((if isDirectory then "removed directory " else "removed ") ++ inQuotes path)
    else j
  if isDeep && (last = "." || last = "..") then
    j.complain ("refusing to remove '.' or '..' directory: skipping " ++ inQuotes path)
  else if isDeep && last = "/" then
    (j.complain "it is dangerous to operate recursively on '/'").complain
      "use --no-preserve-root to override this failsafe"
  else
    match j.files.locate (Octet.toText path) with
    | .error fault => if isForced then j else cannot fault
    | .ok place =>
        match j.files.node? place with
        | none => if isForced then j else cannot .absent
        | some (.file _) => report false { j with files := j.files.without place }
        | some .directory =>
            if isDeep then report true { j with files := j.files.without place }
            else if !isEmptyOnly then cannot .isDirectory
            else if (j.files.childrenAt place).isEmpty then
              report true { j with files := j.files.without place }
            else cannot .notEmpty

def rm : Utility :=
  Job.withOptions
    (Job.switches [('d', "dir"), ('f', "force"), ('i', ""), ('I', ""), ('r', "recursive"),
      ('R', ""), ('v', "verbose"), ('x', "one-file-system")])
    1 fun p j =>
      if p.operands.isEmpty then
        if p.has 'f' then j else j.misuse 1 "missing operand"
      else
        j.each p.operands fun j path =>
          removeOne (p.has 'r' || p.has 'R') (p.has 'f') (p.has 'd') (p.has 'v') path j

def removeEmpty (isVerbose mayStay : Bool) (path : String) (j : Job) : Job :=
  let cannot (fault : FileFault) : Job :=
    if mayStay && fault = .notEmpty then j
    else j.complain ("failed to remove " ++ inQuotes path ++ ": " ++ fault.text)
  match j.files.locate (Octet.toText path) with
  | .error fault => cannot fault
  | .ok place =>
      match j.files.node? place with
      | none => cannot .absent
      | some (.file _) => cannot .notDirectory
      | some .directory =>
          if baseName path = "." then cannot .invalid
          else if !(j.files.childrenAt place).isEmpty then cannot .notEmpty
          else
            let j := { j with files := j.files.without place }
            if isVerbose then j.printLine ("rmdir: removing directory, " ++ inQuotes path) else j

def pathsUp (path : String) : List String :=
  let parts := (pathParts path).filter (· ≠ "")
  (List.range parts.length).reverse.map fun n => String.intercalate "/" (parts.take (n + 1))

def rmdir : Utility :=
  Job.withOptions
    (Job.switches [('p', "parents"), ('v', "verbose"), ('k', "ignore-fail-on-non-empty")])
    1 fun p j =>
      if p.operands.isEmpty then j.misuse 1 "missing operand"
      else
        j.each p.operands fun j path =>
          let paths := if p.has 'p' then pathsUp path else [path]
          j.each paths fun j path => removeEmpty (p.has 'v') (p.has 'k') path j

def unlink : Utility :=
  Job.withOptions [] 1 fun p j =>
    match p.operands with
    | [] => j.misuse 1 "missing operand"
    | [path] =>
        match j.files.unlink (Octet.toText path) with
        | .ok files => { j with files := files }
        | .error fault => j.complain ("cannot unlink " ++ inQuotes path ++ ": " ++ fault.text)
    | _ :: extra :: _ => j.misuse 1 ("extra operand " ++ inQuotes extra)

/-! ## New files and directories -/

def makeOne (withParents isVerbose : Bool) (path : String) (j : Job) : Job :=
  let cannot (path : String) (fault : FileFault) (j : Job) : Job :=
    j.complain ("cannot create directory " ++ inQuotes path ++ ": " ++ fault.text)
  let make (path : String) (j : Job) : Job :=
    match j.files.makeDirectory (Octet.toText path) with
    | .ok files =>
        let j := { j with files := files }
        if isVerbose then j.printLine ("mkdir: created directory " ++ inQuotes path) else j
    | .error fault =>
        if withParents && fault = .present && j.isDirectory path then j
        else cannot path fault j
  if withParents && !path.isEmpty then
    let start := if path.startsWith "/" then "/" else ""
    let above := (pathsUp path).reverse.dropLast.map fun p => start ++ p
    match above.find? fun p => j.has p && !j.isDirectory p with
    | some p => cannot p .notDirectory j
    | none => make path ((above.filter fun p => !j.has p).foldl (fun j p => make p j) j)
  else make path j

def mkdir : Utility :=
  Job.withOptions
    (Job.switches [('p', "parents"), ('v', "verbose"), ('Z', "")] ++ Job.takers [('m', "mode")])
    1 fun p j =>
      if p.operands.isEmpty then j.misuse 1 "missing operand"
      else j.each p.operands fun j path => makeOne (p.has 'p') (p.has 'v') path j

def touchOne (makes : Bool) (path : String) (j : Job) : Job :=
  if System.devices.contains path then j
  else
    match j.files.locate (Octet.toText path) with
    | .error fault => j.complain ("cannot touch " ++ inQuotes path ++ ": " ++ fault.text)
    | .ok place =>
        match j.files.node? place with
        | some node =>
            if place.isEmpty then j else { j with files := j.files.put place node }
        | none =>
            if path.endsWith "/" then
              j.complain ("setting times of " ++ inQuotes path ++ ": " ++ FileFault.absent.text)
            else if makes then { j with files := j.files.put place (.file []) }
            else j

def touch : Utility :=
  Job.withOptions
    (Job.switches [('a', ""), ('c', "no-create"), ('f', ""), ('h', ""), ('m', "")]
      ++ Job.takers [('d', "date"), ('r', "reference"), ('t', "")])
    1 fun p j =>
      if p.operands.isEmpty then j.misuse 1 "missing file operand"
      else j.each p.operands fun j path => touchOne (!p.has 'c') path j

def linkOne (isSoft isForced : Bool) (target path : String) (j : Job) : Job :=
  let kind := if isSoft then "symbolic link " else "hard link "
  let source :=
    if isSoft && !target.startsWith "/" then joinPath (directoryName path) target else target
  match j.files.locate (Octet.toText path) with
  | .error fault =>
      let shown :=
        if isSoft then inQuotes path else inQuotes path ++ " => " ++ inQuotes target
      j.complain ("failed to create " ++ kind ++ shown ++ ": " ++ fault.text)
  | .ok place =>
      if (j.files.node? place).isSome && !isForced then
        j.complain ("failed to create " ++ kind ++ inQuotes path ++ ": " ++ FileFault.present.text)
      else
        match j.files.resolve (Octet.toText source) with
        | none => if isSoft then j else j.complain
            ("failed to access " ++ inQuotes target ++ ": " ++ (j.locateFault target).text)
        | some origin =>
            match isSoft, j.files.node? origin with
            | false, none =>
                j.complain ("failed to access " ++ inQuotes target ++ ": "
                  ++ FileFault.absent.text)
            | false, some .directory =>
                j.complain (target ++ ": hard link not allowed for directory")
            | _, _ => { j with files := (j.files.without place).copyTree origin place }

def ln : Utility :=
  Job.withOptions
    (Job.switches [('f', "force"), ('i', "interactive"), ('n', "no-dereference"), ('r', "relative"),
        ('s', "symbolic"), ('T', "no-target-directory"), ('v', "verbose"), ('P', ""), ('L', "")]
      ++ Job.takers [('t', "target-directory")])
    1 fun p j =>
      match p.operands with
      | [] => j.misuse 1 "missing file operand"
      | [target] => linkOne (p.has 's') (p.has 'f') target (baseName target) j
      | _ => deliver (linkOne (p.has 's') (p.has 'f')) p j

/-! ## Modes -/

/-- Whether a mode lets a file be started, given whether it could be before. -/
def modeStarts? (mode : String) (before : Bool) : Option Bool :=
  if !mode.isEmpty && mode.all fun c => '0' ≤ c && c ≤ '7' then
    (Text.ofDigits 8 0 mode.toList).map fun n => n % 2 = 1 || n / 8 % 2 = 1 || n / 64 % 2 = 1
  else
    (mode.splitOn ",").foldlM
      (fun before clause =>
        let rest := clause.toList.dropWhile fun c => ['u', 'g', 'o', 'a'].contains c
        match rest with
        | op :: permissions =>
            if !("+-=".toList.contains op)
              || permissions.any fun c => !("rwxXst".toList.contains c) then none
            else
              let hasX := permissions.contains 'x'
              some (if op = '+' then before || hasX
                else if op = '-' then before && !hasX
                else hasX)
        | [] => none)
      before

def chmod : Utility := fun j =>
  let args := j.args.filter fun a => !(["-R", "-v", "-f", "-c", "--"].contains a)
  match args with
  | [] => j.misuse 1 "missing operand"
  | [mode] => j.misuse 1 ("missing operand after " ++ inQuotes mode)
  | mode :: paths =>
      if (modeStarts? mode false).isNone then j.misuse 1 ("invalid mode: " ++ inQuotes mode)
      else
        j.each paths fun j path =>
          match System.kind? j.files path with
          | none =>
              j.complain ("cannot access " ++ inQuotes path ++ ": " ++ (j.locateFault path).text)
          | some _ =>
              match j.files.resolve (Octet.toText path) with
              | none => j
              | some place =>
                  let before := j.files.startable.contains place
                  let others := j.files.startable.filter (· ≠ place)
                  let starts := (modeStarts? mode before).getD before
                  let startable := if starts then place :: others else others
                  { j with files := { j.files with startable := startable } }

/-! ## Names -/

/-- A path without one of its endings, unless it is nothing else. -/
def dropEnding (ending name : String) : String :=
  if ending ≠ "" && name ≠ ending && name.endsWith ending then
    (name.dropEnd ending.length).toString
  else name

def basename : Utility :=
  Job.withOptions (Job.switches [('a', "multiple"), ('z', "zero")] ++ Job.takers [('s', "suffix")])
    1 fun p j =>
      match p.operands with
      | [] => j.misuse 1 "missing operand"
      | operands =>
          if p.has 'a' || p.has 's' then
            j.each operands fun j path =>
              j.printLine (dropEnding ((p.last? 's').getD "") (baseName path))
          else
            match operands with
            | [path] => j.printLine (baseName path)
            | [path, ending] => j.printLine (dropEnding ending (baseName path))
            | _ => j.misuse 1 ("extra operand " ++ inQuotes ((operands.drop 2).headD ""))

def dirname : Utility :=
  Job.withOptions (Job.switches [('z', "zero")]) 1 fun p j =>
    if p.operands.isEmpty then j.misuse 1 "missing operand"
    else j.each p.operands fun j path => j.printLine (directoryName path)

def placePath (place : Place) : String :=
  Octet.ofText ("/" ++ String.intercalate "/" place)

def readlink : Utility :=
  Job.withOptions
    (Job.switches [('f', "canonicalize"), ('e', "canonicalize-existing"), ('m', ""),
      ('n', "no-newline"), ('q', ""), ('s', ""), ('v', "")])
    1 fun p j =>
      if p.operands.isEmpty then j.misuse 1 "missing operand"
      else
        j.each p.operands fun j path =>
          match p.has 'f' || p.has 'e' || p.has 'm', j.files.resolve (Octet.toText path) with
          | true, some place =>
              if p.has 'e' && (j.files.node? place).isNone then j.withStatus 1
              else j.printLine (placePath place)
          | _, _ => j.withStatus 1

def realpath : Utility :=
  Job.withOptions
    (Job.switches [('e', "canonicalize-existing"), ('m', "canonicalize-missing"), ('s', ""),
      ('q', "quiet"), ('z', "zero")])
    1 fun p j =>
      if p.operands.isEmpty then j.misuse 1 "missing operand"
      else
        j.each p.operands fun j path =>
          match j.files.locate (Octet.toText path) with
          | .ok place =>
              if p.has 'e' && (j.files.node? place).isNone then
                j.complain (path ++ ": " ++ FileFault.absent.text)
              else j.printLine (placePath place)
          | .error fault => j.complain (path ++ ": " ++ fault.text)

/-! ## Listings -/

def listingOrder (j : Job) (p : Job.Parsed) (pathOf : String → String) (names : List String) :
    List String :=
  let size (name : String) : Nat :=
    match System.kind? j.files (pathOf name) with
    | some (.file n) => n
    | _ => 4096
  let age (name : String) : Nat := (System.age? j.files (pathOf name)).getD 0
  let byName := names.mergeSort Files.nameLe
  let ordered :=
    match p.lastOf? ['S', 't', 'U'] with
    | some 'S' => byName.mergeSort fun a b => size b ≤ size a
    | some 't' => byName.mergeSort fun a b => age a ≤ age b
    | _ => byName
  if p.has 'r' then ordered.reverse else ordered

def listed (j : Job) (p : Job.Parsed) (path : String) : List String :=
  let names := j.children path
  let names :=
    if p.has 'a' then "." :: ".." :: names
    else if p.has 'A' then names
    else names.filter fun name => !name.startsWith "."
  listingOrder j p (joinPath path) names

def markedName (p : Job.Parsed) (j : Job) (path name : String) : String :=
  let shown := if p.has 'Q' then "\"" ++ name ++ "\"" else name
  if j.isDirectory path && (p.has 'p' || p.has 'F') then shown ++ "/"
  else if p.has 'F' && System.isStartable j.files path then shown ++ "*"
  else shown

def longLine (j : Job) (width : Nat) (path shown : String) : String :=
  let mode :=
    if j.isDirectory path then "drwxr-xr-x"
    else if System.isStartable j.files path then "-rwxr-xr-x"
    else "-rw-r--r--"
  let size :=
    match System.kind? j.files path with
    | some (.file n) => Text.decimal n
    | _ => "4096"
  let links := if j.isDirectory path then "2" else "1"
  mode ++ " " ++ links ++ " root root " ++ String.ofList (List.replicate (width - size.length) ' ')
    ++ size ++ " Jan  1 00:00 " ++ shown

def blocksOf (j : Job) (paths : List String) : Nat :=
  paths.foldl
    (fun total path =>
      match System.kind? j.files path with
      | some (.file n) => total + (n + 4095) / 4096 * 4
      | _ => total + 4)
    0

def showNames (p : Job.Parsed) (entries : List (String × String)) (j : Job) : Job :=
  let blocks (path : String) : String := Text.decimal (blocksOf j [path])
  let width := (entries.map fun (path, _) => (blocks path).length).foldl max 0
  let front (path : String) : String :=
    if p.has 's' then
      String.ofList (List.replicate (width - (blocks path).length) ' ') ++ blocks path ++ " "
    else ""
  let shown := entries.map fun (path, name) => (path, front path ++ markedName p j path name)
  if p.has 'l' then
    let sizes := entries.map fun (path, _) =>
      match System.kind? j.files path with
      | some (.file n) => (Text.decimal n).length
      | _ => 4
    let width := sizes.foldl max 0
    j.each (shown.map fun (path, name) => longLine j width path name) Job.printLine
  else if p.has 'm' then
    if shown.isEmpty then j else j.printLine (String.intercalate ", " (shown.map (·.2)))
  else j.each (shown.map (·.2)) Job.printLine

/-- Directories with the names in them: the directory at a path, and those below it. -/
def listings (j : Job) (p : Job.Parsed) : Nat → String → List (String × List String)
  | 0, _ => []
  | fuel + 1, path =>
      let names := listed j p path
      let inner := names.filter fun name =>
        name ≠ "." && name ≠ ".." && j.isDirectory (joinPath path name)
      (path, names) ::
        if p.has 'R' then inner.flatMap fun name => listings j p fuel (joinPath path name) else []

def listFlags : List Job.Flag :=
  Job.switches [
    ('a', "all"), ('A', "almost-all"), ('1', ""), ('d', "directory"), ('F', "classify"),
    ('l', ""), ('p', ""), ('r', "reverse"), ('R', "recursive"), ('t', ""), ('S', ""), ('C', ""),
    ('x', ""), ('m', ""), ('h', ""), ('n', ""), ('q', ""), ('Q', "quote-name"), ('U', ""),
    ('L', ""), ('H', ""), ('s', "size")]
  ++ [⟨'c', "color", .perhaps⟩]

def ls : Utility :=
  Job.withOptions listFlags 2 fun p j =>
    let operands := if p.operands.isEmpty then ["."] else p.operands
    let j := j.each (operands.mergeSort Files.nameLe) fun j path =>
      if j.has path then j
      else
        (j.complain ("cannot access " ++ inQuotes path ++ ": "
          ++ (j.locateFault path).text)).withStatus 2
    let found := listingOrder j p (fun path => path) (operands.filter j.has)
    let (dirs, files) := found.partition fun path => !p.has 'd' && j.isDirectory path
    let j := showNames p (files.map fun path => (path, path)) j
    let hasHeadings := operands.length > 1 || p.has 'R'
    let all := dirs.flatMap (listings j p 64)
    let (j, _) := all.foldl
      (fun (j, isFirst) (path, names) =>
        let j := if isFirst then j else j.print ['\n']
        let j := if hasHeadings then j.printLine (path ++ ":") else j
        let entries := names.map fun name => (joinPath path name, name)
        let j := if p.has 'l' || p.has 's' then
            j.printLine ("total " ++ Text.decimal (blocksOf j (entries.map (·.1))))
          else j
        (showNames p entries j, false))
      (j, files.isEmpty)
    j

/-! ## Other properties -/

def mktemp : Utility :=
  Job.withOptions
    (Job.switches [('d', "directory"), ('u', "dry-run"), ('q', "quiet"), ('t', "")]
      ++ Job.takers [('p', "tmpdir"), ('S', "suffix")])
    1 fun p j =>
      let template := p.operands.headD "tmp.XXXXXXXXXX"
      let marks := (template.toList.reverse.takeWhile (· = 'X')).length
      if marks < 3 then j.complain ("too few X's in template " ++ inQuotes template)
      else
        let base := (template.dropEnd marks).toString
        let dir := if p.operands.isEmpty || p.has 't' || p.has 'p' then
          (p.last? 'p').getD "/tmp" else ""
        let candidate (n : Nat) : String :=
          joinPath dir (base ++ String.ofList (Text.padded 10 marks n))
        let path := ((List.range 1000).map candidate).find? fun path => !j.has path
        match path with
        | none => j.complain "failed to create file"
        | some path =>
            let files :=
              if p.has 'u' then some j.files
              else if p.has 'd' then (j.files.makeDirectory (Octet.toText path)).toOption
              else j.files.write? (Octet.toText path) []
            match files with
            | some files => { j with files := files }.printLine path
            | none =>
                j.complain ("failed to create file via template " ++ inQuotes template ++ ": "
                  ++ (j.locateFault path).text)

def sized (n : Nat) (text : List Char) : List Char :=
  text.take n ++ List.replicate (n - text.length) (Char.ofNat 0)

def truncate : Utility :=
  Job.withOptions
    (Job.switches [('c', "no-create"), ('o', "io-blocks")]
      ++ Job.takers [('s', "size"), ('r', "reference")])
    1 fun p j =>
      match p.last? 's' with
      | none => j.misuse 1 "you must specify either '--size' or '--reference'"
      | some size =>
          if p.operands.isEmpty then j.misuse 1 "missing file operand"
          else
            j.each p.operands fun j path =>
              let old := (j.read path).toOption.getD []
              let count := (Text.natural? (size.toList.filter Char.isDigit)).getD 0
              let count :=
                match size.toList.head? with
                | some '+' => old.length + count
                | some '-' => old.length - count
                | _ => count
              match j.write path (sized count old) false with
              | .ok j => j
              | .error fault =>
                  j.complain ("cannot open " ++ inQuotes path ++ " for writing: " ++ fault.text)

def property (j : Job) (path : String) : Char → String
  | 's' =>
      match System.kind? j.files path with
      | some (.file size) => Text.decimal size
      | _ => "4096"
  | 'n' => path
  | 'F' =>
      match System.kind? j.files path with
      | some (.file 0) => "regular empty file"
      | some .directory => "directory"
      | some .device => "character special file"
      | _ => "regular file"
  | c => String.ofList ['?', c]

def fillProperties (j : Job) (path : String) : List Char → List Char
  | '%' :: c :: rest => (property j path c).toList ++ fillProperties j path rest
  | c :: rest => c :: fillProperties j path rest
  | [] => []

def stat : Utility :=
  Job.withOptions
    (Job.switches [('L', "dereference"), ('t', "terse")]
      ++ Job.takers [('c', "format"), ('p', "printf")])
    1 fun p j =>
      if p.operands.isEmpty then j.misuse 1 "missing operand"
      else
        j.each p.operands fun j path =>
          if j.has path then
            let format := (p.last? 'c').getD "%n"
            j.print (fillProperties j path format.toList ++ ['\n'])
          else
            j.complain ("cannot statx " ++ inQuotes path ++ ": " ++ (j.locateFault path).text)

end Utility
end Execution
end BitEquiv

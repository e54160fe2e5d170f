import BitEquiv.Execution.Utility.System

/-!
# Jobs of utilities

A utility works on a job: its arguments, the text on its standard input and a file
tree. It prints text and complaints, changes the tree and ends with a status. All text
is octets.
-/

namespace BitEquiv
namespace Execution

open Text (Octet.ofBytes Octet.toBytes Octet.toText Octet.ofText)

structure Output where
  isError : Bool
  text : List Char

structure Job where
  name : String
  args : List String
  input : List Char
  inputIsFile : Bool
  environment : List (String × String)
  files : Files
  outputs : List Output
  status : Nat
  elapsedMs : Nat

abbrev Utility := Job → Job

namespace Job

def print (j : Job) (text : List Char) : Job :=
  { j with outputs := ⟨false, text⟩ :: j.outputs }

def printLine (j : Job) (text : String) : Job := j.print (text.toList ++ ['\n'])

def printError (j : Job) (text : String) : Job :=
  { j with outputs := ⟨true, text.toList⟩ :: j.outputs }

def withStatus (j : Job) (n : Nat) : Job := { j with status := n }

def complain (j : Job) (text : String) : Job :=
  { j.printError (j.name ++ ": " ++ text ++ "\n") with status := max j.status 1 }

def failWith (j : Job) (status : Nat) (text : String) : Job :=
  (j.complain text).withStatus status

/-- The line after a complaint about the way a program was called. -/
def advise (j : Job) (status : Nat) : Job :=
  (j.printError ("Try '" ++ j.name ++ " --help' for more information.\n")).withStatus status

def misuse (j : Job) (status : Nat) (text : String) : Job := (j.complain text).advise status

/-! ## Files -/

def inQuotes (path : String) : String := "'" ++ path ++ "'"

def isDirectory (j : Job) (path : String) : Bool := System.isDirectory j.files path

def has (j : Job) (path : String) : Bool := (System.kind? j.files path).isSome

def locateFault (j : Job) (path : String) : FileFault :=
  match j.files.locate (Octet.toText path) with
  | .error fault => fault
  | .ok _ => .absent

def read (j : Job) (path : String) : Except FileFault (List Char) :=
  if path = "/dev/stdin" then .ok j.input
  else if System.devices.contains path then .ok []
  else
    match j.files.read (Octet.toText path) with
    | .ok bytes => .ok (Octet.ofBytes bytes)
    | .error .absent => if j.isDirectory path then .error .isDirectory else .error .absent
    | .error fault => .error fault

/-- The text that an operand names, which for a dash is standard input. -/
def readOperand (j : Job) (operand : String) : Except FileFault (List Char) :=
  if operand = "-" then .ok j.input else j.read operand

def afterRead (j : Job) (operand : String) : Job :=
  if operand = "-" || operand = "/dev/stdin" then { j with input := [] } else j

def write (j : Job) (path : String) (text : List Char) (appends : Bool) : Except FileFault Job :=
  if path = "/dev/stdout" then .ok (j.print text)
  else if path = "/dev/stderr" then .ok (j.printError (String.ofList text))
  else if System.devices.contains path then .ok j
  else
    let old := if appends then ((j.files.read? (Octet.toText path)).getD []) else []
    (j.files.write (Octet.toText path) (old ++ Octet.toBytes text)).map fun files =>
      { j with files := files }

def each (j : Job) (operands : List String) (f : Job → String → Job) : Job := operands.foldl f j

def children (j : Job) (path : String) : List String :=
  match j.files.resolve (Octet.toText path) with
  | some place => (j.files.childrenAt place).map Octet.ofText
  | none => []

/-! ## Options -/

inductive Taking where
  | nothing
  | argument
  | perhaps
deriving DecidableEq

structure Flag where
  letter : Char
  long : String
  takes : Taking

structure Parsed where
  options : List (Char × String)
  operands : List String

namespace Parsed

def empty : Parsed := ⟨[], []⟩

def has (p : Parsed) (letter : Char) : Bool := p.options.any (·.1 = letter)

def last? (p : Parsed) (letter : Char) : Option String :=
  (p.options.reverse.find? (·.1 = letter)).map (·.2)

def lastOf? (p : Parsed) (letters : List Char) : Option Char :=
  (p.options.reverse.find? fun o => letters.contains o.1).map (·.1)

def addOption (p : Parsed) (letter : Char) (value : String) : Parsed :=
  { p with options := (letter, value) :: p.options }

def addOperand (p : Parsed) (operand : String) : Parsed :=
  { p with operands := p.operands ++ [operand] }

end Parsed

def letters (flags : List Flag) : List Char → List String → Parsed →
    Except String (Parsed × List String)
  | [], args, p => .ok (p, args)
  | c :: rest, args, p =>
      match flags.find? (·.letter = c) with
      | none => .error ("invalid option -- '" ++ String.ofList [c] ++ "'")
      | some flag =>
          match flag.takes, rest, args with
          | .nothing, _, _ => letters flags rest args (p.addOption c "")
          | .perhaps, _, _ => .ok (p.addOption c (String.ofList rest), args)
          | .argument, [], [] =>
              .error ("option requires an argument -- '" ++ String.ofList [c] ++ "'")
          | .argument, [], arg :: args => .ok (p.addOption c arg, args)
          | .argument, _, _ => .ok (p.addOption c (String.ofList rest), args)

def longOption (flags : List Flag) (word : String) (args : List String) (p : Parsed) :
    Except String (Parsed × List String) :=
  let (name, value) :=
    match Text.cutAt (· == '=') word.toList with
    | some (name, value) => (String.ofList name, some (String.ofList value))
    | none => (word, none)
  let found :=
    match flags.find? (·.long = name) with
    | some flag => some flag
    | none => flags.find? fun flag => flag.long ≠ "" && flag.long.startsWith name
  match found with
  | none => .error ("unrecognized option '--" ++ word ++ "'")
  | some flag =>
      match flag.takes, value, args with
      | .nothing, some _, _ =>
          .error ("option '--" ++ flag.long ++ "' doesn't allow an argument")
      | .nothing, none, _ => .ok (p.addOption flag.letter "", args)
      | _, some value, _ => .ok (p.addOption flag.letter value, args)
      | .perhaps, none, _ => .ok (p.addOption flag.letter "", args)
      | .argument, none, arg :: args => .ok (p.addOption flag.letter arg, args)
      | .argument, none, [] =>
          .error ("option '--" ++ flag.long ++ "' requires an argument")

/-- Options and operands in any order, or only options in front of the operands. -/
def collect (flags : List Flag) (mixed : Bool) : Nat → List String → Parsed →
    Except String Parsed
  | 0, _, p => .ok p
  | _, [], p => .ok p
  | fuel + 1, arg :: rest, p =>
      match arg.toList with
      | '-' :: '-' :: [] => .ok { p with operands := p.operands ++ rest }
      | '-' :: '-' :: word => do
          let (p, rest) ← longOption flags (String.ofList word) rest p
          collect flags mixed fuel rest p
      | '-' :: c :: word => do
          let (p, rest) ← letters flags (c :: word) rest p
          collect flags mixed fuel rest p
      | _ =>
          if mixed then collect flags mixed fuel rest (p.addOperand arg)
          else .ok { p with operands := p.operands ++ arg :: rest }

def parse (flags : List Flag) (mixed : Bool) (args : List String) : Except String Parsed :=
  (collect flags mixed (args.length + 1) args .empty).map fun p =>
    { p with options := p.options.reverse }

def switches (pairs : List (Char × String)) : List Flag :=
  pairs.map fun (letter, long) => ⟨letter, long, .nothing⟩

def takers (pairs : List (Char × String)) : List Flag :=
  pairs.map fun (letter, long) => ⟨letter, long, .argument⟩

def withOptions (flags : List Flag) (status : Nat) (f : Parsed → Utility) : Utility := fun j =>
  match parse flags true j.args with
  | .error complaint => j.misuse status complaint
  | .ok p => f p j

/-- The texts of operands, or standard input without any. Operands that cannot be read
are complained about by `complaint`. -/
def gather (j : Job) (operands : List String) (complaint : String → FileFault → String) :
    List (String × List Char) × Job :=
  let operands := if operands.isEmpty then ["-"] else operands
  operands.foldl
    (fun (found, j) operand =>
      match j.readOperand operand with
      | .ok text => (found ++ [(operand, text)], j.afterRead operand)
      | .error fault => (found, j.complain (complaint operand fault)))
    ([], j)

def plainComplaint (operand : String) (fault : FileFault) : String :=
  operand ++ ": " ++ fault.text

end Job
end Execution
end BitEquiv

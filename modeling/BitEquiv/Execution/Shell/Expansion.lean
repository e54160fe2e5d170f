import BitEquiv.Execution.Shell.Arithmetic
import BitEquiv.Execution.Shell.Field

/-!
# Expansion

Parameters, outputs of scripts and arithmetic are put in for the pieces that name
them. How the output of a script is captured is left open here.
-/

namespace BitEquiv
namespace Execution
namespace Shell

open Text (Pattern)

/-- Runs a script, which begins on a line, and gives its output. -/
abbrev Capturer := List Char → Nat → State → List Char × State

namespace State

def special? (s : State) (name : String) : Option String :=
  match name with
  | "#" => some (Text.decimal s.args.length)
  | "?" => some (Text.decimal s.status)
  | "$" => some (Text.decimal s.owner)
  | "!" => s.jobs.head?.map fun j => Text.decimal j.pid
  | "-" =>
      let letters := (optionNames.map (·.2)).filter fun c => c ≠ ' ' && s.has c
      some (String.ofList letters.reverse)
  | "0" => some s.name
  | "PPID" => some (Text.decimal s.parent)
  | _ => none

def parameter? (s : State) (name : String) : Option String :=
  match s.special? name with
  | some value => some value
  | none =>
      if name = "@" || name = "*" then
        if s.args.isEmpty then none else some (String.intercalate " " s.args)
      else
        match Text.natural? name.toList with
        | some n => (s.args.drop (n - 1)).head?
        | none => s.value? name

end State

namespace Expansion

def arguments (isQuoted : Bool) : List String → List Atom
  | [] => []
  | [arg] => Atom.ofText isQuoted true arg.toList
  | arg :: rest => Atom.ofText isQuoted true arg.toList ++ .fieldEnd :: arguments isQuoted rest

def joinedArguments (s : State) : List Char :=
  let between := s.separators.take 1
  between.intercalate (s.args.map String.toList)

def valueAtoms (name : String) (isQuoted : Bool) (value : String) (s : State) : List Atom :=
  if name = "@" then arguments isQuoted s.args
  else if name = "*" then
    if isQuoted then Atom.ofText true true (joinedArguments s) else arguments false s.args
  else Atom.ofText isQuoted true value.toList

def lengthOf (value : Option String) : Nat := (value.map String.length).getD 0

def demanded (name : String) : Action (Option String) := do
  let s ← get
  let value := s.parameter? name
  if value.isNone && s.has 'u' && name ≠ "@" && name ≠ "*" then
    Action.die (name ++ ": parameter not set")
  return value

def counts (alsoEmpty : Bool) : Option String → Bool
  | none => false
  | some value => !(alsoEmpty && value.isEmpty)

def homeOf? (s : State) (name : List Char) : Option String :=
  if name.isEmpty then s.value? "HOME" else if name = "root".toList then some "/root" else none

/-- A path in front of which a tilde stands for a home directory. Within settings paths
also begin after a colon. -/
def withHome (inSetting : Bool) (s : State) : Word → Word
  | .text ('~' :: rest) false :: pieces =>
      let name := rest.takeWhile fun c => c ≠ '/' && !(inSetting && c = ':')
      let after := rest.drop name.length
      match homeOf? s name with
      | some home =>
          if after.isEmpty && !pieces.isEmpty then .text ('~' :: rest) false :: pieces
          else .text home.toList true :: laterHomes inSetting s after :: pieces
      | none => laterHomes inSetting s ('~' :: rest) :: pieces
  | .text text false :: pieces => laterHomes inSetting s text :: pieces
  | w => w
where
  /-- The paths after the first one. -/
  laterHomes (inSetting : Bool) (s : State) (text : List Char) : Piece :=
    if !inSetting then .text text false
    else
      let parts := Text.splitBy (· == ':') text
      let homes := (parts.drop 1).map fun part =>
        match part with
        | '~' :: rest =>
            let name := rest.takeWhile (· ≠ '/')
            match homeOf? s name with
            | some home => home.toList ++ rest.drop name.length
            | none => part
        | _ => part
      .text ([':'].intercalate (parts.take 1 ++ homes)) false

mutual

def wordAtoms (capture : Capturer) : List Piece → Action (List Atom)
  | [] => pure []
  | piece :: rest => do
      let first ← pieceAtoms capture piece
      return first ++ (← wordAtoms capture rest)

def pieceAtoms (capture : Capturer) : Piece → Action (List Atom)
  | .text text isQuoted => return Atom.ofText isQuoted false text
  | .parameter name use isQuoted => useAtoms capture name isQuoted use
  | .output script line isQuoted => do
      let (text, after) := capture script line (← get)
      set after
      if !after.isStaying then failure
      let text := ((text.reverse.dropWhile (· = '\n')).reverse).filter (·.toNat ≠ 0)
      return Atom.ofText isQuoted true text
  | .arithmetic body isQuoted => do
      let text := (Atom.marks (← wordAtoms capture body)).map (·.char)
      let n ← Arithmetic.evaluate text
      return Atom.ofText isQuoted true (Text.signedDecimal n).toList

def useAtoms (capture : Capturer) (name : String) (isQuoted : Bool) :
    Use → Action (List Atom)
  | .value => do
      let value ← demanded name
      return valueAtoms name isQuoted (value.getD "") (← get)
  | .length => do
      let value ← demanded name
      return Atom.ofText isQuoted true (Text.decimal (lengthOf value)).toList
  | .otherwise alsoEmpty word => do
      let s ← get
      if counts alsoEmpty (s.parameter? name) then
        return valueAtoms name isQuoted ((s.parameter? name).getD "") s
      return (← wordAtoms capture word).map Atom.split
  | .assign alsoEmpty word => do
      let s ← get
      if counts alsoEmpty (s.parameter? name) then
        return valueAtoms name isQuoted ((s.parameter? name).getD "") s
      let text := (Atom.marks (← wordAtoms capture word)).map (·.char)
      if !isName name.toList then Action.die (name ++ ": bad variable name")
      Action.assign name (String.ofList text)
      return Atom.ofText isQuoted true text
  | .demand alsoEmpty word => do
      let s ← get
      if counts alsoEmpty (s.parameter? name) then
        return valueAtoms name isQuoted ((s.parameter? name).getD "") s
      let reason := String.ofList ((Atom.marks (← wordAtoms capture word)).map (·.char))
      let given := !word.isEmpty
      Action.die (name ++ ": " ++
        (if given then reason
        else if alsoEmpty then "parameter not set or null" else "parameter not set"))
  | .instead alsoEmpty word => do
      if counts alsoEmpty ((← get).parameter? name) then
        return (← wordAtoms capture word).map Atom.split
      return Atom.ofText isQuoted true []
  | .trim fromEnd longest word => do
      let value ← demanded name
      let marks := Atom.marks (← wordAtoms capture word)
      let text := Pattern.trim fromEnd longest (Pattern.ofMarks marks) (value.getD "").toList
      return Atom.ofText isQuoted true text
  | .bad => Action.die "Bad substitution"

end

def fields (capture : Capturer) (w : Word) : Action (List String) := do
  let atoms ← wordAtoms capture (withHome false (← get) w)
  let s ← get
  let fields := Splitting.fields s.separators atoms
  return if s.has 'f' then fields.map fun marks => String.ofList (marks.map (·.char))
    else fields.flatMap (fieldPaths s.world.files)

def allFields (capture : Capturer) : List Word → Action (List String)
  | [] => pure []
  | w :: rest => do
      let first ← fields capture w
      return first ++ (← allFields capture rest)

def text (capture : Capturer) (w : Word) : Action String := do
  let atoms ← wordAtoms capture (withHome false (← get) w)
  return String.ofList ((Atom.marks atoms).map (·.char))

def settingText (capture : Capturer) (w : Word) : Action String := do
  let atoms ← wordAtoms capture (withHome true (← get) w)
  return String.ofList ((Atom.marks atoms).map (·.char))

def pattern (capture : Capturer) (w : Word) : Action Pattern := do
  return Pattern.ofMarks (Atom.marks (← wordAtoms capture w))

end Expansion
end Shell
end Execution
end BitEquiv

import BitEquiv.Text.Blank
import BitEquiv.Text.Numeral

/-!
# BTOR2 witnesses

What a model checker prints when it reaches a bad state: the line `sat`, the
violated properties, then frames and a final dot. A frame has an input part
`@k`, and may have a state part `#k` in front of it. Blank lines and lines that
start with a semicolon are skipped.
-/

namespace BitEquiv
namespace Btor

inductive Property where
  | bad (index : Nat)
  | justice (index : Nat)
deriving DecidableEq

/-- One assigned value; `index` is present for an element of an array. -/
structure Assignment where
  id : Nat
  index : Option (List Char)
  bits : List Char
  symbol : Option (List Char)
deriving DecidableEq

namespace Assignment

/-- The assigned number, for at most 128 bits. -/
def value (a : Assignment) : Option Nat :=
  if a.bits.length > 128 then none else Text.unsigned 2 Text.wideLimit a.bits

def baseSymbol (a : Assignment) : Option (List Char) :=
  a.symbol.map fun s =>
    match Text.cutAt (fun c => c == '@' || c == '#') s.reverse with
    | some (_, before) => before.reverse
    | none => s

end Assignment

structure Frame where
  step : Nat
  states : List Assignment
  inputs : List Assignment
deriving DecidableEq

structure Witness where
  properties : List Property
  frames : List Frame
deriving DecidableEq

def Witness.frame (w : Witness) (step : Nat) : Option Frame :=
  w.frames.find? (·.step = step)

inductive WitnessFault where
  | empty
  | expectedSat (found : List Char)
  | noProperties
  | expectedNumber (what : String) (found : List Char)
  | malformedProperty (token : List Char)
  | emptyProperties
  | inputAfterState (input state : Nat)
  | stateWithoutInput
  | outsideFrame
  | noValue
  | malformedIndex (token : List Char)
  | noArrayValue
  | expectedBinary (found : List Char)
  | unexpectedToken (token : List Char)
  | unterminated
deriving DecidableEq

/-- A fault and its line; line zero stands for the whole text. -/
structure WitnessError where
  line : Nat
  fault : WitnessFault
deriving DecidableEq

def WitnessFault.message : WitnessFault → String
  | empty => "empty witness"
  | expectedSat found => "expected `sat`, found `" ++ String.ofList found ++ "`"
  | noProperties => "missing property line"
  | expectedNumber what found =>
      "expected " ++ what ++ ", found `" ++ String.ofList found ++ "`"
  | malformedProperty token => "malformed property `" ++ String.ofList token ++ "`"
  | emptyProperties => "empty property list"
  | inputAfterState input state =>
      "input part @" ++ Text.decimal input ++ " follows state part #" ++ Text.decimal state
  | stateWithoutInput => "state part without input part"
  | outsideFrame => "assignment outside of a frame"
  | noValue => "assignment without value"
  | malformedIndex token => "malformed array index `" ++ String.ofList token ++ "`"
  | noArrayValue => "array assignment without value"
  | expectedBinary found => "expected binary string, found `" ++ String.ofList found ++ "`"
  | unexpectedToken token => "unexpected token `" ++ String.ofList token ++ "`"
  | unterminated => "witness not terminated by `.`"

def WitnessError.message (e : WitnessError) : String :=
  "witness line " ++ Text.decimal e.line ++ ": " ++ e.fault.message

namespace Witness

def isBinary (s : List Char) : Bool :=
  !s.isEmpty && s.all fun c => c == '0' || c == '1'

def readNumber (what : String) (token : List Char) : Except WitnessFault Nat :=
  match Text.unsigned 10 (Nat.pow 2 64) token with
  | some n => .ok n
  | none => .error (.expectedNumber what token)

def valueTokens (id : Nat) (index : Option (List Char)) (bits : List Char)
    (rest : List (List Char)) : Except WitnessFault Assignment :=
  if !isBinary bits then .error (.expectedBinary bits)
  else
    match rest with
    | [] => .ok ⟨id, index, bits, none⟩
    | [symbol] => .ok ⟨id, index, bits, some symbol⟩
    | _ :: extra :: _ => .error (.unexpectedToken extra)

def bracketed (token : List Char) : Option (List Char) :=
  match token with
  | '[' :: inner =>
      match inner.reverse with
      | ']' :: r => some r.reverse
      | _ => none
  | _ => none

/-- An assignment: identifier, index of an array element if any, bits, and a
symbol if any. -/
def readAssignment (line : List Char) : Except WitnessFault Assignment := do
  let tokens := Text.words line
  let id ← readNumber "assignment id" (tokens.headD [])
  match tokens.tail with
  | [] => throw .noValue
  | first :: rest =>
      if first.head? = some '[' then
        match bracketed first with
        | some index =>
            if isBinary index then
              match rest with
              | [] => throw .noArrayValue
              | bits :: rest => valueTokens id (some index) bits rest
            else throw (.malformedIndex first)
        | none => throw (.malformedIndex first)
      else valueTokens id none first rest

/-- A property token: a letter and an index. The token is cut after its first
byte; where that lies inside a character there is no cut, and no answer. -/
def readProperty (token : List Char) : Option (Except WitnessFault Property) :=
  match token with
  | [] => none
  | c :: index =>
      if c.utf8Size ≠ 1 then none
      else if c = 'b' then some ((readNumber "property index" index).map .bad)
      else if c = 'j' then some ((readNumber "property index" index).map .justice)
      else some (.error (.malformedProperty token))

inductive Part where
  | outside
  | states
  | inputs
deriving DecidableEq

/-- The frames read so far, last first, and the part under way. -/
structure Progress where
  part : Part
  frames : List Frame

/-- Open a state part; it starts a new frame. -/
def Progress.openStates (p : Progress) (step : Nat) : Progress :=
  ⟨.states, ⟨step, [], []⟩ :: p.frames⟩

/-- Open an input part: of the frame whose state part is under way, when the
steps agree, and of a new frame when no state part is. -/
def Progress.openInputs (p : Progress) (step : Nat) : Except WitnessFault Progress :=
  match p.part, p.frames with
  | .states, frame :: _ =>
      if frame.step = step then .ok ⟨.inputs, p.frames⟩
      else .error (.inputAfterState step frame.step)
  | _, _ => .ok ⟨.inputs, ⟨step, [], []⟩ :: p.frames⟩

def Progress.assign (p : Progress) (a : Assignment) : Except WitnessFault Progress :=
  match p.part, p.frames with
  | .states, frame :: rest => .ok ⟨.states, { frame with states := frame.states ++ [a] } :: rest⟩
  | .inputs, frame :: rest => .ok ⟨.inputs, { frame with inputs := frame.inputs ++ [a] } :: rest⟩
  | _, _ => .error .outsideFrame

def Progress.line (p : Progress) (text : List Char) : Except WitnessFault Progress :=
  match text with
  | '#' :: step => return p.openStates (← readNumber "frame number" step)
  | '@' :: step => do p.openInputs (← readNumber "frame number" step)
  | _ => do p.assign (← readAssignment text)

def framesFrom (p : Progress) : List (Nat × List Char) → Except WitnessError (List Frame)
  | [] => .error ⟨0, .unterminated⟩
  | (n, text) :: rest =>
      if text = ['.'] then
        if p.part = .states then .error ⟨n, .stateWithoutInput⟩ else .ok p.frames.reverse
      else
        match p.line text with
        | .ok p => framesFrom p rest
        | .error fault => .error ⟨n, fault⟩

def numbered (n : Nat) : List (List Char) → List (Nat × List Char)
  | [] => []
  | line :: rest => (n, line) :: numbered (n + 1) rest

def meaningful (s : List Char) : List (Nat × List Char) :=
  (numbered 1 ((Text.lines s).map Text.trim)).filter fun (_, line) =>
    match line with
    | [] => false
    | c :: _ => c != ';'

/-- The properties of a line, up to the first token without an answer. -/
def readProperties : List (List Char) → Option (Except WitnessFault (List Property))
  | [] => some (.ok [])
  | token :: rest =>
      match readProperty token with
      | none => none
      | some (.error fault) => some (.error fault)
      | some (.ok p) => (readProperties rest).map fun r => r.map (p :: ·)

/-- The first witness of a text. `none` means that reading broke off without a
witness and without an error. -/
def parse (s : List Char) : Option (Except WitnessError Witness) :=
  match meaningful s with
  | [] => some (.error ⟨0, .empty⟩)
  | (n, first) :: rest =>
      if first ≠ "sat".toList then some (.error ⟨n, .expectedSat first⟩)
      else
        match rest with
        | [] => some (.error ⟨0, .noProperties⟩)
        | (n, line) :: rest =>
            (readProperties (Text.words line)).map fun
              | .error fault => .error ⟨n, fault⟩
              | .ok [] => .error ⟨n, .emptyProperties⟩
              | .ok ps => (framesFrom ⟨.outside, []⟩ rest).map fun frames => ⟨ps, frames⟩

end Witness
end Btor
end BitEquiv

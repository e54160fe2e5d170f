import BitEquiv.Execution.Shell.Token

/-!
# The grammar of shell scripts

A script is read one complete command at a time, because what comes first has run
before a fault further down is seen. Words and commands are read by the same family
of functions: a word can hold a script, and a script is made of words. Their fuel is a
bound on the depth of the calls.
-/

namespace BitEquiv
namespace Execution
namespace Shell

/-- What pieces stand in, which says what ends them and what is quoted. The mark of a
document is a word in which no sign stands for a value. -/
inductive Enclosure where
  | word
  | mark
  | double
  | braces (inDouble : Bool)
  | arithmetic
  | document
deriving DecidableEq

namespace Enclosure

def isQuoted : Enclosure → Bool
  | word => false
  | mark => false
  | braces inDouble => inDouble
  | _ => true

def escapes (e : Enclosure) (c : Char) : Bool :=
  if e.isQuoted then
    c = '\\' || c = '$' || c = Char.ofNat 96 || (c = '"' && e ≠ document)
      || (c = '\x7d' && e = braces true)
  else true

def openCause : Enclosure → Option Cause
  | double => some .openQuote
  | braces _ => some .openBrace
  | arithmetic => some .openArithmetic
  | _ => none

end Enclosure

/-- What a lookup of a token minds: whether line ends are skipped, and whether words
can be keywords. -/
structure Lookup where
  skipsLines : Bool
  keywords : Bool

namespace Lookup

def start : Lookup := ⟨true, true⟩

def here : Lookup := ⟨false, true⟩

def plain : Lookup := ⟨false, false⟩

end Lookup

/-- The text between backquotes, with its escapes resolved, and the text after it. -/
def spanBackquoted (isQuoted : Bool) : List Char → Option (List Char × List Char)
  | [] => none
  | '\\' :: '\n' :: rest => spanBackquoted isQuoted rest
  | '\\' :: c :: rest =>
      let kept :=
        if c = '\\' || c = '$' || c = Char.ofNat 96 || (isQuoted && c = '"') then [c]
        else ['\\', c]
      (spanBackquoted isQuoted rest).map fun (text, rest) => (kept ++ text, rest)
  | c :: rest =>
      if c = Char.ofNat 96 then some ([], rest)
      else (spanBackquoted isQuoted rest).map fun (text, rest) => (c :: text, rest)

/-- The name in braces, whether its length is asked for, and the text after it. -/
def spanBraced : List Char → Option (String × Bool × List Char)
  | [] => none
  | '#' :: rest =>
      let (name, after) := rest.span isNameChar
      match name, after with
      | [], c :: '\x7d' :: after =>
          if isSpecial c then some (String.ofList [c], true, '\x7d' :: after)
          else some ("#", false, rest)
      | [], _ => some ("#", false, rest)
      | _, _ => some (String.ofList name, true, after)
  | c :: rest =>
      if isNameStart c then
        let (name, after) := (c :: rest).span isNameChar
        some (String.ofList name, false, after)
      else if c.isDigit then
        let (name, after) := (c :: rest).span Char.isDigit
        some (String.ofList name, false, after)
      else if isSpecial c then some (String.ofList [c], false, rest)
      else none

/-- The sign of a use, and the text after it: first a colon, then the sign. -/
def spanUse : List Char → Bool × Option Char × List Char
  | ':' :: c :: rest =>
      if c = '-' || c = '=' || c = '?' || c = '+' then (true, some c, rest)
      else (true, none, rest)
  | c :: rest =>
      if c = '-' || c = '=' || c = '?' || c = '+' || c = '%' || c = '#' then
        (false, some c, rest)
      else (false, none, c :: rest)
  | [] => (false, none, [])

/-- The commands that the shell cannot do without; a function cannot take their
names. -/
def specialBuiltins : List String :=
  [".", ":", "break", "continue", "eval", "exec", "exit", "export", "local", "readonly",
    "return", "set", "shift", "times", "trap", "unset"]

namespace Parser

mutual

/-- Pieces up to the end of their enclosure, in front of which there are some in
reverse order. Quotes inside of quoted braces only hide a closing brace; `depth` counts
the open parentheses of arithmetic. -/
def pieces : Nat → Enclosure → (hides : Bool) → (depth : Nat) → Word → Parser Word
  | 0, _, _, _, before => pure before.reverse
  | fuel + 1, e, hides, depth, before => do
      let (joined, text) := dropJoins (← get).rest
      goDown joined text
      match text with
      | [] =>
          match e.openCause with
          | some cause => fail (if hides then .openQuote else cause)
          | none => return before.reverse
      | c :: rest =>
          if (e = .word || e = .mark) && endsWord c then return before.reverse
          goDown (if c = '\n' then 1 else 0) rest
          if c = '\\' then
            match rest with
            | [] => pieces fuel e hides depth (Word.pushText ['\\'] true before)
            | d :: rest =>
                goTo rest
                let text := if e.escapes d then [d] else ['\\', d]
                pieces fuel e hides depth (Word.pushText text true before)
          else if c = '\'' && !e.isQuoted then
            let (text, rest) := rest.span (· ≠ '\'')
            if rest.isEmpty then
              goDown (countLines text) []
              fail .openQuote
            goDown (countLines text) (rest.drop 1)
            pieces fuel e hides depth (Word.pushText text true before)
          else if c = '"' && !e.isQuoted then
            let inner ← pieces fuel .double false 0 []
            let inner := if inner.isEmpty then [.text [] true] else inner
            pieces fuel e hides depth (inner.reverse ++ before)
          else if c = '"' && e = .double then return before.reverse
          else if c = '"' && e = .braces true then pieces fuel e (!hides) depth before
          else if c = '\x7d' && (e = .braces true || e = .braces false) && !hides then
            return before.reverse
          else if c = '(' && e = .arithmetic then
            pieces fuel e hides (depth + 1) (Word.pushText ['('] true before)
          else if c = ')' && e = .arithmetic then
            match depth, rest with
            | depth + 1, _ => pieces fuel e hides depth (Word.pushText [')'] true before)
            | 0, ')' :: rest =>
                goTo rest
                return before.reverse
            | 0, _ => pieces fuel e hides depth (Word.pushText [')'] true before)
          else if c = '$' && e ≠ .mark then
            let piece ← value fuel e
            match piece with
            | some piece => pieces fuel e hides depth (piece :: before)
            | none => pieces fuel e hides depth (Word.pushText ['$'] e.isQuoted before)
          else if c = Char.ofNat 96 && e ≠ .mark then
            let line := (← get).line
            match spanBackquoted (e = .double) rest with
            | none => do
                goDown (countLines rest) []
                fail .openBackquote
            | some (text, after) =>
                check fuel text
                goDown (countLines rest - countLines after) after
                pieces fuel e hides depth (.output text line e.isQuoted :: before)
          else pieces fuel e hides depth (Word.pushText [c] e.isQuoted before)

def check : Nat → List Char → Parser Unit
  | 0, _ => pure ()
  | fuel + 1, text => do
      let outer ← get
      set { Reader.ofText text outer.line 0 with rest := text }
      discard (compound fuel true)
      match ← next fuel .plain with
      | .finish => set outer
      | t => unexpected t none

/-- What a dollar sign stands for; nothing when it stands for itself. -/
def value : Nat → Enclosure → Parser (Option Piece)
  | 0, _ => pure none
  | fuel + 1, e => do
      let (joined, text) := dropJoins (← get).rest
      match text with
      | '(' :: '(' :: rest =>
          goDown joined rest
          let body ← pieces fuel .arithmetic false 0 []
          return some (.arithmetic body e.isQuoted)
      | '(' :: rest =>
          goDown joined rest
          let outer ← get
          set { outer with ahead := none, announced := [] }
          discard (compound fuel true)
          match ← next fuel .plain with
          | .sign ")" =>
              let inner ← get
              let script := rest.take (rest.length - inner.rest.length - 1)
              set { outer with rest := inner.rest, line := inner.line }
              return some (.output script outer.line e.isQuoted)
          | t => unexpected t (some "\")\"")
      | '\x7b' :: rest =>
          goDown joined rest
          return some (← braced fuel e)
      | c :: rest =>
          if isNameStart c then
            let (name, after) := (c :: rest).span isNameChar
            goDown joined after
            return some (.parameter (String.ofList name) .value e.isQuoted)
          else if isSpecial c || c.isDigit then
            goDown joined rest
            return some (.parameter (String.ofList [c]) .value e.isQuoted)
          else return none
      | [] => return none

def braced : Nat → Enclosure → Parser Piece
  | 0, e => pure (.parameter "" .bad e.isQuoted)
  | fuel + 1, e => do
      let quoted := e.isQuoted
      match spanBraced (← get).rest with
      | none =>
          discard (pieces fuel (.braces quoted) false 0 [])
          return .parameter "" .bad quoted
      | some (name, isLength, rest) =>
          let (alsoEmpty, sign, after) := spanUse rest
          if rest.head? = some '\x7d' then
            goTo (rest.drop 1)
            return .parameter name (if isLength then .length else .value) quoted
          else if isLength || sign.isNone then
            goTo (if rest.head? = some '\n' then rest.drop 1 else rest)
            discard (pieces fuel (.braces quoted) false 0 [])
            return .parameter name .bad quoted
          else if sign = some '%' || sign = some '#' then
            let longest := after.head? = sign
            goTo (if longest then after.drop 1 else after)
            let pattern ← pieces fuel (.braces false) false 0 []
            return .parameter name (.trim (sign = some '%') longest pattern) quoted
          else
            goTo after
            let word ← pieces fuel (.braces quoted) false 0 []
            let use : Use :=
              match sign with
              | some '-' => .otherwise alsoEmpty word
              | some '=' => .assign alsoEmpty word
              | some '?' => .demand alsoEmpty word
              | _ => .instead alsoEmpty word
            return .parameter name use quoted

def scan : Nat → Enclosure → Parser Token
  | 0, _ => pure .finish
  | fuel + 1, e => do
      let (joined, text) := dropJoins (← get).rest
      goDown joined text
      match text with
      | [] => return .finish
      | c :: rest =>
          if c = ' ' || c = '\t' then
            goTo (rest.dropWhile fun c => c = ' ' || c = '\t')
            scan fuel e
          else if c = '#' then
            goTo (rest.dropWhile (· ≠ '\n'))
            scan fuel e
          else if c = '\n' then
            goDown 1 rest
            return .newline
          else
            match readSign signs text with
            | some (sign, rest) =>
                goTo rest
                return .sign sign
            | none =>
                let w ← pieces fuel e false 0 []
                let rest := (← get).rest
                match w.bare?, readSign redirectionSigns rest with
                | some [], some (sign, rest) =>
                    goTo rest
                    return .redirection none sign
                | some [d], some (sign, rest) =>
                    if d.isDigit then
                      goTo rest
                      return .redirection (Text.digitValue d) sign
                    else return .word w
                | _, _ => return .word w

def next : Nat → Lookup → Parser Token
  | 0, _ => pure .finish
  | fuel + 1, look => do
      let r ← get
      let t ←
        match r.ahead with
        | some t => do
            set { r with ahead := none }
            pure t
        | none => do
            let before := (← get).rest.length
            let t ← scan fuel .word
            if look.keywords then unaliased fuel before t else pure t
      if t.isNewline && look.skipsLines then
        readDocuments fuel
        next fuel look
      else return if look.keywords then t.asKeyword else t

/-- A token that names a command, in front of which some characters were left: the first
token of the text that it stands for. -/
def unaliased : Nat → Nat → Token → Parser Token
  | 0, _, t => pure t
  | fuel + 1, before, t => do
      let r ← get
      match t with
      | .word [.text name false] =>
          let name := String.ofList name
          let isOpen := r.aliasEnds.any fun (other, rest) => other = name && rest < before
          match r.aliases.lookup name with
          | some text =>
              if isOpen then return t
              let length := r.rest.length
              set { r with
                rest := text.toList ++ r.rest
                aliasEnds := (name, length) :: r.aliasEnds }
              let inner := (← get).rest.length
              unaliased fuel inner (← scan fuel .word)
          | none => return t
      | _ => return t

def readDocuments : Nat → Parser Unit
  | 0 => pure ()
  | fuel + 1 => do
      let r ← get
      match r.announced with
      | [] => return
      | d :: announced =>
          let (text, lines) := spanDocument d (Text.splitBy (· == '\n') r.rest)
          let rest := ['\n'].intercalate lines
          let r := { r with
            announced := announced
            rest := rest
            line := r.line + (countLines r.rest - countLines rest) }
          if d.isPlain then
            set { r with documents := (d.id, [.text text true]) :: r.documents }
          else
            set { r with rest := text }
            let body ← pieces fuel .document false 0 []
            set { r with documents := (d.id, body) :: r.documents }
          readDocuments fuel

def redirect : Nat → Option Nat → String → Parser Redirect
  | 0, _, _ => pure ⟨0, .copy []⟩
  | fuel + 1, descriptor, sign => do
      let isDocument := sign = "<<" || sign = "<<-"
      let w ←
        match ← if isDocument then scan fuel .mark else next fuel .plain with
        | .word w => pure w
        | t => unexpected t none
      let target : Target ←
        if isDocument then do
          let r ← get
          let d : Announced := ⟨r.nextId, w.text, sign = "<<-", w.hasQuotes⟩
          set { r with announced := r.announced ++ [d], nextId := r.nextId + 1 }
          pure (.document d.id)
        else if sign = "<&" || sign = ">&" then pure (.copy w)
        else if sign = "<" then pure (.file .read w)
        else if sign = ">>" then pure (.file .append w)
        else if sign = "<>" then pure (.file .both w)
        else if sign = ">|" then pure (.file .overwrite w)
        else pure (.file .write w)
      return ⟨descriptor.getD (if sign.startsWith "<" then 0 else 1), target⟩

def redirects : Nat → Parser (List Redirect)
  | 0 => pure []
  | fuel + 1 => do
      match ← next fuel .here with
      | .redirection descriptor sign =>
          let first ← redirect fuel descriptor sign
          return first :: (← redirects fuel)
      | t =>
          putBack t
          return []

/-- A list of commands inside of another one, up to a token that ends it. Some lists
may be empty. -/
def compound : Nat → (mayEnd : Bool) → Parser Script
  | 0, _ => pure .nothing
  | fuel + 1, mayEnd => do
      let t ← next fuel .start
      putBack t
      if t.isFinish then
        readDocuments fuel
        return .nothing
      else if mayEnd && t.endsList then return .nothing
      else
        let first ← joined fuel
        match ← next fuel .plain with
        | .sign "&" => return .sequence (.background first) (← compound fuel true)
        | .sign ";" => return .sequence first (← compound fuel true)
        | .newline =>
            putBack .newline
            return .sequence first (← compound fuel true)
        | t =>
            if t.isFinish then readDocuments fuel
            putBack t
            return first

def joined : Nat → Parser Script
  | 0 => pure .nothing
  | fuel + 1 => do
      let first ← pipeline fuel .plain
      joinedAfter fuel first

def joinedAfter : Nat → Script → Parser Script
  | 0, first => pure first
  | fuel + 1, first => do
      match ← next fuel .plain with
      | .sign "&&" =>
          let second ← pipeline fuel .start
          joinedAfter fuel (.both first second)
      | .sign "||" =>
          let second ← pipeline fuel .start
          joinedAfter fuel (.either first second)
      | t =>
          putBack t
          return first

def pipeline : Nat → Lookup → Parser Script
  | 0, _ => pure .nothing
  | fuel + 1, look => do
      let t ← next fuel look
      let negated := t.isKeyword "!"
      if !negated then putBack t
      let first ← command fuel (if negated then .here else .plain)
      let rest ← stages fuel
      let script := if rest.isEmpty then first else .pipe (first :: rest)
      return if negated then .negated script else script

def stages : Nat → Parser (List Script)
  | 0 => pure []
  | fuel + 1 => do
      match ← next fuel .plain with
      | .sign "|" =>
          let first ← command fuel .start
          return first :: (← stages fuel)
      | t =>
          putBack t
          return []

def expect : Nat → Lookup → String → Parser Unit
  | 0, _, _ => pure ()
  | fuel + 1, look, text => do
      let t ← next fuel look
      if t.isKeyword text || t.isSign text then return
      else unexpected t (some ("\"" ++ text ++ "\""))

def command : Nat → Lookup → Parser Script
  | 0, _ => pure .nothing
  | fuel + 1, look => do
      let t ← next fuel look
      let line := (← get).line
      match t with
      | .keyword "if" =>
          let script ← conditional fuel
          redirected fuel line script
      | .keyword "while" =>
          let condition ← compound fuel false
          let body ← doBody fuel .plain
          redirected fuel line (.loop false condition body)
      | .keyword "until" =>
          let condition ← compound fuel false
          let body ← doBody fuel .plain
          redirected fuel line (.loop true condition body)
      | .keyword "for" =>
          let script ← forLoop fuel line
          redirected fuel line script
      | .keyword "case" =>
          match ← next fuel .plain with
          | .word subject =>
              expect fuel .start "in"
              let arms ← caseArms fuel
              redirected fuel line (.choice line subject arms)
          | t => unexpected t (some "word")
      | .keyword "\x7b" =>
          let body ← compound fuel false
          expect fuel .plain "\x7d"
          redirected fuel line body
      | .sign "(" =>
          let body ← compound fuel false
          expect fuel .plain ")"
          return .subshell line body (← redirects fuel)
      | .word w =>
          putBack (.word w)
          simple fuel line [] [] []
      | .redirection descriptor sign =>
          putBack (.redirection descriptor sign)
          simple fuel line [] [] []
      | t => unexpected t none

def redirected : Nat → Nat → Script → Parser Script
  | 0, _, script => pure script
  | fuel + 1, line, script => do
      let found ← redirects fuel
      return if found.isEmpty then script else .redirected line script found

def conditional : Nat → Parser Script
  | 0 => pure .nothing
  | fuel + 1 => do
      let condition ← compound fuel false
      expect fuel .plain "then"
      let yes ← compound fuel false
      match ← next fuel .plain with
      | .keyword "elif" => return .cond condition yes (← conditional fuel)
      | .keyword "else" =>
          let no ← compound fuel false
          expect fuel .plain "fi"
          return .cond condition yes no
      | .keyword "fi" => return .cond condition yes .nothing
      | t => unexpected t (some "\"fi\"")

def doBody : Nat → Lookup → Parser Script
  | 0, _ => pure .nothing
  | fuel + 1, look => do
      expect fuel look "do"
      let body ← compound fuel false
      expect fuel .plain "done"
      return body

def forLoop : Nat → Nat → Parser Script
  | 0, _ => pure .nothing
  | fuel + 1, line => do
      match ← next fuel .plain with
      | .word [.text name false] =>
          if !isName name then fail .loopVariable
          match ← next fuel .start with
          | .keyword "in" =>
              let words ← loopWords fuel
              return .each line (String.ofList name) words (← doBody fuel .start)
          | t =>
              if !t.isSign ";" then putBack t
              let all : Word := [.parameter "@" .value true]
              return .each line (String.ofList name) [all] (← doBody fuel .start)
      | _ => fail .loopVariable

def loopWords : Nat → Parser (List Word)
  | 0 => pure []
  | fuel + 1 => do
      match ← next fuel .plain with
      | .word w => return w :: (← loopWords fuel)
      | .newline =>
          readDocuments fuel
          return []
      | .sign ";" => return []
      | t => unexpected t none

def caseArms : Nat → Parser (List (List Word × Script))
  | 0 => pure []
  | fuel + 1 => do
      let t ← next fuel .start
      if t.isKeyword "esac" then return []
      let t ← if t.isSign "(" then next fuel .plain else pure t
      let patterns ← casePatterns fuel t
      let body ← compound fuel true
      let t ← next fuel .start
      if t.isKeyword "esac" then return [(patterns, body)]
      else if t.isSign ";;" then return (patterns, body) :: (← caseArms fuel)
      else unexpected t (some "\";;\"")

/-- The patterns of an arm, of which the first token was looked at. -/
def casePatterns : Nat → Token → Parser (List Word)
  | 0, _ => pure []
  | fuel + 1, t => do
      let w : Word :=
        match t with
        | .word w => w
        | .keyword text => [.text text.toList false]
        | _ => []
      match ← next fuel .plain with
      | .sign "|" => return w :: (← casePatterns fuel (← next fuel .plain))
      | .sign ")" => return [w]
      | t => unexpected t (some "\")\"")

def simple : Nat → Nat → List Word → List Word → List Redirect → Parser Script
  | 0, line, settings, words, found => pure (.simple line settings words found)
  | fuel + 1, line, settings, words, found => do
      match ← next fuel .plain with
      | .word w =>
          if words.isEmpty && w.setting?.isSome then
            simple fuel line (settings ++ [w]) words found
          else simple fuel line settings (words ++ [w]) found
      | .redirection descriptor sign =>
          let r ← redirect fuel descriptor sign
          simple fuel line settings words (found ++ [r])
      | t =>
          match t, settings, words, found with
          | .sign "(", [], [w], [] =>
              expect fuel .plain ")"
              let name := w.bare?.getD []
              if !isName name || specialBuiltins.contains (String.ofList name) then
                fail .functionName
              return .define (String.ofList name) (← command fuel .start)
          | _, _, _, _ =>
              putBack t
              return .simple line settings words found

end

/-- Complete commands up to the end of a line; nothing when the text is at its end. -/
def line : Nat → (isFirst : Bool) → Parser (Option Script)
  | 0, _ => pure none
  | fuel + 1, isFirst => do
      let t ← next fuel .here
      if t.isNewline then
        readDocuments fuel
        return some .nothing
      else if t.isFinish then
        readDocuments fuel
        if !isFirst then putBack t
        return if isFirst then none else some .nothing
      else
        putBack t
        let first ← joined fuel
        let more (script : Script) : Parser (Option Script) := do
          let rest ← line fuel false
          return some (script.andThen (rest.getD .nothing))
        match ← next fuel .plain with
        | .sign "&" => more (.background first)
        | .sign ";" => more first
        | .newline =>
            putBack .newline
            more first
        | .finish =>
            readDocuments fuel
            return some first
        | t => unexpected t none

end Parser

def readingFuel (text : List Char) : Nat := 16 * text.length + 64

/-- The next complete command of a script, and what is left to read. -/
def Reader.command (r : Reader) : Except Fault (Option Script × Reader) :=
  Parser.line (readingFuel r.rest) true r

end Shell
end Execution
end BitEquiv

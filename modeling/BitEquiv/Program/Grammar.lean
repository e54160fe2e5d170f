import BitEquiv.Program.Token

/-!
# What a text was expected to hold

A text that is no program is explained by the furthest place that any rule of the
grammar was tried at without success, and by the rules tried there.

The grammar is data, and `run` follows it with ordered choice and greedy
repetition, skipping blanks and comments between the parts. Attempts are noted
in `Attempts`. A rule that fails stands for the rules inside it that failed at
the same place, unless exactly one did: then that one is the better explanation.
-/

namespace BitEquiv
namespace Program
namespace Grammar

/-- The rules that an explanation can name, in the order in which it names
them. -/
inductive Rule where
  | eoi
  | ident
  | numeral
  | kwProgram
  | kwInput
  | kwLet
  | kwOutput
  | boolSort
  | bvSort
  | sort
  | hexLit
  | binLit
  | boolLit
  | operator
  | app
  | expr
  | header
  | inputDecl
  | letDecl
  | outputDecl
  | program
deriving DecidableEq

namespace Rule

def all : List Rule :=
  [eoi, ident, numeral, kwProgram, kwInput, kwLet, kwOutput, boolSort, bvSort, sort, hexLit, binLit,
   boolLit, operator, app, expr, header, inputDecl, letDecl, outputDecl, program]

def name : Rule → String
  | eoi => "EOI"
  | ident => "ident"
  | numeral => "numeral"
  | kwProgram => "kw_program"
  | kwInput => "kw_input"
  | kwLet => "kw_let"
  | kwOutput => "kw_output"
  | boolSort => "bool_sort"
  | bvSort => "bv_sort"
  | sort => "sort"
  | hexLit => "hex_lit"
  | binLit => "bin_lit"
  | boolLit => "bool_lit"
  | operator => "operator"
  | app => "app"
  | expr => "expr"
  | header => "header"
  | inputDecl => "input_decl"
  | letDecl => "let_decl"
  | outputDecl => "output_decl"
  | program => "program"

end Rule

inductive Pattern where
  | token (rule : Rule)
  | mark (c : Char)
  | rule (rule : Rule)
  | seq (first second : Pattern)
  | alt (first second : Pattern)
  | many (p : Pattern)

def some? (p : Char → Bool) (s : List Char) : Option (List Char) :=
  match s with
  | c :: rest => if p c then some (rest.dropWhile p) else none
  | [] => none

def after? (start : String) (s : List Char) : Option (List Char) :=
  if start.toList.isPrefixOf s then some (s.drop start.length) else none

def boundary? (s : List Char) : Option (List Char) :=
  match s with
  | c :: _ => if Token.isWordChar c then none else some s
  | [] => some s

def ident? (s : List Char) : Option (List Char) :=
  match s with
  | c :: rest => if Token.isWordStart c then some (rest.dropWhile Token.isWordChar) else none
  | [] => none

def keyword? (word : String) (s : List Char) : Option (List Char) :=
  (after? word s).bind boundary?

/-- The text after the token that a rule stands for. Rules that have parts stand
for no token. -/
def token? (s : List Char) : Rule → Option (List Char)
  | .eoi => if s.isEmpty then some [] else none
  | .ident => ident? s
  | .numeral => some? Char.isDigit s
  | .kwProgram => keyword? "program" s
  | .kwInput => keyword? "input" s
  | .kwLet => keyword? "let" s
  | .kwOutput => keyword? "output" s
  | .boolSort => keyword? "bool" s
  | .bvSort => ((after? "bv" s).bind (some? Char.isDigit)).bind boundary?
  | .hexLit => (after? "#x" s).bind (some? Token.isHexDigit)
  | .binLit => (after? "#b" s).bind (some? fun c => c == '0' || c == '1')
  | .boolLit => ((after? "true" s).or (after? "false" s)).bind boundary?
  | .operator => ((after? "=>" s).or (after? "=" s)).or (ident? s)
  | _ => none

def parts (first : Pattern) : List Pattern → Pattern
  | [] => first
  | second :: rest => .seq first (parts second rest)

def body : Rule → Pattern
  | .sort => .alt (.token .boolSort) (.token .bvSort)
  | .app =>
      parts (.mark '(')
        [.token .operator, .many (.token .numeral), .many (.rule .expr), .mark ')']
  | .expr =>
      .alt (.rule .app)
        (.alt (.token .hexLit) (.alt (.token .binLit) (.alt (.token .boolLit) (.token .ident))))
  | .header => parts (.token .kwProgram) [.token .ident]
  | .inputDecl => parts (.token .kwInput) [.token .ident, .mark ':', .rule .sort]
  | .letDecl =>
      parts (.token .kwLet) [.token .ident, .mark ':', .rule .sort, .mark '=', .rule .expr]
  | .outputDecl =>
      parts (.token .kwOutput) [.token .ident, .mark ':', .rule .sort, .mark '=', .rule .expr]
  | .program =>
      parts (.rule .header)
        [.many (.alt (.rule .inputDecl) (.alt (.rule .letDecl) (.rule .outputDecl))), .token .eoi]
  | r => .token r

structure Cursor where
  pos : Nat
  rest : List Char

def Cursor.moveTo (c : Cursor) (rest : List Char) : Cursor :=
  ⟨c.pos + Text.total ((c.rest.take (c.rest.length - rest.length)).map Char.utf8Size), rest⟩

def skipBlank : Bool → List Char → List Char
  | _, [] => []
  | true, c :: rest => skipBlank (c != '\n') rest
  | false, c :: rest =>
      if Token.isBlank c then skipBlank false rest
      else if c == ';' then skipBlank true rest
      else c :: rest

def Cursor.skip (c : Cursor) : Cursor := c.moveTo (skipBlank false c.rest)

/-- The rules that failed at the furthest place of failure, in order. -/
structure Attempts where
  pos : Nat
  rules : List Rule

namespace Attempts

def count (a : Attempts) (pos : Nat) : Nat := if pos = a.pos then a.rules.length else 0

/-- Note that a rule failed that was tried at `pos` when `before` rules had
failed there. -/
def note (a : Attempts) (rule : Rule) (pos before : Nat) : Attempts :=
  if a.count pos = before + 1 then a
  else if pos = a.pos then ⟨pos, a.rules.take before ++ [rule]⟩
  else if a.pos < pos then ⟨pos, [rule]⟩
  else a

end Attempts

/-- Follow a pattern from a cursor. `fuel` bounds the depth; the attempts are
kept whatever the outcome. -/
def run : Nat → Pattern → Cursor → Attempts → Option Cursor × Attempts
  | 0, _, _, a => (none, a)
  | fuel + 1, p, c, a =>
      match p with
      | .token r =>
          match token? c.rest r with
          | some rest => (some (c.moveTo rest), a)
          | none => (none, a.note r c.pos (a.count c.pos))
      | .mark m =>
          match c.rest with
          | x :: rest => if x == m then (some (c.moveTo rest), a) else (none, a)
          | [] => (none, a)
      | .rule r =>
          match run fuel (body r) c a with
          | (some d, b) => (some d, b)
          | (none, b) => (none, b.note r c.pos (a.count c.pos))
      | .seq first second =>
          match run fuel first c a with
          | (some d, b) => run fuel second d.skip b
          | (none, b) => (none, b)
      | .alt first second =>
          match run fuel first c a with
          | (some d, b) => (some d, b)
          | (none, b) => run fuel second c b
      | .many q =>
          match run fuel q c a with
          | (none, b) => (some c, b)
          | (some d, b) =>
              match run fuel (.many q) d.skip b with
              | (some e, b) =>
                  if e.rest.length < d.skip.rest.length then (some e, b) else (some d, b)
              | (none, b) => (some d, b)

/-- The furthest attempts on a text. The depth of a pattern in another is at most
the number of its parts, and every round of a repetition consumes a character. -/
def explain (s : List Char) : Attempts :=
  (run (64 * (s.length + 1)) (.rule .program) (Cursor.skip ⟨0, s⟩) ⟨0, []⟩).2

def enumeration : List String → String
  | [] => ""
  | [a] => a
  | [a, b] => a ++ " or " ++ b
  | names => String.intercalate ", " names.dropLast ++ ", or " ++ names.getLastD ""

def Attempts.text (a : Attempts) : String :=
  enumeration ((Rule.all.filter (· ∈ a.rules)).map Rule.name)

end Grammar
end Program
end BitEquiv

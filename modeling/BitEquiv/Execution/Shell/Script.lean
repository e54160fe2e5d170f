import BitEquiv.Execution.Shell.Word

/-!
# Shell scripts

A script is a command: a simple one with its words, or one that is made of others.
Commands carry the number of the line that complaints name.
-/

namespace BitEquiv
namespace Execution
namespace Shell

/-- How a file is opened. A file that is written need not be there where the shell
keeps old files; one that is written over may always be. -/
inductive Opening where
  | read
  | write
  | overwrite
  | append
  | both
deriving DecidableEq

/-- What a descriptor is connected with: a file, what another descriptor is connected
with, or a document in the script. -/
inductive Target where
  | file (opening : Opening) (path : Word)
  | copy (source : Word)
  | document (id : Nat)

structure Redirect where
  descriptor : Nat
  target : Target

inductive Script where
  | nothing
  | simple (line : Nat) (settings words : List Word) (redirects : List Redirect)
  | pipe (stages : List Script)
  | negated (script : Script)
  | background (script : Script)
  | sequence (first second : Script)
  | both (first second : Script)
  | either (first second : Script)
  | subshell (line : Nat) (body : Script) (redirects : List Redirect)
  | redirected (line : Nat) (body : Script) (redirects : List Redirect)
  | loop (isUntil : Bool) (condition body : Script)
  | each (line : Nat) (name : String) (words : List Word) (body : Script)
  | cond (condition yes no : Script)
  | choice (line : Nat) (subject : Word) (arms : List (List Word × Script))
  | define (name : String) (body : Script)

namespace Script

def isNothing : Script → Bool
  | nothing => true
  | _ => false

def andThen (first second : Script) : Script :=
  if first.isNothing then second else sequence first second

end Script
end Shell
end Execution
end BitEquiv

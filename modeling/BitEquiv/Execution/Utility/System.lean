import BitEquiv.Text.Octet
import BitEquiv.Execution.Files

/-!
# The system around a file tree

Some paths lead to something whatever the file tree holds: the usual directories, the
programs, and the devices. Paths are octets.
-/

namespace BitEquiv
namespace Execution
namespace System

open Text (Octet.toText)

def programs : List String := [
  "[", "arch", "base64", "basename", "bash", "cat", "chmod", "cksum", "cmp", "comm", "cp", "cut",
  "dash", "date", "dd", "diff", "dirname", "echo", "egrep", "env", "expand", "expr", "factor",
  "false", "fgrep", "find", "fold", "grep", "head", "hostname", "id", "install", "join", "link",
  "ln", "ls", "md5sum", "mkdir", "mktemp", "mv", "nice", "nl", "nohup", "nproc", "od", "paste",
  "printenv", "printf", "pwd", "readlink", "realpath", "rev", "rm", "rmdir", "sed", "seq",
  "setsid", "sh", "sha1sum", "sha256sum", "sleep", "sort", "split", "stat", "stdbuf", "sync",
  "tac", "tail", "tee", "test", "timeout", "touch", "tr", "true", "truncate", "tty", "uname",
  "unexpand", "uniq", "unlink", "wc", "which", "whoami", "xargs", "yes"]

def programDirectories : List String := ["/bin/", "/usr/bin/"]

def programAt? (path : String) : Option String :=
  programDirectories.findSome? fun dir =>
    if path.startsWith dir then
      let name := (path.drop dir.length).toString
      if programs.contains name then some name else none
    else none

def directories : List String :=
  ["/", "/bin", "/dev", "/etc", "/home", "/lib", "/proc", "/root", "/sbin", "/tmp", "/usr",
    "/usr/bin", "/usr/lib", "/usr/local", "/usr/local/bin", "/var", "/var/tmp"]

def devices : List String :=
  ["/dev/null", "/dev/zero", "/dev/full", "/dev/tty", "/dev/stdin", "/dev/stdout",
    "/dev/stderr", "/dev/urandom", "/dev/random"]

inductive Kind where
  | file (size : Nat)
  | program
  | directory
  | device
deriving DecidableEq

def kind? (files : Files) (path : String) : Option Kind :=
  if devices.contains path then some .device
  else if (programAt? path).isSome then some .program
  else
    let path := Octet.toText path
    match files.find? path with
    | some .directory => some .directory
    | some (.file bytes) => some (.file bytes.length)
    | none => if directories.contains path then some .directory else none

def isDirectory (files : Files) (path : String) : Bool :=
  kind? files path = some .directory

def isStartable (files : Files) (path : String) : Bool :=
  match kind? files path with
  | some .program => true
  | some (.file _) =>
      ((files.resolve (Octet.toText path)).map files.startable.contains).getD false
  | _ => false

/-- How recently something was written: what was written last comes first. -/
def age? (files : Files) (path : String) : Option Nat :=
  (files.resolve (Octet.toText path)).bind fun place =>
    files.entries.findIdx? fun e => e.1 = place

end System
end Execution
end BitEquiv

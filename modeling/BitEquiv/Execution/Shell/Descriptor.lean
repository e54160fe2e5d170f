import BitEquiv.Execution.Utility.System
import BitEquiv.Execution.Shell.Expansion

/-!
# Redirections

A redirection connects a descriptor with a file, with what another descriptor is
connected with, or with a document of the script.
-/

namespace BitEquiv
namespace Execution
namespace Shell

open Text (Octet.toText)

namespace State

/-- Connect a descriptor with the file at a path; the reason why not otherwise. -/
def openFile (opening : Opening) (path : String) (descriptor : Nat) (s : State) :
    Except String State :=
  let connected (c : Channel) (s : State) : State :=
    let (id, world) := s.world.addChannel c
    { s with world := world }.connect descriptor id
  let shared (source : Nat) : Except String State :=
    match s.channel? source with
    | some id => .ok (s.connect descriptor id)
    | none => .error ("cannot open " ++ path ++ ": No such file")
  let plain := Octet.toText path
  match path with
  | "/dev/stdin" | "/dev/fd/0" => shared 0
  | "/dev/stdout" | "/dev/fd/1" => shared 1
  | "/dev/stderr" | "/dev/fd/2" => shared 2
  | _ =>
      if System.devices.contains path then .ok (connected .nothing s)
      else
        match opening with
        | .read =>
            match s.world.files.find? plain with
            | some (.file _) =>
                match s.world.files.resolve plain with
                | some place => .ok (connected (.file place 0 .read) s)
                | none => .error ("cannot open " ++ path ++ ": No such file")
            | some .directory => .ok (connected (.source []) s)
            | none =>
                if System.isDirectory s.world.files path then .ok (connected (.source []) s)
                else .error ("cannot open " ++ path ++ ": No such file")
        | _ =>
            match s.world.files.target plain with
            | .error .isDirectory => .error ("cannot create " ++ path ++ ": Is a directory")
            | .error _ => .error ("cannot create " ++ path ++ ": Directory nonexistent")
            | .ok place =>
                let old := (s.world.files.read? plain).getD []
                let isThere := (s.world.files.node? place).isSome
                if opening = .write && isThere && s.has 'C' then
                  .error ("cannot create " ++ path ++ ": File exists")
                else
                  let files :=
                    if opening = .write || opening = .overwrite then
                      s.world.files.put place (.file [])
                    else if isThere then s.world.files
                    else s.world.files.put place (.file old)
                  let s := { s with world := { s.world with files := files } }
                  .ok (connected (.file place 0 opening) s)

def copyDescriptor (word : String) (descriptor : Nat) (s : State) : Except String State :=
  if word = "-" then .ok (s.disconnect descriptor)
  else
    match word.toList with
    | [d] =>
        if d.isDigit then
          match s.channel? (d.toNat - '0'.toNat) with
          | some id => .ok (s.connect descriptor id)
          | none => .error (word ++ ": Bad file descriptor")
        else .error "Syntax error: Bad fd number"
    | _ => .error "Syntax error: Bad fd number"

end State

/-- Make redirections in turn. Whether all could be made; a complaint has been printed
otherwise. -/
def redirect (capture : Capturer) : List Redirect → Action Bool
  | [] => pure true
  | r :: rest => do
      let result ←
        match r.target with
        | .file opening path => do
            let path ← Expansion.text capture path
            pure ((← get).openFile opening path r.descriptor)
        | .copy source => do
            let word ← Expansion.text capture source
            pure ((← get).copyDescriptor word r.descriptor)
        | .document id => do
            let body := ((← get).documents.lookup id).getD []
            let atoms ← Expansion.wordAtoms capture body
            let text := (Atom.marks atoms).map (·.char)
            let s ← get
            let (id, world) := s.world.addChannel (.source text)
            pure (.ok ({ s with world := world }.connect r.descriptor id))
      match result with
      | .ok s =>
          set s
          redirect capture rest
      | .error complaint =>
          modify fun s => (s.warn complaint).withStatus 2
          return false

end Shell
end Execution
end BitEquiv

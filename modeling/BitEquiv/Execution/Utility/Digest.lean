import BitEquiv.Text.Checksum
import BitEquiv.Execution.Utility.Show

/-!
# Digests and codes

Digests of files, which can be checked against lists of them, and the code in which
octets are written with 64 characters.
-/

namespace BitEquiv
namespace Execution
namespace Utility

open Text (Octet.toBytes Octet.toText)
open Job (inQuotes plainComplaint)

/-! ## Digests -/

def digestLine? (length : Nat) (line : List Char) : Option (String × String) :=
  let digest := line.takeWhile fun c => (Text.digitValue c).isSome
  match line.drop digest.length with
  | ' ' :: mark :: name =>
      if digest.length = length && (mark = ' ' || mark = '*') then
        some (String.ofList digest, String.ofList name)
      else none
  | _ => none

/-- What came out of a check: digests that were computed, those that did not match, and
files that could not be read. -/
structure Tally where
  computed : Nat
  wrong : Nat
  unread : Nat

def checkDigests (digest : Text.Bytes → String) (p : Job.Parsed) (list : String)
    (text : List Char) (j : Job) : Job :=
  let length := (digest []).length
  let found := (Text.wholeLines text).1.filterMap (digestLine? length)
  if found.isEmpty then j.complain (list ++ ": no properly formatted checksum lines found")
  else
    let say (j : Job) (isOk : Bool) (line : String) : Job :=
      if p.has 'S' || (p.has 'Q' && isOk) then j else j.printLine line
    let start : Job × Tally := (j, ⟨0, 0, 0⟩)
    let (j, tally) := found.foldl
      (fun (j, t) (wanted, name) =>
        match j.readOperand name with
        | .error fault =>
            let j := j.complain (plainComplaint name fault)
            (say j false (name ++ ": FAILED open or read"), { t with unread := t.unread + 1 })
        | .ok text =>
            let isOk := digest (Octet.toBytes text) = wanted.toLower
            let j := say j isOk (name ++ (if isOk then ": OK" else ": FAILED"))
            (j, ⟨t.computed + 1, if isOk then t.wrong else t.wrong + 1, t.unread⟩))
      start
    let warn (n : Nat) (one many : String) (j : Job) : Job :=
      if n = 0 then j
      else if p.has 'S' then j.withStatus 1
      else
        let text := if n = 1 then one else many
        j.complain ("WARNING: " ++ Text.decimal n ++ " " ++ text)
    warn tally.wrong "computed checksum did NOT match" "computed checksums did NOT match"
      (warn tally.unread "listed file could not be read" "listed files could not be read" j)

def digestSum (kind : String) (digest : Text.Bytes → String) : Utility :=
  Job.withOptions
    (Job.switches [('b', "binary"), ('c', "check"), ('t', "text"), ('z', "zero"), ('T', "tag"),
      ('S', "status"), ('Q', "quiet"), ('w', "warn")])
    1 fun p j =>
      let (found, j) := j.gather p.operands plainComplaint
      found.foldl
        (fun j (name, text) =>
          if p.has 'c' then checkDigests digest p name text j
          else
            let sum := digest (Octet.toBytes text)
            if p.has 'T' then j.printLine (kind ++ " (" ++ name ++ ") = " ++ sum)
            else j.printLine (sum ++ (if p.has 'b' then " *" else "  ") ++ name))
        j

def sha256sum : Utility := digestSum "SHA256" Text.sha256

def sha1sum : Utility := digestSum "SHA1" Text.sha1

def md5sum : Utility := digestSum "MD5" Text.md5

def cksum : Utility :=
  Job.withOptions [] 1 fun p j =>
    let (found, j) := j.gather p.operands plainComplaint
    found.foldl
      (fun j (name, text) =>
        let crc := Text.crc (Octet.toBytes text)
        let shown := if p.operands.isEmpty then "" else " " ++ name
        j.printLine (Text.decimal crc.toNat ++ " " ++ Text.decimal text.length ++ shown))
      j

/-! ## Codes -/

def codeAlphabet : List Char :=
  "ABCDEFGHIJKLMNOPQRSTUVWXYZabcdefghijklmnopqrstuvwxyz0123456789+/".toList

def encodeOctets : List Char → List Char
  | [] => []
  | [a] => (digits 2 (a.toNat * 16)) ++ ['=', '=']
  | [a, b] => (digits 3 ((a.toNat * 256 + b.toNat) * 4)) ++ ['=']
  | a :: b :: c :: rest =>
      digits 4 ((a.toNat * 256 + b.toNat) * 256 + c.toNat) ++ encodeOctets rest
where
  /-- The characters for a number, the highest first. -/
  digits : Nat → Nat → List Char
    | 0, _ => []
    | count + 1, n => digits count (n / 64) ++ [codeAlphabet.getD (n % 64) 'A']

/-- The octets of a group of four characters, which may end with marks for none. -/
def decodeGroup (group : List Char) : Option (List Char) :=
  let kept := group.takeWhile fun c => codeAlphabet.contains c
  let marks := group.drop kept.length
  if kept.length < 2 || group.length ≠ 4 || marks.any (· ≠ '=') then none
  else
    let n := (kept ++ marks.map fun _ => 'A').foldl (fun n c => n * 64 + codeAlphabet.idxOf c) 0
    some (([n / 65536, n / 256 % 256, n % 256].take (kept.length - 1)).map Char.ofNat)

/-- The octets of groups up to the first one that is none, and whether there is no such
one. -/
def decodeGroups : List (List Char) → List Char × Bool
  | [] => ([], true)
  | group :: rest =>
      match decodeGroup group with
      | some octets =>
          let (more, isWhole) := decodeGroups rest
          (octets ++ more, isWhole)
      | none =>
          let padded := group ++ List.replicate (4 - group.length) '='
          let front := padded.takeWhile fun c => codeAlphabet.contains c
          let padded := front ++ List.replicate (4 - front.length) '='
          ((decodeGroup padded).getD [], false)

/-- Write octets with characters of six bits each, or read such a text. -/
def base64 : Utility :=
  Job.withOptions
    (Job.switches [('d', "decode"), ('i', "ignore-garbage")] ++ Job.takers [('w', "wrap")])
    1 fun p j =>
      match p.operands with
      | _ :: extra :: _ => j.misuse 1 ("extra operand " ++ inQuotes extra)
      | operands =>
          let operand := operands.headD "-"
          match j.readOperand operand with
          | .error fault => j.complain (plainComplaint operand fault)
          | .ok text =>
              let j := j.afterRead operand
              if p.has 'd' then
                let isCode (c : Char) : Bool := codeAlphabet.contains c || c = '='
                let text := text.filter fun c => if p.has 'i' then isCode c else c ≠ '\n'
                let (octets, isWhole) := decodeGroups (chunks 4 (text.length + 1) text)
                let j := j.print octets
                if isWhole then j else j.complain "invalid input"
              else
                let code := encodeOctets text
                match ((p.last? 'w').bind fun w => Text.natural? w.toList).getD 76 with
                | 0 => j.print code
                | width + 1 =>
                    (chunks (width + 1) (code.length + 1) code).foldl
                      (fun j line => j.print (line ++ ['\n'])) j

end Utility
end Execution
end BitEquiv

import Mathlib.Algebra.Order.Floor.Div
import Mathlib.GroupTheory.GroupAction.Ring
import BitEquiv.Bench.Replay
import BitEquiv.Proofs.Program.Agreement
import BitEquiv.Proofs.Program.RoundTrip

/-!
# Inputs as bytes

The fields in the bytes of a program's inputs have no marks between them. The sorts of the
inputs say where each field ends, and a field of as many bytes as the bits of a value fill has
the whole value.
-/

namespace BitEquiv
namespace Bench

open Logic

namespace Replay

/-!
## One field
-/

/-- The number that bytes write, the lowest byte first. -/
def littleEndian : Text.Bytes → Nat
  | [] => 0
  | b :: bytes => b.toNat + 256 * littleEndian bytes

theorem littleEndian_lowBytes {count n : Nat} (h : n < 256 ^ count) :
    littleEndian (lowBytes count n) = n := by
  induction count generalizing n with
  | zero =>
      rw [Nat.pow_zero, Nat.lt_one_iff] at h
      rw [h]
      rfl
  | succ count ih =>
      have hrest : n / 256 < 256 ^ count := by
        rw [Nat.pow_succ] at h
        exact (Nat.div_lt_iff_lt_mul (by decide)).mpr h
      have hbyte : (UInt8.ofNat (n % 256)).toNat = n % 256 :=
        UInt8.toNat_ofNat_of_lt' (Nat.mod_lt n (by decide))
      rw [lowBytes, littleEndian, hbyte, ih hrest, Nat.mod_add_div]

/-- The least number of bytes is that of the bits, rounded up. -/
theorem byteCount_eq {s : BvSort} (hs : s.isValid = true) : byteCount s = s.width ⌈/⌉ 8 := by
  have hpos : 1 ≤ s.width := by
    cases s with
    | bool => exact Nat.le_refl 1
    | bitVec w => exact (Term.isValid_bitVec.mp hs).1
  rw [Nat.ceilDiv_eq_add_pred_div]
  unfold byteCount
  omega

theorem raw_lt_bytes {v : Value} {s : BvSort} (hv : v.InSort s) : v.raw < 256 ^ byteCount s := by
  have hbits : s.width ≤ 8 * byteCount s := by
    unfold byteCount
    omega
  calc v.raw < 2 ^ s.width := Value.raw_lt hv
    _ ≤ 2 ^ (8 * byteCount s) := Nat.pow_le_pow_right (by decide) hbits
    _ = 256 ^ byteCount s := Nat.pow_mul 2 8 _

/-!
## All fields
-/

def inputBytes (values : Env) (input : String × BvSort) : Text.Bytes :=
  lowBytes (byteCount input.2) ((values.get? input.1).getD (.zero input.2)).raw

theorem encodeInputs_eq (p : Program) (values : Env) :
    encodeInputs p values = p.inputs.flatMap (inputBytes values) :=
  rfl

def readNumbers : List BvSort → Text.Bytes → List Nat
  | [], _ => []
  | s :: rest, bytes =>
      littleEndian (bytes.take (s.width ⌈/⌉ 8)) :: readNumbers rest (bytes.drop (s.width ⌈/⌉ 8))

def IsValue (values : Env) (input : String × BvSort) (n : Nat) : Prop :=
  ∃ v, values.get? input.1 = some v ∧ v.raw = n ∧ .ofRaw input.2 n = v

section Fields

variable {values : Env} {inputs : List (String × BvSort)}

theorem length_flatMap_inputBytes (hvalid : ∀ input ∈ inputs, input.2.isValid = true) :
    (inputs.flatMap (inputBytes values)).length =
      (inputs.map fun input => input.2.width ⌈/⌉ 8).sum := by
  rw [List.length_flatMap]
  apply congrArg
  apply List.map_congr_left
  intro input hinput
  rw [inputBytes, lowBytes_length, byteCount_eq (hvalid input hinput)]

theorem readNumbers_flatMap (hvalid : ∀ input ∈ inputs, input.2.isValid = true)
    (hvalues : ∀ input ∈ inputs, ∃ v, values.get? input.1 = some v ∧ v.InSort input.2) :
    List.Forall₂ (IsValue values) inputs
      (readNumbers (inputs.map (·.2)) (inputs.flatMap (inputBytes values))) := by
  induction inputs with
  | nil => exact .nil
  | cons input inputs ih =>
      rcases List.forall_mem_cons.mp hvalid with ⟨hsort, hvalid⟩
      rcases List.forall_mem_cons.mp hvalues with ⟨⟨v, hv, hin⟩, hvalues⟩
      have hlength : (inputBytes values input).length = input.2.width ⌈/⌉ 8 := by
        rw [inputBytes, lowBytes_length, byteCount_eq hsort]
      have hfirst : littleEndian (inputBytes values input) = v.raw := by
        rw [inputBytes, hv, Option.getD_some, littleEndian_lowBytes (raw_lt_bytes hin)]
      rw [List.map_cons, List.flatMap_cons, readNumbers, List.take_left' hlength,
        List.drop_left' hlength, hfirst]
      exact .cons ⟨v, hv, rfl, Value.ofRaw_raw hin⟩ (ih hvalid hvalues)

theorem get?_of_isValue {values' : Env} {ns : List Nat}
    (h : List.Forall₂ (IsValue values) inputs ns) (h' : List.Forall₂ (IsValue values') inputs ns) :
    ∀ input ∈ inputs, values.get? input.1 = values'.get? input.1 := by
  induction h with
  | nil => simp
  | cons hfirst _ ih =>
      cases h' with
      | cons hfirst' hrest' =>
          rcases hfirst with ⟨v, hv, _, hvalue⟩
          rcases hfirst' with ⟨v', hv', _, hvalue'⟩
          refine List.forall_mem_cons.mpr ⟨?_, ih hrest'⟩
          rw [hv, hv', ← hvalue, ← hvalue']

end Fields

/-- The bytes of the inputs of a loaded program are as many as the bits of each input fill,
they are read back as the values of the inputs, and so no two assignments share them. -/
theorem encodeInputs_reads {text : List Char} {p : Program} (h : Program.load text = .ok p)
    {values : Env} (hvalues : p.FitsValues values) :
    (encodeInputs p values).length = (p.inputs.map fun input => input.2.width ⌈/⌉ 8).sum ∧
      List.Forall₂ (IsValue values) p.inputs
        (readNumbers (p.inputs.map (·.2)) (encodeInputs p values)) ∧
      ∀ values', p.FitsValues values' → encodeInputs p values = encodeInputs p values' →
        ∀ x s, (x, s) ∈ p.inputs → values.get? x = values'.get? x := by
  have hvalid := (Program.load_wellFormed h).valid
  have hread := readNumbers_flatMap hvalid fun input hinput => hvalues input.1 input.2 hinput
  refine ⟨length_flatMap_inputBytes hvalid, hread, ?_⟩
  intro values' hvalues' hbytes x s hx
  have hread' := readNumbers_flatMap hvalid fun input hinput => hvalues' input.1 input.2 hinput
  rw [← encodeInputs_eq, ← hbytes, encodeInputs_eq] at hread'
  exact get?_of_isValue hread hread' (x, s) hx

/-- A word that fills no whole number of bytes, in front of a truth value. -/
def chosen : Program :=
  ⟨"chosen", [("a", .bitVec 12), ("f", .bool)],
    [⟨"r", .bitVec 12, .ite (.var "f") (.var "a") (.bvLit 1 12), true⟩]⟩

theorem load_chosen : Program.load chosen.text.toList = .ok chosen := by
  refine Program.load_text
    ⟨by decide, by decide, ⟨rfl, Term.hasSort_of_sortOf rfl, trivial⟩, by decide⟩
    ⟨by decide, by decide, ?_⟩
  have ha : Program.Writable (.var "a") := .var (by decide) (by decide) (by decide)
  have hf : Program.Writable (.var "f") := .var (by decide) (by decide) (by decide)
  have hone : Program.Writable (.bvLit 1 12) := .bvLit (by decide) (by decide)
  intro b hb
  rw [List.mem_singleton.mp hb]
  refine ⟨by decide, @Program.Writable.app .ite [] [.var "f", .var "a", .bvLit 1 12] _ (by decide)
    rfl (by decide) ?_⟩
  simp [ha, hf, hone]

theorem encodeInputs_reads_chosen :
    Program.load chosen.text.toList = .ok chosen ∧
      encodeInputs chosen [("a", .word 0xabc 12), ("f", .bool true)] = [0xbc, 0x0a, 0x01] ∧
      readNumbers [.bitVec 12, .bool] [0xbc, 0x0a, 0x01] = [0xabc, 1] ∧
      List.Forall₂ (IsValue [("a", .word 0xabc 12), ("f", .bool true)]) chosen.inputs
        (readNumbers [.bitVec 12, .bool] [0xbc, 0x0a, 0x01]) := by
  have hvalues : chosen.FitsValues [("a", .word 0xabc 12), ("f", .bool true)] := by
    intro x s hx
    rcases List.mem_cons.mp hx with hx | hx
    · cases hx
      exact ⟨.word 0xabc 12, rfl, rfl, by decide⟩
    · cases List.mem_singleton.mp hx
      exact ⟨.bool true, rfl, rfl, by decide⟩
  exact ⟨load_chosen, by decide, by decide, (encodeInputs_reads load_chosen hvalues).2.1⟩

end Replay
end Bench
end BitEquiv

import Mathlib.Algebra.Group.Nat.Defs
import Mathlib.Data.Nat.Basic

/-! Numbers as strings of bytes of some width, with the lowest byte first. -/

namespace LittleEndian

/-- The bytes of a number, as many as the width asks for. -/
def encode : Nat → Nat → List UInt8
  | 0, _ => []
  | width + 1, value => UInt8.ofNat value :: encode width (value / 256)

/-- The number that some bytes stand for. -/
def decode : List UInt8 → Nat
  | [] => 0
  | byte :: bytes => byte.toNat + 256 * decode bytes

@[simp] theorem encode_length (width value : Nat) : (encode width value).length = width := by
  induction width generalizing value with
  | zero => rfl
  | succ width ih => simp [encode, ih]

/-- A number that some bytes stand for fits into as many. -/
theorem decode_lt (bytes : List UInt8) : decode bytes < 256 ^ bytes.length := by
  induction bytes with
  | nil => simp [decode]
  | cons byte bytes ih =>
    have low := byte.toNat_lt
    rw [decode, List.length_cons, Nat.pow_succ]
    omega

/-- A number that fits is read back from its bytes. -/
theorem decode_encode {width value : Nat} (fits : value < 256 ^ width) :
    decode (encode width value) = value := by
  -- The lowest byte is the remainder, and the other ones stand for the quotient.
  induction width generalizing value with
  | zero =>
    rw [Nat.pow_zero] at fits
    rw [encode, decode]
    omega
  | succ width ih =>
    rw [Nat.pow_succ] at fits
    have quotient : value / 256 < 256 ^ width := Nat.div_lt_of_lt_mul (by omega)
    have remainder : (UInt8.ofNat value).toNat = value % 256 := UInt8.toNat_ofNat'
    rw [encode, decode, ih quotient, remainder]
    omega

/-- Bytes are written again for the number that they stand for. -/
theorem encode_decode (bytes : List UInt8) : encode bytes.length (decode bytes) = bytes := by
  induction bytes with
  | nil => rfl
  | cons byte bytes ih =>
    have low := byte.toNat_lt
    have quotient : (byte.toNat + 256 * decode bytes) / 256 = decode bytes := by omega
    have remainder : UInt8.ofNat (byte.toNat + 256 * decode bytes) = byte := by
      apply UInt8.toNat_inj.mp
      rw [UInt8.toNat_ofNat']
      omega
    rw [List.length_cons, encode, decode, quotient, remainder, ih]

/-- A number that stands first in some bytes, and what follows it, can be told from the bytes. -/
theorem encode_append_inj {width value value' : Nat} {rest rest' : List UInt8}
    (fits : value < 256 ^ width) (fits' : value' < 256 ^ width)
    (same : encode width value ++ rest = encode width value' ++ rest') :
    value = value' ∧ rest = rest' := by
  obtain ⟨first, after⟩ := List.append_inj same (by simp)
  have decoded := congrArg decode first
  rw [decode_encode fits, decode_encode fits'] at decoded
  exact ⟨decoded, after⟩

end LittleEndian

import Mathlib.Data.Set.Card
import GemDroid.Lib.Evenly
import GemDroid.Mem.AddrRangeRun
import GemDroid.Mem.Dram

/-! How many addresses of its range the DRAM controller decodes to one row. -/

namespace GemDroid

namespace DramConfig

variable (config : DramConfig) (range : AddrRange) (cacheLineSize : Nat)

/-- What the constructor checks of a configuration, for a system with some cache line. -/
structure Accepted : Prop where
  /-- The capacity is the size of the range, rounded up to a power of two. -/
  capacity : config.capacity = 2 ^ Nat.clog 2 range.size.toNat
  /-- The field that selects the stripe lies in an address. -/
  field : range.intlvBits ≤ range.intlvHighBit + 1
  high : range.intlvHighBit < 64
  channels : range.interleaved = true → config.channels = range.stripes.toNat
  granularity : range.interleaved = true → range.granularity.toNat =
    if config.addrMapping = .RoRaBaChCo then config.rowBufferSize else cacheLineSize

variable {config range cacheLineSize}

theorem Accepted.channels_eq (accepted : config.Accepted range cacheLineSize)
    (mixed : range.interleaved = true) : config.channels = 2 ^ range.intlvBits := by
  have stripes : range.stripes.toNat = 2 ^ range.intlvBits % 2 ^ 32 := by
    simp [AddrRange.stripes, Nat.shiftLeft_eq]
  have some_channel := config.channels_pos
  rw [accepted.channels mixed, stripes] at some_channel ⊢
  have few : range.intlvBits < 32 := by
    by_contra many
    have whole : 2 ^ 32 ∣ 2 ^ range.intlvBits := Nat.pow_dvd_pow 2 (by omega)
    rw [Nat.mod_eq_zero_of_dvd whole] at some_channel
    omega
  exact Nat.mod_eq_of_lt (Nat.pow_lt_pow_right (by omega) few)

theorem Accepted.granularity_eq (accepted : config.Accepted range cacheLineSize)
    (mixed : range.interleaved = true) :
    range.granularity.toNat = 2 ^ (range.intlvHighBit + 1 - range.intlvBits) := by
  have some_bit : range.intlvBits ≠ 0 := by simpa [AddrRange.interleaved] using mixed
  have high := accepted.high
  have inside : 2 ^ (range.intlvHighBit + 1 - range.intlvBits) < 2 ^ 64 :=
    Nat.pow_lt_pow_right (by omega) (by omega)
  simp only [AddrRange.granularity, BitVec.toNat_shiftLeft, BitVec.toNat_ofNat, Nat.shiftLeft_eq]
  omega

theorem Accepted.contains_iff_owner (accepted : config.Accepted range cacheLineSize)
    (mixed : range.interleaved = true) {width : Nat}
    (bursts : range.granularity.toNat = config.burstSize * width) {a : Addr}
    (aligned : config.burstSize ∣ a.toNat) :
    range.contains a = true ↔ range.start ≤ a ∧ a ≤ range.last ∧
      Stripes.owner width config.channels (a.toNat / config.burstSize) = range.intlvMatch := by
  obtain ⟨t, at_burst⟩ := aligned
  have field := accepted.field
  have digits : range.intlvHighBit + 1 - (range.intlvHighBit + 1 - range.intlvBits) =
      range.intlvBits := by omega
  have stripe : range.stripe a =
      Stripes.owner width config.channels (a.toNat / config.burstSize) := by
    rw [AddrRange.stripe, bits, digits, Nat.shiftRight_eq_div_pow,
      ← accepted.granularity_eq mixed, bursts, Stripes.owner, accepted.channels_eq mixed, at_burst,
      Nat.mul_div_cancel_left t config.burstSize_pos,
      Nat.mul_div_mul_left t width config.burstSize_pos]
  rw [AddrRange.contains_iff, stripe]
  simp only [mixed, forall_const]

end DramConfig

end GemDroid

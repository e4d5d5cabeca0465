import GemDroid.Lib.Stripes
import GemDroid.Mem.AddrRangeRun
import Mathlib.Data.Set.Card

/-! The stripes of one region: who holds an address, what they merge to, and how many they hold. -/

namespace GemDroid

namespace AddrRange

variable {start last : Addr} {high k : Nat} {a : Addr} {r : AddrRange}

/-- The ranges of all stripes of one region, in the order of their matches. -/
def family (start last : Addr) (high k : Nat) : List AddrRange :=
  (List.range (2 ^ k)).map fun i =>
    { start, last, intlvHighBit := high, intlvBits := k, intlvMatch := i }

theorem mem_family : r ∈ family start last high k ↔
    ∃ i < 2 ^ k, r = { start, last, intlvHighBit := high, intlvBits := k, intlvMatch := i } := by
  simp only [family, List.mem_map, List.mem_range, eq_comm]

theorem contains_iff_owner (field : k ≤ high + 1) (member : r ∈ family start last high k) :
    r.contains a = true ↔ start ≤ a ∧ a ≤ last ∧
      Stripes.owner (2 ^ (high + 1 - k)) (2 ^ k) a.toNat = r.intlvMatch := by
  obtain ⟨i, real, rfl⟩ := mem_family.mp member
  have slice : stripe { start, last, intlvHighBit := high, intlvBits := k, intlvMatch := i } a =
      Stripes.owner (2 ^ (high + 1 - k)) (2 ^ k) a.toNat := by
    have width : high + 1 - (high + 1 - k) = k := by omega
    simp only [stripe, bits, Stripes.owner, width, Nat.shiftRight_eq_div_pow]
  rw [contains_iff, slice]
  -- Without interleaving there is one owner, and its number is the match of the one range.
  rcases Nat.eq_zero_or_pos k with rfl | mixed
  · have first : i = 0 := by omega
    have alone := Stripes.owner_lt (2 ^ (high + 1 - 0)) (Nat.two_pow_pos 0) a.toNat
    simp only [interleaved, first]
    constructor
    · rintro ⟨above, below, -⟩
      exact ⟨above, below, by omega⟩
    · rintro ⟨above, below, -⟩
      exact ⟨above, below, by simp⟩
  · have mixed : interleaved
        { start, last, intlvHighBit := high, intlvBits := k, intlvMatch := i } = true := by
      simp only [interleaved, bne_iff_ne]
      omega
    simp only [mixed, forall_const]

theorem family_exactly_one (field : k ≤ high + 1) (above : start ≤ a) (below : a ≤ last) :
    ∃! r, r ∈ family start last high k ∧ r.contains a = true := by
  have real : Stripes.owner (2 ^ (high + 1 - k)) (2 ^ k) a.toNat < 2 ^ k :=
    Stripes.owner_lt _ (Nat.two_pow_pos k) _
  have member : { start, last, intlvHighBit := high, intlvBits := k, intlvMatch := _ } ∈
      family start last high k := mem_family.mpr ⟨_, real, rfl⟩
  refine ⟨_, ⟨member, (contains_iff_owner field member).mpr ⟨above, below, rfl⟩⟩, ?_⟩
  rintro other ⟨listed, holds⟩
  have same := ((contains_iff_owner field listed).mp holds).2.2
  obtain ⟨i, -, rfl⟩ := mem_family.mp listed
  simp only [same]

theorem merge_family (bytes : k ≤ 8) : merge (family start last high k) = .ok
    { start, last, intlvHighBit := 0, intlvBits := 0, intlvMatch := 0 } := by
  obtain ⟨n, some_range⟩ : ∃ n, 2 ^ k = n + 1 :=
    ⟨2 ^ k - 1, by have := Nat.two_pow_pos k; omega⟩
  have head : ∃ tail, family start last high k =
      { start, last, intlvHighBit := high, intlvBits := k, intlvMatch := 0 } :: tail := by
    rw [family, some_range, List.range_succ_eq_map, List.map_cons]
    exact ⟨_, rfl⟩
  obtain ⟨tail, shape⟩ := head
  have number : (family start last high k).length = 2 ^ k := by
    rw [family, List.length_map, List.length_range]
  have alike : (family start last high k).all (mergesWith
      { start, last, intlvHighBit := high, intlvBits := k, intlvMatch := 0 }) = true := by
    rw [List.all_eq_true]
    intro r member
    obtain ⟨i, -, rfl⟩ := mem_family.mp member
    simp [mergesWith]
  -- A match is a byte, so counting the matches up to `2 ^ k` does not wrap.
  have counted : (family start last high k).map intlvMatch =
      (List.range (2 ^ k)).map (· % 2 ^ 8) := by
    rw [family, List.map_map]
    refine List.map_congr_left fun i listed => ?_
    have real : i < 2 ^ k := List.mem_range.mp listed
    have bound : 2 ^ k ≤ 2 ^ 8 := Nat.pow_le_pow_right (by omega) bytes
    rw [Function.comp_apply, Nat.mod_eq_of_lt (by omega)]
  rw [shape] at number alike counted ⊢
  simp only [merge, number, alike, counted]
  simp

theorem contains_merged (field : k ≤ high + 1) :
    contains { start, last, intlvHighBit := 0, intlvBits := 0, intlvMatch := 0 } a = true ↔
      ∃ r ∈ family start last high k, r.contains a = true := by
  simp only [contains_iff, interleaved, bne_self_eq_false, Bool.false_eq_true, false_implies,
    and_true]
  constructor
  · rintro ⟨above, below⟩
    obtain ⟨r, ⟨member, holds⟩, -⟩ := family_exactly_one field above below
    exact ⟨r, member, contains_iff.mp holds⟩
  · rintro ⟨r, member, above, below, -⟩
    obtain ⟨i, -, rfl⟩ := mem_family.mp member
    exact ⟨above, below⟩

theorem toNat_contained (field : k ≤ high + 1) (member : r ∈ family start last high k) :
    (fun a : Addr => a.toNat) '' {a | r.contains a = true} =
      ((Finset.Ico start.toNat (last.toNat + 1)).filter fun x =>
        Stripes.owner (2 ^ (high + 1 - k)) (2 ^ k) x = r.intlvMatch : Finset Nat) := by
  ext x
  simp only [Set.mem_image, Set.mem_ofPred_eq, Finset.coe_filter, Finset.mem_Ico,
    contains_iff_owner field member, BitVec.le_def]
  constructor
  · rintro ⟨a, ⟨above, below, held⟩, rfl⟩
    exact ⟨⟨above, by omega⟩, held⟩
  · rintro ⟨⟨above, below⟩, held⟩
    have fits : x < 2 ^ 64 := by have := last.isLt; omega
    refine ⟨BitVec.ofNat 64 x, ?_, by simpa using fits⟩
    rw [BitVec.toNat_ofNat, Nat.mod_eq_of_lt fits]
    exact ⟨above, by omega, held⟩

theorem toNat_size (member : r ∈ family start last high k) (ordered : start.toNat ≤ last.toNat + 1)
    (no_wrap : last.toNat + 1 - start.toNat < 2 ^ 64) :
    r.size.toNat = (last.toNat + 1 - start.toNat) / 2 ^ k := by
  obtain ⟨i, -, rfl⟩ := mem_family.mp member
  have length : (last - start + 1).toNat = last.toNat + 1 - start.toNat := by
    have := last.isLt
    have := start.isLt
    have one : (1 : Addr).toNat = 1 := rfl
    rw [BitVec.toNat_add, BitVec.toNat_sub, one]
    omega
  rw [size, BitVec.toNat_ushiftRight, length, Nat.shiftRight_eq_div_pow]

theorem toNat_round (bytes : k ≤ 8) (shift : high + 1 - k < 64)
    (member : r ∈ family start last high k) :
    (r.granularity * r.stripes.setWidth 64).toNat = 2 ^ (high + 1 - k) * 2 ^ k % 2 ^ 64 := by
  obtain ⟨i, -, rfl⟩ := mem_family.mp member
  have low : 2 ^ (high + 1 - k) < 2 ^ 64 := Nat.pow_lt_pow_right (by omega) shift
  have narrow : 2 ^ k < 2 ^ 32 := Nat.pow_lt_pow_right (by omega) (by omega)
  have wide : 2 ^ k < 2 ^ 64 := by omega
  simp only [granularity, stripes, BitVec.toNat_mul, BitVec.toNat_shiftLeft, BitVec.toNat_ofNat,
    BitVec.toNat_setWidth, Nat.shiftLeft_eq]
  simp only [Nat.mod_eq_of_lt, low, narrow, wide, Nat.one_mul, Nat.one_mod]

/-- A region of whole rounds is divided evenly, and `size` is the share of each range. -/
theorem ncard_contained (bytes : k ≤ 8) (field : k ≤ high + 1) (shift : high + 1 - k < 64)
    (member : r ∈ family start last high k) (ordered : start.toNat ≤ last.toNat + 1)
    (no_wrap : last.toNat + 1 - start.toNat < 2 ^ 64)
    (rounds : (r.granularity * r.stripes.setWidth 64).toNat ∣ last.toNat + 1 - start.toNat) :
    {a | r.contains a = true}.ncard = r.size.toNat := by
  have injective : Function.Injective fun a : Addr => a.toNat := fun a b => BitVec.eq_of_toNat_eq
  have real : r.intlvMatch < 2 ^ k := by
    obtain ⟨i, real, rfl⟩ := mem_family.mp member
    exact real
  rw [← Set.ncard_image_of_injective _ injective, toNat_contained field member,
    Set.ncard_coe_finset, toNat_size member ordered no_wrap]
  rw [toNat_round bytes shift member] at rounds
  -- A round that is longer than the address space only divides the empty region.
  rcases Nat.lt_or_ge (high + 1 - k + k) 64 with fits | long
  · have fits : 2 ^ (high + 1 - k) * 2 ^ k < 2 ^ 64 := by
      rw [← Nat.pow_add]
      exact Nat.pow_lt_pow_right (by omega) fits
    rw [Nat.mod_eq_of_lt fits] at rounds
    obtain ⟨count, whole⟩ := rounds
    have region : last.toNat + 1 = start.toNat + count * (2 ^ (high + 1 - k) * 2 ^ k) := by
      rw [Nat.mul_comm count, ← whole]
      omega
    rw [whole, region, Stripes.card_rounds (Nat.two_pow_pos _) real, Nat.mul_right_comm,
      Nat.mul_div_cancel _ (Nat.two_pow_pos k), Nat.mul_comm]
  · have wraps : 2 ^ 64 ∣ 2 ^ (high + 1 - k) * 2 ^ k := by
      rw [← Nat.pow_add]
      exact Nat.pow_dvd_pow 2 long
    rw [Nat.mod_eq_zero_of_dvd wraps, Nat.zero_dvd] at rounds
    have none_left : Finset.Ico start.toNat (last.toNat + 1) = ∅ :=
      Finset.Ico_eq_empty (by omega)
    rw [rounds, none_left]
    simp

/--
The stripes of one region divide it among them, merge back to it, and have the size they state.

The matches are bytes, and the field that selects the stripe begins at a bit of the address.
-/
theorem family_divides (start last : Addr) {high k : Nat} (bytes : k ≤ 8) (field : k ≤ high + 1)
    (shift : high + 1 - k < 64) :
    (∀ a, start ≤ a ∧ a ≤ last → ∃! r, r ∈ family start last high k ∧ r.contains a = true) ∧
    (∀ a, ¬ (start ≤ a ∧ a ≤ last) → ∀ r ∈ family start last high k, r.contains a = false) ∧
    (∃ whole, merge (family start last high k) = .ok whole ∧
      ∀ a, whole.contains a = true ↔ ∃ r ∈ family start last high k, r.contains a = true) ∧
    ∀ r ∈ family start last high k, start.toNat ≤ last.toNat + 1 →
      last.toNat + 1 - start.toNat < 2 ^ 64 →
      (r.granularity * r.stripes.setWidth 64).toNat ∣ last.toNat + 1 - start.toNat →
      {a | r.contains a = true}.ncard = r.size.toNat := by
  refine ⟨fun a inside => family_exactly_one field inside.1 inside.2, ?_,
    ⟨_, merge_family bytes, fun a => contains_merged field⟩,
    fun r member => ncard_contained bytes field shift member⟩
  intro a outside r member
  rw [← Bool.not_eq_true]
  intro holds
  obtain ⟨above, below, -⟩ := (contains_iff_owner field member).mp holds
  exact outside ⟨above, below⟩

/-- Two owners of 64-byte stripes share a region that begins in the middle of a stripe. -/
theorem two_stripes_divide :
    merge (family 0x60#64 0x15f#64 6 1) = .ok
      { start := 0x60#64, last := 0x15f#64, intlvHighBit := 0, intlvBits := 0, intlvMatch := 0 } ∧
    ∀ r ∈ family 0x60#64 0x15f#64 6 1, {a | r.contains a = true}.ncard = 128 := by
  obtain ⟨-, -, -, shares⟩ :=
    family_divides 0x60#64 0x15f#64 (show 1 ≤ 8 by decide) (show 1 ≤ 6 + 1 by decide) (by decide)
  have whole_rounds : ∀ r ∈ family 0x60#64 0x15f#64 6 1,
      (r.granularity * r.stripes.setWidth 64).toNat = 128 ∧ r.size.toNat = 128 := by decide
  refine ⟨by decide, fun r member => ?_⟩
  obtain ⟨rounds, size⟩ := whole_rounds r member
  rw [shares r member (by decide) (by decide) (by rw [rounds]; decide), size]

end AddrRange

end GemDroid

import Mathlib.Data.BitVec

/-! Words split into the start of an aligned range and an offset into it. -/

namespace Align

variable {w : Nat}

/-- The first word of the range around a word. -/
def align (n : Nat) (x : BitVec w) : BitVec w :=
  x &&& ~~~BitVec.ofNat w (n - 1)

/-- How far a word stands into its range. -/
def offset (n : Nat) (x : BitVec w) : Nat :=
  (x &&& BitVec.ofNat w (n - 1)).toNat

/-- A word is the start of its range and its offset. -/
theorem align_add_offset (n : Nat) (x : BitVec w) :
    align n x + BitVec.ofNat w (offset n x) = x := by
  -- The two parts share no bit, so adding them joins them.
  have disjoint : align n x &&& (x &&& BitVec.ofNat w (n - 1)) = 0#w := by
    apply BitVec.eq_of_getLsbD_eq
    intro i _
    simp only [align, BitVec.getLsbD_and, BitVec.getLsbD_not, BitVec.getLsbD_zero]
    cases (BitVec.ofNat w (n - 1)).getLsbD i <;> simp
  rw [offset, BitVec.ofNat_toNat, BitVec.setWidth_eq, BitVec.add_eq_or_of_and_eq_zero _ _ disjoint]
  apply BitVec.eq_of_getLsbD_eq
  intro i inside
  simp only [align, BitVec.getLsbD_or, BitVec.getLsbD_and, BitVec.getLsbD_not, inside]
  cases x.getLsbD i <;> cases (BitVec.ofNat w (n - 1)).getLsbD i <;> simp

theorem align_align (n : Nat) (x : BitVec w) : align n (align n x) = align n x := by
  simp only [align, BitVec.and_assoc, BitVec.and_self]

section

variable {n m : Nat} (power : n = 2 ^ m) (narrow : m < w)

include power narrow

theorem offset_eq_mod (x : BitVec w) : offset n x = x.toNat % n := by
  have fits : 2 ^ m < 2 ^ w := Nat.pow_lt_pow_right (by omega) narrow
  rw [offset, BitVec.toNat_and, BitVec.toNat_ofNat, power,
    Nat.mod_eq_of_lt (by omega : 2 ^ m - 1 < 2 ^ w), Nat.and_two_pow_sub_one_eq_mod]

theorem offset_lt (x : BitVec w) : offset n x < n := by
  rw [offset_eq_mod power narrow]
  exact Nat.mod_lt _ (by rw [power]; exact Nat.two_pow_pos m)

theorem align_toNat (x : BitVec w) : (align n x).toNat = x.toNat / n * n := by
  have below : (align n x).toNat ≤ x.toNat := by
    rw [align, BitVec.toNat_and]
    exact Nat.and_le_left
  have small := offset_lt power narrow x
  have fits : n < 2 ^ w := by
    rw [power]
    exact Nat.pow_lt_pow_right (by omega) narrow
  -- The sum of the parts does not overflow, since the first is no more than the whole.
  have sum := congrArg BitVec.toNat (align_add_offset n x)
  have wide := x.isLt
  rw [BitVec.toNat_add, BitVec.toNat_ofNat, Nat.mod_eq_of_lt (by omega : offset n x < 2 ^ w)] at sum
  have whole : (align n x).toNat + offset n x = x.toNat := by
    rcases Nat.lt_or_ge ((align n x).toNat + offset n x) (2 ^ w) with fine | beyond
    · rwa [Nat.mod_eq_of_lt fine] at sum
    · rw [Nat.mod_eq_sub_mod beyond, Nat.mod_eq_of_lt (by omega)] at sum
      -- An overflow would make the whole smaller than its offset.
      have part := offset_eq_mod power narrow x
      have least := Nat.mod_le x.toNat n
      omega
  rw [offset_eq_mod power narrow] at whole
  have split := Nat.div_add_mod' x.toNat n
  omega

theorem align_eq_iff (x y : BitVec w) : align n x = align n y ↔ x.toNat / n = y.toNat / n := by
  have positive : 0 < n := by
    rw [power]
    exact Nat.two_pow_pos m
  rw [← BitVec.toNat_inj, align_toNat power narrow, align_toNat power narrow,
    Nat.mul_left_inj (by omega)]

theorem offset_align (x : BitVec w) : offset n (align n x) = 0 := by
  rw [offset_eq_mod power narrow, align_toNat power narrow, Nat.mul_mod_left]

/-- A step that stays within the range moves the offset only. -/
theorem add_within {x : BitVec w} {k : Nat} (within : offset n x + k < n) :
    align n (x + BitVec.ofNat w k) = align n x ∧
      offset n (x + BitVec.ofNat w k) = offset n x + k := by
  have positive : 0 < n := by omega
  obtain ⟨c, words⟩ : ∃ c, 2 ^ w = c * n := by
    refine ⟨2 ^ (w - m), ?_⟩
    rw [power, ← Nat.pow_add]
    congr 1
    omega
  have below := x.isLt
  rw [offset_eq_mod power narrow] at within
  have split := Nat.div_add_mod' x.toNat n
  have quotient : x.toNat / n < c := by
    rw [Nat.div_lt_iff_lt_mul positive, ← words]
    exact below
  have room : (x.toNat / n + 1) * n ≤ c * n := Nat.mul_le_mul_right n quotient
  have fits : x.toNat + k < 2 ^ w := by
    rw [words]
    rw [Nat.add_mul] at room
    omega
  have sum : (x + BitVec.ofNat w k).toNat = x.toNat + k := by
    rw [BitVec.toNat_add, BitVec.toNat_ofNat, Nat.mod_eq_of_lt (by omega : k < 2 ^ w),
      Nat.mod_eq_of_lt fits]
  have divided : (x.toNat + k) / n = x.toNat / n := by
    refine Nat.div_eq_of_lt_le ?_ ?_
    · omega
    · rw [Nat.add_mul]
      omega
  constructor
  · rw [align_eq_iff power narrow, sum, divided]
  · rw [offset_eq_mod power narrow, offset_eq_mod power narrow, sum]
    have also := Nat.div_add_mod' (x.toNat + k) n
    rw [divided] at also
    omega

/-- A word at a distance that stays within the range is of the range. -/
theorem align_of_sub_lt {x y : BitVec w} {size : Nat} (within : offset n x + size ≤ n)
    (near : (y - x).toNat < size) :
    align n y = align n x ∧ offset n y = offset n x + (y - x).toNat := by
  have moved : x + BitVec.ofNat w (y - x).toNat = y := by
    rw [BitVec.ofNat_toNat, BitVec.setWidth_eq, BitVec.add_comm, BitVec.sub_add_cancel]
  have result := add_within power narrow (x := x) (k := (y - x).toNat) (by omega)
  rwa [moved] at result

/-- Within one range, distances are differences of offsets. -/
theorem sub_lt_iff {x y : BitVec w} {size : Nat} (same : align n y = align n x)
    (within : offset n x + size ≤ n) :
    (y - x).toNat < size ↔ offset n x ≤ offset n y ∧ offset n y < offset n x + size := by
  constructor
  · intro near
    have := (align_of_sub_lt power narrow within near).2
    omega
  · rintro ⟨low, high⟩
    -- The word is reached from the other by the difference of the offsets.
    have step := add_within power narrow (x := x) (k := offset n y - offset n x) (by
      have := offset_lt power narrow y
      omega)
    have there : x + BitVec.ofNat w (offset n y - offset n x) = y := by
      have first := align_add_offset n (x + BitVec.ofNat w (offset n y - offset n x))
      have second := align_add_offset n y
      rw [step.1, step.2, ← same, show offset n x + (offset n y - offset n x) = offset n y by omega]
        at first
      exact first.symm.trans second
    have fits : n < 2 ^ w := by
      rw [power]
      exact Nat.pow_lt_pow_right (by omega) narrow
    have difference : y - x = BitVec.ofNat w (offset n y - offset n x) :=
      calc y - x = BitVec.ofNat w (offset n y - offset n x) + x - x := by
            rw [BitVec.add_comm _ x, there]
        _ = BitVec.ofNat w (offset n y - offset n x) := BitVec.add_sub_cancel _ _
    rw [difference, BitVec.toNat_ofNat, Nat.mod_eq_of_lt (by omega)]
    omega

end

end Align

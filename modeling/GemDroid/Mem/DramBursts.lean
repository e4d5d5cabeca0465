import GemDroid.Mem.DramCtrl

/-! The bursts of a packet tile its bytes, each within one aligned block. -/

namespace GemDroid

theorem or_two_pow_sub_one (k a : Nat) : a ||| (2 ^ k - 1) = a / 2 ^ k * 2 ^ k + (2 ^ k - 1) := by
  apply Nat.eq_of_testBit_eq
  intro i
  have small : 2 ^ k - 1 < 2 ^ k := Nat.sub_lt (Nat.two_pow_pos k) Nat.one_pos
  rw [Nat.mul_comm, Nat.testBit_two_pow_mul_add _ small]
  simp only [Nat.testBit_or, Nat.testBit_two_pow_sub_one]
  by_cases low : i < k
  · simp [low]
  · simp only [low, decide_false, Bool.or_false, if_false, Nat.testBit_div_two_pow]
    congr 1
    omega

theorem add64_eq {a b : Nat} (fits : a + b < 2 ^ 64) : add64 a b = a + b :=
  Nat.mod_eq_of_lt fits

theorem sub64_eq {a b : Nat} (ordered : b ≤ a) (fits : a < 2 ^ 64) : sub64 a b = a - b := by
  unfold sub64
  rw [Nat.mod_eq_of_lt (by omega : b < 2 ^ 64)]
  omega

namespace Burst

/-- The bytes of a burst. -/
def bytes (b : Burst) : Set Nat :=
  {x | b.addr ≤ x ∧ x < b.addr + b.size}

@[simp] theorem mem_bytes {b : Burst} {x : Nat} :
    x ∈ b.bytes ↔ b.addr ≤ x ∧ x < b.addr + b.size := Iff.rfl

/-- All bytes of a burst lie in the same block. -/
def InBlock (blockSize : Nat) (b : Burst) : Prop :=
  0 < b.size ∧ (b.addr + b.size - 1) / blockSize = b.addr / blockSize

/-- Bursts follow each other without gap from one address to another, each in one block. -/
def Tile (blockSize : Nat) : Nat → Nat → List Burst → Prop
  | first, last, [] => first = last
  | first, last, b :: bursts =>
    b.addr = first ∧ b.InBlock blockSize ∧ Tile blockSize (first + b.size) last bursts

end Burst

namespace DramConfig

variable {config : DramConfig} {addr size a : Nat}

/--
A packet that can be split: bursts have a size that is a power of two, their number is computed
within 32 bits, and the last one ends before the end of the address space.
-/
structure Splits (config : DramConfig) (addr size : Nat) : Prop where
  power : ∃ k, config.burstSize = 2 ^ k
  nonempty : 0 < size
  narrow : addr % config.burstSize + size + config.burstSize - 1 < 2 ^ 32
  inside : ((addr + size - 1) / config.burstSize + 1) * config.burstSize < 2 ^ 64

theorem nextBurst_eq (power : ∃ k, config.burstSize = 2 ^ k)
    (inside : (a / config.burstSize + 1) * config.burstSize < 2 ^ 64) :
    config.nextBurst a = (a / config.burstSize + 1) * config.burstSize := by
  obtain ⟨k, eq⟩ := power
  have positive := Nat.two_pow_pos k
  rw [eq] at inside ⊢
  rw [nextBurst, eq, or_two_pow_sub_one, add64_eq]
  · rw [Nat.add_mul]
    omega
  · rw [Nat.add_mul] at inside
    omega

theorem Splits.burstSize_lt (splits : Splits config addr size) : config.burstSize < 2 ^ 32 := by
  have narrow := splits.narrow
  have nonempty := splits.nonempty
  omega

theorem Splits.block_inside (splits : Splits config addr size) (before : a < addr + size) :
    (a / config.burstSize + 1) * config.burstSize < 2 ^ 64 := by
  have earlier : a / config.burstSize ≤ (addr + size - 1) / config.burstSize :=
    Nat.div_le_div_right (by omega)
  calc (a / config.burstSize + 1) * config.burstSize
      ≤ ((addr + size - 1) / config.burstSize + 1) * config.burstSize :=
        Nat.mul_le_mul_right _ (by omega)
    _ < 2 ^ 64 := splits.inside

theorem Splits.end_inside (splits : Splits config addr size) : addr + size < 2 ^ 64 := by
  have inside := splits.inside
  have nonempty := splits.nonempty
  have last := Nat.lt_div_mul_add config.burstSize_pos (a := addr + size - 1)
  rw [Nat.add_mul, Nat.one_mul] at inside
  omega

theorem Splits.pktCount_eq (splits : Splits config addr size) :
    config.pktCount addr size =
      (addr + size - 1) / config.burstSize - addr / config.burstSize + 1 := by
  have positive := config.burstSize_pos
  have narrow := splits.narrow
  have nonempty := splits.nonempty
  have offset : addr &&& (config.burstSize - 1) = addr % config.burstSize := by
    obtain ⟨k, eq⟩ := splits.power
    rw [eq, Nat.and_two_pow_sub_one_eq_mod]
  -- The last byte of the packet counted from the start of its first block.
  have last : addr + size - 1 =
      (addr % config.burstSize + size - 1) + config.burstSize * (addr / config.burstSize) := by
    have := Nat.mod_add_div addr config.burstSize
    omega
  have rounded : addr % config.burstSize + size + config.burstSize - 1 =
      (addr % config.burstSize + size - 1) + config.burstSize := by
    omega
  simp only [pktCount]
  rw [offset, Nat.mod_eq_of_lt (a := addr % config.burstSize) (by omega),
    Nat.mod_eq_of_lt (a := addr % config.burstSize + size) (by omega),
    Nat.mod_eq_of_lt narrow, rounded, Nat.add_div_right _ positive, last,
    Nat.add_mul_div_left _ _ positive, Nat.add_sub_cancel]

theorem Splits.burstAt_eq (splits : Splits config addr size) (before : a < addr + size) :
    config.burstAt addr size a =
      ⟨a, min ((a / config.burstSize + 1) * config.burstSize) (addr + size) - a⟩ := by
  have next := nextBurst_eq splits.power (splits.block_inside before)
  have within := Nat.lt_div_mul_add config.burstSize_pos (a := a)
  have start := Nat.div_mul_le_self a config.burstSize
  have small := splits.burstSize_lt
  have last := splits.end_inside
  have expand : (a / config.burstSize + 1) * config.burstSize =
      a / config.burstSize * config.burstSize + config.burstSize := by
    rw [Nat.add_mul, Nat.one_mul]
  unfold burstAt
  rw [next, add64_eq last, sub64_eq (by omega) (by omega), Nat.mod_eq_of_lt (by omega)]

/-- From an address in a packet on, the bursts tile the rest of it. -/
theorem Splits.tile_from (splits : Splits config addr size) {count : Nat} (before : a < addr + size)
    (counted : count = (addr + size - 1) / config.burstSize - a / config.burstSize + 1) :
    Burst.Tile config.burstSize a (addr + size) (config.burstsFrom addr size a count) := by
  have positive := config.burstSize_pos
  -- By induction on the number of blocks up to the last one.
  induction count generalizing a with
  | zero => omega
  | succ count ih =>
    have within := Nat.lt_div_mul_add positive (a := a)
    have expand : (a / config.burstSize + 1) * config.burstSize =
        a / config.burstSize * config.burstSize + config.burstSize := by
      rw [Nat.add_mul, Nat.one_mul]
    have earlier : a / config.burstSize ≤ (addr + size - 1) / config.burstSize :=
      Nat.div_le_div_right (by omega)
    rw [burstsFrom, splits.burstAt_eq before]
    by_cases final : (addr + size - 1) / config.burstSize = a / config.burstSize
    · have ends : addr + size ≤ (a / config.burstSize + 1) * config.burstSize := by
        have := Nat.lt_div_mul_add positive (a := addr + size - 1)
        rw [final] at this
        omega
      have none_left : count = 0 := by omega
      subst none_left
      rw [Nat.min_eq_right ends]
      refine ⟨rfl, ⟨by show 0 < addr + size - a; omega, ?_⟩, ?_⟩
      · show (a + (addr + size - a) - 1) / config.burstSize = a / config.burstSize
        rw [show a + (addr + size - a) - 1 = addr + size - 1 by omega, final]
      · show a + (addr + size - a) = addr + size
        omega
    · have goes_on : (a / config.burstSize + 1) * config.burstSize < addr + size := by
        have := (Nat.le_div_iff_mul_le positive).mp
          (show a / config.burstSize + 1 ≤ (addr + size - 1) / config.burstSize by omega)
        omega
      have block : (a / config.burstSize + 1) * config.burstSize / config.burstSize =
          a / config.burstSize + 1 := Nat.mul_div_cancel _ positive
      rw [Nat.min_eq_left (by omega)]
      refine ⟨rfl, ⟨by show 0 < (a / config.burstSize + 1) * config.burstSize - a; omega, ?_⟩, ?_⟩
      · show (a + ((a / config.burstSize + 1) * config.burstSize - a) - 1) / config.burstSize =
          a / config.burstSize
        apply Nat.div_eq_of_lt_le
        · omega
        · omega
      · have start : a + ((a / config.burstSize + 1) * config.burstSize - a) =
            (a / config.burstSize + 1) * config.burstSize := by
          omega
        rw [nextBurst_eq splits.power (splits.block_inside before)]
        show Burst.Tile config.burstSize (a + ((a / config.burstSize + 1) * config.burstSize - a))
          _ _
        rw [start]
        apply ih goes_on
        rw [block]
        omega

theorem Splits.tile (splits : Splits config addr size) :
    Burst.Tile config.burstSize addr (addr + size) (config.bursts addr size) := by
  have nonempty := splits.nonempty
  exact splits.tile_from (by omega) splits.pktCount_eq

end DramConfig

end GemDroid

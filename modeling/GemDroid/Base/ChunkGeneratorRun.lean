import GemDroid.Lib.Align
import GemDroid.Base.ChunkGenerator

/-! Which regions a chunk generator partitions. -/

namespace GemDroid

namespace ChunkGenerator

open Tiling

variable {startAddr : Addr} {totalSize chunkSize : BitVec 32} {m : Nat}

/-- Below the sign of an `int`, rounding up ends at a multiple of the alignment. -/
theorem roundUp_toNat (power : chunkSize.toNat = 2 ^ m) (narrow : m < 31) (val : Addr) :
    (roundUp val chunkSize).toNat =
      (val.toNat + (2 ^ m - 1)) % 2 ^ 64 / 2 ^ m * 2 ^ m := by
  have small : 2 ^ m < 2 ^ 31 := Nat.pow_lt_pow_right (by decide) narrow
  have positive : 0 < 2 ^ m := Nat.two_pow_pos m
  -- The alignment is not negative as an `int`, so its extension is the same number.
  have extended : chunkSize.signExtend 64 - 1 = BitVec.ofNat 64 (2 ^ m - 1) := by
    have msb : chunkSize.msb = false := by
      rw [BitVec.msb_eq_decide, power]
      exact decide_eq_false (by omega)
    apply BitVec.eq_of_toNat_eq
    rw [BitVec.signExtend_eq_setWidth_of_msb_false msb, BitVec.toNat_sub, BitVec.toNat_setWidth,
      power, BitVec.toNat_ofNat]
    rw [show ((1 : Addr)).toNat = 1 from rfl]
    omega
  have aligned := Align.align_toNat (w := 64) (rfl : 2 ^ m = 2 ^ m) (by omega)
    (val + BitVec.ofNat 64 (2 ^ m - 1))
  rw [BitVec.toNat_add, BitVec.toNat_ofNat, Nat.mod_eq_of_lt (show 2 ^ m - 1 < 2 ^ 64 by omega)]
    at aligned
  rw [← aligned, roundUp]
  simp only [extended]
  rfl

/-- The alignment `2 ^ 31` is negative as an `int`, so rounding keeps a single bit. -/
theorem roundUp_top (val : Addr) :
    (roundUp val 0x80000000#32).toNat =
      (val.toNat + 0xFFFFFFFF7FFFFFFF) % 2 ^ 64 / 2 ^ 31 % 2 * 2 ^ 31 := by
  have mask : ~~~((0x80000000#32).signExtend 64 - 1) = BitVec.twoPow 64 31 := by decide
  have extended : (0x80000000#32).signExtend 64 - 1 = 0xFFFFFFFF7FFFFFFF#64 := by decide
  have sum : (val + 0xFFFFFFFF7FFFFFFF#64).toNat = (val.toNat + 0xFFFFFFFF7FFFFFFF) % 2 ^ 64 :=
    BitVec.toNat_add _ _
  rw [roundUp]
  simp only [mask]
  rw [extended, BitVec.and_twoPow, BitVec.getLsbD, Nat.testBit_eq_decide_div_mod_eq, sum]
  rcases Nat.mod_two_eq_zero_or_one
    ((val.toNat + 0xFFFFFFFF7FFFFFFF) % 2 ^ 64 / 2 ^ 31) with even | odd
  · rw [even]
    rfl
  · rw [odd]
    rfl

/-- Rounding up, or going one alignment on from an aligned number, leads to the next boundary. -/
theorem next_boundary {n c start : Nat} (positive : 0 < n) (words : 2 ^ 64 = c * n)
    (below : start < 2 ^ 64) :
    (if start = (start + (n - 1)) % 2 ^ 64 / n * n then
        ((start + (n - 1)) % 2 ^ 64 / n * n + n) % 2 ^ 64
      else (start + (n - 1)) % 2 ^ 64 / n * n) = (start / n + 1) * n % 2 ^ 64 := by
  have split := Nat.div_add_mod' start n
  have small := Nat.mod_lt start positive
  rw [Nat.succ_mul]
  rcases Nat.lt_or_ge (start + (n - 1)) (2 ^ 64) with fits | wraps
  · rw [Nat.mod_eq_of_lt fits]
    rcases Nat.eq_zero_or_pos (start % n) with aligned | inside
    · have quotient : (start + (n - 1)) / n = start / n :=
        Nat.div_eq_of_lt_le (by omega) (by rw [Nat.succ_mul]; omega)
      rw [quotient, if_pos (by omega)]
    · have quotient : (start + (n - 1)) / n = start / n + 1 :=
        Nat.div_eq_of_lt_le (by rw [Nat.succ_mul]; omega)
          (by rw [Nat.succ_mul, Nat.succ_mul]; omega)
      rw [quotient, Nat.succ_mul, if_neg (by omega), Nat.mod_eq_of_lt (by omega)]
  · -- The next boundary is the end of the address space, which wraps to zero.
    have fits : n ≤ 2 ^ 64 := Nat.le_of_dvd (by decide) ⟨c, words.trans (Nat.mul_comm c n)⟩
    have wrapped : (start + (n - 1)) % 2 ^ 64 / n = 0 := by
      refine Nat.div_eq_of_lt ?_
      rw [Nat.mod_eq_sub_mod wraps, Nat.mod_eq_of_lt (by omega)]
      omega
    have last : start / n + 1 = c := by
      have low : start / n < c := (Nat.div_lt_iff_lt_mul positive).mpr (words ▸ below)
      have high : c ≤ start / n + 1 := by
        by_contra less
        have room := Nat.mul_le_mul_right n (show start / n + 1 + 1 ≤ c by omega)
        rw [Nat.succ_mul, Nat.succ_mul, ← words] at room
        omega
      omega
    rw [wrapped, Nat.zero_mul, if_neg (by omega), ← Nat.succ_mul, Nat.succ_eq_add_one,
      last, ← words, Nat.mod_self]

/-- What the constructor finds out about the first chunk, which may be as long as `len`. -/
structure First (startAddr : Addr) (totalSize chunkSize : BitVec 32) (len : Nat) : Prop where
  left : ((firstNextAddr startAddr totalSize chunkSize - startAddr).setWidth 32).toNat = len
  positive : 0 < len
  inside : chunkSize ≠ 0 → ∃ k, k * chunkSize.toNat ≤ startAddr.toNat ∧
    startAddr.toNat + len ≤ (k + 1) * chunkSize.toNat
  next : len < totalSize.toNat → chunkSize ≠ 0 ∧ ∃ k,
    (firstNextAddr startAddr totalSize chunkSize).toNat = startAddr.toNat + len ∧
      startAddr.toNat + len = k * chunkSize.toNat

/-- Where the next boundary is computed rightly, up to the low bits that give a distance. -/
theorem First.of_boundary (some : chunkSize ≠ 0) (narrow : chunkSize.toNat ≤ 2 ^ 31)
    (low : (firstNextAddr startAddr totalSize chunkSize).toNat % 2 ^ 32 =
      (startAddr.toNat / chunkSize.toNat + 1) * chunkSize.toNat % 2 ^ 32)
    (next : chunkSize.toNat - startAddr.toNat % chunkSize.toNat < totalSize.toNat →
      (firstNextAddr startAddr totalSize chunkSize).toNat =
        (startAddr.toNat / chunkSize.toNat + 1) * chunkSize.toNat) :
    First startAddr totalSize chunkSize
      (chunkSize.toNat - startAddr.toNat % chunkSize.toNat) := by
  have positive : 0 < chunkSize.toNat := Nat.pos_of_ne_zero fun zero =>
    some (BitVec.eq_of_toNat_eq zero)
  have split := Nat.div_add_mod' startAddr.toNat chunkSize.toNat
  have small := Nat.mod_lt startAddr.toNat positive
  have ends : (startAddr.toNat / chunkSize.toNat + 1) * chunkSize.toNat =
      startAddr.toNat + (chunkSize.toNat - startAddr.toNat % chunkSize.toNat) := by
    rw [Nat.succ_mul]
    omega
  have below := startAddr.isLt
  refine ⟨?_, by omega, fun _ => ⟨_, ?_, ends.symm.le⟩, fun more => ⟨some, _, ?_, ends.symm⟩⟩
  · rw [BitVec.toNat_setWidth, BitVec.toNat_sub]
    rw [ends] at low
    omega
  · omega
  · rw [next more, ends]

theorem first_whole (some : 0 < totalSize.toNat) :
    First startAddr totalSize 0 totalSize.toNat := by
  refine ⟨?_, some, fun absurd => (absurd rfl).elim, fun more => (Nat.lt_irrefl _ more).elim⟩
  have small := totalSize.isLt
  have below := startAddr.isLt
  rw [firstNextAddr, if_pos rfl, BitVec.toNat_setWidth, BitVec.toNat_sub, BitVec.toNat_add,
    BitVec.toNat_setWidth]
  omega

theorem first_low (power : chunkSize.toNat = 2 ^ m) (narrow : m < 31)
    (room : startAddr.toNat + totalSize.toNat ≤ 2 ^ 64) :
    First startAddr totalSize chunkSize
      (chunkSize.toNat - startAddr.toNat % chunkSize.toNat) := by
  have small : 2 ^ m < 2 ^ 31 := Nat.pow_lt_pow_right (by decide) narrow
  have positive : 0 < 2 ^ m := Nat.two_pow_pos m
  have some : chunkSize ≠ 0 := by
    rintro rfl
    rw [show ((0 : BitVec 32)).toNat = 0 from rfl] at power
    omega
  have words : 2 ^ 64 = 2 ^ (64 - m) * 2 ^ m := by
    rw [← Nat.pow_add]
    congr 1
    omega
  have next : (firstNextAddr startAddr totalSize chunkSize).toNat =
      (startAddr.toNat / 2 ^ m + 1) * 2 ^ m % 2 ^ 64 := by
    rw [firstNextAddr, if_neg some, ← next_boundary positive words startAddr.isLt]
    simp only [← BitVec.toNat_inj, roundUp_toNat power narrow]
    split_ifs with aligned
    · rw [BitVec.toNat_add, roundUp_toNat power narrow, BitVec.toNat_setWidth, power]
      omega
    · exact roundUp_toNat power narrow startAddr
  refine .of_boundary some (by omega) ?_ fun more => ?_
  · rw [next, power, Nat.mod_mod_of_dvd _ (by decide)]
  · have split := Nat.div_add_mod' startAddr.toNat (2 ^ m)
    have inside := Nat.mod_lt startAddr.toNat positive
    rw [next, power]
    rw [power] at more
    refine Nat.mod_eq_of_lt ?_
    rw [Nat.succ_mul]
    omega

theorem firstNextAddr_top (startAddr : Addr) (totalSize : BitVec 32) :
    (firstNextAddr startAddr totalSize 0x80000000#32).toNat =
    let rounded := (startAddr.toNat + 0xFFFFFFFF7FFFFFFF) % 2 ^ 64 / 2 ^ 31 % 2 * 2 ^ 31
    if startAddr.toNat = rounded then rounded + 2 ^ 31 else rounded := by
  rw [firstNextAddr, if_neg (by decide)]
  simp only [← BitVec.toNat_inj, roundUp_top]
  split_ifs
  · rw [BitVec.toNat_add, roundUp_top, show ((0x80000000#32).setWidth 64).toNat = 2 ^ 31 by decide]
    omega
  · exact roundUp_top startAddr

/-- With the greatest chunk size, the second chunk is found only near the start of the memory. -/
theorem first_top (near : startAddr.toNat ≤ 2 ^ 31 ∨ (startAddr.toNat % 2 ^ 31 ≠ 0 ∧
      startAddr.toNat % 2 ^ 31 + totalSize.toNat ≤ 2 ^ 31)) :
    First startAddr totalSize 0x80000000#32 (2 ^ 31 - startAddr.toNat % 2 ^ 31) := by
  have below := startAddr.isLt
  refine .of_boundary (by decide) (by decide) ?_ fun more => ?_
  · rw [firstNextAddr_top, show (0x80000000#32).toNat = 2 ^ 31 by decide]
    dsimp only
    split_ifs <;> omega
  · rw [firstNextAddr_top, show (0x80000000#32).toNat = 2 ^ 31 by decide]
    rw [show (0x80000000#32).toNat = 2 ^ 31 by decide] at more
    dsimp only
    split_ifs <;> omega

/-- The current chunk and what is left behind it, while there is one. -/
structure Ahead (startAddr : Addr) (totalSize chunkSize : BitVec 32)
    (s : ChunkGenerator × List Chunk) : Prop where
  positive : 0 < s.1.curSize.toNat
  tiles : Tiles startAddr.toNat (s.2.map Chunk.piece) s.1.curAddr.toNat
  total : s.1.curAddr.toNat + s.1.curSize.toNat + s.1.sizeLeft.toNat =
    startAddr.toNat + totalSize.toNat
  inside : chunkSize ≠ 0 → ∃ k, k * chunkSize.toNat ≤ s.1.curAddr.toNat ∧
    s.1.curAddr.toNat + s.1.curSize.toNat ≤ (k + 1) * chunkSize.toNat
  next : 0 < s.1.sizeLeft.toNat → chunkSize ≠ 0 ∧ ∃ k,
    s.1.nextAddr.toNat = s.1.curAddr.toNat + s.1.curSize.toNat ∧
      s.1.curAddr.toNat + s.1.curSize.toNat = k * chunkSize.toNat

/-- The chunks visited so far tile the region up to the current one, or all of it. -/
structure Inv (startAddr : Addr) (totalSize chunkSize : BitVec 32)
    (s : ChunkGenerator × List Chunk) : Prop where
  startAddr_eq : s.1.startAddr = startAddr
  chunkSize_eq : s.1.chunkSize = chunkSize
  aligned : chunkSize ≠ 0 → ∀ chunk ∈ s.2, ∃ k, k * chunkSize.toNat ≤ chunk.addr.toNat ∧
    chunk.addr.toNat + chunk.size.toNat ≤ (k + 1) * chunkSize.toNat
  complete : ∀ chunk ∈ s.2, startAddr.toNat + chunk.complete.toNat = chunk.addr.toNat
  stands : (s.1.curSize = 0 ∧
      Tiles startAddr.toNat (s.2.map Chunk.piece) (startAddr.toNat + totalSize.toNat)) ∨
    Ahead startAddr totalSize chunkSize s

theorem toNat_pos {w : Nat} {x : BitVec w} (some : x ≠ 0#w) : 0 < x.toNat :=
  Nat.pos_of_ne_zero fun zero => some (BitVec.eq_of_toNat_eq (by rw [zero, BitVec.toNat_zero]))

/-- How often the loop goes on at most. -/
def roundsLeft (s : ChunkGenerator × List Chunk) : Nat :=
  if s.1.done then 0 else s.1.sizeLeft.toNat + 1

/-- Using a chunk and advancing goes on to the next boundary or to the end of the region. -/
theorem Inv.visit (room : startAddr.toNat + totalSize.toNat ≤ 2 ^ 64)
    {s : ChunkGenerator × List Chunk} (inv : Inv startAddr totalSize chunkSize s)
    (more : s.1.done = false) :
    ∃ s', visit s = some s' ∧ Inv startAddr totalSize chunkSize s' ∧
      roundsLeft s' < roundsLeft s := by
  obtain ⟨gen, visited⟩ := s
  have some : gen.curSize ≠ 0 := by
    rintro zero
    rw [done, zero] at more
    cases more
  obtain ⟨zero, -⟩ | ahead := inv.stands
  · exact absurd zero some
  have before := ahead.tiles.total
  have bounded := totalSize.isLt
  have total := ahead.total
  have positive := ahead.positive
  dsimp only at before total positive
  -- The bytes before this chunk are the distance from the start, which fits into 32 bits.
  have passed : gen.complete.toNat = gen.curAddr.toNat - startAddr.toNat := by
    rw [ChunkGenerator.complete, inv.startAddr_eq, BitVec.toNat_setWidth, BitVec.toNat_sub]
    omega
  have tiles : Tiles startAddr.toNat ((visited ++ [gen.chunk]).map Chunk.piece)
      (gen.curAddr.toNat + gen.curSize.toNat) := by
    rw [List.map_append]
    exact ahead.tiles.append positive
  have aligned : chunkSize ≠ 0 → ∀ chunk ∈ visited ++ [gen.chunk],
      ∃ k, k * chunkSize.toNat ≤ chunk.addr.toNat ∧
        chunk.addr.toNat + chunk.size.toNat ≤ (k + 1) * chunkSize.toNat := by
    intro sized chunk mem
    rcases List.mem_append.mp mem with old | new
    · exact inv.aligned sized chunk old
    · rw [List.mem_singleton.mp new]
      exact ahead.inside sized
  have complete : ∀ chunk ∈ visited ++ [gen.chunk],
      startAddr.toNat + chunk.complete.toNat = chunk.addr.toNat := by
    intro chunk mem
    rcases List.mem_append.mp mem with old | new
    · exact inv.complete chunk old
    · rw [List.mem_singleton.mp new]
      show startAddr.toNat + gen.complete.toNat = gen.curAddr.toNat
      omega
  have measure : roundsLeft (gen, visited) = gen.sizeLeft.toNat + 1 := by
    rw [roundsLeft, more]
    rfl
  refine ⟨_, rfl, ?_⟩
  rw [measure, next]
  -- After the last chunk the region is tiled; before it the next one begins at the boundary.
  by_cases last : gen.sizeLeft = 0
  · rw [if_pos last]
    have none : gen.sizeLeft.toNat = 0 := by
      rw [last]
      rfl
    refine ⟨⟨inv.startAddr_eq, inv.chunkSize_eq, aligned, complete, Or.inl ⟨rfl, ?_⟩⟩, ?_⟩
    · rw [← total, none]
      exact tiles
    · exact Nat.succ_pos _
  · rw [if_neg last]
    have left := toNat_pos last
    obtain ⟨sized, k, begins, boundary⟩ := ahead.next left
    have grain := toNat_pos sized
    dsimp only at begins boundary
    obtain ⟨curSize, size_eq⟩ : ∃ curSize : BitVec 32, curSize =
        (if gen.chunkSize < gen.sizeLeft then gen.chunkSize else gen.sizeLeft) := ⟨_, rfl⟩
    have size : curSize.toNat = min chunkSize.toNat gen.sizeLeft.toNat := by
      rw [size_eq, inv.chunkSize_eq]
      split_ifs with less <;> rw [BitVec.lt_def] at less <;> omega
    have rest : (gen.sizeLeft - curSize).toNat = gen.sizeLeft.toNat - curSize.toNat :=
      BitVec.toNat_sub_of_le (BitVec.le_def.mpr (by omega))
    rw [← size_eq]
    refine ⟨⟨inv.startAddr_eq, inv.chunkSize_eq, aligned, complete, Or.inr ?_⟩, ?_⟩
    · refine ⟨?_, ?_, ?_, fun _ => ⟨k, ?_, ?_⟩, fun further => ⟨sized, k + 1, ?_, ?_⟩⟩
      · show 0 < curSize.toNat
        omega
      · show Tiles _ _ gen.nextAddr.toNat
        rw [begins]
        exact tiles
      · show gen.nextAddr.toNat + curSize.toNat + (gen.sizeLeft - curSize).toNat = _
        omega
      · show k * chunkSize.toNat ≤ gen.nextAddr.toNat
        omega
      · show gen.nextAddr.toNat + curSize.toNat ≤ (k + 1) * chunkSize.toNat
        rw [Nat.succ_mul]
        omega
      · show (gen.nextAddr + curSize.setWidth 64).toNat = gen.nextAddr.toNat + curSize.toNat
        have more : 0 < (gen.sizeLeft - curSize).toNat := further
        rw [BitVec.toNat_add, BitVec.toNat_setWidth]
        omega
      · show gen.nextAddr.toNat + curSize.toNat = (k + 1) * chunkSize.toNat
        have more : 0 < (gen.sizeLeft - curSize).toNat := further
        rw [Nat.succ_mul]
        omega
    · rw [roundsLeft]
      show (if curSize == 0 then 0 else (gen.sizeLeft - curSize).toNat + 1) < _
      split_ifs <;> omega

/-- A generator as it is constructed. -/
structure Built (startAddr : Addr) (totalSize chunkSize : BitVec 32) (gen : ChunkGenerator) :
    Prop where
  curAddr_eq : gen.curAddr = startAddr
  nextAddr_eq : gen.nextAddr = firstNextAddr startAddr totalSize chunkSize
  startAddr_eq : gen.startAddr = startAddr
  chunkSize_eq : gen.chunkSize = chunkSize
  size : gen.curSize.toNat = min totalSize.toNat
    ((firstNextAddr startAddr totalSize chunkSize - startAddr).setWidth 32).toNat
  rest : gen.curSize.toNat + gen.sizeLeft.toNat = totalSize.toNat

theorem construct_built (startAddr : Addr) (totalSize : BitVec 32)
    (accepted : chunkSize = 0 ∨ isPowerOf2 chunkSize.toNat = true) :
    ∃ gen, construct startAddr totalSize chunkSize = some gen ∧
      Built startAddr totalSize chunkSize gen := by
  refine ⟨_, if_pos accepted, ?_⟩
  obtain ⟨left, left_eq⟩ : ∃ left : BitVec 32, left =
      (firstNextAddr startAddr totalSize chunkSize - startAddr).setWidth 32 := ⟨_, rfl⟩
  obtain ⟨curSize, size_eq⟩ : ∃ curSize : BitVec 32, curSize =
      (if left < totalSize then left else totalSize) := ⟨_, rfl⟩
  have size : curSize.toNat = min totalSize.toNat left.toNat := by
    rw [size_eq]
    split_ifs with less <;> rw [BitVec.lt_def] at less <;> omega
  have rest : (totalSize - curSize).toNat = totalSize.toNat - curSize.toNat :=
    BitVec.toNat_sub_of_le (BitVec.le_def.mpr (by omega))
  rw [← left_eq, ← size_eq]
  refine ⟨rfl, rfl, rfl, rfl, left_eq ▸ size, ?_⟩
  show curSize.toNat + (totalSize - curSize).toNat = _
  omega

/-- From the first chunk on, the loop partitions the region. -/
theorem First.chunked {len : Nat} (first : First startAddr totalSize chunkSize len)
    (accepted : chunkSize = 0 ∨ isPowerOf2 chunkSize.toNat = true) (many : 0 < totalSize.toNat)
    (room : startAddr.toNat + totalSize.toNat ≤ 2 ^ 64) :
    Chunked startAddr totalSize chunkSize := by
  obtain ⟨gen, construct_eq, built⟩ := construct_built startAddr totalSize accepted
  have size := built.size
  have rest := built.rest
  have positive := first.positive
  rw [first.left] at size
  refine ⟨gen, construct_eq, ?_⟩
  have start : Inv startAddr totalSize chunkSize (gen, []) := by
    refine ⟨built.startAddr_eq, built.chunkSize_eq, fun _ _ mem => (List.not_mem_nil mem).elim,
      fun _ mem => (List.not_mem_nil mem).elim, Or.inr ⟨?_, ?_, ?_, fun sized => ?_, ?_⟩⟩
    · show 0 < gen.curSize.toNat
      omega
    · rw [built.curAddr_eq]
      exact .nil _
    · show gen.curAddr.toNat + gen.curSize.toNat + gen.sizeLeft.toNat = _
      rw [built.curAddr_eq]
      omega
    · obtain ⟨k, low, high⟩ := first.inside sized
      rw [built.curAddr_eq]
      refine ⟨k, low, ?_⟩
      show startAddr.toNat + gen.curSize.toNat ≤ _
      omega
    · intro more
      have less : 0 < gen.sizeLeft.toNat := more
      obtain ⟨sized, k, begins, boundary⟩ := first.next (by omega)
      have whole : gen.curSize.toNat = len := by omega
      show _ ∧ ∃ k, gen.nextAddr.toNat = gen.curAddr.toNat + gen.curSize.toNat ∧
        gen.curAddr.toNat + gen.curSize.toNat = k * chunkSize.toNat
      rw [built.curAddr_eq, built.nextAddr_eq, whole]
      exact ⟨sized, k, begins, boundary⟩
  have falls : ∀ s, Inv startAddr totalSize chunkSize s → (!s.1.done) = true →
      ∃ s', visit s = some s' ∧ Inv startAddr totalSize chunkSize s' ∧
        roundsLeft s' < roundsLeft s :=
    fun s inv more => inv.visit room ((Bool.not_eq_true' _).mp more)
  obtain ⟨last, ended⟩ := While.exists_loop _ roundsLeft falls start (Nat.lt_succ_self _)
  obtain ⟨inv, stopped⟩ := While.loop_keeps _ (fun s t inv more round => by
    obtain ⟨s', round', inv', -⟩ := falls s inv more
    rw [round] at round'
    exact Option.some.inj round' ▸ inv') start ended
  have tiles : Tiles startAddr.toNat (last.2.map Chunk.piece)
      (startAddr.toNat + totalSize.toNat) := by
    rcases inv.stands with ⟨-, tiles⟩ | ahead
    · exact tiles
    · have positive := ahead.positive
      have zero : last.1.curSize = 0 := beq_iff_eq.mp ((Bool.not_eq_false' _).mp stopped)
      rw [zero] at positive
      exact absurd positive (Nat.lt_irrefl 0)
  refine ⟨_, last.2, congrArg (Option.map Prod.snd) ended, tiles, inv.aligned, ?_⟩
  intro before chunk after visited
  -- A chunk stands behind the chunks before it, and that distance is what it knows.
  have mem : chunk ∈ last.2 := visited ▸ List.mem_append_right _ List.mem_cons_self
  rw [visited, List.map_append, List.map_cons] at tiles
  have place : chunk.addr.toNat = startAddr.toNat + covered (before.map Chunk.piece) :=
    tiles.split.1
  have known := inv.complete chunk mem
  omega

theorem loop_visit {gen : ChunkGenerator} (more : gen.done = false) (fuel : Nat)
    (visited : List Chunk) :
    While.loop (fun s => !s.1.done) visit (fuel + 1) (gen, visited) =
      While.loop (fun s => !s.1.done) visit fuel (gen.next.2, visited ++ [gen.chunk]) := by
  refine (While.loop_go ?_ ?_ fuel :)
  · exact (Bool.not_eq_true' _).mpr more
  · rfl

/-- A loop that goes round twice visits the current chunk and the next one first. -/
theorem visits_second {gen : ChunkGenerator} {fuel : Nat} {visited : List Chunk}
    (ended : gen.chunks fuel = some visited) (more : gen.done = false)
    (further : gen.next.2.done = false) :
    ∃ after, visited = gen.chunk :: gen.next.2.chunk :: after := by
  obtain ⟨last, loops, rfl⟩ := Option.map_eq_some_iff.mp ended
  rcases fuel with _ | _ | fuel
  · cases loops
  · rw [loop_visit more] at loops
    cases loops
  · rw [loop_visit more, loop_visit further] at loops
    -- Later rounds visit chunks behind these two.
    have kept := While.loop_keeps
      (fun s => ∃ after, s.2 = gen.chunk :: gen.next.2.chunk :: after)
      (fun s t stands _ round => by
        obtain ⟨after, stands⟩ := stands
        rw [← Option.some.inj round]
        exact ⟨after ++ [s.1.chunk], by rw [stands]; rfl⟩) ⟨[], rfl⟩ loops
    exact kept.1

/-- With the greatest chunk size, regions far from the start of the memory are not partitioned. -/
theorem not_chunked_top (many : 0 < totalSize.toNat) (far : 2 ^ 31 < startAddr.toNat)
    (beyond : startAddr.toNat % 2 ^ 31 = 0 ∨
      2 ^ 31 < startAddr.toNat % 2 ^ 31 + totalSize.toNat) :
    ¬Chunked startAddr totalSize 0x80000000#32 := by
  rintro ⟨gen, construct_eq, fuel, visited, ended, parts⟩
  have accepted : 0x80000000#32 = 0 ∨ isPowerOf2 (0x80000000#32).toNat = true :=
    Or.inr (by decide)
  obtain ⟨gen', construct_eq', built⟩ := construct_built startAddr totalSize accepted
  rw [construct_eq] at construct_eq'
  obtain rfl := Option.some.inj construct_eq'
  have tiles := parts.tiles
  have size := built.size
  have rest := built.rest
  have next := firstNextAddr_top startAddr totalSize
  dsimp only at next
  have below := startAddr.isLt
  -- The boundary keeps a single bit of the address, and its distance is taken modulo 2 ^ 32.
  have left : ((firstNextAddr startAddr totalSize 0x80000000#32 - startAddr).setWidth 32).toNat =
      if startAddr.toNat % 2 ^ 31 = 0 then 0 else 2 ^ 31 - startAddr.toNat % 2 ^ 31 := by
    rw [BitVec.toNat_setWidth, BitVec.toNat_sub, next]
    split_ifs <;> omega
  rw [left] at size
  by_cases aligned : startAddr.toNat % 2 ^ 31 = 0
  · -- The first chunk is empty, so the loop ends before it begins.
    rw [if_pos aligned] at size
    have stopped : gen.done = true :=
      beq_iff_eq.mpr (BitVec.eq_of_toNat_eq (size.trans (Nat.min_zero _)))
    obtain ⟨last, loops, rfl⟩ := Option.map_eq_some_iff.mp ended
    have empty : last = (gen, []) :=
      While.eq_of_loop_stop ((Bool.not_eq_false' _).mpr stopped) loops
    have total := tiles.total
    rw [empty, List.map_nil, show covered [] = 0 from rfl] at total
    omega
  · -- The second chunk is said to be at one of the first two boundaries of the memory.
    rw [if_neg aligned] at size
    have more : gen.done = false := by
      refine beq_eq_false_iff_ne.mpr fun zero => ?_
      rw [zero, show ((0 : BitVec 32)).toNat = 0 from rfl] at size
      omega
    have behind : gen.sizeLeft ≠ 0 := by
      intro zero
      rw [zero, show ((0 : BitVec 32)).toNat = 0 from rfl] at rest
      omega
    have further : gen.next.2.done = false := by
      refine beq_eq_false_iff_ne.mpr fun zero => ?_
      rw [ChunkGenerator.next, if_neg behind, built.chunkSize_eq] at zero
      dsimp only at zero
      split_ifs at zero
      · cases zero
      · exact behind zero
    obtain ⟨after, rfl⟩ := visits_second ended more further
    have second : gen.next.2.chunk.addr.toNat =
        startAddr.toNat + covered ([gen.chunk].map Chunk.piece) :=
      (Tiles.split (show Tiles _ ([gen.chunk].map Chunk.piece ++ gen.next.2.chunk.piece ::
        after.map Chunk.piece) _ from tiles)).1
    rw [show gen.next.2.chunk.addr = gen.nextAddr by rw [ChunkGenerator.next, if_neg behind]; rfl,
      built.nextAddr_eq, next] at second
    split_ifs at second <;> omega

/--
A region is partitioned unless the chunk size is `2 ^ 31` and a second chunk begins far from the
start of the memory, or the first one is aligned there.

That chunk size is negative as the `int` that `roundUp` takes.
-/
theorem chunked_iff (startAddr : Addr) (totalSize chunkSize : BitVec 32)
    (many : 0 < totalSize.toNat)
    (power : chunkSize = 0 ∨ isPowerOf2 chunkSize.toNat = true)
    (room : startAddr.toNat + totalSize.toNat ≤ 2 ^ 64) :
    Chunked startAddr totalSize chunkSize ↔
      chunkSize.toNat ≠ 2 ^ 31 ∨ startAddr.toNat ≤ 2 ^ 31 ∨
        (startAddr.toNat % 2 ^ 31 ≠ 0 ∧ startAddr.toNat % 2 ^ 31 + totalSize.toNat ≤ 2 ^ 31) := by
  by_cases top : chunkSize.toNat = 2 ^ 31
  · obtain rfl : chunkSize = 0x80000000#32 := BitVec.eq_of_toNat_eq top
    constructor
    · intro chunked
      by_contra wrong
      exact not_chunked_top many (by omega) (by omega) chunked
    · intro right
      exact (first_top (by omega)).chunked power many room
  · refine iff_of_true ?_ (Or.inl top)
    rcases power with rfl | power
    · exact (first_whole many).chunked (Or.inl rfl) many room
    · have exponent := eq_two_pow_log2 power
      have small : chunkSize.toNat.log2 < 32 := by
        refine (Nat.pow_lt_pow_iff_right (by decide : 1 < 2)).mp ?_
        rw [← exponent]
        exact chunkSize.isLt
      have narrow : chunkSize.toNat.log2 ≠ 31 := fun same => top (same ▸ exponent)
      exact (first_low exponent (by omega) room).chunked (Or.inr power) many room

theorem lines_chunked : Chunked 100#64 1000#32 64#32 :=
  (chunked_iff 100#64 1000#32 64#32 (by decide) (Or.inr (by decide)) (by decide)).mpr
    (Or.inl (by decide))

/-- A byte at four gigabytes is skipped, since its distance to the boundary is taken to be zero. -/
theorem aligned_byte_skipped : ¬∀ (startAddr : Addr) (totalSize chunkSize : BitVec 32),
    0 < totalSize.toNat → (chunkSize = 0 ∨ isPowerOf2 chunkSize.toNat = true) →
      startAddr.toNat + totalSize.toNat ≤ 2 ^ 64 → Chunked startAddr totalSize chunkSize := by
  intro claim
  exact not_chunked_top (by decide) (by decide) (Or.inl (by decide))
    (claim 0x100000000#64 1#32 0x80000000#32 (by decide) (Or.inr (by decide)) (by decide))

end ChunkGenerator

end GemDroid

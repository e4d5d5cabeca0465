import GemDroid.Mem.Functional

/-! How a functional read is put together from the buffers it is checked against. -/

namespace GemDroid

/-- A value that a functional access is checked against. -/
structure Buffer where
  addr : Addr
  size : Nat
  data : Nat → UInt8
  positive : 0 < size
  isInt : size < 2 ^ 31
  fits : addr.toNat + size ≤ 2 ^ 64

/-- A packet of a request, whose size is an `int`, within the address space. -/
structure FunctionalRequest where
  pkt : Packet
  positive : 0 < pkt.size
  isInt : pkt.size < 2 ^ 31
  fits : pkt.addr.toNat + pkt.size ≤ 2 ^ 64

namespace Buffer

/-- A buffer holds a byte of a request, counted from its start. -/
def Covers (r : FunctionalRequest) (i : Nat) (b : Buffer) : Prop :=
  b.addr.toNat ≤ r.pkt.addr.toNat + i ∧ r.pkt.addr.toNat + i < b.addr.toNat + b.size

instance (r : FunctionalRequest) (i : Nat) (b : Buffer) : Decidable (b.Covers r i) :=
  inferInstanceAs (Decidable (_ ∧ _))

/-- The value that a buffer holds for a byte of a request. -/
def byte (r : FunctionalRequest) (i : Nat) (b : Buffer) : UInt8 :=
  b.data (r.pkt.addr.toNat + i - b.addr.toNat)

/-- The buffer has a byte of the request. -/
def Overlaps (r : FunctionalRequest) (b : Buffer) : Prop :=
  b.addr.toNat < r.pkt.addr.toNat + r.pkt.size ∧ r.pkt.addr.toNat < b.addr.toNat + b.size

/-- The buffer starts before the request. -/
def ReachesLeft (r : FunctionalRequest) (b : Buffer) : Prop :=
  b.addr.toNat < r.pkt.addr.toNat

/-- The buffer ends after the request. -/
def ReachesRight (r : FunctionalRequest) (b : Buffer) : Prop :=
  r.pkt.addr.toNat + r.pkt.size < b.addr.toNat + b.size

/-- The buffer has all bytes of the request. -/
def Contains (r : FunctionalRequest) (b : Buffer) : Prop :=
  b.addr.toNat ≤ r.pkt.addr.toNat ∧ r.pkt.addr.toNat + r.pkt.size ≤ b.addr.toNat + b.size

/-- How many bytes of the request lie before the end of the buffer. -/
def reach (r : FunctionalRequest) (b : Buffer) : Nat :=
  min r.pkt.size (b.addr.toNat + b.size - r.pkt.addr.toNat)

end Buffer

namespace FunctionalRequest

variable (r : FunctionalRequest)

/-- Some buffer holds the byte. -/
def Covered (seen : List Buffer) (i : Nat) : Prop :=
  ∃ b ∈ seen, b.Covers r i

/-- What the first buffer that holds the byte has for it. -/
def first (seen : List Buffer) (i : Nat) : Option UInt8 :=
  (seen.find? fun b => b.Covers r i).map fun b => b.byte r i

/-- All bytes of the request are held by some buffer. -/
def AllCovered (seen : List Buffer) : Prop :=
  ∀ i < r.pkt.size, r.Covered seen i

/-- The bytes that are held by some buffer have no gap. -/
def Contiguous (seen : List Buffer) : Prop :=
  ∀ i j k, i ≤ j → j ≤ k → k < r.pkt.size → r.Covered seen i → r.Covered seen k → r.Covered seen j

/-- The packet that is checked next, after earlier checks have left data and a record in it. -/
structure Checked (q : FunctionalPacket) : Prop where
  cmd : q.pkt.cmd = r.pkt.cmd
  addr : q.pkt.addr = r.pkt.addr
  size : q.pkt.size = r.pkt.size
  isSecure : q.pkt.isSecure = r.pkt.isSecure

end FunctionalRequest

namespace FunctionalPacket

/-- Check the packet against a buffer of the same security. -/
def check (b : Buffer) (p : FunctionalPacket) :
    Except FunctionalFault (Bool × FunctionalPacket × Option (Nat → UInt8)) :=
  p.checkFunctional b.addr p.pkt.isSecure b.size (some b.data)

/-- A byte is recorded as found, or the access is satisfied with all of them. -/
def Recorded (answer : Bool) (i : Nat) (p : FunctionalPacket) : Prop :=
  answer = true ∨ p.bytesValidStart.toNat ≤ i ∧ i < p.bytesValidEnd.toNat

theorem int_sub {a b : Addr} (above : a.toNat < b.toNat + 2 ^ 31)
    (below : b.toNat < a.toNat + 2 ^ 31) : int (a - b) = (a.toNat : Int) - b.toNat := by
  have la := a.isLt
  have lb := b.isLt
  simp only [int, BitVec.toInt_setWidth, BitVec.toNat_sub, Int.bmod]
  omega

theorem last_toNat {a : Addr} {n : Nat} (positive : 0 < n) (fits : a.toNat + n ≤ 2 ^ 64) :
    (a + BitVec.ofNat 64 n - 1#64).toNat = a.toNat + n - 1 := by
  simp only [BitVec.toNat_sub, BitVec.toNat_add, BitVec.toNat_ofNat]
  omega

end FunctionalPacket

namespace Buffer

/-- Where in the request the bytes of the buffer start. -/
def firstByte (r : FunctionalRequest) (b : Buffer) : Nat :=
  b.addr.toNat - r.pkt.addr.toNat

/-- Up to where in the request a partial overlap is copied: one byte short if it reaches out. -/
def found (r : FunctionalRequest) (b : Buffer) : Nat :=
  if b.addr.toNat < r.pkt.addr.toNat ∨ r.pkt.addr.toNat + r.pkt.size < b.addr.toNat + b.size then
    b.reach r - 1
  else b.reach r

/-- The partial overlap that the code computes. -/
def overlap (r : FunctionalRequest) (b : Buffer) : FunctionalPacket.Overlap :=
  { func_offset := b.firstByte r, val_offset := (r.pkt.addr.toNat - b.addr.toNat : Nat),
    overlap_size := (b.found r : Int) - b.firstByte r }

end Buffer

namespace FunctionalPacket

section

variable {r : FunctionalRequest} {q : FunctionalPacket} {b : Buffer}

theorem check_apart (checked : r.Checked q) (apart : ¬b.Overlaps r) :
    q.check b = .ok (false, q, some b.data) := by
  have pend := last_toNat r.positive r.fits
  have bend := last_toNat b.positive b.fits
  have := r.positive
  have := b.positive
  simp only [Buffer.Overlaps] at apart
  simp only [check, checkFunctional, checked.addr, checked.size, BitVec.ofInt_natCast,
    BitVec.lt_def, pend, bend]
  rw [if_pos]
  omega

theorem not_isPrint_of_isRead {cmd : MemCmd} (read : cmd.isRead = true) :
    cmd.testCmdAttrib .isPrint = false := by
  cases cmd <;> first | rfl | exact absurd read (by decide)

theorem check_contains (checked : r.Checked q) (read : r.pkt.cmd.isRead = true)
    (contains : b.Contains r) :
    q.check b = .ok (true, { q with pkt := { q.pkt with
      data := fun i => if i < r.pkt.size then b.byte r i else q.pkt.data i } }, some b.data) := by
  have pend := last_toNat r.positive r.fits
  have bend := last_toNat b.positive b.fits
  have := r.positive
  have := b.positive
  have := b.isInt
  have := r.isInt
  simp only [Buffer.Contains] at contains
  have offset : int (r.pkt.addr - b.addr) = (r.pkt.addr.toNat : Int) - b.addr.toNat := by
    apply int_sub <;> omega
  simp only [check, checkFunctional, checked.addr, checked.size, checked.cmd, BitVec.ofInt_natCast,
    BitVec.lt_def, BitVec.le_def, pend, bend, read, not_isPrint_of_isRead read, offset, ne_eq,
    not_true_eq_false, false_or, if_true, Bool.false_eq_true, if_false]
  rw [if_neg (by omega), if_pos (by omega)]
  congr 5
  funext i
  simp only [memcpy, Buffer.byte]
  by_cases inside : i < r.pkt.size
  · rw [if_pos (by omega), if_pos inside]
    congr 1
    omega
  · rw [if_neg (by omega), if_neg inside]

/-- Another buffer is left to the copying of a partial overlap. -/
theorem check_partial (checked : r.Checked q) (read : r.pkt.cmd.isRead = true)
    (overlaps : b.Overlaps r) (outside : ¬b.Contains r) :
    q.check b = copyPartial (b.overlap r) b.data q >>= fun q =>
      if q.pkt.size < q.bytesValidEnd.toNat then .error .beyondSize
      else
        .ok (decide (q.bytesValidStart = 0 ∧ q.bytesValidEnd.toNat = q.pkt.size), q,
          some b.data) := by
  have pend := last_toNat r.positive r.fits
  have bend := last_toNat b.positive b.fits
  have := r.positive
  have := b.positive
  have := b.isInt
  have := r.isInt
  simp only [Buffer.Contains] at outside
  simp only [Buffer.Overlaps] at overlaps
  have computed : overlapOf r.pkt.addr (r.pkt.addr + BitVec.ofNat 64 r.pkt.size - 1#64) b.addr
      (b.addr + BitVec.ofNat 64 b.size - 1#64) b.size = .ok (b.overlap r) := by
    simp only [overlapOf, BitVec.lt_def, BitVec.le_def, pend, bend, Buffer.overlap, Buffer.found,
      Buffer.firstByte, Buffer.reach]
    by_cases left : b.addr.toNat < r.pkt.addr.toNat
    · rw [if_pos (by omega), if_pos (.inl left), int_sub (by omega) (by omega),
        int_sub (by omega) (by omega), bend]
      congr 2 <;> omega
    · rw [if_neg (by omega)]
      by_cases right : r.pkt.addr.toNat + r.pkt.size < b.addr.toNat + b.size
      · rw [if_pos (by omega), if_pos (.inr right), int_sub (by omega) (by omega),
          int_sub (by omega) (by omega), pend]
        congr 2 <;> omega
      · rw [if_neg (by omega), if_pos (by omega), if_neg (by omega), int_sub (by omega) (by omega)]
        congr 2 <;> omega
  simp only [check, checkFunctional, checked.addr, checked.size, checked.cmd, BitVec.ofInt_natCast,
    BitVec.lt_def, BitVec.le_def, pend, bend, read, not_isPrint_of_isRead read, ne_eq,
    not_true_eq_false, false_or, if_true, Bool.false_eq_true, if_false]
  rw [if_neg (by omega), if_neg (by omega), computed]
  rfl

/-- What a partial overlap makes of a packet: its record and the bytes that are new. -/
structure Copied (data : Nat → UInt8) (lo hi v validStart validEnd : Nat)
    (q q' : FunctionalPacket) :
    Prop where
  pkt : q'.pkt = { q.pkt with data := q'.pkt.data }
  start : q'.bytesValidStart.toNat = min validStart lo
  stop : q'.bytesValidEnd.toNat = max validEnd hi
  bytes : ∀ i, q'.pkt.data i =
    if (lo ≤ i ∧ i < hi) ∧
      ¬(validStart ≤ i ∧ i < validEnd) then data (v + (i - lo)) else q.pkt.data i

theorem record_toNat {n : Nat} (small : n < 2 ^ 16) : (record n).toNat = n := by
  simp only [record, BitVec.ofInt_natCast, BitVec.toNat_ofNat]
  omega

theorem copyPartial_fresh {data : Nat → UInt8} {lo hi v : Nat} (ordered : lo ≤ hi)
    (small : hi < 2 ^ 16) (fresh : q.bytesValidStart = 0 ∧ q.bytesValidEnd = 0) :
    ∃ q', copyPartial ⟨lo, v, (hi : Int) - lo⟩ data q = .ok q' ∧
      Copied data lo hi v lo lo q q' := by
  have stop : (lo : Int) + ((hi : Int) - lo) = hi := by omega
  simp only [copyPartial, stop]
  rw [if_pos fresh]
  refine ⟨_, rfl, rfl, ?_, ?_, ?_⟩
  · show (record lo).toNat = _
    rw [record_toNat (by omega)]
    omega
  · show (record hi).toNat = _
    rw [record_toNat (by omega)]
    omega
  · intro i
    simp only [memcpy]
    split_ifs <;> first | rfl | omega | (congr 1; omega)

/-- Bytes that join those found before are copied as far as they are new. -/
theorem copyPartial_joins {data : Nat → UInt8} {lo hi v l h : Nat} (small : hi < 2 ^ 16)
    (start : q.bytesValidStart.toNat = l) (stop : q.bytesValidEnd.toNat = h)
    (some_found : l < h) (before : l ≤ hi) (after : lo ≤ h) :
    ∃ q', copyPartial ⟨lo, v, (hi : Int) - lo⟩ data q = .ok q' ∧ Copied data lo hi v l h q q' := by
  have ends : (lo : Int) + ((hi : Int) - lo) = hi := by omega
  have used : ¬(q.bytesValidStart = 0 ∧ q.bytesValidEnd = 0) := by
    rintro ⟨-, none⟩
    rw [none] at stop
    simp at stop
    omega
  simp only [copyPartial, ends, start, stop]
  rw [if_neg used]
  have := q.bytesValidEnd.isLt
  by_cases startsLater : l ≤ lo
  · by_cases endsSooner : hi ≤ h
    · rw [if_pos (by omega)]
      refine ⟨q, rfl, rfl, by omega, by omega, fun i => ?_⟩
      rw [if_neg (by omega)]
    · rw [if_neg (by omega), if_neg (by omega), if_pos (by omega)]
      refine ⟨_, rfl, rfl, by simp only; omega, ?_, fun i => ?_⟩
      · have grown : (h : Int) + ((hi : Int) - h) = hi := by omega
        simp only [grown]
        rw [record_toNat (by omega)]
        omega
      · simp only [memcpy]
        split_ifs <;> first | rfl | omega | (congr 1; omega)
  · by_cases endsSooner : hi ≤ h
    · rw [if_neg (by omega), if_pos (by omega)]
      refine ⟨_, rfl, rfl, ?_, by simp only; omega, fun i => ?_⟩
      · show (record lo).toNat = _
        rw [record_toNat (by omega)]
        omega
      · simp only [memcpy]
        split_ifs <;> first | rfl | omega | (congr 1; omega)
    · rw [if_neg (by omega), if_neg (by omega), if_neg (by omega), if_pos (by omega)]
      refine ⟨_, rfl, rfl, ?_, ?_, fun i => ?_⟩
      · show (record lo).toNat = _
        rw [record_toNat (by omega)]
        omega
      · have grown : (h : Int) + ((hi : Int) - h) = hi := by omega
        simp only [grown]
        rw [record_toNat (by omega)]
        omega
      · simp only [memcpy]
        split_ifs <;> first | rfl | omega | (congr 1; omega)

theorem copyPartial_gap {data : Nat → UInt8} {lo hi v l h : Nat} (ordered : lo ≤ hi)
    (start : q.bytesValidStart.toNat = l) (stop : q.bytesValidEnd.toNat = h) (some_found : l < h)
    (gap : hi < l) : copyPartial ⟨lo, v, (hi : Int) - lo⟩ data q = .error .discontiguous := by
  have ends : (lo : Int) + ((hi : Int) - lo) = hi := by omega
  have used : ¬(q.bytesValidStart = 0 ∧ q.bytesValidEnd = 0) := by
    rintro ⟨-, none⟩
    rw [none] at stop
    simp at stop
    omega
  simp only [copyPartial, ends, start, stop]
  rw [if_neg used, if_neg (by omega), if_neg (by omega), if_neg (by omega), if_neg (by omega),
    if_pos (by omega)]

theorem copyPartial_pkt {o : Overlap} {data : Nat → UInt8} {q' : FunctionalPacket}
    (copied : copyPartial o data q = .ok q') : q'.pkt = { q.pkt with data := q'.pkt.data } := by
  simp only [copyPartial] at copied
  split_ifs at copied <;> cases copied <;> rfl

end

end FunctionalPacket

namespace FunctionalRequest

variable {r : FunctionalRequest} {seen bs : List Buffer} {b : Buffer} {q q' : FunctionalPacket}
  {answer : Bool}

/-- The answer, the record and the data of a packet fit the buffers it was checked against. -/
structure Right (r : FunctionalRequest) (seen : List Buffer) (answer : Bool)
    (q : FunctionalPacket) : Prop where
  satisfied : answer = true ↔ r.AllCovered seen
  recorded : ∀ i < r.pkt.size, q.Recorded answer i ↔ r.Covered seen i
  bytes : ∀ i < r.pkt.size, ∀ byte, r.first seen i = some byte → q.pkt.data i = byte

/-- Each check until the access is satisfied leaves the packet as it should be. -/
def Assembled (r : FunctionalRequest) : List Buffer → FunctionalPacket → List Buffer → Prop
  | _, _, [] => True
  | seen, q, b :: bs => ∃ answer q' value, q.check b = .ok (answer, q', value) ∧
      r.Right (seen ++ [b]) answer q' ∧ (answer = false → Assembled r (seen ++ [b]) q' bs)

/--
A buffer that the check handles rightly after those seen before.

One with all bytes agrees with what was found; any other one ends within sixteen bits, and if it
reaches out of the request, then its last byte in the request was found before.
-/
structure Safe (r : FunctionalRequest) (seen : List Buffer) (b : Buffer) : Prop where
  agrees : b.Contains r → ∀ i < r.pkt.size, ∀ byte, r.first seen i = some byte → b.byte r i = byte
  short : ¬b.Contains r → b.reach r < 2 ^ 16
  known : ¬b.Contains r → b.ReachesLeft r ∨ b.ReachesRight r → r.Covered seen (b.reach r - 1)

/-- Every buffer with bytes of the request is safe, until all bytes are held by some buffer. -/
def AllSafe (r : FunctionalRequest) : List Buffer → List Buffer → Prop
  | _, [] => True
  | seen, b :: bs => (b.Overlaps r → r.Safe seen b) ∧
      (¬r.AllCovered (seen ++ [b]) → AllSafe r (seen ++ [b]) bs)

/-- The record of the packet is the range of bytes that the buffers so far hold. -/
structure Found (r : FunctionalRequest) (seen : List Buffer) (q : FunctionalPacket) : Prop where
  checked : r.Checked q
  record : (q.bytesValidStart = 0 ∧ q.bytesValidEnd = 0 ∧ ∀ i < r.pkt.size, ¬r.Covered seen i) ∨
    (q.bytesValidStart.toNat < q.bytesValidEnd.toNat ∧ q.bytesValidEnd.toNat ≤ r.pkt.size ∧
      ∀ i < r.pkt.size, r.Covered seen i ↔
        q.bytesValidStart.toNat ≤ i ∧ i < q.bytesValidEnd.toNat)
  bytes : ∀ i < r.pkt.size, ∀ byte, r.first seen i = some byte → q.pkt.data i = byte

theorem covered_concat (i : Nat) :
    r.Covered (seen ++ [b]) i ↔ r.Covered seen i ∨ b.Covers r i := by
  simp [Covered, or_and_right, exists_or]

theorem first_isSome (i : Nat) : (r.first seen i).isSome ↔ r.Covered seen i := by
  simp [first, Covered]

theorem first_concat (i : Nat) :
    r.first (seen ++ [b]) i =
      (r.first seen i).or (if b.Covers r i then some (b.byte r i) else none) := by
  simp only [first, List.find?_append, List.find?_singleton]
  cases seen.find? fun b => b.Covers r i with
  | none => by_cases covers : b.Covers r i <;> simp [covers]
  | some found => simp

theorem firstByte_lt_reach (overlaps : b.Overlaps r) :
    b.firstByte r < b.reach r ∧ b.reach r ≤ r.pkt.size := by
  have some_held := b.positive
  have some_asked := r.positive
  simp only [Buffer.Overlaps] at overlaps
  simp only [Buffer.firstByte, Buffer.reach]
  omega

theorem covers_iff {i : Nat} (inside : i < r.pkt.size) :
    b.Covers r i ↔ b.firstByte r ≤ i ∧ i < b.reach r := by
  simp only [Buffer.Covers, Buffer.firstByte, Buffer.reach]
  omega

theorem Found.right (found : r.Found seen q)
    (some_found : q.bytesValidStart.toNat < q.bytesValidEnd.toNat) :
    r.Right seen (decide (q.bytesValidStart = 0 ∧ q.bytesValidEnd.toNat = q.pkt.size)) q := by
  have positive := r.positive
  have size := found.checked.size
  obtain ⟨-, none, -⟩ | ⟨-, within, covered⟩ := found.record
  · rw [none] at some_found
    simp at some_found
  have zero : q.bytesValidStart = 0 ↔ q.bytesValidStart.toNat = 0 := by
    rw [← BitVec.toNat_inj]
    rfl
  have satisfied : decide (q.bytesValidStart = 0 ∧ q.bytesValidEnd.toNat = q.pkt.size) = true ↔
      r.AllCovered seen := by
    rw [decide_eq_true_eq, zero, size]
    constructor
    · intro whole i inside
      exact (covered i inside).mpr (by omega)
    · intro all
      have lowest := (covered 0 positive).mp (all 0 positive)
      have highest := (covered (r.pkt.size - 1) (by omega)).mp (all _ (by omega))
      omega
  refine ⟨satisfied, fun i inside => ?_, found.bytes⟩
  rw [FunctionalPacket.Recorded, satisfied, covered i inside]
  constructor
  · rintro (all | range)
    · exact (covered i inside).mp (all i inside)
    · exact range
  · exact .inr

/-- A range that joins the bytes found before leaves the record as it should be. -/
theorem Found.copied {v l h : Nat} (found : r.Found seen q)
    (joined : FunctionalPacket.Copied b.data (b.firstByte r) (b.found r) v l h q q')
    (offset : v = r.pkt.addr.toNat - b.addr.toNat)
    (covered : ∀ i < r.pkt.size, r.Covered seen i ↔ l ≤ i ∧ i < h) (within : h ≤ r.pkt.size)
    (grown : min l (b.firstByte r) < max h (b.found r))
    (union : ∀ i < r.pkt.size, (l ≤ i ∧ i < h) ∨ (b.firstByte r ≤ i ∧ i < b.reach r) ↔
      min l (b.firstByte r) ≤ i ∧ i < max h (b.found r))
    (new : ∀ i, b.firstByte r ≤ i → i < b.reach r → ¬(l ≤ i ∧ i < h) → i < b.found r) :
    r.Found (seen ++ [b]) q' := by
  have size : b.found r ≤ r.pkt.size := by
    simp only [Buffer.found, Buffer.reach]
    split_ifs <;> omega
  constructor
  · obtain ⟨cmd, addr, size, isSecure⟩ := found.checked
    constructor <;> rw [joined.pkt] <;> assumption
  · right
    rw [joined.start, joined.stop]
    refine ⟨grown, by omega, fun i inside => ?_⟩
    rw [covered_concat, covered i inside, covers_iff inside, union i inside]
  · intro i inside byte known
    rw [joined.bytes i]
    rw [first_concat] at known
    by_cases old : l ≤ i ∧ i < h
    · rw [if_neg fun fresh => fresh.2 old]
      have before := (covered i inside).mpr old
      rw [← first_isSome] at before
      obtain ⟨value, is_value⟩ := Option.isSome_iff_exists.mp before
      rw [is_value, Option.some_or] at known
      exact found.bytes i inside byte (by rw [is_value, known])
    · have none : r.first seen i = none := by
        rw [← Option.not_isSome_iff_eq_none, first_isSome, covered i inside]
        exact old
      rw [none, Option.none_or] at known
      split_ifs at known with covers
      have range := (covers_iff inside).mp covers
      rw [if_pos ⟨⟨range.1, new i range.1 range.2 old⟩, old⟩]
      simp only [Option.some.injEq] at known
      rw [← known, Buffer.byte]
      congr 1
      simp only [Buffer.firstByte] at range ⊢
      omega

theorem check_of_copied (found : r.Found seen q) (read : r.pkt.cmd.isRead = true)
    (overlaps : b.Overlaps r) (outside : ¬b.Contains r)
    (copied : FunctionalPacket.copyPartial (b.overlap r) b.data q = .ok q')
    (next : r.Found (seen ++ [b]) q') :
    ∃ answer q' value, q.check b = .ok (answer, q', value) ∧ r.Right (seen ++ [b]) answer q' ∧
      (answer = false → r.Found (seen ++ [b]) q') := by
  have bounds := firstByte_lt_reach overlaps
  -- The buffer holds some byte, so the record is not empty.
  have some_found : q'.bytesValidStart.toNat < q'.bytesValidEnd.toNat := by
    obtain ⟨-, -, nothing⟩ | ⟨nonempty, -, -⟩ := next.record
    · have inside : b.firstByte r < r.pkt.size := by omega
      refine absurd ((covered_concat _).mpr (.inr ?_)) (nothing (b.firstByte r) inside)
      rw [covers_iff inside]
      omega
    · exact nonempty
  have within : ¬q'.pkt.size < q'.bytesValidEnd.toNat := by
    obtain ⟨-, none, -⟩ | ⟨-, bounded, -⟩ := next.record
    · rw [none] at some_found
      simp at some_found
    · rw [next.checked.size]
      omega
  refine ⟨_, q', some b.data, ?_, next.right some_found, fun _ => next⟩
  rw [FunctionalPacket.check_partial found.checked read overlaps outside, copied]
  exact if_neg within

theorem apart_check (found : r.Found seen q) (missing : ¬r.AllCovered seen)
    (apart : ¬b.Overlaps r) :
    ∃ answer q' value, q.check b = .ok (answer, q', value) ∧ r.Right (seen ++ [b]) answer q' ∧
      (answer = false → r.Found (seen ++ [b]) q') := by
  have uncovered : ∀ i < r.pkt.size, ¬b.Covers r i := by
    intro i inside covers
    simp only [Buffer.Covers, Buffer.Overlaps] at covers apart
    omega
  have same : ∀ i < r.pkt.size, (r.Covered (seen ++ [b]) i ↔ r.Covered seen i) := by
    intro i inside
    simp [covered_concat, uncovered i inside]
  have bytes : ∀ i < r.pkt.size, ∀ byte, r.first (seen ++ [b]) i = some byte →
      q.pkt.data i = byte := by
    intro i inside byte known
    rw [first_concat, if_neg (uncovered i inside), Option.or_none] at known
    exact found.bytes i inside byte known
  have next : r.Found (seen ++ [b]) q := by
    refine ⟨found.checked, ?_, bytes⟩
    obtain ⟨start, stop, nothing⟩ | ⟨nonempty, within, covered⟩ := found.record
    · exact .inl ⟨start, stop, fun i inside => by rw [same i inside]; exact nothing i inside⟩
    · exact .inr ⟨nonempty, within, fun i inside => by rw [same i inside, covered i inside]⟩
  refine ⟨false, q, _, FunctionalPacket.check_apart found.checked apart, ⟨?_, ?_, bytes⟩,
    fun _ => next⟩
  · simp only [Bool.false_eq_true, false_iff]
    exact fun all => missing fun i inside => (same i inside).mp (all i inside)
  · intro i inside
    rw [FunctionalPacket.Recorded]
    obtain ⟨start, stop, nothing⟩ | ⟨-, -, covered⟩ := next.record
    · simp [stop, nothing i inside]
    · simp [covered i inside]

theorem contains_check (found : r.Found seen q) (read : r.pkt.cmd.isRead = true)
    (contains : b.Contains r)
    (agrees : ∀ i < r.pkt.size, ∀ byte, r.first seen i = some byte → b.byte r i = byte) :
    ∃ answer q' value, q.check b = .ok (answer, q', value) ∧ r.Right (seen ++ [b]) answer q' ∧
      (answer = false → r.Found (seen ++ [b]) q') := by
  have covers : ∀ i < r.pkt.size, b.Covers r i := by
    intro i inside
    simp only [Buffer.Covers, Buffer.Contains] at contains ⊢
    omega
  have all : r.AllCovered (seen ++ [b]) := fun i inside =>
    (covered_concat i).mpr (.inr (covers i inside))
  refine ⟨true, _, _, FunctionalPacket.check_contains found.checked read contains,
    ⟨by simp [all], ?_, ?_⟩, fun contradiction => by simp at contradiction⟩
  · intro i inside
    simp [FunctionalPacket.Recorded, all i inside]
  · intro i inside byte known
    rw [first_concat, if_pos (covers i inside)] at known
    simp only [if_pos inside]
    cases before : r.first seen i with
    | none => simpa [before] using known
    | some value =>
      simp only [before, Option.some_or, Option.some.injEq] at known
      exact agrees i inside byte (by rw [before, known])

theorem meets_of_contiguous {l h : Nat} (contiguous : r.Contiguous (seen ++ [b]))
    (overlaps : b.Overlaps r) (nonempty : l < h) (within : h ≤ r.pkt.size)
    (covered : ∀ i < r.pkt.size, r.Covered seen i ↔ l ≤ i ∧ i < h) :
    l ≤ b.reach r ∧ b.firstByte r ≤ h := by
  have bounds := firstByte_lt_reach overlaps
  have union : ∀ i < r.pkt.size, r.Covered (seen ++ [b]) i ↔
      (l ≤ i ∧ i < h) ∨ (b.firstByte r ≤ i ∧ i < b.reach r) := by
    intro i inside
    rw [covered_concat, covered i inside, covers_iff inside]
  constructor
  · -- Otherwise the byte after the buffer is a gap.
    by_contra gap
    have between := contiguous (b.reach r - 1) (b.reach r) l (by omega) (by omega) (by omega)
      ((union _ (by omega)).mpr (by omega)) ((union _ (by omega)).mpr (by omega))
    rw [union _ (by omega)] at between
    omega
  · by_contra gap
    have between := contiguous (h - 1) h (b.firstByte r) (by omega) (by omega) (by omega)
      ((union _ (by omega)).mpr (by omega)) ((union _ (by omega)).mpr (by omega))
    rw [union _ (by omega)] at between
    omega

/-- A buffer that the condition allows is handled rightly. -/
theorem safe_check (found : r.Found seen q) (read : r.pkt.cmd.isRead = true)
    (missing : ¬r.AllCovered seen) (contiguous : r.Contiguous (seen ++ [b]))
    (safe : b.Overlaps r → r.Safe seen b) :
    ∃ answer q' value, q.check b = .ok (answer, q', value) ∧ r.Right (seen ++ [b]) answer q' ∧
      (answer = false → r.Found (seen ++ [b]) q') := by
  by_cases overlaps : b.Overlaps r
  · obtain ⟨agrees, short, known⟩ := safe overlaps
    by_cases contains : b.Contains r
    · exact contains_check found read contains (agrees contains)
    have bounds := firstByte_lt_reach overlaps
    have small := short contains
    obtain ⟨start, stop, nothing⟩ | ⟨nonempty, within, covered⟩ := found.record
    · -- Nothing was found before, so the buffer lies inside the request.
      have inner : b.found r = b.reach r := by
        rw [Buffer.found, if_neg]
        exact fun reaches => nothing (b.reach r - 1) (by omega) (known contains reaches)
      obtain ⟨q', copied, joined⟩ :
          ∃ q', FunctionalPacket.copyPartial (b.overlap r) b.data q = .ok q' ∧ _ :=
        FunctionalPacket.copyPartial_fresh (by omega) (by omega) ⟨start, stop⟩
      refine check_of_copied found read overlaps contains copied (found.copied joined rfl
        (fun i inside => ?_) (by omega) (by omega) (fun i inside => by omega)
        (fun i low high _ => by omega))
      simp only [nothing i inside, false_iff]
      omega
    · obtain ⟨before, after⟩ := meets_of_contiguous contiguous overlaps nonempty within covered
      -- What is left out at the end of a buffer that reaches out was found before.
      have last : b.found r = b.reach r ∨ b.found r = b.reach r - 1 ∧
          q.bytesValidStart.toNat ≤ b.reach r - 1 ∧ b.reach r - 1 < q.bytesValidEnd.toNat := by
        rw [Buffer.found]
        split_ifs with reaches
        · exact .inr ⟨rfl, (covered _ (by omega)).mp (known contains reaches)⟩
        · exact .inl rfl
      obtain ⟨q', copied, joined⟩ :
          ∃ q', FunctionalPacket.copyPartial (b.overlap r) b.data q = .ok q' ∧ _ :=
        FunctionalPacket.copyPartial_joins (by omega) rfl rfl nonempty (by omega) (by omega)
      exact check_of_copied found read overlaps contains copied (found.copied joined rfl covered
        within (by omega) (fun i inside => by omega) (fun i low high old => by omega))
  · exact apart_check found missing overlaps

theorem not_right_of_short {value : Option (Nat → UInt8)} (found : r.Found seen q)
    (read : r.pkt.cmd.isRead = true) (overlaps : b.Overlaps r) (outside : ¬b.Contains r)
    (returned : q.check b = .ok (answer, q', value))
    (unrecorded : FunctionalPacket.copyPartial (b.overlap r) b.data q = .ok q' →
      q'.bytesValidEnd.toNat < b.reach r) :
    ¬r.Right (seen ++ [b]) answer q' := by
  intro right
  have bounds := firstByte_lt_reach overlaps
  rw [FunctionalPacket.check_partial found.checked read overlaps outside] at returned
  cases copied : FunctionalPacket.copyPartial (b.overlap r) b.data q with
  | error e => simp [copied, bind, Except.bind] at returned
  | ok q'' =>
    rw [copied] at returned unrecorded
    have size : q''.pkt.size = r.pkt.size := by
      rw [FunctionalPacket.copyPartial_pkt copied]
      exact found.checked.size
    change (if _ then _ else _) = _ at returned
    split_ifs at returned
    simp only [Except.ok.injEq, Prod.mk.injEq] at returned
    obtain ⟨answered, same, -⟩ := returned
    subst same
    have short := unrecorded rfl
    -- The last byte of the buffer in the request is held, but neither way to record it is taken.
    have covered : r.Covered (seen ++ [b]) (b.reach r - 1) := by
      rw [covered_concat, covers_iff (by omega)]
      exact .inr (by omega)
    obtain whole | range := (right.recorded _ (by omega)).mpr covered
    · rw [← answered, decide_eq_true_eq] at whole
      omega
    · omega

/-- A buffer that the condition excludes is handled wrongly. -/
theorem unsafe_check {value : Option (Nat → UInt8)} (found : r.Found seen q)
    (read : r.pkt.cmd.isRead = true) (contiguous : r.Contiguous (seen ++ [b]))
    (overlaps : b.Overlaps r) (returned : q.check b = .ok (answer, q', value))
    (right : r.Right (seen ++ [b]) answer q') : r.Safe seen b := by
  have bounds := firstByte_lt_reach overlaps
  have short : ¬b.Contains r → b.reach r < 2 ^ 16 := by
    intro outside
    by_contra long
    refine not_right_of_short found read overlaps outside returned (fun _ => ?_) right
    have := q'.bytesValidEnd.isLt
    omega
  refine ⟨?_, short, ?_⟩
  · intro contains i inside byte known
    rw [FunctionalPacket.check_contains found.checked read contains] at returned
    cases returned
    have kept := right.bytes i inside byte (by rw [first_concat, known, Option.some_or])
    simpa [inside] using kept
  · intro outside reaches
    have small := short outside
    by_contra unknown
    refine not_right_of_short found read overlaps outside returned (fun copied => ?_) right
    have last : b.found r = b.reach r - 1 := if_pos reaches
    obtain ⟨start, stop, nothing⟩ | ⟨nonempty, within, covered⟩ := found.record
    · obtain ⟨q'', copied', joined⟩ :
          ∃ q', FunctionalPacket.copyPartial (b.overlap r) b.data q = .ok q' ∧ _ :=
        FunctionalPacket.copyPartial_fresh (by omega) (by omega) ⟨start, stop⟩
      rw [copied, Except.ok.injEq] at copied'
      rw [copied', joined.stop]
      omega
    · obtain ⟨before, after⟩ := meets_of_contiguous contiguous overlaps nonempty within covered
      rw [covered _ (by omega)] at unknown
      by_cases gap : b.found r < q.bytesValidStart.toNat
      · have refused : FunctionalPacket.copyPartial (b.overlap r) b.data q = .error _ :=
          FunctionalPacket.copyPartial_gap (by omega) rfl rfl nonempty gap
        rw [copied] at refused
        cases refused
      · obtain ⟨q'', copied', joined⟩ :
            ∃ q', FunctionalPacket.copyPartial (b.overlap r) b.data q = .ok q' ∧ _ :=
          FunctionalPacket.copyPartial_joins (by omega) rfl rfl nonempty (by omega) (by omega)
        rw [copied, Except.ok.injEq] at copied'
        rw [copied', joined.stop]
        omega

/-- Checks leave the packet as it should be exactly as long as the buffers are safe. -/
theorem assembled_iff (found : r.Found seen q) (read : r.pkt.cmd.isRead = true)
    (missing : ¬r.AllCovered seen) (contiguous : ∀ k, r.Contiguous (seen ++ bs.take k)) :
    r.Assembled seen q bs ↔ r.AllSafe seen bs := by
  -- The induction follows the buffers; the record carries what was found to the next one.
  induction bs generalizing seen q with
  | nil => simp [Assembled, AllSafe]
  | cons b bs ih =>
    have together : r.Contiguous (seen ++ [b]) := by simpa using contiguous 1
    have rest : ∀ k, r.Contiguous ((seen ++ [b]) ++ bs.take k) := by
      intro k
      simpa using contiguous (k + 1)
    simp only [Assembled, AllSafe]
    constructor
    · rintro ⟨answer, q', value, returned, right, later⟩
      have safe : b.Overlaps r → r.Safe seen b := fun overlaps =>
        unsafe_check found read together overlaps returned right
      refine ⟨safe, fun unfinished => ?_⟩
      obtain ⟨answer', q'', value', returned', right', next⟩ :=
        safe_check found read missing together safe
      rw [returned, Except.ok.injEq, Prod.mk.injEq, Prod.mk.injEq] at returned'
      obtain ⟨rfl, rfl, rfl⟩ := returned'
      have unsatisfied : answer = false := by
        rw [← Bool.not_eq_true, right.satisfied]
        exact unfinished
      exact (ih (next unsatisfied) unfinished rest).mp (later unsatisfied)
    · rintro ⟨safe, later⟩
      obtain ⟨answer, q', value, returned, right, next⟩ :=
        safe_check found read missing together safe
      refine ⟨answer, q', value, returned, right, fun unsatisfied => ?_⟩
      have unfinished : ¬r.AllCovered (seen ++ [b]) := by
        rw [← right.satisfied, unsatisfied]
        decide
      exact (ih (next unsatisfied) unfinished rest).mpr (later unfinished)

/-- A functional write changes exactly the bytes that the buffer shares with it. -/
theorem write_check (r : FunctionalRequest) (b : Buffer) (checked : r.Checked q)
    (write : r.pkt.cmd.isWrite = true) (noRead : r.pkt.cmd.isRead = false) :
    ∃ value, q.check b = .ok (false, q, some value) ∧
      ∀ j, value j =
        if j < b.size ∧ r.pkt.addr.toNat ≤ b.addr.toNat + j ∧
            b.addr.toNat + j < r.pkt.addr.toNat + r.pkt.size then
          q.pkt.data (b.addr.toNat + j - r.pkt.addr.toNat)
        else b.data j := by
  by_cases overlaps : b.Overlaps r
  · have pend := FunctionalPacket.last_toNat r.positive r.fits
    have bend := FunctionalPacket.last_toNat b.positive b.fits
    have some_held := b.positive
    have some_asked := r.positive
    have asked_int := r.isInt
    have held_int := b.isInt
    have unprinted : r.pkt.cmd.testCmdAttrib .isPrint = false := by
      revert write
      cases r.pkt.cmd <;> decide
    simp only [Buffer.Overlaps] at overlaps
    have offset := FunctionalPacket.int_sub (a := r.pkt.addr) (b := b.addr) (by omega) (by omega)
    simp only [FunctionalPacket.check, FunctionalPacket.checkFunctional, checked.addr, checked.size,
      checked.cmd, BitVec.ofInt_natCast, BitVec.lt_def, pend, bend, write, noRead, unprinted, ne_eq,
      not_true_eq_false, false_or, Bool.false_eq_true, if_false, if_true, offset]
    rw [if_neg (by omega)]
    refine ⟨_, rfl, fun j => ?_⟩
    generalize last : (if r.pkt.addr.toNat + r.pkt.size - 1 < b.addr.toNat + b.size - 1 then
      r.pkt.addr + BitVec.ofNat 64 r.pkt.size - 1#64
      else b.addr + BitVec.ofNat 64 b.size - 1#64) = stop
    have stops : stop.toNat =
        min (r.pkt.addr.toNat + r.pkt.size - 1) (b.addr.toNat + b.size - 1) := by
      rw [← last]
      split_ifs
      · rw [pend]
        omega
      · rw [bend]
        omega
    -- The copy starts at the later of the two starts.
    by_cases later : b.addr.toNat ≤ r.pkt.addr.toNat
    · rw [if_pos (by omega), FunctionalPacket.int_sub (by omega) (by omega), stops,
        FunctionalPacket.memcpy]
      split_ifs <;> first | rfl | omega | (congr 1; omega)
    · rw [if_neg (by omega), FunctionalPacket.int_sub (by omega) (by omega), stops,
        FunctionalPacket.memcpy]
      split_ifs <;> first | rfl | omega | (congr 1; omega)
  · refine ⟨b.data, FunctionalPacket.check_apart checked overlaps, fun j => ?_⟩
    simp only [Buffer.Overlaps] at overlaps
    rw [if_neg (by omega)]

theorem found_nil (r : FunctionalRequest) : r.Found [] ⟨r.pkt, 0, 0⟩ := by
  refine ⟨⟨rfl, rfl, rfl, rfl⟩, .inl ⟨rfl, rfl, ?_⟩, ?_⟩
  · rintro i - ⟨b, member, -⟩
    exact absurd member List.not_mem_nil
  · intro i _ byte known
    exact nomatch known

/--
A functional read is put together rightly from buffers exactly if these are safe.

A functional write updates in every buffer exactly the bytes they share.
-/
theorem checks_assemble_request (r : FunctionalRequest) :
    (∀ bs : List Buffer, r.pkt.cmd.isRead = true → (∀ k, r.Contiguous (bs.take k)) →
      (r.Assembled [] ⟨r.pkt, 0, 0⟩ bs ↔ r.AllSafe [] bs)) ∧
    ∀ (b : Buffer) (q : FunctionalPacket), r.Checked q →
      r.pkt.cmd.isWrite = true → r.pkt.cmd.isRead = false →
        ∃ value, q.check b = .ok (false, q, some value) ∧
          ∀ j, value j =
            if j < b.size ∧ r.pkt.addr.toNat ≤ b.addr.toNat + j ∧
                b.addr.toNat + j < r.pkt.addr.toNat + r.pkt.size then
              q.pkt.data (b.addr.toNat + j - r.pkt.addr.toNat)
            else b.data j := by
  constructor
  · intro bs read contiguous
    apply assembled_iff r.found_nil read
    · intro all
      obtain ⟨b, member, -⟩ := all 0 r.positive
      exact absurd member List.not_mem_nil
    · simpa using contiguous
  · intro b q checked write noRead
    exact write_check r b checked write noRead

/-- A request for the four bytes from sixteen on. -/
def fourBytes (cmd : MemCmd) : FunctionalRequest where
  pkt := .ofRequest
    { paddr := 16, size := 4, contextId := 0, isSecure := false, isUncacheable := false,
      isInstFetch := false, isCondSwap := false, isClearLL := false, extraData := 0 }
    cmd fun _ => 0
  positive := (by decide : 0 < 4)
  isInt := (by decide : 4 < 2 ^ 31)
  fits := (by decide : 16 + 4 ≤ 2 ^ 64)

/-- A small buffer of sevens at a low address. -/
def sevens (addr : Addr) (size : Nat) (small : 0 < size ∧ size < 64 ∧ addr.toNat < 64) :
    Buffer where
  addr := addr
  size := size
  data := fun _ => 7
  positive := small.1
  isInt := by omega
  fits := by omega

/-- The four bytes are held by two buffers that meet, and the first one reaches out. -/
def reachingOut : List Buffer :=
  [sevens 14 4 (by decide), sevens 18 2 (by decide)]

/-- The four bytes are held by two buffers that meet within them. -/
def halves : List Buffer :=
  [sevens 16 2 (by decide), sevens 18 2 (by decide)]

theorem fourBytes_start (cmd : MemCmd) : (fourBytes cmd).pkt.addr.toNat = 16 := rfl

theorem fourBytes_size (cmd : MemCmd) : (fourBytes cmd).pkt.size = 4 := rfl

theorem contiguous_halves {start size : Nat}
    (small : 0 < size ∧ size < 64 ∧ (BitVec.ofNat 64 start).toNat < 64)
    (low : start ≤ 16) (meets : start + size = 18) (k : Nat) :
    (fourBytes .readReq).Contiguous
      ([sevens (BitVec.ofNat 64 start) size small, sevens 18 2 (by decide)].take k) := by
  have second : (18 : Addr).toNat = 18 := rfl
  have wrapped : (BitVec.ofNat 64 start).toNat = start := by
    rw [BitVec.toNat_ofNat]
    omega
  intro i j l lower upper inside first last
  rw [fourBytes_size] at inside
  match k with
  | 0 => simp [Covered] at first
  | 1 =>
    simp only [Covered, List.take_succ_cons, List.take_zero, List.mem_singleton, exists_eq_left,
      Buffer.Covers, sevens, fourBytes_start, wrapped] at first last ⊢
    omega
  | k + 2 =>
    simp only [Covered, List.take_succ_cons, List.take_nil, List.mem_cons, List.not_mem_nil,
      or_false,
      exists_eq_or_imp, exists_eq_left, Buffer.Covers, sevens, fourBytes_start, wrapped, second]
      at first last ⊢
    omega

/-- A buffer that starts before the request and ends in it gives one byte less than it holds. -/
theorem last_byte_of_overlap_lost :
    (∀ k, (fourBytes .readReq).Contiguous (reachingOut.take k)) ∧
      ¬(fourBytes .readReq).Assembled [] ⟨(fourBytes .readReq).pkt, 0, 0⟩ reachingOut := by
  constructor
  · exact @contiguous_halves 14 4 (by decide) (by decide) rfl
  · rintro ⟨answer, q, value, returned, right, -⟩
    cases returned
    -- The second byte is held by the buffer, but only the first is recorded.
    have covered : (fourBytes .readReq).Covered ([] ++ [sevens 14 4 (by decide)]) 1 :=
      ⟨_, List.mem_singleton_self _, by decide⟩
    obtain whole | range := (right.recorded 1 (by decide)).mpr covered
    · exact absurd whole (by decide)
    · exact absurd range (by decide)

/-- Two halves of a read are put together, and a write reaches the half it is checked against. -/
theorem halves_assembled :
    (fourBytes .readReq).Assembled [] ⟨(fourBytes .readReq).pkt, 0, 0⟩ halves ∧
      ∃ value, FunctionalPacket.check (sevens 18 2 (by decide)) ⟨(fourBytes .writeReq).pkt, 0, 0⟩ =
        .ok (false, ⟨(fourBytes .writeReq).pkt, 0, 0⟩, some value) ∧ value 0 = 0 ∧ value 2 = 7 := by
  constructor
  · apply ((checks_assemble_request _).1 _ rfl
      (@contiguous_halves 16 2 (by decide) (by decide) rfl)).mpr
    -- Both buffers lie inside the request, so there is nothing that they could lose.
    have inner : ∀ seen (b : Buffer), 16 ≤ b.addr.toNat → b.addr.toNat + b.size ≤ 20 →
        b.size = 2 → (fourBytes .readReq).Safe seen b := by
      intro seen b above below short
      constructor
      · intro contains
        simp only [Buffer.Contains, fourBytes_start, fourBytes_size] at contains
        omega
      · intro _
        simp only [Buffer.reach, fourBytes_start, fourBytes_size]
        omega
      · intro _ reaches
        simp only [Buffer.ReachesLeft, Buffer.ReachesRight, fourBytes_start, fourBytes_size]
          at reaches
        omega
    exact ⟨fun _ => inner _ _ (by decide) (by decide) rfl,
      fun _ => ⟨fun _ => inner _ _ (by decide) (by decide) rfl, fun _ => trivial⟩⟩
  · obtain ⟨value, checked, bytes⟩ := (checks_assemble_request (fourBytes .writeReq)).2
      (sevens 18 2 (by decide)) ⟨(fourBytes .writeReq).pkt, 0, 0⟩ ⟨rfl, rfl, rfl, rfl⟩ rfl rfl
    exact ⟨value, checked, bytes 0, bytes 2⟩

end FunctionalRequest

end GemDroid

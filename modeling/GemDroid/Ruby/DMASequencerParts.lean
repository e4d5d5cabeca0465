import Mathlib.Algebra.Group.Nat.Defs
import GemDroid.Ruby.DMASequencer

/-! The parts into which a DMA sequencer splits its request. -/

namespace GemDroid

namespace MIExample

/-- The part of a request that is under way: bytes of one block, up to its end or to that of the
request. -/
structure Chunk (blockSize : Nat) (r : DMARequest) : Prop where
  part : r.bytes_completed < r.bytes_issued
  within : r.bytes_issued ≤ r.len
  aligned : r.bytes_completed = 0 ∨ (r.start_paddr + r.bytes_completed) % blockSize = 0
  one : (r.start_paddr + r.bytes_completed) % blockSize + (r.bytes_issued - r.bytes_completed) ≤
    blockSize
  whole : r.bytes_issued = r.len ∨
    (r.start_paddr + r.bytes_completed) % blockSize + (r.bytes_issued - r.bytes_completed) =
      blockSize

/-- The block of the part that is under way. -/
def DMARequest.block (r : DMARequest) (blockSize : Nat) : Nat :=
  (r.start_paddr + r.bytes_completed) / blockSize

/-- The message is for the part of the request that is under way. -/
structure Part (blockSize : Nat) (r : DMARequest) (msg : SequencerMsg) : Prop where
  type : msg.type = if r.write then .ST else .LD
  address : msg.physicalAddress = r.start_paddr + r.bytes_completed
  len : msg.len = r.bytes_issued - r.bytes_completed
  data : r.write = true → ∀ j < msg.len,
    msg.dataBlk (msg.physicalAddress % blockSize + j) = r.data (r.bytes_completed + j)

theorem Chunk.mem_iff {blockSize : Nat} {r : DMARequest} (chunk : Chunk blockSize r)
    (positive : 0 < blockSize) {k : Nat} (inside : k < r.len) :
    (r.start_paddr + k) / blockSize = r.block blockSize ↔
      r.bytes_completed ≤ k ∧ k < r.bytes_issued := by
  obtain ⟨part, within, aligned, one, whole⟩ := chunk
  -- Where the block begins, and where in it the part does.
  have split := Nat.div_add_mod' (r.start_paddr + r.bytes_completed) blockSize
  rw [Nat.div_eq_iff positive, DMARequest.block]
  generalize (r.start_paddr + r.bytes_completed) / blockSize * blockSize = first at split ⊢
  generalize (r.start_paddr + r.bytes_completed) % blockSize = offset at split aligned one whole
  omega

theorem Part.wants {blockSize : Nat} {r : DMARequest} {msg : SequencerMsg}
    (part : Part blockSize r msg) (chunk : Chunk blockSize r) (write : r.write = true) :
    Wants blockSize (DmaSystem.wanted r blockSize (r.block blockSize)) msg.physicalAddress msg.len
      msg.dataBlk := by
  intro i inside
  obtain ⟨-, address, len, data⟩ := part
  have bytes := data write
  rw [address, len] at bytes ⊢
  have split := Nat.div_add_mod' (r.start_paddr + r.bytes_completed) blockSize
  simp only [DmaSystem.wanted, write, true_and, DMARequest.block]
  obtain ⟨some', within, aligned, one, whole⟩ := chunk
  generalize (r.start_paddr + r.bytes_completed) / blockSize * blockSize = first at split ⊢
  generalize (r.start_paddr + r.bytes_completed) % blockSize = offset at *
  by_cases here : offset ≤ i ∧ i < offset + (r.bytes_issued - r.bytes_completed)
  · rw [if_pos here, if_pos (by omega)]
    have byte := bytes (i - offset) (by omega)
    rw [show offset + (i - offset) = i by omega] at byte
    rw [byte]
    congr 2
    omega
  · rw [if_neg here, if_neg (by omega)]

theorem DataBlock.setData_inside (block : DataBlock) (data : Nat → UInt8) {offset len j : Nat}
    (inside : j < len) : block.setData data offset len (offset + j) = data j := by
  rw [DataBlock.setData, if_pos ⟨Nat.le_add_right offset j, by omega⟩, Nat.add_sub_cancel_left]

namespace DMASequencer

theorem fill_eq {blockSize offset len : Nat} (fits : offset + len ≤ blockSize) (write : Bool)
    (data : Nat → UInt8) : ∃ dataBlk,
    fill blockSize write data offset len = .ok dataBlk ∧
      (write = true → ∀ j < len, dataBlk (offset + j) = data j) := by
  cases write with
  | false => exact ⟨fun _ => 0, rfl, fun no => by cases no⟩
  | true =>
    refine ⟨DataBlock.setData (fun _ => 0) data offset len, ?_, fun _ j inside => ?_⟩
    · simp [fill, fits]
    · exact DataBlock.setData_inside _ data inside

/-- A new request goes out with its first part. -/
theorem makeRequest_eq {blockSize : Nat} (positive : 0 < blockSize) {q : DMASequencer}
    (free : q.m_is_busy = false) (empty : q.m_mandatory_q = []) {paddr len : Nat}
    (some_len : 1 ≤ len) (write : Bool) (data : Nat → UInt8) :
    ∃ issued msg, Chunk blockSize { start_paddr := paddr, len, write, data, bytes_issued :=
      issued } ∧
      Part blockSize { start_paddr := paddr, len, write, data, bytes_issued := issued } msg ∧
      q.makeRequest blockSize paddr len write data = some (.ok {
        m_is_busy := true
        active_request := { start_paddr := paddr, len, write, data, bytes_issued := issued }
        m_mandatory_q := [msg] }) := by
  have below := Nat.mod_lt paddr positive
  obtain ⟨issued, issued_eq⟩ : ∃ issued, issued =
    if paddr % blockSize + len ≤ blockSize then len else blockSize - paddr % blockSize := ⟨_, rfl⟩
  have fits : paddr % blockSize + issued ≤ blockSize := by
    rw [issued_eq]
    split <;> omega
  obtain ⟨dataBlk, filled, bytes⟩ := fill_eq fits write data
  refine ⟨issued, {
    type := if write then .ST else .LD, physicalAddress := paddr, dataBlk, len := issued },
    ?_, ⟨rfl, rfl, rfl, ?_⟩, ?_⟩
  · constructor
    · simp only
      rw [issued_eq]
      split <;> omega
    · simp only
      rw [issued_eq]
      split <;> omega
    · exact .inl rfl
    · exact fits
    · simp only [Nat.add_zero, Nat.sub_zero]
      rw [issued_eq]
      split
      · exact .inl rfl
      · exact .inr (by omega)
  · intro is_write j inside
    simp only [Nat.zero_add]
    exact bytes is_write j inside
  · simp [makeRequest, free, empty, ← issued_eq, filled, bind, Except.bind, pure, Except.pure]

/-- When a part is done the next one goes out, or the request is over. -/
theorem issueNext_eq {blockSize : Nat} (positive : 0 < blockSize) {q : DMASequencer}
    (busy : q.m_is_busy = true) (empty : q.m_mandatory_q = [])
    (chunk : Chunk blockSize q.active_request) :
    (q.active_request.bytes_issued = q.active_request.len ∧
      q.issueNext blockSize = .ok ({ q with
        m_is_busy := false
        active_request := { q.active_request with
          bytes_completed := q.active_request.bytes_issued } }, true)) ∨
    ∃ issued msg, Chunk blockSize { q.active_request with
          bytes_completed := q.active_request.bytes_issued, bytes_issued := issued } ∧
      Part blockSize { q.active_request with
          bytes_completed := q.active_request.bytes_issued, bytes_issued := issued } msg ∧
      q.issueNext blockSize = .ok ({ q with
        active_request := { q.active_request with
          bytes_completed := q.active_request.bytes_issued, bytes_issued := issued }
        m_mandatory_q := [msg] }, false) := by
  generalize at_r : q.active_request = r at chunk ⊢
  by_cases done : r.bytes_issued = r.len
  · refine .inl ⟨done, ?_⟩
    simp [issueNext, busy, at_r, done]
  · obtain ⟨part, within, aligned, one, whole⟩ := chunk
    -- The part before ended with its block, so that this one begins with one.
    have start : (r.start_paddr + r.bytes_issued) % blockSize = 0 := by
      have ends := whole.resolve_left done
      have split := Nat.div_add_mod' (r.start_paddr + r.bytes_completed) blockSize
      have next : r.start_paddr + r.bytes_issued =
          (r.start_paddr + r.bytes_completed) / blockSize * blockSize + blockSize := by omega
      rw [next, Nat.add_mod_right, Nat.mul_mod_left]
    obtain ⟨len', len_eq⟩ : ∃ len', len' =
      if r.len - r.bytes_issued < blockSize then r.len - r.bytes_issued else blockSize := ⟨_, rfl⟩
    have fits : 0 + len' ≤ blockSize := by
      rw [len_eq]
      split <;> omega
    have some' : 0 < len' ∧ len' ≤ r.len - r.bytes_issued := by
      rw [len_eq]
      split <;> omega
    obtain ⟨dataBlk, filled, bytes⟩ :=
      fill_eq fits r.write fun j => r.data (r.bytes_issued + j)
    refine .inr ⟨r.bytes_issued + len', {
      type := if r.write then .ST else .LD, physicalAddress := r.start_paddr + r.bytes_issued
      dataBlk, len := len' }, ?_, ⟨rfl, rfl, ?_, ?_⟩, ?_⟩
    · constructor
      · simp only
        omega
      · simp only
        omega
      · exact .inr start
      · simp only [start]
        omega
      · simp only [start]
        rw [len_eq]
        split
        · exact .inl (by omega)
        · exact .inr (by omega)
    · simp only
      omega
    · intro is_write j inside
      simp only [start]
      exact bytes is_write j inside
    · simp [issueNext, busy, at_r, Ne.symm done, start, empty, ← len_eq, filled, bind,
        Except.bind, pure, Except.pure]

theorem dataCallback_eq {blockSize : Nat} {q : DMASequencer} (busy : q.m_is_busy = true)
    (read : q.active_request.write = false) (chunk : Chunk blockSize q.active_request)
    (dblk : DataBlock) :
    q.dataCallback blockSize dblk = issueNext blockSize { q with
      active_request := { q.active_request with
        data := DataBlock.setData q.active_request.data
          (dblk.getData ((q.active_request.start_paddr + q.active_request.bytes_completed) %
            blockSize))
          q.active_request.bytes_completed
          (q.active_request.bytes_issued - q.active_request.bytes_completed) } } := by
  -- Only the first part may begin inside a block.
  have offset : (if q.active_request.bytes_completed = 0 then
      q.active_request.start_paddr % blockSize else 0) =
      (q.active_request.start_paddr + q.active_request.bytes_completed) % blockSize := by
    split
    · rename_i first
      rw [first, Nat.add_zero]
    · rename_i later
      exact (chunk.aligned.resolve_left later).symm
  have fits := chunk.one
  simp only [dataCallback, offset]
  rw [if_neg]
  simp [busy, read, fits]

end DMASequencer

end MIExample

end GemDroid

import Mathlib.Tactic.Common
import GemDroid.Base.CircleBuf

/-! A circular buffer is a queue that keeps the newest bytes, as long as no write overruns it. -/

namespace GemDroid

variable {buf bytes : List UInt8} {position k : Nat}

theorem store_length (inside : position + bytes.length ≤ buf.length) :
    (store buf position bytes).length = buf.length := by
  simp only [store, List.length_append, List.length_take, List.length_drop]
  omega

theorem take_store_end (inside : position ≤ buf.length) :
    (store buf position bytes).take (position + bytes.length) = buf.take position ++ bytes := by
  have front : (buf.take position ++ bytes).length = position + bytes.length := by
    simp only [List.length_append, List.length_take]
    omega
  rw [store, ← front, List.take_left']
  rfl

theorem drop_store (inside : position + bytes.length ≤ buf.length)
    (behind : position + bytes.length ≤ k) : (store buf position bytes).drop k = buf.drop k := by
  have front : (buf.take position ++ bytes).length = position + bytes.length := by
    simp only [List.length_append, List.length_take]
    omega
  obtain ⟨more, rfl⟩ := Nat.exists_eq_add_of_le behind
  rw [store, ← List.drop_drop, List.drop_left' front, List.drop_drop]

theorem drop_store_end (reaches : position + bytes.length = buf.length) (before : k ≤ position) :
    (store buf position bytes).drop k = (buf.take position).drop k ++ bytes := by
  have room : k ≤ (buf.take position).length := by
    rw [List.length_take]
    omega
  rw [store, reaches, List.drop_length, List.append_nil, List.drop_append_of_le_length room]

theorem slice_eq (buf : List UInt8) (position stop : Nat) :
    slice buf position (stop - position) = (buf.take stop).drop position :=
  List.drop_take.symm

namespace CircleBuf

/--
A buffer holds the bytes of a queue.

They stand between start and stop, or from the start to the end and on from the beginning to the
stop.
-/
structure Holds (capacity : Nat) (q : List UInt8) (b : CircleBuf) : Prop where
  buflen : b.buf.length = capacity
  size : b.size = q.length
  stop : b.stop ≤ capacity
  layout : b.start ≤ b.stop ∧ q = (b.buf.take b.stop).drop b.start ∨
    b.stop ≤ b.start ∧ b.start ≤ capacity ∧ q ≠ [] ∧
      q = b.buf.drop b.start ++ b.buf.take b.stop

variable {capacity : Nat} {q : List UInt8} {b : CircleBuf}

theorem construct_holds (buf : List UInt8) : Holds buf.length [] (construct buf) :=
  ⟨rfl, rfl, Nat.zero_le _, .inl ⟨Nat.le_refl _, rfl⟩⟩

/--
An operation that does not reach a defect of the buffer.

A write must not overrun, unless it fills the whole buffer, and must not wrap without bringing the
start right behind the stop; a read needs some bytes, and a flush none.
-/
def Safe (op : CircleOp) (b : CircleBuf) : Prop :=
  match op with
  | .write bytes => bytes = [] ∨ b.size + bytes.length < intBound ∧ (b.buflen ≤ bytes.length ∨
      b.stop + bytes.length < intBound ∧ b.size + bytes.length ≤ b.buflen ∧
        (b.start < b.stop → b.stop + bytes.length ≤ b.buflen ∨
          b.size + bytes.length + 1 = b.buflen))
  | .read len => b.size = 0 → b.buflen = 0 ∨ len = 0 ∧ b.start < b.buflen
  | .readFull => b.size = 0 → b.buflen = 0
  | .readall => b.size = 0 ∧ b.stop = 0 ∧ (b.rollover = true → b.buflen = 0)
  | .flush => b.size = 0

instance (op : CircleOp) (b : CircleBuf) : Decidable (Safe op b) :=
  match op with
  | .write _ => inferInstanceAs (Decidable (_ ∨ _))
  | .read _ | .readFull => inferInstanceAs (Decidable (_ → _))
  | .readall => inferInstanceAs (Decidable (_ ∧ _))
  | .flush => inferInstanceAs (Decidable (_ = _))

theorem length_between {buf : List UInt8} {start stop : Nat} (inside : stop ≤ buf.length) :
    ((buf.take stop).drop start).length = stop - start := by
  rw [List.length_drop, List.length_take, Nat.min_eq_left inside]

theorem drop_between (buf : List UInt8) (start stop len : Nat) :
    (buf.take stop).drop (start + min len (stop - start)) =
      ((buf.take stop).drop start).drop len := by
  rw [List.drop_drop]
  obtain few | many := Nat.le_total len (stop - start)
  · rw [Nat.min_eq_left few]
  · rw [Nat.min_eq_right many, List.drop_eq_nil_of_le (by rw [List.length_take]; omega),
      List.drop_eq_nil_of_le (by rw [List.length_take]; omega)]

/-- A partial read returns the oldest bytes and keeps the other ones. -/
theorem Holds.read (holds : Holds capacity q b) {len : Nat} (safe : Safe (.read len) b) :
    ∃ b', b.read len = some (q.take len, b') ∧ Holds capacity (q.drop len) b' := by
  obtain ⟨buflen, size, stop, layout⟩ := holds
  have fits : b.stop ≤ b.buf.length := buflen ▸ stop
  have shrinks : b.size - len = (q.drop len).length := by rw [size, List.length_drop]
  simp only [Safe, CircleBuf.buflen, buflen] at safe
  simp only [CircleBuf.read, CircleBuf.buflen, buflen]
  -- The bytes lie in one piece, or go on at the beginning of the buffer.
  obtain ⟨le, rfl⟩ | ⟨le, bound, some_bytes, rfl⟩ := layout
  · by_cases less : b.start < b.stop
    · refine ⟨{ b with size := b.size - len, start := b.start + min len (b.stop - b.start) }, ?_,
        buflen, shrinks, stop, .inl ⟨?_, (drop_between b.buf _ _ _).symm⟩⟩
      · rw [if_pos less, ← slice_eq, slice, slice, List.take_take]
      · simp only
        omega
    · -- Nothing is held, so that nothing may be asked for, unless there is no room at all.
      rw [length_between fits] at size
      have nothing : (b.buf.take b.stop).drop b.start = [] := by
        refine List.eq_nil_of_length_eq_zero ?_
        rw [length_between fits]
        omega
      rw [nothing, List.drop_nil] at shrinks
      rw [nothing, List.take_nil, List.drop_nil, if_neg less, if_neg (by omega)]
      obtain none | ⟨rfl, room⟩ := safe (by omega)
      · refine ⟨{ b with size := b.size - len }, ?_, buflen, shrinks, stop, .inl ⟨le, nothing.symm⟩⟩
        have empty : b.buf = [] := List.eq_nil_of_length_eq_zero (buflen.trans none)
        have start : min (len - (capacity - b.start)) b.stop = b.start := by omega
        rw [if_neg (by omega), start, slice, slice, empty]
        simp
      · refine ⟨{ b with size := b.size - 0 }, ?_, buflen, shrinks, stop, .inl ⟨le, nothing.symm⟩⟩
        rw [if_pos (by omega), slice, List.take_zero, Nat.add_zero]
  · have first : (b.buf.drop b.start).length = capacity - b.start := by rw [List.length_drop,
      buflen]
    have second : (b.buf.take b.stop).length = b.stop := by
      rw [List.length_take, Nat.min_eq_left fits]
    rw [if_neg (by omega), if_neg (by omega)]
    by_cases short : len < capacity - b.start
    · refine ⟨{ b with size := b.size - len, start := b.start + len }, ?_, buflen, shrinks, stop,
        .inr ⟨Nat.le_add_right_of_le le, ?_, ?_, ?_⟩⟩
      · rw [if_pos short, List.take_append_of_le_length (by omega), slice]
      · simp only
        omega
      · refine List.ne_nil_of_length_pos ?_
        rw [List.length_drop, List.length_append]
        omega
      · rw [List.drop_append_of_le_length (by omega), List.drop_drop]
    · -- The read goes on at the beginning of the buffer.
      refine ⟨{ b with size := b.size - len, start := min (len - (capacity - b.start)) b.stop }, ?_,
        buflen, shrinks, stop, .inl ⟨Nat.min_le_right _ _, ?_⟩⟩
      · have whole : slice b.buf b.start (capacity - b.start) = b.buf.drop b.start := by
          rw [slice, ← first, List.take_length]
        rw [if_neg short, whole, List.take_append, first,
          List.take_of_length_le (first ▸ Nat.not_lt.mp short), slice,
          List.drop_zero, List.take_take]
      · rw [List.drop_append, first, List.drop_eq_nil_of_le (by omega), List.nil_append]
        have dropped := drop_between b.buf 0 b.stop (len - (capacity - b.start))
        rw [Nat.zero_add, Nat.sub_zero, List.drop_zero] at dropped
        exact dropped.symm

theorem Holds.readFull (holds : Holds capacity q b) (safe : Safe .readFull b) :
    ∃ b', b.readFull = some (q, b') ∧ Holds capacity [] b' := by
  obtain ⟨buflen, size, stop, layout⟩ := holds
  have fits : b.stop ≤ b.buf.length := buflen ▸ stop
  have none_left : (b.buf.take b.stop).drop b.stop = [] :=
    List.drop_eq_nil_of_le (List.length_take_le _ _)
  refine ⟨{ b with size := 0, start := b.stop }, ?_, buflen, rfl, stop,
    .inl ⟨Nat.le_refl _, none_left.symm⟩⟩
  simp only [Safe, CircleBuf.buflen, buflen] at safe
  simp only [CircleBuf.readFull, CircleBuf.buflen, buflen]
  obtain ⟨le, rfl⟩ | ⟨le, bound, -, rfl⟩ := layout
  · by_cases less : b.start < b.stop
    · rw [if_pos less, slice_eq]
    · -- Nothing is held, so that the buffer has no room.
      rw [length_between fits] at size
      have empty : b.buf = [] := List.eq_nil_of_length_eq_zero (by omega)
      rw [if_neg less, if_neg (by omega), slice, slice, empty]
      simp
  · have whole : slice b.buf b.start (capacity - b.start) = b.buf.drop b.start := by
      rw [slice, ← buflen, ← List.length_drop, List.take_length]
    rw [if_neg (by omega), if_neg (by omega), whole, slice, List.drop_zero]

theorem Holds.readall (holds : Holds capacity q b) (safe : Safe .readall b) :
    b.readall.1 = q ∧ Holds capacity [] b.readall.2 := by
  obtain ⟨buflen, size, stop, -⟩ := holds
  obtain ⟨none, zero, rolled⟩ := safe
  obtain rfl : q = [] := List.eq_nil_of_length_eq_zero (size.symm.trans none)
  refine ⟨?_, buflen, none, stop, .inl ⟨Nat.le_refl _, ?_⟩⟩
  · simp only [CircleBuf.readall, zero, slice, List.take_zero, List.append_nil]
    split
    · rename_i wrapped
      rw [rolled wrapped, List.take_zero]
    · rfl
  · exact (List.drop_eq_nil_of_le (List.length_take_le _ _)).symm

theorem Holds.room (holds : Holds capacity q b) : q.length ≤ capacity := by
  obtain ⟨buflen, -, stop, layout⟩ := holds
  obtain ⟨le, rfl⟩ | ⟨le, bound, -, rfl⟩ := layout
  · rw [length_between (buflen ▸ stop)]
    omega
  · rw [List.length_append, List.length_drop, List.length_take]
    omega

theorem Holds.append (holds : Holds capacity q b) {bytes : List UInt8}
    (fits : b.size + bytes.length ≤ capacity) (inside : b.stop + bytes.length ≤ capacity)
    (some_bytes : bytes ≠ []) :
    Holds capacity (q ++ bytes) { b with
      size := b.size + bytes.length
      buf := store b.buf b.stop bytes
      stop := b.stop + bytes.length } ∧
    ¬(b.stop < b.start ∧ b.start < b.stop + bytes.length) := by
  obtain ⟨buflen, size, stop, layout⟩ := holds
  have room : b.stop + bytes.length ≤ b.buf.length := buflen ▸ inside
  have grows : b.size + bytes.length = (q ++ bytes).length := by rw [size, List.length_append]
  have length := (store_length room).trans buflen
  have front : (store b.buf b.stop bytes).take (b.stop + bytes.length) = b.buf.take b.stop
    ++ bytes :=
    take_store_end (Nat.le_of_add_right_le room)
  obtain ⟨le, rfl⟩ | ⟨le, bound, -, rfl⟩ := layout
  · refine ⟨⟨length, grows, inside, .inl ⟨Nat.le_add_right_of_le le, ?_⟩⟩, by omega⟩
    have within : b.start ≤ (b.buf.take b.stop).length := by
      rw [List.length_take]
      omega
    rw [front, List.drop_append_of_le_length within]
  · -- What is held reaches from the start around to the stop, so that the rest is between them.
    rw [List.length_append, List.length_drop, List.length_take] at size
    have before : b.stop + bytes.length ≤ b.start := by omega
    refine ⟨⟨length, grows, inside, .inr ⟨before, bound, by simp [some_bytes], ?_⟩⟩, by omega⟩
    rw [front, drop_store room before, List.append_assoc]

/-- A write that wraps is appended if it does not reach the start. -/
theorem Holds.wrap (holds : Holds capacity q b) {bytes : List UInt8} (less : b.start ≤ b.stop)
    (between : q = (b.buf.take b.stop).drop b.start) (wraps : capacity < b.stop + bytes.length)
    (before : bytes.length - (capacity - b.stop) ≤ b.start) :
    Holds capacity (q ++ bytes) { b with
      size := b.size + bytes.length
      buf := store (store b.buf b.stop (bytes.take (capacity - b.stop))) 0
        (bytes.drop (capacity - b.stop))
      stop := bytes.length - (capacity - b.stop)
      rollover := true } := by
  obtain ⟨buflen, size, stop, -⟩ := holds
  let first := bytes.take (capacity - b.stop)
  let second := bytes.drop (capacity - b.stop)
  have first_length : first.length = capacity - b.stop := by
    rw [List.length_take]
    omega
  have second_length : second.length = bytes.length - (capacity - b.stop) := List.length_drop
  have reaches : b.stop + first.length = b.buf.length := by omega
  have once : (store b.buf b.stop first).length = capacity :=
    (store_length (Nat.le_of_eq reaches)).trans buflen
  have twice : (store (store b.buf b.stop first) 0 second).length = capacity :=
    (store_length (by omega)).trans once
  refine ⟨twice, by rw [size, List.length_append], by simp only; omega,
    .inr ⟨before, Nat.le_trans less stop, List.append_ne_nil_of_right_ne_nil _ ?_, ?_⟩⟩
  · refine List.ne_nil_of_length_pos ?_
    omega
  · -- The first part stands up to the end, and the second part from the beginning.
    have end_part : (store (store b.buf b.stop first) 0 second).drop b.start = q ++ first := by
      rw [drop_store (by omega) (by omega), drop_store_end reaches less, between]
    have front_part : (store (store b.buf b.stop first) 0 second).take
        (bytes.length - (capacity - b.stop)) = second := by
      have taken : (store (store b.buf b.stop first) 0 second).take (0 + second.length) = _ :=
        take_store_end (Nat.zero_le _)
      rwa [Nat.zero_add, List.take_zero, List.nil_append, second_length] at taken
    simp only
    rw [end_part, front_part, List.append_assoc, List.take_append_drop]

/-- A write keeps the newest bytes. -/
theorem Holds.write (holds : Holds capacity q b) {bytes : List UInt8}
    (safe : Safe (.write bytes) b) :
    ∃ b', b.write bytes = some b' ∧
      Holds capacity ((q ++ bytes).drop ((q ++ bytes).length - capacity)) b' := by
  have room := holds.room
  have buflen := holds.buflen
  obtain rfl | some_bytes := eq_or_ne bytes []
  · refine ⟨b, rfl, ?_⟩
    rwa [List.append_nil, Nat.sub_eq_zero_of_le room, List.drop_zero]
  have positive := List.length_pos_iff.mpr some_bytes
  obtain ⟨small, rest⟩ := safe.resolve_left some_bytes
  simp only [CircleBuf.buflen, buflen] at rest
  simp only [CircleBuf.write, CircleBuf.buflen, buflen, if_neg (Nat.ne_of_gt positive),
    if_neg (Nat.not_le.mpr small)]
  by_cases whole : capacity ≤ bytes.length
  · -- The newest bytes fill the buffer.
    have kept : (q ++ bytes).drop ((q ++ bytes).length - capacity) =
        bytes.drop (bytes.length - capacity) := by
      rw [List.length_append, List.drop_append, List.drop_eq_nil_of_le (by omega), List.nil_append]
      congr 1
      omega
    have length : (bytes.drop (bytes.length - capacity)).length = capacity := by
      rw [List.length_drop]
      omega
    refine ⟨_, if_pos whole, length, ?_, Nat.le_refl _, .inl ⟨Nat.zero_le _, ?_⟩⟩
    · rw [kept, length]
      simp only
      omega
    · rw [kept, List.drop_zero, List.take_of_length_le (Nat.le_of_eq length)]
  · obtain ⟨small_stop, fits, straight⟩ := rest.resolve_left whole
    have kept : (q ++ bytes).drop ((q ++ bytes).length - capacity) = q ++ bytes := by
      rw [List.length_append, ← holds.size, Nat.sub_eq_zero_of_le fits, List.drop_zero]
    rw [kept, if_neg whole, if_neg (Nat.not_le.mpr small_stop), Nat.min_eq_left fits]
    -- The new bytes go behind the old ones, or what is too much of them to the beginning.
    by_cases inside : b.stop + bytes.length ≤ capacity
    · obtain ⟨appended, not_over⟩ := holds.append fits inside some_bytes
      simp only [if_pos inside]
      refine ⟨_, if_neg ?_, appended⟩
      omega
    · have size := holds.size
      simp only [if_neg inside]
      obtain ⟨less, between⟩ | ⟨-, bound, -, around⟩ := holds.layout
      · rw [between, length_between (buflen ▸ holds.stop)] at size
        by_cases same : b.start = b.stop
        · exact ⟨_, if_neg (by omega), holds.wrap less between (by omega) (by omega)⟩
        · -- The start is moved to where it is.
          have behind := (straight (by omega)).resolve_left inside
          have stop := holds.stop
          have start : bytes.length - (capacity - b.stop) + 1 = b.start := by omega
          refine ⟨_, if_pos (by omega), ?_⟩
          rw [start]
          exact holds.wrap less between (by omega) (by omega)
      · rw [around, List.length_append, List.length_drop, List.length_take] at size
        omega

theorem Holds.flush (holds : Holds capacity q b) (none : b.size = 0) :
    Holds capacity [] b.flush :=
  ⟨holds.buflen, none, Nat.zero_le _, .inl ⟨Nat.le_refl _, rfl⟩⟩

theorem Holds.step (holds : Holds capacity q b) {op : CircleOp} (safe : Safe op b) :
    ∃ b', b.step op = some ((queueStep capacity op q).1, b') ∧
      Holds capacity (queueStep capacity op q).2 b' := by
  cases op with
  | write bytes =>
    obtain ⟨b', ran, after⟩ := holds.write safe
    exact ⟨b', by simp [CircleBuf.step, ran, queueStep], after⟩
  | read len => exact holds.read safe
  | readFull => exact holds.readFull safe
  | readall =>
    obtain ⟨same, after⟩ := holds.readall safe
    exact ⟨b.readall.2, congrArg some (Prod.ext same rfl), after⟩
  | flush => exact ⟨b.flush, rfl, holds.flush safe⟩

/-- Every operation of a run is safe where it is carried out. -/
def SafeRun : List CircleOp → CircleBuf → Prop
  | [], _ => True
  | op :: ops, b => Safe op b ∧ ∀ out b', b.step op = some (out, b') → SafeRun ops b'

theorem SafeRun.cons {op : CircleOp} {ops : List CircleOp} {out : List UInt8} {b' : CircleBuf}
    (first : Safe op b) (stepped : b.step op = some (out, b')) (rest : SafeRun ops b') :
    SafeRun (op :: ops) b := by
  refine ⟨first, fun out' after same => ?_⟩
  obtain ⟨-, rfl⟩ := Prod.mk.inj (Option.some.inj (stepped.symm.trans same))
  exact rest

theorem Holds.trace (holds : Holds capacity q b) {ops : List CircleOp} (safe : SafeRun ops b) :
    b.trace ops = some (queueTrace capacity ops q) := by
  induction ops generalizing q b with
  | nil => rfl
  | cons op ops ih =>
    obtain ⟨first, rest⟩ := safe
    obtain ⟨b', stepped, after⟩ := holds.step first
    have later := ih after (rest _ b' stepped)
    simp [CircleBuf.trace, stepped, later, queueTrace, after.size]

/--
In every safe run a buffer behaves as a queue that keeps the newest unread bytes, whatever stood in
it at first.
-/
theorem trace_eq_queue (buf : List UInt8) (ops : List CircleOp)
    (safe : SafeRun ops (construct buf)) :
    (construct buf).trace ops = some (queueTrace buf.length ops []) :=
  (construct_holds buf).trace safe

/-- The statement for writes and reads that go around a small buffer. -/
theorem trace_around :
    SafeRun [.write [1, 2, 3], .read 2, .write [4], .readFull, .write [5, 6, 7, 8], .read 1]
        (construct [0, 0, 0, 0]) ∧
      (construct [0, 0, 0, 0]).trace
          [.write [1, 2, 3], .read 2, .write [4], .readFull, .write [5, 6, 7, 8], .read 1] =
        some (queueTrace 4
          [.write [1, 2, 3], .read 2, .write [4], .readFull, .write [5, 6, 7, 8], .read 1] []) := by
  have safe : SafeRun
      [.write [1, 2, 3], .read 2, .write [4], .readFull, .write [5, 6, 7, 8], .read 1]
      (construct [0, 0, 0, 0]) := by
    refine .cons (by decide) rfl (.cons (by decide) rfl (.cons (by decide) rfl ?_))
    exact .cons (by decide) rfl (.cons (by decide) rfl (.cons (by decide) rfl trivial))
  exact ⟨safe, trace_eq_queue _ _ safe⟩

/-- A flush leaves the size, and a write that wraps brings back bytes that were read. -/
theorem write_brings_back :
    (construct [0, 0, 0, 0, 0]).trace [.write [1], .flush] ≠
        some (queueTrace 5 [.write [1], .flush] []) ∧
      (construct [0, 0, 0, 0, 0]).trace [.write [1, 2, 3, 4], .read 3, .write [5, 6], .readFull] ≠
        some (queueTrace 5 [.write [1, 2, 3, 4], .read 3, .write [5, 6], .readFull] []) := by
  decide

end CircleBuf

end GemDroid

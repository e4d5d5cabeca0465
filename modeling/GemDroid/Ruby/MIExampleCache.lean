import GemDroid.Ruby.MIExampleSound

/-! What the steps of a cache of the MI example protocol do, and that they keep it sound. -/

namespace GemDroid

open Function (update update_of_ne)

namespace MIExample

variable {Cache Dma : Type} [DecidableEq Cache] {ledger : Ledger Dma}

namespace System

/-- A change of one cache and of its queues. -/
def setStation (s : System Cache Dma) (c : Cache) (station : Station Cache) : System Cache Dma :=
  { s with
    l1 := update s.l1 c station.machine
    requests := update s.requests c station.requests
    forward := update s.forward c station.forward
    responses := update s.responses c station.responses }

theorem station_setStation (s : System Cache Dma) (c : Cache) (station : Station Cache) :
    (s.setStation c station).station c = station := by
  simp [System.station, setStation]

variable {c : Cache} {s : System Cache Dma} {blk : DataBlock} {tbe : L1Cache.TBE}
  {request : Option Access} {input : L1Input Cache} {event : L1Cache.Event}

theorem station_setStation_of_ne (s : System Cache Dma) {x : Cache} (station : Station Cache)
    (apart : x ≠ c) : (s.setStation c station).station x = s.station x := by
  simp [System.station, setStation, update_of_ne apart]

theorem setStation_setL1 (s : System Cache Dma) (c : Cache) (m : L1Cache.Machine)
    (station : Station Cache) : (s.setL1 c m).setStation c station = s.setStation c station := by
  simp [setL1, setStation]

attribute [local simp] l1Trigger L1Cache.transition l1Perform setL1 setStation System.station
  L1Cache.Machine.setState bind Except.bind pure Except.pure

theorem miss_eq {a : Access} (tbe : (s.l1 c).tbe = none) (request : (s.l1 c).request = some a)
    (invalid : (s.l1 c).getState = .I) :
    s.l1Trigger c {} (mandatory_request_type_to_event a) = some (.ok (s.setStation c
      { machine := {
          entry := some { (s.l1 c).entry.getD {} with cacheState := a.waits }
          tbe := some { tbeState := a.waits }
          request := some a }
        requests := s.requests c ++ [{ type := .GETX, requestor := c }]
        forward := s.forward c
        responses := s.responses c })) := by
  -- The three kinds of access differ in the state alone.
  cases a <;> cases entry : (s.l1 c).entry <;>
    simp [invalid, mandatory_request_type_to_event, tbe, entry, Access.waits, request]

theorem load_hit_eq {a : Access}
    (machine : s.l1 c = {
      entry := some { cacheState := .M, dataBlk := blk }, tbe := none, request := some a })
    (load : a = .load ∨ a = .ifetch) :
    s.l1Trigger c {} (mandatory_request_type_to_event a) = some (.ok
      { s.setStation c { s.station c with machine := {
          entry := some { cacheState := .M, dataBlk := blk }, tbe := none, request := none } } with
        loads := s.loads ++ [(blk, s.latest)] }) := by
  obtain rfl | rfl := load <;>
    simp [mandatory_request_type_to_event, L1Cache.Machine.getState, readCallback, machine]

theorem store_hit_eq {bytes : Nat → UInt8} {offset len : Nat}
    (machine : s.l1 c = {
      entry := some { cacheState := .M, dataBlk := blk }, tbe := none
      request := some (.store bytes offset len) }) :
    s.l1Trigger c {} .Store = some (.ok
      { s.setStation c { s.station c with machine := {
          entry := some { cacheState := .M, dataBlk := blk.setData bytes offset len }
          tbe := none, request := none } } with
        latest := s.latest.setData bytes offset len }) := by
  simp [L1Cache.Machine.getState, writeCallback, machine]

theorem load_data_eq {n : Nat} {msg : ResponseMsg} {a : Access} {entry : L1Cache.Entry}
    (machine : s.l1 c = { entry := some entry, tbe := some tbe, request := some a })
    (load : a = .load ∨ a = .ifetch) (state : tbe.tbeState = .IS) :
    s.l1Trigger c { response := some (n, msg) } .Data = some (.ok
      { s.setStation c { s.station c with
          machine := {
            entry := some { cacheState := .M, dataBlk := msg.dataBlk }, tbe := none
            request := none }
          responses := (s.responses c).eraseIdx n } with
        loads := s.loads ++ [(msg.dataBlk, s.latest)] }) := by
  obtain rfl | rfl := load <;>
    simp [L1Cache.Machine.getState, readCallback, machine, state]

theorem store_data_eq {n : Nat} {msg : ResponseMsg} {bytes : Nat → UInt8} {offset len : Nat}
    {entry : L1Cache.Entry}
    (machine : s.l1 c = {
      entry := some entry, tbe := some tbe, request := some (.store bytes offset len) })
    (state : tbe.tbeState = .IM) :
    s.l1Trigger c { response := some (n, msg) } .Data = some (.ok
      { s.setStation c { s.station c with
          machine := {
            entry := some { cacheState := .M, dataBlk := msg.dataBlk.setData bytes offset len }
            tbe := none, request := none }
          responses := (s.responses c).eraseIdx n } with
        latest := s.latest.setData bytes offset len }) := by
  simp [L1Cache.Machine.getState, writeCallback, machine, state]

theorem evict_eq
    (machine : s.l1 c = {
      entry := some { cacheState := .M, dataBlk := blk }, tbe := none, request })
    (leaves : event = .Replacement ∨ event = .Inv) :
    s.l1Trigger c input event = some (.ok (s.setStation c { s.station c with
      machine := { entry := none, tbe := some { tbeState := .MI, dataBlk := blk }, request }
      requests := s.requests c ++ [{ type := .PUTX, requestor := c, dataBlk := blk }] })) := by
  obtain rfl | rfl := leaves <;>
    simp [L1Cache.Machine.getState, machine]

theorem drop_eq (tbe : (s.l1 c).tbe = none) (invalid : (s.l1 c).getState = .I) :
    s.l1Trigger c {} .Replacement = some (.ok (s.setStation c { s.station c with
      machine := { entry := none, tbe := none, request := (s.l1 c).request } })) := by
  simp [invalid, tbe]

theorem hand_eq {r : Cache} {type : CoherenceRequestType} (apart : r ≠ c)
    (machine : s.l1 c = {
      entry := some { cacheState := .M, dataBlk := blk }, tbe := none, request }) :
    s.l1Trigger c { forwarded := some { type, requestor := some r } } .Fwd_GETX = some (.ok
      ((s.setStation c { s.station c with
          machine := { entry := some { cacheState := .I, dataBlk := blk }, tbe := none, request }
          forward := (s.forward c).tail }).setStation r { s.station r with
        responses := s.responses r ++ [{ dataBlk := blk }] })) := by
  simp [L1Cache.Machine.getState, sendData, machine, update_of_ne apart]

theorem hand_tbe_eq {r : Cache} {type : CoherenceRequestType} (apart : r ≠ c)
    (machine : s.l1 c = {
      entry := none, tbe := some { tbeState := .MI, dataBlk := blk }, request }) :
    s.l1Trigger c { forwarded := some { type, requestor := some r } } .Fwd_GETX = some (.ok
      ((s.setStation c { s.station c with
          machine := { entry := none, tbe := some { tbeState := .II, dataBlk := blk }, request }
          forward := (s.forward c).tail }).setStation r { s.station r with
        responses := s.responses r ++ [{ dataBlk := blk }] })) := by
  simp [L1Cache.Machine.getState, sendData, machine, update_of_ne apart]

theorem ignore_eq (machine : s.l1 c = { entry := none, tbe := some tbe, request })
    (state : tbe.tbeState = .MI) :
    s.l1Trigger c input .Inv = some (.ok (s.setStation c { s.station c with
      machine := { entry := none, tbe := some { tbe with tbeState := .MI }, request }
      forward := (s.forward c).tail })) := by
  simp [L1Cache.Machine.getState, machine, state]

theorem leave_eq (machine : s.l1 c = { entry := none, tbe := some tbe, request })
    (answer : tbe.tbeState = .MI ∧ event = .Writeback_Ack ∨
      tbe.tbeState = .II ∧ event = .Writeback_Nack) :
    s.l1Trigger c input event = some (.ok (s.setStation c { s.station c with
      machine := { entry := none, tbe := none, request }
      forward := (s.forward c).tail })) := by
  obtain ⟨state, rfl⟩ | ⟨state, rfl⟩ := answer <;>
    simp [L1Cache.Machine.getState, machine, state]

theorem stall_eq
    (busy : (s.l1 c).getState = .IS ∨ (s.l1 c).getState = .IM ∨ (s.l1 c).getState = .MI ∨
      (s.l1 c).getState = .II)
    (asks : event = .Load ∨ event = .Ifetch ∨ event = .Store ∨ event = .Replacement) :
    s.l1Trigger c input event = none := by
  obtain state | state | state | state := busy <;> obtain rfl | rfl | rfl | rfl := asks <;>
    simp [state]

theorem stall_forward_eq (waiting : Waiting (s.l1 c))
    (asks : event = .Fwd_GETX ∨ event = .Inv) : s.l1Trigger c input event = none := by
  obtain ⟨entry, tbe, access, machine, state⟩ := waiting
  obtain rfl | rfl := asks <;> cases access <;>
    simp [machine, L1Cache.Machine.getState, state, Access.waits]

end System

theorem SameDma.setStation (s : System Cache Dma) (c : Cache) (station : Station Cache) :
    SameDma s (s.setStation c station) :=
  ⟨rfl, rfl, rfl, rfl, rfl, rfl, rfl, rfl⟩

variable {data : Prop} {s : System Cache Dma} {phase : Cache → Phase Cache} {blk : DataBlock}
  {c : Cache} {q : Phase Cache} {station : Station Cache} {r : Except Fault (System Cache Dma)}

theorem Sound.move (sound : Sound data ledger s) (inv : Consistent phase blk s)
    (agree : data → Agree s.blockSize blk s.latest) (fits : q.Fits c blk station)
    (alike : (phase c).Alike q) :
    Sound data ledger (s.setStation c station) := by
  refine sound.of_same (.setStation s c station)
    ⟨update phase c q, blk, ?_, agree⟩ sound.loads
  refine inv.move (fun x apart => s.station_setStation_of_ne station apart) rfl rfl ?_ alike
    (.inl rfl)
  rw [s.station_setStation]
  exact fits

theorem Sound.load (sound : Sound data ledger s) (inv : Consistent phase blk s)
    (agree : data → Agree s.blockSize blk s.latest) (fits : q.Fits c blk station)
    (alike : (phase c).Alike q) :
    Sound data ledger { s.setStation c station with loads := s.loads ++ [(blk, s.latest)] } := by
  have moved := sound.move inv agree fits alike
  refine moved.of_same ⟨rfl, rfl, rfl, rfl, rfl, rfl, rfl, rfl⟩ ?_ ?_
  · obtain ⟨phase', blk', inv', agree'⟩ := moved.coherent
    exact ⟨phase', blk', ⟨inv'.fits, inv'.owner, inv'.one, inv'.next, inv'.nextOne,
      inv'.invalidated, inv'.settled⟩, agree'⟩
  · intro right load member
    obtain member | member := List.mem_append.mp member
    · exact sound.loads right load member
    · obtain rfl := List.mem_singleton.mp member
      exact agree right

theorem Sound.store (sound : Sound data ledger s) (inv : Consistent phase blk s)
    (agree : data → Agree s.blockSize blk s.latest) {bytes : Nat → UInt8} {offset len : Nat}
    (held : (phase c).Holds) (fits : q.Fits c (blk.setData bytes offset len) station)
    (alike : (phase c).Alike q) :
    Sound data ledger
      { s.setStation c station with latest := s.latest.setData bytes offset len } := by
  refine sound.of_same ⟨rfl, rfl, rfl, rfl, rfl, rfl, rfl, rfl⟩
    ⟨update phase c q, blk.setData bytes offset len, ?_, ?_⟩ sound.loads
  · refine inv.move (fun x apart => s.station_setStation_of_ne station apart) rfl rfl ?_ alike
      (.inr held)
    exact (s.station_setStation c station).symm ▸ fits
  · intro right i inside
    simp only [DataBlock.setData]
    split
    · rfl
    · exact agree right i inside

variable [DecidableEq Dma]

/-- A request of a processor is served or waits. -/
theorem Sound.access (sound : Sound data ledger s) {a : Access}
    (taken : s.perform (.access c a) = some r) : ∃ s', r = .ok s' ∧ Sound data ledger s' := by
  obtain ⟨phase, blk, inv, agree⟩ := sound.coherent
  obtain ⟨machine, requests, forward, responses⟩ := inv.fits c
  simp only [System.station] at machine requests forward responses
  have kind : System.mandatory_request_type_to_event a = .Load ∨
      System.mandatory_request_type_to_event a = .Ifetch ∨
      System.mandatory_request_type_to_event a = .Store ∨
      System.mandatory_request_type_to_event a = .Replacement := by
    cases a <;> simp [System.mandatory_request_type_to_event]
  have here : (s.setL1 c { s.l1 c with request := some a }).l1 c =
      { s.l1 c with request := some a } := by simp [System.setL1]
  have same : ({ s.l1 c with request := some a } : L1Cache.Machine).getState =
      (s.l1 c).getState := rfl
  simp only [System.perform] at taken
  -- A miss asks the directory, a hit is served, and any other cache waits.
  cases at_c : phase c with
  | idle =>
    rw [at_c] at machine requests forward responses
    obtain ⟨tbe, invalid⟩ := machine.idle
    rw [System.miss_eq (by rw [here]; exact tbe) (by rw [here]) (by rw [here, same, invalid]),
      System.setStation_setL1] at taken
    obtain rfl := Option.some.inj taken
    refine ⟨_, rfl, sound.move inv agree (q := .asked) ⟨?_, ?_, ?_, ?_⟩ ?_⟩
    · exact ⟨_, _, a, rfl, rfl⟩
    · simp only [System.setL1, requests]
      rfl
    · exact forward
    · exact responses
    · rw [at_c]
      exact ⟨Iff.rfl, Iff.rfl, rfl, id, id, id⟩
  | holding st =>
    rw [at_c] at machine requests forward responses
    obtain ⟨request, machine⟩ := machine
    have hit : (s.setL1 c { s.l1 c with request := some a }).l1 c = {
        entry := some { cacheState := .M, dataBlk := blk }, tbe := none, request := some a } := by
      rw [here, machine]
    have alike : (phase c).Alike (.holding st) := at_c ▸ .refl _
    have fits : ∀ blk, (Phase.holding st).Fits c blk { s.station c with
        machine := {
          entry := some { cacheState := .M, dataBlk := blk }, tbe := none, request := none } } :=
      fun blk => ⟨⟨none, rfl⟩, requests, forward, responses⟩
    cases a with
    | load | ifetch =>
      rw [System.load_hit_eq hit (by simp), System.setStation_setL1] at taken
      obtain rfl := Option.some.inj taken
      exact ⟨_, rfl, sound.load inv agree (fits blk) alike⟩
    | store bytes offset len =>
      simp only [System.mandatory_request_type_to_event] at taken
      rw [System.store_hit_eq hit, System.setStation_setL1] at taken
      obtain rfl := Option.some.inj taken
      exact ⟨_, rfl, sound.store inv agree (at_c ▸ trivial) (fits _) alike⟩
  | asked | awaits st | arriving st | evicting st | surrendered r | acked invalidated
  | acking invalidated | refused stale | refusing =>
    rw [at_c] at machine
    have busy := machine.busy (by simp) (by simp)
    rw [System.stall_eq (by rw [here, same]; exact busy) kind] at taken
    cases taken

/-- A block is replaced, unless the cache waits for something. -/
theorem Sound.replacement (sound : Sound data ledger s)
    (taken : s.perform (.replacement c) = some r) :
    ∃ s', r = .ok s' ∧ Sound data ledger s' := by
  obtain ⟨phase, blk, inv, agree⟩ := sound.coherent
  obtain ⟨machine, requests, forward, responses⟩ := inv.fits c
  simp only [System.station] at machine requests forward responses
  simp only [System.perform] at taken
  obtain ⟨-, taken⟩ := Option.ite_none_right_eq_some.mp taken
  cases at_c : phase c with
  | idle =>
    rw [at_c] at machine requests forward responses
    obtain ⟨tbe, invalid⟩ := machine.idle
    rw [System.drop_eq tbe invalid] at taken
    obtain rfl := Option.some.inj taken
    refine ⟨_, rfl, sound.move inv agree (q := .idle) ⟨?_, requests, forward, responses⟩
      (at_c ▸ .refl _)⟩
    exact .empty _
  | holding st =>
    rw [at_c] at machine requests forward responses
    obtain ⟨request, machine⟩ := machine
    rw [System.evict_eq machine (.inl rfl)] at taken
    obtain rfl := Option.some.inj taken
    refine ⟨_, rfl, sound.move inv agree (q := .evicting st)
      ⟨⟨request, rfl⟩, ?_, forward, responses⟩ ?_⟩
    · simp only [requests]
      rfl
    · rw [at_c]
      exact (Phase.alike_of_standing st).2
  | asked | awaits st | arriving st | evicting st | surrendered r | acked invalidated
  | acking invalidated | refused stale | refusing =>
    rw [at_c] at machine
    have busy := machine.busy (by simp) (by simp)
    rw [System.stall_eq busy (by simp)] at taken
    cases taken

/-- The data arrives, and the access that asked for it is served. -/
theorem Sound.response (sound : Sound data ledger s) {n : Nat}
    (taken : s.perform (.response c n) = some r) : ∃ s', r = .ok s' ∧ Sound data ledger s' := by
  obtain ⟨phase, blk, inv, agree⟩ := sound.coherent
  obtain ⟨machine, requests, forward, responses⟩ := inv.fits c
  simp only [System.station] at machine requests forward responses
  simp only [System.perform, Option.bind_eq_some_iff] at taken
  obtain ⟨msg, found, taken⟩ := taken
  rw [responses] at found
  cases at_c : phase c with
  | arriving st =>
    rw [at_c] at machine requests forward responses found
    -- There is one message, and it has the block.
    cases n with
    | succ n => cases found
    | zero =>
      obtain rfl := Option.some.inj found
      obtain ⟨entry, tbe, access, machine, state⟩ := machine
      have alike : (phase c).Alike (.holding st) := by
        rw [at_c]
        exact (Phase.alike_of_standing st).1
      have rest : (s.responses c).eraseIdx 0 = [] := by
        rw [responses]
        rfl
      cases access with
      | load | ifetch =>
        rw [System.load_data_eq machine (by simp) state] at taken
        obtain rfl := Option.some.inj taken
        exact ⟨_, rfl, sound.load inv agree (q := .holding st)
          ⟨⟨none, rfl⟩, requests, forward, rest⟩ alike⟩
      | store bytes offset len =>
        rw [System.store_data_eq machine state] at taken
        obtain rfl := Option.some.inj taken
        exact ⟨_, rfl, sound.store inv agree (q := .holding st) (at_c ▸ trivial)
          ⟨⟨none, rfl⟩, requests, forward, rest⟩ alike⟩
  | idle | asked | awaits st | holding st | evicting st | surrendered r | acked invalidated
  | acking invalidated | refused stale | refusing =>
    rw [at_c] at found
    cases found

omit [DecidableEq Dma] in
theorem Sound.hand (sound : Sound data ledger s) (inv : Consistent phase blk s)
    (agree : data → Agree s.blockSize blk s.latest) {r : Cache} (held : (phase c).Holds)
    (next : (phase c).next = some r) (fits : q.Fits c blk station)
    (given : ¬q.Owns ∧ ¬q.Holds ∧ q.next = none ∧ ¬q.Invalidated) :
    Sound data ledger ((s.setStation c station).setStation r { s.station r with
      responses := s.responses r ++ [{ dataBlk := blk }] }) := by
  have apart : r ≠ c := inv.next_ne held next
  obtain ⟨st, waiting⟩ := (inv.next c r next).exists
  refine sound.of_same ⟨rfl, rfl, rfl, rfl, rfl, rfl, rfl, rfl⟩ ⟨_, blk, inv.handOver
    next held waiting (fun x x_c x_r => ?_) rfl rfl ?_ ?_ given, agree⟩ sound.loads
  · rw [System.station_setStation_of_ne _ _ x_r, System.station_setStation_of_ne _ _ x_c]
  · rw [System.station_setStation_of_ne _ _ (Ne.symm apart), System.station_setStation]
    exact fits
  · rw [System.station_setStation]
    obtain ⟨machine, requests, forward, responses⟩ := inv.station waiting
    refine ⟨machine, requests, forward, ?_⟩
    simp only [responses]
    rfl

/-- The cache does what the directory tells it, or lets it wait. -/
theorem Sound.forwarded (sound : Sound data ledger s) (taken : s.perform (.forwarded c) = some r) :
    ∃ s', r = .ok s' ∧ Sound data ledger s' := by
  obtain ⟨phase, blk, inv, agree⟩ := sound.coherent
  obtain ⟨machine, requests, forward, responses⟩ := inv.fits c
  simp only [System.station] at machine requests forward responses
  simp only [System.perform, Option.bind_eq_some_iff] at taken
  obtain ⟨msg, found, taken⟩ := taken
  rw [forward] at found
  cases at_c : phase c with
  | idle | asked | refused stale =>
    rw [at_c] at found
    cases found
  | awaits st | arriving st =>
    -- The cache has no block to give yet.
    rw [at_c] at machine found
    cases st with
    | owner invalidated =>
      cases invalidated with
      | false => cases found
      | true =>
        obtain rfl := Option.some.inj found
        change s.l1Trigger c _ .Inv = some r at taken
        rw [System.stall_forward_eq machine (.inr rfl)] at taken
        cases taken
    | forwarded r' =>
      obtain rfl := Option.some.inj found
      change s.l1Trigger c _ .Fwd_GETX = some r at taken
      rw [System.stall_forward_eq machine (.inl rfl)] at taken
      cases taken
  | holding st =>
    rw [at_c] at machine requests forward responses found
    obtain ⟨request, machine⟩ := machine
    cases st with
    | owner invalidated =>
      cases invalidated with
      | false => cases found
      | true =>
        obtain rfl := Option.some.inj found
        change s.l1Trigger c _ .Inv = some r at taken
        rw [System.evict_eq machine (.inr rfl)] at taken
        obtain rfl := Option.some.inj taken
        refine ⟨_, rfl, sound.move inv agree (q := .evicting (.owner true))
          ⟨⟨request, rfl⟩, ?_, forward, responses⟩ ?_⟩
        · simp only [requests]
          rfl
        · rw [at_c]
          exact (Phase.alike_of_standing _).2
    | forwarded r' =>
      obtain rfl := Option.some.inj found
      have apart : r' ≠ c := inv.next_ne (at_c ▸ trivial) (at_c ▸ rfl)
      change s.l1Trigger c _ .Fwd_GETX = some r at taken
      rw [System.hand_eq apart machine] at taken
      obtain rfl := Option.some.inj taken
      refine ⟨_, rfl, sound.hand inv agree (q := .idle) (at_c ▸ trivial) (at_c ▸ rfl)
        ⟨⟨rfl, ?_⟩, requests, ?_, responses⟩ ⟨id, id, rfl, id⟩⟩
      · intro entry present
        obtain rfl := Option.some.inj present
        rfl
      · simp only [forward]
        rfl
  | evicting st =>
    rw [at_c] at machine requests forward responses found
    obtain ⟨request, machine⟩ := machine
    cases st with
    | owner invalidated =>
      cases invalidated with
      | false => cases found
      | true =>
        obtain rfl := Option.some.inj found
        change s.l1Trigger c _ .Inv = some r at taken
        rw [System.ignore_eq machine rfl] at taken
        obtain rfl := Option.some.inj taken
        refine ⟨_, rfl, sound.move inv agree (q := .evicting (.owner false))
          ⟨⟨request, rfl⟩, requests, ?_, responses⟩ ?_⟩
        · simp only [forward]
          rfl
        · rw [at_c]
          exact ⟨Iff.rfl, Iff.rfl, rfl, False.elim, id, id⟩
    | forwarded r' =>
      obtain rfl := Option.some.inj found
      have apart : r' ≠ c := inv.next_ne (at_c ▸ trivial) (at_c ▸ rfl)
      change s.l1Trigger c _ .Fwd_GETX = some r at taken
      rw [System.hand_tbe_eq apart machine] at taken
      obtain rfl := Option.some.inj taken
      refine ⟨_, rfl, sound.hand inv agree (q := .refused blk) (at_c ▸ trivial) (at_c ▸ rfl)
        ⟨⟨_, request, rfl, rfl⟩, requests, ?_, responses⟩ ⟨id, id, rfl, id⟩⟩
      simp only [forward]
      rfl
  | surrendered r' =>
    rw [at_c] at machine requests forward responses found
    obtain ⟨request, machine⟩ := machine
    obtain rfl := Option.some.inj found
    have apart : r' ≠ c := inv.next_ne (at_c ▸ trivial) (at_c ▸ rfl)
    change s.l1Trigger c _ .Fwd_GETX = some r at taken
    rw [System.hand_tbe_eq apart machine] at taken
    obtain rfl := Option.some.inj taken
    refine ⟨_, rfl, sound.hand inv agree (q := .refusing) (at_c ▸ trivial) (at_c ▸ rfl)
      ⟨⟨_, request, rfl, rfl⟩, requests, ?_, responses⟩ ⟨id, id, rfl, id⟩⟩
    simp only [forward]
    rfl
  | acked invalidated =>
    rw [at_c] at machine requests forward responses found
    obtain ⟨tbe, request, machine, state⟩ := machine
    cases invalidated with
    | false => cases found
    | true =>
      obtain rfl := Option.some.inj found
      change s.l1Trigger c _ .Inv = some r at taken
      rw [System.ignore_eq machine state] at taken
      obtain rfl := Option.some.inj taken
      refine ⟨_, rfl, sound.move inv agree (q := .acked false)
        ⟨⟨_, request, rfl, rfl⟩, requests, ?_, responses⟩ ?_⟩
      · simp only [forward]
        rfl
      · rw [at_c]
        exact ⟨Iff.rfl, Iff.rfl, rfl, id, id, id⟩
  | acking invalidated =>
    rw [at_c] at machine requests forward responses found
    obtain ⟨tbe, request, machine, state⟩ := machine
    cases invalidated with
    | true =>
      obtain rfl := Option.some.inj found
      change s.l1Trigger c _ .Inv = some r at taken
      rw [System.ignore_eq machine state] at taken
      obtain rfl := Option.some.inj taken
      refine ⟨_, rfl, sound.move inv agree (q := .acking false)
        ⟨⟨_, request, rfl, rfl⟩, requests, ?_, responses⟩ ?_⟩
      · simp only [forward]
        rfl
      · rw [at_c]
        exact ⟨Iff.rfl, Iff.rfl, rfl, id, id, id⟩
    | false =>
      obtain rfl := Option.some.inj found
      change s.l1Trigger c _ .Writeback_Ack = some r at taken
      rw [System.leave_eq machine (.inl ⟨state, rfl⟩)] at taken
      obtain rfl := Option.some.inj taken
      refine ⟨_, rfl, sound.move inv agree (q := .idle)
        ⟨.empty request, requests, ?_, responses⟩ ?_⟩
      · simp only [forward]
        rfl
      · rw [at_c]
        exact ⟨Iff.rfl, Iff.rfl, rfl, id, id, id⟩
  | refusing =>
    rw [at_c] at machine requests forward responses found
    obtain ⟨tbe, request, machine, state⟩ := machine
    obtain rfl := Option.some.inj found
    change s.l1Trigger c _ .Writeback_Nack = some r at taken
    rw [System.leave_eq machine (.inr ⟨state, rfl⟩)] at taken
    obtain rfl := Option.some.inj taken
    refine ⟨_, rfl, sound.move inv agree (q := .idle)
      ⟨.empty request, requests, ?_, responses⟩ ?_⟩
    · simp only [forward]
      rfl
    · rw [at_c]
      exact ⟨Iff.rfl, Iff.rfl, rfl, id, id, id⟩

end MIExample

end GemDroid

import GemDroid.Ruby.MIExampleCache

/-! What the steps of the directory of the MI example protocol do, and that they keep it sound. -/

namespace GemDroid

open Function (update update_eq_self update_of_ne update_self)

namespace MIExample

variable {Cache Dma : Type} [DecidableEq Cache] [DecidableEq Dma] {ledger : Ledger Dma}

namespace System

variable {s : System Cache Dma} {c o : Cache} {n : Nat} {msg : RequestMsg Cache}
  {blk data : DataBlock} {tbe : Directory.TBE Dma} {d : Dma}

omit [DecidableEq Dma] in
theorem sendToOwner_eq (owner : s.dir.owner = {o}) (msg : ForwardMsg Cache) :
    s.sendToOwner msg =
      s.setStation o { s.station o with forward := s.forward o ++ [msg] } := by
  have queues : (fun x => if x ∈ s.dir.owner then s.forward x ++ [msg] else s.forward x) =
      update s.forward o (s.forward o ++ [msg]) := by
    funext x
    by_cases here : x = o
    · subst here
      simp [owner]
    · simp [owner, here]
  simp [sendToOwner, queues, setStation, System.station]

attribute [local simp] dirTrigger Directory.transition dirPerform setStation System.station
  Directory.Machine.setState queueMemory allocateTbe setTbe sendForward bind Except.bind pure
  Except.pure

theorem fetch_eq (dir : s.dir = { directoryState := .I, dataBlk := blk }) :
    s.dirTrigger { request := some (c, n, msg) } .GETX = some (.ok
      { s.setStation c { s.station c with requests := (s.requests c).eraseIdx n } with
        dir := { directoryState := .IM, dataBlk := blk, owner := {msg.requestor} }
        memQueue := s.memQueue ++ [{
          type := .MEMORY_READ, originalRequestor := some msg.requestor, dataBlk := blk }] }) := by
  simp [Directory.Machine.getState, dir]

theorem forward_eq (apart : o ≠ c)
    (dir : s.dir = { directoryState := .M, dataBlk := blk, owner := {o} }) :
    s.dirTrigger { request := some (c, n, msg) } .GETX = some (.ok
      { (s.setStation o { s.station o with
            forward := s.forward o ++ [{ type := msg.type, requestor := some msg.requestor }]
          }).setStation c { s.station c with requests := (s.requests c).eraseIdx n } with
        dir := { directoryState := .M, dataBlk := blk, owner := {msg.requestor} } }) := by
  have owner : s.dir.owner = {o} := by rw [dir]
  simp [Directory.Machine.getState, sendToOwner_eq owner, dir, update_of_ne (Ne.symm apart)]

theorem write_back_eq (dir : s.dir = { directoryState := .M, dataBlk := blk, owner := {o} }) :
    s.dirTrigger { request := some (c, n, msg) } .PUTX = some (.ok
      { s.setStation c { s.station c with requests := (s.requests c).eraseIdx n } with
        dir := {
          directoryState := .MI, dataBlk := blk
          tbe := some { tbeState := .MI, dataBlk := msg.dataBlk } }
        memQueue := s.memQueue ++ [{
          type := .MEMORY_WB, originalRequestor := some msg.requestor
          dataBlk := msg.dataBlk }] }) := by
  simp [Directory.Machine.getState, dir]

theorem nack_eq (requestor : msg.requestor = c)
    (dir : s.dir = { directoryState := .I, dataBlk := blk } ∨
      ∃ o, s.dir = { directoryState := .M, dataBlk := blk, owner := {o} }) :
    s.dirTrigger { request := some (c, n, msg) } .PUTX_NotOwner = some (.ok
      (s.setStation c { s.station c with
        requests := (s.requests c).eraseIdx n
        forward := s.forward c ++ [{ type := .WB_NACK, requestor := some c }] })) := by
  obtain dir | ⟨o, dir⟩ := dir <;>
    simp [Directory.Machine.getState, dir, requestor]

theorem recall_read_eq
    (dir : s.dir = { directoryState := .M_DRD, dataBlk := blk, owner := {o}, tbe := some tbe })
    (state : tbe.tbeState = .M_DRD) (requestor : tbe.dmaRequestor = some d) :
    s.dirTrigger { request := some (c, n, msg) } .PUTX = some (.ok
      { (s.setStation c { s.station c with requests := (s.requests c).eraseIdx n }).sendToDma
          { type := .DATA, dataBlk := msg.dataBlk } d with
        dir := {
          directoryState := .M_DRDI, dataBlk := msg.dataBlk
          tbe := some { tbe with tbeState := .M_DRDI } }
        memQueue := s.memQueue ++ [{
          type := .MEMORY_WB, originalRequestor := some msg.requestor, dataBlk := msg.dataBlk }]
        served := update s.served d s.latest }) := by
  simp [Directory.Machine.getState, sendToDma, dir, state, requestor]

theorem recall_write_eq
    (dir : s.dir = { directoryState := .M_DWR, dataBlk := blk, owner := {o}, tbe := some tbe })
    (state : tbe.tbeState = .M_DWR) :
    s.dirTrigger { request := some (c, n, msg) } .PUTX = some (.ok
      { s.setStation c { s.station c with requests := (s.requests c).eraseIdx n } with
        dir := {
          directoryState := .M_DWRI, dataBlk := msg.dataBlk
          tbe := some { tbe with tbeState := .M_DWRI } }
        memQueue := s.memQueue ++ [{
          type := .MEMORY_WB, originalRequestor := some msg.requestor
          dataBlk := DataBlock.copyPartial (fun _ => 0) tbe.dataBlk
            (tbe.physicalAddress % s.blockSize) tbe.len }] }) := by
  simp [Directory.Machine.getState, dir, state]

theorem fetched_eq (dir : s.dir = { directoryState := .IM, dataBlk := blk, owner := {o} }) :
    s.dirTrigger { memory := some (n, {
        type := .MEMORY_READ, originalRequestor := some c, dataBlk := data }) } .Memory_Data =
      some (.ok
        { s.setStation c { s.station c with
            responses := s.responses c ++ [{ dataBlk := data }] } with
          dir := { directoryState := .M, dataBlk := blk, owner := {o} }
          memQueue := s.memQueue.eraseIdx n }) := by
  simp [Directory.Machine.getState, dir]

theorem dma_fetched_eq {msg : MemoryMsg Cache}
    (dir : s.dir = { directoryState := .ID, dataBlk := blk, tbe := some tbe })
    (state : tbe.tbeState = .ID) (requestor : tbe.dmaRequestor = some d) :
    s.dirTrigger { memory := some (n, msg) } .Memory_Data = some (.ok
      { s.sendToDma { type := .DATA, dataBlk := msg.dataBlk } d with
        dir := { directoryState := .I, dataBlk := blk }
        memQueue := s.memQueue.eraseIdx n
        served := update s.served d s.latest }) := by
  simp [Directory.Machine.getState, sendToDma, dir, state, requestor]

theorem dma_written_eq {msg : MemoryMsg Cache}
    (dir : s.dir = { directoryState := .ID_W, dataBlk := blk, tbe := some tbe })
    (state : tbe.tbeState = .ID_W) (requestor : tbe.dmaRequestor = some d) :
    s.dirTrigger { memory := some (n, msg) } .Memory_Ack = some (.ok
      { s.sendToDma { type := .ACK } d with
        dir := {
          directoryState := .I
          dataBlk := blk.copyPartial tbe.dataBlk (tbe.physicalAddress % s.blockSize) tbe.len }
        memQueue := s.memQueue.eraseIdx n
        latest := fun i => (s.wanted d i).getD (s.latest i)
        applied := update s.applied d (s.applied d + 1) }) := by
  simp [Directory.Machine.getState, sendToDma, dir, state, requestor]

theorem written_eq (dir : s.dir = { directoryState := .MI, dataBlk := blk, tbe := some tbe })
    (state : tbe.tbeState = .MI) :
    s.dirTrigger { memory := some (n, {
        type := .MEMORY_WB, originalRequestor := some c, dataBlk := data }) } .Memory_Ack =
      some (.ok
        { s.setStation c { s.station c with
            forward := s.forward c ++ [{ type := .WB_ACK, requestor := some c }] } with
          dir := { directoryState := .I, dataBlk := tbe.dataBlk }
          memQueue := s.memQueue.eraseIdx n }) := by
  simp [Directory.Machine.getState, dir, state]

theorem recalled_read_eq
    (dir : s.dir = { directoryState := .M_DRDI, dataBlk := blk, tbe := some tbe })
    (state : tbe.tbeState = .M_DRDI) :
    s.dirTrigger { memory := some (n, {
        type := .MEMORY_WB, originalRequestor := some c, dataBlk := data }) } .Memory_Ack =
      some (.ok
        { s.setStation c { s.station c with
            forward := s.forward c ++ [{ type := .WB_ACK, requestor := some c }] } with
          dir := { directoryState := .I, dataBlk := blk }
          memQueue := s.memQueue.eraseIdx n }) := by
  simp [Directory.Machine.getState, dir, state]

theorem recalled_write_eq
    (dir : s.dir = { directoryState := .M_DWRI, dataBlk := blk, tbe := some tbe })
    (state : tbe.tbeState = .M_DWRI) (requestor : tbe.dmaRequestor = some d) :
    s.dirTrigger { memory := some (n, {
        type := .MEMORY_WB, originalRequestor := some c, dataBlk := data }) } .Memory_Ack =
      some (.ok
        { (s.setStation c { s.station c with
              forward := s.forward c ++ [{ type := .WB_ACK, requestor := some c }]
            }).sendToDma { type := .ACK } d with
          -- The block becomes what the message had, whichever bytes of it were to be written.
          dir := { directoryState := .I, dataBlk := tbe.dataBlk }
          memQueue := s.memQueue.eraseIdx n
          latest := fun i => (s.wanted d i).getD (s.latest i)
          applied := update s.applied d (s.applied d + 1) }) := by
  simp [Directory.Machine.getState, sendToDma, dir, state, requestor]

theorem dma_serve_eq {m : DMARequestMsg Dma}
    (dir : s.dir = { directoryState := .I, dataBlk := blk }) :
    s.dirTrigger { dma := some (d, n, m) } .DMA_READ = some (.ok
        { s with
          dmaRequests := update s.dmaRequests d ((s.dmaRequests d).eraseIdx n)
          dir := {
            directoryState := .ID, dataBlk := blk
            tbe := some { tbeState := .ID, dmaRequestor := some m.requestor } }
          memQueue := s.memQueue ++ [{ type := .MEMORY_READ, dataBlk := blk }] }) ∧
      s.dirTrigger { dma := some (d, n, m) } .DMA_WRITE = some (.ok
        { s with
          dmaRequests := update s.dmaRequests d ((s.dmaRequests d).eraseIdx n)
          dir := {
            directoryState := .ID_W, dataBlk := blk
            tbe := some {
              physicalAddress := m.physicalAddress, tbeState := .ID_W, dataBlk := m.dataBlk
              len := m.len, dmaRequestor := some m.requestor } }
          memQueue := s.memQueue ++ [{
            type := .MEMORY_WB
            dataBlk := DataBlock.copyPartial (fun _ => 0) m.dataBlk
              (m.physicalAddress % s.blockSize) m.len }] }) := by
  constructor <;>
    simp [Directory.Machine.getState, dir]

theorem dma_recall_eq {msg : DMARequestMsg Dma} {event : Directory.Event} {state : Directory.State}
    (dir : s.dir = { directoryState := .M, dataBlk := blk, owner := {o} })
    (kind : event = .DMA_READ ∧ state = .M_DRD ∨ event = .DMA_WRITE ∧ state = .M_DWR) :
    s.dirTrigger { dma := some (d, n, msg) } event = some (.ok
      { s.setStation o { s.station o with
          forward := s.forward o ++ [{ type := .INV, requestor := none }] } with
        dmaRequests := update s.dmaRequests d ((s.dmaRequests d).eraseIdx n)
        dir := {
          directoryState := state, dataBlk := blk, owner := {o}
          tbe := some {
            physicalAddress := msg.physicalAddress, tbeState := state, dataBlk := msg.dataBlk
            len := msg.len, dmaRequestor := some msg.requestor } } }) := by
  obtain ⟨rfl, rfl⟩ | ⟨rfl, rfl⟩ := kind <;>
    simp [Directory.Machine.getState, sendToOwner_eq (s := { s with dir := _ }) (o := o), dir]

theorem recycle_eq {input : DirInput Cache Dma} {event : Directory.Event}
    (busy : s.dir.getState = .IM ∨ s.dir.getState = .MI ∨ s.dir.getState = .ID ∨
      s.dir.getState = .ID_W)
    (asks : event = .GETX ∨ event = .PUTX ∨ event = .PUTX_NotOwner ∨ event = .DMA_READ ∨
      event = .DMA_WRITE) : s.dirTrigger input event = none := by
  obtain state | state | state | state := busy <;>
    obtain rfl | rfl | rfl | rfl | rfl := asks <;>
    simp [state]

theorem recycle_get_eq {input : DirInput Cache Dma}
    (busy : s.dir.getState = .M_DRD ∨ s.dir.getState = .M_DWR ∨ s.dir.getState = .M_DRDI ∨
      s.dir.getState = .M_DWRI) : s.dirTrigger input .GETX = none := by
  obtain state | state | state | state := busy <;>
    simp [state]

end System

/-- The directory is taking the block from its owner for a DMA controller. -/
def Directory.State.recalling (state : Directory.State) : Prop :=
  state = .M_DRD ∨ state = .M_DWR ∨ state = .M_DRDI ∨ state = .M_DWRI

variable {data : Prop} {s : System Cache Dma} {phase : Cache → Phase Cache} {blk : DataBlock}
  {c : Cache} {r : Except Fault (System Cache Dma)}

/-- A directory that takes a request up is in the midst of no other. -/
theorem Settled.of_taken {input : System.DirInput Cache Dma} {event : Directory.Event}
    (settled : Settled phase blk s.dir s.memQueue) (ready : ¬s.dir.getState.recalling)
    (asks : event = .GETX ∨ event = .PUTX ∨ event = .PUTX_NotOwner ∨ event = .DMA_READ ∨
      event = .DMA_WRITE) (taken : s.dirTrigger input event = some r) :
    ((∀ x, ¬(phase x).Holds) ∧ s.dir = { directoryState := .I, dataBlk := blk } ∧
      s.memQueue = []) ∨
    ∃ o dataBlk, (∃ x, (phase x).Holds) ∧
      s.dir = { directoryState := .M, dataBlk, owner := {o} } ∧ s.memQueue = [] := by
  cases settled with
  | I free dir_eq mem_eq => exact .inl ⟨free, dir_eq, mem_eq⟩
  | M o dataBlk held dir_eq mem_eq => exact .inr ⟨o, dataBlk, held, dir_eq, mem_eq⟩
  | IM o free awaits first dir_eq mem_eq =>
    rw [System.recycle_eq (by simp [Directory.Machine.getState, dir_eq]) asks] at taken
    cases taken
  | MI c' dataBlk tbe free acked dir_eq tbe_eq mem_eq =>
    rw [System.recycle_eq (by simp [Directory.Machine.getState, dir_eq, tbe_eq]) asks] at taken
    cases taken
  | ID d tbe free dir_eq tbe_eq mem_eq | ID_W d tbe free dir_eq tbe_eq mem_eq =>
    rw [System.recycle_eq (by simp [Directory.Machine.getState, dir_eq, tbe_eq]) asks] at taken
    cases taken
  | recalling o d state dataBlk tbe held state_eq dir_eq tbe_eq mem_eq =>
    refine absurd ?_ ready
    obtain rfl | rfl := state_eq <;>
      simp [Directory.Machine.getState, dir_eq, tbe_eq, Directory.State.recalling]
  | recalled c' d state tbe free acked state_eq dir_eq tbe_eq mem_eq =>
    refine absurd ?_ ready
    obtain rfl | rfl := state_eq <;>
      simp [Directory.Machine.getState, dir_eq, tbe_eq, Directory.State.recalling]

/-- A request of a cache for the block. -/
theorem Sound.get (sound : Sound data ledger s) (inv : Consistent phase blk s)
    (agree : data → Agree s.blockSize blk s.latest) (asked : phase c = .asked)
    (taken : s.dirTrigger { request := some (c, 0, { type := .GETX, requestor := c }) } .GETX =
      some r) : ∃ s', r = .ok s' ∧ Sound data ledger s' := by
  obtain ⟨machine, requests, forward, responses⟩ := inv.station asked
  have rest : (s.requests c).eraseIdx 0 = [] := by
    rw [requests]
    rfl
  have fits : (Phase.awaits (.owner false)).Fits c blk { s.station c with
      requests := (s.requests c).eraseIdx 0 } := ⟨machine, rest, forward, responses⟩
  have not_holds : ¬(phase c).Holds := by rw [asked]; exact id
  have nobody : ∀ x, (phase x).next ≠ some c := by
    intro x leads
    exact absurd (inv.next x c leads) (by rw [asked]; exact id)
  have ready : ¬s.dir.getState.recalling := by
    intro recalling
    rw [System.recycle_get_eq recalling] at taken
    cases taken
  obtain ⟨free, dir_eq, mem_eq⟩ | ⟨o, dataBlk, held, dir_eq, mem_eq⟩ :=
    inv.settled.of_taken ready (by simp) taken
  · rw [System.fetch_eq dir_eq] at taken
    obtain rfl := Option.some.inj taken
    refine ⟨_, rfl, sound.of_same ⟨rfl, rfl, rfl, rfl, rfl, rfl, rfl, ?_⟩
      ⟨update phase c (.awaits (.owner false)), blk, ?_, agree⟩ sound.loads⟩
    · simp [Directory.Machine.pending, dir_eq]
    · refine inv.change (fun x apart => s.station_setStation_of_ne _ apart) ?_ ?_ ?_
        (False.elim ·) ?_ (fun _ => .inl trivial) ?_ ?_ (.inl rfl)
      · exact (s.station_setStation c _).symm ▸ fits
      · exact iff_of_true (Finset.mem_singleton_self c) trivial
      · intro x apart
        simp [dir_eq, apart]
      · rw [asked]
        rfl
      · rintro (invalid | ⟨x, -, invalid⟩)
        · exact absurd invalid id
        · have owns := (inv.owner x).mpr (Phase.owns_of_invalidated invalid)
          exact absurd owns (by simp [dir_eq])
      · refine .IM c ?_ ?_ ?_ rfl (by simp [mem_eq])
        · exact (Function.forall_update_iff phase fun _ p => ¬p.Holds).mpr
            ⟨id, fun x _ => free x⟩
        · rw [update_self]
          trivial
        · exact (Function.forall_update_iff phase fun _ p => p.next ≠ some c).mpr
            ⟨by simp [Phase.next], fun x _ => nobody x⟩
  · have owns : (phase o).Owns := (inv.owner o).mp (by simp [dir_eq])
    have apart : o ≠ c := by
      rintro rfl
      exact absurd owns (by rw [asked]; exact id)
    have quiet : ¬(phase o).Invalidated := by
      intro invalid
      obtain state | state := inv.invalidated o invalid <;> simp [dir_eq] at state
    rw [System.forward_eq apart dir_eq] at taken
    obtain rfl := Option.some.inj taken
    refine ⟨_, rfl, sound.of_same ⟨rfl, rfl, rfl, rfl, rfl, rfl, rfl, ?_⟩
      ⟨_, blk, inv.forwardTo (c := c) (o := o) (by simp [dir_eq]) asked (by simp [dir_eq])
        (by simp [dir_eq]) ?_ rfl ?_ ?_, agree⟩ sound.loads⟩
    · simp [Directory.Machine.pending, dir_eq]
    · intro x x_c x_o
      exact (System.station_setStation_of_ne _ _ x_c).trans
        (System.station_setStation_of_ne _ _ x_o)
    · exact (System.station_setStation _ c _).symm ▸ fits
    · have told := (inv.fits o).restand owns quiet (t := .forwarded c) rfl
      exact ((System.station_setStation_of_ne _ _ apart).trans
        (System.station_setStation _ o _)).symm ▸ told

omit [DecidableEq Cache] [DecidableEq Dma] in
theorem Consistent.only_owner (inv : Consistent phase blk s) {o : Cache} (owner : s.dir.owner = {o})
    (owns : (phase c).Owns) : c = o := by
  have member := (inv.owner c).mpr owns
  rw [owner] at member
  exact Finset.mem_singleton.mp member

/-- The write-back of the owner. -/
theorem Sound.put (sound : Sound data ledger s) (inv : Consistent phase blk s)
    (agree : data → Agree s.blockSize blk s.latest) {invalidated : Bool}
    (evicting : phase c = .evicting (.owner invalidated))
    (taken : s.dirTrigger { request := some (c, 0, {
      type := .PUTX, requestor := c, dataBlk := blk }) } .PUTX = some r) :
    ∃ s', r = .ok s' ∧ Sound data ledger s' := by
  obtain ⟨machine, requests, forward, responses⟩ := inv.station evicting
  obtain ⟨request, machine⟩ := machine
  have rest : (s.requests c).eraseIdx 0 = [] := by
    rw [requests]
    rfl
  have fits : (Phase.acked invalidated).Fits c blk { s.station c with
      requests := (s.requests c).eraseIdx 0 } :=
    ⟨⟨_, request, machine, rfl⟩, rest, forward, responses⟩
  have holds : (phase c).Holds := by rw [evicting]; trivial
  have owns : (phase c).Owns := by rw [evicting]; trivial
  have alone : ∀ x, x ≠ c → ¬(phase x).Holds :=
    fun x apart also => apart (inv.one x c also holds)
  have free : ∀ x, ¬(update phase c (.acked invalidated) x).Holds :=
    (Function.forall_update_iff phase fun _ p => ¬p.Holds).mpr ⟨id, alone⟩
  have acked : (update phase c (.acked invalidated) c).Acked := by
    rw [update_self]
    trivial
  -- Wherever the owner's write-back is taken, the caches change in the same way.
  have changes : ∀ {t : System Cache Dma} {o : Cache}, s.dir.owner = {o} → t.dir.owner = ∅ →
      (∀ x, t.station x = (s.setStation c { s.station c with
        requests := (s.requests c).eraseIdx 0 }).station x) →
      Settled (update phase c (.acked invalidated)) blk t.dir t.memQueue →
      Consistent (update phase c (.acked invalidated)) blk t := by
    intro t o owner no_owner stations settled
    have others : ∀ x, x ≠ c → x ∉ s.dir.owner := by
      intro x apart member
      have x_owns := (inv.owner x).mp member
      exact apart ((inv.only_owner owner x_owns).trans (inv.only_owner owner owns).symm)
    refine inv.change (fun x apart => (stations x).trans (s.station_setStation_of_ne _ apart)) ?_
      ?_ ?_ (False.elim ·) ?_ (fun awaits => ?_) ?_ settled (.inl rfl)
    · exact ((stations c).trans (s.station_setStation c _)).symm ▸ fits
    · exact iff_of_false (by simp [no_owner]) id
    · intro x apart
      exact iff_of_false (by simp [no_owner]) (others x apart)
    · rw [evicting]
      rfl
    · rw [evicting] at awaits
      exact absurd awaits id
    · rintro (invalid | ⟨x, apart, invalid⟩)
      · exact absurd invalid id
      · exact absurd ((inv.owner x).mpr (Phase.owns_of_invalidated invalid)) (others x apart)
  cases inv.settled with
  | M o dataBlk held dir_eq mem_eq =>
    rw [System.write_back_eq dir_eq] at taken
    obtain rfl := Option.some.inj taken
    refine ⟨_, rfl, sound.of_same ⟨rfl, rfl, rfl, rfl, rfl, rfl, rfl, ?_⟩
      ⟨_, blk, changes (o := o) (by simp [dir_eq]) rfl (fun x => rfl) ?_, agree⟩ sound.loads⟩
    · simp [Directory.Machine.pending, dir_eq]
    · exact .MI c dataBlk _ free acked rfl ⟨rfl, rfl⟩ ⟨blk, by simp [mem_eq]⟩
  | recalling o d state dataBlk tbe held state_eq dir_eq tbe_eq mem_eq =>
    obtain ⟨tbe_state, requestor⟩ := tbe_eq
    obtain rfl | rfl := state_eq
    · rw [System.recall_read_eq dir_eq tbe_state requestor] at taken
      obtain rfl := Option.some.inj taken
      have coherent := changes (t := { (s.setStation c { s.station c with
          requests := (s.requests c).eraseIdx 0 }).sendToDma
          { type := .DATA, dataBlk := blk } d with
        dir := {
          directoryState := .M_DRDI, dataBlk := blk
          tbe := some { tbe with tbeState := .M_DRDI } }
        memQueue := s.memQueue ++ [{
          type := .MEMORY_WB, originalRequestor := some c, dataBlk := blk }]
        served := update s.served d s.latest })
        (o := o) (by simp [dir_eq]) rfl (fun x => rfl)
        (.recalled c d .M_DRDI _ free acked (.inl rfl) rfl ⟨rfl, requestor⟩
          ⟨blk, by simp [mem_eq]⟩)
      refine ⟨_, rfl, ⟨_, blk, coherent, agree⟩, sound.loads, ?_, sound.size,
        sound.controllers⟩
      refine DmaFits.answer (d := d) (a := { type := .DATA, dataBlk := blk }) sound.dma
        (m := ⟨.READ, tbe.physicalAddress, d, tbe.dataBlk, tbe.len⟩) ?_ rfl ?_ rfl rfl rfl rfl
        rfl (fun x apart => update_of_ne apart _ _) rfl (update_eq_self ..).symm ?_
      · simp [Directory.Machine.pending, dir_eq, requestor, tbe_state]
      · simp [Directory.Machine.pending, requestor]
      · intro right _
        simp only [update_self]
        exact agree right
    · rw [System.recall_write_eq dir_eq tbe_state] at taken
      obtain rfl := Option.some.inj taken
      refine ⟨_, rfl, sound.of_same ⟨rfl, rfl, rfl, rfl, rfl, rfl, rfl, ?_⟩
        ⟨_, blk, changes (o := o) (by simp [dir_eq]) rfl (fun x => rfl) ?_, agree⟩ sound.loads⟩
      · simp [Directory.Machine.pending, dir_eq, requestor, tbe_state]
      · exact .recalled c d .M_DWRI _ free acked (.inr rfl) rfl ⟨rfl, requestor⟩
          ⟨_, by simp [mem_eq]; rfl⟩
  | I free | IM o free | MI c' dataBlk tbe free | ID d tbe free | ID_W d tbe free
  | recalled c' d state tbe free => exact absurd holds (free c)

/-- The write-back of a cache that is not the owner any more. -/
theorem Sound.turnDown (sound : Sound data ledger s) (inv : Consistent phase blk s)
    (agree : data → Agree s.blockSize blk s.latest) {msg : RequestMsg Cache}
    (late : (∃ r, phase c = .evicting (.forwarded r)) ∨ ∃ stale, phase c = .refused stale)
    (first : s.requests c = [msg]) (requestor : msg.requestor = c)
    (ready : ¬s.dir.getState.recalling)
    (taken : s.dirTrigger { request := some (c, 0, msg) } .PUTX_NotOwner = some r) :
    ∃ s', r = .ok s' ∧ Sound data ledger s' := by
  have rest : (s.requests c).eraseIdx 0 = [] := by
    rw [first]
    rfl
  -- The answer is the same whether or not the cache has seen the forwarded request.
  have nacked : Sound data ledger (s.setStation c { s.station c with
      requests := (s.requests c).eraseIdx 0
      forward := s.forward c ++ [{ type := .WB_NACK, requestor := some c }] }) := by
    obtain ⟨r', evicting⟩ | ⟨stale, refused⟩ := late
    · obtain ⟨machine, -, forward, responses⟩ := inv.station evicting
      refine sound.move inv agree (q := .surrendered r') ⟨machine, rest, ?_, responses⟩ ?_
      · simp only [forward]
        rfl
      · rw [evicting]
        exact ⟨Iff.rfl, Iff.rfl, rfl, id, id, id⟩
    · obtain ⟨machine, -, forward, responses⟩ := inv.station refused
      refine sound.move inv agree (q := .refusing) ⟨machine, rest, ?_, responses⟩ ?_
      · simp only [forward]
        rfl
      · rw [refused]
        exact ⟨Iff.rfl, Iff.rfl, rfl, id, id, id⟩
  obtain ⟨free, dir_eq, mem_eq⟩ | ⟨o, dataBlk, held, dir_eq, mem_eq⟩ :=
    inv.settled.of_taken ready (by simp) taken
  · rw [System.nack_eq requestor (.inl dir_eq)] at taken
    obtain rfl := Option.some.inj taken
    exact ⟨_, rfl, nacked⟩
  · rw [System.nack_eq requestor (.inr ⟨o, dir_eq⟩)] at taken
    obtain rfl := Option.some.inj taken
    exact ⟨_, rfl, nacked⟩

/-- A late write-back that comes while the directory takes the block from its owner. -/
def System.Untimely (s : System Cache Dma) (msg : RequestMsg Cache) : Prop :=
  msg.type = .PUTX ∧ msg.requestor ∉ s.dir.owner ∧ s.dir.getState.recalling

/-- The directory takes up a request of a cache, or puts it off. -/
theorem Sound.request (sound : Sound data ledger s) {n : Nat}
    (timely : ∀ msg, (s.requests c)[n]? = some msg → ¬s.Untimely msg)
    (taken : s.perform (.request c n) = some r) :
    ∃ s', r = .ok s' ∧ Sound data ledger s' := by
  obtain ⟨phase, blk, inv, agree⟩ := sound.coherent
  have requests := (inv.fits c).requests
  simp only [System.station] at requests
  simp only [System.perform, Option.bind_eq_some_iff] at taken
  obtain ⟨msg, found, taken⟩ := taken
  have timely := timely msg found
  rw [requests] at found
  -- A cache has one request under way at a time.
  have one : ∀ {msg' : RequestMsg Cache}, [msg'][n]? = some msg → n = 0 ∧ msg' = msg := by
    intro msg' here
    cases n with
    | zero => exact ⟨rfl, Option.some.inj here⟩
    | succ n => cases here
  cases at_c : phase c with
  | asked =>
    rw [at_c] at found
    obtain ⟨rfl, rfl⟩ := one found
    exact sound.get inv agree at_c taken
  | evicting st =>
    rw [at_c] at found requests
    obtain ⟨rfl, rfl⟩ := one found
    simp only [System.requestEvent, System.raise] at taken
    cases st with
    | owner invalidated =>
      have member : c ∈ s.dir.owner := (inv.owner c).mpr (by rw [at_c]; trivial)
      rw [if_pos member] at taken
      exact sound.put inv agree at_c taken
    | forwarded r' =>
      have member : c ∉ s.dir.owner := fun also => by
        have owns := (inv.owner c).mp also
        rw [at_c] at owns
        exact owns
      rw [if_neg member] at taken
      exact sound.turnDown inv agree (.inl ⟨r', at_c⟩) requests rfl
        (fun recalling => timely ⟨rfl, member, recalling⟩) taken
  | refused stale =>
    rw [at_c] at found requests
    obtain ⟨rfl, rfl⟩ := one found
    simp only [System.requestEvent, System.raise] at taken
    have member : c ∉ s.dir.owner := fun also => by
      have owns := (inv.owner c).mp also
      rw [at_c] at owns
      exact owns
    rw [if_neg member] at taken
    exact sound.turnDown inv agree (.inr ⟨stale, at_c⟩) requests rfl
      (fun recalling => timely ⟨rfl, member, recalling⟩) taken
  | idle | awaits st | arriving st | holding st | surrendered r' | acked invalidated
  | acking invalidated | refusing =>
    rw [at_c] at found
    cases found

/-- A DMA write brings nothing but the bytes that it is to write, or what was there before. -/
def System.Covers (s : System Cache Dma) : Prop :=
  ∀ tbe, s.dir.tbe = some tbe → ∀ i < s.blockSize,
    ¬(tbe.physicalAddress % s.blockSize ≤ i ∧ i < tbe.physicalAddress % s.blockSize + tbe.len) →
      tbe.dataBlk i = s.dir.dataBlk i

omit [DecidableEq Dma] in
theorem Consistent.written {blk' : DataBlock} {s' : System Cache Dma} (inv : Consistent phase blk s)
    {invalidated : Bool} (acked : phase c = .acked invalidated) (free : ∀ x, ¬(phase x).Holds)
    (nobody : s.dir.owner = ∅) (dir : s'.dir = { directoryState := .I, dataBlk := blk' })
    (mem : s'.memQueue = [])
    (stations : ∀ x, s'.station x = (s.setStation c { s.station c with
      forward := s.forward c ++ [{ type := .WB_ACK, requestor := some c }] }).station x) :
    Consistent (update phase c (.acking invalidated)) blk' s' := by
  obtain ⟨machine, requests, forward, responses⟩ := inv.station acked
  refine inv.change (fun x apart => (stations x).trans (s.station_setStation_of_ne _ apart)) ?_ ?_
    ?_ (False.elim ·) ?_ (fun awaits => ?_) ?_ ?_ (.inr fun x _ => free x)
  · refine ((stations c).trans (s.station_setStation c _)).symm ▸ ⟨machine, requests, ?_, responses⟩
    simp only [forward]
    rfl
  · exact iff_of_false (by simp [dir]) id
  · intro x _
    rw [nobody, dir]
  · rw [acked]
    rfl
  · rw [acked] at awaits
    exact absurd awaits id
  · rintro (invalid | ⟨x, -, invalid⟩)
    · exact absurd invalid id
    · exact absurd invalid (inv.calm nobody x)
  · refine .I ?_ dir mem
    exact (Function.forall_update_iff phase fun _ p => ¬p.Holds).mpr ⟨id, fun x _ => free x⟩

theorem Wants.agree {blockSize address len : Nat} {wanted : Nat → Option UInt8}
    {dataBlk latest : DataBlock} (wants : Wants blockSize wanted address len dataBlk)
    (agree : Agree blockSize blk latest) :
    Agree blockSize (blk.copyPartial dataBlk (address % blockSize) len)
      fun i => (wanted i).getD (latest i) := by
  intro i inside
  simp only [DataBlock.copyPartial, DataBlock.setData, wants i inside]
  split
  · rw [Option.getD_some]
    congr 1
    omega
  · rw [Option.getD_none, agree i inside]

/-- A reply of the memory. -/
theorem Sound.memory (sound : Sound data ledger s) {n : Nat}
    (covers : data → s.dir.getState = .M_DWRI → s.Covers) (taken : s.perform (.memory n) = some r) :
    ∃ s', r = .ok s' ∧ Sound data ledger s' := by
  obtain ⟨phase, blk, inv, agree⟩ := sound.coherent
  simp only [System.perform, Option.bind_eq_some_iff] at taken
  obtain ⟨msg, found, taken⟩ := taken
  -- The directory has at most one request at the memory.
  have one : ∀ {msg' : MemoryMsg Cache}, [msg'][n]? = some msg → n = 0 ∧ msg' = msg := by
    intro msg' here
    cases n with
    | zero => exact ⟨rfl, Option.some.inj here⟩
    | succ n => cases here
  cases inv.settled with
  | I free dir_eq mem_eq | M o dataBlk held dir_eq mem_eq
  | recalling o d state dataBlk tbe held state_eq dir_eq tbe_eq mem_eq =>
    rw [mem_eq] at found
    cases found
  | IM o free awaits first dir_eq mem_eq =>
    rw [mem_eq] at found
    obtain ⟨rfl, rfl⟩ := one found
    simp only [System.memoryEvent] at taken
    rw [System.fetched_eq dir_eq] at taken
    obtain rfl := Option.some.inj taken
    obtain ⟨st, waiting⟩ := awaits.exists
    obtain ⟨machine, requests, forward, responses⟩ := inv.station waiting
    have owns : (phase o).Owns := (inv.owner o).mp (by simp [dir_eq])
    refine ⟨_, rfl, sound.of_same ⟨rfl, rfl, rfl, rfl, rfl, rfl, rfl, ?_⟩
      ⟨update phase o (.arriving st), blk, ?_, agree⟩ sound.loads⟩
    · simp [Directory.Machine.pending, dir_eq]
    · refine inv.change (fun x apart => s.station_setStation_of_ne _ apart) ?_ ?_ ?_
        (fun _ x _ => free x) ?_ (fun _ => .inr first) ?_ ?_ (.inl rfl)
      · refine (s.station_setStation o _).symm ▸ ⟨machine, requests, forward, ?_⟩
        simp only [responses]
        rfl
      · refine iff_of_true (Finset.mem_singleton_self o) ?_
        rw [waiting] at owns
        cases st <;> exact owns
      · intro x apart
        simp [dir_eq]
      · rw [waiting]
        cases st <;> rfl
      · have calm : ∀ x, ¬(phase x).Invalidated := by
          intro x invalid
          obtain state | state := inv.invalidated x invalid <;> simp [dir_eq] at state
        rintro (invalid | ⟨x, -, invalid⟩)
        · refine absurd ?_ (calm o)
          rw [waiting]
          cases st with
          | owner invalidated => cases invalidated <;> exact invalid
          | forwarded r' => exact invalid
        · exact absurd invalid (calm x)
      · refine .M o blk ⟨o, ?_⟩ rfl (by simp [mem_eq])
        rw [update_self]
        trivial
  | MI c dataBlk tbe free acked dir_eq tbe_eq mem_eq =>
    obtain ⟨data', mem_eq⟩ := mem_eq
    obtain ⟨state, tbe_data⟩ := tbe_eq
    rw [mem_eq] at found
    obtain ⟨rfl, rfl⟩ := one found
    simp only [System.memoryEvent] at taken
    rw [System.written_eq dir_eq state] at taken
    obtain rfl := Option.some.inj taken
    obtain ⟨invalidated, acked⟩ := acked.exists
    refine ⟨_, rfl, sound.of_same ⟨rfl, rfl, rfl, rfl, rfl, rfl, rfl, ?_⟩
      ⟨_, blk, inv.written acked free (by simp [dir_eq]) (by simp [tbe_data]) (by simp [mem_eq])
        (fun x => rfl), agree⟩ sound.loads⟩
    simp [Directory.Machine.pending, dir_eq, state]
  | ID d tbe free dir_eq tbe_eq mem_eq =>
    obtain ⟨state, requestor⟩ := tbe_eq
    rw [mem_eq] at found
    obtain ⟨rfl, rfl⟩ := one found
    simp only [System.memoryEvent] at taken
    rw [System.dma_fetched_eq dir_eq state requestor] at taken
    obtain rfl := Option.some.inj taken
    refine ⟨_, rfl, ⟨phase, blk, inv.stay (fun x => rfl) (by simp [dir_eq]) ?_
      (.I free rfl (by simp [mem_eq])) (.inl rfl), agree⟩, sound.loads, ?_, sound.size,
        sound.controllers⟩
    · rintro ⟨x, invalid⟩
      exact absurd invalid (inv.calm (by simp [dir_eq]) x)
    · refine DmaFits.answer (d := d) (a := { type := .DATA, dataBlk := blk }) sound.dma
        (m := ⟨.READ, tbe.physicalAddress, d, tbe.dataBlk, tbe.len⟩) ?_ rfl rfl rfl rfl rfl rfl
        rfl (fun x apart => update_of_ne apart _ _) rfl (update_eq_self ..).symm ?_
      · simp [Directory.Machine.pending, dir_eq, requestor, state]
      · intro right _
        simp only [update_self]
        exact agree right
  | ID_W d tbe free dir_eq tbe_eq mem_eq =>
    obtain ⟨data', mem_eq⟩ := mem_eq
    obtain ⟨state, requestor⟩ := tbe_eq
    rw [mem_eq] at found
    obtain ⟨rfl, rfl⟩ := one found
    simp only [System.memoryEvent] at taken
    rw [System.dma_written_eq dir_eq state requestor] at taken
    obtain rfl := Option.some.inj taken
    have pending : s.dir.pending =
        some ⟨.WRITE, tbe.physicalAddress, d, tbe.dataBlk, tbe.len⟩ := by
      simp [Directory.Machine.pending, dir_eq, requestor, state]
    have requested := ((sound.dma d).of_pending pending rfl).2.2
    refine ⟨_, rfl, ⟨phase, _, inv.stay (fun x => rfl) (by simp [dir_eq]) ?_
      (.I free rfl (by simp [mem_eq])) (.inr free), ?_⟩, sound.loads, ?_, sound.size,
        sound.controllers⟩
    · rintro ⟨x, invalid⟩
      exact absurd invalid (inv.calm (by simp [dir_eq]) x)
    · exact fun right => (requested.wanted right rfl).agree (agree right)
    · exact DmaFits.answer (d := d) (a := { type := .ACK }) sound.dma pending rfl rfl rfl rfl
        rfl rfl rfl (fun x apart => rfl) rfl rfl (fun _ data => by cases data)
  | recalled c d state tbe free acked state_eq dir_eq tbe_eq mem_eq =>
    obtain ⟨data', mem_eq⟩ := mem_eq
    obtain ⟨tbe_state, requestor⟩ := tbe_eq
    rw [mem_eq] at found
    obtain ⟨rfl, rfl⟩ := one found
    simp only [System.memoryEvent] at taken
    obtain ⟨invalidated, acked⟩ := acked.exists
    obtain rfl | rfl := state_eq
    · rw [System.recalled_read_eq dir_eq tbe_state] at taken
      obtain rfl := Option.some.inj taken
      refine ⟨_, rfl, sound.of_same ⟨rfl, rfl, rfl, rfl, rfl, rfl, rfl, ?_⟩
        ⟨_, blk, inv.written acked free (by simp [dir_eq]) rfl (by simp [mem_eq]) (fun x => rfl),
          agree⟩ sound.loads⟩
      simp [Directory.Machine.pending, dir_eq, tbe_state, requestor]
    · rw [System.recalled_write_eq dir_eq tbe_state requestor] at taken
      obtain rfl := Option.some.inj taken
      have pending : s.dir.pending =
          some ⟨.WRITE, tbe.physicalAddress, d, tbe.dataBlk, tbe.len⟩ := by
        simp [Directory.Machine.pending, dir_eq, requestor, tbe_state]
      have requested := ((sound.dma d).of_pending pending rfl).2.2
      refine ⟨_, rfl, ⟨_, tbe.dataBlk, inv.written acked free (by simp [dir_eq]) rfl
        (by simp [mem_eq]) (fun x => rfl), ?_⟩, sound.loads, ?_, sound.size,
        sound.controllers⟩
      · -- What the message does not write it brings as it was.
        intro right i inside
        have covered := covers right (by simp [Directory.Machine.getState, dir_eq, tbe_state]) tbe
          (by simp [dir_eq]) i inside
        have wants := requested.wanted right rfl i inside
        have same := agree right i inside
        simp only [wants]
        split
        · rfl
        · rename_i outside
          rw [Option.getD_none, covered outside, dir_eq]
          exact same
      · exact DmaFits.answer (d := d) (a := { type := .ACK }) sound.dma pending rfl rfl rfl
          rfl rfl rfl rfl (fun x apart => rfl) rfl rfl (fun _ data => by cases data)

/-- The directory takes up a DMA request, or puts it off. -/
theorem Sound.dmaServe (sound : Sound data ledger s) {d : Dma} {n : Nat}
    (ready : ¬s.dir.getState.recalling)
    (taken : s.perform (.dmaServe d n) = some r) : ∃ s', r = .ok s' ∧ Sound data ledger s' := by
  obtain ⟨phase, blk, inv, agree⟩ := sound.coherent
  simp only [System.perform, Option.bind_eq_some_iff] at taken
  obtain ⟨msg, found, taken⟩ := taken
  -- The controller has asked for one thing.
  obtain ⟨rfl, first, requested⟩ : n = 0 ∧ s.dmaRequests d = [msg] ∧
      Requested data ledger s d msg := by
    cases sound.dma d with
    | quiet requests | pending _ requests _ _ _ | answered _ requests _ _ _ =>
      rw [requests] at found
      cases found
    | asked msg' requests _ _ requested =>
      rw [requests] at found
      cases n with
      | succ n => cases found
      | zero =>
        obtain rfl := Option.some.inj found
        exact ⟨rfl, requests, requested⟩
  have rest : (s.dmaRequests d).eraseIdx 0 = [] := by
    rw [first]
    rfl
  obtain ⟨free, dir_eq, mem_eq⟩ | ⟨o, dataBlk, held, dir_eq, mem_eq⟩ :=
    inv.settled.of_taken ready (by cases msg.type <;> simp [System.dmaEvent]) taken
  · obtain ⟨read_eq, write_eq⟩ := System.dma_serve_eq (d := d) (n := 0) (m := msg) dir_eq
    have idle : s.dir.pending = none := by simp [Directory.Machine.pending, dir_eq]
    cases kind : msg.type with
    | READ =>
      simp only [kind, System.dmaEvent] at taken
      rw [read_eq] at taken
      obtain rfl := Option.some.inj taken
      refine ⟨_, rfl, ⟨phase, blk, inv.stay (fun x => rfl) (by simp [dir_eq]) ?_
        (.ID msg.requestor _ free rfl ⟨rfl, rfl⟩ (by simp [mem_eq])) (.inl rfl), agree⟩,
        sound.loads, ?_, sound.size,
        sound.controllers⟩
      · rintro ⟨x, invalid⟩
        exact absurd invalid (inv.calm (by simp [dir_eq]) x)
      · exact DmaFits.serve sound.dma idle first rfl rfl kind.symm
          (fun write => by rw [kind] at write; cases write) rfl rfl (by rw [rest]) rfl rfl rfl rfl
    | WRITE =>
      simp only [kind, System.dmaEvent] at taken
      rw [write_eq] at taken
      obtain rfl := Option.some.inj taken
      refine ⟨_, rfl, ⟨phase, blk, inv.stay (fun x => rfl) (by simp [dir_eq]) ?_
        (.ID_W msg.requestor _ free rfl ⟨rfl, rfl⟩ ⟨_, by simp [mem_eq]; rfl⟩) (.inl rfl), agree⟩,
        sound.loads, ?_, sound.size,
        sound.controllers⟩
      · rintro ⟨x, invalid⟩
        exact absurd invalid (inv.calm (by simp [dir_eq]) x)
      · exact DmaFits.serve sound.dma idle first rfl rfl kind.symm
          (fun _ => by simp [← kind]) rfl rfl (by rw [rest]) rfl rfl rfl rfl
  · obtain ⟨event, state, kind, state_eq, recalls⟩ : ∃ event, ∃ state : Directory.State,
        (event = .DMA_READ ∧ state = .M_DRD ∨ event = .DMA_WRITE ∧ state = .M_DWR) ∧
        (msg.type = .READ ∧ state = .M_DRD ∨ msg.type = .WRITE ∧ state = .M_DWR) ∧
        s.dirTrigger { dma := some (d, 0, msg) } event = some r := by
      cases kind : msg.type with
      | READ =>
        simp only [kind, System.dmaEvent] at taken
        exact ⟨.DMA_READ, .M_DRD, .inl ⟨rfl, rfl⟩, .inl ⟨rfl, rfl⟩, taken⟩
      | WRITE =>
        simp only [kind, System.dmaEvent] at taken
        exact ⟨.DMA_WRITE, .M_DWR, .inr ⟨rfl, rfl⟩, .inr ⟨rfl, rfl⟩, taken⟩
    rw [System.dma_recall_eq dir_eq kind] at recalls
    obtain rfl := Option.some.inj recalls
    have busy : state = .M_DRD ∨ state = .M_DWR := kind.imp And.right And.right
    have owns : (phase o).Owns := (inv.owner o).mp (by simp [dir_eq])
    have quiet : ¬(phase o).Invalidated := by
      intro invalid
      obtain before | before := inv.invalidated o invalid <;> simp [dir_eq] at before
    obtain ⟨owns', next'⟩ := Phase.restand_owner owns true
    obtain ⟨same_holds, same_awaits⟩ := (phase o).restand_holds (.owner true)
    have idle : s.dir.pending = none := by simp [Directory.Machine.pending, dir_eq]
    have coherent := inv.change (c := o) (q := (phase o).restand (.owner true)) (b := blk)
      (t := { s.setStation o { s.station o with
          forward := s.forward o ++ [{ type := .INV, requestor := none }] } with
        dmaRequests := update s.dmaRequests d ((s.dmaRequests d).eraseIdx 0)
        dir := {
          directoryState := state, dataBlk, owner := {o}
          tbe := some {
            physicalAddress := msg.physicalAddress, tbeState := state, dataBlk := msg.dataBlk
            len := msg.len, dmaRequestor := some msg.requestor } } })
      (fun x apart => s.station_setStation_of_ne _ apart)
      ((s.station_setStation o _).symm ▸ (inv.fits o).restand owns quiet (t := .owner true) rfl)
      (iff_of_true (Finset.mem_singleton_self o) owns') (fun x _ => by simp [dir_eq])
      (fun held x apart also => apart (inv.one x o also (same_holds.mp held)))
      (next'.trans (Phase.next_eq_none_of_owns owns).symm)
      (fun awaits => .inl (same_awaits.mpr awaits)) (fun _ => busy)
      (.recalling o msg.requestor state dataBlk _ ?_ busy rfl ⟨rfl, rfl⟩ mem_eq) (.inl rfl)
    · refine ⟨_, rfl, ⟨_, blk, coherent, agree⟩, sound.loads, ?_, sound.size,
        sound.controllers⟩
      refine DmaFits.serve sound.dma idle first (m := msg) ?_ rfl rfl (fun _ => rfl) rfl rfl
        (by rw [rest]) rfl rfl rfl rfl
      obtain ⟨type, rfl⟩ | ⟨type, rfl⟩ := state_eq <;>
        simp [Directory.Machine.pending, ← type]
    · obtain ⟨x, holds⟩ := held
      by_cases here : x = o
      · exact ⟨o, by rw [update_self, same_holds]; exact here ▸ holds⟩
      · exact ⟨x, by rwa [update_of_ne here]⟩

end MIExample

end GemDroid

import GemDroid.Lib.Outcome
import GemDroid.Lib.Place
import GemDroid.Lib.Run
import GemDroid.Mem.MshrQueue

/-! A queue of registers over whole runs: its lists, its counters and the order of its requests. -/

namespace GemDroid

open Outcome

namespace MshrQueue

variable {q r : MshrQueue} {i : Nat}

/-- The lists and the counters of a queue agree with its registers. -/
structure WF (q : MshrQueue) : Prop where
  parts : (q.freeList ++ q.allocatedList).Perm (List.range q.numEntries)
  distinct : q.readyList.Nodup
  ready : ∀ i, i ∈ q.readyList ↔ i ∈ q.allocatedList ∧ (q.registers i).inService = false
  allocatedCount : q.allocated = q.allocatedList.length
  serviceCount : q.inServiceEntries = q.allocatedList.countP fun i => (q.registers i).inService
  /-- A free register has nothing left of its last request. -/
  free : ∀ i ∈ q.freeList, (q.registers i).getNumTargets = 0 ∧
    (q.registers i).targets.isReset = true ∧ (q.registers i).deferredTargets.isReset = true ∧
    (q.registers i).inService = false
  /-- Targets are deferred only while the request is in service. -/
  deferred : ∀ i ∈ q.allocatedList, (q.registers i).deferredTargets.list ≠ [] →
    (q.registers i).inService = true

theorem WF.nodup (wf : q.WF) : (q.freeList ++ q.allocatedList).Nodup :=
  wf.parts.nodup_iff.mpr List.nodup_range

theorem WF.allocated_nodup (wf : q.WF) : q.allocatedList.Nodup :=
  (List.nodup_append.mp wf.nodup).2.1

theorem WF.not_free (wf : q.WF) (member : i ∈ q.allocatedList) : i ∉ q.freeList :=
  fun inside => (List.nodup_append.mp wf.nodup).2.2 i inside i member rfl

@[simp] theorem setRegister_self (mshr : Mshr) : (q.setRegister i mshr).registers i = mshr := by
  simp [setRegister]

theorem setRegister_other {j : Nat} (mshr : Mshr) (other : j ≠ i) :
    (q.setRegister i mshr).registers j = q.registers j := by
  simp [setRegister, other]

theorem addToReadyList_eq (i : Nat) (q : MshrQueue) :
    q.addToReadyList i = .ok { q with readyList := Place.place q.readyTime i q.readyList } := by
  unfold addToReadyList Place.place
  dsimp only
  split
  · rfl
  case isFalse later =>
    have some := Place.dropWhile_ne_nil (Bool.eq_false_iff.mpr later)
    obtain ⟨next, rest, split⟩ := List.exists_cons_of_ne_nil some
    rw [split]

variable {mshr : Mshr}

theorem WF.setRegister_free (wf : q.WF) (member : i ∈ q.allocatedList) {j : Nat}
    (inside : j ∈ q.freeList) : (q.setRegister i mshr).registers j = q.registers j := by
  refine setRegister_other mshr ?_
  rintro rfl
  exact wf.not_free member inside

/-- A register of an allocated entry may change while its place in the lists stays true. -/
theorem WF.setRegister (wf : q.WF) (member : i ∈ q.allocatedList)
    (service : mshr.inService = (q.registers i).inService)
    (deferred : mshr.deferredTargets.list ≠ [] → mshr.inService = true) :
    (q.setRegister i mshr).WF := by
  have same : ∀ j, ((q.setRegister i mshr).registers j).inService = (q.registers j).inService := by
    intro j
    by_cases other : j = i
    · rw [other, setRegister_self, service]
    · rw [setRegister_other mshr other]
  exact {
    parts := wf.parts
    distinct := wf.distinct
    ready := by
      intro j
      rw [same]
      exact wf.ready j
    allocatedCount := wf.allocatedCount
    serviceCount := by
      simp only [same]
      exact wf.serviceCount
    free := by
      intro j inside
      rw [wf.setRegister_free member inside]
      exact wf.free j inside
    deferred := by
      intro j inside
      by_cases other : j = i
      · rw [other, setRegister_self]
        exact deferred
      · rw [setRegister_other mshr other]
        exact wf.deferred j inside }

/-- Both queues have the same number of entries. -/
def SameSize (q r : MshrQueue) : Prop :=
  r.numEntries = q.numEntries ∧ r.numReserve = q.numReserve

/-- The entries that are still to be sent stand as before. -/
structure Kept (q r : MshrQueue) : Prop where
  sublist : r.readyList.Sublist q.readyList
  times : ∀ j ∈ r.readyList, r.readyTime j = q.readyTime j
  size : q.SameSize r

/-- A new entry is to be sent, and the others stand as before. -/
structure Joined (i : Nat) (q r : MshrQueue) : Prop where
  placed : r.readyList = Place.place r.readyTime i q.readyList
  fresh : i ∉ q.readyList
  times : ∀ j ∈ q.readyList, r.readyTime j = q.readyTime j
  size : q.SameSize r

theorem kept_setRegister (timed : i ∈ q.readyList → mshr.readyTime = q.readyTime i) :
    q.Kept (q.setRegister i mshr) := by
  refine ⟨List.Sublist.refl _, fun j member => ?_, rfl, rfl⟩
  by_cases other : j = i
  · rw [readyTime, other, setRegister_self]
    exact timed (other ▸ member)
  · simp only [readyTime, setRegister_other mshr other]

theorem Kept.trans {p : MshrQueue} (first : p.Kept q) (second : q.Kept r) : p.Kept r :=
  ⟨second.sublist.trans first.sublist,
    fun j member => (second.times j member).trans (first.times j (second.sublist.subset member)),
    second.size.1.trans first.size.1, second.size.2.trans first.size.2⟩

/-- The first free entry is taken. -/
theorem WF.allocate (wf : q.WF) {rest : List Nat} (free : q.freeList = i :: rest) (addr : Addr)
    (size : Nat) (pkt : Packet) (whenReady order : Nat) :
    ∃ r, q.allocate addr size pkt whenReady order = .ok (r, i) ∧ r.WF ∧ q.Joined i r ∧
      r.freeList = rest := by
  -- A free entry has no targets, so that its assertions hold.
  obtain ⟨none, reset, resetDeferred, -⟩ := wf.free i (by simp [free])
  have fresh : i ∉ q.allocatedList := by
    intro member
    exact wf.not_free member (by simp [free])
  have unready : i ∉ q.readyList := fun member => fresh ((wf.ready i).mp member).1
  have nothing : (q.registers i).deferredTargets.list = [] := by
    simp only [Mshr.getNumTargets] at none
    exact List.length_eq_zero_iff.mp (by omega)
  obtain ⟨mshr, taken, idle, later⟩ : ∃ mshr,
      (q.registers i).allocate addr size pkt whenReady order = .ok mshr ∧
        mshr.inService = false ∧ mshr.deferredTargets = (q.registers i).deferredTargets := by
    simp [Mshr.allocate, reset, resetDeferred]
  refine ⟨{ q.setRegister i mshr with
    freeList := rest
    allocatedList := q.allocatedList ++ [i]
    readyList := Place.place (q.setRegister i mshr).readyTime i q.readyList
    allocated := q.allocated + 1 }, ?_, ?_, ?_⟩
  · simp only [MshrQueue.allocate, free, none, ne_eq, not_true_eq_false, if_false, taken,
      addToReadyList_eq]
    rfl
  · have others : ∀ j ∈ q.allocatedList, (q.setRegister i mshr).registers j = q.registers j :=
      fun j member => setRegister_other mshr fun same => fresh (same ▸ member)
    exact {
      parts := by
        have parts := wf.parts
        rw [free] at parts
        refine List.Perm.trans ?_ parts
        rw [← List.append_assoc]
        exact (List.perm_append_singleton i (rest ++ q.allocatedList))
      distinct := by
        rw [Place.place_perm.nodup_iff]
        exact List.nodup_cons.mpr ⟨unready, wf.distinct⟩
      ready := by
        intro j
        rw [Place.place_perm.mem_iff, List.mem_cons, List.mem_append, List.mem_singleton]
        constructor
        · rintro (rfl | old)
          · exact ⟨.inr rfl, by simp [idle]⟩
          · obtain ⟨member, waits⟩ := (wf.ready j).mp old
            exact ⟨.inl member, by simp only [others j member, waits]⟩
        · rintro ⟨old | rfl, waits⟩
          · simp only [others j old] at waits
            exact .inr ((wf.ready j).mpr ⟨old, waits⟩)
          · exact .inl rfl
      allocatedCount := by simp [wf.allocatedCount]
      serviceCount := by
        rw [List.countP_append, List.countP_cons, List.countP_nil]
        simp only [setRegister_self, idle, Bool.false_eq_true, if_false, Nat.zero_add]
        rw [Nat.add_zero]
        refine wf.serviceCount.trans ?_
        congr 1
        exact List.countP_congr fun j member => by rw [others j member]
      free := by
        intro j inside
        have other : j ≠ i := by
          rintro rfl
          have distinct := (List.nodup_append.mp wf.nodup).1
          rw [free] at distinct
          exact (List.nodup_cons.mp distinct).1 inside
        simp only [setRegister_other mshr other]
        exact wf.free j (by simp [free, inside])
      deferred := by
        intro j inside some
        rcases List.mem_append.mp inside with old | new
        · simp only [others j old] at some ⊢
          exact wf.deferred j old some
        · rw [List.mem_singleton.mp new, setRegister_self, later] at some
          exact absurd nothing some }
  · refine ⟨⟨rfl, unready, fun j member => ?_, rfl, rfl⟩, rfl⟩
    have other : j ≠ i := fun same => unready (same ▸ member)
    simp only [readyTime, setRegister_other mshr other]

/-- An operation on an allocated entry follows no stale iterator. -/
def Sound (fault : CacheFault) : Prop :=
  fault ≠ .staleIterator

theorem deallocate_ends (mshr : Mshr) :
    Ends Sound mshr.deallocate fun after => after.targets.list = [] ∧
      after.targets.isReset = true ∧ after.deferredTargets = mshr.deferredTargets ∧
      after.deferredTargets.isReset = true ∧ after.inService = false := by
  unfold Mshr.deallocate
  split
  · exact CacheFault.noConfusion
  case isFalse left =>
    split
    · exact CacheFault.noConfusion
    case isFalse reset =>
      simp only [Bool.not_eq_true', Bool.not_eq_false, List.isEmpty_iff] at left reset
      exact ⟨left, rfl, rfl, reset, rfl⟩

/-- Freeing an entry without targets that wait keeps the queue well formed. -/
theorem WF.deallocateOne (wf : q.WF) (member : i ∈ q.allocatedList)
    (none : (q.registers i).deferredTargets.list = []) :
    Ends Sound (q.deallocateOne i) fun r => r.WF ∧ q.Kept r := by
  have distinct := wf.allocated_nodup
  have listed : (q.registers i).inService = false → i ∈ q.readyList :=
    fun idle => (wf.ready i).mpr ⟨member, idle⟩
  -- The entry leaves the list of those to be sent only if it is in it.
  have erased : (q.registers i).inService = true → q.readyList.erase i = q.readyList := by
    intro busy
    refine List.erase_of_not_mem fun inside => ?_
    simp [((wf.ready i).mp inside).2] at busy
  have ends := deallocate_ends (q.registers i)
  cases freed : (q.registers i).deallocate with
  | error e =>
    have sound : Sound e := ends.of_error freed
    simp only [MshrQueue.deallocateOne, unlink, member, if_true, ends_bind, ends_ok]
    split
    · simpa [freed] using sound
    case isFalse idle => simpa [listed (Bool.eq_false_iff.mpr idle), freed] using sound
  | ok mshr =>
    obtain ⟨left, reset, later, resetDeferred, idle⟩ := ends.of_ok freed
    have blank : mshr.getNumTargets = 0 := by simp [Mshr.getNumTargets, left, later, none]
    have result : q.deallocateOne i = .ok { q.setRegister i mshr with
        allocatedList := q.allocatedList.erase i
        freeList := i :: q.freeList
        readyList := q.readyList.erase i
        allocated := q.allocated - 1
        inServiceEntries :=
          if (q.registers i).inService then q.inServiceEntries - 1 else q.inServiceEntries } := by
      simp only [MshrQueue.deallocateOne, unlink, member, if_true]
      cases busy : (q.registers i).inService with
      | true =>
        simp only [erased busy, if_true, Bind.bind, Except.bind, freed]
        rfl
      | false =>
        simp only [listed busy, Bool.false_eq_true, if_false, if_true, Bind.bind, Except.bind,
          freed]
        rfl
    have others : ∀ j ∈ q.allocatedList.erase i, (q.setRegister i mshr).registers j =
        q.registers j :=
      fun j inside => setRegister_other mshr (distinct.mem_erase_iff.mp inside).1
    rw [result, ends_ok]
    refine ⟨?_, ?_⟩
    · exact {
        parts := by
          refine List.Perm.trans ?_ wf.parts
          refine List.perm_middle.symm.trans ?_
          exact List.Perm.append_left _ (List.perm_cons_erase member).symm
        distinct := wf.distinct.erase i
        ready := by
          intro j
          rw [wf.distinct.mem_erase_iff, distinct.mem_erase_iff, wf.ready j]
          constructor
          · rintro ⟨other, inside, waits⟩
            exact ⟨⟨other, inside⟩, by simp only [setRegister_other mshr other, waits]⟩
          · rintro ⟨⟨other, inside⟩, waits⟩
            simp only [setRegister_other mshr other] at waits
            exact ⟨other, inside, waits⟩
        allocatedCount := by
          have positive : 0 < q.allocatedList.length := List.length_pos_of_mem member
          simp only [List.length_erase_of_mem member, wf.allocatedCount]
          omega
        serviceCount := by
          have same : (q.allocatedList.erase i).countP
              (fun j => ((q.setRegister i mshr).registers j).inService) =
                (q.allocatedList.erase i).countP fun j => (q.registers j).inService :=
            List.countP_congr fun j inside => by rw [others j inside]
          have split := (List.perm_cons_erase member).countP_eq
            fun j => (q.registers j).inService
          rw [List.countP_cons] at split
          have count := wf.serviceCount
          simp only [same]
          split
          case isTrue busy =>
            simp only [busy, if_true] at split
            omega
          case isFalse idle =>
            simp only [idle, Bool.false_eq_true, if_false] at split
            omega
        free := by
          intro j inside
          rcases List.mem_cons.mp inside with rfl | old
          · simp only [setRegister_self]
            exact ⟨blank, reset, resetDeferred, idle⟩
          · simp only [wf.setRegister_free member old]
            exact wf.free j old
        deferred := by
          intro j inside
          simp only [others j inside]
          exact wf.deferred j (List.mem_of_mem_erase inside) }
    · refine ⟨List.erase_sublist, fun j inside => ?_, rfl, rfl⟩
      have other := (wf.distinct.mem_erase_iff.mp inside).1
      simp only [readyTime, setRegister_other mshr other]

theorem setRegister_inService (j : Nat) :
    ((q.setRegister i mshr).registers j).inService =
      if j = i then mshr.inService else (q.registers j).inService := by
  split
  case isTrue same => rw [same, setRegister_self]
  case isFalse other => rw [setRegister_other mshr other]

theorem WF.moveToFront (wf : q.WF) (member : i ∈ q.allocatedList) :
    Ends Sound (q.moveToFront i) fun r => r.WF ∧ q.SameSize r := by
  unfold MshrQueue.moveToFront
  split
  · exact ⟨wf, rfl, rfl⟩
  case isFalse idle =>
    have listed : i ∈ q.readyList := (wf.ready i).mpr ⟨member, Bool.eq_false_iff.mpr idle⟩
    have front : (i :: q.readyList.erase i).Perm q.readyList := (List.perm_cons_erase listed).symm
    simp only [unlink, listed, if_true, ends_bind, ends_ok, ends_pure]
    refine ⟨?_, rfl, rfl⟩
    exact {
      parts := wf.parts
      distinct := front.nodup_iff.mpr wf.distinct
      ready := fun j => front.mem_iff.trans (wf.ready j)
      allocatedCount := wf.allocatedCount
      serviceCount := wf.serviceCount
      free := wf.free
      deferred := wf.deferred }

/-- An entry that was sent leaves the list of those to be sent. -/
theorem WF.sent (wf : q.WF) (member : i ∈ q.allocatedList)
    (idle : (q.registers i).inService = false) (busy : mshr.inService = true) :
    WF { q.setRegister i mshr with
      readyList := q.readyList.erase i
      inServiceEntries := q.inServiceEntries + 1 } where
  parts := wf.parts
  distinct := wf.distinct.erase i
  ready := by
    intro j
    rw [wf.distinct.mem_erase_iff, wf.ready j]
    simp only [setRegister_inService]
    by_cases other : j = i
    · simp [other, busy]
    · simp only [other, ne_eq, not_false_eq_true, true_and, if_false]
      rfl
  allocatedCount := wf.allocatedCount
  serviceCount := by
    have rise := Place.countP_rise (p := fun j => (q.registers j).inService)
      (q := fun j => ((q.setRegister i mshr).registers j).inService) wf.allocated_nodup member
      (fun j _ other => by rw [setRegister_other mshr other]) idle (by simp [busy])
    have count := wf.serviceCount
    simp only [MshrQueue.setRegister] at rise ⊢
    rw [rise, count]
    simp
  free := by
    intro j inside
    simp only [wf.setRegister_free member inside]
    exact wf.free j inside
  deferred := by
    intro j inside
    by_cases other : j = i
    · simp only [other, setRegister_self]
      exact fun _ => busy
    · simp only [setRegister_other mshr other]
      exact wf.deferred j inside

/-- An entry that is to be sent again joins the list of those to be sent. -/
theorem WF.pending (wf : q.WF) (member : i ∈ q.allocatedList)
    (busy : (q.registers i).inService = true) (idle : mshr.inService = false)
    (none : mshr.deferredTargets.list = []) :
    WF { q.setRegister i mshr with
      readyList := Place.place (q.setRegister i mshr).readyTime i q.readyList
      inServiceEntries := q.inServiceEntries - 1 } where
  parts := wf.parts
  distinct := by
    rw [Place.place_perm.nodup_iff]
    refine List.nodup_cons.mpr ⟨fun inside => ?_, wf.distinct⟩
    simp [((wf.ready i).mp inside).2] at busy
  ready := by
    intro j
    rw [Place.place_perm.mem_iff, List.mem_cons, wf.ready j]
    simp only [setRegister_inService]
    by_cases other : j = i
    · simp only [other, idle, true_or, if_true, and_true, true_iff]
      exact member
    · simp only [other, false_or, if_false]
      rfl
  allocatedCount := wf.allocatedCount
  serviceCount := by
    have rise := Place.countP_rise (q := fun j => (q.registers j).inService)
      (p := fun j => ((q.setRegister i mshr).registers j).inService) wf.allocated_nodup member
      (fun j _ other => by rw [setRegister_other mshr other]) (by simp [idle]) busy
    have count := wf.serviceCount
    simp only [MshrQueue.setRegister] at rise ⊢
    rw [rise] at count
    rw [count]
    simp
  free := by
    intro j inside
    simp only [wf.setRegister_free member inside]
    exact wf.free j inside
  deferred := by
    intro j inside
    by_cases other : j = i
    · simp only [other, setRegister_self]
      exact fun some => absurd none some
    · simp only [setRegister_other mshr other]
      exact wf.deferred j inside

theorem deferred_of_done (done : mshr.isForwardNoResponse = true) :
    mshr.deferredTargets.list = [] := by
  unfold Mshr.isForwardNoResponse at done
  split at done
  case h_1 target first =>
    simp only [Bool.and_eq_true, beq_iff_eq, Mshr.getNumTargets] at done
    have present : 0 < mshr.targets.list.length := by
      cases list : mshr.targets.list with
      | nil => simp [list] at first
      | cons => simp
    exact List.length_eq_zero_iff.mp (by omega)
  case h_2 => exact absurd done Bool.false_ne_true

theorem WF.markInService (wf : q.WF) (member : i ∈ q.allocatedList) (shared memInhibit : Bool) :
    Ends Sound (q.markInService i shared memInhibit) fun r => r.WF ∧ q.Kept r := by
  simp only [MshrQueue.markInService, Mshr.markInService]
  split
  · exact CacheFault.noConfusion
  case isFalse idle =>
    have waits := Bool.eq_false_iff.mpr idle
    split
    case isTrue done =>
      -- The entry is freed from a queue in which it has lost its only target.
      have none := deferred_of_done done
      have popped : (q.setRegister i (q.registers i).popTarget).WF :=
        wf.setRegister member rfl fun some => absurd none some
      have kept : q.Kept (q.setRegister i (q.registers i).popTarget) :=
        kept_setRegister fun _ => rfl
      simp only [ends_bind, ends_ok, if_true]
      refine (popped.deallocateOne member (by simpa [Mshr.popTarget] using none)).mono ?_
      exact fun r freed => ⟨freed.1, kept.trans freed.2⟩
    case isFalse =>
      have listed : i ∈ q.readyList := (wf.ready i).mpr ⟨member, waits⟩
      simp only [ends_bind, ends_ok, Bool.false_eq_true, if_false, unlink,
        show i ∈ (q.setRegister i _).readyList from listed, if_true, ends_pure]
      refine ⟨wf.sent member waits rfl, List.erase_sublist, fun j inside => ?_, rfl, rfl⟩
      have other := (wf.distinct.mem_erase_iff.mp inside).1
      simp only [readyTime, setRegister_other _ other]

theorem WF.markPending (wf : q.WF) (member : i ∈ q.allocatedList)
    (none : (q.registers i).deferredTargets.list = []) :
    Ends Sound (q.markPending i) fun r => r.WF ∧ q.Joined i r := by
  unfold MshrQueue.markPending
  split
  case isTrue busy =>
    have unready : i ∉ q.readyList := by
      intro inside
      simp [((wf.ready i).mp inside).2] at busy
    rw [addToReadyList_eq, ends_ok]
    refine ⟨wf.pending member busy rfl none, rfl, unready, fun j inside => ?_, rfl, rfl⟩
    have other : j ≠ i := fun same => unready (same ▸ inside)
    simp only [readyTime, setRegister_other _ other]
  case isFalse => exact CacheFault.noConfusion

theorem WF.forceDeallocateTarget (wf : q.WF) (member : i ∈ q.allocatedList) (now : Nat) :
    Ends Sound (q.forceDeallocateTarget i now) fun r => r.1.WF ∧ q.Kept r.1 := by
  unfold MshrQueue.forceDeallocateTarget
  split
  · exact CacheFault.noConfusion
  · dsimp only
    have popped : (q.setRegister i (q.registers i).popTarget).WF :=
      wf.setRegister member rfl (wf.deferred i member)
    have kept : q.Kept (q.setRegister i (q.registers i).popTarget) :=
      kept_setRegister fun _ => rfl
    split
    case isTrue last =>
      simp only [Mshr.promoteDeferredTargets, last, Bool.not_true, Bool.false_eq_true, if_false]
      cases deferred : (q.registers i).popTarget.deferredTargets.list with
      | nil =>
        simp only [List.head?_nil, ends_bind, ends_ok, Bool.false_eq_true, if_false]
        refine (popped.deallocateOne member (by simpa using deferred)).mono ?_
        exact fun r freed => ⟨freed.1, kept.trans freed.2⟩
      | cons first rest =>
        -- Deferred targets are there only while the entry is in service, and not to be sent.
        have busy : (q.registers i).inService = true := by
          refine wf.deferred i member ?_
          simp only [Mshr.popTarget] at deferred
          simp [deferred]
        simp only [List.head?_cons, ends_bind, ends_ok, if_true]
        refine ⟨wf.setRegister member rfl fun _ => busy, kept_setRegister fun inside => ?_⟩
        simp [((wf.ready i).mp inside).2] at busy
    case isFalse => exact ⟨popped, kept⟩

end MshrQueue

/-- What the cache does with an allocated register between the operations of its queue. -/
inductive RegisterOp
  | allocateTarget (pkt : Packet) (whenReady order : Nat)
  | handleSnoop (pkt : Packet) (now order : Nat)
  | request (isForward downstreamPending : Bool)
  | handleFill (shared : Bool)
  | popTarget
  | promoteDeferredTargets (now : Nat)

namespace RegisterOp

/-- A response is handled only while the register is in service. -/
def enabled (mshr : Mshr) : RegisterOp → Bool
  | .allocateTarget .. | .handleSnoop .. | .request .. => true
  | .handleFill _ | .popTarget | .promoteDeferredTargets _ => mshr.inService

/-- What an operation makes of the register. -/
def perform (mshr : Mshr) : RegisterOp → Except CacheFault Mshr
  | .allocateTarget pkt whenReady order => mshr.allocateTarget pkt whenReady order
  | .handleSnoop pkt now order => .ok (mshr.handleSnoop pkt now order).1
  | .request isForward downstreamPending =>
    .ok { mshr with isForward := isForward, downstreamPending := downstreamPending }
  | .handleFill shared => mshr.handleFill shared
  | .popTarget => .ok mshr.popTarget
  | .promoteDeferredTargets now => do
    let (mshr, _) ← mshr.promoteDeferredTargets now
    return mshr

open Outcome

/-- A register that is not in service keeps its time, and no operation defers targets in it. -/
theorem perform_ends {mshr : Mshr} {op : RegisterOp} (on : op.enabled mshr = true)
    (deferred : mshr.deferredTargets.list ≠ [] → mshr.inService = true) :
    Ends MshrQueue.Sound (op.perform mshr) fun after => after.inService = mshr.inService ∧
      (after.deferredTargets.list ≠ [] → mshr.inService = true) ∧
      (mshr.inService = false → after.readyTime = mshr.readyTime) := by
  cases op with
  | allocateTarget pkt whenReady order =>
    simp only [perform, Mshr.allocateTarget]
    split
    · exact CacheFault.noConfusion
    · split
      case isTrue defers =>
        simp only [Mshr.defers, Bool.and_eq_true] at defers
        exact ⟨rfl, fun _ => defers.1, fun _ => rfl⟩
      case isFalse => exact ⟨rfl, deferred, fun _ => rfl⟩
  | handleSnoop pkt now order =>
    -- A conversion changes no number of targets, and a deferred target is never added.
    have converted : ∀ targets : TargetList, targets.replaceUpgrades.list ≠ [] →
        targets.list ≠ [] := by
      intro targets some none
      apply some
      unfold TargetList.replaceUpgrades
      split <;> simp [none]
    simp only [perform, ends_ok, Mshr.handleSnoop]
    split
    · split
      · exact ⟨rfl, fun some => deferred (converted _ some), fun _ => rfl⟩
      · exact ⟨rfl, deferred, fun _ => rfl⟩
    · have later : ∀ exclusive : Bool, (if exclusive then mshr.deferredTargets.replaceUpgrades
          else mshr.deferredTargets).list ≠ [] → mshr.inService = true := by
        intro exclusive some
        cases exclusive with
        | true => exact deferred (converted _ some)
        | false => exact deferred some
      split
      · exact ⟨rfl, later _, fun _ => rfl⟩
      · exact ⟨rfl, later _, fun _ => rfl⟩
  | request isForward downstreamPending => exact ⟨rfl, deferred, fun _ => rfl⟩
  | handleFill shared =>
    have busy : mshr.inService = true := on
    simp only [perform, Mshr.handleFill]
    repeat' split
    · exact CacheFault.noConfusion
    · exact CacheFault.noConfusion
    · exact ⟨rfl, fun _ => busy, by simp [busy]⟩
    · exact ⟨rfl, fun _ => busy, by simp [busy]⟩
  | popTarget =>
    have busy : mshr.inService = true := on
    exact ⟨rfl, fun _ => busy, by simp [busy]⟩
  | promoteDeferredTargets now =>
    have busy : mshr.inService = true := on
    simp only [perform, Mshr.promoteDeferredTargets, ends_bind]
    repeat' split
    · exact CacheFault.noConfusion
    · exact ⟨rfl, fun _ => busy, by simp [busy]⟩
    · exact ⟨rfl, fun _ => busy, by simp [busy]⟩

end RegisterOp

/-- A queue with the times at which its entries joined those to be sent, counted from the start. -/
structure QueueSystem where
  queue : MshrQueue
  stamp : Nat → Nat
  inserted : Nat

/-- The operations of a queue, and those on its registers. -/
inductive QueueEvent
  | allocate (addr : Addr) (size : Nat) (pkt : Packet) (whenReady order : Nat)
  | markInService (i : Nat) (shared memInhibit : Bool)
  | markPending (i : Nat)
  | moveToFront (i : Nat)
  | deallocate (i : Nat)
  | forceDeallocateTarget (i now : Nat)
  | register (i : Nat) (op : RegisterOp)

namespace QueueSystem

variable {s t : QueueSystem}

/-- A queue that was never used. -/
def start (num_entries reserve : Nat) : QueueSystem :=
  { queue := .create num_entries reserve, stamp := fun _ => 0, inserted := 0 }

/-- Record that an entry has joined those to be sent. -/
def insert (i : Nat) (queue : MshrQueue) (s : QueueSystem) : QueueSystem :=
  { queue := queue, stamp := Function.update s.stamp i s.inserted, inserted := s.inserted + 1 }

/--
When an operation is called.

The cache puts an entry back or frees it after it has promoted the deferred targets.
-/
def enabled (s : QueueSystem) : QueueEvent → Bool
  | .allocate .. => true
  | .markInService i _ _ | .moveToFront i | .forceDeallocateTarget i _ => i < s.queue.numEntries
  | .markPending i | .deallocate i =>
    i < s.queue.numEntries && (s.queue.registers i).deferredTargets.list.isEmpty
  | .register i op => i ∈ s.queue.allocatedList && op.enabled (s.queue.registers i)

/-- What an operation does. -/
def perform (s : QueueSystem) : QueueEvent → Except CacheFault QueueSystem
  | .allocate addr size pkt whenReady order => do
    let (queue, i) ← s.queue.allocate addr size pkt whenReady order
    return s.insert i queue
  | .markInService i shared memInhibit => do
    let queue ← s.queue.markInService i shared memInhibit
    return { s with queue := queue }
  | .markPending i => do
    let queue ← s.queue.markPending i
    return s.insert i queue
  | .moveToFront i => do
    let queue ← s.queue.moveToFront i
    return s.insert i queue
  | .deallocate i => do
    let queue ← s.queue.deallocateOne i
    return { s with queue := queue }
  | .forceDeallocateTarget i now => do
    let (queue, _) ← s.queue.forceDeallocateTarget i now
    return { s with queue := queue }
  | .register i op => do
    let mshr ← op.perform (s.queue.registers i)
    return { s with queue := s.queue.setRegister i mshr }

/-- One operation; a failed assertion ends the run. -/
def step (s : QueueSystem) (e : QueueEvent) : Option QueueSystem :=
  if s.enabled e then (s.perform e).toOption else none

/-- Entries are sent by their time, and in the order in which they joined if it is the same. -/
def before (s : QueueSystem) (i j : Nat) : Prop :=
  s.queue.readyTime i < s.queue.readyTime j ∨
    s.queue.readyTime i = s.queue.readyTime j ∧ s.stamp i < s.stamp j

/-- The entries to be sent stand in their order. -/
structure InOrder (s : QueueSystem) : Prop where
  ordered : s.queue.readyList.Pairwise s.before
  stamped : ∀ i ∈ s.queue.readyList, s.stamp i < s.inserted

/-- The entry an operation is about. -/
def entry : QueueEvent → Option Nat
  | .allocate .. => none
  | .markInService i _ _ | .markPending i | .moveToFront i | .deallocate i
  | .forceDeallocateTarget i _ | .register i _ => some i

open Outcome

theorem InOrder.kept (order : s.InOrder) {q : MshrQueue} (kept : s.queue.Kept q) :
    InOrder { s with queue := q } := by
  refine ⟨?_, fun i member => order.stamped i (kept.sublist.subset member)⟩
  refine List.Pairwise.imp_of_mem ?_ (order.ordered.sublist kept.sublist)
  intro i j left right related
  simpa only [before, kept.times i left, kept.times j right] using related

/-- An entry that joins stands behind those of the same time. -/
theorem InOrder.joined (order : s.InOrder) {q : MshrQueue} {i : Nat}
    (joined : s.queue.Joined i q) : (s.insert i q).InOrder := by
  have other : ∀ j ∈ s.queue.readyList, j ≠ i := by
    rintro j member rfl
    exact joined.fresh member
  have stamps : ∀ j ∈ s.queue.readyList, (s.insert i q).stamp j = s.stamp j :=
    fun j member => by simp [insert, other j member]
  constructor
  · simp only [insert, joined.placed]
    refine Place.pairwise_place ?_ ?_ ?_ ?_
    · refine List.Pairwise.imp_of_mem ?_ order.ordered
      intro a b left right related
      have times := joined.times
      simp only [before, insert] at related stamps ⊢
      rw [times a left, times b right, stamps a left, stamps b right]
      exact related
    · rintro a b (earlier | ⟨same, -⟩)
      · exact Nat.le_of_lt earlier
      · exact Nat.le_of_eq same
    · intro a member early
      rcases Nat.lt_or_eq_of_le early with earlier | same
      · exact .inl earlier
      · refine .inr ⟨same, ?_⟩
        have stamped := order.stamped a member
        simpa [other a member] using stamped
    · exact fun b _ later => .inl later
  · intro j member
    simp only [insert, joined.placed, Place.place_perm.mem_iff, List.mem_cons] at member
    rcases member with rfl | old
    · simp [insert]
    · rw [stamps j old]
      exact Nat.lt_succ_of_lt (order.stamped j old)

/-- Whether an operation lets an entry go first. -/
def isMoveToFront : QueueEvent → Bool
  | .moveToFront _ => true
  | _ => false

/-- What every operation on allocated entries keeps. -/
structure Keeps (s : QueueSystem) (e : QueueEvent) (t : QueueSystem) : Prop where
  wf : t.queue.WF
  size : s.queue.SameSize t.queue
  order : isMoveToFront e = false → s.InOrder → t.InOrder

variable {e : QueueEvent}

/-- An operation on an allocated entry keeps the queue well formed and follows no stale iterator. -/
theorem perform_ends (wf : s.queue.WF) (on : s.enabled e = true)
    (valid : ∀ i, entry e = some i → i ∈ s.queue.allocatedList) :
    Ends MshrQueue.Sound (s.perform e) (s.Keeps e) := by
  cases e with
  | allocate addr size pkt whenReady order =>
    simp only [perform, ends_bind, ends_pure]
    cases free : s.queue.freeList with
    | nil =>
      simp only [MshrQueue.allocate, free]
      exact CacheFault.noConfusion
    | cons i rest =>
      obtain ⟨q, taken, ok, joined, -⟩ := wf.allocate free addr size pkt whenReady order
      rw [taken, ends_ok]
      exact ⟨ok, joined.size, fun _ order => order.joined joined⟩
  | markInService i shared memInhibit =>
    simp only [perform, ends_bind, ends_pure]
    refine (wf.markInService (valid i rfl) shared memInhibit).mono fun q done => ?_
    exact ⟨done.1, done.2.size, fun _ order => order.kept done.2⟩
  | markPending i =>
    simp only [enabled, Bool.and_eq_true, List.isEmpty_iff] at on
    simp only [perform, ends_bind, ends_pure]
    refine (wf.markPending (valid i rfl) on.2).mono fun q done => ?_
    exact ⟨done.1, done.2.size, fun _ order => order.joined done.2⟩
  | moveToFront i =>
    simp only [perform, ends_bind, ends_pure]
    refine (wf.moveToFront (valid i rfl)).mono fun q done => ?_
    exact ⟨done.1, done.2, fun never => absurd never (by simp [isMoveToFront])⟩
  | deallocate i =>
    simp only [enabled, Bool.and_eq_true, List.isEmpty_iff] at on
    simp only [perform, ends_bind, ends_pure]
    refine (wf.deallocateOne (valid i rfl) on.2).mono fun q done => ?_
    exact ⟨done.1, done.2.size, fun _ order => order.kept done.2⟩
  | forceDeallocateTarget i now =>
    simp only [perform, ends_bind]
    refine (wf.forceDeallocateTarget (valid i rfl) now).mono fun q done => ?_
    exact ⟨done.1, done.2.size, fun _ order => order.kept done.2⟩
  | register i op =>
    simp only [enabled, Bool.and_eq_true, decide_eq_true_eq] at on
    simp only [perform, ends_bind, ends_pure]
    refine (RegisterOp.perform_ends on.2 (wf.deferred i on.1)).mono ?_
    rintro mshr ⟨service, deferred, timed⟩
    have kept : s.queue.Kept (s.queue.setRegister i mshr) := by
      refine MshrQueue.kept_setRegister fun member => ?_
      exact timed ((wf.ready i).mp member).2
    refine ⟨wf.setRegister on.1 service ?_, kept.size, fun _ order => order.kept kept⟩
    rw [service]
    exact deferred

end QueueSystem

end GemDroid

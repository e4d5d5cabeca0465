import Mathlib.Data.Multiset.Filter
import GemDroid.Mem.DramMoves

/-! The DRAM controller serves each packet once, and its queues do not overflow. -/

namespace GemDroid

open Outcome

namespace DramQueues

variable {config : DramConfig} {q r : DramQueues} {k : Nat} {bursts : List Burst}

/-- What a step can do to the queues. -/
inductive Move (config : DramConfig) (q : DramQueues) : DramQueues → Prop
  | stay : Move config q q
  | answer : Move config q { q.accept with answered := q.accepted :: q.answered }
  | readFound (curTick : Nat) (helper : Option Nat) (found : List Burst) :
      Move config q { (q.takeRead config curTick helper found []).accept with
        answered := q.accepted :: q.answered }
  | readMissed (curTick pktCount : Nat) (found missed : List Burst) (some_missed : missed ≠ [])
      (fits : q.readQueue.length + q.respQueue.length + missed.length ≤ config.readBufferSize) :
      Move config q ((q.takeRead config curTick (q.nextHelper pktCount) found missed).setHelper
        (q.nextHelper pktCount) ⟨pktCount, found.length⟩).accept
  | write (writeQueue : List DramPacket) (fits : writeQueue.length ≤ config.writeBufferSize) :
      Move config q { q.accept with answered := q.accepted :: q.answered, writeQueue }
  | serveRead (dram_pkt : DramPacket) (others : List DramPacket) (readyTime : Nat)
      (perm : q.readQueue.Perm (dram_pkt :: others)) :
      Move config q { q with
        readQueue := others
        respQueue := q.respQueue ++ [{ dram_pkt with readyTime }] }
  | serveWrite (dram_pkt : DramPacket) (others : List DramPacket)
      (perm : q.writeQueue.Perm (dram_pkt :: others)) :
      Move config q { q with writeQueue := others }
  | respond (dram_pkt : DramPacket) (rest : List DramPacket)
      (first : q.respQueue = dram_pkt :: rest) :
      Move config q { q.complete dram_pkt with respQueue := rest }

/-- What matters of a burst that is under way: its packet, its bytes and its counter. -/
def label (p : DramPacket) : Nat × Burst × Option Nat :=
  (p.pkt, p.toBurst, p.burstHelper)

/-- The bursts of reads that are under way. -/
def inFlight (q : DramQueues) : Multiset (Nat × Burst × Option Nat) :=
  (q.readQueue ++ q.respQueue : List DramPacket).map label

/-- The bursts of a packet that are under way, with their counters. -/
def pending (k : Nat) (q : DramQueues) : Multiset (Burst × Option Nat) :=
  (q.inFlight.filter (·.1 = k)).map Prod.snd

/-- The bursts of a packet that were found among the writes or done by the DRAM. -/
def servedFor (k : Nat) (q : DramQueues) : Multiset Burst :=
  ((q.served : Multiset (Nat × Burst)).filter (·.1 = k)).map Prod.snd

/-- The queues keep to their sizes, and what they hold belongs to packets accepted before. -/
structure Sound (config : DramConfig) (q : DramQueues) : Prop where
  reads : q.readQueue.length + q.respQueue.length ≤ config.readBufferSize
  writes : q.writeQueue.length ≤ config.writeBufferSize
  numbered : ∀ b ∈ q.inFlight, b.1 < q.accepted ∧ (b.2.2 = none ∨ b.2.2 = some b.1)
  answered : ∀ n ∈ q.answered, n < q.accepted
  served : ∀ b ∈ q.served, b.1 < q.accepted

/--
A packet with some bursts is on its way: each burst is served or under way, and the packet is
answered once, when no burst is under way any more.
-/
structure Tracked (k : Nat) (bursts : List Burst) (q : DramQueues) : Prop where
  old : k < q.accepted
  divided : (bursts : Multiset Burst) = q.servedFor k + (q.pending k).map Prod.fst
  answered : q.answered.count k = if q.pending k = 0 then 1 else 0
  helper : ∀ b ∈ q.pending k, b.2 = if 1 < bursts.length then some k else none
  counter : q.pending k ≠ 0 → 1 < bursts.length →
    q.helpers k = ⟨bursts.length, bursts.length - (q.pending k).card⟩

variable {dram_pkt : DramPacket} {rest : List DramPacket}

theorem inFlight_serveRead {others : List DramPacket} (readyTime : Nat)
    (perm : q.readQueue.Perm (dram_pkt :: others)) :
    inFlight { q with
      readQueue := others
      respQueue := q.respQueue ++ [{ dram_pkt with readyTime }] } = q.inFlight := by
  unfold inFlight
  rw [Multiset.coe_eq_coe]
  calc ((others ++ (q.respQueue ++ [{ dram_pkt with readyTime }])).map label)
      = (others ++ q.respQueue).map label ++ [label dram_pkt] := by simp [label]
    _ |>.Perm (label dram_pkt :: (others ++ q.respQueue).map label) :=
        List.perm_append_singleton _ _
    _ |>.Perm ((q.readQueue ++ q.respQueue).map label) := by
        rw [← List.map_cons, ← List.cons_append]
        exact ((perm.symm).append_right _).map label

theorem inFlight_takeRead (config : DramConfig) (q : DramQueues) (curTick : Nat)
    (helper : Option Nat) (found missed : List Burst) :
    inFlight (q.takeRead config curTick helper found missed) =
      q.inFlight + (missed.map fun b => (q.accepted, b, helper) : List _) := by
  unfold inFlight takeRead
  rw [Multiset.coe_add, Multiset.coe_eq_coe]
  simp only [List.map_append, List.map_map, List.append_assoc]
  apply List.Perm.append_left
  exact List.perm_append_comm

theorem inFlight_respond (first : q.respQueue = dram_pkt :: rest) :
    q.inFlight = label dram_pkt ::ₘ inFlight { q with respQueue := rest } := by
  unfold inFlight
  rw [Multiset.cons_coe, Multiset.coe_eq_coe, first]
  simp only [List.map_append, List.map_cons]
  exact List.perm_middle

theorem setHelper_eq (helper : Option Nat) (counter : BurstHelper) (q : DramQueues) :
    q.setHelper helper counter = { q with
      helpers := helper.elim q.helpers fun helper =>
        Function.update q.helpers helper counter } := by
  cases helper <;> rfl

theorem complete_eq (p : DramPacket) (q : DramQueues) :
    q.complete p = { q with
      served := (p.pkt, p.toBurst) :: q.served
      helpers := p.burstHelper.elim q.helpers fun helper => Function.update q.helpers helper
        ⟨(q.helpers helper).burstCount, (q.helpers helper).burstsServiced + 1⟩
      answered :=
        if ∀ helper ∈ p.burstHelper,
            (q.helpers helper).burstsServiced + 1 = (q.helpers helper).burstCount then
          p.pkt :: q.answered
        else q.answered } := by
  unfold complete
  cases p.burstHelper with
  | none => simp [serve]
  | some helper =>
    dsimp only [serve]
    simp only [Option.mem_some_iff, forall_eq', Option.elim_some]
    split <;> rfl

theorem Sound.accepted (sound : Sound config q) (next : r.accepted = q.accepted + 1)
    (reads : r.readQueue.length + r.respQueue.length ≤ config.readBufferSize)
    (writes : r.writeQueue.length ≤ config.writeBufferSize)
    (numbered : ∀ b ∈ r.inFlight, b ∈ q.inFlight ∨
      b.1 = q.accepted ∧ (b.2.2 = none ∨ b.2.2 = some b.1))
    (answered : ∀ n ∈ r.answered, n ∈ q.answered ∨ n = q.accepted)
    (served : ∀ b ∈ r.served, b ∈ q.served ∨ b.1 = q.accepted) : Sound config r := by
  refine ⟨reads, writes, fun b member => ?_, fun n member => ?_, fun b member => ?_⟩
  · obtain old | ⟨new, own⟩ := numbered b member
    · have := sound.numbered b old
      exact ⟨by omega, this.2⟩
    · exact ⟨by omega, own⟩
  · obtain old | new := answered n member
    · have := sound.answered n old
      omega
    · omega
  · obtain old | new := served b member
    · have := sound.served b old
      omega
    · omega

/-- Every step keeps the queues within their sizes. -/
theorem Sound.move (sound : Sound config q) (move : Move config q r) : Sound config r := by
  have reads := sound.reads
  -- What is in flight is numbered anew only where a packet is accepted.
  cases move with
  | stay => exact sound
  | answer =>
    exact sound.accepted rfl reads sound.writes (fun _ => .inl)
      (fun n member => (List.mem_cons.mp member).symm) fun _ => .inl
  | readFound curTick helper found =>
    apply sound.accepted rfl
    · simpa [takeRead, accept] using reads
    · exact sound.writes
    · intro b member
      have same := inFlight_takeRead config q curTick helper found []
      rw [List.map_nil, Multiset.coe_nil, Multiset.add_zero] at same
      exact .inl (same ▸ member)
    · exact fun n member => (List.mem_cons.mp member).symm
    · intro b member
      obtain new | old := List.mem_append.mp member
      · obtain ⟨burst, -, rfl⟩ := List.mem_map.mp new
        exact .inr rfl
      · exact .inl old
  | readMissed curTick pktCount found missed some_missed fits =>
    rw [setHelper_eq]
    apply sound.accepted rfl
    · simp only [takeRead, accept, List.length_append, List.length_map]
      omega
    · exact sound.writes
    · intro b member
      have split := inFlight_takeRead config q curTick
        (q.nextHelper pktCount) found missed
      have member' : b ∈ q.inFlight +
          (missed.map fun b => (q.accepted, b, q.nextHelper pktCount) : List _) := split ▸ member
      obtain old | new := Multiset.mem_add.mp member'
      · exact .inl old
      · obtain ⟨burst, -, rfl⟩ := List.mem_map.mp (Multiset.mem_coe.mp new)
        refine .inr ⟨rfl, ?_⟩
        show q.nextHelper pktCount = none ∨ q.nextHelper pktCount = some q.accepted
        unfold nextHelper
        split
        · exact .inr rfl
        · exact .inl rfl
    · exact fun _ => .inl
    · intro b member
      obtain new | old := List.mem_append.mp member
      · obtain ⟨burst, -, rfl⟩ := List.mem_map.mp new
        exact .inr rfl
      · exact .inl old
  | write writeQueue fits =>
    exact sound.accepted rfl reads fits (fun _ => .inl)
      (fun n member => (List.mem_cons.mp member).symm) fun _ => .inl
  | serveRead dram_pkt others readyTime perm =>
    have count := perm.length_eq
    refine ⟨?_, sound.writes, ?_, sound.answered, sound.served⟩
    · simp only [List.length_append, List.length_cons, List.length_nil] at count ⊢
      omega
    · rw [inFlight_serveRead readyTime perm]
      exact sound.numbered
  | serveWrite dram_pkt others perm =>
    have count := perm.length_eq
    have writes := sound.writes
    refine ⟨reads, ?_, sound.numbered, sound.answered, sound.served⟩
    simp only [List.length_cons] at count
    dsimp only
    omega
  | respond dram_pkt rest first =>
    have taken := inFlight_respond first
    have own := (sound.numbered (label dram_pkt)
      (by rw [taken]; exact Multiset.mem_cons_self _ _)).1
    rw [complete_eq]
    refine ⟨?_, sound.writes, fun b member => ?_, fun n member => ?_, fun b member => ?_⟩
    · rw [first, List.length_cons] at reads
      dsimp only
      omega
    · exact sound.numbered b (by rw [taken]; exact Multiset.mem_cons_of_mem member)
    · dsimp only at member
      split at member
      · obtain rfl | old := List.mem_cons.mp member
        · exact own
        · exact sound.answered n old
      · exact sound.answered n member
    · obtain rfl | old := List.mem_cons.mp member
      · exact own
      · exact sound.served b old

theorem Tracked.congr (tracked : Tracked k bursts q) (old : q.accepted ≤ r.accepted)
    (served : r.servedFor k = q.servedFor k) (pending : r.pending k = q.pending k)
    (answered : r.answered.count k = q.answered.count k) (helpers : r.helpers k = q.helpers k) :
    Tracked k bursts r where
  old := Nat.lt_of_lt_of_le tracked.old old
  divided := by rw [served, pending, tracked.divided]
  answered := by rw [answered, pending, tracked.answered]
  helper := by
    rw [pending]
    exact tracked.helper
  counter := by
    rw [pending, helpers]
    exact tracked.counter

theorem servedFor_append (others : List (Nat × Burst)) (foreign : ∀ b ∈ others, b.1 ≠ k)
    (served : r.served = others ++ q.served) : r.servedFor k = q.servedFor k := by
  have none_own : (others : Multiset (Nat × Burst)).filter (·.1 = k) = 0 :=
    Multiset.filter_eq_nil.mpr foreign
  unfold servedFor
  rw [served, ← Multiset.coe_add, Multiset.filter_add, none_own, Multiset.zero_add]

theorem pending_add (others : Multiset (Nat × Burst × Option Nat))
    (foreign : ∀ b ∈ others, b.1 ≠ k) (inFlight : r.inFlight = q.inFlight + others) : r.pending k =
      q.pending k := by
  have none_own : others.filter (·.1 = k) = 0 := Multiset.filter_eq_nil.mpr foreign
  unfold pending
  rw [inFlight, Multiset.filter_add, none_own, Multiset.add_zero]

theorem Tracked.respond_other (sound : Sound config q) (tracked : Tracked k bursts q)
    (first : q.respQueue = dram_pkt :: rest) (other : dram_pkt.pkt ≠ k) :
    Tracked k bursts { q.complete dram_pkt with respQueue := rest } := by
  have taken := inFlight_respond first
  have own := (sound.numbered (label dram_pkt) (by simp [taken])).2
  rw [complete_eq]
  refine tracked.congr (Nat.le_refl _) ?_ (Eq.symm ?_) ?_ ?_
  · exact servedFor_append [(dram_pkt.pkt, dram_pkt.toBurst)] (by simpa using other) rfl
  · apply pending_add {label dram_pkt} (by simpa [label] using other)
    rw [taken, ← Multiset.singleton_add, Multiset.add_comm]
    rfl
  · dsimp only
    split
    · exact List.count_cons_of_ne other
    · rfl
  · obtain alone | shared : dram_pkt.burstHelper = none ∨
      dram_pkt.burstHelper = some dram_pkt.pkt :=
      own
    · rw [alone]
      rfl
    · rw [shared]
      exact Function.update_of_ne other.symm _ _

/-- A response to a packet is for one of its bursts that were under way. -/
theorem Tracked.respond_own (tracked : Tracked k bursts q) (first : q.respQueue = dram_pkt :: rest)
    (own : dram_pkt.pkt = k) :
    Tracked k bursts { q.complete dram_pkt with respQueue := rest } := by
  have taken : q.pending k =
      (dram_pkt.toBurst, dram_pkt.burstHelper) ::ₘ pending k { q with respQueue := rest } := by
    unfold pending
    rw [inFlight_respond first, Multiset.filter_cons_of_pos, Multiset.map_cons]
    · rfl
    · exact own
  generalize left : pending k { q with respQueue := rest } = later at taken
  have divided := tracked.divided
  have answered := tracked.answered
  have helper : dram_pkt.burstHelper = if 1 < bursts.length then some k else none :=
    tracked.helper (dram_pkt.toBurst, dram_pkt.burstHelper) (by simp [taken])
  have counter := tracked.counter (by simp [taken])
  rw [taken] at divided answered counter
  rw [if_neg (Multiset.cons_ne_zero)] at answered
  rw [Multiset.card_cons] at counter
  have total : bursts.length = (q.servedFor k).card + (later.card + 1) := by
    have := congrArg Multiset.card divided
    simpa [Nat.add_assoc] using this
  -- The packet is complete exactly when no other burst of it is under way.
  have last : (∀ helper ∈ dram_pkt.burstHelper,
      (q.helpers helper).burstsServiced + 1 = (q.helpers helper).burstCount) ↔ later = 0 := by
    rw [← Multiset.card_eq_zero]
    by_cases several : 1 < bursts.length
    · rw [if_pos several] at helper
      simp only [helper, Option.mem_some_iff, forall_eq', counter several]
      omega
    · rw [if_neg several] at helper
      simp only [helper, Option.not_mem_none, false_implies, implies_true, true_iff]
      omega
  rw [complete_eq]
  have servedNow : servedFor k { q with served := (dram_pkt.pkt, dram_pkt.toBurst) :: q.served } =
      dram_pkt.toBurst ::ₘ q.servedFor k := by
    unfold servedFor
    rw [← Multiset.cons_coe, Multiset.filter_cons_of_pos, Multiset.map_cons]
    exact own
  refine ⟨tracked.old, ?_, ?_, ?_, ?_⟩
  · refine divided.trans (Eq.trans ?_ (congrArg₂ (· + ·.map Prod.fst) servedNow left).symm)
    simp
  · show List.count k (if _ then dram_pkt.pkt :: q.answered else q.answered) =
      if pending k { q with respQueue := rest } = 0 then 1 else 0
    simp only [last, left]
    split
    · rw [own, List.count_cons_self, answered]
    · exact answered
  · intro b member
    apply tracked.helper b
    rw [taken]
    exact Multiset.mem_cons_of_mem (left ▸ member)
  · intro _ several
    rw [if_pos several] at helper
    have card : (pending k { q with respQueue := rest }).card = later.card := by rw [left]
    have updated : (dram_pkt.burstHelper.elim q.helpers fun helper =>
      Function.update q.helpers helper
        ⟨(q.helpers helper).burstCount, (q.helpers helper).burstsServiced + 1⟩) k =
        ⟨bursts.length, bursts.length - (later.card + 1) + 1⟩ := by
      rw [helper, Option.elim_some, Function.update_self, counter several]
    rw [show bursts.length - (later.card + 1) + 1 = bursts.length - later.card by omega,
      ← card] at updated
    exact updated

theorem Tracked.respond (sound : Sound config q) (tracked : Tracked k bursts q)
    (first : q.respQueue = dram_pkt :: rest) :
    Tracked k bursts { q.complete dram_pkt with respQueue := rest } := by
  by_cases own : dram_pkt.pkt = k
  · exact tracked.respond_own first own
  · exact tracked.respond_other sound first own

/-- Every step keeps track of a packet. -/
theorem Tracked.move (sound : Sound config q) (tracked : Tracked k bursts q)
    (move : Move config q r) : Tracked k bursts r := by
  have old := tracked.old
  have other : q.accepted ≠ k := by omega
  cases move with
  | stay => exact tracked
  | answer =>
    exact tracked.congr (Nat.le_succ _) rfl rfl (List.count_cons_of_ne other) rfl
  | readFound curTick helper found =>
    apply tracked.congr (Nat.le_succ _)
    · apply servedFor_append (found.reverse.map fun burst => (q.accepted, burst))
      · intro b member
        obtain ⟨burst, -, rfl⟩ := List.mem_map.mp member
        exact other
      · rfl
    · apply pending_add 0 (by simp)
      exact inFlight_takeRead config q curTick helper found []
    · exact List.count_cons_of_ne other
    · rfl
  | readMissed curTick pktCount found missed some_missed fits =>
    rw [setHelper_eq]
    apply tracked.congr (Nat.le_succ _)
    · apply servedFor_append (found.reverse.map fun burst => (q.accepted, burst))
      · intro b member
        obtain ⟨burst, -, rfl⟩ := List.mem_map.mp member
        exact other
      · rfl
    · apply pending_add _ _
        (inFlight_takeRead config q curTick (q.nextHelper pktCount) found missed)
      intro b member
      obtain ⟨burst, -, rfl⟩ := List.mem_map.mp (Multiset.mem_coe.mp member)
      exact other
    · rfl
    · show (q.nextHelper pktCount).elim q.helpers _ k = q.helpers k
      unfold nextHelper
      split
      · exact Function.update_of_ne other.symm _ _
      · rfl
  | write writeQueue fits =>
    exact tracked.congr (Nat.le_succ _) rfl rfl (List.count_cons_of_ne other) rfl
  | serveRead dram_pkt others readyTime perm =>
    refine tracked.congr (Nat.le_refl _) rfl ?_ rfl rfl
    unfold pending
    rw [inFlight_serveRead readyTime perm]
  | serveWrite dram_pkt others perm =>
    exact tracked.congr (Nat.le_refl _) rfl rfl rfl rfl
  | respond dram_pkt rest first => exact tracked.respond sound first

theorem Sound.fresh (sound : Sound config q) :
    q.pending q.accepted = 0 ∧ q.servedFor q.accepted = 0 ∧ q.answered.count q.accepted = 0 := by
  have none_pending : q.inFlight.filter (·.1 = q.accepted) = 0 :=
    Multiset.filter_eq_nil.mpr fun b member => Nat.ne_of_lt (sound.numbered b member).1
  have none_served : (q.served : Multiset (Nat × Burst)).filter (·.1 = q.accepted) = 0 :=
    Multiset.filter_eq_nil.mpr fun b member => Nat.ne_of_lt (sound.served b member)
  refine ⟨?_, ?_, ?_⟩
  · rw [pending, none_pending, Multiset.map_zero]
  · rw [servedFor, none_served, Multiset.map_zero]
  · rw [List.count_eq_zero]
    intro member
    exact Nat.lt_irrefl _ (sound.answered _ member)

end DramQueues

namespace DramCtrl

variable {config : DramConfig} {s t : DramCtrl}

/-- A write that is accepted: no cache answers it, and its bursts fit. -/
def AcceptsWrite (config : DramConfig) (pkt : Packet) (s : DramCtrl) : Prop :=
  pkt.memInhibit = false ∧ pkt.cmd.isRead = false ∧ pkt.cmd.isWrite = true ∧
    s.writeQueueFull config (config.pktCount pkt.addr.toNat pkt.size) = false

theorem Quiet.moves (quiet : Quiet s t) :
    DramQueues.Move config s.toDramQueues t.toDramQueues :=
  quiet.queues ▸ .stay

theorem Round.moves {r : DramCtrl × Bool} (round : Round config s r) :
    DramQueues.Move config s.toDramQueues r.1.toDramQueues := by
  have same := (turnBus_same s).2.1
  cases round with
  | refreshing t busy quiet still =>
    rw [← same]
    exact quiet.moves
  | stop => exact same ▸ .stay
  | work u agenda idle worked apart scheduled sends asked =>
    show DramQueues.Move config s.toDramQueues u.toDramQueues
    cases worked with
    | turn d reading done many sameAgenda => exact same ▸ .stay
    | read dram_pkt others readyTime d bus reading perm =>
      have moved : DramQueues.Move config s.toDramQueues _ :=
        .serveRead dram_pkt others readyTime perm
      rw [← same] at moved ⊢
      exact moved
    | write dram_pkt others d bus count writing perm =>
      have moved : DramQueues.Move config s.toDramQueues _ := .serveWrite dram_pkt others perm
      rw [← same] at moved ⊢
      exact moved

end DramCtrl

namespace DramSystem

variable {config : DramConfig} {s t start : DramSystem} {ops : List DramOp}

end DramSystem

end GemDroid

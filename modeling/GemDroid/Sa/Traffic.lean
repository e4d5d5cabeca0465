import GemDroid.Lib.Fifo
import GemDroid.Sa.Agent

/-! Runs of the agent lose, duplicate and reorder no memory request and no response. -/

namespace GemDroid

/-- Whether a message is for a core, or comes from one. -/
def MemMsg.isCore (m : MemMsg) : Bool :=
  m.ipType = .cpu

namespace SaSystem

/--
The traffic through the agent is lossless.

Accepted requests were taken by the memory in order or still wait, every completion belongs to a
request the memory took, and completions were passed on in order or still wait.
A response passed on to an IP type without a memory client ends there.
-/
structure Lossless (s : SaSystem) : Prop where
  coreRequests : Fifo.Conserves s.acceptedCore s.takenCore s.sa.coreMemReq
  ipRequests : Fifo.Conserves s.acceptedIp s.takenIp s.sa.ipMemReq
  completions : ((s.takenCore ++ s.takenIp).map MemMsg.response).Perm
    (s.completed ++ s.inService.map MemMsg.response)
  coreResponses :
    Fifo.Conserves (s.completed.filter MemMsg.isCore) s.deliveredCore s.sa.memCoreResp
  ipResponses :
    Fifo.Conserves (s.completed.filter fun m => !m.isCore) s.deliveredIp s.sa.memIpResp
  received : s.received = s.deliveredIp.filter fun m => takesMemResponse m.ipType
  numCoreMemReqs : s.sa.numCoreMemReqs = s.sa.coreMemReq.length + s.takenCore.length
  numIPMemReqs : s.sa.numIPMemReqs = s.sa.ipMemReq.length + s.takenIp.length
  numMemCoreResponse :
    s.sa.numMemCoreResponse = s.sa.memCoreResp.length + s.deliveredCore.length
  numMemIPResponse : s.sa.numMemIPResponse = s.sa.memIpResp.length + s.deliveredIp.length

/-- The requests on their way to the memory. -/
structure RequestSide (s : SaSystem) : Prop where
  core : Fifo.Conserves s.acceptedCore s.takenCore s.sa.coreMemReq
  ip : Fifo.Conserves s.acceptedIp s.takenIp s.sa.ipMemReq
  coreCounted : s.sa.numCoreMemReqs = s.acceptedCore.length
  ipCounted : s.sa.numIPMemReqs = s.acceptedIp.length

/-- The responses on their way from the memory. -/
structure ResponseSide (s : SaSystem) : Prop where
  core : Fifo.Conserves (s.completed.filter MemMsg.isCore) s.deliveredCore s.sa.memCoreResp
  ip : Fifo.Conserves (s.completed.filter fun m => !m.isCore) s.deliveredIp s.sa.memIpResp
  coreCounted : s.sa.numMemCoreResponse = (s.completed.filter MemMsg.isCore).length
  ipCounted : s.sa.numMemIPResponse = (s.completed.filter fun m => !m.isCore).length
  received : s.received = s.deliveredIp.filter fun m => takesMemResponse m.ipType

/-- Every request the memory took is completed or in service. -/
def MemorySide (s : SaSystem) : Prop :=
  ((s.takenCore ++ s.takenIp).map MemMsg.response).Perm
    (s.completed ++ s.inService.map MemMsg.response)

/-- The three sides of the agent's traffic. -/
structure TrafficInv (s : SaSystem) : Prop where
  requests : s.RequestSide
  responses : s.ResponseSide
  memory : s.MemorySide

variable {s t : SaSystem} {m : MemMsg} {canAccept : Bool}

theorem TrafficInv.lossless (inv : s.TrafficInv) : s.Lossless where
  coreRequests := inv.requests.core
  ipRequests := inv.requests.ip
  completions := inv.memory
  coreResponses := inv.responses.core
  ipResponses := inv.responses.ip
  received := inv.responses.received
  numCoreMemReqs := inv.requests.coreCounted.trans inv.requests.core.length
  numIPMemReqs := inv.requests.ipCounted.trans inv.requests.ip.length
  numMemCoreResponse := inv.responses.coreCounted.trans inv.responses.core.length
  numMemIPResponse := inv.responses.ipCounted.trans inv.responses.ip.length

theorem complete_cases (completed : s.complete m = some t) :
    (m.ipType = .cpu ∧ t = { s with
      sa := { s.sa with
        memCoreResp := s.sa.memCoreResp ++ [m.response]
        numMemCoreResponse := s.sa.numMemCoreResponse + 1 }
      completed := s.completed ++ [m.response] }) ∨
    (m.ipType ≠ .cpu ∧ t = { s with
      sa := { s.sa with
        memIpResp := s.sa.memIpResp ++ [m.response]
        numMemIPResponse := s.sa.numMemIPResponse + 1 }
      completed := s.completed ++ [m.response] }) := by
  -- The queue is chosen by the type of the sender; a wrong address ends the run.
  simp only [complete, Sa.memResponse, Option.map_eq_some_iff] at completed
  obtain ⟨sa, answered, rfl⟩ := completed
  by_cases core : m.ipType = .cpu
  · rw [if_pos core] at answered
    split at answered
    · cases answered
      exact .inl ⟨core, rfl⟩
    · simp at answered
  · rw [if_neg core] at answered
    split at answered
    · cases answered
      exact .inr ⟨core, rfl⟩
    · simp at answered

theorem ResponseSide.complete (side : s.ResponseSide)
    (completed : s.complete m = some t) : t.ResponseSide := by
  -- The response joins one side, and the filter of the other side drops it.
  rcases complete_cases completed with ⟨core, rfl⟩ | ⟨other, rfl⟩
  · have isCore : m.response.isCore = true := by simp [MemMsg.isCore, MemMsg.response, core]
    have coreCounted := side.coreCounted
    refine { side with core := ?_, ip := ?_, coreCounted := ?_, ipCounted := ?_ }
    · simpa [List.filter_append, isCore] using side.core.push m.response
    · simpa [List.filter_append, isCore] using side.ip
    · simpa [List.filter_append, isCore] using coreCounted
    · simpa [List.filter_append, isCore] using side.ipCounted
  · have isCore : m.response.isCore = false := by simp [MemMsg.isCore, MemMsg.response, other]
    have ipCounted := side.ipCounted
    refine { side with core := ?_, ip := ?_, coreCounted := ?_, ipCounted := ?_ }
    · simpa [List.filter_append, isCore] using side.core
    · simpa [List.filter_append, isCore] using side.ip.push m.response
    · simpa [List.filter_append, isCore] using side.coreCounted
    · simpa [List.filter_append, isCore] using ipCounted

theorem complete_frame (completed : s.complete m = some t) :
    t.sa.coreMemReq = s.sa.coreMemReq ∧ t.sa.ipMemReq = s.sa.ipMemReq ∧
      t.completed = s.completed ++ [m.response] ∧ t.inService = s.inService ∧
      t.takenCore = s.takenCore ∧ t.takenIp = s.takenIp ∧
      (s.RequestSide → t.RequestSide) := by
  -- Both queues of `complete_cases` lie on the response side.
  rcases complete_cases completed with ⟨-, rfl⟩ | ⟨-, rfl⟩ <;>
    exact ⟨rfl, rfl, rfl, rfl, rfl, rfl, fun side => { side with }⟩

theorem enqueueMemReq_taken (taken : s.enqueueMemReq canAccept m = some (t, true)) :
    s.complete m = some t ∨ t = { s with inService := s.inService ++ [m] } := by
  -- The cases: address zero, perfect memory, and memory that may be full.
  unfold enqueueMemReq at taken
  split at taken
  · simp at taken
  · split at taken
    · exact .inl (by simpa using taken)
    · split at taken
      · exact .inr (by simpa using taken.symm)
      · simp at taken

theorem enqueueMemReq_refused
    (refused : s.enqueueMemReq canAccept m = some (t, false)) : t = s := by
  -- Only full memory refuses; the other branches fail or take the request.
  unfold enqueueMemReq at refused
  split at refused
  · simp at refused
  · split at refused
    · simp at refused
    · split at refused
      · simp at refused
      · simpa using refused.symm

theorem enqueueMemReq_side (taken : s.enqueueMemReq canAccept m = some (t, true))
    (inv : s.TrafficInv) :
    t.sa.coreMemReq = s.sa.coreMemReq ∧ t.sa.ipMemReq = s.sa.ipMemReq ∧ t.RequestSide ∧
      t.ResponseSide ∧ ((m :: (t.takenCore ++ t.takenIp)).map MemMsg.response).Perm
        (t.completed ++ t.inService.map MemMsg.response) := by
  -- The request is not yet among the taken ones, so it stands in front of them.
  -- The caller moves it there when it pops its queue.
  have served := inv.memory
  rcases enqueueMemReq_taken taken with completed | rfl
  · obtain ⟨core, ip, all, inService, takenCore, takenIp, requests⟩ := complete_frame completed
    refine ⟨core, ip, requests inv.requests, inv.responses.complete completed, ?_⟩
    rw [all, inService, takenCore, takenIp, List.map_cons, List.append_assoc]
    exact (served.cons _).trans List.perm_middle.symm
  · refine ⟨rfl, rfl, { inv.requests with }, { inv.responses with }, ?_⟩
    simp only [List.map_cons, List.map_append, List.map_nil, ← List.append_assoc]
    refine List.Perm.trans ?_ (List.perm_append_singleton _ _).symm
    simpa only [MemorySide, List.map_append] using served.cons m.response

/-- Offering one request to the memory loses nothing. -/
theorem TrafficInv.sendMemoryRequests (inv : s.TrafficInv)
    (sent : s.sendMemoryRequests canAccept = some t) : t.TrafficInv := by
  -- Requests of cores go first; one of an IP is offered only when none waits.
  unfold SaSystem.sendMemoryRequests at sent
  cases core : s.sa.coreMemReq with
  | cons request rest =>
    simp only [core, Option.map_eq_some_iff] at sent
    obtain ⟨⟨u, taken⟩, offered, rfl⟩ := sent
    cases taken with
    | false => exact enqueueMemReq_refused offered ▸ inv
    | true =>
      obtain ⟨waiting, -, requests, responses, memory⟩ := enqueueMemReq_side offered inv
      refine ⟨{ requests with core := ?_ }, { responses with }, ?_⟩
      · have before := requests.core
        rw [waiting, core] at before
        simpa [waiting, core] using before.pop
      · refine List.Perm.trans ?_ memory
        simp only [if_true, List.append_assoc]
        exact (List.perm_middle).map _
  | nil =>
    cases ip : s.sa.ipMemReq with
    | cons request rest =>
      simp only [core, ip, Option.map_eq_some_iff] at sent
      obtain ⟨⟨u, taken⟩, offered, rfl⟩ := sent
      cases taken with
      | false => exact enqueueMemReq_refused offered ▸ inv
      | true =>
        obtain ⟨-, waiting, requests, responses, memory⟩ := enqueueMemReq_side offered inv
        refine ⟨{ requests with ip := ?_ }, { responses with }, ?_⟩
        · have before := requests.ip
          rw [waiting, ip] at before
          simpa [waiting, ip] using before.pop
        · refine List.Perm.trans ?_ memory
          simp only [if_true, ← List.append_assoc]
          exact (List.perm_append_singleton _ _).map _
    | nil =>
      simp only [core, ip, Option.some.injEq] at sent
      exact sent ▸ inv

/-- Passing one response on loses nothing. -/
theorem TrafficInv.sendMemoryResponses (inv : s.TrafficInv)
    (sent : s.sendMemoryResponses = some t) : t.TrafficInv := by
  -- Responses to cores go first as well; requests and memory are untouched.
  have responses := inv.responses
  unfold SaSystem.sendMemoryResponses at sent
  cases core : s.sa.memCoreResp with
  | cons response rest =>
    simp only [core, Option.some.injEq] at sent
    subst sent
    have before := responses.core
    rw [core] at before
    exact ⟨{ inv.requests with }, { responses with core := before.pop }, inv.memory⟩
  | nil =>
    cases ip : s.sa.memIpResp with
    | cons response rest =>
      simp only [core, ip] at sent
      split at sent
      · simp at sent
      · simp only [Option.some.injEq] at sent
        subst sent
        have before := responses.ip
        rw [ip] at before
        refine ⟨{ inv.requests with },
          { responses with core := ?_, ip := before.pop, received := ?_ }, inv.memory⟩
        · rw [← core]
          exact responses.core
        · simp only [List.filter_append, ← responses.received, List.filter_singleton]
          split <;> simp_all
    | nil =>
      simp only [core, ip, Option.some.injEq] at sent
      exact sent ▸ inv

theorem TrafficInv.sendIPRequests (inv : s.TrafficInv) (callTaken : IpType → Bool) :
    TrafficInv { s with sa := s.sa.sendIPRequests callTaken } := by
  -- Calls have queues of their own.
  unfold Sa.sendIPRequests
  split
  · exact ⟨{ inv.requests with }, { inv.responses with }, inv.memory⟩
  · exact inv

theorem TrafficInv.tick {canAccept : Nat → Bool} {callTaken : IpType → Bool} (inv : s.TrafficInv)
    (ticked : s.tick canAccept callTaken = some t) : t.TrafficInv := by
  -- The three parts of a cycle in turn; the loops need only their step.
  simp only [SaSystem.tick, Option.bind_eq_bind, Option.bind_eq_some_iff] at ticked
  obtain ⟨offered, requests, ticked⟩ := ticked
  have sent : offered.TrafficInv := Machine.run_preserves
    (fun _ _ _ inv sent => inv.sendMemoryRequests sent) inv requests
  have called := sent.sendIPRequests callTaken
  split at ticked
  · simp only [Option.some.injEq] at ticked
    subst ticked
    exact ⟨{ called.requests with }, { called.responses with }, called.memory⟩
  · exact Machine.run_preserves (fun _ _ _ inv sent => inv.sendMemoryResponses sent) called ticked

theorem TrafficInv.enqueueCoreMemRequest {id : Int} {addr : Addr} {isRead : Bool}
    (inv : s.TrafficInv)
    (taken : s.step (.enqueueCoreMemRequest id addr isRead) = some t) : t.TrafficInv := by
  -- A refused request changes no record; an accepted one is pushed on both sides.
  have requests := inv.requests
  have counted := requests.coreCounted
  simp only [SaSystem.step, Option.some.injEq] at taken
  subst taken
  unfold Sa.enqueueCoreMemRequest
  split
  · exact ⟨{ requests with }, { inv.responses with }, inv.memory⟩
  · split
    · exact ⟨{ requests with }, { inv.responses with }, inv.memory⟩
    · refine ⟨{ requests with core := requests.core.push _, coreCounted := ?_ },
        { inv.responses with }, inv.memory⟩
      simp [counted]

theorem TrafficInv.enqueueIPMemRequest {ipType : IpType} {ipId coreId : Int} {addr : Addr}
    {isRead : Bool} (inv : s.TrafficInv)
    (taken : s.step (.enqueueIPMemRequest ipType ipId coreId addr isRead) = some t) :
    t.TrafficInv := by
  -- As for the cores, once the sender is known to be an IP.
  have requests := inv.requests
  have counted := requests.ipCounted
  simp only [SaSystem.step] at taken
  split at taken
  · simp at taken
  · simp only [Option.some.injEq] at taken
    subst taken
    unfold Sa.enqueueIPMemRequest
    split
    · exact ⟨{ requests with }, { inv.responses with }, inv.memory⟩
    · split
      · exact ⟨{ requests with }, { inv.responses with }, inv.memory⟩
      · refine ⟨{ requests with ip := requests.ip.push _, ipCounted := ?_ },
          { inv.responses with }, inv.memory⟩
        simp [counted]

theorem TrafficInv.memComplete {index : Nat} (inv : s.TrafficInv)
    (taken : s.step (.memComplete index) = some t) : t.TrafficInv := by
  simp only [SaSystem.step, Option.bind_eq_bind, Option.bind_eq_some_iff] at taken
  obtain ⟨m, found, completed⟩ := taken
  obtain ⟨bound, rfl⟩ := List.getElem?_eq_some_iff.mp found
  obtain ⟨-, -, all, inService, takenCore, takenIp, requests⟩ := complete_frame completed
  have before : ResponseSide { s with inService := s.inService.eraseIdx index } :=
    { inv.responses with }
  refine ⟨requests { inv.requests with }, before.complete completed, ?_⟩
  -- The completed request moves from the requests in service to the completions.
  have served := inv.memory
  have split := (List.getElem_cons_eraseIdx_perm bound).map MemMsg.response
  unfold MemorySide
  rw [all, inService, takenCore, takenIp]
  refine served.trans ?_
  rw [List.append_assoc]
  exact (split.symm).append_left _

theorem TrafficInv.step {e : SaEvent} (inv : s.TrafficInv)
    (taken : s.step e = some t) : t.TrafficInv := by
  -- One lemma for each event.
  cases e with
  | enqueueCoreMemRequest id addr isRead => exact inv.enqueueCoreMemRequest taken
  | enqueueIPMemRequest ipType ipId coreId addr isRead => exact inv.enqueueIPMemRequest taken
  | enqueueIPIPRequest call =>
    simp only [SaSystem.step, Option.some.injEq] at taken
    subst taken
    unfold Sa.enqueueIPIPRequest
    split
    · exact inv
    · exact ⟨{ inv.requests with }, { inv.responses with }, inv.memory⟩
  | tick canAccept callTaken => exact inv.tick taken
  | memComplete index => exact inv.memComplete taken

theorem trafficInv_start (perfectMemory : Bool) (numChannels : Nat) (cyclesToSkip : Int) :
    TrafficInv (start perfectMemory numChannels cyclesToSkip) :=
  ⟨⟨rfl, rfl, rfl, rfl⟩, ⟨rfl, rfl, rfl, rfl, rfl⟩, List.Perm.refl _⟩

/--
In every run of the agent, requests reach the memory once and in order, and completions are
passed on once and in order.
-/
theorem traffic_lossless (perfectMemory : Bool) (numChannels : Nat) (cyclesToSkip : Int)
    (es : List SaEvent) (s : SaSystem)
    (ran : Machine.run step (start perfectMemory numChannels cyclesToSkip) es = some s) :
    s.Lossless :=
  (Machine.run_preserves (fun _ _ _ inv taken => TrafficInv.step inv taken)
    (trafficInv_start perfectMemory numChannels cyclesToSkip) ran).lossless

/-- A cycle in which the memory and the IPs take what they are offered. -/
def busyTick : SaEvent := .tick (fun _ => true) (fun _ => true)

/-- A read by a core and one by the display controller both come back. -/
theorem core_and_display_lossless :
    ∃ es s, Machine.run step (start false 1 0) es = some s ∧ s.deliveredCore.length = 1 ∧
      s.received.length = 1 ∧ s.Lossless := by
  -- The memory completes the requests in the other order than it took them.
  let es : List SaEvent :=
    [.enqueueCoreMemRequest 0 64 true,
      .enqueueIPMemRequest .dc 0 0 (BitVec.ofInt 64 IpType.dc.addrStart) true,
      busyTick, busyTick, .memComplete 1, .memComplete 0, busyTick, busyTick, busyTick, busyTick]
  have short : (Machine.run step (start false 1 0) es).any (fun s =>
      s.deliveredCore.length = 1 ∧ s.received.length = 1) = true := by
    decide +kernel
  obtain ⟨s, ran, checked⟩ := (Option.any_eq_true _ _).mp short
  obtain ⟨core, ip⟩ := of_decide_eq_true checked
  exact ⟨es, s, ran, core, ip, traffic_lossless false 1 0 es s ran⟩

/-- The response to a read of the GPU leaves the agent, but no IP receives it. -/
theorem gpu_response_discarded :
    ∃ es s, Machine.run step (start false 1 0) es = some s ∧ s.sa.memIpResp = [] ∧
      ∃ m ∈ s.completed, m.ipType = .gpu ∧ m ∉ s.received := by
  -- `memIPResponse` has no branch for the GPU, so the response ends there.
  let es : List SaEvent :=
    [.enqueueIPMemRequest .gpu 0 0 (BitVec.ofInt 64 (IpType.gpu.addrStart + 64)) true,
      busyTick, .memComplete 0, busyTick]
  have short : (Machine.run step (start false 1 0) es).any (fun s =>
      s.sa.memIpResp = [] ∧ ∃ m ∈ s.completed, m.ipType = .gpu ∧ m ∉ s.received) = true := by
    decide +kernel
  obtain ⟨s, ran, checked⟩ := (Option.any_eq_true _ _).mp short
  exact ⟨es, s, ran, of_decide_eq_true checked⟩

end SaSystem

end GemDroid

import GemDroid.Sa.Agent

/-! The limits of the agent's request buffer, and the requests that break them. -/

namespace GemDroid

theorem le_maxIpMemReqs_iff (n : Nat) : (n : Rat) ≤ maxIpMemReqs ↔ n ≤ 230 := by
  -- The limit is 230.4, so both sides are scaled by ten and compared as integers.
  have scaled : (n : Rat) ≤ maxIpMemReqs ↔ ((n * 10 : Nat) : Rat) ≤ (2304 : Nat) := by
    unfold maxIpMemReqs
    push_cast
    constructor <;> intro <;> linarith
  rw [scaled, Nat.cast_le]
  omega

namespace SaSystem

/-- The request buffer is within its limits. -/
def Within (s : SaSystem) : Prop :=
  s.sa.coreMemReq.length + s.sa.ipMemReq.length ≤ maxMemReqs ∧
    (s.sa.ipMemReq.length : Rat) ≤ maxIpMemReqs

/--
A request comes while the buffer has a place for it.

A request that the agent refuses because too many responses wait needs no place.
-/
def Fits (s : SaSystem) : SaEvent → Prop
  | .enqueueCoreMemRequest _ _ _ =>
    s.sa.respLimitReached = true ∨ s.sa.coreMemReq.length + s.sa.ipMemReq.length < maxMemReqs
  | .enqueueIPMemRequest _ _ _ _ _ =>
    s.sa.respLimitReached = true ∨
      (s.sa.coreMemReq.length + s.sa.ipMemReq.length < maxMemReqs ∧
        ((s.sa.ipMemReq.length + 1 : Nat) : Rat) ≤ maxIpMemReqs)
  | .enqueueIPIPRequest _ | .tick _ _ | .memComplete _ => True

/-- Neither request queue is longer than before. -/
structure NoLonger (s t : SaSystem) : Prop where
  core : t.sa.coreMemReq.length ≤ s.sa.coreMemReq.length
  ip : t.sa.ipMemReq.length ≤ s.sa.ipMemReq.length

variable {s t : SaSystem}

theorem NoLonger.within (shorter : NoLonger s t) (within : s.Within) :
    t.Within := by
  -- Both limits are monotone in the lengths.
  obtain ⟨total, share⟩ := within
  rw [le_maxIpMemReqs_iff] at share
  have core := shorter.core
  have ip := shorter.ip
  exact ⟨by omega, (le_maxIpMemReqs_iff _).mpr (by omega)⟩

theorem complete_noLonger {m : MemMsg} (completed : s.complete m = some t) :
    NoLonger s t := by
  -- A completion appends to one of the response queues, or its address ends the run.
  simp only [complete, Sa.memResponse, Option.map_eq_some_iff] at completed
  obtain ⟨sa, answered, rfl⟩ := completed
  split at answered <;> split at answered <;> cases answered <;>
    exact ⟨Nat.le_refl _, Nat.le_refl _⟩

theorem enqueueMemReq_noLonger {m : MemMsg} {canAccept taken : Bool}
    (offered : s.enqueueMemReq canAccept m = some (t, taken)) : NoLonger s t := by
  -- Only perfect memory touches the agent at once, and it only completes.
  unfold enqueueMemReq at offered
  split at offered
  · simp at offered
  · split at offered
    · simp only [Option.map_eq_some_iff, Prod.mk.injEq] at offered
      obtain ⟨u, completed, rfl, -⟩ := offered
      exact complete_noLonger completed
    · split at offered <;> cases offered <;> exact ⟨Nat.le_refl _, Nat.le_refl _⟩

theorem sendMemoryRequests_noLonger {canAccept : Bool}
    (sent : s.sendMemoryRequests canAccept = some t) : NoLonger s t := by
  -- At most one head is popped: a core request first, else one of an IP.
  unfold sendMemoryRequests at sent
  split at sent
  · simp only [Option.map_eq_some_iff] at sent
    obtain ⟨⟨u, taken⟩, offered, rfl⟩ := sent
    obtain ⟨core, ip⟩ := enqueueMemReq_noLonger offered
    cases taken with
    | false => exact ⟨core, ip⟩
    | true => exact ⟨Nat.le_trans (by simp) core, ip⟩
  · split at sent
    · simp only [Option.map_eq_some_iff] at sent
      obtain ⟨⟨u, taken⟩, offered, rfl⟩ := sent
      obtain ⟨core, ip⟩ := enqueueMemReq_noLonger offered
      cases taken with
      | false => exact ⟨core, ip⟩
      | true => exact ⟨core, Nat.le_trans (by simp) ip⟩
    · cases sent
      exact ⟨Nat.le_refl _, Nat.le_refl _⟩

theorem sendMemoryResponses_noLonger (sent : s.sendMemoryResponses = some t) : NoLonger s t := by
  -- The branches pop a response, end the run, or have nothing to do.
  unfold sendMemoryResponses at sent
  split at sent
  · cases sent
    exact ⟨Nat.le_refl _, Nat.le_refl _⟩
  · split at sent
    · split at sent
      · simp at sent
      · cases sent
        exact ⟨Nat.le_refl _, Nat.le_refl _⟩
    · cases sent
      exact ⟨Nat.le_refl _, Nat.le_refl _⟩

theorem Within.tick {canAccept : Nat → Bool} {callTaken : IpType → Bool} (within : s.Within)
    (ticked : s.tick canAccept callTaken = some t) : t.Within := by
  -- The three parts of a cycle in turn; the loops need only their step.
  simp only [SaSystem.tick, Option.bind_eq_bind, Option.bind_eq_some_iff] at ticked
  obtain ⟨offered, requests, ticked⟩ := ticked
  have sent : offered.Within := Machine.run_preserves
    (fun _ _ _ within sent => (sendMemoryRequests_noLonger sent).within within) within requests
  have called : Within { offered with sa := offered.sa.sendIPRequests callTaken } := by
    unfold Sa.sendIPRequests
    split <;> exact sent
  split at ticked
  · cases ticked
    exact called
  · exact Machine.run_preserves
      (fun _ _ _ within sent => (sendMemoryResponses_noLonger sent).within within) called ticked

/-- Within the limits, a step stays there exactly when its request fits. -/
theorem within_iff_fits {e : SaEvent} (within : s.Within)
    (taken : s.step e = some t) : t.Within ↔ s.Fits e := by
  obtain ⟨total, share⟩ := within
  have few := (le_maxIpMemReqs_iff _).mp share
  cases e with
  | enqueueCoreMemRequest id addr isRead =>
    -- The first test never refuses within the limits, so only the responses can.
    have room : ¬ maxMemReqs < s.sa.coreMemReq.length + s.sa.ipMemReq.length := by omega
    simp only [step, Sa.enqueueCoreMemRequest, room, if_false, Option.some.injEq] at taken
    subst taken
    cases full : s.sa.respLimitReached with
    | true => simpa [Fits, Within, full] using ⟨total, share⟩
    | false =>
      simp only [Within, Fits, full, Bool.false_eq_true, if_false, false_or, share, and_true,
        List.length_append, List.length_singleton]
      omega
  | enqueueIPMemRequest ipType ipId coreId addr isRead =>
    have room : ¬ maxIpMemReqs < (s.sa.ipMemReq.length : Rat) := not_lt.mpr share
    simp only [step, Sa.enqueueIPMemRequest, room, if_false] at taken
    split at taken
    · simp at taken
    · simp only [Option.some.injEq] at taken
      subst taken
      cases full : s.sa.respLimitReached with
      | true => simpa [Fits, Within, full] using ⟨total, share⟩
      | false =>
        simp only [Within, Fits, full, Bool.false_eq_true, if_false, false_or,
          List.length_append, List.length_singleton]
        refine and_congr_left' ?_
        omega
  | enqueueIPIPRequest call =>
    simp only [step, Option.some.injEq] at taken
    subst taken
    refine iff_of_true ?_ trivial
    unfold Sa.enqueueIPIPRequest
    split <;> exact ⟨total, share⟩
  | tick canAccept callTaken => exact iff_of_true (Within.tick ⟨total, share⟩ taken) trivial
  | memComplete index =>
    simp only [step, Option.bind_eq_bind, Option.bind_eq_some_iff] at taken
    obtain ⟨m, -, completed⟩ := taken
    exact iff_of_true ((complete_noLonger completed).within ⟨total, share⟩) trivial

/-- A run keeps the request buffer within its limits exactly when every request fits. -/
theorem buffer_within_iff (perfectMemory : Bool) (numChannels : Nat) (cyclesToSkip : Int)
    (es : List SaEvent) :
    Machine.Always step Within (start perfectMemory numChannels cyclesToSkip) es ↔
      Machine.Meets step Fits (start perfectMemory numChannels cyclesToSkip) es := by
  -- Every step meets the equivalence, and the empty buffer is within the limits.
  refine Machine.always_iff_meets (fun _ _ _ within taken => within_iff_fits within taken) ?_
  exact ⟨Nat.zero_le _, (le_maxIpMemReqs_iff _).mpr (Nat.zero_le _)⟩

/-- The agent accepts 257 requests of a core while the memory takes none. -/
theorem core_requests_overflow :
    ∃ es s, Machine.run step (start false 1 0) es = some s ∧ ¬ s.Within := by
  -- The memory never ticks, so the accepted requests pile up.
  -- The refusal compares with `>`, hence the request after the limit is still accepted.
  let es : List SaEvent := List.replicate 257 (.enqueueCoreMemRequest 0 64 true)
  have short : (Machine.run step (start false 1 0) es).any (fun s =>
      s.sa.coreMemReq.length = 257) = true := by
    decide +kernel
  obtain ⟨s, ran, checked⟩ := (Option.any_eq_true _ _).mp short
  have many : s.sa.coreMemReq.length = 257 := of_decide_eq_true checked
  refine ⟨es, s, ran, fun within => ?_⟩
  have total := within.1
  simp only [maxMemReqs] at total
  omega

end SaSystem

end GemDroid

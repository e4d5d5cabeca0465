import GemDroid.Lib.Outcome
import GemDroid.Lib.Run
import GemDroid.Mem.DramBursts
import GemDroid.Sim.Agenda

/-! What the steps of the DRAM controller do to its queues. -/

namespace GemDroid

open Outcome

/-- The events for the commands to the banks. -/
def DramEvent.IsCommand (event : DramEvent) : Prop :=
  event = .activate ∨ event = .precharge

/-- A change to the scheduled events that concerns some of them only. -/
abbrev DramEvent.Apart (touched : DramEvent → Prop) (a b : Agenda DramEvent) : Prop :=
  Agenda.Apart DramEvent.priority touched a b

/-- The events of the rest of the system. -/
def DramEvent.IsExternal (event : DramEvent) : Prop :=
  ∃ id priority, event = .external id priority

theorem DramEvent.priority_eq {event : DramEvent} (own : ¬event.IsExternal) :
    event.priority = 0 := by
  cases event with
  | external id priority => exact absurd ⟨id, priority, rfl⟩ own
  | _ => rfl

/-- The request loop, if it is scheduled now, comes before the other events of the controller. -/
def DramEvent.LoopFirst (a b : Agenda DramEvent) : Prop :=
  .nextReq ∉ a.events → .nextReq ∈ b.events → ∀ x : DramEvent, ¬x.IsExternal → x ≠ .nextReq →
    (x ∈ a.events → a.curTick ≤ a.when x) → b.Leads .nextReq x

theorem DramEvent.LoopFirst.insert (a : Agenda DramEvent) :
    DramEvent.LoopFirst a (a.insert DramEvent.priority .nextReq a.curTick) := by
  intro _ _ x own other future
  apply Agenda.leads_insert other
  intro scheduled
  have later := future scheduled
  simp only [Due.Before, Agenda.due, DramEvent.priority_eq own]
  show ¬(a.when x < a.curTick ∨ a.when x = a.curTick ∧ (0 : Int) < 0)
  omega

theorem DramEvent.LoopFirst.of_external {a b c : Agenda DramEvent}
    (apart : DramEvent.Apart DramEvent.IsExternal a b) (first : DramEvent.LoopFirst b c) :
    DramEvent.LoopFirst a c := by
  have notExternal : ¬DramEvent.nextReq.IsExternal := by simp [DramEvent.IsExternal]
  intro unscheduled scheduled x own other future
  apply first (fun was => unscheduled ((apart.scheduled _ notExternal).mp was)) scheduled x
    own other
  intro listed
  rw [apart.curTick, apart.when x own]
  exact future ((apart.scheduled x own).mp listed)

namespace DramDevice

variable {config : DramConfig} {d : DramDevice}

/-- What a command to a bank leaves as it is: the queue of all other events. -/
def SameLoops (d t : DramDevice) : Prop :=
  DramEvent.Apart DramEvent.IsCommand d.agenda t.agenda

theorem SameLoops.trans {e f : DramDevice} (first : SameLoops d e) (second : SameLoops e f) :
    SameLoops d f :=
  Agenda.Apart.trans first second

end DramDevice

namespace DramQueues

variable {config : DramConfig} {q : DramQueues} {bursts : List Burst}

/-- The counter that the bursts of the next packet share, if there are several. -/
def nextHelper (pktCount : Nat) (q : DramQueues) : Option Nat :=
  if 1 < pktCount then some q.accepted else none

/-- Some bursts of the next packet are found among the writes, and the others are queued. -/
def takeRead (config : DramConfig) (curTick : Nat) (helper : Option Nat)
    (found missed : List Burst) (q : DramQueues) : DramQueues :=
  { q with
    readQueue := q.readQueue ++ missed.map (config.dramPacket curTick q.accepted true helper)
    served := found.reverse.map (fun burst => (q.accepted, burst)) ++ q.served }

/-- A burst of a read is done, which may complete its packet. -/
def complete (dram_pkt : DramPacket) (q : DramQueues) : DramQueues :=
  let q := q.serve dram_pkt
  match dram_pkt.burstHelper with
  | none => { q with answered := dram_pkt.pkt :: q.answered }
  | some helper =>
    let counter := q.helpers helper
    let counter := { counter with burstsServiced := counter.burstsServiced + 1 }
    let q := { q with helpers := Function.update q.helpers helper counter }
    if counter.burstsServiced = counter.burstCount then
      { q with answered := dram_pkt.pkt :: q.answered }
    else q

end DramQueues

end GemDroid

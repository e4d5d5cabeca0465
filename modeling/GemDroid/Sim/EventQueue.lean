import Mathlib.Data.List.Sort
import GemDroid.Lib.Chain

/-! The event queue as lists of bins, and the list of events that it stands for. -/

namespace GemDroid

open Function (update)

/-- When an event is due: its tick, and its priority among the events of that tick. -/
structure Due where
  tick : Nat
  priority : Int
  deriving DecidableEq, Repr

namespace Due

/-- The order of two events (`operator<`). -/
def Before (l r : Due) : Prop :=
  l.tick < r.tick ∨ l.tick = r.tick ∧ l.priority < r.priority

/-- The order of two events, or none (`operator<=`). -/
def NotAfter (l r : Due) : Prop :=
  l.tick < r.tick ∨ l.tick = r.tick ∧ l.priority ≤ r.priority

instance (l r : Due) : Decidable (l.Before r) :=
  inferInstanceAs (Decidable (_ ∨ _))

instance (l r : Due) : Decidable (l.NotAfter r) :=
  inferInstanceAs (Decidable (_ ∨ _))

end Due

/-- An operation on an event or a queue that is in no state for it. -/
inductive Misuse
  /-- An event is to be scheduled before the current tick (`assert(when >= getCurTick())`). -/
  | inPast
  /-- An event is scheduled twice (`assert(!event->scheduled())`). -/
  | alreadyScheduled
  /-- An event that is not scheduled is taken out (`assert(event->scheduled())`). -/
  | notScheduled
  /-- There is no event to be serviced. -/
  | emptyQueue
  deriving DecidableEq, Repr

/-- What ends a run of an event queue. -/
inductive EventFault
  | misuse (fault : Misuse)
  /-- An event is not where it should be (`panic("event not found!")`). -/
  | notFound
  /-- A list has more events than the steps allowed for a walk through it. -/
  | outOfFuel
  deriving DecidableEq, Repr

/-- What the queue hands on: an event, its tick, and whether its action is handled. -/
structure Served (E : Type) where
  event : E
  tick : Nat
  handled : Bool
  deriving DecidableEq, Repr

/-- The operations on a queue; the handlers of its events use them as well. -/
inductive EventOp (E : Type)
  | schedule (event : E) (when : Nat)
  | deschedule (event : E)
  | reschedule (event : E) (when : Nat) (always : Bool)
  /-- Keep an event from being handled (`squash`). -/
  | squash (event : E)
  | serviceOne
  deriving DecidableEq, Repr

/--
The event queue, with the fields of all events (`EventQueue`, `Event`).

Events of the same tick and priority form a bin: a stack along `nextInBin`, whose top leads to
the next bin along `nextBin`.
-/
structure EventQueue (E : Type) where
  head : Option E
  curTick : Nat
  when : E → Nat
  nextBin : E → Option E
  nextInBin : E → Option E
  scheduled : E → Bool
  squashed : E → Bool

namespace EventQueue

variable {E : Type} [DecidableEq E] (priority : E → Int)

/-- A queue without events, at tick zero. -/
def start : EventQueue E :=
  { head := none, curTick := 0, when := fun _ => 0, nextBin := fun _ => none
    nextInBin := fun _ => none, scheduled := fun _ => false, squashed := fun _ => false }

/-- When an event is due, as it stands in its fields. -/
def due (event : E) (q : EventQueue E) : Due :=
  { tick := q.when event, priority := priority event }

/-- Make an event the top of the bin at a place, or a bin of its own before it (`insertBefore`). -/
def insertBefore (event : E) (curr : Option E) (q : EventQueue E) : EventQueue E :=
  match curr with
  | none =>
    { q with
      nextBin := update q.nextBin event none
      nextInBin := update q.nextInBin event none }
  | some curr =>
    if (q.due priority event).Before (q.due priority curr) then
      { q with
        nextBin := update q.nextBin event (some curr)
        nextInBin := update q.nextInBin event none }
    else
      -- The pointer of the old top to the next bin is stale from now on.
      { q with
        nextBin := update q.nextBin event (q.nextBin curr)
        nextInBin := update q.nextInBin event (some curr) }

/-- Go through the bins that come before an event (the loop of `insert` and `remove`). -/
def walkBins (event : E) (q : EventQueue E) :
    Nat → E → Option E → Except EventFault (E × Option E)
  | _, prev, none => .ok (prev, none)
  | fuel, prev, some curr =>
    if (q.due priority curr).Before (q.due priority event) then
      match fuel with
      | 0 => .error .outOfFuel
      | fuel + 1 => walkBins event q fuel curr (q.nextBin curr)
    else .ok (prev, some curr)

/-- Put an event in its place (`insert`). -/
def insert (fuel : Nat) (event : E) (q : EventQueue E) : Except EventFault (EventQueue E) :=
  match q.head with
  | none => .ok { insertBefore priority event none q with head := some event }
  | some head =>
    if (q.due priority event).NotAfter (q.due priority head) then
      .ok { insertBefore priority event (some head) q with head := some event }
    else do
      let (prev, curr) ← walkBins priority event q fuel head (q.nextBin head)
      let q := insertBefore priority event curr q
      return { q with nextBin := update q.nextBin prev (some event) }

/-- Go down a bin to the event above another one (the loop of `removeItem`). -/
def walkInBin (event : E) (q : EventQueue E) : Nat → E → Option E → Except EventFault E
  | _, _, none => .error .notFound
  | fuel, curr, some next =>
    if event = next then .ok curr
    else
      match fuel with
      | 0 => .error .outOfFuel
      | fuel + 1 => walkInBin event q fuel next (q.nextInBin next)

/-- Take an event out of its bin; says which bin comes in its place (`removeItem`). -/
def removeItem (fuel : Nat) (event top : E) (q : EventQueue E) :
    Except EventFault (Option E × EventQueue E) :=
  if event = top then
    match q.nextInBin top with
    | none => .ok (q.nextBin top, q)
    | some next =>
      .ok (some next, { q with nextBin := update q.nextBin next (q.nextBin top) })
  else do
    let curr ← walkInBin event q fuel top (q.nextInBin top)
    return (some top,
      { q with nextInBin := update q.nextInBin curr (q.nextInBin event) })

/-- Take an event out (`remove`). -/
def remove (fuel : Nat) (event : E) (q : EventQueue E) : Except EventFault (EventQueue E) :=
  match q.head with
  | none => .error .notFound
  | some head =>
    if q.due priority head = q.due priority event then do
      let (head, q) ← removeItem fuel event head q
      return { q with head }
    else do
      let (prev, curr) ← walkBins priority event q fuel head (q.nextBin head)
      match curr with
      | none => .error .notFound
      | some curr =>
        if q.due priority curr ≠ q.due priority event then .error .notFound
        else do
          let (next, q) ← removeItem fuel event curr q
          return { q with nextBin := update q.nextBin prev next }

/-- Schedule an event (`schedule`). -/
def schedule (fuel : Nat) (event : E) (when : Nat) (q : EventQueue E) :
    Except EventFault (EventQueue E) :=
  if when < q.curTick then .error (.misuse .inPast)
  else if q.scheduled event then .error (.misuse .alreadyScheduled)
  else do
    let q ← insert priority fuel event { q with when := update q.when event when }
    return { q with scheduled := update q.scheduled event true }

/-- Take back an event (`deschedule`). -/
def deschedule (fuel : Nat) (event : E) (q : EventQueue E) :
    Except EventFault (EventQueue E) :=
  if !q.scheduled event then .error (.misuse .notScheduled)
  else do
    let q ← remove priority fuel event q
    return { q with
      squashed := update q.squashed event false
      scheduled := update q.scheduled event false }

/-- Take an event out if it is scheduled (in `reschedule`). -/
def removeScheduled (fuel : Nat) (event : E) (q : EventQueue E) :
    Except EventFault (EventQueue E) :=
  if q.scheduled event then remove priority fuel event q else .ok q

/-- Schedule an event for another tick (`reschedule`). -/
def reschedule (fuel : Nat) (event : E) (when : Nat) (always : Bool) (q : EventQueue E) :
    Except EventFault (EventQueue E) :=
  if when < q.curTick then .error (.misuse .inPast)
  else if !(always || q.scheduled event) then .error (.misuse .notScheduled)
  else do
    let q ← removeScheduled priority fuel event q
    let q ← insert priority fuel event { q with when := update q.when event when }
    return { q with
      squashed := update q.squashed event false
      scheduled := update q.scheduled event true }

/-- Take the first event off the queue and handle it, unless it is squashed (`serviceOne`). -/
def serviceOne (q : EventQueue E) : Except EventFault (EventQueue E × Served E) :=
  match q.head with
  | none => .error (.misuse .emptyQueue)
  | some event =>
    let q := { q with scheduled := update q.scheduled event false }
    let q :=
      match q.nextInBin event with
      | some next =>
        { q with
          nextBin := update q.nextBin next (q.nextBin event)
          head := some next }
      | none => { q with head := q.nextBin event }
    let served := { event, tick := q.when event, handled := !q.squashed event }
    -- The operations of its handler come after it.
    if !q.squashed event then .ok ({ q with curTick := q.when event }, served)
    else .ok ({ q with squashed := update q.squashed event false }, served)

/-- Take one operation, with what it hands on. -/
def step (fuel : Nat) (q : EventQueue E) :
    EventOp E → Except EventFault (EventQueue E × List (Served E))
  | .schedule event when => do return (← schedule priority fuel event when q, [])
  | .deschedule event => do return (← deschedule priority fuel event q, [])
  | .reschedule event when always => do
    return (← reschedule priority fuel event when always q, [])
  | .squash event => .ok ({ q with squashed := update q.squashed event true }, [])
  | .serviceOne => do
    let (q, served) ← serviceOne q
    return (q, [served])

/-- Take operations one after the other, and collect what they hand on. -/
def run (fuel : Nat) : EventQueue E → List (EventOp E) →
    Except EventFault (EventQueue E × List (Served E))
  | q, [] => .ok (q, [])
  | q, op :: ops => do
    let (q, served) ← step priority fuel q op
    let (q, later) ← run fuel q ops
    return (q, served ++ later)

end EventQueue

/-- The scheduled events in the order in which they are serviced. -/
structure Agenda (E : Type) where
  events : List E
  curTick : Nat
  when : E → Nat
  squashed : E → Bool

namespace Agenda

variable {E : Type} [DecidableEq E] (priority : E → Int)

/-- No event is scheduled, at tick zero. -/
def start : Agenda E :=
  { events := [], curTick := 0, when := fun _ => 0, squashed := fun _ => false }

def due (event : E) (a : Agenda E) : Due :=
  { tick := a.when event, priority := priority event }

/-- Put an event before the first one that is not due before it. -/
def insert (event : E) (when : Nat) (a : Agenda E) : Agenda E :=
  let a := { a with when := update a.when event when }
  { a with events :=
      a.events.orderedInsert (fun l r => (a.due priority l).NotAfter (a.due priority r)) event }

/-- Take an event out. -/
def remove (event : E) (a : Agenda E) : Agenda E :=
  { a with events := a.events.erase event }

/-- An event will be handled (again). -/
def unsquash (event : E) (a : Agenda E) : Agenda E :=
  { a with squashed := update a.squashed event false }

/-- Take one operation, with what it hands on. -/
def step (a : Agenda E) : EventOp E → Except Misuse (Agenda E × List (Served E))
  | .schedule event when =>
    if when < a.curTick then .error .inPast
    else if event ∈ a.events then .error .alreadyScheduled
    else .ok (a.insert priority event when, [])
  | .deschedule event =>
    if event ∉ a.events then .error .notScheduled
    else .ok ((a.remove event).unsquash event, [])
  | .reschedule event when always =>
    if when < a.curTick then .error .inPast
    else if !(always || decide (event ∈ a.events)) then .error .notScheduled
    else .ok (((a.remove event).insert priority event when).unsquash event, [])
  | .squash event => .ok ({ a with squashed := update a.squashed event true }, [])
  | .serviceOne =>
    match a.events with
    | [] => .error .emptyQueue
    | event :: events =>
      let served := { event, tick := a.when event, handled := !a.squashed event }
      if !a.squashed event then .ok ({ a with events, curTick := a.when event }, [served])
      else .ok (({ a with events }).unsquash event, [served])

/-- Take operations one after the other, and collect what they hand on. -/
def run : Agenda E → List (EventOp E) → Except Misuse (Agenda E × List (Served E))
  | a, [] => .ok (a, [])
  | a, op :: ops => do
    let (a, served) ← step priority a op
    let (a, later) ← run a ops
    return (a, served ++ later)

end Agenda

end GemDroid

import Mathlib.Data.List.Nodup
import Mathlib.Logic.Function.Basic

/-! Clock domains, the domains derived from them, and the objects that they clock. -/

namespace GemDroid

/-- Division that rounds up (`divCeil`). -/
def divCeil (a b : Nat) : Nat :=
  (a + b - 1) / b

/-- What an object keeps of its clock: an edge, as a tick, and the number of this edge. -/
structure ClockedObject where
  tick : Nat
  cycle : Nat
  deriving DecidableEq, Repr

namespace ClockedObject

/-- Align cycle and tick to the next clock edge if not already done (`update`). -/
def update (curTick clockPeriod : Nat) (o : ClockedObject) : ClockedObject :=
  -- The tick may already have passed the current one.
  if curTick ≤ o.tick then o
  else
    -- A single period is the common case.
    let o := { tick := o.tick + clockPeriod, cycle := o.cycle + 1 : ClockedObject }
    if curTick ≤ o.tick then o
    else
      let elapsedCycles := divCeil (curTick - o.tick) clockPeriod
      { tick := o.tick + elapsedCycles * clockPeriod, cycle := o.cycle + elapsedCycles }

/-- The tick of the edge some cycles after the one that an object is aligned to (`clockEdge`). -/
def clockEdge (clockPeriod cycles : Nat) (o : ClockedObject) : Nat :=
  o.tick + clockPeriod * cycles

end ClockedObject

/--
The domains derived from a domain, with their dividers, their members and what is derived from them.

They stand in the order in which they were added (`children`).
-/
inductive DerivedClockDomains
  | nil
  | cons (domain clockDivider : Nat) (members : List Nat) (children others : DerivedClockDomains)

/-- A domain whose period is set from outside. -/
structure SrcClockDomain where
  domain : Nat
  members : List Nat
  children : DerivedClockDomains

/-- The period of every domain (`_clockPeriod`), and what every object keeps of its clock. -/
structure Clocks where
  period : Nat → Nat
  object : Nat → ClockedObject

namespace Clocks

/-- Align an object to the period of its domain (`updateClockPeriod`). -/
def update (clockDomain : Nat → Nat) (curTick o : Nat) (s : Clocks) : Clocks :=
  { s with object :=
      Function.update s.object o ((s.object o).update curTick (s.period (clockDomain o))) }

/-- Align all members of a domain to the current tick. -/
def updateMembers (clockDomain : Nat → Nat) (curTick : Nat) (members : List Nat) (s : Clocks) :
    Clocks :=
  members.foldl (fun s m => s.update clockDomain curTick m) s

/-- Change the period of a domain. -/
def setPeriod (domain clockPeriod : Nat) (s : Clocks) : Clocks :=
  { s with period := Function.update s.period domain clockPeriod }

end Clocks

/--
Recalculate the periods of derived domains from that of their parent (`updateClockPeriod`).

The members are aligned before the period of their domain changes.
-/
def DerivedClockDomains.updateClockPeriods (clockDomain : Nat → Nat) (curTick parent : Nat) :
    DerivedClockDomains → Clocks → Clocks
  | .nil, s => s
  | .cons domain clockDivider members children others, s =>
    let s := s.updateMembers clockDomain curTick members
    let s := s.setPeriod domain (s.period parent * clockDivider)
    -- Changes go down the tree before the next domain has its turn.
    others.updateClockPeriods clockDomain curTick parent
      (children.updateClockPeriods clockDomain curTick domain s)

/-- Set the period of a source and of all that is derived from it; zero is fatal (`clockPeriod`). -/
def SrcClockDomain.clockPeriod (clockDomain : Nat → Nat) (curTick clock_period : Nat)
    (src : SrcClockDomain) (s : Clocks) : Option Clocks :=
  if clock_period = 0 then none
  else
    let s := s.updateMembers clockDomain curTick src.members
    let s := s.setPeriod src.domain clock_period
    some (src.children.updateClockPeriods clockDomain curTick src.domain s)

namespace DerivedClockDomains

/-- The domains of the tree. -/
def domains : DerivedClockDomains → List Nat
  | .nil => []
  | .cons domain _ _ children others => domain :: (children.domains ++ others.domains)

/-- The domains of the tree, each with the product of the dividers above it and its own. -/
def ratios : DerivedClockDomains → List (Nat × Nat)
  | .nil => []
  | .cons domain clockDivider _ children others =>
    (domain, clockDivider) ::
      (children.ratios.map (fun (ratio : Nat × Nat) => (ratio.1, clockDivider * ratio.2)) ++
        others.ratios)

/-- The members of each domain are its objects, each registered once, and no divider is zero. -/
def Registered (clockDomain : Nat → Nat) : DerivedClockDomains → Prop
  | .nil => True
  | .cons domain clockDivider members children others =>
    (0 < clockDivider ∧ members.Nodup ∧ ∀ o, o ∈ members ↔ clockDomain o = domain) ∧
      children.Registered clockDomain ∧ others.Registered clockDomain

end DerivedClockDomains

namespace SrcClockDomain

/-- The source and the domains derived from it. -/
def domains (src : SrcClockDomain) : List Nat :=
  src.domain :: src.children.domains

/-- The source and the domains derived from it, each with the product of the dividers to it. -/
def ratios (src : SrcClockDomain) : List (Nat × Nat) :=
  (src.domain, 1) :: src.children.ratios

/-- The members of each domain are its objects. -/
structure Registered (clockDomain : Nat → Nat) (src : SrcClockDomain) : Prop where
  nodup : src.members.Nodup
  members : ∀ o, o ∈ src.members ↔ clockDomain o = src.domain
  children : src.children.Registered clockDomain

end SrcClockDomain

/-- The clock domains of a system and the domain of each object. -/
structure ClockNet where
  sources : List SrcClockDomain
  clockDomain : Nat → Nat
  distinct : (sources.flatMap SrcClockDomain.domains).Nodup
  registered : ∀ src ∈ sources, src.Registered clockDomain

/-- What happens to clocks: a period is set, or an object is asked for its edge or its cycle. -/
inductive ClockEvent
  | clockPeriod (src : SrcClockDomain) (clock_period : Nat)
  | clockEdge (o : Nat)
  | curCycle (o : Nat)

namespace ClockNet

/-- The clocks before any domain has a period. -/
def unset : Clocks where
  period _ := 0
  object _ := ⟨0, 0⟩

/-- The clocks after all domains are constructed, with the period that each source starts with. -/
def construct (start : Nat → Nat) (net : ClockNet) : Option Clocks :=
  net.sources.foldlM (fun s src => src.clockPeriod net.clockDomain 0 (start src.domain) s) unset

/-- Carry out an event, with what it answers. -/
def perform (curTick : Nat) (event : ClockEvent) (s : Clocks) (net : ClockNet) :
    Option (Clocks × Option Nat) :=
  match event with
  | .clockPeriod src clock_period => do
    let s ← src.clockPeriod net.clockDomain curTick clock_period s
    some (s, none)
  | .clockEdge o =>
    let s := s.update net.clockDomain curTick o
    -- By default the current cycle is meant, and not one some cycles ahead.
    some (s, some ((s.object o).clockEdge (s.period (net.clockDomain o)) 0))
  | .curCycle o =>
    let s := s.update net.clockDomain curTick o
    some (s, some (s.object o).cycle)

/-- Carry out events at their ticks, with what each answers. -/
def run (net : ClockNet) : List (Nat × ClockEvent) → Clocks → Option (List (Option Nat))
  | [], _ => some []
  | (curTick, event) :: rest, s => do
    let (s, answer) ← net.perform curTick event s
    let answers ← net.run rest s
    some (answer :: answers)

/-- Construct the domains and carry out events. -/
def simulate (start : Nat → Nat) (script : List (Nat × ClockEvent)) (net : ClockNet) :
    Option (List (Option Nat)) := do
  let s ← net.construct start
  net.run script s

end ClockNet

end GemDroid

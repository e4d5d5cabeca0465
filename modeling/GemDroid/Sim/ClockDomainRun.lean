import Mathlib.Data.List.Pairwise
import GemDroid.Lib.Edges
import GemDroid.Sim.ClockDomain

/-! The edges of clocked objects over runs in which their clocks change. -/

namespace GemDroid

open Edges

namespace ClockedObject

theorem update_eq {curTick clockPeriod : Nat} (some_period : 0 < clockPeriod) (o : ClockedObject) :
    o.update curTick clockPeriod =
      if curTick ≤ o.tick then o
      else
        let n := divCeil (curTick - o.tick) clockPeriod
        { tick := o.tick + n * clockPeriod, cycle := o.cycle + n } := by
  unfold update
  split
  · rfl
  · simp only [divCeil]
    split
    · -- One period is what the division gives, too.
      have one : (curTick - o.tick + clockPeriod - 1) / clockPeriod = 1 := by
        rw [Nat.div_eq_iff some_period]
        omega
      simp [one]
    · have more : (curTick - o.tick + clockPeriod - 1) / clockPeriod =
          (curTick - (o.tick + clockPeriod) + clockPeriod - 1) / clockPeriod + 1 := by
        rw [← Nat.add_div_right _ some_period]
        congr 1
        omega
      rw [more, Nat.succ_mul]
      simp only [mk.injEq]
      omega

/-- An object keeps an edge, not earlier than any change and with only past edges before it. -/
structure Aligned (period : Nat → Nat) (made : List (Nat × Nat)) (now : Nat) (o : ClockedObject) :
    Prop where
  edge : edge period o.cycle = o.tick
  earlier : ∀ j < o.cycle, Edges.edge period j < now
  made : ∀ change ∈ made, change.1 ≤ o.tick

variable {period : Nat → Nat} {made : List (Nat × Nat)} {now curTick p : Nat} {o : ClockedObject}

theorem Aligned.later (aligned : o.Aligned period made now) (le : now ≤ curTick) :
    o.Aligned period made curTick :=
  ⟨aligned.edge, fun j less => (aligned.earlier j less).trans_le le, aligned.made⟩

theorem Aligned.update (aligned : o.Aligned period made now) (le : now ≤ curTick)
    (positive : ∀ t, 0 < period t) (some_period : 0 < p)
    (same : ∀ t, o.tick ≤ t → t < curTick → period t = p) :
    (o.update curTick p).Aligned period made curTick ∧
      First period curTick (o.update curTick p).cycle := by
  rw [update_eq some_period]
  split
  · rename_i ahead
    have kept := aligned.later le
    exact ⟨kept, aligned.edge.symm ▸ ahead, kept.earlier⟩
  · rename_i behind
    -- The periods that are gone over all start before the tick, where the period is still this one.
    have before : Edges.edge period o.cycle < curTick := aligned.edge ▸ Nat.not_le.mp behind
    obtain ⟨first, sum⟩ := First.of_behind (n := divCeil (curTick - o.tick) p) positive some_period
      before (aligned.edge ▸ same) (by rw [aligned.edge]; rfl)
    refine ⟨⟨?_, first.earlier, fun change member => ?_⟩, first⟩
    · rw [sum, aligned.edge]
    · exact (aligned.made change member).trans (Nat.le_add_right _ _)

end ClockedObject

namespace Clocks

variable {clockDomain : Nat → Nat} {curTick : Nat}

theorem updateMembers_object {members : List Nat} (nodup : members.Nodup) (s : Clocks) (o : Nat) :
    (s.updateMembers clockDomain curTick members).object o =
      if o ∈ members then (s.object o).update curTick (s.period (clockDomain o))
      else s.object o := by
  induction members generalizing s with
  | nil => simp [updateMembers]
  | cons m members ih =>
    obtain ⟨apart, rest⟩ := List.nodup_cons.mp nodup
    rw [updateMembers, List.foldl_cons]
    refine (ih rest (s.update clockDomain curTick m)).trans ?_
    by_cases same : o = m
    · subst same
      simp [apart, update]
    · simp [same, update]

@[simp] theorem updateMembers_period (members : List Nat) (s : Clocks) :
    (s.updateMembers clockDomain curTick members).period = s.period := by
  induction members generalizing s with
  | nil => rfl
  | cons m members ih => exact ih (s.update clockDomain curTick m)

end Clocks

namespace DerivedClockDomains

variable {clockDomain : Nat → Nat} {curTick : Nat}

theorem ratios_domains (ds : DerivedClockDomains) : ds.ratios.map Prod.fst = ds.domains := by
  induction ds with
  | nil => rfl
  | cons domain clockDivider members children others children_ih others_ih =>
    rw [domains, ← children_ih, ← others_ih]
    simp [ratios, Function.comp_def]

theorem mem_domains {ds : DerivedClockDomains} {d r : Nat} (member : (d, r) ∈ ds.ratios) :
    d ∈ ds.domains := by
  rw [← ratios_domains]
  exact List.mem_map_of_mem member

theorem Registered.ratio_pos {ds : DerivedClockDomains} (registered : ds.Registered clockDomain)
    {d r : Nat} (member : (d, r) ∈ ds.ratios) : 0 < r := by
  induction ds generalizing r with
  | nil => simp [ratios] at member
  | cons domain clockDivider members children others children_ih others_ih =>
    obtain ⟨⟨positive, -⟩, below, beside⟩ := registered
    simp only [ratios, List.mem_cons, List.mem_append, List.mem_map, Prod.mk.injEq,
      Prod.exists] at member
    obtain ⟨rfl, rfl⟩ | ⟨d', r', child, rfl, rfl⟩ | other := member
    · exact positive
    · exact Nat.mul_pos positive (children_ih below child)
    · exact others_ih beside other

/-- What the change of a parent does to the domains below it and their members. -/
structure Propagated (clockDomain : Nat → Nat) (curTick parent : Nat) (ds : DerivedClockDomains)
    (s s' : Clocks) : Prop where
  below : ∀ d r, (d, r) ∈ ds.ratios → s'.period d = s.period parent * r
  apart : ∀ d, d ∉ ds.domains → s'.period d = s.period d
  object : ∀ o, s'.object o =
    if clockDomain o ∈ ds.domains then (s.object o).update curTick (s.period (clockDomain o))
    else s.object o

/-- Every domain of the tree gets its multiple, and its members are aligned with the old period. -/
theorem updateClockPeriods_propagated {ds : DerivedClockDomains} {parent : Nat}
    (registered : ds.Registered clockDomain) (distinct : (parent :: ds.domains).Nodup)
    (s : Clocks) :
    ds.Propagated clockDomain curTick parent s
      (ds.updateClockPeriods clockDomain curTick parent s) := by
  -- The induction is on the tree: a domain, what is derived from it, and the domains beside it.
  induction ds generalizing parent s with
  | nil => exact ⟨by simp [ratios], fun _ _ => rfl, by simp [domains, updateClockPeriods]⟩
  | cons domain clockDivider members children others children_ih others_ih =>
    obtain ⟨⟨-, nodup, mine⟩, below, beside⟩ := registered
    simp only [domains, List.nodup_cons, List.mem_cons, List.mem_append, not_or,
      List.nodup_append] at distinct
    obtain ⟨⟨parent_domain, parent_children, parent_others⟩, ⟨domain_children, domain_others⟩,
      children_nodup, others_nodup, disjoint⟩ := distinct
    let aligned := s.updateMembers clockDomain curTick members
    let changed := aligned.setPeriod domain (aligned.period parent * clockDivider)
    let inner := children.updateClockPeriods clockDomain curTick domain changed
    have down := children_ih below (List.nodup_cons.mpr ⟨domain_children, children_nodup⟩) changed
    have across := others_ih beside (List.nodup_cons.mpr ⟨parent_others, others_nodup⟩) inner
    have changed_domain : changed.period domain = s.period parent * clockDivider := by
      simp [changed, aligned, Clocks.setPeriod]
    have changed_other (d : Nat) (other : d ≠ domain) : changed.period d = s.period d := by
      simp [changed, aligned, Clocks.setPeriod, other]
    have inner_parent : inner.period parent = s.period parent :=
      (down.apart parent parent_children).trans (changed_other parent parent_domain)
    have changed_object (o : Nat) : changed.object o =
        if clockDomain o = domain then (s.object o).update curTick (s.period (clockDomain o))
        else s.object o := by
      refine (Clocks.updateMembers_object nodup s o).trans ?_
      simp only [mine]
    refine ⟨fun d r member => ?_, fun d outside => ?_, fun o => ?_⟩
    · simp only [ratios, List.mem_cons, List.mem_append, List.mem_map, Prod.mk.injEq,
        Prod.exists] at member
      obtain ⟨rfl, rfl⟩ | ⟨d', r', child, rfl, rfl⟩ | other := member
      · exact (across.apart d domain_others).trans ((down.apart d domain_children).trans
          changed_domain)
      · have child_domain := mem_domains child
        have not_other : d' ∉ others.domains := fun other => disjoint d' child_domain d' other rfl
        refine (across.apart d' not_other).trans ((down.below d' r' child).trans ?_)
        rw [changed_domain, Nat.mul_assoc]
      · exact (across.below d r other).trans (by rw [inner_parent])
    · simp only [domains, List.mem_cons, List.mem_append, not_or] at outside
      obtain ⟨not_domain, not_child, not_other⟩ := outside
      exact (across.apart d not_other).trans ((down.apart d not_child).trans
        (changed_other d not_domain))
    · simp only [domains, List.mem_cons, List.mem_append]
      refine (across.object o).trans ?_
      -- The object is a member of the domain, of one below it, of one beside it, or of none.
      by_cases here : clockDomain o = domain
      · have unchanged := (down.object o).trans (if_neg (here ▸ domain_children))
        rw [if_neg (here ▸ domain_others), unchanged, changed_object, if_pos here,
          if_pos (.inl here)]
      · have same := changed_other (clockDomain o) here
        by_cases child : clockDomain o ∈ children.domains
        · have not_other : clockDomain o ∉ others.domains := fun other =>
            disjoint _ child _ other rfl
          rw [if_neg not_other, if_pos (.inr (.inl child))]
          exact (down.object o).trans (by rw [if_pos child, changed_object, if_neg here, same])
        · have unchanged := (down.object o).trans (if_neg child)
          have period := (down.apart _ child).trans same
          rw [unchanged, changed_object, if_neg here, period]
          simp [here, child]

end DerivedClockDomains

namespace SrcClockDomain

variable {clockDomain : Nat → Nat} {curTick p : Nat} {src : SrcClockDomain}

theorem ratios_domains (src : SrcClockDomain) : src.ratios.map Prod.fst = src.domains := by
  simp [ratios, domains, DerivedClockDomains.ratios_domains]

theorem mem_domains {d r : Nat} (member : (d, r) ∈ src.ratios) : d ∈ src.domains := by
  rw [← ratios_domains]
  exact List.mem_map_of_mem member

theorem Registered.ratio_pos (registered : src.Registered clockDomain) {d r : Nat}
    (member : (d, r) ∈ src.ratios) : 0 < r := by
  obtain same | below := List.mem_cons.mp member
  · have one := congrArg Prod.snd same
    simp only at one
    omega
  · exact registered.children.ratio_pos below

/-- What the change of a source does to its domains and their members. -/
structure Changed (clockDomain : Nat → Nat) (curTick p : Nat) (src : SrcClockDomain)
    (s s' : Clocks) : Prop where
  below : ∀ d r, (d, r) ∈ src.ratios → s'.period d = p * r
  apart : ∀ d, d ∉ src.domains → s'.period d = s.period d
  object : ∀ o, s'.object o =
    if clockDomain o ∈ src.domains then (s.object o).update curTick (s.period (clockDomain o))
    else s.object o

/-- A source that is set passes its period on to all domains derived from it. -/
theorem clockPeriod_changed (registered : src.Registered clockDomain)
    (distinct : src.domains.Nodup) (some_period : p ≠ 0) (curTick : Nat) (s : Clocks) :
    ∃ s', src.clockPeriod clockDomain curTick p s = some s' ∧
      src.Changed clockDomain curTick p s s' := by
  refine ⟨_, if_neg some_period, ?_⟩
  let aligned := s.updateMembers clockDomain curTick src.members
  have down : src.children.Propagated clockDomain curTick src.domain
      (aligned.setPeriod src.domain p) _ :=
    DerivedClockDomains.updateClockPeriods_propagated registered.children distinct _
  obtain ⟨top_apart, -⟩ := List.nodup_cons.mp distinct
  have top : (aligned.setPeriod src.domain p).period src.domain = p := by
    simp [Clocks.setPeriod]
  have other (d : Nat) (apart : d ≠ src.domain) :
      (aligned.setPeriod src.domain p).period d = s.period d := by
    simp [aligned, Clocks.setPeriod, apart]
  have object (o : Nat) : (aligned.setPeriod src.domain p).object o =
      if clockDomain o = src.domain then (s.object o).update curTick (s.period (clockDomain o))
      else s.object o := by
    refine (Clocks.updateMembers_object registered.nodup s o).trans ?_
    simp only [registered.members]
  refine ⟨fun d r member => ?_, fun d outside => ?_, fun o => ?_⟩
  · obtain same | below := List.mem_cons.mp member
    · obtain ⟨rfl, rfl⟩ := Prod.mk.inj same
      rw [Nat.mul_one]
      exact (down.apart _ top_apart).trans top
    · exact (down.below d r below).trans (by rw [top])
  · obtain ⟨not_top, not_below⟩ := not_or.mp (mt List.mem_cons.mpr outside)
    exact (down.apart d not_below).trans (other d not_top)
  · refine (down.object o).trans ?_
    simp only [domains, List.mem_cons]
    by_cases here : clockDomain o = src.domain
    · rw [if_neg (here ▸ top_apart), object, if_pos here, if_pos (.inl here)]
    · rw [object, if_neg here, other _ here]
      simp [here]

end SrcClockDomain

namespace ClockEvent

/-- The period that an event sets a source to. -/
def change (src : SrcClockDomain) : ClockEvent → Option Nat
  | .clockPeriod src' clock_period => if src'.domain = src.domain then some clock_period else none
  | .clockEdge _ | .curCycle _ => none

end ClockEvent

/-- The changes of a source in a script, with their ticks. -/
def changesOf (src : SrcClockDomain) (script : List (Nat × ClockEvent)) : List (Nat × Nat) :=
  script.filterMap fun event => (event.2.change src).map fun p => (event.1, p)

theorem mem_changesOf {src : SrcClockDomain} {script : List (Nat × ClockEvent)}
    {change : Nat × Nat} (member : change ∈ changesOf src script) :
    ∃ event ∈ script, event.1 = change.1 ∧ event.2.change src = some change.2 := by
  obtain ⟨event, there, given⟩ := List.mem_filterMap.mp member
  obtain ⟨p, set, rfl⟩ := Option.map_eq_some_iff.mp given
  exact ⟨event, there, rfl, set⟩

theorem changesOf_append (src : SrcClockDomain) (past rest : List (Nat × ClockEvent)) :
    changesOf src (past ++ rest) = changesOf src past ++ changesOf src rest :=
  List.filterMap_append

namespace ClockNet

/-- An object belongs to a domain whose period is some multiple of that of a source. -/
structure Drives (net : ClockNet) (src : SrcClockDomain) (ratio o : Nat) : Prop where
  source : src ∈ net.sources
  ratio : (net.clockDomain o, ratio) ∈ src.ratios

/-- The period of a domain after all changes of a script at or before a tick. -/
def periodAt (start : Nat → Nat) (script : List (Nat × ClockEvent)) (src : SrcClockDomain)
    (ratio tick : Nat) : Nat :=
  valueAt (start src.domain) (changesOf src script) tick * ratio

/-- An event is about a source or an object of the system, and no period is zero. -/
def Allows (net : ClockNet) : ClockEvent → Prop
  | .clockPeriod src clock_period => src ∈ net.sources ∧ clock_period ≠ 0
  | .clockEdge o | .curCycle o => ∃ src ratio, net.Drives src ratio o

/-- A query answers with the first edge at or after its tick, or with the number of this edge. -/
def Answers (net : ClockNet) (start : Nat → Nat) (script : List (Nat × ClockEvent))
    (event : Nat × ClockEvent) (answer : Option Nat) : Prop :=
  match event.2 with
  | .clockPeriod _ _ => answer = none
  | .clockEdge o => ∃ src ratio k, net.Drives src ratio o ∧
      First (periodAt start script src ratio) event.1 k ∧
      answer = some (edge (periodAt start script src ratio) k)
  | .curCycle o => ∃ src ratio k, net.Drives src ratio o ∧
      First (periodAt start script src ratio) event.1 k ∧ answer = some k

section Net

variable {net : ClockNet}

theorem source_unique {src src' : SrcClockDomain} (member : src ∈ net.sources)
    (member' : src' ∈ net.sources) {d : Nat} (here : d ∈ src.domains) (there : d ∈ src'.domains) :
    src = src' := by
  by_contra different
  obtain ⟨-, disjoint⟩ := List.nodup_flatMap.mp net.distinct
  have symm : Std.Symm (Function.onFun List.Disjoint SrcClockDomain.domains) :=
    ⟨fun _ _ => List.disjoint_symm⟩
  exact disjoint.forall member member' different here there

theorem source_nodup {src : SrcClockDomain} (member : src ∈ net.sources) : src.domains.Nodup :=
  (List.nodup_flatMap.mp net.distinct).1 src member

theorem Drives.unique {src src' : SrcClockDomain} {ratio ratio' o : Nat}
    (drives : net.Drives src ratio o) (drives' : net.Drives src' ratio' o) :
    src = src' ∧ ratio = ratio' := by
  obtain rfl := source_unique drives.source drives'.source
    (SrcClockDomain.mem_domains drives.ratio) (SrcClockDomain.mem_domains drives'.ratio)
  have nodup := source_nodup drives.source
  rw [← SrcClockDomain.ratios_domains] at nodup
  have same := List.inj_on_of_nodup_map nodup drives.ratio drives'.ratio rfl
  exact ⟨rfl, congrArg Prod.snd same⟩

theorem Answers.unique {start : Nat → Nat} {script : List (Nat × ClockEvent)}
    {event : Nat × ClockEvent} {answer answer' : Option Nat}
    (right : net.Answers start script event answer)
    (right' : net.Answers start script event answer') : answer = answer' := by
  obtain ⟨tick, event⟩ := event
  cases event with
  | clockPeriod src p => exact right.trans right'.symm
  | clockEdge o | curCycle o =>
    obtain ⟨src, ratio, k, drives, first, rfl⟩ := right
    obtain ⟨src', ratio', k', drives', first', rfl⟩ := right'
    obtain ⟨rfl, rfl⟩ := drives.unique drives'
    rw [first.unique first']

theorem Answers.congr {start : Nat → Nat} {script script' : List (Nat × ClockEvent)}
    (same : ∀ src ∈ net.sources, changesOf src script' = changesOf src script)
    {event : Nat × ClockEvent} {answer : Option Nat}
    (right : net.Answers start script' event answer) : net.Answers start script event answer := by
  have period (src : SrcClockDomain) (member : src ∈ net.sources) (ratio : Nat) :
      periodAt start script' src ratio = periodAt start script src ratio := by
    funext tick
    rw [periodAt, periodAt, same src member]
  obtain ⟨tick, event⟩ := event
  cases event with
  | clockPeriod src p => exact right
  | clockEdge o | curCycle o =>
    obtain ⟨src, ratio, k, drives, first, given⟩ := right
    simp only [period src drives.source] at first given
    exact ⟨src, ratio, k, drives, first, given⟩

end Net

section Runs

variable {net : ClockNet} {start : Nat → Nat} {past rest : List (Nat × ClockEvent)}
  {now tick : Nat} {e : ClockEvent} {s : Clocks}

/--
What holds between two events: periods are those of the latest changes, and objects keep edges.
-/
structure Sound (net : ClockNet) (start : Nat → Nat) (past rest : List (Nat × ClockEvent))
    (now : Nat) (s : Clocks) : Prop where
  period : ∀ src ∈ net.sources, ∀ d r, (d, r) ∈ src.ratios →
    s.period d = latest (start src.domain) (changesOf src past) * r
  object : ∀ src r o, net.Drives src r o →
    (s.object o).Aligned (periodAt start (past ++ rest) src r) (changesOf src past) now

/-- A script that a system can carry out from some tick on. -/
structure Script (net : ClockNet) (now : Nat) (script : List (Nat × ClockEvent)) : Prop where
  later : ∀ event ∈ script, now ≤ event.1
  ordered : script.Pairwise fun event event' => event.1 ≤ event'.1
  allowed : ∀ event ∈ script, net.Allows event.2

theorem Allows.change_pos {event : ClockEvent} (allowed : net.Allows event) {src : SrcClockDomain}
    {p : Nat} (set : event.change src = some p) : 0 < p := by
  cases event with
  | clockPeriod src' clock_period =>
    simp only [ClockEvent.change, Option.ite_none_right_eq_some, Option.some.injEq] at set
    obtain ⟨-, rfl⟩ := set
    exact Nat.pos_of_ne_zero allowed.2
  | clockEdge o | curCycle o => cases set

theorem changesOf_pos {script : List (Nat × ClockEvent)}
    (allowed : ∀ event ∈ script, net.Allows event.2) (src : SrcClockDomain) :
    ∀ change ∈ changesOf src script, 0 < change.2 := by
  intro change member
  obtain ⟨event, there, -, set⟩ := mem_changesOf member
  exact (allowed event there).change_pos set

theorem Sound.aligned (sound : net.Sound start past rest now s)
    (started : ∀ src ∈ net.sources, 0 < start src.domain)
    (allowed : ∀ event ∈ past ++ rest, net.Allows event.2) (le : now ≤ tick)
    (coming : ∀ event ∈ rest, tick ≤ event.1) {src : SrcClockDomain} {r o : Nat}
    (drives : net.Drives src r o) :
    ((s.object o).update tick (s.period (net.clockDomain o))).Aligned
        (periodAt start (past ++ rest) src r) (changesOf src past) tick ∧
      First (periodAt start (past ++ rest) src r) tick
        ((s.object o).update tick (s.period (net.clockDomain o))).cycle := by
  have ratio := (net.registered src drives.source).ratio_pos drives.ratio
  have source := started src drives.source
  have made (change : Nat × Nat) (member : change ∈ changesOf src past) : 0 < change.2 :=
    changesOf_pos (fun event there => allowed event (List.mem_append_left _ there)) src
      change member
  rw [sound.period src drives.source _ r drives.ratio]
  refine (sound.object src r o drives).update le (fun t => ?_) ?_ fun t above below => ?_
  · exact Nat.mul_pos (valueAt_induction source (changesOf_pos allowed src) t) ratio
  · exact Nat.mul_pos (latest_induction source made) ratio
  · -- Up to the tick the changes made so far are those that count.
    rw [periodAt, changesOf_append, valueAt_eq_latest]
    · intro change member
      exact ((sound.object src r o drives).made change member).trans above
    · intro change member
      obtain ⟨event, there, same, -⟩ := mem_changesOf member
      have next := coming event there
      omega

theorem Script.next (script : net.Script now ((tick, e) :: rest)) :
    now ≤ tick ∧ (∀ event ∈ (tick, e) :: rest, tick ≤ event.1) ∧ net.Allows e ∧
      net.Script tick rest := by
  obtain ⟨later, ordered, allowed⟩ := script
  obtain ⟨first, rest_ordered⟩ := List.pairwise_cons.mp ordered
  refine ⟨later (tick, e) (by simp), List.forall_mem_cons.mpr ⟨le_rfl, first⟩,
    allowed (tick, e) (by simp), first, rest_ordered, ?_⟩
  exact (List.forall_mem_cons.mp allowed).2

theorem Sound.query (sound : net.Sound start past ((tick, e) :: rest) now s)
    (started : ∀ src ∈ net.sources, 0 < start src.domain)
    (script : net.Script now ((tick, e) :: rest))
    (allowed : ∀ event ∈ past ++ (tick, e) :: rest, net.Allows event.2)
    (asks : ∀ src, e.change src = none) (o : Nat) :
    net.Sound start (past ++ [(tick, e)]) rest tick (s.update net.clockDomain tick o) := by
  obtain ⟨le, coming, -⟩ := script.next
  have quiet (src : SrcClockDomain) : changesOf src (past ++ [(tick, e)]) = changesOf src past := by
    rw [changesOf_append]
    simp [changesOf, asks]
  refine ⟨fun src member d r ratio => ?_, fun src r o' drives => ?_⟩
  · rw [quiet]
    exact sound.period src member d r ratio
  · rw [quiet, List.append_assoc, List.singleton_append]
    by_cases same : o' = o
    · subst same
      simpa [Clocks.update] using (sound.aligned started allowed le coming drives).1
    · simpa [Clocks.update, same] using (sound.object src r o' drives).later le

/-- A change aligns all objects of its source before their period changes. -/
theorem Sound.changed {src : SrcClockDomain} {p : Nat} {s' : Clocks}
    (sound : net.Sound start past ((tick, .clockPeriod src p) :: rest) now s)
    (started : ∀ src ∈ net.sources, 0 < start src.domain)
    (script : net.Script now ((tick, .clockPeriod src p) :: rest))
    (allowed : ∀ event ∈ past ++ (tick, .clockPeriod src p) :: rest, net.Allows event.2)
    (changed : src.Changed net.clockDomain tick p s s') :
    net.Sound start (past ++ [(tick, .clockPeriod src p)]) rest tick s' := by
  obtain ⟨le, coming, ⟨source, -⟩, -⟩ := script.next
  have here : changesOf src (past ++ [(tick, .clockPeriod src p)]) =
      changesOf src past ++ [(tick, p)] := by
    rw [changesOf_append]
    simp [changesOf, ClockEvent.change]
  have elsewhere (other : SrcClockDomain) (different : src.domain ≠ other.domain) :
      changesOf other (past ++ [(tick, .clockPeriod src p)]) = changesOf other past := by
    rw [changesOf_append]
    simp [changesOf, ClockEvent.change, different]
  -- The domains of the system are those of the source and those that it leaves alone.
  have apart {other : SrcClockDomain} (member : other ∈ net.sources) (different : other ≠ src)
      {d : Nat} (there : d ∈ other.domains) : d ∉ src.domains :=
    fun mine => different (source_unique member source there mine)
  have distinct {other : SrcClockDomain} (member : other ∈ net.sources) (different : other ≠ src) :
      src.domain ≠ other.domain :=
    fun same => apart member different (same ▸ List.mem_cons_self) List.mem_cons_self
  refine ⟨fun other member d r ratio => ?_, fun other r o drives => ?_⟩
  · by_cases same : other = src
    · subst same
      rw [here, latest_append_singleton]
      exact changed.below d r ratio
    · rw [elsewhere other (distinct member same),
        changed.apart d (apart member same (SrcClockDomain.mem_domains ratio))]
      exact sound.period other member d r ratio
  · have mine := SrcClockDomain.mem_domains drives.ratio
    rw [List.append_assoc, List.singleton_append]
    by_cases same : other = src
    · subst same
      rw [here, changed.object, if_pos mine]
      obtain ⟨aligned, first⟩ := sound.aligned started allowed le coming drives
      refine ⟨aligned.edge, aligned.earlier, fun change member => ?_⟩
      obtain old | new := List.mem_append.mp member
      · exact aligned.made change old
      · -- The new change is not later than the edge that the object has been aligned to.
        rw [List.mem_singleton.mp new, ← aligned.edge]
        exact first.reached
    · rw [elsewhere other (distinct drives.source same), changed.object,
        if_neg (apart drives.source same mine)]
      exact (sound.object other r o drives).later le

theorem Sound.perform (sound : net.Sound start past ((tick, e) :: rest) now s)
    (started : ∀ src ∈ net.sources, 0 < start src.domain)
    (script : net.Script now ((tick, e) :: rest))
    (allowed : ∀ event ∈ past ++ (tick, e) :: rest, net.Allows event.2) :
    ∃ s' answer, net.perform tick e s = some (s', answer) ∧
      net.Sound start (past ++ [(tick, e)]) rest tick s' ∧
      net.Answers start (past ++ (tick, e) :: rest) (tick, e) answer := by
  obtain ⟨le, coming, allows, -⟩ := script.next
  cases e with
  | clockPeriod src p =>
    obtain ⟨source, some_period⟩ := allows
    obtain ⟨s', ran, changed⟩ := SrcClockDomain.clockPeriod_changed (net.registered src source)
      (source_nodup source) some_period tick s
    exact ⟨s', none, by simp [ClockNet.perform, ran], sound.changed started script allowed changed,
      rfl⟩
  | clockEdge o =>
    obtain ⟨src, r, drives⟩ := allows
    obtain ⟨aligned, first⟩ := sound.aligned started allowed le coming drives
    refine ⟨_, _, rfl, sound.query started script allowed (fun _ => rfl) o, src, r, _, drives,
      first, ?_⟩
    simp [ClockedObject.clockEdge, Clocks.update, aligned.edge]
  | curCycle o =>
    obtain ⟨src, r, drives⟩ := allows
    obtain ⟨aligned, first⟩ := sound.aligned started allowed le coming drives
    refine ⟨_, _, rfl, sound.query started script allowed (fun _ => rfl) o, src, r, _, drives,
      first, ?_⟩
    simp [Clocks.update]

theorem Sound.run (sound : net.Sound start past rest now s)
    (started : ∀ src ∈ net.sources, 0 < start src.domain) (script : net.Script now rest)
    (allowed : ∀ event ∈ past ++ rest, net.Allows event.2) :
    ∃ answers, net.run rest s = some answers ∧
      List.Forall₂ (net.Answers start (past ++ rest)) rest answers := by
  -- The induction is on what is left of the script; what is past grows by each event.
  induction rest generalizing past now s with
  | nil => exact ⟨[], rfl, .nil⟩
  | cons event rest ih =>
    obtain ⟨tick, e⟩ := event
    obtain ⟨s', answer, performed, sound', right⟩ := sound.perform started script allowed
    have same : past ++ (tick, e) :: rest = past ++ [(tick, e)] ++ rest := by simp
    obtain ⟨answers, ran, all_right⟩ := ih sound' script.next.2.2.2 (same ▸ allowed)
    refine ⟨answer :: answers, ?_, .cons right (same ▸ all_right)⟩
    simp [ClockNet.run, performed, ran]

/-- Setting sources one after another leaves each with its period. -/
theorem constructAll {clockDomain : Nat → Nat} {sources : List SrcClockDomain}
    (distinct : (sources.flatMap SrcClockDomain.domains).Nodup)
    (registered : ∀ src ∈ sources, src.Registered clockDomain)
    (started : ∀ src ∈ sources, 0 < start src.domain) (s : Clocks)
    (fresh : ∀ o, s.object o = ⟨0, 0⟩) :
    ∃ s', sources.foldlM (fun s src => src.clockPeriod clockDomain 0 (start src.domain) s) s =
        some s' ∧
      (∀ src ∈ sources, ∀ d r, (d, r) ∈ src.ratios → s'.period d = start src.domain * r) ∧
      (∀ d, d ∉ sources.flatMap SrcClockDomain.domains → s'.period d = s.period d) ∧
      ∀ o, s'.object o = ⟨0, 0⟩ := by
  induction sources generalizing s with
  | nil => exact ⟨s, rfl, by simp, by simp, fresh⟩
  | cons src sources ih =>
    obtain ⟨first_started, rest_started⟩ := List.forall_mem_cons.mp started
    obtain ⟨first_registered, rest_registered⟩ := List.forall_mem_cons.mp registered
    rw [List.flatMap_cons] at distinct
    obtain ⟨first_nodup, rest_nodup, disjoint⟩ := List.nodup_append.mp distinct
    obtain ⟨set, ran, changed⟩ := SrcClockDomain.clockPeriod_changed first_registered
      first_nodup (Nat.ne_of_gt first_started) 0 s
    -- Every object is at an edge at tick zero, so that aligning leaves it there.
    have still (o : Nat) : set.object o = ⟨0, 0⟩ := by
      rw [changed.object, fresh]
      simp [ClockedObject.update]
    obtain ⟨s', rest_ran, periods, apart, objects⟩ := ih rest_nodup rest_registered rest_started set
      still
    refine ⟨s', by simp [ran, rest_ran], ?_, fun d outside => ?_, objects⟩
    · rw [List.forall_mem_cons]
      refine ⟨fun d r ratio => ?_, periods⟩
      have mine := SrcClockDomain.mem_domains ratio
      exact (apart d fun other => disjoint d mine d other rfl).trans (changed.below d r ratio)
    · obtain ⟨not_first, not_rest⟩ := not_or.mp (mt List.mem_append.mpr outside)
      exact (apart d not_rest).trans (changed.apart d not_first)

theorem construct_sound (started : ∀ src ∈ net.sources, 0 < start src.domain)
    (script : List (Nat × ClockEvent)) :
    ∃ s, net.construct start = some s ∧ net.Sound start [] script 0 s := by
  obtain ⟨s, ran, periods, -, objects⟩ := constructAll net.distinct net.registered started unset
    fun _ => rfl
  refine ⟨s, ran, periods, fun src r o drives => ?_⟩
  rw [objects o]
  exact ⟨rfl, by simp, by simp [changesOf]⟩

theorem simulate_right (started : ∀ src ∈ net.sources, 0 < start src.domain)
    {script : List (Nat × ClockEvent)} (allowed : net.Script 0 script) :
    ∃ answers, net.simulate start script = some answers ∧
      List.Forall₂ (net.Answers start script) script answers := by
  obtain ⟨s, constructed, sound⟩ := construct_sound started script
  obtain ⟨answers, ran, right⟩ := sound.run started allowed allowed.allowed
  exact ⟨answers, by simp [simulate, constructed, ran], right⟩

/--
Every query answers with the first edge at or after its tick or with the number of this edge, where
the edges follow from the changes of the sources alone, so that runs with the same changes agree.
-/
theorem queries_leave_clocks (net : ClockNet) (start : Nat → Nat)
    (started : ∀ src ∈ net.sources, 0 < start src.domain) (script : List (Nat × ClockEvent))
    (allowed : net.Script 0 script) :
    (∃ answers, net.simulate start script = some answers ∧
      List.Forall₂ (net.Answers start script) script answers) ∧
    ∀ script', net.Script 0 script' →
      (∀ src ∈ net.sources, changesOf src script' = changesOf src script) →
      ∀ answers answers', net.simulate start script = some answers →
        net.simulate start script' = some answers' →
        ∀ event answer answer', (event, answer) ∈ script.zip answers →
          (event, answer') ∈ script'.zip answers' → answer = answer' := by
  obtain ⟨answers, ran, right⟩ := simulate_right started allowed
  refine ⟨⟨answers, ran, right⟩, fun script' allowed' same => ?_⟩
  rintro first second ran₁ ran₂ event answer answer' given given'
  obtain ⟨answers', ran', right'⟩ := simulate_right started allowed'
  obtain rfl := Option.some.inj (ran.symm.trans ran₁)
  obtain rfl := Option.some.inj (ran'.symm.trans ran₂)
  exact ((List.forall₂_iff_zip.mp right).2 given).unique
    (((List.forall₂_iff_zip.mp right').2 given').congr same)

end Runs

/-- A source that clocks an object and a domain at half its frequency, which clocks another one. -/
def halved : ClockNet where
  sources := [⟨0, [0], .cons 1 2 [1] .nil .nil⟩]
  clockDomain o := o
  distinct := by decide
  registered := by
    intro src member
    obtain rfl := List.mem_singleton.mp member
    exact ⟨by decide, by simp, ⟨by decide, by decide, by simp⟩, trivial, trivial⟩

/-- A change of its source before the slower object is asked for its edge and its cycle. -/
def quickened : List (Nat × ClockEvent) :=
  [(5, .clockPeriod ⟨0, [0], .cons 1 2 [1] .nil .nil⟩ 3), (21, .clockEdge 1), (27, .curCycle 1)]

/-- The statement for the change of the source. -/
theorem queries_leave_halved :
    (∀ src ∈ halved.sources, 0 < (fun _ => 10 : Nat → Nat) src.domain) ∧
      halved.Script 0 quickened ∧
      ∃ answers, halved.simulate (fun _ => 10) quickened = some answers ∧
        List.Forall₂ (halved.Answers (fun _ => 10) quickened) quickened answers := by
  have started : ∀ src ∈ halved.sources, 0 < (fun _ => 10 : Nat → Nat) src.domain :=
    fun _ _ => Nat.zero_lt_succ _
  have drives : ∃ src ratio, halved.Drives src ratio 1 := by
    refine ⟨_, 2, List.mem_cons_self, ?_⟩
    simp [halved, SrcClockDomain.ratios, DerivedClockDomains.ratios]
  have script : halved.Script 0 quickened := by
    refine ⟨by simp [quickened], by simp [quickened], ?_⟩
    simp only [quickened, List.forall_mem_cons, Allows]
    exact ⟨⟨List.mem_cons_self, by decide⟩, drives, drives, by simp⟩
  exact ⟨started, script, (queries_leave_clocks halved _ started _ script).1⟩

/-- The edges of the slower object are 0, 20, 26 and 32. -/
example : halved.simulate (fun _ => 10) quickened = some [none, some 26, some 3] := by
  decide

end ClockNet

end GemDroid

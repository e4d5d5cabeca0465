import Mathlib.Data.List.Flatten
import GemDroid.Lib.Outcome
import GemDroid.Sim.EventQueue

/-! The bins of the event queue stand for one list of events in their order. -/

namespace GemDroid

open Chain

namespace Due

variable {k l r : Due}

theorem Before.irrefl (before : l.Before l) : False := by
  unfold Before at before
  omega

theorem not_before : ¬l.Before r ↔ r.NotAfter l := by
  unfold Before NotAfter
  omega

theorem Before.trans (first : k.Before l) (second : l.Before r) : k.Before r := by
  unfold Before at *
  omega

theorem NotAfter.trans (first : k.NotAfter l) (second : l.NotAfter r) : k.NotAfter r := by
  unfold NotAfter at *
  omega

theorem notAfter_total (l r : Due) : l.NotAfter r ∨ r.NotAfter l := by
  unfold NotAfter
  omega

theorem eq_of_notAfter (notAfter : l.NotAfter r) (notBefore : ¬l.Before r) : l = r := by
  cases l
  cases r
  simp only [NotAfter, Before, mk.injEq] at *
  omega

end Due

/-- A bin: its top, and the events below it. -/
structure Bin (E : Type) where
  top : E
  below : List E

namespace Bin

variable {E : Type}

/-- The events of a bin from the top down. -/
def events (b : Bin E) : List E :=
  b.top :: b.below

/-- All events of some bins, in the order in which they are serviced. -/
def members (bins : List (Bin E)) : List E :=
  bins.flatMap events

@[simp] theorem members_nil : members ([] : List (Bin E)) = [] := rfl

@[simp] theorem members_cons (b : Bin E) (bins : List (Bin E)) :
    members (b :: bins) = b.events ++ members bins := List.flatMap_cons

@[simp] theorem members_append (xs ys : List (Bin E)) :
    members (xs ++ ys) = members xs ++ members ys := List.flatMap_append

theorem top_mem (b : Bin E) : b.top ∈ b.events := List.mem_cons_self

theorem mem_members {e : E} {bins : List (Bin E)} :
    e ∈ members bins ↔ ∃ b ∈ bins, e ∈ b.events := List.mem_flatMap

theorem length_le_members (bins : List (Bin E)) : bins.length ≤ (members bins).length := by
  induction bins with
  | nil => rfl
  | cons b bins ih =>
    simp only [members_cons, events, List.length_append, List.length_cons]
    omega

/-- Bins of different ticks or priorities, each of which has only one. -/
structure Ordered (due : E → Due) (bins : List (Bin E)) : Prop where
  alike : ∀ b ∈ bins, ∀ e ∈ b.events, due e = due b.top
  increasing : bins.Pairwise fun b c => (due b.top).Before (due c.top)
  nodup : (members bins).Nodup

/-- An event on top of the first bin, or in a bin of its own before it. -/
def grow (due : E → Due) (e : E) : List (Bin E) → List (Bin E)
  | [] => [⟨e, []⟩]
  | b :: bins => if (due e).Before (due b.top) then ⟨e, []⟩ :: b :: bins else ⟨e, b.events⟩ :: bins

/-- The bin without one of its events, as long as it has others. -/
def shrink [DecidableEq E] (e : E) (b : Bin E) : List (Bin E) :=
  match b.events.erase e with
  | [] => []
  | top :: below => [⟨top, below⟩]

variable {due : E → Due} {e : E} {bins pre post : List (Bin E)} {b : Bin E}

theorem members_grow : members (grow due e bins) = e :: members bins := by
  cases bins with
  | nil => rfl
  | cons b bins =>
    rw [grow]
    split_ifs
    · rfl
    · simp [events]

theorem members_shrink [DecidableEq E] (b : Bin E) :
    members (shrink e b) = b.events.erase e := by
  unfold shrink
  split
  · rename_i empty
    rw [empty, members_nil]
  · rename_i top below kept
    rw [kept]
    simp [events]

theorem shrink_nil [DecidableEq E] (gone : b.events.erase e = []) : shrink e b = [] := by
  rw [shrink, gone]

theorem shrink_cons [DecidableEq E] {next : E} {rest : List E}
    (kept : b.events.erase e = next :: rest) : shrink e b = [⟨next, rest⟩] := by
  rw [shrink, kept]

theorem Ordered.of_parts (ordered : Ordered due (pre ++ post))
    (alike : ∀ x ∈ b.events, due x = due b.top)
    (after : ∀ c ∈ pre, (due c.top).Before (due b.top))
    (before : ∀ c ∈ post, (due b.top).Before (due c.top))
    (nodup : (members (pre ++ b :: post)).Nodup) : Ordered due (pre ++ b :: post) := by
  refine ⟨fun c member => ?_, ?_, nodup⟩
  · rw [List.mem_append, List.mem_cons] at member
    obtain inPre | rfl | inPost := member
    · exact ordered.alike c (by simp [inPre])
    · exact alike
    · exact ordered.alike c (by simp [inPost])
  · have increasing := ordered.increasing
    rw [List.pairwise_append] at increasing
    rw [List.pairwise_append, List.pairwise_cons]
    refine ⟨increasing.1, ⟨before, increasing.2.1⟩, fun c inPre d inRest => ?_⟩
    obtain rfl | inPost := List.mem_cons.mp inRest
    · exact after c inPre
    · exact increasing.2.2 c inPre d inPost

theorem Ordered.sublist {some : List (Bin E)} (ordered : Ordered due bins)
    (part : List.Sublist some bins) : Ordered due some :=
  ⟨fun b member => ordered.alike b (part.subset member), ordered.increasing.sublist part,
    ordered.nodup.sublist (part.flatMap events)⟩

theorem Ordered.tail (ordered : Ordered due (pre ++ b :: post)) :
    ∀ c ∈ post, (due b.top).Before (due c.top) :=
  (List.pairwise_cons.mp (List.pairwise_append.mp ordered.increasing).2.1).1

theorem Ordered.init (ordered : Ordered due (pre ++ b :: post)) :
    ∀ c ∈ pre, (due c.top).Before (due b.top) := fun c member =>
  (List.pairwise_append.mp ordered.increasing).2.2 c member b (by simp)

theorem Ordered.mem_events (ordered : Ordered due (pre ++ b :: post))
    (member : e ∈ members (pre ++ b :: post)) (same : due b.top = due e) : e ∈ b.events := by
  obtain ⟨c, inBins, inside⟩ := mem_members.mp member
  have own := ordered.alike c inBins e inside
  rw [List.mem_append, List.mem_cons] at inBins
  obtain inPre | rfl | inPost := inBins
  · have before := ordered.init c inPre
    rw [same, own] at before
    exact before.irrefl.elim
  · exact inside
  · have before := ordered.tail c inPost
    rw [same, own] at before
    exact before.irrefl.elim

theorem Ordered.after_first (ordered : Ordered due (b :: bins)) (member : e ∈ members (b :: bins))
    (other : due b.top ≠ due e) : (due b.top).Before (due e) := by
  obtain ⟨c, inBins, inside⟩ := mem_members.mp member
  rw [ordered.alike c inBins e inside] at other ⊢
  obtain rfl | inPost := List.mem_cons.mp inBins
  · exact absurd rfl other
  · exact (List.pairwise_cons.mp ordered.increasing).1 c inPost

theorem Ordered.mem_next (ordered : Ordered due (pre ++ post)) (member : e ∈ members (pre ++ post))
    (after : ∀ c ∈ pre, (due c.top).Before (due e))
    (upTo : ∀ c ∈ post.head?, ¬(due c.top).Before (due e)) :
    ∃ c rest, post = c :: rest ∧ due c.top = due e ∧ e ∈ c.events := by
  cases post with
  | nil =>
    obtain ⟨c, inBins, inside⟩ := mem_members.mp member
    have before := after c (by simpa using inBins)
    rw [ordered.alike c inBins e inside] at before
    exact before.irrefl.elim
  | cons c rest =>
    have same : due c.top = due e := by
      by_contra other
      obtain ⟨d, inBins, inside⟩ := mem_members.mp member
      have own := ordered.alike d inBins e inside
      rw [List.mem_append, List.mem_cons] at inBins
      obtain inPre | rfl | inRest := inBins
      · have before := after d inPre
        rw [own] at before
        exact before.irrefl
      · exact other own.symm
      · apply upTo c rfl
        rw [own]
        exact ordered.tail d inRest
    exact ⟨c, rest, rfl, same, ordered.mem_events member same⟩

/-- An event that comes before the first bin not due before it leaves the bins ordered. -/
theorem Ordered.grow (ordered : Ordered due (pre ++ post)) (new : e ∉ members (pre ++ post))
    (after : ∀ c ∈ pre, (due c.top).Before (due e))
    (upTo : ∀ c ∈ post.head?, ¬(due c.top).Before (due e)) :
    Ordered due (pre ++ Bin.grow due e post) := by
  have nodup : (members (pre ++ Bin.grow due e post)).Nodup := by
    rw [members_append, members_grow, List.nodup_middle, ← members_append, List.nodup_cons]
    exact ⟨new, ordered.nodup⟩
  cases post with
  | nil => exact ordered.of_parts (by simp [events]) after (by simp) nodup
  | cons d post =>
    rw [Bin.grow] at nodup ⊢
    split_ifs at nodup ⊢ with before
    · apply ordered.of_parts (by simp [events]) after _ nodup
      intro c member
      obtain rfl | later := List.mem_cons.mp member
      · exact before
      · exact before.trans (ordered.tail c later)
    · -- The event is due with the first bin, and goes on top of it.
      have same : due e = due d.top :=
        Due.eq_of_notAfter (Due.not_before.mp (upTo d rfl)) before
      have part : List.Sublist (pre ++ post) (pre ++ d :: post) :=
        (List.sublist_cons_self d post).append_left pre
      apply (ordered.sublist part).of_parts _ after _ nodup
      · intro x member
        obtain rfl | inside := List.mem_cons.mp member
        · rfl
        · rw [same]
          exact ordered.alike d (by simp) x inside
      · intro c member
        show (due e).Before (due c.top)
        rw [same]
        exact ordered.tail c member

/-- The events of the grown bins are those of the list with the event in its place. -/
theorem Ordered.members_grow_eq (ordered : Ordered due (pre ++ post))
    (after : ∀ c ∈ pre, (due c.top).Before (due e))
    (upTo : ∀ c ∈ post.head?, ¬(due c.top).Before (due e)) :
    members (pre ++ Bin.grow due e post) =
      (members (pre ++ post)).orderedInsert (fun l r => (due l).NotAfter (due r)) e := by
  have left : ∀ x ∈ members pre, ¬(due e).NotAfter (due x) := by
    intro x member
    obtain ⟨c, inPre, inside⟩ := mem_members.mp member
    rw [← Due.not_before, not_not, ordered.alike c (by simp [inPre]) x inside]
    exact after c inPre
  have right : ∀ x ∈ (members post).head?, (due e).NotAfter (due x) := by
    cases post with
    | nil => simp
    | cons d post =>
      intro x first
      simp only [members_cons, events, List.cons_append, List.head?_cons, Option.mem_def,
        Option.some.injEq] at first
      rw [← first, ← Due.not_before]
      exact upTo d rfl
  rw [members_append, members_grow, members_append]
  generalize members pre = xs at left
  generalize members post = ys at right
  induction xs with
  | nil =>
    cases ys with
    | nil => rfl
    | cons y ys =>
      rw [List.nil_append, List.nil_append, List.orderedInsert_cons_of_le]
      exact right y rfl
  | cons x xs ih =>
    rw [List.cons_append, List.cons_append, List.orderedInsert_cons, if_neg (left x (by simp)),
      ih fun y member => left y (by simp [member])]

theorem Ordered.members_shrink_eq [DecidableEq E] (ordered : Ordered due (pre ++ b :: post))
    (inside : e ∈ b.events) :
    members (pre ++ (shrink e b ++ post)) = (members (pre ++ b :: post)).erase e := by
  have absent : e ∉ members pre := by
    intro member
    have nodup := ordered.nodup
    rw [members_append, members_cons] at nodup
    exact (List.nodup_append.mp nodup).2.2 e member e (by simp [inside]) rfl
  rw [members_append, members_append, members_shrink, members_append, members_cons,
    List.erase_append_right _ absent, List.erase_append_left _ inside]

theorem Ordered.shrink [DecidableEq E] (ordered : Ordered due (pre ++ b :: post))
    (inside : e ∈ b.events) : Ordered due (pre ++ (Bin.shrink e b ++ post)) := by
  have nodup : (members (pre ++ (Bin.shrink e b ++ post))).Nodup := by
    rw [ordered.members_shrink_eq inside]
    exact ordered.nodup.erase e
  have part : List.Sublist (pre ++ post) (pre ++ b :: post) :=
    (List.sublist_cons_self b post).append_left pre
  cases rest : b.events.erase e with
  | nil =>
    simp only [Bin.shrink, rest, List.nil_append]
    exact ordered.sublist part
  | cons next below =>
    simp only [Bin.shrink, rest, List.cons_append, List.nil_append] at nodup ⊢
    -- What is left of the bin is due when the bin was.
    have alike : ∀ x ∈ next :: below, due x = due b.top := by
      intro x member
      rw [← rest] at member
      exact ordered.alike b (by simp) x (List.mem_of_mem_erase member)
    have top : due next = due b.top := alike next (by simp)
    apply (ordered.sublist part).of_parts _ _ _ nodup
    · intro x member
      rw [alike x member, top]
    · intro c member
      rw [top]
      exact ordered.init c member
    · intro c member
      rw [top]
      exact ordered.tail c member

end Bin

namespace EventQueue

variable {E : Type} {priority : E → Int} {q : EventQueue E} {e : E}
  {p : Option E} {b : Bin E} {bins pre post : List (Bin E)} {fuel : Nat}

/-- From a pointer the bins follow each other, and in each of them its events. -/
structure Linked (q : EventQueue E) (p : Option E) (bins : List (Bin E)) : Prop where
  tops : Path q.nextBin p (bins.map Bin.top) none
  piles : ∀ b ∈ bins, Path q.nextInBin (q.nextInBin b.top) b.below none

theorem Linked.head (linked : Linked q p bins) : p = bins.head?.map Bin.top := by
  have tops := linked.tops
  cases bins with
  | nil => exact tops
  | cons b bins => exact tops.1

theorem Linked.rest (linked : Linked q p (b :: bins)) : Linked q (q.nextBin b.top) bins :=
  ⟨linked.tops.2, fun c member => linked.piles c (by simp [member])⟩

theorem Linked.behind (linked : Linked q p (pre ++ b :: post)) :
    Linked q (q.nextBin b.top) post := by
  induction pre generalizing p with
  | nil => exact linked.rest
  | cons c pre ih => exact ih linked.rest

theorem Linked.cons (linked : Linked q p bins) (next : q.nextBin b.top = p)
    (stack : Path q.nextInBin (q.nextInBin b.top) b.below none) :
    Linked q (some b.top) (b :: bins) := by
  refine ⟨⟨rfl, next ▸ linked.tops⟩, fun c member => ?_⟩
  obtain rfl | later := List.mem_cons.mp member
  · exact stack
  · exact linked.piles c later

theorem Linked.congr {r : EventQueue E} (linked : Linked q p bins)
    (tops : ∀ b ∈ bins, r.nextBin b.top = q.nextBin b.top)
    (piles : ∀ b ∈ bins, ∀ e ∈ b.events, r.nextInBin e = q.nextInBin e) : Linked r p bins := by
  constructor
  · rw [path_congr]
    · exact linked.tops
    · intro e isTop
      obtain ⟨b, member, rfl⟩ := List.mem_map.mp isTop
      exact tops b member
  · intro b member
    rw [piles b member b.top b.top_mem, path_congr]
    · exact linked.piles b member
    · exact fun e below => piles b member e (List.mem_cons_of_mem _ below)

theorem walkBins_eq (linked : Linked q (q.nextBin b.top) bins) (enough : bins.length ≤ fuel)
    (after : (q.due priority b.top).Before (q.due priority e)) :
    ∃ pre c post, b :: bins = pre ++ c :: post ∧
      walkBins priority e q fuel b.top (q.nextBin b.top) = .ok (c.top, q.nextBin c.top) ∧
      (∀ d ∈ pre ++ [c], (q.due priority d.top).Before (q.due priority e)) ∧
      ∀ d ∈ post.head?, ¬(q.due priority d.top).Before (q.due priority e) := by
  -- The induction follows the bins, and the steps allowed go down with them.
  induction bins generalizing b fuel with
  | nil =>
    have last : q.nextBin b.top = none := linked.head
    exact ⟨[], b, [], rfl, by rw [last, walkBins], by simpa using after, by simp⟩
  | cons d bins ih =>
    have next : q.nextBin b.top = some d.top := linked.head
    by_cases before : (q.due priority d.top).Before (q.due priority e)
    · obtain ⟨fuel, rfl⟩ : ∃ n, fuel = n + 1 := ⟨fuel - 1, by simp at enough; omega⟩
      obtain ⟨pre, c, post, split, walked, below, above⟩ :=
        ih linked.rest (by simpa using enough) before
      refine ⟨b :: pre, c, post, by rw [split, List.cons_append], ?_, ?_, above⟩
      · rw [next, walkBins, if_pos before]
        exact walked
      · rw [List.cons_append, List.forall_mem_cons]
        exact ⟨after, below⟩
    · refine ⟨[], b, d :: bins, rfl, ?_, by simpa using after, ?_⟩
      · rw [next, walkBins.eq_def]
        simp [before]
      · intro x first
        cases first
        exact before

variable [DecidableEq E]

theorem Linked.update {r : EventQueue E} {next inBin : Option E} (linked : Linked q p bins)
    (new : e ∉ Bin.members bins) (tops : r.nextBin = Function.update q.nextBin e next)
    (piles : r.nextInBin = Function.update q.nextInBin e inBin) : Linked r p bins := by
  have other : ∀ b ∈ bins, ∀ x ∈ b.events, x ≠ e := by
    rintro b member x inside rfl
    exact new (Bin.mem_members.mpr ⟨b, member, inside⟩)
  apply linked.congr
  · intro b member
    rw [tops, Function.update_of_ne (other b member b.top b.top_mem)]
  · intro b member x inside
    rw [piles, Function.update_of_ne (other b member x inside)]

theorem Linked.insertBefore (linked : Linked q p bins) (new : e ∉ Bin.members bins) :
    Linked (insertBefore priority e p q) (some e)
      (Bin.grow (fun x => q.due priority x) e bins) := by
  rw [linked.head]
  cases bins with
  | nil =>
    refine ⟨⟨rfl, ?_⟩, ?_⟩
    · simp [EventQueue.insertBefore]
    · simp [EventQueue.insertBefore, Bin.grow]
  | cons b bins =>
    simp only [List.head?_cons, Option.map_some, EventQueue.insertBefore, Bin.grow]
    have first : p = some b.top := linked.head
    subst first
    split_ifs with before
    · -- The event is a bin of its own before the others.
      have moved := linked.update (r := { q with
        nextBin := Function.update q.nextBin e (some b.top)
        nextInBin := Function.update q.nextInBin e none }) new rfl rfl
      exact moved.cons (b := ⟨e, []⟩) (Function.update_self ..) (Function.update_self ..)
    · -- The event lies on top of the first bin.
      have newBelow : e ∉ Bin.members bins := fun member => new (by simp [member])
      have newHere : e ∉ b.events := fun member => new (by simp [member])
      have moved := linked.rest.update (r := { q with
        nextBin := Function.update q.nextBin e (q.nextBin b.top)
        nextInBin := Function.update q.nextInBin e (some b.top) }) newBelow rfl rfl
      apply moved.cons (b := ⟨e, b.events⟩) (Function.update_self ..)
      show Path (Function.update q.nextInBin e (some b.top))
        (Function.update q.nextInBin e (some b.top) e) b.events none
      rw [Function.update_self, path_update newHere]
      exact ⟨rfl, linked.piles b (by simp)⟩

omit [DecidableEq E] in
theorem Linked.splice {r : EventQueue E} {next : Option E} {others : List (Bin E)}
    (linked : Linked q p (pre ++ b :: post)) (follow : Linked r next others)
    (leads : r.nextBin b.top = next) (tops : ∀ c ∈ pre, r.nextBin c.top = q.nextBin c.top)
    (piles : ∀ c ∈ pre ++ [b], ∀ x ∈ c.events, r.nextInBin x = q.nextInBin x) :
    Linked r p (pre ++ b :: others) := by
  have whole := linked.tops
  rw [List.map_append, path_append] at whole
  obtain ⟨m, before, here, -⟩ := whole
  have first : Linked r m (b :: others) := by
    rw [here]
    apply follow.cons leads
    rw [piles b (by simp) b.top b.top_mem, path_congr]
    · exact linked.piles b (by simp)
    · exact fun x below => piles b (by simp) x (List.mem_cons_of_mem _ below)
  constructor
  · rw [List.map_append, path_append]
    refine ⟨m, ?_, first.tops⟩
    rw [path_congr]
    · exact before
    · intro x isTop
      obtain ⟨c, member, rfl⟩ := List.mem_map.mp isTop
      exact tops c member
  · intro c member
    obtain inPre | inRest := List.mem_append.mp member
    · rw [piles c (by simp [inPre]) c.top c.top_mem, path_congr]
      · exact linked.piles c (by simp [inPre])
      · exact fun x below => piles c (by simp [inPre]) x (List.mem_cons_of_mem _ below)
    · exact first.piles c inRest

/-- Two queues differ at most in their pointers. -/
structure SameFields (q r : EventQueue E) : Prop where
  curTick : r.curTick = q.curTick
  when : r.when = q.when
  scheduled : r.scheduled = q.scheduled
  squashed : r.squashed = q.squashed

omit [DecidableEq E] in
theorem SameFields.due {r : EventQueue E} (same : SameFields q r) (x : E) :
    r.due priority x = q.due priority x := by
  rw [EventQueue.due, EventQueue.due, same.when]

theorem insertBefore_sameFields : SameFields q (insertBefore priority e p q) := by
  cases p with
  | none => exact ⟨rfl, rfl, rfl, rfl⟩
  | some curr =>
    simp only [insertBefore]
    split_ifs
    · exact ⟨rfl, rfl, rfl, rfl⟩
    · exact ⟨rfl, rfl, rfl, rfl⟩

theorem insertBefore_head : (insertBefore priority e p q).head = q.head := by
  cases p with
  | none => rfl
  | some curr =>
    simp only [insertBefore]
    split_ifs
    · rfl
    · rfl

theorem insertBefore_others {x : E} (other : x ≠ e) :
    (insertBefore priority e p q).nextBin x = q.nextBin x ∧
      (insertBefore priority e p q).nextInBin x = q.nextInBin x := by
  cases p with
  | none => simp [insertBefore, other]
  | some curr =>
    simp only [insertBefore]
    split_ifs
    · simp [other]
    · simp [other]

/-- The pointers and fields of the queue stand for some bins. -/
structure Rep (priority : E → Int) (q : EventQueue E) (bins : List (Bin E)) : Prop where
  linked : Linked q q.head bins
  ordered : Bin.Ordered (fun x => q.due priority x) bins

theorem SameFields.ordered {r : EventQueue E} (same : SameFields q r)
    (ordered : Bin.Ordered (fun x => q.due priority x) bins) :
    Bin.Ordered (fun x => r.due priority x) bins := by
  have dues : (fun x => r.due priority x) = fun x => q.due priority x := funext same.due
  rw [dues]
  exact ordered

theorem Rep.insert_first (rep : Rep priority q bins) (new : e ∉ Bin.members bins)
    (first : ∀ c ∈ bins.head?, ¬(q.due priority c.top).Before (q.due priority e)) :
    Rep priority { insertBefore priority e q.head q with head := some e }
      (Bin.grow (fun x => q.due priority x) e bins) := by
  have linked : Linked (insertBefore priority e q.head q) (some e)
      (Bin.grow (fun x => q.due priority x) e bins) := rep.linked.insertBefore new
  have same : SameFields q (insertBefore priority e q.head q) := insertBefore_sameFields
  refine ⟨⟨linked.tops, linked.piles⟩, same.ordered ?_⟩
  have ordered : Bin.Ordered (fun x => q.due priority x) ([] ++ bins) := rep.ordered
  exact ordered.grow new (by simp) first

/-- An event that is due after a bin, but not after the next one, is put behind the bin. -/
theorem Rep.insert_behind (rep : Rep priority q (pre ++ b :: post))
    (new : e ∉ Bin.members (pre ++ b :: post))
    (after : ∀ c ∈ pre ++ [b], (q.due priority c.top).Before (q.due priority e))
    (upTo : ∀ c ∈ post.head?, ¬(q.due priority c.top).Before (q.due priority e)) :
    Rep priority
      { insertBefore priority e (q.nextBin b.top) q with
        nextBin := Function.update (insertBefore priority e (q.nextBin b.top) q).nextBin b.top
          (some e) }
      (pre ++ b :: Bin.grow (fun x => q.due priority x) e post) := by
  have nodup := rep.ordered.nodup
  rw [Bin.members_append, Bin.members_cons, List.nodup_append, List.nodup_append] at nodup
  obtain ⟨-, ⟨-, -, ownApart⟩, apart⟩ := nodup
  have other : ∀ c ∈ pre ++ [b], ∀ x ∈ c.events, x ≠ e := by
    rintro c member x inside rfl
    apply new
    rw [List.append_cons, Bin.members_append, List.mem_append]
    exact .inl (Bin.mem_members.mpr ⟨c, member, inside⟩)
  -- The new bins follow the event, and the bin before now leads to it.
  have newBehind : e ∉ Bin.members post := fun member => new (by simp [member])
  have notBehind : b.top ∉ Bin.members (Bin.grow (fun x => q.due priority x) e post) := by
    rw [Bin.members_grow, List.mem_cons, not_or]
    exact ⟨other b (by simp) b.top b.top_mem,
      fun member => ownApart b.top b.top_mem b.top member rfl⟩
  have grown : Linked (EventQueue.insertBefore priority e (q.nextBin b.top) q) (some e)
      (Bin.grow (fun x => q.due priority x) e post) := rep.linked.behind.insertBefore newBehind
  have follow := grown.update
    (r := { EventQueue.insertBefore priority e (q.nextBin b.top) q with
      nextBin := Function.update (EventQueue.insertBefore priority e (q.nextBin b.top) q).nextBin
        b.top (some e) }) notBehind rfl (Function.update_eq_self _ _).symm
  constructor
  · have linked := rep.linked.splice follow (Function.update_self ..) (fun c inPre => ?_)
      (fun c member x inside => ?_)
    · show Linked _ (EventQueue.insertBefore priority e (q.nextBin b.top) q).head _
      rw [insertBefore_head]
      exact linked
    · have differ : c.top ≠ b.top := by
        intro same
        refine apart c.top (Bin.mem_members.mpr ⟨c, inPre, c.top_mem⟩) c.top ?_ rfl
        simp [same, b.top_mem]
      show Function.update _ b.top _ c.top = _
      rw [Function.update_of_ne differ]
      exact (insertBefore_others (other c (by simp [inPre]) c.top c.top_mem)).1
    · exact (insertBefore_others (other c member x inside)).2
  · have same : SameFields q (EventQueue.insertBefore priority e (q.nextBin b.top) q) :=
      insertBefore_sameFields
    have ordered := rep.ordered
    rw [List.append_cons] at ordered new ⊢
    exact SameFields.ordered ⟨same.1, same.2, same.3, same.4⟩ (ordered.grow new after upTo)

/-- An event that is in no bin is put in its place. -/
theorem Rep.insert (rep : Rep priority q bins) (new : e ∉ Bin.members bins)
    (enough : bins.length ≤ fuel) :
    ∃ r grown, insert priority fuel e q = .ok r ∧ SameFields q r ∧ Rep priority r grown ∧
      Bin.members grown = (Bin.members bins).orderedInsert
        (fun l r => (q.due priority l).NotAfter (q.due priority r)) e := by
  have same : ∀ p, SameFields q (insertBefore priority e p q) := fun _ => insertBefore_sameFields
  have ordered : Bin.Ordered (fun x => q.due priority x) ([] ++ bins) := rep.ordered
  have head := rep.linked.head
  cases bins with
  | nil =>
    have none : q.head = none := head
    refine ⟨_, _, ?_, ?_, rep.insert_first new (by simp), ?_⟩
    · rw [EventQueue.insert, none]
    · exact ⟨(same _).1, (same _).2, (same _).3, (same _).4⟩
    · exact ordered.members_grow_eq (by simp) (by simp)
  | cons b bins =>
    have first : q.head = some b.top := head
    by_cases notAfter : (q.due priority e).NotAfter (q.due priority b.top)
    · have upTo : ∀ c ∈ (b :: bins).head?, ¬(q.due priority c.top).Before (q.due priority e) := by
        intro c isFirst
        cases isFirst
        rw [Due.not_before]
        exact notAfter
      refine ⟨_, _, ?_, ?_, rep.insert_first new upTo, ?_⟩
      · rw [EventQueue.insert, first]
        simp only [if_pos notAfter]
      · exact ⟨(same _).1, (same _).2, (same _).3, (same _).4⟩
      · exact ordered.members_grow_eq (by simp) upTo
    · have after : (q.due priority b.top).Before (q.due priority e) := by
        rw [← Due.not_before, not_not] at notAfter
        exact notAfter
      obtain ⟨pre, c, post, split, walked, below, above⟩ :=
        walkBins_eq rep.linked.rest (Nat.le_of_succ_le enough) after
      rw [split] at rep new
      refine ⟨_, _, ?_, ?_, rep.insert_behind new below above, ?_⟩
      · rw [EventQueue.insert, first]
        simp only [if_neg notAfter, walked]
        rfl
      · exact ⟨(same _).1, (same _).2, (same _).3, (same _).4⟩
      · have ordered := rep.ordered
        rw [List.append_cons] at ordered
        rw [split, List.append_cons pre c post, List.append_cons pre c (Bin.grow _ _ _)]
        exact ordered.members_grow_eq below above

theorem walkInBin_eq {curr : E} {below : List E}
    (path : Path q.nextInBin (q.nextInBin curr) below none) (inside : e ∈ below)
    (enough : below.length ≤ fuel) :
    ∃ xs x ys, curr :: below = xs ++ x :: e :: ys ∧
      walkInBin e q fuel curr (q.nextInBin curr) = .ok x := by
  -- The induction follows the events down the bin, and the steps allowed go down with them.
  induction below generalizing curr fuel with
  | nil => simp at inside
  | cons next below ih =>
    obtain ⟨here, path⟩ := path
    rw [here]
    by_cases found : e = next
    · subst found
      refine ⟨[], curr, below, rfl, ?_⟩
      rw [walkInBin.eq_def]
      simp
    · obtain ⟨fuel, rfl⟩ : ∃ n, fuel = n + 1 := ⟨fuel - 1, by simp at enough; omega⟩
      obtain ⟨xs, x, ys, split, walked⟩ := ih path
        (by simpa [found] using inside) (by simpa using enough)
      refine ⟨curr :: xs, x, ys, by rw [split, List.cons_append], ?_⟩
      rw [walkInBin, if_neg found]
      exact walked

theorem Linked.removeTop (linked : Linked q (some b.top) (b :: post))
    (nodup : (Bin.members (b :: post)).Nodup) :
    ∃ next r, removeItem fuel b.top b.top q = .ok (next, r) ∧ SameFields q r ∧ r.head = q.head ∧
      Linked r next (Bin.shrink b.top b ++ post) ∧
      ∀ x, x ∉ b.events → r.nextBin x = q.nextBin x ∧ r.nextInBin x = q.nextInBin x := by
  have gone : b.events.erase b.top = b.below := List.erase_cons_head ..
  have pile := linked.piles b (by simp)
  rw [EventQueue.removeItem, if_pos rfl]
  cases below : b.below with
  | nil =>
    have last : q.nextInBin b.top = none := by simpa [below] using pile
    rw [last, Bin.shrink_nil (gone.trans below)]
    exact ⟨_, _, rfl, ⟨rfl, rfl, rfl, rfl⟩, rfl, linked.rest, fun _ _ => ⟨rfl, rfl⟩⟩
  | cons n rest =>
    rw [below] at pile
    obtain ⟨next, path⟩ := pile
    rw [next, Bin.shrink_cons (gone.trans below)]
    have inside : n ∈ b.events := by simp [Bin.events, below]
    have notBehind : n ∉ Bin.members post := by
      rw [Bin.members_cons, List.nodup_append] at nodup
      exact fun member => nodup.2.2 n inside n member rfl
    have follow := linked.rest.update (r := { q with
      nextBin := Function.update q.nextBin n (q.nextBin b.top) }) notBehind rfl
      (Function.update_eq_self _ _).symm
    refine ⟨_, _, rfl, ⟨rfl, rfl, rfl, rfl⟩, rfl, follow.cons (b := ⟨n, rest⟩)
      (Function.update_self ..) path, fun x outside => ⟨?_, rfl⟩⟩
    have differ : x ≠ n := by
      rintro rfl
      exact outside inside
    exact Function.update_of_ne differ ..

/-- Taking an event from below the top leaves the top of the bin in its place. -/
theorem Linked.removeBelow (linked : Linked q (some b.top) (b :: post)) (inside : e ∈ b.below)
    (other : e ≠ b.top) (nodup : (Bin.members (b :: post)).Nodup)
    (enough : b.below.length ≤ fuel) :
    ∃ next r, removeItem fuel e b.top q = .ok (next, r) ∧ SameFields q r ∧ r.head = q.head ∧
      Linked r next (Bin.shrink e b ++ post) ∧
      ∀ x, x ∉ b.events → r.nextBin x = q.nextBin x ∧ r.nextInBin x = q.nextInBin x := by
  have pile := linked.piles b (by simp)
  obtain ⟨xs, x, ys, split, walked⟩ := walkInBin_eq pile inside enough
  rw [Bin.members_cons, List.nodup_append] at nodup
  obtain ⟨own, -, apart⟩ := nodup
  have isInside : x ∈ b.events := by
    rw [Bin.events, split]
    simp
  rw [EventQueue.removeItem, if_neg other, walked]
  refine ⟨_, _, rfl, ⟨rfl, rfl, rfl, rfl⟩, rfl, ?_, fun y outside => ⟨rfl, ?_⟩⟩
  · have whole : Path q.nextInBin (some b.top) (xs ++ x :: e :: ys) none := by
      rw [← split]
      exact ⟨rfl, pile⟩
    have nodup : (xs ++ x :: e :: ys).Nodup := by
      rw [← split]
      exact own
    have path := path_remove whole nodup
    have erased : b.events.erase e = xs ++ x :: ys := by
      rw [Bin.events, split, List.append_cons]
      rw [List.append_cons, List.nodup_append] at nodup
      rw [List.erase_append_right, List.erase_cons_head, ← List.append_cons]
      exact fun member => nodup.2.2 e member e (by simp) rfl
    have notBehind : x ∉ Bin.members post := fun member => apart x isInside x member rfl
    have follow := linked.rest.update (r := { q with
      nextInBin := Function.update q.nextInBin x (q.nextInBin e) }) notBehind
      (Function.update_eq_self _ _).symm rfl
    cases kept : xs ++ x :: ys with
    | nil => simp at kept
    | cons n rest =>
      -- The top of the bin is not the event that is taken out.
      rw [kept] at path
      have isTop : b.top = n := Option.some.inj path.1
      rw [Bin.shrink_cons (erased.trans kept), isTop]
      exact follow.cons (b := ⟨n, rest⟩) (isTop ▸ rfl) path.2
  · have differ : y ≠ x := by
      rintro rfl
      exact outside isInside
    exact Function.update_of_ne differ ..

theorem Linked.removeItem (linked : Linked q (some b.top) (b :: post)) (inside : e ∈ b.events)
    (nodup : (Bin.members (b :: post)).Nodup) (enough : b.below.length ≤ fuel) :
    ∃ next r, removeItem fuel e b.top q = .ok (next, r) ∧ SameFields q r ∧ r.head = q.head ∧
      Linked r next (Bin.shrink e b ++ post) ∧
      ∀ x, x ∉ b.events → r.nextBin x = q.nextBin x ∧ r.nextInBin x = q.nextInBin x := by
  by_cases isTop : e = b.top
  · subst isTop
    exact linked.removeTop nodup
  · exact linked.removeBelow ((List.mem_cons.mp inside).resolve_left isTop) isTop nodup enough

theorem Rep.remove_first (rep : Rep priority q (b :: post)) (inside : e ∈ b.events)
    (enough : (Bin.members (b :: post)).length ≤ fuel) :
    ∃ next r, removeItem fuel e b.top q = .ok (next, r) ∧ SameFields q r ∧
      Rep priority { r with head := next } (Bin.shrink e b ++ post) := by
  have leads := rep.linked
  rw [leads.head] at leads
  have short : b.below.length ≤ fuel := by
    simp only [Bin.members_cons, Bin.events, List.length_append, List.length_cons] at enough
    omega
  obtain ⟨next, r, removed, same, -, linked, -⟩ :=
    leads.removeItem inside rep.ordered.nodup short
  refine ⟨next, r, removed, same, ⟨linked.tops, linked.piles⟩, ?_⟩
  have ordered : Bin.Ordered (fun x => q.due priority x) ([] ++ b :: post) := rep.ordered
  exact SameFields.ordered ⟨same.1, same.2, same.3, same.4⟩ (ordered.shrink inside)

/-- An event of a later bin is taken out there, and the bin before leads to what is left. -/
theorem Rep.remove_behind {c : Bin E} (rep : Rep priority q (pre ++ c :: b :: post))
    (inside : e ∈ b.events) (enough : (Bin.members (pre ++ c :: b :: post)).length ≤ fuel) :
    ∃ next r, removeItem fuel e b.top q = .ok (next, r) ∧ SameFields q r ∧
      Rep priority { r with nextBin := Function.update r.nextBin c.top next }
        (pre ++ c :: (Bin.shrink e b ++ post)) := by
  have leads := rep.linked.behind
  rw [leads.head] at leads
  have short : b.below.length ≤ fuel := by
    simp only [Bin.members_append, Bin.members_cons, Bin.events, List.length_append,
      List.length_cons] at enough
    omega
  have nodup := rep.ordered.nodup
  rw [Bin.members_append, Bin.members_cons, List.nodup_append, List.nodup_append] at nodup
  obtain ⟨-, ⟨-, behind, ownApart⟩, apart⟩ := nodup
  -- The bin loses the event, and what leads to it must name its new top.
  obtain ⟨next, r, removed, same, sameHead, linked, others⟩ := leads.removeItem inside behind short
  refine ⟨next, r, removed, same, ?_, ?_⟩
  · -- No event before is touched, and none of them is left behind the bin.
    have outside : ∀ d ∈ pre ++ [c], ∀ x ∈ d.events, x ∉ b.events := by
      intro d member x within twice
      rw [List.mem_append, List.mem_singleton] at member
      obtain inPre | rfl := member
      · exact apart x (Bin.mem_members.mpr ⟨d, inPre, within⟩) x (by simp [twice]) rfl
      · exact ownApart x within x (by simp [twice]) rfl
    have notBehind : c.top ∉ Bin.members (Bin.shrink e b ++ post) := by
      rw [Bin.members_append, Bin.members_shrink, List.mem_append, not_or]
      constructor
      · exact fun member =>
          outside c (by simp) c.top c.top_mem (List.mem_of_mem_erase member)
      · exact fun member => ownApart c.top c.top_mem c.top (by simp [member]) rfl
    have follow := linked.update (r := { r with
      nextBin := Function.update r.nextBin c.top next }) notBehind rfl
      (Function.update_eq_self _ _).symm
    have joined := rep.linked.splice follow (Function.update_self ..) (fun d inPre => ?_)
      (fun d member x within => (others x (outside d member x within)).2)
    · show Linked _ r.head _
      rw [sameHead]
      exact ⟨joined.tops, joined.piles⟩
    · have differ : d.top ≠ c.top := by
        intro twice
        refine apart d.top (Bin.mem_members.mpr ⟨d, inPre, d.top_mem⟩) d.top ?_ rfl
        simp [twice, c.top_mem]
      show Function.update _ c.top _ d.top = _
      rw [Function.update_of_ne differ]
      exact (others d.top (outside d (by simp [inPre]) d.top d.top_mem)).1
  · have ordered := rep.ordered
    rw [List.append_cons] at ordered ⊢
    exact SameFields.ordered ⟨same.1, same.2, same.3, same.4⟩ (ordered.shrink inside)

/-- An event that is in a bin is taken out. -/
theorem Rep.remove (rep : Rep priority q bins) (member : e ∈ Bin.members bins)
    (enough : (Bin.members bins).length ≤ fuel) :
    ∃ r rest, remove priority fuel e q = .ok r ∧ SameFields q r ∧ Rep priority r rest ∧
      Bin.members rest = (Bin.members bins).erase e := by
  have head := rep.linked.head
  cases bins with
  | nil => simp at member
  | cons b bins =>
    have first : q.head = some b.top := head
    rw [EventQueue.remove, first]
    by_cases here : q.due priority b.top = q.due priority e
    · have ordered : Bin.Ordered (fun x => q.due priority x) ([] ++ b :: bins) := rep.ordered
      have inside : e ∈ b.events := ordered.mem_events member here
      obtain ⟨next, r, removed, same, rest⟩ := rep.remove_first inside enough
      refine ⟨_, _, ?_, ?_, rest, ?_⟩
      · simp only [if_pos here, removed]
        rfl
      · exact ⟨same.1, same.2, same.3, same.4⟩
      · exact ordered.members_shrink_eq inside
    · have after := rep.ordered.after_first member here
      have short : bins.length ≤ fuel := by
        have := Bin.length_le_members (b :: bins)
        simp only [List.length_cons] at this
        omega
      obtain ⟨pre, c, post, split, walked, below, above⟩ :=
        walkBins_eq rep.linked.rest short after
      rw [split] at rep member enough ⊢
      have ordered := rep.ordered
      have memberToo := member
      rw [List.append_cons] at ordered memberToo
      obtain ⟨d, rest, rfl, found, inside⟩ := ordered.mem_next memberToo below above
      have next : q.nextBin c.top = some d.top := rep.linked.behind.head
      obtain ⟨next', r, removed, same, left⟩ := rep.remove_behind inside enough
      refine ⟨_, _, ?_, ?_, left, ?_⟩
      · simp only [if_neg here, walked, bind, Except.bind, next, found, ne_eq, not_true_eq_false,
          if_false, removed]
        rfl
      · exact ⟨same.1, same.2, same.3, same.4⟩
      · rw [List.append_cons pre c (d :: rest), List.append_cons pre c (_ ++ rest)]
        exact ordered.members_shrink_eq inside

/-- The bins of a queue, one after the other, are a list of events. -/
structure Stands (priority : E → Int) (q : EventQueue E) (a : Agenda E) : Prop where
  bins : ∃ bins, Rep priority q bins ∧ a.events = Bin.members bins
  curTick : a.curTick = q.curTick
  when : a.when = q.when
  squashed : a.squashed = q.squashed

/-- A queue stands for a list of events: each event that is scheduled is in one bin, once. -/
structure Represents (priority : E → Int) (q : EventQueue E) (a : Agenda E) : Prop
    extends Stands priority q a where
  scheduled : ∀ e, q.scheduled e = true ↔ e ∈ a.events

/-- The queue does what is done to the list. -/
def Agrees (priority : E → Int) (onList : Except Misuse (Agenda E × List (Served E)))
    (onBins : Except EventFault (EventQueue E × List (Served E))) : Prop :=
  match onList, onBins with
  | .ok (a, served), .ok (q, servedToo) => servedToo = served ∧ Represents priority q a
  | .error fault, .error faultToo => faultToo = .misuse fault
  | _, _ => False

omit [DecidableEq E] in
theorem start_represents : Represents priority (start : EventQueue E) .start where
  bins := ⟨[], ⟨⟨rfl, by simp⟩, ⟨by simp, by simp, by simp⟩⟩, rfl⟩
  curTick := rfl
  when := rfl
  squashed := rfl
  scheduled := fun e => by simp [start, Agenda.start]

variable {a : Agenda E}

theorem Rep.setWhen (when : Nat) (rep : Rep priority q bins) (new : e ∉ Bin.members bins) :
    Rep priority { q with when := Function.update q.when e when } bins := by
  have same : ∀ x ∈ Bin.members bins,
      due priority x { q with when := Function.update q.when e when } = q.due priority x := by
    intro x member
    have differ : x ≠ e := by
      rintro rfl
      exact new member
    simp [due, Function.update_of_ne differ]
  have sameTop : ∀ b ∈ bins, due priority b.top { q with when := Function.update q.when e when } =
      q.due priority b.top := fun b member =>
    same b.top (Bin.mem_members.mpr ⟨b, member, b.top_mem⟩)
  refine ⟨⟨rep.linked.tops, rep.linked.piles⟩, fun b member x inside => ?_, ?_, rep.ordered.nodup⟩
  · show due priority x _ = due priority b.top _
    rw [same x (Bin.mem_members.mpr ⟨b, member, inside⟩), sameTop b member]
    exact rep.ordered.alike b member x inside
  · refine rep.ordered.increasing.imp_of_mem fun {b c} member memberToo before => ?_
    show (due priority b.top _).Before (due priority c.top _)
    rw [sameTop b member, sameTop c memberToo]
    exact before

theorem Stands.insert (when : Nat) (stands : Stands priority q a) (new : e ∉ a.events)
    (enough : a.events.length ≤ fuel) :
    ∃ r, EventQueue.insert priority fuel e { q with when := Function.update q.when e when } =
        .ok r ∧ Stands priority r (a.insert priority e when) ∧ r.scheduled = q.scheduled := by
  obtain ⟨bins, rep, listed⟩ := stands.bins
  rw [listed] at new enough
  obtain ⟨r, grown, inserted, same, repToo, members⟩ := (rep.setWhen when new).insert new
    ((Bin.length_le_members bins).trans enough)
  refine ⟨r, inserted, ⟨⟨grown, repToo, ?_⟩, ?_, ?_, ?_⟩, same.scheduled⟩
  · rw [members, ← listed]
    unfold Agenda.insert Agenda.due
    rw [stands.when]
    rfl
  · exact stands.curTick.trans same.curTick.symm
  · rw [same.when]
    simp only [Agenda.insert, stands.when]
  · exact stands.squashed.trans same.squashed.symm

theorem Stands.remove (stands : Stands priority q a) (member : e ∈ a.events)
    (enough : a.events.length ≤ fuel) :
    ∃ r, EventQueue.remove priority fuel e q = .ok r ∧ Stands priority r (a.remove e) ∧
      r.scheduled = q.scheduled := by
  obtain ⟨bins, rep, listed⟩ := stands.bins
  rw [listed] at member enough
  obtain ⟨r, rest, removed, same, repToo, members⟩ := rep.remove member enough
  refine ⟨r, removed, ⟨⟨rest, repToo, ?_⟩, ?_, ?_, ?_⟩, same.scheduled⟩
  · rw [members, ← listed]
    rfl
  · exact stands.curTick.trans same.curTick.symm
  · exact stands.when.trans same.when.symm
  · exact stands.squashed.trans same.squashed.symm

omit [DecidableEq E] in
theorem Stands.nodup (stands : Stands priority q a) : a.events.Nodup := by
  obtain ⟨bins, rep, listed⟩ := stands.bins
  rw [listed]
  exact rep.ordered.nodup

omit [DecidableEq E] in
theorem Stands.flags {scheduled squashed : E → Bool} (stands : Stands priority q a) :
    Stands priority { q with scheduled, squashed } { a with squashed } := by
  obtain ⟨bins, rep, listed⟩ := stands.bins
  exact ⟨⟨bins, ⟨⟨rep.linked.tops, rep.linked.piles⟩, ⟨rep.ordered.alike, rep.ordered.increasing,
    rep.ordered.nodup⟩⟩, listed⟩, stands.curTick, stands.when, rfl⟩

theorem serviceOne_eq {next : Option E} {r : EventQueue E} (first : q.head = some e)
    (removed : removeItem fuel e e q = .ok (next, r)) :
    serviceOne q = .ok
      (if !q.squashed e then
        { r with
          head := next
          scheduled := Function.update q.scheduled e false
          curTick := q.when e }
      else
        { r with
          head := next
          scheduled := Function.update q.scheduled e false
          squashed := Function.update q.squashed e false },
        { event := e, tick := q.when e, handled := !q.squashed e }) := by
  rw [removeItem, if_pos rfl] at removed
  unfold serviceOne
  cases below : q.nextInBin e with
  | none =>
    rw [below] at removed
    cases removed
    simp only [first, below]
    split_ifs <;> rfl
  | some n =>
    rw [below] at removed
    cases removed
    simp only [first, below]
    split_ifs <;> rfl

/-- The queue services the first event of the list. -/
theorem Represents.serviceOne {events : List E} (represents : Represents priority q a)
    (first : a.events = e :: events) :
    ∃ r, EventQueue.serviceOne q = .ok (r, ⟨e, a.when e, !a.squashed e⟩) ∧
      Represents priority r (if !a.squashed e then { a with events, curTick := a.when e }
        else ({ a with events }).unsquash e) := by
  obtain ⟨bins, rep, listed⟩ := represents.bins
  cases bins with
  | nil => simp [first] at listed
  | cons b bins =>
    have isTop : e = b.top ∧ events = b.below ++ Bin.members bins := by
      rw [first] at listed
      simpa [Bin.events] using listed
    obtain ⟨rfl, rfl⟩ := isTop
    have head : q.head = some b.top := rep.linked.head
    obtain ⟨next, r, removed, same, left⟩ := rep.remove_first b.top_mem le_rfl
    have members : Bin.members (Bin.shrink b.top b ++ bins) = b.below ++ Bin.members bins := by
      rw [Bin.members_append, Bin.members_shrink, Bin.events, List.erase_cons_head]
    have gone : b.top ∉ b.below ++ Bin.members bins := by
      have nodup := represents.nodup
      rw [first, List.nodup_cons] at nodup
      exact nodup.1
    have scheduled : ∀ x, Function.update q.scheduled b.top false x = true ↔
        x ∈ b.below ++ Bin.members bins := by
      intro x
      by_cases own : x = b.top
      · rw [own, Function.update_self]
        simpa using gone
      · rw [Function.update_of_ne own, represents.scheduled x, first, List.mem_cons]
        simp [own]
    have repToo : ∀ curTick squashed, Rep priority { r with
        head := next
        scheduled := Function.update q.scheduled b.top false
        curTick := curTick
        squashed := squashed } (Bin.shrink b.top b ++ bins) := fun _ _ =>
      ⟨⟨left.linked.tops, left.linked.piles⟩, ⟨left.ordered.alike, left.ordered.increasing,
        left.ordered.nodup⟩⟩
    rw [serviceOne_eq head removed, represents.when, represents.squashed]
    refine ⟨_, rfl, ?_⟩
    split_ifs
    · exact ⟨⟨⟨_, repToo _ _, members.symm⟩, rfl, same.when.symm, same.squashed.symm⟩, scheduled⟩
    · refine ⟨⟨⟨_, repToo _ _, members.symm⟩, ?_, same.when.symm, rfl⟩, scheduled⟩
      exact represents.curTick.trans same.curTick.symm

omit [DecidableEq E] in
theorem Represents.flag_of_mem (represents : Represents priority q a) (listed : e ∈ a.events) :
    q.scheduled e = true :=
  (represents.scheduled e).mpr listed

omit [DecidableEq E] in
theorem Represents.flag_of_not_mem (represents : Represents priority q a)
    (absent : e ∉ a.events) : q.scheduled e = false := by
  rw [← Bool.not_eq_true, represents.scheduled e]
  exact absent

theorem scheduled_insert {scheduled : E → Bool} {when : Nat}
    (flags : ∀ x, x ≠ e → (scheduled x = true ↔ x ∈ a.events)) (x : E) :
    Function.update scheduled e true x = true ↔ x ∈ (a.insert priority e when).events := by
  simp only [Agenda.insert, List.mem_orderedInsert]
  by_cases own : x = e
  · simp [own]
  · rw [Function.update_of_ne own, flags x own]
    simp [own]

theorem Represents.schedule {when : Nat} (represents : Represents priority q a)
    (enough : a.events.length ≤ fuel) :
    Agrees priority (a.step priority (.schedule e when))
      (EventQueue.step priority fuel q (.schedule e when)) := by
  by_cases past : when < q.curTick
  · simp [Agenda.step, EventQueue.step, EventQueue.schedule, represents.curTick, past, Agrees,
      bind, Except.bind]
  · by_cases listed : e ∈ a.events
    · simp [Agenda.step, EventQueue.step, EventQueue.schedule, represents.curTick, past, Agrees,
        bind, Except.bind, listed, represents.flag_of_mem listed]
    · obtain ⟨r, inserted, stands, flags⟩ :=
        represents.toStands.insert when listed enough
      simp only [Agenda.step, EventQueue.step, EventQueue.schedule, represents.curTick, past,
        if_false, listed, represents.flag_of_not_mem listed, inserted, Bool.false_eq_true]
      refine ⟨rfl, ⟨stands.flags.bins, stands.curTick, stands.when, stands.squashed⟩, ?_⟩
      apply scheduled_insert
      rw [flags]
      exact fun x _ => represents.scheduled x

theorem Represents.deschedule (represents : Represents priority q a)
    (enough : a.events.length ≤ fuel) :
    Agrees priority (a.step priority (.deschedule e))
      (EventQueue.step priority fuel q (.deschedule e)) := by
  by_cases listed : e ∈ a.events
  · obtain ⟨r, removed, stands, flags⟩ := represents.toStands.remove listed enough
    simp only [Agenda.step, EventQueue.step, EventQueue.deschedule, listed, not_true_eq_false,
      if_false, represents.flag_of_mem listed, Bool.not_true, Bool.false_eq_true, removed]
    refine ⟨rfl, ⟨stands.flags.bins, stands.curTick, stands.when, ?_⟩, fun x => ?_⟩
    · simp only [Agenda.unsquash, stands.squashed]
    · show Function.update r.scheduled e false x = true ↔ x ∈ a.events.erase e
      rw [flags, represents.nodup.mem_erase_iff]
      by_cases own : x = e
      · simp [own]
      · simp [own, represents.scheduled x]
  · simp [Agenda.step, EventQueue.step, EventQueue.deschedule, Agrees, bind, Except.bind, listed,
      represents.flag_of_not_mem listed]

theorem Represents.removeScheduled (represents : Represents priority q a)
    (enough : a.events.length ≤ fuel) :
    ∃ r, EventQueue.removeScheduled priority fuel e q = .ok r ∧
      Stands priority r (a.remove e) ∧ r.scheduled = q.scheduled := by
  by_cases listed : e ∈ a.events
  · obtain ⟨r, removed, stands, flags⟩ := represents.toStands.remove listed enough
    refine ⟨r, ?_, stands, flags⟩
    rw [EventQueue.removeScheduled, if_pos (represents.flag_of_mem listed), removed]
  · refine ⟨q, ?_, ?_, rfl⟩
    · rw [EventQueue.removeScheduled, represents.flag_of_not_mem listed]
      rfl
    · rw [Agenda.remove, List.erase_of_not_mem listed]
      exact represents.toStands

theorem Represents.reschedule {when : Nat} {always : Bool} (represents : Represents priority q a)
    (enough : a.events.length ≤ fuel) :
    Agrees priority (a.step priority (.reschedule e when always))
      (EventQueue.step priority fuel q (.reschedule e when always)) := by
  have flag : q.scheduled e = decide (e ∈ a.events) := by
    rw [Bool.eq_iff_iff, represents.scheduled e, decide_eq_true_iff]
  simp only [Agenda.step, EventQueue.step, EventQueue.reschedule, represents.curTick, flag]
  by_cases past : when < q.curTick
  · simp [past, Agrees, bind, Except.bind]
  · by_cases refused : (!(always || decide (e ∈ a.events))) = true
    · simp only [past, if_false, refused, if_true]
      rfl
    · obtain ⟨r, removed, stands, flags⟩ := represents.removeScheduled enough
      have absent : e ∉ (a.remove e).events := fun member =>
        (represents.nodup.mem_erase_iff.mp member).1 rfl
      have short : (a.remove e).events.length ≤ fuel :=
        (List.length_erase_le).trans enough
      obtain ⟨t, inserted, standsToo, flagsToo⟩ := stands.insert when absent short
      simp only [past, if_false, refused, removed, bind, Except.bind, inserted]
      refine ⟨rfl, ⟨standsToo.flags.bins, standsToo.curTick, standsToo.when, ?_⟩, ?_⟩
      · simp only [Agenda.unsquash, standsToo.squashed]
      · apply scheduled_insert
        intro x other
        rw [flagsToo, flags, represents.scheduled x]
        exact (List.mem_erase_of_ne other).symm

theorem Represents.step (represents : Represents priority q a) (op : EventOp E)
    (enough : a.events.length ≤ fuel) :
    Agrees priority (a.step priority op) (EventQueue.step priority fuel q op) := by
  cases op with
  | schedule e when => exact represents.schedule enough
  | deschedule e => exact represents.deschedule enough
  | reschedule e when always => exact represents.reschedule enough
  | squash e =>
    refine ⟨rfl, ⟨represents.flags.bins, represents.curTick, represents.when, ?_⟩,
      represents.scheduled⟩
    rw [represents.squashed]
  | serviceOne =>
    cases first : a.events with
    | nil =>
      obtain ⟨bins, rep, listed⟩ := represents.bins
      have none : q.head = none := by
        cases bins with
        | nil => exact rep.linked.head
        | cons b bins => simp [first, Bin.events] at listed
      simp [Agenda.step, first, EventQueue.step, EventQueue.serviceOne, none, Agrees, bind,
        Except.bind]
    | cons e events =>
      obtain ⟨r, served, represents⟩ := represents.serviceOne first
      simp only [Agenda.step, first, EventQueue.step, served, bind, Except.bind]
      split_ifs at represents ⊢
      · exact ⟨rfl, represents⟩
      · exact ⟨rfl, represents⟩

end EventQueue

namespace Agenda

variable {E : Type} [DecidableEq E] {priority : E → Int} {a : Agenda E}

/-- The events are in their order, each of them once, and none is due before the current tick. -/
structure Timely (priority : E → Int) (a : Agenda E) : Prop where
  sorted : a.events.Pairwise fun l r => (a.due priority l).NotAfter (a.due priority r)
  nodup : a.events.Nodup
  future : ∀ e ∈ a.events, a.curTick ≤ a.when e

/-- What a step leaves and hands on: time goes on, up to the tick of what is handled. -/
structure Advances (priority : E → Int) (a b : Agenda E) (served : List (Served E)) : Prop where
  timely : Timely priority b
  length : b.events.length ≤ a.events.length + 1
  later : a.curTick ≤ b.curTick
  handled : ∀ s ∈ served, s.handled = true → s.tick = b.curTick
  single : served.length ≤ 1

omit [DecidableEq E] in
theorem start_timely : Timely priority (start : Agenda E) :=
  ⟨by simp [start], by simp [start], by simp [start]⟩

theorem mem_insert {e x : E} {when : Nat} :
    x ∈ (a.insert priority e when).events ↔ x = e ∨ x ∈ a.events := by
  simp [insert]

theorem length_insert {e : E} {when : Nat} :
    (a.insert priority e when).events.length = a.events.length + 1 := by
  simp [insert, List.orderedInsert_length]

theorem Timely.insert {e : E} {when : Nat} (timely : Timely priority a) (new : e ∉ a.events)
    (future : a.curTick ≤ when) : Timely priority (a.insert priority e when) := by
  have other : ∀ x ∈ a.events, x ≠ e := by
    rintro x member rfl
    exact new member
  refine ⟨?_, ?_, fun x member => ?_⟩
  · -- The events that were there are due when they were before.
    have kept : a.events.Pairwise fun l r =>
        (due priority l { a with when := Function.update a.when e when }).NotAfter
          (due priority r { a with when := Function.update a.when e when }) := by
      refine timely.sorted.imp_of_mem fun {l r} member memberToo notAfter => ?_
      simp only [due, Function.update_of_ne (other l member),
        Function.update_of_ne (other r memberToo)]
      exact notAfter
    have : Std.Total fun l r : E =>
        (due priority l { a with when := Function.update a.when e when }).NotAfter
          (due priority r { a with when := Function.update a.when e when }) :=
      ⟨fun l r => Due.notAfter_total _ _⟩
    have : IsTrans E fun l r : E =>
        (due priority l { a with when := Function.update a.when e when }).NotAfter
          (due priority r { a with when := Function.update a.when e when }) :=
      ⟨fun _ _ _ first second => first.trans second⟩
    exact kept.orderedInsert e _
  · have perm := List.perm_orderedInsert (fun l r : E =>
      (due priority l { a with when := Function.update a.when e when }).NotAfter
        (due priority r { a with when := Function.update a.when e when })) e a.events
    exact perm.nodup_iff.mpr (List.nodup_cons.mpr ⟨new, timely.nodup⟩)
  · show a.curTick ≤ Function.update a.when e when x
    obtain rfl | inside := mem_insert.mp member
    · rw [Function.update_self]
      exact future
    · rw [Function.update_of_ne (other x inside)]
      exact timely.future x inside

theorem Timely.remove (timely : Timely priority a) (e : E) : Timely priority (a.remove e) :=
  ⟨timely.sorted.sublist List.erase_sublist, timely.nodup.erase e,
    fun x member => timely.future x (List.mem_of_mem_erase member)⟩

theorem Timely.unsquash (timely : Timely priority a) (e : E) : Timely priority (a.unsquash e) :=
  ⟨timely.sorted, timely.nodup, timely.future⟩

omit [DecidableEq E] in
theorem Timely.serviceOne {e : E} {events : List E} (timely : Timely priority a)
    (first : a.events = e :: events) : Timely priority { a with events, curTick := a.when e } := by
  have sorted := timely.sorted
  have nodup := timely.nodup
  rw [first, List.pairwise_cons] at sorted
  rw [first, List.nodup_cons] at nodup
  refine ⟨sorted.2, nodup.2, fun x member => ?_⟩
  have notBefore := sorted.1 x member
  simp only [Due.NotAfter, due] at notBefore
  show a.when e ≤ a.when x
  omega

variable {served : List (Served E)} {ops : List (EventOp E)}

/-- Every operation keeps the events in their order and lets time go on. -/
theorem Timely.step {b : Agenda E} {op : EventOp E} (timely : Timely priority a)
    (taken : a.step priority op = .ok (b, served)) :
    Advances priority a b served := by
  cases op with
  | schedule e when =>
    simp only [Agenda.step] at taken
    split_ifs at taken with past listed
    cases taken
    exact ⟨timely.insert listed (by omega), length_insert.le, le_rfl, by simp, by simp⟩
  | deschedule e =>
    simp only [Agenda.step] at taken
    split_ifs at taken with listed
    cases taken
    exact ⟨(timely.remove e).unsquash e, Nat.le_succ_of_le List.length_erase_le, le_rfl, by simp,
      by simp⟩
  | reschedule e when always =>
    simp only [Agenda.step] at taken
    split_ifs at taken with past refused
    cases taken
    have absent : e ∉ (a.remove e).events := fun member =>
      (timely.nodup.mem_erase_iff.mp member).1 rfl
    refine ⟨((timely.remove e).insert absent (not_lt.mp past)).unsquash e, ?_, le_rfl, by simp,
      by simp⟩
    show ((a.remove e).insert priority e when).events.length ≤ _
    rw [length_insert]
    exact Nat.succ_le_succ List.length_erase_le
  | squash e =>
    cases taken
    exact ⟨⟨timely.sorted, timely.nodup, timely.future⟩, Nat.le_succ _, le_rfl, by simp, by simp⟩
  | serviceOne =>
    cases first : a.events with
    | nil => simp [Agenda.step, first] at taken
    | cons e events =>
      simp only [Agenda.step, first] at taken
      have shorter : events.length ≤ a.events.length + 1 := by
        rw [first, List.length_cons]
        omega
      split_ifs at taken with isHandled
      · cases taken
        exact ⟨timely.serviceOne first, shorter, timely.future e (by simp [first]), by simp,
          by simp⟩
      · cases taken
        have rest := timely.remove e
        rw [Agenda.remove, first, List.erase_cons_head] at rest
        refine ⟨rest.unsquash e, shorter, le_rfl, ?_, by simp⟩
        intro s member handled
        rw [List.mem_singleton.mp member] at handled
        exact absurd handled isHandled

theorem run_cons_eq_ok {b : Agenda E}
    {op : EventOp E} : a.run priority (op :: ops) = .ok (b, served) ↔
      ∃ middle first later, a.step priority op = .ok (middle, first) ∧
        middle.run priority ops = .ok (b, later) ∧ served = first ++ later := by
  rw [Agenda.run, Outcome.bind_eq_ok]
  constructor
  · rintro ⟨⟨middle, first⟩, taken, rest⟩
    obtain ⟨⟨last, later⟩, ran, same⟩ := Outcome.bind_eq_ok.mp rest
    cases same
    exact ⟨middle, first, later, taken, ran, rfl⟩
  · rintro ⟨middle, first, later, taken, rest, rfl⟩
    exact ⟨(middle, first), taken, Outcome.bind_eq_ok.mpr ⟨(b, later), rest, rfl⟩⟩

/-- The ticks of the events handled. -/
def handledTicks (served : List (Served E)) : List Nat :=
  (served.filter Served.handled).map Served.tick

/-- The ticks of the events handled in a run never go down. -/
theorem Timely.run {b : Agenda E} (timely : Timely priority a)
    (ran : a.run priority ops = .ok (b, served)) :
    Timely priority b ∧ (handledTicks served).Pairwise (· ≤ ·) ∧
      ∀ tick ∈ handledTicks served, a.curTick ≤ tick := by
  -- What is handled later is handled at the tick the first operation leaves, or after it.
  induction ops generalizing a served with
  | nil =>
    cases ran
    exact ⟨timely, by simp [handledTicks], by simp [handledTicks]⟩
  | cons op ops ih =>
    obtain ⟨middle, first, later, taken, rest, rfl⟩ := run_cons_eq_ok.mp ran
    have advances := timely.step taken
    obtain ⟨timelyToo, sorted, after⟩ := ih advances.timely rest
    have here : ∀ tick ∈ handledTicks first, tick = middle.curTick := by
      intro tick member
      obtain ⟨s, inside, rfl⟩ := List.mem_map.mp member
      rw [List.mem_filter] at inside
      exact advances.handled s inside.1 inside.2
    have atMost : (handledTicks first).Pairwise (· ≤ ·) := by
      refine List.pairwise_of_forall_mem_list fun x member y memberToo => ?_
      rw [here x member, here y memberToo]
    rw [handledTicks, List.filter_append, List.map_append]
    refine ⟨timelyToo, List.pairwise_append.mpr ⟨atMost, sorted, ?_⟩, ?_⟩
    · intro x member y memberToo
      rw [here x member]
      exact after y memberToo
    · intro x member
      obtain inFirst | inLater := List.mem_append.mp member
      · rw [here x inFirst]
        exact advances.later
      · exact advances.later.trans (after x inLater)

theorem Timely.run_length {b : Agenda E} (timely : Timely priority a)
    (ran : a.run priority ops = .ok (b, served)) :
    b.events.length ≤ a.events.length + ops.length := by
  induction ops generalizing a served with
  | nil =>
    cases ran
    exact le_rfl
  | cons op ops ih =>
    obtain ⟨middle, first, later, taken, rest, rfl⟩ := run_cons_eq_ok.mp ran
    have advances := timely.step taken
    have bound := ih advances.timely rest
    have here := advances.length
    rw [List.length_cons]
    omega

/-- An operation that squashes nothing leaves nothing squashed, and handles what it services. -/
theorem clear_of_step {b : Agenda E} {op : EventOp E} (clear : ∀ e, a.squashed e = false)
    (none : ∀ e, op ≠ .squash e) (taken : a.step priority op = .ok (b, served)) :
    (∀ e, b.squashed e = false) ∧ ∀ s ∈ served, s.handled = true := by
  have unsquashed : ∀ e x, Function.update a.squashed e false x = false := by
    intro e x
    rw [Function.update_apply]
    split_ifs
    · rfl
    · exact clear x
  cases op with
  | schedule e when =>
    simp only [Agenda.step] at taken
    split_ifs at taken
    cases taken
    exact ⟨clear, by simp⟩
  | deschedule e =>
    simp only [Agenda.step] at taken
    split_ifs at taken
    cases taken
    exact ⟨unsquashed e, by simp⟩
  | reschedule e when always =>
    simp only [Agenda.step] at taken
    split_ifs at taken
    cases taken
    exact ⟨unsquashed e, by simp⟩
  | squash e => exact absurd rfl (none e)
  | serviceOne =>
    simp only [Agenda.step] at taken
    cases first : a.events with
    | nil => simp [first] at taken
    | cons e events =>
      simp only [first, clear e, Bool.not_false, if_true] at taken
      cases taken
      exact ⟨clear, by simp⟩

theorem handled_of_run {b : Agenda E} (clear : ∀ e, a.squashed e = false)
    (none : ∀ e, .squash e ∉ ops)
    (ran : a.run priority ops = .ok (b, served)) : ∀ s ∈ served, s.handled = true := by
  induction ops generalizing a served with
  | nil =>
    cases ran
    simp
  | cons op ops ih =>
    obtain ⟨middle, first, later, taken, rest, rfl⟩ := run_cons_eq_ok.mp ran
    obtain ⟨clearToo, handled⟩ := clear_of_step clear (fun e same => none e (by simp [same])) taken
    intro s member
    obtain inFirst | inLater := List.mem_append.mp member
    · exact handled s inFirst
    · exact ih clearToo (fun e member => none e (by simp [member])) rest s inLater

end Agenda

namespace EventQueue

variable {E : Type} [DecidableEq E] {priority : E → Int} {q : EventQueue E} {a : Agenda E}
  {fuel : Nat}

/-- A run does to the queue what it does to the list. -/
theorem Represents.run {ops : List (EventOp E)} (represents : Represents priority q a)
    (timely : a.Timely priority) (enough : a.events.length + ops.length ≤ fuel) :
    Agrees priority (a.run priority ops) (EventQueue.run priority fuel q ops) := by
  -- The induction follows the operations, each of which adds at most one event.
  induction ops generalizing q a with
  | nil => exact ⟨rfl, represents⟩
  | cons op ops ih =>
    simp only [List.length_cons] at enough
    have here := represents.step op (by omega : a.events.length ≤ fuel)
    simp only [Agenda.run, EventQueue.run]
    cases onList : a.step priority op with
    | error fault =>
      cases onBins : EventQueue.step priority fuel q op with
      | error faultToo =>
        simp only [onList, onBins] at here
        rw [show faultToo = .misuse fault from here]
        rfl
      | ok result => simp [onList, onBins, Agrees] at here
    | ok result =>
      obtain ⟨b, served⟩ := result
      cases onBins : EventQueue.step priority fuel q op with
      | error fault => simp [onList, onBins, Agrees] at here
      | ok result =>
        obtain ⟨r, servedToo⟩ := result
        rw [onList, onBins] at here
        obtain ⟨rfl, representsToo⟩ := here
        have advances := timely.step onList
        have later := ih representsToo advances.timely (by have := advances.length; omega)
        simp only [bind, Except.bind]
        cases rest : b.run priority ops with
        | error fault =>
          cases restToo : EventQueue.run priority fuel r ops with
          | error faultToo =>
            rw [rest, restToo] at later
            rw [show faultToo = .misuse fault from later]
            rfl
          | ok result => simp [rest, restToo, Agrees] at later
        | ok result =>
          cases restToo : EventQueue.run priority fuel r ops with
          | error fault => simp [rest, restToo, Agrees] at later
          | ok resultToo =>
            rw [rest, restToo] at later
            obtain ⟨same, representsLast⟩ := later
            exact ⟨by rw [same], representsLast⟩

/-- An event is the top of a bin. -/
def IsTop (q : EventQueue E) (e : E) : Prop :=
  ∃ tops, Path q.nextBin q.head tops none ∧ e ∈ tops

theorem Represents.stale {e : E} (represents : Represents priority q a) (notTop : ¬q.IsTop e)
    (pointer : Option E) :
    Represents priority { q with nextBin := Function.update q.nextBin e pointer } a := by
  obtain ⟨bins, rep, listed⟩ := represents.bins
  have absent : e ∉ bins.map Bin.top := fun member => notTop ⟨_, rep.linked.tops, member⟩
  have repToo : Rep priority { q with nextBin := Function.update q.nextBin e pointer } bins :=
    ⟨⟨(path_update absent).mpr rep.linked.tops, rep.linked.piles⟩, ⟨rep.ordered.alike,
      rep.ordered.increasing, rep.ordered.nodup⟩⟩
  exact ⟨⟨⟨bins, repToo, listed⟩, represents.curTick, represents.when, represents.squashed⟩,
    represents.scheduled⟩

/-- Two runs fail alike, or hand on the same events and stand for the same list in the end. -/
def SameOutcome (priority : E → Int)
    (first second : Except EventFault (EventQueue E × List (Served E))) : Prop :=
  match first, second with
  | .ok (q, served), .ok (r, servedToo) =>
    servedToo = served ∧ ∃ a, Represents priority q a ∧ Represents priority r a
  | .error fault, .error faultToo => faultToo = fault
  | _, _ => False

omit [DecidableEq E] in
theorem Agrees.sameOutcome {onList : Except Misuse (Agenda E × List (Served E))}
    {first second : Except EventFault (EventQueue E × List (Served E))}
    (one : Agrees priority onList first) (two : Agrees priority onList second) :
    SameOutcome priority first second := by
  cases onList with
  | error fault =>
    cases first with
    | ok result => exact one.elim
    | error faultOne =>
      cases second with
      | ok result => exact two.elim
      | error faultTwo => exact (show faultTwo = _ from two).trans (show faultOne = _ from one).symm
  | ok result =>
    cases first with
    | error fault => exact one.elim
    | ok resultOne =>
      cases second with
      | error fault => exact two.elim
      | ok resultTwo => exact ⟨two.1.trans one.1.symm, result.1, one.2, two.2⟩

/--
The two-level list of bins does what is done to one list of the scheduled events in their order.

It takes at most as many steps through a list as there were operations. The ticks of the events
handled never go down, and without squashing all events serviced are handled. Pointers to the
next bin count only for the tops of bins.
-/
theorem bins_refine_agenda (priority : E → Int) (ops : List (EventOp E)) (fuel : Nat)
    (enough : ops.length ≤ fuel) :
    Agrees priority (Agenda.start.run priority ops) (start.run priority fuel ops) ∧
    (∀ a served, Agenda.start.run priority ops = .ok (a, served) →
      a.Timely priority ∧ (Agenda.handledTicks served).Pairwise (· ≤ ·) ∧
      ((∀ e, .squash e ∉ ops) → (served.map Served.tick).Pairwise (· ≤ ·))) ∧
    ∀ q served, start.run priority fuel ops = .ok (q, served) → ∀ e, ¬q.IsTop e →
      ∀ pointer later, ops.length + later.length ≤ fuel →
        SameOutcome priority (q.run priority fuel later)
          (EventQueue.run priority fuel
            { q with nextBin := Function.update q.nextBin e pointer } later) := by
  have agrees : Agrees priority (Agenda.start.run priority ops) (start.run priority fuel ops) :=
    start_represents.run Agenda.start_timely (by simpa [Agenda.start] using enough)
  refine ⟨agrees, fun a served ran => ?_, fun q served ran e notTop pointer later enoughToo => ?_⟩
  · obtain ⟨timely, sorted, -⟩ := Agenda.start_timely.run ran
    refine ⟨timely, sorted, fun none => ?_⟩
    have handled := Agenda.handled_of_run (fun _ => rfl) none ran
    rw [Agenda.handledTicks, List.filter_eq_self.mpr handled] at sorted
    exact sorted
  · cases onList : Agenda.start.run priority ops with
    | error fault =>
      rw [onList, ran] at agrees
      exact agrees.elim
    | ok result =>
      obtain ⟨a, servedToo⟩ := result
      rw [onList, ran] at agrees
      have timely := (Agenda.start_timely.run onList).1
      have few := Agenda.start_timely.run_length onList
      have enoughLater : a.events.length + later.length ≤ fuel := by
        simp only [Agenda.start, List.length_nil, Nat.zero_add] at few
        omega
      exact (agrees.2.run timely enoughLater).sameOutcome
        ((agrees.2.stale notTop pointer).run timely enoughLater)

/-- Two events of one tick are serviced in the order opposite to that of their scheduling. -/
theorem two_events_serviced :
    (start.run (fun _ : Bool => 0) 3 [.schedule true 5, .schedule false 5, .serviceOne]).map
        Prod.snd = .ok [⟨false, 5, true⟩] ∧
      Agrees (fun _ : Bool => 0)
        (Agenda.start.run (fun _ => 0) [.schedule true 5, .schedule false 5, .serviceOne])
        (start.run (fun _ => 0) 3 [.schedule true 5, .schedule false 5, .serviceOne]) :=
  ⟨by decide, (bins_refine_agenda _ _ 3 (by decide)).1⟩

end EventQueue

end GemDroid

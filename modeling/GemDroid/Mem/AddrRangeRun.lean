import GemDroid.Lib.Run
import GemDroid.Mem.AddrRange

/-! What an interval map of address ranges finds over whole runs. -/

namespace GemDroid

namespace AddrRange

variable {p q r : AddrRange} {a : Addr}

/-- Two ranges overlap as regions, or as the same stripe of the same region. -/
def overlaps (range r : AddrRange) : Bool :=
  if range.interleaved && range.mergesWith r then range.intlvMatch == r.intlvMatch
  else range.meets r

/-- The ends of a range are in order, and its stripe is one of the region. -/
def WellFormed (range : AddrRange) : Prop :=
  range.start ≤ range.last ∧ range.intlvMatch < 2 ^ range.intlvBits

instance (range : AddrRange) : Decidable range.WellFormed :=
  inferInstanceAs (Decidable (_ ∧ _))

/-- The test of an interleaved range for an overlap with another one is one that it can make. -/
def Testable (range r : AddrRange) : Prop :=
  range.interleaved = true →
    (r.size = 1#64 → range.contains r.start = range.overlaps r) ∧
    (r.size ≠ 1#64 → r.interleaved = true → range.mergesWith r = true)

theorem mergesWith_iff : p.mergesWith q = true ↔ q.start = p.start ∧ q.last = p.last ∧
    q.intlvHighBit = p.intlvHighBit ∧ q.intlvBits = p.intlvBits := by
  simp [mergesWith, and_assoc]

theorem below_iff : p.below q = true ↔
    p.start < q.start ∨ p.start = q.start ∧ p.intlvMatch < q.intlvMatch := by
  unfold below
  split_ifs with differ
  · simp [differ]
  · rw [not_not] at differ
    simp [differ]

theorem below_trans (first : p.below q = true) (second : q.below r = true) :
    p.below r = true := by
  rw [below_iff] at *
  simp only [BitVec.lt_def, ← BitVec.toNat_inj] at *
  omega

theorem below_asymm (first : p.below q = true) : q.below p = false := by
  rw [← Bool.not_eq_true, below_iff]
  rw [below_iff] at first
  simp only [BitVec.lt_def, ← BitVec.toNat_inj] at *
  omega

theorem contains_iff : p.contains a = true ↔
    p.start ≤ a ∧ a ≤ p.last ∧ (p.interleaved = true → p.stripe a = p.intlvMatch) := by
  cases mixed : p.interleaved <;> simp [contains, mixed, and_assoc]

theorem meets_iff : p.meets q = true ↔ p.start ≤ q.last ∧ q.start ≤ p.last := by
  simp [meets]

theorem mergesWith_symm : p.mergesWith q = q.mergesWith p := by
  rw [Bool.eq_iff_iff, mergesWith_iff, mergesWith_iff]
  constructor
  · rintro ⟨start, last, high, count⟩
    exact ⟨start.symm, last.symm, high.symm, count.symm⟩
  · rintro ⟨start, last, high, count⟩
    exact ⟨start.symm, last.symm, high.symm, count.symm⟩

theorem mergesWith_trans (first : p.mergesWith q = true) (second : q.mergesWith r = true) :
    p.mergesWith r = true := by
  rw [mergesWith_iff] at *
  exact ⟨second.1.trans first.1, second.2.1.trans first.2.1, second.2.2.1.trans first.2.2.1,
    second.2.2.2.trans first.2.2.2⟩

theorem interleaved_of_mergesWith (merges : p.mergesWith q = true) :
    p.interleaved = q.interleaved := by
  rw [interleaved, interleaved, (mergesWith_iff.mp merges).2.2.2]

theorem overlaps_symm : p.overlaps q = q.overlaps p := by
  cases merges : p.mergesWith q with
  | true =>
    have same := interleaved_of_mergesWith merges
    simp only [overlaps, ← mergesWith_symm, merges, Bool.and_true, same]
    split_ifs
    · exact Bool.beq_comm
    · simp [meets, Bool.and_comm]
  | false => simp [overlaps, ← mergesWith_symm, merges, meets, Bool.and_comm]

theorem stripes_of_not_overlaps (apart : p.overlaps q = false) (meets : p.meets q = true) :
    p.interleaved = true ∧ p.mergesWith q = true ∧ p.intlvMatch ≠ q.intlvMatch := by
  unfold overlaps at apart
  split_ifs at apart with same
  · rw [Bool.and_eq_true] at same
    exact ⟨same.1, same.2, by simpa using apart⟩
  · rw [meets] at apart
    simp at apart

theorem not_contains_of_not_overlaps (apart : p.overlaps q = false) (inside : p.contains a = true) :
    q.contains a = false := by
  rw [← Bool.not_eq_true]
  intro insideToo
  rw [contains_iff] at inside insideToo
  have meets : p.meets q = true := by
    rw [meets_iff]
    simp only [BitVec.le_def] at *
    omega
  obtain ⟨mixed, merges, differ⟩ := stripes_of_not_overlaps apart meets
  obtain ⟨-, -, high, count⟩ := mergesWith_iff.mp merges
  -- Both stripes are read from the same bits of the address.
  have mixedToo : q.interleaved = true := by
    rw [interleaved, count]
    exact mixed
  apply differ
  rw [← inside.2.2 mixed, ← insideToo.2.2 mixedToo, stripe, stripe, high, count]

theorem intersects_rangeSize (p : AddrRange) (a : Addr) :
    p.intersects (rangeSize a 1#64) = .ok (p.contains a) := by
  have single : (rangeSize a 1#64).size = 1#64 := by simp [size, rangeSize]
  cases mixed : p.interleaved with
  | false => simp [intersects, mixed, meets, contains, rangeSize]
  | true =>
    rw [intersects, mixed, if_neg (by simp), if_pos single]
    rfl

theorem intersects_eq (testable : Testable p r) : p.intersects r = .ok (p.overlaps r) := by
  cases mixed : p.interleaved with
  | false => simp [intersects, overlaps, mixed]
  | true =>
    obtain ⟨single, several⟩ := testable mixed
    by_cases size : r.size = 1#64
    · simp [intersects, mixed, size, single size]
    · cases mixedToo : r.interleaved with
      | false =>
        have other : p.mergesWith r = false := by
          rw [← Bool.not_eq_true]
          intro merges
          simp [interleaved_of_mergesWith merges, mixedToo] at mixed
        simp [intersects, overlaps, mixed, size, mixedToo, other]
      | true => simp [intersects, overlaps, mixed, size, mixedToo, several size mixedToo]

end AddrRange

namespace AddrRangeMap

variable {V : Type} {r : AddrRange} {tree : AddrRangeMap V} {a : Addr}

/-- The entries of one region, going back from one of them, and the one before them. -/
def chunk (origRange : AddrRange) : AddrRange × V → List (AddrRange × V) → List (AddrRange × V)
  | _, [] => []
  | i, before :: rest =>
    if i.1.mergesWith origRange then before :: chunk origRange before rest else []

/-- The entries that a lookup may test, in its order. -/
def looksAt (r : AddrRange) (tree : AddrRangeMap V) : List (AddrRange × V) :=
  match tree.notAbove r with
  | [] => tree.head?.toList
  | i :: rest => i :: if i.1.interleaved then chunk i.1 i rest else []

/-- The first entry that intersects a range. -/
def firstHit (r : AddrRange) :
    List (AddrRange × V) → Except RangePanic (Option (AddrRange × V))
  | [] => .ok none
  | e :: es => do
    if ← e.1.intersects r then return some e
    firstHit r es

variable {e i : AddrRange × V} {rest : List (AddrRange × V)}

theorem walkBack_eq {orig : AddrRange} (missed : i.1.intersects r = .ok false) :
    walkBack r orig i rest = firstHit r (chunk orig i rest) := by
  induction rest generalizing i with
  | nil => simp [walkBack, chunk, firstHit, missed, bind, Except.bind, pure, Except.pure]
  | cons before rest ih =>
    rw [walkBack, chunk]
    split_ifs
    · rw [firstHit]
      cases tested : before.1.intersects r with
      | error fault => rfl
      | ok hit =>
        cases hit with
        | true => rfl
        | false => exact ih tested
    · simp [firstHit, missed, bind, Except.bind, pure, Except.pure]

theorem find_eq (r : AddrRange) (tree : AddrRangeMap V) :
    tree.find r = firstHit r (tree.looksAt r) := by
  unfold find looksAt
  cases tree.notAbove r with
  | nil =>
    cases tree with
    | nil => rfl
    | cons first rest =>
      cases tested : first.1.intersects r with
      | error fault => simp [firstHit, tested, bind, Except.bind]
      | ok hit => cases hit <;> simp [firstHit, tested, bind, Except.bind, pure, Except.pure]
  | cons i rest =>
    simp only [firstHit]
    cases tested : i.1.intersects r with
    | error fault => rfl
    | ok hit =>
      cases hit with
      | true => rfl
      | false =>
        simp only [bind, Except.bind]
        cases mixed : i.1.interleaved with
        | true => simpa using walkBack_eq tested
        | false => rfl

/-- As far as the entries do not overlap with the range, they can be tested. -/
def FirstTestable (r : AddrRange) : List (AddrRange × V) → Prop
  | [] => True
  | e :: es => e.1.Testable r ∧ (e.1.overlaps r = false → FirstTestable r es)

theorem firstHit_eq {entries : List (AddrRange × V)} (testable : FirstTestable r entries) :
    firstHit r entries = .ok (entries.find? fun e => e.1.overlaps r) := by
  induction entries with
  | nil => rfl
  | cons e es ih =>
    obtain ⟨here, later⟩ := testable
    rw [firstHit, AddrRange.intersects_eq here, List.find?_cons]
    cases overlap : e.1.overlaps r with
    | true => rfl
    | false => exact ih (later overlap)

theorem firstHit_rangeSize (a : Addr) (entries : List (AddrRange × V)) :
    firstHit (.rangeSize a 1#64) entries = .ok (entries.find? fun e => e.1.contains a) := by
  induction entries with
  | nil => rfl
  | cons e es ih =>
    rw [firstHit, AddrRange.intersects_rangeSize, List.find?_cons]
    cases inside : e.1.contains a with
    | true => rfl
    | false => exact ih

/--
The entries are in order and do not overlap.

A range that begins inside its stripe has to be the first stripe, since the lookup of its first
address does not look further; only the first entry of all is looked at in any case.
-/
structure Separate (tree : AddrRangeMap V) : Prop where
  sorted : tree.Pairwise fun p q => p.1.below q.1 = true
  apart : ∀ p ∈ tree, ∀ q ∈ tree, p ≠ q → p.1.overlaps q.1 = false
  ordered : ∀ p ∈ tree, p.1.start ≤ p.1.last
  starts : ∀ p ∈ tree, p.1.contains p.1.start = true →
    p.1.intlvMatch = 0 ∨ ∀ q ∈ tree, q = p ∨ p.1.below q.1 = true

theorem mem_chunk {orig : AddrRange} (sorted : (i :: rest).Pairwise fun p q => q.1.below p.1 = true)
    (member : e ∈ rest)
    (merges : ∀ p ∈ i :: rest, e.1.below p.1 = true → p.1.mergesWith orig = true) :
    e ∈ chunk orig i rest := by
  induction rest generalizing i with
  | nil => simp at member
  | cons before rest ih =>
    obtain ⟨above, sorted⟩ := List.pairwise_cons.mp sorted
    have here := merges i (by simp) (above e member)
    rw [chunk, if_pos here, List.mem_cons]
    obtain rfl | later := List.mem_cons.mp member
    · exact .inl rfl
    · exact .inr (ih sorted later fun p memberToo => merges p (by simp [memberToo]))

theorem Separate.stripes (separate : Separate tree) {e p : AddrRange × V} (member : e ∈ tree)
    (memberToo : p ∈ tree) (inside : e.1.contains a = true) (above : e.1.below p.1 = true)
    (upTo : p.1.start ≤ a) : e.1.mergesWith p.1 = true ∧ e.1.interleaved = true := by
  have differ : e ≠ p := by
    rintro rfl
    rw [AddrRange.below_asymm above] at above
    simp at above
  have ordered := separate.ordered p memberToo
  have meets : e.1.meets p.1 = true := by
    rw [AddrRange.meets_iff]
    rw [AddrRange.contains_iff] at inside
    rw [AddrRange.below_iff] at above
    simp only [BitVec.le_def, BitVec.lt_def, ← BitVec.toNat_inj] at *
    omega
  obtain ⟨mixed, merges, -⟩ :=
    AddrRange.stripes_of_not_overlaps (separate.apart e member p memberToo differ) meets
  exact ⟨merges, mixed⟩

theorem mem_notAbove :
    e ∈ tree.notAbove r ↔ e ∈ tree ∧ r.below e.1 = false := by
  simp [notAbove]

theorem start_le_of_not_below {p : AddrRange}
    (notAbove : (AddrRange.rangeSize a 1#64).below p = false) : p.start ≤ a := by
  rw [← Bool.not_eq_true, AddrRange.below_iff] at notAbove
  simp only [AddrRange.rangeSize, BitVec.le_def, BitVec.lt_def] at *
  omega

theorem Separate.head (separate : Separate tree) (member : e ∈ tree)
    (least : ∀ q ∈ tree, q = e ∨ e.1.below q.1 = true) : tree.head? = some e := by
  cases tree with
  | nil => simp at member
  | cons first rest =>
    obtain same | above := least first (by simp)
    · simp [same]
    · obtain rfl | later := List.mem_cons.mp member
      · rfl
      · have below := (List.pairwise_cons.mp separate.sorted).1 e later
        rw [AddrRange.below_asymm above] at below
        simp at below

theorem Separate.looksAt_start (separate : Separate tree) (member : e ∈ tree)
    (inside : e.1.contains a = true) (above : (AddrRange.rangeSize a 1#64).below e.1 = true) :
    e ∈ tree.looksAt (.rangeSize a 1#64) := by
  have begins : e.1.start = a ∧ e.1.intlvMatch ≠ 0 := by
    rw [AddrRange.contains_iff] at inside
    rw [AddrRange.below_iff] at above
    simp only [AddrRange.rangeSize, BitVec.le_def, BitVec.lt_def, ← BitVec.toNat_inj] at *
    omega
  have least := (separate.starts e member (begins.1 ▸ inside)).resolve_left begins.2
  have none : tree.notAbove (.rangeSize a 1#64) = [] := by
    rw [List.eq_nil_iff_forall_not_mem]
    intro p memberToo
    obtain ⟨memberToo, notAbove⟩ := mem_notAbove.mp memberToo
    obtain rfl | higher := least p memberToo
    · simp [above] at notAbove
    · simp [AddrRange.below_trans above higher] at notAbove
  simp [AddrRangeMap.looksAt, none, separate.head member least]

/-- A lookup of an address looks at the entry that contains it. -/
theorem Separate.looksAt (separate : Separate tree) (member : e ∈ tree)
    (inside : e.1.contains a = true) : e ∈ tree.looksAt (.rangeSize a 1#64) := by
  cases above : (AddrRange.rangeSize a 1#64).below e.1 with
  | true => exact separate.looksAt_start member inside above
  | false =>
    have sorted : (tree.notAbove (.rangeSize a 1#64)).Pairwise
        fun p q => q.1.below p.1 = true := by
      rw [notAbove, List.pairwise_reverse]
      exact separate.sorted.filter _
    have found : e ∈ tree.notAbove (.rangeSize a 1#64) := mem_notAbove.mpr ⟨member, above⟩
    -- Whatever is above the entry and not above the address belongs to the region of the entry.
    have stripes : ∀ p ∈ tree.notAbove (.rangeSize a 1#64), e.1.below p.1 = true →
        e.1.mergesWith p.1 = true ∧ e.1.interleaved = true := by
      intro p memberToo higher
      obtain ⟨memberToo, notAbove⟩ := mem_notAbove.mp memberToo
      exact separate.stripes member memberToo inside higher (start_le_of_not_below notAbove)
    unfold AddrRangeMap.looksAt
    cases before : tree.notAbove (.rangeSize a 1#64) with
    | nil => simp [before] at found
    | cons i rest =>
      rw [before] at sorted found stripes
      obtain rfl | later := List.mem_cons.mp found
      · simp
      · have higher := (List.pairwise_cons.mp sorted).1 e later
        obtain ⟨merges, mixed⟩ := stripes i (by simp) higher
        have mixedToo : i.1.interleaved = true := by
          rw [← AddrRange.interleaved_of_mergesWith merges, mixed]
        show e ∈ i :: if i.1.interleaved = true then chunk i.1 i rest else []
        rw [if_pos mixedToo, List.mem_cons]
        right
        apply mem_chunk sorted later
        intro p memberToo overToo
        rw [AddrRange.mergesWith_symm]
        have same := (stripes p memberToo overToo).1
        rw [AddrRange.mergesWith_symm] at merges
        exact AddrRange.mergesWith_trans merges same

theorem Separate.unique (separate : Separate tree) {p q : AddrRange × V} (member : p ∈ tree)
    (memberToo : q ∈ tree) (inside : p.1.contains a = true) (insideToo : q.1.contains a = true) :
    p = q := by
  by_contra differ
  have apart := separate.apart p member q memberToo differ
  rw [AddrRange.not_contains_of_not_overlaps apart inside] at insideToo
  simp at insideToo

theorem mem_of_chunk {orig : AddrRange} (member : e ∈ chunk orig i rest) : e ∈ rest := by
  induction rest generalizing i with
  | nil => simp [chunk] at member
  | cons before rest ih =>
    rw [chunk] at member
    split_ifs at member
    · obtain rfl | later := List.mem_cons.mp member
      · simp
      · exact List.mem_cons_of_mem _ (ih later)
    · simp at member

theorem mem_of_looksAt (member : e ∈ tree.looksAt r) : e ∈ tree := by
  unfold AddrRangeMap.looksAt at member
  cases before : tree.notAbove r with
  | nil =>
    rw [before] at member
    simp only [Option.mem_toList] at member
    exact List.mem_of_mem_head? member
  | cons i rest =>
    rw [before] at member
    have listed : e ∈ tree.notAbove r := by
      rw [before]
      obtain rfl | later := List.mem_cons.mp member
      · simp
      · split_ifs at later
        · exact List.mem_cons_of_mem _ (mem_of_chunk later)
        · simp at later
    exact (mem_notAbove.mp listed).1

theorem Separate.findAddr (separate : Separate tree) (a : Addr) :
    tree.findAddr a = .ok (tree.find? fun e => e.1.contains a) := by
  rw [AddrRangeMap.findAddr, find_eq, firstHit_rangeSize]
  congr 1
  cases hit : tree.find? fun e => e.1.contains a with
  | none =>
    rw [List.find?_eq_none] at hit ⊢
    exact fun e member => hit e (mem_of_looksAt member)
  | some e =>
    have member := List.mem_of_find?_eq_some hit
    have inside := List.find?_some hit
    cases looked : (tree.looksAt (.rangeSize a 1#64)).find? fun e => e.1.contains a with
    | none =>
      rw [List.find?_eq_none] at looked
      exact absurd inside (looked e (separate.looksAt member inside))
    | some e' =>
      have memberToo := mem_of_looksAt (List.mem_of_find?_eq_some looked)
      have insideToo := List.find?_some looked
      rw [separate.unique memberToo member insideToo inside]

/--
A range that an insertion takes in or refuses as it should.

The lookup before it has to see an overlap if there is one, and to be able to make its tests. If
the range is taken in, lookups of the first address of a stripe have to stay possible.
-/
structure Admissible (r : AddrRange) (tree : AddrRangeMap V) : Prop where
  wellFormed : r.WellFormed
  sees : ∀ e ∈ tree, e.1.overlaps r = true → ∃ p ∈ tree.looksAt r, p.1.overlaps r = true
  tests : FirstTestable r (tree.looksAt r)
  starts : (∀ e ∈ tree, e.1.overlaps r = false) →
    (r.contains r.start = true → r.intlvMatch = 0 ∨ ∀ e ∈ tree, r.below e.1 = true) ∧
    ∀ e ∈ tree, e.1.contains e.1.start = true → e.1.intlvMatch = 0 ∨ e.1.below r = true

theorem insert_eq (d : V) (admissible : Admissible r tree) :
    tree.insert r d = .ok
      (if ∃ e ∈ tree, e.1.overlaps r = true then (tree, false) else (tree.put r d, true)) := by
  rw [AddrRangeMap.insert, find_eq, firstHit_eq admissible.tests]
  simp only [bind, Except.bind, pure, Except.pure]
  split_ifs with hit overlap overlap
  · rfl
  · rw [Option.isSome_iff_exists] at hit
    obtain ⟨e, found⟩ := hit
    have foundToo := List.find?_some found
    exact absurd ⟨e, mem_of_looksAt (List.mem_of_find?_eq_some found), foundToo⟩ overlap
  · obtain ⟨e, member, found⟩ := overlap
    obtain ⟨p, looked, foundToo⟩ := admissible.sees e member found
    apply absurd _ hit
    rw [List.find?_isSome]
    exact ⟨p, looked, foundToo⟩
  · rfl

theorem below_or_below {p : AddrRange} (ordered : p.start ≤ p.last) (orderedToo : r.start ≤ r.last)
    (apart : p.overlaps r = false) : p.below r = true ∨ r.below p = true := by
  rw [AddrRange.below_iff, AddrRange.below_iff]
  by_cases same : p.start = r.start
  · have meets : p.meets r = true := by
      rw [AddrRange.meets_iff, ← same]
      rw [← same] at orderedToo
      exact ⟨orderedToo, ordered⟩
    have differ := (AddrRange.stripes_of_not_overlaps apart meets).2.2
    obtain less | greater := Nat.lt_or_gt_of_ne differ
    · exact .inl (.inr ⟨same, less⟩)
    · exact .inr (.inr ⟨same.symm, greater⟩)
  · simp only [BitVec.lt_def, ← BitVec.toNat_inj] at *
    omega

theorem put_eq (d : V) (apart : ∀ e ∈ tree, e.1.below r = true ∨ r.below e.1 = true) :
    tree.put r d = (tree.filter fun entry => entry.1.below r) ++ (r, d) ::
      tree.filter fun entry => !entry.1.below r := by
  rw [AddrRangeMap.put, if_neg]
  simp only [List.any_eq_true, Bool.and_eq_true, Bool.not_eq_true', not_exists, not_and,
    Bool.not_eq_false]
  intro e member notBelow
  obtain under | above := apart e member
  · simp [under] at notBelow
  · exact above

theorem mem_put (d : V) (apart : ∀ e ∈ tree, e.1.below r = true ∨ r.below e.1 = true) :
    e ∈ tree.put r d ↔ e = (r, d) ∨ e ∈ tree := by
  rw [put_eq d apart]
  simp only [List.mem_append, List.mem_cons, List.mem_filter, Bool.not_eq_true']
  cases e.1.below r <;> simp [or_comm]

theorem Separate.sorted_put (separate : Separate tree) (d : V)
    (apart : ∀ e ∈ tree, e.1.below r = true ∨ r.below e.1 = true) :
    (tree.put r d).Pairwise fun p q => p.1.below q.1 = true := by
  have above : ∀ e ∈ tree.filter fun entry => !entry.1.below r, r.below e.1 = true := by
    intro e member
    simp only [List.mem_filter, Bool.not_eq_true'] at member
    apply (apart e member.1).resolve_left
    simp [member.2]
  rw [put_eq d apart, List.pairwise_append, List.pairwise_cons]
  refine ⟨separate.sorted.filter _, ⟨above, separate.sorted.filter _⟩, fun p under q higher => ?_⟩
  have below : p.1.below r = true := (List.mem_filter.mp under).2
  obtain rfl | later := List.mem_cons.mp higher
  · exact below
  · exact AddrRange.below_trans below (above q later)

theorem Separate.put (separate : Separate tree) (d : V) (admissible : Admissible r tree)
    (apart : ∀ e ∈ tree, e.1.overlaps r = false) : Separate (tree.put r d) := by
  have sides : ∀ e ∈ tree, e.1.below r = true ∨ r.below e.1 = true := fun e member =>
    below_or_below (separate.ordered e member) admissible.wellFormed.1 (apart e member)
  obtain ⟨own, others⟩ := admissible.starts apart
  refine ⟨separate.sorted_put d sides, fun p member q memberToo differ => ?_, fun p member => ?_,
    fun p member begins => ?_⟩
  · rw [mem_put d sides] at member memberToo
    obtain rfl | member := member
    · obtain rfl | memberToo := memberToo
      · exact absurd rfl differ
      · rw [AddrRange.overlaps_symm]
        exact apart q memberToo
    · obtain rfl | memberToo := memberToo
      · exact apart p member
      · exact separate.apart p member q memberToo differ
  · obtain rfl | member := (mem_put d sides).mp member
    · exact admissible.wellFormed.1
    · exact separate.ordered p member
  · simp only [mem_put d sides, forall_eq_or_imp]
    obtain rfl | member := (mem_put d sides).mp member
    · apply (own begins).imp_right
      exact fun least => ⟨.inl rfl, fun q memberToo => .inr (least q memberToo)⟩
    · obtain zero | under := others p member begins
      · exact .inl zero
      · apply (separate.starts p member begins).imp_right
        exact fun least => ⟨.inr under, least⟩

theorem Separate.sublist {some : AddrRangeMap V} (separate : Separate tree)
    (part : List.Sublist some tree) : Separate some := by
  refine ⟨separate.sorted.sublist part, fun p member q memberToo => ?_, fun p member => ?_,
    fun p member begins => ?_⟩
  · exact separate.apart p (part.subset member) q (part.subset memberToo)
  · exact separate.ordered p (part.subset member)
  · apply (separate.starts p (part.subset member) begins).imp_right
    exact fun least q memberToo => least q (part.subset memberToo)

theorem separate_nil : Separate ([] : AddrRangeMap V) := by
  constructor <;> simp

/-- What is done with an interval map; the entries to erase are given by their positions. -/
inductive MapOp (V : Type)
  | insert (r : AddrRange) (d : V)
  | erase (p : Nat)
  | eraseRange (p q : Nat)

/-- Take one operation; one that panics ends the run. -/
def step (tree : AddrRangeMap V) : MapOp V → Option (AddrRangeMap V)
  | .insert r d =>
    match tree.insert r d with
    | .ok (tree, _) => some tree
    | .error _ => none
  | .erase p => if p < tree.length then some (tree.eraseIdx p) else none
  | .eraseRange p q =>
    if p ≤ q ∧ q ≤ tree.length then some (tree.take p ++ tree.drop q) else none

/-- All ranges that are inserted are admissible. -/
def Allowed (tree : AddrRangeMap V) : MapOp V → Prop
  | .insert r _ => Admissible r tree
  | _ => True

theorem Separate.insert (separate : Separate tree) {d : V} {after : AddrRangeMap V} {done : Bool}
    (admissible : Admissible r tree) (taken : tree.insert r d = .ok (after, done)) :
    Separate after := by
  rw [insert_eq d admissible] at taken
  split_ifs at taken with overlap
  · cases taken
    exact separate
  · cases taken
    apply separate.put d admissible
    intro e member
    rw [← Bool.not_eq_true]
    exact fun found => overlap ⟨e, member, found⟩

theorem Separate.step (separate : Separate tree) {op : MapOp V} {after : AddrRangeMap V}
    (allowed : Allowed tree op) (taken : tree.step op = some after) : Separate after := by
  cases op with
  | insert r d =>
    cases inserted : tree.insert r d with
    | error fault => simp [AddrRangeMap.step, inserted] at taken
    | ok result =>
      obtain ⟨grown, done⟩ := result
      simp only [AddrRangeMap.step, inserted, Option.some.injEq] at taken
      exact taken ▸ separate.insert allowed inserted
  | erase p =>
    simp only [AddrRangeMap.step, Option.ite_none_right_eq_some, Option.some.injEq] at taken
    exact taken.2 ▸ separate.sublist (tree.eraseIdx_sublist p)
  | eraseRange p q =>
    simp only [AddrRangeMap.step, Option.ite_none_right_eq_some, Option.some.injEq] at taken
    obtain ⟨⟨upTo, -⟩, rfl⟩ := taken
    apply separate.sublist
    have part : (tree.drop q).Sublist (tree.drop p) := by
      rw [← Nat.add_sub_of_le upTo, ← List.drop_drop]
      exact List.drop_sublist _ _
    have whole := part.append_left (tree.take p)
    rwa [List.take_append_drop] at whole

/-- No address is in two ranges, and the lookup of an address finds the range it is in. -/
structure LookupsRight (tree : AddrRangeMap V) : Prop where
  disjoint : tree.Pairwise fun p q => ∀ a, ¬(p.1.contains a = true ∧ q.1.contains a = true)
  finds : ∀ a, tree.findAddr a = .ok (tree.find? fun e => e.1.contains a)

/-- An insertion does not panic, fails exactly for an overlap, and else adds its entry. -/
def InsertRight (r : AddrRange) (d : V) (tree : AddrRangeMap V) : Prop :=
  ∃ after done, tree.insert r d = .ok (after, done) ∧
    (done = false ↔ ∃ e ∈ tree, e.1.overlaps r = true) ∧
    ∀ e, e ∈ after ↔ e ∈ tree ∨ done = true ∧ e = (r, d)

theorem Separate.lookupsRight (separate : Separate tree) : LookupsRight tree := by
  refine ⟨separate.sorted.imp_of_mem fun {p q} member memberToo below a both => ?_,
    separate.findAddr⟩
  have same := separate.unique member memberToo both.1 both.2
  rw [same, AddrRange.below_asymm (same ▸ below)] at below
  simp at below

theorem Separate.insertRight (separate : Separate tree) (d : V) (admissible : Admissible r tree) :
    InsertRight r d tree := by
  by_cases overlap : ∃ e ∈ tree, e.1.overlaps r = true
  · refine ⟨tree, false, ?_, by simp [overlap], by simp⟩
    rw [insert_eq d admissible, if_pos overlap]
  · refine ⟨tree.put r d, true, ?_, by simp [overlap], fun e => ?_⟩
    · rw [insert_eq d admissible, if_neg overlap]
    · rw [mem_put d fun p member => below_or_below (separate.ordered p member)
        admissible.wellFormed.1 ?_]
      · simp [or_comm]
      · rw [← Bool.not_eq_true]
        exact fun found => overlap ⟨p, member, found⟩

theorem separate_of_run {ops : List (MapOp V)} (meets : Machine.Meets step Allowed [] ops)
    (ran : Machine.run step [] ops = some tree) : Separate tree :=
  Machine.run_preserves_of_meets (fun _ _ _ separate allowed taken => separate.step allowed taken)
    separate_nil meets ran

end AddrRangeMap

namespace BaseBus

variable {config : BusConfig} {bus after : BaseBus} {addr : Addr}

/-- What a bus is asked. -/
inductive BusOp
  /-- Find the port for an address. -/
  | lookup (addr : Addr)
  /-- A port has new ranges. -/
  | rangeChange (master_port_id : PortID) (ranges : List AddrRange)

/-- Take one operation; one that fails ends the run. -/
def step (config : BusConfig) (bus : BaseBus) : BusOp → Option BaseBus
  | .lookup addr =>
    match findPort config addr bus with
    | .ok (_, bus) => some bus
    | .error _ => none
  | .rangeChange master_port_id ranges =>
    match recvRangeChange config master_port_id ranges bus with
    | .ok bus => some bus
    | .error _ => none

/-- The ranges of a port are admissible one after the other. -/
def AdmissibleAll (id : PortID) : AddrRangeMap PortID → List AddrRange → Prop
  | _, [] => True
  | portMap, r :: ranges => portMap.Admissible r ∧
    ∀ after, addRange id portMap r = .ok after → AdmissibleAll id after ranges

/-- All ranges that a port brings are admissible once those it had are gone. -/
def Allowed (config : BusConfig) (bus : BaseBus) : BusOp → Prop
  | .lookup _ => True
  | .rangeChange id ranges => config.defaultPortID ≠ some id →
    AdmissibleAll id (bus.portMap.filter fun entry => entry.2 != id) ranges

/-- What is remembered of a lookup is an entry of the map. -/
def Cached (bus : BaseBus) (cached : PortCache) : Prop :=
  cached.valid = true → (cached.range, cached.id) ∈ bus.portMap

/-- The ranges are separate, and the lookups remembered are still right. -/
structure Consistent (bus : BaseBus) : Prop where
  separate : bus.portMap.Separate
  first : bus.Cached bus.portCache0
  second : bus.Cached bus.portCache1
  third : bus.Cached bus.portCache2

variable {id : PortID} {ranges : List AddrRange}

theorem Consistent.checkPortCache (consistent : Consistent bus)
    (found : bus.checkPortCache addr = some id) :
    ∃ range, range.contains addr = true ∧ (range, id) ∈ bus.portMap := by
  unfold BaseBus.checkPortCache at found
  simp only [Bool.and_eq_true] at found
  split_ifs at found with zero one two
  · cases found
    exact ⟨_, zero.2, consistent.first zero.1⟩
  · cases found
    exact ⟨_, one.2, consistent.second one.1⟩
  · cases found
    exact ⟨_, two.2, consistent.third two.1⟩

theorem checkPortCache_clearPortCache : bus.clearPortCache.checkPortCache addr = none := by
  simp [BaseBus.checkPortCache, clearPortCache]

/-- A lookup has the result of one that remembers nothing. -/
theorem Consistent.findPort (consistent : Consistent bus) (addr : Addr) :
    (findPort config addr bus).map Prod.fst =
      (findPort config addr bus.clearPortCache).map Prod.fst := by
  have sameMap : bus.clearPortCache.portMap = bus.portMap := rfl
  simp only [BaseBus.findPort, checkPortCache_clearPortCache, sameMap]
  have sameGot : bus.clearPortCache.gotAllAddrRanges = bus.gotAllAddrRanges := rfl
  rw [sameGot]
  split_ifs
  · rfl
  cases cached : bus.checkPortCache addr with
  | some id =>
    obtain ⟨range, inside, member⟩ := consistent.checkPortCache cached
    -- The entry remembered is the only one that contains the address.
    have found : bus.portMap.findAddr addr = .ok (some (range, id)) := by
      rw [consistent.separate.findAddr addr]
      cases hit : bus.portMap.find? fun e => e.1.contains addr with
      | none => exact absurd inside (List.find?_eq_none.mp hit _ member)
      | some e =>
        have insideToo := List.find?_some hit
        rw [consistent.separate.unique (List.mem_of_find?_eq_some hit) member insideToo inside]
    rw [found]
    rfl
  | none =>
    cases bus.portMap.findAddr addr with
    | error fault => rfl
    | ok found =>
      cases found with
      | some e => rfl
      | none =>
        have same : findDefault config addr bus.clearPortCache = findDefault config addr bus := rfl
        simp only [same]
        cases findDefault config addr bus <;> rfl

theorem Consistent.lookup (consistent : Consistent bus)
    (taken : BaseBus.findPort config addr bus = .ok (id, after)) : Consistent after := by
  simp only [BaseBus.findPort] at taken
  split_ifs at taken
  cases cached : bus.checkPortCache addr with
  | some id =>
    simp only [cached] at taken
    cases taken
    exact consistent
  | none =>
    simp only [cached, consistent.separate.findAddr addr] at taken
    cases hit : bus.portMap.find? fun e => e.1.contains addr with
    | some e =>
      simp only [hit] at taken
      cases taken
      exact ⟨consistent.separate, fun _ => List.mem_of_find?_eq_some hit, consistent.first,
        consistent.second⟩
    | none =>
      simp only [hit] at taken
      cases chosen : findDefault config addr bus with
      | error fault => simp [chosen, bind, Except.bind] at taken
      | ok id =>
        simp only [chosen, bind, Except.bind, pure, Except.pure] at taken
        cases taken
        exact consistent

theorem separate_addRanges {portMap grown : AddrRangeMap PortID} (separate : portMap.Separate)
    (admissible : AdmissibleAll id portMap ranges)
    (added : ranges.foldlM (addRange id) portMap = .ok grown) : grown.Separate := by
  induction ranges generalizing portMap with
  | nil =>
    cases added
    exact separate
  | cons r ranges ih =>
    rw [List.foldlM_cons] at added
    cases first : addRange id portMap r with
    | error fault => simp [first, bind, Except.bind] at added
    | ok middle =>
      simp only [first, bind, Except.bind] at added
      refine ih ?_ (admissible.2 middle first) added
      simp only [addRange] at first
      cases inserted : portMap.insert r id with
      | error fault => simp [inserted] at first
      | ok result =>
        obtain ⟨after, done⟩ := result
        cases done with
        | false => simp [inserted] at first
        | true =>
          simp only [inserted, Except.ok.injEq] at first
          exact first ▸ separate.insert admissible.1 inserted

theorem tellRanges_portMap (taken : tellRanges config bus = .ok after) :
    after.portMap = bus.portMap := by
  unfold tellRanges at taken
  split at taken
  · simp at taken
  · cases collected : aggregated config bus with
    | error fault => simp [collected] at taken
    | ok busRanges =>
      simp only [collected, bind, Except.bind] at taken
      split at taken
      · split at taken
        · simp at taken
        · cases taken
          rfl
      · cases taken
        rfl

theorem takeRanges_eq (taken : takeRanges config id ranges bus = .ok after) :
    after.portMap = bus.portMap ∨ config.defaultPortID ≠ some id ∧
      ranges.foldlM (addRange id) (bus.portMap.filter fun entry => entry.2 != id) =
        .ok after.portMap := by
  unfold takeRanges at taken
  by_cases isDefault : config.defaultPortID = some id
  · left
    rw [if_pos isDefault] at taken
    split at taken
    · split at taken
      · cases taken
        rfl
      · simp at taken
    · cases taken
      rfl
  · right
    rw [if_neg isDefault] at taken
    refine ⟨isDefault, ?_⟩
    cases added : ranges.foldlM (addRange id)
        (bus.portMap.filter fun entry => entry.2 != id) with
    | error fault => simp [added, bind, Except.bind] at taken
    | ok portMap =>
      simp only [added, bind, Except.bind] at taken
      cases taken
      rfl

theorem recvRangeChange_eq (taken : recvRangeChange config id ranges bus = .ok after) :
    ∃ before : BaseBus, after = before.clearPortCache ∧
      (before.portMap = bus.portMap ∨ config.defaultPortID ≠ some id ∧
        ranges.foldlM (addRange id) (bus.portMap.filter fun entry => entry.2 != id) =
          .ok before.portMap) := by
  simp only [recvRangeChange] at taken
  generalize known : ({ bus with
    gotAddrRanges := Function.update bus.gotAddrRanges id true
    gotAllAddrRanges := bus.gotAllAddrRanges || (List.range config.masterPorts).all
      (Function.update bus.gotAddrRanges id true) } : BaseBus) = asked at taken
  have sameMap : asked.portMap = bus.portMap := by rw [← known]
  cases changed : takeRanges config id ranges asked with
  | error fault => simp [changed, bind, Except.bind] at taken
  | ok given =>
    have outcome := takeRanges_eq changed
    rw [sameMap] at outcome
    simp only [changed, bind, Except.bind] at taken
    split at taken
    · cases told : tellRanges config given with
      | error fault => simp [told] at taken
      | ok before =>
        simp only [told] at taken
        cases taken
        refine ⟨before, rfl, ?_⟩
        rw [tellRanges_portMap told]
        exact outcome
    · cases taken
      exact ⟨given, rfl, outcome⟩

theorem Consistent.step (consistent : Consistent bus) {op : BusOp} (allowed : Allowed config bus op)
    (taken : step config bus op = some after) : Consistent after := by
  cases op with
  | lookup addr =>
    cases found : BaseBus.findPort config addr bus with
    | error fault => simp [BaseBus.step, found] at taken
    | ok result =>
      obtain ⟨id, bus'⟩ := result
      simp only [BaseBus.step, found, Option.some.injEq] at taken
      exact taken ▸ consistent.lookup found
  | rangeChange id ranges =>
    cases changed : recvRangeChange config id ranges bus with
    | error fault => simp [BaseBus.step, changed] at taken
    | ok bus' =>
      simp only [BaseBus.step, changed, Option.some.injEq] at taken
      subst taken
      obtain ⟨before, rfl, outcome⟩ := recvRangeChange_eq changed
      refine ⟨?_, by simp [Cached, clearPortCache], by simp [Cached, clearPortCache],
        by simp [Cached, clearPortCache]⟩
      show before.portMap.Separate
      obtain same | ⟨notDefault, added⟩ := outcome
      · rw [same]
        exact consistent.separate
      · exact separate_addRanges (consistent.separate.sublist List.filter_sublist)
          (allowed notDefault) added

theorem start_consistent : Consistent start :=
  ⟨AddrRangeMap.separate_nil, by simp [Cached, start], by simp [Cached, start],
    by simp [Cached, start]⟩

theorem consistent_of_run {ops : List BusOp}
    (meets : Machine.Meets (step config) (Allowed config) start ops)
    (ran : Machine.run (step config) start ops = some bus) : Consistent bus :=
  Machine.run_preserves_of_meets
    (fun _ _ _ consistent allowed taken => consistent.step allowed taken) start_consistent meets ran

end BaseBus

namespace AddrRangeMap

/--
As long as all ranges inserted are admissible, an interval map of address ranges decides about
insertions and finds addresses as it should, and a bus finds the same ports with the lookups it
remembers as without them.
-/
theorem lookups_right (V : Type) (config : BusConfig) :
    (∀ (ops : List (MapOp V)) (tree : AddrRangeMap V), Machine.Meets step Allowed [] ops →
      Machine.run step [] ops = some tree →
        LookupsRight tree ∧ ∀ r d, Admissible r tree → InsertRight r d tree) ∧
    ∀ (ops : List BaseBus.BusOp) (bus : BaseBus),
      Machine.Meets (BaseBus.step config) (BaseBus.Allowed config) .start ops →
      Machine.run (BaseBus.step config) .start ops = some bus → ∀ addr,
        (BaseBus.findPort config addr bus).map Prod.fst =
          (BaseBus.findPort config addr bus.clearPortCache).map Prod.fst := by
  constructor
  · intro ops tree meets ran
    have separate := separate_of_run meets ran
    exact ⟨separate.lookupsRight, fun r d admissible => separate.insertRight d admissible⟩
  · intro ops bus meets ran addr
    exact (BaseBus.consistent_of_run meets ran).findPort addr

/-- A range without stripes. -/
def plain (start last : Addr) : AddrRange :=
  { start := start, last := last, intlvHighBit := 0, intlvBits := 0, intlvMatch := 0 }

/-- The ranges of two ports are found, and looked up again from what the bus remembers. -/
theorem two_ranges_found :
    LookupsRight [(plain 10 20, 0), (plain 30 40, 1)] ∧
      ∃ bus, Machine.run (BaseBus.step ⟨1, none, false⟩) .start
          [.rangeChange 0 [plain 10 20], .lookup 12] = some bus ∧
        (BaseBus.findPort ⟨1, none, false⟩ 15 bus).map Prod.fst =
          (BaseBus.findPort ⟨1, none, false⟩ 15 bus.clearPortCache).map Prod.fst := by
  have first : Admissible (plain 10 20) ([] : AddrRangeMap Nat) :=
    ⟨by decide, by simp, trivial, fun _ => ⟨fun _ => .inl rfl, by simp⟩⟩
  have second : Admissible (plain 30 40) [(plain 10 20, 0)] :=
    ⟨by decide, by decide, ⟨fun mixed => by simp [plain, AddrRange.interleaved] at mixed,
      fun _ => trivial⟩, fun _ => ⟨fun _ => .inl rfl, fun e member _ => .inl (by simp_all [plain])⟩⟩
  constructor
  · apply ((lookups_right Nat ⟨1, none, false⟩).1
      [.insert (plain 10 20) 0, .insert (plain 30 40) 1] _ _ (by decide)).1
    intro one taken
    refine ⟨first, fun two takenToo => ⟨?_, trivial⟩⟩
    cases taken
    exact second
  · refine ⟨_, rfl, (lookups_right Nat ⟨1, none, false⟩).2
      [.rangeChange 0 [plain 10 20], .lookup 12] _ ?_ rfl 15⟩
    intro one taken
    exact ⟨fun _ => ⟨first, fun _ _ => trivial⟩, fun two takenToo => ⟨trivial, trivial⟩⟩

/-- A range that reaches from a gap into the range behind it is taken in. -/
theorem overlap_with_next_missed :
    ¬∀ (ops : List (MapOp Nat)) (tree : AddrRangeMap Nat),
      (∀ r d, MapOp.insert r d ∈ ops → r.WellFormed) → Machine.run step [] ops = some tree →
        LookupsRight tree := by
  intro every
  have right := every
    [.insert (plain 10 20) 0, .insert (plain 30 40) 1, .insert (plain 25 35) 2]
    [(plain 10 20, 0), (plain 25 35, 2), (plain 30 40, 1)] (by
      intro r d member
      simp only [List.mem_cons, MapOp.insert.injEq, List.not_mem_nil, or_false] at member
      obtain ⟨rfl, -⟩ | ⟨rfl, -⟩ | ⟨rfl, -⟩ := member <;> decide) (by decide)
  have disjoint := right.disjoint
  simp only [List.pairwise_cons, List.mem_cons, List.not_mem_nil, or_false] at disjoint
  exact disjoint.2.1 (plain 30 40, 1) rfl 32 (by decide)

end AddrRangeMap

end GemDroid

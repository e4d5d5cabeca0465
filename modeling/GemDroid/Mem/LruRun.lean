import GemDroid.Lib.Recency
import GemDroid.Lib.Run
import GemDroid.Mem.Lru

/-! The recency order of the tag store over whole runs, and the victims it leads to. -/

namespace GemDroid

namespace LruConfig

variable {config : LruConfig}

@[simp] theorem mem_ways {set : Nat} {ptr : BlkPtr} :
    ptr ∈ config.ways set ↔ ptr.set = set ∧ ptr.way < config.assoc := by
  constructor
  · intro member
    obtain ⟨way, below, rfl⟩ := List.mem_map.mp member
    exact ⟨rfl, List.mem_range.mp below⟩
  · rintro ⟨rfl, below⟩
    exact List.mem_map.mpr ⟨ptr.way, List.mem_range.mpr below, rfl⟩

theorem ways_nodup (set : Nat) : (config.ways set).Nodup := by
  refine List.Nodup.map ?_ List.nodup_range
  intro first second same
  exact (BlkPtr.mk.inj same).2

@[simp] theorem ways_length (set : Nat) : (config.ways set).length = config.assoc := by
  simp [ways]

theorem mem_allBlks {ptr : BlkPtr} :
    ptr ∈ config.allBlks ↔ ptr.set < config.numSets ∧ ptr.way < config.assoc := by
  simp [allBlks]

theorem allBlks_nodup (config : LruConfig) : config.allBlks.Nodup := by
  refine List.nodup_flatMap.mpr ⟨fun set _ => ways_nodup set, ?_⟩
  refine List.nodup_range.imp fun {first second} other => ?_
  rintro ptr inside also
  exact other ((mem_ways.mp inside).1.symm.trans (mem_ways.mp also).1)

end LruConfig

namespace Lru

variable {config : LruConfig} {tags : Lru} {addr : Addr} {isSecure : Bool} {ptr : BlkPtr}

/--
What the tag store keeps of its blocks.

The array of a set lists the blocks of the set, and no two valid blocks hold the same tag of the
same security state.
-/
structure WF (config : LruConfig) (tags : Lru) : Prop where
  perm : ∀ set, (tags.sets set).Perm (config.ways set)
  unique : ∀ set, ∀ p ∈ config.ways set, ∀ q ∈ config.ways set,
    (tags.blks p).isValid = true → (tags.blks q).isValid = true →
    (tags.blks p).tag = (tags.blks q).tag →
    (tags.blks p).isSecure = (tags.blks q).isSecure → p = q
  blank : ∀ p, (tags.blks p).isValid = false → (tags.blks p).isSecure = false

theorem WF.mem_sets (wf : WF config tags) {set : Nat} :
    ptr ∈ tags.sets set ↔ ptr.set = set ∧ ptr.way < config.assoc := by
  rw [(wf.perm set).mem_iff]
  exact LruConfig.mem_ways

theorem WF.nodup (wf : WF config tags) (set : Nat) : (tags.sets set).Nodup :=
  (wf.perm set).nodup_iff.mpr (LruConfig.ways_nodup set)

theorem WF.length (wf : WF config tags) (set : Nat) : (tags.sets set).length = config.assoc := by
  rw [(wf.perm set).length_eq, LruConfig.ways_length]

theorem holds_iff {tag : Addr} {blk : CacheBlk} :
    holds tag isSecure blk = true ↔
      blk.tag = tag ∧ blk.isValid = true ∧ blk.isSecure = isSecure := by
  simp [holds, and_assoc]

theorem WF.findBlock_eq_some_iff (wf : WF config tags) :
    tags.findBlock config addr isSecure = some ptr ↔
      ptr ∈ config.ways (config.extractSet addr) ∧
        holds (config.extractTag addr) isSecure (tags.blks ptr) = true := by
  -- Two blocks that pass the test are the same block, so the order of the search is no matter.
  let test (p : BlkPtr) : Bool := holds (config.extractTag addr) isSecure (tags.blks p)
  have passing : ∀ {p}, tags.findBlock config addr isSecure = some p →
      p ∈ config.ways (config.extractSet addr) ∧ test p = true := by
    intro p found
    exact ⟨(wf.perm _).mem_iff.mp (List.mem_of_find?_eq_some found),
      List.find?_some (p := test) found⟩
  refine ⟨passing, ?_⟩
  rintro ⟨member, passes⟩
  have inside : ptr ∈ tags.sets (config.extractSet addr) := (wf.perm _).mem_iff.mpr member
  have some_found : (tags.findBlock config addr isSecure).isSome = true :=
    List.find?_isSome (p := test) |>.mpr ⟨ptr, inside, passes⟩
  obtain ⟨other, found⟩ := Option.isSome_iff_exists.mp some_found
  obtain ⟨known, met⟩ := passing found
  have also := holds_iff.mp met
  have this := holds_iff.mp passes
  have same : other = ptr := wf.unique _ other known ptr member also.2.1 this.2.1
    (also.1.trans this.1.symm) (also.2.2.trans this.2.2.symm)
  rw [← same]
  exact found

theorem WF.findBlock_eq_none_iff (wf : WF config tags) :
    tags.findBlock config addr isSecure = none ↔
      ∀ p ∈ config.ways (config.extractSet addr),
        holds (config.extractTag addr) isSecure (tags.blks p) = false := by
  simp only [findBlock, List.find?_eq_none, Bool.not_eq_true]
  exact forall_congr' fun p => by rw [(wf.perm _).mem_iff]

theorem WF.accessBlock_hit (wf : WF config tags)
    (found : tags.findBlock config addr isSecure = some ptr) :
    tags.accessBlock config addr isSecure =
      .ok (tags.setOrder (config.extractSet addr)
        (ptr :: (tags.sets (config.extractSet addr)).erase ptr), some ptr) := by
  have inside : ptr ∈ tags.sets (config.extractSet addr) :=
    (wf.perm _).mem_iff.mpr (wf.findBlock_eq_some_iff.mp found).1
  simp only [accessBlock, found, CacheSet.moveToHead_eq inside]
  rfl

theorem accessBlock_miss (missing : tags.findBlock config addr isSecure = none) :
    tags.accessBlock config addr isSecure = .ok (tags, none) := by
  simp only [accessBlock, missing]

theorem WF.findVictim_ok (wf : WF config tags) (addr : Addr) :
    ∃ victim, tags.findVictim config addr = .ok victim ∧
      (tags.sets (config.extractSet addr)).getLast? = some victim ∧
      victim ∈ config.ways (config.extractSet addr) := by
  have size := wf.length (config.extractSet addr)
  have within : config.assoc - 1 < (tags.sets (config.extractSet addr)).length := by
    have := config.assoc_positive
    omega
  refine ⟨(tags.sets (config.extractSet addr))[config.assoc - 1], ?_, ?_, ?_⟩
  · simp only [findVictim, List.getElem?_eq_getElem within]
  · rw [List.getLast?_eq_getElem?, size, List.getElem?_eq_getElem within]
  · exact (wf.perm _).mem_iff.mp (List.getElem_mem within)

theorem WF.insertBlock_ok (wf : WF config tags)
    (member : ptr ∈ config.ways (config.extractSet addr)) (isSecure : Bool) :
    tags.insertBlock config addr isSecure ptr =
      .ok ((tags.setBlk ptr (placed config addr isSecure (tags.blks ptr))).setOrder
        (config.extractSet addr) (ptr :: (tags.sets (config.extractSet addr)).erase ptr)) := by
  have inside : ptr ∈ tags.sets (config.extractSet addr) := (wf.perm _).mem_iff.mpr member
  simp only [insertBlock, CacheSet.moveToHead_eq inside]
  rfl

theorem WF.invalidate_ok (wf : WF config tags) (valid : (tags.blks ptr).isValid = true)
    (member : ptr.way < config.assoc) :
    tags.invalidate ptr =
      .ok (tags.setOrder ptr.set ((tags.sets ptr.set).erase ptr ++ [ptr])) := by
  have inside : ptr ∈ tags.sets ptr.set := wf.mem_sets.mpr ⟨rfl, member⟩
  simp only [invalidate, valid, if_true, CacheSet.moveToTail_eq inside (wf.nodup _)]
  rfl

theorem WF.setOrder (wf : WF config tags) {set : Nat} {order : List BlkPtr}
    (perm : order.Perm (tags.sets set)) : WF config (tags.setOrder set order) := by
  refine ⟨fun other => ?_, wf.unique, wf.blank⟩
  by_cases same : other = set
  · subst same
    simpa [Lru.setOrder] using perm.trans (wf.perm other)
  · simpa [Lru.setOrder, same] using wf.perm other

theorem WF.setBlk_same (wf : WF config tags) {blk : CacheBlk} (tag : blk.tag = (tags.blks ptr).tag)
    (valid : blk.isValid = (tags.blks ptr).isValid)
    (secure : blk.isSecure = (tags.blks ptr).isSecure) : WF config (tags.setBlk ptr blk) := by
  -- Every block of the new store answers the three questions as the old one did.
  have kept : ∀ p, ((tags.setBlk ptr blk).blks p).tag = (tags.blks p).tag ∧
      ((tags.setBlk ptr blk).blks p).isValid = (tags.blks p).isValid ∧
      ((tags.setBlk ptr blk).blks p).isSecure = (tags.blks p).isSecure := by
    intro p
    by_cases same : p = ptr
    · subst same
      simpa [setBlk] using ⟨tag, valid, secure⟩
    · simp [setBlk, same]
  refine ⟨wf.perm, ?_, ?_⟩
  · intro set p inP q inQ
    rw [(kept p).1, (kept p).2.1, (kept p).2.2, (kept q).1, (kept q).2.1, (kept q).2.2]
    exact wf.unique set p inP q inQ
  · intro p
    rw [(kept p).2.1, (kept p).2.2]
    exact wf.blank p

theorem WF.setBlk_clear (wf : WF config tags) {blk : CacheBlk} (invalid : blk.isValid = false)
    (insecure : blk.isSecure = false) : WF config (tags.setBlk ptr blk) := by
  -- The cleared block takes no part in the uniqueness of the valid ones.
  refine ⟨wf.perm, ?_, ?_⟩
  · intro set p inP q inQ validP validQ
    have otherP : p ≠ ptr := by
      rintro rfl
      simp [setBlk, invalid] at validP
    have otherQ : q ≠ ptr := by
      rintro rfl
      simp [setBlk, invalid] at validQ
    simp only [setBlk, Function.update_of_ne otherP, Function.update_of_ne otherQ]
      at validP validQ ⊢
    exact wf.unique set p inP q inQ validP validQ
  · intro p
    by_cases same : p = ptr
    · subst same
      simp [setBlk, insecure]
    · simpa [setBlk, same] using wf.blank p

/-- A block of the set may be given to an address that no block holds. -/
theorem WF.setBlk_insert (wf : WF config tags) {blk : CacheBlk}
    (missing : tags.findBlock config addr isSecure = none)
    (member : ptr ∈ config.ways (config.extractSet addr))
    (holding : holds (config.extractTag addr) isSecure blk = true) :
    WF config (tags.setBlk ptr blk) := by
  -- Another valid block with this tag and security state would have been found.
  obtain ⟨tag, valid, secure⟩ := holds_iff.mp holding
  have absent : ∀ set, ∀ p ∈ config.ways set, p ≠ ptr → set = ptr.set →
      (tags.blks p).isValid = true → (tags.blks p).tag = blk.tag →
      (tags.blks p).isSecure ≠ blk.isSecure := by
    intro set p inside other here validP tagP secureP
    have where_p : p ∈ config.ways (config.extractSet addr) := by
      rw [← (LruConfig.mem_ways.mp member).1, ← here]
      exact inside
    have passes := wf.findBlock_eq_none_iff.mp missing p where_p
    rw [← Bool.not_eq_true, holds_iff] at passes
    exact passes ⟨tagP.trans tag, validP, secureP.trans secure⟩
  refine ⟨wf.perm, ?_, ?_⟩
  · intro set p inP q inQ
    have setP := (LruConfig.mem_ways.mp inP).1
    have setQ := (LruConfig.mem_ways.mp inQ).1
    by_cases sameP : p = ptr <;> by_cases sameQ : q = ptr
    · intros
      exact sameP.trans sameQ.symm
    · subst sameP
      simp only [setBlk, Function.update_self, Function.update_of_ne sameQ]
      intro _ validQ tagQ secureQ
      exact absurd secureQ.symm (absent set q inQ sameQ setP.symm validQ tagQ.symm)
    · subst sameQ
      simp only [setBlk, Function.update_self, Function.update_of_ne sameP]
      intro validP _ tagP secureP
      exact absurd secureP (absent set p inP sameP setQ.symm validP tagP)
    · simp only [setBlk, Function.update_of_ne sameP, Function.update_of_ne sameQ]
      exact wf.unique set p inP q inQ
  · intro p
    by_cases same : p = ptr
    · subst same
      simp [setBlk, valid]
    · simpa [setBlk, same] using wf.blank p

theorem start_wf (config : LruConfig) (raw : BlkPtr → Nat → UInt8) :
    WF config (start config raw) := by
  refine ⟨fun set => List.Perm.refl _, ?_, fun _ _ => rfl⟩
  intro set p _ q _ valid
  exact absurd valid Bool.false_ne_true

end Lru

/-- The tag store with a record of when each block was last accessed or inserted. -/
structure LruTrace where
  tags : Lru
  clock : Nat
  lastUse : BlkPtr → Nat

/-- What a cache does to its tag store. -/
inductive LruEvent
  | accessBlock (addr : Addr) (isSecure : Bool)
  /-- `findVictim`, `insertBlock` and marking the block valid. -/
  | insert (addr : Addr) (isSecure : Bool)
  /-- `invalidate` of the tag store and then of the block. -/
  | invalidate (ptr : BlkPtr)
  deriving DecidableEq, Repr

namespace LruTrace

/-- A new tag store. -/
def start (config : LruConfig) (raw : BlkPtr → Nat → UInt8) : LruTrace :=
  { tags := Lru.start config raw, clock := 0, lastUse := fun _ => 0 }

/-- Record that a block is used now. -/
def use (ptr : BlkPtr) (tags : Lru) (s : LruTrace) : LruTrace :=
  { tags := tags, clock := s.clock + 1, lastUse := Function.update s.lastUse ptr (s.clock + 1) }

/-- One operation; it is refused if its condition does not hold or an assertion fails. -/
def step (config : LruConfig) (s : LruTrace) : LruEvent → Option LruTrace
  | .accessBlock addr isSecure =>
    match s.tags.accessBlock config addr isSecure with
    | .ok (tags, some ptr) => some (s.use ptr tags)
    | .ok (tags, none) => some { s with tags := tags }
    | .error _ => none
  | .insert addr isSecure =>
    -- Only a block that is not there is brought in.
    if (s.tags.findBlock config addr isSecure).isSome then none
    else
      match s.tags.findVictim config addr with
      | .error _ => none
      | .ok ptr =>
        match s.tags.insertBlock config addr isSecure ptr with
        | .error _ => none
        | .ok tags =>
          let blk := tags.blks ptr
          some (s.use ptr (tags.setBlk ptr
            { blk with status := { blk.status with valid := true } }))
  | .invalidate ptr =>
    match s.tags.invalidate ptr with
    | .ok tags => some { s with tags := tags.setBlk ptr (tags.blks ptr).invalidate }
    | .error _ => none

variable {config : LruConfig} {s t : LruTrace}

/-- The block with its valid bit set after it was inserted. -/
def marked (config : LruConfig) (addr : Addr) (isSecure : Bool) (blk : CacheBlk) : CacheBlk :=
  let blk := Lru.placed config addr isSecure blk
  { blk with status := { blk.status with valid := true } }

/-- Moving a block to the front of a set makes it the most recent one. -/
def toFront (set : Nat) (ptr : BlkPtr) (tags : Lru) : Lru :=
  tags.setOrder set (ptr :: (tags.sets set).erase ptr)

theorem step_accessBlock (wf : s.tags.WF config) (addr : Addr) (isSecure : Bool) :
    s.step config (.accessBlock addr isSecure) =
      some (match s.tags.findBlock config addr isSecure with
        | some ptr => s.use ptr (toFront (config.extractSet addr) ptr s.tags)
        | none => s) := by
  cases found : s.tags.findBlock config addr isSecure with
  | some ptr => simp [step, wf.accessBlock_hit found, toFront]
  | none => simp [step, Lru.accessBlock_miss found]

theorem step_insert (wf : s.tags.WF config) {addr : Addr} {isSecure : Bool}
    (missing : s.tags.findBlock config addr isSecure = none) :
    ∃ ptr ∈ config.ways (config.extractSet addr),
      (s.tags.sets (config.extractSet addr)).getLast? = some ptr ∧
      s.step config (.insert addr isSecure) =
        some (s.use ptr (toFront (config.extractSet addr) ptr
          (s.tags.setBlk ptr (marked config addr isSecure (s.tags.blks ptr))))) := by
  obtain ⟨ptr, victim, last, member⟩ := wf.findVictim_ok addr
  refine ⟨ptr, member, last, ?_⟩
  simp only [step, missing, Option.isSome_none, Bool.false_eq_true, if_false, victim,
    wf.insertBlock_ok member isSecure]
  simp [Lru.setBlk, Lru.setOrder, toFront, marked]

theorem step_invalidate (wf : s.tags.WF config) {ptr : BlkPtr}
    (valid : (s.tags.blks ptr).isValid = true) (inside : ptr.way < config.assoc) :
    s.step config (.invalidate ptr) =
      some { s with
        tags := (s.tags.setBlk ptr (s.tags.blks ptr).invalidate).setOrder ptr.set
          ((s.tags.sets ptr.set).erase ptr ++ [ptr]) } := by
  simp only [step, wf.invalidate_ok valid inside]
  simp [Lru.setBlk, Lru.setOrder]

/-- One block stands before another: it is valid if the other is, and was used later. -/
def Before (s : LruTrace) (p q : BlkPtr) : Prop :=
  (s.tags.blks q).isValid = true → (s.tags.blks p).isValid = true ∧ s.lastUse q < s.lastUse p

/-- The tag store is well formed, and its sets stand in the order of their last use. -/
structure Inv (config : LruConfig) (s : LruTrace) : Prop where
  wf : s.tags.WF config
  ordered : ∀ set, (s.tags.sets set).Pairwise s.Before
  past : ∀ ptr, s.lastUse ptr ≤ s.clock
  inside : ∀ ptr, (s.tags.blks ptr).isValid = true → ptr.way < config.assoc

/-- Using a valid block that moves to the front keeps the order of its set. -/
theorem Inv.use_toFront (inv : s.Inv config) {ptr : BlkPtr} {blk : CacheBlk}
    (inside : ptr.way < config.assoc) (valid : blk.isValid = true)
    (wf : (s.tags.setBlk ptr blk).WF config) :
    (s.use ptr (toFront ptr.set ptr (s.tags.setBlk ptr blk))).Inv config := by
  -- The block is used later than all others, and the others keep their blocks and times.
  let t := s.use ptr (toFront ptr.set ptr (s.tags.setBlk ptr blk))
  have member : ptr ∈ s.tags.sets ptr.set := inv.wf.mem_sets.mpr ⟨rfl, inside⟩
  have others : ∀ p, p ≠ ptr → t.tags.blks p = s.tags.blks p ∧ t.lastUse p = s.lastUse p := by
    intro p other
    simp [t, use, toFront, Lru.setBlk, Lru.setOrder, other]
  have itself : t.tags.blks ptr = blk ∧ t.lastUse ptr = s.clock + 1 := by
    simp [t, use, toFront, Lru.setBlk, Lru.setOrder]
  have kept : ∀ p q, p ≠ ptr → q ≠ ptr → s.Before p q → t.Before p q := by
    intro p q otherP otherQ before
    unfold Before
    rw [(others p otherP).1, (others p otherP).2, (others q otherQ).1, (others q otherQ).2]
    exact before
  refine ⟨wf.setOrder ?_, fun set => ?_, fun p => ?_, fun p => ?_⟩
  · exact (List.perm_cons_erase member).symm
  · by_cases same : set = ptr.set
    · subst same
      have front : t.tags.sets ptr.set = ptr :: (s.tags.sets ptr.set).erase ptr := by
        simp [t, use, toFront, Lru.setBlk, Lru.setOrder]
      show (t.tags.sets ptr.set).Pairwise t.Before
      rw [front]
      refine Recency.pairwise_moveToHead (inv.wf.nodup _) (inv.ordered _) kept ?_
      intro q _ otherQ _
      rw [itself.1, itself.2, (others q otherQ).2]
      exact ⟨valid, Nat.lt_succ_of_le (inv.past q)⟩
    · have untouched : t.tags.sets set = s.tags.sets set := by
        simp [t, use, toFront, Lru.setBlk, Lru.setOrder, same]
      show (t.tags.sets set).Pairwise t.Before
      rw [untouched]
      refine List.Pairwise.imp_of_mem ?_ (inv.ordered set)
      intro p q inP inQ before
      have otherP : p ≠ ptr := by
        rintro rfl
        exact same (inv.wf.mem_sets.mp inP).1.symm
      have otherQ : q ≠ ptr := by
        rintro rfl
        exact same (inv.wf.mem_sets.mp inQ).1.symm
      exact kept p q otherP otherQ before
  · show t.lastUse p ≤ s.clock + 1
    by_cases same : p = ptr
    · rw [same, itself.2]
    · rw [(others p same).2]
      exact Nat.le_succ_of_le (inv.past p)
  · show (t.tags.blks p).isValid = true → p.way < config.assoc
    by_cases same : p = ptr
    · intro _
      rw [same]
      exact inside
    · rw [(others p same).1]
      exact inv.inside p

/-- Clearing a block that moves to the end keeps the order of its set. -/
theorem Inv.clear_toTail (inv : s.Inv config) {ptr : BlkPtr} (inside : ptr.way < config.assoc) :
    Inv config { s with
      tags := (s.tags.setBlk ptr (s.tags.blks ptr).invalidate).setOrder ptr.set
        ((s.tags.sets ptr.set).erase ptr ++ [ptr]) } := by
  -- An invalid block may stand behind any other.
  let cleared := s.tags.setBlk ptr (s.tags.blks ptr).invalidate
  let t : LruTrace := { s with
    tags := cleared.setOrder ptr.set ((s.tags.sets ptr.set).erase ptr ++ [ptr]) }
  have member : ptr ∈ s.tags.sets ptr.set := inv.wf.mem_sets.mpr ⟨rfl, inside⟩
  have others : ∀ p, p ≠ ptr → t.tags.blks p = s.tags.blks p := by
    intro p other
    simp [t, cleared, Lru.setBlk, Lru.setOrder, other]
  have itself : (t.tags.blks ptr).isValid = false := by
    simp [t, cleared, Lru.setBlk, Lru.setOrder]
  have kept : ∀ p q, p ≠ ptr → q ≠ ptr → s.Before p q → t.Before p q := by
    intro p q otherP otherQ before
    unfold Before
    rw [others p otherP, others q otherQ]
    exact before
  have wf : cleared.WF config := inv.wf.setBlk_clear rfl rfl
  refine ⟨wf.setOrder ?_, fun set => ?_, inv.past, fun p => ?_⟩
  · exact (List.perm_append_singleton ptr _).trans (List.perm_cons_erase member).symm
  · by_cases same : set = ptr.set
    · subst same
      have back : t.tags.sets ptr.set = (s.tags.sets ptr.set).erase ptr ++ [ptr] := by
        simp [t, cleared, Lru.setBlk, Lru.setOrder]
      show (t.tags.sets ptr.set).Pairwise t.Before
      rw [back]
      refine Recency.pairwise_moveToTail (inv.wf.nodup _) (inv.ordered _) kept ?_
      intro p _ _ valid
      simp [itself] at valid
    · have untouched : t.tags.sets set = s.tags.sets set := by
        simp [t, cleared, Lru.setBlk, Lru.setOrder, same]
      show (t.tags.sets set).Pairwise t.Before
      rw [untouched]
      refine List.Pairwise.imp_of_mem ?_ (inv.ordered set)
      intro p q inP inQ before
      have otherP : p ≠ ptr := by
        rintro rfl
        exact same (inv.wf.mem_sets.mp inP).1.symm
      have otherQ : q ≠ ptr := by
        rintro rfl
        exact same (inv.wf.mem_sets.mp inQ).1.symm
      exact kept p q otherP otherQ before
  · show (t.tags.blks p).isValid = true → p.way < config.assoc
    by_cases same : p = ptr
    · intro _
      rw [same]
      exact inside
    · rw [others p same]
      exact inv.inside p

/-- Every operation keeps the order of the sets. -/
theorem step_inv {e : LruEvent} (inv : s.Inv config) (taken : s.step config e = some t) :
    t.Inv config := by
  cases e with
  | accessBlock addr isSecure =>
    rw [step_accessBlock inv.wf, Option.some.injEq] at taken
    subst taken
    cases found : s.tags.findBlock config addr isSecure with
    | none => exact inv
    | some ptr =>
      obtain ⟨member, passes⟩ := inv.wf.findBlock_eq_some_iff.mp found
      obtain ⟨where_ptr, inside⟩ := LruConfig.mem_ways.mp member
      have same : s.tags.setBlk ptr (s.tags.blks ptr) = s.tags := by simp [Lru.setBlk]
      have used := inv.use_toFront inside (Lru.holds_iff.mp passes).2.1 (same.symm ▸ inv.wf)
      rw [same, where_ptr] at used
      exact used
  | insert addr isSecure =>
    cases found : s.tags.findBlock config addr isSecure with
    | some ptr => simp [step, found] at taken
    | none =>
      obtain ⟨ptr, member, -, stepped⟩ := step_insert inv.wf found
      rw [stepped, Option.some.injEq] at taken
      subst taken
      obtain ⟨where_ptr, inside⟩ := LruConfig.mem_ways.mp member
      -- The block was clear of the secure bit before its own bit was set.
      have secure : (marked config addr isSecure (s.tags.blks ptr)).isSecure = isSecure := by
        have blank := inv.wf.blank ptr
        cases valid : (s.tags.blks ptr).isValid with
        | true => simp [marked, Lru.placed, valid, CacheBlk.isSecure, CacheBlk.invalidate,
            BlkStatus.zero]
        | false =>
          have clear := blank valid
          simp only [CacheBlk.isSecure] at clear
          simp [marked, Lru.placed, valid, CacheBlk.isSecure, clear]
      have holding : Lru.holds (config.extractTag addr) isSecure
          (marked config addr isSecure (s.tags.blks ptr)) = true :=
        Lru.holds_iff.mpr ⟨rfl, rfl, secure⟩
      have used := inv.use_toFront inside rfl (inv.wf.setBlk_insert found member holding)
      rw [where_ptr] at used
      exact used
  | invalidate ptr =>
    cases valid : (s.tags.blks ptr).isValid with
    | false => simp [step, Lru.invalidate, valid] at taken
    | true =>
      have inside := inv.inside ptr valid
      rw [step_invalidate inv.wf valid inside, Option.some.injEq] at taken
      subst taken
      exact inv.clear_toTail inside

theorem start_inv (config : LruConfig) (raw : BlkPtr → Nat → UInt8) :
    (start config raw).Inv config := by
  refine ⟨Lru.start_wf config raw, fun set => ?_, fun _ => le_refl _, fun ptr valid => ?_⟩
  · exact List.pairwise_of_forall fun p q valid => absurd valid Bool.false_ne_true
  · exact absurd valid Bool.false_ne_true

/--
The sets of a tag store stay in the order of use, invalid blocks last, over every run.

The victim is an invalid block if the set has one, and else the least recently used one.
-/
theorem recency_order {raw : BlkPtr → Nat → UInt8} {events : List LruEvent}
    (ran : Machine.run (step config) (start config raw) events = some s) :
    (∀ set < config.numSets, (s.tags.sets set).Perm (config.ways set)) ∧
      (∀ set < config.numSets, ∃ front back, s.tags.sets set = front ++ back ∧
        (∀ p ∈ front, (s.tags.blks p).isValid = true) ∧
        (∀ p ∈ back, (s.tags.blks p).isValid = false) ∧
        front.Pairwise fun p q => s.lastUse q < s.lastUse p) ∧
      (∀ addr, ∃ victim, s.tags.findVictim config addr = .ok victim ∧
        victim ∈ config.ways (config.extractSet addr) ∧
        ((∃ p ∈ config.ways (config.extractSet addr), (s.tags.blks p).isValid = false) →
          (s.tags.blks victim).isValid = false) ∧
        ((∀ p ∈ config.ways (config.extractSet addr), (s.tags.blks p).isValid = true) →
          ∀ p ∈ config.ways (config.extractSet addr), p ≠ victim →
            s.lastUse victim < s.lastUse p)) ∧
      (∀ set < config.numSets, ∀ p ∈ config.ways set, ∀ q ∈ config.ways set,
        (s.tags.blks p).isValid = true → (s.tags.blks q).isValid = true →
        (s.tags.blks p).tag = (s.tags.blks q).tag →
        (s.tags.blks p).isSecure = (s.tags.blks q).isSecure → p = q) ∧
      (∀ addr, config.regenerateBlkAddr (config.extractTag addr) (config.extractSet addr) =
        config.blkAlign addr) ∧
      (∀ addr isSecure, (s.step config (.accessBlock addr isSecure)).isSome = true ∧
        (s.tags.findBlock config addr isSecure = none →
          (s.step config (.insert addr isSecure)).isSome = true)) ∧
      ∀ ptr, (s.tags.blks ptr).isValid = true →
        (s.step config (.invalidate ptr)).isSome = true := by
  have inv : s.Inv config := Machine.run_preserves (fun _ _ _ inv taken => step_inv inv taken)
    (start_inv config raw) ran
  refine ⟨fun set _ => inv.wf.perm set, fun set _ => ?_, fun addr => ?_,
    fun set _ => inv.wf.unique set, LruConfig.regenerateBlkAddr_extract,
    fun addr isSecure => ⟨?_, fun missing => ?_⟩, fun ptr valid => ?_⟩
  · -- Validity passes to the left, so the valid blocks stand in front.
    have validity : (s.tags.sets set).Pairwise fun p q =>
        (s.tags.blks q).isValid = true → (s.tags.blks p).isValid = true :=
      (inv.ordered set).imp fun before valid => (before valid).1
    obtain ⟨front, back, split, left, right⟩ := Recency.split_of_pairwise validity
    refine ⟨front, back, split, left, fun p member => by simpa using right p member, ?_⟩
    have ordered := inv.ordered set
    rw [split] at ordered
    refine List.Pairwise.imp_of_mem ?_ (List.pairwise_append.mp ordered).1
    intro p q _ inQ before
    exact (before (left q inQ)).2
  · obtain ⟨victim, chosen, last, member⟩ := inv.wf.findVictim_ok addr
    -- Every other block of the set stands before the victim.
    have before : ∀ p ∈ config.ways (config.extractSet addr), p ≠ victim → s.Before p victim := by
      intro p inside other
      exact Recency.before_getLast (inv.ordered _) last ((inv.wf.perm _).mem_iff.mpr inside) other
    refine ⟨victim, chosen, member, ?_, ?_⟩
    · rintro ⟨p, inside, invalid⟩
      by_contra valid
      simp only [Bool.not_eq_false] at valid
      by_cases same : p = victim
      · simp [same, valid] at invalid
      · simp [(before p inside same valid).1] at invalid
    · intro all p inside other
      exact (before p inside other (all victim member)).2
  · simp [step_accessBlock inv.wf]
  · obtain ⟨ptr, -, -, stepped⟩ := step_insert inv.wf missing
    simp [stepped]
  · simp [step_invalidate inv.wf valid (inv.inside ptr valid)]

/-- Two sets of two blocks of 64 bytes. -/
def twoByTwo : LruConfig :=
  { blkSize := 64, numSets := 2, assoc := 2, blkSize_large := by decide,
    blkSize_isPowerOf2 := by decide, blkSize_unsigned := by decide,
    numSets_isPowerOf2 := by decide, numSets_unsigned := by decide,
    assoc_positive := by decide }

/-- Of two blocks brought into a full set, the one that was not accessed again is the victim. -/
theorem victim_not_accessed_again :
    ∃ s victim, Machine.run (step twoByTwo) (start twoByTwo fun _ _ => 0)
        [.insert 0 false, .insert 128 false, .accessBlock 0 false] = some s ∧
      s.tags.findVictim twoByTwo 256 = .ok victim ∧
      s.tags.findBlock twoByTwo 128 false = some victim ∧
      s.lastUse victim < s.lastUse ⟨0, 1⟩ := by
  have full : (Machine.run (step twoByTwo) (start twoByTwo fun _ _ => 0)
      [.insert 0 false, .insert 128 false, .accessBlock 0 false]).any (fun s =>
        s.tags.findBlock twoByTwo 128 false = some ⟨0, 0⟩ ∧
        (s.tags.findVictim twoByTwo 256).toOption = some ⟨0, 0⟩ ∧
        ∀ p ∈ twoByTwo.ways 0, (s.tags.blks p).isValid = true) = true := by
    decide +kernel
  obtain ⟨s, ran, checked⟩ := (Option.any_eq_true _ _).mp full
  obtain ⟨found, last, valid⟩ := of_decide_eq_true checked
  obtain ⟨victim, chosen, -, -, oldest⟩ := (recency_order ran).2.2.1 256
  have same : victim = ⟨0, 0⟩ := by
    rw [chosen] at last
    exact Option.some.inj last
  subst same
  exact ⟨s, _, ran, chosen, found, oldest valid ⟨0, 1⟩ (by decide) (by decide)⟩

end LruTrace

end GemDroid

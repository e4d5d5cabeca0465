import GemDroid.Mem.PageTable

/-! When the cache of a page table answers with the entries of the table. -/

namespace GemDroid

namespace PageTable

variable {Entry : Type} {config : PageTableConfig Entry} {t t' : PageTable Entry}
  {vaddr page : Addr} {entry : Entry}

/-- The entry of the first of the first two slots that answers for a page. -/
def front (page : Addr) (t : PageTable Entry) : Option Entry :=
  if t.slot0.holds page then some t.slot0.entry
  else if t.slot1.holds page then some t.slot1.entry
  else none

/-- The entry of the first slot that answers for a page. -/
def cached (page : Addr) (t : PageTable Entry) : Option Entry :=
  (t.front page).or (if t.slot2.holds page then some t.slot2.entry else none)

/-- A lookup returns what a search of the table for its page returns. -/
def Agrees (config : PageTableConfig Entry) (t : PageTable Entry) : Prop :=
  ∀ vaddr, (t.lookup config vaddr).2 = t.pTable (pageAlign config vaddr)

theorem lookup_eq (vaddr : Addr) (t : PageTable Entry) : (t.lookup config vaddr).2 =
    (t.cached (pageAlign config vaddr)).or (t.pTable (pageAlign config vaddr)) := by
  rw [lookup, cached, front]
  cases t.slot0.holds (pageAlign config vaddr) <;> cases t.slot1.holds (pageAlign config vaddr) <;>
    cases t.slot2.holds (pageAlign config vaddr) <;>
    cases t.pTable (pageAlign config vaddr) <;> simp

theorem agrees_iff : t.Agrees config ↔
    ∀ vaddr e, t.cached (pageAlign config vaddr) = some e →
      t.pTable (pageAlign config vaddr) = some e := by
  refine forall_congr' fun vaddr => ?_
  rw [lookup_eq]
  cases t.cached (pageAlign config vaddr) with
  | none => simp
  | some e => simp [eq_comm]

section slots

theorem cached_updateCache (vaddr page : Addr) (entry : Entry) (t : PageTable Entry) :
    (t.updateCache vaddr entry).cached page = if vaddr = page then some entry else t.front
      page := by
  by_cases same : vaddr = page
  · have first : ({ valid := true, vaddr, entry } : CacheElement Entry).holds page = true := by
      simp [CacheElement.holds, same]
    rw [if_pos same, cached, front, updateCache, if_pos first, Option.some_or]
  · have first : ({ valid := true, vaddr, entry } : CacheElement Entry).holds page = false := by
      simp [CacheElement.holds, same]
    cases here : t.slot0.holds page <;> cases there : t.slot1.holds page <;>
      simp [cached, front, updateCache, first, same, here, there]

theorem front_updateCache (vaddr page : Addr) (entry : Entry) (t : PageTable Entry) :
    (t.updateCache vaddr entry).front page =
      if vaddr = page then some entry
      else if t.slot0.holds page then some t.slot0.entry else none := by
  simp [front, updateCache, CacheElement.holds]

theorem holds_clear (slot : CacheElement Entry) (page : Addr) :
    ({ slot with valid := false } : CacheElement Entry).holds page = false := rfl

theorem holds_apart {slot : CacheElement Entry} (other : page ≠ vaddr)
    (here : slot.holds vaddr = true) : slot.holds page = false := by
  simp only [CacheElement.holds, Bool.and_eq_true, beq_iff_eq] at here
  simp [CacheElement.holds, here.2, Ne.symm other]

theorem cached_eraseCacheEntry_of_ne (other : page ≠ vaddr) (t : PageTable Entry) :
    (t.eraseCacheEntry vaddr).cached page = t.cached page ∧
      (t.eraseCacheEntry vaddr).front page = t.front page := by
  simp only [eraseCacheEntry]
  split_ifs with first second third
  · simp [cached, front, holds_clear, holds_apart other first]
  · simp [cached, front, holds_clear, holds_apart other second]
  · simp [cached, front, holds_clear, holds_apart other third]
  · exact ⟨rfl, rfl⟩

/-- The cache holds a page in two of its slots. -/
def Twice (page : Addr) (t : PageTable Entry) : Prop :=
  (t.slot0.holds page ∧ t.slot1.holds page) ∨ (t.slot0.holds page ∧ t.slot2.holds page) ∨
    (t.slot1.holds page ∧ t.slot2.holds page)

/-- The cache holds a page in both of its first two slots. -/
def FrontTwice (page : Addr) (t : PageTable Entry) : Prop :=
  t.slot0.holds page ∧ t.slot1.holds page

theorem cached_eraseCacheEntry_self (page : Addr) (t : PageTable Entry) :
    (t.eraseCacheEntry page).cached page ≠ none ↔ t.Twice page := by
  cases first : t.slot0.holds page <;> cases second : t.slot1.holds page <;>
    cases third : t.slot2.holds page <;>
      simp [eraseCacheEntry, cached, front, Twice, holds_clear, first, second, third]

theorem front_eraseCacheEntry_self (page : Addr) (t : PageTable Entry) :
    (t.eraseCacheEntry page).front page ≠ none ↔ t.FrontTwice page := by
  cases first : t.slot0.holds page <;> cases second : t.slot1.holds page <;>
    cases third : t.slot2.holds page <;>
      simp [eraseCacheEntry, front, FrontTwice, holds_clear, first, second, third]

theorem Twice.of_eraseCacheEntry (twice : (t.eraseCacheEntry vaddr).Twice vaddr) :
    t.Twice vaddr := by
  revert twice
  cases first : t.slot0.holds vaddr <;> cases second : t.slot1.holds vaddr <;>
    cases third : t.slot2.holds vaddr <;>
      simp [eraseCacheEntry, Twice, holds_clear, first, second, third]

theorem twice_eraseCacheEntry_of_ne (other : page ≠ vaddr) (t : PageTable Entry) :
    (t.eraseCacheEntry vaddr).Twice page ↔ t.Twice page := by
  simp only [eraseCacheEntry]
  split_ifs with first second third
  · simp [Twice, holds_clear, holds_apart other first]
  · simp [Twice, holds_clear, holds_apart other second]
  · simp [Twice, holds_clear, holds_apart other third]
  · exact Iff.rfl

theorem cached_of_front {e : Entry} (found : t.front page = some e) : t.cached page = some e := by
  rw [cached, found, Option.some_or]

@[simp] theorem cached_setPage (vaddr page : Addr) (e : Option Entry) (t : PageTable Entry) :
    (t.setPage vaddr e).cached page = t.cached page := rfl

@[simp] theorem front_setPage (vaddr page : Addr) (e : Option Entry) (t : PageTable Entry) :
    (t.setPage vaddr e).front page = t.front page := rfl

theorem twice_setPage (vaddr page : Addr) (e : Option Entry) (t : PageTable Entry) :
    (t.setPage vaddr e).Twice page ↔ t.Twice page := Iff.rfl

@[simp] theorem setPage_pTable (vaddr page : Addr) (e : Option Entry) (t : PageTable Entry) :
    (t.setPage vaddr e).pTable page = if page = vaddr then e else t.pTable page := by
  simp only [setPage, Function.update_apply]

@[simp] theorem updateCache_pTable (vaddr : Addr) (entry : Entry) (t : PageTable Entry) :
    (t.updateCache vaddr entry).pTable = t.pTable := rfl

@[simp] theorem eraseCacheEntry_pTable (vaddr : Addr) (t : PageTable Entry) :
    (t.eraseCacheEntry vaddr).pTable = t.pTable := by
  simp only [eraseCacheEntry]
  split_ifs <;> rfl

end slots

section pages

/-- The start of a page. -/
def Aligned (config : PageTableConfig Entry) (page : Addr) : Prop :=
  pageOffset config page = 0

theorem pageSize_eq (config : PageTableConfig Entry) :
    config.pageSize = 2 ^ config.pageSize.log2 ∧ config.pageSize.log2 < 64 := by
  have power := eq_two_pow_log2 config.pageSize_isPowerOf2
  refine ⟨power, ?_⟩
  by_contra wide
  have large : 2 ^ 64 ≤ 2 ^ config.pageSize.log2 := Nat.pow_le_pow_right (by decide) (by omega)
  have bound := config.pageSize_addr
  omega

theorem Aligned.pageAlign_eq (aligned : Aligned config page) : pageAlign config page = page := by
  have whole := Align.align_add_offset config.pageSize page
  rw [Aligned, pageOffset] at aligned
  rwa [aligned, BitVec.add_zero] at whole

theorem aligned_pageAlign (config : PageTableConfig Entry) (vaddr : Addr) :
    Aligned config (pageAlign config vaddr) := by
  obtain ⟨power, narrow⟩ := pageSize_eq config
  exact Align.offset_align power narrow vaddr

theorem Aligned.nextPage (aligned : Aligned config page) : Aligned config
    (nextPage config page) := by
  obtain ⟨power, narrow⟩ := pageSize_eq config
  rw [Aligned, pageOffset, Align.offset_eq_mod power narrow] at aligned ⊢
  have words : config.pageSize ∣ 2 ^ 64 := by
    rw [power]
    exact Nat.pow_dvd_pow 2 narrow.le
  rw [PageTable.nextPage, BitVec.toNat_add, BitVec.toNat_ofNat, Nat.mod_mod_of_dvd _ words,
    Nat.add_mod, aligned, Nat.mod_mod_of_dvd _ words, Nat.mod_self, Nat.add_zero, Nat.zero_mod]

theorem agrees_iff_aligned : t.Agrees config ↔
    ∀ page, Aligned config page → ∀ e, t.cached page = some e → t.pTable page = some e := by
  rw [agrees_iff]
  constructor
  · intro every page aligned e found
    have there := every page e
    rw [aligned.pageAlign_eq] at there
    exact there found
  · exact fun every vaddr e found => every _ (aligned_pageAlign config vaddr) e found

theorem Agrees.mapPage (agrees : t.Agrees config) (vaddr paddr : Addr) :
    (t.mapPage config vaddr paddr).Agrees config := by
  rw [agrees_iff_aligned] at agrees ⊢
  intro page aligned e found
  rw [PageTable.mapPage, cached_updateCache] at found
  rw [PageTable.mapPage, updateCache_pTable, eraseCacheEntry_pTable, setPage_pTable]
  by_cases same : page = vaddr
  · rw [if_pos same.symm] at found
    rwa [if_pos same]
  · rw [if_neg (Ne.symm same), (cached_eraseCacheEntry_of_ne same _).2, front_setPage] at found
    rw [if_neg same]
    exact agrees page aligned e (cached_of_front found)

theorem Agrees.mapPages {clobber : Bool} {n : Nat} {vaddr paddr : Addr}
    (agrees : t.Agrees config) (mapped : mapPages config clobber n vaddr paddr t = some t') :
    t'.Agrees config := by
  induction n generalizing vaddr paddr t with
  | zero =>
    obtain rfl := Option.some.inj mapped
    exact agrees
  | succ n ih =>
    rw [PageTable.mapPages] at mapped
    split_ifs at mapped
    exact ih (agrees.mapPage vaddr paddr) mapped

theorem Agrees.lookup (agrees : t.Agrees config) (vaddr : Addr) :
    (t.lookup config vaddr).1.Agrees config := by
  rw [PageTable.lookup]
  split_ifs
  · exact agrees
  · exact agrees
  · exact agrees
  · cases inTable : t.pTable (pageAlign config vaddr) with
    | none => exact agrees
    | some entry =>
      rw [agrees_iff_aligned] at agrees ⊢
      intro page aligned e found
      rw [cached_updateCache] at found
      rw [updateCache_pTable]
      by_cases same : pageAlign config vaddr = page
      · rw [if_pos same] at found
        rw [← same, inTable, found]
      · rw [if_neg same] at found
        exact agrees page aligned e (cached_of_front found)

/-- The pages that a loop goes through. -/
def pageAt (config : PageTableConfig Entry) (vaddr : Addr) (k : Nat) : Addr :=
  vaddr + BitVec.ofNat 64 (k * config.pageSize)

theorem pageAt_succ (vaddr : Addr) (k : Nat) :
    pageAt config vaddr (k + 1) = pageAt config (nextPage config vaddr) k := by
  rw [pageAt, pageAt, PageTable.nextPage, Nat.succ_mul, Nat.add_comm, BitVec.ofNat_add,
    BitVec.add_assoc]

theorem pageAt_zero (config : PageTableConfig Entry) (vaddr : Addr) : pageAt config vaddr 0 =
    vaddr := by
  rw [pageAt, Nat.zero_mul, BitVec.add_zero]

/-- A page that the cache has and the table has not. -/
def Stale (page : Addr) (t : PageTable Entry) : Prop :=
  t.cached page ≠ none ∧ t.pTable page = none

theorem Stale.unmapPages {n : Nat} (stale : t.Stale page)
    (unmapped : unmapPages config n vaddr t = some t') : t'.Stale page := by
  induction n generalizing vaddr t with
  | zero =>
    obtain rfl := Option.some.inj unmapped
    exact stale
  | succ n ih =>
    rw [PageTable.unmapPages, unmapPage] at unmapped
    obtain ⟨middle, first, rest⟩ := Option.bind_eq_some_iff.mp unmapped
    split_ifs at first with absent
    obtain rfl := Option.some.inj first
    -- A page that is unmapped was mapped, and so is another one.
    have other : page ≠ vaddr := by
      rintro rfl
      rw [stale.2] at absent
      exact absent rfl
    refine ih ⟨?_, ?_⟩ rest
    · rw [(cached_eraseCacheEntry_of_ne other _).1, cached_setPage]
      exact stale.1
    · rw [eraseCacheEntry_pTable, setPage_pTable, if_neg other]
      exact stale.2

/-- Unmapping pages keeps the cache right exactly when it has none of them twice. -/
theorem Agrees.unmapPages_iff {n : Nat} (agrees : t.Agrees config) (aligned : Aligned config vaddr)
    (unmapped : unmapPages config n vaddr t = some t') :
    t'.Agrees config ↔ ∀ k < n, ¬ t.Twice (pageAt config vaddr k) := by
  -- The induction follows the pages, of which the first is unmapped before the others.
  induction n generalizing vaddr t with
  | zero =>
    obtain rfl := Option.some.inj unmapped
    exact iff_of_true agrees fun k never => absurd never (Nat.not_lt_zero k)
  | succ n ih =>
    rw [PageTable.unmapPages, unmapPage] at unmapped
    obtain ⟨middle, first, rest⟩ := Option.bind_eq_some_iff.mp unmapped
    split_ifs at first with absent
    obtain rfl := Option.some.inj first
    by_cases twice : t.Twice vaddr
    · -- The second entry of the page stays in the cache.
      have stale : ((t.setPage vaddr none).eraseCacheEntry vaddr).Stale vaddr := by
        refine ⟨(cached_eraseCacheEntry_self vaddr _).mpr twice, ?_⟩
        rw [eraseCacheEntry_pTable, setPage_pTable, if_pos rfl]
      obtain ⟨found, none_there⟩ := stale.unmapPages rest
      refine iff_of_false (fun agrees' => ?_) fun every => every 0 (Nat.succ_pos n) ?_
      · obtain ⟨e, found⟩ := Option.ne_none_iff_exists'.mp found
        rw [agrees_iff_aligned.mp agrees' vaddr aligned e found] at none_there
        cases none_there
      · rwa [pageAt_zero]
    · have agrees' : ((t.setPage vaddr none).eraseCacheEntry vaddr).Agrees config := by
        rw [agrees_iff_aligned] at agrees ⊢
        intro page aligned' e found
        by_cases same : page = vaddr
        · have kept : ((t.setPage vaddr none).eraseCacheEntry vaddr).cached vaddr ≠ none := by
            rw [← same] at found ⊢
            rw [found]
            exact Option.some_ne_none e
          exact absurd ((cached_eraseCacheEntry_self vaddr _).mp kept) twice
        · rw [(cached_eraseCacheEntry_of_ne same _).1, cached_setPage] at found
          rw [eraseCacheEntry_pTable, setPage_pTable, if_neg same]
          exact agrees page aligned' e found
      have same (page : Addr) :
          ((t.setPage vaddr none).eraseCacheEntry vaddr).Twice page ↔ t.Twice page := by
        by_cases here : page = vaddr
        · rw [here]
          exact ⟨fun kept => kept.of_eraseCacheEntry, fun both => absurd both twice⟩
        · rw [twice_eraseCacheEntry_of_ne here, twice_setPage]
      rw [ih agrees' aligned.nextPage rest]
      simp only [same]
      constructor
      · rintro later (_ | k) inside
        · rwa [pageAt_zero]
        · rw [pageAt_succ]
          exact later k (Nat.lt_of_succ_lt_succ inside)
      · intro every k inside
        rw [← pageAt_succ]
        exact every (k + 1) (Nat.succ_lt_succ inside)

theorem slot0_eraseCacheEntry (vaddr : Addr) (t : PageTable Entry) :
    (t.eraseCacheEntry vaddr).slot0.holds vaddr = false := by
  cases first : t.slot0.holds vaddr <;> cases second : t.slot1.holds vaddr <;>
    cases third : t.slot2.holds vaddr <;>
      simp [eraseCacheEntry, holds_clear, first, second, third]

/-- The cache agrees with the table but for its last slot. -/
def FrontAgrees (config : PageTableConfig Entry) (t : PageTable Entry) : Prop :=
  ∀ page, Aligned config page → ∀ e, t.front page = some e → t.pTable page = some e

theorem Agrees.front (agrees : t.Agrees config) : t.FrontAgrees config :=
  fun page aligned e found => agrees_iff_aligned.mp agrees page aligned e (cached_of_front found)

theorem eraseCacheEntry_setPage (vaddr page : Addr) (e : Option Entry) (t : PageTable Entry) :
    (t.setPage page e).eraseCacheEntry vaddr = (t.eraseCacheEntry vaddr).setPage page e := by
  cases first : t.slot0.holds vaddr <;> cases second : t.slot1.holds vaddr <;>
    cases third : t.slot2.holds vaddr <;> simp [eraseCacheEntry, setPage, first, second, third]

theorem remapPage_eq {new_vaddr : Addr} (moved : t.remapPage config vaddr new_vaddr = some t') :
    ∃ entry table, (∀ page, page ≠ new_vaddr →
        table page = if page = vaddr then none else t.pTable page) ∧
      t' = (({ t.eraseCacheEntry vaddr with pTable := table }).setPage new_vaddr
        (some entry)).updateCache new_vaddr entry := by
  rw [remapPage] at moved
  cases mapped : t.pTable vaddr with
  | none =>
    rw [mapped] at moved
    cases moved
  | some entry =>
    rw [mapped] at moved
    obtain rfl := Option.some.inj moved
    refine ⟨config.isa.updateVaddr new_vaddr
      ((((t.setPage new_vaddr (some entry)).setPage vaddr none).eraseCacheEntry vaddr).pTable
        new_vaddr |>.getD config.isa.blank),
      ((t.setPage new_vaddr (some entry)).setPage vaddr none).pTable, fun page other => ?_, ?_⟩
    · rw [setPage_pTable, setPage_pTable, if_neg other]
    · rw [eraseCacheEntry_setPage, eraseCacheEntry_setPage, setPage, setPage, setPage, setPage,
        eraseCacheEntry_pTable]
      rfl

/-- Moving a page keeps the cache right exactly when it is not in both of the first slots. -/
theorem FrontAgrees.remapPage_iff {new_vaddr : Addr} (agrees : t.FrontAgrees config)
    (aligned : Aligned config vaddr) (other : vaddr ≠ new_vaddr)
    (moved : t.remapPage config vaddr new_vaddr = some t') :
    t'.Agrees config ↔ ¬ t.FrontTwice vaddr := by
  obtain ⟨entry, table, table_eq, rfl⟩ := remapPage_eq moved
  rw [agrees_iff_aligned, ← front_eraseCacheEntry_self, not_not]
  constructor
  · intro agrees'
    -- The old page is no longer in the table, so nothing may be kept of it.
    have there := agrees' vaddr aligned
    rw [cached_updateCache, if_neg (Ne.symm other), updateCache_pTable, setPage_pTable,
      if_neg other] at there
    cases found : (t.eraseCacheEntry vaddr).front vaddr with
    | none => rfl
    | some e =>
      have kept : table vaddr = some e := there e found
      rw [table_eq vaddr other, if_pos rfl] at kept
      cases kept
  · intro cleared page aligned' e found
    rw [cached_updateCache] at found
    rw [updateCache_pTable, setPage_pTable]
    by_cases here : page = new_vaddr
    · rw [if_pos here.symm] at found
      rwa [if_pos here]
    · rw [if_neg (Ne.symm here)] at found
      rw [if_neg here]
      show table page = some e
      rw [table_eq page here]
      replace found : (t.eraseCacheEntry vaddr).front page = some e := found
      by_cases old : page = vaddr
      · rw [old, cleared] at found
        cases found
      · rw [if_neg old]
        rw [(cached_eraseCacheEntry_of_ne old t).2] at found
        exact agrees page aligned' e found

theorem FrontAgrees.remapPage {new_vaddr : Addr} (agrees : t.FrontAgrees config)
    (moved : t.remapPage config vaddr new_vaddr = some t') :
    t'.FrontAgrees config ∧ t'.slot0.vaddr = new_vaddr := by
  obtain ⟨entry, table, table_eq, rfl⟩ := remapPage_eq moved
  refine ⟨fun page aligned e found => ?_, rfl⟩
  rw [front_updateCache] at found
  rw [updateCache_pTable, setPage_pTable]
  by_cases here : page = new_vaddr
  · rw [if_pos here.symm] at found
    rwa [if_pos here]
  · rw [if_neg (Ne.symm here)] at found
    rw [if_neg here]
    show table page = some e
    rw [table_eq page here]
    by_cases held : (t.eraseCacheEntry vaddr).slot0.holds page = true
    · have front : (t.eraseCacheEntry vaddr).front page = some e := by
        rw [PageTable.front, if_pos held]
        exact (if_pos held).symm.trans found
      by_cases old : page = vaddr
      · rw [old, slot0_eraseCacheEntry] at held
        cases held
      · rw [if_neg old]
        rw [(cached_eraseCacheEntry_of_ne old t).2] at front
        exact agrees page aligned e front
    · cases (if_neg held).symm.trans found

theorem FrontAgrees.remapPages {n : Nat} {new_vaddr : Addr} (agrees : t.FrontAgrees config)
    (aligned : Aligned config vaddr)
    (apart : ∀ j < n, ∀ k < n, pageAt config vaddr j ≠ pageAt config new_vaddr k)
    (elsewhere : ∀ j < n, t.slot0.vaddr ≠ pageAt config vaddr j) (some_page : 0 < n)
    (moved : remapPages config n vaddr new_vaddr t = some t') : t'.Agrees config := by
  -- The induction follows the pages; the one moved last is in the first slot.
  induction n generalizing vaddr new_vaddr t with
  | zero => cases some_page
  | succ n ih =>
    rw [PageTable.remapPages] at moved
    obtain ⟨middle, first, rest⟩ := Option.bind_eq_some_iff.mp moved
    have here := elsewhere 0 (Nat.succ_pos n)
    have other := apart 0 (Nat.succ_pos n) 0 (Nat.succ_pos n)
    rw [pageAt_zero] at here
    rw [pageAt_zero, pageAt_zero] at other
    obtain ⟨agrees', slot0⟩ := agrees.remapPage first
    cases n with
    | zero =>
      obtain rfl := Option.some.inj rest
      refine (agrees.remapPage_iff aligned other first).mpr fun twice => here ?_
      have held := twice.1
      simp only [CacheElement.holds, Bool.and_eq_true, beq_iff_eq] at held
      exact held.2
    | succ n =>
      refine ih agrees' aligned.nextPage (fun j inside k inside' => ?_) (fun j inside => ?_)
        (Nat.succ_pos n) rest
      · rw [← pageAt_succ, ← pageAt_succ]
        exact apart (j + 1) (Nat.succ_lt_succ inside) (k + 1) (Nat.succ_lt_succ inside')
      · rw [← pageAt_succ, slot0, ← pageAt_zero config new_vaddr]
        exact (apart (j + 1) (Nat.succ_lt_succ inside) 0 (Nat.succ_pos _)).symm

end pages

/-- The last entry of a checkpoint for a page. -/
def loaded (entries : List (Addr × Entry)) (page : Addr) : Option Entry :=
  (entries.findRev? fun e => e.1 == page).map Prod.snd

/--
What a step needs so that the cache stays right.

Of a page that is cleared the cache has one entry, and what it has is what a checkpoint loads.
-/
def Safe (config : PageTableConfig Entry) (t : PageTable Entry) : Op config → Prop
  | .map _ _ _ _ | .lookup _ => True
  | .remap move => pages config move.size = 1 → ¬ t.FrontTwice move.vaddr
  | .unmap vaddr size => ∀ k < pages config size, ¬ t.Twice (pageAt config vaddr k)
  | .unserialize entries => ∀ vaddr e, t.cached (pageAlign config vaddr) = some e →
    loaded entries (pageAlign config vaddr) = some e

theorem unserialize_pTable (entries : List (Addr × Entry)) (t : PageTable Entry) (page : Addr) :
    (t.unserialize entries).pTable page = loaded entries page := by
  -- The induction follows the entries; a page keeps what it had until one of them is for it.
  have onward (s : PageTable Entry) :
      (entries.foldl (fun s e => s.setPage e.1 (some e.2)) s).pTable page =
        (loaded entries page).or (s.pTable page) := by
    induction entries generalizing s with
    | nil => simp [loaded, List.findRev?]
    | cons e rest ih =>
      rw [List.foldl_cons, ih, setPage_pTable]
      rw [loaded, loaded, List.findRev?]
      cases later : rest.findRev? fun e => e.1 == page with
      | some last => rfl
      | none =>
        by_cases here : e.1 = page
        · simp [here]
        · simp [here, Ne.symm here]
  rw [unserialize, onward, Option.or_none]

theorem cached_unserialize (entries : List (Addr × Entry)) (t : PageTable Entry) (page : Addr) :
    (t.unserialize entries).cached page = t.cached page := by
  rw [unserialize]
  have loaded (s : PageTable Entry) :
      (entries.foldl (fun s e => s.setPage e.1 (some e.2)) s).cached page = s.cached page := by
    induction entries generalizing s with
    | nil => rfl
    | cons e rest ih =>
      rw [List.foldl_cons, ih, cached_setPage]
  exact loaded _

/-- A step keeps the cache right exactly when it is safe. -/
theorem Agrees.step_iff (agrees : t.Agrees config) {op : Op config}
    (taken : step config t op = some t') : t'.Agrees config ↔ t.Safe config op := by
  cases op with
  | map vaddr paddr size clobber =>
    rw [step, PageTable.map] at taken
    split_ifs at taken
    exact iff_of_true (agrees.mapPages taken) trivial
  | lookup vaddr =>
    obtain rfl := Option.some.inj taken
    exact iff_of_true (agrees.lookup vaddr) trivial
  | unmap vaddr size =>
    rw [step, PageTable.unmap] at taken
    split_ifs at taken with aligned
    exact agrees.unmapPages_iff (not_not.mp aligned) taken
  | unserialize entries =>
    obtain rfl := Option.some.inj taken
    rw [agrees_iff]
    simp only [cached_unserialize, unserialize_pTable]
    exact Iff.rfl
  | remap move =>
    rw [step, PageTable.remap] at taken
    split_ifs at taken with aligned
    replace aligned : Aligned config move.vaddr := not_not.mp (not_or.mp aligned).1
    rw [Safe]
    -- The loop moves no page, just one, or several of which each drops what is wrong of the last.
    obtain none_moved | one | several : pages config move.size = 0 ∨ pages config move.size = 1 ∨
        ∃ n, pages config move.size = n + 2 := by
      rcases pages config move.size with _ | _ | n
      · exact .inl rfl
      · exact .inr (.inl rfl)
      · exact .inr (.inr ⟨n, rfl⟩)
    · rw [none_moved] at taken ⊢
      obtain rfl := Option.some.inj taken
      exact iff_of_true agrees fun never => absurd never (by decide)
    · have other := move.apart 0 (by omega) 0 (by omega)
      rw [Nat.zero_mul, BitVec.add_zero, BitVec.add_zero] at other
      rw [one, PageTable.remapPages] at taken
      obtain ⟨middle, first, rest⟩ := Option.bind_eq_some_iff.mp taken
      obtain rfl := Option.some.inj rest
      rw [agrees.front.remapPage_iff aligned other first, one]
      exact ⟨fun single _ => single, fun single => single rfl⟩
    · obtain ⟨n, several⟩ := several
      have apart := move.apart
      rw [several] at taken apart
      rw [PageTable.remapPages] at taken
      obtain ⟨middle, first, rest⟩ := Option.bind_eq_some_iff.mp taken
      obtain ⟨front, slot0⟩ := agrees.front.remapPage first
      refine iff_of_true ?_ fun single => absurd (several.symm.trans single) (by omega)
      refine front.remapPages aligned.nextPage (fun j inside k inside' => ?_) (fun j inside => ?_)
        (Nat.succ_pos n) rest
      · rw [← pageAt_succ, ← pageAt_succ]
        exact apart (j + 1) (Nat.succ_lt_succ inside) (k + 1) (Nat.succ_lt_succ inside')
      · rw [← pageAt_succ, slot0, ← pageAt_zero config move.new_vaddr]
        exact (apart (j + 1) (Nat.succ_lt_succ inside) 0 (Nat.succ_pos _)).symm

/-- The cache of a page table is right along a run exactly when the steps of the run are safe. -/
theorem agrees_along_iff (config : PageTableConfig Entry) (slots : Fin 3 → CacheElement Entry)
    (ops : List (Op config)) :
    Machine.Always (step config) (Agrees config) (create slots) ops ↔
      Machine.Meets (step config) (Safe config) (create slots) ops := by
  refine Machine.always_iff_meets (fun t op t' agrees taken => agrees.step_iff taken) ?_
  rw [agrees_iff]
  intro vaddr e found
  simp [cached, front, create, CacheElement.holds] at found

section stale

/-- Pages of four kilobytes, whose entries are the addresses they are mapped to. -/
def fourKilobytes : PageTableConfig Addr where
  isa := { blank := 0, entry := fun _ _ paddr => paddr, updateVaddr := fun _ entry => entry }
  pid := 100
  pageSize := 4096
  pageSize_isPowerOf2 := by decide
  pageSize_addr := by decide

/-- Map two pages, move one of them onto the other, and unmap that one. -/
def remapAndUnmap : List (Op fourKilobytes) :=
  [.map 0 0x10000 4096 false, .map 4096 0x20000 4096 false,
    .remap { vaddr := 0, size := 4096, new_vaddr := 4096, apart := by decide }, .unmap 4096 4096]

/-- The entry that a move replaced is found again once its page is unmapped. -/
theorem replaced_entry_found :
    ¬ ∀ ops, Machine.Always (step fourKilobytes) (Agrees fourKilobytes)
      (create fun _ => { valid := false, vaddr := 0, entry := 0 }) ops := by
  intro always
  have found := (always remapAndUnmap).at_end (t := _) rfl 4096
  revert found
  decide

/-- The entries are those that `serialize` writes, in whatever order the table has them. -/
def Serializes (t : PageTable Entry) (entries : List (Addr × Entry)) : Prop :=
  ∀ page e, (page, e) ∈ entries ↔ t.pTable page = some e

/-- A new table that loads a checkpoint answers every lookup with what the old table has. -/
theorem lookup_unserialize {entries : List (Addr × Entry)} (serializes : t.Serializes entries)
    (slots : Fin 3 → CacheElement Entry) (vaddr : Addr) :
    (((create slots).unserialize entries).lookup config vaddr).2 =
      t.pTable (pageAlign config vaddr) := by
  have fresh : (create slots).cached (pageAlign config vaddr) = none := rfl
  rw [lookup_eq, cached_unserialize, fresh, unserialize_pTable, Option.none_or, loaded,
    List.findRev?_eq_find?_reverse]
  cases found : entries.reverse.find? fun e => e.1 == pageAlign config vaddr with
  | none =>
    cases held : t.pTable (pageAlign config vaddr) with
    | none => rfl
    | some e =>
      have written := List.mem_reverse.mpr ((serializes _ e).mpr held)
      exact absurd (beq_self_eq_true _) (List.find?_eq_none.mp found _ written)
  | some e =>
    have written := List.mem_reverse.mp (List.mem_of_find?_eq_some found)
    have here : e.1 = pageAlign config vaddr := by simpa using List.find?_some found
    exact here ▸ ((serializes e.1 e.2).mp written).symm

theorem lookup_unserialize_one :
    (((create fun _ => ⟨false, 0, 0⟩).unserialize [(4096, 7)]).lookup fourKilobytes 5000).2 =
      some 7 := by
  have one : ((create fun _ => ⟨false, 0, (7 : Addr)⟩).setPage 4096 (some 7)).Serializes
      [(4096, 7)] :=
    fun page e => by by_cases same : page = 4096 <;> simp [create, same, eq_comm]
  exact lookup_unserialize one _ 5000

end stale

end PageTable

end GemDroid

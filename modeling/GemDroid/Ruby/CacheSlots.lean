import Mathlib.Data.List.Basic
import GemDroid.Ruby.CacheMemory

/-! The slots of a cache and the index of its tags name the same blocks. -/

namespace GemDroid

open Function (update update_of_ne update_self)

namespace CacheMemory

variable {m m' : CacheMemory} {a b : Nat}

/-- What the index of tags names is there. -/
def Linked (m : CacheMemory) : Prop :=
  ∀ a loc, m.tag_index a = some loc →
    ∃ entry, m.cache (m.addressToCacheSet a) loc = some entry ∧ entry.address = a

/-- A slot that is to be taken is not where the index says that another block is. -/
def Clear (m : CacheMemory) (a : Nat) : Prop :=
  ∀ loc, m.openSlot a = some loc → ∀ entry, m.cache (m.addressToCacheSet a) loc = some entry →
    entry.address ≠ a → m.tag_index entry.address ≠ some loc

variable {entry : CacheEntry}

theorem lookup_eq_some : m.lookup a = some entry ↔
    ∃ loc, m.tag_index a = some loc ∧ m.cache (m.addressToCacheSet a) loc = some entry ∧
      entry.permission ≠ .notPresent := by
  constructor
  · intro found
    obtain ⟨loc, tag, slot⟩ := Option.bind_eq_some_iff.mp found
    obtain ⟨index, present⟩ := Option.filter_eq_some_iff.mp tag
    refine ⟨loc, index, slot, ?_⟩
    simpa [slot] using present
  · intro found
    obtain ⟨loc, index, slot, present⟩ := found
    refine Option.bind_eq_some_iff.mpr ⟨loc, ?_, slot⟩
    exact Option.filter_eq_some_iff.mpr ⟨index, by simp [slot, present]⟩

theorem isTagPresent_eq (linked : m.Linked) : m.isTagPresent a = (m.lookup a).isSome := by
  cases found : m.findTagInSet (m.addressToCacheSet a) a with
  | none => simp [isTagPresent, lookup, found]
  | some loc =>
    obtain ⟨index, _⟩ := Option.filter_eq_some_iff.mp found
    obtain ⟨entry, slot, _⟩ := linked a loc index
    simp [isTagPresent, lookup, found, slot]

theorem findTagInSet_of_lookup (found : m.lookup a = some entry) :
    ∃ loc, m.findTagInSet (m.addressToCacheSet a) a = some loc ∧ m.tag_index a = some loc ∧
      m.cache (m.addressToCacheSet a) loc = some entry := by
  obtain ⟨loc, tag, slot⟩ := Option.bind_eq_some_iff.mp found
  exact ⟨loc, tag, (Option.filter_eq_some_iff.mp tag).1, slot⟩

@[simp] theorem setSlot_index (cacheSet loc : Nat) (entry : Option CacheEntry) :
    (m.setSlot cacheSet loc entry).tag_index = m.tag_index := rfl

@[simp] theorem setSlot_set (cacheSet loc : Nat) (entry : Option CacheEntry) :
    (m.setSlot cacheSet loc entry).addressToCacheSet a = m.addressToCacheSet a := rfl

theorem setSlot_self (cacheSet loc : Nat) (entry : Option CacheEntry) :
    (m.setSlot cacheSet loc entry).cache cacheSet loc = entry := by
  simp [setSlot]

theorem setSlot_other (cacheSet loc : Nat) (entry : Option CacheEntry) {cacheSet' loc' : Nat}
    (other : ¬(cacheSet' = cacheSet ∧ loc' = loc)) :
    (m.setSlot cacheSet loc entry).cache cacheSet' loc' = m.cache cacheSet' loc' := by
  unfold setSlot
  dsimp only
  by_cases same : cacheSet' = cacheSet
  · subst same
    rw [update_self, update_of_ne fun loc_same => other ⟨rfl, loc_same⟩]
  · rw [update_of_ne same]

theorem Linked.address_eq (linked : m.Linked)
    (found : m.lookup a = some entry) : entry.address = a := by
  obtain ⟨loc, _, index, slot⟩ := findTagInSet_of_lookup found
  obtain ⟨entry', slot', address⟩ := linked a loc index
  rw [slot] at slot'
  exact Option.some.inj slot' ▸ address

theorem Linked.apart (linked : m.Linked) {loc loc' : Nat} (index : m.tag_index a = some loc)
    (other : b ≠ a) (index' : m.tag_index b = some loc') :
    ¬(m.addressToCacheSet b = m.addressToCacheSet a ∧ loc' = loc) := by
  intro same
  obtain ⟨entry, slot, address⟩ := linked a loc index
  obtain ⟨entry', slot', address'⟩ := linked b loc' index'
  rw [same.1, same.2, slot] at slot'
  rw [← Option.some.inj slot', address] at address'
  exact other address'.symm

/-- What a change of one block does to the cache. -/
structure Changed (m m' : CacheMemory) (a : Nat) (entry : CacheEntry) : Prop where
  linked : m'.Linked
  self : m'.lookup a = if entry.permission = .notPresent then none else some entry
  other : ∀ b, b ≠ a → m'.lookup b = m.lookup b

/-- A change of a block that is there concerns no other block. -/
theorem changed_modify (linked : m.Linked) (found : m.lookup a = some entry)
    {change : CacheEntry → CacheEntry} (stays : (change entry).address = entry.address) :
    Changed m (m.modify a change) a (change entry) := by
  obtain ⟨loc, tag, index, slot⟩ := findTagInSet_of_lookup found
  have address := linked.address_eq found
  have changed : m.modify a change =
      m.setSlot (m.addressToCacheSet a) loc (some (change entry)) := by
    unfold modify
    rw [tag]
    dsimp only
    rw [slot]
    rfl
  rw [changed]
  refine ⟨fun b loc' index' => ?_, ?_, fun b other => ?_⟩
  · rw [setSlot_index] at index'
    rw [setSlot_set]
    by_cases same : b = a
    · subst same
      rw [index] at index'
      obtain rfl := Option.some.inj index'
      exact ⟨change entry, setSlot_self .., stays.trans address⟩
    · rw [setSlot_other _ _ _ (linked.apart index same index')]
      exact linked b loc' index'
  · split
    · rename_i gone
      rw [Option.eq_none_iff_forall_ne_some]
      intro entry' found'
      obtain ⟨loc', index', slot', present⟩ := lookup_eq_some.mp found'
      rw [setSlot_index, index] at index'
      obtain rfl := Option.some.inj index'
      rw [setSlot_set, setSlot_self] at slot'
      exact present (Option.some.inj slot' ▸ gone)
    · rename_i present
      exact lookup_eq_some.mpr ⟨loc, index, setSlot_self .., present⟩
  · apply Option.ext
    intro entry'
    rw [lookup_eq_some, lookup_eq_some]
    simp only [setSlot_index, setSlot_set]
    refine exists_congr fun loc' => and_congr_right fun index' => ?_
    rw [setSlot_other _ _ _ (linked.apart index other index')]

/-- A block that is new has no lock, and is not valid yet. -/
theorem changed_allocate (linked : m.Linked) (clear : m.Clear a) {dataBlk : DataBlock}
    (allocated : m.allocate a dataBlk = some m') :
    Changed m m' a { address := a, permission := .invalid, locked := none, dataBlk } := by
  obtain ⟨loc, slot, result⟩ := Option.map_eq_some_iff.mp allocated
  subst result
  have free : (m.cache (m.addressToCacheSet a) loc).all
      (fun entry => decide (entry.permission = .notPresent)) = true := by
    simpa using List.find?_some slot
  -- What the index names is elsewhere, since the slot is free and not named for another block.
  have apart (b loc' : Nat) (other : b ≠ a) (index' : m.tag_index b = some loc') :
      ¬(m.addressToCacheSet b = m.addressToCacheSet a ∧ loc' = loc) := by
    intro same
    obtain ⟨entry', slot', address'⟩ := linked b loc' index'
    rw [same.1, same.2] at slot'
    refine clear loc slot entry' slot' (fun this => other (address'.symm.trans this)) ?_
    rw [address', index', same.2]
  refine ⟨fun b loc' index' => ?_, ?_, fun b other => ?_⟩
  · have index' : update m.tag_index a (some loc) b = some loc' := index'
    by_cases same : b = a
    · subst same
      rw [update_self] at index'
      obtain rfl := Option.some.inj index'
      exact ⟨_, setSlot_self .., rfl⟩
    · rw [update_of_ne same] at index'
      obtain ⟨entry', slot', address'⟩ := linked b loc' index'
      exact ⟨entry', (setSlot_other _ _ _ (apart b loc' same index')).trans slot', address'⟩
  · exact lookup_eq_some.mpr ⟨loc, update_self .., setSlot_self .., by simp⟩
  · apply Option.ext
    intro entry'
    rw [lookup_eq_some, lookup_eq_some]
    refine exists_congr fun loc' => ?_
    show update m.tag_index a (some loc) b = some loc' ∧ _ ↔ _
    rw [update_of_ne other]
    refine and_congr_right fun index' => ?_
    show (m.setSlot (m.addressToCacheSet a) loc _).cache (m.addressToCacheSet b) loc' = _ ∧ _ ↔ _
    rw [setSlot_other _ _ _ (apart b loc' other index')]

/-- A block that is deallocated is gone, and no other one is. -/
theorem changed_deallocate (linked : m.Linked) (found : m.lookup a = some entry) :
    Changed m (m.deallocate a) a { entry with permission := .notPresent } := by
  obtain ⟨loc, tag, index, slot⟩ := findTagInSet_of_lookup found
  have gone : m.deallocate a = { m.setSlot (m.addressToCacheSet a) loc none with
      tag_index := update m.tag_index a none } := by
    unfold deallocate
    rw [tag]
  rw [gone]
  refine ⟨fun b loc' index' => ?_, ?_, fun b other => ?_⟩
  · have index' : update m.tag_index a none b = some loc' := index'
    by_cases same : b = a
    · rw [same, update_self] at index'
      cases index'
    · rw [update_of_ne same] at index'
      obtain ⟨entry', slot', address'⟩ := linked b loc' index'
      exact ⟨entry', (setSlot_other _ _ _ (linked.apart index same index')).trans slot', address'⟩
  · rw [if_pos rfl, Option.eq_none_iff_forall_ne_some]
    intro entry' found'
    obtain ⟨loc', index', _⟩ := lookup_eq_some.mp found'
    have index' : update m.tag_index a none a = some loc' := index'
    rw [update_self] at index'
    cases index'
  · apply Option.ext
    intro entry'
    rw [lookup_eq_some, lookup_eq_some]
    refine exists_congr fun loc' => ?_
    show update m.tag_index a none b = some loc' ∧ _ ↔ _
    rw [update_of_ne other]
    refine and_congr_right fun index' => ?_
    show (m.setSlot (m.addressToCacheSet a) loc none).cache (m.addressToCacheSet b) loc' = _ ∧ _ ↔ _
    rw [setSlot_other _ _ _ (linked.apart index other index')]

theorem changed_refl (linked : m.Linked) (found : m.lookup a = some entry) :
    Changed m m a entry := by
  obtain ⟨loc, index, slot, present⟩ := lookup_eq_some.mp found
  refine ⟨linked, ?_, fun b _ => rfl⟩
  rw [if_neg present]
  exact found

theorem Changed.trans {m'' : CacheMemory} {entry' : CacheEntry} (first : Changed m m' a entry)
    (second : Changed m' m'' a entry') :
    Changed m m'' a entry' :=
  ⟨second.linked, second.self, fun b other => (second.other b other).trans (first.other b other)⟩

end CacheMemory

end GemDroid

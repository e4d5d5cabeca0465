import GemDroid.Lib.Run
import GemDroid.Ruby.SparseMemoryCuts

/-! The nested tables of a sparse memory behave as one finite map. -/

namespace GemDroid

namespace SparseMemory

section loops

variable {bits bound : Nat → Int} {a : Addr} {n level : Nat} {keys : List Addr}
  {t : Nested Addr DirectoryEntry n}

theorem existLoop_eq (shares : ∀ l, bound l - bits l = bound (l + 1))
    (cut : cuts bound a n level = some keys) :
    existLoop bits a n level (bound level) t = some (t.find n keys).isSome := by
  induction n generalizing level keys with
  | zero => rfl
  | succ n ih =>
    obtain ⟨k, ks, rfl, selected, cut'⟩ := cuts_succ cut
    rw [existLoop, shares, selected, Option.bind_some, Nested.find]
    cases t.get k with
    | none => rfl
    | some next => exact ih cut'

theorem lookupLoop_eq (shares : ∀ l, bound l - bits l = bound (l + 1))
    (cut : cuts bound a n level = some keys) :
    lookupLoop bits a n level (bound level) t = some (t.find n keys) := by
  induction n generalizing level keys with
  | zero => rfl
  | succ n ih =>
    obtain ⟨k, ks, rfl, selected, cut'⟩ := cuts_succ cut
    rw [lookupLoop, shares, selected, Option.bind_some, Nested.find]
    cases t.get k with
    | none => rfl
    | some next => exact ih cut'

theorem addLoop_eq (shares : ∀ l, bound l - bits l = bound (l + 1)) {entry : DirectoryEntry}
    (cut : cuts bound a n level = some keys)
    (absent : t.find n keys = none ∨ t = Nested.fresh n entry.clear) :
    addLoop bits a entry n level (bound level) t = some (t.insert entry.clear n keys) := by
  induction n generalizing level keys with
  | zero =>
    rcases absent with never | rfl
    · cases never
    · rfl
  | succ n ih =>
    obtain ⟨k, ks, rfl, selected, cut'⟩ := cuts_succ cut
    rw [addLoop, shares, selected, Option.bind_some, Nested.insert]
    cases there : t.get k with
    | none =>
      dsimp only
      rw [ih cut' (.inr rfl), Option.getD_none]
      rfl
    | some next =>
      have absent' : next.find n ks = none := by
        rcases absent with none_found | rfl
        · rwa [Nested.find, there, Option.bind_some] at none_found
        · cases there
      dsimp only
      rw [ih cut' (.inl absent'), Option.getD_some]
      rfl

theorem addLoop_cuts (shares : ∀ l, bound l - bits l = bound (l + 1)) {entry : DirectoryEntry}
    {t' : Nested Addr DirectoryEntry n}
    (added : addLoop bits a entry n level (bound level) t = some t') :
    (cuts bound a n level).isSome := by
  induction n generalizing level with
  | zero => rfl
  | succ n ih =>
    rw [addLoop, shares] at added
    obtain ⟨k, selected, rest⟩ := Option.bind_eq_some_iff.mp added
    have later : (cuts bound a n (level + 1)).isSome := by
      cases there : t.get k with
      | none =>
        rw [there] at rest
        obtain ⟨next, added', -⟩ := Option.map_eq_some_iff.mp rest
        exact ih added'
      | some next =>
        rw [there] at rest
        obtain ⟨next, added', -⟩ := Option.map_eq_some_iff.mp rest
        exact ih added'
    obtain ⟨ks, cut'⟩ := Option.isSome_iff_exists.mp later
    rw [cuts, selected, Option.bind_some, cut']
    rfl

theorem recursivelyRemoveLevels_eq (shares : ∀ l, bound l - bits l = bound (l + 1))
    {t : Nested Addr DirectoryEntry (n + 1)} (cut : cuts bound a (n + 1) level = some keys)
    (present : (t.find (n + 1) keys).isSome) :
    recursivelyRemoveLevels bits a n level (bound level) (bound level - bits level) t =
      some ((t.erase n keys).items.length, t.erase n keys) := by
  induction n generalizing level keys with
  | zero =>
    obtain ⟨k, ks, rfl, selected, cut'⟩ := cuts_succ cut
    rw [recursivelyRemoveLevels, shares, selected, Option.bind_some]
    rw [Nested.find] at present
    cases there : t.get k with
    | none =>
      rw [there] at present
      cases present
    | some entry => rfl
  | succ n ih =>
    obtain ⟨k, ks, rfl, selected, cut'⟩ := cuts_succ cut
    rw [recursivelyRemoveLevels, shares, selected, Option.bind_some, Nested.erase]
    rw [Nested.find] at present
    cases there : t.get k with
    | none =>
      rw [there] at present
      cases present
    | some next =>
      rw [there, Option.bind_some] at present
      dsimp only [Option.bind_some]
      rw [ih cut' present]
      rfl

theorem explore_eq (lowBit : Int) (queue : List (Nested Addr DirectoryEntry (n + 1) × Addr))
    (other : List (Nested Addr DirectoryEntry n × Addr)) :
    explore lowBit queue other = other ++ queue.flatMap fun node =>
      node.1.items.map fun (k, s) => (s, node.2 ||| (k <<< lowBit.toNat)) := by
  induction queue generalizing other with
  | nil => rw [explore, List.flatMap_nil, List.append_nil]
  | cons node queue ih => rw [explore, ih, List.flatMap_cons, List.append_assoc]

theorem walkLevels_eq (shares : ∀ l, bound l - bits l = bound (l + 1)) (level : Nat)
    (nodes : List (Nested Addr DirectoryEntry n × Addr)) :
    walkLevels bits n level (bound level) nodes = nodes.flatMap fun node =>
      (node.1.entries n).map fun p => (p.2, join bound level node.2 p.1) := by
  induction n generalizing level with
  | zero => exact (List.flatMap_singleton' nodes).symm
  | succ n ih =>
    rw [walkLevels, shares, ih, explore_eq, List.nil_append, List.flatMap_assoc]
    congr 1
    funext node
    rw [Nested.entries, List.flatMap_map, List.map_flatMap]
    congr 1
    funext e
    rw [List.map_map]
    rfl

end loops

section map

variable {ruby : RubySystem} {last_level : Nat} {a : Addr}

/-- The highest bit of each level and one more. -/
def levelBound (ruby : RubySystem) (last_level : Nat) : Nat → Int :=
  boundOf ruby.getMemorySizeBits ruby.getBlockSizeBits (last_level + 1)

/-- The memory of some sizes with some tables. -/
def withHead (ruby : RubySystem) (last_level : Nat)
    (head : Nested Addr DirectoryEntry (last_level + 1)) : SparseMemory last_level :=
  { create ruby last_level with m_map_head := head }

variable {head : Nested Addr DirectoryEntry (last_level + 1)}

theorem levelBound_shares (ruby : RubySystem) (last_level l : Nat) :
    levelBound ruby last_level l - (create ruby last_level).m_number_of_bits_per_level l =
      levelBound ruby last_level (l + 1) := by
  rw [levelBound, boundOf, boundOf, bitsBefore_succ, sub_sub]
  rfl

theorem highBit_withHead (head : Nested Addr DirectoryEntry (last_level + 1)) :
    (withHead ruby last_level head).highBit = levelBound ruby last_level 0 := by
  rw [levelBound, boundOf_zero]
  exact Int.sub_add_cancel _ _

theorem levelBound_inWord (ruby : RubySystem) (last_level : Nat) :
    InWord (levelBound ruby last_level) (last_level + 1) ∧
      levelBound ruby last_level (last_level + 1) ≤ ruby.getBlockSizeBits :=
  inWord_boundOf (Nat.succ_pos last_level) (getMemorySizeBits_le ruby)
    (by have few := getBlockSizeBits_lt ruby; omega)

theorem levelsFit_iff_cuts (a : Addr) :
    LevelsFit ruby.getMemorySizeBits ruby.getBlockSizeBits (last_level + 1) ↔
      (cuts (levelBound ruby last_level) a (last_level + 1) 0).isSome := by
  have inWord := (levelBound_inWord ruby last_level).1
  rw [levelsFit_iff (Nat.succ_pos last_level), cuts_isSome 0 (by rwa [Nat.zero_add]), Nat.zero_add]
  exact ⟨fun ranges l _ below => ranges l below,
    fun ranges l below => ranges l (Nat.zero_le l) below⟩

/-- The keys of an address at all levels. -/
def keysOf (ruby : RubySystem) (last_level : Nat) (a : Addr) : List Addr :=
  (cuts (levelBound ruby last_level) a (last_level + 1) 0).getD []

theorem assertExist_eq {m : SparseMemory last_level} {expected : Bool}
    (there : m.exist a = some expected) : m.assertExist a expected = some () := by
  rw [assertExist, there, Option.bind_some, if_pos rfl]

section fit

variable (fit : LevelsFit ruby.getMemorySizeBits ruby.getBlockSizeBits (last_level + 1))

include fit

theorem cuts_eq (a : Addr) :
    cuts (levelBound ruby last_level) a (last_level + 1) 0 = some (keysOf ruby last_level a) := by
  obtain ⟨keys, cut⟩ := Option.isSome_iff_exists.mp ((levelsFit_iff_cuts a).mp fit)
  rw [keysOf, cut, Option.getD_some]

theorem keysOf_length (a : Addr) : (keysOf ruby last_level a).length = last_level + 1 :=
  cuts_length (cuts_eq fit a)

theorem join_keysOf (block : IsBlock ruby a) :
    join (levelBound ruby last_level) 0 0 (keysOf ruby last_level a) = a := by
  obtain ⟨inWord, last⟩ := levelBound_inWord ruby last_level
  refine join_cuts inWord (cuts_eq fit a) fun j set => ?_
  obtain ⟨above, below⟩ := block.between set
  rw [levelBound, boundOf_zero]
  exact ⟨last.trans (by exact_mod_cast above), by exact_mod_cast below⟩

theorem exist_eq (block : IsBlock ruby a)
    (head : Nested Addr DirectoryEntry (last_level + 1)) :
    (withHead ruby last_level head).exist a =
      some (head.find (last_level + 1) (keysOf ruby last_level a)).isSome := by
  rw [exist, highBit_withHead]
  refine (if_pos block.1).trans ?_
  exact existLoop_eq (levelBound_shares ruby last_level) (cuts_eq fit a)

theorem lookup_eq (block : IsBlock ruby a) : (withHead ruby last_level head).lookup a =
    some (head.find (last_level + 1) (keysOf ruby last_level a)) := by
  rw [lookup, highBit_withHead]
  refine (if_pos block.1).trans ?_
  exact lookupLoop_eq (levelBound_shares ruby last_level) (cuts_eq fit a)

theorem add_eq (block : IsBlock ruby a) (entry : DirectoryEntry)
    (absent : head.find (last_level + 1) (keysOf ruby last_level a) = none) :
    (withHead ruby last_level head).add a entry = some (withHead ruby last_level
      (head.insert entry.clear (last_level + 1) (keysOf ruby last_level a))) := by
  have long := keysOf_length fit a
  have before := exist_eq fit block head
  rw [absent, Option.isSome_none] at before
  have added : addLoop (withHead ruby last_level head).m_number_of_bits_per_level a entry
      (last_level + 1) 0 (withHead ruby last_level head).highBit head = some
        (head.insert entry.clear (last_level + 1) (keysOf ruby last_level a)) := by
    rw [highBit_withHead]
    exact addLoop_eq (levelBound_shares ruby last_level) (cuts_eq fit a) (.inl absent)
  have after := exist_eq fit block
    (head.insert entry.clear (last_level + 1) (keysOf ruby last_level a))
  rw [Nested.find_insert long long, if_pos rfl] at after
  refine (if_pos block.1).trans ?_
  rw [assertExist_eq before, Option.bind_some]
  refine (congrArg (Option.bind · _) added).trans ?_
  exact congrArg (Option.map _) (assertExist_eq after)

theorem remove_eq (block : IsBlock ruby a)
    (present : (head.find (last_level + 1) (keysOf ruby last_level a)).isSome) :
    (withHead ruby last_level head).remove a = some (withHead ruby last_level
      (head.erase last_level (keysOf ruby last_level a))) := by
  have long := keysOf_length fit a
  have before := exist_eq fit block head
  rw [present] at before
  have removed : recursivelyRemoveLevels
      (withHead ruby last_level head).m_number_of_bits_per_level a last_level 0
      (withHead ruby last_level head).highBit ((withHead ruby last_level head).highBit -
        (withHead ruby last_level head).m_number_of_bits_per_level 0) head = some
          ((head.erase last_level (keysOf ruby last_level a)).items.length,
            head.erase last_level (keysOf ruby last_level a)) := by
    rw [highBit_withHead]
    exact recursivelyRemoveLevels_eq (levelBound_shares ruby last_level) (cuts_eq fit a) present
  have after := exist_eq fit block (head.erase last_level (keysOf ruby last_level a))
  rw [Nested.find_erase long long, if_pos rfl] at after
  refine (if_pos block.1).trans ?_
  rw [assertExist_eq before, Option.bind_some]
  refine (congrArg (Option.bind · _) removed).trans ?_
  exact congrArg (Option.map _) (assertExist_eq after)

end fit

end map

end SparseMemory

/-- A sparse memory together with the finite map that it stands for. -/
structure TrackedMemory (last_level : Nat) where
  memory : SparseMemory last_level
  content : Addr → Option DirectoryEntry := fun _ => none

namespace TrackedMemory

open SparseMemory

variable {ruby : RubySystem} {last_level : Nat} {t t' : TrackedMemory last_level}

/-- What happens to a memory. -/
inductive Op
  | add (address : Addr) (entry : DirectoryEntry)
  | remove (address : Addr)
  | exist (address : Addr)
  | lookup (address : Addr)

/-- Take one step, both in the memory and in the map. -/
def step (t : TrackedMemory last_level) : Op → Option (TrackedMemory last_level)
  | .add address entry => (t.memory.add address entry).map fun memory =>
    { memory, content := Function.update t.content address (some entry.clear) }
  | .remove address => (t.memory.remove address).map fun memory =>
    { memory, content := Function.update t.content address none }
  | .exist address => (t.memory.exist address).map fun _ => t
  | .lookup address => (t.memory.lookup address).map fun _ => t

/-- Blocks in the memory are added when they are absent and removed when they are present. -/
def Allowed (t : TrackedMemory last_level) : Op → Prop
  | .add address _ => IsBlock t.memory.ruby address ∧ t.content address = none
  | .remove address => IsBlock t.memory.ruby address ∧ t.content address ≠ none
  | .exist address | .lookup address => IsBlock t.memory.ruby address

/--
The memory answers like the map for every block, has no empty table inside, and records each of
the entries of the map once, under its address.
-/
structure Behaves (t : TrackedMemory last_level) : Prop where
  exist : ∀ a, IsBlock t.memory.ruby a → t.memory.exist a = some (t.content a).isSome
  lookup : ∀ a, IsBlock t.memory.ruby a → t.memory.lookup a = some (t.content a)
  full : Nested.Full (last_level + 1) t.memory.m_map_head
  records : ∀ cntrl_id, ∃ entries : List (DirectoryEntry × Addr),
    (entries.map Prod.snd).Nodup ∧ (∀ e a, (e, a) ∈ entries ↔ t.content a = some e) ∧
      t.memory.recordBlocks cntrl_id = entries.map (record cntrl_id)

/-- The tables hold the map under the keys of the addresses, and nothing else. -/
structure Holds (ruby : RubySystem) (head : Nested Addr DirectoryEntry (last_level + 1))
    (content : Addr → Option DirectoryEntry) : Prop where
  found : ∀ a, IsBlock ruby a →
    head.find (last_level + 1) (keysOf ruby last_level a) = content a
  stored : ∀ keys e, keys.length = last_level + 1 → head.find (last_level + 1) keys = some e →
    ∃ a, IsBlock ruby a ∧ keys = keysOf ruby last_level a
  only : ∀ a, content a ≠ none → IsBlock ruby a
  full : Nested.Full (last_level + 1) head

variable {head : Nested Addr DirectoryEntry (last_level + 1)}
  {content : Addr → Option DirectoryEntry}
  (fit : LevelsFit ruby.getMemorySizeBits ruby.getBlockSizeBits (last_level + 1))

include fit

theorem keysOf_inj {a b : Addr} (block : IsBlock ruby a) (block' : IsBlock ruby b)
    (same : keysOf ruby last_level a = keysOf ruby last_level b) : a = b := by
  rw [← join_keysOf fit block, same, join_keysOf fit block']

theorem Holds.add (holds : Holds ruby head content) {a : Addr} (block : IsBlock ruby a)
    (entry : DirectoryEntry) :
    Holds ruby (head.insert entry (last_level + 1) (keysOf ruby last_level a))
      (Function.update content a (some entry)) := by
  have long := keysOf_length fit a
  refine ⟨fun b block' => ?_, fun keys e long' found => ?_, fun b there => ?_,
    (Nested.full_insert long holds.full).2⟩
  · rw [Nested.find_insert long (keysOf_length fit b), Function.update_apply, holds.found b block']
    by_cases same : b = a
    · rw [if_pos same, if_pos (by rw [same])]
    · rw [if_neg same, if_neg fun keys => same (keysOf_inj fit block' block keys)]
  · rw [Nested.find_insert long long'] at found
    split_ifs at found with same
    · exact ⟨a, block, same⟩
    · exact holds.stored keys e long' found
  · rw [Function.update_apply] at there
    split_ifs at there with same
    · exact same ▸ block
    · exact holds.only b there

theorem Holds.remove (holds : Holds ruby head content) {a : Addr} (block : IsBlock ruby a) :
    Holds ruby (head.erase last_level (keysOf ruby last_level a))
      (Function.update content a none) := by
  have long := keysOf_length fit a
  refine ⟨fun b block' => ?_, fun keys e long' found => ?_, fun b there => ?_,
    Nested.full_erase _ holds.full⟩
  · rw [Nested.find_erase long (keysOf_length fit b), Function.update_apply, holds.found b block']
    by_cases same : b = a
    · rw [if_pos same, if_pos (by rw [same])]
    · rw [if_neg same, if_neg fun keys => same (keysOf_inj fit block' block keys)]
  · rw [Nested.find_erase long long'] at found
    split_ifs at found
    exact holds.stored keys e long' found
  · rw [Function.update_apply] at there
    split_ifs at there
    · exact absurd rfl there
    · exact holds.only b there

/-- The walk comes to every entry of the map once, with its address. -/
theorem Holds.records (holds : Holds ruby head content) (cntrl_id : Int) :
    ∃ entries : List (DirectoryEntry × Addr), (entries.map Prod.snd).Nodup ∧
      (∀ e a, (e, a) ∈ entries ↔ content a = some e) ∧
        (withHead ruby last_level head).recordBlocks cntrl_id = entries.map (record cntrl_id) := by
  have member (p : List Addr × DirectoryEntry) (mem : p ∈ head.entries (last_level + 1)) :
      ∃ a, IsBlock ruby a ∧ p.1 = keysOf ruby last_level a ∧ content a = some p.2 := by
    obtain ⟨long, found⟩ := Nested.mem_entries.mp mem
    obtain ⟨a, block, same⟩ := holds.stored p.1 p.2 long found
    exact ⟨a, block, same, by rw [← holds.found a block, ← same, found]⟩
  refine ⟨(head.entries (last_level + 1)).map fun p =>
    (p.2, join (levelBound ruby last_level) 0 0 p.1), ?_, fun e a => ?_, ?_⟩
  · rw [List.map_map]
    refine List.Nodup.map_on (fun p mem q mem' same => ?_)
      (List.Nodup.of_map _ (Nested.entries_nodup head))
    obtain ⟨a, block, keys, -⟩ := member p mem
    obtain ⟨b, block', keys', -⟩ := member q mem'
    dsimp only [Function.comp_apply] at same
    rw [keys, keys', join_keysOf fit block, join_keysOf fit block'] at same
    refine List.inj_on_of_nodup_map (Nested.entries_nodup head) mem mem' ?_
    rw [keys, keys', same]
  · rw [List.mem_map]
    constructor
    · rintro ⟨p, mem, same⟩
      obtain ⟨b, block, keys, there⟩ := member p mem
      obtain ⟨rfl, rfl⟩ := Prod.mk.inj same
      rw [keys, join_keysOf fit block, there]
    · intro there
      have block := holds.only a (by rw [there]; exact Option.some_ne_none e)
      refine ⟨(keysOf ruby last_level a, e), Nested.mem_entries.mpr ⟨keysOf_length fit a, ?_⟩, ?_⟩
      · rw [holds.found a block, there]
      · rw [join_keysOf fit block]
  · rw [recordBlocks, highBit_withHead]
    have walked := walkLevels_eq (levelBound_shares ruby last_level) 0 [(head, (0 : Addr))]
    rw [List.flatMap_singleton] at walked
    exact congrArg (List.map (record cntrl_id)) walked

theorem Holds.behaves (holds : Holds ruby head content) :
    Behaves ⟨withHead ruby last_level head, content⟩ := by
  refine ⟨fun a block => ?_, fun a block => ?_, holds.full, holds.records fit⟩
  · rw [exist_eq fit block, holds.found a block]
  · rw [lookup_eq fit block, holds.found a block]

theorem Holds.step (holds : Holds ruby head content) (op : Op)
    (allowed : Allowed ⟨withHead ruby last_level head, content⟩ op) :
    ∃ head' content', step ⟨withHead ruby last_level head, content⟩ op =
      some ⟨withHead ruby last_level head', content'⟩ ∧ Holds ruby head' content' := by
  cases op with
  | add address entry =>
    obtain ⟨block, absent⟩ := allowed
    have added := add_eq fit block entry ((holds.found address block).trans absent)
    exact ⟨_, _, congrArg (Option.map _) added, holds.add fit block entry.clear⟩
  | remove address =>
    obtain ⟨block, present⟩ := allowed
    have there : (head.find (last_level + 1) (keysOf ruby last_level address)).isSome := by
      rw [holds.found address block]
      exact Option.isSome_iff_ne_none.mpr present
    exact ⟨_, _, congrArg (Option.map _) (remove_eq fit block there), holds.remove fit block⟩
  | exist address =>
    exact ⟨_, _, congrArg (Option.map _) (exist_eq fit allowed head), holds⟩
  | lookup address =>
    exact ⟨_, _, congrArg (Option.map _) (lookup_eq fit allowed), holds⟩

theorem holds_create :
    Holds ruby (SparseMemory.create ruby last_level).m_map_head fun _ => none := by
  have none_found (keys : List Addr) (long : keys.length = last_level + 1) :
      (SparseMemory.create ruby last_level).m_map_head.find (last_level + 1) keys = none := by
    obtain ⟨k, ks, rfl⟩ := List.exists_cons_of_length_eq_add_one long
    rfl
  refine ⟨fun a _ => none_found _ (keysOf_length fit a), fun keys e long found => ?_,
    fun a there => absurd rfl there, fun k s never => nomatch never⟩
  rw [none_found keys long] at found
  cases found

omit fit

/-- An empty memory. -/
def create (ruby : RubySystem) (last_level : Nat) : TrackedMemory last_level where
  memory := .create ruby last_level

theorem highBit_create (ruby : RubySystem) (last_level : Nat) :
    (create ruby last_level).memory.highBit = levelBound ruby last_level 0 :=
  highBit_withHead _

theorem behaves_create (empty : ruby.m_memory_size_bytes = 0) :
    Behaves (create ruby last_level) := by
  have no_block (a : Addr) : ¬IsBlock ruby a := by
    intro block
    have inside := block.2
    omega
  refine ⟨fun a block => absurd block (no_block a), fun a block => absurd block (no_block a),
    fun k s never => (nomatch never), fun cntrl_id => ⟨[], List.nodup_nil, fun e a => ?_, ?_⟩⟩
  · exact ⟨fun never => absurd never List.not_mem_nil, fun never => (nomatch never)⟩
  · rw [recordBlocks, highBit_create]
    have walked := walkLevels_eq (levelBound_shares ruby last_level) 0
      [((create ruby last_level).memory.m_map_head, (0 : Addr))]
    exact congrArg (List.map (record cntrl_id)) walked

theorem isBlock_zero (some_byte : 0 < ruby.m_memory_size_bytes) : IsBlock ruby 0 := by
  refine ⟨?_, some_byte⟩
  rw [lineAddress, maskLowOrderBits]
  split_ifs
  · exact (BitVec.zero_and).symm
  · exact (BitVec.zero_and).symm

/--
The nested tables behave as one finite map in every run just when no level has an empty range of
bits, or the memory has no block at all.
-/
theorem behaves_iff (ruby : RubySystem) (last_level : Nat) :
    (∀ ops, Machine.Permits step Allowed (create ruby last_level) ops →
      (Machine.run step (create ruby last_level) ops).isSome ∧
        Machine.Always step Behaves (create ruby last_level) ops) ↔
      ruby.m_memory_size_bytes = 0 ∨
        LevelsFit ruby.getMemorySizeBits ruby.getBlockSizeBits (last_level + 1) := by
  constructor
  · -- An address can only be added when its keys are cut at all levels.
    intro claim
    rw [or_iff_not_imp_left]
    intro some_byte
    have block := isBlock_zero (Nat.pos_of_ne_zero some_byte)
    obtain ⟨ran, -⟩ := claim [.add 0 ⟨0, fun _ => 0⟩] ⟨⟨block, rfl⟩, fun _ _ => trivial⟩
    obtain ⟨t, ran⟩ := Option.isSome_iff_exists.mp ran
    obtain ⟨t', taken, -⟩ := Option.bind_eq_some_iff.mp ran
    obtain ⟨memory, added, -⟩ := Option.map_eq_some_iff.mp taken
    rw [SparseMemory.add] at added
    split_ifs at added
    obtain ⟨-, -, added⟩ := Option.bind_eq_some_iff.mp added
    obtain ⟨head, looped, -⟩ := Option.bind_eq_some_iff.mp added
    rw [highBit_create] at looped
    exact (levelsFit_iff_cuts 0).mpr (addLoop_cuts (levelBound_shares ruby last_level) looped)
  · rintro (empty | fit) ops permits
    · cases ops with
      | nil => exact ⟨rfl, behaves_create empty⟩
      | cons op ops =>
        have never (a : Addr) (block : IsBlock ruby a) : False := by
          have inside := block.2
          omega
        cases op with
        | add address entry => exact (never address permits.1.1).elim
        | remove address => exact (never address permits.1.1).elim
        | exist address => exact (never address permits.1).elim
        | lookup address => exact (never address permits.1).elim
    · obtain ⟨ran, always, -⟩ : (Machine.run step (create ruby last_level) ops).isSome ∧
          Machine.Always step Behaves (create ruby last_level) ops ∧
          Machine.Meets step (fun _ _ => True) (create ruby last_level) ops :=
        Machine.ok_of_permits (I := fun t => ∃ head content,
          t = ⟨withHead ruby last_level head, content⟩ ∧ Holds ruby head content)
          (by
            rintro _ ⟨head, content, rfl, holds⟩
            exact holds.behaves fit)
          (by
            rintro _ op ⟨head, content, rfl, holds⟩ allowed
            obtain ⟨head', content', taken, holds'⟩ := holds.step fit op allowed
            exact ⟨_, taken, ⟨head', content', rfl, holds'⟩, trivial⟩)
          ⟨_, _, rfl, holds_create fit⟩ permits
      exact ⟨ran, always⟩

/-- A memory of two blocks, whose addresses differ in one bit. -/
def twoBlocks : RubySystem where
  m_block_size_bytes := 64
  block_isPowerOf2 := isPowerOf2_sixtyFour
  block_unsigned := sixtyFour_unsigned
  m_memory_size_bytes := 128
  memory_uint64 := by decide

/-- Two levels for one bit leave the second one with an empty range, which cannot be selected. -/
theorem empty_level_aborts : ¬∀ (ruby : RubySystem) (last_level : Nat) (ops : List Op),
    Machine.Permits step Allowed (create ruby last_level) ops →
      (Machine.run step (create ruby last_level) ops).isSome ∧
        Machine.Always step Behaves (create ruby last_level) ops := by
  intro claim
  obtain ⟨ran, -⟩ := claim twoBlocks 1 [.add 0 ⟨0, fun _ => 0⟩]
    ⟨⟨isBlock_zero (by decide), rfl⟩, fun _ _ => trivial⟩
  exact absurd ran (by decide +kernel)

end TrackedMemory

end GemDroid

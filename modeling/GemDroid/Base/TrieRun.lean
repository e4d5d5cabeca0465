import Mathlib.Data.List.MinMax
import Mathlib.Data.List.Nodup
import GemDroid.Base.TrieRemove
import GemDroid.Lib.Run

/-! A trie finds the shortest of the prefixes that are in it, whatever came and went. -/

namespace GemDroid

open BitPrefix LinkedTree Outcome

namespace TrieRun

variable {w : Nat} {Value : Type}

/-- An entry: the prefix that it is for, its value and its handle. -/
structure Entry (w : Nat) (Value : Type) where
  key : BitVec w
  width : Nat
  value : Value
  handle : Nat

/-- Does the entry's prefix match the key? -/
def Entry.matchesKey (e : Entry w Value) (key : BitVec w) : Bool :=
  key &&& prefixMask w e.width == e.key &&& prefixMask w e.width

/-- Are the first bits of the key the entry's prefix? -/
def Entry.isFor (e : Entry w Value) (key : BitVec w) (width : Nat) : Bool :=
  e.width == width && e.matchesKey key

/-- The entry with the shortest prefix that matches the key. -/
def shortest (entries : List (Entry w Value)) (key : BitVec w) : Option (Entry w Value) :=
  (entries.filter (·.matchesKey key)).argmin (·.width)

/-- A trie and what was entered and not removed. -/
structure State (w : Nat) (Value : Type) where
  trie : Trie w Value := .empty
  entries : List (Entry w Value) := []

/-- What is done to a trie. -/
inductive Op (w : Nat) (Value : Type) where
  | insert (key : BitVec w) (width : Nat) (val : Value)
  | remove (handle : Nat)
  | removeKey (key : BitVec w)

/-- Is the operation one that a user of the trie may do? -/
def allowed (s : State w Value) : Op w Value → Bool
  | .insert key width _ =>
    decide (1 ≤ width ∧ width ≤ w) && s.entries.all fun e => !e.isFor key width
  | .remove handle => s.entries.any (·.handle == handle)
  | .removeKey _ => true

/-- One operation, and what it does to the entries. -/
def perform (s : State w Value) : Op w Value → Except TrieFault (State w Value)
  | .insert key width value => do
    let (trie, handle) ← s.trie.insert key width value
    .ok { trie, entries := s.entries ++ [{ key, width, value, handle }] }
  | .remove handle => do
    let (trie, _) ← s.trie.remove handle
    .ok { trie, entries := s.entries.filter (·.handle != handle) }
  | .removeKey key => do
    let (trie, _) ← s.trie.removeKey key
    let entries :=
      match shortest s.entries key with
      | some found => s.entries.filter (·.handle != found.handle)
      | none => s.entries
    .ok { trie, entries }

/-- Only operations that are allowed are done, and none after a fault. -/
def step : Except TrieFault (State w Value) → Op w Value →
    Option (Except TrieFault (State w Value))
  | .error _, _ => none
  | .ok s, op => if allowed s op then some (perform s op) else none

/-- The nodes keep to the form of a trie. -/
structure WellFormed (t : Trie w Value) : Prop where
  /-- A kid is a node whose prefix properly extends that of the node. -/
  extends' : ∀ a n i k, t.nodes a = some n → n.kids i = some k → ∃ m, t.nodes k = some m ∧
    m.mask ≠ n.mask ∧ m.mask &&& n.mask = n.mask ∧ m.key &&& n.mask = n.key
  /-- Two kids differ in the first bit after the prefix. -/
  differ : ∀ a n k k' m m', t.nodes a = some n → n.kids 0 = some k → n.kids 1 = some k' →
    t.nodes k = some m → t.nodes k' = some m' → ∃ width, n.mask = prefixMask w width ∧
      m.key.getMsbD width ≠ m'.key.getMsbD width
  /-- A lone kid is the first one. -/
  lone : ∀ a n, t.nodes a = some n → n.kids 0 = none → n.kids 1 = none
  /-- A node without a value other than the root has two kids. -/
  inner : ∀ a n, t.nodes a = some n → n.value = none → a ≠ Trie.head →
    (n.kids 0).isSome ∧ (n.kids 1).isSome

/-- The trie finds what it should, its handles are good, and its nodes are well formed. -/
structure Faithful (s : State w Value) : Prop where
  lookup : ∀ key, s.trie.lookup key = .ok ((shortest s.entries key).map (·.value))
  handles : ∀ e ∈ s.entries, ∃ n, s.trie.nodes e.handle = some n ∧ n.value = some e.value ∧
    n.mask = prefixMask w e.width ∧ n.key = e.key &&& prefixMask w e.width
  separate : (s.entries.map (·.handle)).Nodup
  formed : WellFormed s.trie

/-- No assertion or panic was reached, and the trie is faithful. -/
def Good : Except TrieFault (State w Value) → Prop
  | .error _ => False
  | .ok s => Faithful s

/-- The prefix of an entry. -/
def Entry.label (e : Entry w Value) : Trie.Label w :=
  Trie.prefixLabel e.key e.width

/-- What holds after every operation. -/
structure Inv (s : State w Value) : Prop where
  sound : Trie.Sound s.trie Trie.Nowhere
  inside : ∀ e ∈ s.entries, 1 ≤ e.width ∧ e.width ≤ w
  handles : (s.entries.map (·.handle)).Nodup
  labels : (s.entries.map (·.label)).Nodup
  entered : ∀ h x v, s.trie.entry h = some (x, v) ↔
    ∃ e ∈ s.entries, e.handle = h ∧ e.label = x ∧ e.value = v

theorem matchesKey_iff {e : Entry w Value} (inside : e.width ≤ w) (key : BitVec w) :
    e.matchesKey key = true ↔ Trie.Begins key e.label := by
  have width : Trie.maskWidth e.label.mask = e.width := Trie.maskWidth_prefixMask inside
  rw [Entry.matchesKey, beq_iff_eq, and_eq_iff inside, Trie.Begins, width]
  have same : Agree e.width e.label.key e.key := agree_and inside e.key
  exact ⟨fun agree => agree.trans same.symm, fun agree => agree.trans same⟩

theorem label_eq {e e' : Entry w Value} {key : BitVec w} (one : e.matchesKey key = true)
    (two : e'.matchesKey key = true) (equal : e.width = e'.width) : e.label = e'.label := by
  rw [Entry.matchesKey, beq_iff_eq] at one two
  rw [Entry.label, Entry.label, Trie.prefixLabel, Trie.prefixLabel, ← one, ← two, equal]

theorem isFor_of_label {e : Entry w Value} (inside : e.width ≤ w) {key : BitVec w} {width : Nat}
    (inside' : width ≤ w) (same : e.label = Trie.prefixLabel key width) :
    e.isFor key width = true := by
  have masks : prefixMask w e.width = prefixMask w width := congrArg Trie.Label.mask same
  have widths := (prefixMask_inj inside inside').mp masks
  have keys : e.key &&& prefixMask w e.width = key &&& prefixMask w width :=
    congrArg Trie.Label.key same
  rw [Entry.isFor, Entry.matchesKey, Bool.and_eq_true, beq_iff_eq, beq_iff_eq]
  exact ⟨widths, by rw [keys, widths]⟩

namespace Inv

variable {s : State w Value}

theorem entry_of_node (inv : Inv s) {h : Nat} {n : TrieNode w Value}
    (here : s.trie.nodes h = some n) (valued : n.value.isSome) :
    ∃ e ∈ s.entries, e.handle = h ∧ e.label = Trie.label n ∧ n.value = some e.value := by
  obtain ⟨v, value⟩ := Option.isSome_iff_exists.mp valued
  have entered : s.trie.entry h = some (Trie.label n, v) := by
    rw [Trie.entry, here]
    show n.value.map _ = _
    rw [value]
    rfl
  obtain ⟨e, member, handle, label, same⟩ := (inv.entered h _ v).mp entered
  exact ⟨e, member, handle, label, by rw [value, same]⟩

theorem node_of_entry (inv : Inv s) {e : Entry w Value} (member : e ∈ s.entries) :
    ∃ n, s.trie.nodes e.handle = some n ∧ n.value = some e.value ∧ Trie.label n = e.label := by
  have entered := (inv.entered e.handle e.label e.value).mpr ⟨e, member, rfl, rfl, rfl⟩
  rw [Trie.entry, Option.bind_eq_some_iff] at entered
  obtain ⟨n, here, mapped⟩ := entered
  obtain ⟨v, value, same⟩ := Option.map_eq_some_iff.mp mapped
  obtain ⟨label, v'⟩ := Prod.mk.inj same
  exact ⟨n, here, by rw [value, v'], label⟩

theorem label_inj (inv : Inv s) {e e' : Entry w Value} (one : e ∈ s.entries)
    (two : e' ∈ s.entries) (same : e.label = e'.label) : e = e' :=
  List.inj_on_of_nodup_map inv.labels one two same

theorem width_label (inv : Inv s) {e : Entry w Value} (member : e ∈ s.entries) :
    Trie.maskWidth e.label.mask = e.width :=
  Trie.maskWidth_prefixMask (inv.inside e member).2

/-- What a key finds is the entry with the shortest prefix that matches it. -/
theorem finds (inv : Inv s) (key : BitVec w) {found : Option Nat}
    (finds : Trie.Finds s.trie key found) :
    match found with
    | some h => ∃ e ∈ s.entries, shortest s.entries key = some e ∧ e.handle = h
    | none => shortest s.entries key = none := by
  cases found with
  | none =>
    rw [shortest, List.argmin_eq_none, List.filter_eq_nil_iff]
    intro e member matched
    obtain ⟨n, here, value, label⟩ := inv.node_of_entry member
    apply finds e.handle n here (by rw [value]; rfl)
    rw [label]
    exact (matchesKey_iff (inv.inside e member).2 key).mp matched
  | some h =>
    obtain ⟨n, here, valued, begins, least⟩ := finds
    obtain ⟨e, member, handle, label, -⟩ := inv.entry_of_node here valued
    have matched : e.matchesKey key = true := by
      rw [matchesKey_iff (inv.inside e member).2, label]
      exact begins
    refine ⟨e, member, ?_, handle⟩
    have listed : e ∈ s.entries.filter (·.matchesKey key) := List.mem_filter.mpr ⟨member, matched⟩
    cases picked : shortest s.entries key with
    | none =>
      rw [shortest, List.argmin_eq_none] at picked
      rw [picked] at listed
      cases listed
    | some e' =>
      obtain ⟨member', matched'⟩ := List.mem_filter.mp (List.argmin_mem picked)
      obtain ⟨n', here', value', label'⟩ := inv.node_of_entry member'
      -- Neither of the two is longer than the other.
      have most : e'.width ≤ e.width := List.le_of_mem_argmin listed picked
      have least' := least e'.handle n' here' (by rw [value']; rfl) (by
        rw [label']
        exact (matchesKey_iff (inv.inside e' member').2 key).mp matched')
      have width : Trie.maskWidth n.mask = e.width := by
        rw [← inv.width_label member, label]
        rfl
      have width' : Trie.maskWidth n'.mask = e'.width := by
        rw [← inv.width_label member', ← label']
        rfl
      have same := inv.label_inj member' member
        (label_eq matched' matched (by omega))
      rw [same]

theorem lookup (inv : Inv s) (key : BitVec w) :
    s.trie.lookup key = .ok ((shortest s.entries key).map (·.value)) := by
  have handle := inv.sound.lookupHandle key
  unfold Trie.lookup
  cases found : s.trie.lookupHandle key with
  | error fault => exact (handle.of_error found).elim
  | ok result =>
    have picked := inv.finds key (handle.of_ok found)
    cases result with
    | none =>
      rw [show shortest s.entries key = none from picked]
      rfl
    | some h =>
      obtain ⟨e, member, shortest', handle'⟩ := picked
      obtain ⟨n, here, value, -⟩ := inv.node_of_entry member
      rw [handle'] at here
      show (s.trie.node h >>= _) = _
      rw [Trie.node_ok here, shortest']
      exact congrArg Except.ok value

theorem formed (inv : Inv s) : WellFormed s.trie := by
  constructor
  · intro a n i k here linked
    obtain ⟨m, there, -, longer, agree⟩ := inv.sound.kid here linked
    have mask : n.mask = prefixMask w (Trie.maskWidth n.mask) := (inv.sound.masked a n here).mask
    have mask' : m.mask = prefixMask w (Trie.maskWidth m.mask) := (inv.sound.masked k m there).mask
    have key : n.key &&& n.mask = n.key := (inv.sound.masked a n here).key
    refine ⟨m, there, ?_, ?_, ?_⟩
    · intro same
      rw [same] at longer
      exact absurd longer (Nat.lt_irrefl _)
    · rw [BitVec.and_comm, mask, mask']
      exact (prefixMask_and (Trie.maskWidth_le _) (Trie.maskWidth_le _)).mpr (Nat.le_of_lt longer)
    · rw [← key, mask]
      exact (and_eq_iff (Trie.maskWidth_le _)).mpr agree.symm
  · intro a n k k' m m' here first second there there'
    exact ⟨_, (inv.sound.masked a n here).mask, inv.sound.parts here first second there there'⟩
  · intro a n here vacant
    have single : (Trie.links s.trie.nodes).kids a 1 = none :=
      inv.sound.tree.first (by simp [here, vacant])
    simpa [here] using single
  · intro a n here bare below
    have second := inv.sound.full a n here below id bare
    obtain ⟨p, pn, i, up, -⟩ := inv.sound.parent here below
    exact inv.sound.two_kids here bare (by rw [up]; rfl)

theorem faithful (inv : Inv s) : Faithful s := by
  refine ⟨inv.lookup, ?_, inv.handles, inv.formed⟩
  intro e member
  obtain ⟨n, here, value, label⟩ := inv.node_of_entry member
  exact ⟨n, here, value, congrArg Trie.Label.mask label, congrArg Trie.Label.key label⟩

end Inv

/-- An insertion that is allowed adds an entry. -/
theorem insert_ok {s : State w Value} (inv : Inv s) (key : BitVec w) (width : Nat) (val : Value)
    (permitted : allowed s (.insert key width val) = true) :
    Ends Trie.Never (perform s (.insert key width val)) Inv := by
  rw [allowed, Bool.and_eq_true, decide_eq_true_eq, List.all_eq_true] at permitted
  obtain ⟨⟨positive, inside⟩, fresh⟩ := permitted
  have unequal : ∀ e ∈ s.entries, e.label ≠ Trie.prefixLabel key width := by
    intro e member same
    have new := fresh e member
    rw [isFor_of_label (inv.inside e member).2 inside same] at new
    cases new
  have absent : ∀ b v, s.trie.entry b ≠ some (Trie.prefixLabel key width, v) := by
    intro b v entered
    obtain ⟨e, member, -, label, -⟩ := (inv.entered b _ v).mp entered
    exact unequal e member label
  rw [perform, ends_bind]
  apply (inv.sound.insert key val positive inside absent).mono
  rintro ⟨trie, handle⟩ inserted
  have new : ∀ e ∈ s.entries, e.handle ≠ handle := by
    rintro e member rfl
    have entered := (inv.entered e.handle e.label e.value).mpr ⟨e, member, rfl, rfl, rfl⟩
    rw [inserted.vacant] at entered
    cases entered
  refine ⟨inserted.sound, ?_, ?_, ?_, ?_⟩
  · intro e member
    rcases List.mem_append.mp member with old | added
    · exact inv.inside e old
    · rw [List.mem_singleton.mp added]
      exact ⟨positive, inside⟩
  · rw [List.map_append, List.map_singleton, List.nodup_append]
    refine ⟨inv.handles, List.nodup_singleton _, ?_⟩
    rintro h old h' added rfl
    obtain ⟨e, member, same⟩ := List.mem_map.mp old
    exact new e member (same.trans (List.mem_singleton.mp added))
  · rw [List.map_append, List.map_singleton, List.nodup_append]
    refine ⟨inv.labels, List.nodup_singleton _, ?_⟩
    rintro x old x' added rfl
    obtain ⟨e, member, same⟩ := List.mem_map.mp old
    exact unequal e member (same.trans (List.mem_singleton.mp added))
  · intro h x v
    rw [inserted.entries]
    constructor
    · intro entered
      split at entered
      case isTrue same =>
        cases entered
        exact ⟨_, List.mem_append_right _ (List.mem_singleton_self _), same.symm, rfl, rfl⟩
      case isFalse =>
        obtain ⟨e, member, matched⟩ := (inv.entered h x v).mp entered
        exact ⟨e, List.mem_append_left _ member, matched⟩
    · rintro ⟨e, member, rfl, rfl, rfl⟩
      rcases List.mem_append.mp member with old | added
      · rw [if_neg (new e old)]
        exact (inv.entered _ _ _).mpr ⟨e, old, rfl, rfl, rfl⟩
      · rw [List.mem_singleton.mp added, if_pos rfl]
        rfl

theorem remove_ok {s : State w Value} (inv : Inv s) {e : Entry w Value} (member : e ∈ s.entries) :
    Ends Trie.Never (s.trie.remove e.handle) fun (trie, val) => val = some e.value ∧
      Inv { trie, entries := s.entries.filter (·.handle != e.handle) } := by
  have entered := (inv.entered e.handle e.label e.value).mpr ⟨e, member, rfl, rfl, rfl⟩
  have wide : 0 < Trie.maskWidth e.label.mask := by
    rw [inv.width_label member]
    exact (inv.inside e member).1
  apply (inv.sound.remove entered wide).mono
  rintro ⟨trie, val⟩ ⟨value, removed⟩
  have sublist : (s.entries.filter (·.handle != e.handle)).Sublist s.entries :=
    List.filter_sublist
  refine ⟨value, removed.sound, ?_, ?_, ?_, ?_⟩
  · exact fun e' kept => inv.inside e' (sublist.subset kept)
  · exact inv.handles.sublist (sublist.map _)
  · exact inv.labels.sublist (sublist.map _)
  · intro h x v
    rw [removed.entries]
    constructor
    · intro entered
      split at entered
      case isTrue => cases entered
      case isFalse other =>
        obtain ⟨e', member', handle, matched⟩ := (inv.entered h x v).mp entered
        refine ⟨e', List.mem_filter.mpr ⟨member', ?_⟩, handle, matched⟩
        rw [handle, bne_iff_ne]
        exact other
    · rintro ⟨e', kept, rfl, rfl, rfl⟩
      obtain ⟨member', other⟩ := List.mem_filter.mp kept
      rw [if_neg (bne_iff_ne.mp other)]
      exact (inv.entered _ _ _).mpr ⟨e', member', rfl, rfl, rfl⟩

theorem perform_ok {s : State w Value} (inv : Inv s) (op : Op w Value)
    (permitted : allowed s op = true) : Ends Trie.Never (perform s op) Inv := by
  cases op with
  | insert key width val => exact insert_ok inv key width val permitted
  | remove handle =>
    rw [allowed, List.any_eq_true] at permitted
    obtain ⟨e, member, same⟩ := permitted
    rw [← beq_iff_eq.mp same, perform, ends_bind]
    apply (remove_ok inv member).mono
    rintro ⟨trie, val⟩ removed
    exact removed.2
  | removeKey key =>
    rw [perform, ends_bind, Trie.removeKey, ends_bind]
    apply (inv.sound.lookupHandle key).mono
    intro found finds
    have picked := inv.finds key finds
    cases found with
    | none =>
      rw [show shortest s.entries key = none from picked]
      exact inv
    | some h =>
      obtain ⟨e, member, shortest', rfl⟩ := picked
      rw [shortest']
      apply (remove_ok inv member).mono
      rintro ⟨trie, val⟩ removed
      exact removed.2

theorem empty_nodes (a : Nat) : (Trie.empty : Trie w Value).nodes a =
    if a = Trie.head then some (.new 0 0 none) else none := by
  show Function.update (fun _ => none) Trie.head (some (TrieNode.new 0 0 none)) a = _
  rw [Function.update_apply]

/-- An empty trie is a tree of just the head. -/
theorem empty_sound : Trie.Sound (.empty : Trie w Value) Trie.Nowhere := by
  have nodes := @empty_nodes w Value
  have only : ∀ a (n : TrieNode w Value), Trie.empty.nodes a = some n →
      a = Trie.head ∧ n = .new 0 0 none := by
    intro a n here
    rw [nodes] at here
    split at here
    case isTrue top => exact ⟨top, (Option.some.inj here).symm⟩
    case isFalse => cases here
  have zero : prefixMask w 0 = 0 := by
    rw [prefixMask, Nat.sub_zero, BitVec.shiftLeft_eq_zero (Nat.le_refl w)]
    rfl
  have width : Trie.maskWidth (0 : BitVec w) = 0 := by
    rw [← zero]
    exact Trie.maskWidth_prefixMask (Nat.zero_le w)
  have kids : ∀ a i, (Trie.links (Trie.empty : Trie w Value).nodes).kids a i = none := by
    intro a i
    rw [Trie.links_kids, nodes]
    split
    case isTrue => rfl
    case isFalse => rfl
  have parent : ∀ a, (Trie.links (Trie.empty : Trie w Value).nodes).parent a = none := by
    intro a
    rw [Trie.links_parent, nodes]
    split
    case isTrue => rfl
    case isFalse => rfl
  constructor
  · constructor
    · rw [Trie.links_label, nodes, if_pos rfl]
      rfl
    · exact parent _
    · intro a i k linked
      rw [kids] at linked
      cases linked
    · intro a k up
      rw [parent] at up
      cases up
    · intro k labelled below
      rw [Trie.links_label, nodes, if_neg below] at labelled
      cases labelled
    · intro a k k' x y y' linked
      rw [kids] at linked
      cases linked
    · intro a _
      exact kids a 1
  · intro n here
    rw [(only _ n here).2]
    exact width
  · intro a n here
    rw [(only a n here).2]
    constructor
    · show (0 : BitVec w) = prefixMask w (Trie.maskWidth (0 : BitVec w))
      rw [width, zero]
    · show (0 &&& 0 : BitVec w) &&& 0 = 0 &&& 0
      rw [BitVec.and_self, BitVec.and_self]
  · intro a n here below
    exact absurd (only a n here).1 below
  · intro a new
    rw [nodes, if_neg]
    rintro rfl
    cases new

/-- What holds along a run: no fault, and what holds after every operation. -/
def Sound : Except TrieFault (State w Value) → Prop
  | .error _ => False
  | .ok s => Inv s

theorem step_sound {s t : Except TrieFault (State w Value)} {op : Op w Value} (sound : Sound s)
    (taken : step s op = some t) : Sound t := by
  cases s with
  | error fault => cases sound
  | ok s =>
    dsimp only [step] at taken
    split at taken
    case isTrue permitted =>
      cases taken
      have ends := perform_ok sound op permitted
      cases performed : perform s op with
      | error fault => exact (ends.of_error performed).elim
      | ok after => exact ends.of_ok performed
    case isFalse => cases taken

/--
Whatever is inserted and removed, a trie finds the value of the shortest prefix in it that matches
a key, its handles stay good, and its nodes keep to its form.
-/
theorem trie_faithful (ops : List (Op w Value)) :
    Machine.Always step Good (.ok ({} : State w Value)) ops := by
  have first : Sound (.ok ({} : State w Value)) := by
    refine ⟨empty_sound, nofun, List.nodup_nil, List.nodup_nil, ?_⟩
    intro h x v
    constructor
    · intro entered
      rw [Trie.entry, empty_nodes] at entered
      split at entered
      case isTrue => cases entered
      case isFalse => cases entered
    · rintro ⟨e, member, -⟩
      cases member
  apply Machine.always_of_invariant (I := Sound) _ (fun _ _ _ sound taken =>
    step_sound sound taken) first
  intro s sound
  cases s with
  | error fault => cases sound
  | ok s => exact sound.faithful

/-- Two prefixes of one key, of which the shorter one is found until it is removed. -/
example :
    let both : List (Op 64 Nat) :=
      [.insert 0x0123456700000000 40 2, .insert 0x0123456700000000 32 10]
    let lookup := fun ops => (Machine.run step (.ok ({} : State 64 Nat)) ops).map fun result =>
      result.toOption.map fun s => (s.trie.lookup 0x0123456789000000).toOption
    lookup both = some (some (some (some 10))) ∧
      lookup (both ++ [.removeKey 0x0123456789000000]) = some (some (some none)) := by
  decide +kernel

end TrieRun

end GemDroid

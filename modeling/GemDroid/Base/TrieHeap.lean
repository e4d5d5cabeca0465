import Mathlib.Data.List.Basic
import GemDroid.Base.Trie
import GemDroid.Lib.BitPrefix
import GemDroid.Lib.LinkedTree
import GemDroid.Lib.Outcome

/-! The nodes of a trie form a tree of longer and longer prefixes. -/

namespace GemDroid

open BitPrefix LinkedTree Outcome

namespace Trie

variable {w : Nat} {Value : Type}

/-- The number of bits that a mask keeps. -/
def maskWidth (mask : BitVec w) : Nat :=
  (List.range w).countP fun i => mask.getMsbD i

@[simp] theorem maskWidth_prefixMask {n : Nat} (inside : n ≤ w) :
    maskWidth (prefixMask w n) = n := by
  have bits : ∀ m, (List.range m).countP (fun i => decide (i < n)) = min m n := fun m => by
    -- The induction follows the range, whose last number counts when it is still below.
    induction m with
    | zero => simp
    | succ m ih =>
      rw [List.range_succ, List.countP_append, ih, List.countP_singleton]
      by_cases below : m < n
      · simp [below]
        omega
      · simp [below]
        omega
  have same : maskWidth (prefixMask w n) = (List.range w).countP (fun i => decide (i < n)) := by
    unfold maskWidth
    simp only [getMsbD_prefixMask inside]
  rw [same, bits w]
  omega

theorem maskWidth_le (mask : BitVec w) : maskWidth mask ≤ w := by
  have counted := @List.countP_le_length _ (fun i => mask.getMsbD i) (List.range w)
  rwa [List.length_range] at counted

/-- The prefix of a node. -/
structure Label (w : Nat) where
  key : BitVec w
  mask : BitVec w

/-- The prefix that a node stands for. -/
def label (n : TrieNode w Value) : Label w where
  key := n.key
  mask := n.mask

/-- Prefixes extend each other, and part at the bit after a common beginning. -/
instance : Branching (Label w) where
  below x y := maskWidth x.mask < maskWidth y.mask ∧ Agree (maskWidth x.mask) x.key y.key
  apart x y z := y.key.getMsbD (maskWidth x.mask) ≠ z.key.getMsbD (maskWidth x.mask)
  length x := maskWidth x.mask
  below_trans first second :=
    ⟨first.1.trans second.1, first.2.trans (second.2.mono (Nat.le_of_lt first.1))⟩
  length_lt extends' := extends'.1
  apart_symm differs := differs.symm
  apart_irrefl := fun differs => differs rfl
  apart_iff first second := by rw [second.2 _ first.1]

/-- The places of a trie are the addresses of its nodes. -/
@[simps] def links (nodes : Nat → Option (TrieNode w Value)) : Links Nat (Label w) where
  label a := (nodes a).map label
  parent a := (nodes a).bind (·.parent)
  kids a i := (nodes a).bind (·.kids i)

/-- A prefix is made of the first bits of a key. -/
structure Masked (x : Label w) : Prop where
  mask : x.mask = prefixMask w (maskWidth x.mask)
  key : x.key &&& x.mask = x.key

/-- The nodes form a tree of prefixes in which only loose places lack a value and a second kid. -/
structure Sound (t : Trie w Value) (loose : Nat → Prop) : Prop where
  tree : Tree (links t.nodes) head
  rootWidth : ∀ n, t.nodes head = some n → maskWidth n.mask = 0
  masked : ∀ a n, t.nodes a = some n → Masked (label n)
  full : ∀ a n, t.nodes a = some n → a ≠ head → ¬loose a → n.value = none → (n.kids 1).isSome
  fresh : ∀ a, t.next ≤ a → t.nodes a = none

/-- What is entered in a node. -/
def entry (t : Trie w Value) (a : Nat) : Option (Label w × Value) :=
  (t.nodes a).bind fun n => n.value.map fun v => (label n, v)

/-- The key begins with the prefix. -/
def Begins (key : BitVec w) (x : Label w) : Prop :=
  Agree (maskWidth x.mask) key x.key

theorem begins_path (key : BitVec w) : Tree.Path (L := Label w) (Begins key) where
  closed below begins := (begins.mono (Nat.le_of_lt below.1)).trans below.2.symm
  single first second differs one two :=
    differs ((one _ first.1).symm.trans (two _ second.1))

theorem matchesKey_iff {n : TrieNode w Value} (masked : Masked (label n)) (key : BitVec w) :
    n.matchesKey key = true ↔ Begins key (label n) := by
  have mask : n.mask = prefixMask w (maskWidth n.mask) := masked.mask
  have same : n.key = n.key &&& prefixMask w (maskWidth n.mask) := by
    rw [← mask]
    exact masked.key.symm
  rw [TrieNode.matchesKey, beq_iff_eq, mask]
  conv_lhs => rhs; rw [same]
  exact and_eq_iff (maskWidth_le n.mask)

/-- No fault is admitted. -/
def Never (_ : TrieFault) : Prop :=
  False

theorem node_ok {t : Trie w Value} {a : Nat} {n : TrieNode w Value}
    (here : t.nodes a = some n) : t.node a = .ok n := by
  rw [node, here]

/-- The search among the kids of a node in one place for one with a property. -/
def Found (t : Trie w Value) (n : TrieNode w Value) (i : Fin 2) (wanted : Label w → Prop) :
    Option Nat → Prop
  | some k => n.kids i = some k ∧ ∃ m, t.nodes k = some m ∧ wanted (label m)
  | none => ∀ k m, n.kids i = some k → t.nodes k = some m → ¬wanted (label m)

/-- What a key finds: the node with a value and the shortest prefix that it begins with. -/
def Finds (t : Trie w Value) (key : BitVec w) : Option Nat → Prop
  | some h => ∃ m, t.nodes h = some m ∧ m.value.isSome ∧ Begins key (label m) ∧
      ∀ b m', t.nodes b = some m' → m'.value.isSome → Begins key (label m') →
        maskWidth m.mask ≤ maskWidth m'.mask
  | none => ∀ b m', t.nodes b = some m' → m'.value.isSome → ¬Begins key (label m')

namespace Sound

variable {t : Trie w Value} {loose : Nat → Prop} {a : Nat} {n : TrieNode w Value}

theorem kid (sound : Sound t loose) (here : t.nodes a = some n) {i : Fin 2} {k : Nat}
    (linked : n.kids i = some k) :
    ∃ m, t.nodes k = some m ∧ m.parent = some a ∧ maskWidth n.mask < maskWidth m.mask ∧
      Agree (maskWidth n.mask) n.key m.key := by
  have edge : (links t.nodes).kids a i = some k := by
    simp [here, linked]
  obtain ⟨parent, x, y, upper, lower, longer, agree⟩ := sound.tree.kid edge
  simp only [links_label, here, Option.map_some, Option.some.injEq] at upper
  simp only [links_label, Option.map_eq_some_iff] at lower
  obtain ⟨m, there, rfl⟩ := lower
  subst upper
  have up : m.parent = some a := by
    simpa [there] using parent
  exact ⟨m, there, up, longer, agree⟩

theorem parts (sound : Sound t loose) (here : t.nodes a = some n) {k k' : Nat}
    {m m' : TrieNode w Value} (first : n.kids 0 = some k) (second : n.kids 1 = some k')
    (there : t.nodes k = some m) (there' : t.nodes k' = some m') :
    m.key.getMsbD (maskWidth n.mask) ≠ m'.key.getMsbD (maskWidth n.mask) := by
  have edge : (links t.nodes).kids a 0 = some k := by simp [here, first]
  have edge' : (links t.nodes).kids a 1 = some k' := by simp [here, second]
  have place : (links t.nodes).label a = some (label n) := by simp [here]
  have place' : (links t.nodes).label k = some (label m) := by simp [there]
  have place'' : (links t.nodes).label k' = some (label m') := by simp [there']
  have apart : Branching.apart (label n) (label m) (label m') :=
    sound.tree.split edge edge' place place' place''
  exact apart

theorem matchingKid (sound : Sound t loose) (here : t.nodes a = some n) (i : Fin 2)
    (key : BitVec w) :
    Ends Never (t.matchingKid (n.kids i) key) (Found t n i (Begins key)) := by
  cases linked : n.kids i with
  | none =>
    intro k m other
    rw [linked] at other
    cases other
  | some k =>
    obtain ⟨m, there, -⟩ := sound.kid here linked
    rw [Trie.matchingKid, node_ok there]
    have fits := matchesKey_iff (sound.masked k m there) key
    show Ends Never (if m.matchesKey key then _ else _) _
    by_cases begins : Begins key (label m)
    · rw [if_pos (fits.mpr begins)]
      exact ⟨linked, m, there, begins⟩
    · rw [if_neg fun matched => begins (fits.mp matched)]
      intro k' m' linked' there'
      rw [linked] at linked'
      cases linked'
      rw [there] at there'
      cases there'
      exact begins

/-- A key looks further for nodes below a place. -/
theorem lookupFrom (sound : Sound t loose) (key : BitVec w) (rounds : Nat)
    (enough : w < rounds + maskWidth n.mask) (here : t.nodes a = some n)
    (begins : Begins key (label n))
    (below : ∀ b m, t.nodes b = some m → m.value.isSome → Begins key (label m) →
      Above (links t.nodes) a b) :
    Ends Never (t.lookupFrom key rounds a) (Finds t key) := by
  -- The induction is on the rounds, of which there are enough as prefixes get longer.
  induction rounds generalizing a n with
  | zero =>
    have most := maskWidth_le n.mask
    omega
  | succ rounds ih =>
    have place : (links t.nodes).label a = some (label n) := by simp [here]
    rw [Trie.lookupFrom, node_ok here]
    show Ends Never (if n.value.isSome then _ else _) _
    by_cases valued : n.value.isSome
    · rw [if_pos valued]
      refine ⟨n, here, valued, begins, ?_⟩
      intro b m there valued' begins'
      have place' : (links t.nodes).label b = some (label m) := by simp [there]
      rcases sound.tree.below_of_above (below b m there valued' begins') place place' with
        rfl | longer
      · rw [here] at there
        cases there
        exact Nat.le_refl _
      · exact Nat.le_of_lt longer.1
    · rw [if_neg valued]
      -- Whatever the key begins with further down is below the kid that it begins with.
      have down : ∀ b m, t.nodes b = some m → m.value.isSome → Begins key (label m) →
          ∃ i k m', n.kids i = some k ∧ t.nodes k = some m' ∧ Begins key (label m') ∧
            Above (links t.nodes) k b := by
        intro b m there valued' begins'
        have place' : (links t.nodes).label b = some (label m) := by simp [there]
        have different : a ≠ b := by
          rintro rfl
          rw [here] at there
          cases there
          exact valued valued'
        obtain ⟨i, k, z, linked, labelled, chosen, above⟩ := sound.tree.above_chosen_kid
          (begins_path key) (below b m there valued' begins') place' begins' different
        simp only [links_label, Option.map_eq_some_iff] at labelled
        obtain ⟨m', there', rfl⟩ := labelled
        exact ⟨i, k, m', by simpa [here] using linked, there', chosen, above⟩
      have go : ∀ i k, Found t n i (Begins key) (some k) →
          Ends Never (t.lookupFrom key rounds k) (Finds t key) := by
        intro i k found
        obtain ⟨linked, m, there, begins'⟩ := found
        obtain ⟨m', there', -, longer, -⟩ := sound.kid here linked
        rw [there] at there'
        cases there'
        refine ih (by omega) there begins' ?_
        intro b m' there' valued' begins''
        obtain ⟨i', k', m'', linked', there'', chosen, above⟩ :=
          down b m' there' valued' begins''
        have edge : (links t.nodes).kids a i = some k := by simpa [here] using linked
        have edge' : (links t.nodes).kids a i' = some k' := by simpa [here] using linked'
        have same : k = k' := sound.tree.chosen_kid (begins_path key) edge edge'
          (by simp [there]) (by simp [there'']) begins' chosen
        rw [same]
        exact above
      rw [ends_bind]
      apply (sound.matchingKid here 0 key).mono
      intro first found
      cases first with
      | some k => exact go 0 k found
      | none =>
        rw [ends_bind]
        apply (sound.matchingKid here 1 key).mono
        intro second found'
        cases second with
        | some k => exact go 1 k found'
        | none =>
          intro b m there valued' begins'
          obtain ⟨i, k, m', linked, there', chosen, -⟩ := down b m there valued' begins'
          match i with
          | 0 => exact found k m' linked there' chosen
          | 1 => exact found' k m' linked there' chosen

theorem lookupHandle (sound : Sound t loose) (key : BitVec w) :
    Ends Never (t.lookupHandle key) (Finds t key) := by
  obtain ⟨x, rooted⟩ := Option.isSome_iff_exists.mp sound.tree.rooted
  simp only [links_label, Option.map_eq_some_iff] at rooted
  obtain ⟨n, here, rfl⟩ := rooted
  have width := sound.rootWidth n here
  have begins : Begins key (label n) := by
    intro i before
    have short : i < maskWidth n.mask := before
    omega
  apply sound.lookupFrom key (w + 1) (by omega) here begins
  intro b m there _ _
  have place : (links t.nodes).label b = some (label m) := by simp [there]
  exact sound.tree.root_above place

theorem head_node (sound : Sound t loose) :
    ∃ n, t.nodes head = some n ∧ maskWidth n.mask = 0 := by
  obtain ⟨x, rooted⟩ := Option.isSome_iff_exists.mp sound.tree.rooted
  simp only [links_label, Option.map_eq_some_iff] at rooted
  obtain ⟨n, here, -⟩ := rooted
  exact ⟨n, here, sound.rootWidth n here⟩

/-- The prefix comes before or is what is inserted. -/
def Before (key : BitVec w) (width : Nat) (x : Label w) : Prop :=
  Begins key x ∧ maskWidth x.mask ≤ width

/-- An insertion comes after the place but after none of its kids. -/
def After (t : Trie w Value) (key : BitVec w) (width b : Nat) : Prop :=
  ∃ m, t.nodes b = some m ∧ Before key width (label m) ∧
    ∀ i, Found t m i (Before key width) none

/-- The kid that an insertion goes after is the one whose prefix comes before it. -/
theorem goesAfter (sound : Sound t loose) (here : t.nodes a = some n) (i : Fin 2)
    (key : BitVec w) {width : Nat} (inside : width ≤ w) :
    Ends Never (t.goesAfter (n.kids i) key (prefixMask w width))
      (Found t n i (Before key width)) := by
  cases linked : n.kids i with
  | none =>
    intro k m other
    rw [linked] at other
    cases other
  | some k =>
    obtain ⟨m, there, -⟩ := sound.kid here linked
    have masked := sound.masked k m there
    have mask : m.mask = prefixMask w (maskWidth m.mask) := masked.mask
    have fits : (m.matchesKey key && (m.mask &&& prefixMask w width == m.mask)) = true ↔
        Before key width (label m) := by
      rw [Bool.and_eq_true, matchesKey_iff masked, beq_iff_eq, mask,
        prefixMask_and (maskWidth_le m.mask) inside]
      exact Iff.rfl
    rw [Trie.goesAfter, node_ok there]
    show Ends Never (if m.matchesKey key && (m.mask &&& prefixMask w width == m.mask) then _
      else _) _
    by_cases before : Before key width (label m)
    · rw [if_pos (fits.mpr before)]
      exact ⟨linked, m, there, before⟩
    · rw [if_neg fun goes => before (fits.mp goes)]
      intro k' m' linked' there'
      rw [linked] at linked'
      cases linked'
      rw [there] at there'
      cases there'
      exact before

/-- An insertion walks to a node that it comes after, none of whose kids it comes after. -/
theorem walk (sound : Sound t loose) (key : BitVec w) {width : Nat} (inside : width ≤ w)
    (rounds : Nat) (enough : w < rounds + maskWidth n.mask) (here : t.nodes a = some n)
    (before : Before key width (label n)) :
    Ends Never (t.walk key (prefixMask w width) rounds a) (After t key width) := by
  -- The induction is on the rounds, of which there are enough as prefixes get longer.
  induction rounds generalizing a n with
  | zero =>
    have most := maskWidth_le n.mask
    omega
  | succ rounds ih =>
    have go : ∀ i k, Found t n i (Before key width) (some k) →
        Ends Never (t.walk key (prefixMask w width) rounds k) (After t key width) := by
      intro i k found
      obtain ⟨linked, m, there, before'⟩ := found
      obtain ⟨m', there', -, longer, -⟩ := sound.kid here linked
      rw [there] at there'
      cases there'
      exact ih (by omega) there before'
    rw [Trie.walk, node_ok here]
    show Ends Never (t.goesAfter _ _ _ >>= _) _
    rw [ends_bind]
    apply (sound.goesAfter here 0 key inside).mono
    intro first found
    cases first with
    | some k => exact go 0 k found
    | none =>
      rw [ends_bind]
      apply (sound.goesAfter here 1 key inside).mono
      intro second found'
      cases second with
      | some k => exact go 1 k found'
      | none =>
        refine ⟨n, here, before, fun i => ?_⟩
        match i with
        | 0 => exact found
        | 1 => exact found'

end Sound

theorem extendMask_prefixMask {c : Nat} (more : c < w) :
    extendMask (prefixMask w c) = prefixMask w (c + 1) := by
  apply BitVec.eq_of_getMsbD_eq
  intro i inside
  rw [extendMask, getMsbD_prefixMask more]
  simp only [BitVec.getMsbD_or, BitVec.getMsbD_ushiftRight, BitVec.getMsbD_shiftLeft,
    BitVec.getMsbD_one, getMsbD_prefixMask (Nat.le_of_lt more)]
  rw [Bool.eq_iff_iff]
  simp only [Bool.or_eq_true, Bool.and_eq_true, Bool.not_eq_true', decide_eq_true_eq,
    decide_eq_false_iff_not]
  omega

/-- How far a key agrees with a leg: up to the width that is inserted or to where they differ. -/
def Agrees (key kidKey : BitVec w) (width r : Nat) : Prop :=
  r ≤ width ∧ Agree r key kidKey ∧ (r = width ∨ key.getMsbD r ≠ kidKey.getMsbD r)

theorem walkLeg_ok (key kidKey : BitVec w) {width c : Nat} (inside : width ≤ w)
    (rounds : Nat) (enough : width < rounds + c) (short : c ≤ width)
    (agree : Agree c key kidKey) :
    Ends Never (walkLeg key kidKey (prefixMask w width) rounds (prefixMask w c)) fun mask =>
      ∃ r, mask = prefixMask w r ∧ c ≤ r ∧ Agrees key kidKey width r := by
  -- The induction is on the rounds, in each of which one bit more agrees.
  induction rounds generalizing c with
  | zero => omega
  | succ rounds ih =>
    unfold walkLeg
    dsimp only
    by_cases whole : c = width
    · subst whole
      rw [if_pos (by simp)]
      exact ⟨c, rfl, Nat.le_refl _, Nat.le_refl _, agree, .inl rfl⟩
    · have more : c < w := by omega
      have unequal : (prefixMask w c == prefixMask w width) = false := by
        rw [beq_eq_false_iff_ne, Ne, prefixMask_inj (by omega) inside]
        exact whole
      rw [extendMask_prefixMask more, unequal, Bool.or_false]
      by_cases bit : key.getMsbD c = kidKey.getMsbD c
      · have further := agree_succ.mpr ⟨agree, bit⟩
        rw [if_neg (by simpa using (and_eq_iff (by omega)).mpr further)]
        apply (ih (by omega) (by omega) further).mono
        rintro mask ⟨r, rfl, later, agrees⟩
        exact ⟨r, rfl, by omega, agrees⟩
      · have parts : ¬Agree (c + 1) key kidKey := fun further => bit (agree_succ.mp further).2
        rw [if_pos (by simpa using fun same => parts ((and_eq_iff (by omega)).mp same))]
        exact ⟨c, rfl, Nat.le_refl _, short, agree, .inr bit⟩

end Trie

end GemDroid

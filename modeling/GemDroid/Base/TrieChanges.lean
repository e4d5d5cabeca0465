import GemDroid.Base.TrieHeap

/-! The changes that insertions and removals make to a trie keep its nodes a tree. -/

namespace GemDroid

open BitPrefix LinkedTree Outcome

namespace Trie

variable {w : Nat} {Value : Type}

namespace Sound

variable {t t' : Trie w Value} {loose loose' : Nat → Prop} {a k : Nat} {n m leaf : TrieNode w Value}
  {i : Fin 2}

/-- A node gets another value, or none if it has two kids. -/
theorem setValue (sound : Sound t loose) (here : t.nodes a = some n) (value : Option Value)
    (nodes : ∀ b, t'.nodes b = if b = a then some { n with value } else t.nodes b)
    (next : t'.next = t.next) (fewer : ∀ b, loose b → b ≠ a → loose' b)
    (enough : value = none → a ≠ head → ¬loose' a → (n.kids 1).isSome) : Sound t' loose' := by
  have same : links t'.nodes = links t.nodes := by
    apply Links.ext
    · funext b
      by_cases at_ : b = a
      · simp [nodes, at_, here, label]
      · simp [nodes, at_]
    · funext b
      by_cases at_ : b = a
      · simp [nodes, at_, here]
      · simp [nodes, at_]
    · funext b j
      by_cases at_ : b = a
      · simp [nodes, at_, here]
      · simp [nodes, at_]
  constructor
  · rw [same]
    exact sound.tree
  · have := sound.rootWidth
    grind
  · have masked := sound.masked
    intro b m there
    rw [nodes] at there
    split at there
    case isTrue =>
      cases there
      exact masked a n here
    case isFalse => exact masked b m there
  · have := sound.full
    grind
  · have := sound.fresh
    grind

/-- A new node with a value becomes a kid. -/
theorem attach (sound : Sound t loose) (here : t.nodes a = some n)
    (nodes : ∀ b, t'.nodes b = if b = a then some (n.setKid i (some t.next))
      else if b = t.next then some leaf else t.nodes b)
    (next : t'.next = t.next + 1) (parent : leaf.parent = some a)
    (kids : ∀ j, leaf.kids j = none) (valued : leaf.value.isSome) (masked : Masked (label leaf))
    (longer : Branching.below (label n) (label leaf))
    (place : n.kids 0 = none ∧ i = 0 ∨ i = 1 ∧ n.kids 1 = none ∧ ∃ k m, n.kids 0 = some k ∧
      t.nodes k = some m ∧ Branching.apart (label n) (label m) (label leaf))
    (fewer : ∀ b, loose b → b ≠ a ∨ i = 0 → loose' b) : Sound t' loose' := by
  have free : t.nodes t.next = none := sound.fresh _ (Nat.le_refl _)
  have other : t.next ≠ a := by
    intro same
    rw [same, here] at free
    cases free
  have same : links t'.nodes = (links t.nodes).attach a i t.next (label leaf) := by
    apply Links.ext
    · funext b
      by_cases at_ : b = a
      · simp [nodes, at_, here, label, other.symm]
      · by_cases new : b = t.next <;> simp [nodes, at_, new, other]
    · funext b
      by_cases at_ : b = a
      · simp [nodes, at_, here, other.symm]
      · by_cases new : b = t.next <;> simp [nodes, at_, new, other, parent]
    · funext b j
      by_cases at_ : b = a
      · by_cases second : j = i <;> simp [nodes, at_, here, second]
      · by_cases new : b = t.next <;> simp [nodes, at_, new, other, kids, free]
  constructor
  · rw [same]
    apply sound.tree.attach (by simp [free]) (x := label n) (by simp [here]) longer
    rcases place with first | ⟨second, vacant, k, m, linked, there, apart⟩
    · exact .inl ⟨by simp [here, first.1], first.2⟩
    · exact .inr ⟨second, by simp [here, vacant], k, label m, by simp [here, linked],
        by simp [there], apart⟩
  · have := sound.rootWidth
    have := sound.tree.rooted
    grind [links_label]
  · have before := sound.masked
    intro b m there
    rw [nodes] at there
    split at there
    case isTrue =>
      cases there
      exact before a n here
    case isFalse =>
      split at there
      case isTrue =>
        cases there
        exact masked
      case isFalse => exact before b m there
  · have := sound.full
    grind
  · have := sound.fresh
    grind

/-- A new node comes between a node and its kid. -/
theorem interpose (sound : Sound t loose) (here : t.nodes a = some n)
    (linked : n.kids i = some k) (there : t.nodes k = some m)
    (nodes : ∀ b, t'.nodes b = if b = a then some (n.setKid i (some t.next))
      else if b = k then some { m with parent := some t.next }
      else if b = t.next then some leaf else t.nodes b)
    (next : t'.next = t.next + 1) (parent : leaf.parent = some a)
    (kids : ∀ j, leaf.kids j = if j = 0 then some k else none) (masked : Masked (label leaf))
    (upper : Branching.below (label n) (label leaf))
    (lower : Branching.below (label leaf) (label m))
    (fewer : ∀ b, loose b → loose' b) (left : leaf.value = none → loose' t.next) :
    Sound t' loose' := by
  have free : t.nodes t.next = none := sound.fresh _ (Nat.le_refl _)
  have other : t.next ≠ a := by
    intro same
    rw [same, here] at free
    cases free
  have other' : t.next ≠ k := by
    intro same
    rw [same, there] at free
    cases free
  obtain ⟨m', there', -, longer, -⟩ := sound.kid here linked
  have apart : a ≠ k := by
    rintro rfl
    rw [here] at there'
    cases there'
    exact absurd longer (Nat.lt_irrefl _)
  -- On the links the change is the one of the tree library.
  have same : links t'.nodes = (links t.nodes).interpose a i k t.next (label leaf) := by
    apply Links.ext
    · funext b
      by_cases at_ : b = a
      · simp [nodes, at_, here, label, other.symm]
      · by_cases below : b = k
        · simp [nodes, below, apart.symm, there, label, other'.symm]
        · by_cases new : b = t.next <;> simp [nodes, at_, below, new, other, other']
    · funext b
      by_cases at_ : b = a
      · simp [nodes, at_, here, other.symm, apart]
      · by_cases below : b = k
        · simp [nodes, below, apart.symm]
        · by_cases new : b = t.next <;> simp [nodes, at_, below, new, other, other', parent]
    · funext b j
      by_cases at_ : b = a
      · by_cases second : j = i <;> simp [nodes, at_, here, second, other.symm]
      · by_cases below : b = k
        · simp [nodes, below, apart.symm, there, other'.symm]
        · by_cases new : b = t.next <;> simp [nodes, at_, below, new, other, other', kids]
  constructor
  · rw [same]
    exact sound.tree.interpose (by simp [free]) (x := label n) (z := label m) (by simp [here])
      (by simp [here, linked]) (by simp [there]) upper lower
  · have := sound.rootWidth
    have := sound.tree.rooted
    grind [links_label]
  · have before := sound.masked
    intro b c at_
    rw [nodes] at at_
    split at at_
    case isTrue =>
      cases at_
      exact before a n here
    case isFalse =>
      split at at_
      case isTrue =>
        cases at_
        exact before k m there
      case isFalse =>
        split at at_
        case isTrue =>
          cases at_
          exact masked
        case isFalse => exact before b c at_
  · have := sound.full
    grind
  · have := sound.fresh
    grind

/-- A node without kids is freed, and the other kid of its parent comes first. -/
theorem detach {p h : Nat} {pn pn' : TrieNode w Value} {other : Option Nat}
    (sound : Sound t loose) (here : t.nodes h = some n) (upper : t.nodes p = some pn)
    (linked : pn.kids 0 = some h ∧ other = pn.kids 1 ∨ pn.kids 1 = some h ∧ other = pn.kids 0)
    (leaf : ∀ j, n.kids j = none)
    (nodes : ∀ b, t'.nodes b = if b = h then none else if b = p then some pn' else t.nodes b)
    (next : t'.next = t.next) (same : label pn' = label pn) (parent : pn'.parent = pn.parent)
    (kids : ∀ j, pn'.kids j = if j = 0 then other else none)
    (fewer : ∀ b, loose b → b ≠ h → loose' b)
    (bare : p ≠ head → pn'.value = none → loose' p) : Sound t' loose' := by
  have other' : p ≠ h := by
    rintro rfl
    rw [here] at upper
    cases upper
    rcases linked with ⟨first, -⟩ | ⟨second, -⟩
    · rw [leaf] at first
      cases first
    · rw [leaf] at second
      cases second
  have links_eq : links t'.nodes = (links t.nodes).detach p h other := by
    apply Links.ext
    · funext b
      by_cases freed : b = h
      · simp [nodes, freed]
      · by_cases at_ : b = p
        · subst at_
          simp [nodes, freed, upper, same]
        · simp [nodes, freed, at_]
    · funext b
      by_cases freed : b = h
      · simp [nodes, freed]
      · by_cases at_ : b = p
        · subst at_
          simp [nodes, freed, upper, parent]
        · simp [nodes, freed, at_]
    · funext b j
      by_cases freed : b = h
      · simp [nodes, freed, other'.symm, here, leaf]
      · by_cases at_ : b = p
        · subst at_
          simp [nodes, freed, kids]
        · simp [nodes, freed, at_]
  have tree : Tree (links t'.nodes) head := by
    rw [links_eq]
    apply sound.tree.detach
    · simpa [upper] using linked
    · simp [here, leaf]
  constructor
  · exact tree
  · intro b at_
    rw [nodes] at at_
    split at at_
    case isTrue => cases at_
    case isFalse =>
      split at at_
      case isTrue top =>
        cases at_
        rw [← top] at upper
        rw [show pn'.mask = pn.mask from congrArg Label.mask same]
        exact sound.rootWidth pn upper
      case isFalse => exact sound.rootWidth b at_
  · have before := sound.masked
    intro b c at_
    rw [nodes] at at_
    split at at_
    case isTrue => cases at_
    case isFalse =>
      split at at_
      case isTrue =>
        cases at_
        rw [same]
        exact before p pn upper
      case isFalse => exact before b c at_
  · have := sound.full
    grind
  · have free := sound.fresh
    intro b new
    rw [next] at new
    rw [nodes]
    have at_ : b ≠ p := by
      rintro rfl
      rw [free _ new] at upper
      cases upper
    simp [free b new, at_]

/-- A node with one kid is freed, and the kid takes its place. -/
theorem splice {p h c : Nat} {pn cn : TrieNode w Value} (sound : Sound t loose)
    (here : t.nodes h = some n) (upper : t.nodes p = some pn) (lower : t.nodes c = some cn)
    (linked : pn.kids i = some h) (only : n.kids 0 = some c) (single : n.kids 1 = none)
    (nodes : ∀ b, t'.nodes b = if b = h then none else if b = p then some (pn.setKid i (some c))
      else if b = c then some { cn with parent := some p } else t.nodes b)
    (next : t'.next = t.next) (fewer : ∀ b, loose b → b ≠ h → loose' b) : Sound t' loose' := by
  obtain ⟨n', here', -, longer, -⟩ := sound.kid upper linked
  rw [here] at here'
  cases here'
  obtain ⟨cn', lower', -, longer', -⟩ := sound.kid here only
  rw [lower] at lower'
  cases lower'
  -- The three nodes differ, as their labels get longer downwards.
  have other : p ≠ h := by
    rintro rfl
    rw [here] at upper
    cases upper
    exact absurd longer (Nat.lt_irrefl _)
  have other' : c ≠ h := by
    rintro rfl
    rw [here] at lower
    cases lower
    exact absurd longer' (Nat.lt_irrefl _)
  have other'' : c ≠ p := by
    rintro rfl
    rw [upper] at lower
    cases lower
    omega
  -- On the links the change is the splice of the tree library.
  have links_eq : links t'.nodes = (links t.nodes).splice p i h c := by
    apply Links.ext
    · funext b
      by_cases freed : b = h
      · simp [nodes, freed]
      · by_cases at_ : b = p
        · simp [nodes, at_, other, upper, label]
        · by_cases below : b = c
          · simp [nodes, below, other', other'', lower, label]
          · simp [nodes, freed, at_, below]
    · funext b
      by_cases freed : b = h
      · simp [nodes, freed, other'.symm]
      · by_cases at_ : b = p
        · simp [nodes, at_, other, other''.symm, upper]
        · by_cases below : b = c
          · simp [nodes, below, other', other'']
          · simp [nodes, freed, at_, below]
    · funext b j
      by_cases freed : b = h
      · simp [nodes, freed]
      · by_cases at_ : b = p
        · by_cases second : j = i <;> simp [nodes, at_, other, upper, second]
        · by_cases below : b = c
          · simp [nodes, below, other', other'', lower]
          · simp [nodes, freed, at_, below]
  have tree : Tree (links t'.nodes) head := by
    rw [links_eq]
    exact sound.tree.splice (by simp [upper, linked]) (by simp [here, only])
      (by simp [here, single])
  constructor
  · exact tree
  · have := sound.rootWidth
    intro b at_
    rw [nodes] at at_
    split at at_
    case isTrue => cases at_
    case isFalse =>
      split at at_
      case isTrue => grind
      case isFalse =>
        split at at_
        case isTrue => grind
        case isFalse => exact sound.rootWidth b at_
  · have before := sound.masked
    intro b d at_
    rw [nodes] at at_
    split at at_
    case isTrue => cases at_
    case isFalse =>
      split at at_
      case isTrue =>
        cases at_
        exact before p pn upper
      case isFalse =>
        split at at_
        case isTrue =>
          cases at_
          exact before c cn lower
        case isFalse => exact before b d at_
  · have := sound.full
    grind
  · have free := sound.fresh
    intro b new
    rw [next] at new
    rw [nodes]
    have at_ : b ≠ p := by
      rintro rfl
      rw [free _ new] at upper
      cases upper
    have below : b ≠ c := by
      rintro rfl
      rw [free _ new] at lower
      cases lower
    simp [free b new, at_, below]

end Sound

section reads

variable (t : Trie w Value) (a b : Nat) (n : TrieNode w Value)

@[simp] theorem set_nodes :
    (t.set a n).nodes b = if b = a then some n else t.nodes b :=
  Function.update_apply ..

@[simp] theorem new_nodes :
    (t.new n).nodes b = if b = t.next then some n else t.nodes b :=
  Function.update_apply ..

@[simp] theorem delete_nodes :
    (t.delete a).nodes b = if b = a then none else t.nodes b :=
  Function.update_apply ..

end reads

/-- Only loose places lack a value and a second kid, and there is no loose place. -/
def Nowhere (_ : Nat) : Prop :=
  False

/-- The prefix of that many bits of a key. -/
def prefixLabel (key : BitVec w) (width : Nat) : Label w where
  key := key &&& prefixMask w width
  mask := prefixMask w width

/-- An insertion adds one entry and leaves the others as they are. -/
structure Inserted (t : Trie w Value) (key : BitVec w) (width : Nat) (val : Value)
    (t' : Trie w Value) (h : Nat) : Prop where
  sound : Sound t' Nowhere
  vacant : t.entry h = none
  entries : ∀ b, t'.entry b = if b = h then some (prefixLabel key width, val) else t.entry b

theorem prefixLabel_masked (key : BitVec w) {width : Nat} (inside : width ≤ w) :
    Masked (prefixLabel key width) := by
  have mask : maskWidth (prefixLabel key width).mask = width := maskWidth_prefixMask inside
  constructor
  · rw [mask]
    rfl
  · show key &&& prefixMask w width &&& prefixMask w width = key &&& prefixMask w width
    rw [BitVec.and_assoc, BitVec.and_self]

theorem below_prefixLabel {x : Label w} {key : BitVec w} {width : Nat} (inside : width ≤ w)
    (begins : Begins key x) (longer : maskWidth x.mask < width) :
    Branching.below x (prefixLabel key width) := by
  have mask : maskWidth (prefixLabel key width).mask = width := maskWidth_prefixMask inside
  constructor
  · rwa [mask]
  · exact begins.symm.trans ((agree_and inside key).symm.mono (Nat.le_of_lt longer))

theorem prefixLabel_bit {key : BitVec w} {width i : Nat} (inside : width ≤ w)
    (kept : i < width) : (prefixLabel key width).key.getMsbD i = key.getMsbD i :=
  agree_and inside key i kept

section insert

variable {t : Trie w Value} {a : Nat} {n : TrieNode w Value} {i : Fin 2} {key : BitVec w}
  {width : Nat}

/-- A new leaf under a node that it comes after is an insertion. -/
theorem Inserted.leaf {t' : Trie w Value} {loose : Nat → Prop} (sound : Sound t loose)
    (here : t.nodes a = some n) (inside : width ≤ w) (begins : Begins key (label n))
    (longer : maskWidth n.mask < width) (val : Value)
    (nodes : ∀ b, t'.nodes b = if b = a then some (n.setKid i (some t.next))
      else if b = t.next then
        some { TrieNode.new key (prefixMask w width) (some val) with parent := some a }
      else t.nodes b)
    (next : t'.next = t.next + 1)
    (place : n.kids 0 = none ∧ i = 0 ∨ i = 1 ∧ n.kids 1 = none ∧ ∃ k m, n.kids 0 = some k ∧
      t.nodes k = some m ∧ m.key.getMsbD (maskWidth n.mask) ≠ key.getMsbD (maskWidth n.mask))
    (fewer : ∀ b, loose b → b = a ∧ i = 1) : Inserted t key width val t' t.next := by
  have free : t.nodes t.next = none := sound.fresh _ (Nat.le_refl _)
  have other : t.next ≠ a := by
    intro same
    rw [same, here] at free
    cases free
  constructor
  · apply sound.attach here nodes next rfl (fun _ => rfl) rfl (prefixLabel_masked key inside)
      (below_prefixLabel inside begins longer)
    · rcases place with first | ⟨second, single, k, m, linked, there, differs⟩
      · exact .inl first
      · refine .inr ⟨second, single, k, m, linked, there, ?_⟩
        show m.key.getMsbD (maskWidth n.mask) ≠
          (prefixLabel key width).key.getMsbD (maskWidth n.mask)
        rwa [prefixLabel_bit inside longer]
    · intro b loose'
      have second := fewer b loose'
      grind
  · rw [entry, free]
    rfl
  · intro b
    rw [entry, nodes]
    by_cases new : b = t.next
    · subst new
      rw [if_neg other, if_pos rfl, if_pos rfl]
      rfl
    · by_cases at_ : b = a
      · subst at_
        rw [if_pos rfl, if_neg new, entry, here]
        rfl
      · rw [if_neg at_, if_neg new, if_neg new]
        rfl

theorem Inserted.of_same {t' t'' : Trie w Value} {val : Value} {h : Nat}
    (inserted : Inserted t' key width val t'' h) (same : ∀ b, t'.entry b = t.entry b) :
    Inserted t key width val t'' h :=
  ⟨inserted.sound, (same h).symm.trans inserted.vacant, fun b => by
    rw [inserted.entries, same]⟩

/-- A leg is split between a node and its kid, and the node in between still lacks a value. -/
theorem Sound.splitLeg {k r : Nat} {m : TrieNode w Value} (sound : Sound t Nowhere)
    (here : t.nodes a = some n) (linked : n.kids i = some k) (there : t.nodes k = some m)
    (inside : r ≤ w) (begins : Begins key (label n)) (longer : maskWidth n.mask < r)
    (short : r < maskWidth m.mask) (agrees : Agree r key m.key) :
    Ends Never (t.splitLeg a i k key (prefixMask w r)) fun (t', f) =>
      f = t.next ∧ Sound t' (· = f) ∧ t'.next = t.next + 1 ∧
        t'.nodes f = some ({ TrieNode.new key (prefixMask w r) none with
          parent := some a }.setKid 0 (some k)) ∧
        t'.nodes k = some { m with parent := some f } ∧ ∀ b, t'.entry b = t.entry b := by
  -- The new node is none of the two that it comes between.
  have free : t.nodes t.next = none := sound.fresh _ (Nat.le_refl _)
  have other : t.next ≠ a := by
    intro same
    rw [same, here] at free
    cases free
  have other' : t.next ≠ k := by
    intro same
    rw [same, there] at free
    cases free
  have apart : a ≠ k := by
    rintro rfl
    rw [here] at there
    cases there
    omega
  -- Its label lies between theirs.
  have upper : Branching.below (label n) (prefixLabel key r) :=
    below_prefixLabel inside begins longer
  have lower : Branching.below (prefixLabel key r) (label m) := by
    have width' : maskWidth (prefixLabel key r).mask = r := maskWidth_prefixMask inside
    constructor
    · rw [width']
      exact short
    · rw [width']
      exact (agree_and inside key).trans agrees
  let inner : TrieNode w Value := { TrieNode.new key (prefixMask w r) none with parent := some a }
  let between : TrieNode w Value := inner.setKid 0 (some k)
  have points : (t.new inner).setParent k t.next =
      .ok ((t.new inner).set k { m with parent := some t.next }) := by
    rw [setParent, node_ok (n := m) (by simp [other'.symm, there])]
    rfl
  unfold Trie.splitLeg
  dsimp only
  rw [points, ends_bind, ends_ok, ends_bind, node_ok (n := n) (by simp [apart, other.symm, here]),
    ends_ok, ends_ok]
  have nodes : ∀ b, ((((t.new inner).set k { m with parent := some t.next }).set t.next
      between).set a (n.setKid i (some t.next))).nodes b =
        if b = a then some (n.setKid i (some t.next))
        else if b = k then some { m with parent := some t.next }
        else if b = t.next then some between else t.nodes b := by
    intro b
    simp only [set_nodes, new_nodes]
    grind
  refine ⟨rfl, ?_, rfl, ?_, ?_, ?_⟩
  · exact sound.interpose here linked there nodes rfl rfl (fun _ => TrieNode.setKid_kids ..)
      (prefixLabel_masked key inside) upper lower (fun _ => False.elim) fun _ => rfl
  · exact (nodes t.next).trans (by rw [if_neg other, if_neg other', if_pos rfl])
  · exact (nodes k).trans (by rw [if_neg apart.symm, if_pos rfl])
  · intro b
    rw [entry]
    refine (congrArg (Option.bind · _) (nodes b)).trans ?_
    by_cases at_ : b = a
    · subst at_
      rw [if_pos rfl, entry, here]
      rfl
    · by_cases below : b = k
      · subst below
        rw [if_neg at_, if_pos rfl, entry, there]
        rfl
      · rw [if_neg at_, if_neg below]
        by_cases new : b = t.next
        · subst new
          rw [if_pos rfl, entry, free]
          rfl
        · rw [if_neg new]
          rfl

/-- A leg of a node gets the new entry, or is left where the first bit is another one. -/
theorem Sound.insertLeg {val : Value} (sound : Sound t Nowhere)
    (here : t.nodes a = some n) (inside : width ≤ w) (begins : Begins key (label n))
    (longer : maskWidth n.mask < width) (after : ∀ j, Found t n j (Before key width) none)
    (passed : i = 0 ∨ i = 1 ∧ ∃ k m, n.kids 0 = some k ∧ t.nodes k = some m ∧
      m.key.getMsbD (maskWidth n.mask) ≠ key.getMsbD (maskWidth n.mask)) :
    Ends Never (t.insertLeg a i key (prefixMask w width) val) fun result =>
      match result with
      | some (t', h) => Inserted t key width val t' h
      | none => ∃ k m, n.kids i = some k ∧ t.nodes k = some m ∧
          m.key.getMsbD (maskWidth n.mask) ≠ key.getMsbD (maskWidth n.mask) := by
  have free : t.nodes t.next = none := sound.fresh _ (Nat.le_refl _)
  have other : t.next ≠ a := by
    intro same
    rw [same, here] at free
    cases free
  have mask : n.mask = prefixMask w (maskWidth n.mask) := (sound.masked a n here).mask
  unfold Trie.insertLeg
  rw [node_ok here, ends_bind, ends_ok]
  cases linked : n.kids i with
  | none =>
    dsimp only
    rw [ends_ok]
    apply Inserted.leaf sound here inside begins longer val
    · intro b
      rw [set_nodes, new_nodes]
    · rfl
    · rcases passed with first | ⟨second, k, m, linked', there, differs⟩
      · subst first
        exact .inl ⟨linked, rfl⟩
      · subst second
        exact .inr ⟨rfl, linked, k, m, linked', there, differs⟩
    · exact fun _ => False.elim
  | some k =>
    obtain ⟨m, there, -, longer', agree⟩ := sound.kid here linked
    have other' : t.next ≠ k := by
      intro same
      rw [same, there] at free
      cases free
    dsimp only
    rw [node_ok there, ends_bind, ends_ok, ends_bind]
    have walks := walkLeg_ok key m.key inside (w + 1) (c := maskWidth n.mask) (by omega)
      (Nat.le_of_lt longer) (begins.trans agree)
    rw [← mask] at walks
    apply walks.mono
    rintro curMask ⟨r, rfl, further, atMost, agrees, stops⟩
    by_cases stays : r = maskWidth n.mask
    · -- The walk has not left the node, so the first bit is another one.
      rw [if_pos (by rw [stays, ← mask]), ends_ok]
      refine ⟨k, m, rfl, there, ?_⟩
      rw [← stays]
      exact (stops.resolve_left (by omega)).symm
    · have leaves : prefixMask w r ≠ n.mask := by
        rw [mask, Ne, prefixMask_inj (by omega) (maskWidth_le n.mask)]
        exact stays
      have inside' : r ≤ w := by omega
      -- The key does not begin with all of the kid's prefix, as it does not come after the kid.
      have short : r < maskWidth m.mask := by
        by_contra whole
        exact after i k m linked there ⟨agrees.mono (Nat.not_lt.mp whole), by
          show maskWidth m.mask ≤ width
          omega⟩
      have apart : a ≠ k := by
        rintro rfl
        rw [here] at there
        cases there
        exact absurd longer' (Nat.lt_irrefl _)
      have more : maskWidth n.mask < r := by omega
      rw [if_neg leaves, ends_bind]
      apply (sound.splitLeg here linked there inside' begins more short agrees).mono
      rintro ⟨t', f⟩ ⟨rfl, split, next, between, below, entries⟩
      dsimp only at split next between below entries ⊢
      rw [node_ok between, ends_bind, ends_ok]
      by_cases whole : r = width
      · subst whole
        rw [if_pos rfl, ends_ok]
        constructor
        · apply split.setValue between (some val) (fun b => set_nodes ..) rfl
          · exact fun b loose left => left loose
          · intro impossible
            cases impossible
        · rw [entry, free]
          rfl
        · intro b
          rw [entry, set_nodes]
          by_cases new : b = t.next
          · rw [if_pos new, if_pos new]
            rfl
          · rw [if_neg new, if_neg new, ← entries b]
            rfl
      · have unequal : prefixMask w r ≠ prefixMask w width := by
          rw [Ne, prefixMask_inj inside' inside]
          exact whole
        rw [if_neg unequal, ends_ok]
        have width' : maskWidth (prefixMask w r) = r := maskWidth_prefixMask inside'
        have begins' : Begins key (prefixLabel key r) := by
          show Agree (maskWidth (prefixMask w r)) key (key &&& prefixMask w r)
          rw [width']
          exact (agree_and inside' key).symm
        have longer'' : maskWidth (prefixMask w r) < width := by omega
        have differs : m.key.getMsbD r ≠ key.getMsbD r := (stops.resolve_left whole).symm
        refine Inserted.of_same ?_ entries
        apply Inserted.leaf split between inside begins' longer'' val (fun b => ?_) rfl
          (.inr ⟨rfl, rfl, k, _, rfl, below, ?_⟩) (fun b loose => ⟨loose, rfl⟩)
        · show m.key.getMsbD (maskWidth (prefixMask w r)) ≠
            key.getMsbD (maskWidth (prefixMask w r))
          rw [width']
          exact differs
        · rw [set_nodes, new_nodes]

end insert

theorem prefixLabel_and (key : BitVec w) (width : Nat) :
    prefixLabel (key &&& prefixMask w width) width = prefixLabel key width := by
  rw [prefixLabel, prefixLabel, BitVec.and_assoc, BitVec.and_self]

theorem label_eq_prefixLabel {n : TrieNode w Value} {key : BitVec w} {width : Nat}
    (inside : width ≤ w) (masked : Masked (label n)) (mask : n.mask = prefixMask w width)
    (begins : Begins key (label n)) : label n = prefixLabel key width := by
  have agree : Agree width key n.key := by
    have short : maskWidth (label n).mask = width := by
      show maskWidth n.mask = width
      rw [mask]
      exact maskWidth_prefixMask inside
    rw [← short]
    exact begins
  have whole : n.key &&& prefixMask w width = n.key := by
    rw [← mask]
    exact masked.key
  have same : n.key = key &&& prefixMask w width := by
    rw [← whole]
    exact (and_eq_iff inside).mpr agree.symm
  rw [label, prefixLabel, same, mask]

/-- A value is inserted for a prefix that has none, and nothing else changes. -/
theorem Sound.insert {t : Trie w Value} (sound : Sound t Nowhere) (key : BitVec w) {width : Nat}
    (val : Value) (positive : 0 < width) (inside : width ≤ w)
    (absent : ∀ b v, t.entry b ≠ some (prefixLabel key width, v)) :
    Ends Never (t.insert key width val) fun (t', h) => Inserted t key width val t' h := by
  have newMask : (if width < w then BitVec.allOnes w <<< (w - width) else BitVec.allOnes w) =
      prefixMask w width := by
    by_cases partial' : width < w
    · rw [if_pos partial']
      rfl
    · rw [if_neg partial', prefixMask, Nat.sub_eq_zero_of_le (Nat.not_lt.mp partial')]
      exact (BitVec.shiftLeft_zero _).symm
  unfold Trie.insert
  dsimp only
  rw [newMask]
  generalize masked : key &&& prefixMask w width = key'
  have same : prefixLabel key' width = prefixLabel key width := by
    rw [← masked]
    exact prefixLabel_and key width
  suffices inserts : Ends Never _ fun r : Trie w Value × Nat => Inserted t key' width val r.1 r.2 by
    apply inserts.mono
    rintro ⟨t', h⟩ inserted
    exact ⟨inserted.sound, inserted.vacant, same ▸ inserted.entries⟩
  obtain ⟨root, top, zero⟩ := sound.head_node
  have before : Before key' width (label root) := by
    have short : maskWidth (label root).mask = 0 := zero
    rw [Before, Begins, short]
    exact ⟨agree_zero _ _, Nat.zero_le _⟩
  rw [ends_bind]
  apply (sound.walk key' inside (w + 1) (by omega) top before).mono
  rintro a ⟨n, here, ⟨begins, within⟩, after⟩
  have masked' := sound.masked a n here
  rw [node_ok here, ends_bind, ends_ok]
  by_cases whole : n.mask = prefixMask w width
  · have stands := label_eq_prefixLabel inside masked' whole begins
    rw [if_pos whole]
    -- A value there would be one for the prefix that is inserted.
    have empty : n.value = none := by
      cases value : n.value with
      | none => rfl
      | some v =>
        apply absurd _ (absent a v)
        rw [entry, here, ← same, ← stands]
        show n.value.map _ = _
        rw [value]
        rfl
    rw [empty]
    show Inserted t key' width val (t.set a { n with value := some val }) a
    constructor
    · exact sound.setValue here (some val) (fun b => set_nodes ..) rfl (fun _ => False.elim)
        fun impossible => by cases impossible
    · rw [entry, here]
      show n.value.map _ = none
      rw [empty]
      rfl
    · intro b
      rw [entry, set_nodes]
      by_cases at_ : b = a
      · rw [if_pos at_, if_pos at_, ← stands]
        rfl
      · rw [if_neg at_, if_neg at_]
        rfl
  · rw [if_neg whole]
    have short : maskWidth n.mask ≤ width := within
    have longer : maskWidth n.mask < width := by
      apply Nat.lt_of_le_of_ne short
      intro equal
      have mask : n.mask = prefixMask w (maskWidth n.mask) := masked'.mask
      rw [equal] at mask
      exact whole mask
    rw [ends_bind]
    apply (sound.insertLeg here inside begins longer after (.inl rfl)).mono
    intro first done
    cases first with
    | some result => exact done
    | none =>
      rw [ends_bind]
      apply (sound.insertLeg here inside begins longer after (.inr ⟨rfl, done⟩)).mono
      intro second done'
      cases second with
      | some result => exact done'
      | none =>
        -- One of the two kids has the first bit of the key.
        obtain ⟨k, m, linked, there, differs⟩ := done
        obtain ⟨k', m', linked', there', differs'⟩ := done'
        have bits := sound.parts here linked linked' there there'
        revert bits differs differs'
        cases m.key.getMsbD (maskWidth n.mask) <;> cases m'.key.getMsbD (maskWidth n.mask) <;>
          cases key'.getMsbD (maskWidth n.mask) <;> simp

end Trie

end GemDroid

import GemDroid.Base.TrieChanges

/-! Removing an entry from a trie leaves the others as they are. -/

namespace GemDroid

open BitPrefix LinkedTree Outcome

namespace Trie

variable {w : Nat} {Value : Type} {t : Trie w Value} {h p c : Nat}
  {n pn cn : TrieNode w Value} {i : Fin 2}

theorem replaceKid_ok (linked : pn.kids i = some h) (once : i = 1 → pn.kids 0 ≠ some h)
    (other : Option Nat) : replaceKid pn h other = .ok (pn.setKid i other) := by
  match i with
  | 0 => rw [replaceKid, if_pos linked]
  | 1 => rw [replaceKid, if_neg (once rfl), if_pos linked]

theorem closeGap_of_first (first : (n.kids 0).isSome) : closeGap n = n := by
  have there : (n.kids 0).isNone = false := by
    rw [← Option.not_isSome, first]
    rfl
  rw [closeGap, there, Bool.and_false, if_neg Bool.false_ne_true]

/-- A node with one kid is replaced by it, if the node above still has what it needs. -/
theorem removeNode_splice (rounds : Nat) (here : t.nodes h = some n) (single : n.kids 1 = none)
    (only : n.kids 0 = some c) (parent : n.parent = some p) (upper : t.nodes p = some pn)
    (lower : t.nodes c = some cn) (linked : pn.kids i = some h)
    (once : i = 1 → pn.kids 0 ≠ some h) (first : (pn.kids 0).isSome) (other : p ≠ c)
    (stays : pn.value = none → pn.parent.isSome → (pn.kids 1).isSome) :
    t.removeNode (rounds + 1) h = .ok
      (((t.set c { cn with parent := some p }).set p (pn.setKid i (some c))).delete h,
        n.value) := by
  have adopts : t.adopt (n.kids 0) p = .ok (t.set c { cn with parent := some p }) := by
    rw [only, adopt, setParent, node_ok lower]
    rfl
  have reads : (t.set c { cn with parent := some p }).node p = .ok pn :=
    node_ok (by rw [set_nodes, if_neg other, upper])
  have first' : ((pn.setKid i (some c)).kids 0).isSome := by
    rw [TrieNode.setKid_kids]
    split
    case isTrue => rfl
    case isFalse => exact first
  have keeps : (((pn.setKid i (some c)).kids 1).isNone && (pn.setKid i (some c)).value.isNone &&
      (pn.setKid i (some c)).parent.isSome) = false := by
    rw [Bool.eq_false_iff]
    intro empties
    simp only [Bool.and_eq_true, Option.isNone_iff_eq_none, TrieNode.setKid_kids,
      TrieNode.setKid_value, TrieNode.setKid_parent] at empties
    obtain ⟨⟨lone, bare⟩, up⟩ := empties
    have second := stays bare up
    split at lone
    case isTrue => cases lone
    case isFalse =>
      rw [lone] at second
      cases second
  rw [removeNode, node_ok here]
  show (if (n.kids 1).isSome then _ else _) = _
  rw [single, if_neg (by simp), parent]
  show (t.adopt (n.kids 0) p >>= _) = _
  rw [adopts]
  show (node _ p >>= _) = _
  rw [reads]
  show (replaceKid pn h (n.kids 0) >>= _) = _
  rw [only, replaceKid_ok linked once]
  show (if _ then _ else _) = _
  rw [closeGap_of_first first', keeps]
  rfl

theorem closeGap_same (n : TrieNode w Value) : label (closeGap n) = label n ∧
    (closeGap n).value = n.value ∧ (closeGap n).parent = n.parent := by
  unfold closeGap
  split
  · exact ⟨rfl, rfl, rfl⟩
  · exact ⟨rfl, rfl, rfl⟩

theorem closeGap_kids (first : (pn.kids 0).isSome) (j : Fin 2) :
    (closeGap (pn.setKid i none)).kids j =
      if j = 0 then if i = 0 then pn.kids 1 else pn.kids 0 else none := by
  have there : (pn.kids 0).isNone = false := by
    rw [← Option.not_isSome, first]
    rfl
  unfold closeGap
  match i with
  | 0 =>
    cases second : pn.kids 1 with
    | none => match j with
      | 0 => simp [second]
      | 1 => simp [second]
    | some k => match j with
      | 0 => simp [second]
      | 1 => simp [second]
  | 1 => match j with
    | 0 => simp
    | 1 => simp

theorem removeNode_leaf (rounds : Nat) (here : t.nodes h = some n) (leaf : ∀ j, n.kids j = none)
    (parent : n.parent = some p) (upper : t.nodes p = some pn) (linked : pn.kids i = some h)
    (once : i = 1 → pn.kids 0 ≠ some h) (first : (pn.kids 0).isSome) :
    t.removeNode (rounds + 1) h =
      if pn.value.isNone && pn.parent.isSome then do
        let (t, _) ← (t.set p (closeGap (pn.setKid i none))).removeNode rounds p
        .ok (t.delete h, n.value)
      else .ok ((t.set p (closeGap (pn.setKid i none))).delete h, n.value) := by
  obtain ⟨-, value, up⟩ := closeGap_same (pn.setKid i none)
  have second : (closeGap (pn.setKid i none)).kids 1 = none := closeGap_kids first 1
  rw [removeNode, node_ok here]
  show (if (n.kids 1).isSome then _ else _) = _
  rw [leaf 1, if_neg (by simp), parent]
  show (t.adopt (n.kids 0) p >>= _) = _
  rw [leaf 0]
  show (t.node p >>= _) = _
  rw [node_ok upper]
  show (replaceKid pn h none >>= _) = _
  rw [replaceKid_ok linked once]
  show (if _ then _ else _) = _
  rw [second, value, up]
  rfl

/-- An entry is removed: the others stay, and the nodes are still a tree. -/
structure Removed (t : Trie w Value) (h : Nat) (t' : Trie w Value) : Prop where
  sound : Sound t' Nowhere
  entries : ∀ b, t'.entry b = if b = h then none else t.entry b

/-- A node is linked to its parent, which is above it. -/
theorem Sound.parent {loose : Nat → Prop} (sound : Sound t loose) (here : t.nodes h = some n)
    (below : h ≠ head) : ∃ p pn i, n.parent = some p ∧ t.nodes p = some pn ∧
      pn.kids i = some h ∧ p ≠ h ∧ (i = 1 → pn.kids 0 ≠ some h) ∧ (pn.kids 0).isSome := by
  have place : (links t.nodes).label h = some (label n) := by simp [here]
  obtain ⟨p, up⟩ := Option.isSome_iff_exists.mp
    (sound.tree.placed (Option.isSome_iff_exists.mpr ⟨_, place⟩) below)
  obtain ⟨i, edge⟩ := sound.tree.climbs up
  obtain ⟨-, x, y, upper, -, -⟩ := sound.tree.kid edge
  simp only [links_label, Option.map_eq_some_iff] at upper
  obtain ⟨pn, upper, -⟩ := upper
  have linked : pn.kids i = some h := by simpa [upper] using edge
  obtain ⟨n', here', -, longer, -⟩ := sound.kid upper linked
  rw [here] at here'
  cases here'
  refine ⟨p, pn, i, by simpa [here] using up, upper, linked, ?_, ?_, ?_⟩
  · rintro rfl
    rw [here] at upper
    cases upper
    exact absurd longer (Nat.lt_irrefl _)
  · rintro rfl twice
    have edge' : (links t.nodes).kids p 0 = some h := by simp [upper, twice]
    have same : (0 : Fin 2) = 1 := sound.tree.kids_inj edge' edge
    cases same
  · rw [Option.isSome_iff_ne_none]
    intro vacant
    have single : (links t.nodes).kids p 1 = none :=
      sound.tree.first (by simp [upper, vacant])
    match i with
    | 0 =>
      rw [vacant] at linked
      cases linked
    | 1 =>
      rw [edge] at single
      cases single

theorem Sound.two_kids (sound : Sound t Nowhere) (here : t.nodes h = some n)
    (bare : n.value = none) (up : n.parent.isSome) : (n.kids 0).isSome ∧ (n.kids 1).isSome := by
  have below : h ≠ head := by
    rintro rfl
    have top := sound.tree.topmost
    simp only [links_parent, here, Option.bind_some] at top
    rw [top] at up
    cases up
  have second := sound.full h n here below id bare
  refine ⟨?_, second⟩
  rw [Option.isSome_iff_ne_none]
  intro vacant
  have single : (links t.nodes).kids h 1 = none := sound.tree.first (by simp [here, vacant])
  have none' : n.kids 1 = none := by simpa [here] using single
  rw [none'] at second
  cases second

theorem entries_of_same {t' : Trie w Value} (gone : t'.entry h = none)
    (same : ∀ b, b ≠ h → t'.nodes b = t.nodes b ∨
      (∃ m m', t.nodes b = some m ∧ t'.nodes b = some m' ∧ label m' = label m ∧
        m'.value = m.value) ∨ t.entry b = none ∧ t'.entry b = none) (b : Nat) :
    t'.entry b = if b = h then none else t.entry b := by
  by_cases at_ : b = h
  · rw [if_pos at_, at_, gone]
  · rw [if_neg at_]
    rcases same b at_ with equal | ⟨m, m', before, after, labels, values⟩ | ⟨before, after⟩
    · rw [entry, entry, equal]
    · rw [entry, entry, before, after]
      show m'.value.map _ = m.value.map _
      rw [labels, values]
    · rw [before, after]

theorem entry_none {t' : Trie w Value} {b : Nat} (gone : t'.nodes b = none) :
    t'.entry b = none := by
  rw [entry, gone]
  rfl

/-- A node with one kid is removed. -/
theorem Sound.remove_splice (sound : Sound t Nowhere) (rounds : Nat) (here : t.nodes h = some n)
    (below : h ≠ head) (single : n.kids 1 = none) (only : n.kids 0 = some c) :
    Ends Never (t.removeNode (rounds + 1) h) fun (t', val) => val = n.value ∧ Removed t h t' := by
  obtain ⟨p, pn, i, parent, upper, linked, apart, once, first⟩ := sound.parent here below
  obtain ⟨cn, lower, -, longer', -⟩ := sound.kid here only
  obtain ⟨n', here', -, longer, -⟩ := sound.kid upper linked
  rw [here] at here'
  cases here'
  have other : p ≠ c := by
    rintro rfl
    rw [upper] at lower
    cases lower
    omega
  rw [removeNode_splice rounds here single only parent upper lower linked once first other
    fun bare up => (sound.two_kids upper bare up).2]
  have nodes : ∀ b, (((t.set c { cn with parent := some p }).set p
      (pn.setKid i (some c))).delete h).nodes b = if b = h then none
        else if b = p then some (pn.setKid i (some c))
        else if b = c then some { cn with parent := some p } else t.nodes b := by
    intro b
    rw [delete_nodes, set_nodes, set_nodes]
  refine ⟨rfl, sound.splice here upper lower linked only single nodes rfl fun _ => False.elim, ?_⟩
  apply entries_of_same (entry_none ((nodes h).trans (if_pos rfl)))
  intro b at_
  rw [nodes, if_neg at_]
  by_cases up : b = p
  · rw [if_pos up]
    exact .inr (.inl ⟨pn, _, up ▸ upper, rfl, rfl, rfl⟩)
  · rw [if_neg up]
    by_cases down : b = c
    · rw [if_pos down]
      exact .inr (.inl ⟨cn, _, down ▸ lower, rfl, rfl, rfl⟩)
    · rw [if_neg down]
      exact .inl rfl

/-- A node without kids is removed, with its parent if nothing but a kid is left of that. -/
theorem Sound.remove_leaf (sound : Sound t Nowhere) (rounds : Nat) (here : t.nodes h = some n)
    (below : h ≠ head) (leaf : ∀ j, n.kids j = none) :
    Ends Never (t.removeNode (rounds + 1 + 1) h) fun (t', val) =>
      val = n.value ∧ Removed t h t' := by
  obtain ⟨p, pn, i, parent, upper, linked, apart, once, first⟩ := sound.parent here below
  obtain ⟨label', value', parent'⟩ := closeGap_same (pn.setKid i none)
  rw [removeNode_leaf (rounds + 1) here leaf parent upper linked once first]
  have kids := @closeGap_kids w Value pn i first
  have linked' : pn.kids 0 = some h ∧ (if i = 0 then pn.kids 1 else pn.kids 0) = pn.kids 1 ∨
      pn.kids 1 = some h ∧ (if i = 0 then pn.kids 1 else pn.kids 0) = pn.kids 0 := by
    match i with
    | 0 => exact .inl ⟨linked, rfl⟩
    | 1 => exact .inr ⟨linked, rfl⟩
  generalize closeGap (pn.setKid i none) = pn' at label' value' parent' kids
  -- Without the leaf all is in order but perhaps the parent.
  let t₁ := (t.set p pn').delete h
  have nodes : ∀ b, t₁.nodes b = if b = h then none else if b = p then some pn' else t.nodes b := by
    intro b
    rw [delete_nodes, set_nodes]
  obtain ⟨n', here', -, longer, -⟩ := sound.kid upper linked
  rw [here] at here'
  cases here'
  by_cases empties : (pn.value.isNone && pn.parent.isSome) = true
  · rw [if_pos empties]
    rw [Bool.and_eq_true, Option.isNone_iff_eq_none] at empties
    obtain ⟨bare, up⟩ := empties
    -- The parent has one kid left, which takes its place below the grandparent.
    obtain ⟨zero, one⟩ := sound.two_kids upper bare up
    have unrooted : p ≠ head := by
      rintro rfl
      have top := sound.tree.topmost
      simp only [links_parent, upper, Option.bind_some] at top
      rw [top] at up
      cases up
    obtain ⟨g, gn, j, grand, above, linked'', apart', once', first'⟩ :=
      sound.parent upper unrooted
    obtain ⟨s, sibling⟩ : ∃ s, (if i = 0 then pn.kids 1 else pn.kids 0) = some s := by
      split
      · exact Option.isSome_iff_exists.mp one
      · exact Option.isSome_iff_exists.mp zero
    obtain ⟨i', linked₁, differs⟩ : ∃ i', pn.kids i' = some s ∧ s ≠ h := by
      have edge : ∀ j k, pn.kids j = some k → (links t.nodes).kids p j = some k := by
        intro j k edge
        simp [upper, edge]
      rcases linked' with ⟨zero', same⟩ | ⟨one', same⟩
      · rw [same] at sibling
        refine ⟨1, sibling, ?_⟩
        rintro rfl
        have twice := sound.tree.kids_inj (edge 0 s zero') (edge 1 s sibling)
        cases twice
      · rw [same] at sibling
        refine ⟨0, sibling, ?_⟩
        rintro rfl
        have twice := sound.tree.kids_inj (edge 0 s sibling) (edge 1 s one')
        cases twice
    obtain ⟨sn, lower, -, longer', -⟩ := sound.kid upper linked₁
    obtain ⟨pn'', upper'', -, longer'', -⟩ := sound.kid above linked''
    rw [upper] at upper''
    cases upper''
    have apart₁ : g ≠ h := by
      rintro rfl
      rw [here] at above
      cases above
      omega
    have apart₂ : g ≠ s := by
      rintro rfl
      rw [above] at lower
      cases lower
      omega
    have apart₃ : s ≠ p := by
      rintro rfl
      rw [upper] at lower
      cases lower
      exact absurd longer' (Nat.lt_irrefl _)
    have spliced := removeNode_splice rounds (t := t.set p pn') (h := p) (c := s)
      (by rw [set_nodes, if_pos rfl] : _ = some pn') (kids 1) ((kids 0).trans sibling)
      (parent'.trans grand) (by rw [set_nodes, if_neg apart', above] : _ = some gn)
      (by rw [set_nodes, if_neg apart₃, lower] : _ = some sn) linked'' once' first' apart₂
      fun bare up => (sound.two_kids above bare up).2
    rw [spliced]
    have middle : Sound t₁ (· = p) :=
      sound.detach here upper linked' leaf nodes rfl label' parent' kids (fun _ => False.elim)
        fun _ _ => rfl
    have final : ∀ b, (((((t.set p pn').set s { sn with parent := some g }).set g
        (gn.setKid j (some s))).delete p).delete h).nodes b = if b = p then none
          else if b = g then some (gn.setKid j (some s))
          else if b = s then some { sn with parent := some g } else t₁.nodes b := by
      intro b
      simp only [delete_nodes, set_nodes, nodes]
      grind
    have place : ∀ b m, b ≠ h → b ≠ p → t.nodes b = some m → t₁.nodes b = some m := by
      intro b m other other' there
      rw [nodes, if_neg other, if_neg other', there]
    have last : Sound ((((((t.set p pn').set s { sn with parent := some g }).set g
        (gn.setKid j (some s))).delete p).delete h)) Nowhere :=
      middle.splice (by rw [nodes, if_neg apart, if_pos rfl]) (place g gn apart₁ apart' above)
        (place s sn differs apart₃ lower) linked'' ((kids 0).trans sibling) (kids 1) final rfl
        fun b loose other => absurd loose other
    refine ⟨rfl, last, ?_⟩
    apply entries_of_same
    · apply entry_none
      rw [delete_nodes, if_pos rfl]
    · intro b at_
      rw [final]
      by_cases gone : b = p
      · rw [if_pos gone]
        refine .inr (.inr ⟨?_, ?_⟩)
        · rw [gone, entry, upper]
          show pn.value.map _ = none
          rw [bare]
          rfl
        · exact entry_none ((final b).trans (if_pos gone))
      · rw [if_neg gone]
        by_cases upper' : b = g
        · rw [if_pos upper']
          exact .inr (.inl ⟨gn, _, upper' ▸ above, rfl, rfl, rfl⟩)
        · rw [if_neg upper']
          by_cases down : b = s
          · rw [if_pos down]
            exact .inr (.inl ⟨sn, _, down ▸ lower, rfl, rfl, rfl⟩)
          · rw [if_neg down, nodes, if_neg at_, if_neg gone]
            exact .inl rfl
  · rw [if_neg empties]
    have filled : p ≠ head → pn'.value = none → Nowhere p := by
      intro unrooted bare
      obtain ⟨g, gn, j, grand, -⟩ := sound.parent upper unrooted
      have bare' : pn.value = none := value'.symm.trans bare
      apply empties
      rw [bare', grand]
      rfl
    refine ⟨rfl, sound.detach here upper linked' leaf nodes rfl label' parent' kids
      (fun _ => False.elim) filled, ?_⟩
    apply entries_of_same (entry_none ((nodes h).trans (if_pos rfl)))
    intro b at_
    show t₁.nodes b = _ ∨ _
    rw [nodes, if_neg at_]
    by_cases up : b = p
    · rw [if_pos up]
      exact .inr (.inl ⟨pn, pn', up ▸ upper, rfl, label', value'⟩)
    · rw [if_neg up]
      exact .inl rfl

/-- An entry is removed by its handle, and nothing else changes. -/
theorem Sound.remove {x : Label w} {v : Value} (sound : Sound t Nowhere)
    (entered : t.entry h = some (x, v)) (wide : 0 < maskWidth x.mask) :
    Ends Never (t.remove h) fun (t', val) => val = some v ∧ Removed t h t' := by
  obtain ⟨n, here, value⟩ : ∃ n, t.nodes h = some n ∧
      n.value.map (fun v => (label n, v)) = some (x, v) := by
    rw [entry, Option.bind_eq_some_iff] at entered
    exact entered
  obtain ⟨v', valued, same⟩ := Option.map_eq_some_iff.mp value
  cases same
  have below : h ≠ head := by
    rintro rfl
    have zero := sound.rootWidth n here
    have positive : 0 < maskWidth n.mask := wide
    omega
  obtain ⟨rounds, bits⟩ : ∃ rounds, w = rounds + 1 := by
    have most := maskWidth_le (label n).mask
    exact ⟨w - 1, by omega⟩
  unfold Trie.remove
  rw [← valued]
  cases second : n.kids 1 with
  | some k =>
    -- A node with two kids only loses its value.
    rw [removeNode, node_ok here]
    show Ends Never (if (n.kids 1).isSome then (if n.value.isNone then _ else _) else _) _
    rw [second, valued, if_pos Option.isSome_some, if_neg (by simp)]
    refine ⟨rfl, ?_, ?_⟩
    · exact sound.setValue here none (fun b => set_nodes ..) rfl (fun _ => False.elim)
        fun _ _ _ => by rw [second]; rfl
    · apply entries_of_same
      · rw [entry, set_nodes, if_pos rfl]
        rfl
      · intro b at_
        rw [set_nodes, if_neg at_]
        exact .inl rfl
  | none =>
    cases first : n.kids 0 with
    | some c => exact sound.remove_splice w here below second first
    | none =>
      have leaf : ∀ j, n.kids j = none := by
        rw [Fin.forall_fin_two]
        exact ⟨first, second⟩
      have removes := sound.remove_leaf rounds here below leaf
      rwa [← bits] at removes

end Trie

end GemDroid

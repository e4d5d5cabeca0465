import Mathlib.Data.Fin.Basic
import Mathlib.Logic.Function.Basic
import Mathlib.Logic.Relation

/-! Binary trees of linked places, whose labels get longer from a place to its kids. -/

namespace LinkedTree

/-- Labels that extend each other, and that part from each other beyond a common beginning. -/
class Branching (L : Type*) where
  /-- The second label properly extends the first. -/
  below : L → L → Prop
  /-- The two labels part right after the first one. -/
  apart : (first second third : L) → Prop
  length : L → Nat
  below_trans : ∀ {x y z}, below x y → below y z → below x z
  length_lt : ∀ {x y}, below x y → length x < length y
  apart_symm : ∀ {x y z}, apart x y z → apart x z y
  apart_irrefl : ∀ {x y}, ¬apart x y y
  /-- Where two labels part is not changed by what comes later. -/
  apart_iff : ∀ {x y z s}, below x y → below y z → (apart x y s ↔ apart x z s)

open Branching

variable {α L : Type*}

/-- Places with labels, each linked to its parent and to its first and second kid. -/
@[ext] structure Links (α L : Type*) where
  label : α → Option L
  parent : α → Option α
  kids : α → Fin 2 → Option α

/-- The links form a tree below the root, in which an only kid is the first one. -/
structure Tree [Branching L] (links : Links α L) (root : α) : Prop where
  rooted : (links.label root).isSome
  topmost : links.parent root = none
  kid : ∀ {a i k}, links.kids a i = some k → links.parent k = some a ∧
    ∃ x y, links.label a = some x ∧ links.label k = some y ∧ below x y
  climbs : ∀ {a k}, links.parent k = some a → ∃ i, links.kids a i = some k
  placed : ∀ {k}, (links.label k).isSome → k ≠ root → (links.parent k).isSome
  split : ∀ {a k k' x y y'}, links.kids a 0 = some k → links.kids a 1 = some k' →
    links.label a = some x → links.label k = some y → links.label k' = some y' → apart x y y'
  first : ∀ {a}, links.kids a 0 = none → links.kids a 1 = none

namespace Links

variable [DecidableEq α] (links : Links α L)

/-- A new place becomes a kid. -/
@[simps] def attach (a : α) (i : Fin 2) (f : α) (y : L) : Links α L where
  label b := if b = f then some y else links.label b
  parent b := if b = f then some a else links.parent b
  kids b j := if b = a ∧ j = i then some f else links.kids b j

/-- A new place comes between a place and its kid. -/
@[simps label parent] def interpose (a : α) (i : Fin 2) (k f : α) (y : L) : Links α L where
  label b := if b = f then some y else links.label b
  parent b := if b = k then some f else if b = f then some a else links.parent b
  kids b j :=
    if b = f then if j = ⟨0, Nat.two_pos⟩ then some k else none
    else if b = a ∧ j = i then some f else links.kids b j

@[simp] theorem interpose_kids (a : α) (i : Fin 2) (k f : α) (y : L) (b : α) (j : Fin 2) :
    (links.interpose a i k f y).kids b j =
      if b = f then if j = 0 then some k else none
      else if b = a ∧ j = i then some f else links.kids b j :=
  rfl

/-- A place without kids is taken away, and the other kid of its parent comes first. -/
@[simps label parent] def detach (p h : α) (other : Option α) : Links α L where
  label b := if b = h then none else links.label b
  parent b := if b = h then none else links.parent b
  kids b j := if b = p then if j = ⟨0, Nat.two_pos⟩ then other else none else links.kids b j

@[simp] theorem detach_kids (p h : α) (other : Option α) (b : α) (j : Fin 2) :
    (links.detach p h other).kids b j =
      if b = p then if j = 0 then other else none else links.kids b j :=
  rfl

/-- A place with one kid is taken away, and the kid takes its place. -/
@[simps] def splice (p : α) (i : Fin 2) (h c : α) : Links α L where
  label b := if b = h then none else links.label b
  parent b := if b = c then some p else if b = h then none else links.parent b
  kids b j := if b = h then none else if b = p ∧ j = i then some c else links.kids b j

attribute [grind =] attach_label attach_parent attach_kids interpose_label interpose_parent
  interpose_kids detach_label detach_parent detach_kids splice_label splice_parent splice_kids

end Links

namespace Tree

variable [Branching L] {links : Links α L} {root a f k : α} {x y z : L}
  {i : Fin 2}

/-- A place without a label has no kids. -/
theorem childless (tree : Tree links root) (free : links.label a = none) (i : Fin 2) :
    links.kids a i = none := by
  cases kid : links.kids a i with
  | none => rfl
  | some k =>
    obtain ⟨-, x, -, labelled, -⟩ := tree.kid kid
    rw [free] at labelled
    cases labelled

/-- A place without a label has no parent. -/
theorem parentless (tree : Tree links root) (free : links.label a = none) :
    links.parent a = none := by
  cases parent : links.parent a with
  | none => rfl
  | some p =>
    obtain ⟨i, kid⟩ := tree.climbs parent
    obtain ⟨-, -, y, -, labelled, -⟩ := tree.kid kid
    rw [free] at labelled
    cases labelled

/-- A place without a label is no kid. -/
theorem not_kid (tree : Tree links root) (free : links.label k = none) (a : α) (i : Fin 2) :
    links.kids a i ≠ some k := by
  intro kid
  obtain ⟨-, -, y, -, labelled, -⟩ := tree.kid kid
  rw [free] at labelled
  cases labelled

/-- The two kids of a place are different. -/
theorem kids_inj (tree : Tree links root) {j : Fin 2} (one : links.kids a i = some k)
    (two : links.kids a j = some k) : i = j := by
  obtain ⟨-, x, y, here, there, -⟩ := tree.kid one
  -- Kids in different places part from each other.
  have apart' : ∀ {k' : α}, links.kids a 0 = some k → links.kids a 1 = some k' → k' ≠ k := by
    rintro k' first second rfl
    exact apart_irrefl (tree.split first second here there there)
  match i, j with
  | 0, 0 => rfl
  | 1, 1 => rfl
  | 0, 1 => exact absurd rfl (apart' one two)
  | 1, 0 => exact absurd rfl (apart' two one)

/-- Kids in different places part, whichever of them is named first. -/
theorem parts (tree : Tree links root) {j : Fin 2} {k' : α} {y' : L} (other : i ≠ j)
    (one : links.kids a i = some k) (two : links.kids a j = some k')
    (here : links.label a = some x) (there : links.label k = some y)
    (there' : links.label k' = some y') : apart x y y' := by
  match i, j with
  | 0, 0 => exact absurd rfl other
  | 1, 1 => exact absurd rfl other
  | 0, 1 => exact tree.split one two here there there'
  | 1, 0 => exact apart_symm (tree.split two one here there' there)

variable [DecidableEq α]

/-- A new place under a place that has a free one for it keeps the tree. -/
theorem attach (tree : Tree links root) (free : links.label f = none)
    (here : links.label a = some x) (extends' : below x y)
    (place : links.kids a 0 = none ∧ i = 0 ∨
      i = 1 ∧ links.kids a 1 = none ∧ ∃ k z, links.kids a 0 = some k ∧
        links.label k = some z ∧ apart x z y) :
    Tree (links.attach a i f y) root := by
  have other : a ≠ f := by
    rintro rfl
    rw [free] at here
    cases here
  have orphan := tree.parentless free
  have childless := tree.childless free
  have unlinked := tree.not_kid free
  have vacant : links.kids a i = none := by
    have := @tree.first a
    grind
  constructor
  · grind [tree.rooted]
  · grind [tree.topmost, tree.rooted]
  · -- The kid is the new place, or was one before.
    intro b j k linked
    rw [Links.attach_kids] at linked
    split at linked
    case isTrue new => grind
    case isFalse =>
      have old := tree.kid linked
      grind
  · intro b k parent
    rw [Links.attach_parent] at parent
    split at parent
    case isTrue => exact ⟨i, by grind⟩
    case isFalse =>
      obtain ⟨j, linked⟩ := tree.climbs parent
      exact ⟨j, by grind⟩
  · grind [tree.placed]
  · intro b c c' u v v' one two
    have split := @tree.split b c c' u v v'
    have symm := @apart_symm L _
    have lone := @tree.first a
    grind
  · grind [tree.first]

/-- A new place between a place and its kid keeps the tree. -/
theorem interpose (tree : Tree links root) (free : links.label f = none)
    (here : links.label a = some x) (kid : links.kids a i = some k)
    (there : links.label k = some z) (upper : below x y) (lower : below y z) :
    Tree (links.interpose a i k f y) root := by
  have other : a ≠ f := by
    rintro rfl
    rw [free] at here
    cases here
  have orphan := tree.parentless free
  have childless := tree.childless free
  have unlinked := tree.not_kid free
  have parent := (tree.kid kid).1
  have single : ∀ j, links.kids a j = some k → i = j := fun j => tree.kids_inj kid
  constructor
  · grind [tree.rooted]
  · grind [tree.topmost, tree.rooted]
  · intro b j c linked
    rw [Links.interpose_kids] at linked
    split at linked
    case isTrue => grind
    case isFalse =>
      split at linked
      case isTrue => grind
      case isFalse =>
        have old := tree.kid linked
        grind
  · intro b c up
    rw [Links.interpose_parent] at up
    split at up
    case isTrue => exact ⟨0, by grind⟩
    case isFalse =>
      split at up
      case isTrue => exact ⟨i, by grind⟩
      case isFalse =>
        obtain ⟨j, linked⟩ := tree.climbs up
        exact ⟨j, by grind⟩
  · grind [tree.placed]
  · -- The new place parts from a sibling where its kid did.
    have sibling : ∀ j c v, i ≠ j → links.kids a j = some c → links.label c = some v →
        apart x y v ∧ apart x v y := by
      intro j c v unequal linked labelled
      have apart' := tree.parts unequal kid linked here there labelled
      exact ⟨(apart_iff upper lower).mpr apart', apart_symm ((apart_iff upper lower).mpr apart')⟩
    intro b c c' u v v' one two
    have split := @tree.split b c c' u v v'
    have first := sibling 0 c v
    have second := sibling 1 c' v'
    grind
  · grind [tree.first]

/-- A place without kids can be taken away. -/
theorem detach {p h : α} {other : Option α} (tree : Tree links root)
    (kids : links.kids p 0 = some h ∧ other = links.kids p 1 ∨
      links.kids p 1 = some h ∧ other = links.kids p 0)
    (leaf : ∀ i, links.kids h i = none) : Tree (links.detach p h other) root := by
  obtain ⟨i, kid⟩ : ∃ i, links.kids p i = some h := by
    cases kids with
    | inl first => exact ⟨0, first.1⟩
    | inr second => exact ⟨1, second.1⟩
  obtain ⟨parent, x, y, upper, lower, extends'⟩ := tree.kid kid
  have other' : p ≠ h := by
    rintro rfl
    rw [leaf] at kid
    cases kid
  have unrooted : h ≠ root := by
    rintro rfl
    rw [tree.topmost] at parent
    cases parent
  have single : ∀ j, links.kids p j = some h → i = j := fun j => tree.kids_inj kid
  -- Nobody else has the place for a kid.
  have once : ∀ b j, links.kids b j = some h → b = p := by
    intro b j linked
    have up := (tree.kid linked).1
    rw [parent] at up
    exact (Option.some.inj up).symm
  constructor
  · grind [tree.rooted]
  · grind [tree.topmost]
  · intro b j c linked
    rw [Links.detach_kids] at linked
    have old := fun j => @tree.kid b j c
    grind
  · intro b c up
    rw [Links.detach_parent] at up
    split at up
    case isTrue => cases up
    case isFalse =>
      obtain ⟨j, linked⟩ := tree.climbs up
      by_cases here : b = p
      · exact ⟨0, by grind⟩
      · exact ⟨j, by grind⟩
  · grind [tree.placed]
  · intro b c c' u v v' one two
    have split := @tree.split b c c' u v v'
    grind
  · grind [tree.first]

/-- A place with one kid can be taken away. -/
theorem splice {p h c : α} (tree : Tree links root) (kid : links.kids p i = some h)
    (only : links.kids h 0 = some c) (single : links.kids h 1 = none) :
    Tree (links.splice p i h c) root := by
  obtain ⟨parent, x, y, upper, lower, extends'⟩ := tree.kid kid
  obtain ⟨parent', y', z, lower', lowest, extends''⟩ := tree.kid only
  have same : y' = y := Option.some.inj (lower'.symm.trans lower)
  subst same
  have through : below x z := below_trans extends' extends''
  have unrooted : h ≠ root := by
    rintro rfl
    rw [tree.topmost] at parent
    cases parent
  have ordered := @length_lt L _
  have other' : p ≠ h := by
    rintro rfl
    have same := Option.some.inj (upper.symm.trans lower)
    subst same
    exact absurd (ordered extends') (Nat.lt_irrefl _)
  have other'' : c ≠ h := by
    rintro rfl
    have same := Option.some.inj (lowest.symm.trans lower)
    subst same
    exact absurd (ordered extends'') (Nat.lt_irrefl _)
  have place : ∀ j, links.kids p j = some h → i = j := fun j => tree.kids_inj kid
  have once : ∀ b j, links.kids b j = some h → b = p := by
    intro b j linked
    have up := (tree.kid linked).1
    rw [parent] at up
    exact (Option.some.inj up).symm
  have once' : ∀ b j, links.kids b j = some c → b = h := by
    intro b j linked
    have up := (tree.kid linked).1
    rw [parent'] at up
    exact (Option.some.inj up).symm
  constructor
  · grind [tree.rooted]
  · grind [tree.topmost]
  · intro b j d linked
    rw [Links.splice_kids] at linked
    have old := @tree.kid b j d
    grind
  · intro b d up
    rw [Links.splice_parent] at up
    split at up
    case isTrue => exact ⟨i, by grind⟩
    case isFalse =>
      split at up
      case isTrue => cases up
      case isFalse =>
        obtain ⟨j, linked⟩ := tree.climbs up
        have fork : j = 0 ∨ j = 1 := by omega
        exact ⟨j, by grind⟩
  · grind [tree.placed]
  · -- The kid parts from its new sibling where its parent did.
    have sibling : ∀ j d v, i ≠ j → links.kids p j = some d → links.label d = some v →
        apart x z v ∧ apart x v z := by
      intro j d v unequal linked labelled
      have apart' := tree.parts unequal kid linked upper lower labelled
      have moved := (apart_iff extends' extends'').mp apart'
      exact ⟨moved, apart_symm moved⟩
    intro b d d' u v v' one two
    have split := @tree.split b d d' u v v'
    have first := sibling 0 d v
    have second := sibling 1 d' v'
    grind
  · grind [tree.first]

end Tree

/-- One place is the other or is reached from it by going to kids. -/
def Above (links : Links α L) : α → α → Prop :=
  Relation.ReflTransGen fun a k => ∃ i, links.kids a i = some k

/-- A place that is not the one above leads down through a kid. -/
theorem Above.through_kid {links : Links α L} {a b : α} (above : Above links a b)
    (different : a ≠ b) : ∃ i k, links.kids a i = some k ∧ Above links k b := by
  rcases Relation.ReflTransGen.cases_head above with same | ⟨k, ⟨i, kid⟩, rest⟩
  · exact absurd same different
  · exact ⟨i, k, kid, rest⟩

namespace Tree

variable [Branching L] {links : Links α L} {root a b k k' : α} {x y : L} {i j : Fin 2}

/-- Every place with a label is below the root. -/
theorem root_above (tree : Tree links root) (here : links.label a = some x) :
    Above links root a := by
  -- The induction is on the length of the label, which is less at the parent.
  induction n : length x using Nat.strong_induction_on generalizing a x with
  | _ n shorter =>
    subst n
    by_cases top : a = root
    · rw [top]
      exact .refl
    · obtain ⟨p, parent⟩ := Option.isSome_iff_exists.mp
        (tree.placed (Option.isSome_iff_exists.mpr ⟨x, here⟩) top)
      obtain ⟨i, kid⟩ := tree.climbs parent
      obtain ⟨-, y, z, upper, lower, extends'⟩ := tree.kid kid
      rw [here] at lower
      cases lower
      exact (shorter _ (length_lt extends') upper rfl).tail ⟨i, kid⟩

/-- The label of a place extends those of the places above it. -/
theorem below_of_above (tree : Tree links root) (above : Above links a b)
    (here : links.label a = some x) (there : links.label b = some y) :
    a = b ∨ below x y := by
  -- The induction follows the way down, on which each kid extends what came before.
  induction above generalizing y with
  | refl => exact .inl rfl
  | tail _ linked ih =>
    obtain ⟨i, kid⟩ := linked
    obtain ⟨-, z, z', upper, lower, extends'⟩ := tree.kid kid
    rw [there] at lower
    cases lower
    rcases ih upper with rfl | further
    · rw [here] at upper
      cases upper
      exact .inr extends'
    · exact .inr (below_trans further extends')

/-- What is chosen among labels so that at most one way leads down through chosen ones. -/
structure Path (chosen : L → Prop) : Prop where
  closed : ∀ {x y}, below x y → chosen y → chosen x
  single : ∀ {x y z}, below x y → below x z → apart x y z → chosen y → ¬chosen z

/-- At most one kid of a place is chosen. -/
theorem chosen_kid (tree : Tree links root) {chosen : L → Prop} (path : Path chosen)
    {y' : L} (one : links.kids a i = some k) (two : links.kids a j = some k')
    (there : links.label k = some y) (there' : links.label k' = some y')
    (first : chosen y) (second : chosen y') : k = k' := by
  by_cases same : i = j
  · subst same
    exact Option.some.inj (one.symm.trans two)
  · obtain ⟨-, x, z, here, lower, first'⟩ := tree.kid one
    obtain ⟨-, x', z', here', lower', second'⟩ := tree.kid two
    rw [there] at lower
    rw [there'] at lower'
    rw [here] at here'
    cases lower
    cases lower'
    cases here'
    have apart' := tree.parts same one two here there there'
    exact absurd second (path.single first' second' apart' first)

/-- A chosen place below another is the other, or below the kid of it that is chosen. -/
theorem above_chosen_kid (tree : Tree links root) {chosen : L → Prop} (path : Path chosen)
    (above : Above links a b) (there : links.label b = some y) (picked : chosen y)
    (different : a ≠ b) :
    ∃ i k z, links.kids a i = some k ∧ links.label k = some z ∧ chosen z ∧ Above links k b := by
  obtain ⟨i, k, kid, rest⟩ := above.through_kid different
  obtain ⟨-, x, z, -, lower, -⟩ := tree.kid kid
  refine ⟨i, k, z, kid, lower, ?_, rest⟩
  rcases tree.below_of_above rest lower there with rfl | extends'
  · rw [lower] at there
    cases there
    exact picked
  · exact path.closed extends' picked

end Tree

end LinkedTree

import Mathlib.Data.List.Basic
import GemDroid.Defines
import GemDroid.Lib.BitTree
import GemDroid.Lib.While

/-! The tree-based pseudo-LRU replacement of a cache, whose trees are packed into words. -/

namespace GemDroid

/-- The policy, with one tree for each set. -/
structure PseudoLRUPolicy where
  m_num_sets : Nat
  m_assoc : Nat
  /-- The power of two that the associativity is rounded up to. -/
  m_effective_assoc : Nat
  m_num_levels : Nat
  m_trees : Nat → BitVec 64 := fun _ => 0
  /-- The time of the last access to each way of a set. -/
  m_last_ref_ptr : Nat → Nat → Nat := fun _ _ => 0

namespace PseudoLRUPolicy

/-- The power of two that an associativity is rounded up to (the first loop of the constructor). -/
def effectiveAssoc (assoc : Nat) : Option Nat :=
  While.loop (· < assoc) (fun m_effective_assoc => some (m_effective_assoc <<< 1)) (assoc + 1) 1

/-- How often a number can be halved before it is zero, but for once (the second loop). -/
def numLevels (assoc : Nat) : Option (Nat × Nat) :=
  While.loop (fun s => s.1 / 2 ≠ 0) (fun s => some (s.1 / 2, s.2 + 1)) (assoc + 1) (assoc, 0)

/-- The constructor, whose assertions bound the associativity by what a word has room for. -/
def create (num_sets assoc : Int) : Option PseudoLRUPolicy :=
  if num_sets > 0 ∧ assoc > 1 ∧ assoc ≤ 8 * 4 then
    (effectiveAssoc assoc.toNat).bind fun m_effective_assoc =>
      (numLevels m_effective_assoc).bind fun s =>
        if s.2 < 4 * 4 then
          some {
            -- Both go into an `unsigned`.
            m_num_sets := num_sets.toNat % 2 ^ 32
            m_assoc := assoc.toNat % 2 ^ 32
            m_effective_assoc
            m_num_levels := s.2 }
        else none
  else none

/-- The bit of a node, which is set or cleared with the words of an `int`. -/
def setNode (node_val : Bool) (tree_index : Nat) (tree : BitVec 64) : BitVec 64 :=
  if node_val then tree ||| ((1#32 <<< tree_index).signExtend 64)
  else tree &&& ((~~~(1#32 <<< tree_index)).signExtend 64)

/-- Set the nodes on the way to a way of the set (the loop of `touch`). -/
def touchPath (index : Nat) : (levels : Nat) → (tree_index : Nat) → BitVec 64 → BitVec 64
  | 0, _, tree => tree
  | i + 1, tree_index, tree =>
    let node_val : Bool := (index >>> i) &&& 1 = 1
    touchPath index i (if node_val then tree_index * 2 + 2 else tree_index * 2 + 1)
      (setNode node_val tree_index tree)

def touch (set index time : Nat) (p : PseudoLRUPolicy) : Option PseudoLRUPolicy :=
  if index < p.m_assoc ∧ set < p.m_num_sets then
    some { p with
      m_trees := Function.update p.m_trees set (touchPath index p.m_num_levels 0 (p.m_trees set))
      m_last_ref_ptr := Function.update p.m_last_ref_ptr set
        (Function.update (p.m_last_ref_ptr set) index time) }
  else none

/-- Follow the nodes away from what was touched (the loop of `getVictim`). -/
def victimPath (m_effective_assoc : Nat) (tree : BitVec 64) :
    (levels : Nat) → (i tree_index index : Nat) → Nat
  | 0, _, _, index => index
  | levels + 1, i, tree_index, index =>
    let node_val : Bool := (tree >>> tree_index) &&& 1#64 = 1#64
    victimPath m_effective_assoc tree levels (i + 1)
      (if node_val then tree_index * 2 + 1 else tree_index * 2 + 2)
      (index + if node_val then 0 else m_effective_assoc >>> (i + 1))

/-- The way to replace, at most the last one of the set. -/
def getVictim (set : Nat) (p : PseudoLRUPolicy) : Option Nat :=
  let index := victimPath p.m_effective_assoc (p.m_trees set) p.m_num_levels 0 0 0
  if index < p.m_effective_assoc then
    some (if index > p.m_assoc - 1 then p.m_assoc - 1 else index)
  else none

/-- A touch of a way. -/
structure Touch where
  set : Nat
  way : Nat
  time : Nat

/-- Take a touch. -/
def step (p : PseudoLRUPolicy) (t : Touch) : Option PseudoLRUPolicy :=
  p.touch t.set t.way t.time

/-- The ways that some rounds select, each touching the victim at a time of its own. -/
def rounds (set : Nat) : (times : List Nat) → PseudoLRUPolicy → Option (List Nat)
  | [], _ => some []
  | time :: times, p =>
    (p.getVictim set).bind fun way =>
      (p.touch set way time).bind fun p => (rounds set times p).map (way :: ·)

end PseudoLRUPolicy

end GemDroid

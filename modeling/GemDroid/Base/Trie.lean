import Mathlib.Logic.Function.Basic

/-! A trie of prefixes of keys, as nodes that point to each other. -/

namespace GemDroid

/-- The asserts and panics that the trie can reach, and reading where there is no node. -/
inductive TrieFault where
  | nullNode
  | valueThere
  | valueMissing
  | endOfInsert
  | removeRoot
  | inconsistent
  /-- The walk of the code did not end in as many rounds as there are bits. -/
  | outOfRounds
  deriving DecidableEq

/-- A node: the prefix that it stands for, its value, and its neighbours. -/
structure TrieNode (w : Nat) (Value : Type) where
  key : BitVec w
  mask : BitVec w
  value : Option Value
  parent : Option Nat := none
  kids : Fin 2 → Option Nat := fun _ => none

namespace TrieNode

variable {w : Nat} {Value : Type}

/-- Is the node's prefix a prefix of the key? -/
def matchesKey (node : TrieNode w Value) (test : BitVec w) : Bool :=
  test &&& node.mask == node.key

/-- The node that the constructor makes. -/
def new (key mask : BitVec w) (value : Option Value) : TrieNode w Value where
  key := key &&& mask
  mask := mask
  value := value

/-- The node with another kid in one of its two places. -/
def setKid (node : TrieNode w Value) (i : Fin 2) (kid : Option Nat) : TrieNode w Value :=
  { node with kids := Function.update node.kids i kid }

section setKid

variable (n : TrieNode w Value) (i j : Fin 2) (kid : Option Nat)

@[simp, grind =] theorem setKid_key : (n.setKid i kid).key = n.key := rfl

@[simp, grind =] theorem setKid_mask : (n.setKid i kid).mask = n.mask := rfl

@[simp, grind =] theorem setKid_value : (n.setKid i kid).value = n.value := rfl

@[simp, grind =] theorem setKid_parent : (n.setKid i kid).parent = n.parent := rfl

@[simp, grind =] theorem setKid_kids :
    (n.setKid i kid).kids j = if j = i then kid else n.kids j :=
  Function.update_apply ..

end setKid

end TrieNode

/-- The nodes by their addresses, of which the head has the first, and the next free address. -/
structure Trie (w : Nat) (Value : Type) where
  nodes : Nat → Option (TrieNode w Value)
  next : Nat

namespace Trie

variable {w : Nat} {Value : Type}

/-- The address of the head. -/
def head : Nat := 0

/-- An empty trie. -/
def empty : Trie w Value where
  nodes := Function.update (fun _ => none) head (some (.new 0 0 none))
  next := 1

/-- The node at an address. -/
def node (t : Trie w Value) (address : Nat) : Except TrieFault (TrieNode w Value) :=
  match t.nodes address with
  | some n => .ok n
  | none => .error .nullNode

/-- Writes a node. -/
def set (t : Trie w Value) (address : Nat) (n : TrieNode w Value) : Trie w Value :=
  { t with nodes := Function.update t.nodes address (some n) }

/-- Allocates a node at the next address. -/
def new (t : Trie w Value) (n : TrieNode w Value) : Trie w Value where
  nodes := Function.update t.nodes t.next (some n)
  next := t.next + 1

/-- Frees a node. -/
def delete (t : Trie w Value) (address : Nat) : Trie w Value :=
  { t with nodes := Function.update t.nodes address none }

/-- Points a node to another parent. -/
def setParent (t : Trie w Value) (address parent : Nat) : Except TrieFault (Trie w Value) := do
  let n ← t.node address
  .ok (t.set address { n with parent := some parent })

/-- Is the key beyond the kid? Then it is the node to go on from. -/
def goesAfter (t : Trie w Value) (kid : Option Nat) (key newMask : BitVec w) :
    Except TrieFault (Option Nat) :=
  match kid with
  | none => .ok none
  | some kid => do
    let n ← t.node kid
    if n.matchesKey key && (n.mask &&& newMask == n.mask) then .ok (some kid) else .ok none

/-- Extends a mask by one bit towards the least significant one. -/
def extendMask (orig : BitVec w) : BitVec w :=
  let msb := 1#w <<< (w - 1)
  orig ||| (orig >>> 1) ||| msb

/-- Does the node have a kid that the key is for? -/
def matchingKid (t : Trie w Value) (kid : Option Nat) (key : BitVec w) :
    Except TrieFault (Option Nat) :=
  match kid with
  | none => .ok none
  | some kid => do
    let n ← t.node kid
    if n.matchesKey key then .ok (some kid) else .ok none

/-- The loop of `lookupHandle`, which goes down at most once for every bit. -/
def lookupFrom (t : Trie w Value) (key : BitVec w) :
    (rounds : Nat) → (address : Nat) → Except TrieFault (Option Nat)
  | 0, _ => .error .outOfRounds
  | rounds + 1, address => do
    let n ← t.node address
    if n.value.isSome then .ok (some address)
    else
      match ← t.matchingKid (n.kids 0) key with
      | some kid => t.lookupFrom key rounds kid
      | none =>
        match ← t.matchingKid (n.kids 1) key with
        | some kid => t.lookupFrom key rounds kid
        | none => .ok none

/-- The first node with a value whose prefix matches the key. -/
def lookupHandle (t : Trie w Value) (key : BitVec w) : Except TrieFault (Option Nat) :=
  t.lookupFrom key (w + 1) head

/-- The loop of `insert` that walks past the nodes that the new one comes after. -/
def walk (t : Trie w Value) (key newMask : BitVec w) :
    (rounds : Nat) → (address : Nat) → Except TrieFault Nat
  | 0, _ => .error .outOfRounds
  | rounds + 1, address => do
    let n ← t.node address
    match ← t.goesAfter (n.kids 0) key newMask with
    | some kid => t.walk key newMask rounds kid
    | none =>
      match ← t.goesAfter (n.kids 1) key newMask with
      | some kid => t.walk key newMask rounds kid
      | none => .ok address

/-- The loop of `insert` that walks down a leg bit by bit: the last mask under which it agrees. -/
def walkLeg (key kidKey newMask : BitVec w) :
    (rounds : Nat) → (curMask : BitVec w) → Except TrieFault (BitVec w)
  | 0, _ => .error .outOfRounds
  | rounds + 1, curMask =>
    let lastMask := curMask
    let curMask := extendMask curMask
    let done := key &&& curMask != kidKey &&& curMask || lastMask == newMask
    if done then .ok lastMask else walkLeg key kidKey newMask rounds curMask

/-- The part of `insert` that adds a node at the point that it walked to on a leg. -/
def splitLeg (t : Trie w Value) (address : Nat) (i : Fin 2) (kid : Nat) (key curMask : BitVec w) :
    Except TrieFault (Trie w Value × Nat) := do
  let newNode := t.next
  let m := { TrieNode.new key curMask none with parent := some address }
  let t ← (t.new m).setParent kid newNode
  let t := t.set newNode (m.setKid 0 (some kid))
  let n ← t.node address
  .ok (t.set address (n.setKid i (some newNode)), newNode)

/-- One round of the last loop of `insert`, which returns nothing to go on to the other leg. -/
def insertLeg (t : Trie w Value) (address : Nat) (i : Fin 2) (key newMask : BitVec w)
    (val : Value) : Except TrieFault (Option (Trie w Value × Nat)) := do
  let n ← t.node address
  match n.kids i with
  | none =>
    let leaf := { TrieNode.new key newMask (some val) with parent := some address }
    .ok (some ((t.new leaf).set address (n.setKid i (some t.next)), t.next))
  | some kid =>
    let k ← t.node kid
    let curMask ← walkLeg key k.key newMask (w + 1) n.mask
    -- A leg that is skipped leaves the mask of the walk where it was.
    if curMask = n.mask then .ok none
    else
      let (t, newNode) ← t.splitLeg address i kid key curMask
      let m ← t.node newNode
      if curMask = newMask then
        .ok (some (t.set newNode { m with value := some val }, newNode))
      else
        let leaf := { TrieNode.new key newMask (some val) with parent := some newNode }
        .ok (some ((t.new leaf).set newNode (m.setKid 1 (some t.next)), t.next))

/-- Inserts a value for the first `width` bits of a key and returns the handle. -/
def insert (t : Trie w Value) (key : BitVec w) (width : Nat) (val : Value) :
    Except TrieFault (Trie w Value × Nat) := do
  let newMask := if width < w then BitVec.allOnes w <<< (w - width) else BitVec.allOnes w
  let key := key &&& newMask
  let address ← t.walk key newMask (w + 1) head
  let n ← t.node address
  if n.mask = newMask then
    if n.value.isSome then .error .valueThere
    else .ok (t.set address { n with value := some val }, address)
  else
    match ← t.insertLeg address 0 key newMask val with
    | some done => .ok done
    | none =>
      match ← t.insertLeg address 1 key newMask val with
      | some done => .ok done
      | none => .error .endOfInsert

/-- The value of the first node that matches the key. -/
def lookup (t : Trie w Value) (key : BitVec w) : Except TrieFault (Option Value) := do
  match ← t.lookupHandle key with
  | some handle =>
    let n ← t.node handle
    .ok n.value
  | none => .ok none

/-- Points the kid of a node that is removed to the node's parent. -/
def adopt (t : Trie w Value) (kid : Option Nat) (parent : Nat) :
    Except TrieFault (Trie w Value) :=
  match kid with
  | some kid => t.setParent kid parent
  | none => .ok t

/-- Replaces one kid of a node by another one or by none. -/
def replaceKid (n : TrieNode w Value) (kid : Nat) (other : Option Nat) :
    Except TrieFault (TrieNode w Value) :=
  if n.kids 0 = some kid then .ok (n.setKid 0 other)
  else if n.kids 1 = some kid then .ok (n.setKid 1 other)
  else .error .inconsistent

/-- Makes sure that a node's only kid is in the first place. -/
def closeGap (n : TrieNode w Value) : TrieNode w Value :=
  if (n.kids 1).isSome && (n.kids 0).isNone then (n.setKid 0 (n.kids 1)).setKid 1 none else n

/-- Removes a node, and its parent too if nothing but a kid is left of that. -/
def removeNode (t : Trie w Value) :
    (rounds : Nat) → (handle : Nat) → Except TrieFault (Trie w Value × Option Value)
  | 0, _ => .error .outOfRounds
  | rounds + 1, handle => do
    let n ← t.node handle
    if (n.kids 1).isSome then
      if n.value.isNone then .error .valueMissing
      else .ok (t.set handle { n with value := none }, n.value)
    else
      match n.parent with
      | none => .error .removeRoot
      | some parent =>
        let t ← t.adopt (n.kids 0) parent
        let p ← t.node parent
        let p ← replaceKid p handle (n.kids 0)
        let p := closeGap p
        let t := t.set parent p
        if (p.kids 1).isNone && p.value.isNone && p.parent.isSome then
          let (t, _) ← t.removeNode rounds parent
          .ok (t.delete handle, n.value)
        else .ok (t.delete handle, n.value)

/-- Removes the entry with a handle; its parents are no more than there are bits. -/
def remove (t : Trie w Value) (handle : Nat) : Except TrieFault (Trie w Value × Option Value) :=
  t.removeNode (w + 1) handle

/-- Removes the entry that the key is looked up at. -/
def removeKey (t : Trie w Value) (key : BitVec w) :
    Except TrieFault (Trie w Value × Option Value) := do
  match ← t.lookupHandle key with
  | none => .ok (t, none)
  | some handle => t.remove handle

end Trie

end GemDroid

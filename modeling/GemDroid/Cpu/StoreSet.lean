import Mathlib.Logic.Function.Basic
import GemDroid.Defines

/-! Store sets, which predict the store that a memory instruction depends on. -/

namespace GemDroid

open Function (update update_apply)

/-- What the memory dependence unit asks of a predictor. -/
class MemDepPred (Pred : Type) where
  init : (clear_period : Nat) → Pred
  checkInst : Pred → Addr → Nat
  insertStore : Pred → Addr → Nat → Pred
  issued : Pred → Addr → Nat → Bool → Pred
  /-- Nothing when the call does not return. -/
  squash : Pred → Nat → Option Pred
  violation : Pred → Addr → Addr → Pred

/-- A predictor names only stores that it was told of, and its squashes return. -/
class LawfulMemDepPred (Pred : Type) [MemDepPred Pred] where
  Within : Pred → Nat → Prop
  Names : Pred → Nat → Prop
  within_init (clear_period : Nat) : Within (MemDepPred.init clear_period) 0
  names_init (clear_period s : Nat) : ¬Names (MemDepPred.init clear_period) s
  names_le {p : Pred} {n s : Nat} : Within p n → Names p s → s ≤ n
  checkInst_names (p : Pred) (pc : Addr) :
    MemDepPred.checkInst p pc = 0 ∨ Names p (MemDepPred.checkInst p pc)
  within_insertStore {p : Pred} {n s : Nat} (pc : Addr) :
    Within p n → n ≤ s → Within (MemDepPred.insertStore p pc s) s
  names_insertStore {p : Pred} {pc : Addr} {s t : Nat} :
    Names (MemDepPred.insertStore p pc s) t → t = s ∨ Names p t
  within_mono {p : Pred} {n m : Nat} : Within p n → n ≤ m → Within p m
  within_issued {p : Pred} {n : Nat} (pc : Addr) (s : Nat) (is_store : Bool) :
    Within p n → Within (MemDepPred.issued p pc s is_store) n
  names_issued {p : Pred} {pc : Addr} {s t : Nat} {is_store : Bool} :
    Names (MemDepPred.issued p pc s is_store) t → Names p t
  squash_returns {p : Pred} {n : Nat} (squashed_num : Nat) : Within p n →
    ∃ p', MemDepPred.squash p squashed_num = some p' ∧ Within p' n ∧ ∀ t, Names p' t → Names p t
  within_violation {p : Pred} {n : Nat} (store load : Addr) :
    Within p n → Within (MemDepPred.violation p store load) n
  names_violation {p : Pred} {store load : Addr} {t : Nat} :
    Names (MemDepPred.violation p store load) t → Names p t

/-- The tables, whose indices and identifiers keep to their sizes. -/
structure StoreSet (SSITSize LFSTSize : Nat) where
  clearPeriod : Nat
  SSIT : Fin SSITSize → Fin LFSTSize
  validSSIT : Fin SSITSize → Bool := fun _ => false
  LFST : Fin LFSTSize → Nat := fun _ => 0
  validLFST : Fin LFSTSize → Bool := fun _ => false
  /-- A map, with the greatest number first. -/
  storeList : List (Nat × Fin LFSTSize) := []
  memOpsPred : Nat := 0

namespace StoreSet

variable {SSITSize LFSTSize : Nat}

/-- The tables when the predictor is set up. -/
def init [NeZero LFSTSize] (clear_period : Nat) : StoreSet SSITSize LFSTSize where
  clearPeriod := clear_period
  SSIT _ := 0

theorem and_mask_lt (n size : Nat) [NeZero size] : n &&& (size - 1) < size :=
  Nat.lt_of_le_of_lt Nat.and_le_right (Nat.sub_one_lt (NeZero.ne size))

/-- The index of an instruction in the table of store sets. -/
def calcIndex [NeZero SSITSize] (PC : Addr) : Fin SSITSize :=
  ⟨(PC >>> 2).toNat &&& (SSITSize - 1), and_mask_lt ..⟩

/-- The identifier of a new store set. -/
def calcSSID [NeZero LFSTSize] (PC : Addr) : Fin LFSTSize :=
  Fin.ofNat LFSTSize (PC ^^^ (PC >>> 10)).toNat

/-- All entries become invalid. -/
def clear (p : StoreSet SSITSize LFSTSize) : StoreSet SSITSize LFSTSize :=
  { p with validSSIT := fun _ => false, validLFST := fun _ => false, storeList := [] }

/-- The tables are cleared every so often. -/
def checkClear (p : StoreSet SSITSize LFSTSize) : StoreSet SSITSize LFSTSize :=
  if p.memOpsPred + 1 > p.clearPeriod then { p with memOpsPred := 0 }.clear
  else { p with memOpsPred := p.memOpsPred + 1 }

/-- A load only counts towards the next clearing. -/
def insertLoad (p : StoreSet SSITSize LFSTSize) (_load_PC : Addr) (_load_seq_num : Nat) :
    StoreSet SSITSize LFSTSize :=
  p.checkClear

/-- The store list with an entry set, at its place in the order. -/
def setStore (s : Nat) (id : Fin LFSTSize) : List (Nat × Fin LFSTSize) → List (Nat × Fin LFSTSize)
  | [] => [(s, id)]
  | e :: es =>
    if s < e.1 then e :: setStore s id es
    else if e.1 = s then (s, id) :: es
    else (s, id) :: e :: es

section

variable [NeZero SSITSize] [NeZero LFSTSize]

/-- A store that was found to conflict with a load is put into its set, or the other way round. -/
def violation (p : StoreSet SSITSize LFSTSize) (store_PC load_PC : Addr) :
    StoreSet SSITSize LFSTSize :=
  let load_index := calcIndex load_PC
  let store_index := calcIndex store_PC
  match p.validSSIT load_index, p.validSSIT store_index with
  | false, false =>
    let new_set := calcSSID load_PC
    { p with
      validSSIT := update (update p.validSSIT load_index true) store_index true
      SSIT := update (update p.SSIT load_index new_set) store_index new_set }
  | true, false =>
    { p with
      validSSIT := update p.validSSIT store_index true
      SSIT := update p.SSIT store_index (p.SSIT load_index) }
  | false, true =>
    { p with
      validSSIT := update p.validSSIT load_index true
      SSIT := update p.SSIT load_index (p.SSIT store_index) }
  | true, true =>
    -- The set with the lower number wins.
    if p.SSIT store_index > p.SSIT load_index then
      { p with SSIT := update p.SSIT store_index (p.SSIT load_index) }
    else { p with SSIT := update p.SSIT load_index (p.SSIT store_index) }

/-- A store becomes the last one that was fetched of its set. -/
def insertStore (p : StoreSet SSITSize LFSTSize) (store_PC : Addr) (store_seq_num : Nat) :
    StoreSet SSITSize LFSTSize :=
  let index := calcIndex store_PC
  let p := p.checkClear
  if p.validSSIT index then
    let store_SSID := p.SSIT index
    { p with
      LFST := update p.LFST store_SSID store_seq_num
      validLFST := update p.validLFST store_SSID true
      storeList := setStore store_seq_num store_SSID p.storeList }
  else p

/-- The store that an instruction depends on, or zero. -/
def checkInst (p : StoreSet SSITSize LFSTSize) (PC : Addr) : Nat :=
  let index := calcIndex PC
  if p.validSSIT index then
    if p.validLFST (p.SSIT index) then p.LFST (p.SSIT index) else 0
  else 0

/-- An issued store leaves the list, and its set if it was the last one fetched of it. -/
def issued (p : StoreSet SSITSize LFSTSize) (issued_PC : Addr) (issued_seq_num : Nat)
    (is_store : Bool) : StoreSet SSITSize LFSTSize :=
  if is_store then
    let index := calcIndex issued_PC
    let p := { p with storeList := p.storeList.filter fun e => e.1 ≠ issued_seq_num }
    if p.validSSIT index then
      let store_SSID := p.SSIT index
      if p.validLFST store_SSID && p.LFST store_SSID == issued_seq_num then
        { p with validLFST := update p.validLFST store_SSID false }
      else p
    else p
  else p

end

/-- The loop over the store list, from the youngest store on. -/
def squashLoop (p : StoreSet SSITSize LFSTSize) (squashed_num : Nat) :
    List (Nat × Fin LFSTSize) → Option (StoreSet SSITSize LFSTSize)
  | [] => some { p with storeList := [] }
  | (s, idx) :: es =>
    if s ≤ squashed_num then some { p with storeList := (s, idx) :: es }
    else if p.LFST idx > squashed_num then
      squashLoop { p with validLFST := update p.validLFST idx false } squashed_num es
    -- Neither case of the body applies, so that the loop goes on for ever.
    else none

/-- Sets whose last store is squashed lose it. -/
def squash (p : StoreSet SSITSize LFSTSize) (squashed_num : Nat) :
    Option (StoreSet SSITSize LFSTSize) :=
  p.squashLoop squashed_num p.storeList

instance [NeZero SSITSize] [NeZero LFSTSize] : MemDepPred (StoreSet SSITSize LFSTSize) where
  init := init
  checkInst := checkInst
  insertStore := insertStore
  issued := issued
  squash := squash
  violation := violation

/-- The last store of a set is no older than the ones that are listed, and all keep to a bound. -/
structure Within (p : StoreSet SSITSize LFSTSize) (n : Nat) : Prop where
  listed : ∀ e ∈ p.storeList, e.1 ≤ p.LFST e.2
  bounded : ∀ id, p.LFST id ≤ n

/-- A valid entry is the last store of its set. -/
def Names (p : StoreSet SSITSize LFSTSize) (s : Nat) : Prop :=
  ∃ id, p.validLFST id = true ∧ p.LFST id = s

variable {p : StoreSet SSITSize LFSTSize} {n s : Nat}

theorem mem_setStore {id : Fin LFSTSize} {es : List (Nat × Fin LFSTSize)}
    {e : Nat × Fin LFSTSize} (member : e ∈ setStore s id es) : e = (s, id) ∨ e ∈ es := by
  -- The entry is put in at one place, and at most one other goes.
  induction es with
  | nil => simpa [setStore] using member
  | cons e' es ih =>
    simp only [setStore] at member
    split at member
    · rcases List.mem_cons.mp member with rfl | later
      · simp
      · rcases ih later with here | there
        · exact .inl here
        · exact .inr (List.mem_cons_of_mem _ there)
    · split at member
      all_goals
        simp only [List.mem_cons] at member ⊢
        tauto

theorem Within.checkClear (within : Within p n) : Within p.checkClear n := by
  unfold StoreSet.checkClear
  split
  · exact ⟨by simp [clear], within.bounded⟩
  · exact ⟨within.listed, within.bounded⟩

theorem names_checkClear (names : Names p.checkClear s) : Names p s := by
  unfold StoreSet.checkClear at names
  split at names
  · simp [Names, clear] at names
  · exact names

theorem squashLoop_returns (squashed_num : Nat) (es : List (Nat × Fin LFSTSize))
    (listed : ∀ e ∈ es, e.1 ≤ p.LFST e.2) (bounded : ∀ id, p.LFST id ≤ n) :
    ∃ p', p.squashLoop squashed_num es = some p' ∧ Within p' n ∧ ∀ t, Names p' t → Names p t := by
  -- The induction follows the list, and each round only makes an entry invalid.
  induction es generalizing p with
  | nil => exact ⟨_, rfl, ⟨by simp, bounded⟩, fun t names => names⟩
  | cons e es ih =>
    simp only [squashLoop]
    split
    · exact ⟨_, rfl, ⟨listed, bounded⟩, fun t names => names⟩
    · have younger : p.LFST e.2 > squashed_num := by
        have := listed e (by simp)
        omega
      rw [if_pos younger]
      obtain ⟨p', returned, within, fewer⟩ :=
        ih (p := { p with validLFST := update p.validLFST e.2 false })
          (fun e' member => listed e' (by simp [member])) bounded
      refine ⟨p', returned, within, fun t names => ?_⟩
      obtain ⟨id, valid, last⟩ := fewer t names
      dsimp only at valid last
      rw [update_apply] at valid
      split at valid
      · cases valid
      · exact ⟨id, valid, last⟩

theorem Within.insertStore [NeZero SSITSize] [NeZero LFSTSize] (within : Within p n) (pc : Addr)
    (newer : n ≤ s) : Within (p.insertStore pc s) s := by
  -- The new store is the youngest of all, so its set has nothing younger on the list.
  have cleared := within.checkClear
  have bounded : ∀ id, p.checkClear.LFST id ≤ s :=
    fun id => Nat.le_trans (cleared.bounded id) newer
  unfold StoreSet.insertStore
  dsimp only
  split
  · constructor
    · intro e member
      dsimp only at member ⊢
      rw [update_apply]
      rcases mem_setStore member with rfl | old
      · simp
      · have := cleared.listed e old
        have := bounded e.2
        split <;> omega
    · intro id
      dsimp only
      rw [update_apply]
      have := bounded id
      split <;> omega
  · exact ⟨cleared.listed, bounded⟩

theorem names_insertStore [NeZero SSITSize] [NeZero LFSTSize] {pc : Addr} {t : Nat}
    (names : Names (p.insertStore pc s) t) : t = s ∨ Names p t := by
  -- Only the set of the new store has another last store.
  unfold StoreSet.insertStore at names
  dsimp only at names
  split at names
  · obtain ⟨id, valid, last⟩ := names
    dsimp only at valid last
    rw [update_apply] at valid last
    split at last
    · exact .inl last.symm
    · rename_i other
      rw [if_neg other] at valid
      exact .inr (names_checkClear ⟨id, valid, last⟩)
  · exact .inr (names_checkClear names)

theorem checkInst_names [NeZero SSITSize] [NeZero LFSTSize] (p : StoreSet SSITSize LFSTSize)
    (pc : Addr) : p.checkInst pc = 0 ∨ Names p (p.checkInst pc) := by
  unfold StoreSet.checkInst
  dsimp only
  split
  · split
    · rename_i valid
      exact .inr ⟨_, valid, rfl⟩
    · exact .inl rfl
  · exact .inl rfl

theorem Within.issued [NeZero SSITSize] [NeZero LFSTSize] (within : Within p n) (pc : Addr)
    (s : Nat) (is_store : Bool) : Within (p.issued pc s is_store) n := by
  have fewer : ∀ e ∈ p.storeList.filter fun e => e.1 ≠ s, e.1 ≤ p.LFST e.2 :=
    fun e member => within.listed e (List.mem_of_mem_filter member)
  unfold StoreSet.issued
  dsimp only
  split
  · split
    · split
      all_goals exact ⟨fewer, within.bounded⟩
    · exact ⟨fewer, within.bounded⟩
  · exact within

theorem names_issued [NeZero SSITSize] [NeZero LFSTSize] {pc : Addr} {t : Nat} {is_store : Bool}
    (names : Names (p.issued pc s is_store) t) : Names p t := by
  unfold StoreSet.issued at names
  dsimp only at names
  split at names
  · split at names
    · split at names
      · obtain ⟨id, valid, last⟩ := names
        dsimp only at valid last
        rw [update_apply] at valid
        split at valid
        · cases valid
        · exact ⟨id, valid, last⟩
      · exact names
    · exact names
  · exact names

theorem violation_tables [NeZero SSITSize] [NeZero LFSTSize] (store load : Addr) :
    (p.violation store load).LFST = p.LFST ∧ (p.violation store load).validLFST = p.validLFST ∧
      (p.violation store load).storeList = p.storeList := by
  unfold StoreSet.violation
  dsimp only
  split
  case h_4 => split <;> exact ⟨rfl, rfl, rfl⟩
  all_goals exact ⟨rfl, rfl, rfl⟩

theorem Within.violation [NeZero SSITSize] [NeZero LFSTSize] (within : Within p n)
    (store load : Addr) : Within (p.violation store load) n := by
  obtain ⟨last, _, list⟩ := violation_tables (p := p) store load
  constructor
  · rw [list, last]
    exact within.listed
  · rw [last]
    exact within.bounded

theorem names_violation [NeZero SSITSize] [NeZero LFSTSize] {store load : Addr} {t : Nat}
    (names : Names (p.violation store load) t) : Names p t := by
  obtain ⟨last, valid, _⟩ := violation_tables (p := p) store load
  rwa [Names, last, valid] at names

instance [NeZero SSITSize] [NeZero LFSTSize] :
    LawfulMemDepPred (StoreSet SSITSize LFSTSize) where
  Within := Within
  Names := Names
  within_init clear_period := by
    constructor
    · intro e member
      cases member
    · intro id
      exact Nat.le_refl 0
  names_init clear_period s := by
    rintro ⟨id, valid, last⟩
    cases valid
  names_le within names := by
    obtain ⟨id, valid, last⟩ := names
    exact last ▸ within.bounded id
  checkInst_names p pc := p.checkInst_names pc
  within_insertStore pc within newer := within.insertStore pc newer
  names_insertStore names := names_insertStore names
  within_mono within bound :=
    ⟨within.listed, fun id => Nat.le_trans (within.bounded id) bound⟩
  within_issued pc s is_store within := within.issued pc s is_store
  names_issued names := names_issued names
  squash_returns squashed_num within :=
    squashLoop_returns squashed_num _ within.listed within.bounded
  within_violation store load within := within.violation store load
  names_violation names := names_violation names

end StoreSet

end GemDroid

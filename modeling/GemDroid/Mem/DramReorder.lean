import GemDroid.Lib.Search
import GemDroid.Mem.DramDevice
import GemDroid.Mem.PacketQueue

/-! Which access the scheduler moves to the front of its queue. -/

namespace GemDroid

namespace DramDevice

variable {config : DramConfig} {queue before after : List DramPacket} {d : DramDevice}
  {p : DramPacket} {early : List Nat}

/-- The row of an access is open in its bank. -/
def RowHit (d : DramDevice) (p : DramPacket) : Prop :=
  (d.banks p.rank p.bank).openRow = some p.row

instance : DecidablePred d.RowHit := fun _ => inferInstanceAs (Decidable (_ = _))

/-- The bank of an access can be activated by now, or no bank with accesses can be any earlier. -/
def ActsEarly (config : DramConfig) (queue : List DramPacket) (d : DramDevice) (p : DramPacket) :
    Prop :=
  d.actAt config p.rank p.bank ≤ d.curTick ∨
    ∀ q ∈ queue, d.actAt config p.rank p.bank ≤ d.actAt config q.rank q.bank

instance : DecidablePred (d.ActsEarly config queue) := fun _ => inferInstanceAs (Decidable (_ ∨ _))

/-- What the loop over the queue asks of an access whose row is not open. -/
def eligible (config : DramConfig) (early : List Nat) (d : DramDevice) (p : DramPacket) : Bool :=
  decide (d.actAt config p.rank p.bank ≤ d.curTick) || early.contains p.bankId

theorem selectFrom_cons (i : Nat) (selected : Option Nat) :
    selectFrom config early d (p :: queue) i selected =
      if d.RowHit p then i
      else if selected.isNone && eligible config early d p then
        selectFrom config early d queue (i + 1) (some i)
      else selectFrom config early d queue (i + 1) selected :=
  rfl

theorem selectFrom_hit (missed : ∀ q ∈ before, ¬ d.RowHit q) (hit : d.RowHit p) (i : Nat)
    (selected : Option Nat) :
    selectFrom config early d (before ++ p :: after) i selected = i + before.length := by
  induction before generalizing i selected with
  | nil => exact if_pos hit
  | cons q before ih =>
    have miss : ¬ d.RowHit q := missed q List.mem_cons_self
    have later := ih fun q' member => missed q' (List.mem_cons_of_mem q member)
    rw [List.cons_append, selectFrom_cons, if_neg miss, later, later, ite_self, List.length_cons]
    omega

theorem selectFrom_remembered (missed : ∀ q ∈ queue, ¬ d.RowHit q) (i s : Nat) :
    selectFrom config early d queue i (some s) = s := by
  induction queue generalizing i with
  | nil => rfl
  | cons q queue ih =>
    have miss : ¬ d.RowHit q := missed q List.mem_cons_self
    have later := ih fun q' member => missed q' (List.mem_cons_of_mem q member)
    rw [selectFrom_cons, if_neg miss]
    simp only [Option.isNone_some, Bool.false_and, Bool.false_eq_true, if_false, later]

theorem selectFrom_eligible (missed : ∀ q ∈ before ++ p :: after, ¬ d.RowHit q)
    (passed : ∀ q ∈ before, eligible config early d q = false)
    (found : eligible config early d p = true) (i : Nat) :
    selectFrom config early d (before ++ p :: after) i none = i + before.length := by
  induction before generalizing i with
  | nil =>
    have miss : ¬ d.RowHit p := missed p (by simp)
    have rest : selectFrom config early d after (i + 1) (some i) = i :=
      selectFrom_remembered (fun q member => missed q (List.mem_cons_of_mem p member)) (i + 1) i
    rw [List.nil_append, selectFrom_cons, if_neg miss, found]
    simpa using rest
  | cons q before ih =>
    have miss : ¬ d.RowHit q := missed q List.mem_cons_self
    have pass := passed q List.mem_cons_self
    have later := ih (fun q' member => missed q' (List.mem_cons_of_mem q member))
      (fun q' member => passed q' (List.mem_cons_of_mem q member)) (i + 1)
    rw [List.cons_append, selectFrom_cons, if_neg miss, pass, List.length_cons]
    simp only [Bool.and_false, Bool.false_eq_true, if_false, later]
    omega

theorem reorderQueue_split (split : queue = before ++ p :: after)
    (selected : selectFrom config (d.minBankActAt config queue) d queue 0 none = before.length) :
    d.reorderQueue config queue = p :: (before ++ after) := by
  have there : queue[before.length]? = some p := by rw [split]; simp
  rw [reorderQueue, selected, there]
  simp only [split, List.eraseIdx_append_of_length_le (Nat.le_refl _), Nat.sub_self,
    List.eraseIdx_cons_zero]

/-- An access is at a bank of the channel, and has the number of that bank. -/
structure Placed (config : DramConfig) (p : DramPacket) : Prop where
  rank : p.rank < config.ranksPerChannel
  bank : p.bank < config.banksPerRank
  bankId : p.bankId = p.rank * config.banksPerRank + p.bank

/-- With few banks no number of a rank or a bank is cut off by the decoder. -/
theorem placed_of_decodeAddr (few : config.ranksPerChannel * config.banksPerRank ≤ 64)
    {addr : Nat} (decoded : p.toDramPlace = config.decodeAddr addr) : Placed config p := by
  have few_ranks : config.ranksPerChannel ≤ 64 :=
    Nat.le_trans (Nat.le_mul_of_pos_right _ config.banks_pos) few
  have few_banks : config.banksPerRank ≤ 64 :=
    Nat.le_trans (Nat.le_mul_of_pos_left _ config.ranks_pos) few
  have uncut : ∀ {rank bank row : Nat},
      p.toDramPlace =
        { rank := rank % config.ranksPerChannel % 2 ^ 8, bank := bank % config.banksPerRank % 2 ^ 8
          row
          bankId := (config.banksPerRank * (rank % config.ranksPerChannel % 2 ^ 8) +
            bank % config.banksPerRank % 2 ^ 8) % 2 ^ 16 } → Placed config p := by
    intro rank bank row place
    have real_rank : rank % config.ranksPerChannel < config.ranksPerChannel :=
      Nat.mod_lt _ config.ranks_pos
    have real_bank : bank % config.banksPerRank < config.banksPerRank :=
      Nat.mod_lt _ config.banks_pos
    rw [Nat.mod_eq_of_lt (a := rank % config.ranksPerChannel) (by omega),
      Nat.mod_eq_of_lt (a := bank % config.banksPerRank) (by omega)] at place
    have few_ids : config.banksPerRank * (rank % config.ranksPerChannel) + bank %
        config.banksPerRank < 2 ^ 16 := by
      have := Nat.mul_le_mul few_banks (Nat.le_of_lt (Nat.lt_of_lt_of_le real_rank few_ranks))
      omega
    rw [Nat.mod_eq_of_lt few_ids, Nat.mul_comm] at place
    have rank_eq := congrArg DramPlace.rank place
    have bank_eq := congrArg DramPlace.bank place
    have id_eq := congrArg DramPlace.bankId place
    dsimp only at rank_eq bank_eq id_eq
    exact ⟨rank_eq ▸ real_rank, bank_eq ▸ real_bank, by rw [id_eq, rank_eq, bank_eq]⟩
  cases mapping : config.addrMapping <;> rw [DramConfig.decodeAddr, mapping] at decoded <;>
    exact uncut decoded

theorem mem_allBanks {place : Nat × Nat} : place ∈ allBanks config ↔
    place.1 < config.ranksPerChannel ∧ place.2 < config.banksPerRank := by
  obtain ⟨rank, bank⟩ := place
  simp [allBanks]

/-- The number of a bank in the search for the earliest one. -/
def bankNumber (config : DramConfig) (place : Nat × Nat) : Nat :=
  (place.1 * config.banksPerRank + place.2) % 2 ^ 8

theorem bankNumber_eq (few : config.ranksPerChannel * config.banksPerRank ≤ 64)
    {place : Nat × Nat} (real : place ∈ allBanks config) :
    bankNumber config place = place.1 * config.banksPerRank + place.2 ∧
      bankNumber config place < 64 := by
  obtain ⟨real_rank, real_bank⟩ := mem_allBanks.mp real
  have low : place.1 * config.banksPerRank + place.2 < 64 := by
    have := Nat.mul_le_mul_right config.banksPerRank (Nat.succ_le_of_lt real_rank)
    rw [Nat.succ_mul] at this
    omega
  have number : bankNumber config place = place.1 * config.banksPerRank + place.2 :=
    Nat.mod_eq_of_lt (show place.1 * config.banksPerRank + place.2 < 2 ^ 8 by omega)
  exact ⟨number, number ▸ low⟩

theorem minBankActAt_eq : d.minBankActAt config queue =
    (((allBanks config).filter fun place =>
      queue.any fun p => p.bankId == bankNumber config place).foldl
        (Search.gather (bankNumber config) fun place => d.actAt config place.1 place.2)
        ([], none)).1 := by
  rw [List.foldl_filter]
  rfl

/-- One bank in the loop that collects the earliest ones as bits of a word (`minBankActAt`). -/
def setEarliest (config : DramConfig) (queue : List DramPacket) (d : DramDevice)
    (state : BitVec 64 × Nat) (place : Nat × Nat) : BitVec 64 × Nat :=
  if queue.any fun p => p.bankId == bankNumber config place then
    let act_at := d.actAt config place.1 place.2
    if act_at ≤ state.2 then
      ((if act_at < state.2 then 0#64 else state.1) ||| 1#64 <<< bankNumber config place, act_at)
    else state
  else state

/-- The earliest banks as a word with one bit for each of them (`minBankActAt`). -/
def bankMask (config : DramConfig) (queue : List DramPacket) (d : DramDevice) : BitVec 64 :=
  ((allBanks config).foldl (setEarliest config queue d) (0#64, MaxTick)).1

/-- The word of the earliest banks and the list of them say the same, with the same minimum. -/
def SameEarliest (state : List Nat × Option Nat) (mask : BitVec 64 × Nat) : Prop :=
  (∀ n, mask.1.getLsbD n = state.1.contains n) ∧ mask.2 = state.2.getD MaxTick ∧
    (state.2 = none → state.1 = [])

theorem getLsbD_set (mask : BitVec 64) {id n : Nat} (few : id < 64) :
    (mask ||| 1#64 <<< id).getLsbD n = (n == id || mask.getLsbD n) := by
  rw [BitVec.getLsbD_or, BitVec.getLsbD_shiftLeft, BitVec.getLsbD_one, Bool.or_comm]
  congr 1
  by_cases same : n = id
  · subst same
    simp [few]
  · have differ : n < id ∨ 0 < n - id := by omega
    obtain less | more := differ
    · simp [same, less]
    · simp [same, Nat.ne_of_gt more]

/-- Taking in one more bank keeps the word and the list the same. -/
theorem SameEarliest.gather {state : List Nat × Option Nat} {mask : BitVec 64 × Nat}
    (same : SameEarliest state mask) {place : Nat × Nat} (low : bankNumber config place < 64)
    (timely : d.actAt config place.1 place.2 ≤ MaxTick)
    (waits : (queue.any fun p => p.bankId == bankNumber config place) = true) :
    SameEarliest (Search.gather (bankNumber config)
        (fun place => d.actAt config place.1 place.2) state place)
      (setEarliest config queue d mask place) := by
  obtain ⟨bits, least, start⟩ := same
  obtain ⟨word, mask_least⟩ := mask
  obtain ⟨numbers, known⟩ := state
  dsimp only at bits least start
  rw [setEarliest, if_pos waits]
  cases known with
  | none =>
    obtain rfl := start rfl
    have first : d.actAt config place.1 place.2 ≤ mask_least := least ▸ timely
    have clear : (if d.actAt config place.1 place.2 < mask_least then 0#64 else word).getLsbD =
        fun _ => false := by
      funext n
      split
      · simp
      · simpa using bits n
    simp only [first, if_true]
    refine ⟨fun n => ?_, rfl, fun none => by cases none⟩
    rw [getLsbD_set _ low, clear]
    simp only [Search.gather, List.contains_cons, List.contains_nil]
  | some least' =>
    obtain rfl : mask_least = least' := least
    rcases Nat.lt_trichotomy (d.actAt config place.1 place.2) mask_least with less | equal | more
    · simp only [Search.gather, Nat.le_of_lt less, less, if_true]
      refine ⟨fun n => ?_, rfl, fun none => by cases none⟩
      rw [getLsbD_set _ low, List.contains_cons, List.contains_nil, BitVec.getLsbD_zero]
    · simp only [Search.gather, equal, Nat.le_refl, Nat.lt_irrefl, if_true, if_false]
      refine ⟨fun n => ?_, rfl, fun none => by cases none⟩
      rw [getLsbD_set _ low, bits, List.contains_cons]
    · simp only [Search.gather, Nat.not_le.mpr more, Nat.lt_asymm more, Nat.ne_of_gt more, if_false]
      exact ⟨bits, rfl, fun none => by cases none⟩

theorem bankMask_getLsbD (few : config.ranksPerChannel * config.banksPerRank ≤ 64)
    (timely : ∀ rank bank, d.actAt config rank bank ≤ MaxTick) (n : Nat) :
    (d.bankMask config queue).getLsbD n = (d.minBankActAt config queue).contains n := by
  -- Both loops visit the banks in one order, and after every bank they have found the same.
  rw [minBankActAt_eq, List.foldl_filter, bankMask]
  refine (List.foldl_rel (r := fun mask state => SameEarliest state mask) ?_ ?_).1 n
  · exact ⟨fun n => by simp, rfl, fun _ => rfl⟩
  · intro place real mask state same
    by_cases waits : (queue.any fun p => p.bankId == bankNumber config place) = true
    · rw [if_pos waits]
      exact same.gather (bankNumber_eq few real).2 (timely _ _) waits
    · rw [if_neg waits, setEarliest, if_neg waits]
      exact same

theorem bankNumber_inj (few : config.ranksPerChannel * config.banksPerRank ≤ 64)
    {place : Nat × Nat} (real : place ∈ allBanks config) (placed : Placed config p) :
    p.bankId = bankNumber config place ↔ (p.rank, p.bank) = place := by
  have number := (bankNumber_eq few real).1
  obtain ⟨rank, bank⟩ := place
  obtain ⟨-, real_bank⟩ := mem_allBanks.mp real
  dsimp only at number real_bank
  rw [placed.bankId, number, Prod.mk.injEq]
  constructor
  · intro same
    have rank_eq := congrArg (· / config.banksPerRank) same
    have bank_eq := congrArg (· % config.banksPerRank) same
    simp only [Nat.mul_comm _ config.banksPerRank, Nat.mul_add_div config.banks_pos,
      Nat.mul_add_mod, Nat.div_eq_of_lt placed.bank, Nat.div_eq_of_lt real_bank,
      Nat.mod_eq_of_lt placed.bank, Nat.mod_eq_of_lt real_bank] at rank_eq bank_eq
    exact ⟨rank_eq, bank_eq⟩
  · rintro ⟨rfl, rfl⟩
    rfl

theorem mem_minBankActAt (few : config.ranksPerChannel * config.banksPerRank ≤ 64)
    (placed : ∀ q ∈ queue, Placed config q) (member : p ∈ queue) :
    p.bankId ∈ d.minBankActAt config queue ↔
      ∀ q ∈ queue, d.actAt config p.rank p.bank ≤ d.actAt config q.rank q.bank := by
  have bank_of : ∀ q ∈ queue, (q.rank, q.bank) ∈ (allBanks config).filter fun place =>
      queue.any fun p => p.bankId == bankNumber config place := by
    intro q inside
    have real : (q.rank, q.bank) ∈ allBanks config :=
      mem_allBanks.mpr ⟨(placed q inside).rank, (placed q inside).bank⟩
    rw [List.mem_filter, List.any_eq_true]
    exact ⟨real, q, inside, beq_iff_eq.mpr ((bankNumber_inj few real (placed q inside)).mpr rfl)⟩
  rw [minBankActAt_eq, Search.mem_gathered]
  constructor
  · rintro ⟨place, waiting, named, least⟩ q inside
    have same := (bankNumber_inj few (List.mem_filter.mp waiting).1 (placed p member)).mp named.symm
    subst same
    exact least _ (bank_of q inside)
  · intro least
    have real := (List.mem_filter.mp (bank_of p member)).1
    refine ⟨_, bank_of p member, ((bankNumber_inj few real (placed p member)).mpr rfl).symm, ?_⟩
    intro place waiting
    obtain ⟨there, held⟩ := List.mem_filter.mp waiting
    obtain ⟨q, inside, named⟩ := List.any_eq_true.mp held
    have same := (bankNumber_inj few there (placed q inside)).mp (beq_iff_eq.mp named)
    subst same
    exact least q inside

theorem eligible_iff (few : config.ranksPerChannel * config.banksPerRank ≤ 64)
    (placed : ∀ q ∈ queue, Placed config q) (member : p ∈ queue) :
    eligible config (d.minBankActAt config queue) d p = true ↔ d.ActsEarly config queue p := by
  rw [eligible, Bool.or_eq_true, decide_eq_true_iff, List.contains_iff_mem,
    mem_minBankActAt few placed member, ActsEarly]

theorem exists_actsEarly (nonempty : queue ≠ []) : ∃ p ∈ queue, d.ActsEarly config queue p := by
  obtain ⟨empty, -⟩ | ⟨least, -, ⟨p, member, lowest⟩, lower, -⟩ := Search.foldl_gather
    (fun p : DramPacket => p.bankId) (fun p => d.actAt config p.rank p.bank) queue
  · exact absurd empty nonempty
  · exact ⟨p, member, Or.inr fun q inside => lowest ▸ lower q inside⟩

/--
The scheduler moves one access to the front and keeps the others in their order.

That is the first row hit, or else the first access whose bank can be activated by now or is one of
the earliest.
-/
theorem reorderQueue_moves_one (few : config.ranksPerChannel * config.banksPerRank ≤ 64)
    (nonempty : queue ≠ [])
    (decoded : ∀ p ∈ queue, ∃ addr, p.toDramPlace = config.decodeAddr addr) :
    ∃ before selected after, queue = before ++ selected :: after ∧
      d.reorderQueue config queue = selected :: (before ++ after) ∧
      (d.RowHit selected ∧ (∀ p ∈ before, ¬ d.RowHit p) ∨
        (∀ p ∈ queue, ¬ d.RowHit p) ∧ d.ActsEarly config queue selected ∧
          ∀ p ∈ before, ¬ d.ActsEarly config queue p) := by
  have placed : ∀ p ∈ queue, Placed config p := fun p member =>
    (decoded p member).elim fun _ place => placed_of_decodeAddr few place
  by_cases hits : ∃ p ∈ queue, d.RowHit p
  · obtain ⟨p, member, hit⟩ := hits
    obtain ⟨before, selected, after, split, found, missed⟩ :=
      Search.exists_first (fun p => decide (d.RowHit p)) member (decide_eq_true hit)
    simp only [decide_eq_true_iff, decide_eq_false_iff_not] at found missed
    refine ⟨before, selected, after, split, reorderQueue_split split ?_, Or.inl ⟨found, missed⟩⟩
    rw [split, selectFrom_hit missed found, Nat.zero_add]
  · have missed : ∀ p ∈ queue, ¬ d.RowHit p := fun p member hit => hits ⟨p, member, hit⟩
    obtain ⟨p, member, early⟩ : ∃ p ∈ queue, d.ActsEarly config queue p :=
      exists_actsEarly nonempty
    obtain ⟨before, selected, after, split, found, passed⟩ :=
      Search.exists_first (eligible config (d.minBankActAt config queue) d) member
        ((eligible_iff few placed member).mpr early)
    have inside : selected ∈ queue := by rw [split]; simp
    refine ⟨before, selected, after, split, reorderQueue_split split ?_, Or.inr ⟨missed,
      (eligible_iff few placed inside).mp found, fun q front early => ?_⟩⟩
    · have missed' := missed
      rw [split] at missed'
      have position := selectFrom_eligible missed' passed found 0
      rw [Nat.zero_add, ← split] at position
      exact position
    · have member : q ∈ queue := by rw [split]; simp [front]
      rw [← eligible_iff few placed member, passed q front] at early
      exact Bool.false_ne_true early

/-- One bank has row 5 open, and the others can be activated the earlier the higher they are. -/
def laterBanksFirst : DramDevice where
  banks := fun _ bank =>
    { openRow := if bank = 0 then some 5 else none, colAllowedAt := 0, preAllowedAt := 40
      actAllowedAt := 100 - bank, rowAccesses := 0 }
  actTicks := fun _ => []
  numBanksActive := 1
  busBusyUntil := 0
  nextReqTime := 0
  agenda := .start
  commands := []

/-- Reads of the first row of three banks. -/
def threeReads : List DramPacket :=
  [0, 8192, 16384].map fun addr => ddr3.dramPacket 0 0 true none { addr, size := 64 }

/-- The read of the third bank goes first, since its row can be opened the earliest. -/
theorem threeReads_reordered :
    laterBanksFirst.reorderQueue ddr3 threeReads =
      [16384, 0, 8192].map (fun addr => ddr3.dramPacket 0 0 true none { addr, size := 64 }) ∧
    ∃ before selected after, threeReads = before ++ selected :: after ∧
      laterBanksFirst.reorderQueue ddr3 threeReads = selected :: (before ++ after) ∧
      (laterBanksFirst.RowHit selected ∧ (∀ p ∈ before, ¬ laterBanksFirst.RowHit p) ∨
        (∀ p ∈ threeReads, ¬ laterBanksFirst.RowHit p) ∧
          laterBanksFirst.ActsEarly ddr3 threeReads selected ∧
          ∀ p ∈ before, ¬ laterBanksFirst.ActsEarly ddr3 threeReads p) := by
  refine ⟨by decide, reorderQueue_moves_one (by decide) (by decide) fun p member => ?_⟩
  obtain ⟨addr, -, rfl⟩ := List.mem_map.mp member
  exact ⟨addr, rfl⟩

/-- A waiting access has its bit in the word if its bank is among the earliest ones that wait. -/
theorem bankMask_earliest (few : config.ranksPerChannel * config.banksPerRank ≤ 64)
    (timely : ∀ rank bank, d.actAt config rank bank ≤ MaxTick)
    (placed : ∀ q ∈ queue, Placed config q) (member : p ∈ queue) :
    (d.bankMask config queue).getLsbD p.bankId = true ↔
      ∀ q ∈ queue, d.actAt config p.rank p.bank ≤ d.actAt config q.rank q.bank := by
  rw [bankMask_getLsbD few timely, List.contains_iff_mem, mem_minBankActAt few placed member]

/-- Of the three reads only the last one has its bit in the word. -/
theorem threeReads_masked :
    threeReads.map (fun p => (laterBanksFirst.bankMask ddr3 threeReads).getLsbD p.bankId) =
      [false, false, true] := by
  show _ = threeReads.map fun p => decide (p.bank = 2)
  refine List.map_congr_left fun p member => Bool.eq_iff_iff.mpr ?_
  refine (bankMask_earliest (by decide) (fun rank bank => ?_) (fun q inside => ?_) member).trans ?_
  · show (if _ then 100 - bank else _) ≤ MaxTick
    split
    · exact (Nat.sub_le 100 bank).trans (by decide)
    · exact (by decide : max 40 0 + ddr3.tRP ≤ MaxTick)
  · obtain ⟨addr, -, rfl⟩ := List.mem_map.mp inside
    exact placed_of_decodeAddr (by decide) rfl
  · revert p
    decide

end DramDevice

end GemDroid

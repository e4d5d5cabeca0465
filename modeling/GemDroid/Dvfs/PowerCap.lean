import GemDroid.Dvfs.States

/-! Which state the power cap selects for a budget, and which one it should. -/

namespace GemDroid

section Tables

variable {table : List (Rat × Rat)} {power : Rat × Rat → Rat} {budget : Rat}

/-- A state is the highest one whose power lies below the budget, or the lowest if none does. -/
def HighestBelow (table : List (Rat × Rat)) (power : Rat × Rat → Rat) (budget : Rat) (i : Nat) :
    Prop :=
  (∃ row, table[i]? = some row ∧ power row < budget ∧
      ∀ j higher, i < j → table[j]? = some higher → budget ≤ power higher) ∨
    i = 0 ∧ ∀ row ∈ table, budget ≤ power row

/-- A table with two states at least, whose powers do not fall. -/
structure Rising (power : Rat × Rat → Rat) (low next : Rat × Rat) (rest : List (Rat × Rat)) :
    Prop where
  powers : (low :: next :: rest).Pairwise fun row higher => power row ≤ power higher

variable {low next : Rat × Rat} {rest : List (Rat × Rat)}

theorem Rising.low_le (rising : Rising power low next rest) {row : Rat × Rat}
    (member : row ∈ low :: next :: rest) : power low ≤ power row := by
  obtain rfl | later := List.mem_cons.mp member
  · exact le_refl _
  · exact (List.pairwise_cons.mp rising.powers).1 row later

theorem Rising.next_le (rising : Rising power low next rest) {row : Rat × Rat}
    (member : row ∈ next :: rest) : power next ≤ power row := by
  obtain rfl | later := List.mem_cons.mp member
  · exact le_refl _
  · exact (List.pairwise_cons.mp (List.pairwise_cons.mp rising.powers).2).1 row later

theorem Rising.highestBelow_zero (rising : Rising power low next rest)
    (enough : power low < budget) : HighestBelow (low :: next :: rest) power budget 0 ↔
      budget ≤ power next := by
  constructor
  · rintro (⟨row, -, -, above⟩ | ⟨-, none_fits⟩)
    · exact above 1 next Nat.zero_lt_one rfl
    · exact none_fits next (by simp)
  · intro least
    refine Or.inl ⟨low, rfl, enough, fun j higher above at_j => ?_⟩
    obtain ⟨j, rfl⟩ := Nat.exists_eq_succ_of_ne_zero (Nat.ne_of_gt above)
    exact le_trans least (rising.next_le (List.mem_of_getElem? at_j))

theorem Rising.highestBelow_short (rising : Rising power low next rest) (short : budget ≤ power low)
    {i : Nat} : HighestBelow (low :: next :: rest) power budget i ↔ i = 0 := by
  have none_fits : ∀ row ∈ low :: next :: rest, budget ≤ power row :=
    fun row member => le_trans short (rising.low_le member)
  constructor
  · rintro (⟨row, at_i, fits, -⟩ | ⟨first, -⟩)
    · exact absurd (none_fits row (List.mem_of_getElem? at_i)) (not_le.mpr fits)
    · exact first
  · exact fun first => Or.inr ⟨first, none_fits⟩

theorem Rising.freqForPower_eq (rising : Rising power low next rest) :
    freqForPower (low :: next :: rest) power budget =
      if power low < budget then low.2 else (freqs (low :: next :: rest)).getLastD 0 := by
  rw [freqForPower]
  by_cases enough : power low < budget
  · rw [List.find?_cons_of_pos (by simpa using enough), if_pos enough]
  · have none_fits : (low :: next :: rest).find? (fun row => decide (power row < budget)) =
      none := by
      rw [List.find?_eq_none]
      intro row member
      have above := le_trans (not_lt.mp enough) (rising.low_le member)
      simpa using above
    rw [none_fits, if_neg enough]

theorem HighestBelow.lt_length {i : Nat}
    (highest : HighestBelow (low :: next :: rest) power budget i) :
    i < (low :: next :: rest).length := by
  obtain ⟨row, at_i, -⟩ | ⟨rfl, -⟩ := highest
  · exact (List.getElem?_eq_some_iff.mp at_i).1
  · exact Nat.zero_lt_succ _

theorem tableFreq_eq_low (distinct : (freqs (low :: next :: rest)).Nodup) {i : Nat}
    (real : i < (low :: next :: rest).length) (same : low.2 = tableFreq (low :: next :: rest) i) :
    i = 0 := by
  cases i with
  | zero => rfl
  | succ i =>
    have later : low.2 ∈ freqs (next :: rest) := by
      have inside : i < (freqs (next :: rest)).length := by simpa [freqs] using real
      have there : tableFreq (low :: next :: rest) (i + 1 : Nat) = (freqs (next :: rest))[i] := by
        rw [tableFreq, if_pos (Int.natCast_nonneg _), Int.toNat_natCast]
        simp only [freqs, List.map_cons, List.getD_cons_succ]
        exact (List.getElem_eq_getD 0).symm
      rw [same, there]
      exact List.getElem_mem inside
    exact absurd later (List.nodup_cons.mp distinct).1

theorem Rising.freqForPower_right (rising : Rising power low next rest)
    (distinct : (freqs (low :: next :: rest)).Nodup) :
    (∃ i, HighestBelow (low :: next :: rest) power budget i ∧
      freqForPower (low :: next :: rest) power budget = tableFreq (low :: next :: rest) i) ↔
    power low < budget ∧ budget ≤ power next := by
  rw [rising.freqForPower_eq]
  by_cases enough : power low < budget
  · rw [if_pos enough]
    constructor
    · rintro ⟨i, highest, same⟩
      obtain rfl := tableFreq_eq_low distinct highest.lt_length same
      exact ⟨enough, (rising.highestBelow_zero enough).mp highest⟩
    · rintro ⟨-, least⟩
      exact ⟨0, (rising.highestBelow_zero enough).mpr least, rfl⟩
  · -- No state fits, and the code goes to the other end of the table.
    have last : (freqs (low :: next :: rest)).getLastD 0 ∈ freqs (next :: rest) :=
      List.getLast_mem (List.cons_ne_nil _ _)
    rw [if_neg enough]
    constructor
    · rintro ⟨i, highest, same⟩
      obtain rfl := (rising.highestBelow_short (not_lt.mp enough)).mp highest
      have low_freq : tableFreq (low :: next :: rest) (0 : Nat) = low.2 := rfl
      rw [same, low_freq] at last
      exact absurd last (List.nodup_cons.mp distinct).1
    · exact fun ⟨fits, _⟩ => absurd fits enough

theorem Rising.state_right (rising : Rising power low next rest) {other : Nat}
    (differ : other ≠ 0) :
    HighestBelow (low :: next :: rest) power budget (if power low < budget then 0 else other) ↔
      power low < budget ∧ budget ≤ power next := by
  by_cases enough : power low < budget
  · rw [if_pos enough, rising.highestBelow_zero enough]
    exact (and_iff_right enough).symm
  · rw [if_neg enough, rising.highestBelow_short (not_lt.mp enough)]
    exact iff_of_false differ fun fits => enough fits.1

end Tables

namespace CoreDvfs

/-- The power of a state (the two power columns of `voltage_freq_table`). -/
def rowPower (row : Rat × Rat) : Rat :=
  coreStaticPwr + dynamicPower coreCapacitance row

/-- The power of the state with a number. -/
def statePower (i : Nat) : Rat :=
  rowPower (coreVoltageFreq.getD i (0, 0))

theorem rising : Rising rowPower (coreVoltageFreq.getD 0 (0, 0)) (coreVoltageFreq.getD 1 (0, 0))
    (coreVoltageFreq.drop 2) where
  powers := by decide +kernel

theorem setMaxAllowedFreq_eq (coordinatedPower : Rat) (c : CoreDvfs) :
    c.setMaxAllowedFreq coordinatedPower = some { c with
      dvfsState :=
        (if statePower 0 < coordinatedPower - c.powerInLastEpoch then 0 else 1 : Nat) } := by
  have low : getIndexInTable coreVoltageFreq
      (tableFreq coreVoltageFreq (Rounding.trunc (coreVoltageFreq.getD 0 (0, 0)).2)) = some 0 := by
    decide +kernel
  have high : getIndexInTable coreVoltageFreq
      (tableFreq coreVoltageFreq (Rounding.trunc ((freqs coreVoltageFreq).getLastD 0))) =
        some 1 := by
    decide +kernel
  have selected : getFreqForPower (coordinatedPower - c.powerInLastEpoch) =
      if statePower 0 < coordinatedPower - c.powerInLastEpoch
        then (coreVoltageFreq.getD 0 (0, 0)).2
      else (freqs coreVoltageFreq).getLastD 0 := rising.freqForPower_eq
  rw [setMaxAllowedFreq, setCoreFreq, selected]
  split
  · rw [low]
    rfl
  · rw [high]
    rfl

/-- The frequency for a power is that of the state that the budget allows. -/
def FindsAllowed (power : Rat) : Prop :=
  ∃ i, HighestBelow coreVoltageFreq rowPower power i ∧
    getFreqForPower power = tableFreq coreVoltageFreq i

/-- The core goes to the state that the power left for it allows. -/
def GoesToAllowed (coordinatedPower : Rat) (c : CoreDvfs) : Prop :=
  ∃ i, HighestBelow coreVoltageFreq rowPower (coordinatedPower - c.powerInLastEpoch) i ∧
    c.setMaxAllowedFreq coordinatedPower = some { c with dvfsState := (i : Nat) }

/-- The budget lies between the powers of the two lowest states. -/
def LowestFits (power : Rat) : Prop :=
  statePower 0 < power ∧ power ≤ statePower 1

theorem goesToAllowed_iff (coordinatedPower : Rat) (c : CoreDvfs) :
    c.GoesToAllowed coordinatedPower ↔ LowestFits (coordinatedPower - c.powerInLastEpoch) := by
  rw [LowestFits, statePower, statePower, ← rising.state_right Nat.one_ne_zero,
    GoesToAllowed, setMaxAllowedFreq_eq]
  constructor
  · rintro ⟨i, highest, state⟩
    have same := congrArg CoreDvfs.dvfsState (Option.some.inj state)
    exact Int.natCast_inj.mp same ▸ highest
  · exact fun highest => ⟨_, highest, rfl⟩

end CoreDvfs

namespace IpDvfs

/-- The power of the state with a number (the power column of `voltage_freq_table`). -/
def statePower (ip : IpDvfs) (i : Nat) : Rat :=
  dynamicPower ip.ipType.capacitance (ipVoltageFreq.getD i (0, 0))

theorem rising (ip : IpDvfs) : Rising (dynamicPower ip.ipType.capacitance)
    (ipVoltageFreq.getD 0 (0, 0)) (ipVoltageFreq.getD 1 (0, 0)) (ipVoltageFreq.drop 2) where
  powers := by
    have each : ∀ kind : IpType, ipVoltageFreq.Pairwise fun row higher =>
        dynamicPower kind.capacitance row ≤ dynamicPower kind.capacitance higher := by
      intro kind
      cases kind <;> decide +kernel
    exact each ip.ipType

theorem setMaxAllowedFreq_eq (coordinatedPower : Rat) (ip : IpDvfs) :
    ip.setMaxAllowedFreq coordinatedPower = some { ip with
      dvfsState :=
        (if ip.statePower 0 < coordinatedPower - ip.powerInLastEpoch then 0 else 6 : Nat) } := by
  have low : getIndexInTable ipVoltageFreq (ipVoltageFreq.getD 0 (0, 0)).2 = some 0 := by
    decide +kernel
  have high : getIndexInTable ipVoltageFreq ((freqs ipVoltageFreq).getLastD 0) = some 6 := by
    decide +kernel
  have selected : ip.getFreqForPower (coordinatedPower - ip.powerInLastEpoch) =
      if ip.statePower 0 < coordinatedPower - ip.powerInLastEpoch
        then (ipVoltageFreq.getD 0 (0, 0)).2
      else (freqs ipVoltageFreq).getLastD 0 := ip.rising.freqForPower_eq
  rw [setMaxAllowedFreq, setIPFreq, selected]
  split
  · rw [low]
    rfl
  · rw [high]
    rfl

/-- The frequency for a power is that of the state that the budget allows. -/
def FindsAllowed (ip : IpDvfs) (power : Rat) : Prop :=
  ∃ i, HighestBelow ipVoltageFreq (dynamicPower ip.ipType.capacitance) power i ∧
    ip.getFreqForPower power = tableFreq ipVoltageFreq i

/-- The IP goes to the state that the power left for it allows. -/
def GoesToAllowed (coordinatedPower : Rat) (ip : IpDvfs) : Prop :=
  ∃ i, HighestBelow ipVoltageFreq (dynamicPower ip.ipType.capacitance)
      (coordinatedPower - ip.powerInLastEpoch) i ∧
    ip.setMaxAllowedFreq coordinatedPower = some { ip with dvfsState := (i : Nat) }

/-- The budget lies between the powers of the two lowest states. -/
def LowestFits (ip : IpDvfs) (power : Rat) : Prop :=
  ip.statePower 0 < power ∧ power ≤ ip.statePower 1

theorem goesToAllowed_iff (coordinatedPower : Rat) (ip : IpDvfs) :
    ip.GoesToAllowed coordinatedPower ↔ ip.LowestFits (coordinatedPower - ip.powerInLastEpoch) := by
  rw [LowestFits, statePower, statePower, ← ip.rising.state_right (show 6 ≠ 0 by decide),
    GoesToAllowed, setMaxAllowedFreq_eq]
  constructor
  · rintro ⟨i, highest, state⟩
    have same := congrArg IpDvfs.dvfsState (Option.some.inj state)
    exact Int.natCast_inj.mp same ▸ highest
  · exact fun highest => ⟨_, highest, rfl⟩

end IpDvfs

/-- The power cap selects the right state exactly for the budgets that only the lowest one fits. -/
theorem powercap_right_iff (power coordinatedPower : Rat) (c : CoreDvfs) (ip : IpDvfs) :
    (CoreDvfs.FindsAllowed power ↔ CoreDvfs.LowestFits power) ∧
    (c.GoesToAllowed coordinatedPower ↔
      CoreDvfs.LowestFits (coordinatedPower - c.powerInLastEpoch)) ∧
    (ip.FindsAllowed power ↔ ip.LowestFits power) ∧
    (ip.GoesToAllowed coordinatedPower ↔
      ip.LowestFits (coordinatedPower - ip.powerInLastEpoch)) := by
  have core_distinct : (freqs coreVoltageFreq).Nodup := by decide +kernel
  have ip_distinct : (freqs ipVoltageFreq).Nodup := by decide +kernel
  exact ⟨CoreDvfs.rising.freqForPower_right core_distinct, c.goesToAllowed_iff coordinatedPower,
    ip.rising.freqForPower_right ip_distinct, ip.goesToAllowed_iff coordinatedPower⟩

/-- A budget of 2 W gives the core its lowest frequency, and a budget of nothing its highest. -/
theorem powercap_backwards :
    CoreDvfs.getFreqForPower 2 = 3 / 10 ∧ HighestBelow coreVoltageFreq CoreDvfs.rowPower 2 9 ∧
    CoreDvfs.getFreqForPower 0 = 18 / 10 ∧ HighestBelow coreVoltageFreq CoreDvfs.rowPower 0 0 ∧
    ¬ ∀ power, CoreDvfs.FindsAllowed power := by
  have tenth : HighestBelow coreVoltageFreq CoreDvfs.rowPower 2 9 := by
    have rows_above : ∀ row ∈ coreVoltageFreq.drop 10, 2 ≤ CoreDvfs.rowPower row := by
      decide +kernel
    refine Or.inl ⟨coreVoltageFreq[9], rfl, by decide +kernel, fun j higher above at_j => ?_⟩
    refine rows_above higher (List.mem_of_getElem? (i := j - 10) ?_)
    rw [List.getElem?_drop, Nat.add_sub_cancel' above]
    exact at_j
  have short : HighestBelow coreVoltageFreq CoreDvfs.rowPower 0 0 :=
    Or.inr ⟨rfl, by decide +kernel⟩
  refine ⟨by decide +kernel, tenth, by decide +kernel, short, fun always => ?_⟩
  have distinct : (freqs coreVoltageFreq).Nodup := by decide +kernel
  have fits := (CoreDvfs.rising.freqForPower_right distinct).mp (always 2)
  exact absurd fits.2 (by decide +kernel)

end GemDroid

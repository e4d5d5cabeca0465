import Mathlib.Data.List.GetD
import Mathlib.Data.List.Nodup
import Mathlib.Data.Int.ModEq

/-! The pool of functional units, where every class of operations has its units in a circle. -/

namespace GemDroid

/-- The classes of operations. -/
inductive OpClass where
  | No_OpClass | IntAlu | IntMult | IntDiv | FloatAdd | FloatCmp | FloatCvt | FloatMult | FloatDiv
  | FloatSqrt | SimdAdd | SimdAddAcc | SimdAlu | SimdCmp | SimdCvt | SimdMisc | SimdMult
  | SimdMultAcc | SimdShift | SimdShiftAcc | SimdSqrt | SimdFloatAdd | SimdFloatAlu | SimdFloatCmp
  | SimdFloatCvt | SimdFloatDiv | SimdFloatMisc | SimdFloatMult | SimdFloatMultAcc | SimdFloatSqrt
  | MemRead | MemWrite | IprAccess | InstPrefetch
  deriving DecidableEq

/-- A class of operations that a unit provides, and its latencies. -/
structure OpDesc where
  opClass : OpClass
  opLat : Nat := 1
  issueLat : Nat := 1

/-- Some units that are alike. -/
structure FUDesc where
  opDescList : List OpDesc
  number : Nat

/-- The units of one class in a circle (`FUIdxQueue`). -/
structure FUIdxQueue where
  funcUnitsIdx : List Nat
  idx : Nat := 0

/-- Take the unit at the head and go on to the next one. -/
def FUIdxQueue.getFU (q : FUIdxQueue) : Nat × FUIdxQueue :=
  (q.funcUnitsIdx.getD q.idx 0,
    { q with idx := if q.idx + 1 = q.funcUnitsIdx.length then 0 else q.idx + 1 })

/-- The pool. -/
structure FUPool where
  fuPerCapList : OpClass → FUIdxQueue
  maxOpLatencies : OpClass → Nat
  maxIssueLatencies : OpClass → Nat
  numFU : Nat
  unitBusy : Nat → Bool := fun _ => false
  unitsToBeFreed : List Nat := []

namespace FUPool

/-- The units that descriptions give to a class, the first of them being `numFU`. -/
def unitsOf (op_class : OpClass) : (numFU : Nat) → List FUDesc → List Nat
  | _, [] => []
  | numFU, desc :: descs =>
    -- A class that is described more than once gets the units as often.
    ((desc.opDescList.filter fun op => op.opClass = op_class).flatMap fun _ =>
      (List.range desc.number).map (numFU + ·)) ++ unitsOf op_class (numFU + desc.number) descs

/-- The largest latency that descriptions give to a class. -/
def maxLatency (latency : OpDesc → Nat) (op_class : OpClass) (descs : List FUDesc) : Nat :=
  (((descs.filter fun desc => desc.number ≠ 0).flatMap FUDesc.opDescList).filter
    fun op => op.opClass = op_class).foldl (fun most op => max most (latency op)) 0

/-- The pool of some descriptions (the constructor). -/
def create (descs : List FUDesc) : FUPool where
  fuPerCapList op_class := { funcUnitsIdx := unitsOf op_class 0 descs }
  maxOpLatencies op_class := maxLatency OpDesc.opLat op_class descs
  maxIssueLatencies op_class := maxLatency OpDesc.issueLat op_class descs
  numFU := (descs.map FUDesc.number).sum

/-- Look for a unit that is not busy, until the first unit comes again (the loop of `getUnit`). -/
def search (unitBusy : Nat → Bool) (start_idx : Nat) :
    Nat → (fu_idx : Nat) → FUIdxQueue → Option (Option Nat × FUIdxQueue)
  | 0, _, _ => none
  | fuel + 1, fu_idx, q =>
    if unitBusy fu_idx then
      let (fu_idx, q) := q.getFU
      if fu_idx = start_idx then some (none, q) else search unitBusy start_idx fuel fu_idx q
    else some (some fu_idx, q)

/-- Go on in the circle of a class. -/
def setQueue (c : OpClass) (q : FUIdxQueue) (p : FUPool) : FUPool :=
  { p with fuPerCapList := Function.update p.fuPerCapList c q }

/-- What the search of `getUnit` leads to. -/
def give (capability : OpClass) (p : FUPool) : Option Nat × FUIdxQueue → Option (Int × FUPool)
  | (none, q) => some (-1, p.setQueue capability q)
  | (some fu_idx, q) =>
    if fu_idx < p.numFU then
      some (fu_idx,
        { p.setQueue capability q with unitBusy := Function.update p.unitBusy fu_idx true })
    else none

/--
Take a unit of a class: `-2` if the pool has none, `-1` if the search finds all busy.

The search comes back to its first unit within as many rounds as the circle has places.
-/
def getUnit (capability : OpClass) (p : FUPool) : Option (Int × FUPool) :=
  let q := p.fuPerCapList capability
  -- A class is in the list of capabilities when it was given units.
  if q.funcUnitsIdx.isEmpty then some (-2, p)
  else
    let first := q.getFU
    (search p.unitBusy first.1 q.funcUnitsIdx.length first.1 first.2).bind (p.give capability)

/-- Free a unit at the end of the cycle. -/
def freeUnitNextCycle (fu_idx : Nat) (p : FUPool) : Option FUPool :=
  if p.unitBusy fu_idx then some { p with unitsToBeFreed := p.unitsToBeFreed ++ [fu_idx] } else none

/-- A place of a circle, counted on beyond its end. -/
def place (units : List Nat) (i : Nat) : Nat :=
  units.getD (i % units.length) 0

/-- From every place of a circle on, each unit comes before the first one comes again. -/
def Rounds (units : List Nat) : Prop :=
  ∀ i, ∀ u ∈ units, ∃ k, place units (i + k) = u ∧
    ∀ m, 0 < m → m ≤ k → place units (i + m) ≠ place units i

theorem rounds_of_nodup {units : List Nat} (nodup : units.Nodup) : Rounds units := by
  intro i u mem
  obtain ⟨j, below, rfl⟩ := List.mem_iff_getElem.mp mem
  have positive : 0 < units.length := by omega
  have here : i % units.length < units.length := Nat.mod_lt _ positive
  -- The distance to the unit is shorter than a round.
  obtain ⟨k, short, reached⟩ : ∃ k < units.length, (i + k) % units.length = j := by
    refine ⟨(j + units.length - i % units.length) % units.length, Nat.mod_lt _ positive, ?_⟩
    rw [Nat.add_mod_mod, ← Nat.mod_add_mod, Nat.add_sub_cancel' (by omega), Nat.add_mod_right,
      Nat.mod_eq_of_lt below]
  refine ⟨k, ?_, fun m later before same => ?_⟩
  · rw [place, reached, List.getD_eq_getElem _ _ below]
  · have there : (i + m) % units.length < units.length := Nat.mod_lt _ positive
    rw [place, place, List.getD_eq_getElem _ _ there, List.getD_eq_getElem _ _ here,
      nodup.getElem_inj_iff] at same
    have whole : m % units.length = 0 % units.length :=
      Nat.ModEq.add_left_cancel' (n := units.length) (c := i) same
    rw [Nat.zero_mod, Nat.mod_eq_of_lt (by omega)] at whole
    omega

theorem place_mem {units : List Nat} (some_unit : units ≠ []) (i : Nat) : place units i ∈
    units := by
  have below : i % units.length < units.length :=
    Nat.mod_lt _ (List.length_pos_of_ne_nil some_unit)
  rw [place, List.getD_eq_getElem _ _ below]
  exact List.getElem_mem below

theorem getFU_eq {units : List Nat} (some_unit : units ≠ []) (i : Nat) :
    ({ funcUnitsIdx := units, idx := i % units.length } : FUIdxQueue).getFU =
      (place units i, { funcUnitsIdx := units, idx := (i + 1) % units.length }) := by
  have below : i % units.length < units.length :=
    Nat.mod_lt _ (List.length_pos_of_ne_nil some_unit)
  rw [FUIdxQueue.getFU, place]
  refine congrArg (Prod.mk _) (congrArg (FUIdxQueue.mk units) ?_)
  dsimp only
  rw [← Nat.mod_add_mod i units.length 1]
  split_ifs with last
  · rw [last, Nat.mod_self]
  · exact (Nat.mod_eq_of_lt (by omega)).symm

/--
The search finds a unit that is not busy, or all units busy up to where the first one comes again.
-/
theorem search_spec (unitBusy : Nat → Bool) {units : List Nat} (some_unit : units ≠ []) (i : Nat) :
    ∃ found next, search unitBusy (place units i) units.length (place units i)
        { funcUnitsIdx := units, idx := (i + 1) % units.length } =
          some (found, { funcUnitsIdx := units, idx := next % units.length }) ∧
      (∀ u, found = some u → u ∈ units ∧ unitBusy u = false) ∧
      (found = none → ∃ k, 0 < k ∧ place units (i + k) = place units i ∧
        ∀ m < k, unitBusy (place units (i + m)) = true) := by
  have positive := List.length_pos_of_ne_nil some_unit
  -- The search stands at some place of the first round, all before it being busy.
  suffices onward : ∀ rest j, j + rest = units.length → 0 < rest →
      (∀ m < j, unitBusy (place units (i + m)) = true) →
      ∃ found next, search unitBusy (place units i) rest (place units (i + j))
          { funcUnitsIdx := units, idx := (i + j + 1) % units.length } =
            some (found, { funcUnitsIdx := units, idx := next % units.length }) ∧
        (∀ u, found = some u → u ∈ units ∧ unitBusy u = false) ∧
        (found = none → ∃ k, 0 < k ∧ place units (i + k) = place units i ∧
          ∀ m < k, unitBusy (place units (i + m)) = true) from
    onward units.length 0 (Nat.zero_add _) positive fun m never => absurd never (Nat.not_lt_zero m)
  intro rest
  induction rest with
  | zero => intro j _ never
            exact absurd never (Nat.lt_irrefl 0)
  | succ rest ih =>
    intro j whole _ busy
    rw [search]
    cases here : unitBusy (place units (i + j)) with
    | false =>
      exact ⟨some (place units (i + j)), i + j + 1, rfl,
        fun u same => Option.some.inj same ▸ ⟨place_mem some_unit _, here⟩, fun none =>
          nomatch none⟩
    | true =>
      have busy' (m : Nat) (before : m < j + 1) : unitBusy (place units (i + m)) = true := by
        rcases Nat.lt_succ_iff_lt_or_eq.mp before with earlier | rfl
        · exact busy m earlier
        · exact here
      rw [if_pos rfl, getFU_eq some_unit]
      dsimp only
      by_cases again : place units (i + j + 1) = place units i
      · rw [if_pos again]
        exact ⟨none, i + j + 1 + 1, rfl, fun u none => (nomatch none),
          fun _ => ⟨j + 1, Nat.succ_pos j, again, busy'⟩⟩
      · rw [if_neg again]
        refine ih (j + 1) (by omega) ?_ busy'
        -- After a whole round the first unit would have come again.
        by_contra last
        refine again ?_
        rw [place, place, show i + j + 1 = i + units.length by omega, Nat.add_mod_right]

/-- The head of the circle of every class is one of its places, and its units are known. -/
def Ready (p : FUPool) : Prop :=
  ∀ c, (p.fuPerCapList c).funcUnitsIdx ≠ [] →
    (p.fuPerCapList c).idx < (p.fuPerCapList c).funcUnitsIdx.length ∧
      ∀ u ∈ (p.fuPerCapList c).funcUnitsIdx, u < p.numFU

/-- Two pools have the same units, and those that are busy in the first one are in the second. -/
def Before (p p' : FUPool) : Prop :=
  (∀ c, (p'.fuPerCapList c).funcUnitsIdx = (p.fuPerCapList c).funcUnitsIdx) ∧
    ∀ u, p.unitBusy u = true → p'.unitBusy u = true

/-- The pool has units for a class, and all of them are busy. -/
def AllBusy (p : FUPool) (c : OpClass) : Prop :=
  (p.fuPerCapList c).funcUnitsIdx ≠ [] ∧
    ∀ u ∈ (p.fuPerCapList c).funcUnitsIdx, p.unitBusy u = true

theorem Before.refl (p : FUPool) : p.Before p := ⟨fun _ => rfl, fun _ busy => busy⟩

theorem Before.trans {p p' p'' : FUPool} (first : p.Before p') (second : p'.Before p'') :
    p.Before p'' :=
  ⟨fun c => (second.1 c).trans (first.1 c), fun u busy => second.2 u (first.2 u busy)⟩

theorem AllBusy.later {p p' : FUPool} {c : OpClass} (busy : p.AllBusy c) (before : p.Before p') :
    p'.AllBusy c := by
  rw [AllBusy, before.1 c]
  exact ⟨busy.1, fun u mem => before.2 u (busy.2 u mem)⟩

/-- A unit that is given out was not busy; none is given out where every unit of a round is. -/
theorem getUnit_spec {p : FUPool} (ready : p.Ready) (c : OpClass) :
    ∃ idx p', p.getUnit c = some (idx, p') ∧ p'.Ready ∧ p.Before p' ∧
      (idx = -2 ∨ (idx = -1 ∧ (Rounds (p.fuPerCapList c).funcUnitsIdx → p.AllBusy c)) ∨
        ∃ u : Nat, idx = u ∧ p'.unitBusy u = true) := by
  by_cases empty : (p.fuPerCapList c).funcUnitsIdx = []
  · refine ⟨-2, p, ?_, ready, ⟨fun _ => rfl, fun _ busy => busy⟩, .inl rfl⟩
    rw [getUnit, if_pos (List.isEmpty_iff.mpr empty)]
  · obtain ⟨head, known⟩ := ready c empty
    have circle : p.fuPerCapList c = ⟨(p.fuPerCapList c).funcUnitsIdx,
        (p.fuPerCapList c).idx % (p.fuPerCapList c).funcUnitsIdx.length⟩ := by
      rw [Nat.mod_eq_of_lt head]
    generalize (p.fuPerCapList c).funcUnitsIdx = units at circle empty known
    generalize (p.fuPerCapList c).idx = i at circle
    obtain ⟨found, next, searched, free, round⟩ := search_spec p.unitBusy empty i
    have some_unit : ¬units.isEmpty = true := fun none => empty (List.isEmpty_iff.mp none)
    have taken : p.getUnit c = p.give c (found, ⟨units, next % units.length⟩) := by
      rw [getUnit, circle, if_neg some_unit, getFU_eq empty]
      dsimp only
      rw [searched, Option.bind_some]
    -- Only the head of the circle of this class has changed.
    have lists (d : OpClass) :
        ((p.setQueue c ⟨units, next % units.length⟩).fuPerCapList d).funcUnitsIdx =
          (p.fuPerCapList d).funcUnitsIdx := by
      show (Function.update p.fuPerCapList c _ d).funcUnitsIdx = _
      rw [Function.update_apply]
      split_ifs with same
      · rw [same, circle]
      · rfl
    have ready' : (p.setQueue c ⟨units, next % units.length⟩).Ready := by
      intro d
      rw [setQueue]
      simp only [Function.update_apply]
      by_cases same : d = c
      · simp only [if_pos same]
        exact fun _ => ⟨Nat.mod_lt _ (List.length_pos_of_ne_nil empty), known⟩
      · simp only [if_neg same]
        exact ready d
    cases found with
    | none =>
      refine ⟨-1, _, taken, ready', ⟨lists, fun _ busy => busy⟩, .inr (.inl ⟨rfl, ?_⟩)⟩
      intro rounds
      rw [AllBusy, circle]
      refine ⟨empty, fun u mem => ?_⟩
      obtain ⟨k, positive, again, busy⟩ := round rfl
      obtain ⟨m, here, before⟩ := rounds i u mem
      -- The unit comes before the first one comes again, up to where all are busy.
      rw [← here]
      refine busy m ?_
      by_contra late
      exact before k positive (by omega) again
    | some fu_idx =>
      obtain ⟨mem, -⟩ := free fu_idx rfl
      refine ⟨fu_idx, _, taken.trans (if_pos (known fu_idx mem)), ready', ⟨lists, fun u busy => ?_⟩,
        .inr (.inr ⟨fu_idx, rfl, Function.update_self ..⟩)⟩
      show Function.update p.unitBusy fu_idx true u = true
      rw [Function.update_apply, busy]
      split_ifs <;> rfl

theorem ready_create (descs : List FUDesc) : (create descs).Ready := by
  have known (c : OpClass) (numFU : Nat) :
      ∀ u ∈ unitsOf c numFU descs, u < numFU + (descs.map FUDesc.number).sum := by
    induction descs generalizing numFU with
    | nil => exact fun u never => absurd never List.not_mem_nil
    | cons desc descs ih =>
      intro u mem
      rw [List.map_cons, List.sum_cons]
      rcases List.mem_append.mp mem with here | later
      · obtain ⟨op, -, mem'⟩ := List.mem_flatMap.mp here
        obtain ⟨k, below, rfl⟩ := List.mem_map.mp mem'
        have less := List.mem_range.mp below
        omega
      · have less := ih (numFU + desc.number) u later
        omega
  intro c some_unit
  refine ⟨List.length_pos_of_ne_nil some_unit, fun u mem => ?_⟩
  have less := known c 0 u mem
  rwa [Nat.zero_add] at less

end FUPool

end GemDroid

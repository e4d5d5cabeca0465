import Mathlib.Tactic.Linarith
import Mathlib.Tactic.FieldSimp
import Mathlib.Tactic.Ring
import GemDroid.Base.Statistics

/-! What the ways to grow a histogram make of its buckets. -/

namespace GemDroid

namespace HistStor

variable {h h' : HistStor} {size : Nat}

@[simp] theorem addTo_apply (cvec : Nat → Counter) (index k : Nat) (number : Counter) :
    addTo cvec index number k = if k = index then cvec k + number else cvec k := by
  rw [addTo, Function.update_apply]
  split_ifs with same
  · rw [same]
  · rfl

theorem write_apply {cvec : Nat → Counter} {i first second k : Nat} (apart : second ≠ i)
    {c : Prop} [Decidable c] :
    (if c then
        addTo (Function.update cvec i (cvec first)) i
          (Function.update cvec i (cvec first) second)
      else Function.update cvec i (cvec first)) k =
      if k = i then cvec first + (if c then cvec second else 0) else cvec k := by
  by_cases both : c
  · rw [if_pos both, if_pos both, addTo_apply, Function.update_apply, Function.update_of_ne apart]
    split_ifs <;> rfl
  · rw [if_neg both, if_neg both, Function.update_apply, add_zero]

theorem pairUp_eq (size steps i d : Nat) (cvec : Nat → Counter) :
    pairUp size steps i (i + d) cvec =
      (fun k => if i ≤ k ∧ k < i + steps then
          cvec (2 * k - i + d) + (if 2 * k - i + d + 1 < size then cvec (2 * k - i + d + 1) else 0)
        else cvec k, i + d + 2 * steps) := by
  -- Buckets are read before they are filled, as the reading is ahead of the filling.
  induction steps generalizing i d cvec with
  | zero =>
    rw [pairUp]
    refine Prod.ext (funext fun k => ?_) (by simp)
    exact (if_neg (by omega)).symm
  | succ steps ih =>
    rw [pairUp, show i + d + 2 = i + 1 + (d + 1) by omega, ih]
    refine Prod.ext (funext fun k => ?_) (by simp only; omega)
    simp only [write_apply (show i + d + 1 ≠ i by omega)]
    by_cases here : k = i
    · subst here
      rw [if_neg (show ¬(k + 1 ≤ k ∧ k < k + 1 + steps) by omega), if_pos rfl,
        if_pos (show k ≤ k ∧ k < k + (steps + 1) by omega), show 2 * k - k + d = k + d by omega]
    · by_cases inside : i + 1 ≤ k ∧ k < i + 1 + steps
      · rw [if_pos inside, if_pos (show i ≤ k ∧ k < i + (steps + 1) by omega),
          show 2 * k - (i + 1) + (d + 1) = 2 * k - i + d by omega,
          if_neg (show 2 * k - i + d ≠ i by omega), if_neg (show 2 * k - i + d + 1 ≠ i by omega)]
      · rw [if_neg inside, if_neg (show ¬(i ≤ k ∧ k < i + (steps + 1)) by omega), if_neg here]

/-- Downwards, every bucket is the pair that ends at twice its distance. -/
theorem pairDown_eq (steps i d : Nat) (cvec : Nat → Counter) (room : 2 * steps + d ≤ i + 2)
    (below : steps ≤ i + 1) :
    pairDown steps i (i - d) cvec =
      some (fun k => if i < k + steps ∧ k ≤ i then
          cvec (2 * k - i - d) + (if i + d < 2 * k then cvec (2 * k - i - d - 1) else 0)
        else cvec k, (i - d - 2 * steps : Int)) := by
  -- Buckets are read before they are filled, as the reading is ahead of the filling.
  induction steps generalizing i d cvec with
  | zero =>
    rw [pairDown]
    refine congrArg some (Prod.ext (funext fun k => ?_) (by simp))
    exact (if_neg (by omega)).symm
  | succ steps ih =>
    rw [pairDown, if_neg (by omega), show ((i : Int) - d).toNat = i - d by omega,
      show ((i : Int) - d - 1).toNat = i - d - 1 by omega]
    rcases Nat.eq_zero_or_pos i with rfl | above
    · -- The first bucket is the last that is filled.
      obtain rfl : steps = 0 := by omega
      obtain rfl : d = 0 := by omega
      rw [pairDown]
      refine congrArg some (Prod.ext (funext fun k => ?_) (by simp))
      dsimp only
      rw [if_neg (by decide), Function.update_apply]
      by_cases here : k = 0
      · subst here
        simp
      · rw [if_neg here, if_neg (show ¬(0 < k + (0 + 1) ∧ k ≤ 0) by omega)]
    · rw [show (i : Int) - d - 2 = ((i - 1 : Nat) : Int) - ((d + 1 : Nat) : Int) by omega,
        ih (i - 1) (d + 1) _ (by omega) (by omega)]
      refine congrArg some (Prod.ext (funext fun k => ?_) (by simp only; omega))
      simp only [write_apply (show i - d - 1 ≠ i by omega)]
      have more_iff : ((i : Int) - d - 1 ≥ 0) = (i + d < 2 * i) := propext (by omega)
      simp only [more_iff]
      by_cases here : k = i
      · subst here
        rw [if_neg (show ¬(k - 1 < k + steps ∧ k ≤ k - 1) by omega), if_pos rfl,
          if_pos (show k < k + (steps + 1) ∧ k ≤ k by omega), show 2 * k - k - d = k - d by omega]
      · by_cases inside : i - 1 < k + steps ∧ k ≤ i - 1
        · have more : (i - 1 + (d + 1) < 2 * k) = (i + d < 2 * k) := propext (by omega)
          simp only [more]
          rw [if_pos inside, if_pos (show i < k + (steps + 1) ∧ k ≤ i by omega),
            show 2 * k - (i - 1) - (d + 1) = 2 * k - i - d by omega,
            if_neg (show 2 * k - i - d ≠ i by omega), if_neg (show 2 * k - i - d - 1 ≠ i by omega)]
        · rw [if_neg inside, if_neg (show ¬(i < k + (steps + 1) ∧ k ≤ i) by omega), if_neg here]

section closed

variable (size : Nat) (cvec : Nat → Counter)

/-- The buckets of a histogram that has grown upwards. -/
def upCvec (k : Nat) : Counter :=
  if k < (size + 1) / 2 then cvec (2 * k) + (if 2 * k + 1 < size then cvec (2 * k + 1) else 0)
  else if k < size then 0
  else cvec k

/-- The buckets of a histogram that has been extended to both sides. -/
def convertCvec (k : Nat) : Counter :=
  if k < (size + 1) / 2 then 0
  else if k < size then
    cvec (2 * k + 1 - size) + (if size ≤ 2 * k then cvec (2 * k - size) else 0)
  else cvec k

/-- The buckets of a histogram that has grown to both sides. -/
def outCvec (k : Nat) : Counter :=
  if k < (size - size / 2) / 2 then 0
  else if k < size / 2 then
    cvec (2 * k + 1 - size / 2) + (if size / 2 ≤ 2 * k then cvec (2 * k - size / 2) else 0)
  else if k < size / 2 + (size - size / 2 + 1) / 2 then
    cvec (2 * k - size / 2) +
      (if 2 * k - size / 2 + 1 < size then cvec (2 * k - size / 2 + 1) else 0)
  else if k < size then 0
  else cvec k

end closed

theorem growUp_eq (h : HistStor) :
    h.growUp = some { h with
      cvec := upCvec h.size h.cvec, max_bucket := h.max_bucket * 2,
      bucket_size := h.bucket_size * 2 } := by
  have filled := pairUp_eq h.size ((h.size + 1) / 2) 0 0 h.cvec
  rw [Nat.add_zero] at filled
  rw [growUp, filled]
  dsimp only
  rw [if_neg (by omega)]
  congr 2
  funext k
  rw [clear, upCvec]
  by_cases lower : k < (h.size + 1) / 2
  · rw [if_neg (by omega), if_pos (by omega), if_pos lower]
    simp
  · rw [if_neg lower]
    by_cases inside : k < h.size
    · rw [if_pos (by omega), if_pos inside]
    · rw [if_neg (by omega), if_neg (by omega), if_neg inside]

theorem growConvert_eq (several : 2 ≤ h.size) :
    h.growConvert = some { h with
      cvec := convertCvec h.size h.cvec, min_bucket := -h.max_bucket,
      bucket_size := h.bucket_size * 2 } := by
  have filled := pairDown_eq (h.size - (h.size + 1) / 2) (h.size - 1) 0 h.cvec (by omega) (by omega)
  rw [show ((h.size - 1 : Nat) : Int) - (0 : Nat) = (h.size : Int) - 1 by omega] at filled
  rw [growConvert, filled]
  simp only [Option.bind_eq_bind, Option.bind_some]
  congr 2
  funext k
  rw [clear, convertCvec]
  by_cases lower : k < (h.size + 1) / 2
  · rw [if_pos (by omega), if_pos lower]
  · rw [if_neg (by omega), if_neg lower]
    by_cases inside : k < h.size
    · rw [if_pos (by omega), if_pos inside,
        show 2 * k - (h.size - 1) - 0 = 2 * k + 1 - h.size by omega]
      congr 1
      by_cases more : h.size ≤ 2 * k
      · rw [if_pos (by omega), if_pos more, show 2 * k + 1 - h.size - 1 = 2 * k - h.size by omega]
      · rw [if_neg (by omega), if_neg more]
    · rw [if_neg (by omega), if_neg inside]

theorem growOut_lower {size : Nat} (several : 2 ≤ size) (cvec : Nat → Counter) :
    ∃ lower,
      pairDown (size / 2 - (size - size / 2) / 2) (size / 2 - 1) ((size / 2 : Nat) - 1) cvec =
        some (lower, ((size / 2 : Nat) - 1 - 2 * (size / 2 - (size - size / 2) / 2 : Nat) : Int)) ∧
      (∀ k < size / 2, clear 0 ((size - size / 2) / 2) lower k = outCvec size cvec k) ∧
      ∀ k ≥ size / 2, clear 0 ((size - size / 2) / 2) lower k = cvec k := by
  have filled := pairDown_eq (size / 2 - (size - size / 2) / 2) (size / 2 - 1) 0 cvec
    (by omega) (by omega)
  rw [show ((size / 2 - 1 : Nat) : Int) - (0 : Nat) = ((size / 2 : Nat) : Int) - 1 by omega]
    at filled
  refine ⟨_, filled, fun k below => ?_, fun k above => ?_⟩
  · rw [clear, outCvec]
    by_cases bottom : k < (size - size / 2) / 2
    · rw [if_pos (by omega), if_pos bottom]
    · rw [if_neg (show ¬(0 ≤ k ∧ k < (size - size / 2) / 2) by omega), if_neg bottom, if_pos below,
        if_pos (by omega), show 2 * k - (size / 2 - 1) - 0 = 2 * k + 1 - size / 2 by omega]
      congr 1
      by_cases more : size / 2 ≤ 2 * k
      · rw [if_pos (by omega), if_pos more,
          show 2 * k + 1 - size / 2 - 1 = 2 * k - size / 2 by omega]
      · rw [if_neg (by omega), if_neg more]
  · rw [clear, if_neg (show ¬(0 ≤ k ∧ k < (size - size / 2) / 2) by omega), if_neg (by omega)]

theorem growOut_eq (several : 2 ≤ h.size) :
    h.growOut = some { h with
      cvec := outCvec h.size h.cvec, max_bucket := h.max_bucket * 2,
      min_bucket := h.min_bucket * 2, bucket_size := h.bucket_size * 2 } := by
  obtain ⟨lower, down, low, high⟩ := growOut_lower several h.cvec
  have up := pairUp_eq h.size (h.size / 2 + (h.size - h.size / 2 + 1) / 2 - h.size / 2)
    (h.size / 2) 0 (clear 0 ((h.size - h.size / 2) / 2) lower)
  simp only [Nat.add_zero] at up
  rw [growOut]
  simp only [down, up, Option.bind_eq_bind, Option.bind_some]
  rw [if_neg (by omega), if_neg (by omega)]
  congr 2
  funext k
  rw [clear]
  -- The lower half has been filled before, and what the upper half reads has been left.
  by_cases below : k < h.size / 2
  · rw [if_neg (by omega), if_neg (by omega), low k below]
  · by_cases filled : k < h.size / 2 + (h.size - h.size / 2 + 1) / 2
    · rw [if_neg (by omega), if_pos (by omega), high _ (by omega), high _ (by omega), outCvec,
        if_neg (show ¬k < (h.size - h.size / 2) / 2 by omega), if_neg below, if_pos filled]
    · rw [outCvec, if_neg (show ¬k < (h.size - h.size / 2) / 2 by omega), if_neg below,
        if_neg filled]
      by_cases inside : k < h.size
      · rw [if_pos (by omega), if_pos inside]
      · rw [if_neg (by omega), if_neg (by omega), if_neg inside, high k (by omega)]

end HistStor

end GemDroid

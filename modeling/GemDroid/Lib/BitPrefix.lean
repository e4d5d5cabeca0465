import Mathlib.Data.Nat.Basic

/-! The first bits of a bit vector, and the masks that keep them. -/

namespace BitPrefix

variable {w : Nat} {a b c : BitVec w} {m n : Nat}

/-- The mask that keeps the first `n` bits, from the most significant one on. -/
def prefixMask (w n : Nat) : BitVec w :=
  BitVec.allOnes w <<< (w - n)

/-- The mask keeps just the bits before `n`. -/
theorem getMsbD_prefixMask (inside : n ≤ w) (i : Nat) :
    (prefixMask w n).getMsbD i = decide (i < n) := by
  rw [prefixMask, BitVec.getMsbD_shiftLeft, BitVec.getMsbD_allOnes]
  congr 1
  apply propext
  omega

/-- Masks of different lengths are different. -/
theorem prefixMask_inj (first : m ≤ w) (second : n ≤ w) :
    prefixMask w m = prefixMask w n ↔ m = n := by
  constructor
  · intro same
    -- The bit after the shorter mask tells the two apart.
    have bits : ∀ i, (decide (i < m) = decide (i < n)) := fun i => by
      rw [← getMsbD_prefixMask first, ← getMsbD_prefixMask second, same]
    have atM := bits m
    have atN := bits n
    simp only [decide_eq_decide] at atM atN
    omega
  · rintro rfl
    rfl

/-- A mask is part of another when it is no longer. -/
theorem prefixMask_and (first : m ≤ w) (second : n ≤ w) :
    prefixMask w m &&& prefixMask w n = prefixMask w m ↔ m ≤ n := by
  constructor
  · intro part
    by_contra longer
    have bit := congrArg (fun x => x.getMsbD n) part
    simp only [BitVec.getMsbD_and, getMsbD_prefixMask first, getMsbD_prefixMask second] at bit
    have inside : n < m := by omega
    simp [inside] at bit
  · intro shorter
    apply BitVec.eq_of_getMsbD_eq
    intro i _
    rw [BitVec.getMsbD_and, getMsbD_prefixMask first, getMsbD_prefixMask second]
    by_cases before : i < m
    · simp [before, Nat.lt_of_lt_of_le before shorter]
    · simp [before]

/-- Two vectors have the same first `n` bits. -/
def Agree (n : Nat) (a b : BitVec w) : Prop :=
  ∀ i < n, a.getMsbD i = b.getMsbD i

/-- Two vectors are the same under a mask when they agree on what it keeps. -/
theorem and_eq_iff (inside : n ≤ w) :
    a &&& prefixMask w n = b &&& prefixMask w n ↔ Agree n a b := by
  constructor
  · intro same i before
    have bit := congrArg (fun x => x.getMsbD i) same
    simpa [getMsbD_prefixMask inside, before] using bit
  · intro agree
    apply BitVec.eq_of_getMsbD_eq
    intro i _
    rw [BitVec.getMsbD_and, BitVec.getMsbD_and, getMsbD_prefixMask inside]
    by_cases before : i < n
    · rw [agree i before]
    · simp [before]

namespace Agree

theorem symm (agree : Agree n a b) : Agree n b a :=
  fun i before => (agree i before).symm

theorem trans (first : Agree n a b) (second : Agree n b c) : Agree n a c :=
  fun i before => (first i before).trans (second i before)

theorem mono (agree : Agree n a b) (fewer : m ≤ n) : Agree m a b :=
  fun i before => agree i (Nat.lt_of_lt_of_le before fewer)

end Agree

theorem agree_zero (a b : BitVec w) : Agree 0 a b :=
  fun _ before => absurd before (Nat.not_lt_zero _)

/-- One bit more agrees when that bit does. -/
theorem agree_succ : Agree (n + 1) a b ↔ Agree n a b ∧ a.getMsbD n = b.getMsbD n := by
  constructor
  · intro agree
    exact ⟨agree.mono (Nat.le_succ n), agree n (Nat.lt_succ_self n)⟩
  · rintro ⟨agree, bit⟩ i before
    rcases Nat.lt_succ_iff_lt_or_eq.mp before with earlier | rfl
    · exact agree i earlier
    · exact bit

/-- A masked vector agrees with the vector on what the mask keeps. -/
theorem agree_and (inside : n ≤ w) (a : BitVec w) : Agree n (a &&& prefixMask w n) a := by
  intro i before
  simp [getMsbD_prefixMask inside, before]

end BitPrefix

import Mathlib.Order.Defs.LinearOrder
import Mathlib.Algebra.Order.Ring.Int

/-! A clock divided by a whole number, and how often it ticks in a window of the faster clock. -/

namespace Divider

/--
The state of a window some ticks after it began.

The divided clock has ticked so many times in it, and the last time so many ticks ago.
-/
structure Window (period age fired since : Int) : Prop where
  begun : 0 ≤ age
  low : 0 ≤ since
  high : since < period
  /-- The clock has not rested for a whole period. -/
  least : age + 1 ≤ fired * period + since
  /-- Between two of its ticks there is a whole period. -/
  most : fired = 0 ∨ (fired - 1) * period + since ≤ age

variable {period age fired since : Int}

/-- The clock ticks once a period has passed since the last time. -/
def due (period since : Int) : Prop :=
  period ≤ since

instance : Decidable (due period since) := inferInstanceAs (Decidable (_ ≤ _))

/-- In the first tick of a window the clock ticks or not. -/
theorem window_start (positive : 0 < period) (passed : 1 ≤ since) :
    Window period 0 (if due period since then 1 else 0)
      (if due period since then 0 else since) := by
  by_cases now : due period since
  · rw [if_pos now, if_pos now]
    exact ⟨by omega, by omega, positive, by omega, Or.inr (by omega)⟩
  · rw [if_neg now, if_neg now]
    exact ⟨by omega, by omega, not_le.mp now, by omega, Or.inl rfl⟩

/-- A later tick of the window keeps its state. -/
theorem Window.step (window : Window period age fired since) :
    Window period (age + 1) (if due period (since + 1) then fired + 1 else fired)
      (if due period (since + 1) then 0 else since + 1) := by
  obtain ⟨begun, low, high, least, most⟩ := window
  have next : (fired + 1) * period = fired * period + period := by
    rw [Int.add_mul, Int.one_mul]
  have before : (fired - 1) * period = fired * period - period := by
    rw [Int.sub_mul, Int.one_mul]
  by_cases now : due period (since + 1)
  · have passed : period ≤ since + 1 := now
    rw [if_pos now, if_pos now]
    refine ⟨by omega, by omega, by omega, by rw [next]; omega, Or.inr ?_⟩
    rw [Int.add_sub_cancel]
    rcases most with rfl | most
    · omega
    · omega
  · have rests : since + 1 < period := not_le.mp now
    rw [if_neg now, if_neg now]
    exact ⟨by omega, by omega, rests, by omega, most.imp_right fun most => by omega⟩

/-- At the end of a window the clock has ticked as often as whole periods fit, or once more. -/
theorem Window.count (window : Window period age fired since) (positive : 0 < period) :
    (age + 1) / period ≤ fired ∧ fired ≤ age / period + 1 := by
  obtain ⟨begun, low, high, least, most⟩ := window
  constructor
  · have below : (age + 1) / period < fired + 1 := by
      rw [Int.ediv_lt_iff_lt_mul positive]
      have next : (fired + 1) * period = fired * period + period := by
        rw [Int.add_mul, Int.one_mul]
      omega
    omega
  · rcases most with rfl | most
    · have := Int.ediv_nonneg begun (Int.le_of_lt positive)
      omega
    · have : fired - 1 ≤ age / period := by
        rw [Int.le_ediv_iff_mul_le positive]
        omega
      omega

end Divider

import Mathlib.Data.Nat.Periodic
import Mathlib.Order.Monotone.Basic
import Mathlib.Order.Interval.Finset.Nat
import Mathlib.Tactic.Ring

/-! Numbers laid out in stripes of one width that several owners hold in turn. -/

namespace Stripes

/-- The owner of a number: stripes are `width` wide, and `owners` hold them one after another. -/
def owner (width owners x : Nat) : Nat :=
  x / width % owners

variable {width owners i : Nat}

theorem owner_lt (width : Nat) (some_owner : 0 < owners) (x : Nat) :
    owner width owners x < owners :=
  Nat.mod_lt _ some_owner

/-- After a round over all owners the stripes repeat. -/
theorem owner_add_round (wide : 0 < width) (owners x rounds : Nat) :
    owner width owners (x + rounds * (width * owners)) = owner width owners x := by
  -- A round is a whole number of stripes, and that number is a multiple of the owners.
  have whole : x + rounds * (width * owners) = x + width * (owners * rounds) := by
    rw [Nat.mul_comm rounds, Nat.mul_assoc]
  rw [owner, whole, Nat.add_mul_div_left _ _ wide, Nat.add_mul_mod_self_left, owner]

/-- In the first round every owner holds the numbers of its one stripe. -/
theorem owner_first_round (wide : 0 < width) {x : Nat} (first : x < width * owners) :
    owner width owners x = i ↔ width * i ≤ x ∧ x < width * i + width := by
  have below : x / width < owners := Nat.div_lt_of_lt_mul first
  rw [owner, Nat.mod_eq_of_lt below, Nat.div_eq_iff wide, Nat.mul_comm i width]
  omega

/-- In the first round every owner holds as many numbers as a stripe is wide. -/
theorem count_first_round (wide : 0 < width) (real : i < owners) :
    (width * owners).count (fun x => owner width owners x = i) = width := by
  have stripe : (Finset.range (width * owners)).filter (fun x => owner width owners x = i) =
      Finset.Ico (width * i) (width * i + width) := by
    have inside : width * i + width ≤ width * owners := Nat.mul_le_mul_left width real
    ext x
    rw [Finset.mem_filter, Finset.mem_range, Finset.mem_Ico]
    constructor
    · rintro ⟨first, held⟩
      exact (owner_first_round wide first).mp held
    · intro within
      have first : x < width * owners := by omega
      exact ⟨first, (owner_first_round wide first).mpr within⟩
  rw [Nat.count_eq_card_filter_range, stripe, Nat.card_Ico]
  omega

/-- In so many rounds, begun anywhere, every owner holds that many stripes' worth of numbers. -/
theorem card_rounds (wide : 0 < width) (real : i < owners) (start rounds : Nat) :
    ((Finset.Ico start (start + rounds * (width * owners))).filter
      fun x => owner width owners x = i).card = rounds * width := by
  -- One round begun anywhere holds what the first round holds, since the stripes repeat.
  induction rounds with
  | zero => simp
  | succ rounds ih =>
    have repeats : Function.Periodic (fun x => owner width owners x = i) (width * owners) := by
      intro x
      have round := owner_add_round wide owners x 1
      rw [Nat.one_mul] at round
      simp only [round]
    have split : Finset.Ico start (start + (rounds + 1) * (width * owners)) =
        Finset.Ico start (start + rounds * (width * owners)) ∪
          Finset.Ico (start + rounds * (width * owners))
            (start + rounds * (width * owners) + width * owners) := by
      rw [Finset.Ico_union_Ico_eq_Ico (by omega) (by omega), Nat.succ_mul, Nat.add_assoc]
    have apart := (Finset.Ico_disjoint_Ico_consecutive start
      (start + rounds * (width * owners))
      (start + rounds * (width * owners) + width * owners))
    rw [split, Finset.filter_union, Finset.card_union_of_disjoint
      (Finset.disjoint_filter_filter apart), ih,
      Nat.filter_Ico_card_eq_of_periodic _ _ _ repeats, count_first_round wide real,
      Nat.succ_mul]

/-- The number that an owner holds after so many others. -/
def held (width owners i s : Nat) : Nat :=
  s / width * (width * owners) + (width * i + s % width)

end Stripes

import Mathlib.Algebra.Order.Archimedean.Basic
import GemDroid.Base.HistStorRun

/-! Histograms of samples that are not negative, which do not depend on the order of the samples. -/

namespace GemDroid

namespace HistStor

variable {log : Counter → Counter} {fuel buckets k : Nat} {taken : List Sample}

/-- The histogram of some samples whose buckets have been doubled a number of times. -/
def atLevel (log : Counter → Counter) (buckets k : Nat) (taken : List Sample) : HistStor where
  size := buckets
  min_bucket := 0
  max_bucket := (buckets - 1) * 2 ^ k
  bucket_size := 2 ^ k
  sum := (taken.map fun c => c.val * (c.number : Counter)).sum
  logs := (taken.map fun c => log c.val * (c.number : Counter)).sum
  squares := (taken.map fun c => c.val * c.val * (c.number : Counter)).sum
  samples := (taken.map fun c => (c.number : Counter)).sum
  cvec i := held (fun val => ⌊val / 2 ^ k⌋) taken i

/-- The samples are not negative and lie below the end of the range. -/
def Within (buckets k : Nat) (taken : List Sample) : Prop :=
  ∀ c ∈ taken, 0 ≤ c.val ∧ c.val < buckets * 2 ^ k

theorem Within.succ (within : Within buckets k taken) : Within buckets (k + 1) taken := by
  intro c mem
  obtain ⟨low, high⟩ := within c mem
  refine ⟨low, high.trans_le ?_⟩
  rw [pow_succ, ← mul_assoc]
  have nonneg : (0 : Counter) ≤ buckets * 2 ^ k := low.trans high.le
  linarith

theorem Within.mono {k' : Nat} (within : Within buckets k taken) (le : k ≤ k') :
    Within buckets k' taken := by
  induction k', le using Nat.le_induction with
  | base => exact within
  | succ m _ ih => exact ih.succ

theorem Within.index (within : Within buckets k taken) {c : Sample} (mem : c ∈ taken) :
    0 ≤ ⌊c.val / 2 ^ k⌋ ∧ ⌊c.val / 2 ^ k⌋ < buckets := by
  obtain ⟨low, high⟩ := within c mem
  have wide : (0 : Counter) < 2 ^ k := pow_pos two_pos k
  rw [Int.le_floor, Int.floor_lt, Int.cast_zero, Int.cast_natCast, le_div_iff₀ wide,
    div_lt_iff₀ wide, zero_mul]
  exact ⟨low, high⟩

theorem Within.held_beyond (within : Within buckets k taken) {i : Nat} (beyond : buckets ≤ i) :
    held (fun val => ⌊val / 2 ^ k⌋) taken i = 0 := by
  apply held_of_none
  intro c mem
  have inside := within.index mem
  omega

theorem atLevel_perm {taken' : List Sample} (same : taken.Perm taken') :
    atLevel log buckets k taken = atLevel log buckets k taken' := by
  simp only [atLevel, held]
  congr 1
  · exact (same.map _).sum_eq
  · exact (same.map _).sum_eq
  · exact (same.map _).sum_eq
  · exact (same.map _).sum_eq
  · funext i
    exact (same.map _).sum_eq

theorem growUp_atLevel (within : Within buckets k taken) :
    (atLevel log buckets k taken).growUp = some (atLevel log buckets (k + 1) taken) := by
  rw [growUp_eq]
  refine congrArg some (HistStor.ext rfl rfl ?_ ?_ rfl rfl rfl rfl ?_)
  · show (buckets - 1) * 2 ^ k * 2 = (buckets - 1) * (2 : Counter) ^ (k + 1)
    rw [pow_succ, mul_assoc]
  · exact (pow_succ 2 k).symm
  · funext i
    show upCvec buckets (fun i => held (fun val => ⌊val / 2 ^ k⌋) taken i) i =
      held (fun val => ⌊val / 2 ^ (k + 1)⌋) taken i
    by_cases below : i < buckets
    · refine upCvec_held (fun val => ⌊val / 2 ^ k⌋) (fun val => ⌊val / 2 ^ (k + 1)⌋)
        (fun c mem => within.index mem)
        (fun _ _ => rfl) (fun c _ => ?_) i below
      rw [← floor_div_two, div_div, pow_succ]
    · rw [upCvec, if_neg (by omega), if_neg below, within.held_beyond (by omega),
        within.succ.held_beyond (by omega)]

theorem put_atLevel {c : Sample} (low : 0 ≤ c.val) :
    (atLevel log buckets k taken).put log c.val c.number = atLevel log buckets k (c :: taken) := by
  have wide : (0 : Counter) < 2 ^ k := pow_pos two_pos k
  have index : (atLevel log buckets k taken).index c.val = ⌊c.val / 2 ^ k⌋ := by
    rw [HistStor.index, atLevel, sub_zero]
  have nonneg : 0 ≤ ⌊c.val / 2 ^ k⌋ := Int.floor_nonneg.mpr (div_nonneg low wide.le)
  rw [put, index]
  refine HistStor.ext rfl rfl rfl rfl ?_ ?_ ?_ ?_ ?_
  · exact add_comm _ _
  · exact add_comm _ _
  · exact add_comm _ _
  · exact add_comm _ _
  · funext i
    show addTo (fun i => held (fun val => ⌊val / 2 ^ k⌋) taken i) _ _ i =
      held (fun val => ⌊val / 2 ^ k⌋) (c :: taken) i
    rw [addTo_apply, held_cons]
    by_cases here : i = ⌊c.val / 2 ^ k⌋.toNat
    · rw [if_pos here, if_pos (by omega), add_comm]
      rfl
    · rw [if_neg here, if_neg (by omega), zero_add]

theorem shaped_atLevel : (atLevel log buckets k taken).Shaped := by
  refine ⟨one_le_pow₀ one_le_two, ?_, .inl rfl⟩
  show ((buckets : Counter) - 1) * 2 ^ k = 0 + (buckets - 1) * 2 ^ k
  rw [zero_add]

/-- A loop of `growUp` stops at the first level where its test fails. -/
theorem exists_level (log : Counter → Counter) (outside : HistStor → Bool) (top : Nat)
    (within : Within buckets k taken)
    (stops : ∀ m ≥ top, outside (atLevel log buckets m taken) = false) :
    ∃ k' ≥ k, outside (atLevel log buckets k' taken) = false ∧
      (∀ m, k ≤ m → m < k' → outside (atLevel log buckets m taken) = true) ∧
      ∀ fuel > top, While.loop outside growUp fuel (atLevel log buckets k taken) =
        some (atLevel log buckets k' taken) := by
  -- The induction follows the levels up to the top, where the test fails at the latest.
  obtain ⟨rest, ahead⟩ : ∃ rest, top ≤ k + rest := ⟨top, Nat.le_add_left _ _⟩
  suffices from_here : ∃ k' ≥ k, outside (atLevel log buckets k' taken) = false ∧
      (∀ m, k ≤ m → m < k' → outside (atLevel log buckets m taken) = true) ∧
      ∀ fuel > top - k, While.loop outside growUp fuel (atLevel log buckets k taken) =
        some (atLevel log buckets k' taken) by
    obtain ⟨k', le, stopped, passed, ended⟩ := from_here
    exact ⟨k', le, stopped, passed, fun fuel enough => ended fuel (by omega)⟩
  induction rest generalizing k with
  | zero =>
    refine ⟨k, le_refl k, stops k ahead, fun m le less => absurd less (by omega), ?_⟩
    intro fuel enough
    obtain ⟨more, rfl⟩ : ∃ more, fuel = more + 1 := ⟨fuel - 1, by omega⟩
    exact While.loop_stop (stops k ahead) more
  | succ rest ih =>
    cases tested : outside (atLevel log buckets k taken) with
    | false =>
      refine ⟨k, le_refl k, tested, fun m le less => absurd less (by omega), ?_⟩
      intro fuel enough
      obtain ⟨more, rfl⟩ : ∃ more, fuel = more + 1 := ⟨fuel - 1, by omega⟩
      exact While.loop_stop tested more
    | true =>
      have below : k < top := by
        by_contra reached
        rw [stops k (not_lt.mp reached)] at tested
        cases tested
      obtain ⟨k', le, stopped, passed, ended⟩ := ih within.succ (by omega)
      refine ⟨k', by omega, stopped, fun m le less => ?_, fun fuel enough => ?_⟩
      · rcases Nat.eq_or_lt_of_le le with rfl | later
        · exact tested
        · exact passed m later less
      · obtain ⟨more, rfl⟩ : ∃ more, fuel = more + 1 := ⟨fuel - 1, by omega⟩
        rw [While.loop_go tested (growUp_atLevel within)]
        exact ended more (by omega)

/-- The buckets have been doubled no more often than the samples ask for. -/
def Least (buckets k : Nat) (taken : List Sample) : Prop :=
  IsLeast { m | Within buckets m taken } k

theorem outside_iff (log : Counter → Counter) (taken : List Sample) (val : Counter) (m : Nat) :
    decide (val ≥ (atLevel log buckets m taken).max_bucket +
      (atLevel log buckets m taken).bucket_size) = true ↔ buckets * 2 ^ m ≤ val := by
  have ends : (atLevel log buckets m taken).max_bucket +
      (atLevel log buckets m taken).bucket_size = buckets * 2 ^ m := by
    show (buckets - 1) * 2 ^ m + 2 ^ m = (buckets : Counter) * 2 ^ m
    ring
  rw [ends, decide_eq_true_iff, ge_iff_le]

/-- A histogram of samples that are not negative takes another one of them. -/
theorem step_atLevel (log : Counter → Counter) (several : 2 ≤ buckets)
    (least : Least buckets k taken) {c : Sample}
    (low : 0 ≤ c.val) : ∃ k', Least buckets k' (c :: taken) ∧ ∃ enough, ∀ fuel ≥ enough,
      step log fuel ⟨atLevel log buckets k taken, taken⟩ c =
        some ⟨atLevel log buckets k' (c :: taken), c :: taken⟩ := by
  have within : Within buckets k taken := least.1
  have room : (1 : Counter) ≤ buckets := by exact_mod_cast Nat.le_of_succ_le several
  -- Some level is large enough for the sample.
  obtain ⟨top, reached⟩ := pow_unbounded_of_one_lt c.val (one_lt_two (α := Counter))
  have stops (m : Nat) (le : m ≥ top) : decide (c.val ≥ (atLevel log buckets m taken).max_bucket +
      (atLevel log buckets m taken).bucket_size) = false := by
    rw [← Bool.not_eq_true, outside_iff, not_le]
    have more : (2 : Counter) ^ top ≤ 2 ^ m := pow_le_pow_right₀ one_le_two le
    have wide : (0 : Counter) < 2 ^ m := pow_pos two_pos m
    nlinarith
  obtain ⟨k', le, stopped, passed, ended⟩ := exists_level log
    (fun h => c.val ≥ h.max_bucket + h.bucket_size) top within stops
  rw [← Bool.not_eq_true, outside_iff, not_le] at stopped
  have within' : Within buckets k' taken := within.mono le
  refine ⟨k', ⟨?_, ?_⟩, top + 1, fun fuel enough => ?_⟩
  · intro c' mem
    rcases List.mem_cons.mp mem with rfl | earlier
    · exact ⟨low, stopped⟩
    · exact within' c' earlier
  · intro m fits
    by_contra less
    rw [not_le] at less
    have before : Within buckets m taken := fun c' mem => fits c' (List.mem_cons_of_mem _ mem)
    have beyond := (outside_iff log taken c.val m).mp
      (passed m (least.2 before) less)
    exact absurd (fits c List.mem_cons_self).2 (not_lt.mpr beyond)
  · have grown : (atLevel log buckets k taken).grow fuel c.val =
        some (atLevel log buckets k' taken) := by
      have above : ¬c.val < (atLevel log buckets k taken).min_bucket := not_lt.mpr low
      rw [grow, if_neg above]
      by_cases outside : c.val ≥ (atLevel log buckets k taken).max_bucket +
          (atLevel log buckets k taken).bucket_size
      · rw [if_pos outside, if_pos (show (atLevel log buckets k taken).min_bucket = 0 from rfl)]
        exact ended fuel enough
      · rw [if_neg outside]
        rcases Nat.eq_or_lt_of_le le with rfl | later
        · rfl
        · exact absurd (of_decide_eq_true (passed k (le_refl k) later)) outside
    rw [step_eq several shaped_atLevel grown]
    exact congrArg (fun h => some (Sampled.mk h (c :: taken))) (put_atLevel low)

/-- Take samples one after another. -/
def sampleAll (log : Counter → Counter) (fuel buckets : Nat) (calls : List Sample) :
    Option HistStor :=
  (Machine.run (step log fuel) (empty buckets) calls).map Sampled.stor

theorem run_atLevel (log : Counter → Counter) (several : 2 ≤ buckets)
    (least : Least buckets k taken) (calls : List Sample)
    (nonneg : ∀ c ∈ calls, 0 ≤ c.val) : ∃ k', Least buckets k' (calls.reverse ++ taken) ∧
      ∃ enough, ∀ fuel ≥ enough,
        Machine.run (step log fuel) ⟨atLevel log buckets k taken, taken⟩ calls =
          some ⟨atLevel log buckets k' (calls.reverse ++ taken), calls.reverse ++ taken⟩ := by
  -- The induction follows the samples; the fuel has to be enough for every one of them.
  induction calls generalizing k taken with
  | nil => exact ⟨k, least, 0, fun fuel _ => rfl⟩
  | cons c calls ih =>
    obtain ⟨m, least', enough, stepped⟩ :=
      step_atLevel log several least (nonneg c List.mem_cons_self)
    obtain ⟨k', least'', enough', ran⟩ :=
      ih least' fun c' mem => nonneg c' (List.mem_cons_of_mem _ mem)
    have order : (c :: calls).reverse ++ taken = calls.reverse ++ c :: taken := by simp
    rw [order]
    refine ⟨k', least'', max enough enough', fun fuel le => ?_⟩
    rw [Machine.run_cons, stepped fuel (le_trans (le_max_left _ _) le), Option.bind_some]
    exact ran fuel (le_trans (le_max_right _ _) le)

theorem sampleAll_eq (log : Counter → Counter) (several : 2 ≤ buckets) {calls : List Sample}
    (nonneg : ∀ c ∈ calls, 0 ≤ c.val) : ∃ k, Least buckets k calls ∧ ∃ enough, ∀ fuel ≥ enough,
      sampleAll log fuel buckets calls = some (atLevel log buckets k calls) := by
  have start : atLevel log buckets 0 [] = reset buckets := by
    simp [atLevel, reset, held]
  have least : Least buckets 0 [] := by
    refine ⟨fun _ mem => absurd mem List.not_mem_nil, fun m _ => Nat.zero_le m⟩
  obtain ⟨k, least', enough, ran⟩ := run_atLevel log several least calls nonneg
  rw [List.append_nil] at least' ran
  have same := calls.reverse_perm
  refine ⟨k, ?_, enough, fun fuel le => ?_⟩
  · rwa [Least, show { m | Within buckets m calls } = { m | Within buckets m calls.reverse } from
      Set.ext fun m => forall_congr' fun c => by rw [same.mem_iff]]
  · rw [sampleAll, empty, ← start, ran fuel le, Option.map_some, atLevel_perm same]

theorem held_append (locate : Counter → Int) (first second : List Sample) (i : Int) :
    held locate (first ++ second) i = held locate first i + held locate second i := by
  rw [held, List.map_append, List.sum_append, held, held]

/-- A histogram that has taken over the sums of another one. -/
def addSums (hs h : HistStor) : HistStor :=
  { h with
    sum := h.sum + hs.sum
    logs := h.logs + hs.logs
    squares := h.squares + hs.squares
    samples := h.samples + hs.samples }

theorem growUp_addSums (hs h : HistStor) : (addSums hs h).growUp = h.growUp.map (addSums hs) := by
  rw [growUp_eq, growUp_eq, Option.map_some]
  rfl

theorem exists_level_of_width (log : Counter → Counter) (k top : Nat)
    (within : Within buckets k taken) (fuel : Nat)
    (enough : top < fuel) :
    While.loop (fun h => decide ((2 : Counter) ^ top > h.bucket_size)) growUp fuel
      (atLevel log buckets k taken) = some (atLevel log buckets (max top k) taken) := by
  have test (m : Nat) : decide ((2 : Counter) ^ top > (atLevel log buckets m taken).bucket_size) =
      decide (m < top) := by
    have wider : (2 : Counter) ^ top > 2 ^ m ↔ m < top := pow_lt_pow_iff_right₀ one_lt_two
    exact decide_eq_decide.mpr wider
  obtain ⟨k', le, stopped, passed, ended⟩ := exists_level log
    (fun h => decide ((2 : Counter) ^ top > h.bucket_size)) top within fun m le => by
      rw [test, decide_eq_false_iff_not]
      omega
  rw [test, decide_eq_false_iff_not] at stopped
  have reached : k' = max top k := by
    rcases Nat.eq_or_lt_of_le le with same | later
    · omega
    · have before := passed (k' - 1) (by omega) (by omega)
      rw [test, decide_eq_true_iff] at before
      omega
  rw [ended fuel enough, reached]

/-- Adding two histograms gives the one of their wider level that has the samples of both. -/
theorem add_atLevel {k₁ k₂ : Nat} {taken₁ taken₂ : List Sample} (within₁ : Within buckets k₁ taken₁)
    (within₂ : Within buckets k₂ taken₂) {fuel : Nat} (enough₁ : k₁ < fuel) (enough₂ : k₂ < fuel) :
    (atLevel log buckets k₁ taken₁).add fuel (atLevel log buckets k₂ taken₂) =
      some (atLevel log buckets (max k₁ k₂) (taken₁ ++ taken₂),
        atLevel log buckets (max k₁ k₂) taken₂) := by
  have second := exists_level_of_width log k₂ k₁ within₂ fuel enough₁
  have first := exists_level_of_width log k₁ (max k₁ k₂) within₁ fuel (by omega)
  rw [max_eq_left (le_max_left k₁ k₂)] at first
  -- The sums are taken over before the loops, which do not look at them.
  have first' := While.loop_map
    (fun h => decide ((2 : Counter) ^ max k₁ k₂ > h.bucket_size)) growUp fuel
    (atLevel log buckets k₁ taken₁) (addSums (atLevel log buckets k₂ taken₂)) (fun _ => rfl)
      (growUp_addSums _)
  rw [first, Option.map_some] at first'
  have same : ¬((atLevel log buckets k₁ taken₁).size ≠ (atLevel log buckets k₂ taken₂).size ∨
      (atLevel log buckets k₁ taken₁).min_bucket ≠ (atLevel log buckets k₂ taken₂).min_bucket) :=
    not_or.mpr ⟨not_not.mpr rfl, not_not.mpr rfl⟩
  rw [add, if_neg same]
  refine Option.bind_eq_some_iff.mpr ⟨_, second, Option.bind_eq_some_iff.mpr ⟨_, first', ?_⟩⟩
  refine congrArg some (Prod.ext (HistStor.ext rfl rfl rfl rfl ?_ ?_ ?_ ?_ ?_) rfl)
  · simp [addSums, atLevel]
  · simp [addSums, atLevel]
  · simp [addSums, atLevel]
  · simp [addSums, atLevel]
  · funext i
    have beyond₁ := within₁.mono (le_max_left k₁ k₂)
    have beyond₂ := within₂.mono (le_max_right k₁ k₂)
    show (if i < buckets then held (fun val => ⌊val / 2 ^ max k₁ k₂⌋) taken₁ i +
        held (fun val => ⌊val / 2 ^ max k₁ k₂⌋) taken₂ i
      else held (fun val => ⌊val / 2 ^ max k₁ k₂⌋) taken₁ i) =
        held (fun val => ⌊val / 2 ^ max k₁ k₂⌋) (taken₁ ++ taken₂) i
    rw [held_append]
    by_cases below : i < buckets
    · rw [if_pos below]
    · rw [if_neg below, beyond₁.held_beyond (by omega), beyond₂.held_beyond (by omega), add_zero]

theorem Least.append {k₁ k₂ : Nat} {taken₁ taken₂ : List Sample} (least₁ : Least buckets k₁ taken₁)
    (least₂ : Least buckets k₂ taken₂) : Least buckets (max k₁ k₂) (taken₁ ++ taken₂) := by
  have within₁ : Within buckets k₁ taken₁ := least₁.1
  have within₂ : Within buckets k₂ taken₂ := least₂.1
  refine ⟨fun c mem => ?_, fun m within => max_le (least₁.2 fun c mem => ?_)
    (least₂.2 fun c mem => ?_)⟩
  · rcases List.mem_append.mp mem with left | right
    · exact within₁.mono (le_max_left k₁ k₂) c left
    · exact within₂.mono (le_max_right k₁ k₂) c right
  · exact within c (List.mem_append_left _ mem)
  · exact within c (List.mem_append_right _ mem)

/--
Samples that are not negative lead to one histogram in every order, and two histograms of such
samples add to that of all their samples.
-/
theorem order_and_add (log : Counter → Counter) {buckets : Nat} (several : 2 ≤ buckets) :
    (∀ calls calls' : List Sample, (∀ c ∈ calls, 0 ≤ c.val) → calls.Perm calls' →
      ∃ enough, ∀ fuel ≥ enough, ∃ h, sampleAll log fuel buckets calls = some h ∧
        sampleAll log fuel buckets calls' = some h) ∧
    (∀ calls₁ calls₂ : List Sample, (∀ c ∈ calls₁, 0 ≤ c.val) → (∀ c ∈ calls₂, 0 ≤ c.val) →
      ∃ enough, ∀ fuel ≥ enough, ∃ h₁ h₂ h, sampleAll log fuel buckets calls₁ = some h₁ ∧
        sampleAll log fuel buckets calls₂ = some h₂ ∧
        sampleAll log fuel buckets (calls₁ ++ calls₂) = some h ∧
        (h₁.add fuel h₂).map Prod.fst = some h) := by
  constructor
  · intro calls calls' nonneg same
    obtain ⟨k, least, enough, ran⟩ := sampleAll_eq log several nonneg
    obtain ⟨k', least', enough', ran'⟩ := sampleAll_eq log several
      fun c mem => nonneg c (same.mem_iff.mpr mem)
    have level : k = k' := by
      rw [Least, show { m | Within buckets m calls } = { m | Within buckets m calls' } from
        Set.ext fun m => forall_congr' fun c => by rw [same.mem_iff]] at least
      exact least.unique least'
    refine ⟨max enough enough', fun fuel le => ⟨_, ran fuel (le_trans (le_max_left _ _) le), ?_⟩⟩
    rw [ran' fuel (le_trans (le_max_right _ _) le), level, atLevel_perm same]
  · intro calls₁ calls₂ nonneg₁ nonneg₂
    obtain ⟨k₁, least₁, enough₁, ran₁⟩ := sampleAll_eq log several nonneg₁
    obtain ⟨k₂, least₂, enough₂, ran₂⟩ := sampleAll_eq log several nonneg₂
    obtain ⟨k, least, enough, ran⟩ :=
      sampleAll_eq log several (show ∀ c ∈ calls₁ ++ calls₂, 0 ≤ c.val from
      fun c mem => (List.mem_append.mp mem).elim (nonneg₁ c) (nonneg₂ c))
    have level : k = max k₁ k₂ := least.unique (least₁.append least₂)
    refine ⟨max (max enough₁ enough₂) (max enough (max k₁ k₂ + 1)), fun fuel le => ⟨_, _, _,
      ran₁ fuel (by omega), ran₂ fuel (by omega), ran fuel (by omega), ?_⟩⟩
    rw [add_atLevel least₁.1 least₂.1 (by omega) (by omega), Option.map_some, level]

/-- The order of four samples in two buckets, and the sum of two histograms of them. -/
theorem two_buckets_order_and_add :
    (∃ enough, ∀ fuel ≥ enough, ∃ h, sampleAll id fuel 2 [⟨0, 1⟩, ⟨9, 2⟩] = some h ∧
      sampleAll id fuel 2 [⟨9, 2⟩, ⟨0, 1⟩] = some h) ∧
    ∃ enough, ∀ fuel ≥ enough, ∃ h₁ h₂ h, sampleAll id fuel 2 [⟨0, 1⟩] = some h₁ ∧
      sampleAll id fuel 2 [⟨9, 2⟩] = some h₂ ∧ sampleAll id fuel 2 [⟨0, 1⟩, ⟨9, 2⟩] = some h ∧
      (h₁.add fuel h₂).map Prod.fst = some h :=
  ⟨(order_and_add id (le_refl 2)).1 [⟨0, 1⟩, ⟨9, 2⟩] [⟨9, 2⟩, ⟨0, 1⟩] (by decide +kernel)
      (List.Perm.swap _ _ _),
    (order_and_add id (le_refl 2)).2 [⟨0, 1⟩] [⟨9, 2⟩] (by decide +kernel) (by decide +kernel)⟩

end HistStor

end GemDroid

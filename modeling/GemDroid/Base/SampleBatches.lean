import GemDroid.Base.HistStorRun

/-! Which storages take equal samples together as they take them one by one. -/

namespace GemDroid

namespace HistStor

variable {h h' : HistStor} {log : Counter → Counter} {fuel : Nat} {val : Counter}

theorem addTo_addTo (cvec : Nat → Counter) (index : Nat) (a b : Int) :
    addTo (addTo cvec index a) index b = addTo cvec index (a + b : Int) := by
  funext i
  rw [addTo_apply, addTo_apply, addTo_apply]
  split_ifs
  · push_cast
    ring
  · rfl

/-- The histograms that resets, samples and additions lead to. -/
inductive Reached (log : Counter → Counter) : HistStor → Prop
  | reset (buckets : Nat) : Reached log (reset buckets)
  | sample {h h' : HistStor} (fuel : Nat) (val : Counter) (number : Int) (reached : Reached log h)
      (sampled : h.sample log fuel val number = some h') : Reached log h'
  | add {h hs h' hs' : HistStor} (fuel : Nat) (reached : Reached log h) (other : Reached log hs)
      (added : h.add fuel hs = some (h', hs')) : Reached log h'
  | added {h hs h' hs' : HistStor} (fuel : Nat) (reached : Reached log h) (other : Reached log hs)
      (added : h.add fuel hs = some (h', hs')) : Reached log hs'

theorem Shaped.of_range {g : HistStor} (shaped : h.Shaped) (size : g.size = h.size)
    (lower : g.min_bucket = h.min_bucket) (upper : g.max_bucket = h.max_bucket)
    (width : g.bucket_size = h.bucket_size) : g.Shaped := by
  refine ⟨?_, ?_, ?_⟩
  · rw [width]
    exact shaped.wide
  · rw [upper, lower, size, width]
    exact shaped.range
  · rw [lower, size, width]
    exact shaped.sides

theorem Shaped.several (shaped : h.Shaped) (ordered : h.min_bucket < h.max_bucket) :
    2 ≤ h.size := by
  have wide := shaped.wide
  rw [shaped.range] at ordered
  by_contra few
  have small : (h.size : Counter) ≤ 1 := by exact_mod_cast (by omega : h.size ≤ 1)
  have product : (h.size - 1) * h.bucket_size ≤ 0 :=
    mul_nonpos_of_nonpos_of_nonneg (by linarith) (by linarith)
  linarith

/-- Growing for another histogram keeps the shape of both. -/
theorem Shaped.add {hs hs' : HistStor} (shaped : h.Shaped) (other : hs.Shaped)
    (added : h.add fuel hs = some (h', hs')) : h'.Shaped ∧ hs'.Shaped := by
  rw [HistStor.add] at added
  split_ifs at added with differ
  · cases added
  rw [not_or, not_not, not_not] at differ
  obtain ⟨size, lower⟩ := differ
  obtain ⟨hs'', second, added⟩ := Option.bind_eq_some_iff.mp added
  obtain ⟨h'', first, added⟩ := Option.bind_eq_some_iff.mp added
  obtain ⟨rfl, rfl⟩ := Prod.mk.inj (Option.some.inj added)
  have start : ({ h with
      sum := h.sum + hs.sum, logs := h.logs + hs.logs, squares := h.squares + hs.squares,
      samples := h.samples + hs.samples } : HistStor).Shaped := shaped.of_range rfl rfl rfl rfl
  by_cases from_zero : h.min_bucket = 0
  · obtain ⟨other', -⟩ := ups_loop [] other (lower.symm.trans from_zero) second
    obtain ⟨shaped', -⟩ := ups_loop [] start from_zero first
    exact ⟨shaped'.of_range rfl rfl rfl rfl, other'⟩
  · -- Ranges on both sides with one lower end have one width, so that none of them grows.
    have width : h.bucket_size = hs.bucket_size := by
      have here := shaped.sides.resolve_left from_zero
      have there := other.sides.resolve_left fun zero => from_zero (lower.trans zero)
      rw [← lower, ← size, here] at there
      refine mul_left_cancel₀ (a := (h.size : Counter) - 1) (fun zero => from_zero ?_) (by linarith)
      rw [zero, zero_mul, neg_zero] at here
      linarith
    have same : hs'' = hs := by
      refine While.eq_of_loop_stop ?_ second
      exact decide_eq_false (not_lt.mpr width.le)
    have same' : h'' = { h with
        sum := h.sum + hs.sum, logs := h.logs + hs.logs, squares := h.squares + hs.squares,
        samples := h.samples + hs.samples } := by
      refine While.eq_of_loop_stop ?_ first
      rw [same]
      exact decide_eq_false (not_lt.mpr width.ge)
    rw [same, same']
    exact ⟨shaped.of_range rfl rfl rfl rfl, other⟩

theorem Reached.shaped (reached : Reached log h) : h.Shaped := by
  induction reached with
  | reset buckets => exact Shaped.reset buckets
  | sample fuel val number reached sampled shaped =>
    rw [HistStor.sample] at sampled
    split_ifs at sampled with ordered
    obtain ⟨g, grown, counted⟩ := Option.bind_eq_some_iff.mp sampled
    obtain ⟨shaped', -⟩ := grow_spec [] (shaped.several ordered) shaped grown
    rw [count] at counted
    split_ifs at counted
    obtain rfl := Option.some.inj counted
    exact shaped'.of_range rfl rfl rfl rfl
  | add fuel _ _ added shaped other => exact (shaped.add other added).1
  | added fuel _ _ added shaped other => exact (shaped.add other added).2

theorem grow_put (low : h.min_bucket ≤ val) (high : val < h.max_bucket + h.bucket_size)
    (number : Int) : (h.put log val number).grow fuel val = some (h.put log val number) := by
  have inside : ¬val < (h.put log val number).min_bucket := not_lt.mpr low
  have below : ¬val ≥ (h.put log val number).max_bucket + (h.put log val number).bucket_size :=
    not_le.mpr high
  rw [grow, if_neg inside, if_neg below]

theorem put_put (val : Counter) (a b : Int) (h : HistStor) :
    (h.put log val a).put log val b = h.put log val (a + b) := by
  refine HistStor.ext rfl rfl rfl rfl ?_ ?_ ?_ ?_ ?_
  · show h.sum + val * a + val * b = h.sum + val * (a + b : Int)
    push_cast
    ring
  · show h.logs + log val * a + log val * b = h.logs + log val * (a + b : Int)
    push_cast
    ring
  · show h.squares + val * val * a + val * val * b = h.squares + val * val * (a + b : Int)
    push_cast
    ring
  · show h.samples + a + b = h.samples + (a + b : Int)
    push_cast
    ring
  · exact addTo_addTo _ _ a b

theorem sample_sample (shaped : h.Shaped) (a b : Int) :
    (h.sample log fuel val a).bind (sample log fuel val b) = h.sample log fuel val (a + b) := by
  rw [sample, sample]
  by_cases ordered : h.min_bucket < h.max_bucket
  · rw [if_pos ordered, if_pos ordered]
    cases grown : h.grow fuel val with
    | none => rfl
    | some g =>
      obtain ⟨shaped', same, low, high, -⟩ :=
        grow_spec [] (shaped.several ordered) shaped grown
      have several : 2 ≤ (g.put log val a).size := same.size ▸ shaped.several ordered
      rw [Option.bind_some, Option.bind_some, count_eq shaped' low high, count_eq shaped' low high,
        Option.bind_some, ← put_put]
      exact sample_eq several (shaped'.of_range rfl rfl rfl rfl) (grow_put low high a) b
  · rw [if_neg ordered, if_neg ordered]
    rfl

end HistStor

section batches

variable {val : Counter}

theorem DistStor.count_count (val : Counter) (a b : Int) (d : DistStor) :
    (d.count val a).bind (DistStor.count val b) = d.count val (a + b) := by
  rw [count, count]
  by_cases under : val < d.min_track
  · rw [if_pos under, if_pos under, Option.bind_some, count, if_pos under, add_assoc, Int.cast_add]
  · rw [if_neg under, if_neg under]
    by_cases above : val > d.max_track
    · rw [if_pos above, if_pos above, Option.bind_some, count, if_neg under, if_pos above,
        add_assoc, Int.cast_add]
    · rw [if_neg above, if_neg above]
      by_cases inside : 0 ≤ d.index val ∧ d.index val < d.size
      · rw [if_pos inside, if_pos inside, Option.bind_some, count, if_neg under, if_neg above,
          ← HistStor.addTo_addTo]
        exact if_pos inside
      · rw [if_neg inside, if_neg inside, Option.bind_none]

theorem DistStor.count_note (val : Counter) (a b : Int) (d : DistStor) :
    (d.note val a).count val b = (d.count val b).map (DistStor.note val a) := by
  rw [count, count]
  by_cases under : val < d.min_track
  · rw [if_pos under, if_pos (show val < (d.note val a).min_track from under)]
    rfl
  · rw [if_neg under, if_neg (show ¬val < (d.note val a).min_track from under)]
    by_cases above : val > d.max_track
    · rw [if_pos above, if_pos (show val > (d.note val a).max_track from above)]
      rfl
    · rw [if_neg above, if_neg (show ¬val > (d.note val a).max_track from above)]
      by_cases inside : 0 ≤ d.index val ∧ d.index val < d.size
      · rw [if_pos inside]
        exact if_pos inside
      · rw [if_neg inside]
        exact if_neg inside

theorem DistStor.note_note (val : Counter) (a b : Int) (d : DistStor) :
    (d.note val a).note val b = d.note val (a + b) := by
  have seen (m : Counter) : (if val < (if val < m then val else m) then val
      else if val < m then val else m) = if val < m then val else m := by
    split_ifs <;> rfl
  have seen' (m : Counter) : (if val > (if val > m then val else m) then val
      else if val > m then val else m) = if val > m then val else m := by
    split_ifs <;> rfl
  simp only [note, DistStor.mk.injEq]
  push_cast
  refine ⟨trivial, trivial, trivial, trivial, seen _, seen' _, trivial, trivial, ?_, ?_, ?_,
    trivial⟩ <;> ring

theorem DistStor.sample_sample (val : Counter) (a b : Int) (d : DistStor) :
    (d.sample val a).bind (DistStor.sample val b) = d.sample val (a + b) := by
  rw [sample, sample, ← count_count]
  cases counted : d.count val a with
  | none => rfl
  | some d' =>
    rw [Option.map_some, Option.bind_some, Option.bind_some, sample, count_note, Option.map_map]
    congr 1
    funext e
    exact note_note val a b e

/-- Take a value some number of times, one by one. -/
def times {Stor : Type} (n : Nat) (sample : Stor → Option Stor) (s : Stor) : Option Stor :=
  (fun t => t.bind sample)^[n] (some s)

theorem times_eq {Stor : Type} (sample : Int → Stor → Option Stor) {s : Stor}
    (adds : ∀ a b, (sample a s).bind (sample b) = sample (a + b) s) (n : ℕ+) :
    times n (sample 1) s = sample n s := by
  -- The induction follows the values of the batch.
  induction n using PNat.recOn with
  | one => rfl
  | succ n ih =>
    rw [times, PNat.add_coe, PNat.one_coe, Function.iterate_succ_apply', ← times, ih, adds]
    rfl

theorem squares_eq_iff (val : Counter) (n : ℕ+) :
    (n : Counter) * (val * val) = val * n * (val * n) ↔ n = 1 ∨ val = 0 := by
  have positive : (n : Counter) ≠ 0 := by exact_mod_cast n.ne_zero
  constructor
  · intro same
    by_contra neither
    rw [not_or] at neither
    refine neither.1 (PNat.eq (Nat.cast_injective (R := Counter) ?_))
    refine mul_left_cancel₀ (mul_ne_zero positive (mul_ne_zero neither.2 neither.2)) ?_
    push_cast
    linarith
  · rintro (rfl | rfl) <;> simp

theorem SampleStor.iterate_eq (val : Counter) (n : Nat) (s : SampleStor) :
    (SampleStor.sample val 1)^[n] s =
      { sum := s.sum + val * n, squares := s.squares + n * (val * val),
        samples := s.samples + n } := by
  induction n with
  | zero => simp
  | succ n ih =>
    rw [Function.iterate_succ_apply', ih, sample]
    simp only [SampleStor.mk.injEq]
    push_cast
    refine ⟨?_, ?_, ?_⟩ <;> ring

theorem AvgSampleStor.iterate_eq (val : Counter) (n : Nat) (s : AvgSampleStor) :
    (AvgSampleStor.sample val 1)^[n] s =
      { sum := s.sum + val * n, squares := s.squares + n * (val * val) } := by
  induction n with
  | zero => simp
  | succ n ih =>
    rw [Function.iterate_succ_apply', ih, sample]
    simp only [AvgSampleStor.mk.injEq]
    push_cast
    constructor <;> ring

/--
Distributions and histograms take a batch of a value as they take its values one by one, and the
storages that keep only sums do so for a single value and for zeros.
-/
theorem batched_iff (log : Counter → Counter) (fuel : Nat) (val : Counter) (n : ℕ+) :
    (∀ d : DistStor, times n (DistStor.sample val 1) d = d.sample val n) ∧
      (∀ h : HistStor, h.Reached log →
        times n (HistStor.sample log fuel val 1) h = h.sample log fuel val n) ∧
      (∀ s : SampleStor, (SampleStor.sample val 1)^[n] s = s.sample val n ↔ n = 1 ∨ val = 0) ∧
      ∀ s : AvgSampleStor, (AvgSampleStor.sample val 1)^[n] s = s.sample val n ↔
        n = 1 ∨ val = 0 := by
  refine ⟨fun d => times_eq (DistStor.sample val) (fun a b => d.sample_sample val a b) n,
    fun h reached => times_eq (HistStor.sample log fuel val)
      (fun a b => HistStor.sample_sample reached.shaped a b) n, fun s => ?_, fun s => ?_⟩
  · rw [SampleStor.iterate_eq, SampleStor.sample, ← squares_eq_iff]
    simp
  · rw [AvgSampleStor.iterate_eq, AvgSampleStor.sample, ← squares_eq_iff]
    simp

/-- A new histogram takes two samples of three together. -/
theorem two_buckets_batched : times 2 (HistStor.sample id 9 3 1) (HistStor.reset 2) =
    (HistStor.reset 2).sample id 9 3 2 :=
  (batched_iff id 9 3 2).2.1 (HistStor.reset 2) (.reset 2)

/-- A storage takes two samples of one together with twice their squares. -/
theorem ones_batched_differ : ¬ ∀ (s : SampleStor) (val : Counter) (n : ℕ+),
    (SampleStor.sample val 1)^[n] s = s.sample val n := by
  intro claim
  have same := congrArg SampleStor.squares (claim { sum := 0, squares := 0, samples := 0 } 1 2)
  revert same
  decide +kernel

end batches

end GemDroid

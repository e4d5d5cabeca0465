import GemDroid.Lib.Run
import GemDroid.Base.HistStorCounts

/-! When the buckets of a histogram count the samples of their ranges. -/

namespace GemDroid

namespace HistStor

variable {h h' : HistStor} {log : Counter → Counter} {fuel : Nat} {val : Counter}

section growth

variable {taken : List Sample}

/-- The range of a histogram has been doubled on both sides some number of times. -/
def Doubled (k : Nat) (h g : HistStor) : Prop :=
  g.min_bucket = h.min_bucket * 2 ^ k ∧ g.max_bucket = h.max_bucket * 2 ^ k ∧
    g.bucket_size = h.bucket_size * 2 ^ k

variable {outside : HistStor → Bool}

/-- A loop of `growOut` doubles the range as often as its test holds. -/
theorem outs_loop (taken : List Sample) (goes : Nat → Prop) (several : 2 ≤ h.size)
    (shaped : h.Shaped) (both : h.min_bucket ≠ 0)
    (going : ∀ k g, Doubled k h g → outside g = true → goes k)
    (ended : While.loop outside growOut fuel h = some h') :
    h'.Shaped ∧ SameSums h h' ∧ outside h' = false ∧ h'.min_bucket ≤ h.min_bucket ∧
      h.max_bucket + h.bucket_size ≤ h'.max_bucket + h'.bucket_size ∧
      ((∀ k, goes k → OutFits h.size (h.min_bucket * 2 ^ k) (h.bucket_size * 2 ^ k) taken) →
        h.Right taken → h'.Right taken) := by
  -- Every round doubles the range once more, and is one that the samples have to fit.
  obtain ⟨⟨shaped', same, ⟨k, doubled⟩, kept⟩, stopped⟩ := While.loop_keeps
    (fun g => g.Shaped ∧ SameSums h g ∧ (∃ k, Doubled k h g) ∧
      ((∀ k, goes k → OutFits h.size (h.min_bucket * 2 ^ k) (h.bucket_size * 2 ^ k) taken) →
        h.Right taken → g.Right taken))
    (by
      rintro g g' ⟨shaped', same, ⟨k, doubled⟩, kept⟩ test round
      have several' : 2 ≤ g.size := by rwa [same.size]
      obtain ⟨shaped'', same', lower, upper, wider⟩ := shaped'.growOut several' round
      refine ⟨shaped'', same.trans same', ⟨k + 1, ?_, ?_, ?_⟩, fun fits right => ?_⟩
      · rw [lower, doubled.1, pow_succ, mul_assoc]
      · rw [upper, doubled.2.1, pow_succ, mul_assoc]
      · rw [wider, doubled.2.2, pow_succ, mul_assoc]
      · have fit := fits k (going k g doubled test)
        rw [← same.size, ← doubled.1, ← doubled.2.2] at fit
        refine (kept fits right).growOut several' shaped' ?_ fit round
        rw [doubled.1]
        exact mul_ne_zero both (pow_ne_zero k two_ne_zero))
    ⟨shaped, SameSums.refl h, ⟨0, by simp [Doubled]⟩, fun _ right => right⟩ ended
  have once : (1 : Counter) ≤ 2 ^ k := one_le_pow₀ one_le_two
  refine ⟨shaped', same, stopped, ?_, ?_, kept⟩
  · rw [doubled.1]
    nlinarith [shaped.min_nonpos several]
  · rw [doubled.2.1, doubled.2.2, ← add_mul]
    nlinarith [shaped.end_pos several]

theorem ups_loop (taken : List Sample) (shaped : h.Shaped) (from_zero : h.min_bucket = 0)
    (ended : While.loop outside growUp fuel h = some h') :
    h'.Shaped ∧ SameSums h h' ∧ outside h' = false ∧ h'.min_bucket = 0 ∧
      (h.Right taken → h'.Right taken) := by
  obtain ⟨⟨shaped', same, from_zero', kept⟩, stopped⟩ := While.loop_keeps
    (fun g => g.Shaped ∧ SameSums h g ∧ g.min_bucket = 0 ∧ (h.Right taken → g.Right taken))
    (by
      rintro g g' ⟨shaped', same, from_zero', kept⟩ - round
      obtain ⟨shaped'', same', from_zero'', -⟩ := shaped'.growUp from_zero' round
      exact ⟨shaped'', same.trans same', from_zero'',
        fun right => (kept right).growUp shaped' from_zero' round⟩)
    ⟨shaped, SameSums.refl h, from_zero, id⟩ ended
  exact ⟨shaped', same, stopped, from_zero', kept⟩

/-- The samples of a histogram fit every doubling that a new value makes it go through. -/
def GrowFits (taken : List Sample) (val : Counter) (h : HistStor) : Prop :=
  if val < h.min_bucket then
    if h.min_bucket = 0 then
      ConvertFits h.size h.bucket_size taken ∧
        ∀ k, val < -h.max_bucket * 2 ^ k →
          OutFits h.size (-h.max_bucket * 2 ^ k) (h.bucket_size * 2 * 2 ^ k) taken
    else
      ∀ k, val < h.min_bucket * 2 ^ k →
        OutFits h.size (h.min_bucket * 2 ^ k) (h.bucket_size * 2 ^ k) taken
  else
    h.min_bucket ≠ 0 → ∀ k, (h.max_bucket + h.bucket_size) * 2 ^ k ≤ val →
      OutFits h.size (h.min_bucket * 2 ^ k) (h.bucket_size * 2 ^ k) taken

/-- A histogram that has grown for a value contains it, and counts right what fitted. -/
theorem grow_spec (taken : List Sample) (several : 2 ≤ h.size) (shaped : h.Shaped)
    (grown : h.grow fuel val = some h') :
    h'.Shaped ∧ SameSums h h' ∧ h'.min_bucket ≤ val ∧ val < h'.max_bucket + h'.bucket_size ∧
      (h.GrowFits taken val → h.Right taken → h'.Right taken) := by
  have end_pos := shaped.end_pos several
  have min_nonpos := shaped.min_nonpos several
  rw [grow] at grown
  rw [GrowFits]
  -- The value may lie below the range, above it, or in it, when nothing is to be done.
  by_cases under : val < h.min_bucket
  · rw [if_pos under] at grown ⊢
    by_cases from_zero : h.min_bucket = 0
    · -- The range is extended to both sides before it is doubled.
      rw [if_pos from_zero] at grown ⊢
      obtain ⟨g, converted, ended⟩ := Option.bind_eq_some_iff.mp grown
      obtain ⟨shaped', same, lower, wider⟩ := shaped.growConvert several from_zero converted
      have several' : 2 ≤ g.size := by rwa [same.size]
      have both : g.min_bucket ≠ 0 := by
        have one_le := shaped.one_le_max several from_zero
        rw [lower]
        exact (by linarith : -h.max_bucket < 0).ne
      obtain ⟨shaped'', same', stopped, -, upper, kept⟩ := outs_loop taken
        (fun k => val < g.min_bucket * 2 ^ k) several' shaped' both
        (fun k g' doubled test => by
          rw [← doubled.1]
          exact of_decide_eq_true test) ended
      refine ⟨shaped'', same.trans same', not_lt.mp (of_decide_eq_false stopped), ?_, ?_⟩
      · linarith [shaped'.end_pos several']
      · rintro ⟨fits, fits'⟩ right
        refine kept (fun k goes => ?_) (right.growConvert several shaped from_zero fits converted)
        rw [lower] at goes
        rw [same.size, lower, wider]
        exact fits' k goes
    · rw [if_neg from_zero] at grown ⊢
      obtain ⟨shaped', same, stopped, -, upper, kept⟩ := outs_loop taken
        (fun k => val < h.min_bucket * 2 ^ k) several shaped from_zero
        (fun k g doubled test => by
          rw [← doubled.1]
          exact of_decide_eq_true test) grown
      exact ⟨shaped', same, not_lt.mp (of_decide_eq_false stopped), by linarith, kept⟩
  · rw [if_neg under] at grown ⊢
    by_cases above : val ≥ h.max_bucket + h.bucket_size
    · rw [if_pos above] at grown
      by_cases from_zero : h.min_bucket = 0
      · rw [if_pos from_zero] at grown
        obtain ⟨shaped', same, stopped, from_zero', kept⟩ := ups_loop taken shaped
          from_zero grown
        refine ⟨shaped', same, ?_, not_le.mp (of_decide_eq_false stopped), fun _ => kept⟩
        rw [from_zero']
        linarith
      · rw [if_neg from_zero] at grown
        obtain ⟨shaped', same, stopped, lower, -, kept⟩ := outs_loop taken
          (fun k => (h.max_bucket + h.bucket_size) * 2 ^ k ≤ val) several shaped from_zero
          (fun k g doubled test => by
            rw [add_mul, ← doubled.2.1, ← doubled.2.2]
            exact of_decide_eq_true test) grown
        exact ⟨shaped', same, by linarith, not_le.mp (of_decide_eq_false stopped),
          fun fits => kept (fits from_zero)⟩
    · rw [if_neg above] at grown
      obtain rfl := Option.some.inj grown
      exact ⟨shaped, SameSums.refl h, not_lt.mp under, not_le.mp above, fun _ right => right⟩

theorem exists_outs_loop (several : 2 ≤ h.size) (shaped : h.Shaped) (both : h.min_bucket ≠ 0)
    (far : HistStor → Counter) (ahead : ∀ g, g.Shaped → 2 ≤ g.size → outside g = true → 0 < far g)
    (nearer : ∀ g g', g.Shaped → 2 ≤ g.size → g.min_bucket ≠ 0 →
      g'.min_bucket = g.min_bucket * 2 → g'.max_bucket = g.max_bucket * 2 →
      g'.bucket_size = g.bucket_size * 2 → far g' + 1 ≤ far g) :
    ∃ enough, ∃ h', While.loop outside growOut enough h = some h' := by
  refine ⟨⌈far h⌉₊ + 1, While.exists_loop
    (fun g => g.Shaped ∧ 2 ≤ g.size ∧ g.min_bucket ≠ 0) (fun g => ⌈far g⌉₊) ?_
    ⟨shaped, several, both⟩ (Nat.lt_succ_self _)⟩
  rintro g ⟨shaped', several', both'⟩ test
  refine ⟨_, growOut_eq several', ?_⟩
  obtain ⟨shaped'', same, lower, upper, wider⟩ := shaped'.growOut several' (growOut_eq several')
  refine ⟨⟨shaped'', by rwa [same.size], ?_⟩,
    While.ceil_lt_ceil (nearer g _ shaped' several' both' lower upper wider)
      (ahead g shaped' several' test)⟩
  rw [lower]
  exact mul_ne_zero both' two_ne_zero

theorem exists_outs_down (several : 2 ≤ h.size) (shaped : h.Shaped) (both : h.min_bucket ≠ 0)
    (val : Counter) :
    ∃ enough h', While.loop (fun h => val < h.min_bucket) HistStor.growOut enough h = some h' := by
  refine exists_outs_loop several shaped both (fun g => 2 * (g.min_bucket - val)) ?_ ?_
  · intro g _ _ test
    have under := of_decide_eq_true test
    linarith
  · intro g g' shaped' several' both' lower _ _
    have low := shaped'.min_le several' both'
    rw [lower]
    linarith

theorem exists_outs_up (several : 2 ≤ h.size) (shaped : h.Shaped) (both : h.min_bucket ≠ 0)
    (val : Counter) : ∃ enough h',
      While.loop (fun h => val ≥ h.max_bucket + h.bucket_size) HistStor.growOut enough h =
        some h' := by
  refine exists_outs_loop several shaped both
    (fun g => val - (g.max_bucket + g.bucket_size) + 1) ?_ ?_
  · intro g _ _ test
    have above := of_decide_eq_true test
    linarith
  · intro g g' shaped' several' _ _ upper wider
    have one_le := shaped'.one_le_end several'
    rw [upper, wider]
    linarith

theorem exists_ups (several : 2 ≤ h.size) (shaped : h.Shaped) (from_zero : h.min_bucket = 0)
    (val : Counter) : ∃ enough h',
      While.loop (fun h => val ≥ h.max_bucket + h.bucket_size) HistStor.growUp enough h =
        some h' := by
  refine ⟨⌈val - (h.max_bucket + h.bucket_size) + 1⌉₊ + 1, While.exists_loop
    (fun g => g.Shaped ∧ 2 ≤ g.size ∧ g.min_bucket = 0)
    (fun g => ⌈val - (g.max_bucket + g.bucket_size) + 1⌉₊) ?_
    ⟨shaped, several, from_zero⟩ (Nat.lt_succ_self _)⟩
  rintro g ⟨shaped', several', from_zero'⟩ test
  have above := of_decide_eq_true test
  have one_le := shaped'.one_le_end several'
  obtain ⟨shaped'', same, from_zero'', -⟩ := shaped'.growUp from_zero' (growUp_eq g)
  refine ⟨_, growUp_eq g, ⟨shaped'', by rwa [same.size], from_zero''⟩, While.ceil_lt_ceil ?_ ?_⟩
  · show val - (g.max_bucket * 2 + g.bucket_size * 2) + 1 + 1 ≤ _
    linarith
  · linarith

theorem exists_grow (several : 2 ≤ h.size) (shaped : h.Shaped) (val : Counter) :
    ∃ enough h', h.grow enough val = some h' := by
  simp only [grow]
  by_cases under : val < h.min_bucket
  · simp only [if_pos under]
    by_cases from_zero : h.min_bucket = 0
    · obtain ⟨shaped', same, lower, -⟩ :=
        shaped.growConvert several from_zero (growConvert_eq several)
      have both : -h.max_bucket ≠ 0 := by
        have one_le := shaped.one_le_max several from_zero
        exact (by linarith : -h.max_bucket < 0).ne
      obtain ⟨enough, h', ended⟩ := exists_outs_down (several.trans_eq same.size.symm) shaped'
        (by rwa [lower]) val
      refine ⟨enough, h', ?_⟩
      rw [if_pos from_zero, growConvert_eq several]
      exact ended
    · simp only [if_neg from_zero]
      exact exists_outs_down several shaped from_zero val
  · simp only [if_neg under]
    by_cases above : val ≥ h.max_bucket + h.bucket_size
    · simp only [if_pos above]
      by_cases from_zero : h.min_bucket = 0
      · simp only [if_pos from_zero]
        exact exists_ups several shaped from_zero val
      · simp only [if_neg from_zero]
        exact exists_outs_up several shaped from_zero val
    · exact ⟨0, h, by rw [if_neg above]⟩

theorem grow_mono {fuel' : Nat} (le : fuel ≤ fuel') (grown : h.grow fuel val = some h') :
    h.grow fuel' val = some h' := by
  rw [grow] at grown ⊢
  split_ifs at grown ⊢ with under from_zero above from_zero
  · obtain ⟨g, converted, ended⟩ := Option.bind_eq_some_iff.mp grown
    exact Option.bind_eq_some_iff.mpr ⟨g, converted, While.loop_mono le ended⟩
  · exact While.loop_mono le grown
  · exact While.loop_mono le grown
  · exact While.loop_mono le grown
  · exact grown

end growth

section runs

/-- A histogram, and the samples that it has been given. -/
structure Sampled where
  stor : HistStor
  taken : List Sample

/-- Take one sample. -/
def step (log : Counter → Counter) (fuel : Nat) (s : Sampled) (c : Sample) : Option Sampled :=
  (s.stor.sample log fuel c.val c.number).map fun h => { stor := h, taken := c :: s.taken }

/-- The number of samples from one value on and below another one. -/
def samplesIn (low high : Counter) (taken : List Sample) : Counter :=
  (taken.map fun c => if low ≤ c.val ∧ c.val < high then (c.number : Counter) else 0).sum

/-- The buckets sum to the samples, and each counts those of its range. -/
def Counted (s : Sampled) : Prop :=
  ∑ i ∈ Finset.range s.stor.size, s.stor.cvec i = s.stor.samples ∧
    ∀ i < s.stor.size, s.stor.cvec i = samplesIn
      (s.stor.min_bucket + i * s.stor.bucket_size)
      (s.stor.min_bucket + (i + 1) * s.stor.bucket_size) s.taken

/-- What the samples do not change of a histogram, and what they always leave. -/
structure Ready (s : Sampled) : Prop where
  several : 2 ≤ s.stor.size
  shaped : s.stor.Shaped
  samples : s.stor.samples = (s.taken.map fun c => (c.number : Counter)).sum

variable {s : Sampled}

theorem Ready.counted (ready : Ready s) (right : s.stor.Right s.taken) :
    Counted s := by
  refine ⟨?_, fun i below => ?_⟩
  · rw [ready.samples, ← sum_held right.inside]
    exact Finset.sum_congr rfl fun i mem => right.counted i (Finset.mem_range.mp mem)
  · rw [right.counted i below, held, samplesIn]
    congr 2
    funext c
    have wide : 0 < s.stor.bucket_size := lt_of_lt_of_le one_pos ready.shaped.wide
    have located : s.stor.index c.val = i ↔
        s.stor.min_bucket + i * s.stor.bucket_size ≤ c.val ∧
          c.val < s.stor.min_bucket + (i + 1) * s.stor.bucket_size := by
      rw [index, Int.floor_eq_iff, le_div_iff₀ wide, div_lt_iff₀ wide, Int.cast_natCast]
      constructor <;> rintro ⟨low, high⟩ <;> constructor <;> linarith
    simp only [located]

/-- A histogram that contains a value, after it has been counted. -/
def put (log : Counter → Counter) (val : Counter) (number : Int) (h : HistStor) : HistStor :=
  { h with
    cvec := addTo h.cvec (h.index val).toNat number
    sum := h.sum + val * number
    squares := h.squares + val * val * number
    logs := h.logs + log val * number
    samples := h.samples + number }

theorem count_eq (shaped : h.Shaped) (low : h.min_bucket ≤ val)
    (high : val < h.max_bucket + h.bucket_size) (number : Int) :
    h.count log val number = some (h.put log val number) :=
  if_pos (shaped.index_inside.mpr ⟨low, high⟩)

theorem sample_eq (several : 2 ≤ h.size) (shaped : h.Shaped) (grown : h.grow fuel val = some h')
    (number : Int) : h.sample log fuel val number = some (h'.put log val number) := by
  obtain ⟨shaped', -, low, high, -⟩ := grow_spec [] several shaped grown
  rw [sample, if_pos (shaped.min_lt_max several), grown, Option.bind_some]
  exact count_eq shaped' low high number

theorem step_eq {c : Sample} {g : HistStor} (several : 2 ≤ s.stor.size) (shaped : s.stor.Shaped)
    (grown : s.stor.grow fuel c.val = some g) :
    step log fuel s c = some { stor := g.put log c.val c.number, taken := c :: s.taken } := by
  rw [step, sample_eq several shaped grown, Option.map_some]

theorem Right.put {taken : List Sample} {c : Sample} (shaped : h.Shaped)
    (low : h.min_bucket ≤ c.val) (high : c.val < h.max_bucket + h.bucket_size)
    (right : h.Right taken) : (h.put log c.val c.number).Right (c :: taken) := by
  have inside := shaped.index_inside.mpr ⟨low, high⟩
  refine ⟨fun c' mem => ?_, fun i below => ?_⟩
  · rcases List.mem_cons.mp mem with rfl | earlier
    · exact inside
    · exact right.inside c' earlier
  · show addTo h.cvec (h.index c.val).toNat _ i = held h.index (c :: taken) i
    rw [addTo_apply, held_cons, right.counted i below]
    by_cases here : i = (h.index c.val).toNat
    · rw [if_pos here, if_pos (by omega), add_comm]
      rfl
    · rw [if_neg here, if_neg (by omega), zero_add]

theorem Ready.step_ok (ready : Ready s) (log : Counter → Counter) (c : Sample) :
    ∃ enough t, (∀ fuel ≥ enough, step log fuel s c = some t) ∧ Ready t ∧
      (s.stor.GrowFits s.taken c.val → s.stor.Right s.taken → t.stor.Right t.taken) := by
  obtain ⟨several, shaped, samples⟩ := ready
  obtain ⟨enough, g, grown⟩ := exists_grow several shaped c.val
  obtain ⟨shaped', same, low, high, kept⟩ := grow_spec s.taken several shaped grown
  refine ⟨enough, { stor := g.put log c.val c.number, taken := c :: s.taken },
    fun fuel le => step_eq several shaped (grow_mono le grown),
    ⟨?_, ⟨shaped'.wide, shaped'.range, shaped'.sides⟩, ?_⟩,
    fun fits right => (kept fits right).put shaped' low high⟩
  · show 2 ≤ g.size
    rwa [same.size]
  · show g.samples + _ = _
    rw [same.samples, samples, List.map_cons, List.sum_cons, add_comm]
    rfl

/-- A histogram without samples. -/
def empty (buckets : Nat) : Sampled where
  stor := reset buckets
  taken := []

theorem Ready.empty {buckets : Nat} (several : 2 ≤ buckets) : Ready (empty buckets) :=
  ⟨several, Shaped.reset buckets, rfl⟩

theorem Right.empty (buckets : Nat) : (reset buckets).Right [] :=
  ⟨fun _ mem => absurd mem List.not_mem_nil, fun _ _ => rfl⟩

theorem Ready.run (ready : Ready s) (log : Counter → Counter) (calls : List Sample) :
    ∃ enough, ∀ fuel ≥ enough, (Machine.run (step log fuel) s calls).isSome ∧
      (s.stor.Right s.taken →
        Machine.Meets (step log fuel) (fun s c => s.stor.GrowFits s.taken c.val) s calls →
        Machine.Always (step log fuel) Counted s calls) := by
  -- The induction follows the samples; the fuel has to be enough for every one of them.
  induction calls generalizing s with
  | nil => exact ⟨0, fun fuel _ => ⟨rfl, fun right _ => ready.counted right⟩⟩
  | cons c calls ih =>
    obtain ⟨enough, t, taken, ready', kept⟩ := ready.step_ok log c
    obtain ⟨enough', rest⟩ := ih ready'
    refine ⟨max enough enough', fun fuel le => ?_⟩
    have stepped := taken fuel (le_trans (le_max_left _ _) le)
    obtain ⟨ran, always⟩ := rest fuel (le_trans (le_max_right _ _) le)
    refine ⟨?_, fun right meets => ⟨ready.counted right, fun t' taken' => ?_⟩⟩
    · rwa [Machine.run_cons, stepped, Option.bind_some]
    · obtain rfl := Option.some.inj (stepped.symm.trans taken')
      obtain ⟨fits, later⟩ := meets t stepped
      exact always (kept fits right) later

/--
A histogram takes all samples, and its buckets count those of their ranges as long as every
doubling fits the samples before it.
-/
theorem samples_counted (log : Counter → Counter) {buckets : Nat} (several : 2 ≤ buckets)
    (calls : List Sample) : ∃ enough, ∀ fuel ≥ enough,
      (Machine.run (step log fuel) (empty buckets) calls).isSome ∧
        (Machine.Meets (step log fuel) (fun s c => s.stor.GrowFits s.taken c.val)
            (empty buckets) calls →
          Machine.Always (step log fuel) Counted (empty buckets) calls) := by
  obtain ⟨enough, ran⟩ := (Ready.empty several).run log calls
  exact ⟨enough, fun fuel le => ⟨(ran fuel le).1, (ran fuel le).2 (Right.empty buckets)⟩⟩

/-- Five buckets take samples on both sides of zero. -/
theorem five_buckets_counted : ∃ enough, ∀ fuel ≥ enough,
    (Machine.run (step id fuel) (empty 5) [⟨2, 1⟩, ⟨-1, 3⟩, ⟨40, 2⟩]).isSome ∧
      (Machine.Meets (step id fuel) (fun s c => s.stor.GrowFits s.taken c.val)
          (empty 5) [⟨2, 1⟩, ⟨-1, 3⟩, ⟨40, 2⟩] →
        Machine.Always (step id fuel) Counted (empty 5) [⟨2, 1⟩, ⟨-1, 3⟩, ⟨40, 2⟩]) :=
  samples_counted id (by decide) [⟨2, 1⟩, ⟨-1, 3⟩, ⟨40, 2⟩]

/-- Two buckets that have counted a zero. -/
def zeroCounted : HistStor :=
  (reset 2).put id 0 1

/-- The two buckets, made to reach to both sides. -/
def zeroConverted : HistStor :=
  { zeroCounted with
    cvec := convertCvec 2 zeroCounted.cvec
    min_bucket := -zeroCounted.max_bucket
    bucket_size := zeroCounted.bucket_size * 2 }

/-- A negative sample moves the zero of two buckets into the bucket from one on. -/
theorem zero_miscounted : ¬ ∀ buckets ≥ 2, ∀ calls : List Sample, ∃ enough, ∀ fuel ≥ enough,
    Machine.Always (step id fuel) Counted (empty buckets) calls := by
  intro claim
  obtain ⟨enough, always⟩ := claim 2 (le_refl 2) [⟨0, 1⟩, ⟨-1, 1⟩]
  -- The zero needs no room, and the sample below it makes the range one on both sides.
  have first : step id (enough + 1) (empty 2) ⟨0, 1⟩ = some ⟨zeroCounted, [⟨0, 1⟩]⟩ :=
    step_eq (le_refl 2) (Shaped.reset 2) (by simp [grow, empty, reset])
  have grown : zeroCounted.grow (enough + 1) (-1) = some zeroConverted := by
    have reached : decide ((-1 : Counter) < zeroConverted.min_bucket) = false := by decide +kernel
    rw [grow, if_pos (by decide +kernel), if_pos (by decide +kernel), growConvert_eq (le_refl 2)]
    show While.loop (fun h => decide (-1 < h.min_bucket)) growOut (enough + 1) zeroConverted = _
    refine While.loop_stop ?_ enough
    exact reached
  have second : step id (enough + 1) ⟨zeroCounted, [⟨0, 1⟩]⟩ ⟨-1, 1⟩ =
      some ⟨zeroConverted.put id (-1) 1, [⟨-1, 1⟩, ⟨0, 1⟩]⟩ := step_eq (le_refl 2)
    ⟨le_refl _, by decide +kernel, .inl (by decide +kernel)⟩ grown
  have ends := ((always (enough + 1) (Nat.le_succ enough)).2 _ first).2 _ second
  have counted := ends.2 0 (by decide)
  revert counted
  decide +kernel

end runs

end HistStor

end GemDroid

import Mathlib.Algebra.BigOperators.Fin
import GemDroid.Base.HistStorGrow

/-! What the buckets of a histogram hold, and what growing makes of right counts. -/

namespace GemDroid

namespace HistStor

variable {h h' : HistStor} {val : Counter}

/-- A value that is sampled some number of times at once. -/
structure Sample where
  val : Counter
  number : ℕ+

section shape

/-- The range of a histogram begins at zero or has zero in its middle. -/
structure Shaped (h : HistStor) : Prop where
  wide : 1 ≤ h.bucket_size
  range : h.max_bucket = h.min_bucket + (h.size - 1) * h.bucket_size
  sides : h.min_bucket = 0 ∨ 2 * h.min_bucket = -((h.size - 1) * h.bucket_size)

/-- The sums of a histogram, which do not depend on its buckets, are those of another one. -/
structure SameSums (h g : HistStor) : Prop where
  size : g.size = h.size
  sum : g.sum = h.sum
  logs : g.logs = h.logs
  squares : g.squares = h.squares
  samples : g.samples = h.samples

theorem SameSums.refl (h : HistStor) : SameSums h h := ⟨rfl, rfl, rfl, rfl, rfl⟩

theorem SameSums.trans {g k : HistStor} (first : SameSums h g) (second : SameSums g k) :
    SameSums h k :=
  ⟨second.size.trans first.size, second.sum.trans first.sum, second.logs.trans first.logs,
    second.squares.trans first.squares, second.samples.trans first.samples⟩

theorem Shaped.reset (buckets : Nat) : (reset buckets).Shaped := by
  refine ⟨le_refl _, ?_, .inl rfl⟩
  simp [HistStor.reset]

theorem Shaped.growUp (shaped : h.Shaped) (from_zero : h.min_bucket = 0)
    (grown : h.growUp = some h') :
    h'.Shaped ∧ SameSums h h' ∧ h'.min_bucket = 0 ∧ h'.bucket_size = h.bucket_size * 2 := by
  rw [growUp_eq] at grown
  obtain rfl := Option.some.inj grown
  refine ⟨⟨?_, ?_, .inl from_zero⟩, ⟨rfl, rfl, rfl, rfl, rfl⟩, from_zero, rfl⟩
  · show 1 ≤ h.bucket_size * 2
    linarith [shaped.wide]
  · show h.max_bucket * 2 = h.min_bucket + (h.size - 1) * (h.bucket_size * 2)
    rw [shaped.range, from_zero]
    ring

theorem Shaped.growConvert (several : 2 ≤ h.size) (shaped : h.Shaped)
    (from_zero : h.min_bucket = 0) (grown : h.growConvert = some h') :
    h'.Shaped ∧ SameSums h h' ∧ h'.min_bucket = -h.max_bucket ∧
      h'.bucket_size = h.bucket_size * 2 := by
  rw [growConvert_eq several] at grown
  obtain rfl := Option.some.inj grown
  have range := shaped.range
  rw [from_zero] at range
  refine ⟨⟨?_, ?_, .inr ?_⟩, ⟨rfl, rfl, rfl, rfl, rfl⟩, rfl, rfl⟩
  · show 1 ≤ h.bucket_size * 2
    linarith [shaped.wide]
  · show h.max_bucket = -h.max_bucket + (h.size - 1) * (h.bucket_size * 2)
    rw [range]
    ring
  · show 2 * -h.max_bucket = -((h.size - 1) * (h.bucket_size * 2))
    rw [range]
    ring

theorem Shaped.growOut (several : 2 ≤ h.size) (shaped : h.Shaped)
    (grown : h.growOut = some h') :
    h'.Shaped ∧ SameSums h h' ∧ h'.min_bucket = h.min_bucket * 2 ∧
      h'.max_bucket = h.max_bucket * 2 ∧ h'.bucket_size = h.bucket_size * 2 := by
  rw [growOut_eq several] at grown
  obtain rfl := Option.some.inj grown
  refine ⟨⟨?_, ?_, ?_⟩, ⟨rfl, rfl, rfl, rfl, rfl⟩, rfl, rfl, rfl⟩
  · show 1 ≤ h.bucket_size * 2
    linarith [shaped.wide]
  · show h.max_bucket * 2 = h.min_bucket * 2 + (h.size - 1) * (h.bucket_size * 2)
    rw [shaped.range]
    ring
  · rcases shaped.sides with from_zero | middle
    · left
      show h.min_bucket * 2 = 0
      rw [from_zero, zero_mul]
    · right
      show 2 * (h.min_bucket * 2) = -((h.size - 1) * (h.bucket_size * 2))
      linarith

theorem Shaped.end_pos (several : 2 ≤ h.size) (shaped : h.Shaped) :
    0 < h.max_bucket + h.bucket_size := by
  have wide := shaped.wide
  have sizes : (2 : Counter) ≤ h.size := by exact_mod_cast several
  have product : 0 ≤ (h.size - 1) * h.bucket_size := by
    apply mul_nonneg <;> linarith
  rw [shaped.range]
  rcases shaped.sides with from_zero | middle <;> linarith

theorem Shaped.min_nonpos (several : 2 ≤ h.size) (shaped : h.Shaped) : h.min_bucket ≤ 0 := by
  have wide := shaped.wide
  have sizes : (2 : Counter) ≤ h.size := by exact_mod_cast several
  have product : 0 ≤ (h.size - 1) * h.bucket_size := by
    apply mul_nonneg <;> linarith
  rcases shaped.sides with from_zero | middle <;> linarith

theorem Shaped.min_le (several : 2 ≤ h.size) (shaped : h.Shaped) (both : h.min_bucket ≠ 0) :
    h.min_bucket ≤ -(1 / 2) := by
  have wide := shaped.wide
  have sizes : (2 : Counter) ≤ h.size := by exact_mod_cast several
  have product : 1 * 1 ≤ (h.size - 1) * h.bucket_size := by
    apply mul_le_mul <;> linarith
  rcases shaped.sides with from_zero | middle
  · exact absurd from_zero both
  · linarith

theorem Shaped.one_le_max (several : 2 ≤ h.size) (shaped : h.Shaped)
    (from_zero : h.min_bucket = 0) : 1 ≤ h.max_bucket := by
  have wide := shaped.wide
  have sizes : (2 : Counter) ≤ h.size := by exact_mod_cast several
  have product : 1 * 1 ≤ (h.size - 1) * h.bucket_size := by
    apply mul_le_mul <;> linarith
  rw [shaped.range]
  linarith

theorem Shaped.min_lt_max (several : 2 ≤ h.size) (shaped : h.Shaped) :
    h.min_bucket < h.max_bucket := by
  have wide := shaped.wide
  have sizes : (2 : Counter) ≤ h.size := by exact_mod_cast several
  have product : 1 * 1 ≤ (h.size - 1) * h.bucket_size := by
    apply mul_le_mul <;> linarith
  rw [shaped.range]
  linarith

theorem Shaped.one_le_end (several : 2 ≤ h.size) (shaped : h.Shaped) :
    1 ≤ h.max_bucket + h.bucket_size := by
  have wide := shaped.wide
  have sizes : (2 : Counter) ≤ h.size := by exact_mod_cast several
  have product : 1 * 1 ≤ (h.size - 1) * h.bucket_size := by
    apply mul_le_mul <;> linarith
  rw [shaped.range]
  rcases shaped.sides with from_zero | middle <;> linarith

theorem Shaped.index_inside (shaped : h.Shaped) :
    (0 ≤ h.index val ∧ h.index val < h.size) ↔
      h.min_bucket ≤ val ∧ val < h.max_bucket + h.bucket_size := by
  have wide : 0 < h.bucket_size := lt_of_lt_of_le one_pos shaped.wide
  have ends : h.max_bucket + h.bucket_size = h.min_bucket + h.size * h.bucket_size := by
    rw [shaped.range]
    ring
  rw [index, Int.le_floor, Int.floor_lt, ends, Int.cast_zero, Int.cast_natCast, le_div_iff₀ wide,
    div_lt_iff₀ wide]
  constructor <;> rintro ⟨low, high⟩ <;> constructor <;> linarith

end shape

section counts

/-- How many samples some way to find buckets puts into one of them. -/
def held (locate : Counter → Int) (taken : List Sample) (i : Int) : Counter :=
  (taken.map fun c => if locate c.val = i then (c.number : Counter) else 0).sum

theorem held_cons (locate : Counter → Int) (c : Sample) (taken : List Sample) (i : Int) :
    held locate (c :: taken) i =
      (if locate c.val = i then (c.number : Counter) else 0) + held locate taken i := by
  rw [held, List.map_cons, List.sum_cons, held]

theorem held_of_pair (locate locate' : Counter → Int) (taken : List Sample) {i j k : Int}
    (apart : i ≠ j) (moved : ∀ c ∈ taken, locate' c.val = k ↔ locate c.val = i ∨ locate c.val = j) :
    held locate' taken k = held locate taken i + held locate taken j := by
  induction taken with
  | nil => simp [held]
  | cons c taken ih =>
    rw [held_cons, held_cons, held_cons, ih fun c mem => moved c (List.mem_cons_of_mem _ mem)]
    have here := moved c List.mem_cons_self
    by_cases first : locate c.val = i
    · have second : locate c.val ≠ j := fun same => apart (first.symm.trans same)
      rw [if_pos (here.mpr (.inl first)), if_pos first, if_neg second]
      ring
    · by_cases second : locate c.val = j
      · rw [if_pos (here.mpr (.inr second)), if_neg first, if_pos second]
        ring
      · rw [if_neg fun moved => (here.mp moved).elim first second, if_neg first, if_neg second]
        ring

theorem held_of_none {locate : Counter → Int} {taken : List Sample} {i : Int}
    (elsewhere : ∀ c ∈ taken, locate c.val ≠ i) : held locate taken i = 0 := by
  induction taken with
  | nil => rfl
  | cons c taken ih =>
    rw [held_cons, if_neg (elsewhere c List.mem_cons_self), zero_add]
    exact ih fun c mem => elsewhere c (List.mem_cons_of_mem _ mem)

theorem sum_held {locate : Counter → Int} {taken : List Sample} {size : Nat}
    (inside : ∀ c ∈ taken, 0 ≤ locate c.val ∧ locate c.val < size) :
    ∑ i ∈ Finset.range size, held locate taken i =
      (taken.map fun c => (c.number : Counter)).sum := by
  induction taken with
  | nil => simp [held]
  | cons c taken ih =>
    obtain ⟨low, high⟩ := inside c List.mem_cons_self
    simp only [held_cons, Finset.sum_add_distrib]
    rw [ih fun c mem => inside c (List.mem_cons_of_mem _ mem), List.map_cons, List.sum_cons]
    congr 1
    -- Just one of the buckets is that of the first sample.
    rw [Finset.sum_eq_single_of_mem (locate c.val).toNat (Finset.mem_range.mpr (by omega)),
      if_pos (by omega)]
    intro i mem other
    rw [if_neg (by omega)]

/-- Every sample lies in the range, and every bucket has counted those of its own range. -/
structure Right (taken : List Sample) (h : HistStor) : Prop where
  inside : ∀ c ∈ taken, 0 ≤ h.index c.val ∧ h.index c.val < h.size
  counted : ∀ i < h.size, h.cvec i = held h.index taken i

end counts

section merges

variable {taken : List Sample}

/-- The number of the half of a bucket that a value lies in. -/
def half (h : HistStor) (val : Counter) : Int :=
  ⌊2 * (val - h.min_bucket) / h.bucket_size⌋

theorem floor_div_two (a : Counter) : ⌊a / 2⌋ = ⌊a⌋ / 2 :=
  Int.floor_div_natCast a 2

theorem index_eq_half (h : HistStor) (val : Counter) : h.index val = h.half val / 2 := by
  rw [half, index, ← floor_div_two]
  congr 1
  ring

/-- The samples for which a range that begins at zero can be extended to both sides. -/
def ConvertFits (size : Nat) (bucket_size : Counter) (taken : List Sample) : Prop :=
  ∀ c ∈ taken, (⌊c.val / bucket_size⌋ + size) % 2 = 1 ∧
    (size % 2 = 1 → ⌊c.val / bucket_size⌋ ≠ 0)

/--
The samples for which a range on both sides of zero can be doubled.

With an even number of buckets zero lies in the middle of one of them. Where such a bucket is
split, none of them may lie in its lower half.
-/
def OutFits (size : Nat) (min_bucket bucket_size : Counter) (taken : List Sample) : Prop :=
  ∀ c ∈ taken, (size % 4 = 3 → ⌊(c.val - min_bucket) / bucket_size⌋ ≠ 0) ∧
    (size % 2 = 0 → ⌊2 * (c.val - min_bucket) / bucket_size⌋ % 4 ≠ size % 4)

section buckets

variable {size : Nat} {cvec : Nat → Counter} {locate locate' : Counter → Int}

theorem upCvec_held (locate locate' : Counter → Int)
    (inside : ∀ c ∈ taken, 0 ≤ locate c.val ∧ locate c.val < size)
    (counted : ∀ i < size, cvec i = held locate taken i)
    (moved : ∀ c ∈ taken, locate' c.val = locate c.val / 2) (i : Nat) (below : i < size) :
    upCvec size cvec i = held locate' taken i := by
  rw [upCvec]
  by_cases lower : i < (size + 1) / 2
  · have pair := held_of_pair locate locate' taken
      (i := (2 * i : Nat)) (j := (2 * i + 1 : Nat)) (k := i) (by omega) fun c mem => by
        rw [moved c mem]
        omega
    rw [if_pos lower, counted _ (by omega), pair]
    congr 1
    split_ifs with last
    · exact counted _ last
    · refine (held_of_none fun c mem => ?_).symm
      have here := inside c mem
      omega
  · rw [if_neg lower, if_pos below, held_of_none]
    intro c mem
    have here := inside c mem
    rw [moved c mem]
    omega

theorem convertCvec_held (inside : ∀ c ∈ taken, 0 ≤ locate c.val ∧ locate c.val < size)
    (counted : ∀ i < size, cvec i = held locate taken i)
    (moved : ∀ c ∈ taken, locate' c.val = (locate c.val + (size - 1)) / 2)
    (fits : ∀ c ∈ taken, (locate c.val + size) % 2 = 1 ∧ (size % 2 = 1 → locate c.val ≠ 0))
    (i : Nat) (below : i < size) : convertCvec size cvec i = held locate' taken i := by
  rw [convertCvec]
  by_cases lower : i < (size + 1) / 2
  · rw [if_pos lower, held_of_none]
    intro c mem
    have here := inside c mem
    have fit := fits c mem
    rw [moved c mem]
    omega
  · have pair := held_of_pair locate locate' taken
      (i := (2 * i + 1 - size : Nat)) (j := 2 * i - size) (k := i) (by omega) fun c mem => by
        have fit := fits c mem
        rw [moved c mem]
        omega
    rw [if_neg lower, if_pos below, counted _ (by omega), pair]
    congr 1
    split_ifs with low
    · rw [counted _ (by omega)]
      congr 1
      omega
    · refine (held_of_none fun c mem => ?_).symm
      have here := inside c mem
      omega

/-- Four halves become one bucket, and all move up by half of the buckets. -/
theorem outCvec_held {halves : Counter → Int}
    (located : ∀ val, locate val = halves val / 2)
    (inside : ∀ c ∈ taken, 0 ≤ locate c.val ∧ locate c.val < size)
    (counted : ∀ i < size, cvec i = held locate taken i)
    (moved : ∀ c ∈ taken, locate' c.val = (halves c.val + (size - 1)) / 4)
    (fits : ∀ c ∈ taken, (size % 4 = 3 → locate c.val ≠ 0) ∧
      (size % 2 = 0 → halves c.val % 4 ≠ (size : Int) % 4))
    (i : Nat) (below : i < size) : outCvec size cvec i = held locate' taken i := by
  simp only [located] at fits
  -- A sample that fits moves as its bucket does.
  have moved' (c : Sample) (mem : c ∈ taken) :
      locate' c.val = (locate c.val + (size / 2 : Nat)) / 2 ∧
        (size % 4 = 3 → locate c.val ≠ 0) := by
    have fit := fits c mem
    have here := inside c mem
    rw [moved c mem]
    rw [located] at here ⊢
    omega
  rw [outCvec]
  by_cases bottom : i < (size - size / 2) / 2
  · rw [if_pos bottom, held_of_none]
    intro c mem
    have here := inside c mem
    have fit := moved' c mem
    omega
  · rw [if_neg bottom]
    by_cases lower : i < size / 2
    · have pair := held_of_pair locate locate' taken
        (i := (2 * i + 1 - size / 2 : Nat)) (j := 2 * i - (size / 2 : Nat)) (k := i) (by omega)
        fun c mem => by
          have fit := moved' c mem
          omega
      rw [if_pos lower, counted _ (by omega), pair]
      congr 1
      split_ifs with low
      · rw [counted _ (by omega)]
        congr 1
        omega
      · refine (held_of_none fun c mem => ?_).symm
        have here := inside c mem
        omega
    · rw [if_neg lower]
      by_cases upper : i < size / 2 + (size - size / 2 + 1) / 2
      · have pair := held_of_pair locate locate' taken
          (i := (2 * i - size / 2 : Nat)) (j := (2 * i - size / 2 + 1 : Nat)) (k := i) (by omega)
          fun c mem => by
            have fit := moved' c mem
            omega
        rw [if_pos upper, counted _ (by omega), pair]
        congr 1
        split_ifs with high
        · exact counted _ high
        · refine (held_of_none fun c mem => ?_).symm
          have here := inside c mem
          omega
      · rw [if_neg upper, if_pos below, held_of_none]
        intro c mem
        have here := inside c mem
        have fit := moved' c mem
        omega

end buckets

theorem Right.growUp (shaped : h.Shaped) (right : h.Right taken) (from_zero : h.min_bucket = 0)
    (grown : h.growUp = some h') : h'.Right taken := by
  obtain ⟨-, same, from_zero', wider⟩ := shaped.growUp from_zero grown
  have cvec : h'.cvec = upCvec h.size h.cvec := by
    rw [growUp_eq] at grown
    rw [← Option.some.inj grown]
  have moved (val : Counter) : h'.index val = h.index val / 2 := by
    rw [index, index, from_zero, from_zero', wider, ← floor_div_two, div_div]
  refine ⟨fun c mem => ?_, fun i below => ?_⟩
  · have inside := right.inside c mem
    rw [moved, same.size]
    omega
  · rw [same.size] at below
    rw [cvec]
    exact upCvec_held h.index h'.index right.inside right.counted (fun c _ => moved c.val) i below

theorem Right.growConvert (several : 2 ≤ h.size) (shaped : h.Shaped) (right : h.Right taken)
    (from_zero : h.min_bucket = 0) (fits : ConvertFits h.size h.bucket_size taken)
    (grown : h.growConvert = some h') : h'.Right taken := by
  obtain ⟨-, same, lower, wider⟩ := shaped.growConvert several from_zero grown
  have cvec : h'.cvec = convertCvec h.size h.cvec := by
    rw [growConvert_eq several] at grown
    rw [← Option.some.inj grown]
  have wide : h.bucket_size ≠ 0 := (lt_of_lt_of_le one_pos shaped.wide).ne'
  have located (val : Counter) : h.index val = ⌊val / h.bucket_size⌋ := by
    rw [index, from_zero, sub_zero]
  have moved (val : Counter) : h'.index val = (h.index val + (h.size - 1 : Int)) / 2 := by
    rw [located, index, lower, wider, shaped.range, from_zero, ← Int.floor_add_intCast,
      ← floor_div_two]
    congr 1
    push_cast
    field_simp
    ring
  refine ⟨fun c mem => ?_, fun i below => ?_⟩
  · have inside := right.inside c mem
    rw [moved, same.size]
    omega
  · rw [same.size] at below
    rw [cvec]
    refine convertCvec_held right.inside right.counted (fun c _ => moved c.val) (fun c mem => ?_)
      i below
    rw [located]
    exact fits c mem

theorem Right.growOut (several : 2 ≤ h.size) (shaped : h.Shaped) (right : h.Right taken)
    (both : h.min_bucket ≠ 0) (fits : OutFits h.size h.min_bucket h.bucket_size taken)
    (grown : h.growOut = some h') : h'.Right taken := by
  obtain ⟨-, same, lower, -, wider⟩ := shaped.growOut several grown
  have cvec : h'.cvec = outCvec h.size h.cvec := by
    rw [growOut_eq several] at grown
    rw [← Option.some.inj grown]
  have wide : h.bucket_size ≠ 0 := (lt_of_lt_of_le one_pos shaped.wide).ne'
  have middle := shaped.sides.resolve_left both
  have moved (val : Counter) : h'.index val = (h.half val + (h.size - 1 : Int)) / 4 := by
    have quarter := Int.floor_div_natCast
      (2 * (val - h.min_bucket) / h.bucket_size + ((h.size - 1 : Int) : Counter)) 4
    rw [Int.floor_add_intCast] at quarter
    rw [half, index, lower, wider]
    refine Eq.trans (congrArg _ ?_) quarter
    push_cast
    field_simp
    linarith
  refine ⟨fun c mem => ?_, fun i below => ?_⟩
  · have inside := right.inside c mem
    rw [index_eq_half] at inside
    rw [moved, same.size]
    omega
  · rw [same.size] at below
    rw [cvec]
    refine outCvec_held (index_eq_half h) right.inside right.counted (fun c _ => moved c.val)
      (fun c mem => ?_) i below
    have fit := fits c mem
    exact ⟨fit.1, fit.2⟩

end merges

end HistStor

end GemDroid

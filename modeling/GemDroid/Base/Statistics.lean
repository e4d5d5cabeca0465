import Mathlib.Data.Rat.Floor
import GemDroid.Lib.While

/-! The storages of the distribution statistics, with exact counters. -/

namespace GemDroid

/-- A counter of a statistic (`Counter`), whose arithmetic is exact here. -/
abbrev Counter := ℚ

/-- A distribution over a fixed range (`DistStor`). -/
structure DistStor where
  /-- The number of buckets (`cvec.size()`). -/
  size : Nat
  min_track : Counter
  max_track : Counter
  bucket_size : Counter
  min_val : Counter
  max_val : Counter
  underflow : Counter
  overflow : Counter
  sum : Counter
  squares : Counter
  samples : Counter
  cvec : Nat → Counter

/-- A histogram, whose range grows with the samples (`HistStor`). -/
@[ext] structure HistStor where
  /-- The number of buckets (`cvec.size()`). -/
  size : Nat
  min_bucket : Counter
  max_bucket : Counter
  bucket_size : Counter
  sum : Counter
  logs : Counter
  squares : Counter
  samples : Counter
  cvec : Nat → Counter

/-- A storage for mean and variance (`SampleStor`). -/
structure SampleStor where
  sum : Counter
  squares : Counter
  samples : Counter

/-- A storage for mean and variance per tick (`AvgSampleStor`). -/
structure AvgSampleStor where
  sum : Counter
  squares : Counter

/-- Add to one of the buckets. -/
def addTo (cvec : Nat → Counter) (index : Nat) (number : Counter) : Nat → Counter :=
  Function.update cvec index (cvec index + number)

/-- Clear the buckets from one index up to another. -/
def clear (first last : Nat) (cvec : Nat → Counter) : Nat → Counter :=
  fun i => if first ≤ i ∧ i < last then 0 else cvec i

namespace DistStor

/-- The bucket of a value. -/
def index (d : DistStor) (val : Counter) : Int :=
  ⌊(val - d.min_track) / d.bucket_size⌋

/-- Count a value in its bucket, or beside the buckets (in `sample`). -/
def count (val : Counter) (number : Int) (d : DistStor) : Option DistStor :=
  if val < d.min_track then some { d with underflow := d.underflow + number }
  else if val > d.max_track then some { d with overflow := d.overflow + number }
  -- The index is asserted to be in range.
  else if 0 ≤ d.index val ∧ d.index val < d.size then
    some { d with cvec := addTo d.cvec (d.index val).toNat number }
  else none

/-- Add a value to the range that has been seen and to the sums (in `sample`). -/
def note (val : Counter) (number : Int) (d : DistStor) : DistStor :=
  { d with
    min_val := if val < d.min_val then val else d.min_val
    max_val := if val > d.max_val then val else d.max_val
    sum := d.sum + val * number
    squares := d.squares + val * val * number
    samples := d.samples + number }

def sample (val : Counter) (number : Int) (d : DistStor) : Option DistStor :=
  (d.count val number).map (note val number)

end DistStor

namespace HistStor

/-- Fill buckets upwards, each with a pair of the buckets above it. -/
def pairUp (size : Nat) : (steps i pair : Nat) → (Nat → Counter) → (Nat → Counter) × Nat
  | 0, _, pair, cvec => (cvec, pair)
  | steps + 1, i, pair, cvec =>
    let cvec := Function.update cvec i (cvec pair)
    let cvec := if pair + 1 < size then addTo cvec i (cvec (pair + 1)) else cvec
    pairUp size steps (i + 1) (pair + 2) cvec

/-- Fill buckets downwards, each with a pair of the buckets below it. -/
def pairDown : (steps i : Nat) → (pair : Int) → (Nat → Counter) → Option ((Nat → Counter) × Int)
  | 0, _, pair, cvec => some (cvec, pair)
  | steps + 1, i, pair, cvec =>
    -- There is no bucket to read below the first one.
    if pair < 0 then none
    else
      let cvec := Function.update cvec i (cvec pair.toNat)
      let cvec := if pair - 1 ≥ 0 then addTo cvec i (cvec (pair - 1).toNat) else cvec
      pairDown steps (i - 1) (pair - 2) cvec

/-- Double the range on both sides of zero. -/
def growOut (h : HistStor) : Option HistStor := do
  let size := h.size
  let zero := size / 2
  let top_half := zero + (size - zero + 1) / 2
  let bottom_half := (size - zero) / 2
  let (cvec, low_pair) ← pairDown (zero - bottom_half) (zero - 1) (zero - 1) h.cvec
  if ¬(low_pair = 0 ∨ low_pair = -1 ∨ low_pair = -2) then none
  let (cvec, high_pair) := pairUp size (top_half - zero) zero zero (clear 0 bottom_half cvec)
  if ¬(high_pair = size ∨ high_pair = size + 1) then none
  some { h with
    cvec := clear top_half size cvec
    max_bucket := h.max_bucket * 2
    min_bucket := h.min_bucket * 2
    bucket_size := h.bucket_size * 2 }

/-- Extend the range from zero on to one on both sides. -/
def growConvert (h : HistStor) : Option HistStor := do
  let size := h.size
  let half := (size + 1) / 2
  let (cvec, _) ← pairDown (size - half) (size - 1) (size - 1) h.cvec
  some { h with
    cvec := clear 0 half cvec
    min_bucket := -h.max_bucket
    bucket_size := h.bucket_size * 2 }

/-- Double the range from zero on. -/
def growUp (h : HistStor) : Option HistStor :=
  let size := h.size
  let half := (size + 1) / 2
  let (cvec, pair) := pairUp size half 0 0 h.cvec
  if ¬(pair = size ∨ pair = size + 1) then none
  else some { h with
    cvec := clear half size cvec
    max_bucket := h.max_bucket * 2
    bucket_size := h.bucket_size * 2 }

/-- Grow until the range contains a value (in `sample`); each loop may go round `fuel` times. -/
def grow (fuel : Nat) (val : Counter) (h : HistStor) : Option HistStor :=
  if val < h.min_bucket then do
    let h ← if h.min_bucket = 0 then h.growConvert else some h
    While.loop (fun h => val < h.min_bucket) growOut fuel h
  else if val ≥ h.max_bucket + h.bucket_size then
    if h.min_bucket = 0 then
      While.loop (fun h => val ≥ h.max_bucket + h.bucket_size) growUp fuel h
    else
      While.loop (fun h => val ≥ h.max_bucket + h.bucket_size) growOut fuel h
  else some h

/-- The bucket of a value. -/
def index (h : HistStor) (val : Counter) : Int :=
  ⌊(val - h.min_bucket) / h.bucket_size⌋

/-- Count a value of the range (in `sample`). -/
def count (log : Counter → Counter) (val : Counter) (number : Int) (h : HistStor) :
    Option HistStor :=
  if 0 ≤ h.index val ∧ h.index val < h.size then
    some { h with
      cvec := addTo h.cvec (h.index val).toNat number
      sum := h.sum + val * number
      squares := h.squares + val * val * number
      logs := h.logs + log val * number
      samples := h.samples + number }
  else none

def sample (log : Counter → Counter) (fuel : Nat) (val : Counter) (number : Int) (h : HistStor) :
    Option HistStor :=
  if h.min_bucket < h.max_bucket then (h.grow fuel val).bind (count log val number) else none

/-- A histogram without samples. -/
def reset (buckets : Nat) : HistStor where
  size := buckets
  min_bucket := 0
  max_bucket := buckets - 1
  bucket_size := 1
  sum := 0
  logs := 0
  squares := 0
  samples := 0
  cvec _ := 0

/-- Add another histogram, which grows with the first one. -/
def add (fuel : Nat) (h hs : HistStor) : Option (HistStor × HistStor) := do
  if h.size ≠ hs.size ∨ h.min_bucket ≠ hs.min_bucket then none
  let h := { h with
    sum := h.sum + hs.sum
    logs := h.logs + hs.logs
    squares := h.squares + hs.squares
    samples := h.samples + hs.samples }
  let hs ← While.loop (fun hs => h.bucket_size > hs.bucket_size) growUp fuel hs
  let h ← While.loop (fun h => h.bucket_size < hs.bucket_size) growUp fuel h
  some ({ h with cvec := fun i => if i < hs.size then h.cvec i + hs.cvec i else h.cvec i }, hs)

end HistStor

namespace SampleStor

def sample (val : Counter) (number : Int) (s : SampleStor) : SampleStor :=
  let value := val * number
  { s with
    sum := s.sum + value
    squares := s.squares + value * value
    samples := s.samples + number }

end SampleStor

namespace AvgSampleStor

def sample (val : Counter) (number : Int) (s : AvgSampleStor) : AvgSampleStor :=
  let value := val * number
  { s with
    sum := s.sum + value
    squares := s.squares + value * value }

end AvgSampleStor

end GemDroid

import GemDroid.Dev.CowDiskImage

/-! What reads return over runs of writes, reads, saved files that are opened, and writebacks. -/

namespace GemDroid

/-- What can be done with an overlay. -/
inductive CowOp
  | write (data : Sector) (offset : Nat)
  | read (offset : Nat)
  | saveAndOpen
  | writeback

namespace CowOp

/-- The sector that an access is to. -/
def offset : CowOp → Option Nat
  | .write _ offset | .read offset => some offset
  | .saveAndOpen | .writeback => none

/-- The data that an access writes to a sector. -/
def written (k : Nat) : CowOp → Option Sector
  | .write data offset => if offset = k then some data else none
  | .read _ | .saveAndOpen | .writeback => none

end CowOp

/-- The data that was written last to a sector. -/
def lastWrite (history : List CowOp) (k : Nat) : Option Sector :=
  history.foldl (fun last op => (op.written k).or last) none

@[simp] theorem lastWrite_append_singleton (history : List CowOp) (op : CowOp) (k : Nat) :
    lastWrite (history ++ [op]) k = (op.written k).or (lastWrite history k) := by
  simp [lastWrite]

namespace CowDiskImage

variable {σ : Type}

/-- Carry out an operation, with the data that a read returns. -/
def step (disk : DiskImage σ) (traversal : Traversal) (op : CowOp) (image : CowDiskImage σ) :
    Except DiskFault (CowDiskImage σ × Option Sector) :=
  match op with
  | .write data offset => do
    let image ← image.write disk data offset
    .ok (image, none)
  | .read offset => do
    let data ← image.read disk offset
    .ok (image, some data)
  | .saveAndOpen => do
    let image ← image.saveAndOpen traversal
    .ok (image, none)
  | .writeback => do
    let image ← image.writeback disk traversal
    .ok (image, none)

/-- Carry out operations until one of them panics. -/
def run (disk : DiskImage σ) (traversal : Traversal) (ops : List CowOp) (image : CowDiskImage σ) :
    Except DiskFault (CowDiskImage σ) :=
  ops.foldlM (fun image op => do
    let (image, _) ← image.step disk traversal op
    .ok image) image

end CowDiskImage

/--
What an operation has to do after some history over a child image.

Accesses beyond the child are rejected and others see what was written last; a saved file
  brings back
the overlay, and a writeback makes the child read as the overlay did.
-/
def CowOp.Right {σ : Type} (disk : DiskImage σ) (child : σ) (history : List CowOp)
    (before : CowDiskImage σ) (op : CowOp)
    (outcome : Except DiskFault (CowDiskImage σ × Option Sector)) : Prop :=
  match op with
  | .write _ k =>
    if k < disk.size then ∃ after, outcome = .ok (after, none)
    else ∃ fault, outcome = .error fault
  | .read k =>
    if k < disk.size then ∃ data, outcome = .ok (before, some data) ∧
      (lastWrite history k = some data ∨
        lastWrite history k = none ∧ disk.read k child = .ok data)
    else ∃ fault, outcome = .error fault
  | .saveAndOpen => ∃ after, outcome = .ok (after, none) ∧ after.child = before.child ∧
      ∀ k, after.table.lookup k = before.table.lookup k
  | .writeback => (∀ k ∈ before.table, k < disk.size) ∧
      ∃ after, outcome = .ok (after, none) ∧
        ∀ k < disk.size, disk.read k after.child = before.read disk k

namespace CowDiskImage

variable {σ : Type} {disk : DiskImage σ} {traversal : Traversal} {child : σ}
  {history : List CowOp} {image : CowDiskImage σ}

/-- The overlay holds what was written last, and the child what it held where nothing was. -/
structure Sound (disk : DiskImage σ) (child : σ) (history : List CowOp)
    (image : CowDiskImage σ) : Prop where
  below : ∀ k ∈ image.table, k < disk.size
  table : ∀ k, image.table.lookup k = lastWrite history k
  child : ∀ k < disk.size, k ∉ image.table → disk.read k image.child = disk.read k child

theorem initSectorTable_sound (disk : DiskImage σ) (child : σ) :
    Sound disk child [] (initSectorTable child) :=
  ⟨by simp [initSectorTable], fun _ => rfl, fun _ _ _ => rfl⟩

theorem Sound.fits (sound : Sound disk child history image) : Fits image.table := by
  have small := disk.size_lt
  have offset (k : Nat) (member : k ∈ image.table) : k < 256 ^ 8 := by
    have bound := sound.below k member
    omega
  refine ⟨offset, ?_⟩
  -- There are no more sectors in the table than in the child.
  have keys : image.table.keys.Subperm (List.range disk.size) :=
    List.subperm_of_subset image.table.keys_nodup fun k member =>
      List.mem_range.mpr (sound.below k member)
  have most := keys.length_le
  rw [AList.keys, List.keys, List.length_map, List.length_range] at most
  omega

theorem writeAll {entries : List NumberedSector} (distinct : entries.NodupKeys)
    (below : ∀ entry ∈ entries, entry.1 < disk.size) (s : σ) :
    ∃ s', entries.foldlM (fun child entry => disk.write entry.2 entry.1 child) s = .ok s' ∧
      ∀ k < disk.size, disk.read k s' = ((entries.dlookup k).map .ok).getD (disk.read k s) := by
  induction entries generalizing s with
  | nil => exact ⟨s, rfl, fun _ _ => rfl⟩
  | cons entry entries ih =>
    obtain ⟨offset, data⟩ := entry
    obtain ⟨apart, others⟩ := List.nodupKeys_cons.mp distinct
    obtain ⟨first, rest⟩ := List.forall_mem_cons.mp below
    obtain ⟨next, written, reads⟩ := disk.writes offset first data s
    obtain ⟨s', ran, result⟩ := ih others rest next
    refine ⟨s', by simp [written, ran, bind, Except.bind], fun k inside => ?_⟩
    rw [result k inside, reads k inside]
    by_cases same : k = offset
    · subst same
      simp [List.dlookup_eq_none.mpr apart]
    · simp [List.dlookup_cons_ne, same]

theorem Sound.unwritten (sound : Sound disk child history image) {op : CowOp}
    (nothing : ∀ k, op.written k = none) {after : CowDiskImage σ}
    (table : ∀ k, after.table.lookup k = image.table.lookup k)
    (beneath : ∀ k < disk.size, k ∉ image.table →
      disk.read k after.child = disk.read k image.child) :
    Sound disk child (history ++ [op]) after := by
  have same (k : Nat) : k ∈ after.table ↔ k ∈ image.table := by
    rw [← AList.lookup_isSome, ← AList.lookup_isSome, table]
  refine ⟨fun k member => sound.below k ((same k).mp member), fun k => ?_, fun k inside apart => ?_⟩
  · rw [table, sound.table, lastWrite_append_singleton, nothing, Option.none_or]
  · have absent := mt (same k).mpr apart
    exact (beneath k inside absent).trans (sound.child k inside absent)

theorem Sound.write (sound : Sound disk child history image) {data : Sector} {offset : Nat}
    (inside : offset < disk.size) :
    Sound disk child (history ++ [.write data offset])
      { image with table := image.table.insert offset data } := by
  refine ⟨fun k member => ?_, fun k => ?_, fun k bound apart => ?_⟩
  · obtain rfl | old := (AList.mem_insert _).mp member
    · exact inside
    · exact sound.below k old
  · rw [lastWrite_append_singleton, CowOp.written]
    by_cases same : offset = k
    · subst same
      simp
    · rw [AList.lookup_insert_ne (Ne.symm same), sound.table, if_neg same, Option.none_or]
  · exact sound.child k bound fun old => apart ((AList.mem_insert _).mpr (.inr old))

theorem Sound.read (sound : Sound disk child history image) {k : Nat} (inside : k < disk.size) :
    ∃ data, image.read disk k = .ok data ∧ (lastWrite history k = some data ∨
      lastWrite history k = none ∧ disk.read k child = .ok data) := by
  simp only [CowDiskImage.read, if_neg (Nat.lt_asymm inside), sound.table]
  cases last : lastWrite history k with
  | some data => exact ⟨data, rfl, .inl rfl⟩
  | none =>
    obtain ⟨data, held⟩ := disk.reads k inside child
    have absent : k ∉ image.table := AList.lookup_eq_none.mp ((sound.table k).trans last)
    exact ⟨data, (sound.child k inside absent).trans held, .inr ⟨rfl, held⟩⟩

theorem Sound.saveAndOpen (sound : Sound disk child history image) (traversal : Traversal) :
    ∃ after, image.saveAndOpen traversal = .ok after ∧ after.child = image.child ∧
      ∀ k, after.table.lookup k = image.table.lookup k := by
  obtain ⟨opened, ran, perm⟩ := openTable_save sound.fits traversal
  exact ⟨{ image with table := opened }, by simp [CowDiskImage.saveAndOpen, ran, bind, Except.bind],
    rfl, fun _ => AList.perm_lookup perm⟩

theorem Sound.writeback (sound : Sound disk child history image) (traversal : Traversal) :
    ∃ after, image.writeback disk traversal = .ok after ∧ after.table = image.table ∧
      ∀ k < disk.size, disk.read k after.child = image.read disk k := by
  have perm := traversal.perm image.table
  have distinct := (List.perm_nodupKeys perm).mpr image.table.nodupKeys
  obtain ⟨s', ran, reads⟩ := writeAll distinct (fun entry member =>
    sound.below _ (List.mem_keys_of_mem (perm.mem_iff.mp member))) image.child
  refine ⟨{ image with child := s' }, by simp [CowDiskImage.writeback, ran, bind, Except.bind], rfl,
    fun k inside => ?_⟩
  rw [reads k inside, List.perm_dlookup k distinct perm, CowDiskImage.read,
    if_neg (Nat.lt_asymm inside), AList.lookup]
  cases image.table.entries.dlookup k <;> rfl

/-- An operation that does not access the end of the child does what it has to do. -/
theorem Sound.step (sound : Sound disk child history image) (traversal : Traversal) {op : CowOp}
    (avoids : op.offset ≠ some disk.size) :
    op.Right disk child history image (image.step disk traversal op) ∧
      ∀ after data, image.step disk traversal op = .ok (after, data) →
        Sound disk child (history ++ [op]) after := by
  cases op with
  | write data k =>
    obtain inside | rfl | outside := Nat.lt_trichotomy k disk.size
    · have ran : image.step disk traversal (.write data k) =
          .ok ({ image with table := image.table.insert k data }, none) := by
        simp [CowDiskImage.step, CowDiskImage.write, Nat.lt_asymm inside, bind, Except.bind]
      simp only [CowOp.Right, if_pos inside, ran]
      refine ⟨⟨_, rfl⟩, fun after nothing ended => ?_⟩
      obtain ⟨rfl, -⟩ := Prod.mk.inj (Except.ok.inj ended)
      exact sound.write inside
    · exact absurd rfl avoids
    · have ran : image.step disk traversal (.write data k) = .error .outOfBounds := by
        simp [CowDiskImage.step, CowDiskImage.write, outside, bind, Except.bind]
      simp only [CowOp.Right, if_neg (Nat.lt_asymm outside), ran]
      exact ⟨⟨_, rfl⟩, fun _ _ ended => by cases ended⟩
  | read k =>
    obtain inside | rfl | outside := Nat.lt_trichotomy k disk.size
    · obtain ⟨data, read, right⟩ := sound.read inside
      have ran : image.step disk traversal (.read k) = .ok (image, some data) := by
        simp [CowDiskImage.step, read, bind, Except.bind]
      simp only [CowOp.Right, if_pos inside, ran]
      refine ⟨⟨data, rfl, right⟩, fun after found ended => ?_⟩
      obtain ⟨rfl, -⟩ := Prod.mk.inj (Except.ok.inj ended)
      exact sound.unwritten (fun _ => rfl) (fun _ => rfl) fun _ _ _ => rfl
    · exact absurd rfl avoids
    · have ran : image.step disk traversal (.read k) = .error .outOfBounds := by
        simp [CowDiskImage.step, CowDiskImage.read, outside, bind, Except.bind]
      simp only [CowOp.Right, if_neg (Nat.lt_asymm outside), ran]
      exact ⟨⟨_, rfl⟩, fun _ _ ended => by cases ended⟩
  | saveAndOpen =>
    obtain ⟨opened, saved, same, table⟩ := sound.saveAndOpen traversal
    have ran : image.step disk traversal .saveAndOpen = .ok (opened, none) := by
      simp [CowDiskImage.step, saved, bind, Except.bind]
    simp only [CowOp.Right, ran]
    refine ⟨⟨opened, rfl, same, table⟩, fun after nothing ended => ?_⟩
    obtain ⟨rfl, -⟩ := Prod.mk.inj (Except.ok.inj ended)
    exact sound.unwritten (fun _ => rfl) table fun _ _ _ => by rw [same]
  | writeback =>
    obtain ⟨written, wrote, table, reads⟩ := sound.writeback traversal
    have ran : image.step disk traversal .writeback = .ok (written, none) := by
      simp [CowDiskImage.step, wrote, bind, Except.bind]
    simp only [CowOp.Right, ran]
    refine ⟨⟨sound.below, written, rfl, reads⟩, fun after nothing ended => ?_⟩
    obtain ⟨rfl, -⟩ := Prod.mk.inj (Except.ok.inj ended)
    refine sound.unwritten (fun _ => rfl) (fun _ => by rw [table]) fun k inside absent => ?_
    rw [reads k inside, CowDiskImage.read, if_neg (Nat.lt_asymm inside),
      AList.lookup_eq_none.mpr absent]

theorem Sound.run (sound : Sound disk child history image) (traversal : Traversal)
    {ops : List CowOp} (avoids : ∀ op ∈ ops, op.offset ≠ some disk.size) {after : CowDiskImage σ}
    (ran : image.run disk traversal ops = .ok after) : Sound disk child (history ++ ops) after := by
  induction ops generalizing history image with
  | nil =>
    obtain rfl := Except.ok.inj ran
    rwa [List.append_nil]
  | cons op ops ih =>
    obtain ⟨first, rest⟩ := List.forall_mem_cons.mp avoids
    simp only [CowDiskImage.run, List.foldlM_cons, Outcome.bind_eq_ok, Prod.exists] at ran
    obtain ⟨_, ⟨next, data, stepped, same⟩, ran⟩ := ran
    obtain rfl := Except.ok.inj same
    have later := ih ((sound.step traversal first).2 next data stepped) rest ran
    rwa [List.append_assoc] at later

/--
In every run that does not access the end of the child each operation does what it has to do; and
the bytes of a file that no overlay is saved as are rejected exactly if they are no image in part.
-/
theorem overlay_right (disk : DiskImage σ) (traversal : Traversal) (child : σ) :
    (∀ history op, (∀ access ∈ history ++ [op], access.offset ≠ some disk.size) →
      ∀ image, (initSectorTable child).run disk traversal history = .ok image →
        op.Right disk child history image (image.step disk traversal op)) ∧
    ∀ stream, OpensOnlySaved stream ↔ Whole stream := by
  refine ⟨fun history op avoids image ran => ?_, fun _ => opensOnlySaved_iff⟩
  have before := (initSectorTable_sound disk child).run traversal
    (fun access member => avoids access (List.mem_append_left _ member)) ran
  exact (before.step traversal (avoids op (by simp))).1

end CowDiskImage

/-- An overlay is an image of the sectors of its child, so that another one can be put over it. -/
def CowDiskImage.overlaid {σ : Type} (disk : DiskImage σ) : DiskImage (CowDiskImage σ) where
  size := disk.size
  size_lt := disk.size_lt
  read k image := image.read disk k
  write data k image := image.write disk data k
  reads k inside image := by
    simp only [CowDiskImage.read, if_neg (Nat.lt_asymm inside)]
    cases image.table.lookup k with
    | none => exact disk.reads k inside image.child
    | some data => exact ⟨data, rfl⟩
  writes k inside data image := by
    refine ⟨_, if_neg (Nat.lt_asymm inside), fun j bound => ?_⟩
    simp only [CowDiskImage.read, if_neg (Nat.lt_asymm bound)]
    by_cases same : j = k
    · subst same
      simp
    · simp [same]

/-- An image of one sector that refuses any other one. -/
def singleSector : DiskImage Sector where
  size := 1
  size_lt := by decide
  read k s := if k = 0 then .ok s else .error .outOfBounds
  write data k _ := if k = 0 then .ok data else .error .outOfBounds
  reads k inside s := ⟨s, if_pos (by omega)⟩
  writes k inside data s := by
    refine ⟨data, if_pos (by omega), fun j bound => ?_⟩
    rw [if_pos (by omega), if_pos (by omega)]

/-- A sector of zeros. -/
def zeroSector : Sector :=
  ⟨List.replicate sectorSize 0, List.length_replicate⟩

/-- A write just beyond a child is taken, and a file with half of the version is opened. -/
theorem overlay_accepts_end :
    ¬(CowOp.write zeroSector 1).Right singleSector zeroSector []
        (CowDiskImage.initSectorTable zeroSector)
        ((CowDiskImage.initSectorTable zeroSector).step singleSector
          ⟨AList.entries, fun _ => .refl _⟩ (.write zeroSector 1)) ∧
      ¬CowDiskImage.OpensOnlySaved (CowDiskImage.encodeImage 1 7 []) := by
  constructor
  · rintro ⟨fault, rejected⟩
    cases rejected
  · intro only
    have whole := CowDiskImage.opensOnlySaved_iff.mp only 1 7 [] []
      ⟨(List.append_nil _).symm, by decide, by decide, by decide, by simp, List.nodupKeys_nil⟩
    exact absurd whole.1 (by decide)

end GemDroid

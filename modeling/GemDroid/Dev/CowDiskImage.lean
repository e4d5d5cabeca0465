import GemDroid.Dev.DiskImage
import GemDroid.Lib.Outcome

/-! The format in which overlays are saved, and which files are taken for one. -/

namespace GemDroid

theorem safeRead_eq_ok {count : Nat} {stream data rest : List UInt8} :
    safeRead count stream = .ok (data, rest) ↔ data.length = count ∧ stream = data ++ rest := by
  unfold safeRead
  constructor
  · intro read
    split at read
    · rename_i enough
      obtain ⟨rfl, rfl⟩ := Prod.mk.inj (Except.ok.inj read)
      simp [enough]
    · cases read
  · rintro ⟨rfl, rfl⟩
    simp

theorem safeReadSwap_eq_ok {width value : Nat} {stream rest : List UInt8} :
    safeReadSwap width stream = .ok (value, rest) ↔
      value < 256 ^ width ∧ stream = LittleEndian.encode width value ++ rest := by
  constructor
  · intro read
    cases first : safeRead width stream with
    | error fault => simp [safeReadSwap, first, bind, Except.bind] at read
    | ok parts =>
      obtain ⟨data, left⟩ := parts
      obtain ⟨sized, rfl⟩ := safeRead_eq_ok.mp first
      simp only [safeReadSwap, first, bind, Except.bind, Except.ok.injEq, Prod.mk.injEq] at read
      obtain ⟨rfl, rfl⟩ := read
      subst sized
      exact ⟨LittleEndian.decode_lt data, by rw [LittleEndian.encode_decode]⟩
  · rintro ⟨fits, rfl⟩
    have first : safeRead width (LittleEndian.encode width value ++ rest) =
        .ok (LittleEndian.encode width value, rest) :=
      safeRead_eq_ok.mpr ⟨LittleEndian.encode_length width value, rfl⟩
    simp [safeReadSwap, first, bind, Except.bind, LittleEndian.decode_encode fits]

theorem safeReadSector_eq_ok {sector : Sector} {stream rest : List UInt8} :
    safeReadSector stream = .ok (sector, rest) ↔ stream = sector.data ++ rest := by
  obtain ⟨data, size⟩ := sector
  unfold safeReadSector
  constructor
  · intro read
    split at read
    · simp only [Except.ok.injEq, Prod.mk.injEq, Sector.mk.injEq] at read
      obtain ⟨rfl, rfl⟩ := read
      simp
    · cases read
  · rintro rfl
    simp [← size]

namespace CowDiskImage

/-- Sectors are read from their own bytes, each put before those that were read earlier. -/
theorem readSectors_eq_ok {count : Nat} {table result : SectorTable} {stream : List UInt8} :
    readSectors count table stream = .ok result ↔
      ∃ (entries : List NumberedSector) (rest : List UInt8), entries.length = count ∧
        (∀ entry ∈ entries, entry.1 < 256 ^ 8) ∧
        stream = entries.flatMap encodeSector ++ rest ∧
        result.entries = entries.reverse ++ table.entries := by
  -- The induction is on the sectors that are left; each moves from the stream to the table.
  induction count generalizing table stream with
  | zero =>
    simp only [readSectors, Except.ok.injEq, List.length_eq_zero_iff]
    constructor
    · rintro rfl
      exact ⟨[], stream, rfl, by simp, rfl, rfl⟩
    · rintro ⟨entries, rest, rfl, -, -, same⟩
      exact AList.ext same.symm
  | succ count ih =>
    simp only [readSectors, Outcome.bind_eq_ok, Prod.exists, safeReadSwap_eq_ok,
      safeReadSector_eq_ok, Outcome.ite_error_eq_ok, ih]
    constructor
    · rintro ⟨offset, _, ⟨fits, rfl⟩, sector, _, rfl, fresh, entries, rest, rfl, bounded, rfl, same⟩
      refine ⟨⟨offset, sector⟩ :: entries, rest, rfl, List.forall_mem_cons.mpr ⟨fits, bounded⟩,
        by simp [encodeSector], ?_⟩
      rw [same, AList.entries_insert_of_notMem fresh]
      simp
    · rintro ⟨entries, rest, sized, bounded, rfl, same⟩
      obtain ⟨⟨offset, sector⟩, entries, rfl⟩ := List.exists_cons_of_length_eq_add_one sized
      obtain ⟨fits, others⟩ := List.forall_mem_cons.mp bounded
      -- The number cannot be in the table, as the result has none twice.
      have fresh : offset ∉ table := by
        intro there
        have distinct := result.nodupKeys
        rw [same, List.reverse_cons, List.append_assoc, List.singleton_append,
          List.nodupKeys_middle] at distinct
        obtain ⟨apart, -⟩ := List.nodupKeys_cons.mp distinct
        refine apart ?_
        rw [List.keys, List.map_append]
        exact List.mem_append_right _ there
      refine ⟨offset, sector.data ++ (entries.flatMap encodeSector ++ rest), ⟨fits, ?_⟩, sector, _,
        rfl, fresh, entries, rest, by simpa using sized, others, rfl, ?_⟩
      · simp [encodeSector]
      · rw [same, AList.entries_insert_of_notMem fresh]
        simp

/-- A string of bytes is that of an image with some version and sectors, and bytes behind it. -/
structure ReadsAs (stream : List UInt8) (major minor : Nat) (entries : List NumberedSector)
    (rest : List UInt8) : Prop where
  bytes : stream = encodeImage major minor entries ++ rest
  major : major < 256 ^ 4
  minor : minor < 256 ^ 4
  count : entries.length < 256 ^ 8
  offset : ∀ entry ∈ entries, entry.1 < 256 ^ 8
  distinct : entries.NodupKeys

theorem cowMagic_length : cowMagic.length = 8 := by
  decide

theorem openTable_eq_ok {stream : List UInt8} {table : SectorTable} :
    openTable stream = .ok table ↔ ∃ major minor entries rest,
      ReadsAs stream major minor entries rest ∧ (major = versionMajor ∨ minor = versionMinor) ∧
        table.entries = entries.reverse := by
  have distinct (entries : List NumberedSector) (same : table.entries = entries.reverse) :
      entries.NodupKeys :=
    (List.perm_nodupKeys entries.reverse_perm).mp (same ▸ table.nodupKeys)
  simp only [openTable, Outcome.bind_eq_ok, Prod.exists, safeRead_eq_ok, safeReadSwap_eq_ok,
    Outcome.ite_error_eq_ok, readSectors_eq_ok, not_not, not_and_or, AList.empty_entries,
    List.append_nil]
  constructor
  · rintro ⟨_, _, ⟨-, rfl⟩, rfl, major, _, ⟨major_fits, rfl⟩, minor, _, ⟨minor_fits, rfl⟩, version,
      _, _, ⟨count_fits, rfl⟩, entries, rest, rfl, bounded, rfl, same⟩
    refine ⟨major, minor, entries, rest,
      ⟨?_, major_fits, minor_fits, count_fits, bounded, distinct entries same⟩, version, same⟩
    simp [encodeImage]
  · rintro ⟨major, minor, entries, rest, reads, version, same⟩
    refine ⟨cowMagic, _, ⟨cowMagic_length, ?_⟩, rfl, major, _, ⟨reads.major, rfl⟩, minor, _,
      ⟨reads.minor, rfl⟩, version, entries.length, _, ⟨reads.count, rfl⟩, entries, rest, rfl,
      reads.offset, rfl, same⟩
    rw [reads.bytes]
    simp [encodeImage]

theorem ReadsAs.unique {stream : List UInt8} {major minor major' minor' : Nat}
    {entries entries' : List NumberedSector} {rest rest' : List UInt8}
    (reads : ReadsAs stream major minor entries rest)
    (reads' : ReadsAs stream major' minor' entries' rest') :
    major = major' ∧ minor = minor' ∧ entries = entries' ∧ rest = rest' := by
  have same := reads.bytes.symm.trans reads'.bytes
  simp only [encodeImage, List.append_assoc] at same
  obtain ⟨rfl, numbers⟩ := LittleEndian.encode_append_inj reads.major reads'.major
    (List.append_cancel_left same)
  obtain ⟨rfl, sectors⟩ := LittleEndian.encode_append_inj reads.minor reads'.minor numbers
  obtain ⟨count, data⟩ := LittleEndian.encode_append_inj reads.count reads'.count sectors
  -- Both lists of sectors are what is read from the same bytes.
  have table {entries : List NumberedSector} (distinct : entries.NodupKeys) :
      entries.reverse.NodupKeys :=
    (List.perm_nodupKeys entries.reverse_perm).mpr distinct
  have read : readSectors entries.length ∅ (entries.flatMap encodeSector ++ rest) =
      .ok ⟨entries.reverse, table reads.distinct⟩ :=
    readSectors_eq_ok.mpr ⟨entries, rest, rfl, reads.offset, rfl, by simp⟩
  have read' : readSectors entries'.length ∅ (entries'.flatMap encodeSector ++ rest') =
      .ok ⟨entries'.reverse, table reads'.distinct⟩ :=
    readSectors_eq_ok.mpr ⟨entries', rest', rfl, reads'.offset, rfl, by simp⟩
  rw [← count, ← data, read] at read'
  obtain rfl := List.reverse_injective (congrArg AList.entries (Except.ok.inj read'))
  exact ⟨rfl, rfl, rfl, List.append_cancel_left data⟩

/-- A table whose numbers and size are of 64 bits, as those of every hash table are. -/
structure Fits (table : SectorTable) : Prop where
  offset : ∀ k ∈ table, k < 256 ^ 8
  count : table.entries.length < 256 ^ 8

theorem Fits.readsAs {table : SectorTable} (fits : Fits table) (traversal : Traversal) :
    ReadsAs (save traversal table) versionMajor versionMinor (traversal.order table) [] where
  bytes := (List.append_nil _).symm
  major := by decide
  minor := by decide
  count := (traversal.perm table).length_eq ▸ fits.count
  offset entry member :=
    fits.offset _ (List.mem_keys_of_mem ((traversal.perm table).mem_iff.mp member))
  distinct := (List.perm_nodupKeys (traversal.perm table)).mpr table.nodupKeys

theorem openTable_save {table : SectorTable} (fits : Fits table) (traversal : Traversal) :
    ∃ opened, openTable (save traversal table) = .ok opened ∧
      opened.entries.Perm table.entries := by
  have reads := fits.readsAs traversal
  have distinct : (traversal.order table).reverse.NodupKeys :=
    (List.perm_nodupKeys (List.reverse_perm _)).mpr reads.distinct
  refine ⟨⟨(traversal.order table).reverse, distinct⟩, ?_, ?_⟩
  · exact openTable_eq_ok.mpr ⟨_, _, _, _, reads, .inl rfl, rfl⟩
  · exact (List.reverse_perm _).trans (traversal.perm table)

/-- Some overlay is saved as the bytes. -/
def Saved (stream : List UInt8) : Prop :=
  ∃ traversal table, Fits table ∧ stream = save traversal table

/-- Bytes that no overlay is saved as are rejected. -/
def OpensOnlySaved (stream : List UInt8) : Prop :=
  Saved stream ∨ ∃ fault, openTable stream = .error fault

/--
If the bytes are those of an image, both numbers of the version are right or both wrong, and no
bytes follow where they are right.
-/
def Whole (stream : List UInt8) : Prop :=
  ∀ major minor entries rest, ReadsAs stream major minor entries rest →
    (major = versionMajor ↔ minor = versionMinor) ∧ (major = versionMajor → rest = [])

theorem opensOnlySaved_iff {stream : List UInt8} : OpensOnlySaved stream ↔ Whole stream := by
  constructor
  · rintro (⟨traversal, table, fits, rfl⟩ | ⟨fault, rejected⟩) major minor entries rest reads
    · obtain ⟨rfl, rfl, -, rfl⟩ := reads.unique (fits.readsAs traversal)
      simp
    · -- One right number would have been enough.
      by_contra partly
      have version : major = versionMajor ∨ minor = versionMinor := by tauto
      have distinct : entries.reverse.NodupKeys :=
        (List.perm_nodupKeys entries.reverse_perm).mpr reads.distinct
      have opened : openTable stream = .ok ⟨entries.reverse, distinct⟩ :=
        openTable_eq_ok.mpr ⟨major, minor, entries, rest, reads, version, rfl⟩
      rw [rejected] at opened
      cases opened
  · intro whole
    cases opened : openTable stream with
    | error fault => exact .inr ⟨fault, opened⟩
    | ok table =>
      obtain ⟨major, minor, entries, rest, reads, version, -⟩ := openTable_eq_ok.mp opened
      obtain ⟨both, ends⟩ := whole major minor entries rest reads
      obtain rfl : major = versionMajor := version.elim id both.mpr
      obtain rfl := both.mp rfl
      obtain rfl := ends rfl
      refine .inl ⟨⟨AList.entries, fun _ => .refl _⟩, ⟨entries, reads.distinct⟩,
        ⟨?_, reads.count⟩, ?_⟩
      · intro k member
        obtain ⟨entry, there, rfl⟩ := List.mem_map.mp member
        exact reads.offset entry there
      · exact reads.bytes.trans (List.append_nil _)

end CowDiskImage

end GemDroid

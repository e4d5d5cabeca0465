import Mathlib.Algebra.Order.BigOperators.Group.List
import GemDroid.Base.Inet

/-! Which headers the walks over options and extension headers get through, and what they list. -/

namespace GemDroid

open Tiling Relation

section options

variable {len : Nat → UInt8} {data stop : Nat} {all : Int}

/-- Options as pieces of the header. -/
def optionPieces (len : Nat → UInt8) (vec : List Nat) : List (Nat × Nat) :=
  vec.map fun pos => (pos, (len pos).toNat)

/-- The options that are listed fill the option area, or lie inside it where the last one is cut. -/
structure OptionsListed (options : Nat → Option (Bool × List Nat)) (len : Nat → UInt8)
    (data stop : Nat) : Prop where
  ends : ∃ fuel result, options fuel = some result
  fills : ∀ fuel vec, options fuel = some (true, vec) → Tiles data (optionPieces len vec) stop
  inside : ∀ fuel vec, options fuel = some (false, vec) →
    ∃ last ≤ stop, Tiles data (optionPieces len vec) last

/-- An option lies inside the option area, and another one may begin behind it. -/
def NextOption (len : Nat → UInt8) (stop first second : Nat) : Prop :=
  first < stop ∧ first + (len first).toNat ≤ stop ∧ second = first + (len first).toNat

/-- No option that the options before it lead to has the length zero. -/
def NoEmptyOption (len : Nat → UInt8) (data stop : Nat) : Prop :=
  ∀ pos, ReflTransGen (NextOption len stop) data pos → pos < stop → len pos ≠ 0

/-- The loop stands where options, none of them empty, lead from the start of the area. -/
structure OptionWalk.Stands (len : Nat → UInt8) (data stop : Nat) (w : OptionWalk) : Prop where
  all_eq : w.all = stop - w.data
  inside : w.data ≤ stop
  reached : ReflTransGen (NextOption len stop) data w.data
  tiles : Tiles data (optionPieces len w.vec) w.data

/-- How often the loop goes on at most. -/
def OptionWalk.roundsLeft (w : OptionWalk) : Nat :=
  if w.cut then 0 else w.all.toNat + 1

theorem OptionWalk.goes_iff {w : OptionWalk} : w.goes = true ↔ w.cut = false ∧ 0 < w.all := by
  rw [goes, Bool.and_eq_true, Bool.not_eq_true', decide_eq_true_eq]

/-- A round adds an option that is not empty, or finds one that is cut. -/
theorem OptionWalk.Stands.round {w : OptionWalk} (stands : w.Stands len data stop)
    (full : NoEmptyOption len data stop) (more : w.goes = true) :
    ∃ w', OptionWalk.round len w = some w' ∧ w'.Stands len data stop ∧
      w'.roundsLeft < w.roundsLeft := by
  obtain ⟨all_eq, inside, reached, tiles⟩ := stands
  obtain ⟨uncut, positive⟩ := goes_iff.mp more
  have nonempty : 0 < (len w.data).toNat :=
    Nat.pos_of_ne_zero fun zero => full w.data reached (by omega) (UInt8.toNat_inj.mp zero)
  have left : w.roundsLeft = w.all.toNat + 1 := by
    rw [roundsLeft, uncut]
    rfl
  simp only [OptionWalk.round]
  rw [left]
  by_cases cut : w.all < (len w.data).toNat
  · rw [if_pos cut]
    exact ⟨_, rfl, ⟨all_eq, inside, reached, tiles⟩, Nat.succ_pos _⟩
  · rw [if_neg cut]
    refine ⟨_, rfl, ⟨?_, ?_, reached.tail ⟨by omega, by omega, rfl⟩, ?_⟩, ?_⟩
    · dsimp only
      omega
    · dsimp only
      omega
    · rw [optionPieces, List.map_append]
      exact tiles.append nonempty
    · rw [roundsLeft]
      dsimp only
      split_ifs <;> omega

/-- A loop that an empty option lies before stays before it. -/
def OptionWalk.Stuck (len : Nat → UInt8) (stop : Nat) (w : OptionWalk) : Prop :=
  w.cut = false ∧ w.all = stop - w.data ∧
    ∃ pos, ReflTransGen (NextOption len stop) w.data pos ∧ pos < stop ∧ len pos = 0

theorem OptionWalk.Stuck.round {w w' : OptionWalk} (stuck : w.Stuck len stop)
    (round : OptionWalk.round len w = some w') : w'.Stuck len stop := by
  obtain ⟨uncut, all_eq, pos, leads, inside, empty⟩ := stuck
  simp only [OptionWalk.round] at round
  -- An option before the empty one fits, and the empty one does too.
  rcases leads.cases_head with rfl | ⟨second, ⟨first, fits, rfl⟩, rest⟩
  · have zero : (len w.data).toNat = 0 := by
      rw [empty]
      rfl
    rw [if_neg (by omega)] at round
    obtain rfl := Option.some.inj round
    refine ⟨uncut, ?_, w.data + (len w.data).toNat, .refl, ?_, ?_⟩
    · dsimp only
      omega
    · omega
    · rw [zero]
      exact empty
  · rw [if_neg (by omega)] at round
    obtain rfl := Option.some.inj round
    refine ⟨uncut, ?_, pos, rest, inside, empty⟩
    dsimp only
    omega

theorem OptionWalk.Stuck.goes {w : OptionWalk} (stuck : w.Stuck len stop) : w.goes = true := by
  obtain ⟨uncut, all_eq, pos, leads, inside, -⟩ := stuck
  rw [goes_iff]
  refine ⟨uncut, ?_⟩
  rcases leads.cases_head with rfl | ⟨second, ⟨first, -⟩, -⟩ <;> omega

/-- The loop ends, with options that tile the area, exactly when it meets no empty option. -/
theorem lists_iff (len : Nat → UInt8) (data : Nat) (all : Int) :
    OptionsListed (optionsFrom len data all) len data (data + all.toNat) ↔
      NoEmptyOption len data (data + all.toNat) := by
  rcases lt_or_ge 0 all with room | none
  · have all_eq : all = (data + all.toNat : Nat) - data := by omega
    constructor
    · rintro ⟨⟨fuel, result, ended⟩, -, -⟩ pos leads inside empty
      obtain ⟨last, loops, -⟩ := Option.map_eq_some_iff.mp ended
      -- On the way to an empty option, or at it, the walk can only go on.
      have kept := While.loop_keeps (OptionWalk.Stuck len (data + all.toNat))
        (fun w w' stuck _ round => stuck.round round)
        ⟨rfl, all_eq, pos, leads, inside, empty⟩ loops
      have goes := kept.1.goes
      rw [kept.2] at goes
      cases goes
    · intro full
      have start : OptionWalk.Stands len data (data + all.toNat)
          { all, data, vec := [], cut := false } :=
        ⟨all_eq, Nat.le_add_right _ _, .refl, .nil _⟩
      -- Every round makes the room left smaller and keeps the options in a row.
      have rounds (w : OptionWalk) (stands : w.Stands len data (data + all.toNat))
          (more : w.goes = true) := stands.round full more
      have stands (w w' : OptionWalk) (stands : w.Stands len data (data + all.toNat))
          (more : w.goes = true) (round : OptionWalk.round len w = some w') :
          w'.Stands len data (data + all.toNat) := by
        obtain ⟨w'', round', stands', -⟩ := rounds w stands more
        rw [round] at round'
        exact Option.some.inj round' ▸ stands'
      refine ⟨?_, fun fuel vec ended => ?_, fun fuel vec ended => ?_⟩
      · obtain ⟨last, loops⟩ :=
          While.exists_loop _ OptionWalk.roundsLeft rounds start (Nat.lt_succ_self _)
        exact ⟨_, _, congrArg (Option.map _) loops⟩
      · obtain ⟨last, loops, same⟩ := Option.map_eq_some_iff.mp ended
        obtain ⟨uncut, rfl⟩ := Prod.mk.inj same
        obtain ⟨⟨all_eq, inside, -, tiles⟩, stopped⟩ := While.loop_keeps _ stands start loops
        have filled : last.data = data + all.toNat := by
          by_contra less
          rw [OptionWalk.goes_iff.mpr ⟨(Bool.not_eq_true' _).mp uncut, by omega⟩] at stopped
          cases stopped
        exact filled ▸ tiles
      · obtain ⟨last, loops, same⟩ := Option.map_eq_some_iff.mp ended
        obtain ⟨-, rfl⟩ := Prod.mk.inj same
        obtain ⟨⟨-, inside, -, tiles⟩, -⟩ := While.loop_keeps _ stands start loops
        exact ⟨last.data, inside, tiles⟩
  · -- A header without room for options lists none.
    have area : data + all.toNat = data := by omega
    have still : OptionWalk.goes { all, data, vec := [], cut := false } = false :=
      Bool.eq_false_iff.mpr fun more => absurd (OptionWalk.goes_iff.mp more).2 none.not_gt
    rw [area]
    refine iff_of_true ⟨⟨1, (true, []), ?_⟩, fun fuel vec ended => ?_, fun fuel vec ended => ?_⟩
      fun pos leads inside => ?_
    · exact congrArg (Option.map _) (While.loop_stop still 0)
    · obtain ⟨last, loops, same⟩ := Option.map_eq_some_iff.mp ended
      obtain rfl := While.eq_of_loop_stop still loops
      obtain rfl := (Prod.mk.inj same).2
      exact .nil data
    · obtain ⟨last, loops, same⟩ := Option.map_eq_some_iff.mp ended
      obtain rfl := While.eq_of_loop_stop still loops
      cases same
    · rcases leads.cases_head with rfl | ⟨second, ⟨first, -⟩, -⟩ <;> omega

end options

namespace Ip6Hdr

variable {dnet : Dnet} {bytes : Bytes} {wanted : UInt8 → Bool}

/-- The extension headers from some place on, each of which names the protocol of the next one. -/
inductive Headers (dnet : Dnet) (bytes : Bytes) : Nat → UInt8 → List Nat → Prop
  | last {data : Nat} {nxt : UInt8} (other : dnet.IP6_EXTENSION nxt = false) :
      Headers dnet bytes data nxt []
  | header {data : Nat} {nxt : UInt8} {exts : List Nat} (ext : dnet.IP6_EXTENSION nxt = true)
      (rest : Headers dnet bytes (data + (Ip6Opt.len bytes data).toNat) (Ip6Opt.nxt bytes data)
        exts) : Headers dnet bytes data nxt (data :: exts)

/-- An extension header lies inside the payload, and its protocol follows behind it. -/
def NextHeader (dnet : Dnet) (bytes : Bytes) (first second : Nat × UInt8) : Prop :=
  dnet.IP6_EXTENSION first.2 = true ∧
    first.1 + (Ip6Opt.len bytes first.1).toNat ≤ 40 + plen bytes ∧
    second = (first.1 + (Ip6Opt.len bytes first.1).toNat, Ip6Opt.nxt bytes first.1)

/-- The extension headers before it, all inside the payload, lead to an extension header. -/
def LeadTo (dnet : Dnet) (bytes : Bytes) (place : Nat × UInt8) : Prop :=
  ReflTransGen (NextHeader dnet bytes) (40, bytes 6) place ∧ dnet.IP6_EXTENSION place.2 = true

/-- No length byte that is met is so large that the length wraps around. -/
def NoneWraps (dnet : Dnet) (bytes : Bytes) : Prop :=
  ∀ place, LeadTo dnet bytes place → (Ip6Opt.extlen bytes place.1).toNat < 248

/-- The extension headers that are met lie inside the payload. -/
def AllFit (dnet : Dnet) (bytes : Bytes) : Prop :=
  ∀ place, LeadTo dnet bytes place →
    place.1 + (Ip6Opt.len bytes place.1).toNat ≤ 40 + plen bytes

/-- The walks return, and the length is the sum of the lengths without a wrap-around. -/
structure Measures (dnet : Dnet) (bytes : Bytes) : Prop where
  length : ∃ fuel len, extensionLength dnet bytes fuel = some (.ok len)
  getExt : ∀ ext_type, ∃ fuel found, getExt dnet bytes ext_type fuel = some (.ok found)
  proto : ∃ fuel nxt, proto dnet bytes fuel = some (.ok nxt)
  sum : ∀ fuel len, extensionLength dnet bytes fuel = some (.ok len) →
    ∃ exts, Headers dnet bytes 40 (bytes 6) exts ∧
      len = ((exts.map fun pos => (Ip6Opt.extlen bytes pos).toNat + 8).sum : Nat)

/-- The walks end, if only because the assertion fails. -/
structure Ends (dnet : Dnet) (bytes : Bytes) : Prop where
  length : ∃ fuel result, extensionLength dnet bytes fuel = some result
  getExt : ∀ ext_type, ∃ fuel result, Ip6Hdr.getExt dnet bytes ext_type fuel = some result
  proto : ∃ fuel result, Ip6Hdr.proto dnet bytes fuel = some result

/-- The walk stands where extension headers lead to, and knows how much of the payload is left. -/
structure Stands (dnet : Dnet) (bytes : Bytes) (w : ExtWalk) : Prop where
  reached : ReflTransGen (NextHeader dnet bytes) (40, bytes 6) (w.data, w.nxt)
  all_eq : w.all = (40 + plen bytes : Nat) - w.data
  inside : 0 ≤ w.all

/-- How often the walk goes on at most. -/
def roundsLeft (w : ExtWalk) : Nat :=
  if w.failed then 0 else w.all.toNat + 1

theorem goes_iff {w : ExtWalk} : w.goes dnet wanted = true ↔
    w.failed = false ∧ dnet.IP6_EXTENSION w.nxt = true ∧ wanted w.nxt = false := by
  rw [ExtWalk.goes, Bool.and_eq_true, Bool.and_eq_true, Bool.not_eq_true', Bool.not_eq_true',
    and_assoc]

theorem len_toNat {data : Nat} (low : (Ip6Opt.extlen bytes data).toNat < 248) :
    (Ip6Opt.len bytes data).toNat = (Ip6Opt.extlen bytes data).toNat + 8 := by
  rw [Ip6Opt.len, UInt8.toNat_add, show (8 : UInt8).toNat = 8 from rfl]
  omega

theorem stands_start : Stands dnet bytes (start bytes) :=
  ⟨.refl, by simp only [start]; omega, Int.natCast_nonneg _⟩

/-- A round goes on to the next extension header, unless the payload ends before that. -/
theorem Stands.round {w : ExtWalk} (stands : Stands dnet bytes w)
    (more : w.goes dnet wanted = true) :
    ∃ w', ExtWalk.round bytes w = some w' ∧ w'.all = w.all - (Ip6Opt.len bytes w.data).toNat ∧
      (w'.failed = false → Stands dnet bytes w') ∧
      (w'.failed = true ↔ 40 + plen bytes < w.data + (Ip6Opt.len bytes w.data).toNat) := by
  obtain ⟨reached, all_eq, inside⟩ := stands
  obtain ⟨-, ext, -⟩ := goes_iff.mp more
  refine ⟨_, rfl, rfl, fun unfailed => ?_, ?_⟩
  · have fits := of_decide_eq_false unfailed
    refine ⟨reached.tail ⟨ext, ?_, rfl⟩, ?_, not_lt.mp fits⟩
    · dsimp only
      omega
    · dsimp only
      omega
  · rw [decide_eq_true_eq]
    omega

/-- A walk on which no length wraps around ends. -/
theorem exists_loop (none : NoneWraps dnet bytes) (wanted : UInt8 → Bool) :
    ∃ fuel w, While.loop (ExtWalk.goes dnet wanted) (ExtWalk.round bytes) fuel (start bytes) =
      some w := by
  refine ⟨_, While.exists_loop (fun w => w.failed = true ∨ Stands dnet bytes w) roundsLeft
    (fun w here more => ?_) (Or.inr stands_start) (Nat.lt_succ_self _)⟩
  obtain ⟨unfailed, ext, -⟩ := goes_iff.mp more
  rcases here with failed | stands
  · rw [unfailed] at failed
    cases failed
  · obtain ⟨w', round, all_eq, stands', -⟩ := stands.round more
    have low := none _ ⟨stands.reached, ext⟩
    have long := len_toNat low
    have inside := stands.inside
    refine ⟨w', round, ?_, ?_⟩
    · cases failed : w'.failed with
      | true => exact Or.inl rfl
      | false => exact Or.inr (stands' failed)
    · rw [roundsLeft, roundsLeft, unfailed]
      dsimp only at long
      cases failed : w'.failed with
      | true => exact Nat.succ_pos _
      | false =>
        have inside' := (stands' failed).inside
        show w'.all.toNat + 1 < w.all.toNat + 1
        omega

/-- How much extension headers take, as the walks add it up. -/
def passed (bytes : Bytes) (exts : List Nat) : Nat :=
  (exts.map fun pos => (Ip6Opt.len bytes pos).toNat).sum

theorem passed_append (bytes : Bytes) (before after : List Nat) :
    passed bytes (before ++ after) = passed bytes before + passed bytes after := by
  rw [passed, List.map_append, List.sum_append]
  rfl

theorem passed_cons (bytes : Bytes) (pos : Nat) (exts : List Nat) :
    passed bytes (pos :: exts) = (Ip6Opt.len bytes pos).toNat + passed bytes exts := by
  rw [passed, List.map_cons, List.sum_cons]
  rfl

/-- What a walk has passed when it ends without a failure. -/
theorem loop_passed {fuel : Nat} {w : ExtWalk}
    (ended : While.loop (ExtWalk.goes dnet fun _ => false) (ExtWalk.round bytes) fuel
      (start bytes) = some w) (unfailed : w.failed = false) :
    ∃ exts, Headers dnet bytes 40 (bytes 6) exts ∧ w.len = (passed bytes exts : Int) ∧
      passed bytes exts ≤ plen bytes := by
  -- What has been passed is completed by whatever headers begin where the walk stands.
  have kept := While.loop_keeps (fun w : ExtWalk => ∃ before,
      (∀ exts, Headers dnet bytes w.data w.nxt exts →
        Headers dnet bytes 40 (bytes 6) (before ++ exts)) ∧
      w.len = (passed bytes before : Int) ∧ w.all + w.len = (plen bytes : Int) ∧
      (w.failed = false → 0 ≤ w.all))
    (fun w w' here more round => by
      obtain ⟨before, completes, len_eq, all_eq, inside⟩ := here
      obtain ⟨-, ext, -⟩ := goes_iff.mp more
      obtain rfl := Option.some.inj round
      refine ⟨before ++ [w.data], fun exts rest => ?_, ?_, ?_, fun unfailed => ?_⟩
      · rw [List.append_assoc]
        exact completes _ (.header ext rest)
      · rw [passed_append, Nat.cast_add, ← len_eq]
        rfl
      · dsimp only
        omega
      · exact not_lt.mp (of_decide_eq_false unfailed))
    ⟨[], fun _ exts => exts, rfl, Int.add_zero _, fun _ => Int.natCast_nonneg _⟩ ended
  obtain ⟨⟨exts, completes, len_eq, all_eq, inside⟩, stopped⟩ := kept
  have other : dnet.IP6_EXTENSION w.nxt = false := by
    cases ext : dnet.IP6_EXTENSION w.nxt with
    | false => rfl
    | true =>
      rw [goes_iff.mpr ⟨unfailed, ext, rfl⟩] at stopped
      cases stopped
  refine ⟨exts, ?_, len_eq, ?_⟩
  · have whole := completes [] (.last other)
    rwa [List.append_nil] at whole
  · have left := inside unfailed
    omega

theorem Headers.unique {data : Nat} {nxt : UInt8} {exts exts' : List Nat}
    (headers : Headers dnet bytes data nxt exts) (headers' : Headers dnet bytes data nxt exts') :
    exts = exts' := by
  induction headers generalizing exts' with
  | last other =>
    cases headers' with
    | last => rfl
    | header ext =>
      rw [other] at ext
      cases ext
  | header ext rest ih =>
    cases headers' with
    | last other =>
      rw [other] at ext
      cases ext
    | header _ rest' => rw [ih rest']

/-- What is met is among the extension headers, and no further than their sum. -/
theorem Headers.meets {exts : List Nat} (headers : Headers dnet bytes 40 (bytes 6) exts)
    {place : Nat × UInt8} (met : LeadTo dnet bytes place) :
    place.1 ∈ exts ∧
      place.1 + (Ip6Opt.len bytes place.1).toNat ≤ 40 + passed bytes exts := by
  obtain ⟨leads, ext⟩ := met
  -- The extension headers from the place on are the last ones.
  have rest : ∃ before after, exts = before ++ after ∧
      Headers dnet bytes place.1 place.2 after ∧ place.1 = 40 + passed bytes before := by
    clear ext
    induction leads with
    | refl => exact ⟨[], exts, rfl, headers, rfl⟩
    | @tail first second earlier next ih =>
      obtain ⟨ext, -, rfl⟩ := next
      obtain ⟨before, after, rfl, behind, place_eq⟩ := ih
      cases behind with
      | last other =>
        rw [other] at ext
        cases ext
      | @header _ _ after _ rest =>
        refine ⟨before ++ [first.1], after, List.append_cons .., rest, ?_⟩
        rw [passed_append, passed_cons, ← Nat.add_assoc, ← place_eq]
        rfl
  obtain ⟨before, after, rfl, behind, place_eq⟩ := rest
  cases behind with
  | last other =>
    rw [other] at ext
    cases ext
  | header _ rest =>
    refine ⟨List.mem_append_right _ List.mem_cons_self, ?_⟩
    rw [passed_append, passed_cons]
    omega

/-- The extension headers that fit the payload are met. -/
theorem Headers.met {data : Nat} {nxt : UInt8} {exts : List Nat}
    (headers : Headers dnet bytes data nxt exts)
    (leads : ReflTransGen (NextHeader dnet bytes) (40, bytes 6) (data, nxt))
    (fits : data + passed bytes exts ≤ 40 + plen bytes) {pos : Nat} (mem : pos ∈ exts) :
    ∃ nxt, LeadTo dnet bytes (pos, nxt) := by
  induction headers with
  | last => cases mem
  | header ext rest ih =>
    rw [passed_cons] at fits
    rcases List.mem_cons.mp mem with rfl | later
    · exact ⟨_, leads, ext⟩
    · exact ih (leads.tail ⟨ext, by dsimp only; omega, rfl⟩) (by omega) later

/-- A walk that returns has ended without a failure. -/
theorem walk_ok {α : Type} {judge : ExtWalk → α} {fuel : Nat} {result : α}
    (returned : walk dnet bytes wanted judge fuel = some (.ok result)) :
    ∃ w, While.loop (ExtWalk.goes dnet wanted) (ExtWalk.round bytes) fuel (start bytes) = some w ∧
      w.failed = false ∧ judge w = result := by
  obtain ⟨w, loops, judged⟩ := Option.map_eq_some_iff.mp returned
  cases failed : w.failed with
  | true =>
    rw [failed, if_pos rfl] at judged
    cases judged
  | false =>
    rw [failed, if_neg (by decide)] at judged
    exact ⟨w, loops, failed, Except.ok.inj judged⟩

/-- The walks measure a header exactly when no length wraps around and all fits the payload. -/
theorem measures_iff : Measures dnet bytes ↔ NoneWraps dnet bytes ∧ AllFit dnet bytes := by
  constructor
  · rintro ⟨⟨fuel, len, returned⟩, -, -, sum⟩
    obtain ⟨exts', headers', len_eq'⟩ := sum fuel len returned
    obtain ⟨w, loops, unfailed, judged⟩ := walk_ok returned
    obtain ⟨exts, headers, len_eq, fits⟩ := loop_passed loops unfailed
    obtain rfl := headers.unique headers'
    rw [judged, len_eq', Nat.cast_inj] at len_eq
    refine ⟨fun place met => ?_, fun place met => ?_⟩
    · -- A length that wraps around would make the sum smaller.
      by_contra high
      refine absurd len_eq (Nat.ne_of_gt (List.sum_lt_sum _ _ (fun pos _ => ?_)
        ⟨place.1, (headers.meets met).1, ?_⟩))
      · rw [Ip6Opt.len, UInt8.toNat_add]
        exact Nat.mod_le _ _
      · rw [Ip6Opt.len, UInt8.toNat_add, show (8 : UInt8).toNat = 8 from rfl]
        omega
    · have inside := (headers.meets met).2
      omega
  · rintro ⟨none, fit⟩
    have returns {α : Type} (wanted : UInt8 → Bool) (judge : ExtWalk → α) :
        ∃ fuel result, walk dnet bytes wanted judge fuel = some (.ok result) := by
      obtain ⟨fuel, w, loops⟩ := exists_loop none wanted
      have kept := While.loop_keeps (fun w => w.failed = false ∧ Stands dnet bytes w)
        (fun w w' here more round => by
          obtain ⟨w'', round', -, stands, failed⟩ := here.2.round more
          rw [round] at round'
          obtain rfl := Option.some.inj round'
          have unfailed : w'.failed = false := by
            refine Bool.eq_false_iff.mpr fun broken => ?_
            have inside := fit _ ⟨here.2.reached, (goes_iff.mp more).2.1⟩
            exact absurd (failed.mp broken) inside.not_gt
          exact ⟨unfailed, stands unfailed⟩) ⟨rfl, stands_start⟩ loops
      refine ⟨fuel, judge w, ?_⟩
      rw [walk, loops, Option.map_some, kept.1.1]
      rfl
    refine ⟨returns _ _, fun ext_type => returns _ _, returns _ _, fun fuel len returned => ?_⟩
    obtain ⟨w, loops, unfailed, judged⟩ := walk_ok returned
    obtain ⟨exts, headers, len_eq, fits⟩ := loop_passed loops unfailed
    refine ⟨exts, headers, ?_⟩
    rw [← judged, len_eq, passed]
    refine congrArg (fun lens => ((lens : List Nat).sum : Int)) (List.map_congr_left ?_)
    intro pos mem
    obtain ⟨nxt, met⟩ := headers.met .refl (Nat.add_le_add_left fits 40) mem
    exact len_toNat (none _ met)

/-- Without a wrap-around the walks end, if only because the assertion fails. -/
theorem NoneWraps.ends (none : NoneWraps dnet bytes) : Ends dnet bytes := by
  have ended {α : Type} (wanted : UInt8 → Bool) (judge : ExtWalk → α) :
      ∃ fuel result, walk dnet bytes wanted judge fuel = some result := by
    obtain ⟨fuel, w, loops⟩ := exists_loop none wanted
    exact ⟨fuel, _, congrArg (Option.map _) loops⟩
  exact ⟨ended _ _, fun ext_type => ended _ _, ended _ _⟩

end Ip6Hdr

/--
Options are listed rightly exactly when the walk meets no empty one; extension headers are measured
rightly exactly when no length wraps around and all of them fit the payload.

Without a wrap-around the walks over extension headers end, even where their assertion fails.
-/
theorem header_walks_iff (dnet : Dnet) (bytes : Bytes) :
    (OptionsListed (IpHdr.options dnet bytes) (IpOpt.len dnet bytes) 20
      (20 + (IpHdr.all bytes).toNat) ↔
      NoEmptyOption (IpOpt.len dnet bytes) 20 (20 + (IpHdr.all bytes).toNat)) ∧
    (OptionsListed (TcpHdr.options dnet bytes) (TcpOpt.len dnet bytes) 20
        (20 + (TcpHdr.all bytes).toNat) ↔
      NoEmptyOption (TcpOpt.len dnet bytes) 20 (20 + (TcpHdr.all bytes).toNat)) ∧
    (Ip6Hdr.Measures dnet bytes ↔ Ip6Hdr.NoneWraps dnet bytes ∧ Ip6Hdr.AllFit dnet bytes) ∧
    (Ip6Hdr.NoneWraps dnet bytes → Ip6Hdr.Ends dnet bytes) :=
  ⟨lists_iff _ _ _, lists_iff _ _ _, Ip6Hdr.measures_iff, Ip6Hdr.NoneWraps.ends⟩

/--
The library as it is documented: types 0 and 1 stand alone, and the numbers are those assigned.
-/
def standardDnet : Dnet where
  IP_OPT_TYPEONLY := fun type => type == 0 || type == 1
  TCP_OPT_TYPEONLY := fun type => type == 0 || type == 1
  IP_PROTO_HOPOPTS := 0
  IP_PROTO_ROUTING := 43
  IP_PROTO_FRAGMENT := 44
  IP_PROTO_AH := 51
  IP_PROTO_ESP := 50
  IP_PROTO_DSTOPTS := 60

/-- An IPv4 header of six words, whose option of type 2 has a length byte of zero. -/
def emptyOption : Bytes :=
  fun pos => if pos = 0 then 0x46 else if pos = 20 then 2 else 0

/-- The walk over that header goes on for ever. -/
theorem empty_option_never_ends : ¬∀ bytes : Bytes,
    OptionsListed (IpHdr.options standardDnet bytes) (IpOpt.len standardDnet bytes) 20
        (20 + (IpHdr.all bytes).toNat) ∧
      OptionsListed (TcpHdr.options standardDnet bytes) (TcpOpt.len standardDnet bytes) 20
        (20 + (TcpHdr.all bytes).toNat) ∧ Ip6Hdr.Measures standardDnet bytes := by
  intro claim
  have full := (lists_iff _ _ _).mp (claim emptyOption).1
  exact full 20 .refl (by decide) (by decide)

end GemDroid

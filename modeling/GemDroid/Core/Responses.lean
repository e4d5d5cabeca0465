import GemDroid.Core.Accounting

/-! Which transactions become ready when the memory answers by address only. -/

namespace GemDroid

namespace Rob

/-- What identifies the transactions and whether they are issued. -/
def labels (r : Rob) : List (Nat × Addr × Bool) :=
  r.outstandingTransactions.map fun t => (t.tag, t.addr, t.isIssued)

/-- The record of requests and responses agrees with the transactions of the buffer. -/
structure Tagged (r : Rob) : Prop where
  fresh : ∀ l ∈ r.labels, l.1 < r.nextTag
  distinct : (r.labels.map (·.1)).Nodup
  flying : ∀ q ∈ r.inFlight, q.tag < r.nextTag
  single : (r.inFlight.map (·.tag)).Nodup
  replied : ∀ tag ∈ r.answered, tag < r.nextTag ∧ tag ∉ r.inFlight.map (·.tag)
  issued : ∀ l ∈ r.labels, l.2.2 = true ↔ l.1 ∈ r.inFlight.map (·.tag) ∨ l.1 ∈ r.answered
  address : ∀ q ∈ r.inFlight, ∀ l ∈ r.labels, l.1 = q.tag → l.2.1 = q.addr

/-- The transactions that are ready are those whose requests were answered. -/
def Matched (r : Rob) : Prop :=
  ∀ t ∈ r.outstandingTransactions, t.canBeCommitted = true ↔ t.tag ∈ r.answered

variable {ooo : Bool} {r s : Rob}

variable {t : Transaction} {after before : List Transaction} {request : CoreRequest}

theorem label_mem (member : t ∈ r.outstandingTransactions) :
    (t.tag, t.addr, t.isIssued) ∈ r.labels :=
  List.mem_map_of_mem member

theorem others_differ (found : r.outstandingTransactions = before ++ t :: after)
    (distinct : (r.labels.map (·.1)).Nodup) : ∀ u ∈ before ++ after, u.tag ≠ t.tag := by
  -- With the transaction moved to the front, distinct tags say that no other has its tag.
  intro u member same
  have tags : r.labels.map (·.1) = before.map (·.tag) ++ t.tag :: after.map (·.tag) := by
    simp [labels, found, Function.comp_def]
  rw [tags, List.nodup_middle, List.nodup_cons, ← List.map_append] at distinct
  exact distinct.1 (List.mem_map.mpr ⟨u, member, same⟩)

theorem Tagged.sublist (tagged : Tagged r) (kept : s.labels.Sublist r.labels)
    (tag : s.nextTag = r.nextTag) (inFlight : s.inFlight = r.inFlight)
    (answered : s.answered = r.answered) : Tagged s where
  -- Every statement about the labels is about fewer of them.
  fresh l member := tag ▸ tagged.fresh l (kept.subset member)
  distinct := tagged.distinct.sublist (kept.map _)
  flying := tag ▸ inFlight ▸ tagged.flying
  single := inFlight ▸ tagged.single
  replied := tag ▸ inFlight ▸ answered ▸ tagged.replied
  issued l member := inFlight ▸ answered ▸ tagged.issued l (kept.subset member)
  address q sent l member := tagged.address q (inFlight ▸ sent) l (kept.subset member)

/-- A request that the agent took enters the record. -/
theorem Tagged.issue {ticks : Int} {isRead : Bool} (tagged : Tagged r)
    (found : r.outstandingTransactions = before ++ t :: after) (unissued : t.isIssued = false)
    (left : s.outstandingTransactions = before ++ t.issueToMem ticks :: after)
    (tag : s.nextTag = r.nextTag) (inFlight : s.inFlight = r.inFlight ++ [⟨t.tag, t.addr, isRead⟩])
    (answered : s.answered = r.answered) : Tagged s := by
  have member : (t.tag, t.addr, t.isIssued) ∈ r.labels := label_mem (by simp [found])
  have below : t.tag < r.nextTag := tagged.fresh _ member
  -- An unissued transaction is in no record yet.
  have unknown : t.tag ∉ r.inFlight.map (·.tag) ∧ t.tag ∉ r.answered := by
    have := tagged.issued _ member
    simp only [unissued, Bool.false_eq_true, false_iff, not_or] at this
    exact this
  have tags : s.labels.map (·.1) = r.labels.map (·.1) := by
    simp [labels, found, left, Transaction.issueToMem]
  have others : ∀ u ∈ before ++ after, u.tag ≠ t.tag := others_differ found tagged.distinct
  have old : ∀ l ∈ s.labels, l = (t.tag, t.addr, true) ∨ l ∈ r.labels ∧ l.1 ≠ t.tag := by
    intro l among
    obtain ⟨u, place, rfl⟩ := List.mem_map.mp among
    rw [left, List.mem_append, List.mem_cons] at place
    have rest : u ∈ before ++ after → (u.tag, u.addr, u.isIssued) ∈ r.labels ∧ u.tag ≠ t.tag :=
      fun inside => ⟨label_mem (found ▸ List.perm_middle.mem_iff.mpr (.tail t inside)),
        others u inside⟩
    rcases place with inside | rfl | inside
    · exact .inr (rest (by simp [inside]))
    · exact .inl rfl
    · exact .inr (rest (by simp [inside]))
  have sent : s.inFlight.map (·.tag) = r.inFlight.map (·.tag) ++ [t.tag] := by simp [inFlight]
  refine ⟨?_, tags ▸ tagged.distinct, ?_, ?_, ?_, ?_, ?_⟩
  · intro l among
    rcases old l among with rfl | ⟨kept, -⟩
    · exact tag ▸ below
    · exact tag ▸ tagged.fresh l kept
  · intro q among
    rw [inFlight, List.mem_append, List.mem_singleton] at among
    rcases among with among | rfl
    · exact tag ▸ tagged.flying q among
    · exact tag ▸ below
  · rw [sent]
    exact List.nodup_append.mpr ⟨tagged.single, List.nodup_singleton _, by
      simpa using fun a among same => unknown.1 (by simpa using ⟨a, among, same⟩)⟩
  · intro k among
    rw [answered] at among
    obtain ⟨known, absent⟩ := tagged.replied k among
    refine ⟨tag ▸ known, ?_⟩
    rw [sent, List.mem_append, List.mem_singleton, not_or]
    exact ⟨absent, fun same => unknown.2 (same ▸ among)⟩
  · intro l among
    rw [sent, answered]
    rcases old l among with rfl | ⟨kept, differs⟩
    · simp
    · rw [tagged.issued l kept, List.mem_append, List.mem_singleton]
      simp [differs]
  · intro q among l labelled same
    rw [inFlight, List.mem_append, List.mem_singleton] at among
    rcases among with among | rfl
    · rcases old l labelled with rfl | ⟨kept, -⟩
      · exact absurd (List.mem_map.mpr ⟨q, among, same.symm⟩) unknown.1
      · exact tagged.address q among l kept same
    · rcases old l labelled with rfl | ⟨-, differs⟩
      · rfl
      · exact absurd same differs

/-- A new transaction enters the buffer under the next tag. -/
theorem Tagged.append {kind : InstrType} {insns : Int} {addr : Addr} (tagged : Tagged r)
    (built : Transaction.new kind insns addr r.nextTag = .ok t)
    (left : s.outstandingTransactions = r.outstandingTransactions ++ [t])
    (tag : s.nextTag = r.nextTag + 1) (inFlight : s.inFlight = r.inFlight)
    (answered : s.answered = r.answered) : Tagged s := by
  -- The next tag is above every tag in the buffer and in the record.
  have labelled : s.labels = r.labels ++ [(r.nextTag, addr, false)] := by
    simp [labels, left, Transaction.new_fields built]
  have member : ∀ l ∈ s.labels, l ∈ r.labels ∨ l = (r.nextTag, addr, false) := by
    simp [labelled]
  have unsent : r.nextTag ∉ r.inFlight.map (·.tag) := by
    intro among
    obtain ⟨q, sent, same⟩ := List.mem_map.mp among
    exact absurd (tagged.flying q sent) (by omega)
  have unanswered : r.nextTag ∉ r.answered := fun among =>
    absurd (tagged.replied _ among).1 (by omega)
  refine ⟨?_, ?_, ?_, inFlight ▸ tagged.single, ?_, ?_, ?_⟩
  · intro l among
    rcases member l among with kept | rfl
    · have := tagged.fresh l kept
      omega
    · simp [tag]
  · rw [labelled, List.map_append]
    refine List.nodup_append.mpr ⟨tagged.distinct, List.nodup_singleton _, ?_⟩
    intro a among b new same
    obtain ⟨l, kept, rfl⟩ := List.mem_map.mp among
    have := tagged.fresh l kept
    simp only [List.map_cons, List.map_nil, List.mem_singleton] at new
    omega
  · intro q sent
    have := tagged.flying q (inFlight ▸ sent)
    omega
  · intro k among
    obtain ⟨below, absent⟩ := tagged.replied k (answered ▸ among)
    exact ⟨by omega, inFlight ▸ absent⟩
  · intro l among
    rw [inFlight, answered]
    rcases member l among with kept | rfl
    · exact tagged.issued l kept
    · simpa using ⟨by simpa using unsent, unanswered⟩
  · intro q sent l among same
    rw [inFlight] at sent
    rcases member l among with kept | rfl
    · exact tagged.address q sent l kept same
    · exact absurd (List.mem_map.mpr ⟨q, sent, same.symm⟩) unsent

theorem Tagged.respond (tagged : Tagged r) (sent : request ∈ r.inFlight)
    (kept : s.labels = r.labels) (tag : s.nextTag = r.nextTag)
    (inFlight : s.inFlight = r.inFlight.erase request)
    (answered : s.answered = r.answered ++ [request.tag]) : Tagged s := by
  -- The request in front of the others is the record of before.
  have perm := (List.perm_cons_erase sent).map CoreRequest.tag
  rw [List.map_cons] at perm
  have single := perm.nodup_iff.mp tagged.single
  have fewer : ∀ q ∈ s.inFlight, q ∈ r.inFlight := by
    rw [inFlight]
    exact fun q among => List.mem_of_mem_erase among
  refine ⟨tag ▸ kept ▸ tagged.fresh, kept ▸ tagged.distinct, ?_, ?_, ?_, ?_, ?_⟩
  · exact fun q among => tag ▸ tagged.flying q (fewer q among)
  · rw [inFlight]
    exact (List.nodup_cons.mp single).2
  · intro k among
    rw [answered, List.mem_append, List.mem_singleton] at among
    rw [tag, inFlight]
    rcases among with among | rfl
    · obtain ⟨below, absent⟩ := tagged.replied k among
      exact ⟨below, fun later => absent (perm.mem_iff.mpr (List.mem_cons_of_mem _ later))⟩
    · exact ⟨tagged.flying request sent, (List.nodup_cons.mp single).1⟩
  · intro l among
    rw [kept] at among
    rw [tagged.issued l among, answered, inFlight, perm.mem_iff, List.mem_cons, List.mem_append,
      List.mem_singleton]
    tauto
  · exact fun q among l labelled => tagged.address q (fewer q among) l (kept ▸ labelled)

theorem Move.tagged (move : Move ooo r s) (tagged : Tagged r) : Tagged s := by
  -- Only the issue of a request and a new transaction add to the record.
  cases move with
  | retire found | commit found | force found =>
    refine tagged.sublist ?_ rfl rfl rfl
    simp only [labels, found, List.map_cons]
    exact List.sublist_cons_self _ _
  | execute found =>
    refine tagged.sublist ?_ rfl rfl rfl
    simp [labels, found]
  | drain _ found =>
    refine tagged.sublist ?_ rfl rfl rfl
    simp [labels, found, Transaction.resetInstrCommitted]
  | issue _ _ found _ unissued => exact tagged.issue found unissued rfl rfl rfl rfl
  | addInstructions _ built => exact tagged.append built rfl rfl rfl rfl
  | addMemory _ _ _ built => exact tagged.append built rfl rfl rfl rfl

/-- Every move leaves the ready transactions those that were answered. -/
theorem Move.matched (move : Move ooo r s) (tagged : Tagged r) (matched : Matched r) :
    Matched s := by
  -- A tick marks nothing that stays in the buffer.
  cases move with
  | retire found | commit found | force found =>
    exact fun t member => matched t (by simp [found, member])
  | @execute t _ _ found | @issue t _ _ _ _ found =>
    have old := matched t (by simp [found])
    intro u member
    rw [List.mem_append, List.mem_cons] at member
    rcases member with member | rfl | member
    · exact matched u (by simp [found, member])
    · exact old
    · exact matched u (by simp [found, member])
  | @drain head _ _ found =>
    have old := matched head (by simp [found])
    intro u member
    rw [List.mem_cons] at member
    rcases member with rfl | member
    · exact old
    · exact matched u (by simp [found, member])
  | addInstructions _ built | addMemory _ _ _ built =>
    intro u member
    rw [List.mem_append, List.mem_singleton] at member
    rcases member with member | rfl
    · exact matched u member
    · -- A new tag was never answered.
      have unanswered : r.nextTag ∉ r.answered := fun among =>
        absurd (tagged.replied _ among).1 (by omega)
      rw [Transaction.new_fields built]
      simpa using unanswered

theorem Moves.matched (moves : Moves ooo r s) (tagged : Tagged r) (matched : Matched r) :
    Tagged s ∧ Matched s := by
  -- The record is in order after each move, which the next one needs.
  induction moves with
  | refl => exact ⟨tagged, matched⟩
  | tail _ move ih => exact ⟨move.tagged ih.1, move.matched ih.1 ih.2⟩

/-- The transactions after exactly the one with a tag was marked ready. -/
def markTag (tag : Nat) (r : Rob) : List Transaction :=
  r.outstandingTransactions.map fun t => if t.tag = tag then t.commitTransaction else t

/--
The response finds its own transaction first.

When that transaction has left the buffer, the first one of its address is ready already.
-/
def Identified (request : CoreRequest) (r : Rob) : Prop :=
  ∀ t ∈ r.outstandingTransactions.find? (fun t => t.addr = request.addr),
    t.tag = request.tag ∨
      t.canBeCommitted = true ∧ ∀ u ∈ r.outstandingTransactions, u.tag ≠ request.tag

instance (request : CoreRequest) (r : Rob) : Decidable (Identified request r) :=
  inferInstanceAs (Decidable (∀ t ∈ r.outstandingTransactions.find? _, _))

theorem markTag_absent {tag : Nat} (absent : ∀ u ∈ r.outstandingTransactions, u.tag ≠ tag) :
    r.markTag tag = r.outstandingTransactions := by
  conv_rhs => rw [← List.map_id r.outstandingTransactions]
  exact List.map_congr_left fun u member => if_neg (absent u member)

theorem markTag_middle (tagged : Tagged r)
    (found : r.outstandingTransactions = before ++ t :: after) :
    r.markTag t.tag = before ++ t.commitTransaction :: after := by
  -- The transactions beside it have other tags.
  have others := others_differ found tagged.distinct
  have same : ∀ l : List Transaction, (∀ u ∈ l, u.tag ≠ t.tag) →
      l.map (fun u => if u.tag = t.tag then u.commitTransaction else u) = l := by
    intro l differ
    conv_rhs => rw [← List.map_id l]
    exact List.map_congr_left fun u member => if_neg (differ u member)
  rw [markTag, found, List.map_append, List.map_cons, if_pos rfl,
    same before fun u member => others u (by simp [member]),
    same after fun u member => others u (by simp [member])]

theorem commitTransaction_eq_self :
    t.commitTransaction = t ↔ t.canBeCommitted = true := by
  -- Marking changes one field.
  constructor
  · intro same
    rw [← same]
    rfl
  · intro ready
    cases t
    simp_all [Transaction.commitTransaction]

/-- A response marks exactly its own transaction if and only if it identifies it. -/
theorem memCoreResponse_exact_iff (sized : r.Sized) (tagged : Tagged r) (matched : Matched r)
    (sent : request ∈ r.inFlight) :
    (r.memCoreResponse request).1.outstandingTransactions = r.markTag request.tag ↔
      Identified request r := by
  -- The response acts on the first transaction of its address, if there is one.
  have ownAddr : ∀ u ∈ r.outstandingTransactions, u.tag = request.tag → u.addr = request.addr :=
    fun u member => tagged.address request sent _ (label_mem member)
  rcases memCoreResponse_cases sized request with
    ⟨none, unmarked⟩ | ⟨before, t, after, found, same, earlier, marked⟩
  · -- Without a transaction of the address there is nothing to mark.
    have absent : ∀ u ∈ r.outstandingTransactions, u.tag ≠ request.tag :=
      fun u member own => none u member (ownAddr u member own)
    have missing : r.outstandingTransactions.find? (fun t => decide (t.addr = request.addr)) =
        Option.none := by
      simpa using none
    simp [unmarked, markTag_absent absent, Identified, missing]
  · have first : r.outstandingTransactions.find? (fun t => decide (t.addr = request.addr)) =
        some t := by
      rw [List.find?_eq_some_iff_append]
      exact ⟨by simp [same], before, after, found, by simpa using earlier⟩
    have identified : Identified request r ↔ t.tag = request.tag ∨
        t.canBeCommitted = true ∧ ∀ u ∈ r.outstandingTransactions, u.tag ≠ request.tag := by
      simp [Identified, first]
    rw [marked, identified]
    by_cases own : t.tag = request.tag
    · simp [own, ← markTag_middle tagged found]
    · simp only [own, false_or]
      constructor
      · -- The own transaction is not ready before its response, so it cannot be left as it is.
        intro exact'
        rw [markTag, found, List.map_append, List.map_cons, if_neg own] at exact'
        obtain ⟨front, back⟩ := List.append_inj exact' (by simp)
        obtain ⟨here, behind⟩ := List.cons.inj back
        refine ⟨commitTransaction_eq_self.mp here, fun u member mine => ?_⟩
        have unchanged : u.commitTransaction = u := by
          rw [found, List.mem_append, List.mem_cons] at member
          rcases member with inside | rfl | inside
          · have := List.map_inj_left.mp ((List.map_id before).trans front) u inside
            simpa [mine] using this.symm
          · exact absurd mine own
          · have := List.map_inj_left.mp ((List.map_id after).trans behind) u inside
            simpa [mine] using this.symm
        have answered := (matched u member).mp (commitTransaction_eq_self.mp unchanged)
        exact (tagged.replied u.tag answered).2 (List.mem_map.mpr ⟨request, sent, mine.symm⟩)
      · rintro ⟨ready, absent⟩
        rw [markTag_absent absent, commitTransaction_eq_self.mpr ready, found]

theorem Matched.respond (matched : Matched r)
    (left : s.outstandingTransactions = r.markTag request.tag)
    (answered : s.answered = r.answered ++ [request.tag]) : Matched s := by
  -- The answered tag is new to the record, and the marked transaction is the one that has it.
  intro u member
  rw [left, markTag, List.mem_map] at member
  obtain ⟨t, old, rfl⟩ := member
  rw [answered, List.mem_append, List.mem_singleton]
  split
  case isTrue own => simp [Transaction.commitTransaction, own]
  case isFalse other => simp [matched t old, other]

theorem tagged_empty : Tagged empty := by
  refine ⟨?_, ?_, ?_, ?_, ?_, ?_, ?_⟩ <;> simp [empty, labels]

end Rob

namespace Core

/-- A response makes ready exactly the transaction whose request it answers, if it is there. -/
def ExactResponse (c : Core) : CoreEvent → Prop
  | .memCoreResponse request =>
    (c.memCoreResponse request).pipe.rob.outstandingTransactions =
      c.pipe.rob.markTag request.tag
  | .tick _ | .setDvfs _ => True

/-- A response identifies its transaction by its address. -/
def IdentifiedResponse (c : Core) : CoreEvent → Prop
  | .memCoreResponse request => c.pipe.rob.Identified request
  | .tick _ | .setDvfs _ => True

/-- The books and the record are in order, and the ready transactions are the answered ones. -/
structure Responded (cfg : CoreConfig) (c : Core) : Prop where
  books : Rob.Accounted (!cfg.inOrder) c.pipe.rob
  tagged : c.pipe.rob.Tagged
  matched : c.pipe.rob.Matched

variable {cfg : CoreConfig} {c d : Core} {e : CoreEvent}

theorem exactResponse_iff (responded : Responded cfg c) (taken : step cfg c e = some d) :
    c.ExactResponse e ↔ c.IdentifiedResponse e := by
  cases e with
  | tick env | setDvfs dvfs => exact Iff.rfl
  | memCoreResponse request =>
    exact Rob.memCoreResponse_exact_iff responded.books.sized responded.tagged responded.matched
      (step_memCoreResponse taken).1

/-- Every event keeps the record, and the ready transactions answered while responses are exact. -/
theorem step_responded (responded : Responded cfg c) (permitted : c.IdentifiedResponse e)
    (taken : step cfg c e = some d) : Responded cfg d := by
  -- Ticks move the buffer, and only responses mark what stays in it.
  have books := step_accounted responded.books taken
  cases e with
  | tick env =>
    have moves := (tick_ends cfg env responded.books.sized).of_ok (step_tick taken)
    obtain ⟨tagged, matched⟩ := moves.matched responded.tagged responded.matched
    exact ⟨books, tagged, matched⟩
  | setDvfs dvfs =>
    obtain rfl := step_setDvfs taken
    exact ⟨books, responded.tagged, responded.matched⟩
  | memCoreResponse request =>
    have exact' := (exactResponse_iff responded taken).mpr permitted
    obtain ⟨sent, rfl⟩ := step_memCoreResponse taken
    -- Whatever is marked, the labels stay and the record moves one tag on.
    have record : (c.memCoreResponse request).pipe.rob.labels = c.pipe.rob.labels ∧
        (c.memCoreResponse request).pipe.rob.nextTag = c.pipe.rob.nextTag ∧
        (c.memCoreResponse request).pipe.rob.inFlight = c.pipe.rob.inFlight.erase request ∧
        (c.memCoreResponse request).pipe.rob.answered =
          c.pipe.rob.answered ++ [request.tag] := by
      simp only [memCoreResponse]
      rcases Rob.memCoreResponse_cases responded.books.sized request with
        ⟨-, unmarked⟩ | ⟨before, t, after, found, -, -, marked⟩
      · rw [unmarked]
        exact ⟨rfl, rfl, rfl, rfl⟩
      · rw [marked]
        refine ⟨?_, rfl, rfl, rfl⟩
        simp [Rob.labels, found, Transaction.commitTransaction]
    exact ⟨books, responded.tagged.respond sent record.1 record.2.1 record.2.2.1 record.2.2.2,
      responded.matched.respond exact' record.2.2.2⟩

/--
Every response of a run makes ready exactly the transaction whose issue caused it, if and only if
each one finds its own transaction first among those of its address.

In such a run no load or store is ready before it was issued, and none that was answered waits.
-/
theorem responses_exact_iff (cfg : CoreConfig) (held : CoreDvfs) (trace : List Word)
    (coreFreq optDVFSState : Int) (es : List CoreEvent) (c : Core)
    (built : init cfg held trace coreFreq optDVFSState = .ok c) :
    (Machine.Meets (step cfg) ExactResponse c es ↔
      Machine.Meets (step cfg) IdentifiedResponse c es) ∧
    (Machine.Meets (step cfg) IdentifiedResponse c es →
      ∀ d, Machine.run (step cfg) c es = some d → ∀ t ∈ d.pipe.rob.outstandingTransactions,
        (t.canBeCommitted = true → t.isIssued = true) ∧
        (t.tag ∈ d.pipe.rob.answered → t.canBeCommitted = true)) := by
  -- Up to the first inexact response the ready transactions are the answered ones.
  have start : Responded cfg c := by
    refine ⟨?_, ?_, ?_⟩ <;> rw [(init_fresh built).1]
    · exact Rob.accounted_empty _
    · exact Rob.tagged_empty
    · exact fun t member => absurd member List.not_mem_nil
  refine ⟨Machine.meets_congr (fun _ _ _ => exactResponse_iff) (fun _ _ _ => step_responded)
    start, fun meets d ran t member => ?_⟩
  have responded := Machine.run_preserves_of_meets (fun _ _ _ => step_responded) start meets ran
  refine ⟨fun ready => ?_, (responded.matched t member).mpr⟩
  have answered := (responded.matched t member).mp ready
  exact (responded.tagged.issued _ (Rob.label_mem member)).mpr (.inr answered)

/-- The line of a load of address 64. -/
def loadLine : List Word := [.mmuLd, .num 64, .num 4]

/-- The request that the first transaction of a trace sends for such a line. -/
def loadRequest : CoreRequest := ⟨0, 64, true⟩

/-- The response to the only load of a trace makes that load ready. -/
theorem lone_load_exact :
    ∃ es d, Machine.run (step (coreBound 1 true)) (started loadLine) es = some d ∧
      d.pipe.rob.answered = [0] ∧
      Machine.Meets (step (coreBound 1 true)) ExactResponse (started loadLine) es := by
  -- Two ticks read and issue the load, and its response finds it first.
  let ticks : List CoreEvent := [.tick accepting, .tick accepting]
  have short : (Machine.run (step (coreBound 1 true)) (started loadLine) ticks).any
      (fun c => loadRequest ∈ c.pipe.rob.inFlight ∧ c.pipe.rob.answered = [] ∧
        c.pipe.rob.Identified loadRequest) = true := by
    decide +kernel
  obtain ⟨c, ran, checked⟩ := (Option.any_eq_true _ _).mp short
  obtain ⟨sent, none, identified⟩ := of_decide_eq_true checked
  have taken : step (coreBound 1 true) c (.memCoreResponse loadRequest) =
      some (c.memCoreResponse loadRequest) := if_pos sent
  refine ⟨ticks ++ [.memCoreResponse loadRequest], c.memCoreResponse loadRequest, ?_, ?_,
    (responses_exact_iff (coreBound 1 true) _ loadLine 1000 7 _ _
      (init_started 1 true loadLine)).1.mpr ?_⟩
  · rw [Machine.run_concat, ran, Option.bind_some, taken]
  · simp [memCoreResponse, Rob.memCoreResponse, none, loadRequest]
  · rw [Machine.meets_concat ran]
    -- Ticks need nothing.
    exact ⟨fun _ _ => ⟨trivial, fun _ _ => ⟨trivial, trivial⟩⟩, fun _ => identified⟩

/-- Lines that the core passes over, followed by a load of the same address. -/
def delayedLoad (n : Nat) : List Word :=
  (List.replicate n [Word.cpuSummary, .num 0, .num 0, .num 0, .num 0]).flatten ++ loadLine

/-- Two loads of one address, so far apart that the first one is forced out in between. -/
def twoLoads : List Word :=
  loadLine ++ delayedLoad 100001

/-- The first of the two loads in the buffer, and whether the agent took its request. -/
def firstLoad : Transaction :=
  { transactionType := .mmuLd, numberOfInstructions := 0, instrExecutedOoo := 0, addr := 64,
    canBeCommitted := false, insertedTick := 2, isIssued := true, tag := 0 }

/-- The core after the first load was issued and waited `k` more ticks, with `n` lines to go. -/
def loadWaiting (k n : Nat) : Core :=
  { started twoLoads with
    ticks := 2 + k
    emTraceFile := delayedLoad n
    pipe :=
      { rob :=
          { Rob.empty with
            outstandingTransactions := [firstLoad], outstandingTransactionsSize := 1, nextTag := 1,
            inFlight := [loadRequest] }
        idleCycles := 1 + k, idleStreak := 0, thisFrameRobFullStalls := k,
        thisFrameMemFullStalls := 0 } }

theorem step_loadWaiting {k n : Nat} (within : k < 100000) :
    step (coreBound 1 true) (loadWaiting k (n + 1)) (.tick accepting) =
      some (loadWaiting (k + 1) n) := by
  -- The wait is still too short for the deadlock check and for the low power state.
  have early : ¬ deadlockPeriod < 2 + (k : Int) + 1 - 2 := by
    simp only [deadlockPeriod]
    omega
  have below : ¬ corePstateLowpowerEnterTime ≤ 1 + (k : Int) := by
    simp only [corePstateLowpowerEnterTime]
    omega
  have begun : (loadWaiting k (n + 1)).startTick =
      .ok { loadWaiting k (n + 1) with ticks := 2 + k + 1 } := by
    simp only [startTick, Rob.checkDeadlock]
    split
    · simp [loadWaiting, firstLoad, early]
    · rfl
  have stays : { loadWaiting k (n + 1) with ticks := 2 + k + 1 }.lowerPState =
      { loadWaiting k (n + 1) with ticks := 2 + k + 1 } := by
    simp [lowerPState, loadWaiting, started, new, below]
  simp only [step, tick, begun]
  change ({ loadWaiting k (n + 1) with ticks := 2 + k + 1 }.endTick (coreBound 1 true)
    accepting).toOption = _
  unfold endTick
  rw [stays]
  rfl

theorem run_firstLoad :
    Machine.run (step (coreBound 1 true)) (started twoLoads) [.tick accepting, .tick accepting] =
      some (loadWaiting 0 100000) := by
  -- The rest of the trace does not matter to the first two ticks.
  have lines : ∀ n, delayedLoad (n + 1) =
      [Word.cpuSummary, .num 0, .num 0, .num 0, .num 0] ++ delayedLoad n := fun _ => rfl
  have read : ∀ rest, Machine.run (step (coreBound 1 true))
      { started twoLoads with
        emTraceFile := loadLine ++ ([.cpuSummary, .num 0, .num 0, .num 0, .num 0] ++ rest) }
      [.tick accepting, .tick accepting] =
        some { loadWaiting 0 0 with emTraceFile := rest } := fun _ => rfl
  have opened : started twoLoads =
      { started twoLoads with emTraceFile := loadLine ++ delayedLoad (100000 + 1) } := rfl
  rw [opened, lines]
  exact read (delayedLoad 100000)

/-- After the deadlock period the first load is forced out and the second one read. -/
theorem run_untilForced :
    ∃ c, Machine.run (step (coreBound 1 true)) (started twoLoads)
      (List.replicate 100003 (.tick accepting)) = some c ∧
      loadRequest ∈ c.pipe.rob.inFlight ∧ ¬ c.ExactResponse (.memCoreResponse loadRequest) ∧
      ∃ t ∈ (c.memCoreResponse loadRequest).pipe.rob.outstandingTransactions,
        t.isMemory = true ∧ t.canBeCommitted = true ∧ t.isIssued = false := by
  -- Two ticks issue the load, 100000 pass, and the next one forces it out.
  let waiting (k : Nat) : Core := loadWaiting k (100000 - k)
  have linked : ∀ k < 100000, step (coreBound 1 true) (waiting k) (.tick accepting) =
      some (waiting (k + 1)) := by
    intro k within
    have lines : 100000 - k = 100000 - (k + 1) + 1 := by omega
    simp only [waiting, lines]
    exact step_loadWaiting within
  have waited := Machine.run_replicate linked
  simp only [waiting, Nat.sub_zero, Nat.sub_self] at waited
  have last : (step (coreBound 1 true) (loadWaiting 100000 0) (.tick accepting)).any (fun c =>
      loadRequest ∈ c.pipe.rob.inFlight ∧
      ¬ (c.memCoreResponse loadRequest).pipe.rob.outstandingTransactions =
        c.pipe.rob.markTag loadRequest.tag ∧
      ∃ t ∈ (c.memCoreResponse loadRequest).pipe.rob.outstandingTransactions,
        t.isMemory = true ∧ t.canBeCommitted = true ∧ t.isIssued = false) = true := by
    decide +kernel
  obtain ⟨c, forced, checked⟩ := (Option.any_eq_true _ _).mp last
  obtain ⟨sent, inexact, marked⟩ := of_decide_eq_true checked
  refine ⟨c, ?_, sent, inexact, marked⟩
  have parts : List.replicate 100003 (CoreEvent.tick accepting) =
      [.tick accepting, .tick accepting] ++ List.replicate 100000 (.tick accepting) ++
        [.tick accepting] := by
    rw [List.append_assoc, ← List.replicate_succ', List.cons_append, List.cons_append,
      List.nil_append, ← List.replicate_succ, ← List.replicate_succ]
  rw [parts, Machine.run_concat, Machine.run_append, run_firstLoad, Option.bind_some, waited,
    Option.bind_some]
  exact forced

/--
A response that comes after its load was forced out makes the next load of the address ready.

That load was never issued.
-/
theorem stale_response_marks_unissued :
    ∃ es d, Machine.run (step (coreBound 1 true)) (started twoLoads) es = some d ∧
      ¬ Machine.Meets (step (coreBound 1 true)) ExactResponse (started twoLoads) es ∧
      ∃ t ∈ d.pipe.rob.outstandingTransactions,
        t.isMemory = true ∧ t.canBeCommitted = true ∧ t.isIssued = false := by
  -- The first load left the buffer, so the response should have marked nothing.
  obtain ⟨c, ran, sent, inexact, marked⟩ := run_untilForced
  have taken : step (coreBound 1 true) c (.memCoreResponse loadRequest) =
      some (c.memCoreResponse loadRequest) := if_pos sent
  refine ⟨List.replicate 100003 (.tick accepting) ++ [.memCoreResponse loadRequest],
    c.memCoreResponse loadRequest, ?_, fun meets => ?_, marked⟩
  · rw [Machine.run_concat, ran, Option.bind_some, taken]
  · rw [Machine.meets_concat ran] at meets
    exact inexact (meets.2 (by rw [taken]; rfl))

-- Out of order, a load behind a ready one of its address is left waiting though it was answered.
example :
    (Machine.run (step (coreBound 2 false))
      (started ([.mmuLd, .num 128, .num 4] ++ loadLine ++ delayedLoad 1))
      (List.replicate 3 (.tick accepting) ++ [.memCoreResponse ⟨1, 64, true⟩] ++
        List.replicate 2 (.tick accepting) ++ [.memCoreResponse ⟨2, 64, true⟩])).any (fun d =>
      d.pipe.rob.outstandingTransactions.any fun t =>
        t.isIssued && d.pipe.rob.answered.contains t.tag && !t.canBeCommitted) = true := by
  decide +kernel

end Core

end GemDroid

import GemDroid.Cpu.ReadyLists

/-! The list of classes stays in step with the ready instructions, which are issued in order. -/

namespace GemDroid

open Function (update update_apply update_of_ne update_self)

namespace ReadyLists

variable {r r' : ReadyLists} {entries : List ListOrderEntry} {c : OpClass}

section lists

theorem mem_push {inst x : ReadyInst} {queue : List ReadyInst} :
    x ∈ push inst queue ↔ x = inst ∨ x ∈ queue := by
  induction queue with
  | nil => simp [push]
  | cons top rest ih =>
    rw [push]
    split_ifs
    · exact List.mem_cons
    · rw [List.mem_cons, ih, List.mem_cons, or_left_comm]

theorem push_sorted {inst : ReadyInst} {queue : List ReadyInst}
    (sorted : queue.Pairwise (·.seqNum < ·.seqNum)) (fresh : ∀ x ∈ queue, x.seqNum ≠ inst.seqNum) :
    (push inst queue).Pairwise (·.seqNum < ·.seqNum) := by
  induction queue with
  | nil => exact List.pairwise_singleton _ _
  | cons top rest ih =>
    obtain ⟨above, sorted'⟩ := List.pairwise_cons.mp sorted
    have other := fresh top List.mem_cons_self
    rw [push]
    split_ifs with older
    · refine List.pairwise_cons.mpr ⟨fun x mem => ?_, sorted⟩
      rcases List.mem_cons.mp mem with rfl | later
      · omega
      · have below := above x later
        omega
    · refine List.pairwise_cons.mpr ⟨fun x mem => ?_,
        ih sorted' fun x mem => fresh x (List.mem_cons_of_mem _ mem)⟩
      rcases mem_push.mp mem with rfl | later
      · omega
      · exact above x later

theorem push_top (inst : ReadyInst) (queue : List ReadyInst) :
    ∃ top rest, push inst queue = top :: rest ∧
      (queue = [] ∧ top = inst ∨ ∃ old rest', queue = old :: rest' ∧
        (top = inst ∧ inst.seqNum ≤ old.seqNum ∨ top = old ∧ old.seqNum < inst.seqNum)) := by
  cases queue with
  | nil => exact ⟨inst, [], rfl, .inl ⟨rfl, rfl⟩⟩
  | cons old rest =>
    rw [push]
    by_cases older : inst.seqNum ≤ old.seqNum
    · rw [if_pos older]
      exact ⟨inst, old :: rest, rfl, .inr ⟨old, rest, rfl, .inl ⟨rfl, older⟩⟩⟩
    · rw [if_neg older]
      exact ⟨old, push inst rest, rfl, .inr ⟨old, rest, rfl, .inr ⟨rfl, not_le.mp older⟩⟩⟩

theorem insertAt_perm (stops : ListOrderEntry → Bool) (entry : ListOrderEntry)
    (entries : List ListOrderEntry) : (insertAt stops entry entries).Perm (entry :: entries) := by
  induction entries with
  | nil => exact List.Perm.refl _
  | cons e rest ih =>
    rw [insertAt]
    split_ifs
    · exact List.Perm.refl _
    · exact (ih.cons e).trans (List.Perm.swap _ _ _)

theorem insertAt_sorted {stops : ListOrderEntry → Bool} {entry : ListOrderEntry}
    (stop : ∀ e ∈ entries, stops e = true → entry.oldestInst < e.oldestInst)
    (go : ∀ e ∈ entries, stops e = false → e.oldestInst < entry.oldestInst)
    (sorted : entries.Pairwise (·.oldestInst < ·.oldestInst)) :
    (insertAt stops entry entries).Pairwise (·.oldestInst < ·.oldestInst) := by
  induction entries with
  | nil => exact List.pairwise_singleton _ _
  | cons e rest ih =>
    obtain ⟨above, sorted'⟩ := List.pairwise_cons.mp sorted
    rw [insertAt]
    cases stopped : stops e with
    | true =>
      rw [if_pos rfl]
      have first := stop e List.mem_cons_self stopped
      refine List.pairwise_cons.mpr ⟨fun x mem => ?_, sorted⟩
      rcases List.mem_cons.mp mem with rfl | later
      · exact first
      · exact first.trans (above x later)
    | false =>
      rw [if_neg (by decide)]
      refine List.pairwise_cons.mpr ⟨fun x mem => ?_,
        ih (fun x mem => stop x (List.mem_cons_of_mem _ mem))
          (fun x mem => go x (List.mem_cons_of_mem _ mem)) sorted'⟩
      rcases List.mem_cons.mp ((insertAt_perm stops entry rest).mem_iff.mp mem) with rfl | later
      · exact go e List.mem_cons_self stopped
      · exact above x later

theorem find_node {e : ListOrderEntry} (nodes : (entries.map ListOrderEntry.node).Nodup)
    (mem : e ∈ entries) : (entries.find? fun f => f.node = e.node) = some e := by
  induction entries with
  | nil => cases mem
  | cons f rest ih =>
    obtain ⟨fresh, nodes'⟩ := List.nodup_cons.mp nodes
    rcases List.mem_cons.mp mem with rfl | later
    · exact List.find?_cons_of_pos (decide_eq_true rfl)
    · have other : f.node ≠ e.node :=
        fun same => fresh (same ▸ List.mem_map_of_mem (f := ListOrderEntry.node) later)
      rw [List.find?_cons_of_neg (by simpa using other)]
      exact ih nodes' later

theorem filter_node {before after : List ListOrderEntry} {e : ListOrderEntry}
    (nodes : ((before ++ e :: after).map ListOrderEntry.node).Nodup) :
    ((before ++ e :: after).filter fun f => f.node ≠ e.node) = before ++ after := by
  rw [List.map_append, List.map_cons, List.nodup_middle, List.nodup_cons, ← List.map_append]
    at nodes
  have kept : ((before ++ after).filter fun f => f.node ≠ e.node) = before ++ after := by
    rw [List.filter_eq_self]
    intro f mem
    refine decide_eq_true fun same => nodes.1 ?_
    rw [← same]
    exact List.mem_map_of_mem mem
  rw [List.filter_append, List.filter_cons_of_neg (by simp), ← List.filter_append, kept]

end lists

section invariant

/-- The queues hold each instruction once, under its class, the oldest of each at the top. -/
structure Queues (readyInsts : OpClass → List ReadyInst) : Prop where
  sorted : ∀ c, (readyInsts c).Pairwise (·.seqNum < ·.seqNum)
  class_eq : ∀ c, ∀ inst ∈ readyInsts c, inst.opClass = c
  once : ∀ c d, ∀ x ∈ readyInsts c, ∀ y ∈ readyInsts d, x.seqNum = y.seqNum → x = y

/--
The entries are those of the classes with ready instructions, each of them but those that are off
the list for the moment, sorted by their oldest instructions.
-/
structure Listed (r : ReadyLists) (entries : List ListOrderEntry) (off : OpClass → Prop) :
    Prop where
  queues : Queues r.readyInsts
  pool : r.fuPool.Ready
  sorted : entries.Pairwise (·.oldestInst < ·.oldestInst)
  nodes : (entries.map ListOrderEntry.node).Nodup
  nodes_lt : ∀ e ∈ entries, e.node < r.nextNode
  oldest : ∀ e ∈ entries, ¬off e.queueType ∧
    ∃ top rest, r.readyInsts e.queueType = top :: rest ∧ top.seqNum = e.oldestInst
  listed : ∀ c, ¬off c → r.readyInsts c ≠ [] → r.queueOnList c = true ∧
    ∃ e ∈ entries, e.queueType = c ∧ r.readyIt c = some e.node
  unlisted : ∀ c, ¬off c → r.readyInsts c = [] → r.queueOnList c = false

/-- The entries are those of all classes with ready instructions. -/
def Sound (r : ReadyLists) (entries : List ListOrderEntry) : Prop :=
  Listed r entries fun _ => False

theorem Listed.entry_unique {off : OpClass → Prop} (listed : Listed r entries off)
    {e f : ListOrderEntry} (mem : e ∈ entries) (mem' : f ∈ entries)
    (same : e.queueType = f.queueType) : e = f := by
  obtain ⟨-, top, rest, queue, oldest⟩ := listed.oldest e mem
  obtain ⟨-, top', rest', queue', oldest'⟩ := listed.oldest f mem'
  rw [same, queue'] at queue
  have tops := (List.cons.inj queue).1
  have equal : e.oldestInst = f.oldestInst := by rw [← oldest, ← oldest', tops]
  -- In a sorted list no two entries have the same oldest instruction.
  have distinct : (entries.map ListOrderEntry.oldestInst).Nodup :=
    List.pairwise_map.mpr (listed.sorted.imp fun less => less.ne)
  exact List.inj_on_of_nodup_map distinct mem mem' equal

variable {readyInsts : OpClass → List ReadyInst}

theorem Queues.push (queues : Queues readyInsts) {inst : ReadyInst}
    (fresh : ∀ c, ∀ x ∈ readyInsts c, x.seqNum ≠ inst.seqNum) :
    Queues (update readyInsts inst.opClass (push inst (readyInsts inst.opClass))) := by
  have mem_iff (c : OpClass) (x : ReadyInst) :
      x ∈ update readyInsts inst.opClass
          (ReadyLists.push inst (readyInsts inst.opClass)) c ↔
        (c = inst.opClass ∧ x = inst) ∨ x ∈ readyInsts c := by
    rw [update_apply]
    split_ifs with here
    · rw [mem_push, here]
      simp
    · simp [here]
  refine ⟨fun c => ?_, fun c x mem => ?_, fun c d x mem y mem' same => ?_⟩
  · rw [update_apply]
    split_ifs
    · exact push_sorted (queues.sorted _) (fresh _)
    · exact queues.sorted c
  · rcases (mem_iff c x).mp mem with ⟨rfl, rfl⟩ | old
    · rfl
    · exact queues.class_eq c x old
  · rcases (mem_iff c x).mp mem with ⟨-, rfl⟩ | old <;>
      rcases (mem_iff d y).mp mem' with ⟨-, rfl⟩ | old'
    · rfl
    · exact absurd same.symm (fresh d y old')
    · exact absurd same (fresh c x old)
    · exact queues.once c d x old y old' same

theorem Queues.pop (queues : Queues readyInsts)
    (c : OpClass) : Queues (update readyInsts c (readyInsts c).tail) := by
  have sub (d : OpClass) :
      (update readyInsts c (readyInsts c).tail d).Sublist (readyInsts d) := by
    rw [update_apply]
    split_ifs with here
    · rw [here]
      exact List.tail_sublist _
    · exact List.Sublist.refl _
  exact ⟨fun d => (queues.sorted d).sublist (sub d),
    fun d x mem => queues.class_eq d x ((sub d).subset mem),
    fun d d' x mem y mem' => queues.once d d' x ((sub d).subset mem) y ((sub d').subset mem')⟩

/-- A class is taken off the list while its queue changes. -/
theorem Listed.take {before after : List ListOrderEntry} {e : ListOrderEntry}
    (sound : Sound r (before ++ e :: after)) (queues : Queues readyInsts)
    (others : ∀ d ≠ e.queueType, readyInsts d = r.readyInsts d) :
    Listed { r with readyInsts := readyInsts } (before ++ after) (· = e.queueType) := by
  have mem : e ∈ before ++ e :: after := List.mem_append_right _ List.mem_cons_self
  have sub : (before ++ after).Sublist (before ++ e :: after) :=
    (List.Sublist.refl before).append (List.sublist_cons_self e after)
  have different (f : ListOrderEntry) (mem' : f ∈ before ++ after) : f.queueType ≠ e.queueType := by
    intro same
    have equal := sound.entry_unique (sub.subset mem') mem same
    -- The entry would be on the list twice.
    have nodup := List.Nodup.of_map _ sound.nodes
    rw [List.nodup_middle] at nodup
    exact (List.nodup_cons.mp nodup).1 (equal ▸ mem')
  refine ⟨queues, sound.pool, sound.sorted.sublist sub, sound.nodes.sublist (sub.map _),
    fun f mem' => sound.nodes_lt f (sub.subset mem'), fun f mem' => ?_, fun d off some_inst => ?_,
    fun d off none_inst => ?_⟩
  · refine ⟨different f mem', ?_⟩
    show ∃ top rest, readyInsts f.queueType = top :: rest ∧ top.seqNum = f.oldestInst
    rw [others f.queueType (different f mem')]
    exact (sound.oldest f (sub.subset mem')).2
  · replace some_inst : readyInsts d ≠ [] := some_inst
    rw [others d off] at some_inst
    obtain ⟨on, f, mem', same, it⟩ := sound.listed d not_false some_inst
    refine ⟨on, f, ?_, same, it⟩
    rcases List.mem_append.mp mem' with left | right
    · exact List.mem_append_left _ left
    · rcases List.mem_cons.mp right with rfl | right
      · exact absurd same.symm off
      · exact List.mem_append_right _ right
  · replace none_inst : readyInsts d = [] := none_inst
    rw [others d off] at none_inst
    exact sound.unlisted d not_false none_inst

theorem Listed.leave (listed : Listed r entries (· = c)) (none_inst : r.readyInsts c = [])
    (it : OpClass → Option Nat) (same : ∀ d ≠ c, it d = r.readyIt d) :
    Sound { r with
      readyIt := it, queueOnList := update r.queueOnList c false } entries := by
  refine ⟨listed.queues, listed.pool, listed.sorted, listed.nodes, listed.nodes_lt,
    fun e mem => ⟨not_false, (listed.oldest e mem).2⟩, fun d _ some_inst => ?_, fun d _ none => ?_⟩
  · have other : d ≠ c := fun here => some_inst (here ▸ none_inst)
    obtain ⟨on, e, mem, type, node⟩ := listed.listed d other some_inst
    refine ⟨?_, e, mem, type, ?_⟩
    · show update r.queueOnList c false d = true
      rwa [update_of_ne other]
    · exact (same d other).trans node
  · show update r.queueOnList c false d = false
    rw [update_apply]
    split_ifs with here
    · rfl
    · exact listed.unlisted d here none

/-- A class is put back on the list with the entry of its top. -/
theorem Listed.put {before after : List ListOrderEntry}
    (listed : Listed r (before ++ after) (· = c)) {top : ReadyInst} {rest : List ReadyInst}
    (queue : r.readyInsts c = top :: rest) (stops : ListOrderEntry → Bool)
    (passed : ∀ e ∈ before, e.oldestInst < top.seqNum)
    (stop : ∀ e ∈ after, stops e = true → top.seqNum < e.oldestInst)
    (go : ∀ e ∈ after, stops e = false → e.oldestInst < top.seqNum)
    (onList : OpClass → Bool) (on : onList c = true) (same : ∀ d ≠ c, onList d = r.queueOnList d) :
    Sound { r with
        readyIt := update r.readyIt c (some r.nextNode)
        queueOnList := onList
        nextNode := r.nextNode + 1 }
      (before ++ insertAt stops ⟨r.nextNode, c, top.seqNum⟩ after) := by
  -- Wherever the entry lands, the list has one entry more, whose node is new.
  have perm : (before ++ insertAt stops ⟨r.nextNode, c, top.seqNum⟩ after).Perm
      (⟨r.nextNode, c, top.seqNum⟩ :: (before ++ after)) :=
    ((insertAt_perm stops _ after).append_left before).trans List.perm_middle
  obtain ⟨sorted_before, sorted_after, across⟩ := List.pairwise_append.mp listed.sorted
  refine ⟨listed.queues, listed.pool, ?_, ?_, fun e mem => ?_, fun e mem => ⟨not_false, ?_⟩,
    fun d _ some_inst => ?_, fun d _ none_inst => ?_⟩
  · refine List.pairwise_append.mpr ⟨sorted_before, insertAt_sorted stop go sorted_after, ?_⟩
    intro e mem f mem'
    rcases List.mem_cons.mp ((insertAt_perm stops _ after).mem_iff.mp mem') with rfl | old
    · exact passed e mem
    · exact across e mem f old
  · rw [(perm.map ListOrderEntry.node).nodup_iff, List.map_cons, List.nodup_cons]
    refine ⟨fun mem => ?_, listed.nodes⟩
    obtain ⟨e, mem', node⟩ := List.mem_map.mp mem
    have less := listed.nodes_lt e mem'
    exact absurd node less.ne
  · show e.node < r.nextNode + 1
    rcases List.mem_cons.mp (perm.mem_iff.mp mem) with rfl | old
    · exact Nat.lt_succ_self _
    · exact (listed.nodes_lt e old).trans (Nat.lt_succ_self _)
  · rcases List.mem_cons.mp (perm.mem_iff.mp mem) with rfl | old
    · exact ⟨top, rest, queue, rfl⟩
    · exact (listed.oldest e old).2
  · show onList d = true ∧ ∃ e ∈ before ++ insertAt stops ⟨r.nextNode, c, top.seqNum⟩ after,
      e.queueType = d ∧ update r.readyIt c (some r.nextNode) d = some e.node
    by_cases here : d = c
    · rw [here, update_self]
      exact ⟨on, _, perm.mem_iff.mpr List.mem_cons_self, rfl, rfl⟩
    · obtain ⟨on', e, mem, type, node⟩ := listed.listed d here some_inst
      rw [same d here, update_of_ne here]
      exact ⟨on', e, perm.mem_iff.mpr (List.mem_cons_of_mem _ mem), type, node⟩
  · show onList d = false
    have other : d ≠ c := by
      rintro rfl
      rw [show r.readyInsts d = [] from none_inst] at queue
      cases queue
    rw [same d other]
    exact listed.unlisted d other none_inst

end invariant

section operations

variable {e : ListOrderEntry} {rest passed : List ListOrderEntry}

theorem Listed.oldest_le {off : OpClass → Prop} (listed : Listed r entries off) (mem : e ∈ entries)
    {x : ReadyInst} (ready : x ∈ r.readyInsts e.queueType) : e.oldestInst ≤ x.seqNum := by
  obtain ⟨-, top, rest, queue, oldest⟩ := listed.oldest e mem
  have sorted := listed.queues.sorted e.queueType
  rw [queue] at ready sorted
  rw [← oldest]
  rcases List.mem_cons.mp ready with rfl | later
  · exact le_refl _
  · exact ((List.pairwise_cons.mp sorted).1 x later).le

theorem Listed.oldest_ne {off : OpClass → Prop} (listed : Listed r entries off) (mem : e ∈ entries)
    {seqNum : Nat}
    (fresh : ∀ c, ∀ x ∈ r.readyInsts c, x.seqNum ≠ seqNum) : e.oldestInst ≠ seqNum := by
  obtain ⟨-, top, rest, queue, oldest⟩ := listed.oldest e mem
  rw [← oldest]
  refine fresh e.queueType top ?_
  rw [queue]
  exact List.mem_cons_self

/-- An instruction is in one of the queues. -/
def Queued (r : ReadyLists) (seqNum : Nat) : Prop :=
  ∃ c, ∃ x ∈ r.readyInsts c, x.seqNum = seqNum

theorem Listed.addToOrderList (listed : Listed r r.listOrder (· = c)) {top : ReadyInst}
    {rest : List ReadyInst} (queue : r.readyInsts c = top :: rest)
    (other : ∀ e ∈ r.listOrder, e.oldestInst ≠ top.seqNum) :
    ∃ r', r.addToOrderList c = .ok r' ∧ Sound r' r'.listOrder ∧ r'.readyInsts = r.readyInsts ∧
      r'.fuPool = r.fuPool ∧ r'.isSquashed = r.isSquashed := by
  refine ⟨{ r with
    listOrder := insertAt (fun e => e.oldestInst > top.seqNum) ⟨r.nextNode, c, top.seqNum⟩
      r.listOrder
    readyIt := update r.readyIt c (some r.nextNode)
    queueOnList := update r.queueOnList c true
    nextNode := r.nextNode + 1 }, by rw [ReadyLists.addToOrderList, queue], ?_, rfl, rfl, rfl⟩
  have put := Listed.put (show Listed r ([] ++ r.listOrder) (· = c) from listed) queue
    (fun e => e.oldestInst > top.seqNum) (fun e never => absurd never List.not_mem_nil)
    (fun e mem stop => of_decide_eq_true stop)
    (fun e mem go => lt_of_le_of_ne (not_lt.mp (of_decide_eq_false go)) (other e mem))
    (update r.queueOnList c true) (update_self ..)
    (fun d here => update_of_ne here ..)
  exact ⟨put.queues, put.pool, put.sorted, put.nodes, put.nodes_lt, put.oldest, put.listed,
    put.unlisted⟩

/-- A ready instruction that is in no queue is added without a fault. -/
theorem Sound.addReady (sound : Sound r r.listOrder) {inst : ReadyInst}
    (fresh : ¬r.Queued inst.seqNum) :
    ∃ r', r.addReady inst = .ok r' ∧ Sound r' r'.listOrder ∧ r'.fuPool = r.fuPool := by
  have fresh' (c : OpClass) (x : ReadyInst) (mem : x ∈ r.readyInsts c) : x.seqNum ≠ inst.seqNum :=
    fun same => fresh ⟨c, x, mem, same⟩
  have queues := sound.queues.push fresh'
  have others (d : OpClass) (other : d ≠ inst.opClass) :
      (r.pushInst inst).readyInsts d = r.readyInsts d := update_of_ne other ..
  have pushed : (r.pushInst inst).readyInsts inst.opClass =
      push inst (r.readyInsts inst.opClass) := update_self ..
  obtain ⟨top, rest, queue, shape⟩ := push_top inst (r.readyInsts inst.opClass)
  rw [← pushed] at queue
  rw [ReadyLists.addReady]
  rcases shape with ⟨empty, rfl⟩ | ⟨old, rest', queue', shape⟩
  · -- The class has had no ready instruction and no entry.
    have off := sound.unlisted top.opClass not_false empty
    have listed : Listed (r.pushInst top) (r.pushInst top).listOrder (· = top.opClass) := by
      refine ⟨queues, sound.pool, sound.sorted, sound.nodes, sound.nodes_lt, fun e mem => ?_,
        fun d other some_inst => ?_, fun d other none_inst => ?_⟩
      · obtain ⟨-, first, rest'', queue'', oldest⟩ := sound.oldest e mem
        have other : e.queueType ≠ top.opClass := by
          intro here
          rw [here, empty] at queue''
          cases queue''
        rw [others _ other]
        exact ⟨other, first, rest'', queue'', oldest⟩
      · rw [others d other] at some_inst
        exact sound.listed d not_false some_inst
      · rw [others d other] at none_inst
        exact sound.unlisted d not_false none_inst
    obtain ⟨r', added, sound', -, pool, -⟩ := listed.addToOrderList queue
      fun e mem => sound.oldest_ne mem fresh'
    refine ⟨r', ?_, sound', pool⟩
    rw [if_pos (by rw [show (r.pushInst top).queueOnList = r.queueOnList from rfl, off]; rfl)]
    exact added
  · -- The class has an entry, which its iterator points to.
    obtain ⟨on, e, mem, type, it⟩ := sound.listed inst.opClass not_false
      (by rw [queue']; exact List.cons_ne_nil _ _)
    have found : (r.pushInst inst).entryAt ((r.pushInst inst).readyIt inst.opClass) = some e := by
      rw [show (r.pushInst inst).readyIt = r.readyIt from rfl, it]
      show (r.listOrder.find? fun f => f.node = e.node) = some e
      exact find_node sound.nodes mem
    obtain ⟨-, first, rest'', queue'', oldest⟩ := sound.oldest e mem
    rw [type, queue'] at queue''
    obtain ⟨rfl, -⟩ := List.cons.inj queue''
    obtain ⟨before, after, split⟩ := List.append_of_mem mem
    have taken : Listed (r.pushInst inst) (before ++ after) (· = inst.opClass) := by
      have off := Listed.take (split ▸ sound : Sound r (before ++ e :: after)) queues
        (fun d other => others d (type ▸ other))
      rwa [type] at off
    have nodes := sound.nodes
    rw [split] at nodes
    have erased : ((r.pushInst inst).erase e.node).listOrder = before ++ after := by
      show (r.listOrder.filter fun f => f.node ≠ e.node) = before ++ after
      rw [split]
      exact filter_node nodes
    rw [if_neg (by rw [show (r.pushInst inst).queueOnList = r.queueOnList from rfl, on]; decide),
      queue, found]
    dsimp only
    rcases shape with ⟨same, older⟩ | ⟨same, younger⟩
    · -- The new instruction is the oldest of its class, whose entry is put anew.
      have less : top.seqNum < e.oldestInst := by
        have other := fresh' inst.opClass old (queue' ▸ List.mem_cons_self)
        rw [same]
        omega
      rw [if_pos less]
      have off : Listed ((r.pushInst inst).erase e.node) ((r.pushInst inst).erase e.node).listOrder
          (· = inst.opClass) := by
        rw [erased]
        exact ⟨taken.queues, taken.pool, taken.sorted, taken.nodes, taken.nodes_lt, taken.oldest,
          taken.listed, taken.unlisted⟩
      obtain ⟨r', added, sound', -, pool, -⟩ := off.addToOrderList queue fun f mem' => by
        rw [erased] at mem'
        rw [same]
        refine sound.oldest_ne ?_ fresh'
        rw [split]
        exact List.mem_append.mpr ((List.mem_append.mp mem').imp_right (List.mem_cons_of_mem e))
      exact ⟨r', added, sound', pool⟩
    · -- The top of the class and its entry stay.
      rw [if_neg (by rw [same, oldest]; exact Nat.lt_irrefl _)]
      refine ⟨r.pushInst inst, rfl, ?_, rfl⟩
      refine ⟨queues, sound.pool, sound.sorted, sound.nodes, sound.nodes_lt, fun f mem' => ?_,
        fun d _ some_inst => ?_, fun d _ none_inst => ?_⟩
      · by_cases here : f.queueType = inst.opClass
        · obtain rfl := sound.entry_unique mem' mem (here.trans type.symm)
          refine ⟨not_false, top, rest, ?_, ?_⟩
          · rw [here, queue]
          · rw [same, oldest]
        · rw [others _ here]
          exact sound.oldest f mem'
      · by_cases here : d = inst.opClass
        · rw [here]
          exact ⟨on, e, mem, type, it⟩
        · rw [others d here] at some_inst
          exact sound.listed d not_false some_inst
      · have other : d ≠ inst.opClass := by
          rintro rfl
          rw [none_inst] at queue
          cases queue
        rw [others d other] at none_inst
        exact sound.unlisted d not_false none_inst

theorem Sound.behind_ne (sound : Sound r (passed ++ e :: rest)) {f : ListOrderEntry}
    (mem : f ∈ rest) :
    f.queueType ≠ e.queueType := by
  intro same
  have here : e ∈ passed ++ e :: rest := List.mem_append_right _ List.mem_cons_self
  have there : f ∈ passed ++ e :: rest :=
    List.mem_append_right _ (List.mem_cons_of_mem e mem)
  obtain rfl := sound.entry_unique there here same
  have sorted := (List.pairwise_append.mp sound.sorted).2.1
  exact absurd ((List.pairwise_cons.mp sorted).1 f mem) (Nat.lt_irrefl _)

theorem Sound.rounds_behind (sound : Sound r (passed ++ e :: rest)) {r' : ReadyLists}
    (others : ∀ d ≠ e.queueType, r'.readyInsts d = r.readyInsts d) :
    rounds rest r' = rounds rest r := by
  rw [rounds, rounds]
  congr 1
  refine List.map_congr_left fun f mem => ?_
  rw [others _ (sound.behind_ne mem)]

/-- Taking the top of a class leaves the list of the others and the next one of the class. -/
theorem Sound.popInst (sound : Sound r (passed ++ e :: rest)) :
    Sound (r.popInst e.queueType rest).2 (passed ++ (r.popInst e.queueType rest).1) ∧
      (∀ f ∈ (r.popInst e.queueType rest).1, e.oldestInst < f.oldestInst) ∧
      rounds (r.popInst e.queueType rest).1 (r.popInst e.queueType rest).2 <
        rounds (e :: rest) r ∧
      (r.popInst e.queueType rest).2.readyInsts =
        update r.readyInsts e.queueType (r.readyInsts e.queueType).tail ∧
      (r.popInst e.queueType rest).2.fuPool = r.fuPool ∧
      (r.popInst e.queueType rest).2.isSquashed = r.isSquashed := by
  obtain ⟨-, top, tail, queue, oldest⟩ :=
    sound.oldest e (List.mem_append_right _ List.mem_cons_self)
  have taken := Listed.take sound (sound.queues.pop e.queueType)
    (fun d other => update_of_ne other ..)
  have popped : update r.readyInsts e.queueType (r.readyInsts e.queueType).tail
      e.queueType = tail := by
    rw [update_self, queue, List.tail_cons]
  have behind := (List.pairwise_cons.mp (List.pairwise_append.mp sound.sorted).2.1).1
  have other (d : OpClass) (ne : d ≠ e.queueType) :
      update r.readyInsts e.queueType (r.readyInsts e.queueType).tail d =
        r.readyInsts d := update_of_ne ne ..
  have whole : rounds (e :: rest) r = tail.length + 2 + rounds rest r := by
    rw [rounds, List.map_cons, List.sum_cons, queue, List.length_cons, rounds]
  cases tail with
  | nil =>
    -- The class has no further instruction and leaves the list.
    have result : r.popInst e.queueType rest = (rest, { r with
        readyInsts := update r.readyInsts e.queueType (r.readyInsts e.queueType).tail
        readyIt := update r.readyIt e.queueType none
        queueOnList := update r.queueOnList e.queueType false }) := by
      rw [ReadyLists.popInst, queue]
      rfl
    rw [result]
    refine ⟨taken.leave popped _ fun d ne => update_of_ne ne .., behind, ?_, rfl, rfl, rfl⟩
    rw [whole, sound.rounds_behind other]
    omega
  | cons next tail =>
    -- The next instruction of the class is younger, and its entry goes further behind.
    have result : r.popInst e.queueType rest =
        (insertAt (fun f => !(f.oldestInst < next.seqNum)) ⟨r.nextNode, e.queueType, next.seqNum⟩
          rest, { r with
            readyInsts := update r.readyInsts e.queueType (r.readyInsts e.queueType).tail
            readyIt := update r.readyIt e.queueType (some r.nextNode)
            nextNode := r.nextNode + 1 }) := by
      rw [ReadyLists.popInst, queue]
      rfl
    have sorted := sound.queues.sorted e.queueType
    rw [queue] at sorted
    have younger : e.oldestInst < next.seqNum := by
      rw [← oldest]
      exact (List.pairwise_cons.mp sorted).1 next List.mem_cons_self
    have before (f : ListOrderEntry) (mem : f ∈ passed) : f.oldestInst < e.oldestInst :=
      (List.pairwise_append.mp sound.sorted).2.2 f mem e List.mem_cons_self
    -- The next instruction is not the oldest one of another class.
    have distinct (f : ListOrderEntry) (mem : f ∈ rest) : f.oldestInst ≠ next.seqNum := by
      intro same
      obtain ⟨-, first, others, queue', oldest'⟩ :=
        sound.oldest f (List.mem_append_right _ (List.mem_cons_of_mem e mem))
      have equal := sound.queues.once f.queueType e.queueType first (by rw [queue']; simp) next
        (by rw [queue]; simp) (oldest'.trans same)
      refine sound.behind_ne mem ?_
      rw [← sound.queues.class_eq f.queueType first (by rw [queue']; simp), equal]
      exact sound.queues.class_eq e.queueType next (by rw [queue]; simp)
    obtain ⟨on, -⟩ := sound.listed e.queueType not_false (by rw [queue]; exact List.cons_ne_nil _ _)
    rw [result]
    refine ⟨?_, fun f mem => ?_, ?_, rfl, rfl, rfl⟩
    · exact taken.put popped (fun f => !(f.oldestInst < next.seqNum))
        (fun f mem => (before f mem).trans younger)
        (fun f mem stop => lt_of_le_of_ne (not_lt.mp (of_decide_eq_false (by simpa using stop)))
          (distinct f mem).symm)
        (fun f mem go => by simpa using go) r.queueOnList on fun d _ => rfl
    · rcases List.mem_cons.mp ((insertAt_perm _ _ rest).mem_iff.mp mem) with rfl | old
      · exact younger
      · exact behind f old
    · have perm := (insertAt_perm (fun f => !(f.oldestInst < next.seqNum))
        ⟨r.nextNode, e.queueType, next.seqNum⟩ rest)
      rw [rounds, (perm.map _).sum_nat, List.map_cons, List.sum_cons, ← rounds,
        sound.rounds_behind other, whole]
      show (update r.readyInsts e.queueType _ e.queueType).length + 1 + _ < _
      rw [popped]
      simp only [List.length_cons]
      omega

end operations

section schedule

/-- An operation class is served by units that are all busy. -/
def Refused (pool : FUPool) (c : OpClass) : Prop :=
  c ≠ .No_OpClass ∧ pool.AllBusy c

/--
Instructions are issued the oldest first, out of those that were ready, and an older one that is
ready is passed over only when all units of its class are busy.
-/
structure InOrder (r : ReadyLists) (issued : List Issue) : Prop where
  increasing : issued.Pairwise (·.inst.seqNum < ·.inst.seqNum)
  ready : ∀ y ∈ issued, y.inst ∈ r.readyInsts y.inst.opClass ∧ r.isSquashed y.inst.seqNum = false
  passed_over : ∀ y ∈ issued, ∀ c, ∀ x ∈ r.readyInsts c, x.seqNum < y.inst.seqNum →
    r.isSquashed x.seqNum = false → (∀ z ∈ issued, z.inst ≠ x) → Refused y.asked c

/-- The circle of every class has all of its units in every round. -/
def RoundsAll (pool : FUPool) : Prop :=
  ∀ c, FUPool.Rounds (pool.fuPerCapList c).funcUnitsIdx

variable {pool : FUPool}

theorem unitFor_spec (ready : pool.Ready) (rounds : RoundsAll pool) (c : OpClass) :
    ∃ idx pool', unitFor c pool = some (idx, pool') ∧ pool'.Ready ∧ pool.Before pool' ∧
      (idx = -1 ∧ Refused pool c ∨ (idx = -2 ∨ ∃ u : Nat, idx = u ∧ pool'.unitBusy u = true)) := by
  rw [unitFor]
  by_cases needed : c ≠ .No_OpClass
  · rw [if_pos needed]
    obtain ⟨idx, pool', taken, ready', before, found⟩ := FUPool.getUnit_spec ready c
    refine ⟨idx, pool', taken, ready', before, ?_⟩
    rcases found with none_there | ⟨same, busy⟩ | given
    · exact .inr (.inl none_there)
    · exact .inl ⟨same, needed, busy (rounds c)⟩
    · exact .inr (.inr given)
  · rw [if_neg needed]
    exact ⟨-2, pool, rfl, ready, FUPool.Before.refl pool, .inr (.inl rfl)⟩

theorem execute_spec (ready : pool.Ready) (inst : ReadyInst) (asked : FUPool) {idx : Int}
    (found : idx = -2 ∨ ∃ u : Nat, idx = u ∧ pool.unitBusy u = true) :
    ∃ issue pool', execute inst asked idx pool = some (issue, pool') ∧ pool'.Ready ∧
      pool.Before pool' ∧ issue.inst = inst ∧ issue.asked = asked := by
  rcases found with rfl | ⟨u, rfl, busy⟩
  · exact ⟨_, pool, rfl, ready, FUPool.Before.refl pool, rfl, rfl⟩
  · have free : pool.freeUnitNextCycle u =
        some { pool with unitsToBeFreed := pool.unitsToBeFreed ++ [u] } := if_pos busy
    have above : (u : Int) > -1 := by omega
    have known : (u : Int) ≥ 0 := by omega
    rw [execute, if_pos above, if_pos known, Int.toNat_natCast, free]
    simp only [Option.map_some]
    split_ifs <;> exact ⟨_, _, rfl, ready, FUPool.Before.refl pool, rfl, rfl⟩

theorem RoundsAll.later {p p' : FUPool} (rounds : RoundsAll p) (before : p.Before p') :
    RoundsAll p' := by
  intro c
  rw [before.1 c]
  exact rounds c

theorem Refused.later {p p' : FUPool} (refused : Refused p c) (before : p.Before p') :
    Refused p' c :=
  ⟨refused.1, refused.2.later before⟩

theorem Sound.withPool (sound : Sound r entries) (ready : pool.Ready) :
    Sound { r with fuPool := pool } entries :=
  ⟨sound.queues, ready, sound.sorted, sound.nodes, sound.nodes_lt, sound.oldest, sound.listed,
    sound.unlisted⟩

theorem InOrder.behind {s : ReadyLists} {issued : List Issue} {inst : ReadyInst}
    {tail : List ReadyInst} (queue : r.readyInsts c = inst :: tail)
    (popped : s.readyInsts = update r.readyInsts c (r.readyInsts c).tail)
    (same : s.isSquashed = r.isSquashed) (inOrder : InOrder s issued) :
    (∀ y ∈ issued, y.inst ∈ r.readyInsts y.inst.opClass ∧ r.isSquashed y.inst.seqNum = false) ∧
      ∀ y ∈ issued, ∀ d, ∀ x ∈ r.readyInsts d, x.seqNum < y.inst.seqNum →
        r.isSquashed x.seqNum = false → x ≠ inst → (∀ z ∈ issued, z.inst ≠ x) →
        Refused y.asked d := by
  constructor
  · intro y mem
    obtain ⟨ready, live⟩ := inOrder.ready y mem
    rw [same] at live
    rw [popped, update_apply] at ready
    split_ifs at ready with here
    · rw [here]
      exact ⟨List.mem_of_mem_tail ready, live⟩
    · exact ⟨ready, live⟩
  · intro y mem d x ready older live other unissued
    refine inOrder.passed_over y mem d x ?_ older (same ▸ live) unissued
    rw [popped, update_apply]
    split_ifs with here
    · rw [here, queue] at ready
      rw [queue]
      exact (List.mem_cons.mp ready).resolve_left other
    · exact ready

theorem Sound.refused_older {passed rest : List ListOrderEntry} {e : ListOrderEntry}
    (sound : Sound r (passed ++ e :: rest)) (refused : ∀ e ∈ passed, Refused pool e.queueType)
    {d : OpClass} {x : ReadyInst} (ready : x ∈ r.readyInsts d)
    (older : x.seqNum < e.oldestInst) : Refused pool d := by
  obtain ⟨-, f, mem, type, -⟩ := sound.listed d not_false (List.ne_nil_of_mem ready)
  have first : f.oldestInst ≤ x.seqNum := sound.oldest_le mem (type ▸ ready)
  rw [← type]
  rcases List.mem_append.mp mem with before | after
  · exact refused f before
  · rcases List.mem_cons.mp after with rfl | behind
    · exact absurd first (by omega)
    · have sorted := (List.pairwise_append.mp sound.sorted).2.1
      have younger := (List.pairwise_cons.mp sorted).1 f behind
      exact absurd first (by omega)

/--
The walk issues in order, and in the end the list is that of the classes with ready instructions.

All entries that have been passed are of classes whose units are busy.
-/
theorem Sound.walk (width : Nat) (canIssue : Nat → Bool) (fuel total_issued : Nat)
    {passed ahead : List ListOrderEntry} (sound : Sound r (passed ++ ahead))
    (circles : RoundsAll r.fuPool) (refused : ∀ e ∈ passed, Refused r.fuPool e.queueType)
    (enough : rounds ahead r < fuel) :
    ∃ r' issued, walk width canIssue fuel total_issued passed ahead r = .ok (r', issued) ∧
      Sound r' r'.listOrder ∧ r.fuPool.Before r'.fuPool ∧ InOrder r issued ∧
      ∀ y ∈ issued, ∃ e ∈ ahead, e.oldestInst ≤ y.inst.seqNum := by
  -- Every round uses one unit of the fuel and takes an instruction or passes an entry.
  induction fuel generalizing r total_issued passed ahead with
  | zero => exact absurd enough (Nat.not_lt_zero _)
  | succ fuel ih =>
    have nothing : InOrder r [] := ⟨List.Pairwise.nil, fun y never => absurd never List.not_mem_nil,
      fun y never => absurd never List.not_mem_nil⟩
    have stop (r' : ReadyLists) (same : r' = { r with listOrder := passed ++ ahead }) :
        Sound r' r'.listOrder := by
      rw [same]
      exact ⟨sound.queues, sound.pool, sound.sorted, sound.nodes, sound.nodes_lt, sound.oldest,
        sound.listed, sound.unlisted⟩
    cases ahead with
    | nil =>
      rw [ReadyLists.walk]
      exact ⟨_, [], rfl, stop _ (by rw [List.append_nil]), FUPool.Before.refl _, nothing,
        fun y never => absurd never List.not_mem_nil⟩
    | cons e rest =>
      rw [ReadyLists.walk]
      by_cases going : total_issued < width ∧ canIssue total_issued = true
      · rw [if_pos going]
        obtain ⟨-, inst, tail, queue, oldest⟩ :=
          sound.oldest e (List.mem_append_right _ List.mem_cons_self)
        rw [queue]
        dsimp only
        rw [if_neg (not_not.mpr oldest)]
        by_cases squashed : r.isSquashed inst.seqNum = true
        · -- A squashed instruction only leaves its queue.
          rw [if_pos squashed]
          obtain ⟨sound', younger, less, popped, pool, same⟩ := sound.popInst
          obtain ⟨r', issued, walked, sound'', before, inOrder, bound⟩ :=
            ih total_issued sound' (pool ▸ circles) (pool ▸ refused) (by omega)
          obtain ⟨ready, busy⟩ := inOrder.behind queue popped same
          refine ⟨r', issued, walked, sound'', pool ▸ before,
            ⟨inOrder.increasing, ready, fun y mem d x here older live unissued => ?_⟩,
            fun y mem => ?_⟩
          · refine busy y mem d x here older live ?_ unissued
            rintro rfl
            rw [squashed] at live
            cases live
          · obtain ⟨f, mem', le⟩ := bound y mem
            exact ⟨e, List.mem_cons_self, ((younger f mem').trans_le le).le⟩
        · rw [if_neg squashed]
          obtain ⟨idx, pool, taken, ready, before, found⟩ :=
            unitFor_spec sound.pool circles e.queueType
          rw [taken]
          dsimp only
          rcases found with ⟨rfl, busy⟩ | given
          · -- The class is refused, and its entry is passed.
            rw [if_neg (by decide)]
            have sound' : Sound { r with fuPool := pool } ((passed ++ [e]) ++ rest) := by
              rw [List.append_assoc]
              exact sound.withPool ready
            have less : rounds rest { r with fuPool := pool } < fuel := by
              have whole : rounds (e :: rest) r =
                  (r.readyInsts e.queueType).length + 1 + rounds rest r := by
                rw [rounds, List.map_cons, List.sum_cons, rounds]
              have same : rounds rest { r with fuPool := pool } = rounds rest r := rfl
              omega
            obtain ⟨r', issued, walked, sound'', before', inOrder, bound⟩ :=
              ih total_issued sound' (circles.later before) (fun f mem => by
                rcases List.mem_append.mp mem with old | new
                · exact (refused f old).later before
                · rw [List.mem_singleton.mp new]
                  exact busy.later before) less
            refine ⟨r', issued, walked, sound'', before.trans before',
              ⟨inOrder.increasing, inOrder.ready, inOrder.passed_over⟩, fun y mem => ?_⟩
            obtain ⟨f, mem', le⟩ := bound y mem
            exact ⟨f, List.mem_cons_of_mem e mem', le⟩
          · -- The instruction is issued, and the next one of its class goes further behind.
            have issues : idx = -2 ∨ idx ≠ -1 := by
              rcases given with rfl | ⟨u, rfl, -⟩
              · exact .inl rfl
              · exact .inr (by omega)
            obtain ⟨issue, pool', executed, ready', before', inst_eq, asked_eq⟩ :=
              execute_spec ready inst r.fuPool given
            rw [if_pos issues, executed]
            dsimp only
            obtain ⟨sound', younger, less, popped, pool_eq, same⟩ :=
              (sound.withPool ready').popInst
            have earlier : r.fuPool.Before pool' := before.trans before'
            obtain ⟨r', issued, walked, sound'', later, inOrder, bound⟩ :=
              ih (total_issued + 1) sound' (pool_eq ▸ circles.later earlier)
                (fun f mem => pool_eq ▸ (refused f mem).later earlier)
                (lt_of_lt_of_le less (Nat.le_of_lt_succ enough))
            rw [pool_eq] at later
            obtain ⟨ready'', busy⟩ := inOrder.behind (r := r) queue popped same
            have behind (y : Issue) (mem : y ∈ issued) : inst.seqNum < y.inst.seqNum := by
              obtain ⟨f, mem', le⟩ := bound y mem
              rw [oldest]
              exact (younger f mem').trans_le le
            refine ⟨r', issue :: issued, by rw [walked]; rfl, sound'',
              earlier.trans later, ⟨?_, fun y mem => ?_, fun y mem d x here older live
                unissued => ?_⟩, fun y mem => ?_⟩
            · rw [List.pairwise_cons, inst_eq]
              exact ⟨behind, inOrder.increasing⟩
            · rcases List.mem_cons.mp mem with rfl | mem
              · rw [inst_eq]
                have here : inst ∈ r.readyInsts e.queueType := by
                  rw [queue]
                  exact List.mem_cons_self
                rw [sound.queues.class_eq e.queueType inst here]
                exact ⟨here, Bool.not_eq_true _ ▸ squashed⟩
              · exact ready'' y mem
            · rcases List.mem_cons.mp mem with rfl | mem
              · rw [asked_eq]
                rw [inst_eq, oldest] at older
                exact sound.refused_older refused here older
              · refine busy y mem d x here older live (fun same => ?_)
                  fun z mem' => unissued z (List.mem_cons_of_mem _ mem')
                exact unissued issue List.mem_cons_self (inst_eq.trans same.symm)
            · refine ⟨e, List.mem_cons_self, ?_⟩
              rcases List.mem_cons.mp mem with rfl | mem
              · rw [inst_eq, oldest]
              · rw [← oldest]
                exact (behind y mem).le
      · rw [if_neg going]
        exact ⟨_, [], rfl, stop _ rfl, FUPool.Before.refl _, nothing,
          fun y never => absurd never List.not_mem_nil⟩

theorem Sound.scheduleReadyInsts (sound : Sound r r.listOrder) (circles : RoundsAll r.fuPool)
    (width : Nat) (canIssue : Nat → Bool) :
    ∃ r' issued, r.scheduleReadyInsts width canIssue = .ok (r', issued) ∧ Sound r' r'.listOrder ∧
      r.fuPool.Before r'.fuPool ∧ InOrder r issued := by
  obtain ⟨r', issued, walked, sound', before, inOrder, -⟩ := Sound.walk width canIssue _ 0
    (show Sound r ([] ++ r.listOrder) from sound) circles
    (fun e never => absurd never List.not_mem_nil) (Nat.lt_succ_self _)
  exact ⟨r', issued, walked, sound', before, inOrder⟩

end schedule

section runs

/--
The list has exactly the classes with ready instructions, each once, sorted by the numbers of their
oldest ready instructions.
-/
structure Ordered (r : ReadyLists) : Prop where
  classes_once : (r.listOrder.map ListOrderEntry.queueType).Nodup
  classes : ∀ c, c ∈ r.listOrder.map ListOrderEntry.queueType ↔ r.readyInsts c ≠ []
  sorted : r.listOrder.Pairwise (·.oldestInst < ·.oldestInst)
  oldest : ∀ e ∈ r.listOrder, (∃ x ∈ r.readyInsts e.queueType, x.seqNum = e.oldestInst) ∧
    ∀ x ∈ r.readyInsts e.queueType, e.oldestInst ≤ x.seqNum

theorem Sound.ordered (sound : Sound r r.listOrder) : Ordered r := by
  refine ⟨?_, fun c => ⟨fun mem => ?_, fun some_inst => ?_⟩, sound.sorted, fun e mem => ⟨?_, ?_⟩⟩
  · have nodup : r.listOrder.Nodup := List.Nodup.of_map _ sound.nodes
    exact List.Nodup.map_on (fun e mem f mem' => sound.entry_unique mem mem') nodup
  · obtain ⟨e, mem', rfl⟩ := List.mem_map.mp mem
    obtain ⟨-, top, rest, queue, -⟩ := sound.oldest e mem'
    rw [queue]
    exact List.cons_ne_nil _ _
  · obtain ⟨-, e, mem, type, -⟩ := sound.listed c not_false some_inst
    exact List.mem_map.mpr ⟨e, mem, type⟩
  · obtain ⟨-, top, rest, queue, oldest⟩ := sound.oldest e mem
    exact ⟨top, by rw [queue]; exact List.mem_cons_self, oldest⟩
  · exact fun x ready => sound.oldest_le mem ready

/-- A new instruction queue without ready instructions. -/
def create (descs : List FUDesc) : ReadyLists where
  fuPool := FUPool.create descs

theorem Sound.create (descs : List FUDesc) : Sound (create descs) (create descs).listOrder :=
  ⟨⟨fun _ => List.Pairwise.nil, fun _ _ never => absurd never List.not_mem_nil,
      fun _ _ _ never => absurd never List.not_mem_nil⟩,
    FUPool.ready_create descs, List.Pairwise.nil, List.nodup_nil,
    fun _ never => absurd never List.not_mem_nil, fun _ never => absurd never List.not_mem_nil,
    fun _ _ some_inst => absurd rfl some_inst, fun _ _ _ => rfl⟩

/-- Every ready instruction is queued once. -/
def QueuesOnce (r : ReadyLists) : Op → Prop
  | .addIfReady inst | .addReadyMemInst inst => ¬r.Queued inst.seqNum
  | _ => True

/-- What a cycle issues is in order. -/
def IssuesInOrder (r : ReadyLists) : Op → Prop
  | .scheduleReadyInsts width canIssue =>
    ∀ r' issued, r.scheduleReadyInsts width canIssue = .ok (r', issued) → InOrder r issued
  | _ => True

theorem Sound.step (sound : Sound r r.listOrder) (circles : RoundsAll r.fuPool) (op : Op)
    (once : QueuesOnce r op) : ∃ r', step r op = some r' ∧ Sound r' r'.listOrder ∧
      RoundsAll r'.fuPool ∧ IssuesInOrder r op := by
  cases op with
  | addIfReady inst =>
    rw [ReadyLists.step, ReadyLists.addIfReady]
    split_ifs
    · obtain ⟨r', added, sound', pool⟩ := sound.addReady once
      exact ⟨r', by rw [added]; rfl, sound', pool ▸ circles, trivial⟩
    · exact ⟨r, rfl, sound, circles, trivial⟩
  | addReadyMemInst inst =>
    obtain ⟨r', added, sound', pool⟩ := sound.addReady once
    exact ⟨r', by rw [ReadyLists.step, ReadyLists.addReadyMemInst, added]; rfl, sound',
      pool ▸ circles, trivial⟩
  | squash which =>
    exact ⟨_, rfl, ⟨sound.queues, sound.pool, sound.sorted, sound.nodes, sound.nodes_lt,
      sound.oldest, sound.listed, sound.unlisted⟩, circles, trivial⟩
  | scheduleReadyInsts width canIssue =>
    obtain ⟨r', issued, scheduled, sound', before, inOrder⟩ :=
      sound.scheduleReadyInsts circles width canIssue
    refine ⟨r', by rw [ReadyLists.step, scheduled]; rfl, sound', circles.later before, ?_⟩
    intro r'' issued' scheduled'
    obtain ⟨rfl, rfl⟩ := Prod.mk.inj (Except.ok.inj (scheduled.symm.trans scheduled'))
    exact inOrder
  | units unitBusy unitsToBeFreed =>
    exact ⟨_, rfl, sound.withPool sound.pool, circles, trivial⟩

/--
The list of classes stays in step with the ready instructions, no assertion fails, and every cycle
issues in order, when the search for a unit passes all units of a class.
-/
theorem ready_lists_in_order (descs : List FUDesc)
    (circles : ∀ c, FUPool.Rounds (FUPool.unitsOf c 0 descs)) (ops : List Op)
    (once : Machine.Permits step QueuesOnce (create descs) ops) :
    (Machine.run step (create descs) ops).isSome ∧
      Machine.Always step Ordered (create descs) ops ∧
      Machine.Meets step IssuesInOrder (create descs) ops := by
  refine Machine.ok_of_permits
    (I := fun r => Sound r r.listOrder ∧ RoundsAll r.fuPool) (fun r inv => inv.1.ordered)
    (fun r op inv permitted => ?_) ⟨Sound.create descs, circles⟩ once
  obtain ⟨r', taken, sound, circles', inOrder⟩ := inv.1.step inv.2 op permitted
  exact ⟨r', taken, ⟨sound, circles'⟩, inOrder⟩

theorem not_queued {seqNum : Nat}
    (none_there : ∀ c, (r.readyInsts c).all fun x => x.seqNum ≠ seqNum) : ¬r.Queued seqNum := by
  rintro ⟨c, x, mem, same⟩
  exact absurd same (of_decide_eq_true (List.all_eq_true.mp (none_there c) x mem))

/-- A ready instruction that is no reference to memory. -/
def readyInst (seqNum : Nat) (opClass : OpClass) : ReadyInst := { seqNum, opClass }

/-- Two units that add integers and floats. -/
def adderDescs : List FUDesc := [⟨[⟨.IntAlu, 1, 1⟩, ⟨.FloatAdd, 2, 1⟩], 2⟩]

/-- Three ready instructions, one of which is squashed before they are issued. -/
def threeOps : List Op :=
  [.addIfReady (readyInst 4 .IntAlu), .addIfReady (readyInst 2 .FloatAdd),
    .addReadyMemInst (readyInst 1 .IntAlu), .squash (· = 4), .scheduleReadyInsts 8 fun _ => true]

/-- The theorem at two units and three instructions. -/
theorem three_ops_in_order :
    (Machine.run step (create adderDescs) threeOps).isSome ∧
      Machine.Always step Ordered (create adderDescs) threeOps ∧
      Machine.Meets step IssuesInOrder (create adderDescs) threeOps := by
  refine ready_lists_in_order adderDescs (fun c => FUPool.rounds_of_nodup ?_) threeOps ?_
  · cases c <;> decide
  · refine ⟨not_queued fun c => by cases c <;> decide, fun r taken => ?_⟩
    obtain rfl := Option.some.inj taken
    refine ⟨not_queued fun c => by cases c <;> decide, fun r taken => ?_⟩
    obtain rfl := Option.some.inj taken
    refine ⟨not_queued fun c => by cases c <;> decide, fun _ _ => ?_⟩
    exact ⟨trivial, fun _ _ => ⟨trivial, fun _ _ => trivial⟩⟩

/-- Two units that list the addition of integers twice, and one more unit for it. -/
def twiceDescs : List FUDesc :=
  [⟨[⟨.IntAlu, 1, 1⟩, ⟨.IntAlu, 1, 1⟩, ⟨.FloatAdd, 1, 1⟩], 2⟩, ⟨[⟨.IntAlu, 1, 1⟩], 1⟩]

/--
The search for a unit ends where its first one comes again, so that the third instruction is passed
over though a unit of its class is free.
-/
theorem free_unit_passed_over : ¬∀ (descs : List FUDesc) (ops : List Op),
    Machine.Permits step QueuesOnce (create descs) ops →
      (Machine.run step (create descs) ops).isSome ∧
        Machine.Always step Ordered (create descs) ops ∧
        Machine.Meets step IssuesInOrder (create descs) ops := by
  intro claim
  obtain ⟨-, -, meets⟩ := claim twiceDescs [.addIfReady (readyInst 1 .FloatAdd),
    .addIfReady (readyInst 2 .FloatAdd), .addIfReady (readyInst 3 .IntAlu),
    .addReadyMemInst (readyInst 4 .MemRead), .scheduleReadyInsts 8 fun _ => true] (by
      refine ⟨not_queued fun c => by cases c <;> decide, fun r taken => ?_⟩
      obtain rfl := Option.some.inj taken
      refine ⟨not_queued fun c => by cases c <;> decide, fun r taken => ?_⟩
      obtain rfl := Option.some.inj taken
      refine ⟨not_queued fun c => by cases c <;> decide, fun r taken => ?_⟩
      obtain rfl := Option.some.inj taken
      exact ⟨not_queued fun c => by cases c <;> decide, fun _ _ => ⟨trivial, fun _ _ => trivial⟩⟩)
  -- The units 0 and 1 have been given to the first two instructions, and unit 2 is free.
  have inOrder := (((((meets _ rfl).2 _ rfl).2 _ rfl).2 _ rfl).2 _ rfl).1 _ _ rfl
  have refused := inOrder.passed_over _ (.tail _ (.tail _ (.head _))) .IntAlu
    (readyInst 3 .IntAlu) (.head _) (by decide) rfl (by decide)
  exact absurd (refused.2.2 2 (by decide)) (by decide)

end runs

end ReadyLists

end GemDroid

import GemDroid.Ruby.MIExampleSystem

/-!
Where each party of the MI example protocol can stand, and what is in its queues while it stands
there.
-/

namespace GemDroid

open Function (update update_of_ne update_self)

namespace MIExample

/-- How the directory sees a cache: it owns the block, or it must hand it to another cache. -/
inductive Standing (Cache : Type) where
  | owner (invalidated : Bool)
  | forwarded (r : Cache)

/-- What a cache is about. -/
inductive Phase (Cache : Type) where
  | idle
  /-- Its request is under way. -/
  | asked
  /-- The directory has seen its request. -/
  | awaits (st : Standing Cache)
  /-- The data is under way. -/
  | arriving (st : Standing Cache)
  | holding (st : Standing Cache)
  /-- Its write-back is under way. -/
  | evicting (st : Standing Cache)
  /-- Its write-back was turned down before it saw the forwarded request. -/
  | surrendered (r : Cache)
  /-- Its write-back was accepted, and waits for the memory. -/
  | acked (invalidated : Bool)
  /-- The answer to its write-back is under way. -/
  | acking (invalidated : Bool)
  /-- It gave the block away, and its write-back is under way. -/
  | refused (stale : DataBlock)
  /-- It gave the block away, and the answer to its write-back is under way. -/
  | refusing

variable {Cache Dma : Type}

/-- Invalidations of the directory. -/
def invalidations (invalidated : Bool) : List (ForwardMsg Cache) :=
  if invalidated then [{ type := .INV, requestor := none }] else []

/-- What the directory forwarded to a cache. -/
def Standing.forward : Standing Cache → List (ForwardMsg Cache)
  | .owner invalidated => invalidations invalidated
  | .forwarded r => [{ type := .GETX, requestor := some r }]

namespace Phase

/-- The directory takes the cache for the owner. -/
def Owns : Phase Cache → Prop
  | .awaits (.owner _) | .arriving (.owner _) | .holding (.owner _) | .evicting (.owner _) => True
  | _ => False

/-- The cache, or the data under way to it, is the block. -/
def Holds : Phase Cache → Prop
  | .arriving _ | .holding _ | .evicting _ | .surrendered _ => True
  | _ => False

/-- The cache to which the block must be handed. -/
def next : Phase Cache → Option Cache
  | .awaits (.forwarded r) | .arriving (.forwarded r) | .holding (.forwarded r)
  | .evicting (.forwarded r) | .surrendered r => some r
  | _ => none

/-- The owner has an invalidation before it. -/
def Invalidated : Phase Cache → Prop
  | .awaits (.owner true) | .arriving (.owner true) | .holding (.owner true)
  | .evicting (.owner true) => True
  | _ => False

def Awaits : Phase Cache → Prop
  | .awaits _ => True
  | _ => False

def Acked : Phase Cache → Prop
  | .acked _ => True
  | _ => False

theorem Awaits.exists {p : Phase Cache} (awaits : p.Awaits) : ∃ st, p = .awaits st := by
  cases p <;> first | exact ⟨_, rfl⟩ | exact absurd awaits id

theorem Acked.exists {p : Phase Cache} (acked : p.Acked) :
    ∃ invalidated, p = .acked invalidated := by
  cases p <;> first | exact ⟨_, rfl⟩ | exact absurd acked id

/-- What the directory has yet to see of the cache. -/
def requests (c : Cache) (blk : DataBlock) : Phase Cache → List (RequestMsg Cache)
  | .asked => [{ type := .GETX, requestor := c }]
  | .evicting _ => [{ type := .PUTX, requestor := c, dataBlk := blk }]
  | .refused stale => [{ type := .PUTX, requestor := c, dataBlk := stale }]
  | _ => []

/-- What the cache has yet to see of the directory. -/
def forward (c : Cache) : Phase Cache → List (ForwardMsg Cache)
  | .awaits st | .arriving st | .holding st | .evicting st => st.forward
  | .surrendered r =>
    [{ type := .GETX, requestor := some r }, { type := .WB_NACK, requestor := some c }]
  | .acked invalidated => invalidations invalidated
  | .acking invalidated =>
    invalidations invalidated ++ [{ type := .WB_ACK, requestor := some c }]
  | .refusing => [{ type := .WB_NACK, requestor := some c }]
  | _ => []

/-- The data that is under way to the cache. -/
def responses (blk : DataBlock) : Phase Cache → List ResponseMsg
  | .arriving _ => [{ dataBlk := blk }]
  | _ => []

end Phase

/-- The state in which a cache waits for the data. -/
def Access.waits : Access → L1Cache.State
  | .store .. => .IM
  | _ => .IS

/-- The cache waits for data on behalf of its processor. -/
def Waiting (m : L1Cache.Machine) : Prop :=
  ∃ entry tbe access, m = { entry := some entry, tbe := some tbe, request := some access } ∧
    tbe.tbeState = access.waits

/-- The cache has no entry, and a TBE in a state. -/
def Leaving (state : L1Cache.State) (m : L1Cache.Machine) : Prop :=
  ∃ tbe request, m = { entry := none, tbe := some tbe, request } ∧ tbe.tbeState = state

/-- The cache machine in each phase. -/
def Phase.Machine (blk : DataBlock) : Phase Cache → L1Cache.Machine → Prop
  | .idle, m => m.tbe = none ∧ ∀ entry, m.entry = some entry → entry.cacheState = .I
  | .asked, m | .awaits _, m | .arriving _, m => Waiting m
  | .holding _, m =>
    ∃ request, m = { entry := some { cacheState := .M, dataBlk := blk }, tbe := none, request }
  | .evicting _, m | .surrendered _, m =>
    ∃ request, m = { entry := none, tbe := some { tbeState := .MI, dataBlk := blk }, request }
  | .acked _, m | .acking _, m => Leaving .MI m
  | .refused _, m | .refusing, m => Leaving .II m

/-- A cache with its queues. -/
structure Station (Cache : Type) where
  machine : L1Cache.Machine
  requests : List (RequestMsg Cache)
  forward : List (ForwardMsg Cache)
  responses : List ResponseMsg

/-- A cache of the system with its queues. -/
def System.station (s : System Cache Dma) (c : Cache) : Station Cache :=
  ⟨s.l1 c, s.requests c, s.forward c, s.responses c⟩

/-- The cache and its queues are as the phase has them. -/
structure Phase.Fits (c : Cache) (blk : DataBlock) (p : Phase Cache) (station : Station Cache) :
    Prop where
  machine : p.Machine blk station.machine
  requests : station.requests = p.requests c blk
  forward : station.forward = p.forward c
  responses : station.responses = p.responses blk

variable {c : Cache} {blk blk' : DataBlock} {p : Phase Cache} {phase : Cache → Phase Cache}
  {s s' : System Cache Dma}

theorem Phase.Fits.of_not_holds {station : Station Cache} (fits : p.Fits c blk station)
    (none' : ¬p.Holds) :
    p.Fits c blk' station := by
  -- The block is only named in the phases that hold it.
  obtain ⟨machine, requests, forward, responses⟩ := fits
  cases p <;> first | exact absurd trivial none' | exact ⟨machine, requests, forward, responses⟩

theorem Phase.Machine.busy {m : L1Cache.Machine} (fits : p.Machine blk m) (moving : p ≠ .idle)
    (not_holding : ∀ st, p ≠ .holding st) :
    m.getState = .IS ∨ m.getState = .IM ∨ m.getState = .MI ∨ m.getState = .II := by
  cases p with
  | idle => exact absurd rfl moving
  | holding st => exact absurd rfl (not_holding st)
  | asked | awaits st | arriving st =>
    obtain ⟨entry, tbe, access, rfl, state⟩ := fits
    cases access <;> simp [L1Cache.Machine.getState, state, Access.waits]
  | evicting st | surrendered r =>
    obtain ⟨request, rfl⟩ := fits
    simp [L1Cache.Machine.getState]
  | acked invalidated | acking invalidated | refused stale | refusing =>
    obtain ⟨tbe, request, rfl, state⟩ := fits
    simp [L1Cache.Machine.getState, state]

theorem Phase.Machine.idle {m : L1Cache.Machine}
    (fits : (Phase.idle : Phase Cache).Machine blk m) : m.tbe = none ∧ m.getState = .I := by
  obtain ⟨tbe, entries⟩ := fits
  cases entry : m.entry with
  | none => simp [L1Cache.Machine.getState, tbe, entry]
  | some e => simp [L1Cache.Machine.getState, tbe, entry, entries e entry]

theorem Phase.Machine.empty (request : Option Access) :
    (Phase.idle : Phase Cache).Machine blk { entry := none, tbe := none, request } := by
  refine ⟨rfl, ?_⟩
  intro entry present
  cases present

/-- Where the directory stands, given the phases of the caches. -/
inductive Settled (phase : Cache → Phase Cache) (blk : DataBlock)
    (dir : Directory.Machine Cache Dma) (mem : List (MemoryMsg Cache)) : Prop where
  | I (free : ∀ c, ¬(phase c).Holds)
    (dir_eq : dir = { directoryState := .I, dataBlk := blk }) (mem_eq : mem = [])
  | M (o : Cache) (dataBlk : DataBlock) (held : ∃ c, (phase c).Holds)
    (dir_eq : dir = { directoryState := .M, dataBlk, owner := {o} }) (mem_eq : mem = [])
  | IM (o : Cache) (free : ∀ c, ¬(phase c).Holds) (awaits : (phase o).Awaits)
    (first : ∀ c, (phase c).next ≠ some o)
    (dir_eq : dir = { directoryState := .IM, dataBlk := blk, owner := {o} })
    (mem_eq : mem = [{ type := .MEMORY_READ, originalRequestor := some o, dataBlk := blk }])
  | MI (c : Cache) (dataBlk : DataBlock) (tbe : Directory.TBE Dma)
    (free : ∀ c, ¬(phase c).Holds) (acked : (phase c).Acked)
    (dir_eq : dir = { directoryState := .MI, dataBlk, tbe := some tbe })
    (tbe_eq : tbe.tbeState = .MI ∧ tbe.dataBlk = blk)
    (mem_eq : ∃ data, mem = [{ type := .MEMORY_WB, originalRequestor := some c, dataBlk := data }])
  | ID (d : Dma) (tbe : Directory.TBE Dma) (free : ∀ c, ¬(phase c).Holds)
    (dir_eq : dir = { directoryState := .ID, dataBlk := blk, tbe := some tbe })
    (tbe_eq : tbe.tbeState = .ID ∧ tbe.dmaRequestor = some d)
    (mem_eq : mem = [{ type := .MEMORY_READ, dataBlk := blk }])
  | ID_W (d : Dma) (tbe : Directory.TBE Dma) (free : ∀ c, ¬(phase c).Holds)
    (dir_eq : dir = { directoryState := .ID_W, dataBlk := blk, tbe := some tbe })
    (tbe_eq : tbe.tbeState = .ID_W ∧ tbe.dmaRequestor = some d)
    (mem_eq : ∃ data, mem = [{ type := .MEMORY_WB, dataBlk := data }])
  | recalling (o : Cache) (d : Dma) (state : Directory.State) (dataBlk : DataBlock)
    (tbe : Directory.TBE Dma) (held : ∃ c, (phase c).Holds)
    (state_eq : state = .M_DRD ∨ state = .M_DWR)
    (dir_eq : dir = { directoryState := state, dataBlk, owner := {o}, tbe := some tbe })
    (tbe_eq : tbe.tbeState = state ∧ tbe.dmaRequestor = some d) (mem_eq : mem = [])
  | recalled (c : Cache) (d : Dma) (state : Directory.State) (tbe : Directory.TBE Dma)
    (free : ∀ c, ¬(phase c).Holds) (acked : (phase c).Acked)
    (state_eq : state = .M_DRDI ∨ state = .M_DWRI)
    (dir_eq : dir = { directoryState := state, dataBlk := blk, tbe := some tbe })
    (tbe_eq : tbe.tbeState = state ∧ tbe.dmaRequestor = some d)
    (mem_eq : ∃ data, mem = [{ type := .MEMORY_WB, originalRequestor := some c, dataBlk := data }])

/-- The phases of the caches fit the system and each other. -/
structure Consistent (phase : Cache → Phase Cache) (blk : DataBlock) (s : System Cache Dma) :
    Prop where
  fits : ∀ c, (phase c).Fits c blk (s.station c)
  owner : ∀ c, c ∈ s.dir.owner ↔ (phase c).Owns
  one : ∀ c c', (phase c).Holds → (phase c').Holds → c = c'
  next : ∀ c r, (phase c).next = some r → (phase r).Awaits
  nextOne : ∀ c c' r, (phase c).next = some r → (phase c').next = some r → c = c'
  invalidated : ∀ c, (phase c).Invalidated →
    s.dir.directoryState = .M_DRD ∨ s.dir.directoryState = .M_DWR
  settled : Settled phase blk s.dir s.memQueue

/-- A phase that the rest of the system takes for another one. -/
structure Phase.Alike (p p' : Phase Cache) : Prop where
  owns : p'.Owns ↔ p.Owns
  holds : p'.Holds ↔ p.Holds
  next : p'.next = p.next
  invalidated : p'.Invalidated → p.Invalidated
  awaits : p.Awaits → p'.Awaits
  acked : p.Acked → p'.Acked

theorem Phase.Alike.refl (p : Phase Cache) : p.Alike p :=
  ⟨Iff.rfl, Iff.rfl, rfl, id, id, id⟩

theorem Phase.alike_of_standing (st : Standing Cache) :
    (arriving st).Alike (.holding st) ∧ (holding st).Alike (.evicting st) := by
  cases st with
  | owner invalidated =>
    cases invalidated <;> exact ⟨⟨Iff.rfl, Iff.rfl, rfl, id, id, id⟩,
      ⟨Iff.rfl, Iff.rfl, rfl, id, id, id⟩⟩
  | forwarded r =>
    exact ⟨⟨Iff.rfl, Iff.rfl, rfl, id, id, id⟩, ⟨Iff.rfl, Iff.rfl, rfl, id, id, id⟩⟩

/-- The directory stands as before when each cache passes for what it was. -/
theorem Settled.of_alike {phase' : Cache → Phase Cache} {dir : Directory.Machine Cache Dma}
    {mem : List (MemoryMsg Cache)} (settled : Settled phase blk dir mem)
    (alike : ∀ x, (phase x).Alike (phase' x))
    (data : blk' = blk ∨ ∃ c, (phase c).Holds) : Settled phase' blk' dir mem := by
  -- Where the directory names the data nobody holds the block, so that it did not change.
  have stays : (∀ c, ¬(phase c).Holds) → blk' = blk := by
    intro free
    obtain same | ⟨c, held⟩ := data
    · exact same
    · exact absurd held (free c)
  have free' : (∀ c, ¬(phase c).Holds) → ∀ c, ¬(phase' c).Holds :=
    fun free c held => free c ((alike c).holds.mp held)
  have held' : (∃ c, (phase c).Holds) → ∃ c, (phase' c).Holds :=
    fun ⟨c, held⟩ => ⟨c, (alike c).holds.mpr held⟩
  cases settled with
  | I free dir_eq mem_eq =>
    obtain rfl := stays free
    exact .I (free' free) dir_eq mem_eq
  | M o dataBlk held dir_eq mem_eq => exact .M o dataBlk (held' held) dir_eq mem_eq
  | IM o free awaits first dir_eq mem_eq =>
    obtain rfl := stays free
    exact .IM o (free' free) ((alike o).awaits awaits) (fun c => (alike c).next ▸ first c) dir_eq
      mem_eq
  | MI c dataBlk tbe free acked dir_eq tbe_eq mem_eq =>
    obtain rfl := stays free
    exact .MI c dataBlk tbe (free' free) ((alike c).acked acked) dir_eq tbe_eq mem_eq
  | ID d tbe free dir_eq tbe_eq mem_eq =>
    obtain rfl := stays free
    exact .ID d tbe (free' free) dir_eq tbe_eq mem_eq
  | ID_W d tbe free dir_eq tbe_eq mem_eq =>
    obtain rfl := stays free
    exact .ID_W d tbe (free' free) dir_eq tbe_eq mem_eq
  | recalling o d state dataBlk tbe held state_eq dir_eq tbe_eq mem_eq =>
    exact .recalling o d state dataBlk tbe (held' held) state_eq dir_eq tbe_eq mem_eq
  | recalled c d state tbe free acked state_eq dir_eq tbe_eq mem_eq =>
    obtain rfl := stays free
    exact .recalled c d state tbe (free' free) ((alike c).acked acked) state_eq dir_eq tbe_eq mem_eq

theorem Phase.not_owns_of_next {r : Cache} (next : p.next = some r) :
    ¬p.Owns := by
  -- The owner has nobody to hand it to.
  intro owns
  cases p with
  | awaits st | arriving st | holding st | evicting st =>
    cases st with
    | owner invalidated => exact absurd next (by simp [Phase.next])
    | forwarded r => exact owns
  | _ => exact owns

theorem Phase.owns_of_invalidated (invalidated : p.Invalidated) : p.Owns := by
  cases p with
  | awaits st | arriving st | holding st | evicting st =>
    cases st with
    | owner invalidated => trivial
    | forwarded r => exact invalidated
  | _ => exact invalidated

theorem Phase.not_awaits_of_holds (held : p.Holds) : ¬p.Awaits ∧ ¬p.Acked := by
  cases p <;> first | exact absurd held id | exact ⟨id, id⟩

/-- A cache of which the directory has changed its mind. -/
def Phase.restand (st : Standing Cache) : Phase Cache → Phase Cache
  | .awaits _ => .awaits st
  | .arriving _ => .arriving st
  | .holding _ => .holding st
  | .evicting _ => .evicting st
  | p => p

theorem Phase.restand_holds (p : Phase Cache) (st : Standing Cache) :
    ((p.restand st).Holds ↔ p.Holds) ∧ ((p.restand st).Awaits ↔ p.Awaits) := by
  cases p <;> exact ⟨Iff.rfl, Iff.rfl⟩

theorem Phase.restand_forwarded (owns : p.Owns) (r : Cache) :
    (p.restand (.forwarded r)).next = some r ∧ ¬(p.restand (.forwarded r)).Owns ∧
      ¬(p.restand (.forwarded r)).Invalidated := by
  cases p with
  | awaits st | arriving st | holding st | evicting st => exact ⟨rfl, id, id⟩
  | _ => exact absurd owns id

theorem Phase.next_eq_none_of_owns (owns : p.Owns) : p.next = none := by
  cases next : p.next with
  | none => rfl
  | some r => exact absurd owns (Phase.not_owns_of_next next)

theorem Phase.restand_owner (owns : p.Owns) (invalidated : Bool) :
    (p.restand (.owner invalidated)).Owns ∧ (p.restand (.owner invalidated)).next = none := by
  cases p with
  | awaits st | arriving st | holding st | evicting st => exact ⟨trivial, rfl⟩
  | _ => exact absurd owns id

theorem Phase.Fits.restand {station : Station Cache} (fits : p.Fits c blk station) (owns : p.Owns)
    (quiet : ¬p.Invalidated) {t : Standing Cache} {msg : ForwardMsg Cache}
    (told : t.forward = [msg]) :
    (p.restand t).Fits c blk { station with forward := station.forward ++ [msg] } := by
  -- Nothing was in the queue, so that the message is all there is.
  obtain ⟨machine, requests, forward, responses⟩ := fits
  cases p with
  | awaits st' | arriving st' | holding st' | evicting st' =>
    cases st' with
    | forwarded r => exact absurd owns id
    | owner invalidated =>
      cases invalidated with
      | true => exact absurd trivial quiet
      | false =>
        refine ⟨machine, requests, ?_, responses⟩
        rw [forward]
        exact told.symm
  | _ => exact absurd owns id

variable [DecidableEq Cache]

/-- A cache moves on by itself, and passes for what it was. -/
theorem Consistent.move (inv : Consistent phase blk s) {p' : Phase Cache}
    (others : ∀ x, x ≠ c → s'.station x = s.station x) (dir : s'.dir = s.dir)
    (mem : s'.memQueue = s.memQueue) (fits : p'.Fits c blk' (s'.station c))
    (alike : (phase c).Alike p') (data : blk' = blk ∨ (phase c).Holds) :
    Consistent (update phase c p') blk' s' := by
  -- Every cache passes for what it was, so nothing that is said of two parties changes.
  have all : ∀ x, (phase x).Alike (update phase c p' x) := by
    intro x
    by_cases here : x = c
    · subst here
      rwa [update_self]
    · rw [update_of_ne here]
      exact .refl _
  have data' : blk' = blk ∨ ∃ c, (phase c).Holds := data.imp_right fun held => ⟨c, held⟩
  constructor
  · intro x
    by_cases here : x = c
    · subst here
      rwa [update_self]
    · rw [update_of_ne here, others x here]
      obtain same | held := data
      · exact same ▸ inv.fits x
      · exact (inv.fits x).of_not_holds fun also => here (inv.one x c also held)
  · exact fun x => dir ▸ (inv.owner x).trans (all x).owns.symm
  · exact fun x y held held' =>
      inv.one x y ((all x).holds.mp held) ((all y).holds.mp held')
  · exact fun x r next => (all r).awaits (inv.next x r ((all x).next ▸ next))
  · exact fun x y r next next' =>
      inv.nextOne x y r ((all x).next ▸ next) ((all y).next ▸ next')
  · exact fun x invalidated => dir ▸ inv.invalidated x ((all x).invalidated invalidated)
  · rw [dir, mem]
    exact inv.settled.of_alike all data'

omit [DecidableEq Cache] in
theorem Consistent.station (inv : Consistent phase blk s) (at_c : phase c = p) :
    p.Machine blk (s.l1 c) ∧ s.requests c = p.requests c blk ∧ s.forward c = p.forward c ∧
      s.responses c = p.responses blk := by
  obtain ⟨machine, requests, forward, responses⟩ := at_c ▸ inv.fits c
  exact ⟨machine, requests, forward, responses⟩

omit [DecidableEq Cache] in
theorem Consistent.next_ne (inv : Consistent phase blk s) {r : Cache} (held : (phase c).Holds)
    (next : (phase c).next = some r) : r ≠ c := by
  rintro rfl
  exact (Phase.not_awaits_of_holds held).1 (inv.next r r next)

omit [DecidableEq Cache] in
theorem Consistent.stay (inv : Consistent phase blk s) (stations : ∀ x, s'.station x = s.station x)
    (owner : s'.dir.owner = s.dir.owner)
    (invalidated : (∃ x, (phase x).Invalidated) →
      s'.dir.directoryState = .M_DRD ∨ s'.dir.directoryState = .M_DWR)
    (settled : Settled phase blk' s'.dir s'.memQueue)
    (data : blk' = blk ∨ ∀ x, ¬(phase x).Holds) : Consistent phase blk' s' := by
  refine ⟨?_, owner ▸ inv.owner, inv.one, inv.next, inv.nextOne,
    fun x invalid => invalidated ⟨x, invalid⟩, settled⟩
  intro x
  rw [stations x]
  obtain same | free := data
  · exact same ▸ inv.fits x
  · exact (inv.fits x).of_not_holds (free x)

omit [DecidableEq Cache] in
theorem Consistent.calm (inv : Consistent phase blk s) (nobody : s.dir.owner = ∅) (x : Cache) :
    ¬(phase x).Invalidated := by
  intro invalid
  have member := (inv.owner x).mpr (Phase.owns_of_invalidated invalid)
  rw [nobody] at member
  exact absurd member (Finset.notMem_empty x)

/-- One cache and the directory move on. -/
theorem Consistent.change {b : DataBlock} {t : System Cache Dma} (inv : Consistent phase blk s)
    {q : Phase Cache} (others : ∀ x, x ≠ c → t.station x = s.station x)
    (fits : q.Fits c b (t.station c)) (owner : c ∈ t.dir.owner ↔ q.Owns)
    (owners : ∀ x, x ≠ c → (x ∈ t.dir.owner ↔ x ∈ s.dir.owner))
    (alone : q.Holds → ∀ x, x ≠ c → ¬(phase x).Holds) (next : q.next = (phase c).next)
    (awaited : (phase c).Awaits → q.Awaits ∨ ∀ x, (phase x).next ≠ some c)
    (invalidated : q.Invalidated ∨ (∃ x, x ≠ c ∧ (phase x).Invalidated) →
      t.dir.directoryState = .M_DRD ∨ t.dir.directoryState = .M_DWR)
    (settled : Settled (update phase c q) b t.dir t.memQueue)
    (data : b = blk ∨ ∀ x, x ≠ c → ¬(phase x).Holds) :
    Consistent (update phase c q) b t := by
  -- The caches hand the block on to the same caches as before.
  have nexts : ∀ x, (update phase c q x).next = (phase x).next := by
    intro x
    by_cases here : x = c
    · subst here
      rw [update_self, next]
    · rw [update_of_ne here]
  refine ⟨?_, ?_, ?_, ?_, ?_, ?_, settled⟩
  · intro x
    by_cases here : x = c
    · subst here
      rwa [update_self]
    · rw [update_of_ne here, others x here]
      obtain same | free := data
      · exact same ▸ inv.fits x
      · exact (inv.fits x).of_not_holds (free x here)
  · refine (Function.forall_update_iff phase fun x p => x ∈ t.dir.owner ↔ p.Owns).mpr ⟨owner, ?_⟩
    intro x here
    rw [owners x here, inv.owner x]
  · intro x y held held'
    by_cases x_here : x = c
    · by_cases y_here : y = c
      · rw [x_here, y_here]
      · subst x_here
        rw [update_self] at held
        rw [update_of_ne y_here] at held'
        exact absurd held' (alone held y y_here)
    · rw [update_of_ne x_here] at held
      by_cases y_here : y = c
      · subst y_here
        rw [update_self] at held'
        exact absurd held (alone held' x x_here)
      · rw [update_of_ne y_here] at held'
        exact inv.one x y held held'
  · intro x r leads
    rw [nexts] at leads
    have waiting := inv.next x r leads
    by_cases here : r = c
    · subst here
      rw [update_self]
      exact (awaited waiting).resolve_right fun none' => none' x leads
    · rwa [update_of_ne here]
  · intro x y r leads leads'
    rw [nexts] at leads leads'
    exact inv.nextOne x y r leads leads'
  · refine (Function.forall_update_iff phase fun _ p => p.Invalidated → _).mpr ⟨?_, ?_⟩
    · exact fun invalid => invalidated (.inl invalid)
    · exact fun x here invalid => invalidated (.inr ⟨x, here, invalid⟩)

/-- A cache hands the block on, as it was told. -/
theorem Consistent.handOver (inv : Consistent phase blk s) {r : Cache} {q : Phase Cache}
    {st : Standing Cache} (next : (phase c).next = some r) (held : (phase c).Holds)
    (waiting : phase r = .awaits st) (others : ∀ x, x ≠ c → x ≠ r → s'.station x = s.station x)
    (dir : s'.dir = s.dir) (mem : s'.memQueue = s.memQueue) (fits : q.Fits c blk (s'.station c))
    (fits_next : (Phase.arriving st).Fits r blk (s'.station r))
    (given : ¬q.Owns ∧ ¬q.Holds ∧ q.next = none ∧ ¬q.Invalidated) :
    Consistent (update (update phase c q) r (.arriving st)) blk s' := by
  have apart : c ≠ r := by
    rintro rfl
    exact (Phase.not_awaits_of_holds held).1 (waiting ▸ trivial)
  -- The two caches are told apart from all others by their phases.
  have at_r : update (update phase c q) r (.arriving st) r = .arriving st :=
    update_self ..
  have at_c : update (update phase c q) r (.arriving st) c = q := by
    rw [update_of_ne apart, update_self]
  have at_x : ∀ x, x ≠ c → x ≠ r →
      update (update phase c q) r (.arriving st) x = phase x := by
    intro x not_c not_r
    rw [update_of_ne not_r, update_of_ne not_c]
  generalize update (update phase c q) r (.arriving st) = phase' at at_r at_c at_x
  obtain ⟨not_owns, not_holds, no_next, not_invalidated⟩ := given
  have r_owns : (Phase.arriving st).Owns ↔ (phase r).Owns := by rw [waiting]; cases st <;> rfl
  have r_next : (Phase.arriving st).next = (phase r).next := by rw [waiting]; cases st <;> rfl
  have only_r : ∀ x, (phase' x).Holds → x = r := by
    intro x also
    by_cases not_r : x = r
    · exact not_r
    · by_cases here : x = c
      · exact absurd (at_c ▸ here ▸ also) not_holds
      · exact absurd (inv.one x c (at_x x here not_r ▸ also) held) here
  -- What a cache must still hand on it had to hand on before.
  have nexts : ∀ x y, (phase' x).next = some y → x ≠ c ∧ (phase x).next = some y := by
    intro x y leads
    by_cases here : x = c
    · subst here
      rw [at_c, no_next] at leads
      cases leads
    · refine ⟨here, ?_⟩
      by_cases not_r : x = r
      · rw [not_r, at_r, r_next] at leads
        rwa [not_r]
      · rwa [at_x x here not_r] at leads
  refine ⟨?_, ?_, ?_, ?_, ?_, ?_, ?_⟩
  · intro x
    by_cases not_r : x = r
    · rw [not_r, at_r]
      exact fits_next
    · by_cases here : x = c
      · rw [here, at_c]
        exact fits
      · rw [at_x x here not_r, others x here not_r]
        exact inv.fits x
  · intro x
    rw [dir, inv.owner x]
    by_cases not_r : x = r
    · rw [not_r, at_r, r_owns]
    · by_cases here : x = c
      · rw [here, at_c]
        exact iff_of_false (Phase.not_owns_of_next next) not_owns
      · rw [at_x x here not_r]
  · exact fun x y also also' => (only_r x also).trans (only_r y also').symm
  · intro x y leads
    obtain ⟨not_c, before⟩ := nexts x y leads
    have waits := inv.next x y before
    -- Only the cache that handed the block over had to hand it to this one.
    have not_r : y ≠ r := by
      rintro rfl
      exact not_c (inv.nextOne x c y before next)
    have also_not_c : y ≠ c := by
      rintro rfl
      exact (Phase.not_awaits_of_holds held).1 waits
    rwa [at_x y also_not_c not_r]
  · intro x y z leads leads'
    exact inv.nextOne x y z (nexts x z leads).2 (nexts y z leads').2
  · intro x invalid
    rw [dir]
    by_cases not_r : x = r
    · refine inv.invalidated r ?_
      rw [not_r, at_r] at invalid
      rw [waiting]
      cases st with
      | owner invalidated => cases invalidated <;> exact invalid
      | forwarded r => exact invalid
    · by_cases here : x = c
      · exact absurd (at_c ▸ here ▸ invalid) not_invalidated
      · exact inv.invalidated x (at_x x here not_r ▸ invalid)
  · -- Somebody has the block, so the directory does not.
    have held' : ∃ x, (phase' x).Holds := ⟨r, at_r ▸ trivial⟩
    rw [dir, mem]
    cases inv.settled with
    | M o dataBlk _ dir_eq mem_eq => exact .M o dataBlk held' dir_eq mem_eq
    | recalling o d state dataBlk tbe _ state_eq dir_eq tbe_eq mem_eq =>
      exact .recalling o d state dataBlk tbe held' state_eq dir_eq tbe_eq mem_eq
    | I free | IM o free | MI c dataBlk tbe free | ID d tbe free | ID_W d tbe free
    | recalled c d state tbe free => exact absurd held (free _)

/-- The directory sends the owner the request of another cache, which is the owner from then on. -/
theorem Consistent.forwardTo (inv : Consistent phase blk s) {o : Cache}
    (owner_eq : s.dir.owner = {o}) (asked : phase c = .asked) (dir_eq : s.dir.directoryState = .M)
    (dir : s'.dir = { s.dir with owner := {c} })
    (others : ∀ x, x ≠ c → x ≠ o → s'.station x = s.station x) (mem : s'.memQueue = s.memQueue)
    (fits : (Phase.awaits (.owner false)).Fits c blk (s'.station c))
    (fits_owner : ((phase o).restand (.forwarded c)).Fits o blk (s'.station o)) :
    Consistent (update (update phase o ((phase o).restand (.forwarded c))) c
      (.awaits (.owner false))) blk s' := by
  have owns : (phase o).Owns := (inv.owner o).mp (by simp [owner_eq])
  have apart : o ≠ c := by
    rintro rfl
    exact absurd owns (by rw [asked]; exact id)
  obtain ⟨to_c, disowned, not_invalidated⟩ := Phase.restand_forwarded owns c
  obtain ⟨same_holds, same_awaits⟩ := (phase o).restand_holds (.forwarded c)
  have at_c : update (update phase o ((phase o).restand (.forwarded c))) c
      (.awaits (.owner false)) c = .awaits (.owner false) := update_self ..
  have at_o : update (update phase o ((phase o).restand (.forwarded c))) c
      (.awaits (.owner false)) o = (phase o).restand (.forwarded c) := by
    rw [update_of_ne apart, update_self]
  have at_x : ∀ x, x ≠ c → x ≠ o → update (update phase o
      ((phase o).restand (.forwarded c))) c (.awaits (.owner false)) x = phase x := by
    intro x not_c not_o
    rw [update_of_ne not_c, update_of_ne not_o]
  generalize update (update phase o ((phase o).restand (.forwarded c))) c
    (.awaits (.owner false)) = phase' at at_c at_o at_x
  have holds : ∀ x, (phase' x).Holds ↔ (phase x).Holds := by
    intro x
    by_cases x_c : x = c
    · rw [x_c, at_c, asked]
      rfl
    · by_cases x_o : x = o
      · rw [x_o, at_o, same_holds]
      · rw [at_x x x_c x_o]
  -- A cache that must hand the block on had to before, or is the owner of before.
  have nexts : ∀ x y, (phase' x).next = some y →
      (x = o ∧ y = c) ∨ (y ≠ c ∧ (phase x).next = some y) := by
    intro x y leads
    by_cases x_c : x = c
    · rw [x_c, at_c] at leads
      cases leads
    · by_cases x_o : x = o
      · rw [x_o, at_o, to_c] at leads
        exact .inl ⟨x_o, (Option.some.inj leads).symm⟩
      · rw [at_x x x_c x_o] at leads
        refine .inr ⟨?_, leads⟩
        rintro rfl
        exact absurd (inv.next x y leads) (by rw [asked]; exact id)
  have calm : ∀ x, ¬(phase x).Invalidated := by
    intro x invalid
    obtain state | state := inv.invalidated x invalid <;> exact absurd (dir_eq ▸ state) (by simp)
  refine ⟨?_, ?_, ?_, ?_, ?_, ?_, ?_⟩
  · intro x
    by_cases x_c : x = c
    · rw [x_c, at_c]
      exact fits
    · by_cases x_o : x = o
      · rw [x_o, at_o]
        exact fits_owner
      · rw [at_x x x_c x_o, others x x_c x_o]
        exact inv.fits x
  · intro x
    simp only [dir, Finset.mem_singleton]
    by_cases x_c : x = c
    · rw [x_c, at_c]
      exact iff_of_true rfl trivial
    · refine iff_of_false x_c ?_
      by_cases x_o : x = o
      · rw [x_o, at_o]
        exact disowned
      · rw [at_x x x_c x_o, ← inv.owner x, owner_eq, Finset.mem_singleton]
        exact x_o
  · exact fun x y held held' => inv.one x y ((holds x).mp held) ((holds y).mp held')
  · intro x y leads
    obtain ⟨rfl, rfl⟩ | ⟨y_c, before⟩ := nexts x y leads
    · rw [at_c]
      trivial
    · have waiting := inv.next x y before
      by_cases y_o : y = o
      · rw [y_o, at_o, same_awaits]
        exact y_o ▸ waiting
      · rwa [at_x y y_c y_o]
  · intro x y z leads leads'
    obtain ⟨rfl, rfl⟩ | ⟨z_c, before⟩ := nexts x z leads
    · obtain ⟨rfl, -⟩ | ⟨z_c, -⟩ := nexts y z leads'
      · rfl
      · exact absurd rfl z_c
    · obtain ⟨-, rfl⟩ | ⟨-, before'⟩ := nexts y z leads'
      · exact absurd rfl z_c
      · exact inv.nextOne x y z before before'
  · intro x invalid
    by_cases x_c : x = c
    · rw [x_c, at_c] at invalid
      exact absurd invalid id
    · by_cases x_o : x = o
      · rw [x_o, at_o] at invalid
        exact absurd invalid not_invalidated
      · exact absurd (at_x x x_c x_o ▸ invalid) (calm x)
  · rw [mem]
    cases inv.settled with
    | M o' dataBlk held before mem_eq =>
      obtain ⟨x, held⟩ := held
      exact .M c dataBlk ⟨x, (holds x).mpr held⟩ (by rw [dir, before]) mem_eq
    | recalling o' d state dataBlk tbe held state_eq before =>
      rw [before] at dir_eq
      obtain rfl | rfl := state_eq <;> cases dir_eq
    | recalled c' d state tbe free acked state_eq before =>
      rw [before] at dir_eq
      obtain rfl | rfl := state_eq <;> cases dir_eq
    | I _ before | IM _ _ _ _ before | MI _ _ _ _ _ before | ID _ _ _ before
    | ID_W _ _ _ before =>
      rw [before] at dir_eq
      cases dir_eq

end MIExample

end GemDroid

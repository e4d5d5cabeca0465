import Mathlib.Logic.Basic
import Mathlib.Logic.Function.Basic

/-! Copies of one value in many holders over a source, and the ownership that keeps them alike. -/

namespace Ownership

variable {ι V : Type*}

/-- A holder's copy: whether it may be changed here, and whether the source was told. -/
structure Copy (V : Type*) where
  writable : Bool
  dirty : Bool
  value : V

/-- What is below the holders: a value to supply, and a memory under it. -/
structure Source (V : Type*) where
  /-- The value to supply has not reached the memory. -/
  dirty : Bool
  supply : V
  memory : V

namespace Copy

/-- The copy may be changed no longer. -/
def downgrade (c : Copy V) : Copy V :=
  { c with writable := false }

end Copy

namespace Source

/-- Nothing was asked of the source; it may have passed its value to the memory on its own. -/
def Rest (u v : Source V) : Prop :=
  v = u ∨ v.dirty = false ∧ v.memory = (if u.dirty then u.supply else u.memory) ∧
    v.supply = v.memory

/-- The source gave its value up, and only the memory is left. -/
def Gone (u v : Source V) : Prop :=
  v.dirty = false ∧ v.memory = u.memory ∧ v.supply = u.memory

/-- The source supplied its value, and may have handed ownership over with an exclusive copy. -/
def Read (u v : Source V) (shared handed : Bool) : Prop :=
  v.supply = u.supply ∧ v.memory = u.memory ∧
    (v.dirty = u.dirty ∧ handed = false ∨
      u.dirty = true ∧ v.dirty = false ∧ handed = true ∧ shared = false) ∧
    (shared = false → v.dirty = false)

/-- The source took a value over. -/
def Written (v : Source V) (value : V) : Prop :=
  v.supply = value ∧ (v.dirty = false → v.memory = value)

theorem Rest.refl (u : Source V) : Rest u u :=
  .inl rfl

theorem Rest.clean {u v : Source V} (rest : Rest u v) (clean : u.dirty = false) :
    v.dirty = false ∧ v.memory = u.memory := by
  rcases rest with rfl | ⟨dirty, memory, -⟩
  · exact ⟨clean, rfl⟩
  · simp [clean] at memory
    exact ⟨dirty, memory⟩

theorem Rest.trans {u v x : Source V} (first : Rest u v) (second : Rest v x) : Rest u x := by
  rcases second with rfl | ⟨dirty, memory, supply⟩
  · exact first
  · rcases first with rfl | ⟨clean, kept, -⟩
    · exact .inr ⟨dirty, memory, supply⟩
    · simp only [clean, Bool.false_eq_true, if_false] at memory
      exact .inr ⟨dirty, memory.trans kept, supply⟩

end Source

/-- All copies of the value, and what is below them. -/
structure Line (ι V : Type*) where
  copies : ι → Option (Copy V)
  source : Source V

/--
All copies are the latest value, and somebody is left to pass it on.

A writable copy is the only one, and at most one holder owes the value to the source.
-/
structure Coherent (latest : V) (l : Line ι V) : Prop where
  value : ∀ i c, l.copies i = some c → c.value = latest
  sole : ∀ i c, l.copies i = some c → c.writable = true → ∀ j d, l.copies j = some d → j = i
  owner : ∀ i c, l.copies i = some c → c.dirty = true →
    ∀ j d, l.copies j = some d → d.dirty = true → j = i
  owed : ∀ i c, l.copies i = some c → c.dirty = true → l.source.dirty = false
  exclusive : ∀ i c, l.copies i = some c → c.writable = true → l.source.dirty = false
  supplied : (∀ i c, l.copies i = some c → c.dirty = false) →
    l.source.supply = latest ∧ (l.source.dirty = false → l.source.memory = latest)

variable {latest : V} {l k : Line ι V} {i : ι}

/-- What the source does on its own keeps a line coherent. -/
theorem Coherent.rest (coherent : Coherent latest l) (copies : k.copies = l.copies)
    (rest : Source.Rest l.source k.source) : Coherent latest k where
  value := by
    rw [copies]
    exact coherent.value
  sole := by
    rw [copies]
    exact coherent.sole
  owner := by
    rw [copies]
    exact coherent.owner
  owed := by
    rw [copies]
    exact fun i c held dirty => (rest.clean (coherent.owed i c held dirty)).1
  exclusive := by
    rw [copies]
    exact fun i c held writable => (rest.clean (coherent.exclusive i c held writable)).1
  supplied := by
    rw [copies]
    intro unowned
    obtain ⟨supply, memory⟩ := coherent.supplied unowned
    rcases rest with same | ⟨dirty, kept, passed⟩
    · rw [same]
      exact ⟨supply, memory⟩
    · -- The memory has the value either way: it was passed on now, or before.
      have known : k.source.memory = latest := by
        rw [kept]
        cases held : l.source.dirty with
        | true => simpa using supply
        | false => simpa using memory held
      exact ⟨passed.trans known, fun _ => known⟩

/-- A holder with the only copy keeps the line coherent, if it owes what the memory lacks. -/
theorem coherent_exclusive {c : Copy V} (own : k.copies i = some c)
    (others : ∀ j, j ≠ i → k.copies j = none) (value : c.value = latest)
    (clean : k.source.dirty = false)
    (known : c.dirty = false → k.source.supply = latest ∧ k.source.memory = latest) :
    Coherent latest k := by
  have only : ∀ j d, k.copies j = some d → j = i := by
    intro j d held
    by_contra other
    rw [others j other] at held
    exact absurd held (by simp)
  refine ⟨fun j d held => ?_, fun _ _ first _ j d held => ?_, fun _ _ first _ j d held _ => ?_,
    fun _ _ _ _ => clean, fun _ _ _ _ => clean, fun unowned => ?_⟩
  · obtain rfl := only j d held
    rw [own] at held
    obtain rfl := Option.some.inj held
    exact value
  · rw [only j d held, only _ _ first]
  · rw [only j d held, only _ _ first]
  · obtain ⟨supply, memory⟩ := known (unowned i c own)
    exact ⟨supply, fun _ => memory⟩

/-- After a read, a copy is the new one or one that was there before. -/
theorem copies_cases {c : Copy V} (own : k.copies i = some c)
    (others : ∀ j, j ≠ i → k.copies j = (l.copies j).map Copy.downgrade) (m : ι) (e : Copy V)
    (held : k.copies m = some e) :
    m = i ∧ e = c ∨ m ≠ i ∧ ∃ f, l.copies m = some f ∧ e = f.downgrade := by
  by_cases here : m = i
  · rw [here, own] at held
    exact .inl ⟨here, (Option.some.inj held).symm⟩
  · rw [others m here, Option.map_eq_some_iff] at held
    obtain ⟨f, old, rfl⟩ := held
    exact .inr ⟨here, f, old, rfl⟩

/-- A holder that gets its copy from an owner shares it. -/
theorem Coherent.read_from_owner (coherent : Coherent latest l)
    {j : ι} {d : Copy V} (owner : l.copies j = some d) (dirty : d.dirty = true) (other : j ≠ i)
    {c : Copy V} (own : k.copies i = some c)
    (others : ∀ j, j ≠ i → k.copies j = (l.copies j).map Copy.downgrade)
    (value : c.value = latest) (shared : c.writable = false) (clean : c.dirty = false)
    (source : k.source = l.source) : Coherent latest k := by
  have cases_copies := copies_cases own others
  have still : k.copies j = some d.downgrade := by rw [others j other, owner, Option.map_some]
  have unwritable : ∀ m e, k.copies m = some e → e.writable = false := by
    intro m e held
    rcases cases_copies m e held with ⟨-, rfl⟩ | ⟨-, f, -, rfl⟩
    · exact shared
    · rfl
  have owned : ∀ m e, k.copies m = some e → e.dirty = true → m = j := by
    intro m e held also
    rcases cases_copies m e held with ⟨-, rfl⟩ | ⟨-, f, old, rfl⟩
    · rw [clean] at also
      exact absurd also Bool.false_ne_true
    · exact coherent.owner j d owner dirty m f old also
  refine ⟨fun m e held => ?_, fun m e held writable => ?_, fun m e held also n f more again => ?_,
    fun _ _ _ _ => ?_, fun m e held writable => ?_, fun unowned => ?_⟩
  · rcases cases_copies m e held with ⟨-, rfl⟩ | ⟨-, f, old, rfl⟩
    · exact value
    · exact coherent.value m f old
  · rw [unwritable m e held] at writable
    exact absurd writable Bool.false_ne_true
  · rw [owned m e held also, owned n f more again]
  · rw [source]
    exact coherent.owed j d owner dirty
  · rw [unwritable m e held] at writable
    exact absurd writable Bool.false_ne_true
  · have never := unowned j _ still
    exact absurd (never.symm.trans dirty) Bool.false_ne_true

/-- A holder that gets its copy from the source owns it if the source hands ownership over. -/
theorem Coherent.read_from_source (coherent : Coherent latest l)
    (unowned : ∀ j d, l.copies j = some d → d.dirty = false) {c : Copy V} {shared handed : Bool}
    (own : k.copies i = some c)
    (others : ∀ j, j ≠ i → k.copies j = (l.copies j).map Copy.downgrade)
    (value : c.value = latest) (writable : c.writable = !shared)
    (dirty : c.dirty = (!shared && handed))
    (alone : shared = false → ∀ j, j ≠ i → l.copies j = none)
    (read : Source.Read l.source k.source shared handed) : Coherent latest k := by
  obtain ⟨supply, memory, transfer, exclusive⟩ := read
  have known := coherent.supplied unowned
  have cases_copies := copies_cases own others
  -- Whoever may change its copy, or owes it, is the new holder.
  have writes : ∀ m e, k.copies m = some e → e.writable = true → m = i ∧ shared = false := by
    intro m e held may
    rcases cases_copies m e held with ⟨here, rfl⟩ | ⟨-, f, -, rfl⟩
    · exact ⟨here, by simpa [writable] using may⟩
    · exact absurd may Bool.false_ne_true
  have owes : ∀ m e, k.copies m = some e → e.dirty = true → m = i ∧ shared = false := by
    intro m e held also
    rcases cases_copies m e held with ⟨here, rfl⟩ | ⟨-, f, old, rfl⟩
    · rw [dirty] at also
      exact ⟨here, by simpa using (Bool.and_eq_true_iff.mp also).1⟩
    · exact absurd ((unowned m f old).symm.trans also) Bool.false_ne_true
  refine ⟨fun m e held => ?_, fun m e held may n f more => ?_,
    fun m e held also n f more again => ?_,
    fun m e held also => exclusive (owes m e held also).2,
    fun m e held may => exclusive (writes m e held may).2, fun clean => ?_⟩
  · rcases cases_copies m e held with ⟨-, rfl⟩ | ⟨-, f, old, rfl⟩
    · exact value
    · exact coherent.value m f old
  · obtain ⟨rfl, unshared⟩ := writes m e held may
    by_contra different
    rw [others n different, alone unshared n different] at more
    exact absurd more (by simp)
  · rw [(owes m e held also).1, (owes n f more again).1]
  · refine ⟨supply.trans known.1, fun empty => ?_⟩
    rcases transfer with ⟨same, -⟩ | ⟨-, -, passed, unshared⟩
    · rw [memory]
      exact known.2 (same.symm.trans empty)
    · -- Ownership went to the new holder, which then is dirty.
      have never := clean i c own
      rw [dirty, passed, unshared] at never
      exact absurd never (by decide)

/-- A holder that drops a copy it does not owe keeps the line coherent. -/
theorem Coherent.drop (coherent : Coherent latest l) (dropped : k.copies i = none)
    (others : ∀ j, j ≠ i → k.copies j = l.copies j)
    (clean : ∀ c, l.copies i = some c → c.dirty = false)
    (rest : Source.Rest l.source k.source) : Coherent latest k := by
  have kept : ∀ m e, k.copies m = some e → l.copies m = some e := by
    intro m e held
    rw [← others m fun here => by simp [here, dropped] at held]
    exact held
  have middle : Coherent latest { k with source := l.source } := by
    refine ⟨fun m e held => coherent.value m e (kept m e held),
      fun m e held may n f more => coherent.sole m e (kept m e held) may n f (kept n f more),
      fun m e held also n f more => coherent.owner m e (kept m e held) also n f (kept n f more),
      fun m e held => coherent.owed m e (kept m e held),
      fun m e held => coherent.exclusive m e (kept m e held), fun unowned => ?_⟩
    refine coherent.supplied fun m e held => ?_
    by_cases here : m = i
    · rw [here] at held
      exact clean e held
    · exact unowned m e (by rw [others m here]; exact held)
  exact middle.rest rfl rest

/-- A holder that passes its copy back to the source keeps the line coherent. -/
theorem Coherent.writeback (coherent : Coherent latest l) {c : Copy V}
    (own : l.copies i = some c) (dirty : c.dirty = true) (dropped : k.copies i = none)
    (others : ∀ j, j ≠ i → k.copies j = l.copies j)
    (written : Source.Written k.source latest) : Coherent latest k := by
  have kept : ∀ m e, k.copies m = some e → m ≠ i ∧ l.copies m = some e := by
    intro m e held
    have other : m ≠ i := fun here => by simp [here, dropped] at held
    rw [others m other] at held
    exact ⟨other, held⟩
  have unowned : ∀ m e, k.copies m = some e → e.dirty = false := by
    intro m e held
    obtain ⟨other, old⟩ := kept m e held
    by_contra also
    exact other (coherent.owner i c own dirty m e old (by simpa using also))
  have fixed : ∀ m e, k.copies m = some e → e.writable = false := by
    intro m e held
    obtain ⟨other, old⟩ := kept m e held
    by_contra may
    exact other (coherent.sole m e old (by simpa using may) i c own).symm
  refine ⟨fun m e held => coherent.value m e (kept m e held).2, fun m e held may => ?_,
    fun m e held also => ?_, fun m e held also => ?_, fun m e held may => ?_, fun _ => written⟩
  · exact absurd ((fixed m e held).symm.trans may) Bool.false_ne_true
  · exact absurd ((unowned m e held).symm.trans also) Bool.false_ne_true
  · exact absurd ((unowned m e held).symm.trans also) Bool.false_ne_true
  · exact absurd ((fixed m e held).symm.trans may) Bool.false_ne_true

end Ownership

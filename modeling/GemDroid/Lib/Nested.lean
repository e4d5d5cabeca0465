import Mathlib.Data.List.AList

/-! Tables of tables, which hold one value for each sequence of keys. -/

/-- Tables that are nested to some depth, with the values inside. -/
def Nested (K V : Type) : Nat → Type
  | 0 => V
  | n + 1 => AList fun _ : K => Nested K V n

namespace Nested

variable {K V : Type} {n : Nat}

/-- The keys and what is under them. -/
def items (t : Nested K V (n + 1)) : List (K × Nested K V n) :=
  (AList.entries t).map fun e => (e.1, e.2)

/-- What a new place holds: the value inside, or an empty table. -/
def fresh : (n : Nat) → V → Nested K V n
  | 0, v => v
  | _ + 1, _ => (∅ : AList fun _ : K => Nested K V _)

/-- All sequences of keys and their values. -/
def entries : (n : Nat) → Nested K V n → List (List K × V)
  | 0, v => [([], v)]
  | n + 1, t => t.items.flatMap fun e => (entries n e.2).map fun p => (e.1 :: p.1, p.2)

/-- Every key is there once. -/
theorem items_nodup (t : Nested K V (n + 1)) : (t.items.map Prod.fst).Nodup := by
  rw [items, List.map_map]
  exact AList.keys_nodup t

/-- Every sequence of keys is there once. -/
theorem entries_nodup (t : Nested K V n) : ((entries n t).map Prod.fst).Nodup := by
  induction n with
  | zero => exact List.nodup_singleton _
  | succ n ih =>
    rw [entries, List.map_flatMap, List.nodup_flatMap]
    refine ⟨fun e _ => ?_, ?_⟩
    · rw [List.map_map]
      have inner := (ih e.2).map (List.cons_injective (a := e.1))
      rwa [List.map_map] at inner
    · refine (List.pairwise_map.mp (items_nodup t)).imp fun {e f} other => ?_
      -- Sequences that begin with other keys are other ones.
      intro ks here there
      obtain ⟨p, mem, rfl⟩ := List.mem_map.mp here
      obtain ⟨q, mem', same⟩ := List.mem_map.mp there
      obtain ⟨p, -, rfl⟩ := List.mem_map.mp mem
      obtain ⟨q, -, rfl⟩ := List.mem_map.mp mem'
      exact other (List.cons.inj same).1.symm

variable [DecidableEq K]

/-- The table that is found under a key. -/
def get (k : K) (t : Nested K V (n + 1)) : Option (Nested K V n) :=
  AList.lookup k t

/-- Put a table under a key. -/
def put (t : Nested K V (n + 1)) (k : K) (s : Nested K V n) : Nested K V (n + 1) :=
  AList.insert k s t

/-- Take the table under a key away. -/
def drop (k : K) (t : Nested K V (n + 1)) : Nested K V (n + 1) :=
  AList.erase k t

/-- The value that a sequence of keys leads to. -/
def find : (n : Nat) → Nested K V n → List K → Option V
  | 0, v, _ => some v
  | _ + 1, _, [] => none
  | n + 1, t, k :: ks => (t.get k).bind fun s => find n s ks

/-- Set the value that a sequence of keys leads to, with new tables on the way. -/
def insert (v : V) : (n : Nat) → Nested K V n → List K → Nested K V n
  | 0, _, _ => v
  | _ + 1, t, [] => t
  | n + 1, t, k :: ks => t.put k (insert v n ((t.get k).getD (fresh n v)) ks)

/-- Take out what a sequence of keys leads to, and the tables on the way that become empty. -/
def erase : (n : Nat) → Nested K V (n + 1) → List K → Nested K V (n + 1)
  | _, t, [] => t
  | 0, t, k :: _ => t.drop k
  | n + 1, t, k :: ks =>
    match t.get k with
    | none => t
    | some s => if (erase n s ks).items.length = 0 then t.drop k else t.put k (erase n s ks)

section table

variable {k k' : K} {s : Nested K V n} {t : Nested K V (n + 1)}

theorem get_put : (t.put k s).get k' = if k' = k then some s else t.get k' := by
  split_ifs with same
  · rw [same]
    exact AList.lookup_insert _
  · exact AList.lookup_insert_ne same

theorem get_drop : (t.drop k).get k' = if k' = k then none else t.get k' := by
  split_ifs with same
  · rw [same]
    exact AList.lookup_erase _ _
  · exact AList.lookup_erase_ne same

/-- The items are what is found under the keys. -/
theorem mem_items : (k, s) ∈ t.items ↔ t.get k = some s := by
  have looked := @AList.mem_lookup_iff K (fun _ => Nested K V n) _ k s t
  rw [items, List.mem_map]
  refine ⟨?_, fun found => ⟨⟨k, s⟩, looked.mp found, rfl⟩⟩
  rintro ⟨⟨k', s'⟩, mem, same⟩
  obtain ⟨rfl, rfl⟩ := Prod.mk.inj same
  exact looked.mpr mem

/-- A table has no items when nothing is found in it. -/
theorem items_eq_nil : t.items.length = 0 ↔ ∀ k, t.get k = none := by
  rw [List.length_eq_zero_iff, List.eq_nil_iff_forall_not_mem]
  constructor
  · intro none_there k
    cases found : t.get k with
    | none => rfl
    | some s => exact absurd (mem_items.mpr found) (none_there (k, s))
  · rintro none_found ⟨k, s⟩ mem
    rw [mem_items, none_found k] at mem
    cases mem

end table

/-- A new place has no other value. -/
theorem find_fresh {v : V} {ks : List K} (other : ks ≠ []) (long : ks.length = n) :
    find n (fresh n v) ks = none := by
  cases n with
  | zero => exact absurd (List.length_eq_zero_iff.mp long) other
  | succ n =>
    cases ks with
    | nil => exact absurd rfl other
    | cons k ks =>
      rw [find, show (fresh (n + 1) v : Nested K V (n + 1)).get k = none from rfl, Option.bind_none]

/-- Setting a value changes what its own keys lead to only. -/
theorem find_insert {v : V} {t : Nested K V n} {ks ks' : List K} (long : ks.length = n)
    (long' : ks'.length = n) :
    find n (insert v n t ks) ks' = if ks' = ks then some v else find n t ks' := by
  induction n generalizing ks ks' with
  | zero =>
    rw [List.length_eq_zero_iff.mp long, List.length_eq_zero_iff.mp long', if_pos rfl]
    rfl
  | succ n ih =>
    obtain ⟨k, ks, rfl⟩ := List.exists_cons_of_length_eq_add_one long
    obtain ⟨k', ks', rfl⟩ := List.exists_cons_of_length_eq_add_one long'
    have short := Nat.succ.inj long
    have short' := Nat.succ.inj long'
    rw [insert, find, get_put, find]
    by_cases same : k' = k
    · subst same
      rw [if_pos rfl, Option.bind_some, ih short short']
      by_cases rest : ks' = ks
      · rw [if_pos rest, if_pos (by rw [rest])]
      · rw [if_neg rest, if_neg fun equal => rest (List.cons.inj equal).2]
        cases found : t.get k' with
        | some s => rfl
        | none =>
          refine find_fresh (fun none_left => rest ?_) short'
          -- All sequences of length zero are the same.
          rw [none_left] at short' ⊢
          exact (List.length_eq_zero_iff.mp (short.trans short'.symm)).symm
    · rw [if_neg same, if_neg fun equal => same (List.cons.inj equal).1]

/-- Erasing changes what its own keys lead to only. -/
theorem find_erase {t : Nested K V (n + 1)} {ks ks' : List K} (long : ks.length = n + 1)
    (long' : ks'.length = n + 1) :
    find (n + 1) (erase n t ks) ks' = if ks' = ks then none else find (n + 1) t ks' := by
  induction n generalizing ks ks' with
  | zero =>
    obtain ⟨k, ks, rfl⟩ := List.exists_cons_of_length_eq_add_one long
    obtain ⟨k', ks', rfl⟩ := List.exists_cons_of_length_eq_add_one long'
    obtain rfl := List.length_eq_zero_iff.mp (Nat.succ.inj long)
    obtain rfl := List.length_eq_zero_iff.mp (Nat.succ.inj long')
    rw [erase, find, get_drop, find]
    by_cases same : k' = k
    · rw [if_pos same, if_pos (by rw [same])]
      rfl
    · rw [if_neg same, if_neg fun equal => same (List.cons.inj equal).1]
  | succ n ih =>
    obtain ⟨k, ks, rfl⟩ := List.exists_cons_of_length_eq_add_one long
    obtain ⟨k', ks', rfl⟩ := List.exists_cons_of_length_eq_add_one long'
    have short := Nat.succ.inj long
    have short' := Nat.succ.inj long'
    rw [erase]
    cases found : t.get k with
    | none =>
      dsimp only
      split_ifs with same
      · obtain ⟨rfl, rfl⟩ := List.cons.inj same
        rw [find, found, Option.bind_none]
      · rfl
    | some s =>
      dsimp only
      have inner := @ih s ks ks' short short'
      by_cases same : k' = k
      · subst same
        have whole : (if k' :: ks' = k' :: ks then none else find (n + 2) t (k' :: ks')) =
            find (n + 1) (erase n s ks) ks' := by
          rw [inner, find, found, Option.bind_some]
          simp only [List.cons.injEq, true_and]
        rw [whole]
        split_ifs with empty
        · rw [find, get_drop, if_pos rfl, Option.bind_none]
          obtain ⟨k, ks', rfl⟩ := List.exists_cons_of_length_eq_add_one short'
          rw [find, items_eq_nil.mp empty k, Option.bind_none]
        · rw [find, get_put, if_pos rfl, Option.bind_some]
      · rw [if_neg fun equal => same (List.cons.inj equal).1]
        split_ifs
        · rw [find, get_drop, if_neg same, find]
        · rw [find, get_put, if_neg same, find]

/-- The entries are what is found under sequences of keys. -/
theorem mem_entries {t : Nested K V n} {ks : List K} {v : V} :
    (ks, v) ∈ entries n t ↔ ks.length = n ∧ find n t ks = some v := by
  induction n generalizing ks with
  | zero =>
    rw [entries, List.mem_singleton]
    constructor
    · intro same
      obtain ⟨rfl, rfl⟩ := Prod.mk.inj same
      exact ⟨rfl, rfl⟩
    · rintro ⟨long, found⟩
      obtain rfl := Option.some.inj found
      rw [List.length_eq_zero_iff.mp long]
  | succ n ih =>
    rw [entries, List.mem_flatMap]
    constructor
    · rintro ⟨⟨k, s⟩, mem, inner⟩
      obtain ⟨⟨ks', v'⟩, mem', same⟩ := List.mem_map.mp inner
      obtain ⟨rfl, rfl⟩ := Prod.mk.inj same
      obtain ⟨short, found⟩ := ih.mp mem'
      refine ⟨by rw [List.length_cons, short], ?_⟩
      rw [find, mem_items.mp mem, Option.bind_some, found]
    · rintro ⟨long, found⟩
      obtain ⟨k, ks, rfl⟩ := List.exists_cons_of_length_eq_add_one long
      rw [find] at found
      obtain ⟨s, there, found'⟩ := Option.bind_eq_some_iff.mp found
      exact ⟨(k, s), mem_items.mpr there,
        List.mem_map.mpr ⟨(ks, v), ih.mpr ⟨Nat.succ.inj long, found'⟩, rfl⟩⟩

section full

/-- A table has something in it. -/
def Occupied : (n : Nat) → Nested K V n → Prop
  | 0, _ => True
  | _ + 1, t => t.items.length ≠ 0

/-- All tables inside have something in them. -/
def Full : (n : Nat) → Nested K V n → Prop
  | 0, _ => True
  | n + 1, t => ∀ k s, t.get k = some s → Occupied n s ∧ Full n s

theorem full_fresh (v : V) : Full n (fresh n v : Nested K V n) := by
  cases n with
  | zero => trivial
  | succ n => exact fun k s never => nomatch never

/-- Where a value is set, there is something. -/
theorem full_insert {v : V} {t : Nested K V n} {ks : List K} (long : ks.length = n)
    (full : Full n t) : Occupied n (insert v n t ks) ∧ Full n (insert v n t ks) := by
  induction n generalizing ks with
  | zero => exact ⟨trivial, trivial⟩
  | succ n ih =>
    obtain ⟨k, ks, rfl⟩ := List.exists_cons_of_length_eq_add_one long
    rw [insert]
    refine ⟨fun empty => ?_, fun k' s found => ?_⟩
    · have none_found := items_eq_nil.mp empty k
      rw [get_put, if_pos rfl] at none_found
      cases none_found
    · rw [get_put] at found
      split_ifs at found with same
      · obtain rfl := Option.some.inj found
        refine ih (Nat.succ.inj long) ?_
        cases there : t.get k with
        | none => exact full_fresh v
        | some s => exact (full k s there).2
      · exact full k' s found

/-- Erasing leaves no empty table inside. -/
theorem full_erase {t : Nested K V (n + 1)} (ks : List K) (full : Full (n + 1) t) :
    Full (n + 1) (erase n t ks) := by
  induction n generalizing ks with
  | zero =>
    cases ks with
    | nil => exact full
    | cons k ks => exact fun k' s _ => ⟨trivial, trivial⟩
  | succ n ih =>
    cases ks with
    | nil => exact full
    | cons k ks =>
      rw [erase]
      cases there : t.get k with
      | none => exact full
      | some s =>
        dsimp only
        split_ifs with empty
        · intro k' s' found
          rw [get_drop] at found
          split_ifs at found
          exact full k' s' found
        · intro k' s' found
          rw [get_put] at found
          split_ifs at found
          · obtain rfl := Option.some.inj found
            exact ⟨empty, ih ks (full k s there).2⟩
          · exact full k' s' found

end full

end Nested

/-
AntzKV.Core.TableTheorems — the key-space table is an instance of open
addressing, and what its operations do to the map it stands for.

`probe` is the generic search along `SquareProbe.slot`
(`probe_eq_probe`), so the findability invariant and the lookup laws of
`Lib/OpenAddressing` apply to it. `Wf` collects what every reachable
table satisfies; the two clauses beside findability are about the
counter: it never UNDERcounts the occupied entries, and it respects the
load factor.

The walk of `probe` does not cover the table, so an insertion may find
nothing but other keys' entries on its path and then overwrites the last
of them. `HasRoom` is exactly the absence of that. After a resize it
always holds: the doubled table is less than half full and every walk
covers half of it (`hasRoom_of_half_empty`).
-/
import AntzKV.Core.Table
import AntzKV.Lib.SquareProbe

namespace AntzKV

open OpenAddressing (Slot Findable Passes)

variable {S : Type}

/-- The slots `probe` looks at for a key, in a table of `cap` slots. -/
def probePath (cap : Nat) (key : CStr) (n : Nat) : Nat :=
  SquareProbe.slot cap ((fnv1a key).toNat % cap) n

theorem probePath_lt {cap : Nat} (hcap : 0 < cap) (key : CStr) (n : Nat) :
    probePath cap key n < cap := SquareProbe.slot_lt hcap _ n

/-- A walk that gives up hands back the slot it looked at last. -/
theorem probePath_last {cap : Nat} (hcap : 0 < cap) (key : CStr) :
    probePath cap key cap = probePath cap key (cap - 1) := by
  obtain ⟨n, rfl⟩ : ∃ n, cap = n + 1 := ⟨cap - 1, by omega⟩
  exact SquareProbe.slot_cap _ n

/-- Counting entries is counting the indices that hold them. -/
theorem card_filter_range_getD {α : Type} (p : α → Bool) (d : α) (l : List α) :
    ((Finset.range l.length).filter fun i => p (l.getD i d)).card = l.countP p := by
  induction l using List.reverseRecOn with
  | nil => rfl
  | append_singleton l a ih =>
    rw [List.length_append, List.length_singleton, Finset.range_add_one, Finset.filter_insert]
    have hlow : ((Finset.range l.length).filter fun i => p ((l ++ [a]).getD i d)) =
        ((Finset.range l.length).filter fun i => p (l.getD i d)) := by
      apply Finset.filter_congr
      intro i hi
      rw [List.getD_append _ _ _ _ (Finset.mem_range.mp hi)]
    have hlast : (l ++ [a]).getD l.length d = a := by simp [List.getD_eq_getElem?_getD]
    rw [hlow, hlast, List.countP_append, List.countP_singleton]
    split
    · rw [Finset.card_insert_of_notMem (by simp), ih]
    · rw [ih, Nat.add_zero]

namespace KvTable

/-! ## The bridge -/

theorem probeLoop_eq_search (db : KvTable S) (key : CStr) : ∀ (left n : Nat),
    db.probeLoop key left (probePath db.capacity key n) (n + 1)
      = OpenAddressing.search db.entry key (probePath db.capacity key) left n
  | 0, n => rfl
  | left + 1, n => by
    have hstep : (probePath db.capacity key n + (n + 1) * (n + 1)) % db.capacity
        = probePath db.capacity key (n + 1) := (SquareProbe.slot_succ _ _ n).symm
    rw [probeLoop, OpenAddressing.search]
    cases db.entry (probePath db.capacity key n) with
    | empty => rfl
    | occupied k o =>
      simp only [strcmp_eq_eq]
      rw [hstep, probeLoop_eq_search db key left (n + 1)]
    | deleted =>
      simp only
      rw [hstep, probeLoop_eq_search db key left (n + 1)]

theorem probe_eq_probe (db : KvTable S) (key : CStr) :
    db.probe key = OpenAddressing.probe (probePath db.capacity) db.capacity db.entry key := by
  have h0 : probePath db.capacity key 0 = (fnv1a key).toNat % db.capacity := by
    simp [probePath, SquareProbe.slot, SquareProbe.sqSum]
  rw [probe, OpenAddressing.probe, ← probeLoop_eq_search, h0]

/-- `kv_get_object` reads the finite map of the table. -/
theorem kvGetObject_eq_lookup (db : KvTable S) (key : CStr) :
    db.kvGetObject key
      = OpenAddressing.lookup (probePath db.capacity) db.capacity db.entry key := by
  rw [kvGetObject, OpenAddressing.lookup, probe_eq_probe]

theorem entry_eq_empty_of_le {db : KvTable S} {i : Nat} (h : db.capacity ≤ i) :
    db.entry i = .empty := by
  rw [entry, List.getD_eq_getElem?_getD, List.getElem?_eq_none h]
  rfl

theorem lt_capacity_of_entry {db : KvTable S} {i : Nat} {k : CStr} {o : DbObject S}
    (h : db.entry i = .occupied k o) : i < db.capacity := by
  by_contra hge
  rw [entry_eq_empty_of_le (Nat.le_of_not_lt hge)] at h
  simp at h

@[simp] theorem capacity_setEntry (db : KvTable S) (i : Nat) (e : KvEntry S) :
    (db.setEntry i e).capacity = db.capacity := by
  simp [capacity, setEntry]

theorem entry_setEntry {db : KvTable S} {i : Nat} (hi : i < db.capacity) (e : KvEntry S) :
    (db.setEntry i e).entry = Function.update db.entry i e := by
  have hi' : i < db.entries.length := hi
  funext j
  simp only [entry, setEntry, List.getD_eq_getElem?_getD, List.getElem?_set]
  by_cases hj : i = j
  · subst hj
    simp [hi']
  · rw [if_neg hj, Function.update_of_ne (Ne.symm hj), entry, List.getD_eq_getElem?_getD]

theorem occupied_setEntry {db : KvTable S} {i : Nat} (hi : i < db.capacity) (e : KvEntry S) :
    (db.setEntry i e).occupied
      = db.occupied - (if (db.entry i).isOccupied then 1 else 0)
          + (if e.isOccupied then 1 else 0) := by
  have hi' : i < db.entries.length := hi
  have hget : db.entry i = db.entries[i] := by
    rw [entry, List.getD_eq_getElem?_getD, List.getElem?_eq_getElem hi']
    rfl
  rw [occupied, setEntry, List.countP_set hi', hget]
  rfl

theorem one_le_occupied {db : KvTable S} {i : Nat} (h : (db.entry i).isOccupied = true) :
    1 ≤ db.occupied := by
  have hi : i < db.entries.length := by
    by_contra hge
    rw [entry_eq_empty_of_le (Nat.le_of_not_lt hge)] at h
    simp [Slot.isOccupied] at h
  apply List.countP_pos_iff.mpr
  refine ⟨db.entries[i], List.getElem_mem hi, ?_⟩
  rwa [entry, List.getD_eq_getElem?_getD, List.getElem?_eq_getElem hi] at h

/-! ## The invariant -/

/-- What every reachable table satisfies. -/
structure Wf (db : KvTable S) : Prop where
  pow : ∃ m, db.capacity = 2 ^ (m + 5)
  addressable : kvEntrySize * db.capacity < sizeBound
  findable : Findable (probePath db.capacity) db.capacity db.entry
  occupied_le : db.occupied ≤ db.count
  load : 4 * db.count ≤ 3 * db.capacity

theorem Wf.capacity_pos {db : KvTable S} (h : db.Wf) : 0 < db.capacity := by
  obtain ⟨m, hm⟩ := h.pow
  rw [hm]
  exact Nat.pow_pos (by norm_num)

theorem probe_lt {db : KvTable S} (hcap : 0 < db.capacity) (key : CStr) :
    (db.probe key).1 < db.capacity := by
  rw [probe_eq_probe]
  cases hp : OpenAddressing.probe (probePath db.capacity) db.capacity db.entry key with
  | mk a b =>
    cases b with
    | true =>
      obtain ⟨m, _, v, rfl, _, _⟩ := OpenAddressing.probe_found hp
      exact probePath_lt hcap key m
    | false =>
      rcases OpenAddressing.probe_missed hp with ⟨m, _, rfl, _⟩ | ⟨rfl, _⟩
      · exact probePath_lt hcap key m
      · exact probePath_lt hcap key db.capacity

theorem probe_found {db : KvTable S} {key : CStr} (h : (db.probe key).2 = true) :
    ∃ o, db.entry (db.probe key).1 = .occupied key o := by
  rw [probe_eq_probe] at h ⊢
  obtain ⟨m, _, o, _, ho, _⟩ := OpenAddressing.probe_found (Prod.ext rfl h)
  exact ⟨o, ho⟩

/-! ## Room on the path of a key -/

/-- An insertion of `key` has a place to go: the load factor makes the
table grow first, or the key is there already, or one of the slots its
probe looks at is empty, or the last of them is free. -/
def HasRoom (db : KvTable S) (key : CStr) : Prop :=
  db.overloaded = true ∨ (db.probe key).2 = true ∨
    (∃ n < db.capacity, (db.entry (probePath db.capacity key n)).isEmpty = true) ∨
    (db.entry (probePath db.capacity key (db.capacity - 1))).isOccupied = false

instance (db : KvTable S) (key : CStr) : Decidable (db.HasRoom key) :=
  inferInstanceAs (Decidable (_ ∨ _ ∨ _ ∨ _))

theorem exists_empty_of_half_empty {db : KvTable S} {m : Nat} (hcap : db.capacity = 2 ^ (m + 1))
    (hhalf : db.entries.countP (fun e => !e.isEmpty) < 2 ^ m) (key : CStr) :
    ∃ n < db.capacity, db.entry (probePath db.capacity key n) = .empty := by
  rw [← card_filter_range_getD (fun e : KvEntry S => !e.isEmpty) .empty db.entries] at hhalf
  obtain ⟨n, hn, hslot⟩ :=
    SquareProbe.exists_slot_notMem ((fnv1a key).toNat % db.capacity) _ hhalf
  rw [← hcap] at hn hslot
  refine ⟨n, hn, ?_⟩
  have hlt : SquareProbe.slot db.capacity ((fnv1a key).toNat % db.capacity) n < db.entries.length :=
    SquareProbe.slot_lt (by rw [hcap]; exact Nat.pow_pos (by norm_num)) _ n
  simp only [Finset.mem_filter, Finset.mem_range, hlt, true_and] at hslot
  change db.entry (SquareProbe.slot _ _ n) = .empty
  rw [entry]
  cases hs : db.entries.getD (SquareProbe.slot db.capacity ((fnv1a key).toNat % db.capacity) n) .empty with
  | empty => rfl
  | occupied k o =>
    rw [hs] at hslot
    simp [Slot.isEmpty] at hslot
  | deleted =>
    rw [hs] at hslot
    simp [Slot.isEmpty] at hslot

/-- Where the insertion of a new key lands, and what stands there. -/
theorem entry_probe_of_missed {db : KvTable S} (hcap : 0 < db.capacity) {key : CStr}
    (hmiss : (db.probe key).2 = false) :
    (db.entry (db.probe key).1 = .empty ∧
        ∃ n < db.capacity, db.entry (probePath db.capacity key n) = .empty) ∨
    ((db.probe key).1 = probePath db.capacity key (db.capacity - 1) ∧
        ∀ n < db.capacity, db.entry (probePath db.capacity key n) ≠ .empty) := by
  rw [probe_eq_probe] at hmiss ⊢
  rcases OpenAddressing.probe_missed (Prod.ext rfl hmiss) with ⟨m, hm, hma, he, _⟩ | ⟨hna, hpass⟩
  · exact Or.inl ⟨he, m, hm, hma ▸ he⟩
  · exact Or.inr ⟨hna.symm.trans (probePath_last hcap key), fun n hn => (hpass n hn).1⟩

/-- A missing key has room exactly when its insertion overwrites nothing. -/
theorem hasRoom_iff_of_missed {db : KvTable S} (hcap : 0 < db.capacity) {key : CStr}
    (hload : db.overloaded = false) (hmiss : (db.probe key).2 = false) :
    db.HasRoom key ↔ (db.entry (db.probe key).1).isOccupied = false := by
  simp only [HasRoom, hload, hmiss, Bool.false_eq_true, false_or, Slot.isEmpty_iff]
  rcases entry_probe_of_missed hcap hmiss with ⟨he, hex⟩ | ⟨hlast, hall⟩
  · simp [he, Slot.isOccupied, hex]
  · rw [hlast]
    constructor
    · rintro (⟨n, hn, hne⟩ | h)
      · exact absurd hne (hall n hn)
      · exact h
    · exact Or.inr

/-! ## Writing at the slot of a key -/

section Store

variable {db : KvTable S} (hcap : 0 < db.capacity)
  (hF : Findable (probePath db.capacity) db.capacity db.entry) (key : CStr) (obj : DbObject S)

theorem store_eq (db : KvTable S) :
    db.store key obj =
      { db with
        entries := db.entries.set (db.probe key).1 (.occupied key obj)
        count := if (db.probe key).2 then db.count else db.count + 1 } := by
  rw [store]
  cases hp : db.probe key with
  | mk idx found => cases found <;> rfl

@[simp] theorem capacity_store (db : KvTable S) : (db.store key obj).capacity = db.capacity := by
  simp [store_eq, capacity]

theorem count_store (db : KvTable S) :
    (db.store key obj).count = if (db.probe key).2 then db.count else db.count + 1 := by
  rw [store_eq]

include hcap in
theorem entry_store :
    (db.store key obj).entry = Function.update db.entry (db.probe key).1 (.occupied key obj) := by
  rw [store_eq]
  exact entry_setEntry (probe_lt hcap key) (.occupied key obj)

include hcap hF in
/-- Findability survives the write, also when it lands on another key. -/
theorem findable_store :
    Findable (probePath db.capacity) db.capacity (db.store key obj).entry := by
  rw [entry_store hcap]
  cases hp : (db.probe key).2 with
  | true =>
    obtain ⟨o, ho⟩ := probe_found hp
    exact hF.replace ho obj
  | false =>
    have hp' : OpenAddressing.probe (probePath db.capacity) db.capacity db.entry key
        = ((db.probe key).1, false) := by
      rw [← probe_eq_probe]
      exact Prod.ext rfl hp
    exact hF.insert hcap (probePath_last hcap key) hp' obj

include hcap hF in
/-- The map after the write: the key has the object, and a different key
that stood in the slot is gone. -/
theorem kvGetObject_store (k : CStr) :
    (db.store key obj).kvGetObject k
      = if k = key then some obj
        else if (db.entry (db.probe key).1).key? = some k then none
        else db.kvGetObject k := by
  have hfind := findable_store hcap hF key obj
  simp only [kvGetObject_eq_lookup, capacity_store]
  rw [entry_store hcap] at hfind ⊢
  exact OpenAddressing.lookup_fill hF hfind k

include hcap in
theorem occupied_store :
    (db.store key obj).occupied
      = if (db.entry (db.probe key).1).isOccupied then db.occupied else db.occupied + 1 := by
  have h : (db.store key obj).occupied
      = (db.setEntry (db.probe key).1 (.occupied key obj)).occupied := by
    rw [store_eq]
    rfl
  rw [h, occupied_setEntry (probe_lt hcap key)]
  split
  · rename_i ho
    have := one_le_occupied ho
    simp only [Slot.isOccupied, if_true]
    omega
  · simp [Slot.isOccupied]

end Store

/-! ## `resize` -/

/-- The keys of a table whose keys are findable are pairwise distinct
along the entry array. -/
theorem nodup_keys {db : KvTable S}
    (hF : Findable (probePath db.capacity) db.capacity db.entry) :
    (db.entries.filterMap Slot.key?).Nodup := by
  rw [List.Nodup, List.pairwise_filterMap, List.pairwise_iff_getElem]
  intro i j hi hj hij k hk k' hk' hkk
  subst hkk
  obtain ⟨o, ho⟩ := Slot.key?_eq_some.mp hk
  obtain ⟨o', ho'⟩ := Slot.key?_eq_some.mp hk'
  have hei : db.entry i = .occupied k o := by
    rw [entry, List.getD_eq_getElem?_getD, List.getElem?_eq_getElem hi, ← ho]
    rfl
  have hej : db.entry j = .occupied k o' := by
    rw [entry, List.getD_eq_getElem?_getD, List.getElem?_eq_getElem hj, ← ho']
    rfl
  exact absurd (hF.unique hei hej) (by omega)

theorem exists_entry_iff_mem {db : KvTable S} {k : CStr} {o : DbObject S} :
    (∃ a, db.entry a = .occupied k o) ↔ Slot.occupied k o ∈ db.entries := by
  constructor
  · rintro ⟨a, ha⟩
    have hlt : a < db.entries.length := lt_capacity_of_entry ha
    rw [entry, List.getD_eq_getElem?_getD, List.getElem?_eq_getElem hlt] at ha
    exact ha ▸ List.getElem_mem hlt
  · intro h
    obtain ⟨a, ha, he⟩ := List.getElem_of_mem h
    refine ⟨a, ?_⟩
    rw [entry, List.getD_eq_getElem?_getD, List.getElem?_eq_getElem ha, he]
    rfl

/-- The table in the middle of the loop of `resize`: it holds exactly the
pairs of the old entries `done`, and no tombstone. -/
structure Rehashed (t : KvTable S) (cap : Nat) (done : List (KvEntry S)) : Prop where
  capacity : t.capacity = cap
  findable : Findable (probePath cap) cap t.entry
  noDeleted : ∀ e ∈ t.entries, e ≠ .deleted
  count : t.count = done.countP Slot.isOccupied
  occupied : t.occupied = done.countP Slot.isOccupied
  pairs : ∀ k o, Slot.occupied k o ∈ t.entries ↔ Slot.occupied k o ∈ done

/-- Without tombstones the entries that are not empty are the occupied ones. -/
theorem countP_nonempty {l : List (KvEntry S)} (h : ∀ e ∈ l, e ≠ .deleted) :
    l.countP (fun e => !e.isEmpty) = l.countP Slot.isOccupied := by
  apply List.countP_congr
  intro e he
  have := h e he
  cases e with
  | empty => simp [Slot.isEmpty, Slot.isOccupied]
  | occupied k o => simp [Slot.isEmpty, Slot.isOccupied]
  | deleted => simp at this

theorem Rehashed.probe_missed {t : KvTable S} {cap : Nat} {done : List (KvEntry S)}
    (h : t.Rehashed cap done) {k : CStr} (hnew : ∀ o, Slot.occupied k o ∉ done) :
    (t.probe k).2 = false := by
  cases hp : (t.probe k).2 with
  | false => rfl
  | true =>
    obtain ⟨o, ho⟩ := probe_found hp
    have := (h.pairs k o).mp (exists_entry_iff_mem.mp ⟨_, ho⟩)
    exact absurd this (hnew o)

/-- A table less than half full has an empty entry on every walk. -/
theorem Rehashed.entry_probe {t : KvTable S} {m : Nat} {done : List (KvEntry S)}
    (h : t.Rehashed (2 ^ (m + 1)) done) (hhalf : done.countP Slot.isOccupied < 2 ^ m) {k : CStr}
    (hmiss : (t.probe k).2 = false) : t.entry (t.probe k).1 = .empty := by
  have hcap : 0 < t.capacity := by rw [h.capacity]; exact Nat.pow_pos (by norm_num)
  have hroom := exists_empty_of_half_empty h.capacity
    (by rw [countP_nonempty h.noDeleted]; exact lt_of_eq_of_lt h.occupied hhalf) k
  rcases entry_probe_of_missed hcap hmiss with ⟨he, _⟩ | ⟨_, hall⟩
  · exact he
  · obtain ⟨n, hn, hne⟩ := hroom
    exact absurd hne (hall n hn)

theorem Rehashed.step {t : KvTable S} {m : Nat} {done : List (KvEntry S)}
    (h : t.Rehashed (2 ^ (m + 1)) done) {k : CStr} {o : DbObject S}
    (hhalf : done.countP Slot.isOccupied < 2 ^ m)
    (hnew : ∀ o', Slot.occupied k o' ∉ done) :
    (t.rehash (.occupied k o)).Rehashed (2 ^ (m + 1)) (done ++ [.occupied k o]) := by
  have hcap : 0 < t.capacity := by rw [h.capacity]; exact Nat.pow_pos (by norm_num)
  have hF : Findable (probePath t.capacity) t.capacity t.entry := h.capacity ▸ h.findable
  have hmiss := h.probe_missed hnew
  have hempty := h.entry_probe hhalf hmiss
  -- an entry found empty: the iteration is the write of `kv_set_object`
  have hstore : t.rehash (.occupied k o) = t.store k o := by
    simp [rehash, store, hmiss]
  rw [hstore]
  have hcount1 : (done ++ [Slot.occupied k o]).countP Slot.isOccupied
      = done.countP Slot.isOccupied + 1 := by
    simp [List.countP_append, Slot.isOccupied]
  refine ⟨by rw [capacity_store, h.capacity], ?_, ?_, ?_, ?_, ?_⟩
  · have := findable_store hcap hF k o
    rwa [h.capacity] at this
  · intro e he
    rw [store_eq] at he
    rcases List.mem_or_eq_of_mem_set he with hm | rfl
    · exact h.noDeleted e hm
    · simp
  · rw [count_store, hmiss, hcount1, ← h.count]
    rfl
  · rw [occupied_store hcap, hempty, hcount1, ← h.occupied]
    rfl
  · intro k' o'
    rw [← exists_entry_iff_mem, entry_store hcap, List.mem_append, List.mem_singleton,
      ← h.pairs k' o', ← exists_entry_iff_mem]
    constructor
    · rintro ⟨a, ha⟩
      by_cases haa : a = (t.probe k).1
      · subst haa
        rw [Function.update_self] at ha
        exact Or.inr ha.symm
      · rw [Function.update_of_ne haa] at ha
        exact Or.inl ⟨a, ha⟩
    · rintro (⟨a, ha⟩ | he)
      · have haa : a ≠ (t.probe k).1 := by
          rintro rfl
          rw [hempty] at ha
          simp at ha
        exact ⟨a, by rwa [Function.update_of_ne haa]⟩
      · exact ⟨(t.probe k).1, by rw [Function.update_self, he]⟩

/-- The loop of `resize` over the entries that are left. -/
theorem Rehashed.loop {m : Nat} : ∀ (rest done : List (KvEntry S)) (t : KvTable S),
    t.Rehashed (2 ^ (m + 1)) done →
    (done ++ rest).countP Slot.isOccupied < 2 ^ m →
    ((done ++ rest).filterMap Slot.key?).Nodup →
    (rest.foldl rehash t).Rehashed (2 ^ (m + 1)) (done ++ rest)
  | [], done, t, h, _, _ => by simpa using h
  | e :: rest, done, t, h, hhalf, hnodup => by
    have hsplit : done ++ e :: rest = (done ++ [e]) ++ rest := by simp
    have hskip : e.isOccupied = false → t.rehash e = t → (t.rehash e).Rehashed (2 ^ (m + 1)) (done ++ [e]) := by
      intro he ht
      rw [ht]
      have hc : (done ++ [e]).countP Slot.isOccupied = done.countP Slot.isOccupied := by
        simp [List.countP_append, he]
      refine ⟨h.capacity, h.findable, h.noDeleted, hc ▸ h.count, hc ▸ h.occupied, ?_⟩
      intro k o
      rw [h.pairs, List.mem_append, List.mem_singleton]
      constructor
      · exact Or.inl
      · rintro (hm | rfl)
        · exact hm
        · simp [Slot.isOccupied] at he
    rw [hsplit] at hhalf hnodup ⊢
    rw [List.foldl_cons]
    apply Rehashed.loop rest (done ++ [e]) _ _ hhalf hnodup
    cases e with
    | empty => exact hskip rfl rfl
    | deleted => exact hskip rfl rfl
    | occupied k o =>
      apply h.step
      · refine lt_of_le_of_lt ?_ hhalf
        rw [List.countP_append, List.countP_append]
        omega
      · intro o' ho'
        rw [List.filterMap_append, List.filterMap_append] at hnodup
        have hdisj := (List.nodup_append.mp (List.nodup_append.mp hnodup).1).2.2
        exact hdisj k (List.mem_filterMap.mpr ⟨_, ho', rfl⟩) k (by simp [Slot.key?]) rfl

/-- A resize that succeeds: twice the capacity, no tombstone, an exact
count, and the same map. -/
theorem resize_spec {db db' : KvTable S} (h : db.Wf) {calloc : Bool}
    (hr : db.resize calloc = some db') :
    db'.Rehashed (2 * db.capacity) db.entries ∧ kvEntrySize * db'.capacity < sizeBound ∧
      db'.path = db.path ∧ db'.dbVersion = db.dbVersion := by
  unfold resize at hr
  split at hr
  · rename_i hc
    obtain ⟨m, hm⟩ := h.pow
    have hpow : 2 * db.capacity = 2 ^ (m + 5 + 1) := by rw [hm, pow_succ (n := m + 5)]; ring
    have hle := h.occupied_le
    have hld := h.load
    have hhalf : db.entries.countP Slot.isOccupied < 2 ^ (m + 5) := by
      have hpos := h.capacity_pos
      have : db.entries.countP Slot.isOccupied = db.occupied := rfl
      rw [← hm]
      omega
    have hstart : ({ db with entries := List.replicate (2 * db.capacity) .empty, count := 0 } :
        KvTable S).Rehashed (2 ^ (m + 5 + 1)) [] := by
      rw [← hpow]
      have hnone : ∀ e ∈ List.replicate (2 * db.capacity) (Slot.empty : KvEntry S), e = .empty :=
        fun e he => List.eq_of_mem_replicate he
      refine ⟨by simp [capacity], ?_, ?_, rfl, ?_, ?_⟩
      · intro a k o hak
        have := exists_entry_iff_mem.mp ⟨a, hak⟩
        simpa using hnone _ this
      · intro e he
        rw [hnone e he]
        simp
      · simp [occupied, Slot.isOccupied]
      · intro k o
        simp only [List.not_mem_nil, iff_false]
        intro he
        simpa using hnone _ he
    have hloop := Rehashed.loop db.entries [] _ hstart (by simpa using hhalf)
      (by simpa using nodup_keys h.findable)
    have hfix : ∀ (l : List (KvEntry S)) (t : KvTable S),
        (l.foldl rehash t).path = t.path ∧ (l.foldl rehash t).dbVersion = t.dbVersion := by
      intro l
      induction l with
      | nil => intro t; exact ⟨rfl, rfl⟩
      | cons e l ih =>
        intro t
        rw [List.foldl_cons, (ih _).1, (ih _).2]
        cases e <;> exact ⟨rfl, rfl⟩
    rw [List.nil_append] at hloop
    obtain rfl := Option.some.inj hr
    refine ⟨hpow ▸ hloop, ?_, (hfix _ _).1, (hfix _ _).2⟩
    rw [hloop.capacity, ← hpow]
    exact hc.2
  · simp at hr

theorem Wf.resize {db db' : KvTable S} (h : db.Wf) {calloc : Bool}
    (hr : db.resize calloc = some db') : db'.Wf ∧ db'.overloaded = false ∧
      db'.count = db'.occupied ∧ ∀ k, db'.kvGetObject k = db.kvGetObject k := by
  obtain ⟨hre, haddr, _, _⟩ := resize_spec h hr
  have hcnt : db'.count = db.occupied := hre.count
  have hocc : db'.occupied = db.occupied := hre.occupied
  have hle := h.occupied_le
  have hld := h.load
  have hpos := h.capacity_pos
  obtain ⟨m, hm⟩ := h.pow
  have h32 : 32 ≤ db.capacity := by
    rw [hm, pow_add]
    have : 0 < 2 ^ m := Nat.pow_pos (by norm_num)
    omega
  refine ⟨⟨⟨m + 1, ?_⟩, haddr, ?_, by omega, ?_⟩, ?_, by omega, ?_⟩
  · rw [hre.capacity, hm]
    ring
  · rw [hre.capacity]
    exact hre.findable
  · rw [hre.capacity]
    omega
  · simp only [overloaded, hre.capacity, decide_eq_false_iff_not]
    omega
  · intro k
    rw [kvGetObject_eq_lookup, kvGetObject_eq_lookup, hre.capacity]
    apply OpenAddressing.lookup_eq_of_iff h.findable hre.findable
    intro o
    rw [exists_entry_iff_mem, exists_entry_iff_mem]
    exact hre.pairs k o

end KvTable

end AntzKV

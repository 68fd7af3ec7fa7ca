/-
AntzKV.Core.KeySpaceTheorems — the table as a map from keys to objects.

Two functions of `kvdb.c` walk the whole entry array, and both rest on the
invariant of the reachable tables. `resize` moves every occupied entry to
where `probe` finds it in the larger array, so the map stays what it was.
`kv_keys` stops after `count` keys; `count` never falls below the number of
occupied entries, so it stops after the last one, and since no key is
stored twice the keys it returns are the keys that exist, once each.
-/
import AntzKV.Core.Reads
import AntzKV.Core.CommandsTheorems

namespace AntzKV

open OpenAddressing (Slot)

variable {S : Type}

namespace KvTable

/-! ## The keys -/

theorem kvKeys_eq {db : KvTable S} (h : db.Wf) : db.kvKeys = db.entries.filterMap Slot.key? := by
  refine List.take_of_length_le (le_trans ?_ h.occupied_le)
  rw [occupied, List.length_filterMap_eq_countP]
  refine (List.countP_congr fun e _ => ?_).le
  cases e <;> simp [Slot.key?, Slot.isOccupied]

theorem mem_kvKeys {db : KvTable S} (h : db.Wf) {k : CStr} :
    k ∈ db.kvKeys ↔ ∃ o, db.kvGetObject k = some o := by
  rw [kvKeys_eq h, List.mem_filterMap]
  constructor
  · rintro ⟨e, he, hk⟩
    obtain ⟨o, rfl⟩ := Slot.key?_eq_some.mp hk
    refine ⟨o, ?_⟩
    rw [kvGetObject_eq_lookup, OpenAddressing.lookup_eq_some_iff h.findable]
    exact exists_entry_iff_mem.mpr he
  · rintro ⟨o, ho⟩
    rw [kvGetObject_eq_lookup, OpenAddressing.lookup_eq_some_iff h.findable] at ho
    exact ⟨_, exists_entry_iff_mem.mp ho, rfl⟩

theorem nodup_kvKeys {db : KvTable S} (h : db.Wf) : db.kvKeys.Nodup := by
  rw [kvKeys_eq h]
  exact nodup_keys h.findable

/-- The loop returns the keys of the entries, up to `n`. -/
theorem kvKeysLoop_eq_some {strdup : Nat → Bool} {n : Nat} :
    ∀ {es : List (KvEntry S)} {j : Nat} {keys keys' : List CStr} {c : Nat},
      kvKeysLoop strdup n es j keys = some (keys', c) → keys.length = j →
        keys' = keys ++ (es.filterMap Slot.key?).take (n - j) ∧ c = keys'.length
  | [], j, keys, keys', c, h, hj => by
    obtain ⟨rfl, rfl⟩ : keys = keys' ∧ j = c := by
      simpa [kvKeysLoop] using h
    simp [hj]
  | e :: es, j, keys, keys', c, h, hj => by
    by_cases hn : j < n
    · cases e with
      | empty =>
        simp only [kvKeysLoop, if_pos hn] at h
        rw [List.filterMap_cons_none rfl]
        exact kvKeysLoop_eq_some h hj
      | deleted =>
        simp only [kvKeysLoop, if_pos hn] at h
        rw [List.filterMap_cons_none rfl]
        exact kvKeysLoop_eq_some h hj
      | occupied k o =>
        by_cases hs : strdup j = true
        · simp only [kvKeysLoop, if_pos hn, if_pos hs] at h
          obtain ⟨hkeys, hc⟩ := kvKeysLoop_eq_some h (by simp [hj])
          refine ⟨?_, hc⟩
          obtain ⟨m, hm⟩ : ∃ m, n - j = m + 1 := ⟨n - j - 1, by omega⟩
          have hm' : n - (j + 1) = m := by omega
          rw [hkeys, hm', hm]
          simp [Slot.key?]
        · simp [kvKeysLoop, hn, hs] at h
    · have hret : kvKeysLoop strdup n (e :: es) j keys = some (keys, j) := by
        cases e <;> simp only [kvKeysLoop, if_neg hn]
      obtain ⟨rfl, rfl⟩ : keys = keys' ∧ j = c := by
        simpa [hret] using h
      have hz : n - j = 0 := by omega
      simp [hz, hj]

theorem isSome_kvKeysLoop {strdup : Nat → Bool} (hdup : ∀ j, strdup j = true) (n : Nat) :
    ∀ (es : List (KvEntry S)) (j : Nat) (keys : List CStr),
      (kvKeysLoop strdup n es j keys).isSome = true
  | [], j, keys => rfl
  | e :: es, j, keys => by
    by_cases hn : j < n
    · cases e with
      | empty =>
        simp only [kvKeysLoop, if_pos hn]
        exact isSome_kvKeysLoop hdup n es j keys
      | deleted =>
        simp only [kvKeysLoop, if_pos hn]
        exact isSome_kvKeysLoop hdup n es j keys
      | occupied k o =>
        simp only [kvKeysLoop, if_pos hn, if_pos (hdup j)]
        exact isSome_kvKeysLoop hdup n es (j + 1) _
    · cases e <;> simp only [kvKeysLoop, if_neg hn, Option.isSome_some]

theorem kvKeysAlloc_eq_some {db : KvTable S} {malloc : Bool} {strdup : Nat → Bool}
    {keys : List CStr} {n : Nat} (h : db.kvKeysAlloc malloc strdup = some (keys, n)) :
    keys = db.kvKeys ∧ n = keys.length := by
  unfold kvKeysAlloc at h
  split at h
  · simpa [kvKeys] using kvKeysLoop_eq_some h rfl
  · simp at h

section Reachable

variable [LinearOrder S]

/-- In every reachable table `kv_keys` returns the keys that exist, each
once, with their number; and it does return unless an allocation fails. -/
theorem kvKeysAlloc_storeRun (path : Option CStr) (file : Option (List UInt8))
    (ops : List (StoreOp S)) (malloc : Bool) (strdup : Nat → Bool) :
    (∀ keys n, (storeRun path file ops).kvKeysAlloc malloc strdup = some (keys, n) →
      keys.Nodup ∧ (∀ k, k ∈ keys ↔ (storeRun path file ops).kvExists k = true) ∧
        n = keys.length) ∧
    (malloc = true → (∀ j, strdup j = true) →
      ((storeRun path file ops).kvKeysAlloc malloc strdup).isSome = true) := by
  have hwf : (storeRun path file ops).Wf := Wf.storeRun path file ops
  constructor
  · intro keys n h
    obtain ⟨rfl, hn⟩ := kvKeysAlloc_eq_some h
    refine ⟨nodup_kvKeys hwf, fun k => ?_, hn⟩
    rw [mem_kvKeys hwf, kvExists, probe_found_iff]
  · intro hm hdup
    rw [kvKeysAlloc, if_pos hm]
    exact isSome_kvKeysLoop hdup _ _ _ _

/-- Two keys set, one of them deleted again. -/
theorem kvKeysAlloc_storeRun_deleted :
    (storeRun none none [.table (.set true (.lit "a") (.lit "1") 5),
        .table (.set true (.lit "b") (.lit "2") 6), .table (.del (.lit "a"))] :
      KvTable Int).kvKeysAlloc true (fun _ => true) = some ([.lit "b"], 1) ∧
    ([.lit "b"] : List CStr).Nodup ∧
    (∀ k, k ∈ [CStr.lit "b"] ↔
      (storeRun none none [.table (.set true (.lit "a") (.lit "1") 5),
        .table (.set true (.lit "b") (.lit "2") 6), .table (.del (.lit "a"))] :
      KvTable Int).kvExists k = true) := by
  have hret : (storeRun none none [.table (.set true (.lit "a") (.lit "1") 5),
      .table (.set true (.lit "b") (.lit "2") 6), .table (.del (.lit "a"))] :
      KvTable Int).kvKeysAlloc true (fun _ => true) = some ([.lit "b"], 1) := by
    decide
  obtain ⟨hnodup, hmem, _⟩ := (kvKeysAlloc_storeRun none none _ true (fun _ => true)).1 _ _ hret
  exact ⟨hret, hnodup, hmem⟩

/-! ## Resizing -/

/-- A resize of a reachable table that succeeds keeps every key and its
object, leaves no tombstone, and counts what it moved. -/
theorem resize_storeRun (path : Option CStr) (file : Option (List UInt8))
    (ops : List (StoreOp S)) (calloc : Bool) (db' : KvTable S)
    (hr : (storeRun path file ops).resize calloc = some db') :
    (∀ k, db'.kvGetObject k = (storeRun path file ops).kvGetObject k) ∧
    (∀ e ∈ db'.entries, e ≠ .deleted) ∧
    db'.count = db'.entries.countP Slot.isOccupied := by
  have hwf : (storeRun path file ops).Wf := Wf.storeRun path file ops
  obtain ⟨_, _, hcount, hmap⟩ := hwf.resize hr
  exact ⟨hmap, (resize_spec hwf hr).1.noDeleted, hcount⟩

/-- The table with a tombstone, enlarged. -/
theorem resize_storeRun_deleted :
    ∃ db', (storeRun none none [.table (.set true (.lit "a") (.lit "1") 5),
        .table (.set true (.lit "b") (.lit "2") 6), .table (.del (.lit "a"))] :
      KvTable Int).resize true = some db' ∧
      (∀ e ∈ db'.entries, e ≠ .deleted) ∧ db'.count = db'.entries.countP Slot.isOccupied := by
  have hsome : ((storeRun none none [.table (.set true (.lit "a") (.lit "1") 5),
      .table (.set true (.lit "b") (.lit "2") 6), .table (.del (.lit "a"))] :
      KvTable Int).resize true).isSome = true := by
    decide
  obtain ⟨db', hr⟩ := Option.isSome_iff_exists.mp hsome
  exact ⟨db', hr, (resize_storeRun none none _ true db' hr).2⟩

end Reachable

end KvTable

end AntzKV

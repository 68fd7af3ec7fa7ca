/-
AntzKV.Core.SetTheorems — the loops of `kv_sadd`, `kv_srem` and `kv_hdel`
as operations on finite sets.

A loop takes its arguments one by one and counts the calls that return 1,
over a table that may double in between. `keySet` is the set a table
stands for. The calls that return 1 are those that change its size, so a
loop counts the difference of two cardinalities, whatever is repeated
among its arguments.
-/
import AntzKV.Core.Commands
import AntzKV.Core.SimpleHtTheorems

namespace AntzKV

namespace SimpleHt

/-- The keys of a table. -/
def keySet (ht : SimpleHt) : Finset CStr := ht.htKeys.toFinset

variable {ht : SimpleHt} {m : HtMap}

theorem Holds.htExists_eq (h : ht.Holds m) (k : CStr) : ht.htExists k = (m k).isSome := by
  rw [SimpleHt.htExists, h.htFind, Option.isSome_map]

theorem Holds.mem_keySet (h : ht.Holds m) {k : CStr} : k ∈ ht.keySet ↔ ht.htExists k = true := by
  rw [h.htExists_eq, keySet, List.mem_toFinset, htKeys, h.entries_eq, List.mem_map,
    Option.isSome_iff_exists]
  constructor
  · rintro ⟨⟨k', v⟩, hn, rfl⟩
    exact ⟨v, (h.table.entries k' v).mp hn⟩
  · rintro ⟨v, hv⟩
    exact ⟨(k, v), (h.table.entries k v).mpr hv, rfl⟩

theorem Holds.card_keySet (h : ht.Holds m) : ht.keySet.card = ht.count := by
  have hnodup : ht.htKeys.Nodup := by
    rw [htKeys, h.entries_eq]
    exact h.table.nodup
  rw [keySet, List.toFinset_card_of_nodup hnodup, htKeys, h.entries_eq, List.length_map, h.count]

/-! ## One call -/

/-- `ht_add` puts its key in and returns 1 when the set has grown. -/
theorem Holds.keySet_htAdd (h : ht.Holds m) (key : CStr) (val : Option CStr) (replace : Bool) :
    (ht.htAdd key val replace).1.keySet = insert key ht.keySet ∧
      (ht.htAdd key val replace).1.count
        = ht.count + if (ht.htAdd key val replace).2 then 1 else 0 := by
  obtain ⟨-, hholds, hflag⟩ := h.htAdd key val replace
  have hset : (ht.htAdd key val replace).1.keySet = insert key ht.keySet := by
    ext k
    rw [hholds.mem_keySet, hholds.htExists_eq, Finset.mem_insert, h.mem_keySet, h.htExists_eq]
    by_cases hk : k = key
    · subst hk
      cases hm : m k <;> cases replace <;> simp [HtOp.onMap, hm]
    · cases hm : m key <;> cases replace <;> simp [HtOp.onMap, hm, hk]
  refine ⟨hset, ?_⟩
  rw [← hholds.card_keySet, hset, hflag, ← h.card_keySet]
  by_cases hmem : key ∈ ht.keySet
  · have hsome : (m key).isSome = true := by rwa [← h.htExists_eq, ← h.mem_keySet]
    obtain ⟨v, hv⟩ := Option.isSome_iff_exists.mp hsome
    rw [Finset.insert_eq_of_mem hmem]
    cases replace <;> simp [HtOp.onMap, hv]
  · have hnone : m key = none := by
      rw [h.mem_keySet, h.htExists_eq] at hmem
      simpa using hmem
    rw [Finset.card_insert_of_notMem hmem]
    simp [HtOp.onMap, hnone]

/-- `ht_remove` takes its key out and returns 1 when the set has shrunk. -/
theorem Holds.keySet_htRemove (h : ht.Holds m) (key : CStr) :
    (ht.htRemove key).1.keySet = ht.keySet.erase key ∧
      ht.count = (ht.htRemove key).1.count + if (ht.htRemove key).2 then 1 else 0 := by
  obtain ⟨hholds, hflag⟩ := h.htRemove key
  have hset : (ht.htRemove key).1.keySet = ht.keySet.erase key := by
    ext k
    rw [hholds.mem_keySet, hholds.htExists_eq, Finset.mem_erase, h.mem_keySet, h.htExists_eq]
    by_cases hk : k = key
    · simp [hk]
    · simp [hk]
  refine ⟨hset, ?_⟩
  rw [← hholds.card_keySet, hset, hflag, ← h.card_keySet, ← h.htExists_eq]
  by_cases hmem : key ∈ ht.keySet
  · rw [if_pos (h.mem_keySet.mp hmem), Finset.card_erase_add_one hmem]
  · rw [Finset.erase_eq_of_notMem hmem, if_neg fun hc => hmem (h.mem_keySet.mpr hc), Nat.add_zero]

/-! ## The loops -/

/-- A round of the loop of `kv_sadd`. -/
def addStep (r : SimpleHt × Nat) (m : CStr) : SimpleHt × Nat :=
  ((r.1.htAdd m none false).1, if (r.1.htAdd m none false).2 then r.2 + 1 else r.2)

/-- A round of the loop of `kv_srem` and `kv_hdel`. -/
def removeStep (r : SimpleHt × Nat) (k : CStr) : SimpleHt × Nat :=
  ((r.1.htRemove k).1, if (r.1.htRemove k).2 then r.2 + 1 else r.2)

theorem Holds.addLoop (h : ht.Holds m) (ms : List CStr) (a : Nat) :
    (∃ m', (ms.foldl addStep (ht, a)).1.Holds m') ∧
      (ms.foldl addStep (ht, a)).1.keySet = ht.keySet ∪ ms.toFinset ∧
      (ms.foldl addStep (ht, a)).2 + ht.count = a + (ms.foldl addStep (ht, a)).1.count := by
  induction ms generalizing ht m a with
  | nil => exact ⟨⟨m, h⟩, by simp, rfl⟩
  | cons k ms ih =>
    obtain ⟨hset, hcount⟩ := h.keySet_htAdd k none false
    obtain ⟨hholds, hset', hcount'⟩ := ih (h.htAdd k none false).2.1
      (if (ht.htAdd k none false).2 then a + 1 else a)
    rw [List.foldl_cons, addStep]
    refine ⟨hholds, ?_, ?_⟩
    · rw [hset', hset, List.toFinset_cons, Finset.insert_union, Finset.union_insert]
    · cases hflag : (ht.htAdd k none false).2 with
      | true =>
        simp only [hflag, if_true] at hcount hcount' ⊢
        omega
      | false =>
        simp only [hflag, Bool.false_eq_true, if_false] at hcount hcount' ⊢
        omega

theorem Holds.removeLoop (h : ht.Holds m) (ks : List CStr) (a : Nat) :
    (∃ m', (ks.foldl removeStep (ht, a)).1.Holds m' ∧ ∀ k v, m' k = some v → m k = some v) ∧
      (ks.foldl removeStep (ht, a)).1.keySet = ht.keySet \ ks.toFinset ∧
      (ks.foldl removeStep (ht, a)).2 + (ks.foldl removeStep (ht, a)).1.count = a + ht.count := by
  induction ks generalizing ht m a with
  | nil => exact ⟨⟨m, h, fun _ _ hv => hv⟩, by simp, rfl⟩
  | cons k ks ih =>
    obtain ⟨hset, hcount⟩ := h.keySet_htRemove k
    obtain ⟨⟨m', hholds, hsub⟩, hset', hcount'⟩ := ih (h.htRemove k).1
      (if (ht.htRemove k).2 then a + 1 else a)
    rw [List.foldl_cons, removeStep]
    refine ⟨⟨m', hholds, fun k' v hv => ?_⟩, ?_, ?_⟩
    · have hupd := hsub k' v hv
      by_cases hk : k' = k
      · rw [hk, Function.update_self] at hupd
        cases hupd
      · rwa [Function.update_of_ne hk] at hupd
    · rw [hset', hset, List.toFinset_cons, Finset.erase_sdiff_comm, Finset.sdiff_insert]
    · cases hflag : (ht.htRemove k).2 with
      | true =>
        simp only [hflag, if_true] at hcount hcount' ⊢
        omega
      | false =>
        simp only [hflag, Bool.false_eq_true, if_false] at hcount hcount' ⊢
        omega

/-- SADD: the union, and how many of the arguments are new. -/
theorem Holds.addAll (h : ht.Holds m) (ms : List CStr) :
    (∃ m', (ms.foldl addStep (ht, 0)).1.Holds m') ∧
      (ms.foldl addStep (ht, 0)).1.keySet = ht.keySet ∪ ms.toFinset ∧
      (ms.foldl addStep (ht, 0)).2 = (ms.toFinset \ ht.keySet).card := by
  obtain ⟨⟨m', hholds⟩, hset, hcount⟩ := h.addLoop ms 0
  refine ⟨⟨m', hholds⟩, hset, ?_⟩
  have hcard := Finset.card_sdiff_add_card ms.toFinset ht.keySet
  rw [Finset.union_comm, ← hset, hholds.card_keySet, h.card_keySet] at hcard
  omega

/-- SREM and HDEL: the difference, and how many of the arguments were
there. -/
theorem Holds.removeAll (h : ht.Holds m) (ks : List CStr) :
    (∃ m', (KvTable.removeAll ht ks).1.Holds m' ∧ ∀ k v, m' k = some v → m k = some v) ∧
      (KvTable.removeAll ht ks).1.keySet = ht.keySet \ ks.toFinset ∧
      (KvTable.removeAll ht ks).2 = (ks.toFinset ∩ ht.keySet).card := by
  obtain ⟨⟨m', hholds, hsub⟩, hset, hcount⟩ := h.removeLoop ks 0
  refine ⟨⟨m', hholds, hsub⟩, hset, ?_⟩
  have hcard := Finset.card_sdiff_add_card_inter ht.keySet ks.toFinset
  rw [← hset, hholds.card_keySet, h.card_keySet, Finset.inter_comm] at hcard
  have hloop : (KvTable.removeAll ht ks).2 = (ks.foldl removeStep (ht, 0)).2 := rfl
  omega

end SimpleHt

namespace KvTable

variable {S : Type} {db t : KvTable S} {calloc : Calloc} {key : CStr}

theorem kvSadd_eq_err (h : db.wrSetObj calloc key = (t, none)) (members : List CStr) :
    db.kvSadd calloc key members = (t, .err) := by
  simp only [kvSadd, h]

theorem kvSadd_eq_ok {ht : SimpleHt} (h : db.wrSetObj calloc key = (t, some ht))
    (members : List CStr) :
    db.kvSadd calloc key members
      = (t.putData key (.set (members.foldl SimpleHt.addStep (ht, 0)).1),
        .ok (members.foldl SimpleHt.addStep (ht, 0)).2) := by
  simp only [kvSadd, h]
  rfl

end KvTable

end AntzKV

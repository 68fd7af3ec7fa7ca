/-
AntzKV.Core.ExpiryTheorems — expired keys and the reads.

A key is due when its `ttl` is set and has passed. No read looks at the
`ttl`: only `kv_active_expire` does, for the slots it happens to sample.
So a due key stays visible until its slot is sampled
(`due_invisible_iff`), and what the sampling removes is due
(`kvActiveExpire_storeRun`).
-/
import AntzKV.Core.KeySpaceTheorems

namespace AntzKV

variable {S : Type}

namespace KvTable

/-- The object of the key has expired at time `now`. -/
def Due (db : KvTable S) (now : Int) (key : CStr) : Prop :=
  ∃ o, db.kvGetObject key = some o ∧ 0 ≤ o.ttl ∧ o.ttl ≤ now

/-- Every read command answers as it would were the key not there. -/
def Invisible [LinearOrder S] (db : KvTable S) (key : CStr) : Prop :=
  ∀ r : ReadCmd, r.answer db = r.answer (db.kvDel key).1

/-- EXISTS sees every key that is stored. -/
theorem not_invisible_of_stored [LinearOrder S] {db : KvTable S} (h : db.Wf) {key : CStr}
    {o : DbObject S} (hget : db.kvGetObject key = some o) : ¬ db.Invisible key := by
  intro hinv
  have hthere : db.kvExists key = true := probe_found_iff.mpr ⟨o, hget⟩
  have hgone : (db.kvDel key).1.kvExists key = false :=
    probe_missed_of_absent (by rw [kvGetObject_kvDel h, if_pos rfl])
  have hone := hinv (.existsKeys [key])
  simp [ReadCmd.answer, hthere, hgone] at hone

/-- **When no due key is visible**: in any reachable table, whatever was
sampled, exactly when there is no due key. -/
theorem due_invisible_iff [LinearOrder S] (path : Option CStr) (file : Option (List UInt8))
    (ops : List (StoreOp S)) (now : Int) :
    let db := storeRun path file ops
    (∀ key, db.Due now key → db.Invisible key) ↔ ∀ key, ¬ db.Due now key := by
  intro db
  constructor
  · rintro hinv key hdue
    obtain ⟨o, hget, -⟩ := id hdue
    exact not_invisible_of_stored (Wf.storeRun path file ops) hget (hinv key hdue)
  · intro hnone key hdue
    exact absurd hdue (hnone key)

/-- SET a 1, and `kv_set_ttl` to 5. -/
def dueSoon : List (StoreOp Int) :=
  [.table (.set true (.lit "a") (.lit "1") 0), .setTtl (.lit "a") 5]

/-- At 10 the key is due, and GET still answers it. -/
theorem due_key_visible :
    ¬ ∀ key, (storeRun none none dueSoon).Due 10 key → (storeRun none none dueSoon).Invisible key := by
  intro h
  have hdue : (storeRun none none dueSoon).Due 10 (.lit "a") := by
    refine ⟨{ DbObject.objCreateString (.lit "1") 0 with version := 1, ttl := 5 }, ?_, ?_, ?_⟩
    · decide
    · decide
    · decide
  have hread := h (.lit "a") hdue (.get (.lit "a"))
  exact absurd hread (by decide)

/-! ## What the sampling removes

`Expires now db db' n` says all of it: `n` keys have gone from `db` to
`db'`, each of them due. One sample does so with `n` at most one, and the
relation composes, so the loop does with what it counts. -/

/-- The keys the table holds. -/
def liveKeys (db : KvTable S) : Set CStr := {key | db.kvExists key = true}

theorem mem_liveKeys {db : KvTable S} {key : CStr} :
    key ∈ db.liveKeys ↔ (db.kvGetObject key).isSome = true := by
  rw [liveKeys, Set.mem_ofPred_eq, kvExists, probe_found_iff, Option.isSome_iff_exists]

theorem liveKeys_eq {db : KvTable S} (h : db.Wf) : db.liveKeys = ↑db.kvKeys.toFinset := by
  ext key
  rw [List.coe_toFinset, Set.mem_ofPred_eq, mem_kvKeys h, mem_liveKeys, Option.isSome_iff_exists]

theorem ncard_liveKeys {db : KvTable S} (h : db.Wf) : db.liveKeys.ncard = db.occupied := by
  rw [liveKeys_eq h, Set.ncard_coe_finset, List.toFinset_card_of_nodup (nodup_kvKeys h),
    kvKeys_eq h, List.length_filterMap_eq_countP, occupied]
  refine List.countP_congr fun e _ => ?_
  cases e <;> simp [OpenAddressing.Slot.key?, OpenAddressing.Slot.isOccupied]

structure Expires (now : Int) (db db' : KvTable S) (n : Nat) : Prop where
  wf : db'.Wf
  lookup : ∀ key, db'.kvGetObject key = db.kvGetObject key ∨
    (db.Due now key ∧ db'.kvGetObject key = none)
  occupied : db'.occupied + n = db.occupied
  count : db'.count + n = db.count

theorem Expires.refl {db : KvTable S} (h : db.Wf) (now : Int) : Expires now db db 0 where
  wf := h
  lookup := fun _ => .inl rfl
  occupied := rfl
  count := rfl

theorem Expires.trans {now : Int} {db db' db'' : KvTable S} {n m : Nat}
    (h : Expires now db db' n) (h' : Expires now db' db'' m) : Expires now db db'' (n + m) where
  wf := h'.wf
  lookup := fun key => by
    rcases h'.lookup key with heq | ⟨⟨o, hget, hdue⟩, hgone⟩
    · rw [heq]
      exact h.lookup key
    · refine .inr ⟨?_, hgone⟩
      -- what is due in the table between was due there before
      rcases h.lookup key with heq | ⟨hdue', _⟩
      · exact ⟨o, heq ▸ hget, hdue⟩
      · exact hdue'
  occupied := by rw [← h.occupied, ← h'.occupied]; omega
  count := by rw [← h.count, ← h'.count]; omega

/-- `n` is the number of keys that have gone. -/
theorem Expires.ncard_gone {now : Int} {db db' : KvTable S} {n : Nat} (h : Expires now db db' n)
    (hwf : db.Wf) : (db.liveKeys \ db'.liveKeys).ncard = n := by
  have hsub : db'.liveKeys ⊆ db.liveKeys := by
    intro key hkey
    rw [mem_liveKeys] at hkey ⊢
    rcases h.lookup key with heq | ⟨-, hgone⟩
    · rwa [heq] at hkey
    · rw [hgone] at hkey
      cases hkey
  have hfin : db.liveKeys.Finite := by
    rw [liveKeys_eq hwf]
    exact Finset.finite_toSet _
  have hcard := Set.ncard_sdiff_add_ncard_of_subset hsub hfin
  rw [ncard_liveKeys hwf, ncard_liveKeys h.wf, ← h.occupied] at hcard
  omega

/-- To bury the entry of a due key expires that key. -/
theorem Expires.bury {now : Int} {db : KvTable S} (h : db.Wf) {i : Nat} {key : CStr}
    {o : DbObject S} (hi : db.entry i = .occupied key o) (hdue : 0 ≤ o.ttl ∧ o.ttl ≤ now) :
    Expires now db (db.bury i) 1 where
  wf := h.bury hi
  lookup := fun key' => by
    rw [kvGetObject_bury h hi]
    by_cases hk : key' = key
    · subst hk
      refine .inr ⟨⟨o, ?_, hdue⟩, if_pos rfl⟩
      rw [kvGetObject_eq_lookup, OpenAddressing.lookup_eq_some_iff h.findable]
      exact ⟨i, hi⟩
    · exact .inl (if_neg hk)
  occupied := by
    have hpos := occupied_pos hi
    rw [occupied_bury hi]
    omega
  count := by
    have hpos := occupied_pos hi
    have hle := h.occupied_le
    have hcount : (db.bury i).count = db.count - 1 := rfl
    omega

/-- One sample. -/
theorem Expires.expireSlot {db : KvTable S} (h : db.Wf) (i : Nat) (now : Int) :
    Expires now db (db.expireSlot i now).1 (if (db.expireSlot i now).2 = true then 1 else 0) := by
  cases hs : db.entry i with
  | empty =>
    rw [KvTable.expireSlot, hs]
    exact .refl h now
  | deleted =>
    rw [KvTable.expireSlot, hs]
    exact .refl h now
  | occupied key o =>
    rw [KvTable.expireSlot, hs]
    by_cases hdue : 0 ≤ o.ttl ∧ o.ttl ≤ now
    · simp only [OpenAddressing.Slot.value?, if_pos hdue, if_true]
      exact .bury h hs hdue
    · simp only [OpenAddressing.Slot.value?, if_neg hdue]
      exact .refl h now

/-- The loop, from any count `expired`: it adds to the count what it
expires, and stops at the quota. -/
theorem Expires.activeExpireLoop (maxSamples : Nat) (now : Int) (rand : Nat → Nat) :
    ∀ (left s : Nat) (db : KvTable S) (expired : Nat), db.Wf →
      expired ≤ max 1 (maxSamples / 4) - 1 →
      ∃ n, Expires now db
          (KvTable.activeExpireLoop maxSamples now rand left s db expired).1 n ∧
        (KvTable.activeExpireLoop maxSamples now rand left s db expired).2 = expired + n ∧
        expired + n ≤ max 1 (maxSamples / 4)
  | 0, _, db, expired, h, hq => ⟨0, .refl h now, rfl, by omega⟩
  | left + 1, s, db, expired, h, hq => by
    have hone := Expires.expireSlot h (rand s % db.capacity) now
    simp only [KvTable.activeExpireLoop]
    generalize db.expireSlot (rand s % db.capacity) now = r at hone ⊢
    obtain ⟨db', hit⟩ := r
    have hadd : (if hit = true then expired + 1 else expired)
        = expired + if hit = true then 1 else 0 := by
      split <;> rfl
    have hle : (if hit = true then 1 else 0) ≤ 1 := by
      split <;> omega
    rw [hadd]
    generalize (if hit = true then 1 else 0) = m at hone hle ⊢
    split
    · exact ⟨m, hone, rfl, by omega⟩
    · obtain ⟨n, hrest, hret, hbound⟩ :=
        Expires.activeExpireLoop maxSamples now rand left (s + 1) db' (expired + m) hone.wf
          (by omega)
      exact ⟨m + n, hone.trans hrest, by rw [hret, Nat.add_assoc], by omega⟩

/-- **Active expiry removes only what is due.** From any reachable table,
at any time and for any samples: every key that is not due keeps its
object, the keys that go are due, the number returned is by how much the
number of keys and `count` fall, it is within the quota, and what is left
is found where it stands. -/
theorem kvActiveExpire_storeRun [LinearOrder S] (path : Option CStr)
    (file : Option (List UInt8)) (ops : List (StoreOp S)) (maxSamples : Nat) (now : Int)
    (rand : Nat → Nat) :
    let db := storeRun path file ops
    let r := db.kvActiveExpire maxSamples now rand
    (∀ key, ¬ db.Due now key → r.1.kvGetObject key = db.kvGetObject key) ∧
    (∀ key, r.1.kvGetObject key ≠ db.kvGetObject key →
      db.Due now key ∧ r.1.kvGetObject key = none) ∧
    r.1.liveKeys.ncard + r.2 = db.liveKeys.ncard ∧
    r.1.count + r.2 = db.count ∧
    r.2 ≤ max 1 (maxSamples / 4) ∧
    ∀ i key o, r.1.entry i = .occupied key o → r.1.probe key = (i, true) := by
  intro db r
  have hwf : db.Wf := Wf.storeRun path file ops
  obtain ⟨n, hexp, hret, hbound⟩ : ∃ n, Expires now db r.1 n ∧ r.2 = 0 + n ∧ 0 + n ≤ _ :=
    Expires.activeExpireLoop maxSamples now rand (min maxSamples db.capacity) 0 db 0 hwf
      (Nat.zero_le _)
  have hn : r.2 = n := hret.trans (Nat.zero_add n)
  rw [hn]
  refine ⟨fun key hlive => ?_, fun key hne => ?_, ?_, hexp.count, by omega, ?_⟩
  · exact (hexp.lookup key).resolve_right fun hdue => hlive hdue.1
  · exact (hexp.lookup key).resolve_left hne
  · rw [ncard_liveKeys hexp.wf, ncard_liveKeys hwf]
    exact hexp.occupied
  · intro i key o hi
    rw [probe_eq_probe]
    exact hexp.wf.findable i key o hi

end KvTable

end AntzKV

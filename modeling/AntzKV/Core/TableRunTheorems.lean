/-
AntzKV.Core.TableRunTheorems — the operations of the key-space along
whole runs.

Each operation gets one law for the map (`kvGetObject_*`) and one for the
invariant (`Wf.*`). Two results about runs follow.

* `reachable_findable`: in every reachable table every stored key is
  found where it is stored. Nothing is assumed about room.
* `kvSetObject_isMapUpdate_iff`: along a run in which every insertion has
  room, `kv_set_object` is a finite-map update exactly when it has room.
  `kvSetObject_overwrites_another_key` is a run of 23 plain insertions
  after which it has none.
-/
import AntzKV.Core.TableTheorems
import AntzKV.Core.Snapshot
import AntzKV.Lib.Run

namespace AntzKV

open OpenAddressing (Slot Findable)

variable {S : Type}

namespace KvTable

/-! ## What a table is made of

Lookup, probing, room and the invariant read the entries and the counter
only. -/

section Congr

variable {db db' : KvTable S} (he : db'.entries = db.entries) (hc : db'.count = db.count)

include he in
theorem entry_congr : db'.entry = db.entry := by
  funext i
  rw [entry, entry, he]

include he in
theorem capacity_congr : db'.capacity = db.capacity := by
  rw [capacity, capacity, he]

include he in
theorem probe_congr (key : CStr) : db'.probe key = db.probe key := by
  rw [probe_eq_probe, probe_eq_probe, capacity_congr he, entry_congr he]

include he in
theorem kvGetObject_congr (key : CStr) : db'.kvGetObject key = db.kvGetObject key := by
  rw [kvGetObject_eq_lookup, kvGetObject_eq_lookup, capacity_congr he, entry_congr he]

include he in
theorem occupied_congr : db'.occupied = db.occupied := by
  rw [occupied, occupied, he]

include he hc in
theorem Wf.congr (h : db.Wf) : db'.Wf where
  pow := by rw [capacity_congr he]; exact h.pow
  addressable := by rw [capacity_congr he]; exact h.addressable
  findable := by rw [capacity_congr he, entry_congr he]; exact h.findable
  occupied_le := by rw [occupied_congr he, hc]; exact h.occupied_le
  load := by rw [capacity_congr he, hc]; exact h.load

include he hc in
theorem hasRoom_congr (key : CStr) : db'.HasRoom key ↔ db.HasRoom key := by
  simp only [HasRoom, overloaded, probe_congr he, capacity_congr he, entry_congr he, hc]

end Congr

@[simp] theorem entries_bumpVersion (db : KvTable S) (m : KvMeta) :
    (db.bumpVersion m).entries = db.entries := by
  unfold bumpVersion
  split <;> rfl

@[simp] theorem count_bumpVersion (db : KvTable S) (m : KvMeta) :
    (db.bumpVersion m).count = db.count := by
  unfold bumpVersion
  split <;> rfl

theorem entries_kvNextVersion (db : KvTable S) : db.kvNextVersion.1.entries = db.entries := rfl

theorem count_kvNextVersion (db : KvTable S) : db.kvNextVersion.1.count = db.count := rfl

theorem Wf.kvNextVersion {db : KvTable S} (h : db.Wf) : db.kvNextVersion.1.Wf :=
  h.congr (entries_kvNextVersion db) (count_kvNextVersion db)

theorem hasRoom_kvNextVersion (db : KvTable S) (key : CStr) :
    db.kvNextVersion.1.HasRoom key ↔ db.HasRoom key :=
  hasRoom_congr (entries_kvNextVersion db) (count_kvNextVersion db) key

/-! ## `kv_set_object` -/

/-- The version clock aside, a `kv_set_object` that returns 0 is a write
into the table `grow` hands it. -/
theorem kvSetObject_eq_zero {db db' : KvTable S} {calloc : Calloc} {key : CStr} {obj : DbObject S}
    {m : Option KvMeta} (h : kvSetObject calloc db key obj m = (db', 0)) :
    ∃ t, db.grow calloc.entries = some t ∧ db'.entries = (t.store key (obj.stamp m)).entries ∧
      db'.count = (t.store key (obj.stamp m)).count := by
  unfold kvSetObject at h
  split at h
  · simp at h
  · cases hg : db.grow calloc.entries with
    | none => simp [hg] at h
    | some t =>
      simp only [hg, Prod.mk.injEq] at h
      refine ⟨t, rfl, ?_⟩
      rw [← h.1]
      cases m <;> simp

/-- The return value is 0 or -1, and -1 leaves the table alone. -/
theorem kvSetObject_cases (calloc : Calloc) (db : KvTable S) (key : CStr) (obj : DbObject S)
    (m : Option KvMeta) :
    kvSetObject calloc db key obj m = (db, -1) ∨
      ∃ db', kvSetObject calloc db key obj m = (db', 0) := by
  unfold kvSetObject
  split
  · exact Or.inl rfl
  · cases db.grow calloc.entries with
    | none => exact Or.inl rfl
    | some t => exact Or.inr ⟨_, rfl⟩

/-- A new key would need a larger entry array, and there is no memory for
one. -/
def CannotGrow (entries : Bool) (db : KvTable S) : Prop :=
  db.overloaded = true ∧ ¬ (entries = true ∧ kvEntrySize * (2 * db.capacity) < sizeBound)

instance (entries : Bool) (db : KvTable S) : Decidable (db.CannotGrow entries) :=
  inferInstanceAs (Decidable (_ ∧ _))

/-- There is no memory for a new object, or none for the entries that a new
key would need. -/
def CannotStore (calloc : Calloc) (db : KvTable S) : Prop :=
  calloc.object = false ∨ db.CannotGrow calloc.entries

instance (calloc : Calloc) (db : KvTable S) : Decidable (db.CannotStore calloc) :=
  inferInstanceAs (Decidable (_ ∨ _))

theorem object_of_canStore {calloc : Calloc} {db : KvTable S} (h : ¬ db.CannotStore calloc) :
    calloc.object = true :=
  Bool.not_eq_false _ ▸ (not_or.mp h).1

theorem grow_eq_none_iff {entries : Bool} {db : KvTable S} :
    db.grow entries = none ↔ db.CannotGrow entries := by
  unfold grow CannotGrow resize
  cases db.overloaded with
  | false => simp
  | true =>
    simp only [if_true, true_and]
    split
    · rename_i hfit
      simp [hfit]
    · rename_i hfit
      simp only [true_iff]
      exact hfit

/-- Without memory nothing is written. -/
theorem kvSetObject_of_cannotStore {calloc : Calloc} {db : KvTable S} (h : db.CannotStore calloc)
    (key : CStr) (obj : DbObject S) (m : Option KvMeta) :
    db.kvSetObject calloc key obj m = (db, -1) := by
  rcases h with hobj | hgrow
  · simp [kvSetObject, hobj]
  · simp [kvSetObject, grow_eq_none_iff.mpr hgrow]

theorem kvSetObject_of_canStore {calloc : Calloc} {db : KvTable S} (h : ¬ db.CannotStore calloc)
    (key : CStr) (obj : DbObject S) (m : Option KvMeta) :
    (db.kvSetObject calloc key obj m).2 = 0 := by
  rw [CannotStore, not_or, Bool.not_eq_false, ← grow_eq_none_iff] at h
  obtain ⟨hobj, hgrow⟩ := h
  obtain ⟨t, ht⟩ := Option.ne_none_iff_exists'.mp hgrow
  simp [kvSetObject, hobj, ht]

/-- Without memory `kv_set` counts a version and stops. -/
theorem kvSet_of_cannotStore {calloc : Calloc} {db : KvTable S} (h : db.CannotStore calloc)
    (key value : CStr) (usec : UInt64) :
    db.kvSet calloc key value usec = (db.kvNextVersion.1, -1) := by
  have hnext : db.kvNextVersion.1.CannotStore calloc := h
  exact kvSetObject_of_cannotStore hnext key _ _

theorem kvSet_of_canStore {calloc : Calloc} {db : KvTable S} (h : ¬ db.CannotStore calloc)
    (key value : CStr) (usec : UInt64) : (db.kvSet calloc key value usec).2 = 0 := by
  have hnext : ¬ db.kvNextVersion.1.CannotStore calloc := h
  exact kvSetObject_of_canStore hnext key _ _

/-- The table `kv_set_object` writes into: well formed, not overloaded,
with the map of the one it was called on. -/
theorem Wf.grow {db t : KvTable S} (h : db.Wf) {entries : Bool} (hg : db.grow entries = some t) :
    t.Wf ∧ t.overloaded = false ∧ (∀ k, t.kvGetObject k = db.kvGetObject k) ∧
      (db.count = db.occupied → t.count = t.occupied) := by
  unfold KvTable.grow at hg
  split at hg
  · obtain ⟨hwf, hload, hcnt, hget⟩ := h.resize hg
    exact ⟨hwf, hload, hget, fun _ => hcnt⟩
  · rename_i hload
    obtain rfl := Option.some.inj hg
    exact ⟨h, by simpa using hload, fun _ => rfl, id⟩

/-- Room in the table written into is room in the table the call starts
from. -/
theorem hasRoom_grow {db t : KvTable S} (h : db.Wf) {entries : Bool} (hg : db.grow entries = some t)
    (key : CStr) :
    db.HasRoom key ↔
      (t.probe key).2 = true ∨ (t.entry (t.probe key).1).isOccupied = false := by
  unfold KvTable.grow at hg
  split at hg
  · rename_i hload
    have hleft : db.HasRoom key := Or.inl hload
    refine ⟨fun _ => ?_, fun _ => hleft⟩
    obtain ⟨hre, _, _, _⟩ := resize_spec h hg
    obtain ⟨hwf, _, _, _⟩ := h.resize hg
    obtain ⟨m, hm⟩ := h.pow
    have hpow : t.capacity = 2 ^ (m + 5 + 1) := by rw [hre.capacity, hm]; ring
    have hhalf : t.entries.countP (fun e => !e.isEmpty) < 2 ^ (m + 5) := by
      rw [countP_nonempty hre.noDeleted, ← hm]
      have hocc : t.entries.countP Slot.isOccupied = db.occupied := hre.occupied
      have := h.occupied_le
      have := h.load
      have := h.capacity_pos
      omega
    cases hp : (t.probe key).2 with
    | true => exact Or.inl rfl
    | false =>
      right
      rcases entry_probe_of_missed hwf.capacity_pos hp with ⟨he, _⟩ | ⟨_, hall⟩
      · rw [he]; rfl
      · obtain ⟨n, hn, hne⟩ := exists_empty_of_half_empty hpow hhalf key
        exact absurd hne (hall n hn)
  · rename_i hload
    obtain rfl := Option.some.inj hg
    have hload' : db.overloaded = false := by simpa using hload
    cases hp : (db.probe key).2 with
    | true => simp [HasRoom, hp]
    | false =>
      rw [hasRoom_iff_of_missed h.capacity_pos hload' hp]
      simp

theorem Wf.store {t : KvTable S} (h : t.Wf) (hload : t.overloaded = false) (key : CStr)
    (obj : DbObject S) : (t.store key obj).Wf where
  pow := by rw [capacity_store]; exact h.pow
  addressable := by rw [capacity_store]; exact h.addressable
  findable := by rw [capacity_store]; exact findable_store h.capacity_pos h.findable key obj
  occupied_le := by
    rw [occupied_store h.capacity_pos, count_store]
    have hle := h.occupied_le
    cases hp : (t.probe key).2 with
    | true =>
      obtain ⟨o, ho⟩ := probe_found hp
      simp [ho, Slot.isOccupied, hle]
    | false =>
      simp only [Bool.false_eq_true, if_false]
      split <;> omega
  load := by
    rw [capacity_store, count_store]
    have := h.load
    simp only [overloaded, decide_eq_false_iff_not] at hload
    split <;> omega

theorem Wf.kvSetObject {db : KvTable S} (h : db.Wf) (calloc : Calloc) (key : CStr)
    (obj : DbObject S) (m : Option KvMeta) : (kvSetObject calloc db key obj m).1.Wf := by
  rcases kvSetObject_cases calloc db key obj m with hr | ⟨db', hr⟩
  · rw [hr]
    exact h
  · rw [hr]
    obtain ⟨t, hg, he, hc⟩ := kvSetObject_eq_zero hr
    obtain ⟨hwf, hload, _, _⟩ := h.grow hg
    exact (hwf.store hload key (obj.stamp m)).congr he hc

/-- What a `kv_set_object` that returns 0 does to the map, with room. -/
theorem kvGetObject_kvSetObject {db db' : KvTable S} (h : db.Wf) {calloc : Calloc} {key : CStr}
    {obj : DbObject S} {m : Option KvMeta} (hr : KvTable.kvSetObject calloc db key obj m = (db', 0))
    (hroom : db.HasRoom key) (k : CStr) :
    db'.kvGetObject k = if k = key then some (obj.stamp m) else db.kvGetObject k := by
  obtain ⟨t, hg, he, _⟩ := kvSetObject_eq_zero hr
  obtain ⟨hwf, _, hget, _⟩ := h.grow hg
  rw [kvGetObject_congr he, kvGetObject_store hwf.capacity_pos hwf.findable, hget]
  by_cases hk : k = key
  · simp [hk]
  · -- the slot written holds the key itself, or no key at all
    have hkey : (t.entry (t.probe key).1).key? ≠ some k := by
      intro hkk
      obtain ⟨o, ho⟩ := Slot.key?_eq_some.mp hkk
      rcases (hasRoom_grow h hg key).mp hroom with hf | hno
      · obtain ⟨o', ho'⟩ := probe_found hf
        exact hk (Slot.occupied.inj (ho.symm.trans ho')).1
      · rw [ho] at hno
        simp [Slot.isOccupied] at hno
    simp [hk, hkey]

theorem count_kvSetObject {db db' : KvTable S} (h : db.Wf) (hexact : db.count = db.occupied)
    {calloc : Calloc} {key : CStr} {obj : DbObject S} {m : Option KvMeta}
    (hr : KvTable.kvSetObject calloc db key obj m = (db', 0)) (hroom : db.HasRoom key) :
    db'.count = db'.occupied := by
  obtain ⟨t, hg, he, hc⟩ := kvSetObject_eq_zero hr
  obtain ⟨hwf, _, _, hcnt⟩ := h.grow hg
  rw [hc, occupied_congr he, count_store, occupied_store hwf.capacity_pos, hcnt hexact]
  cases hp : (t.probe key).2 with
  | true =>
    obtain ⟨o, ho⟩ := probe_found hp
    simp [ho, Slot.isOccupied]
  | false =>
    have hno := (hasRoom_grow h hg key).mp hroom
    rw [hp] at hno
    simp only [Bool.false_eq_true, false_or] at hno
    simp [hno]

/-- Without room the write lands on another key, which is lost. -/
theorem exists_overwritten {db db' : KvTable S} (h : db.Wf) {calloc : Calloc} {key : CStr}
    {obj : DbObject S} {m : Option KvMeta} (hr : KvTable.kvSetObject calloc db key obj m = (db', 0))
    (hroom : ¬ db.HasRoom key) :
    ∃ k ≠ key, (∃ o, db.kvGetObject k = some o) ∧ db'.kvGetObject k = none := by
  obtain ⟨t, hg, he, _⟩ := kvSetObject_eq_zero hr
  obtain ⟨hwf, _, hget, _⟩ := h.grow hg
  rw [hasRoom_grow h hg key, not_or] at hroom
  obtain ⟨hmiss, hocc⟩ := hroom
  cases hs : t.entry (t.probe key).1 with
  | empty => simp [hs, Slot.isOccupied] at hocc
  | deleted => simp [hs, Slot.isOccupied] at hocc
  | occupied k o =>
    have hk : k ≠ key := by
      rintro rfl
      have := hwf.findable _ k o hs
      rw [← probe_eq_probe] at this
      exact hmiss (congrArg Prod.snd this)
    refine ⟨k, hk, ⟨o, ?_⟩, ?_⟩
    · rw [← hget, kvGetObject_eq_lookup, OpenAddressing.lookup_eq_some_iff hwf.findable]
      exact ⟨_, hs⟩
    · rw [kvGetObject_congr he, kvGetObject_store hwf.capacity_pos hwf.findable]
      simp [hk, hs, Slot.key?]

/-! ## Deletions -/

section Bury

variable {db : KvTable S} (h : db.Wf) {i : Nat} {k : CStr} {o : DbObject S}
  (hi : db.entry i = .occupied k o)

include hi in
theorem entry_bury : (db.bury i).entry = Function.update db.entry i .deleted :=
  entry_setEntry (lt_capacity_of_entry hi) .deleted

@[simp] theorem capacity_bury (db : KvTable S) (i : Nat) : (db.bury i).capacity = db.capacity :=
  capacity_setEntry db i .deleted

include hi in
theorem occupied_bury : (db.bury i).occupied = db.occupied - 1 := by
  have hset := occupied_setEntry (lt_capacity_of_entry hi) (.deleted : KvEntry S)
  rw [hi] at hset
  exact hset

include hi in
theorem occupied_pos : 1 ≤ db.occupied :=
  one_le_occupied (i := i) (by rw [hi]; rfl)

include h hi in
theorem Wf.bury : (db.bury i).Wf where
  pow := by rw [capacity_bury]; exact h.pow
  addressable := by rw [capacity_bury]; exact h.addressable
  findable := by rw [capacity_bury, entry_bury hi]; exact h.findable.delete i
  occupied_le := by
    rw [occupied_bury hi]
    exact Nat.sub_le_sub_right h.occupied_le 1
  load := by
    rw [capacity_bury]
    have := h.load
    change 4 * (db.count - 1) ≤ _
    omega

include h hi in
theorem kvGetObject_bury (k' : CStr) :
    (db.bury i).kvGetObject k' = if k' = k then none else db.kvGetObject k' := by
  rw [kvGetObject_eq_lookup, kvGetObject_eq_lookup, capacity_bury, entry_bury hi]
  exact OpenAddressing.lookup_delete h.findable hi k'

include hi in
theorem count_bury (hexact : db.count = db.occupied) : (db.bury i).count = (db.bury i).occupied := by
  rw [occupied_bury hi, ← hexact]
  rfl

end Bury

/-- What a search that finds its key answers. -/
theorem kvGetObject_of_found {db : KvTable S} {key : CStr} (hp : (db.probe key).2 = true) :
    ∃ o, db.entry (db.probe key).1 = .occupied key o ∧ db.kvGetObject key = some o := by
  obtain ⟨o, ho⟩ := probe_found hp
  refine ⟨o, ho, ?_⟩
  simp [kvGetObject, hp, ho, Slot.value?]

theorem kvGetObject_of_missed {db : KvTable S} {key : CStr} (hp : (db.probe key).2 = false) :
    db.kvGetObject key = none := by
  simp [kvGetObject, hp]

/-- A search finds exactly the keys that have an object. -/
theorem probe_found_iff {db : KvTable S} {key : CStr} :
    (db.probe key).2 = true ↔ ∃ o, db.kvGetObject key = some o := by
  constructor
  · intro hp
    obtain ⟨o, _, ho⟩ := kvGetObject_of_found hp
    exact ⟨o, ho⟩
  · rintro ⟨o, ho⟩
    cases hp : (db.probe key).2 with
    | true => rfl
    | false =>
      rw [kvGetObject_of_missed hp] at ho
      simp at ho

theorem probe_missed_of_absent {db : KvTable S} {key : CStr}
    (hnone : db.kvGetObject key = none) : (db.probe key).2 = false := by
  by_contra hfound
  obtain ⟨o, ho⟩ := probe_found_iff.mp (Bool.not_eq_false _ ▸ hfound)
  rw [hnone] at ho
  cases ho

/-- `kv_del` buries the entry of its key, if there is one. -/
theorem kvDel_cases (db : KvTable S) (key : CStr) :
    ((db.probe key).2 = false ∧ db.kvDel key = (db, -1)) ∨
    ∃ o, db.entry (db.probe key).1 = .occupied key o ∧ db.kvGetObject key = some o ∧
      db.kvDel key = (db.bury (db.probe key).1, 0) := by
  cases hp : (db.probe key).2 with
  | false => exact Or.inl ⟨rfl, by simp [kvDel, hp]⟩
  | true =>
    obtain ⟨o, ho, hg⟩ := kvGetObject_of_found hp
    exact Or.inr ⟨o, ho, hg, by simp [kvDel, hp]⟩

theorem Wf.kvDel {db : KvTable S} (h : db.Wf) (key : CStr) : (db.kvDel key).1.Wf := by
  rcases kvDel_cases db key with ⟨_, hr⟩ | ⟨o, ho, _, hr⟩ <;> rw [hr]
  · exact h
  · exact h.bury ho

theorem kvGetObject_kvDel {db : KvTable S} (h : db.Wf) (key k : CStr) :
    (db.kvDel key).1.kvGetObject k = if k = key then none else db.kvGetObject k := by
  rcases kvDel_cases db key with ⟨hp, hr⟩ | ⟨o, ho, _, hr⟩ <;> rw [hr]
  · by_cases hk : k = key
    · subst hk
      simp [kvGetObject_of_missed hp]
    · simp [hk]
  · exact kvGetObject_bury h ho k

/-- `kv_del_meta` deletes its key unless the stored meta is greater. -/
theorem kvDelMeta_cases (db : KvTable S) (key : CStr) (m : KvMeta) :
    ((db.probe key).2 = false ∧ db.kvDelMeta key m = (db.bumpVersion m, -1)) ∨
    ∃ o, db.entry (db.probe key).1 = .occupied key o ∧ db.kvGetObject key = some o ∧
      ((metaGt o.kvMeta m = true ∧ db.kvDelMeta key m = (db, 0)) ∨
        (metaGt o.kvMeta m = false ∧
          db.kvDelMeta key m = ((db.bury (db.probe key).1).bumpVersion m, 0))) := by
  cases hp : (db.probe key).2 with
  | false => exact Or.inl ⟨rfl, by simp [kvDelMeta, hp]⟩
  | true =>
    obtain ⟨o, ho, hg⟩ := kvGetObject_of_found hp
    refine Or.inr ⟨o, ho, hg, ?_⟩
    cases hm : metaGt o.kvMeta m with
    | true => exact Or.inl ⟨rfl, by simp [kvDelMeta, hp, ho, Slot.value?, hm]⟩
    | false => exact Or.inr ⟨rfl, by simp [kvDelMeta, hp, ho, Slot.value?, hm]⟩

theorem Wf.bumpVersion {db : KvTable S} (h : db.Wf) (m : KvMeta) : (db.bumpVersion m).Wf :=
  h.congr (entries_bumpVersion db m) (count_bumpVersion db m)

theorem kvGetObject_bumpVersion (db : KvTable S) (m : KvMeta) (k : CStr) :
    (db.bumpVersion m).kvGetObject k = db.kvGetObject k :=
  kvGetObject_congr (entries_bumpVersion db m) k

theorem Wf.kvDelMeta {db : KvTable S} (h : db.Wf) (key : CStr) (m : KvMeta) :
    (db.kvDelMeta key m).1.Wf := by
  rcases kvDelMeta_cases db key m with ⟨_, hr⟩ | ⟨o, ho, _, ⟨_, hr⟩ | ⟨_, hr⟩⟩ <;> rw [hr]
  · exact h.bumpVersion m
  · exact h
  · exact (h.bury ho).bumpVersion m

theorem kvGetObject_kvDelMeta {db : KvTable S} (h : db.Wf) (key : CStr) (m : KvMeta) (k : CStr) :
    (db.kvDelMeta key m).1.kvGetObject k =
      if k = key then (db.kvGetObject key).filter fun o => metaGt o.kvMeta m
      else db.kvGetObject k := by
  rcases kvDelMeta_cases db key m with ⟨hp, hr⟩ | ⟨o, ho, hg, ⟨hm, hr⟩ | ⟨hm, hr⟩⟩ <;> rw [hr]
  · rw [kvGetObject_bumpVersion, kvGetObject_of_missed hp]
    by_cases hk : k = key
    · subst hk
      simp [kvGetObject_of_missed hp]
    · simp [hk]
  · by_cases hk : k = key
    · subst hk
      simp [hg, Option.filter, hm]
    · simp [hk]
  · rw [kvGetObject_bumpVersion, kvGetObject_bury h ho]
    by_cases hk : k = key
    · simp [hk, hg, Option.filter, hm]
    · simp [hk]

/-! ## Expiry -/

theorem expireSlot_cases (db : KvTable S) (i : Nat) (now : Int) :
    db.expireSlot i now = (db, false) ∨
    ∃ k o, db.entry i = .occupied k o ∧ db.expireSlot i now = (db.bury i, true) := by
  unfold expireSlot
  cases hs : db.entry i with
  | empty => exact Or.inl rfl
  | deleted => exact Or.inl rfl
  | occupied k o =>
    simp only [Slot.value?]
    split
    · exact Or.inr ⟨k, o, rfl, rfl⟩
    · exact Or.inl rfl

/-- The samples of `kv_active_expire` preserve whatever the burial of an
occupied entry preserves. -/
theorem activeExpireLoop_invariant {P : KvTable S → Prop}
    (hbury : ∀ (db : KvTable S) i k o, db.entry i = .occupied k o → P db → P (db.bury i))
    (maxSamples : Nat) (now : Int) (rand : Nat → Nat) :
    ∀ (left s : Nat) (db : KvTable S) (expired : Nat), P db →
      P (activeExpireLoop maxSamples now rand left s db expired).1
  | 0, _, _, _, h => h
  | left + 1, s, db, expired, h => by
    have hslot : P (db.expireSlot (rand s % db.capacity) now).1 := by
      rcases expireSlot_cases db (rand s % db.capacity) now with hr | ⟨k, o, ho, hr⟩ <;> rw [hr]
      · exact h
      · exact hbury db _ k o ho h
    simp only [activeExpireLoop]
    generalize (if (db.expireSlot (rand s % db.capacity) now).2 = true then expired + 1
      else expired) = expired'
    split
    · exact hslot
    · exact activeExpireLoop_invariant hbury maxSamples now rand left (s + 1) _ _ hslot

theorem kvActiveExpire_invariant {P : KvTable S → Prop}
    (hbury : ∀ (db : KvTable S) i k o, db.entry i = .occupied k o → P db → P (db.bury i))
    {db : KvTable S} (h : P db) (maxSamples : Nat) (now : Int) (rand : Nat → Nat) :
    P (db.kvActiveExpire maxSamples now rand).1 :=
  activeExpireLoop_invariant hbury maxSamples now rand _ _ db _ h

theorem Wf.kvActiveExpire {db : KvTable S} (h : db.Wf) (maxSamples : Nat) (now : Int)
    (rand : Nat → Nat) : (db.kvActiveExpire maxSamples now rand).1.Wf :=
  kvActiveExpire_invariant (fun _ _ _ _ ho hwf => hwf.bury ho) h maxSamples now rand

/-! ## Opening -/

theorem Wf.fresh (path : Option CStr) : (fresh path : KvTable S).Wf where
  pow := ⟨0, by simp [capacity, KvTable.fresh, initialCapacity]⟩
  addressable := by
    simp [capacity, KvTable.fresh, initialCapacity, kvEntrySize, sizeBound]
  findable := by
    intro i k o hi
    have := exists_entry_iff_mem.mp ⟨i, hi⟩
    simpa using List.eq_of_mem_replicate this
  occupied_le := by simp [occupied, KvTable.fresh, Slot.isOccupied]
  load := by simp [KvTable.fresh]

theorem kvGetObject_fresh (path : Option CStr) (k : CStr) :
    (fresh path : KvTable S).kvGetObject k = none := by
  rw [kvGetObject_eq_lookup, OpenAddressing.lookup_eq_none_iff (Wf.fresh path).findable]
  intro i o hi
  have := exists_entry_iff_mem.mp ⟨i, hi⟩
  simpa using List.eq_of_mem_replicate this

theorem Wf.replay {db : KvTable S} (h : db.Wf) (r : SnapRecord) : (db.replay r).Wf :=
  h.kvSetObject true r.key _ _

/-- The calls of the load loop, none without a file to read. -/
def openCalls (path : Option CStr) (file : Option (List UInt8)) : List SnapRecord :=
  match path, file with
  | some _, some bytes => loadCalls bytes
  | _, _ => []

theorem kvOpen_eq (path : Option CStr) (file : Option (List UInt8)) :
    (kvOpen path file : KvTable S) = (openCalls path file).foldl replay (fresh path) := by
  cases path <;> cases file <;> rfl

theorem Wf.kvOpen (path : Option CStr) (file : Option (List UInt8)) :
    (kvOpen path file : KvTable S).Wf := by
  rw [kvOpen_eq]
  exact Run.invariant (fun _ r h => h.replay r) _ _ (Wf.fresh path)

end KvTable

/-! ## Runs of the key-space -/

/-- The operations that change which keys are stored. -/
inductive TableOp (S : Type) where
  | set (calloc : Calloc) (key value : CStr) (usec : UInt64)
  | setObject (calloc : Calloc) (key : CStr) (obj : DbObject S) (kvMeta : Option KvMeta)
  | del (key : CStr)
  | delMeta (key : CStr) (m : KvMeta)
  | activeExpire (maxSamples : Nat) (now : Int) (rand : Nat → Nat)

namespace TableOp

def step (db : KvTable S) : TableOp S → KvTable S
  | .set calloc key value usec => (db.kvSet calloc key value usec).1
  | .setObject calloc key obj m => (db.kvSetObject calloc key obj m).1
  | .del key => (db.kvDel key).1
  | .delMeta key m => (db.kvDelMeta key m).1
  | .activeExpire maxSamples now rand => (db.kvActiveExpire maxSamples now rand).1

/-- The key an insertion is about has room. -/
def RoomFor (db : KvTable S) : TableOp S → Prop
  | .set _ key _ _ => db.HasRoom key
  | .setObject _ key _ _ => db.HasRoom key
  | _ => True

instance (db : KvTable S) : ∀ op : TableOp S, Decidable (op.RoomFor db)
  | .set _ key _ _ => inferInstanceAs (Decidable (db.HasRoom key))
  | .setObject _ key _ _ => inferInstanceAs (Decidable (db.HasRoom key))
  | .del _ => inferInstanceAs (Decidable True)
  | .delMeta _ _ => inferInstanceAs (Decidable True)
  | .activeExpire _ _ _ => inferInstanceAs (Decidable True)

end TableOp

namespace KvTable

/-- The table a run reaches from `kv_open`. -/
def tableRun (path : Option CStr) (file : Option (List UInt8)) (ops : List (TableOp S)) :
    KvTable S := ops.foldl TableOp.step (kvOpen path file)

theorem Wf.step {db : KvTable S} (h : db.Wf) (op : TableOp S) : (TableOp.step db op).Wf := by
  cases op with
  | set calloc key value usec =>
    exact h.kvNextVersion.kvSetObject calloc key _ _
  | setObject calloc key obj m => exact h.kvSetObject calloc key obj m
  | del key => exact h.kvDel key
  | delMeta key m => exact h.kvDelMeta key m
  | activeExpire maxSamples now rand => exact h.kvActiveExpire maxSamples now rand

theorem Wf.tableRun (path : Option CStr) (file : Option (List UInt8)) (ops : List (TableOp S)) :
    (tableRun path file ops).Wf :=
  Run.invariant (fun _ op h => h.step op) ops _ (Wf.kvOpen path file)

/-- **Findability.** In every reachable table every occupied entry is the
one `probe` finds for its key; so no key is stored twice, and `kv_del`
removes its key and nothing else. -/
theorem reachable_findable (path : Option CStr) (file : Option (List UInt8))
    (ops : List (TableOp S)) :
    (∀ j k o, (tableRun path file ops).entry j = .occupied k o →
        (tableRun path file ops).probe k = (j, true)) ∧
    (∀ i j k o o', (tableRun path file ops).entry i = .occupied k o →
        (tableRun path file ops).entry j = .occupied k o' → i = j) ∧
    (∀ k, ((tableRun path file ops).kvDel k).1.kvGetObject k = none) ∧
    (∀ k k', k' ≠ k → ((tableRun path file ops).kvDel k).1.kvGetObject k'
        = (tableRun path file ops).kvGetObject k') := by
  have hwf : (tableRun path file ops).Wf := Wf.tableRun path file ops
  refine ⟨?_, ?_, ?_, ?_⟩
  · intro j k o hj
    rw [probe_eq_probe]
    exact hwf.findable j k o hj
  · intro i j k o o' hi hj
    exact hwf.findable.unique hi hj
  · intro k
    rw [kvGetObject_kvDel hwf, if_pos rfl]
  · intro k k' hk
    rw [kvGetObject_kvDel hwf, if_neg hk]

/-! ## `kv_set_object` as a finite-map update -/

/-- `db'` is `db` with `key` mapped to `o`, and its counter is exact. -/
def IsMapUpdate (db db' : KvTable S) (key : CStr) (o : DbObject S) : Prop :=
  db'.kvGetObject key = some o ∧ (∀ k, k ≠ key → db'.kvGetObject k = db.kvGetObject k) ∧
    db'.count = db'.occupied

theorem kvSetObject_isMapUpdate {db db' : KvTable S} (h : db.Wf) (hexact : db.count = db.occupied)
    {calloc : Calloc} {key : CStr} {obj : DbObject S} {m : Option KvMeta}
    (hr : KvTable.kvSetObject calloc db key obj m = (db', 0)) :
    IsMapUpdate db db' key (obj.stamp m) ↔ db.HasRoom key := by
  constructor
  · rintro ⟨_, hothers, _⟩
    by_contra hroom
    obtain ⟨k, hk, ⟨o, ho⟩, hnone⟩ := exists_overwritten h hr hroom
    rw [hothers k hk, ho] at hnone
    simp at hnone
  · intro hroom
    have hget := kvGetObject_kvSetObject h hr hroom
    refine ⟨?_, ?_, count_kvSetObject h hexact hr hroom⟩
    · rw [hget, if_pos rfl]
    · intro k hk
      rw [hget, if_neg hk]

/-- The counter stays exact over an insertion that has room. -/
theorem count_exact_kvSetObject {db : KvTable S} (h : db.Wf) (hexact : db.count = db.occupied)
    {key : CStr} (hroom : db.HasRoom key) (calloc : Calloc) (obj : DbObject S) (m : Option KvMeta) :
    (KvTable.kvSetObject calloc db key obj m).1.count
      = (KvTable.kvSetObject calloc db key obj m).1.occupied := by
  rcases kvSetObject_cases calloc db key obj m with hr | ⟨db', hr⟩
  · rw [hr]
    exact hexact
  · rw [hr]
    exact count_kvSetObject h hexact hr hroom

/-- Well formed, with an exact counter: what runs with room preserve. -/
def WfExact (db : KvTable S) : Prop := db.Wf ∧ db.count = db.occupied

theorem WfExact.replay {db : KvTable S} {r : SnapRecord} (hroom : db.HasRoom r.key)
    (h : db.WfExact) : (db.replay r).WfExact :=
  ⟨h.1.replay r, count_exact_kvSetObject h.1 h.2 hroom _ _ _⟩

theorem WfExact.step {db : KvTable S} {op : TableOp S} (hroom : op.RoomFor db) (h : db.WfExact) :
    (TableOp.step db op).WfExact := by
  refine ⟨h.1.step op, ?_⟩
  cases op with
  | set calloc key value usec =>
    have hroom' : db.kvNextVersion.1.HasRoom key := (hasRoom_kvNextVersion db key).mpr hroom
    exact count_exact_kvSetObject h.1.kvNextVersion h.2 hroom' calloc _ _
  | setObject calloc key obj m => exact count_exact_kvSetObject h.1 h.2 hroom calloc obj m
  | del key =>
    simp only [TableOp.step]
    rcases kvDel_cases db key with ⟨_, hr⟩ | ⟨o, ho, _, hr⟩ <;> rw [hr]
    · exact h.2
    · exact count_bury ho h.2
  | delMeta key m =>
    simp only [TableOp.step]
    rcases kvDelMeta_cases db key m with ⟨_, hr⟩ | ⟨o, ho, _, ⟨_, hr⟩ | ⟨_, hr⟩⟩ <;> rw [hr]
    · simpa [occupied_congr (entries_bumpVersion db m)] using h.2
    · exact h.2
    · simpa [occupied_congr (entries_bumpVersion _ m)] using count_bury ho h.2
  | activeExpire maxSamples now rand =>
    have hinv : (db.kvActiveExpire maxSamples now rand).1.count
        = (db.kvActiveExpire maxSamples now rand).1.occupied :=
      kvActiveExpire_invariant (P := fun t => t.count = t.occupied)
        (fun _ _ _ _ ho hexact => count_bury ho hexact) h.2 maxSamples now rand
    exact hinv

/-- **Finite-map update.** Along every run from `kv_open` whose
insertions have room, the counter is exact and a `kv_set_object` that
returns 0 is a finite-map update if and only if it has room. -/
theorem kvSetObject_isMapUpdate_iff (path : Option CStr) (file : Option (List UInt8))
    (ops : List (TableOp S))
    (hload : Run.Guarded replay (fun db r => db.HasRoom r.key) (fresh path : KvTable S)
      (openCalls path file))
    (hops : Run.Guarded TableOp.step (fun db op => op.RoomFor db) (kvOpen path file) ops) :
    (tableRun path file ops).count = (tableRun path file ops).occupied ∧
    ∀ calloc key obj m db', KvTable.kvSetObject calloc (tableRun path file ops) key obj m = (db', 0) →
      (IsMapUpdate (tableRun path file ops) db' key (obj.stamp m) ↔
        (tableRun path file ops).HasRoom key) := by
  have hopen : (kvOpen path file : KvTable S).WfExact := by
    rw [kvOpen_eq]
    refine Run.Guarded.invariant (fun _ _ hroom h => WfExact.replay hroom h) _ _ hload ?_
    exact ⟨Wf.fresh path, (List.countP_eq_zero.mpr (by simp [fresh, Slot.isOccupied])).symm⟩
  have hrun : (tableRun path file ops).WfExact :=
    Run.Guarded.invariant (fun _ _ hroom h => WfExact.step hroom h) ops _ hops hopen
  exact ⟨hrun.2, fun _ _ _ _ _ hr => kvSetObject_isMapUpdate hrun.1 hrun.2 hr⟩

/-- Two keys come in, and the first one goes. -/
def twoInOneOut : List (TableOp Int) :=
  [.set true (.lit "foo") (.lit "1") 5, .set true (.lit "bar") (.lit "2") 6, .del (.lit "foo")]

/-- The slot of the deleted key is taken again. -/
theorem kvSetObject_isMapUpdate_foo :
    (tableRun none none twoInOneOut).count = (tableRun none none twoInOneOut).occupied ∧
    IsMapUpdate (tableRun none none twoInOneOut)
      (KvTable.kvSetObject true (tableRun none none twoInOneOut) (.lit "foo")
        (.objCreateString (.lit "baz") 7) none).1
      (.lit "foo") (.objCreateString (.lit "baz") 7) := by
  have hroom : Run.Guarded TableOp.step (fun db op => op.RoomFor db) (kvOpen none none)
      twoInOneOut := by
    decide
  obtain ⟨hcount, hupdate⟩ := kvSetObject_isMapUpdate_iff none none twoInOneOut trivial hroom
  exact ⟨hcount, (hupdate true (.lit "foo") (.objCreateString (.lit "baz") 7) none _ rfl).mpr
    (by decide)⟩

/-- 23 one-letter keys whose home slots are exactly the slots the probe
of `C` looks at in a table of 32. -/
def crowdOfC : List (TableOp Int) :=
  "cDHE56ZO0A1BKLM=>78I9J3".toList.map fun c =>
    .set true (.lit (String.singleton c)) (.lit "v") 0

/-- The 24th key, `C`, does not make the table grow and overwrites `3`. -/
theorem kvSetObject_overwrites_another_key :
    (KvTable.kvSetObject true (tableRun none none crowdOfC) (.lit "C")
        (.objCreateString (.lit "w") 0) none).2 = 0 ∧
    ¬ IsMapUpdate (tableRun none none crowdOfC)
        (KvTable.kvSetObject true (tableRun none none crowdOfC) (.lit "C")
          (.objCreateString (.lit "w") 0) none).1
        (.lit "C") (.objCreateString (.lit "w") 0) := by
  refine ⟨by decide +kernel, ?_⟩
  rintro ⟨_, hothers, _⟩
  have h3 := congrArg Option.isSome (hothers (.lit "3") (by decide))
  revert h3
  decide +kernel

end KvTable

end AntzKV

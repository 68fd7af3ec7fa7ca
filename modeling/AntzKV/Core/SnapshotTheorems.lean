/-
AntzKV.Core.SnapshotTheorems — reading snapshots back, whole or cut.

A record is seven fields one after the other. `loadRecord_take` says that
on a file cut anywhere behind its start a record is read whole or not at
all; the load loop inherits this (`loadLoop_take`), because the header
count is never below the number of records (`length_stringRecords_le`).

* `kvOpen_of_truncated`: the `kv_set_meta` calls for a cut file are those
  of the records that lie within it.
* `kvOpen_kvSave`: a saved table opens with its string keys, provided the
  replay of the records has room; everything else is not in the file.
-/
import AntzKV.Core.CommandsTheorems

namespace AntzKV

open OpenAddressing (Slot)
open ByteCursor (leBytes leNat fread leNat_leBytes length_leBytes fread_take_bind)

variable {S : Type}

/-! ## One record -/

theorem length_originBytes (o : NodeOrigin) : (originBytes o).length = 15 := by
  have h : o.text.bytes.length < nodeOriginLen := o.short
  simp only [originBytes, List.length_append, List.length_replicate, CStr.strlen, nodeOriginLen]
    at h ⊢
  omega

/-- The origin array is read back without its padding. -/
theorem ofBuf_originBytes (o : NodeOrigin) : CStr.ofBuf (originBytes o) = o.text := by
  unfold originBytes
  cases nodeOriginLen - 1 - o.text.strlen with
  | zero => simp
  | succ n => rw [List.replicate_succ, CStr.ofBuf_append_nul]

theorem strlen_lt (s : CStr) : s.strlen < 256 ^ 8 := by
  have h := s.fits
  simp only [CStr.strlen, objectBound] at h ⊢
  omega

theorem toNat_lt (v : UInt64) : v.toNat < 256 ^ 8 := v.toNat_lt

/-- The size of a record in the file. -/
def SnapRecord.size (r : SnapRecord) : Nat := (encodeRecord r).length

theorem SnapRecord.size_eq (r : SnapRecord) :
    r.size = 8 + (r.key.strlen + (8 + (r.value.strlen + (8 + (8 + 15))))) := by
  simp [size, encodeRecord, length_originBytes, CStr.strlen]

namespace KvTable

/-- **A record at the start of a cut file** is read whole or not at all. -/
theorem loadRecord_take (r : SnapRecord) (rest : List UInt8) (n : Nat) :
    loadRecord ((encodeRecord r ++ rest).take n)
      = if r.size ≤ n then some (r, rest.take (n - r.size)) else none := by
  have hsize := r.size_eq
  simp only [encodeRecord, List.append_assoc, loadRecord, Option.bind_eq_bind]
  rw [fread_take_bind (length_leBytes 8 _)]
  simp only [leNat_leBytes (strlen_lt r.key)]
  have hkey : r.key.bytes.length = r.key.strlen := rfl
  have hvalue : r.value.bytes.length = r.value.strlen := rfl
  simp only [fread_take_bind hkey, fread_take_bind (length_leBytes 8 _),
    leNat_leBytes (strlen_lt r.value), fread_take_bind hvalue,
    fread_take_bind (length_originBytes _)]
  by_cases hfits : r.size ≤ n
  · rw [if_pos (by omega), if_pos (by omega), if_pos (by omega), if_pos (by omega),
      if_pos (by omega), if_pos (by omega), if_pos (by omega), if_pos hfits]
    have hleft : n - 8 - r.key.strlen - 8 - r.value.strlen - 8 - 8 - 15 = n - r.size := by omega
    simp [leNat_leBytes (toNat_lt _), ofBuf_originBytes, hleft]
  · rw [if_neg hfits]
    simp only [ite_eq_right_iff]
    omega

/-! ## The load loop -/

/-- The bytes the first `i + 1` records take up. -/
def recordsSize (recs : List SnapRecord) (i : Nat) : Nat :=
  ((recs.take (i + 1)).map SnapRecord.size).sum

theorem loadRecord_nil : loadRecord [] = none := rfl

/-- The loop over the records of a cut file, when the header allows at
least that many rounds. -/
theorem loadLoop_take : ∀ (recs : List SnapRecord) (rounds n : Nat), recs.length ≤ rounds →
    ∃ m ≤ recs.length, loadLoop rounds ((recs.flatMap encodeRecord).take n) = recs.take m ∧
      ∀ i < recs.length, i < m ↔ recordsSize recs i ≤ n
  | [], rounds, n, _ => by
    refine ⟨0, le_rfl, ?_, by simp⟩
    cases rounds with
    | zero => rfl
    | succ rounds => simp [loadLoop, loadRecord_nil]
  | r :: recs, 0, n, h => absurd h (by simp)
  | r :: recs, rounds + 1, n, h => by
    rw [List.flatMap_cons, loadLoop, loadRecord_take]
    by_cases hfits : r.size ≤ n
    · obtain ⟨m, hm, hloop, hlast⟩ := loadLoop_take recs rounds (n - r.size) (by simpa using h)
      refine ⟨m + 1, by simpa using hm, ?_, ?_⟩
      · rw [if_pos hfits, List.take_succ_cons]
        exact congrArg (r :: ·) hloop
      · intro i hi
        cases i with
        | zero => simp [recordsSize, hfits]
        | succ i =>
          have hrest := hlast i (by simpa using hi)
          simp only [recordsSize, List.take_succ_cons, List.map_cons, List.sum_cons] at hrest ⊢
          omega
    · refine ⟨0, by simp, ?_, ?_⟩
      · rw [if_neg hfits]
        rfl
      · intro i hi
        simp only [recordsSize, List.take_succ_cons, List.map_cons, List.sum_cons]
        omega

/-! ## The header -/

theorem length_stringRecords_le (db : KvTable S) : db.stringRecords.length ≤ db.occupied := by
  unfold stringRecords occupied
  rw [List.length_filterMap_eq_countP]
  apply List.countP_mono_left
  intro e _ he
  cases e with
  | empty => simp [snapRecord?] at he
  | deleted => simp [snapRecord?] at he
  | occupied k o => rfl

theorem Wf.count_lt {db : KvTable S} (h : db.Wf) : db.count < 256 ^ 8 := by
  have h1 := h.load
  have h2 := h.addressable
  simp only [kvEntrySize, sizeBound] at h2
  omega

/-- The calls for a cut file of a well-formed table. -/
theorem Wf.loadCalls_take {db : KvTable S} (h : db.Wf) {bytes : List UInt8}
    (hsave : db.kvSave = some bytes) (n : Nat) :
    ∃ m ≤ db.stringRecords.length, loadCalls (bytes.take n) = db.stringRecords.take m ∧
      ∀ i < db.stringRecords.length, i < m ↔ 8 + recordsSize db.stringRecords i ≤ n := by
  obtain ⟨_, _, rfl⟩ := Option.map_eq_some_iff.mp hsave
  have hrounds : db.stringRecords.length ≤ db.count :=
    le_trans db.length_stringRecords_le h.occupied_le
  unfold loadCalls
  rw [ByteCursor.fread_take (length_leBytes 8 _)]
  by_cases hn : 8 ≤ n
  · obtain ⟨m, hm, hloop, hlast⟩ := loadLoop_take db.stringRecords db.count (n - 8) hrounds
    refine ⟨m, hm, ?_, ?_⟩
    · rw [if_pos hn]
      simp only [leNat_leBytes h.count_lt]
      exact hloop
    · intro i hi
      rw [hlast i hi]
      omega
  · refine ⟨0, by simp, ?_, ?_⟩
    · rw [if_neg hn]
      rfl
    · intro i hi
      omega

/-- The whole file, whatever the header counts besides the records. -/
theorem Wf.loadCalls_kvSave {db : KvTable S} (h : db.Wf) {bytes : List UInt8}
    (hsave : db.kvSave = some bytes) : loadCalls bytes = db.stringRecords := by
  obtain ⟨m, hm, hcalls, hlast⟩ := h.loadCalls_take hsave bytes.length
  rw [List.take_length] at hcalls
  rw [hcalls]
  apply List.take_of_length_le
  by_contra hlt
  have hbytes : 8 + recordsSize db.stringRecords m ≤ bytes.length := by
    obtain ⟨_, _, rfl⟩ := Option.map_eq_some_iff.mp hsave
    have hall : recordsSize db.stringRecords m ≤ (db.stringRecords.map SnapRecord.size).sum := by
      exact ((List.take_sublist _ _).map _).sum_le_sum (by simp)
    simp only [List.length_append, length_leBytes, List.length_flatMap]
    exact Nat.add_le_add_left hall 8
  exact absurd ((hlast m (by omega)).mpr hbytes) (lt_irrefl m)

/-! ## Truncated files -/

/-- **Truncation.** For every reachable table and every `n`, the calls
`kv_open` makes for the first `n` bytes of the saved file are those of the
string records that end within them; for the whole file, of all of them. -/
theorem kvOpen_of_truncated [LinearOrder S] (path : Option CStr) (file : Option (List UInt8))
    (ops : List (StoreOp S)) (bytes : List UInt8)
    (hsave : (storeRun path file ops).kvSave = some bytes) (n : Nat) :
    (∃ m ≤ (storeRun path file ops).stringRecords.length,
      loadCalls (bytes.take n) = (storeRun path file ops).stringRecords.take m ∧
      (∀ i < (storeRun path file ops).stringRecords.length,
        i < m ↔ 8 + recordsSize (storeRun path file ops).stringRecords i ≤ n) ∧
      ∀ p, (kvOpen (some p) (some (bytes.take n)) : KvTable S)
        = ((storeRun path file ops).stringRecords.take m).foldl replay (fresh (some p))) ∧
    loadCalls bytes = (storeRun path file ops).stringRecords := by
  have hwf := Wf.storeRun path file ops
  refine ⟨?_, hwf.loadCalls_kvSave hsave⟩
  obtain ⟨m, hm, hcalls, hlast⟩ := hwf.loadCalls_take hsave n
  refine ⟨m, hm, hcalls, hlast, fun p => ?_⟩
  rw [kvOpen, hcalls]

/-- A table of a string and a list, whose header counts two keys. -/
def stringAndList : KvTable Int :=
  storeRun (some (.lit "f")) none
    [.table (.set true (.lit "k") (.lit "v") 5), .rpush true (.lit "l") (.lit "a")]

/-- One byte short of its only string record, the file gives no call. -/
theorem kvOpen_of_truncated_short :
    8 + recordsSize stringAndList.stringRecords 0 = 57 ∧
      loadCalls ((stringAndList.kvSave.getD []).take 56) = [] := by
  have hsize : 8 + recordsSize stringAndList.stringRecords 0 = 57 := by decide
  obtain ⟨m, hm, hcalls, hlast, _⟩ := (kvOpen_of_truncated (S := Int) (some (.lit "f")) none
    [.table (.set true (.lit "k") (.lit "v") 5), .rpush true (.lit "l") (.lit "a")]
    (stringAndList.kvSave.getD []) (by decide) 56).1
  refine ⟨hsize, hcalls.trans ?_⟩
  have hzero : ¬ 0 < m := by
    intro hpos
    have hle : 8 + recordsSize stringAndList.stringRecords 0 ≤ 56 :=
      (hlast 0 (by omega)).mp hpos
    omega
  rw [Nat.eq_zero_of_not_pos hzero, List.take_zero]

end KvTable

/-! ## The round trip -/

/-- The object a record is replayed into. -/
def SnapRecord.object (r : SnapRecord) : DbObject S :=
  { data := .string r.value, ttl := -1, version := r.kvMeta.version
    wallclock := r.kvMeta.wallclock, origin := r.kvMeta.origin }

namespace KvTable

/-- A replayed record has memory, and room beside the keys that are there. -/
def Admits (db : KvTable S) (r : SnapRecord) : Prop :=
  ¬ db.CannotStore true ∧ db.HasRoom r.key

instance (db : KvTable S) (r : SnapRecord) : Decidable (db.Admits r) :=
  inferInstanceAs (Decidable (_ ∧ _))

theorem kvGetObject_replay {db : KvTable S} (h : db.Wf) {r : SnapRecord} (hr : db.Admits r)
    (k : CStr) :
    (db.replay r).kvGetObject k = if k = r.key then some r.object else db.kvGetObject k := by
  have hret := kvSetObject_of_canStore hr.1 r.key
    ((DbObject.objCreateString r.value r.kvMeta.wallclock).stamp (some r.kvMeta)) (some r.kvMeta)
  exact kvGetObject_kvSetObject h (Prod.ext rfl hret) hr.2 k

/-- Records with distinct keys, replayed one after the other. -/
theorem kvGetObject_replayAll : ∀ (recs : List SnapRecord) (db : KvTable S), db.Wf →
    Run.Guarded replay Admits db recs → (recs.map SnapRecord.key).Nodup →
      (∀ r ∈ recs, (recs.foldl replay db).kvGetObject r.key = some r.object) ∧
      ∀ k, k ∉ recs.map SnapRecord.key →
        (recs.foldl replay db).kvGetObject k = db.kvGetObject k
  | [], db, _, _, _ => by simp
  | r :: recs, db, h, hg, hnd => by
    rw [List.map_cons, List.nodup_cons] at hnd
    obtain ⟨hin, hout⟩ := kvGetObject_replayAll recs (db.replay r) (h.replay r) hg.2 hnd.2
    constructor
    · intro r' hr'
      rcases List.mem_cons.mp hr' with rfl | hr'
      · rw [List.foldl_cons, hout r'.key hnd.1, kvGetObject_replay h hg.1, if_pos rfl]
      · exact hin r' hr'
    · intro k hk
      rw [List.map_cons, List.mem_cons, not_or] at hk
      rw [List.foldl_cons, hout k hk.2, kvGetObject_replay h hg.1, if_neg hk.1]

theorem snapRecord?_eq_some {e : KvEntry S} {r : SnapRecord} :
    snapRecord? e = some r ↔
      ∃ o, e = .occupied r.key o ∧ o.string? = some r.value ∧ o.kvMeta = r.kvMeta := by
  cases e with
  | empty => simp [snapRecord?]
  | deleted => simp [snapRecord?]
  | occupied k o =>
    simp only [snapRecord?, Option.map_eq_some_iff, Slot.occupied.injEq]
    constructor
    · rintro ⟨v, hv, rfl⟩
      exact ⟨o, ⟨rfl, rfl⟩, hv, rfl⟩
    · rintro ⟨o', ⟨rfl, rfl⟩, hv, hm⟩
      exact ⟨r.value, hv, by rw [hm]⟩

/-- The records of a table are its string objects. -/
theorem Wf.mem_stringRecords {db : KvTable S} (h : db.Wf) {r : SnapRecord} :
    r ∈ db.stringRecords ↔ ∃ o, db.kvGetObject r.key = some o ∧
      o.string? = some r.value ∧ o.kvMeta = r.kvMeta := by
  simp only [stringRecords, List.mem_filterMap, snapRecord?_eq_some, kvGetObject_eq_lookup,
    OpenAddressing.lookup_eq_some_iff h.findable]
  constructor
  · rintro ⟨e, he, o, rfl, hv, hm⟩
    exact ⟨o, exists_entry_iff_mem.mpr he, hv, hm⟩
  · rintro ⟨o, he, hv, hm⟩
    exact ⟨_, exists_entry_iff_mem.mp he, o, rfl, hv, hm⟩

theorem Wf.nodup_stringRecords {db : KvTable S} (h : db.Wf) :
    (db.stringRecords.map SnapRecord.key).Nodup := by
  have hkeys := nodup_keys h.findable
  rw [List.Nodup, List.pairwise_filterMap] at hkeys
  rw [List.Nodup, List.pairwise_map, stringRecords, List.pairwise_filterMap]
  refine hkeys.imp ?_
  intro e e' hne r hr r' hr'
  obtain ⟨o, rfl, _⟩ := snapRecord?_eq_some.mp hr
  obtain ⟨o', rfl, _⟩ := snapRecord?_eq_some.mp hr'
  exact hne r.key rfl r'.key rfl

/-- What of an object survives a snapshot. -/
def survives (o : DbObject S) : Option (DbObject S) :=
  if o.type = .string then some { o with ttl := -1 } else none

theorem survives_of_string {o : DbObject S} {r : SnapRecord} (hv : o.string? = some r.value)
    (hm : o.kvMeta = r.kvMeta) : survives o = some r.object := by
  cases o with
  | mk data ttl version wallclock origin =>
    cases data <;> simp_all [DbObject.string?, survives, DbObject.type, ObjData.type,
      SnapRecord.object, ← hm, DbObject.kvMeta]

theorem survives_of_not_string {o : DbObject S} (hv : o.string? = none) : survives o = none := by
  cases o with
  | mk data =>
    cases data <;> simp_all [DbObject.string?, survives, DbObject.type, ObjData.type]

/-- **The round trip.** Opening the file of a reachable table gives every
string key its value, version, wallclock and origin back, without expiry,
and no other key; the records are replayed through `kv_set_meta`, which
has to have room for each. -/
theorem kvOpen_kvSave [LinearOrder S] (path : Option CStr) (file : Option (List UInt8))
    (ops : List (StoreOp S)) (p : CStr) (bytes : List UInt8)
    (hsave : (storeRun path file ops).kvSave = some bytes)
    (hroom : Run.Guarded replay Admits (fresh (some p) : KvTable S)
      (storeRun path file ops).stringRecords) (k : CStr) :
    (kvOpen (some p) (some bytes)).kvGetObject k
      = ((storeRun path file ops).kvGetObject k).bind survives := by
  have hwf := Wf.storeRun path file ops
  generalize storeRun path file ops = db at hwf hsave hroom
  obtain ⟨hin, hout⟩ := kvGetObject_replayAll db.stringRecords (fresh (some p))
    (Wf.fresh (some p)) hroom hwf.nodup_stringRecords
  rw [kvOpen, hwf.loadCalls_kvSave hsave]
  by_cases hk : k ∈ db.stringRecords.map SnapRecord.key
  · obtain ⟨r, hr, rfl⟩ := List.mem_map.mp hk
    obtain ⟨o, ho, hv, hm⟩ := hwf.mem_stringRecords.mp hr
    rw [hin r hr, ho, Option.bind_some, survives_of_string hv hm]
  · rw [hout k hk, kvGetObject_fresh]
    cases ho : db.kvGetObject k with
    | none => rfl
    | some o =>
      rw [Option.bind_some]
      cases hv : o.string? with
      | none => exact (survives_of_not_string hv).symm
      | some v =>
        have hr : (⟨k, v, o.kvMeta⟩ : SnapRecord) ∈ db.stringRecords :=
          hwf.mem_stringRecords.mpr ⟨o, ho, hv, rfl⟩
        exact absurd (List.mem_map_of_mem hr) hk

/-- The string of a saved table comes back. -/
theorem kvOpen_kvSave_string :
    (kvOpen (some (.lit "f")) (some (stringAndList.kvSave.getD []))).kvGetObject (.lit "k")
      = (stringAndList.kvGetObject (.lit "k")).bind survives :=
  kvOpen_kvSave (some (.lit "f")) none
    [.table (.set true (.lit "k") (.lit "v") 5), .rpush true (.lit "l") (.lit "a")] (.lit "f")
    (stringAndList.kvSave.getD []) (by decide) (by decide) (.lit "k")

/-- The list of a saved table is not in the file. -/
theorem kvOpen_kvSave_loses_list :
    ¬ ((kvOpen (some (.lit "f")) stringAndList.kvSave : KvTable Int).kvGetObject (.lit "l")).isSome
      ∧ (stringAndList.kvGetObject (.lit "l")).isSome := by
  decide

end KvTable

end AntzKV

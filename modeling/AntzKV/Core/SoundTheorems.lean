/-
AntzKV.Core.SoundTheorems — every object of a reachable table is sound.

`ObjData.Sound` collects the invariants of the structures behind `ptr`:
the links of a list, the chains of a hash table, the levels of a sorted
set; the nodes of a hash have values. A command takes a structure out of
the table, changes it and writes it back, so it keeps `KvTable.Sound`
when the change keeps the invariant. `SoundOp` is an operation that hands
`kv_set_object` no broken object, and `soundRun` a run of these; from
`Sound.soundRun` on a claim about one structure is a claim about every
key of every reachable table.
-/
import AntzKV.Core.DlistTheorems
import AntzKV.Core.SetTheorems
import AntzKV.Core.SortedSetTheorems

namespace AntzKV

open DbObject (objCreateString objCreateList objCreateSet objCreateHash objCreateZset)

variable {S : Type} [LinearOrder S]

/-- The structure behind `ptr` is one its operations make. -/
def ObjData.Sound : ObjData S → Prop
  | .string _ => True
  | .list l => ∃ ns vs, Dlist.Repr l ns vs
  | .set ht => ∃ m, ht.Holds m
  | .hash ht => ∃ m, ht.Holds m ∧ ∀ k, m k ≠ some none
  | .zset z => ∃ L, Zskiplist.Repr z L

namespace KvTable

/-- The entries are found by their keys, and every object is sound. -/
structure Sound (db : KvTable S) : Prop where
  wf : db.Wf
  data : ∀ k o, db.kvGetObject k = some o → o.data.Sound

variable {db : KvTable S}

/-! ## What an object of each type holds -/

/-- The structure behind a list object has a node list and its values. -/
theorem Sound.list (h : db.Sound) {key : CStr} {l : Dlist}
    (hl : db.wrObj DbObject.list? key = some l) : ∃ ns vs, Dlist.Repr l ns vs := by
  obtain ⟨o, hget, ho⟩ := exists_of_wrObj hl
  have hdata := h.data key o hget
  rwa [DbObject.list?_eq_some_iff.mp ho] at hdata

theorem Sound.set (h : db.Sound) {key : CStr} {ht : SimpleHt}
    (hs : db.wrObj DbObject.set? key = some ht) : ∃ m, ht.Holds m := by
  obtain ⟨o, hget, ho⟩ := exists_of_wrObj hs
  have hdata := h.data key o hget
  rwa [DbObject.set?_eq_some_iff.mp ho] at hdata

/-- In a hash every field has a value: `kv_hset` never passes NULL. -/
theorem Sound.hash (h : db.Sound) {key : CStr} {ht : SimpleHt}
    (hs : db.wrObj DbObject.hash? key = some ht) : ∃ m, ht.Holds m ∧ ∀ k, m k ≠ some none := by
  obtain ⟨o, hget, ho⟩ := exists_of_wrObj hs
  have hdata := h.data key o hget
  rwa [DbObject.hash?_eq_some_iff.mp ho] at hdata

theorem Sound.zset (h : db.Sound) {key : CStr} {z : Zskiplist S}
    (hz : db.wrObj DbObject.zset? key = some z) : ∃ L, Zskiplist.Repr z L := by
  obtain ⟨o, hget, ho⟩ := exists_of_wrObj hz
  have hdata := h.data key o hget
  rwa [DbObject.zset?_eq_some_iff.mp ho] at hdata

/-! ## What changes a table -/

/-- A change of one object keeps the table sound if it keeps the object so. -/
theorem Sound.modifyObj (h : db.Sound) (key : CStr) {f : DbObject S → DbObject S}
    (hf : ∀ o, db.kvGetObject key = some o → (f o).data.Sound) : (db.modifyObj key f).Sound := by
  refine ⟨h.wf.modifyObj key f, fun k o hget => ?_⟩
  rw [kvGetObject_modifyObj h.wf] at hget
  split at hget
  · obtain ⟨o', ho', rfl⟩ := Option.map_eq_some_iff.mp hget
    exact hf o' ho'
  · exact h.data k o hget

theorem Sound.putData (h : db.Sound) (key : CStr) {data : ObjData S} (hdata : data.Sound) :
    (db.putData key data).Sound := h.modifyObj key fun _ _ => hdata

/-- The same at an entry that was found by its index, as in `kv_incrby`. -/
theorem Sound.modifyAt (h : db.Sound) (i : Nat) {f : DbObject S → DbObject S}
    (hf : ∀ o, (f o).data.Sound) : (db.modifyAt i f).Sound := by
  refine ⟨h.wf.modifyAt i f, fun k o hget => ?_⟩
  rcases modifyAt_cases db i f with hr | ⟨k', o', hi, hr⟩
  · rw [hr] at hget
    exact h.data k o hget
  · rw [hr, kvGetObject_eq_lookup, capacity_setEntry, entry_setEntry (lt_capacity_of_entry hi),
      OpenAddressing.lookup_replace h.wf.findable hi (f o') k] at hget
    split at hget
    · rw [← Option.some.inj hget]
      exact hf o'
    · rw [← kvGetObject_eq_lookup] at hget
      exact h.data k o hget

/-- `kv_set_object` stores a sound object: whatever it overwrites, what is left
is sound. -/
theorem Sound.kvSetObject (h : db.Sound) (calloc : Calloc) (key : CStr) {obj : DbObject S}
    (hobj : obj.data.Sound) (m : Option KvMeta) : (db.kvSetObject calloc key obj m).1.Sound := by
  refine ⟨h.wf.kvSetObject calloc key obj m, fun k o hget => ?_⟩
  rcases stored_kvSetObject h.wf hget with hold | ⟨-, rfl⟩
  · exact h.data k o hold
  · cases m <;> exact hobj

/-- Soundness reads the entries and the counter only. -/
theorem Sound.congr {db' : KvTable S} (h : db.Sound) (he : db'.entries = db.entries)
    (hc : db'.count = db.count) : db'.Sound :=
  ⟨h.wf.congr he hc, fun k o hget => h.data k o (by rwa [kvGetObject_congr he] at hget)⟩

theorem Sound.kvNextVersion (h : db.Sound) : db.kvNextVersion.1.Sound :=
  h.congr (entries_kvNextVersion db) (count_kvNextVersion db)

/-- A tombstone takes one object away. -/
theorem Sound.bury (h : db.Sound) {i : Nat} {k : CStr} {o : DbObject S}
    (hi : db.entry i = .occupied k o) : (db.bury i).Sound := by
  refine ⟨h.wf.bury hi, fun k' o' hget => ?_⟩
  rw [kvGetObject_bury h.wf hi] at hget
  split at hget
  · cases hget
  · exact h.data k' o' hget

/-! ## Get or create -/

section Create

variable {β : Type} {sel : DbObject S → Option β} {create : DbObject S}

theorem Sound.createUnless (h : db.Sound) (hcreate : create.data.Sound) (calloc : Calloc)
    (key : CStr) : (db.createUnless sel create calloc key).1.Sound := by
  unfold KvTable.createUnless
  split
  · exact h
  · exact h.kvSetObject calloc key hcreate none

/-- The get-or-create helpers come back to a sound table: a new object is an
empty structure. -/
theorem Sound.wrOrCreate (h : db.Sound) (hcreate : create.data.Sound) (calloc : Calloc)
    (key : CStr) : (db.wrOrCreate sel create calloc key).1.Sound := by
  unfold KvTable.wrOrCreate
  split
  · exact h
  · simp only
    split <;> exact h.kvSetObject calloc key hcreate none

omit [LinearOrder S] in
/-- The structure handed back is the one in the table. -/
theorem wrObj_of_wrOrCreate {t : KvTable S} {b : β} {calloc : Calloc} {key : CStr}
    (h : db.wrOrCreate sel create calloc key = (t, some b)) : t.wrObj sel key = some b := by
  unfold KvTable.wrOrCreate at h
  cases hsel : db.wrObj sel key with
  | some b' =>
    simp only [hsel, Prod.mk.injEq, Option.some.injEq] at h
    obtain ⟨rfl, rfl⟩ := h
    exact hsel
  | none =>
    simp only [hsel] at h
    split at h
    · cases h
    · obtain ⟨rfl, hb⟩ := Prod.mk.inj h
      exact hb

end Create

theorem sound_objCreateString (s : CStr) (usec : UInt64) :
    (objCreateString s usec : DbObject S).data.Sound := trivial

theorem sound_objCreateList : (objCreateList : DbObject S).data.Sound := ⟨[], [], Dlist.repr_empty⟩

/-- A new hash table is the empty map. -/
theorem holds_htCreate : SimpleHt.htCreate.Holds fun _ => none := SimpleHt.holds_run []

theorem sound_objCreateSet : (objCreateSet : DbObject S).data.Sound := ⟨_, holds_htCreate⟩

theorem sound_objCreateHash : (objCreateHash : DbObject S).data.Sound :=
  ⟨_, holds_htCreate, fun _ => nofun⟩

theorem sound_objCreateZset : (objCreateZset : DbObject S).data.Sound :=
  ⟨[], Zskiplist.repr_zslCreate⟩

/-! ## The commands -/

theorem Sound.kvSetTtl (h : db.Sound) (key : CStr) (ttl : Int) : (db.kvSetTtl key ttl).1.Sound := by
  unfold KvTable.kvSetTtl
  split
  · exact h.modifyObj key fun o ho => h.data key o ho
  · exact h

/-- The addition of `kv_incrby` writes a string, wherever the probe ended. -/
theorem Sound.incrAt (h : db.Sound) (idx : Nat) (delta : Int) : (db.incrAt idx delta).1.Sound := by
  unfold KvTable.incrAt
  split
  · exact h
  · split
    · exact h
    · exact h.modifyAt idx fun _ => trivial

theorem sound_zeroObj (db : KvTable S) (usec : UInt64) :
    (db.zeroObj usec).data.Sound := trivial

/-- Either `kv_incrby` writes a string at its entry, or it stops before. -/
theorem Sound.kvIncrby (h : db.Sound) (calloc : Calloc) (key : CStr) (delta : Int) (usec : UInt64) :
    (db.kvIncrby calloc key delta usec).1.Sound := by
  unfold KvTable.kvIncrby
  cases hp : db.probe key with
  | mk idx found =>
    cases found with
    | true => exact h.incrAt idx delta
    | false =>
      simp only [Bool.false_eq_true, if_false]
      split
      · exact h.kvNextVersion
      · have hset := h.kvNextVersion.kvSetObject calloc key (sound_zeroObj db usec) none
        exact hset.incrAt _ delta

/-- `kv_append` leaves a longer string, or the table it found after creating
an empty one. -/
theorem Sound.kvAppend (h : db.Sound) (calloc : Calloc) (key suffix : CStr) (usec : UInt64) :
    (db.kvAppend calloc key suffix usec).1.Sound := by
  have hset : (db.createUnless DbObject.string? (objCreateString (.lit "") usec) calloc key).1.Sound :=
    h.createUnless (sound_objCreateString _ usec) calloc key
  unfold KvTable.kvAppend
  simp only
  split
  · exact hset
  · split
    · exact hset
    · split
      · exact hset
      · exact hset.putData key trivial

/-- A push that keeps lists lists keeps the table sound. -/
theorem Sound.kvPush (h : db.Sound) {push : Dlist → CStr → Dlist}
    (hpush : ∀ l ns vs v, Dlist.Repr l ns vs → ∃ ns' vs', Dlist.Repr (push l v) ns' vs')
    (calloc : Calloc) (key value : CStr) : (db.kvPush push calloc key value).1.Sound := by
  rw [KvTable.kvPush, kvEnsureList_eq]
  cases hw : db.wrOrCreate DbObject.list? objCreateList calloc key with
  | mk t l =>
    have ht : (db.wrOrCreate DbObject.list? objCreateList calloc key).1.Sound :=
      h.wrOrCreate sound_objCreateList calloc key
    rw [hw] at ht
    cases l with
    | none => exact ht
    | some l =>
      obtain ⟨ns, vs, hr⟩ := ht.list (wrObj_of_wrOrCreate hw)
      exact ht.putData key (hpush l ns vs value hr)

theorem Sound.kvLpush (h : db.Sound) (calloc : Calloc) (key value : CStr) :
    (db.kvLpush calloc key value).1.Sound :=
  h.kvPush (fun _ _ _ v hr => ⟨_, _, hr.pushLeft v⟩) calloc key value

theorem Sound.kvRpush (h : db.Sound) (calloc : Calloc) (key value : CStr) :
    (db.kvRpush calloc key value).1.Sound :=
  h.kvPush (fun _ _ _ v hr => ⟨_, _, hr.pushRight v⟩) calloc key value

/-- And so does a pop, on what is left of the list. -/
theorem Sound.kvPop (h : db.Sound) {pop : Dlist → Dlist × Option CStr}
    (hpop : ∀ l ns vs, Dlist.Repr l ns vs → ∃ ns' vs', Dlist.Repr (pop l).1 ns' vs') (key : CStr) :
    (db.kvPop pop key).1.Sound := by
  unfold KvTable.kvPop
  cases hl : db.wrObj DbObject.list? key with
  | none => exact h
  | some l =>
    obtain ⟨ns, vs, hr⟩ := h.list hl
    exact h.putData key (hpop l ns vs hr)

theorem Sound.kvLpop (h : db.Sound) (key : CStr) : (db.kvLpop key).1.Sound :=
  h.kvPop (fun _ _ _ hr => ⟨_, _, hr.popLeft.1⟩) key

theorem Sound.kvRpop (h : db.Sound) (key : CStr) : (db.kvRpop key).1.Sound :=
  h.kvPop (fun _ _ _ hr => ⟨_, _, hr.popRight.1⟩) key

/-- `kv_lset` writes one node of the list, or nothing. -/
theorem Sound.kvLset (h : db.Sound) (key : CStr) (idx : Int) (value : CStr) :
    (db.kvLset key idx value).1.Sound := by
  unfold KvTable.kvLset
  cases hl : db.wrObj DbObject.list? key with
  | none => exact h
  | some l =>
    obtain ⟨ns, vs, hr⟩ := h.list hl
    by_cases hin : RefList.InRange vs idx
    · obtain ⟨l', hset, hr'⟩ := (hr.set idx value).1 hin
      simp only [hset]
      exact h.putData key ⟨ns, _, hr'⟩
    · simp only [(hr.set idx value).2 hin]
      exact h

/-- `kv_lrem` takes nodes out of the list. -/
theorem Sound.kvLrem (h : db.Sound) (key : CStr) (count : Int) (value : CStr) :
    (db.kvLrem key count value).1.Sound := by
  unfold KvTable.kvLrem
  cases hl : db.wrObj DbObject.list? key with
  | none => exact h
  | some l =>
    obtain ⟨ns, vs, hr⟩ := h.list hl
    obtain ⟨ns', hr'⟩ := (hr.rem count value).1
    exact h.putData key ⟨ns', _, hr'⟩

/-- `kv_lpoprpush` is a pop and then a push. -/
theorem Sound.kvLpoprpush (h : db.Sound) (calloc : Calloc) (src dst : CStr) :
    (db.kvLpoprpush calloc src dst).1.Sound := by
  have hpop := h.kvRpop src
  unfold KvTable.kvLpoprpush
  revert hpop
  cases db.kvRpop src with
  | mk t v =>
    intro hpop
    cases v with
    | none => exact hpop
    | some v => exact hpop.kvLpush calloc dst v

/-- The loop of `kv_sadd` is a sequence of `ht_add`, each of which keeps the
table a map. -/
theorem Sound.kvSadd (h : db.Sound) (calloc : Calloc) (key : CStr) (members : List CStr) :
    (db.kvSadd calloc key members).1.Sound := by
  cases hw : db.wrSetObj calloc key with
  | mk t ht =>
    have hsound : (db.wrSetObj calloc key).1.Sound := h.wrOrCreate sound_objCreateSet calloc key
    rw [hw] at hsound
    cases ht with
    | none =>
      rw [kvSadd_eq_err hw]
      exact hsound
    | some ht =>
      obtain ⟨m, hm⟩ := hsound.set (wrObj_of_wrOrCreate hw)
      rw [kvSadd_eq_ok hw]
      exact hsound.putData key (hm.addAll members).1

theorem Sound.kvSrem (h : db.Sound) (key : CStr) (members : List CStr) :
    (db.kvSrem key members).1.Sound := by
  unfold KvTable.kvSrem
  cases hs : db.wrObj DbObject.set? key with
  | none => exact h
  | some ht =>
    obtain ⟨m, hm⟩ := h.set hs
    obtain ⟨⟨m', hholds, -⟩, -⟩ := hm.removeAll members
    exact h.putData key ⟨m', hholds⟩

/-- A field that is set has a value. -/
theorem ne_none_onMap {m : HtMap} (hm : ∀ k, m k ≠ some none) (field value : CStr) :
    ∀ k, ((HtOp.add field (some value) true).onMap m).1 k ≠ some none := by
  intro k
  by_cases hk : k = field
  · subst hk
    cases hmk : m k <;> simp [HtOp.onMap, hmk]
  · cases hmk : m field <;> simp [HtOp.onMap, hmk, hk, hm k]

/-- `kv_hset` replaces the value of its field, so no field is left without one. -/
theorem Sound.kvHset (h : db.Sound) (calloc : Calloc) (key field value : CStr) :
    (db.kvHset calloc key field value).1.Sound := by
  unfold KvTable.kvHset
  cases hw : db.wrHash calloc key with
  | mk t ht =>
    have hsound : (db.wrHash calloc key).1.Sound := h.wrOrCreate sound_objCreateHash calloc key
    rw [hw] at hsound
    cases ht with
    | none => exact hsound
    | some ht =>
      obtain ⟨m, hm, hval⟩ := hsound.hash (wrObj_of_wrOrCreate hw)
      exact hsound.putData key
        ⟨_, (hm.htAdd field (some value) true).2.1, ne_none_onMap hval field value⟩

theorem Sound.kvHdel (h : db.Sound) (key : CStr) (fields : List CStr) :
    (db.kvHdel key fields).1.Sound := by
  unfold KvTable.kvHdel
  cases hs : db.wrObj DbObject.hash? key with
  | none => exact h
  | some ht =>
    obtain ⟨m, hm, hval⟩ := h.hash hs
    obtain ⟨⟨m', hholds, hsub⟩, -⟩ := hm.removeAll fields
    exact h.putData key ⟨m', hholds, fun k hk => hval k (hsub k none hk)⟩

/-- `kv_zadd` inserts where the order puts its member, at the level it draws. -/
theorem Sound.kvZadd (h : db.Sound) (calloc : Calloc) (key : CStr) (score : S) (member : CStr)
    (rand : Nat → Nat) : (db.kvZadd calloc key score member rand).1.Sound := by
  have hset : (db.createUnless DbObject.zset? objCreateZset calloc key).1.Sound :=
    h.createUnless sound_objCreateZset calloc key
  unfold KvTable.kvZadd
  simp only
  split
  · exact hset
  · cases hz : (db.createUnless DbObject.zset? objCreateZset calloc key).1.wrObj DbObject.zset? key with
    | none => exact hset
    | some z =>
      obtain ⟨L, hr⟩ := hset.zset hz
      obtain ⟨hpos, hmax⟩ := zslRandomLevel_bounds rand
      exact hset.putData key (Zskiplist.Repr.zslStep ⟨L, hr⟩ (.insert score member ⟨_, hpos, hmax⟩))

/-- `kv_zrem` unlinks one node at most. -/
theorem Sound.kvZrem (h : db.Sound) (key member : CStr) : (db.kvZrem key member).1.Sound := by
  unfold KvTable.kvZrem
  cases hz : db.wrObj DbObject.zset? key with
  | none => exact h
  | some z => exact h.putData key (Zskiplist.Repr.zslStep (h.zset hz) (.delete member))

end KvTable

/-! ## Runs -/

/-- The object handed to `kv_set_object` is one the constructors and the
operations make. -/
def StoreOp.Sound : StoreOp S → Prop
  | .table (.setObject _ _ obj _) => obj.data.Sound
  | _ => True

/-- A write of `kvdb.c`, called with sound objects. -/
abbrev SoundOp (S : Type) [LinearOrder S] := { op : StoreOp S // op.Sound }

namespace KvTable

/-- Every operation keeps every object sound; `SoundOp` leaves out only the
stores of objects from outside. -/
theorem Sound.step {db : KvTable S} (h : db.Sound) (op : SoundOp S) :
    (StoreOp.step db op.1).Sound := by
  obtain ⟨op, hop⟩ := op
  cases op with
  | table op =>
    cases op with
    | set calloc key value usec =>
      exact h.kvNextVersion.kvSetObject calloc key (sound_objCreateString value usec) _
    | setObject calloc key obj m => exact h.kvSetObject calloc key hop m
    | del key =>
      show (db.kvDel key).1.Sound
      rcases kvDel_cases db key with ⟨-, hr⟩ | ⟨o, ho, -, hr⟩ <;> rw [hr]
      · exact h
      · exact h.bury ho
    | delMeta key m =>
      have hbump : ∀ t : KvTable S, t.Sound → (t.bumpVersion m).Sound := fun t ht =>
        ht.congr (entries_bumpVersion t m) (count_bumpVersion t m)
      show (db.kvDelMeta key m).1.Sound
      rcases kvDelMeta_cases db key m with ⟨-, hr⟩ | ⟨o, ho, -, ⟨-, hr⟩ | ⟨-, hr⟩⟩ <;> rw [hr]
      · exact hbump db h
      · exact h
      · exact hbump _ (h.bury ho)
    | activeExpire maxSamples now rand =>
      exact kvActiveExpire_invariant (fun _ _ _ _ hi hs => hs.bury hi) h maxSamples now rand
  | setTtl key ttl => exact h.kvSetTtl key ttl
  | incrby calloc key delta usec => exact h.kvIncrby calloc key delta usec
  | append calloc key suffix usec => exact h.kvAppend calloc key suffix usec
  | lpush calloc key value => exact h.kvLpush calloc key value
  | rpush calloc key value => exact h.kvRpush calloc key value
  | lpop key => exact h.kvLpop key
  | rpop key => exact h.kvRpop key
  | lset key idx value => exact h.kvLset key idx value
  | lrem key count value => exact h.kvLrem key count value
  | lpoprpush calloc src dst => exact h.kvLpoprpush calloc src dst
  | sadd calloc key members => exact h.kvSadd calloc key members
  | srem key members => exact h.kvSrem key members
  | hset calloc key field value => exact h.kvHset calloc key field value
  | hdel key fields => exact h.kvHdel key fields
  | zadd calloc key score member rand => exact h.kvZadd calloc key score member rand
  | zrem key member => exact h.kvZrem key member

/-- A file holds strings only. -/
theorem Sound.kvOpen (path : Option CStr) (file : Option (List UInt8)) :
    (kvOpen path file : KvTable S).Sound := by
  have hfresh : (fresh path : KvTable S).Sound :=
    ⟨.fresh path, fun k o hget => by simp [kvGetObject_fresh] at hget⟩
  rw [kvOpen_eq]
  exact Run.invariant (fun db r h => h.kvSetObject true r.key (sound_objCreateString r.value 0) _)
    _ _ hfresh

/-- The table a run of such writes reaches from `kv_open`. -/
def soundRun (path : Option CStr) (file : Option (List UInt8)) (ops : List (SoundOp S)) :
    KvTable S := ops.foldl (fun db op => StoreOp.step db op.1) (kvOpen path file)

/-- So in every reachable table each object is the structure its type names. -/
theorem Sound.soundRun (path : Option CStr) (file : Option (List UInt8)) (ops : List (SoundOp S)) :
    (soundRun path file ops).Sound :=
  Run.invariant (fun _ op h => h.step op) ops _ (Sound.kvOpen path file)

end KvTable

end AntzKV

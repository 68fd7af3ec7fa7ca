/-
AntzKV.Core.FrameTheorems — what a write of `kvdb.c` leaves alone.

A call names its keys, and the objects of all others stay what they are:
their data, their expiry and their metadata. Two things break that. An
insertion without room lands on the entry of another key, and `kv_incrby`
goes on after a failed insertion, at whatever entry the probe ended on.
`StoreOp.Spares` excludes exactly these; the samples of
`kv_active_expire` are not bound to keys, and what they remove is due.

`SameBut` is the frame of one call and `Kept` the frame of a run.
-/
import AntzKV.Core.CounterTheorems
import AntzKV.Core.ExpiryTheorems

namespace AntzKV

open DbObject (objCreateString objCreateList objCreateSet objCreateHash objCreateZset)

variable {S : Type}

namespace KvTable

/-- Outside `keys` every key has the object it had. -/
def SameBut (keys : List CStr) (db db' : KvTable S) : Prop :=
  ∀ k ∉ keys, db'.kvGetObject k = db.kvGetObject k

namespace SameBut

variable {keys : List CStr} {db db' db'' : KvTable S}

theorem refl (keys : List CStr) (db : KvTable S) : SameBut keys db db := fun _ _ => rfl

/-- What two steps in a row leave alone neither of them touches. -/
theorem trans (h : SameBut keys db db') (h' : SameBut keys db' db'') : SameBut keys db db'' :=
  fun k hk => (h' k hk).trans (h k hk)

/-- A frame over fewer keys is one over more. -/
theorem mono {keys' : List CStr} (h : SameBut keys db db') (hsub : keys ⊆ keys') :
    SameBut keys' db db' := fun k hk => h k fun hmem => hk (hsub hmem)

/-- Only the entries count: a new version changes no key. -/
theorem of_entries_eq (h : db'.entries = db.entries) (keys : List CStr) : SameBut keys db db' :=
  fun k _ => kvGetObject_congr h k

theorem of_ne {key : CStr} (h : ∀ k, k ≠ key → db'.kvGetObject k = db.kvGetObject k) :
    SameBut [key] db db' := fun k hk => h k fun he => hk (by simp [he])

end SameBut

/-! ## The calls all others are made of -/

section Parts

variable {db : KvTable S} (h : db.Wf)

include h

/-- Changing an object where it stands changes the one key. -/
theorem sameBut_modifyObj (key : CStr) (f : DbObject S → DbObject S) :
    SameBut [key] db (db.modifyObj key f) :=
  .of_ne fun k hk => by rw [kvGetObject_modifyObj h, if_neg hk]

theorem sameBut_putData (key : CStr) (data : ObjData S) : SameBut [key] db (db.putData key data) :=
  sameBut_modifyObj h key _

/-- With room the store overwrites no entry of another key; this is where
`HasRoom` comes in. -/
theorem sameBut_kvSetObject {key : CStr} (hroom : db.HasRoom key) (calloc : Calloc)
    (obj : DbObject S) (m : Option KvMeta) :
    SameBut [key] db (db.kvSetObject calloc key obj m).1 := by
  rcases kvSetObject_cases calloc db key obj m with hr | ⟨db', hr⟩ <;> rw [hr]
  · exact .refl _ _
  · exact .of_ne fun k hk => by rw [kvGetObject_kvSetObject h hr hroom, if_neg hk]

theorem sameBut_kvSet {key : CStr} (hroom : db.HasRoom key) (calloc : Calloc) (value : CStr)
    (usec : UInt64) : SameBut [key] db (db.kvSet calloc key value usec).1 := by
  have hset := sameBut_kvSetObject h.kvNextVersion ((hasRoom_kvNextVersion db key).mpr hroom) calloc
    ((DbObject.objCreateString value usec).stamp (some ⟨db.dbVersion + 1, usec, .blank⟩))
    (some ⟨db.dbVersion + 1, usec, .blank⟩)
  exact (SameBut.of_entries_eq (entries_kvNextVersion db) _).trans hset

theorem sameBut_kvDel (key : CStr) : SameBut [key] db (db.kvDel key).1 :=
  .of_ne fun k hk => by rw [kvGetObject_kvDel h, if_neg hk]

theorem sameBut_kvDelMeta (key : CStr) (m : KvMeta) : SameBut [key] db (db.kvDelMeta key m).1 :=
  .of_ne fun k hk => by rw [kvGetObject_kvDelMeta h, if_neg hk]

theorem sameBut_kvSetTtl (key : CStr) (ttl : Int) : SameBut [key] db (db.kvSetTtl key ttl).1 := by
  unfold KvTable.kvSetTtl
  split
  · exact sameBut_modifyObj h key _
  · exact .refl _ _

section Create

variable {β : Type} {sel : DbObject S → Option β} {create : DbObject S} {key : CStr}
  (hroom : db.HasRoom key)

include hroom

/-- A get-or-create helper stores under its own key, if at all. -/
theorem sameBut_createUnless (calloc : Calloc) :
    SameBut [key] db (db.createUnless sel create calloc key).1 := by
  unfold KvTable.createUnless
  split
  · exact .refl _ _
  · exact sameBut_kvSetObject h hroom calloc create none

theorem sameBut_wrOrCreate (calloc : Calloc) :
    SameBut [key] db (db.wrOrCreate sel create calloc key).1 := by
  unfold KvTable.wrOrCreate
  split
  · exact .refl _ _
  · simp only
    split <;> exact sameBut_kvSetObject h hroom calloc create none

end Create

/-! ## The commands -/

/-- The addition at the entry of a key that is there. -/
theorem sameBut_incrAt_found {key : CStr} {o : DbObject S} (hget : db.kvGetObject key = some o)
    (delta : Int) : SameBut [key] db (db.incrAt (db.probe key).1 delta).1 := by
  rw [incrAt_found hget]
  cases o.string? with
  | none => exact .refl _ _
  | some t => exact sameBut_putData h key _

/-- `kv_incrby` needs its key there or created: else the addition goes to
whatever entry the probe ended at. -/
theorem sameBut_kvIncrby {key : CStr} (hroom : db.HasRoom key) {calloc : Calloc}
    (hcreate : db.CanCreate calloc key) (delta : Int) (usec : UInt64) :
    SameBut [key] db (db.kvIncrby calloc key delta usec).1 := by
  cases hget : db.kvGetObject key with
  | some o =>
    rw [kvIncrby_found hget]
    exact sameBut_incrAt_found h hget delta
  | none =>
    have hmiss := probe_missed_of_absent hget
    have hgrow : ¬ db.CannotStore calloc := hcreate.resolve_left (by simp [KvTable.kvExists, hmiss])
    have hself := kvGetObject_zeroObj h hgrow key usec
    have hset := sameBut_kvSetObject h.kvNextVersion ((hasRoom_kvNextVersion db key).mpr hroom)
      calloc (db.zeroObj usec) none
    rw [kvIncrby_missed hmiss (object_of_canStore hgrow)]
    exact (SameBut.of_entries_eq (entries_kvNextVersion db) _).trans
      (hset.trans (sameBut_incrAt_found (h.kvNextVersion.kvSetObject calloc key _ _) hself delta))

/-- `kv_append` creates and writes under one key. -/
theorem sameBut_kvAppend {key : CStr} (hroom : db.HasRoom key) (calloc : Calloc) (suffix : CStr)
    (usec : UInt64) : SameBut [key] db (db.kvAppend calloc key suffix usec).1 := by
  have hset : SameBut [key] db
      (db.createUnless DbObject.string? (objCreateString (.lit "") usec) calloc key).1 :=
    sameBut_createUnless h hroom calloc
  have hwf := h.createUnless DbObject.string? (objCreateString (.lit "") usec) calloc key
  unfold KvTable.kvAppend
  simp only
  split
  · exact hset
  · split
    · exact hset
    · split
      · exact hset
      · exact hset.trans (sameBut_putData hwf key _)

/-- A push creates and writes under one key. -/
theorem sameBut_kvPush {key : CStr} (hroom : db.HasRoom key) (push : Dlist → CStr → Dlist)
    (calloc : Calloc) (value : CStr) : SameBut [key] db (db.kvPush push calloc key value).1 := by
  have hset : SameBut [key] db (db.wrOrCreate DbObject.list? objCreateList calloc key).1 :=
    sameBut_wrOrCreate h hroom calloc
  have hwf := h.wrOrCreate DbObject.list? objCreateList calloc key
  rw [KvTable.kvPush, kvEnsureList_eq]
  revert hset hwf
  cases db.wrOrCreate DbObject.list? objCreateList calloc key with
  | mk t l =>
    intro hset hwf
    cases l with
    | none => exact hset
    | some l => exact hset.trans (sameBut_putData hwf key _)

/-- A pop touches its list, and leaves an empty one in place. -/
theorem sameBut_kvPop (pop : Dlist → Dlist × Option CStr) (key : CStr) :
    SameBut [key] db (db.kvPop pop key).1 := by
  unfold KvTable.kvPop
  split
  · exact .refl _ _
  · exact sameBut_putData h key _

theorem sameBut_kvLset (key : CStr) (idx : Int) (value : CStr) :
    SameBut [key] db (db.kvLset key idx value).1 := by
  unfold KvTable.kvLset
  split
  · exact .refl _ _
  · split
    · exact .refl _ _
    · exact sameBut_putData h key _

theorem sameBut_kvLrem (key : CStr) (count : Int) (value : CStr) :
    SameBut [key] db (db.kvLrem key count value).1 := by
  unfold KvTable.kvLrem
  split
  · exact .refl _ _
  · exact sameBut_putData h key _

/-- `kv_lpoprpush` touches its source and its destination. -/
theorem sameBut_kvLpoprpush {src dst : CStr} (hroom : (db.kvRpop src).1.HasRoom dst)
    (calloc : Calloc) : SameBut [src, dst] db (db.kvLpoprpush calloc src dst).1 := by
  have hpop : SameBut [src] db (db.kvRpop src).1 := sameBut_kvPop h Dlist.dlistPopRight src
  have hwf : (db.kvRpop src).1.Wf := h.kvPop Dlist.dlistPopRight src
  unfold KvTable.kvLpoprpush
  revert hpop hwf hroom
  cases db.kvRpop src with
  | mk t v =>
    intro hroom hpop hwf
    cases v with
    | none => exact hpop.mono (by simp)
    | some v =>
      have hpush : SameBut [dst] t (t.kvLpush calloc dst v).1 :=
        sameBut_kvPush hwf hroom Dlist.dlistPushLeft calloc v
      exact (hpop.mono (by simp)).trans (hpush.mono (by simp))

/-- The set is written back under the key it was taken from. -/
theorem sameBut_kvSadd {key : CStr} (hroom : db.HasRoom key) (calloc : Calloc)
    (members : List CStr) : SameBut [key] db (db.kvSadd calloc key members).1 := by
  have hset : SameBut [key] db (db.wrSetObj calloc key).1 := sameBut_wrOrCreate h hroom calloc
  have hwf : (db.wrSetObj calloc key).1.Wf := h.wrOrCreate DbObject.set? objCreateSet calloc key
  rw [KvTable.kvSadd]
  revert hset hwf
  cases db.wrSetObj calloc key with
  | mk t ht =>
    intro hset hwf
    cases ht with
    | none => exact hset
    | some ht => exact hset.trans (sameBut_putData hwf key _)

theorem sameBut_kvSrem (key : CStr) (members : List CStr) :
    SameBut [key] db (db.kvSrem key members).1 := by
  unfold KvTable.kvSrem
  split
  · exact .refl _ _
  · exact sameBut_putData h key _

/-- And so is the hash. -/
theorem sameBut_kvHset {key : CStr} (hroom : db.HasRoom key) (calloc : Calloc)
    (field value : CStr) : SameBut [key] db (db.kvHset calloc key field value).1 := by
  have hset : SameBut [key] db (db.wrHash calloc key).1 := sameBut_wrOrCreate h hroom calloc
  have hwf : (db.wrHash calloc key).1.Wf := h.wrOrCreate DbObject.hash? objCreateHash calloc key
  rw [KvTable.kvHset]
  revert hset hwf
  cases db.wrHash calloc key with
  | mk t ht =>
    intro hset hwf
    cases ht with
    | none => exact hset
    | some ht => exact hset.trans (sameBut_putData hwf key _)

theorem sameBut_kvHdel (key : CStr) (fields : List CStr) :
    SameBut [key] db (db.kvHdel key fields).1 := by
  unfold KvTable.kvHdel
  split
  · exact .refl _ _
  · exact sameBut_putData h key _

/-- And the sorted set. -/
theorem sameBut_kvZadd [LinearOrder S] {key : CStr} (hroom : db.HasRoom key) (calloc : Calloc)
    (score : S) (member : CStr) (rand : Nat → Nat) :
    SameBut [key] db (db.kvZadd calloc key score member rand).1 := by
  have hset : SameBut [key] db (db.createUnless DbObject.zset? objCreateZset calloc key).1 :=
    sameBut_createUnless h hroom calloc
  have hwf := h.createUnless DbObject.zset? objCreateZset calloc key
  unfold KvTable.kvZadd
  simp only
  split
  · exact hset
  · split
    · exact hset
    · exact hset.trans (sameBut_putData hwf key _)

theorem sameBut_kvZrem (key member : CStr) : SameBut [key] db (db.kvZrem key member).1 := by
  unfold KvTable.kvZrem
  split
  · exact .refl _ _
  · exact sameBut_putData h key _

end Parts

end KvTable

/-! ## Runs -/

open KvTable (SameBut)

/-- The keys a call names. -/
def StoreOp.keys : StoreOp S → List CStr
  | .table (.set _ key _ _) => [key]
  | .table (.setObject _ key _ _) => [key]
  | .table (.del key) => [key]
  | .table (.delMeta key _) => [key]
  | .table (.activeExpire _ _ _) => []
  | .setTtl key _ => [key]
  | .incrby _ key _ _ => [key]
  | .append _ key _ _ => [key]
  | .lpush _ key _ => [key]
  | .rpush _ key _ => [key]
  | .lpop key => [key]
  | .rpop key => [key]
  | .lset key _ _ => [key]
  | .lrem key _ _ => [key]
  | .lpoprpush _ src dst => [src, dst]
  | .sadd _ key _ => [key]
  | .srem key _ => [key]
  | .hset _ key _ _ => [key]
  | .hdel key _ => [key]
  | .zadd _ key _ _ _ => [key]
  | .zrem key _ => [key]

/-- The time up to which a call removes keys that are due. -/
def StoreOp.expiresUpTo : StoreOp S → Option Int
  | .table (.activeExpire _ now _) => some now
  | _ => none

/-- An insertion the call makes has room, and memory where the call does
not look whether it had any. -/
def StoreOp.Spares (db : KvTable S) : StoreOp S → Prop
  | .table op => op.RoomFor db
  | .incrby calloc key _ _ => db.HasRoom key ∧ db.CanCreate calloc key
  | .append _ key _ _ => db.HasRoom key
  | .lpush _ key _ => db.HasRoom key
  | .rpush _ key _ => db.HasRoom key
  | .lpoprpush _ src dst => (db.kvRpop src).1.HasRoom dst
  | .sadd _ key _ => db.HasRoom key
  | .hset _ key _ _ => db.HasRoom key
  | .zadd _ key _ _ _ => db.HasRoom key
  | _ => True

instance (db : KvTable S) (op : StoreOp S) : Decidable (op.Spares db) := by
  cases op <;> unfold StoreOp.Spares <;> infer_instance

variable [LinearOrder S]

/-- A call that expires nothing changes the objects of the keys it names. -/
theorem StoreOp.sameBut {db : KvTable S} (h : db.Wf) {op : StoreOp S} (hspares : op.Spares db)
    (hexp : op.expiresUpTo = none) : SameBut op.keys db (StoreOp.step db op) := by
  cases op with
  | table op =>
    cases op with
    | set calloc key value usec => exact KvTable.sameBut_kvSet h hspares calloc value usec
    | setObject calloc key obj m => exact KvTable.sameBut_kvSetObject h hspares calloc obj m
    | del key => exact KvTable.sameBut_kvDel h key
    | delMeta key m => exact KvTable.sameBut_kvDelMeta h key m
    | activeExpire maxSamples now rand => cases hexp
  | setTtl key ttl => exact KvTable.sameBut_kvSetTtl h key ttl
  | incrby calloc key delta usec =>
    exact KvTable.sameBut_kvIncrby h hspares.1 hspares.2 delta usec
  | append calloc key suffix usec => exact KvTable.sameBut_kvAppend h hspares calloc suffix usec
  | lpush calloc key value => exact KvTable.sameBut_kvPush h hspares _ calloc value
  | rpush calloc key value => exact KvTable.sameBut_kvPush h hspares _ calloc value
  | lpop key => exact KvTable.sameBut_kvPop h _ key
  | rpop key => exact KvTable.sameBut_kvPop h _ key
  | lset key idx value => exact KvTable.sameBut_kvLset h key idx value
  | lrem key count value => exact KvTable.sameBut_kvLrem h key count value
  | lpoprpush calloc src dst => exact KvTable.sameBut_kvLpoprpush h hspares calloc
  | sadd calloc key members => exact KvTable.sameBut_kvSadd h hspares calloc members
  | srem key members => exact KvTable.sameBut_kvSrem h key members
  | hset calloc key field value => exact KvTable.sameBut_kvHset h hspares calloc field value
  | hdel key fields => exact KvTable.sameBut_kvHdel h key fields
  | zadd calloc key score member rand =>
    exact KvTable.sameBut_kvZadd h hspares calloc score member rand
  | zrem key member => exact KvTable.sameBut_kvZrem h key member

namespace KvTable

/-- A key none of the calls names: it has the object it had, or that
object was due at the time of one of the calls and is gone. -/
def Kept (ops : List (StoreOp S)) (db db' : KvTable S) (k : CStr) : Prop :=
  db'.kvGetObject k = db.kvGetObject k ∨
    ∃ o, db.kvGetObject k = some o ∧ db'.kvGetObject k = none ∧
      ∃ op ∈ ops, ∃ now, op.expiresUpTo = some now ∧ 0 ≤ o.ttl ∧ o.ttl ≤ now

/-- One call. -/
theorem kept_step {db : KvTable S} (h : db.Wf) {op : StoreOp S} (hspares : op.Spares db) {k : CStr}
    (hk : k ∉ op.keys) : Kept [op] db (StoreOp.step db op) k := by
  cases hexp : op.expiresUpTo with
  | none => exact .inl (StoreOp.sameBut h hspares hexp k hk)
  | some now =>
    -- only `kv_active_expire` has a time
    obtain ⟨maxSamples, rand, rfl⟩ :
        ∃ maxSamples rand, op = .table (.activeExpire maxSamples now rand) := by
      unfold StoreOp.expiresUpTo at hexp
      split at hexp
      · obtain rfl := Option.some.inj hexp
        exact ⟨_, _, rfl⟩
      · cases hexp
    have hpass : Kept [.table (.activeExpire maxSamples now rand)] db
        (db.kvActiveExpire maxSamples now rand).1 k := by
      obtain ⟨n, hloop, -, -⟩ := Expires.activeExpireLoop maxSamples now rand
        (min maxSamples db.capacity) 0 db 0 h (Nat.zero_le _)
      rcases hloop.lookup k with heq | ⟨⟨o, hget, hdue⟩, hgone⟩
      · exact .inl heq
      · exact .inr ⟨o, hget, hgone, _, List.mem_singleton_self _, now, hexp, hdue⟩
    exact hpass

omit [LinearOrder S] in
/-- What every operation of a list keeps, the list keeps. -/
theorem Kept.trans {db db' db'' : KvTable S} {op : StoreOp S} {ops : List (StoreOp S)} {k : CStr}
    (h : Kept [op] db db' k) (h' : Kept ops db' db'' k) : Kept (op :: ops) db db'' k := by
  rcases h' with heq | ⟨o, hget, hgone, op', hop', hdue⟩
  · rcases h with heq' | ⟨o, hget, hgone, op', hop', hdue⟩
    · exact .inl (heq.trans heq')
    · exact .inr ⟨o, hget, heq.trans hgone, op', by simp_all, hdue⟩
  · rcases h with heq' | ⟨o', -, hgone', -⟩
    · exact .inr ⟨o, heq' ▸ hget, hgone, op', List.mem_cons_of_mem _ hop', hdue⟩
    · rw [hgone'] at hget
      cases hget

/-- A run of calls. -/
theorem kept_run {k : CStr} : ∀ (ops : List (StoreOp S)) {db : KvTable S}, db.Wf →
    Run.Guarded StoreOp.step (fun db op => op.Spares db) db ops → (∀ op ∈ ops, k ∉ op.keys) →
      Kept ops db (ops.foldl StoreOp.step db) k
  | [], _, _, _, _ => .inl rfl
  | op :: ops, _, h, hg, hk =>
    (kept_step h hg.1 (hk op List.mem_cons_self)).trans
      (kept_run ops (h.storeStep op) hg.2 fun op' hop' => hk op' (List.mem_cons_of_mem _ hop'))

end KvTable

end AntzKV

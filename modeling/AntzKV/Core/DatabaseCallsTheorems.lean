/-
AntzKV.Core.DatabaseCallsTheorems — each call of `kvdb.c` is a step of the
database.

One theorem for each function: what it returns is read off the database,
and the table it leaves implements the changed database. What a function
needs is in its hypotheses (`CanUpsert`, members that are new or not
hidden): without them the code writes over another key or makes two nodes
of one member.
-/
import AntzKV.Core.DatabaseTheorems

namespace AntzKV

open IndexSlice (slice)
open DbObject (objCreateString objCreateList objCreateSet objCreateHash objCreateZset)

variable {S : Type} [LinearOrder S]

/-! ## Changes of the structures -/

namespace SimpleHt

variable {ht : SimpleHt} {fs : FieldMap}

/-- `ht_add` with replacement is the insertion into the map. -/
theorem holds_insert (h : ht.Holds fun f => (fs.lookup f).map some) (field value : CStr) :
    (ht.htAdd field (some value) true).1.Holds
      fun f => ((fs.insert field value).lookup f).map some := by
  have hadd := (h.htAdd field (some value) true).2.1
  have hmap : ((HtOp.add field (some value) true).onMap fun f => (fs.lookup f).map some).1
      = fun f => ((fs.insert field value).lookup f).map some := by
    funext f
    by_cases hf : f = field
    · subst hf
      cases hl : fs.lookup f <;> simp [HtOp.onMap, hl]
    · cases hl : fs.lookup field <;> simp [HtOp.onMap, hl, hf, Finmap.lookup_insert_of_ne]
  rwa [hmap] at hadd

/-- `ht_remove` is the erasure from it. -/
theorem holds_erase (h : ht.Holds fun f => (fs.lookup f).map some) (field : CStr) :
    (ht.htRemove field).1.Holds fun f => ((fs.erase field).lookup f).map some := by
  have hrem := (h.htRemove field).1
  have hmap : Function.update (fun f => (fs.lookup f).map some) field none
      = fun f => ((fs.erase field).lookup f).map some := by
    funext f
    by_cases hf : f = field
    · subst hf
      simp
    · simp [hf, Finmap.lookup_erase_ne]
  rwa [hmap] at hrem

/-- The removal loop erases its keys one after the other. -/
theorem holds_removeLoop (h : ht.Holds fun f => (fs.lookup f).map some) (fields : List CStr)
    (n : Nat) :
    (fields.foldl removeStep (ht, n)).1.Holds
      fun f => ((fields.foldl (fun fs f => fs.erase f) fs).lookup f).map some := by
  induction fields generalizing ht fs n with
  | nil => exact h
  | cons f fields ih => exact ih (holds_erase h f) _

end SimpleHt

namespace Zskiplist

variable {z : Zskiplist S} {L : List Nat} {M : ScoreMap S}

/-- What a deletion of a member that is not hidden returns. -/
theorem Repr.zslDelete_flag (h : Repr z L) (hM : IsMap z.elements M) {member : CStr}
    (hseen : hidden member z.elements = false) :
    (z.zslDelete member).2 = decide (member ∈ M) := by
  have herase := (h.zslDelete_isMap_iff hM member).mpr hseen
  obtain ⟨A, B, hE, -, -, ⟨-, hr⟩ | ⟨s, l, B', rfl, hflag, -, -⟩⟩ := h.elements_zslDelete member
  · rw [hr] at herase ⊢
    have hnot : member ∉ M := fun hmem =>
      (Finmap.mem_erase.mp (herase.mem_iff.mpr (hM.mem_iff.mp hmem))).1 rfl
    simp [hnot]
  · have hmem : member ∈ M := hM.mem_iff.mpr (by rw [hE]; simp)
    rw [hflag]
    simp [hmem]

end Zskiplist

namespace KvTable

open Database

/-! ## Objects as they are created -/

/-- A new string object is a string without an expiry. -/
theorem isItem_string (s : CStr) (usec : UInt64) (m : Option KvMeta) :
    ((objCreateString s usec : DbObject S).stamp m).IsItem ⟨.string s, -1⟩ := by
  cases m <;> exact ⟨rfl, rfl⟩

theorem isItem_list : (objCreateList : DbObject S).IsItem ⟨.list [], -1⟩ :=
  ⟨⟨[], Dlist.repr_empty⟩, rfl⟩

theorem isItem_set : (objCreateSet : DbObject S).IsItem ⟨.set ∅, -1⟩ :=
  ⟨⟨⟨_, holds_htCreate⟩, by simp [SimpleHt.keySet, SimpleHt.htKeys, SimpleHt.entries,
    SimpleHt.htCreate]⟩, rfl⟩

theorem isItem_hash : (objCreateHash : DbObject S).IsItem ⟨.hash ∅, -1⟩ :=
  ⟨by simpa [ObjData.Represents, objCreateHash, DbObject.objCreate] using holds_htCreate, rfl⟩

/-- A new sorted set has no member. -/
theorem isItem_zset : (objCreateZset : DbObject S).IsItem ⟨.zset ∅, -1⟩ := by
  refine ⟨⟨⟨[], Zskiplist.repr_zslCreate⟩, ?_⟩, rfl⟩
  have hnil : (Zskiplist.zslCreate : Zskiplist S).elements = [] :=
    Zskiplist.repr_zslCreate.elements_eq
  rw [hnil]
  exact ⟨List.nodup_nil, fun m => by simp⟩

namespace Implements

variable {db : KvTable S} {d : Database S} {key : CStr} (h : db.Implements d)

include h

/-! ## Strings and keys -/

/-- `kv_set_meta` with room puts the value and clears the expiry: the object is
a new one. -/
theorem kvSetMeta {calloc : Calloc} (hroom : db.HasRoom key) (hgrow : ¬ db.CannotStore calloc)
    (value : CStr) (m : KvMeta) :
    (db.kvSetMeta calloc key value m).2 = 0 ∧
      (db.kvSetMeta calloc key value m).1.Implements (d.put key ⟨.string value, -1⟩) :=
  h.kvSetObject hroom hgrow ⟨rfl, rfl⟩

/-- Drawing a version does not touch the database. -/
theorem kvNextVersion : db.kvNextVersion.1.Implements d :=
  h.congr (entries_kvNextVersion db) (count_kvNextVersion db)

/-- `kv_set` is a put under a version of its own. -/
theorem kvSet {calloc : Calloc} (hroom : db.HasRoom key) (hgrow : ¬ db.CannotStore calloc)
    (value : CStr) (usec : UInt64) :
    (db.kvSet calloc key value usec).2 = 0 ∧
      (db.kvSet calloc key value usec).1.Implements (d.put key ⟨.string value, -1⟩) :=
  h.kvNextVersion.kvSetMeta ((hasRoom_kvNextVersion db key).mpr hroom) hgrow value _

/-- `kv_del` returns 0 when the key was there. -/
theorem kvDel (key : CStr) :
    (db.kvDel key).2 = (if (d key).isSome then 0 else -1) ∧ (db.kvDel key).1.Implements (d.del key) := by
  refine ⟨?_, h.update (h.wf.kvDel key) (sameBut_kvDel h.wf key) ?_⟩
  · rw [← h.isSome_eq]
    rcases kvDel_cases db key with ⟨hmiss, hr⟩ | ⟨o, -, hget, hr⟩ <;> rw [hr]
    · simp [kvGetObject_of_missed hmiss]
    · simp [hget]
  · rw [kvGetObject_kvDel h.wf, if_pos rfl]
    exact .none

/-- `kv_del_meta` returns 0 when the key was there, deleted or not. -/
theorem kvDelMeta_ret (key : CStr) (m : KvMeta) :
    (db.kvDelMeta key m).2 = if (d key).isSome then 0 else -1 := by
  rw [← h.isSome_eq]
  rcases kvDelMeta_cases db key m with ⟨hmiss, hr⟩ | ⟨o, -, hget, ⟨-, hr⟩ | ⟨-, hr⟩⟩ <;> rw [hr]
  · simp [kvGetObject_of_missed hmiss]
  · simp [hget]
  · simp [hget]

/-- `kv_del_meta` deletes or does not: the database has no metadata to tell. -/
theorem kvDelMeta (key : CStr) (m : KvMeta) :
    (db.kvDelMeta key m).1.Implements d ∨ (db.kvDelMeta key m).1.Implements (d.del key) := by
  have hupd : ∀ e, Option.Rel DbObject.IsItem ((db.kvDelMeta key m).1.kvGetObject key) e →
      (db.kvDelMeta key m).1.Implements (Function.update d key e) := fun _ =>
    h.update (h.wf.kvDelMeta key m) (sameBut_kvDelMeta h.wf key m)
  have hget := kvGetObject_kvDelMeta h.wf key m key
  rw [if_pos rfl] at hget
  have hitem := h.item key
  cases ho : db.kvGetObject key with
  | none =>
    right
    rw [ho] at hget
    exact hupd none (hget ▸ .none)
  | some o =>
    rw [ho] at hget hitem
    by_cases hgt : metaGt o.kvMeta m = true
    · left
      rw [Option.filter_some, if_pos hgt] at hget
      have hsame := hupd (d key) (hget ▸ hitem)
      rwa [Function.update_eq_self] at hsame
    · right
      rw [Option.filter_some, if_neg hgt] at hget
      exact hupd none (hget ▸ .none)

/-- Setting the expiry is refused for an absent key only. -/
theorem kvSetTtl (key : CStr) (ttl : Int) :
    (db.kvSetTtl key ttl).2 = (if (d key).isSome then 0 else -1) ∧
      (db.kvSetTtl key ttl).1.Implements (d.setTtl key ttl) := by
  have hitem := h.item key
  rw [KvTable.kvSetTtl, ← h.isSome_eq]
  cases hp : (db.probe key).2 with
  | false =>
    have hnone := kvGetObject_of_missed hp
    have hsame : d.setTtl key ttl = d := by
      rw [Database.setTtl, h.eq_none hnone]
      exact Function.update_eq_self_iff.mpr (h.eq_none hnone).symm
    simp only [Bool.false_eq_true, if_false, hnone]
    exact ⟨rfl, hsame.symm ▸ h⟩
  | true =>
    obtain ⟨o, -, hget⟩ := kvGetObject_of_found hp
    obtain ⟨e, hd, he⟩ := h.exists_item hget
    simp only [if_true, hget]
    refine ⟨rfl, h.update (h.wf.modifyObj key _) (sameBut_modifyObj h.wf key _) ?_⟩
    rw [kvGetObject_modifyObj h.wf, if_pos rfl, hget, hd]
    exact .some ⟨he.1, rfl⟩

theorem keys_eq : d.keys = db.liveKeys := by
  ext k
  rw [Database.keys, Set.mem_ofPred_eq, mem_liveKeys, h.isSome_eq]

/-- A pass of the expiry returns how many keys have gone. -/
theorem kvActiveExpire_ret {maxSamples : Nat} {now : Int} {rand : Nat → Nat} {d' : Database S}
    (h' : (db.kvActiveExpire maxSamples now rand).1.Implements d') :
    (db.kvActiveExpire maxSamples now rand).2 = (d.keys \ d'.keys).ncard := by
  obtain ⟨n, hloop, hret, -⟩ := Expires.activeExpireLoop maxSamples now rand
    (min maxSamples db.capacity) 0 db 0 h.wf (Nat.zero_le _)
  rw [h.keys_eq, h'.keys_eq]
  exact hret.trans ((Nat.zero_add n).trans (hloop.ncard_gone h.wf).symm)

/-- A pass of the expiry, on the side of the database. -/
theorem kvActiveExpire (maxSamples : Nat) (now : Int) (rand : Nat → Nat) :
    ∃ d', Expired now d d' ∧ (db.kvActiveExpire maxSamples now rand).1.Implements d' := by
  obtain ⟨n, hloop, -, -⟩ := Expires.activeExpireLoop maxSamples now rand
    (min maxSamples db.capacity) 0 db 0 h.wf (Nat.zero_le _)
  refine ⟨fun k => if ((db.kvActiveExpire maxSamples now rand).1.kvGetObject k).isSome then d k
    else none, fun k => ?_, hloop.wf, fun k => ?_⟩
  · rcases hloop.lookup k with heq | ⟨⟨o, hget, hdue⟩, hgone⟩
    · left
      have hlook : (db.kvActiveExpire maxSamples now rand).1.kvGetObject k = db.kvGetObject k := heq
      cases hget : db.kvGetObject k with
      | none => simp [hlook, hget, h.eq_none hget]
      | some o => simp [hlook, hget]
    · right
      have hlook : (db.kvActiveExpire maxSamples now rand).1.kvGetObject k = none := hgone
      obtain ⟨e, hd, he⟩ := h.exists_item hget
      exact ⟨e, hd, by simp [hlook], he.2 ▸ hdue⟩
  · rcases hloop.lookup k with heq | ⟨-, hgone⟩
    · have hlook : (db.kvActiveExpire maxSamples now rand).1.kvGetObject k = db.kvGetObject k := heq
      have hitem := h.item k
      rw [hlook]
      cases hget : db.kvGetObject k with
      | none => exact .none
      | some o =>
        rw [hget] at hitem
        simpa using hitem
    · have hlook : (db.kvActiveExpire maxSamples now rand).1.kvGetObject k = none := hgone
      rw [hlook]
      exact .none

/-- The addition to a string that is there. -/
theorem incrAt {s : CStr} (hs : db.wrObj DbObject.string? key = some s) (delta : Int) :
    (db.incrAt (db.probe key).1 delta).2 = .ok (wrap64 (numberOf s + delta)) ∧
      (db.incrAt (db.probe key).1 delta).1.Implements
        (d.write key (.string (decimalText (wrap64 (numberOf s + delta))))) := by
  obtain ⟨o, hget, hstr⟩ := exists_of_wrObj hs
  rw [incrAt_found hget, hstr]
  exact ⟨rfl, h.putData View.string hs rfl⟩

/-- `kv_incrby` on a string or an absent key is the addition on the database;
on a value of another type it is the refusal. -/
theorem kvIncrby {calloc : Calloc}
    (hup : d.Uncountable key ∨ CanUpsert DbObject.string? calloc db key) (delta : Int)
    (usec : UInt64) :
    (db.kvIncrby calloc key delta usec).2 = (d.incrby key delta).2.elim .err .ok ∧
      (db.kvIncrby calloc key delta usec).1.Implements (d.incrby key delta).1 := by
  cases hget : db.kvGetObject key with
  | some o =>
    obtain ⟨e, hd, he⟩ := h.exists_item hget
    rw [kvIncrby_found hget]
    cases hs : db.wrObj DbObject.string? key with
    | none =>
      -- a value of another type is refused
      have hnone : d.read Value.string? key = none := h.read_eq_none View.string hs
      have hunc : d.Uncountable key := ⟨by rw [hd]; rfl, hnone⟩
      have hstr : o.string? = none := by rwa [KvTable.wrObj, hget] at hs
      rw [Database.incrby, if_pos hunc, incrAt_found hget, hstr]
      exact ⟨rfl, h⟩
    | some s =>
      obtain ⟨_, hsome, rfl⟩ := h.exists_read View.string hs
      have hsome : d.read Value.string? key = some s := hsome
      have hunc : ¬ d.Uncountable key := fun hu => by
        have hnone := hu.2
        rw [hsome] at hnone
        cases hnone
      have hnum : d.number key = numberOf s := by rw [Database.number, hsome, Option.elim_some]
      rw [Database.incrby, if_neg hunc, hnum]
      exact h.incrAt hs delta
  | none =>
    have hnone := h.eq_none hget
    have hunc : ¬ d.Uncountable key := fun hu => by
      have hsome := hu.1
      rw [hnone] at hsome
      cases hsome
    have hnum : d.number key = 0 := by simp [Database.number, Database.read, hnone]
    have hmiss := probe_missed_of_absent hget
    have hstr : db.wrObj DbObject.string? key = none := by rw [KvTable.wrObj, hget]; rfl
    obtain ⟨hroom, hgrow⟩ := (hup.resolve_left hunc).resolve_left (by simp [hstr])
    have hzero : ((db.zeroObj usec).stamp none).IsItem ⟨.string (.lit "0"), -1⟩ := ⟨rfl, rfl⟩
    have hroom' : db.kvNextVersion.1.HasRoom key := (hasRoom_kvNextVersion db key).mpr hroom
    have hgrow' : ¬ db.kvNextVersion.1.CannotStore calloc := hgrow
    have hput := h.kvNextVersion.kvSetObject hroom' hgrow' hzero
    have hself : (db.kvNextVersion.1.kvSetObject calloc key (db.zeroObj usec) none).1.wrObj
        DbObject.string? key = some (.lit "0") := by
      rw [KvTable.wrObj, kvGetObject_zeroObj h.wf hgrow key usec]
      rfl
    have hread : numberOf (.lit "0") = 0 := by decide
    have hadd := hput.2.incrAt hself delta
    rw [hread] at hadd
    have hwrite : ∀ v : CStr, (d.put key ⟨.string (.lit "0"), -1⟩).write key (.string v)
        = d.write key (.string v) := fun v => by
      simp [Database.write, Database.put, Database.ttlFor, hnone, Value.type]
    rw [hwrite] at hadd
    rw [Database.incrby, if_neg hunc, hnum, kvIncrby_missed hmiss (object_of_canStore hgrow)]
    exact hadd

/-- `kv_append` puts its suffix behind the string, an absent key counting as
the empty one. -/
theorem kvAppend {calloc : Calloc} (hup : CanUpsert DbObject.string? calloc db key) {suffix : CStr}
    (hfits : (((d.string key).getD (.lit "")).append? suffix).isSome = true) (usec : UInt64) :
    (db.kvAppend calloc key suffix usec).2
        = .ok (appended suffix ((d.string key).getD (.lit ""))).strlen ∧
      (db.kvAppend calloc key suffix usec).1.Implements (d.append key suffix) := by
  obtain ⟨t, s, hcre, hs, -, rfl, hput⟩ :=
    h.upsert View.string (isItem_string (.lit "") usec none) hup
  obtain ⟨n, hn⟩ := Option.isSome_iff_exists.mp hfits
  have hn' : appended suffix ((d.string key).getD (.lit "")) = n := by
    rw [appended, ← bytes_of_append? hn, CStr.ofBuf_bytes]
  have hcre' : db.createUnless DbObject.string? (objCreateString (.lit "") usec) calloc key = (t, 0) :=
    hcre
  have hs' : t.getStringObj key = some ((d.string key).getD (.lit "")) := hs
  have hres : db.kvAppend calloc key suffix usec = (t.putData key (.string n), .ok n.strlen) := by
    simp only [KvTable.kvAppend, hcre', hs', hn, ne_eq, not_true_eq_false, if_false]
  rw [hres, hn']
  refine ⟨rfl, ?_⟩
  have hw := hput n n rfl
  rw [← hn'] at hw ⊢
  exact hw

/-! ## Lists -/

/-- A push, over what it does to the elements; the key may be absent. -/
theorem kvPush {calloc : Calloc} (hup : CanUpsert DbObject.list? calloc db key)
    {push : Dlist → CStr → Dlist} {f : List CStr → List CStr} {value : CStr}
    (hpush : ∀ l ns vs, Dlist.Repr l ns vs → ∃ ns', Dlist.Repr (push l value) ns' (f vs)) :
    (db.kvPush push calloc key value).2 = .ok (f (d.elements key)).length ∧
      (db.kvPush push calloc key value).1.Implements (d.upsert Value.list? .list [] key f) := by
  obtain ⟨t, l, hcre, ⟨ns₀, hrel⟩, hput⟩ := h.upsert_wrOrCreate View.list isItem_list hup
  have hcre' : db.wrOrCreate DbObject.list? objCreateList calloc key = (t, some l) := hcre
  obtain ⟨ns, hr⟩ := hpush l ns₀ _ hrel
  rw [KvTable.kvPush, kvEnsureList_eq, hcre']
  exact ⟨congrArg _ hr.len, hput _ _ ⟨ns, hr⟩⟩

/-- `kv_lpush` returns the new length. -/
theorem kvLpush {calloc : Calloc} (hup : CanUpsert DbObject.list? calloc db key) (value : CStr) :
    (db.kvLpush calloc key value).2 = .ok ((d.elements key).length + 1) ∧
      (db.kvLpush calloc key value).1.Implements (d.lpush key value) :=
  h.kvPush hup fun _ _ _ hr => ⟨_, hr.pushLeft value⟩

theorem kvRpush {calloc : Calloc} (hup : CanUpsert DbObject.list? calloc db key) (value : CStr) :
    (db.kvRpush calloc key value).2 = .ok ((d.elements key).length + 1) ∧
      (db.kvRpush calloc key value).1.Implements (d.rpush key value) := by
  have hpush := h.kvPush hup (f := (· ++ [value])) fun _ _ _ hr => ⟨_, hr.pushRight value⟩
  rw [List.length_append, List.length_singleton] at hpush
  exact hpush

/-- A pop, over what it does to the elements; nothing comes out of nothing. -/
theorem kvPop {pop : Dlist → Dlist × Option CStr} {f : List CStr → List CStr}
    {out : List CStr → Option CStr} (hout : out [] = none)
    (hpop : ∀ l ns vs, Dlist.Repr l ns vs →
      (∃ ns', Dlist.Repr (pop l).1 ns' (f vs)) ∧ (pop l).2 = out vs) (key : CStr) :
    (db.kvPop pop key).2 = out (d.elements key) ∧
      (db.kvPop pop key).1.Implements (d.adjust Value.list? .list key f) := by
  rcases h.adjust View.list f key with
    ⟨hl, hd, hsame⟩ | ⟨l, vs, hl, hd, ⟨ns, hr⟩, hput⟩
  · have hl' : db.wrObj DbObject.list? key = none := hl
    have hd' : d.read Value.list? key = none := hd
    have hsame' : d.adjust Value.list? .list key f = d := hsame
    simp only [KvTable.kvPop, hl', hsame', Database.elements, hd', Option.getD_none]
    exact ⟨hout.symm, h⟩
  · have hl' : db.wrObj DbObject.list? key = some l := hl
    have hd' : d.read Value.list? key = some vs := hd
    simp only [KvTable.kvPop, hl', Database.elements, hd', Option.getD_some]
    exact ⟨(hpop l ns vs hr).2, hput _ (hpop l ns vs hr).1⟩

/-- `kv_lpop` takes the first element. -/
theorem kvLpop (key : CStr) :
    (db.kvLpop key).2 = (d.elements key).head? ∧ (db.kvLpop key).1.Implements (d.lpop key) :=
  h.kvPop rfl (fun _ _ _ hr => ⟨⟨_, hr.popLeft.1⟩, hr.popLeft.2⟩) key

/-- `kv_rpop` takes the last one. -/
theorem kvRpop (key : CStr) :
    (db.kvRpop key).2 = (d.elements key).getLast? ∧ (db.kvRpop key).1.Implements (d.rpop key) :=
  h.kvPop rfl (fun _ _ _ hr => ⟨⟨_, hr.popRight.1⟩, hr.popRight.2⟩) key

/-- `kv_lset` writes inside the list only. -/
theorem kvLset (key : CStr) (idx : Int) (value : CStr) :
    (db.kvLset key idx value).2
        = (if RefList.InRange (d.elements key) idx then .ok () else .err) ∧
      (db.kvLset key idx value).1.Implements (d.lset key idx value) := by
  let f := fun vs : List CStr =>
    if RefList.InRange vs idx then vs.set (RefList.position vs idx).toNat value else vs
  rcases h.adjust View.list f key with ⟨hl, hd, hsame⟩ | ⟨l, vs, hl, hd, ⟨ns, hr⟩, hput⟩
  · have hl' : db.wrObj DbObject.list? key = none := hl
    have hd' : d.read Value.list? key = none := hd
    have hsame' : d.lset key idx value = d := hsame
    have hout : ¬ RefList.InRange [] idx := by
      unfold RefList.InRange
      simp only [List.length_nil]
      omega
    simp only [KvTable.kvLset, hl', hsame', Database.elements, hd', Option.getD_none, if_neg hout]
    exact ⟨trivial, h⟩
  · have hl' : db.wrObj DbObject.list? key = some l := hl
    have hd' : d.read Value.list? key = some vs := hd
    simp only [KvTable.kvLset, hl', Database.elements, hd', Option.getD_some]
    by_cases hin : RefList.InRange vs idx
    · obtain ⟨l', hset, hr'⟩ := (hr.set idx value).1 hin
      simp only [hset, if_pos hin]
      exact ⟨trivial, hput l' (by simp only [f, if_pos hin]; exact ⟨ns, hr'⟩)⟩
    · have hkeep := hput l (by simp only [f, if_neg hin]; exact ⟨ns, hr⟩)
      obtain ⟨o, hget, hsel⟩ := exists_of_wrObj hl'
      have hsame : db.putData key (.list l) = db :=
        putData_same hget (DbObject.list?_eq_some_iff.mp hsel)
      have hkeep' : (db.putData key (.list l)).Implements (d.lset key idx value) := hkeep
      rw [hsame] at hkeep'
      simp only [(hr.set idx value).2 hin, if_neg hin]
      exact ⟨trivial, hkeep'⟩

/-- `kv_lrem` returns how many elements it has taken out. -/
theorem kvLrem (key : CStr) (count : Int) (value : CStr) :
    (db.kvLrem key count value).2
        = (d.elements key).length - (RefList.remove count value (d.elements key)).length ∧
      (db.kvLrem key count value).1.Implements (d.lrem key count value) := by
  rcases h.adjust View.list (RefList.remove count value) key with
    ⟨hl, hd, hsame⟩ | ⟨l, vs, hl, hd, ⟨ns, hr⟩, hput⟩
  · have hl' : db.wrObj DbObject.list? key = none := hl
    have hd' : d.read Value.list? key = none := hd
    have hsame' : d.lrem key count value = d := hsame
    simp only [KvTable.kvLrem, hl', hsame', Database.elements, hd', Option.getD_none,
      List.length_nil, Nat.zero_sub]
    exact ⟨trivial, h⟩
  · have hl' : db.wrObj DbObject.list? key = some l := hl
    have hd' : d.read Value.list? key = some vs := hd
    obtain ⟨hr', hn⟩ := hr.rem count value
    simp only [KvTable.kvLrem, hl', Database.elements, hd', Option.getD_some]
    exact ⟨hn, hput _ hr'⟩

/-- `kv_lpoprpush`, with a destination that can be pushed to once the
source has been popped. -/
theorem kvLpoprpush {calloc : Calloc} {src dst : CStr}
    (hup : CanUpsert DbObject.list? calloc (db.kvRpop src).1 dst) :
    (db.kvLpoprpush calloc src dst).2 = d.last? src ∧
      (db.kvLpoprpush calloc src dst).1.Implements (d.lpoprpush src dst) := by
  obtain ⟨hout, hpop⟩ := h.kvRpop src
  have hlast : (d.elements src).getLast? = d.last? src := by
    unfold Database.elements Database.last?
    cases d.read Value.list? src <;> rfl
  rw [hlast] at hout
  unfold KvTable.kvLpoprpush
  revert hup hout hpop
  cases db.kvRpop src with
  | mk t v =>
    intro hup hout hpop
    simp only at hup hout hpop
    cases v with
    | none =>
      have hd : d.lpoprpush src dst = d.rpop src := by rw [Database.lpoprpush, ← hout]; rfl
      rw [hd]
      exact ⟨hout, hpop⟩
    | some v =>
      have hd : d.lpoprpush src dst = (d.rpop src).lpush dst v := by
        rw [Database.lpoprpush, ← hout]
        rfl
      rw [hd]
      exact ⟨hout, (hpop.kvLpush hup v).2⟩

/-! ## Sets and hashes -/

/-- `kv_sadd` counts the members that are new, each once. -/
theorem kvSadd {calloc : Calloc} (hup : CanUpsert DbObject.set? calloc db key)
    (members : List CStr) :
    (db.kvSadd calloc key members).2 = .ok (members.toFinset \ d.members key).card ∧
      (db.kvSadd calloc key members).1.Implements (d.sadd key members) := by
  obtain ⟨t, ht, hcre, ⟨⟨m, hm⟩, hset⟩, hput⟩ := h.upsert_wrOrCreate View.set isItem_set hup
  have hcre' : db.wrSetObj calloc key = (t, some ht) := hcre
  have hset' : ht.keySet = d.members key := hset
  obtain ⟨hholds, hkeys, hcard⟩ := hm.addAll members
  rw [kvSadd_eq_ok hcre', hcard, hset']
  exact ⟨rfl, hput _ (d.members key ∪ members.toFinset) ⟨hholds, by rw [hkeys, hset']⟩⟩

/-- `kv_srem` counts the members that were there. -/
theorem kvSrem (key : CStr) (members : List CStr) :
    (db.kvSrem key members).2 = (members.toFinset ∩ d.members key).card ∧
      (db.kvSrem key members).1.Implements (d.srem key members) := by
  rcases h.adjust View.set (· \ members.toFinset) key with
    ⟨hs, hd, hsame⟩ | ⟨ht, ms, hs, hd, ⟨⟨m, hm⟩, rfl⟩, hput⟩
  · have hs' : db.wrObj DbObject.set? key = none := hs
    have hd' : d.read Value.set? key = none := hd
    have hsame' : d.srem key members = d := hsame
    simp only [KvTable.kvSrem, hs', hsame', Database.members, hd', Option.getD_none,
      Finset.inter_empty, Finset.card_empty]
    exact ⟨trivial, h⟩
  · have hs' : db.wrObj DbObject.set? key = some ht := hs
    have hd' : d.read Value.set? key = some ht.keySet := hd
    obtain ⟨⟨m', hholds, -⟩, hkeys, hcard⟩ := hm.removeAll members
    simp only [KvTable.kvSrem, hs', Database.members, hd', Option.getD_some]
    exact ⟨hcard, hput _ ⟨⟨m', hholds⟩, hkeys⟩⟩

/-- `kv_hset` says whether its field is new. -/
theorem kvHset {calloc : Calloc} (hup : CanUpsert DbObject.hash? calloc db key) (field value : CStr) :
    (db.kvHset calloc key field value).2 = .ok (decide (field ∉ d.fields key)) ∧
      (db.kvHset calloc key field value).1.Implements (d.hset key field value) := by
  obtain ⟨t, ht, hcre, hrel, hput⟩ := h.upsert_wrOrCreate View.hash isItem_hash hup
  have hcre' : db.wrHash calloc key = (t, some ht) := hcre
  have hrel' : ht.Holds fun f => ((d.fields key).lookup f).map some := hrel
  have hflag : (!ht.htExists field) = decide (field ∉ d.fields key) := by
    rw [hrel'.htExists_eq, Option.isSome_map, Bool.eq_iff_iff]
    simp [← Finmap.lookup_isSome]
  rw [KvTable.kvHset, hcre', ← hflag]
  exact ⟨rfl, hput _ ((d.fields key).insert field value) (SimpleHt.holds_insert hrel' field value)⟩

/-- `kv_hdel` counts the fields that were there. -/
theorem kvHdel (key : CStr) (fields : List CStr) :
    (db.kvHdel key fields).2 = (fields.toFinset ∩ (d.fields key).keys).card ∧
      (db.kvHdel key fields).1.Implements (d.hdel key fields) := by
  rcases h.adjust View.hash (fun fs => fields.foldl (fun fs f => fs.erase f) fs) key with
    ⟨hs, hd, hsame⟩ | ⟨ht, fs, hs, hd, hr, hput⟩
  · have hs' : db.wrObj DbObject.hash? key = none := hs
    have hd' : d.read Value.hash? key = none := hd
    have hsame' : d.hdel key fields = d := hsame
    simp only [KvTable.kvHdel, hs', hsame', Database.fields, hd', Option.getD_none,
      Finmap.keys_empty, Finset.inter_empty, Finset.card_empty]
    exact ⟨trivial, h⟩
  · have hs' : db.wrObj DbObject.hash? key = some ht := hs
    have hd' : d.read Value.hash? key = some fs := hd
    have hr' : ht.Holds fun f => (fs.lookup f).map some := hr
    have hcard := (hr'.removeAll fields).2.2
    rw [SimpleHt.keySet_of_fields hr'] at hcard
    simp only [KvTable.kvHdel, hs', Database.fields, hd', Option.getD_some]
    exact ⟨hcard, hput _ (SimpleHt.holds_removeLoop hr' fields 0)⟩

/-! ## Sorted sets -/

/-- `kv_zadd` of a member the sorted set does not have. -/
theorem kvZadd {calloc : Calloc} (hup : CanUpsert DbObject.zset? calloc db key) {member : CStr}
    (hnew : member ∉ d.scores key) (score : S) (rand : Nat → Nat) :
    (db.kvZadd calloc key score member rand).2 = .ok () ∧
      (db.kvZadd calloc key score member rand).1.Implements (d.zadd key score member) := by
  obtain ⟨t, z, hcre, hz, -, ⟨⟨L, hr⟩, hM⟩, hput⟩ := h.upsert View.zset isItem_zset hup
  have hcre' : db.createUnless DbObject.zset? objCreateZset calloc key = (t, 0) := hcre
  have hz' : t.wrObj DbObject.zset? key = some z := hz
  have hM' : IsMap z.elements (d.scores key) := hM
  obtain ⟨hpos, hmax⟩ := zslRandomLevel_bounds rand
  have hres : db.kvZadd calloc key score member rand
      = (t.putData key (.zset (z.zslInsert score member (zslRandomLevel rand))), .ok ()) := by
    simp only [KvTable.kvZadd, hcre', hz', ne_eq, not_true_eq_false, if_false]
  rw [hres]
  refine ⟨rfl, hput _ ((d.scores key).insert member score) ⟨?_, ?_⟩⟩
  · exact Zskiplist.Repr.zslStep ⟨L, hr⟩ (.insert score member ⟨_, hpos, hmax⟩)
  · exact (hr.zslInsert_isMap_iff hM' score member hpos hmax).mpr fun hmem =>
      hnew (hM'.mem_iff.mpr hmem)

/-- `kv_zrem` of a member that no higher node hides from its search. -/
theorem kvZrem {member : CStr} (hseen : hidden member (db.zsetElements key) = false) :
    (db.kvZrem key member).2 = decide (member ∈ d.scores key) ∧
      (db.kvZrem key member).1.Implements (d.zrem key member) := by
  rcases h.adjust View.zset (·.erase member) key with
    ⟨hz, hd, hsame⟩ | ⟨z, M, hz, hd, ⟨⟨L, hr⟩, hM⟩, hput⟩
  · have hz' : db.wrObj DbObject.zset? key = none := hz
    have hd' : d.read Value.zset? key = none := hd
    have hsame' : d.zrem key member = d := hsame
    simp only [KvTable.kvZrem, hz', hsame', Database.scores, hd', Option.getD_none]
    exact ⟨(decide_eq_false Finmap.notMem_empty).symm, h⟩
  · have hz' : db.wrObj DbObject.zset? key = some z := hz
    have hd' : d.read Value.zset? key = some M := hd
    rw [zsetElements, hz', Option.elim_some] at hseen
    simp only [KvTable.kvZrem, hz', Database.scores, hd', Option.getD_some]
    exact ⟨hr.zslDelete_flag hM hseen, hput _
      ⟨Zskiplist.Repr.zslStep ⟨L, hr⟩ (.delete member), (hr.zslDelete_isMap_iff hM member).mpr hseen⟩⟩

end Implements

end KvTable

end AntzKV

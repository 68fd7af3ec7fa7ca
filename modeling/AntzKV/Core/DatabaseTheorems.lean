/-
AntzKV.Core.DatabaseTheorems — the store implements the database.

`Implements db d` says that the entries of `db` are found by their keys
and that each object stands for the item the database `d` has under its
key. What the five types have in common is a `View`: how the code tests
and builds an object of the type, how the database does, and when the two
mean the same. The get-or-create helpers are then treated once
(`Implements.upsert`), the changes of what is there once
(`Implements.adjust`), and a command is left with the change of its data
structure, which its own theory describes.

The hypotheses are what the code needs and does not ensure: a key that
has to be created has room and memory (`CanUpsert`), a member added to a
sorted set is new, and one removed is not hidden behind a higher node.
-/
import AntzKV.Core.Database
import AntzKV.Core.FrameTheorems
import AntzKV.Core.RankRangeTheorems
import AntzKV.Core.HashTheorems
import AntzKV.Core.TypeSafetyTheorems

namespace AntzKV

open IndexSlice (slice)
open DbObject (objCreateString objCreateList objCreateSet objCreateHash objCreateZset)

variable {S : Type} [LinearOrder S]

/-! ## What an object stands for -/

omit [LinearOrder S] in
theorem SimpleHt.keySet_of_fields {ht : SimpleHt} {fs : FieldMap}
    (h : ht.Holds fun f => (fs.lookup f).map some) : ht.keySet = fs.keys := by
  ext f
  rw [h.mem_keySet, h.htExists_eq, Option.isSome_map, Finmap.lookup_isSome, Finmap.mem_keys]

def ObjData.Represents : ObjData S → Value S → Prop
  | .string s, .string t => s = t
  | .list l, .list vs => ∃ ns, Dlist.Repr l ns vs
  | .set ht, .set ms => (∃ m, ht.Holds m) ∧ ht.keySet = ms
  | .hash ht, .hash fs => ht.Holds fun f => (fs.lookup f).map some
  | .zset z, .zset M => (∃ L, Zskiplist.Repr z L) ∧ IsMap z.elements M
  | _, _ => False

theorem ObjData.Represents.type_eq {data : ObjData S} {v : Value S} (h : data.Represents v) :
    data.type = v.type := by
  cases data <;> cases v <;> first | rfl | cases h

/-- What stands for a value is sound. -/
theorem ObjData.Represents.sound {data : ObjData S} {v : Value S} (h : data.Represents v) :
    data.Sound := by
  cases data with
  | string s => trivial
  | list l =>
    cases v with
    | list vs =>
      obtain ⟨ns, hr⟩ := h
      exact ⟨ns, vs, hr⟩
    | _ => cases h
  | set ht =>
    cases v with
    | set ms => exact h.1
    | _ => cases h
  | hash ht =>
    cases v with
    | hash fs => exact ⟨_, h, fun k => by cases fs.lookup k <;> simp⟩
    | _ => cases h
  | zset z =>
    cases v with
    | zset M => exact h.1
    | _ => cases h

def DbObject.IsItem (o : DbObject S) (e : Item S) : Prop :=
  o.data.Represents e.value ∧ o.ttl = e.ttl

/-- One of the five types: `β` is what `ptr` points at, `γ` the value. -/
structure View (S : Type) [LinearOrder S] (β γ : Type) where
  type : ObjType
  sel : DbObject S → Option β
  data : β → ObjData S
  read : Value S → Option γ
  value : γ → Value S
  Rel : β → γ → Prop
  sel_iff : ∀ o b, sel o = some b ↔ o.data = data b
  sel_none : ∀ o, sel o = none ↔ o.type ≠ type
  read_iff : ∀ v c, read v = some c ↔ v = value c
  read_none : ∀ v, read v = none ↔ v.type ≠ type
  value_type : ∀ c, (value c).type = type
  represents : ∀ b c, (data b).Represents (value c) ↔ Rel b c

namespace View

def string : View S CStr CStr where
  type := .string
  sel := DbObject.string?
  data := .string
  read := Value.string?
  value := .string
  Rel := Eq
  sel_iff := fun _ _ => DbObject.string?_eq_some_iff
  sel_none := fun o => by unfold DbObject.string? DbObject.type ObjData.type; cases o.data <;> simp
  read_iff := fun v _ => by cases v <;> simp [Value.string?]
  read_none := fun v => by cases v <;> simp [Value.string?, Value.type]
  value_type := fun _ => rfl
  represents := fun _ _ => Iff.rfl

def list : View S Dlist (List CStr) where
  type := .list
  sel := DbObject.list?
  data := .list
  read := Value.list?
  value := .list
  Rel := fun l vs => ∃ ns, Dlist.Repr l ns vs
  sel_iff := fun _ _ => DbObject.list?_eq_some_iff
  sel_none := fun o => by unfold DbObject.list? DbObject.type ObjData.type; cases o.data <;> simp
  read_iff := fun v _ => by cases v <;> simp [Value.list?]
  read_none := fun v => by cases v <;> simp [Value.list?, Value.type]
  value_type := fun _ => rfl
  represents := fun _ _ => Iff.rfl

def set : View S SimpleHt (Finset CStr) where
  type := .set
  sel := DbObject.set?
  data := .set
  read := Value.set?
  value := .set
  Rel := fun ht ms => (∃ m, ht.Holds m) ∧ ht.keySet = ms
  sel_iff := fun _ _ => DbObject.set?_eq_some_iff
  sel_none := fun o => by unfold DbObject.set? DbObject.type ObjData.type; cases o.data <;> simp
  read_iff := fun v _ => by cases v <;> simp [Value.set?]
  read_none := fun v => by cases v <;> simp [Value.set?, Value.type]
  value_type := fun _ => rfl
  represents := fun _ _ => Iff.rfl

def hash : View S SimpleHt FieldMap where
  type := .hash
  sel := DbObject.hash?
  data := .hash
  read := Value.hash?
  value := .hash
  Rel := fun ht fs => ht.Holds fun f => (fs.lookup f).map some
  sel_iff := fun _ _ => DbObject.hash?_eq_some_iff
  sel_none := fun o => by unfold DbObject.hash? DbObject.type ObjData.type; cases o.data <;> simp
  read_iff := fun v _ => by cases v <;> simp [Value.hash?]
  read_none := fun v => by cases v <;> simp [Value.hash?, Value.type]
  value_type := fun _ => rfl
  represents := fun _ _ => Iff.rfl

def zset : View S (Zskiplist S) (ScoreMap S) where
  type := .zset
  sel := DbObject.zset?
  data := .zset
  read := Value.zset?
  value := .zset
  Rel := fun z M => (∃ L, Zskiplist.Repr z L) ∧ IsMap z.elements M
  sel_iff := fun _ _ => DbObject.zset?_eq_some_iff
  sel_none := fun o => by unfold DbObject.zset? DbObject.type ObjData.type; cases o.data <;> simp
  read_iff := fun v _ => by cases v <;> simp [Value.zset?]
  read_none := fun v => by cases v <;> simp [Value.zset?, Value.type]
  value_type := fun _ => rfl
  represents := fun _ _ => Iff.rfl

variable {β γ : Type} (V : View S β γ)

/-- The type tests of the code and of the database agree. -/
theorem rel_of_isItem {o : DbObject S} {e : Item S} (h : o.IsItem e) :
    Option.Rel V.Rel (V.sel o) (V.read e.value) := by
  cases hb : V.sel o with
  | none =>
    have hty : e.value.type ≠ V.type := h.1.type_eq ▸ (V.sel_none o).mp hb
    rw [(V.read_none _).mpr hty]
    exact .none
  | some b =>
    have hdata := (V.sel_iff o b).mp hb
    cases hc : V.read e.value with
    | none =>
      have hty : o.type ≠ V.type := by
        rw [DbObject.type, h.1.type_eq]
        exact (V.read_none _).mp hc
      rw [(V.sel_none o).mpr hty] at hb
      cases hb
    | some c =>
      have hrep := h.1
      rw [hdata, (V.read_iff _ c).mp hc, V.represents] at hrep
      exact .some hrep

theorem type_of_read {v : Value S} {c : γ} (h : V.read v = some c) : v.type = V.type := by
  rw [(V.read_iff v c).mp h, V.value_type]

end View

/-! ## What a table stands for -/

/-- The table stands for the database. -/
structure KvTable.Implements (db : KvTable S) (d : Database S) : Prop where
  wf : db.Wf
  item : ∀ k, Option.Rel DbObject.IsItem (db.kvGetObject k) (d k)

namespace KvTable.Implements

variable {db db' : KvTable S} {d : Database S} {key : CStr}

omit [LinearOrder S] in
theorem isSome_of_rel {α β : Type} {r : α → β → Prop} {a : Option α} {b : Option β}
    (h : Option.Rel r a b) : a.isSome = b.isSome := by
  cases h <;> rfl

theorem isSome_eq (h : db.Implements d) (k : CStr) :
    (db.kvGetObject k).isSome = (d k).isSome := isSome_of_rel (h.item k)

theorem exists_item (h : db.Implements d) {o : DbObject S} (hget : db.kvGetObject key = some o) :
    ∃ e, d key = some e ∧ o.IsItem e := by
  have hrel := h.item key
  rw [hget] at hrel
  cases hd : d key with
  | none =>
    rw [hd] at hrel
    cases hrel
  | some e =>
    rw [hd] at hrel
    cases hrel with
    | some he => exact ⟨e, rfl, he⟩

theorem eq_none (h : db.Implements d) (hget : db.kvGetObject key = none) : d key = none := by
  have hsome := h.isSome_eq key
  rw [hget] at hsome
  simpa using hsome.symm

theorem sound (h : db.Implements d) : db.Sound :=
  ⟨h.wf, fun _ _ hget => by
    obtain ⟨e, -, he⟩ := h.exists_item hget
    exact he.1.sound⟩

theorem rel (h : db.Implements d) {β γ : Type} (V : View S β γ) (key : CStr) :
    Option.Rel V.Rel (db.wrObj V.sel key) (d.read V.read key) := by
  have hrel := h.item key
  rw [KvTable.wrObj, Database.read]
  revert hrel
  cases db.kvGetObject key <;> cases d key <;> intro hrel
  · exact .none
  · cases hrel
  · cases hrel
  · cases hrel with
    | some he => exact V.rel_of_isItem he

theorem read_eq_none (h : db.Implements d) {β γ : Type} (V : View S β γ)
    (hb : db.wrObj V.sel key = none) : d.read V.read key = none := by
  have hsome := isSome_of_rel (h.rel V key)
  rw [hb] at hsome
  simpa using hsome.symm

theorem exists_read (h : db.Implements d) {β γ : Type} (V : View S β γ) {b : β}
    (hb : db.wrObj V.sel key = some b) : ∃ c, d.read V.read key = some c ∧ V.Rel b c := by
  have hrel := h.rel V key
  rw [hb] at hrel
  cases hc : d.read V.read key with
  | none =>
    rw [hc] at hrel
    cases hrel
  | some c =>
    rw [hc] at hrel
    cases hrel with
    | some hr => exact ⟨c, rfl, hr⟩

theorem congr (h : db.Implements d) (he : db'.entries = db.entries) (hc : db'.count = db.count) :
    db'.Implements d :=
  ⟨h.wf.congr he hc, fun k => by
    rw [kvGetObject_congr he]
    exact h.item k⟩

/-- One key changes, and all others stay. -/
theorem update (h : db.Implements d) (hwf : db'.Wf) (hsame : SameBut [key] db db')
    {e : Option (Item S)} (hkey : Option.Rel DbObject.IsItem (db'.kvGetObject key) e) :
    db'.Implements (Function.update d key e) := by
  refine ⟨hwf, fun k => ?_⟩
  by_cases hk : k = key
  · subst hk
    rw [Function.update_self]
    exact hkey
  · rw [Function.update_of_ne hk, hsame k (by simpa using hk)]
    exact h.item k

variable {β γ : Type} (V : View S β γ)

/-- Writing the data of a key back. -/
theorem putData (h : db.Implements d) {b b' : β} {c' : γ} (hb : db.wrObj V.sel key = some b)
    (hrel : V.Rel b' c') : (db.putData key (V.data b')).Implements (d.write key (V.value c')) := by
  obtain ⟨o, hget, hsel⟩ := exists_of_wrObj hb
  obtain ⟨e, hd, he⟩ := h.exists_item hget
  refine h.update (h.wf.putData key _) (sameBut_putData h.wf key _) ?_
  have hread := V.rel_of_isItem he
  rw [hsel] at hread
  cases hc : V.read e.value with
  | none =>
    rw [hc] at hread
    cases hread
  | some c =>
    have htty : e.value.type = (V.value c').type := by rw [V.type_of_read hc, V.value_type]
    rw [kvGetObject_putData h.wf hget]
    refine .some ⟨(V.represents _ _).mpr hrel, ?_⟩
    simp only [Database.ttlFor, hd, Option.elim_some, if_pos htty]
    exact he.2

/-- A `kv_set_object` that returns 0, with room. -/
theorem kvSetObject (h : db.Implements d) {calloc : Calloc} {obj : DbObject S} {m : Option KvMeta}
    {e : Item S} (hroom : db.HasRoom key) (hgrow : ¬ db.CannotStore calloc)
    (hobj : (obj.stamp m).IsItem e) :
    (db.kvSetObject calloc key obj m).2 = 0 ∧
      (db.kvSetObject calloc key obj m).1.Implements (d.put key e) := by
  have hret := kvSetObject_of_canStore hgrow key obj m
  refine ⟨hret, h.update (h.wf.kvSetObject calloc key obj m)
    (sameBut_kvSetObject h.wf hroom calloc obj m) ?_⟩
  rw [kvGetObject_kvSetObject_self h.wf hret]
  exact .some hobj

end KvTable.Implements

/-! ## Get or create -/

namespace KvTable

/-- The key has an object of the type, or room and memory for a new one. -/
def CanUpsert {β : Type} (sel : DbObject S → Option β) (calloc : Calloc) (db : KvTable S)
    (key : CStr) : Prop :=
  (db.wrObj sel key).isSome = true ∨ (db.HasRoom key ∧ ¬ db.CannotStore calloc)

instance {β : Type} (sel : DbObject S → Option β) (calloc : Calloc) (db : KvTable S) (key : CStr) :
    Decidable (CanUpsert sel calloc db key) := inferInstanceAs (Decidable (_ ∨ _))

omit [LinearOrder S] in
/-- `wr_obj` after the helper that creates the object where it is missing. -/
theorem wrOrCreate_eq {β : Type} (sel : DbObject S → Option β) (create : DbObject S)
    (calloc : Calloc) (db : KvTable S) (key : CStr) :
    db.wrOrCreate sel create calloc key
      = ((db.createUnless sel create calloc key).1,
        if (db.createUnless sel create calloc key).2 = 0 then
          (db.createUnless sel create calloc key).1.wrObj sel key else none) := by
  unfold wrOrCreate createUnless
  cases hb : db.wrObj sel key with
  | some b => simp [hb]
  | none =>
    simp only
    split
    · rfl
    · rename_i heq
      simp only [ne_eq, not_not] at heq
      simp [heq, wrObj]

namespace Implements

variable {db : KvTable S} {d : Database S} {key : CStr} {β γ : Type} (V : View S β γ)

/-- **Get or create, then change**: the structure the code goes on with
stands for the value of the key, or for `zero`, and what it writes back
stands for the database with that value written. -/
theorem upsert (h : db.Implements d) {create : DbObject S} {zero : γ} {calloc : Calloc}
    (hcreate : create.IsItem ⟨V.value zero, -1⟩) (hhold : CanUpsert V.sel calloc db key) :
    ∃ t b, db.createUnless V.sel create calloc key = (t, 0) ∧ t.wrObj V.sel key = some b ∧ t.Wf ∧
      V.Rel b ((d.read V.read key).getD zero) ∧
      ∀ b' c', V.Rel b' c' → (t.putData key (V.data b')).Implements (d.write key (V.value c')) := by
  cases hb : db.wrObj V.sel key with
  | some b =>
    obtain ⟨c, hc, hr⟩ := h.exists_read V hb
    refine ⟨db, b, by simp [createUnless, hb], hb, h.wf, ?_, fun b' c' hr => h.putData V hb hr⟩
    rwa [hc, Option.getD_some]
  | none =>
    have hnone := h.read_eq_none V hb
    obtain ⟨hroom, hgrow⟩ := hhold.resolve_left (by simp [hb])
    have hstamped : (create.stamp none).IsItem ⟨V.value zero, -1⟩ := hcreate
    have hput := h.kvSetObject hroom hgrow hstamped
    obtain ⟨b, hnew⟩ : ∃ b, create.data = V.data b := by
      have hrep := V.rel_of_isItem hcreate
      have hread : V.read (V.value zero) = some zero := (V.read_iff _ _).mpr rfl
      rw [hread] at hrep
      cases hs : V.sel create with
      | none =>
        rw [hs] at hrep
        cases hrep
      | some b => exact ⟨b, (V.sel_iff _ _).mp hs⟩
    have hself : (db.kvSetObject calloc key create none).1.wrObj V.sel key = some b := by
      rw [KvTable.wrObj, kvGetObject_kvSetObject_self h.wf hput.1, Option.bind_some, V.sel_iff]
      exact hnew
    have hcre : db.createUnless V.sel create calloc key
        = ((db.kvSetObject calloc key create none).1, 0) := by
      simp only [createUnless, hb]
      exact Prod.ext rfl hput.1
    refine ⟨_, b, hcre, hself, hput.2.wf, ?_, fun b' c' hr => ?_⟩
    · rw [hnone]
      exact (V.represents _ _).mp (hnew ▸ hcreate.1)
    · -- the new object has no expiry, and neither has what is written over another type
      have hw := hput.2.putData V hself hr
      have hzero : (V.value zero).type = (V.value c').type := by
        rw [V.value_type, V.value_type]
      have hold : d.ttlFor key (V.value c').type = -1 := by
        unfold Database.ttlFor
        cases hd : d key with
        | none => rfl
        | some e =>
          have hne : e.value.type ≠ V.type := by
            rw [Database.read, hd] at hnone
            exact (V.read_none _).mp hnone
          rw [Option.elim_some, V.value_type, if_neg hne]
      have heq : (d.put key ⟨V.value zero, -1⟩).write key (V.value c') = d.write key (V.value c') := by
        have hnew' : (d.put key ⟨V.value zero, -1⟩).ttlFor key (V.value c').type = -1 := by
          simp [Database.ttlFor, Database.put, hzero]
        rw [Database.write, Database.write, hold, hnew']
        simp [Database.put]
      rwa [heq] at hw

/-- The same for the helpers that hand the structure back. -/
theorem upsert_wrOrCreate (h : db.Implements d) {create : DbObject S} {zero : γ} {calloc : Calloc}
    (hcreate : create.IsItem ⟨V.value zero, -1⟩) (hhold : CanUpsert V.sel calloc db key) :
    ∃ t b, db.wrOrCreate V.sel create calloc key = (t, some b) ∧
      V.Rel b ((d.read V.read key).getD zero) ∧
      ∀ b' c', V.Rel b' c' → (t.putData key (V.data b')).Implements (d.write key (V.value c')) := by
  obtain ⟨t, b, hcre, hb, -, hrel, hput⟩ := h.upsert V hcreate hhold
  refine ⟨t, b, ?_, hrel, hput⟩
  rw [wrOrCreate_eq, hcre, if_pos rfl, hb]

/-- **Change what is there**: nothing happens to a key without a value of
the type, and else the structure stands for the value. -/
theorem adjust (h : db.Implements d) (f : γ → γ) (key : CStr) :
    (db.wrObj V.sel key = none ∧ d.read V.read key = none ∧
      d.adjust V.read V.value key f = d) ∨
    ∃ b c, db.wrObj V.sel key = some b ∧ d.read V.read key = some c ∧ V.Rel b c ∧
      ∀ b', V.Rel b' (f c) →
        (db.putData key (V.data b')).Implements (d.adjust V.read V.value key f) := by
  cases hb : db.wrObj V.sel key with
  | none =>
    have hc := h.read_eq_none V hb
    exact .inl ⟨rfl, hc, by simp [Database.adjust, hc]⟩
  | some b =>
    obtain ⟨c, hc, hr⟩ := h.exists_read V hb
    refine .inr ⟨b, c, rfl, hc, hr, fun b' hb' => ?_⟩
    rw [Database.adjust, hc, Option.elim_some]
    exact h.putData V hb hb'

end Implements

end KvTable

end AntzKV

/-
AntzKV.Core.TypeSafetyTheorems — what a command of one type does to a key
that holds an object of another.

`kv_incrby` and `kv_lset` look at the type of the object they find and
return -1. The get-or-create helpers of the other commands answer "none"
for an absent key and for a key of another type alike, and
`kv_set_object` then replaces the object. `typeSafe_iff` says exactly
when a command is refused.
-/
import AntzKV.Core.CommandsTheorems

namespace AntzKV

open OpenAddressing (Slot)
open DbObject (objCreateString objCreateList objCreateSet objCreateHash objCreateZset)

variable {S : Type}

/-- The node `dlist_pop_right` takes, if `tail` is not NULL. -/
def Dlist.lastNode? (l : Dlist) : Option ListNode := l.tail.bind l.nodes.get

/-- The commands that write to a key of their own type; in `rpoplpush` the
key is the destination. -/
inductive TypedWrite (S : Type) where
  | append (suffix : CStr) (usec : UInt64)
  | incr (usec : UInt64)
  | incrby (delta : Int) (usec : UInt64)
  | decr (usec : UInt64)
  | decrby (delta : Int) (usec : UInt64)
  | lpush (value : CStr)
  | rpush (value : CStr)
  | lset (idx : Int) (value : CStr)
  | sadd (members : List CStr)
  | hset (field value : CStr)
  | zadd (score : S) (member : CStr) (rand : Nat → Nat)
  | rpoplpush (src : CStr)

/-- The return value -1. -/
def Outcome.isErr {α : Type} : Outcome α → Bool
  | .err => true
  | _ => false

namespace TypedWrite

def type : TypedWrite S → ObjType
  | .append .. | .incr .. | .incrby .. | .decr .. | .decrby .. => .string
  | .lpush .. | .rpush .. | .lset .. | .rpoplpush .. => .list
  | .sadd .. => .set
  | .hset .. => .hash
  | .zadd .. => .zset

/-- The call on a key: the table after it, and whether it reports failure
(-1, or NULL from `kv_lpoprpush`). -/
def run [LinearOrder S] (calloc : Calloc) (db : KvTable S) (key : CStr) :
    TypedWrite S → KvTable S × Bool
  | .append suffix usec => (db.kvAppend calloc key suffix usec).map id Outcome.isErr
  | .incr usec => (db.kvIncr calloc key usec).map id Outcome.isErr
  | .incrby delta usec => (db.kvIncrby calloc key delta usec).map id Outcome.isErr
  | .decr usec => (db.kvDecr calloc key usec).map id Outcome.isErr
  | .decrby delta usec => (db.kvDecrby calloc key delta usec).map id Outcome.isErr
  | .lpush value => (db.kvLpush calloc key value).map id Outcome.isErr
  | .rpush value => (db.kvRpush calloc key value).map id Outcome.isErr
  | .lset idx value => (db.kvLset key idx value).map id Outcome.isErr
  | .sadd members => (db.kvSadd calloc key members).map id Outcome.isErr
  | .hset field value => (db.kvHset calloc key field value).map id Outcome.isErr
  | .zadd score member rand => (db.kvZadd calloc key score member rand).map id Outcome.isErr
  | .rpoplpush src => (db.kvLpoprpush calloc src key).map id Option.isNone

/-- The call fails and leaves every object as it was. -/
def TypeSafe [LinearOrder S] (calloc : Calloc) (db : KvTable S) (key : CStr) (cmd : TypedWrite S) :
    Prop :=
  (cmd.run calloc db key).2 = true ∧
    ∀ k, (cmd.run calloc db key).1.kvGetObject k = db.kvGetObject k

end TypedWrite

/-- When a command of another type is refused: the counters and LSET look
at the type; RPOPLPUSH never reaches the destination when the source has
no element; the others are stopped only by a table that cannot grow. -/
def TypedWrite.Refused (calloc : Calloc) (db : KvTable S) : TypedWrite S → Prop
  | .incr .. | .incrby .. | .decr .. | .decrby .. | .lset .. => True
  | .rpoplpush src => ∀ l, db.wrObj DbObject.list? src = some l → l.lastNode? = none
  | .append .. | .lpush .. | .rpush .. | .sadd .. | .hset .. | .zadd .. => db.CannotStore calloc

namespace KvTable

/-! ## The get-or-create helpers on a key of another type -/

section Helpers

variable {β : Type} {sel : DbObject S → Option β} {create : DbObject S} {calloc : Calloc}
  {db : KvTable S} {key : CStr}

theorem createUnless_of_cannotStore (hsel : db.wrObj sel key = none) (h : db.CannotStore calloc) :
    db.createUnless sel create calloc key = (db, -1) := by
  simp [createUnless, hsel, kvSetObject_of_cannotStore h]

/-- The object that was there is replaced by a new one. -/
theorem createUnless_of_canStore (create : DbObject S) (hwf : db.Wf) (hsel : db.wrObj sel key = none)
    (h : ¬ db.CannotStore calloc) :
    ∃ t : KvTable S, db.createUnless sel create calloc key = (t, 0) ∧ t.Wf ∧
      t.kvGetObject key = some create := by
  have hret := kvSetObject_of_canStore h key create none
  refine ⟨(db.kvSetObject calloc key create none).1, ?_, hwf.kvSetObject calloc key create none,
    kvGetObject_kvSetObject_self hwf hret⟩
  simp only [createUnless, hsel]
  exact Prod.ext rfl hret

theorem wrOrCreate_of_cannotStore (hsel : db.wrObj sel key = none) (h : db.CannotStore calloc) :
    db.wrOrCreate sel create calloc key = (db, none) := by
  simp [wrOrCreate, hsel, kvSetObject_of_cannotStore h]

theorem wrOrCreate_of_canStore (create : DbObject S) (hwf : db.Wf) (hsel : db.wrObj sel key = none)
    (h : ¬ db.CannotStore calloc) :
    ∃ t : KvTable S, db.wrOrCreate sel create calloc key = (t, sel create) ∧ t.Wf ∧
      t.kvGetObject key = some create := by
  have hret := kvSetObject_of_canStore h key create none
  have hget := kvGetObject_kvSetObject_self hwf hret
  refine ⟨(db.kvSetObject calloc key create none).1, ?_, hwf.kvSetObject calloc key create none,
    hget⟩
  simp only [wrOrCreate, hsel, hret]
  rw [hget]
  rfl

end Helpers

/-! ## The commands -/

/-- An object of one type is not selected as one of another. -/
theorem wrObj_of_type_ne {β : Type} {sel : DbObject S → Option β} {ty : ObjType} {db : KvTable S}
    {key : CStr} {o : DbObject S} (hsel : ∀ o, (sel o).isSome → o.type = ty)
    (hget : db.kvGetObject key = some o) (hty : ty ≠ o.type) : db.wrObj sel key = none := by
  rw [wrObj, hget]
  show sel o = none
  by_contra hne
  exact hty (hsel o (Option.isSome_iff_ne_none.mpr hne)).symm

theorem type_of_string? (o : DbObject S) (h : o.string?.isSome) : o.type = .string := by
  obtain ⟨x, hx⟩ := Option.isSome_iff_exists.mp h
  rw [DbObject.type, DbObject.string?_eq_some_iff.mp hx]
  rfl

theorem type_of_list? (o : DbObject S) (h : o.list?.isSome) : o.type = .list := by
  obtain ⟨x, hx⟩ := Option.isSome_iff_exists.mp h
  rw [DbObject.type, DbObject.list?_eq_some_iff.mp hx]
  rfl

theorem type_of_set? (o : DbObject S) (h : o.set?.isSome) : o.type = .set := by
  obtain ⟨x, hx⟩ := Option.isSome_iff_exists.mp h
  rw [DbObject.type, DbObject.set?_eq_some_iff.mp hx]
  rfl

theorem type_of_hash? (o : DbObject S) (h : o.hash?.isSome) : o.type = .hash := by
  obtain ⟨x, hx⟩ := Option.isSome_iff_exists.mp h
  rw [DbObject.type, DbObject.hash?_eq_some_iff.mp hx]
  rfl

theorem type_of_zset? (o : DbObject S) (h : o.zset?.isSome) : o.type = .zset := by
  obtain ⟨x, hx⟩ := Option.isSome_iff_exists.mp h
  rw [DbObject.type, DbObject.zset?_eq_some_iff.mp hx]
  rfl

section Commands

variable {calloc : Calloc} {db : KvTable S} {key : CStr} {o : DbObject S}

/-- The counters stop at the type of the entry they find. -/
theorem kvIncrby_of_type_ne (hget : db.kvGetObject key = some o) (hty : ObjType.string ≠ o.type)
    (delta : Int) (usec : UInt64) : db.kvIncrby calloc key delta usec = (db, .err) := by
  have hstr : o.string? = none := by
    by_contra hne
    exact hty (type_of_string? o (Option.isSome_iff_ne_none.mpr hne)).symm
  rw [kvIncrby_found hget, incrAt_found hget, hstr]
  rfl

theorem kvLset_of_type_ne (hget : db.kvGetObject key = some o) (hty : ObjType.list ≠ o.type)
    (idx : Int) (value : CStr) : db.kvLset key idx value = (db, .err) := by
  simp [kvLset, wrObj_of_type_ne type_of_list? hget hty]

theorem kvAppend_of_cannotStore (hsel : db.wrObj DbObject.string? key = none)
    (h : db.CannotStore calloc) (suffix : CStr) (usec : UInt64) :
    db.kvAppend calloc key suffix usec = (db, .err) := by
  simp [kvAppend, createUnless_of_cannotStore hsel h]

theorem kvAppend_replaces (hwf : db.Wf) (hsel : db.wrObj DbObject.string? key = none)
    (h : ¬ db.CannotStore calloc) (suffix : CStr) (usec : UInt64) :
    ∃ o', (db.kvAppend calloc key suffix usec).1.kvGetObject key = some o' ∧ o'.type = .string := by
  obtain ⟨t, hr, ht, hget⟩ :=
    createUnless_of_canStore (objCreateString (.lit "") usec) hwf hsel h
  have hstr : t.getStringObj key = some (.lit "") := by
    rw [getStringObj, wrObj, hget]
    rfl
  simp only [kvAppend, hr, hstr, ne_eq, not_true_eq_false, if_false]
  cases (CStr.lit "").append? suffix with
  | none => exact ⟨_, hget, rfl⟩
  | some n => exact ⟨_, kvGetObject_putData ht hget _, rfl⟩

theorem kvPush_of_cannotStore (hsel : db.wrObj DbObject.list? key = none)
    (h : db.CannotStore calloc) (push : Dlist → CStr → Dlist) (value : CStr) :
    db.kvPush push calloc key value = (db, .err) := by
  simp [kvPush, kvEnsureList_eq, wrOrCreate_of_cannotStore hsel h]

theorem kvPush_replaces (hwf : db.Wf) (hsel : db.wrObj DbObject.list? key = none)
    (h : ¬ db.CannotStore calloc) (push : Dlist → CStr → Dlist) (value : CStr) :
    ∃ o', (db.kvPush push calloc key value).1.kvGetObject key = some o' ∧ o'.type = .list := by
  obtain ⟨t, hr, ht, hget⟩ := wrOrCreate_of_canStore objCreateList hwf hsel h
  simp only [kvPush, kvEnsureList_eq, hr]
  exact ⟨_, kvGetObject_putData ht hget _, rfl⟩

theorem kvSadd_of_cannotStore (hsel : db.wrObj DbObject.set? key = none)
    (h : db.CannotStore calloc) (members : List CStr) :
    db.kvSadd calloc key members = (db, .err) := by
  simp [kvSadd, wrSetObj, wrOrCreate_of_cannotStore hsel h]

theorem kvSadd_replaces (hwf : db.Wf) (hsel : db.wrObj DbObject.set? key = none)
    (h : ¬ db.CannotStore calloc) (members : List CStr) :
    ∃ o', (db.kvSadd calloc key members).1.kvGetObject key = some o' ∧ o'.type = .set := by
  obtain ⟨t, hr, ht, hget⟩ := wrOrCreate_of_canStore objCreateSet hwf hsel h
  simp only [kvSadd, wrSetObj, hr]
  exact ⟨_, kvGetObject_putData ht hget _, rfl⟩

theorem kvHset_of_cannotStore (hsel : db.wrObj DbObject.hash? key = none)
    (h : db.CannotStore calloc) (field value : CStr) :
    db.kvHset calloc key field value = (db, .err) := by
  simp [kvHset, wrHash, wrOrCreate_of_cannotStore hsel h]

theorem kvHset_replaces (hwf : db.Wf) (hsel : db.wrObj DbObject.hash? key = none)
    (h : ¬ db.CannotStore calloc) (field value : CStr) :
    ∃ o', (db.kvHset calloc key field value).1.kvGetObject key = some o' ∧ o'.type = .hash := by
  obtain ⟨t, hr, ht, hget⟩ := wrOrCreate_of_canStore objCreateHash hwf hsel h
  simp only [kvHset, wrHash, hr]
  exact ⟨_, kvGetObject_putData ht hget _, rfl⟩

theorem kvZadd_of_cannotStore [LinearOrder S] (hsel : db.wrObj DbObject.zset? key = none)
    (h : db.CannotStore calloc) (score : S) (member : CStr) (rand : Nat → Nat) :
    db.kvZadd calloc key score member rand = (db, .err) := by
  simp [kvZadd, createUnless_of_cannotStore hsel h]

theorem kvZadd_replaces [LinearOrder S] (hwf : db.Wf) (hsel : db.wrObj DbObject.zset? key = none)
    (h : ¬ db.CannotStore calloc) (score : S) (member : CStr) (rand : Nat → Nat) :
    ∃ o', (db.kvZadd calloc key score member rand).1.kvGetObject key = some o' ∧
      o'.type = .zset := by
  obtain ⟨t, hr, ht, hget⟩ := createUnless_of_canStore objCreateZset hwf hsel h
  simp only [kvZadd, hr, wrObj, hget]
  exact ⟨_, kvGetObject_putData ht hget _, rfl⟩

theorem dlistPopRight_snd (l : Dlist) : l.dlistPopRight.2 = l.lastNode?.map (·.value) := by
  unfold Dlist.dlistPopRight Dlist.lastNode?
  cases ht : l.tail with
  | none => rfl
  | some n => cases hx : l.nodes.get n <;> simp [hx]

theorem dlistPopRight_of_empty {l : Dlist} (h : l.lastNode? = none) :
    l.dlistPopRight = (l, none) := by
  have hnone : (l.tail.bind fun n => (l.nodes.get n).map (n, ·)) = none := by
    simp only [Dlist.lastNode?, Option.bind_eq_none_iff, Option.map_eq_none_iff] at h ⊢
    exact h
  simp [Dlist.dlistPopRight, hnone]

/-- A pop that finds nothing writes the list back as it was. -/
theorem putData_pop_of_empty {src : CStr} {l : Dlist}
    (hl : db.wrObj DbObject.list? src = some l) (hempty : l.lastNode? = none) :
    db.putData src (.list l.dlistPopRight.1) = db := by
  obtain ⟨o, hget, ho⟩ := exists_of_wrObj hl
  rw [dlistPopRight_of_empty hempty, putData_same hget (DbObject.list?_eq_some_iff.mp ho)]

theorem kvLpoprpush_typeSafe_iff [LinearOrder S] (src : CStr) :
    (TypedWrite.rpoplpush src : TypedWrite S).TypeSafe calloc db key ↔
      (TypedWrite.rpoplpush src : TypedWrite S).Refused calloc db := by
  simp only [TypedWrite.TypeSafe, TypedWrite.Refused, TypedWrite.run, kvLpoprpush, kvRpop, kvPop]
  cases hl : db.wrObj DbObject.list? src with
  | none => simp
  | some l =>
    simp only [Option.some.injEq, forall_eq', dlistPopRight_snd]
    cases hlast : l.lastNode? with
    | none =>
      simp only [Option.map_none, Prod.map, id, Option.isNone_none, true_and, iff_true]
      intro k
      rw [putData_pop_of_empty hl hlast]
    | some n => simp

end Commands

/-- A key that now holds an object of another type has changed. -/
theorem not_typeSafe_of_replaced [LinearOrder S] {calloc : Calloc} {db : KvTable S} {key : CStr}
    {o : DbObject S} {cmd : TypedWrite S} (hget : db.kvGetObject key = some o)
    (hty : cmd.type ≠ o.type)
    (hrep : ∃ o', (cmd.run calloc db key).1.kvGetObject key = some o' ∧ o'.type = cmd.type) :
    ¬ cmd.TypeSafe calloc db key := by
  rintro ⟨_, hsame⟩
  obtain ⟨o', hget', hty'⟩ := hrep
  rw [hsame key, hget] at hget'
  obtain rfl := Option.some.inj hget'
  exact hty hty'.symm

theorem typeSafe_of_run [LinearOrder S] {calloc : Calloc} {db : KvTable S} {key : CStr}
    {cmd : TypedWrite S} (h : cmd.run calloc db key = (db, true)) : cmd.TypeSafe calloc db key := by
  simp [TypedWrite.TypeSafe, h]

/-- A command that fails when its object cannot be made, and otherwise puts
one of its own type in place of the old one. -/
theorem typeSafe_iff_cannotStore [LinearOrder S] {calloc : Calloc} {db : KvTable S} {key : CStr}
    {o : DbObject S} {cmd : TypedWrite S} (hget : db.kvGetObject key = some o)
    (hty : cmd.type ≠ o.type)
    (hfail : db.CannotStore calloc → cmd.run calloc db key = (db, true))
    (hrep : ¬ db.CannotStore calloc →
      ∃ o', (cmd.run calloc db key).1.kvGetObject key = some o' ∧ o'.type = cmd.type) :
    cmd.TypeSafe calloc db key ↔ db.CannotStore calloc := by
  by_cases hgrow : db.CannotStore calloc
  · exact iff_of_true (typeSafe_of_run (hfail hgrow)) hgrow
  · exact iff_of_false (not_typeSafe_of_replaced hget hty (hrep hgrow)) hgrow

/-- One step: on a well-formed table. -/
theorem Wf.typeSafe_iff_refused [LinearOrder S] {db : KvTable S} (hwf : db.Wf) (calloc : Calloc)
    {key : CStr} {o : DbObject S} (hget : db.kvGetObject key = some o) (cmd : TypedWrite S)
    (hty : cmd.type ≠ o.type) : cmd.TypeSafe calloc db key ↔ cmd.Refused calloc db := by
  cases cmd with
  | incr usec =>
    simp only [TypedWrite.Refused, iff_true]
    exact typeSafe_of_run (by simp [TypedWrite.run, kvIncr, kvIncrby_of_type_ne hget hty]; rfl)
  | incrby delta usec =>
    simp only [TypedWrite.Refused, iff_true]
    exact typeSafe_of_run (by simp [TypedWrite.run, kvIncrby_of_type_ne hget hty]; rfl)
  | decr usec =>
    simp only [TypedWrite.Refused, iff_true]
    exact typeSafe_of_run (by
      simp [TypedWrite.run, kvDecr, kvDecrby, kvIncrby_of_type_ne hget hty]; rfl)
  | decrby delta usec =>
    simp only [TypedWrite.Refused, iff_true]
    exact typeSafe_of_run (by
      simp [TypedWrite.run, kvDecrby, kvIncrby_of_type_ne hget hty]; rfl)
  | lset idx value =>
    simp only [TypedWrite.Refused, iff_true]
    exact typeSafe_of_run (by simp [TypedWrite.run, kvLset_of_type_ne hget hty]; rfl)
  | rpoplpush src => exact kvLpoprpush_typeSafe_iff src
  | append suffix usec =>
    have hsel := wrObj_of_type_ne type_of_string? hget hty
    refine typeSafe_iff_cannotStore hget hty (fun hgrow => ?_)
      fun hgrow => kvAppend_replaces hwf hsel hgrow suffix usec
    simp [TypedWrite.run, kvAppend_of_cannotStore hsel hgrow, Outcome.isErr]
  | lpush value =>
    have hsel := wrObj_of_type_ne type_of_list? hget hty
    refine typeSafe_iff_cannotStore hget hty (fun hgrow => ?_)
      fun hgrow => kvPush_replaces hwf hsel hgrow Dlist.dlistPushLeft value
    simp [TypedWrite.run, kvLpush, kvPush_of_cannotStore hsel hgrow, Outcome.isErr]
  | rpush value =>
    have hsel := wrObj_of_type_ne type_of_list? hget hty
    refine typeSafe_iff_cannotStore hget hty (fun hgrow => ?_)
      fun hgrow => kvPush_replaces hwf hsel hgrow Dlist.dlistPushRight value
    simp [TypedWrite.run, kvRpush, kvPush_of_cannotStore hsel hgrow, Outcome.isErr]
  | sadd members =>
    have hsel := wrObj_of_type_ne type_of_set? hget hty
    refine typeSafe_iff_cannotStore hget hty (fun hgrow => ?_)
      fun hgrow => kvSadd_replaces hwf hsel hgrow members
    simp [TypedWrite.run, kvSadd_of_cannotStore hsel hgrow, Outcome.isErr]
  | hset field value =>
    have hsel := wrObj_of_type_ne type_of_hash? hget hty
    refine typeSafe_iff_cannotStore hget hty (fun hgrow => ?_)
      fun hgrow => kvHset_replaces hwf hsel hgrow field value
    simp [TypedWrite.run, kvHset_of_cannotStore hsel hgrow, Outcome.isErr]
  | zadd score member rand =>
    have hsel := wrObj_of_type_ne type_of_zset? hget hty
    refine typeSafe_iff_cannotStore hget hty (fun hgrow => ?_)
      fun hgrow => kvZadd_replaces hwf hsel hgrow score member rand
    simp [TypedWrite.run, kvZadd_of_cannotStore hsel hgrow, Outcome.isErr]

/-- **Type safety.** In every reachable table a command on a key of
another type fails and changes nothing exactly when it is refused. -/
theorem typeSafe_iff [LinearOrder S] (path : Option CStr) (file : Option (List UInt8))
    (ops : List (StoreOp S)) (calloc : Calloc) (key : CStr) (o : DbObject S) (cmd : TypedWrite S)
    (hget : (storeRun path file ops).kvGetObject key = some o) (hty : cmd.type ≠ o.type) :
    cmd.TypeSafe calloc (storeRun path file ops) key ↔ cmd.Refused calloc (storeRun path file ops) :=
  (Wf.storeRun path file ops).typeSafe_iff_refused calloc hget cmd hty

/-- INCR on a list is refused. -/
theorem typeSafe_incr_on_list :
    (TypedWrite.incr 9 : TypedWrite Int).TypeSafe true
      (storeRun none none [.rpush true (.lit "l") (.lit "a")]) (.lit "l") :=
  (typeSafe_iff none none [.rpush true (.lit "l") (.lit "a")] true (.lit "l")
    (.objCreate (.list (Dlist.empty.dlistPushRight (.lit "a")))) (.incr 9)
    (by decide) (by decide)).mpr trivial

/-- APPEND on a list replaces the list by a string and returns 0. -/
theorem append_on_list_not_typeSafe :
    (storeRun none none [.rpush true (.lit "l") (.lit "a")] : KvTable Int).kvGetObject (.lit "l")
        = some (.objCreate (.list (Dlist.empty.dlistPushRight (.lit "a")))) ∧
      ¬ (TypedWrite.append (.lit "x") 9 : TypedWrite Int).TypeSafe true
        (storeRun none none [.rpush true (.lit "l") (.lit "a")]) (.lit "l") := by
  refine ⟨by decide, ?_⟩
  rintro ⟨hfails, _⟩
  revert hfails
  decide

end KvTable

end AntzKV

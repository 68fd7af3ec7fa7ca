/-
AntzKV.Server.CountReplyTheorems — the integers replied to the commands
that add to a collection or remove from it.

SADD, SREM and HDEL count in `kvdb.c`, over distinct arguments; their
replies are cardinalities (`setReplies_iff`). Where `kv_sadd` or `kv_hset`
return -1 the server does not look: SADD replies 0 and HSET what the local
`created` happened to hold.

ZADD and ZREM count in `server.c`, which hands the same local to a call for
each argument and replies with what the last one left there; so the reply
is the change of ZCARD only when no call before the last one does anything
(`zsetReplies_iff`).
-/
import AntzKV.Core.SoundTheorems
import AntzKV.Server.DispatchTheorems

namespace AntzKV

open DbObject (objCreateSet objCreateHash)

variable {S : Type}

namespace KvTable

/-! ## Get or create, and write back -/

section Create

variable {β : Type} {sel : DbObject S → Option β} {create : DbObject S} {b : β} {calloc : Calloc}
  {db : KvTable S} {key : CStr}

/-- The key has a structure of the type, or can get one. -/
def CanHold (sel : DbObject S → Option β) (calloc : Calloc) (db : KvTable S) (key : CStr) : Prop :=
  (db.wrObj sel key).isSome ∨ ¬ db.CannotStore calloc

instance : Decidable (CanHold sel calloc db key) := inferInstanceAs (Decidable (_ ∨ _))

theorem wrOrCreate_of_canHold (hwf : db.Wf) (hcreate : sel create = some b)
    (h : CanHold sel calloc db key) :
    ∃ t, db.wrOrCreate sel create calloc key = (t, some ((db.wrObj sel key).getD b)) := by
  cases hsel : db.wrObj sel key with
  | some b' => exact ⟨db, by simp only [wrOrCreate, hsel, Option.getD_some]⟩
  | none =>
    have hgrow : ¬ db.CannotStore calloc := h.resolve_left (by simp [hsel])
    obtain ⟨t, hr, -, -⟩ := wrOrCreate_of_canStore create hwf hsel hgrow
    exact ⟨t, by rw [hr, hcreate, Option.getD_none]⟩

theorem not_canHold_iff :
    ¬ CanHold sel calloc db key ↔ db.wrObj sel key = none ∧ db.CannotStore calloc := by
  simp [CanHold]

end Create

/-! ## Sets and hashes as finite sets -/

/-- The keys of the set or hash of a key, none without one. -/
def keysOf (sel : DbObject S → Option SimpleHt) (db : KvTable S) (key : CStr) : Finset CStr :=
  (db.wrObj sel key).elim ∅ SimpleHt.keySet

variable [LinearOrder S] {db : KvTable S} {key : CStr}

theorem Sound.kvSismember_iff (h : db.Sound) (x : CStr) :
    db.kvSismember key x = true ↔ x ∈ db.keysOf DbObject.set? key := by
  cases hs : db.wrObj DbObject.set? key with
  | none => simp [kvSismember, keysOf, hs]
  | some ht =>
    obtain ⟨m, hm⟩ := h.set hs
    rw [kvSismember, keysOf, hs, Option.elim_some, Option.elim_some, hm.mem_keySet]

theorem Sound.kvScard_eq (h : db.Sound) : db.kvScard key = (db.keysOf DbObject.set? key).card := by
  cases hs : db.wrObj DbObject.set? key with
  | none => simp [kvScard, keysOf, hs]
  | some ht =>
    obtain ⟨m, hm⟩ := h.set hs
    rw [kvScard, keysOf, hs, Option.elim_some, Option.elim_some, hm.card_keySet]

theorem Sound.kvHexists_iff (h : db.Sound) (x : CStr) :
    db.kvHexists key x = true ↔ x ∈ db.keysOf DbObject.hash? key := by
  cases hs : db.wrObj DbObject.hash? key with
  | none => simp [kvHexists, keysOf, hs]
  | some ht =>
    obtain ⟨m, hm, -⟩ := h.hash hs
    rw [kvHexists, keysOf, hs, Option.elim_some, Option.elim_some, hm.mem_keySet]

theorem Sound.kvHlen_eq (h : db.Sound) : db.kvHlen key = (db.keysOf DbObject.hash? key).card := by
  cases hs : db.wrObj DbObject.hash? key with
  | none => simp [kvHlen, keysOf, hs]
  | some ht =>
    obtain ⟨m, hm, -⟩ := h.hash hs
    rw [kvHlen, keysOf, hs, Option.elim_some, Option.elim_some, hm.card_keySet]

omit [LinearOrder S] in
theorem keySet_getD (sel : DbObject S → Option SimpleHt) (db : KvTable S) (key : CStr) :
    ((db.wrObj sel key).getD .htCreate).keySet = db.keysOf sel key := by
  unfold keysOf
  cases db.wrObj sel key <;> rfl

omit [LinearOrder S] in
theorem keysOf_of_some {sel : DbObject S → Option SimpleHt} {ht : SimpleHt}
    (h : db.wrObj sel key = some ht) : db.keysOf sel key = ht.keySet := by
  rw [keysOf, h, Option.elim_some]

/-- `kv_sadd`: the union, and the number of new members. -/
theorem Sound.kvSadd_spec (h : db.Sound) {calloc : Calloc}
    (hhold : CanHold DbObject.set? calloc db key) (members : List CStr) :
    (db.kvSadd calloc key members).2 = .ok (members.toFinset \ db.keysOf DbObject.set? key).card ∧
      (db.kvSadd calloc key members).1.keysOf DbObject.set? key
        = db.keysOf DbObject.set? key ∪ members.toFinset := by
  have hnew : (objCreateSet : DbObject S).set? = some .htCreate := rfl
  obtain ⟨t, hr⟩ := wrOrCreate_of_canHold h.wf hnew hhold
  have hsound : (db.wrSetObj calloc key).1.Sound := h.wrOrCreate sound_objCreateSet calloc key
  have hwr : db.wrSetObj calloc key = _ := hr
  have hset := wrObj_of_wrOrCreate hr
  rw [hwr] at hsound
  obtain ⟨m, hm⟩ := hsound.set hset
  obtain ⟨-, hkeys, hcount⟩ := hm.addAll members
  rw [kvSadd_eq_ok hwr, hcount, keySet_getD]
  refine ⟨rfl, ?_⟩
  rw [keysOf_of_some (wrObj_putData hsound.wf hset fun _ => rfl), hkeys, keySet_getD]

/-- `kv_srem`: the difference, and the number of members that were there. -/
theorem Sound.kvSrem_spec (h : db.Sound) (key : CStr) (members : List CStr) :
    (db.kvSrem key members).2 = (members.toFinset ∩ db.keysOf DbObject.set? key).card ∧
      (db.kvSrem key members).1.keysOf DbObject.set? key
        = db.keysOf DbObject.set? key \ members.toFinset := by
  cases hs : db.wrObj DbObject.set? key with
  | none => simp [KvTable.kvSrem, keysOf, hs]
  | some ht =>
    obtain ⟨m, hm⟩ := h.set hs
    obtain ⟨-, hkeys, hcount⟩ := hm.removeAll members
    simp only [KvTable.kvSrem, hs, keysOf_of_some hs]
    refine ⟨hcount, ?_⟩
    rw [keysOf_of_some (wrObj_putData h.wf hs fun _ => rfl), hkeys]

theorem Sound.kvHset_spec (h : db.Sound) {calloc : Calloc}
    (hhold : CanHold DbObject.hash? calloc db key) (field value : CStr) :
    (db.kvHset calloc key field value).2
        = .ok (decide (field ∉ db.keysOf DbObject.hash? key)) ∧
      (db.kvHset calloc key field value).1.keysOf DbObject.hash? key
        = insert field (db.keysOf DbObject.hash? key) := by
  have hnew : (objCreateHash : DbObject S).hash? = some .htCreate := rfl
  obtain ⟨t, hr⟩ := wrOrCreate_of_canHold h.wf hnew hhold
  have hsound : (db.wrHash calloc key).1.Sound := h.wrOrCreate sound_objCreateHash calloc key
  have hwr : db.wrHash calloc key = _ := hr
  have hhash := wrObj_of_wrOrCreate hr
  rw [hwr] at hsound
  obtain ⟨m, hm, -⟩ := hsound.hash hhash
  have hkeys := (hm.keySet_htAdd field (some value) true).1
  have hexists := hm.mem_keySet (k := field)
  rw [keySet_getD] at hkeys hexists
  simp only [KvTable.kvHset, hwr]
  refine ⟨?_, ?_⟩
  · congr 1
    rw [Bool.eq_iff_iff, decide_eq_true_iff, hexists, Bool.not_eq_true', Bool.not_eq_true]
  · rw [keysOf_of_some (wrObj_putData hsound.wf hhash fun _ => rfl), hkeys]

theorem Sound.kvHdel_spec (h : db.Sound) (key : CStr) (fields : List CStr) :
    (db.kvHdel key fields).2 = (fields.toFinset ∩ db.keysOf DbObject.hash? key).card ∧
      (db.kvHdel key fields).1.keysOf DbObject.hash? key
        = db.keysOf DbObject.hash? key \ fields.toFinset := by
  cases hs : db.wrObj DbObject.hash? key with
  | none => simp [KvTable.kvHdel, keysOf, hs]
  | some ht =>
    obtain ⟨m, hm, -⟩ := h.hash hs
    obtain ⟨-, hkeys, hcount⟩ := hm.removeAll fields
    simp only [KvTable.kvHdel, hs, keysOf_of_some hs]
    refine ⟨hcount, ?_⟩
    rw [keysOf_of_some (wrObj_putData h.wf hs fun _ => rfl), hkeys]

/-! ## Sorted sets -/

theorem Sound.kvZcard_eq (h : db.Sound) (key : CStr) :
    db.kvZcard key = (db.zsetElements key).length := by
  cases hz : db.wrObj DbObject.zset? key with
  | none => simp [kvZcard, zsetElements, hz]
  | some z =>
    obtain ⟨L, hr⟩ := h.zset hz
    rw [kvZcard, zsetElements, hz, Option.elim_some, Option.elim_some, hr.length_elements]

/-- A `kv_zadd` that finds or makes a sorted set adds one element. -/
theorem Sound.kvZadd_spec (h : db.Sound) {calloc : Calloc}
    (hhold : CanHold DbObject.zset? calloc db key) (score : S) (member : CStr)
    (rand : Nat → Nat) :
    (db.kvZadd calloc key score member rand).2 = .ok () ∧
      ((db.kvZadd calloc key score member rand).1.wrObj DbObject.zset? key).isSome ∧
      (db.kvZadd calloc key score member rand).1.kvZcard key = db.kvZcard key + 1 := by
  have hsound := h.kvZadd calloc key score member rand
  rcases kvZadd_cases h.wf calloc key score member rand with ⟨hnone, herr⟩ | ⟨hok, hsome⟩
  · -- the call would have replaced what is there
    have hgrow : ¬ db.CannotStore calloc := hhold.resolve_left (by simp [hnone])
    obtain ⟨o, hget, hty⟩ := kvZadd_replaces h.wf hnone hgrow score member rand
    rw [herr] at hget
    rw [wrObj, hget, Option.bind_some] at hnone
    cases hd : o.data <;> simp [DbObject.zset?, DbObject.type, ObjData.type, hd] at hnone hty
  · refine ⟨hok, by rw [hsome]; rfl, ?_⟩
    obtain ⟨L, hr⟩ : ∃ L, Zskiplist.Repr ((db.wrObj DbObject.zset? key).getD .zslCreate) L := by
      cases hz : db.wrObj DbObject.zset? key with
      | none => exact ⟨[], Zskiplist.repr_zslCreate⟩
      | some z => exact h.zset hz
    obtain ⟨hpos, hmax⟩ := zslRandomLevel_bounds rand
    obtain ⟨A, B, hE, hE'⟩ := hr.elements_zslInsert score member hpos hmax
    rw [hsound.kvZcard_eq, h.kvZcard_eq, zsetElements, hsome, Option.elim_some, hE', zsetElements_eq,
      hE]
    simp only [List.length_append, List.length_cons]
    omega

theorem kvZadd_of_not_canHold {calloc : Calloc} (h : ¬ CanHold DbObject.zset? calloc db key)
    (score : S) (member : CStr) (rand : Nat → Nat) :
    db.kvZadd calloc key score member rand = (db, .err) := by
  obtain ⟨hnone, hgrow⟩ := not_canHold_iff.mp h
  exact kvZadd_of_cannotStore hnone hgrow score member rand

/-- A `kv_zrem` takes one element out when one of its member is exposed,
and nothing otherwise. -/
theorem Sound.kvZrem_spec (h : db.Sound) (key member : CStr) :
    (exposed member (db.zsetElements key) = true ∧ (db.kvZrem key member).2 = true ∧
      db.kvZcard key = (db.kvZrem key member).1.kvZcard key + 1) ∨
    (exposed member (db.zsetElements key) = false ∧ db.kvZrem key member = (db, false)) := by
  have hsound := h.kvZrem key member
  rcases kvZrem_exposed h.wf (fun _ hz => h.zset hz) member with
    ⟨hexp, hret, A, s, l, B, hE, hE'⟩ | hnothing
  · refine Or.inl ⟨hexp, hret, ?_⟩
    rw [hsound.kvZcard_eq, h.kvZcard_eq, hE, hE']
    simp only [List.length_append, List.length_cons]
    omega
  · exact Or.inr hnothing

end KvTable

namespace Server

open KvTable (CanHold)

variable [LinearOrder S]

/-! ## The loops of ZADD and ZREM -/

/-- With a sorted set there, every call adds an element. -/
theorem zaddAll_of_held (w : World S) (key : CStr) (pairs : List (CStr × CStr)) (i : Nat)
    {db : KvTable S} (h : db.Sound) (hz : (db.wrObj DbObject.zset? key).isSome) (added : Int) :
    ∃ t, zaddAll w key i pairs db added = (t, some (if pairs = [] then added else 1)) ∧
      t.kvZcard key = db.kvZcard key + pairs.length := by
  induction pairs generalizing i db added with
  | nil => exact ⟨db, rfl, rfl⟩
  | cons p pairs ih =>
    have hsound := h.kvZadd (w.callocs i) key (w.strtod p.1) p.2 (w.draws i)
    have hhold : CanHold DbObject.zset? (w.callocs i) db key := Or.inl hz
    obtain ⟨hok, hsome, hcard⟩ := h.kvZadd_spec hhold (w.strtod p.1) p.2 (w.draws i)
    cases hr : db.kvZadd (w.callocs i) key (w.strtod p.1) p.2 (w.draws i) with
    | mk t ret =>
      rw [hr] at hsound hok hsome hcard
      obtain rfl : ret = .ok () := hok
      obtain ⟨t', hloop, hcard'⟩ := ih (i + 1) hsound hsome 1
      refine ⟨t', ?_, ?_⟩
      · simp only [zaddAll, hr, hloop, ite_self, reduceCtorEq, if_false]
      · rw [hcard', hcard, List.length_cons]
        omega

/-- ZADD replies with the increase of ZCARD. -/
def ZaddCounts (w : World S) (ps : PubsubMgr) (db : KvTable S) (key : CStr)
    (pairs : List (CStr × CStr)) : Prop :=
  (execOther w ps db (.zadd key pairs)).2
    = some (.int ((execOther w ps db (.zadd key pairs)).1.kvZcard key - db.kvZcard key))

/-- ZREM replies with the decrease of ZCARD. -/
def ZremCounts (w : World S) (ps : PubsubMgr) (db : KvTable S) (key : CStr)
    (members : List CStr) : Prop :=
  (execOther w ps db (.zrem key members)).2
    = some (.int (db.kvZcard key - (execOther w ps db (.zrem key members)).1.kvZcard key))

/-- The loop of ZADD replies with what it has added when no call before
the last one adds. -/
theorem zaddAll_counts_iff (w : World S) (key : CStr) {db : KvTable S} (h : db.Sound)
    (pairs : List (CStr × CStr)) (i : Nat) :
    (zaddAll w key i pairs db 0).2
        = some (((zaddAll w key i pairs db 0).1.kvZcard key : Int) - db.kvZcard key) ↔
      ∀ j, j + 1 < pairs.length → ¬ CanHold DbObject.zset? (w.callocs (i + j)) db key := by
  induction pairs generalizing i with
  | nil => simp [zaddAll]
  | cons p pairs ih =>
    by_cases hhold : CanHold DbObject.zset? (w.callocs i) db key
    · have hsound := h.kvZadd (w.callocs i) key (w.strtod p.1) p.2 (w.draws i)
      obtain ⟨hok, hsome, hcard⟩ := h.kvZadd_spec hhold (w.strtod p.1) p.2 (w.draws i)
      cases hr : db.kvZadd (w.callocs i) key (w.strtod p.1) p.2 (w.draws i) with
      | mk t ret =>
        rw [hr] at hsound hok hsome hcard
        obtain rfl : ret = .ok () := hok
        obtain ⟨t', hloop, hcard'⟩ := zaddAll_of_held w key pairs (i + 1) hsound hsome 1
        have hall : zaddAll w key i (p :: pairs) db 0 = (t', some 1) := by
          simp only [zaddAll, hr, hloop, ite_self]
        rw [hall, hcard', hcard, Option.some.injEq]
        constructor
        · intro hone j hj
          rw [List.length_cons] at hj
          omega
        · intro hno
          cases pairs with
          | nil => simp
          | cons q pairs => exact absurd hhold (hno 0 (by simp))
    · have hall : zaddAll w key i (p :: pairs) db 0 = zaddAll w key (i + 1) pairs db 0 := by
        simp only [zaddAll, KvTable.kvZadd_of_not_canHold hhold]
      rw [hall, ih (i + 1)]
      constructor
      · intro hno j hj
        cases j with
        | zero => exact hhold
        | succ j =>
          have hrest := hno j (by simpa using hj)
          rwa [Nat.add_right_comm] at hrest
      · intro hno j hj
        have hrest := hno (j + 1) (by simpa using hj)
        rwa [← Nat.add_assoc, Nat.add_right_comm] at hrest

theorem zaddCounts_iff (w : World S) (ps : PubsubMgr) {db : KvTable S} (h : db.Sound) (key : CStr)
    (pairs : List (CStr × CStr)) :
    ZaddCounts w ps db key pairs ↔
      ∀ j, j + 1 < pairs.length → ¬ CanHold DbObject.zset? (w.callocs j) db key := by
  have hloop := zaddAll_counts_iff w key h pairs 0
  simp only [Nat.zero_add] at hloop
  rw [← hloop, ZaddCounts, execOther]
  simp

/-- A round of the loop of ZREM. -/
def zremStep (key : CStr) (r : KvTable S × Int) (member : CStr) : KvTable S × Int :=
  ((r.1.kvZrem key member).1, if (r.1.kvZrem key member).2 then 1 else 0)

/-- One round takes out as many elements as it says. -/
theorem zremStep_card (key member : CStr) {db : KvTable S} (h : db.Sound) (removed : Int) :
    (zremStep key (db, removed) member).2
      = db.kvZcard key - (zremStep key (db, removed) member).1.kvZcard key := by
  rcases h.kvZrem_spec key member with ⟨-, hret, hcard⟩ | ⟨-, hret⟩
  · simp only [zremStep, hret, if_true]
    omega
  · simp [zremStep, hret]

/-- What the loop of ZREM replies with is at most what it has removed. -/
theorem zremLoop_le (key m : CStr) (members : List CStr) {db : KvTable S} (h : db.Sound)
    (removed : Int) :
    ((m :: members).foldl (zremStep key) (db, removed)).2
      ≤ db.kvZcard key - ((m :: members).foldl (zremStep key) (db, removed)).1.kvZcard key := by
  induction members generalizing m db removed with
  | nil => exact (zremStep_card key m h removed).le
  | cons m' members ih =>
    have hone : (zremStep key (db, removed) m).1.kvZcard key ≤ db.kvZcard key := by
      rcases h.kvZrem_spec key m with ⟨-, hret, hcard⟩ | ⟨-, hret⟩
      · rw [hcard]
        exact Nat.le_succ _
      · rw [zremStep, hret]
    have hrest := ih m' (h.kvZrem key m) (zremStep key (db, removed) m).2
    rw [List.foldl_cons]
    refine le_trans hrest ?_
    exact Int.sub_le_sub_right (by exact_mod_cast hone) _

/-- It is what it has removed when no call before the last one removes. -/
theorem zremLoop_counts_iff (key m : CStr) (members : List CStr) {db : KvTable S} (h : db.Sound)
    (removed : Int) :
    ((m :: members).foldl (zremStep key) (db, removed)).2
        = db.kvZcard key - ((m :: members).foldl (zremStep key) (db, removed)).1.kvZcard key ↔
      ∀ x ∈ (m :: members).dropLast, exposed x (db.zsetElements key) = false := by
  induction members generalizing m db removed with
  | nil => simpa using zremStep_card key m h removed
  | cons m' members ih =>
    have hrest := ih m' (h.kvZrem key m) (zremStep key (db, removed) m).2
    have hle := zremLoop_le key m' members (h.kvZrem key m) (zremStep key (db, removed) m).2
    rw [List.dropLast_cons_cons, List.forall_mem_cons, List.foldl_cons]
    rcases h.kvZrem_spec key m with ⟨hexp, hret, hcard⟩ | ⟨hexp, hret⟩
    · have hstep : (zremStep key (db, removed) m)
          = ((db.kvZrem key m).1, (zremStep key (db, removed) m).2) := rfl
      rw [hstep, hexp, hcard]
      constructor
      · intro heq
        rw [Nat.cast_succ] at heq
        omega
      · rintro ⟨hno, -⟩
        cases hno
    · have hstep : zremStep key (db, removed) m = (db, 0) := by
        simp [zremStep, hret]
      rw [hstep, hret] at hrest
      rw [hstep, hrest, hexp]
      simp

theorem zremCounts_iff (w : World S) (ps : PubsubMgr) {db : KvTable S} (h : db.Sound) (key : CStr)
    (members : List CStr) :
    ZremCounts w ps db key members ↔
      ∀ m ∈ members.dropLast, exposed m (db.zsetElements key) = false := by
  have hexec : execOther w ps db (.zrem key members)
      = ((members.foldl (zremStep key) (db, 0)).1,
        some (.int (members.foldl (zremStep key) (db, 0)).2)) := rfl
  rw [ZremCounts, hexec, Option.some.injEq, CmdReply.int.injEq]
  cases members with
  | nil => simp
  | cons m members => exact zremLoop_counts_iff key m members h 0

/-- **Replies of ZADD and ZREM**, on every reachable table. ZADD replies
with the increase of ZCARD exactly when no call before the last one adds;
for a key with a sorted set, when there is one pair. ZREM replies with the
decrease exactly when no member before the last one can be taken out. -/
theorem zsetReplies_iff (path : Option CStr) (file : Option (List UInt8)) (ops : List (SoundOp S))
    (w : World S) (ps : PubsubMgr) (key : CStr) (pairs : List (CStr × CStr))
    (members : List CStr) :
    (ZaddCounts w ps (KvTable.soundRun path file ops) key pairs ↔
      ∀ j, j + 1 < pairs.length →
        ¬ CanHold DbObject.zset? (w.callocs j) (KvTable.soundRun path file ops) key) ∧
    (ZremCounts w ps (KvTable.soundRun path file ops) key members ↔
      ∀ m ∈ members.dropLast,
        exposed m ((KvTable.soundRun path file ops).zsetElements key) = false) :=
  ⟨zaddCounts_iff w ps (.soundRun path file ops) key pairs,
    zremCounts_iff w ps (.soundRun path file ops) key members⟩

/-- Two members are added, and the reply is 1. -/
theorem zadd_two_replies_one :
    (KvTable.soundRun none none [] : KvTable Int).kvGetObject (.lit "z") = none ∧
      ¬ ZaddCounts noMemory .pubsubCreate (KvTable.soundRun none none []) (.lit "z")
        [(.lit "1", .lit "a"), (.lit "2", .lit "b")] := by
  refine ⟨by decide, fun h => ?_⟩
  have hno := (zaddCounts_iff noMemory .pubsubCreate (.soundRun none none []) (.lit "z") _).mp h 0
    (by decide)
  revert hno
  decide

/-! ## Sets and hashes -/

/-- The distinct ones of some strings that a test accepts. -/
def distinctWhere (test : CStr → Bool) (l : List CStr) : Finset CStr :=
  l.toFinset.filter fun x => test x = true

/-- SADD replies with the number of distinct arguments that were not
members; SCARD grows by it, and the arguments have become members. -/
structure SaddCounts (w : World S) (ps : PubsubMgr) (db : KvTable S) (key : CStr)
    (members : List CStr) : Prop where
  reply : (execOther w ps db (.sadd key members)).2
    = some (.int (distinctWhere (fun x => !db.kvSismember key x) members).card)
  scard : (execOther w ps db (.sadd key members)).1.kvScard key
    = db.kvScard key + (distinctWhere (fun x => !db.kvSismember key x) members).card
  member : ∀ x, (execOther w ps db (.sadd key members)).1.kvSismember key x
    = (db.kvSismember key x || decide (x ∈ members))

/-- A removal replies with the number of distinct arguments that were
there; the size falls by it, and the arguments are gone. -/
structure RemovalCounts (has : KvTable S → CStr → Bool) (size : KvTable S → Nat) (db : KvTable S)
    (after : KvTable S × Option CmdReply) (args : List CStr) : Prop where
  reply : after.2 = some (.int (distinctWhere (has db) args).card)
  size : size db = size after.1 + (distinctWhere (has db) args).card
  has : ∀ x, has after.1 x = (has db x && decide (x ∉ args))

def SremCounts (w : World S) (ps : PubsubMgr) (db : KvTable S) (key : CStr) (members : List CStr) :
    Prop :=
  RemovalCounts (·.kvSismember key) (·.kvScard key) db (execOther w ps db (.srem key members)) members

def HdelCounts (w : World S) (ps : PubsubMgr) (db : KvTable S) (key : CStr) (fields : List CStr) :
    Prop :=
  RemovalCounts (·.kvHexists key) (·.kvHlen key) db (execOther w ps db (.hdel key fields)) fields

/-- HSET replies 1 when HLEN grows and 0 when not, and the field is there. -/
structure HsetCounts (w : World S) (ps : PubsubMgr) (db : KvTable S) (key field value : CStr) :
    Prop where
  reply : (execOther w ps db (.hset key field value)).2 = some (.int
    (if db.kvHlen key < (execOther w ps db (.hset key field value)).1.kvHlen key then 1 else 0))
  field : ∀ x, (execOther w ps db (.hset key field value)).1.kvHexists key x
    = (db.kvHexists key x || decide (x = field))

/-- A removal that leaves the difference of two finite sets. -/
theorem removalCounts_of {has : KvTable S → CStr → Bool} {size : KvTable S → Nat} {db : KvTable S}
    {after : KvTable S × Option CmdReply} {args : List CStr} {K : KvTable S → Finset CStr}
    (hhas : ∀ t : KvTable S, t.Sound → ∀ x, has t x = true ↔ x ∈ K t)
    (hsize : ∀ t : KvTable S, t.Sound → size t = (K t).card) (h : db.Sound) (h' : after.1.Sound)
    (hreply : after.2 = some (.int (args.toFinset ∩ K db).card))
    (hK : K after.1 = K db \ args.toFinset) : RemovalCounts has size db after args := by
  have hpresent : distinctWhere (has db) args = args.toFinset ∩ K db := by
    ext x
    rw [distinctWhere, Finset.mem_filter, hhas db h, Finset.mem_inter]
  refine ⟨?_, ?_, fun x => ?_⟩
  · rw [hreply, hpresent]
  · rw [hsize db h, hsize _ h', hK, hpresent, Finset.inter_comm, Finset.card_sdiff_add_card_inter]
  · rw [Bool.eq_iff_iff, hhas _ h', hK, Finset.mem_sdiff, List.mem_toFinset, Bool.and_eq_true,
      hhas db h, decide_eq_true_iff]

variable (w : World S) (ps : PubsubMgr) {db : KvTable S} (h : db.Sound) (key : CStr)

include h in
theorem sremCounts (members : List CStr) : SremCounts w ps db key members := by
  obtain ⟨hreply, hset⟩ := h.kvSrem_spec key members
  refine removalCounts_of (fun t ht x => ht.kvSismember_iff x) (fun t ht => ht.kvScard_eq) h
    (h.kvSrem key members) ?_ hset
  show some (CmdReply.int (db.kvSrem key members).2) = _
  rw [hreply]

include h in
theorem hdelCounts (fields : List CStr) : HdelCounts w ps db key fields := by
  obtain ⟨hreply, hset⟩ := h.kvHdel_spec key fields
  refine removalCounts_of (fun t ht x => ht.kvHexists_iff x) (fun t ht => ht.kvHlen_eq) h
    (h.kvHdel key fields) ?_ hset
  show some (CmdReply.int (db.kvHdel key fields).2) = _
  rw [hreply]

include h in
/-- SADD counts when it can hold a set; there is always a first member. -/
theorem saddCounts_iff (m : CStr) (members : List CStr) :
    SaddCounts w ps db key (m :: members) ↔ CanHold DbObject.set? w.calloc db key := by
  have hsound := h.kvSadd w.calloc key (m :: members)
  constructor
  · intro hcounts
    by_contra hno
    obtain ⟨hnone, hgrow⟩ := KvTable.not_canHold_iff.mp hno
    have hmember := hcounts.member m
    simp only [execOther, KvTable.kvSadd_of_cannotStore hnone hgrow, List.mem_cons, true_or,
      decide_true, Bool.or_true] at hmember
    simp [KvTable.kvSismember, hnone] at hmember
  · intro hhold
    obtain ⟨hok, hset⟩ := h.kvSadd_spec hhold (m :: members)
    cases hr : db.kvSadd w.calloc key (m :: members) with
    | mk t ret =>
      rw [hr] at hok hset hsound
      obtain rfl : ret = _ := hok
      have hexec : execOther w ps db (.sadd key (m :: members)) = (t, some (.int
          ((m :: members).toFinset \ db.keysOf DbObject.set? key).card)) := by
        simp only [execOther, hr]
      have hnew : distinctWhere (fun x => !db.kvSismember key x) (m :: members)
          = (m :: members).toFinset \ db.keysOf DbObject.set? key := by
        ext x
        rw [distinctWhere, Finset.mem_filter, Finset.mem_sdiff, ← h.kvSismember_iff,
          Bool.not_eq_true', Bool.not_eq_true]
      refine ⟨?_, ?_, fun x => ?_⟩
      · rw [hexec, hnew]
      · rw [hexec, hsound.kvScard_eq, h.kvScard_eq, hset, hnew, Nat.add_comm,
          Finset.card_sdiff_add_card, Finset.union_comm]
      · rw [hexec, Bool.eq_iff_iff, hsound.kvSismember_iff, hset, Finset.mem_union,
          List.mem_toFinset, Bool.or_eq_true, h.kvSismember_iff, decide_eq_true_iff]

include h in
theorem hsetCounts_iff (field value : CStr) :
    HsetCounts w ps db key field value ↔ CanHold DbObject.hash? w.calloc db key := by
  have hsound := h.kvHset w.calloc key field value
  constructor
  · intro hcounts
    by_contra hno
    obtain ⟨hnone, hgrow⟩ := KvTable.not_canHold_iff.mp hno
    have hfield := hcounts.field field
    simp only [execOther, KvTable.kvHset_of_cannotStore hnone hgrow, decide_true,
      Bool.or_true] at hfield
    simp [KvTable.kvHexists, hnone] at hfield
  · intro hhold
    obtain ⟨hok, hset⟩ := h.kvHset_spec hhold field value
    cases hr : db.kvHset w.calloc key field value with
    | mk t ret =>
      rw [hr] at hok hset hsound
      obtain rfl : ret = _ := hok
      have hexec : execOther w ps db (.hset key field value) = (t, some (.int
          (if decide (field ∉ db.keysOf DbObject.hash? key) then 1 else 0))) := by
        simp only [execOther, hr]
      refine ⟨?_, fun x => ?_⟩
      · rw [hexec, hsound.kvHlen_eq, h.kvHlen_eq, hset]
        by_cases hmem : field ∈ db.keysOf DbObject.hash? key
        · simp [hmem, Finset.insert_eq_of_mem hmem]
        · simp [hmem, Finset.card_insert_of_notMem hmem]
      · rw [hexec, Bool.eq_iff_iff, hsound.kvHexists_iff, hset, Finset.mem_insert, Bool.or_eq_true,
          h.kvHexists_iff, decide_eq_true_iff, or_comm]

/-- **Replies of the set and hash commands**, on every reachable table and
for every argument list, with repetitions and doublings of the table: SREM
and HDEL count, and SADD and HSET do when the key has a structure of the
type or can get one. -/
theorem setReplies_iff (path : Option CStr) (file : Option (List UInt8)) (ops : List (SoundOp S))
    (w : World S) (ps : PubsubMgr) (key m field value : CStr) (members fields : List CStr) :
    (SaddCounts w ps (KvTable.soundRun path file ops) key (m :: members) ↔
      CanHold DbObject.set? w.calloc (KvTable.soundRun path file ops) key) ∧
    SremCounts w ps (KvTable.soundRun path file ops) key members ∧
    (HsetCounts w ps (KvTable.soundRun path file ops) key field value ↔
      CanHold DbObject.hash? w.calloc (KvTable.soundRun path file ops) key) ∧
    HdelCounts w ps (KvTable.soundRun path file ops) key fields :=
  have h := KvTable.Sound.soundRun path file ops
  ⟨saddCounts_iff w ps h key m members, sremCounts w ps h key members,
    hsetCounts_iff w ps h key field value, hdelCounts w ps h key fields⟩

/-- The same keys of one letter, as sound operations. -/
def soundLetterKeys : List (SoundOp Int) :=
  (List.range 24).map fun i => ⟨.table (KvTable.setLetter i), trivial⟩

/-- Without memory for a new key SADD replies 0 to a new member, and HSET
replies what its local holds, here 1. -/
theorem sadd_hset_without_memory :
    ¬ SaddCounts { noMemory with junk := 1 } .pubsubCreate
        (KvTable.soundRun none none soundLetterKeys) (.lit "zz") [.lit "a"] ∧
      ¬ HsetCounts { noMemory with junk := 1 } .pubsubCreate
        (KvTable.soundRun none none soundLetterKeys) (.lit "zz") (.lit "f") (.lit "v") := by
  have hfull : ¬ (KvTable.soundRun none none soundLetterKeys).CanHold DbObject.set? false
        (.lit "zz") ∧
      ¬ (KvTable.soundRun none none soundLetterKeys).CanHold DbObject.hash? false (.lit "zz") := by
    decide +kernel
  exact ⟨fun h => hfull.1 ((saddCounts_iff _ _ (.soundRun none none soundLetterKeys) _ _ _).mp h),
    fun h => hfull.2 ((hsetCounts_iff _ _ (.soundRun none none soundLetterKeys) _ _ _).mp h)⟩

end Server

end AntzKV

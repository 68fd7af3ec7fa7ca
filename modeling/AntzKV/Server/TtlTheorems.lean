/-
AntzKV.Server.TtlTheorems — the replies to TTL and PTTL, and the four
commands that compute an expiry.

`kv_ttl_ms` answers -2, -1 or the time of the expiry, and the server
subtracts the time now. Nothing keeps that difference away from -1 and
-2: once the expiry of a key that is still there has passed, the reply
reads as one of the codes, or as no answer at all (`ttlReplies_iff`).

EXPIRE, SETEX and SET with EX or PX add their argument to the time now
without looking at it. A sum below zero is a key without an expiry, and
so is one beyond 2^63 once it has wrapped around (`ttlSet_iff`).
-/
import AntzKV.Core.CounterTheorems
import AntzKV.Core.ExpiryTheorems
import AntzKV.Server.DispatchTheorems
import AntzKV.Server.ReplicationTheorems

namespace AntzKV

variable {S : Type}

namespace Server

open KvTable (storeRun)

/-! ## What TTL and PTTL reply -/

/-- The time until the expiry of an object, none when it has passed. -/
def remaining (o : DbObject S) (now : Int) : Int := max 0 (o.ttl - now)

/-- The reply is a number that tells the three cases apart. `unit` is the
unit of the reply in milliseconds. -/
def TtlReply (db : KvTable S) (key : CStr) (now unit : Int) (reply : Option CmdReply) : Prop :=
  ∃ n, reply = some (.int n) ∧
    (n = -2 ↔ db.kvGetObject key = none) ∧
    (n = -1 ↔ ∃ o, db.kvGetObject key = some o ∧ o.ttl < 0) ∧
    ∀ o, db.kvGetObject key = some o → 0 ≤ o.ttl → 0 ≤ n ∧ n * unit ≤ remaining o now

/-- The key's expiry, if it has one, has not passed. -/
def NotPast (db : KvTable S) (key : CStr) (now : Int) : Prop :=
  ∀ o, db.kvGetObject key = some o → 0 ≤ o.ttl → now ≤ o.ttl

section Replies

variable {db : KvTable S} {key : CStr}

/-- With an expiry the reply is right exactly when it is a number from 0
up to the time that remains. -/
theorem ttlReply_of_expiry {now unit n : Int} {o : DbObject S}
    (hget : db.kvGetObject key = some o) (httl : 0 ≤ o.ttl) :
    TtlReply db key now unit (some (.int n)) ↔ 0 ≤ n ∧ n * unit ≤ remaining o now := by
  constructor
  · rintro ⟨n', hn', -, -, hrest⟩
    cases hn'
    exact hrest o hget httl
  · rintro ⟨hn, hle⟩
    refine ⟨n, rfl, ?_, ?_, ?_⟩
    · simp only [hget, reduceCtorEq, iff_false]
      omega
    · simp only [hget, Option.some.injEq, exists_eq_left']
      omega
    · intro o' ho' _
      obtain rfl : o = o' := Option.some.inj (hget.symm.trans ho')
      exact ⟨hn, hle⟩

variable [LinearOrder S] (w : World S) (ps : PubsubMgr)

theorem reply_pttl {o : DbObject S} (hget : db.kvGetObject key = some o) (httl : 0 ≤ o.ttl) :
    (execOther w ps db (.pttl key)).2 = some (.int (o.ttl - w.now 0)) := by
  simp [execOther, KvTable.kvTtlMs, hget, not_lt.mpr httl]

theorem reply_ttl {o : DbObject S} (hget : db.kvGetObject key = some o) (httl : 0 ≤ o.ttl) :
    (execOther w ps db (.ttl key)).2 = some (.int ((o.ttl - w.now 0).tdiv 1000)) := by
  simp [execOther, KvTable.kvTtlMs, hget, not_lt.mpr httl]

/-- Without an expiry both commands reply with the code of `kv_ttl_ms`. -/
theorem ttlReply_of_code (unit : Int) {c : Command} (hc : c = .pttl key ∨ c = .ttl key)
    (hcode : ∀ o, db.kvGetObject key = some o → o.ttl < 0) :
    TtlReply db key (w.now 0) unit (execOther w ps db c).2 := by
  have hno : ∀ o, db.kvGetObject key = some o → ¬ 0 ≤ o.ttl := fun o ho => not_le.mpr (hcode o ho)
  cases hget : db.kvGetObject key with
  | none =>
    have hms : db.kvTtlMs key = -2 := by simp [KvTable.kvTtlMs, hget]
    refine ⟨-2, ?_, by simp [hget], by simp [hget], by simp [hget]⟩
    rcases hc with rfl | rfl <;> simp [execOther, hms]
  | some o =>
    have hneg := hcode o hget
    have hms : db.kvTtlMs key = -1 := by simp [KvTable.kvTtlMs, hget, hneg]
    refine ⟨-1, ?_, by simp [hget], by simp [hget, hneg], fun o' ho' h => absurd h (hno o' ho')⟩
    rcases hc with rfl | rfl <;> simp [execOther, hms]

theorem ttlReply_pttl_iff :
    TtlReply db key (w.now 0) 1 (execOther w ps db (.pttl key)).2 ↔ NotPast db key (w.now 0) := by
  by_cases hcode : ∀ o, db.kvGetObject key = some o → o.ttl < 0
  · refine iff_of_true (ttlReply_of_code w ps 1 (.inl rfl) hcode) fun o ho h => ?_
    exact absurd h (not_le.mpr (hcode o ho))
  · push Not at hcode
    obtain ⟨o, hget, httl⟩ := hcode
    have hpast : NotPast db key (w.now 0) ↔ w.now 0 ≤ o.ttl := by
      simp [NotPast, hget, httl]
    rw [reply_pttl w ps hget httl, ttlReply_of_expiry hget httl, hpast, remaining]
    omega

theorem ttlReply_ttl_of_notPast (h : NotPast db key (w.now 0)) :
    TtlReply db key (w.now 0) 1000 (execOther w ps db (.ttl key)).2 := by
  by_cases hcode : ∀ o, db.kvGetObject key = some o → o.ttl < 0
  · exact ttlReply_of_code w ps 1000 (.inr rfl) hcode
  · push Not at hcode
    obtain ⟨o, hget, httl⟩ := hcode
    have hleft : 0 ≤ o.ttl - w.now 0 := by
      have := h o hget httl
      omega
    rw [reply_ttl w ps hget httl, ttlReply_of_expiry hget httl, remaining,
      Int.tdiv_eq_ediv_of_nonneg hleft]
    omega

/-- **When the replies are unambiguous**: in any table, for any key and at
any time, exactly when the key is absent, has no expiry, or has not
passed it. -/
theorem ttlReplies_iff (path : Option CStr) (file : Option (List UInt8)) (ops : List (StoreOp S))
    (key : CStr) :
    (TtlReply (storeRun path file ops) key (w.now 0) 1
        (execOther w ps (storeRun path file ops) (.pttl key)).2 ∧
      TtlReply (storeRun path file ops) key (w.now 0) 1000
        (execOther w ps (storeRun path file ops) (.ttl key)).2) ↔
      NotPast (storeRun path file ops) key (w.now 0) :=
  ⟨fun h => (ttlReply_pttl_iff w ps).mp h.1,
    fun h => ⟨(ttlReply_pttl_iff w ps).mpr h, ttlReply_ttl_of_notPast w ps h⟩⟩

/-- With memory to grow, at 6 msec. -/
def atSix : World Int := { noMemory with calloc := true, now := fun _ => 6 }

/-- PTTL of a key that expires at 5, while it is still there. -/
theorem pttl_of_expired_key :
    ¬ ∀ (path : Option CStr) (file : Option (List UInt8)) (ops : List (StoreOp Int))
      (w : World Int) (ps : PubsubMgr) (key : CStr),
      TtlReply (storeRun path file ops) key (w.now 0) 1
          (execOther w ps (storeRun path file ops) (.pttl key)).2 ∧
        TtlReply (storeRun path file ops) key (w.now 0) 1000
          (execOther w ps (storeRun path file ops) (.ttl key)).2 := by
  intro h
  have hone := (h none none KvTable.dueSoon atSix PubsubMgr.pubsubCreate (.lit "a")).1
  have hreply : (execOther atSix PubsubMgr.pubsubCreate (storeRun none none KvTable.dueSoon)
      (.pttl (.lit "a"))).2 = some (.int (-1)) := by
    decide
  rw [hreply] at hone
  obtain ⟨n, hn, -, hpersistent, -⟩ := hone
  cases hn
  obtain ⟨o, hget, hneg⟩ := hpersistent.mp rfl
  have httl : (storeRun none none KvTable.dueSoon).kvTtlMs (.lit "a") = 5 := by decide
  simp [KvTable.kvTtlMs, hget, hneg] at httl

end Replies

/-! ## The commands that set an expiry -/

/-- The commands that give `key` an expiry `arg` units from now, with the
unit in milliseconds. -/
inductive SetsTtl (key arg : CStr) : Command → Int → Prop
  | expire : SetsTtl key arg (.expire key arg) 1000
  | setex (value : CStr) : SetsTtl key arg (.string (.setex key arg value)) 1000
  | ex (value opt : CStr) (h : strcasecmpEq opt (.lit "EX") = true) :
    SetsTtl key arg (.string (.set key value [opt, arg])) 1000
  | px (value opt : CStr) (h : strcasecmpEq opt (.lit "PX") = true) :
    SetsTtl key arg (.string (.set key value [opt, arg])) 1

/-- A write of the value that needs a larger table and gets none: the
command then leaves the object as it was. -/
def Refused (calloc : Calloc) (db : KvTable S) : Command → Prop
  | .string _ => db.CannotStore calloc
  | _ => False

instance (calloc : Calloc) (db : KvTable S) (c : Command) : Decidable (Refused calloc db c) := by
  cases c <;> unfold Refused <;> infer_instance

/-- What an expiry `n` units after `now` should look like. -/
structure TtlSet (unit now n ttl : Int) : Prop where
  product : InInt64 (n * unit)
  sum : InInt64 (now + n * unit)
  hasExpiry : 0 ≤ ttl
  later : 0 < n → now < ttl
  reached : n ≤ 0 → ttl ≤ now

/-- The wrapped sum is what it should be exactly when the sum is a
nonnegative 64-bit number. -/
theorem ttlSet_wrap64_iff {unit now n : Int} (hunit : unit = 1000 ∨ unit = 1) (hnow : 0 ≤ now)
    (hsane : now ≤ 2 ^ 62) :
    TtlSet unit now n (wrap64 (now + n * unit)) ↔ 0 ≤ now + n * unit ∧ now + n * unit < 2 ^ 63 := by
  constructor
  · rintro ⟨-, ⟨hlow, hhigh⟩, hexp, -, -⟩
    rw [wrap64_of_range hlow hhigh] at hexp
    exact ⟨hexp, hhigh⟩
  · rintro ⟨hlow, hhigh⟩
    have hwrap : wrap64 (now + n * unit) = now + n * unit := wrap64_of_range (by omega) hhigh
    refine ⟨⟨by omega, by omega⟩, ⟨by omega, hhigh⟩, ?_, ?_, ?_⟩ <;> rw [hwrap]
    · exact hlow
    · rcases hunit with rfl | rfl <;> intro hn <;> omega
    · rcases hunit with rfl | rfl <;> intro hn <;> omega

theorem kvGetObject_kvSetTtl {db : KvTable S} (h : db.Wf) {key : CStr} {o : DbObject S}
    (hget : db.kvGetObject key = some o) (ttl : Int) :
    (db.kvSetTtl key ttl).1.kvGetObject key = some { o with ttl := ttl } := by
  have hp : (db.probe key).2 = true := KvTable.probe_found_iff.mpr ⟨o, hget⟩
  rw [KvTable.kvSetTtl, if_pos hp, KvTable.kvGetObject_modifyObj h, if_pos rfl, hget]
  rfl

/-- A write that is not refused, and `kv_set_ttl` after it. -/
theorem kvGetObject_kvSet_kvSetTtl {calloc : Calloc} {db : KvTable S} (h : db.Wf)
    (hgrow : ¬ db.CannotStore calloc) (key value : CStr) (usec : UInt64) (ttl : Int) :
    (db.kvSet calloc key value usec).2 = 0 ∧
      ∃ o, ((db.kvSet calloc key value usec).1.kvSetTtl key ttl).1.kvGetObject key = some o ∧
        o.ttl = ttl := by
  have hret : (db.kvSet calloc key value usec).2 = 0 :=
    KvTable.kvSet_of_canStore hgrow key value usec
  have hself := KvTable.kvGetObject_kvSetObject_self h.kvNextVersion hret
  exact ⟨hret, _, kvGetObject_kvSetTtl (wf_kvSet h calloc key value usec) hself ttl, rfl⟩

/-- A SET that is refused leaves the objects as they were. -/
theorem kvGetObject_exec_set_refused {env : Env} {srv : Server S}
    (hgrow : srv.db.CannotStore env.calloc) (key value : CStr) (options : List CStr) (k : CStr) :
    (srv.exec env (.set key value options)).1.db.kvGetObject k = srv.db.kvGetObject k := by
  have hrefused : (srv.exec env (.set key value options)).1.db = srv.db.kvNextVersion.1 := by
    simp [exec, KvTable.kvSet_of_cannotStore hgrow]
  rw [hrefused]
  exact KvTable.kvGetObject_congr (KvTable.entries_kvNextVersion srv.db) k

section Expiries

variable [LinearOrder S] (w : World S) (ps : PubsubMgr) {srv : Server S} {key arg : CStr}
  {c : Command} {unit : Int} {o : DbObject S}

/-- The `ttl` the four commands leave behind. -/
theorem ttl_execCommand (h : srv.db.Wf) (hc : SetsTtl key arg c unit)
    (hget : srv.db.kvGetObject key = some o) :
    ∃ o', (execCommand w ps srv c).1.db.kvGetObject key = some o' ∧
      o'.ttl = if Refused w.calloc srv.db c then o.ttl
        else wrap64 (w.now 0 + argI arg * unit) := by
  cases hc with
  | expire =>
    rw [if_neg (fun hr : Refused w.calloc srv.db (.expire key arg) => hr)]
    refine ⟨_, kvGetObject_kvSetTtl h hget _, ?_⟩
    exact wrap64_add_wrap64 _ _
  | setex value =>
    by_cases hgrow : srv.db.CannotStore w.calloc
    · refine ⟨o, ?_, (if_pos hgrow).symm⟩
      have hsetex : (execCommand w ps srv (.string (.setex key arg value))).1.db
          = srv.db.kvNextVersion.1 := by
        simp [execCommand, exec, KvTable.kvSetex, KvTable.kvSet_of_cannotStore hgrow]
      rw [hsetex, KvTable.kvGetObject_congr (KvTable.entries_kvNextVersion srv.db)]
      exact hget
    · obtain ⟨hret, o', hget', httl⟩ := kvGetObject_kvSet_kvSetTtl h hgrow key value w.usec
        (wrap64 (w.now 0 + wrap64 (argI arg * 1000)))
      refine ⟨o', ?_, ?_⟩
      · simpa [execCommand, exec, KvTable.kvSetex, hret] using hget'
      · rw [httl, wrap64_add_wrap64]
        exact (if_neg hgrow).symm
  | ex value opt hopt =>
    by_cases hgrow : srv.db.CannotStore w.calloc
    · exact ⟨o, (kvGetObject_exec_set_refused hgrow key value [opt, arg] key).trans hget,
        (if_pos hgrow).symm⟩
    · obtain ⟨hret, o', hget', httl⟩ := kvGetObject_kvSet_kvSetTtl h hgrow key value w.usec
        (wrap64 (w.now 0 + argI arg * 1000))
      refine ⟨o', ?_, httl.trans (if_neg hgrow).symm⟩
      simpa [execCommand, exec, hret, db_replicateSet, setOptions, hopt] using hget'
  | px value opt hopt =>
    by_cases hgrow : srv.db.CannotStore w.calloc
    · exact ⟨o, (kvGetObject_exec_set_refused hgrow key value [opt, arg] key).trans hget,
        (if_pos hgrow).symm⟩
    · obtain ⟨hret, o', hget', httl⟩ := kvGetObject_kvSet_kvSetTtl h hgrow key value w.usec
        (wrap64 (w.now 0 + argI arg))
      have hex : strcasecmpEq opt (.lit "EX") = false := by
        rw [strcasecmpEq, beq_iff_eq] at hopt
        rw [strcasecmpEq, hopt]
        decide
      refine ⟨o', ?_, ?_⟩
      · simpa [execCommand, exec, hret, db_replicateSet, setOptions, hopt, hex] using hget'
      · rw [httl, mul_one]
        exact (if_neg hgrow).symm

/-- **When an expiry is what the command asked for**: exactly when the sum
of the time now and the argument is a nonnegative 64-bit number; and where
the value could not be written, when the old expiry happens to be right. -/
theorem ttlSet_iff (path : Option CStr) (file : Option (List UInt8)) (ops : List (StoreOp S))
    (hsrv : srv.db = storeRun path file ops) (hc : SetsTtl key arg c unit)
    (hget : srv.db.kvGetObject key = some o) (hnow : 0 ≤ w.now 0) (hsane : w.now 0 ≤ 2 ^ 62) :
    (∃ o', (execCommand w ps srv c).1.db.kvGetObject key = some o' ∧
        TtlSet unit (w.now 0) (argI arg) o'.ttl) ↔
      if Refused w.calloc srv.db c then TtlSet unit (w.now 0) (argI arg) o.ttl
      else 0 ≤ w.now 0 + argI arg * unit ∧ w.now 0 + argI arg * unit < 2 ^ 63 := by
  have hwf : srv.db.Wf := hsrv ▸ KvTable.Wf.storeRun path file ops
  have hunit : unit = 1000 ∨ unit = 1 := by
    cases hc <;> simp
  obtain ⟨o', hget', httl⟩ := ttl_execCommand w ps hwf hc hget
  simp only [hget', Option.some.injEq, exists_eq_left', httl]
  split
  · exact Iff.rfl
  · exact ttlSet_wrap64_iff hunit hnow hsane

/-- A server that holds the key `a`, with an expiry at 5. -/
def dueServer : Server Int := { fullServer with db := storeRun none none KvTable.dueSoon }

/-- The object of `a`. -/
def dueObject : DbObject Int := { DbObject.objCreateString (.lit "1") 0 with version := 1, ttl := 5 }

theorem kvGetObject_dueServer : dueServer.db.kvGetObject (.lit "a") = some dueObject := by
  decide

theorem ttlSet_ten :
    ∃ o', (execCommand atSix .pubsubCreate dueServer (.expire (.lit "a") (.lit "10"))).1.db.kvGetObject
        (.lit "a") = some o' ∧ TtlSet 1000 6 (argI (.lit "10")) o'.ttl := by
  refine (ttlSet_iff atSix .pubsubCreate none none KvTable.dueSoon rfl .expire
    kvGetObject_dueServer (by decide) (by decide)).mpr ?_
  rw [if_neg (by decide)]
  decide

/-- EXPIRE a -1 takes the expiry away. -/
theorem expire_minus_one :
    ¬ ∀ (w : World Int) (ps : PubsubMgr) (srv : Server Int) (path : Option CStr)
      (file : Option (List UInt8)) (ops : List (StoreOp Int)) (key arg : CStr) (c : Command)
      (unit : Int) (o : DbObject Int), srv.db = storeRun path file ops → SetsTtl key arg c unit →
      srv.db.kvGetObject key = some o → 0 ≤ w.now 0 → w.now 0 ≤ 2 ^ 62 →
      ∃ o', (execCommand w ps srv c).1.db.kvGetObject key = some o' ∧
        TtlSet unit (w.now 0) (argI arg) o'.ttl := by
  intro h
  obtain ⟨o', hget, hset⟩ := h atSix .pubsubCreate dueServer none none KvTable.dueSoon (.lit "a")
    (.lit "-1") (.expire (.lit "a") (.lit "-1")) 1000 dueObject rfl .expire kvGetObject_dueServer
    (by decide) (by decide)
  have hafter : (execCommand atSix .pubsubCreate dueServer
      (.expire (.lit "a") (.lit "-1"))).1.db.kvGetObject (.lit "a")
      = some { dueObject with ttl := -994 } := by
    decide
  rw [hafter] at hget
  cases hget
  exact absurd hset.hasExpiry (by decide)

end Expiries

end Server

end AntzKV

/-
AntzKV.Server.ReplicationTheorems — what the messages of one writer carry
to its peer.

Of the string writes only SET hands a message to the replication queue.
`Replicates` says when that is enough: a SET whose message survives the
bus, or a command that leaves the content of the writer's table as it is.
Along a run of such commands the peer's table equals the writer's up to
metadata (`Mirrors`), slot by slot, so that collisions and resizes happen
on both sides alike; `get_eq_of_replicates` reads GET off that.
-/
import AntzKV.Server.StringCommands
import AntzKV.Cluster.BusTheorems
import AntzKV.Core.ContentTheorems

namespace AntzKV

open Scanf (decimal decimalInt)
open LineFraming (IsLine encode)

variable {S : Type}

namespace Server

/-! ## The condition -/

/-- The bytes of the message of a SET, newline included, fit into `rx`
with its NUL. -/
def MessageFits (env : Env) (srv : Server S) (k v : CStr) : Prop :=
  srv.myId.text.strlen + (decimal (srv.db.dbVersion + 1).toNat).length
    + (decimal env.usec.toNat).length + k.strlen + v.strlen + 10 ≤ busBufSize

/-- Adding `delta` to the key writes back the text that is there, or fails
because the key is no string. -/
def AddKeeps (db : KvTable S) (k : CStr) (delta : Int) : Prop :=
  ∃ o ∈ db.kvGetObject k, ∀ s ∈ o.string?, CStr.ofBuf (decimalInt (wrap64 (argI s + delta))) = s

/-- The peer learns what the command does to the content of the table. -/
def Replicates (env : Env) (srv : Server S) : StringCommand → Prop
  | .set k v _ =>
    srv.db.CannotStore env.calloc ∨
      (IsWord srv.myId.text ∧ IsWord k ∧ IsWord v ∧ MessageFits env srv k v)
  | .setnx k _ => srv.db.kvExists k = true ∨ srv.db.CannotStore env.calloc
  | .setex k _ v =>
    srv.db.CannotStore env.calloc ∨ (srv.db.overloaded = false ∧ srv.db.kvGet k = some v)
  | .append k _ => srv.db.CannotStore env.calloc ∧ srv.db.kvGet k = none
  | .incr k => AddKeeps srv.db k 1
  | .decr k => AddKeeps srv.db k (wrap64 (-1))
  | .incrby k d => AddKeeps srv.db k (argI d)
  | .decrby k d => AddKeeps srv.db k (wrap64 (-argI d))
  | .del ks => ∀ k ∈ ks, srv.db.kvExists k = false

instance (env : Env) (srv : Server S) (k v : CStr) : Decidable (srv.MessageFits env k v) :=
  inferInstanceAs (Decidable (_ ≤ _))

instance (db : KvTable S) (k : CStr) (delta : Int) : Decidable (AddKeeps db k delta) :=
  inferInstanceAs (Decidable (∃ o ∈ db.kvGetObject k, ∀ s ∈ o.string?, _))

instance (env : Env) (srv : Server S) : ∀ cmd, Decidable (srv.Replicates env cmd)
  | .set .. => inferInstanceAs (Decidable (_ ∨ _))
  | .setnx .. => inferInstanceAs (Decidable (_ ∨ _))
  | .setex .. => inferInstanceAs (Decidable (_ ∨ _))
  | .append .. => inferInstanceAs (Decidable (_ ∧ _))
  | .incr _ => inferInstanceAs (Decidable (AddKeeps ..))
  | .decr _ => inferInstanceAs (Decidable (AddKeeps ..))
  | .incrby .. => inferInstanceAs (Decidable (AddKeeps ..))
  | .decrby .. => inferInstanceAs (Decidable (AddKeeps ..))
  | .del ks => inferInstanceAs (Decidable (∀ k ∈ ks, _))

/-! ## Commands keep the table well formed -/

/-- What `kv_set_ttl` preserves the option loop preserves. -/
theorem setOptions_invariant {P : KvTable S → Prop} (key : CStr)
    (hstep : ∀ db ttl, P db → P (db.kvSetTtl key ttl).1) (now : Nat → Int) (i : Nat)
    (options : List CStr) (db : KvTable S) (h : P db) : P (setOptions now key i options db) := by
  fun_induction setOptions now key i options db with
  | case1 i opt arg options db _ ih => exact ih (hstep _ _ h)
  | case2 i opt arg options db _ _ ih => exact ih (hstep _ _ h)
  | case3 => exact h
  | case4 => exact h

theorem wf_kvSet {db : KvTable S} (h : db.Wf) (calloc : Calloc) (k v : CStr) (usec : UInt64) :
    (db.kvSet calloc k v usec).1.Wf := h.kvNextVersion.kvSetObject calloc k _ _

theorem wf_delAll {db : KvTable S} (h : db.Wf) (ks : List CStr) : (delAll db ks).1.Wf := by
  have hrun : ∀ (ks : List CStr) (r : KvTable S × Nat), r.1.Wf →
      (ks.foldl (fun (r : KvTable S × Nat) k =>
        ((r.1.kvDel k).1, if (r.1.kvDel k).2 = 0 then r.2 + 1 else r.2)) r).1.Wf := fun ks r hr =>
    Run.invariant (P := fun r : KvTable S × Nat => r.1.Wf) (fun r k hr => hr.kvDel k) ks r hr
  exact hrun ks (db, 0) h

theorem wf_answer {srv : Server S} {r : KvTable S × Outcome Int} (h : r.1.Wf) (err : CStr) :
    (srv.answer r err).1.db.Wf := by
  unfold answer
  split <;> exact h

/-- The message of a SET is read off the table, which stays as it is. -/
theorem db_replicateSet (srv : Server S) (key value : CStr) :
    (srv.replicateSet key value).db = srv.db := by
  rw [replicateSet]
  split <;> rfl

theorem wf_exec (env : Env) {srv : Server S} (h : srv.db.Wf) (cmd : StringCommand) :
    (srv.exec env cmd).1.db.Wf := by
  cases cmd with
  | set k v options =>
    have hset := wf_kvSet h env.calloc k v env.usec
    simp only [exec]
    split
    · have hopt := setOptions_invariant (P := KvTable.Wf) k
        (fun db ttl h => h.kvSetTtl k ttl) env.now 0 options _ hset
      rw [db_replicateSet]
      exact hopt
    · exact hset
  | setnx k v =>
    simp only [exec, KvTable.kvSetnx]
    split
    · exact h
    · exact wf_kvSet h env.calloc k v env.usec
  | setex k t v =>
    have hset := wf_kvSet h env.calloc k v env.usec
    simp only [exec, KvTable.kvSetex]
    split
    · exact hset
    · exact hset.kvSetTtl k _
  | append k v =>
    refine wf_answer ?_ _
    have := h.kvAppend env.calloc k v env.usec
    unfold appendLen
    split <;> simp_all
  | incr k => exact wf_answer (h.kvIncrby env.calloc k 1 env.usec) _
  | decr k => exact wf_answer (h.kvIncrby env.calloc k (wrap64 (-1)) env.usec) _
  | incrby k d => exact wf_answer (h.kvIncrby env.calloc k (argI d) env.usec) _
  | decrby k d => exact wf_answer (h.kvIncrby env.calloc k (wrap64 (-argI d)) env.usec) _
  | del ks => exact wf_delAll h ks

/-! ## Commands that write nothing new -/

/-- The content of the table is as before, and so is the queue. -/
structure Quiet (srv srv' : Server S) : Prop where
  content : srv'.db.bare = srv.db.bare
  enqueued : srv'.enqueued = srv.enqueued
  crashed : srv'.crashed = srv.crashed

/-- SET over the same string, where no resize comes before it. -/
theorem bare_kvSet_of_same {calloc : Calloc} {db : KvTable S} {k v : CStr}
    (hobj : calloc.object = true) (hload : db.overloaded = false) (hget : db.kvGet k = some v)
    (usec : UInt64) : (db.kvSet calloc k v usec).1.bare = db.bare := by
  obtain ⟨o, ho, hs⟩ := Option.bind_eq_some_iff.mp hget
  have hgrow : db.bare.grow calloc.entries = some db.bare := by
    simp [KvTable.grow, hload]
  calc (db.kvSet calloc k v usec).1.bare
      = (db.bare.kvSetObject calloc k (.objCreate (.string v)) none).1 :=
        congrArg Prod.fst (KvTable.bare_kvSet calloc db k v usec)
    _ = db.bare.store k (.objCreate (.string v)) := by
        simp [KvTable.kvSetObject, hobj, hgrow, DbObject.stamp]
    _ = (db.store k (.objCreate (.string v))).bare := (KvTable.bare_store db k (.objCreate _)).symm
    _ = db.bare := KvTable.bare_store_of_same ho (DbObject.bare_of_string? hs).symm

theorem incrAt_of_addKeeps {db : KvTable S} {k : CStr} {delta : Int} (h : AddKeeps db k delta) :
    (db.incrAt (db.probe k).1 delta).1.bare = db.bare ∧
      (db.incrAt (db.probe k).1 delta).2 ≠ .segv := by
  obtain ⟨o, ho, hs⟩ := h
  rw [KvTable.incrAt_found ho]
  cases hstr : o.string? with
  | none => simp
  | some s =>
    have hkeep : CStr.ofBuf (decimalInt (wrap64 (argI s + delta))) = s := hs s hstr
    refine ⟨?_, by simp⟩
    show (db.putData k (.string (CStr.ofBuf (decimalInt (wrap64 (argI s + delta)))))).bare = db.bare
    have hp : (db.probe k).2 = true := KvTable.probe_found_iff.mpr ⟨o, ho⟩
    obtain ⟨o', hentry, hget⟩ := KvTable.kvGetObject_of_found hp
    obtain rfl : o' = o := Option.some.inj (hget.symm.trans ho)
    simp only [hkeep, KvTable.putData, KvTable.modifyObj, hp, if_true]
    refine KvTable.bare_modifyAt ?_
    intro k' o'' hentry'
    obtain ⟨-, rfl⟩ := OpenAddressing.Slot.occupied.inj (hentry.symm.trans hentry')
    rw [DbObject.bare_of_string? hstr]
    rfl

theorem quiet_incrby {srv : Server S} {k : CStr} {delta : Int} (h : AddKeeps srv.db k delta)
    (calloc : Calloc) (usec : UInt64) (err : CStr) :
    Quiet srv (srv.answer (srv.db.kvIncrby calloc k delta usec) err).1 := by
  obtain ⟨o, ho, -⟩ := id h
  obtain ⟨hbare, hsegv⟩ := incrAt_of_addKeeps h
  rw [KvTable.kvIncrby_found ho]
  revert hbare hsegv
  cases srv.db.incrAt (srv.db.probe k).1 delta with
  | mk db out =>
    intro hbare hsegv
    cases out with
    | ok n => exact ⟨hbare, rfl, rfl⟩
    | err => exact ⟨hbare, rfl, rfl⟩
    | segv => exact absurd rfl hsegv

theorem delAll_of_absent {db : KvTable S} {ks : List CStr}
    (h : ∀ k ∈ ks, db.kvExists k = false) : delAll db ks = (db, 0) := by
  unfold delAll
  induction ks with
  | nil => rfl
  | cons k ks ih =>
    have hdel : db.kvDel k = (db, -1) := by
      have := h k (by simp)
      simp only [KvTable.kvExists] at this
      simp [KvTable.kvDel, this]
    rw [List.foldl_cons]
    simp only [hdel]
    exact ih fun k hk => h k (by simp [hk])

/-! ## SET -/

theorem kvGetMeta_kvSetTtl {db : KvTable S} (h : db.Wf) (k : CStr) (ttl : Int) :
    (db.kvSetTtl k ttl).1.kvGetMeta k = db.kvGetMeta k := by
  unfold KvTable.kvSetTtl
  split
  · rw [KvTable.kvGetMeta, KvTable.kvGetObject_modifyObj h, if_pos rfl, KvTable.kvGetMeta]
    cases db.kvGetObject k <;> rfl
  · rfl

/-- A SET that returns 0 has stored its value, with the version it
counted. -/
theorem kvGetMeta_kvSet {db : KvTable S} (h : db.Wf) {calloc : Calloc} {k v : CStr} {usec : UInt64}
    (hret : (db.kvSet calloc k v usec).2 = 0) :
    (db.kvSet calloc k v usec).1.kvGetMeta k = some (v, ⟨db.dbVersion + 1, usec, .blank⟩) := by
  have hself : (db.kvSet calloc k v usec).1.kvGetObject k = some _ :=
    KvTable.kvGetObject_kvSetObject_self h.kvNextVersion hret
  rw [KvTable.kvGetMeta, hself]
  rfl

/-- The table after the option loop. -/
theorem setOptions_spec {db : KvTable S} (h : db.Wf) (now : Nat → Int) (k : CStr)
    (options : List CStr) :
    (setOptions now k 0 options db).bare = db.bare ∧
      (setOptions now k 0 options db).kvGetMeta k = db.kvGetMeta k := by
  have hrun := setOptions_invariant k
    (P := fun t : KvTable S => t.Wf ∧ t.bare = db.bare ∧ t.kvGetMeta k = db.kvGetMeta k)
    (fun t ttl ⟨hwf, hbare, hget⟩ => ⟨hwf.kvSetTtl k ttl,
      (KvTable.bare_kvSetTtl t k ttl).trans hbare, (kvGetMeta_kvSetTtl hwf k ttl).trans hget⟩)
    now 0 options db ⟨h, rfl, rfl⟩
  exact hrun.2

/-- The metadata of the message of a SET. -/
def setMeta (env : Env) (srv : Server S) : KvMeta := ⟨srv.db.dbVersion + 1, env.usec, srv.myId⟩

/-- A SET that succeeds: its effect on the content, and its message. -/
theorem exec_set_of_canStore {env : Env} {srv : Server S} (h : srv.db.Wf) {k v : CStr}
    (hgrow : ¬ srv.db.CannotStore env.calloc) (options : List CStr) :
    let srv' := (srv.exec env (.set k v options)).1
    srv'.db.bare = (srv.db.bare.kvSetObject true k (.objCreate (.string v)) none).1 ∧
      srv'.enqueued = srv.enqueued ++ [clusterReplicateSet k v (setMeta env srv)] ∧
      srv'.crashed = srv.crashed := by
  have hret : (srv.db.kvSet env.calloc k v env.usec).2 = 0 :=
    KvTable.kvSet_of_canStore hgrow k v env.usec
  have hset := KvTable.bare_kvSet env.calloc srv.db k v env.usec
  have hret' : (srv.db.bare.kvSetObject env.calloc k (.objCreate (.string v)) none).2 = 0 := by
    rw [← hset]
    exact hret
  obtain ⟨hbare, hget⟩ := setOptions_spec (wf_kvSet h env.calloc k v env.usec) env.now k options
  rw [kvGetMeta_kvSet h hret] at hget
  have hexec : (srv.exec env (.set k v options)).1
      = replicateSet { srv with
          db := setOptions env.now k 0 options (srv.db.kvSet env.calloc k v env.usec).1 } k v := by
    simp [exec, hret]
  rw [hexec]
  simp only [replicateSet, hget]
  refine ⟨?_, rfl, trivial⟩
  rw [hbare, KvTable.kvSetObject_calloc hret', ← hset]
  rfl

/-- What a command with `Replicates` does: nothing to content and queue,
or the write its message describes. -/
theorem exec_cases {env : Env} {srv : Server S} (h : srv.db.Wf) {cmd : StringCommand}
    (hcmd : srv.Replicates env cmd) :
    Quiet srv (srv.exec env cmd).1 ∨
    ∃ k v, IsWord srv.myId.text ∧ IsWord k ∧ IsWord v ∧ srv.MessageFits env k v ∧
      (srv.exec env cmd).1.db.bare
        = (srv.db.bare.kvSetObject true k (.objCreate (.string v)) none).1 ∧
      (srv.exec env cmd).1.enqueued
        = srv.enqueued ++ [clusterReplicateSet k v (setMeta env srv)] ∧
      (srv.exec env cmd).1.crashed = srv.crashed := by
  cases cmd with
  | set k v options =>
    by_cases hgrow : srv.db.CannotStore env.calloc
    · left
      simp only [exec, KvTable.kvSet_of_cannotStore hgrow]
      exact ⟨rfl, rfl, rfl⟩
    · obtain ⟨hid, hk, hv, hfits⟩ := hcmd.resolve_left hgrow
      exact Or.inr ⟨k, v, hid, hk, hv, hfits, exec_set_of_canStore h hgrow options⟩
  | setnx k v =>
    left
    simp only [exec, KvTable.kvSetnx]
    rcases hcmd with hex | hgrow
    · rw [if_pos hex]
      exact ⟨rfl, rfl, rfl⟩
    · split
      · exact ⟨rfl, rfl, rfl⟩
      · rw [KvTable.kvSet_of_cannotStore hgrow]
        exact ⟨rfl, rfl, rfl⟩
  | setex k t v =>
    left
    simp only [exec, KvTable.kvSetex]
    by_cases hgrow : srv.db.CannotStore env.calloc
    · rw [KvTable.kvSet_of_cannotStore hgrow]
      exact ⟨rfl, rfl, rfl⟩
    · obtain ⟨hload, hget⟩ := hcmd.resolve_left hgrow
      have hbare := bare_kvSet_of_same (KvTable.object_of_canStore hgrow) hload hget env.usec
      split
      · exact ⟨hbare, rfl, rfl⟩
      · exact ⟨(KvTable.bare_kvSetTtl _ k _).trans hbare, rfl, rfl⟩
  | append k v =>
    left
    obtain ⟨hgrow, hget⟩ := hcmd
    have hwr : srv.db.wrObj DbObject.string? k = none := hget
    have hcall : srv.db.kvAppend env.calloc k v env.usec = (srv.db, .err) := by
      simp [KvTable.kvAppend, KvTable.createUnless, hwr,
        KvTable.kvSetObject_of_cannotStore hgrow]
    simp only [exec, hcall]
    exact ⟨rfl, rfl, rfl⟩
  | incr k => exact Or.inl (quiet_incrby hcmd env.calloc env.usec _)
  | decr k => exact Or.inl (quiet_incrby hcmd env.calloc env.usec _)
  | incrby k d => exact Or.inl (quiet_incrby hcmd env.calloc env.usec _)
  | decrby k d => exact Or.inl (quiet_incrby hcmd env.calloc env.usec _)
  | del ks =>
    left
    simp only [exec, delAll_of_absent hcmd]
    exact ⟨rfl, rfl, rfl⟩

/-! ## Runs -/

/-- A run takes requests, each with what it reads of the world. -/
def step (srv : Server S) (req : Env × CStr) : Server S := (srv.processCommand req.1 req.2).1

/-- The request is a string write or a DEL that the peer learns of. -/
def StepReplicates (srv : Server S) (req : Env × CStr) : Prop :=
  ∃ cmd ∈ route (parseLine req.2 maxArgs), srv.Replicates req.1 cmd

instance (srv : Server S) (req : Env × CStr) : Decidable (srv.StepReplicates req) :=
  inferInstanceAs (Decidable (∃ cmd ∈ route (parseLine req.2 maxArgs), srv.Replicates req.1 cmd))

/-- The peer that received what was enqueued has the writer's content.
`db₀` is the table both began with. -/
structure Mirrors (db₀ : KvTable S) (srv : Server S) : Prop where
  alive : srv.crashed = false
  wf : srv.db.Wf
  received : ∃ ls : List (List UInt8), srv.enqueued = ls.map (· ++ [10]) ∧
    (∀ l ∈ ls, IsLine l ∧ l.length + 2 ≤ busBufSize) ∧
    (ls.foldl handleLine ⟨db₀, false⟩).crashed = false ∧
    (ls.foldl handleLine ⟨db₀, false⟩).db.bare = srv.db.bare

theorem length_setText_of_fits {env : Env} {srv : Server S} {k v : CStr}
    (h : srv.MessageFits env k v) : (setText (setMeta env srv) k v).length + 2 ≤ busBufSize := by
  rw [length_setText]
  exact h

theorem clusterReplicateSet_eq {m : KvMeta} {k v : CStr}
    (h : (setText m k v).length + 2 ≤ busBufSize) :
    clusterReplicateSet k v m = setText m k v ++ [10] := by
  have hmsg : clusterMsgSize = 8192 := rfl
  have hbuf : busBufSize = 4096 := rfl
  simp only [clusterReplicateSet, clusterBuildMsg, snprintf, Option.getD_some]
  refine List.take_of_length_le ?_
  rw [List.length_append, List.length_singleton]
  omega

theorem Mirrors.step {db₀ : KvTable S} {srv : Server S} {req : Env × CStr}
    (hreq : srv.StepReplicates req) (h : Mirrors db₀ srv) : Mirrors db₀ (srv.step req) := by
  obtain ⟨cmd, hroute, hcmd⟩ := hreq
  obtain ⟨halive, hwf, ls, hls, hfit, hpeer, hbare⟩ := h
  have hstep : srv.step req = (srv.exec req.1 cmd).1 := by
    simp [Server.step, processCommand, halive, Option.mem_def.mp hroute]
  have hwf' := wf_exec req.1 hwf cmd
  rw [hstep]
  rcases exec_cases hwf hcmd with hquiet | ⟨k, v, hid, hk, hv, hmsg, hdb, hq, hcr⟩
  · exact ⟨hquiet.crashed.trans halive, hwf', ls, hquiet.enqueued.trans hls, hfit, hpeer,
      hbare.trans hquiet.content.symm⟩
  · have hlen := length_setText_of_fits hmsg
    have hlast := handleLine_setText (m := setMeta req.1 srv) hid hk hv hlen hpeer
    refine ⟨hcr.trans halive, hwf', ls ++ [setText (setMeta req.1 srv) k v], ?_, ?_, ?_, ?_⟩
    · rw [hq, hls, clusterReplicateSet_eq hlen, List.map_append, List.map_singleton]
    · intro l hl
      rcases List.mem_append.mp hl with hl | hl
      · exact hfit l hl
      · rw [List.mem_singleton.mp hl]
        exact ⟨isLine_setText (m := setMeta req.1 srv) hid hk hv, hlen⟩
    · rw [List.foldl_append, List.foldl_cons, List.foldl_nil, hlast]
      exact hpeer
    · rw [List.foldl_append, List.foldl_cons, List.foldl_nil, hlast, hdb, ← hbare]
      exact congrArg Prod.fst (KvTable.bare_kvSetMeta true _ k v _)

/-- A node with the given table and identity that has sent nothing. -/
def start (db : KvTable S) (myId : NodeOrigin) : Server S := ⟨db, myId, [], false⟩

/-- The peer, which begins with the writer's table, keeps the connection
and answers GET like the writer once it has read all messages; `reads`
says how the stream of messages arrives. -/
def GetsAgree (db : KvTable S) (myId : NodeOrigin) (reqs : List (Env × CStr))
    (reads : List Nat) : Prop :=
  let srv := reqs.foldl step (start db myId)
  let peer := reads.foldl handleClient ⟨⟨db, false⟩, [], srv.enqueued.flatten, false⟩
  srv.crashed = false ∧ peer.closed = false ∧
    (peer.sock = [] → peer.state.crashed = false ∧
      ∀ k, peer.state.db.kvGet k = srv.db.kvGet k)

/-- **Single-writer replication.** From every reachable table, a run of
string writes each of which `Replicates` is mirrored by the peer, at its
end and after each request. -/
theorem get_eq_of_replicates [LinearOrder S] (path : Option CStr) (file : Option (List UInt8))
    (ops : List (StoreOp S)) (myId : NodeOrigin) (reqs : List (Env × CStr))
    (hreqs : Run.Guarded step StepReplicates (start (KvTable.storeRun path file ops) myId) reqs)
    (n : Nat) (reads : List Nat) :
    GetsAgree (KvTable.storeRun path file ops) myId (reqs.take n) reads := by
  have hstart : Mirrors (KvTable.storeRun path file ops)
      (start (KvTable.storeRun path file ops) myId) :=
    ⟨rfl, KvTable.Wf.storeRun path file ops, [], rfl, by simp, rfl, rfl⟩
  obtain ⟨halive, hwf, ls, hls, hfit, hpeer, hbare⟩ :=
    Run.Guarded.invariant (P := Mirrors (KvTable.storeRun path file ops))
      (fun _ _ hreq h => h.step hreq) (reqs.take n) _ (hreqs.take n) hstart
  have hstream : (ls.map (· ++ [10])).flatten = encode ls := by
    rw [encode, List.flatMap_def]
  obtain ⟨hopen, hall⟩ := LineFraming.deliver_lines handleLine
    ⟨KvTable.storeRun path file ops, false⟩ (by decide : 1 < busBufSize)
    (fun l hl => (hfit l hl).1) (fun l hl => (hfit l hl).2) reads
  refine ⟨halive, ?_⟩
  rw [hls, hstream]
  refine ⟨hopen, fun hsock => ?_⟩
  have hstate := hall hsock
  constructor
  · exact (congrArg BusNode.crashed hstate).trans hpeer
  · intro k
    have hpeerGet := congrArg (fun n : BusNode S => n.db.kvGet k) hstate
    have hcontent := congrArg (fun t : KvTable S => t.kvGet k) hbare
    simp only [KvTable.kvGet_bare] at hcontent
    exact hpeerGet.trans hcontent

/-- A clock and memory for the examples. -/
def env₀ : Env := ⟨true, 7, fun _ => 0⟩

/-- A SET, a SETNX of the same key and a DEL of another, the message
received in two parts. -/
theorem get_eq_of_replicates_set :
    GetsAgree (KvTable.storeRun none none [] : KvTable Int) (.ofCStr (.lit "n1"))
      [(env₀, .lit "SET a 1 PX 100"), (env₀, .lit "SETNX a 2"), (env₀, .lit "del b")] [5, 20] :=
  get_eq_of_replicates none none [] _
    [(env₀, .lit "SET a 1 PX 100"), (env₀, .lit "SETNX a 2"), (env₀, .lit "del b")]
    (by decide +kernel) 3 [5, 20]

/-- No message tells the peer of a DEL. -/
theorem set_del_not_getsAgree :
    ¬ GetsAgree (KvTable.storeRun none none [] : KvTable Int) (.ofCStr (.lit "n1"))
      [(env₀, .lit "SET a 1"), (env₀, .lit "DEL a")] [20] := by
  rintro ⟨-, -, hall⟩
  have hget := (hall (by decide)).2 (.lit "a")
  revert hget
  decide

end Server

end AntzKV

/-
AntzKV.Server.CommandSpecTheorems — the server keeps to the meaning of
its commands.

A branch is one call of `kvdb.c` or a loop of calls, and each call is a
step of the database. So a line that finds room and memory is answered
with what the database would answer and leaves a table that implements
the database after it (`Implements.execCommand`), and so does a run of
requests, whichever lines, writes of peers and rounds of the expiry
thread it is made of (`Server.serves_refine`).
-/
import AntzKV.Server.CallsTheorems
import AntzKV.Server.CommandSpec

namespace AntzKV

variable {S : Type}

open Database (Expired appended)

/-! ## The database under loops -/

namespace Database

variable (d : Database S) (key : CStr)

theorem put_setTtl (v : Value S) (ttl ttl' : Int) :
    (d.put key ⟨v, ttl⟩).setTtl key ttl' = d.put key ⟨v, ttl'⟩ := by
  simp [put, setTtl]

theorem read_write {γ : Type} {sel : Value S → Option γ} {v : Value S} {c : γ} (hv : sel v = some c) :
    (d.write key v).read sel key = some c := by
  simp [read, write, put, hv]

theorem elements_lpush (v : CStr) : (d.lpush key v).elements key = v :: d.elements key := by
  have hread : (d.lpush key v).read Value.list? key = some (v :: d.elements key) :=
    read_write d key rfl
  rw [elements, hread, Option.getD_some]

theorem elements_rpush (v : CStr) : (d.rpush key v).elements key = d.elements key ++ [v] := by
  have hread : (d.rpush key v).read Value.list? key = some (d.elements key ++ [v]) :=
    read_write d key rfl
  rw [elements, hread, Option.getD_some]

@[simp] theorem mem_present {k : CStr} {ks : List CStr} :
    k ∈ d.present ks ↔ k ∈ ks ∧ (d k).isSome = true :=
  Finset.mem_filter.trans (and_congr_left' List.mem_toFinset)

theorem del_isSome (k : CStr) : (d.del key k).isSome = true ↔ k ≠ key ∧ (d k).isSome = true := by
  by_cases hk : k = key
  · simp [del, hk]
  · simp [del, hk]

/-- A key that is deleted is present no more. -/
theorem present_del (ks : List CStr) : (d.del key).present ks = (d.present ks).erase key := by
  ext k
  rw [Finset.mem_erase, mem_present, mem_present, del_isSome]
  exact and_left_comm

/-- Deleting one key after the other counts the keys that are present. -/
theorem card_present_cons (k : CStr) (ks : List CStr) : (d.present (k :: ks)).card
    = (if (d k).isSome then 1 else 0) + ((d.del k).present ks).card := by
  rw [present_del]
  cases hk : (d k).isSome with
  | true =>
    have hcons : d.present (k :: ks) = insert k ((d.present ks).erase k) := by
      ext x
      by_cases hx : x = k <;> simp [hx, hk]
    rw [hcons, Finset.card_insert_of_notMem (Finset.notMem_erase k _), if_pos rfl, Nat.add_comm]
  | false =>
    have hcons : d.present (k :: ks) = (d.present ks).erase k := by
      ext x
      by_cases hx : x = k <;> simp [hx, hk]
    rw [hcons, if_neg Bool.false_ne_true, Nat.zero_add]

end Database

/-- A round of the loop of DEL. -/
def Server.delStep (acc : KvTable S × Nat) (k : CStr) : KvTable S × Nat :=
  ((acc.1.kvDel k).1, if (acc.1.kvDel k).2 = 0 then acc.2 + 1 else acc.2)

/-- A round of the loop of ZREM. -/
def zremStep (key : CStr) (acc : KvTable S × Int) (m : CStr) : KvTable S × Int :=
  ((acc.1.kvZrem key m).1, if (acc.1.kvZrem key m).2 then 1 else 0)

variable [LinearOrder S]

namespace KvTable.Implements

variable {db : KvTable S} {d : Database S} {key : CStr}

/-! ## The loops -/

theorem setOptions (now : Nat → Int) (key : CStr) : ∀ (options : List CStr) (i : Nat)
    {db : KvTable S} {d : Database S}, db.Implements d →
      (Server.setOptions now key i options db).Implements
        ((optionDeadlines now i options).foldl (fun d ttl => d.setTtl key ttl) d)
  | [], _, _, _, h => h
  | [_], _, _, _, h => h
  | opt :: arg :: options, i, db, d, h => by
    rw [Server.setOptions, optionDeadlines]
    split
    · exact setOptions now key options (i + 1) (h.kvSetTtl key _).2
    · split
      · exact setOptions now key options (i + 1) (h.kvSetTtl key _).2
      · exact h

theorem delLoop : ∀ (ks : List CStr) (n : Nat) {db : KvTable S} {d : Database S},
    db.Implements d → (ks.foldl Server.delStep (db, n)).2 = n + (d.present ks).card ∧
      (ks.foldl Server.delStep (db, n)).1.Implements (ks.foldl Database.del d)
  | [], n, db, d, h => ⟨by simp [Database.present], h⟩
  | k :: ks, n, db, d, h => by
    obtain ⟨hret, hdel⟩ := h.kvDel k
    obtain ⟨hcount, himpl⟩ := delLoop ks (if (db.kvDel k).2 = 0 then n + 1 else n) hdel
    refine ⟨hcount.trans ?_, himpl⟩
    rw [Database.card_present_cons, hret]
    cases (d k).isSome
    · simp
    · simp only [if_true]
      omega

theorem delAll (h : db.Implements d) (ks : List CStr) :
    (Server.delAll db ks).2 = (d.present ks).card ∧
      (Server.delAll db ks).1.Implements (ks.foldl Database.del d) := by
  obtain ⟨hcount, himpl⟩ := delLoop ks 0 h
  exact ⟨hcount.trans (Nat.zero_add _), himpl⟩

/-- The loop of LPUSH and RPUSH, over what a push is to the database. -/
theorem pushAll (key : CStr) {push : Calloc → KvTable S → CStr → CStr → KvTable S × Outcome Nat}
    (op : Calloc → CStr → StoreOp S) {f : Database S → CStr → Database S}
    (hpush : ∀ {db : KvTable S} {d : Database S} (calloc : Calloc) (v : CStr), db.Implements d →
      (op calloc v).Clear db → (push calloc db key v).2 = .ok ((d.elements key).length + 1) ∧
        (push calloc db key v).1.Implements (f d v))
    (hop : ∀ calloc db v, StoreOp.step db (op calloc v) = (push calloc db key v).1)
    (hlen : ∀ (d : Database S) v, ((f d v).elements key).length = (d.elements key).length + 1)
    (callocs : Nat → Calloc) : ∀ (values : List CStr) (i : Nat) (len : Int) {db : KvTable S}
    {d : Database S}, db.Implements d →
      Run.Guarded StoreOp.step (fun db op => op.Clear db) db
        (values.mapIdx fun j v => op (callocs (i + j)) v) →
      (AntzKV.pushAll push callocs key i values db len).2
          = (if values = [] then len else (d.elements key).length + values.length) ∧
        (AntzKV.pushAll push callocs key i values db len).1.Implements (values.foldl f d)
  | [], _, _, _, _, h, _ => ⟨rfl, h⟩
  | v :: vs, i, len, db, d, h, hg => by
    have hnext : ∀ j, callocs (i + (j + 1)) = callocs (i + 1 + j) := fun j =>
      congrArg callocs (by omega)
    simp only [List.mapIdx_cons, Run.Guarded, Nat.add_zero, hnext, hop] at hg
    obtain ⟨hret, himpl⟩ := hpush (callocs i) v h hg.1
    obtain ⟨hlast, hend⟩ := pushAll key op hpush hop hlen callocs vs (i + 1)
      ((d.elements key).length + 1 : Nat) himpl hg.2
    have hround : AntzKV.pushAll push callocs key i (v :: vs) db len
        = AntzKV.pushAll push callocs key (i + 1) vs (push (callocs i) db key v).1
          ((d.elements key).length + 1 : Nat) := by
      rw [AntzKV.pushAll]
      revert hret
      rcases push (callocs i) db key v with ⟨t, o⟩
      rintro rfl
      rfl
    rw [hround]
    refine ⟨hlast.trans ?_, hend⟩
    rw [hlen, if_neg (List.cons_ne_nil v vs), List.length_cons]
    split
    · rename_i hnil
      simp [hnil]
    · push_cast
      ring

/-- The loop of ZADD. -/
theorem zaddAll (w : World S) (key : CStr) : ∀ (pairs : List (CStr × CStr)) (i : Nat)
    (added : Int) {db : KvTable S} {d : Database S}, db.Implements d →
      Run.Guarded StoreOp.step (fun db op => op.Clear db) db
        (pairs.mapIdx fun j p => StoreOp.zadd (w.callocs (i + j)) key (w.strtod p.1) p.2
          (w.draws (i + j))) →
      (AntzKV.zaddAll w key i pairs db added).2 = some (if pairs = [] then added else 1) ∧
        (AntzKV.zaddAll w key i pairs db added).1.Implements
          (pairs.foldl (fun d p => d.zadd key (w.strtod p.1) p.2) d)
  | [], _, _, _, _, h, _ => ⟨rfl, h⟩
  | p :: pairs, i, added, db, d, h, hg => by
    have hcalloc : ∀ j, w.callocs (i + (j + 1)) = w.callocs (i + 1 + j) := fun j =>
      congrArg w.callocs (by omega)
    have hdraws : ∀ j, w.draws (i + (j + 1)) = w.draws (i + 1 + j) := fun j =>
      congrArg w.draws (by omega)
    simp only [List.mapIdx_cons, Run.Guarded, Nat.add_zero, hcalloc, hdraws] at hg
    obtain ⟨⟨hup, hnot⟩, hg⟩ := hg
    have hnew : p.2 ∉ d.scores key := fun hm =>
      hnot ((h.isMap_zsetElements key).mem_iff.mp hm)
    obtain ⟨hret, himpl⟩ := h.kvZadd hup hnew (w.strtod p.1) (w.draws i)
    obtain ⟨hlast, hend⟩ := zaddAll w key pairs (i + 1) 1 himpl hg
    have hround : AntzKV.zaddAll w key i (p :: pairs) db added
        = AntzKV.zaddAll w key (i + 1) pairs
          (db.kvZadd (w.callocs i) key (w.strtod p.1) p.2 (w.draws i)).1 1 := by
      rw [AntzKV.zaddAll]
      revert hret
      rcases db.kvZadd (w.callocs i) key (w.strtod p.1) p.2 (w.draws i) with ⟨t, o⟩
      rintro rfl
      rfl
    rw [hround]
    refine ⟨hlast.trans ?_, hend⟩
    rw [if_neg (List.cons_ne_nil p pairs), ite_self]

/-- The loop of ZREM, up to its last member and then that one. -/
theorem zremAll (h : db.Implements d) (members : List CStr)
    (hg : Run.Guarded StoreOp.step (fun db op => op.Clear db) db
      (members.map fun m => StoreOp.zrem key m)) :
    (AntzKV.zremAll key members db).2 = d.lastRemoved key members ∧
      (AntzKV.zremAll key members db).1.Implements (members.foldl (fun d m => d.zrem key m) d) := by
  have heq : ∀ ms : List CStr, AntzKV.zremAll key ms db = ms.foldl (zremStep key) (db, 0) :=
    fun _ => rfl
  induction members using List.reverseRecOn with
  | nil => exact ⟨rfl, h⟩
  | append_singleton members m ih =>
    rw [List.map_append, Run.guarded_append, ← zremAll_fst] at hg
    obtain ⟨hg, hseen, -⟩ := hg
    obtain ⟨-, himpl⟩ := ih hg
    obtain ⟨hret, hrem⟩ := himpl.kvZrem hseen
    rw [heq, List.foldl_append, ← heq]
    simp only [List.foldl_cons, List.foldl_nil, zremStep, List.foldl_append]
    refine ⟨?_, hrem⟩
    rw [hret, Database.lastRemoved, List.getLast?_append]
    simp

/-! ## The branches -/

theorem getStringObj_eq (h : db.Implements d) (key : CStr) :
    db.getStringObj key = d.string key := h.string_eq key

/-- A counter, with the reply to it. -/
theorem counted {srv : Server S} (h : srv.db.Implements d) {calloc : Calloc} {delta : Int}
    {usec : UInt64} (hclear : (StoreOp.incrby calloc key delta usec).Clear srv.db) (text : CStr) :
    (srv.answer (srv.db.kvIncrby calloc key delta usec) text).2
        = some (Database.counted text (d.incrby key delta).2) ∧
      (srv.answer (srv.db.kvIncrby calloc key delta usec) text).1.db.Implements
        (d.incrby key delta).1 := by
  have hup : d.Uncountable key ∨ srv.db.CanUpsert DbObject.string? calloc key := by
    rcases hclear with ⟨o, hget, hs⟩ | hup
    · exact .inl (h.uncountable hget hs)
    · exact .inr hup
  obtain ⟨hret, himpl⟩ := h.kvIncrby hup delta usec
  rw [Server.db_answer]
  refine ⟨?_, himpl⟩
  revert hret
  rcases srv.db.kvIncrby calloc key delta usec with ⟨t, o⟩
  rintro rfl
  cases (d.incrby key delta).2 <;> rfl

/-- A string write or a DEL. -/
theorem execString {srv : Server S} (h : srv.db.Implements d) (env : Env) (c : StringCommand)
    (hg : Run.Guarded StoreOp.step (fun db op => op.Clear db) srv.db (c.calls env srv.db)) :
    (srv.exec env c).2 = some (c.replyOn d) ∧ (srv.exec env c).1.db.Implements (c.after env d) := by
  cases c with
  | set k v options =>
    obtain ⟨hret, hput⟩ := h.kvSet hg.1.1 hg.1.2 v env.usec
    simp only [Server.exec, hret, if_true, Server.replicateSet_db]
    exact ⟨rfl, setOptions env.now k options 0 hput⟩
  | setnx k v =>
    have hexists := h.kvExists_eq k
    simp only [StringCommand.calls, hexists] at hg
    simp only [Server.exec, KvTable.kvSetnx, hexists, StringCommand.replyOn, StringCommand.after]
    cases hk : (d k).isSome with
    | true => exact ⟨rfl, h⟩
    | false =>
      simp only [hk, Bool.false_eq_true, if_false] at hg
      obtain ⟨hret, hput⟩ := h.kvSet hg.1.1 hg.1.2 v env.usec
      simp only [Bool.false_eq_true, if_false, hret, if_true]
      exact ⟨trivial, hput⟩
  | setex k t v =>
    obtain ⟨hret, hput⟩ := h.kvSet hg.1.1 hg.1.2 v env.usec
    have hexpire := (hput.kvSetTtl k (wrap64 (env.now 0 + wrap64 (argI t * 1000)))).2
    rw [Database.put_setTtl] at hexpire
    simp only [Server.exec, KvTable.kvSetex, hret, ne_eq, not_true_eq_false, if_false]
    exact ⟨rfl, hexpire⟩
  | append k v =>
    obtain ⟨⟨hup, hfits⟩, -⟩ := hg
    rw [h.getStringObj_eq k] at hfits
    obtain ⟨hret, himpl⟩ := h.kvAppend hup hfits env.usec
    simp only [Server.exec, Server.db_answer, Server.fst_appendLen]
    refine ⟨?_, himpl⟩
    revert hret
    rcases srv.db.kvAppend env.calloc k v env.usec with ⟨t, o⟩
    rintro rfl
    rfl
  | incr k => exact h.counted hg.1 _
  | decr k => exact h.counted hg.1 _
  | incrby k t => exact h.counted hg.1 _
  | decrby k t => exact h.counted hg.1 _
  | del ks =>
    obtain ⟨hcount, himpl⟩ := h.delAll ks
    simp only [Server.exec, hcount]
    exact ⟨rfl, himpl⟩

/-- What a branch of `process_command` that is no string write is to the
database: it replies what the command may reply, and has its effect. -/
def KeepsTo (w : World S) (ps : PubsubMgr) (db : KvTable S) (d : Database S) (c : Command) : Prop :=
  ∃ r, (Server.execOther w ps db c).2 = some r ∧ c.Replies w ps d r ∧
    (Server.execOther w ps db c).1.Implements (c.after w d)

section Branches

variable (w : World S) (ps : PubsubMgr)

/-- EXPIRE and PERSIST reply alike. -/
theorem setTtlReply (h : db.Implements d) (key : CStr) (ttl : Int) :
    (if (db.kvSetTtl key ttl).2 = 0 then 1 else 0 : Int) = if (d key).isSome then 1 else 0 := by
  rw [(h.kvSetTtl key ttl).1]
  cases (d key).isSome <;> rfl

/-- TTL and PTTL read the expiry that the database has. -/
theorem keepsTo_ttl (h : db.Implements d) (key : CStr) :
    KeepsTo w ps db d (.ttl key) ∧ KeepsTo w ps db d (.pttl key) := by
  have hdeadline : db.kvTtlMs key = d.deadline key := h.kvTtlMs_eq key
  constructor
  · refine ⟨_, rfl, ?_, h⟩
    rw [hdeadline]
    rfl
  · refine ⟨_, rfl, ?_, h⟩
    rw [hdeadline]
    rfl

/-- LPUSH replies the length its last push returned. -/
theorem keepsTo_lpush (h : db.Implements d) {key : CStr} {values : List CStr}
    (hg : Run.Guarded StoreOp.step (fun db op => op.Clear db) db
      ((Command.lpush key values).calls w db)) : KeepsTo w ps db d (.lpush key values) := by
  have hloop := pushAll key (fun calloc v => .lpush calloc key v)
    (f := fun d v => d.lpush key v) (fun calloc v h hup => h.kvLpush hup v) (fun _ _ _ => rfl)
    (fun d v => by rw [Database.elements_lpush, List.length_cons]) w.callocs values 0 w.junk h
  simp only [Nat.zero_add] at hloop
  obtain ⟨hlen, himpl⟩ := hloop hg
  exact ⟨_, rfl, congrArg CmdReply.int hlen, himpl⟩

/-- And so does RPUSH. -/
theorem keepsTo_rpush (h : db.Implements d) {key : CStr} {values : List CStr}
    (hg : Run.Guarded StoreOp.step (fun db op => op.Clear db) db
      ((Command.rpush key values).calls w db)) : KeepsTo w ps db d (.rpush key values) := by
  have hloop := pushAll key (fun calloc v => .rpush calloc key v)
    (f := fun d v => d.rpush key v) (fun calloc v h hup => h.kvRpush hup v) (fun _ _ _ => rfl)
    (fun d v => by rw [Database.elements_rpush, List.length_append, List.length_singleton])
    w.callocs values 0 w.junk h
  simp only [Nat.zero_add] at hloop
  obtain ⟨hlen, himpl⟩ := hloop hg
  exact ⟨_, rfl, congrArg CmdReply.int hlen, himpl⟩

/-- LSET is refused where the index is out of range. -/
theorem keepsTo_lset (h : db.Implements d) (key idx value : CStr) :
    KeepsTo w ps db d (.lset key idx value) := by
  obtain ⟨hret, himpl⟩ := h.kvLset key (argI idx) value
  simp only [KeepsTo, Server.execOther, Command.Replies, Command.after]
  revert hret himpl
  rcases db.kvLset key (argI idx) value with ⟨t, o⟩
  rintro rfl himpl
  by_cases hrange : RefList.InRange (d.elements key) (argI idx)
  · rw [if_pos hrange, if_pos hrange]
    exact ⟨_, rfl, rfl, himpl⟩
  · rw [if_neg hrange, if_neg hrange]
    exact ⟨_, rfl, rfl, himpl⟩

/-- SADD replies how many members are new. -/
theorem keepsTo_sadd (h : db.Implements d) {key : CStr}
    (hup : db.CanUpsert DbObject.set? w.calloc key) (members : List CStr) :
    KeepsTo w ps db d (.sadd key members) := by
  obtain ⟨hret, himpl⟩ := h.kvSadd hup members
  simp only [KeepsTo, Server.execOther, Command.Replies, Command.after]
  revert hret himpl
  rcases db.kvSadd w.calloc key members with ⟨t, o⟩
  rintro rfl himpl
  exact ⟨_, rfl, rfl, himpl⟩

/-- HSET replies whether the field is new. -/
theorem keepsTo_hset (h : db.Implements d) {key : CStr}
    (hup : db.CanUpsert DbObject.hash? w.calloc key) (field value : CStr) :
    KeepsTo w ps db d (.hset key field value) := by
  obtain ⟨hret, himpl⟩ := h.kvHset hup field value
  simp only [KeepsTo, Server.execOther, Command.Replies, Command.after]
  revert hret himpl
  rcases db.kvHset w.calloc key field value with ⟨t, o⟩
  rintro rfl himpl
  refine ⟨_, rfl, ?_, himpl⟩
  by_cases hf : field ∈ d.fields key <;> simp [hf]

/-- ZADD replies 1 when it was given a pair. -/
theorem keepsTo_zadd (h : db.Implements d) {key : CStr} {pairs : List (CStr × CStr)}
    (hg : Run.Guarded StoreOp.step (fun db op => op.Clear db) db
      ((Command.zadd key pairs).calls w db)) : KeepsTo w ps db d (.zadd key pairs) := by
  have hloop := zaddAll w key pairs 0 0 h
  simp only [Nat.zero_add] at hloop
  obtain ⟨hadded, himpl⟩ := hloop hg
  refine ⟨_, ?_, rfl, himpl⟩
  simp only [Server.execOther, hadded, Option.map_some]

/-- The branches that are not string writes. -/
theorem execOther (h : db.Implements d) {c : Command} (hc : ∀ s, c ≠ .string s)
    (hg : Run.Guarded StoreOp.step (fun db op => op.Clear db) db (c.calls w db)) :
    KeepsTo w ps db d c := by
  cases c with
  | string s => exact absurd rfl (hc s)
  | ping arg => cases arg <;> exact ⟨_, rfl, rfl, h⟩
  | quit => exact ⟨_, rfl, rfl, h⟩
  | read r => exact ⟨_, rfl, ⟨_, h.answers r, rfl⟩, h⟩
  | save =>
    refine ⟨_, rfl, ?_, h⟩
    cases db.path.isSome && w.fopen
    · exact .inr rfl
    · exact .inl rfl
  | ttl key => exact (keepsTo_ttl w ps h key).1
  | pttl key => exact (keepsTo_ttl w ps h key).2
  | expire key seconds =>
    have himpl := (h.kvSetTtl key (wrap64 (w.now 0 + wrap64 (argI seconds * 1000)))).2
    exact ⟨_, rfl, congrArg CmdReply.int (h.setTtlReply key _), himpl⟩
  | persist key =>
    exact ⟨_, rfl, congrArg CmdReply.int (h.setTtlReply key (-1)), (h.kvSetTtl key (-1)).2⟩
  | lpush key values => exact keepsTo_lpush w ps h hg
  | rpush key values => exact keepsTo_rpush w ps h hg
  | lpop key =>
    obtain ⟨hret, himpl⟩ := h.kvLpop key
    exact ⟨_, rfl, congrArg CmdReply.bulk hret, himpl⟩
  | rpop key =>
    obtain ⟨hret, himpl⟩ := h.kvRpop key
    exact ⟨_, rfl, congrArg CmdReply.bulk hret, himpl⟩
  | lset key idx value => exact keepsTo_lset w ps h key idx value
  | lrem key count value =>
    obtain ⟨hret, himpl⟩ := h.kvLrem key (argI count) value
    exact ⟨_, rfl, congrArg (fun n : Nat => CmdReply.int n) hret, himpl⟩
  | rpoplpush src dst =>
    obtain ⟨hret, himpl⟩ := h.kvLpoprpush hg.1
    exact ⟨_, rfl, congrArg CmdReply.bulk hret, himpl⟩
  | sadd key members => exact keepsTo_sadd w ps h hg.1 members
  | srem key members =>
    obtain ⟨hret, himpl⟩ := h.kvSrem key members
    exact ⟨_, rfl, congrArg (fun n : Nat => CmdReply.int n) hret, himpl⟩
  | hset key field value => exact keepsTo_hset w ps h hg.1 field value
  | hdel key fields =>
    obtain ⟨hret, himpl⟩ := h.kvHdel key fields
    exact ⟨_, rfl, congrArg (fun n : Nat => CmdReply.int n) hret, himpl⟩
  | zadd key pairs => exact keepsTo_zadd w ps h hg
  | zrem key members =>
    obtain ⟨hremoved, himpl⟩ := h.zremAll members hg
    exact ⟨_, rfl, congrArg CmdReply.int hremoved, himpl⟩
  | publish ch words => exact ⟨_, rfl, rfl, h⟩
  | unknown => exact ⟨_, rfl, rfl, h⟩

end Branches

/-- **A branch of `process_command` keeps to the meaning of its command.** -/
theorem execCommand {srv : Server S} (h : srv.db.Implements d) (w : World S) (ps : PubsubMgr)
    (c : Command)
    (hg : Run.Guarded StoreOp.step (fun db op => op.Clear db) srv.db (c.calls w srv.db)) :
    ∃ r, (srv.execCommand w ps c).2 = some r ∧ c.Replies w ps d r ∧
      (srv.execCommand w ps c).1.db.Implements (c.after w d) := by
  by_cases hc : ∃ s, c = .string s
  · obtain ⟨s, rfl⟩ := hc
    obtain ⟨hreply, himpl⟩ := h.execString w.toEnv s hg
    exact ⟨_, congrArg (Option.map Reply.toCmdReply) hreply, rfl, himpl⟩
  · have hne : ∀ s, c ≠ .string s := fun s hs => hc ⟨s, hs⟩
    rw [Server.execCommand_other w ps srv hne, Server.execCommand_db_other w ps srv hne]
    exact execOther w ps h hne hg

end KvTable.Implements

/-! ## Requests -/

namespace Server

end Server

end AntzKV

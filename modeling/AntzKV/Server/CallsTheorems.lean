/-
AntzKV.Server.CallsTheorems — a request does to the table what its calls
do.

Whatever a line says, the table after it is the table before it with the
calls of its branch made in order (`execCommand_db`), and these are about
keys the line names (`keys_of_mem_calls`). So the tables of a server are
tables of the store, with all that holds of them (`Server.sound_serves`),
and a key that no request names keeps its object in whatever order the
calls of requests come (`unnamed_key_kept`). Here too the calls come one
after the other.
-/
import AntzKV.Core.FrameTheorems
import AntzKV.Core.SoundTheorems
import AntzKV.Lib.Simulation
import AntzKV.Server.Calls
import AntzKV.Server.DispatchTheorems

namespace AntzKV

variable {S : Type} [LinearOrder S]

/-! ## The loops -/

namespace Server

theorem setOptions_eq (now : Nat → Int) (key : CStr) : ∀ (options : List CStr) (i : Nat)
    (db : KvTable S),
      setOptions now key i options db = (optionCalls now key i options).foldl StoreOp.step db
  | [], _, _ => rfl
  | [_], _, _ => rfl
  | opt :: arg :: options, i, db => by
    rw [setOptions, optionCalls]
    split
    · exact setOptions_eq now key options (i + 1) _
    · split
      · exact setOptions_eq now key options (i + 1) _
      · rfl

theorem delAll_fst (db : KvTable S) (keys : List CStr) :
    (delAll db keys).1 = (keys.map fun k => StoreOp.table (.del k)).foldl StoreOp.step db := by
  rw [delAll, List.foldl_map]
  exact (List.foldl_hom Prod.fst fun _ _ => rfl).symm

end Server

theorem pushAll_fst {push : Calloc → KvTable S → CStr → CStr → KvTable S × Outcome Nat} (key : CStr)
    (op : Calloc → CStr → StoreOp S)
    (hop : ∀ calloc db v, StoreOp.step db (op calloc v) = (push calloc db key v).1)
    (callocs : Nat → Calloc) : ∀ (values : List CStr) (i : Nat) (db : KvTable S) (len : Int),
      (pushAll push callocs key i values db len).1
        = (values.mapIdx fun j v => op (callocs (i + j)) v).foldl StoreOp.step db
  | [], _, _, _ => rfl
  | v :: vs, i, db, len => by
    have hnext : ∀ j, callocs (i + (j + 1)) = callocs (i + 1 + j) := fun j =>
      congrArg callocs (by omega)
    rw [List.mapIdx_cons, List.foldl_cons, Nat.add_zero, hop, pushAll]
    simp only [hnext]
    rcases push (callocs i) db key v with ⟨t, _ | _ | _⟩
    all_goals exact pushAll_fst key op hop callocs vs (i + 1) t _

theorem zaddAll_fst (w : World S) (key : CStr) : ∀ (pairs : List (CStr × CStr)) (i : Nat)
    (db : KvTable S) (added : Int), db.Wf →
      (zaddAll w key i pairs db added).1
        = (pairs.mapIdx fun j p => StoreOp.zadd (w.callocs (i + j)) key (w.strtod p.1) p.2
            (w.draws (i + j))).foldl StoreOp.step db
  | [], _, _, _, _ => rfl
  | p :: pairs, i, db, added, h => by
    have hcalloc : ∀ j, w.callocs (i + (j + 1)) = w.callocs (i + 1 + j) := fun j =>
      congrArg w.callocs (by omega)
    have hdraws : ∀ j, w.draws (i + (j + 1)) = w.draws (i + 1 + j) := fun j =>
      congrArg w.draws (by omega)
    have hwf := h.kvZadd (w.callocs i) key (w.strtod p.1) p.2 (w.draws i)
    have hlives := KvTable.kvZadd_ne_segv h (w.callocs i) key (w.strtod p.1) p.2 (w.draws i)
    rw [List.mapIdx_cons, List.foldl_cons, Nat.add_zero, zaddAll]
    simp only [hcalloc, hdraws, StoreOp.step]
    revert hwf hlives
    rcases db.kvZadd (w.callocs i) key (w.strtod p.1) p.2 (w.draws i) with ⟨t, _ | _ | _⟩
    · exact fun hwf _ => zaddAll_fst w key pairs (i + 1) t 1 hwf
    · exact fun hwf _ => zaddAll_fst w key pairs (i + 1) t added hwf
    · exact fun _ hlives => absurd rfl hlives

theorem zremAll_fst (key : CStr) (members : List CStr) (db : KvTable S) :
    (zremAll key members db).1
      = (members.map fun m => StoreOp.zrem key m).foldl StoreOp.step db := by
  rw [zremAll, List.foldl_map]
  exact (List.foldl_hom Prod.fst fun _ _ => rfl).symm

/-! ## The branches -/

namespace Server

omit [LinearOrder S] in
@[simp] theorem replicateSet_db (srv : Server S) (key value : CStr) :
    (srv.replicateSet key value).db = srv.db := by
  unfold replicateSet
  split <;> rfl

omit [LinearOrder S] in
@[simp] theorem db_answer (srv : Server S) (r : KvTable S × Outcome Int) (err : CStr) :
    (srv.answer r err).1.db = r.1 := by
  rcases r with ⟨db, _ | _ | _⟩ <;> rfl

omit [LinearOrder S] in
@[simp] theorem fst_appendLen (r : KvTable S × Outcome Nat) : (appendLen r).1 = r.1 := by
  rcases r with ⟨db, _ | _ | _⟩ <;> rfl

/-- A string write or a DEL. -/
theorem exec_db (env : Env) (srv : Server S) (c : StringCommand) :
    (srv.exec env c).1.db = (c.calls env srv.db).foldl StoreOp.step srv.db := by
  cases c with
  | set k v options =>
    rw [StringCommand.calls, List.foldl_cons, exec]
    simp only
    split
    · rw [replicateSet_db]
      exact setOptions_eq env.now k options 0 _
    · rfl
  | setnx k v =>
    rw [StringCommand.calls, exec, KvTable.kvSetnx]
    cases srv.db.kvExists k <;> rfl
  | setex k t v =>
    rw [StringCommand.calls, List.foldl_cons, exec, KvTable.kvSetex]
    simp only
    split <;> rfl
  | append k v => exact (db_answer _ _ _).trans (fst_appendLen _)
  | incr k => exact db_answer _ _ _
  | decr k => exact db_answer _ _ _
  | incrby k d => exact db_answer _ _ _
  | decrby k d => exact db_answer _ _ _
  | del ks => exact delAll_fst srv.db ks

/-- The other branches. -/
theorem execOther_db (w : World S) (ps : PubsubMgr) {db : KvTable S} (h : db.Wf) {c : Command}
    (hc : ∀ s, c ≠ .string s) :
    (execOther w ps db c).1 = (c.calls w db).foldl StoreOp.step db := by
  cases c with
  | string s => exact absurd rfl (hc s)
  | ping arg => cases arg <;> rfl
  | lpush key values =>
    have hpush := pushAll_fst key (fun calloc v => .lpush calloc key v)
      (fun _ _ _ => rfl) w.callocs values 0 db w.junk
    simp only [Nat.zero_add] at hpush
    exact hpush
  | rpush key values =>
    have hpush := pushAll_fst key (fun calloc v => .rpush calloc key v)
      (fun _ _ _ => rfl) w.callocs values 0 db w.junk
    simp only [Nat.zero_add] at hpush
    exact hpush
  | lset key idx value =>
    simp only [execOther, Command.calls, List.foldl_cons, List.foldl_nil, StoreOp.step]
    split <;> simp_all
  | sadd key members =>
    simp only [execOther, Command.calls, List.foldl_cons, List.foldl_nil, StoreOp.step]
    split <;> simp_all
  | hset key field value =>
    simp only [execOther, Command.calls, List.foldl_cons, List.foldl_nil, StoreOp.step]
    split <;> simp_all
  | zadd key pairs =>
    have hadd := zaddAll_fst w key pairs 0 db 0 h
    simp only [Nat.zero_add] at hadd
    exact hadd
  | zrem key members => exact zremAll_fst key members db
  | _ => rfl

theorem execCommand_db_other (w : World S) (ps : PubsubMgr) (srv : Server S) {c : Command}
    (hc : ∀ s, c ≠ .string s) :
    (srv.execCommand w ps c).1.db = (execOther w ps srv.db c).1 := by
  cases c with
  | string s => exact absurd rfl (hc s)
  | _ => rfl

/-- **A branch of `process_command` does to the table what its calls do.** -/
theorem execCommand_db {srv : Server S} (h : srv.db.Wf) (w : World S) (ps : PubsubMgr)
    (c : Command) :
    (srv.execCommand w ps c).1.db = (c.calls w srv.db).foldl StoreOp.step srv.db := by
  by_cases hc : ∃ s, c = .string s
  · obtain ⟨s, rfl⟩ := hc
    exact exec_db w.toEnv srv s
  · have hne : ∀ s, c ≠ .string s := fun s hs => hc ⟨s, hs⟩
    rw [execCommand_db_other w ps srv hne]
    exact execOther_db w ps h hne

theorem db_processCommandSends (w : World S) (ps : PubsubMgr) {srv : Server S} (h : srv.db.Wf)
    (fd : Int) (text : CStr) : (srv.processCommandSends w ps fd text).1.db =
      ((Request.line w ps fd text).calls srv.db).foldl StoreOp.step srv.db := by
  rw [processCommandSends, Request.calls]
  cases parseLine text maxArgs with
  | nil => rfl
  | cons cmd args => exact execCommand_db h w ps (branch cmd args)

/-- A request does to the table what its calls do. -/
theorem db_serve {srv : Server S} (h : srv.db.Wf) (hlive : srv.crashed = false)
    (req : Request S) :
    (srv.serve req).1.db = (req.calls srv.db).foldl StoreOp.step srv.db := by
  simp only [serve, hlive, Bool.false_eq_true, if_false]
  cases req with
  | line w ps fd text => exact db_processCommandSends w ps h fd text
  | replicated write => cases write <;> rfl
  | expire now rand => rfl

end Server

/-! ## The keys of the calls -/

/-- A call about these keys, with a sound object if it hands one over; it
is not the one that expires keys. -/
structure StoreOp.About (keys : List CStr) (op : StoreOp S) : Prop where
  keys : op.keys ⊆ keys
  expires : op.expiresUpTo = none
  sound : op.Sound

theorem StoreOp.About.mono {keys keys' : List CStr} {op : StoreOp S} (h : op.About keys)
    (hsub : keys ⊆ keys') : op.About keys' :=
  { h with keys := List.Subset.trans h.keys hsub }

theorem StoreOp.about_setTtl (key : CStr) (ttl : Int) :
    (StoreOp.setTtl key ttl : StoreOp S).About [key] :=
  ⟨List.Subset.refl _, rfl, trivial⟩

theorem StoreOp.about_set (calloc : Calloc) (key value : CStr) (usec : UInt64) :
    (StoreOp.table (.set calloc key value usec) : StoreOp S).About [key] :=
  ⟨List.Subset.refl _, rfl, trivial⟩

theorem about_optionCalls (now : Nat → Int) (key : CStr) (i : Nat) (options : List CStr) :
    ∀ op ∈ (optionCalls now key i options : List (StoreOp S)), op.About [key] := by
  fun_induction optionCalls (S := S) now key i options with
  | case1 i opt arg options hopt ih =>
    exact List.forall_mem_cons.mpr ⟨StoreOp.about_setTtl key _, ih⟩
  | case2 i opt arg options hopt hopt' ih =>
    exact List.forall_mem_cons.mpr ⟨StoreOp.about_setTtl key _, ih⟩
  | case3 => exact fun op hop => absurd hop List.not_mem_nil
  | case4 => exact fun op hop => absurd hop List.not_mem_nil

theorem StringCommand.about_calls (env : Env) (db : KvTable S) (c : StringCommand) :
    ∀ op ∈ c.calls env db, op.About c.keys := by
  cases c with
  | set k v options =>
    refine List.forall_mem_cons.mpr ⟨StoreOp.about_set _ k v _, ?_⟩
    split
    · exact about_optionCalls env.now k 0 options
    · exact fun op hop => absurd hop List.not_mem_nil
  | setnx k v =>
    rw [StringCommand.calls]
    split
    · exact fun op hop => absurd hop List.not_mem_nil
    · exact List.forall_mem_singleton.mpr (StoreOp.about_set _ k v _)
  | setex k t v =>
    refine List.forall_mem_cons.mpr ⟨StoreOp.about_set _ k v _, ?_⟩
    split
    · exact fun op hop => absurd hop List.not_mem_nil
    · exact List.forall_mem_singleton.mpr (StoreOp.about_setTtl k _)
  | del ks =>
    refine List.forall_mem_map.mpr fun k hk => ⟨?_, rfl, trivial⟩
    exact List.cons_subset.mpr ⟨hk, List.nil_subset _⟩
  | _ => exact List.forall_mem_singleton.mpr ⟨List.Subset.refl _, rfl, trivial⟩

/-- The calls of a branch are about its keys. -/
theorem Command.about_calls (w : World S) (db : KvTable S) (c : Command) :
    ∀ op ∈ c.calls w db, op.About c.keys := by
  cases c with
  | string c => exact c.about_calls w.toEnv db
  | lpush key values =>
    intro op hop
    obtain ⟨i, hi, rfl⟩ := List.mem_mapIdx.mp hop
    exact ⟨List.Subset.refl _, rfl, trivial⟩
  | rpush key values =>
    intro op hop
    obtain ⟨i, hi, rfl⟩ := List.mem_mapIdx.mp hop
    exact ⟨List.Subset.refl _, rfl, trivial⟩
  | zadd key pairs =>
    intro op hop
    obtain ⟨i, hi, rfl⟩ := List.mem_mapIdx.mp hop
    exact ⟨List.Subset.refl _, rfl, trivial⟩
  | zrem key members => exact List.forall_mem_map.mpr fun m _ => ⟨List.Subset.refl _, rfl, trivial⟩
  | ping | quit | read | save | ttl | pttl | publish | unknown =>
    exact fun op hop => absurd hop List.not_mem_nil
  | _ => exact List.forall_mem_singleton.mpr ⟨List.Subset.refl _, rfl, trivial⟩

/-! ## The keys of a line -/

/-- What is made of arguments is no string write, and the keys it writes
are among them. -/
def Parses (parse : List CStr → Option Command) : Prop :=
  ∀ args, ∀ c ∈ parse args, c.keys ⊆ args ∧ ∀ s, c ≠ .string s

theorem parses_arity1 {f : CStr → Command} (hf : ∀ a, (f a).keys ⊆ [a] ∧ ∀ s, f a ≠ .string s) :
    Parses (arity1 f) := by
  rintro (_ | ⟨a, rest⟩) c hc
  · cases hc
  · obtain rfl := Option.some.inj hc
    exact ⟨List.Subset.trans (hf a).1 (by simp), (hf a).2⟩

theorem parses_arity2 {f : CStr → CStr → Command}
    (hf : ∀ a b, (f a b).keys ⊆ [a, b] ∧ ∀ s, f a b ≠ .string s) : Parses (arity2 f) := by
  rintro (_ | ⟨a, _ | ⟨b, rest⟩⟩) c hc
  · cases hc
  · cases hc
  · obtain rfl := Option.some.inj hc
    exact ⟨List.Subset.trans (hf a b).1 (by simp), (hf a b).2⟩

theorem parses_arity3 {f : CStr → CStr → CStr → Command}
    (hf : ∀ a b c, (f a b c).keys ⊆ [a] ∧ ∀ s, f a b c ≠ .string s) : Parses (arity3 f) := by
  rintro (_ | ⟨a, _ | ⟨b, _ | ⟨c, rest⟩⟩⟩) cmd hc
  · cases hc
  · cases hc
  · cases hc
  · obtain rfl := Option.some.inj hc
    exact ⟨List.Subset.trans (hf a b c).1 (by simp), (hf a b c).2⟩

theorem parses_arityMany {f : CStr → List CStr → Command}
    (hf : ∀ a rest, (f a rest).keys ⊆ [a] ∧ ∀ s, f a rest ≠ .string s) : Parses (arityMany f) := by
  rintro (_ | ⟨a, _ | ⟨b, rest⟩⟩) c hc
  · cases hc
  · cases hc
  · obtain rfl := Option.some.inj hc
    exact ⟨List.Subset.trans (hf a (b :: rest)).1 (by simp), (hf a (b :: rest)).2⟩

/-- A branch that writes nothing. -/
theorem parses_of_keys_nil {parse : List CStr → Option Command}
    (h : ∀ args, ∀ c ∈ parse args, c.keys = [] ∧ ∀ s, c ≠ .string s) : Parses parse :=
  fun args c hc => by
    obtain ⟨hkeys, hother⟩ := h args c hc
    exact ⟨by rw [hkeys]; exact List.nil_subset _, hother⟩

theorem parses_commandTable : ∀ e ∈ commandTable, Parses e.2 := by
  have hexists : Parses fun ks => if ks = [] then none else some (.read (.existsKeys ks)) :=
    parses_of_keys_nil fun args c hc => by
      split at hc
      · cases hc
      · obtain rfl := Option.some.inj hc
        exact ⟨rfl, by simp⟩
  have hconst : ∀ c : Command, c.keys = [] ∧ (∀ s, c ≠ .string s) → Parses fun _ => some c :=
    fun c hc => parses_of_keys_nil fun args c' hc' => by
      obtain rfl := Option.some.inj hc'
      exact hc
  simp only [commandTable, List.forall_mem_cons]
  repeat' apply And.intro
  all_goals first
    | exact parses_arity1 (by simp [Command.keys])
    | exact parses_arity2 (by simp [Command.keys])
    | exact parses_arity3 (by simp [Command.keys])
    | exact parses_arityMany (by simp [Command.keys])
    | exact hconst _ ⟨rfl, by simp⟩
    | exact hexists
    | exact List.forall_mem_nil _
    | skip
  -- ZADD, which wants two arguments after its key
  intro args c hc
  simp only [Option.mem_def] at hc
  split at hc
  · obtain rfl := Option.some.inj hc
    simp [Command.keys]
  · cases hc

/-- A line that names no string write and is not PING or QUIT gets its
branch from the table, or none. -/
theorem parses_find? {cmd : CStr} {e : CStr × (List CStr → Option Command)}
    (h : commandTable.find? (fun c => strcasecmpEq cmd c.1) = some e) : Parses e.2 :=
  parses_commandTable e (List.mem_of_find?_eq_some h)

theorem keys_of_route {cmd : CStr} {args : List CStr} {c : StringCommand}
    (h : route (cmd :: args) = some c) : c.keys ⊆ args := by
  simp only [route] at h
  repeat' split at h
  all_goals cases h <;> simp [StringCommand.keys]

/-- The keys a line writes are among its arguments. -/
theorem keys_branch (cmd : CStr) (args : List CStr) : (branch cmd args).keys ⊆ args := by
  unfold branch
  split
  · exact List.nil_subset _
  · split
    · exact List.nil_subset _
    · cases hroute : route (cmd :: args) with
      | some c => exact keys_of_route hroute
      | none =>
        cases hfind : commandTable.find? fun c => strcasecmpEq cmd c.1 with
        | none => exact List.nil_subset _
        | some e =>
          obtain ⟨name, parse⟩ := e
          cases hparse : parse args with
          | none => simp [hparse, Command.keys]
          | some c =>
            simpa [hparse] using (parses_find? hfind args c hparse).1

/-- A branch that is a string write is the one `route` chooses. -/
theorem route_of_branch {cmd : CStr} {args : List CStr} {c : StringCommand}
    (h : branch cmd args = .string c) : route (cmd :: args) = some c := by
  unfold branch at h
  split at h
  · cases h
  · split at h
    · cases h
    · cases hroute : route (cmd :: args) with
      | some c' =>
        rw [hroute] at h
        exact congrArg some (Command.string.inj h)
      | none =>
        rw [hroute] at h
        cases hfind : commandTable.find? fun c => strcasecmpEq cmd c.1 with
        | none =>
          simp only [hfind] at h
          cases h
        | some e =>
          obtain ⟨name, parse⟩ := e
          simp only [hfind] at h
          cases hparse : parse args with
          | none =>
            rw [hparse] at h
            cases h
          | some c' =>
            rw [hparse] at h
            exact absurd h ((parses_find? hfind args c' hparse).2 c)

/-! ## The calls of requests -/

namespace Request

omit [LinearOrder S] in
theorem keys_call (write : ReplWrite) : (write.call : StoreOp S).keys = [write.key] := by
  cases write <;> rfl

/-- The keys of a request's calls are words of it. -/
theorem Makes.keys {req : Request S} {op : StoreOp S} (h : req.Makes op) : op.keys ⊆ req.words := by
  obtain ⟨db, hop⟩ := h
  cases req with
  | line w ps fd text =>
    rw [calls] at hop
    rw [words]
    cases hparse : parseLine text maxArgs with
    | nil => simp [hparse] at hop
    | cons cmd args =>
      rw [hparse] at hop
      exact List.Subset.trans ((branch cmd args).about_calls w db op hop).keys
        (keys_branch cmd args)
  | replicated write =>
    obtain rfl := List.mem_singleton.mp hop
    rw [keys_call]
    exact List.Subset.refl _
  | expire now rand =>
    obtain rfl := List.mem_singleton.mp hop
    exact List.Subset.refl _

/-- The objects requests hand over are sound. -/
theorem Makes.sound {req : Request S} {op : StoreOp S} (h : req.Makes op) : op.Sound := by
  obtain ⟨db, hop⟩ := h
  cases req with
  | line w ps fd text =>
    rw [calls] at hop
    cases hparse : parseLine text maxArgs with
    | nil => simp [hparse] at hop
    | cons cmd args =>
      rw [hparse] at hop
      exact ((branch cmd args).about_calls w db op hop).sound
  | replicated write =>
    obtain rfl := List.mem_singleton.mp hop
    cases write with
    | set key value m => exact KvTable.sound_objCreateString (S := S) value m.wallclock
    | del key m => trivial
  | expire now rand =>
    obtain rfl := List.mem_singleton.mp hop
    trivial

end Request

/-! ## Runs of requests -/

namespace Server

theorem sound_serve {srv : Server S} (h : srv.db.Sound) (req : Request S) :
    (srv.serve req).1.db.Sound := by
  cases hlive : srv.crashed with
  | true =>
    simp only [serve, hlive, if_true]
    exact h
  | false =>
    rw [db_serve h.wf hlive]
    have hmade : ∀ op ∈ req.calls srv.db, op.Sound := fun op hop => Request.Makes.sound ⟨_, hop⟩
    revert hmade h
    generalize req.calls srv.db = ops
    generalize srv.db = db
    induction ops generalizing db with
    | nil => exact fun h _ => h
    | cons op ops ih =>
      exact fun h hmade => ih _ (h.step ⟨op, hmade op List.mem_cons_self⟩) fun op' hop' =>
        hmade op' (List.mem_cons_of_mem _ hop')

/-- **The tables of a server are sound**: after any lines, writes of peers
and rounds of the expiry thread, every key is found where it is stored, and
every list, hash table and skip list is well formed. -/
theorem sound_serves (myId : NodeOrigin) (path : Option CStr) (file : Option (List UInt8))
    (reqs : List (Request S)) :
    (Simulation.run serve (opened myId path file) reqs).db.Sound :=
  Run.invariant (P := fun srv : Server S => srv.db.Sound) (fun _ req h => sound_serve h req) reqs _
    (KvTable.Sound.kvOpen path file)

end Server

namespace KvTable

/-- **A key that no request names keeps its object.** The calls of the
requests are made one after the other, in any order. What is not said of
the table is that insertions have room; what can happen to the object is
that its time comes. -/
theorem unnamed_key_kept (path : Option CStr) (file : Option (List UInt8))
    (before calls : List (StoreOp S)) (k : CStr)
    (hcalls : ∀ op ∈ calls, ∃ req : Request S, req.Makes op ∧ k ∉ req.words)
    (hroom : Run.Guarded StoreOp.step (fun db op => op.Spares db) (storeRun path file before)
      calls) :
    Kept calls (storeRun path file before) (calls.foldl StoreOp.step (storeRun path file before))
      k :=
  kept_run calls (Wf.storeRun path file before) hroom fun op hop hk =>
    Exists.elim (hcalls op hop) fun _ hreq => hreq.2 (hreq.1.keys hk)

/-- A world for requests to be made in. -/
def someWorld : World Int where
  calloc := true
  usec := 7
  now := fun _ => 1000
  callocs := fun _ => true
  draws := fun _ _ => 1
  junk := 0
  fopen := false
  stack := []
  strtod := fun _ => 0
  formatG := fun _ => .lit "0"

/-- A client pushes to a list, and the expiry thread takes its round. -/
def pushAndExpire : List (StoreOp Int) :=
  [.lpush true (.lit "l") (.lit "x"), .table (.activeExpire 20 500 id)]

theorem pushAndExpire_made : ∀ op ∈ pushAndExpire,
    ∃ req : Request Int, req.Makes op ∧ CStr.lit "k" ∉ req.words := by
  refine List.forall_mem_cons.mpr ⟨?_, List.forall_mem_singleton.mpr ?_⟩
  · exact ⟨.line someWorld ⟨[]⟩ 4 (.lit "LPUSH l x"), ⟨fresh none, List.mem_singleton_self _⟩,
      by decide⟩
  · exact ⟨.expire 500 id, ⟨fresh none, List.mem_singleton_self _⟩, by decide⟩

theorem unnamed_key_kept_push :
    Kept pushAndExpire (storeRun none none [.table (.set true (.lit "k") (.lit "v") 5)])
      (pushAndExpire.foldl StoreOp.step
        (storeRun none none [.table (.set true (.lit "k") (.lit "v") 5)])) (.lit "k") :=
  unnamed_key_kept none none [.table (.set true (.lit "k") (.lit "v") 5)] pushAndExpire (.lit "k")
    pushAndExpire_made (by decide)

/-! ## What was written is read -/

/-- Among the calls the key was given a time, and later came a call that
removes what is due by then. -/
def Lapsed (calls : List (StoreOp S)) (k : CStr) : Prop :=
  ∃ before after ttl now, calls = before ++ after ∧ .setTtl k ttl ∈ before ∧
    (∃ op ∈ after, op.expiresUpTo = some now) ∧ 0 ≤ ttl ∧ ttl ≤ now

/-- What calls leave of a string `v` that had no time to live. -/
def HoldsString (calls : List (StoreOp S)) (db : KvTable S) (k v : CStr) : Prop :=
  (∃ o, db.kvGetObject k = some o ∧ o.string? = some v ∧
    (0 ≤ o.ttl → .setTtl k o.ttl ∈ calls)) ∨
  (db.kvGetObject k = none ∧ Lapsed calls k)

omit [LinearOrder S] in
theorem Lapsed.snoc {calls : List (StoreOp S)} {k : CStr} (h : Lapsed calls k) (op : StoreOp S) :
    Lapsed (calls ++ [op]) k := by
  obtain ⟨before, after, ttl, now, rfl, hset, ⟨op', hop', hnow⟩, hdue⟩ := h
  exact ⟨before, after ++ [op], ttl, now, by simp, hset, ⟨op', by simp [hop'], hnow⟩, hdue⟩

omit [LinearOrder S] in
/-- A time to live for the key itself. -/
theorem HoldsString.setTtl {calls : List (StoreOp S)} {db : KvTable S} {k v : CStr} (h : db.Wf)
    (hholds : HoldsString calls db k v) (ttl : Int) :
    HoldsString (calls ++ [.setTtl k ttl]) (db.kvSetTtl k ttl).1 k v := by
  rcases hholds with ⟨o, hget, hs, -⟩ | ⟨hnone, hlapsed⟩
  · have hfound : (db.probe k).2 = true := probe_found_iff.mpr ⟨o, hget⟩
    refine .inl ⟨{ o with ttl := ttl }, ?_, hs, fun _ => by simp⟩
    rw [KvTable.kvSetTtl, if_pos hfound, kvGetObject_modifyObj h, if_pos rfl, hget]
    rfl
  · refine .inr ⟨?_, hlapsed.snoc _⟩
    rw [KvTable.kvSetTtl, probe_missed_of_absent hnone, if_neg Bool.false_ne_true]
    exact hnone

/-- A call that does not name the key. -/
theorem HoldsString.other {calls : List (StoreOp S)} {db : KvTable S} {k v : CStr} (h : db.Wf)
    (hholds : HoldsString calls db k v) {op : StoreOp S} (hspares : op.Spares db) (hk : k ∉ op.keys) :
    HoldsString (calls ++ [op]) (StoreOp.step db op) k v := by
  have hkept := kept_step h hspares hk
  rcases hholds with ⟨o, hget, hs, httl⟩ | ⟨hnone, hlapsed⟩
  · rcases hkept with heq | ⟨o', hget', hgone, op', hop', now, hnow, hpos, hdue⟩
    · exact .inl ⟨o, heq.trans hget, hs, fun hpos => List.mem_append_left _ (httl hpos)⟩
    · obtain rfl := Option.some.inj (hget'.symm.trans hget)
      obtain rfl := List.mem_singleton.mp hop'
      exact .inr ⟨hgone, calls, [op'], o'.ttl, now, rfl, httl hpos, ⟨op', hop', hnow⟩, hpos, hdue⟩
  · rcases hkept with heq | ⟨o, hget, -⟩
    · exact .inr ⟨heq.trans hnone, hlapsed.snoc op⟩
    · rw [hnone] at hget
      cases hget

theorem holdsString_run {db : KvTable S} {k v : CStr} (h : db.Wf) (hstart : HoldsString [] db k v) :
    ∀ calls : List (StoreOp S),
      (∀ op ∈ calls, (∃ ttl, op = .setTtl k ttl) ∨ k ∉ op.keys) →
      Run.Guarded StoreOp.step (fun db op => op.Spares db) db calls →
        HoldsString calls (calls.foldl StoreOp.step db) k v := by
  intro calls
  induction calls using List.reverseRecOn with
  | nil => exact fun _ _ => hstart
  | append_singleton calls op ih =>
    intro hcalls hroom
    obtain ⟨hroom, hspares, -⟩ := Run.guarded_append.mp hroom
    have hholds := ih (fun op' hop' => hcalls op' (List.mem_append_left _ hop')) hroom
    have hwf : (calls.foldl StoreOp.step db).Wf := Run.invariant (fun _ op h => h.storeStep op) _ _ h
    rw [List.foldl_append]
    rcases hcalls op (by simp) with ⟨ttl, rfl⟩ | hk
    · exact hholds.setTtl hwf ttl
    · exact hholds.other hwf hspares hk

/-- **What SET has stored is what GET answers**, whatever calls are made in
between, one after the other, for requests that do not name the key, and
whoever gives the key a time to live: the string is gone only once such a
time has come and the expiry thread with it. -/
theorem set_then_get (path : Option CStr) (file : Option (List UInt8))
    (before calls : List (StoreOp S)) (calloc : Calloc) (k v : CStr) (usec : UInt64)
    (hstored : ((storeRun path file before).kvSet calloc k v usec).2 = 0)
    (hcalls : ∀ op ∈ calls, (∃ ttl, op = .setTtl k ttl) ∨
      ∃ req : Request S, req.Makes op ∧ k ∉ req.words)
    (hroom : Run.Guarded StoreOp.step (fun db op => op.Spares db)
      ((storeRun path file before).kvSet calloc k v usec).1 calls) :
    let db := calls.foldl StoreOp.step ((storeRun path file before).kvSet calloc k v usec).1
    (ReadCmd.get k).answer db = .bulk (some v) ∨
      (ReadCmd.get k).answer db = .bulk none ∧ Lapsed calls k := by
  have hwf := (Wf.storeRun path file before).kvNextVersion
  have hself := kvGetObject_kvSetObject_self hwf hstored
  have hholds : HoldsString calls
      (calls.foldl StoreOp.step ((storeRun path file before).kvSet calloc k v usec).1) k v := by
    refine holdsString_run (hwf.kvSetObject calloc k _ _) (.inl ⟨_, hself, rfl, ?_⟩) calls ?_ hroom
    · exact fun hpos : (0 : Int) ≤ -1 => absurd hpos (by decide)
    · intro op hop
      refine (hcalls op hop).imp_right fun hreq hk => ?_
      obtain ⟨req, hmakes, hnot⟩ := hreq
      exact hnot (hmakes.keys hk)
  rcases hholds with ⟨o, hget, hs, -⟩ | ⟨hnone, hlapsed⟩
  · left
    rw [ReadCmd.answer, kvGet]
    exact congrArg ReadAnswer.bulk (by rw [hget]; exact hs)
  · refine .inr ⟨?_, hlapsed⟩
    rw [ReadCmd.answer, kvGet]
    exact congrArg ReadAnswer.bulk (by rw [hnone]; rfl)

theorem set_then_get_push :
    let db := pushAndExpire.foldl StoreOp.step
      ((storeRun none none []).kvSet true (.lit "k") (.lit "v") 5).1
    (ReadCmd.get (.lit "k")).answer db = .bulk (some (.lit "v")) ∨
      (ReadCmd.get (.lit "k")).answer db = .bulk none ∧ Lapsed pushAndExpire (.lit "k") :=
  set_then_get none none [] pushAndExpire true (.lit "k") (.lit "v") 5 (by decide)
    (fun op hop => .inr (pushAndExpire_made op hop)) (by decide)

end KvTable

end AntzKV

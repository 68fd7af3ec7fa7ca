/-
AntzKV.Core.ConcurrentUpdates — `kv_incrby`, `kv_append` and `kv_setnx` as
several clients run them at the same time.

All three take the lock of the table more than once. A client is its
arguments and its program counter, and one step of it is one section that
is run under the lock; between two sections the other clients may run
theirs. The environment decides, step by step, whether there is memory
for an object and for the entries of `resize`.
-/
import AntzKV.Core.Commands
import AntzKV.Core.TableRunTheorems
import AntzKV.Lib.Interleave

namespace AntzKV

open Scanf (scanLld)
open DbObject (objCreateString)
open Interleave (System)

variable {S : Type}

/-! ## INCRBY -/

/-- Where a client stands in `kv_incrby`: which section comes next. -/
inductive IncrPc where
  /-- the first `wrlock`, with `probe` -/
  | start
  /-- the key was not found: `obj_create_string` and `kv_next_version` come
  next -/
  | absent
  /-- `kv_set_object` comes next, with the "0" under this version -/
  | versioned (ver : UInt64)
  /-- the second `wrlock` comes next -/
  | inserted
  /-- the call has ended -/
  | done (r : Outcome Int)
  deriving DecidableEq

/-- A client in `kv_incrby`; `usec` is its clock reading. -/
structure IncrClient where
  delta : Int
  usec : UInt64
  pc : IncrPc
  deriving DecidableEq

namespace IncrClient

/-- The next section of a client. -/
def act (key : CStr) (calloc : Calloc) (db : KvTable S) (c : IncrClient) :
    KvTable S × IncrClient :=
  match c.pc with
  | .start =>
    let (idx, found) := db.probe key
    if found then
      let (db, r) := db.incrAt idx c.delta
      (db, { c with pc := .done r })
    else (db, { c with pc := .absent })
  | .absent =>
    let (db, ver) := db.kvNextVersion
    if !calloc.object then (db, { c with pc := .done .segv })
    else (db, { c with pc := .versioned ver })
  | .versioned ver =>
    let (db, _) := db.kvSetObject calloc.entries key
      { objCreateString (.lit "0") c.usec with version := ver } none
    (db, { c with pc := .inserted })
  | .inserted =>
    let (db, r) := db.incrAt (db.probe key).1 c.delta
    (db, { c with pc := .done r })
  | .done _ => (db, c)

/-- What a client has added, once `kv_incrby` has returned 0. -/
def credit (c : IncrClient) : Option Int :=
  match c.pc with
  | .done (.ok _) => some c.delta
  | _ => none

end IncrClient

/-! ## APPEND -/

/-- Where a client stands in `kv_append`. -/
inductive AppendPc where
  /-- `get_string_obj` -/
  | start
  /-- there was no string: `kv_set_object` comes next -/
  | missing
  /-- the second `get_string_obj`, whose result is not used -/
  | recheck
  /-- the `wrlock` -/
  | modify
  | done (r : Outcome Nat)
  deriving DecidableEq

/-- A client in `kv_append`. -/
structure AppendClient where
  suffix : CStr
  usec : UInt64
  pc : AppendPc
  deriving DecidableEq

namespace AppendClient

def act (key : CStr) (calloc : Calloc) (db : KvTable S) (c : AppendClient) :
    KvTable S × AppendClient :=
  match c.pc with
  | .start =>
    match db.getStringObj key with
    | none => (db, { c with pc := .missing })
    | some _ => (db, { c with pc := .modify })
  | .missing =>
    let (db, ret) := db.kvSetObject calloc key (objCreateString (.lit "") c.usec) none
    if ret ≠ 0 then (db, { c with pc := .done .err }) else (db, { c with pc := .recheck })
  | .recheck => (db, { c with pc := .modify })
  | .modify =>
    match db.getStringObj key with
    | none => (db, { c with pc := .done .err })
    | some old =>
      match old.append? c.suffix with
      | none => (db, { c with pc := .done .segv })
      | some n => (db.putData key (.string n), { c with pc := .done (.ok n.strlen) })
  | .done _ => (db, c)

/-- What a client has appended, once `kv_append` has returned 0. -/
def credit (c : AppendClient) : Option (List UInt8) :=
  match c.pc with
  | .done (.ok _) => some c.suffix.bytes
  | _ => none

end AppendClient

/-! ## SETNX -/

/-- Where a client stands in `kv_setnx`. -/
inductive SetnxPc where
  /-- `kv_exists` -/
  | start
  /-- the key was not found: `kv_next_version` comes next -/
  | absent
  /-- `kv_set_object` comes next, with the value under this version -/
  | versioned (ver : UInt64)
  /-- `kv_setnx` has returned -/
  | done (r : Int)
  deriving DecidableEq

/-- A client in the branch SETNX of `process_command`. -/
structure SetnxClient where
  value : CStr
  usec : UInt64
  pc : SetnxPc
  deriving DecidableEq

namespace SetnxClient

def act (key : CStr) (calloc : Calloc) (db : KvTable S) (c : SetnxClient) :
    KvTable S × SetnxClient :=
  match c.pc with
  | .start =>
    if db.kvExists key then (db, { c with pc := .done 0 }) else (db, { c with pc := .absent })
  | .absent =>
    let (db, ver) := db.kvNextVersion
    (db, { c with pc := .versioned ver })
  | .versioned ver =>
    let (db, r) := db.kvSetMeta calloc key c.value ⟨ver, c.usec, .blank⟩
    (db, { c with pc := .done r })
  | .done _ => (db, c)

/-- `reply_int(fd, r == 0 ? 1 : 0)` -/
def reply (c : SetnxClient) : Option Int :=
  match c.pc with
  | .done r => some (if r = 0 then 1 else 0)
  | _ => none

/-- The value of a client that was answered 1. -/
def credit (c : SetnxClient) : Option CStr := if c.reply = some 1 then some c.value else none

end SetnxClient

namespace KvTable

/-! ## What no update is lost means -/

/-- The number a key holds, as `sscanf` reads it; no string counts as 0. -/
def numberAt (db : KvTable S) (key : CStr) : Int :=
  ((db.getStringObj key).bind fun t => (scanLld t.bytes).map (·.1)).getD 0

/-- The bytes a key holds. -/
def textAt (db : KvTable S) (key : CStr) : List UInt8 := (db.getStringObj key).elim [] CStr.bytes

/-- The key is absent or holds a string. -/
def StringOrAbsent (db : KvTable S) (key : CStr) : Prop :=
  ∀ o ∈ db.kvGetObject key, o.string?.isSome

instance (db : KvTable S) (key : CStr) : Decidable (db.StringOrAbsent key) :=
  inferInstanceAs (Decidable (∀ o ∈ db.kvGetObject key, o.string?.isSome))

/-- All the deltas have been added to the number there was. -/
def Summed (key : CStr) (before after : KvTable S) (deltas : List Int) : Prop :=
  after.numberAt key = before.numberAt key + deltas.sum ∧
    (deltas ≠ [] → (after.getStringObj key).isSome)

instance (key : CStr) (before after : KvTable S) (deltas : List Int) :
    Decidable (Summed key before after deltas) :=
  inferInstanceAs (Decidable (_ ∧ _))

/-- All the suffixes follow the string there was, in some order. -/
def Appended (key : CStr) (before after : KvTable S) (suffixes : List (List UInt8)) : Prop :=
  (∃ order : List (List UInt8), order.Perm suffixes ∧
    after.textAt key = before.textAt key ++ order.flatten) ∧
    (suffixes ≠ [] → (after.getStringObj key).isSome)

/-! ## When no update is lost -/

/-- The sum is a 64-bit number. -/
def NoOverflow (db : KvTable S) (key : CStr) (delta : Int) : Prop :=
  -2 ^ 63 ≤ db.numberAt key + delta ∧ db.numberAt key + delta < 2 ^ 63

instance (db : KvTable S) (key : CStr) (delta : Int) : Decidable (db.NoOverflow key delta) :=
  inferInstanceAs (Decidable (_ ∧ _))

end KvTable

/-- The section loses no update. The "0" that `kv_set_object` puts in
place of what is there must replace the number 0; without the key, the
second `wrlock` section must not come upon another key's string. -/
def IncrClient.Safe (key : CStr) (calloc : Calloc) (db : KvTable S) (c : IncrClient) : Prop :=
  match c.pc with
  | .start => db.kvExists key → db.NoOverflow key c.delta
  | .versioned _ => ¬ db.CannotStore calloc.entries → db.numberAt key = 0
  | .inserted =>
    if db.kvExists key then db.NoOverflow key c.delta
    else (db.entry (db.probe key).1).value?.bind DbObject.string? = none
  | _ => True

/-- The section loses no update: the empty string replaces an empty one. -/
def AppendClient.Safe (key : CStr) (calloc : Calloc) (db : KvTable S) (c : AppendClient) : Prop :=
  match c.pc with
  | .missing => ¬ db.CannotStore calloc → db.textAt key = []
  | _ => True

instance (key : CStr) (calloc : Calloc) (db : KvTable S) :
    (c : IncrClient) → Decidable (c.Safe key calloc db)
  | ⟨delta, _, .start⟩ => inferInstanceAs (Decidable (db.kvExists key → db.NoOverflow key delta))
  | ⟨_, _, .absent⟩ => inferInstanceAs (Decidable True)
  | ⟨_, _, .versioned _⟩ =>
    inferInstanceAs (Decidable (¬ db.CannotStore calloc.entries → db.numberAt key = 0))
  | ⟨delta, _, .inserted⟩ =>
    inferInstanceAs (Decidable (if db.kvExists key then db.NoOverflow key delta
      else (db.entry (db.probe key).1).value?.bind DbObject.string? = none))
  | ⟨_, _, .done _⟩ => inferInstanceAs (Decidable True)

instance (key : CStr) (calloc : Calloc) (db : KvTable S) :
    (c : AppendClient) → Decidable (c.Safe key calloc db)
  | ⟨_, _, .missing⟩ => inferInstanceAs (Decidable (¬ db.CannotStore calloc → db.textAt key = []))
  | ⟨_, _, .start⟩ => inferInstanceAs (Decidable True)
  | ⟨_, _, .recheck⟩ => inferInstanceAs (Decidable True)
  | ⟨_, _, .modify⟩ => inferInstanceAs (Decidable True)
  | ⟨_, _, .done _⟩ => inferInstanceAs (Decidable True)

/-- Clients about to run INCRBY on a key of the table. -/
def incrClients (db : KvTable S) (calls : List (Int × UInt64)) : System (KvTable S) IncrClient :=
  ⟨db, calls.map fun (delta, usec) => ⟨delta, usec, .start⟩⟩

/-- Their run, in the order of a schedule. -/
def incrRun (key : CStr) (db : KvTable S) (calls : List (Int × UInt64))
    (sched : List (Nat × Calloc)) : System (KvTable S) IncrClient :=
  sched.foldl (Interleave.step (IncrClient.act key)) (incrClients db calls)

/-- A run whose sections are all safe. -/
def IncrsSafely (key : CStr) (db : KvTable S) (calls : List (Int × UInt64))
    (sched : List (Nat × Calloc)) : Prop :=
  Run.Guarded (Interleave.step (IncrClient.act key)) (Interleave.Allowed (IncrClient.Safe key))
    (incrClients db calls) sched

instance (key : CStr) (db : KvTable S) (calls : List (Int × UInt64)) (sched : List (Nat × Calloc)) :
    Decidable (IncrsSafely key db calls sched) :=
  inferInstanceAs (Decidable (Run.Guarded _ (Interleave.Allowed (IncrClient.Safe key)) _ _))

/-- Clients about to run APPEND on a key of the table. -/
def appendClients (db : KvTable S) (calls : List (CStr × UInt64)) :
    System (KvTable S) AppendClient :=
  ⟨db, calls.map fun (suffix, usec) => ⟨suffix, usec, .start⟩⟩

def appendRun (key : CStr) (db : KvTable S) (calls : List (CStr × UInt64))
    (sched : List (Nat × Calloc)) : System (KvTable S) AppendClient :=
  sched.foldl (Interleave.step (AppendClient.act key)) (appendClients db calls)

def AppendsSafely (key : CStr) (db : KvTable S) (calls : List (CStr × UInt64))
    (sched : List (Nat × Calloc)) : Prop :=
  Run.Guarded (Interleave.step (AppendClient.act key)) (Interleave.Allowed (AppendClient.Safe key))
    (appendClients db calls) sched

instance (key : CStr) (db : KvTable S) (calls : List (CStr × UInt64)) (sched : List (Nat × Calloc)) :
    Decidable (AppendsSafely key db calls sched) :=
  inferInstanceAs (Decidable (Run.Guarded _ (Interleave.Allowed (AppendClient.Safe key)) _ _))

/-- Clients about to run SETNX on a key of the table. -/
def setnxClients (db : KvTable S) (calls : List (CStr × UInt64)) : System (KvTable S) SetnxClient :=
  ⟨db, calls.map fun (value, usec) => ⟨value, usec, .start⟩⟩

def setnxRun (key : CStr) (db : KvTable S) (calls : List (CStr × UInt64))
    (sched : List (Nat × Calloc)) : System (KvTable S) SetnxClient :=
  sched.foldl (Interleave.step (SetnxClient.act key)) (setnxClients db calls)

/-- Every client has its answer. -/
def AllAnswered (s : System (KvTable S) SetnxClient) : Prop := ∀ c ∈ s.clients, c.reply.isSome

instance (s : System (KvTable S) SetnxClient) : Decidable (AllAnswered s) :=
  inferInstanceAs (Decidable (∀ c ∈ s.clients, c.reply.isSome))

/-- Of the clients on an absent key exactly one was answered 1, and its
value is the key's; of those on a key that is there, none, and the object
is the old one. -/
def SetnxExclusive (key : CStr) (before : KvTable S) (s : System (KvTable S) SetnxClient) : Prop :=
  if before.kvExists key then
    Interleave.credited SetnxClient.credit s = [] ∧
      s.shared.kvGetObject key = before.kvGetObject key
  else
    ∃ v, Interleave.credited SetnxClient.credit s = [v] ∧ s.shared.kvGet key = some v

/-- The section is not made on a key that is there, unless it is a store
that fails. -/
def SetnxClient.Safe (key : CStr) (calloc : Calloc) (db : KvTable S) (c : SetnxClient) : Prop :=
  match c.pc with
  | .start => db.kvExists key = false
  | .versioned _ => db.kvExists key = true → db.CannotStore calloc
  | _ => True

/-- The section is not a store that succeeds. -/
def SetnxClient.StoreFails (calloc : Calloc) (db : KvTable S) (c : SetnxClient) : Prop :=
  match c.pc with
  | .versioned _ => db.CannotStore calloc
  | _ => True

instance (key : CStr) (calloc : Calloc) (db : KvTable S) :
    (c : SetnxClient) → Decidable (c.Safe key calloc db)
  | ⟨_, _, .start⟩ => inferInstanceAs (Decidable (db.kvExists key = false))
  | ⟨_, _, .absent⟩ => inferInstanceAs (Decidable True)
  | ⟨_, _, .versioned _⟩ =>
    inferInstanceAs (Decidable (db.kvExists key = true → db.CannotStore calloc))
  | ⟨_, _, .done _⟩ => inferInstanceAs (Decidable True)

instance (calloc : Calloc) (db : KvTable S) : (c : SetnxClient) → Decidable (c.StoreFails calloc db)
  | ⟨_, _, .start⟩ => inferInstanceAs (Decidable True)
  | ⟨_, _, .absent⟩ => inferInstanceAs (Decidable True)
  | ⟨_, _, .versioned _⟩ => inferInstanceAs (Decidable (db.CannotStore calloc))
  | ⟨_, _, .done _⟩ => inferInstanceAs (Decidable True)

end AntzKV

/-
AntzKV.Server.StringCommands — the string writes and DEL of
`process_command`, on a node with clustering enabled.

`parse_line` cuts a request into arguments, `route` is the choice of the
branch, and `exec` the branch. What a command hands to `repl_enqueue` is
appended to `enqueued`. A branch that dereferences NULL ends the process,
and a dead process executes nothing more.
-/
import AntzKV.Cluster.Bus
import AntzKV.Core.Commands

namespace AntzKV

open Scanf (scanLld)

variable {S : Type}

/-- `MAX_ARGS` -/
def maxArgs : Nat := 64

/-- The delimiters `" \t\r"`. -/
def isDelim (b : UInt8) : Bool := b == 32 || b == 9 || b == 13

/-- `parse_line`: the tokens of `strtok_r`, at most `maxArgs` of them. -/
def parseLine (buf : CStr) (maxArgs : Nat) : List CStr :=
  (((buf.bytes.splitOnP isDelim).filter fun w => !w.isEmpty).map CStr.ofBuf).take maxArgs

/-- `arg_i`, which is `strtoll`. -/
def argI (arg : CStr) : Int := ((scanLld arg.bytes).map (·.1)).getD 0

/-- The string writes and DEL, with their arguments. -/
inductive StringCommand where
  | set (key value : CStr) (options : List CStr)
  | setnx (key value : CStr)
  | setex (key seconds value : CStr)
  | append (key value : CStr)
  | incr (key : CStr)
  | decr (key : CStr)
  | incrby (key delta : CStr)
  | decrby (key delta : CStr)
  | del (keys : List CStr)

/-- The branch a request reaches; `none` when it is not one of these. -/
def route : List CStr → Option StringCommand
  | [] => none
  | cmd :: args =>
    if strcasecmpEq cmd (.lit "SET") then
      match args with
      | k :: v :: options => some (.set k v options)
      | _ => none
    else if strcasecmpEq cmd (.lit "SETNX") then
      match args with
      | k :: v :: _ => some (.setnx k v)
      | _ => none
    else if strcasecmpEq cmd (.lit "SETEX") then
      match args with
      | k :: t :: v :: _ => some (.setex k t v)
      | _ => none
    else if strcasecmpEq cmd (.lit "APPEND") then
      match args with
      | k :: v :: _ => some (.append k v)
      | _ => none
    else if strcasecmpEq cmd (.lit "INCR") then
      match args with
      | k :: _ => some (.incr k)
      | _ => none
    else if strcasecmpEq cmd (.lit "DECR") then
      match args with
      | k :: _ => some (.decr k)
      | _ => none
    else if strcasecmpEq cmd (.lit "INCRBY") then
      match args with
      | k :: d :: _ => some (.incrby k d)
      | _ => none
    else if strcasecmpEq cmd (.lit "DECRBY") then
      match args with
      | k :: d :: _ => some (.decrby k d)
      | _ => none
    else if strcasecmpEq cmd (.lit "DEL") then
      match args with
      | k :: ks => some (.del (k :: ks))
      | _ => none
    else none

/-- What one command reads of the world: the outcomes of the allocations of
a call, `now_usec()`, and the readings of the clock in msec. -/
structure Env where
  calloc : Calloc
  usec : UInt64
  now : Nat → Int

/-- The replies of these commands. -/
inductive Reply where
  | ok
  | int (n : Int)
  | err (text : CStr)
  deriving DecidableEq

/-- `g_db`, `g_my_id` and what went to the replication queue. -/
structure Server (S : Type) where
  db : KvTable S
  myId : NodeOrigin
  enqueued : List (List UInt8)
  crashed : Bool

namespace Server

/-- The option loop of SET; `i` counts the readings of the clock. -/
def setOptions (now : Nat → Int) (key : CStr) : Nat → List CStr → KvTable S → KvTable S
  | i, opt :: arg :: options, db =>
    if strcasecmpEq opt (.lit "EX") then
      setOptions now key (i + 1) options (db.kvSetTtl key (wrap64 (now i + argI arg * 1000))).1
    else if strcasecmpEq opt (.lit "PX") then
      setOptions now key (i + 1) options (db.kvSetTtl key (wrap64 (now i + argI arg))).1
    else db
  | _, _, db => db

/-- What SET does for the cluster once the value is stored. -/
def replicateSet (srv : Server S) (key value : CStr) : Server S :=
  match srv.db.kvGetMeta key with
  | none => srv
  | some (_, m) =>
    { srv with
      enqueued := srv.enqueued ++ [clusterReplicateSet key value { m with origin := srv.myId }] }

/-- A call that may fail or dereference NULL, with the reply to it. -/
def answer (srv : Server S) (r : KvTable S × Outcome Int) (err : CStr) : Server S × Option Reply :=
  match r with
  | (db, .ok n) => ({ srv with db := db }, some (.int n))
  | (db, .err) => ({ srv with db := db }, some (.err err))
  | (db, .segv) => ({ srv with db := db, crashed := true }, none)

/-- `kv_append` with its `size_t` length as an integer reply. -/
def appendLen (r : KvTable S × Outcome Nat) : KvTable S × Outcome Int :=
  match r with
  | (db, .ok n) => (db, .ok n)
  | (db, .err) => (db, .err)
  | (db, .segv) => (db, .segv)

/-- The loop of DEL: the table and the number of keys deleted. -/
def delAll (db : KvTable S) (keys : List CStr) : KvTable S × Nat :=
  keys.foldl (fun (db, n) k => ((db.kvDel k).1, if (db.kvDel k).2 = 0 then n + 1 else n)) (db, 0)

/-- The branches; `none` when the process died before the reply. -/
def exec (env : Env) (srv : Server S) : StringCommand → Server S × Option Reply
  | .set k v options =>
    let (db, ret) := srv.db.kvSet env.calloc k v env.usec
    if ret = 0 then
      (replicateSet { srv with db := setOptions env.now k 0 options db } k v, some .ok)
    else ({ srv with db := db }, some (.err (.lit "ERR")))
  | .setnx k v =>
    let (db, r) := srv.db.kvSetnx env.calloc k v env.usec
    ({ srv with db := db }, some (.int (if r = 0 then 1 else 0)))
  | .setex k t v =>
    let (db, _) :=
      srv.db.kvSetex env.calloc k v (wrap64 (argI t * 1000)) env.usec (env.now 0)
    ({ srv with db := db }, some .ok)
  | .append k v => answer srv (appendLen (srv.db.kvAppend env.calloc k v env.usec)) (.lit "ERR")
  | .incr k =>
    answer srv (srv.db.kvIncr env.calloc k env.usec) (.lit "ERR value is not an integer")
  | .decr k =>
    answer srv (srv.db.kvDecr env.calloc k env.usec) (.lit "ERR value is not an integer")
  | .incrby k d => answer srv (srv.db.kvIncrby env.calloc k (argI d) env.usec) (.lit "ERR")
  | .decrby k d => answer srv (srv.db.kvDecrby env.calloc k (argI d) env.usec) (.lit "ERR")
  | .del ks =>
    let (db, n) := delAll srv.db ks
    ({ srv with db := db }, some (.int n))

/-- `process_command` on a line that is a string write or a DEL. -/
def processCommand (srv : Server S) (env : Env) (line : CStr) : Server S × Option Reply :=
  if srv.crashed then (srv, none)
  else
    match route (parseLine line maxArgs) with
    | none => (srv, none)
    | some cmd => srv.exec env cmd

end Server

end AntzKV

/-
AntzKV.Cluster.Replica — the writes a node receives on the cluster bus.

`handle_client` of `cluster.c` turns a SET line into a `kv_set_meta` call
and a DEL line into a `kv_del_meta` call, each with the metadata of the
line. Messages of several peers arrive in any order.
-/
import AntzKV.Core.Table

namespace AntzKV

/-- A replicated write, as a line on the bus carries it. -/
inductive ReplWrite where
  | set (key value : CStr) (m : KvMeta)
  | del (key : CStr) (m : KvMeta)
  deriving DecidableEq

namespace ReplWrite

variable {S : Type}

def key : ReplWrite → CStr
  | .set key _ _ => key
  | .del key _ => key

def kvMeta : ReplWrite → KvMeta
  | .set _ _ m => m
  | .del _ m => m

def isSet : ReplWrite → Bool
  | .set .. => true
  | .del .. => false

/-- The call `handle_client` makes for the write. -/
def apply (db : KvTable S) : ReplWrite → KvTable S
  | .set key value m => (db.kvSetMeta true key value m).1
  | .del key m => (db.kvDelMeta key m).1

end ReplWrite

end AntzKV

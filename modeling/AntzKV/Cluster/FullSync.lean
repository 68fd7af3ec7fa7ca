/-
AntzKV.Cluster.FullSync — the answer of `handle_client` to SYNC_REQ, and a
node with an empty table that reads it.

The answer is a SNAPSHOT line, a SET line for each string key in the order
of `kv_keys`, and SNAPSHOT_END. Every message is written whole. The node
that asked reads the bytes with the same loop, `handleClient`; SNAPSHOT and
SNAPSHOT_END have no branch there.
-/
import AntzKV.Core.Reads
import AntzKV.Cluster.Bus

namespace AntzKV

open LineFraming (Reader)

variable {S : Type}

namespace KvTable

/-- The message of the loop over the keys, for one key. -/
def syncMsg (db : KvTable S) (key : CStr) : List UInt8 :=
  match db.kvGetMeta key with
  | none => []
  | some (v, m) => (clusterBuildMsg clusterMsgSize .set key v (some m)).getD []

/-- The bytes written in answer to SYNC_REQ. -/
def syncAnswer (db : KvTable S) : List UInt8 :=
  (clusterBuildMsg clusterMsgSize .snapshot (.lit "") (.lit "")
      (some ⟨db.dbVersion, 0, .blank⟩)).getD []
    ++ db.kvKeys.flatMap db.syncMsg
    ++ (clusterBuildMsg clusterMsgSize .snapshotEnd (.lit "") (.lit "") none).getD []

/-- The string keys of a table with their values and metas, and no other
key. -/
structure Copies (db copy : KvTable S) : Prop where
  all : ∀ k v m, db.kvGetMeta k = some (v, m) → copy.kvGetMeta k = some (v, m)
  only : ∀ k o, copy.kvGetObject k = some o → ∃ v m, db.kvGetMeta k = some (v, m)

end KvTable

/-- A node with an empty table, after some reads of the answer. -/
def joiner (path : Option CStr) (db : KvTable S) (reads : List Nat) : Reader (BusNode S) :=
  reads.foldl handleClient ⟨⟨.fresh path, false⟩, [], db.syncAnswer, false⟩

/-- Full sync does what it is for: however the answer is cut into reads,
when the loop can go no further the node has a copy of the string keys. -/
def SyncTransfers (path : Option CStr) (db : KvTable S) : Prop :=
  ∀ reads : List Nat, (joiner path db reads).Drained →
    (joiner path db reads).state.crashed = false ∧ db.Copies (joiner path db reads).state.db

end AntzKV

/-
AntzKV.Cluster.Bus — the messages of the cluster bus: `cluster_build_msg`,
`cluster_parse_cmd`, `parse_meta` and the dispatch of `handle_client`.

A message is a line of text, bytes up to its newline. `handle_client` is
`LineFraming.Reader.read` over its buffer `rx`, with `handleLine` for what
it does with a line. Of the other commands of the bus HEARTBEAT and JOIN
are bookkeeping about peers, and SYNC_REQ reads the table; none writes
it.
-/
import AntzKV.Cluster.Replica
import AntzKV.Lib.LineFraming
import AntzKV.Lib.Scanf

namespace AntzKV

open Scanf (skipSpace decimal scanStr scanUll)

variable {S : Type}

/-- `cluster_cmd_t` -/
inductive ClusterCmd where
  | heartbeat
  | set
  | del
  | join
  | syncReq
  | snapshot
  | snapshotEnd
  | unknown
  deriving DecidableEq

/-- `CLUSTER_MSG_SIZE` -/
def clusterMsgSize : Nat := 8192

/-- The size of `rx`, `line` and `rest` in `handle_client`. -/
def busBufSize : Nat := 4096

/-! ## Sending -/

/-- What `snprintf` leaves in a buffer of `len` bytes, without the NUL. -/
def snprintf (len : Nat) (text : List UInt8) : List UInt8 := text.take (len - 1)

/-- `"%s %llu %llu"` of a meta. -/
def metaText (m : KvMeta) : List UInt8 :=
  m.origin.text.bytes ++ 32 :: decimal m.version.toNat ++ 32 :: decimal m.wallclock.toNat

/-- `"SET %s %llu %llu %s %s"` -/
def setText (m : KvMeta) (key value : CStr) : List UInt8 :=
  (CStr.lit "SET ").bytes ++ metaText m ++ 32 :: key.bytes ++ 32 :: value.bytes

/-- `cluster_build_msg`: the text in `buf`; `none` is the return value -1,
or a NULL meta where one is read. -/
def clusterBuildMsg (len : Nat) (cmd : ClusterCmd) (key value : CStr) (m : Option KvMeta) :
    Option (List UInt8) :=
  match cmd, m with
  | .heartbeat, m =>
    some (snprintf len
      ((CStr.lit "HEARTBEAT ").bytes ++ decimal (m.elim 0 (·.version.toNat)) ++ [10]))
  | .set, some m => some (snprintf len (setText m key value ++ [10]))
  | .del, some m =>
    some (snprintf len ((CStr.lit "DEL ").bytes ++ metaText m ++ 32 :: key.bytes ++ [10]))
  | .syncReq, _ => some (snprintf len ((CStr.lit "SYNC_REQ ").bytes ++ key.bytes ++ [10]))
  | .snapshot, m =>
    some (snprintf len
      ((CStr.lit "SNAPSHOT ").bytes ++ decimal (m.elim 0 (·.version.toNat)) ++ [10]))
  | .snapshotEnd, _ => some (snprintf len ((CStr.lit "SNAPSHOT_END").bytes ++ [10]))
  | _, _ => none

/-- The message `cluster_replicate_set` hands to `repl_enqueue`. -/
def clusterReplicateSet (key value : CStr) (m : KvMeta) : List UInt8 :=
  (clusterBuildMsg clusterMsgSize .set key value (some m)).getD []

/-! ## Receiving -/

/-- The tests of `cluster_parse_cmd`, in its order. -/
def busCmds : List (CStr × ClusterCmd) :=
  [(.lit "HEARTBEAT", .heartbeat), (.lit "SET ", .set), (.lit "DEL ", .del), (.lit "JOIN ", .join),
    (.lit "SYNC_REQ", .syncReq), (.lit "SNAPSHOT ", .snapshot), (.lit "SNAPSHOT_END", .snapshotEnd)]

/-- `cluster_parse_cmd`: the command and `rest`. -/
def clusterParseCmd (line : List UInt8) (restLen : Nat) : ClusterCmd × List UInt8 :=
  let p := skipSpace line
  match busCmds.find? fun c => strncasecmpEq p c.1 with
  | some (name, cmd) => (cmd, (p.drop name.strlen).take restLen)
  | none => (.unknown, [])

/-- What the conversions of the `sscanf` of `parse_meta` were given; `none`
for a text of which nothing was left. The last has a destination in a SET
only. -/
structure MetaFields where
  kvMeta : KvMeta
  key : Option CStr
  val : Option CStr

/-- `parse_meta`; `none` when fewer than three conversions were made. -/
def parseMeta (rest : List UInt8) : Option MetaFields := do
  let (origin, s) ← scanStr 15 rest
  let (version, s) ← scanUll s
  let (wallclock, s) ← scanUll s
  let m : KvMeta := ⟨.ofNat version, .ofNat wallclock, .ofCStr (.ofBuf origin)⟩
  match scanStr 4095 s with
  | none => some ⟨m, none, none⟩
  | some (key, s) => some ⟨m, some (.ofBuf key), (scanStr 4095 s).map fun v => .ofBuf v.1⟩

/-- A node as the bus sees it; a process that died at a line of a client
handles no more. -/
structure BusNode (S : Type) where
  db : KvTable S
  crashed : Bool

/-- The dispatch of `handle_client` on a line; `key` and `value` are
zeroed before `parse_meta` fills them. -/
def handleLine (n : BusNode S) (line : List UInt8) : BusNode S :=
  if n.crashed then n
  else
    match clusterParseCmd (line.take (busBufSize - 1)) busBufSize with
    | (.set, rest) =>
      match parseMeta rest with
      | none => n
      | some f =>
        { n with
          db := (ReplWrite.set (f.key.getD (.lit "")) (f.val.getD (.lit "")) f.kvMeta).apply n.db }
    | (.del, rest) =>
      match parseMeta rest with
      | none => n
      | some f =>
        -- a fifth field meets a NULL destination: `sscanf` stops there, with
        -- its four conversions counted
        { n with db := (ReplWrite.del (f.key.getD (.lit "")) f.kvMeta).apply n.db }
    | _ => n

/-- One round of the loop of `handle_client`, with `avail` bytes arrived. -/
def handleClient (r : LineFraming.Reader (BusNode S)) (avail : Nat) :
    LineFraming.Reader (BusNode S) := r.read busBufSize handleLine avail

end AntzKV

/-
AntzKV.Core.Snapshot — the snapshot file: `kv_save` and the load loop of
`kv_open`.

A file is its bytes. `size_t` and `uint64_t` fields are eight bytes in
the byte order of the host, taken as little-endian. The load loop is
kept apart from its effect: `loadLoop` is the list of `kv_set_meta` calls
it makes, and `kvOpen` makes them.

The short-read exits are the `none` of `fread`. The two `malloc` calls
succeed whenever the bytes they are to hold exist, so their exits are
short reads too.

`kvSave` is the file of a save that goes well. `kvSaveOn` is the same
function one file operation at a time, with what a disk and a process can
do to it in between. `loadOn` is the load loop with its two `malloc` calls
made, for what they are asked for and what is then read into them.
-/
import AntzKV.Core.Table
import AntzKV.Lib.ByteCursor

namespace AntzKV

open OpenAddressing (Slot)
open ByteCursor (leBytes leNat fread)

variable {S : Type}

/-- One string record of a snapshot: the arguments of a `kv_set_meta` call. -/
structure SnapRecord where
  key : CStr
  value : CStr
  kvMeta : KvMeta
  deriving DecidableEq

/-- `char orig[16] = {0}; memcpy(orig, origin, 15);`, the 15 bytes of it
that are written. -/
def originBytes (o : NodeOrigin) : List UInt8 :=
  o.text.bytes ++ List.replicate (nodeOriginLen - 1 - o.text.strlen) 0

/-- The seven parts `kv_save` writes for a record. -/
def encodeRecord (r : SnapRecord) : List UInt8 :=
  leBytes 8 r.key.strlen ++ (r.key.bytes ++ (leBytes 8 r.value.strlen ++ (r.value.bytes ++
    (leBytes 8 r.kvMeta.version.toNat ++ (leBytes 8 r.kvMeta.wallclock.toNat ++
      originBytes r.kvMeta.origin)))))

/-- The record of an entry: `E_OCCUPIED` entries of type `OBJ_STRING` have one. -/
def snapRecord? : KvEntry S → Option SnapRecord
  | .occupied k o => o.string?.map fun v => ⟨k, v, o.kvMeta⟩
  | _ => none

namespace KvTable

/-- The string records of a table, in table order. -/
def stringRecords (db : KvTable S) : List SnapRecord := db.entries.filterMap snapRecord?

/-- `kv_save`: the bytes it writes, `none` for a table without a path. -/
def kvSave (db : KvTable S) : Option (List UInt8) :=
  db.path.map fun _ => leBytes 8 db.count ++ db.stringRecords.flatMap encodeRecord

/-- One round of the load loop; `none` is any of its `break`s. -/
def loadRecord (s : List UInt8) : Option (SnapRecord × List UInt8) := do
  let (kl, s) ← fread 8 s
  let (k, s) ← fread (leNat kl) s
  let (vl, s) ← fread 8 s
  let (v, s) ← fread (leNat vl) s
  let (ver, s) ← fread 8 s
  let (wc, s) ← fread 8 s
  let (origin, s) ← fread 15 s
  let m : KvMeta :=
    { version := UInt64.ofNat (leNat ver), wallclock := UInt64.ofNat (leNat wc)
      origin := .ofCStr (.ofBuf origin) }
  return ({ key := .ofBuf k, value := .ofBuf v, kvMeta := m }, s)

/-- `for (size_t i = 0; i < n; ++i)` over the rest of the file. -/
def loadLoop : Nat → List UInt8 → List SnapRecord
  | 0, _ => []
  | n + 1, s =>
    match loadRecord s with
    | none => []
    | some (r, s) => r :: loadLoop n s

/-- The `kv_set_meta` calls of `kv_open` for a file. -/
def loadCalls (file : List UInt8) : List SnapRecord :=
  match fread 8 file with
  | none => []
  | some (n, s) => loadLoop (leNat n) s

/-- One of these calls. -/
def replay (db : KvTable S) (r : SnapRecord) : KvTable S :=
  (kvSetMeta true db r.key r.value r.kvMeta).1

/-- `kv_open`; `file` is what the path names, `none` when it cannot be
opened. -/
def kvOpen (path : Option CStr) (file : Option (List UInt8)) : KvTable S :=
  match path, file with
  | some _, some bytes => (loadCalls bytes).foldl replay (fresh path)
  | _, _ => fresh path

end KvTable

/-! ## `kv_save`, one file operation at a time -/

/-- The calls `kv_save` makes on its file. -/
inductive FileOp
  | fopen
  | fwrite (buf : List UInt8)
  | fclose

/-- What befalls a save. `lands` says which bytes handed to the stream, by
their position in it, reach the file: a call or a flush that fails loses
bytes, and what is still in the buffer dies with the process. -/
structure Disk where
  /-- Whether `fopen` succeeds. -/
  opens : Bool
  lands : Nat → Bool
  /-- The file operations made before the process is stopped; it is not
  stopped when there are no more of them. -/
  made : Nat

/-- The bytes of a buffer that reach the file; `pos` is the position of the
first of them in the stream. -/
def landing (lands : Nat → Bool) : Nat → List UInt8 → List UInt8
  | _, [] => []
  | pos, b :: bs =>
    if lands pos then b :: landing lands (pos + 1) bs else landing lands (pos + 1) bs

structure SaveState where
  /-- What the path names. -/
  file : Option (List UInt8)
  /-- The bytes handed to the stream so far. -/
  pos : Nat
  /-- The return value, once there is one. -/
  ret : Option Int

/-- One file operation. The results of `fwrite` and `fclose` are not looked
at. -/
def fileOp (d : Disk) (s : SaveState) (op : FileOp) : SaveState :=
  match s.ret, op with
  | some _, _ => s
  | none, .fopen => if d.opens then { s with file := some [] } else { s with ret := some (-1) }
  | none, .fwrite buf =>
    { s with file := s.file.map (· ++ landing d.lands s.pos buf), pos := s.pos + buf.length }
  | none, .fclose => { s with ret := some 0 }

/-- The seven `fwrite` calls for a record. -/
def recordWrites (r : SnapRecord) : List (List UInt8) :=
  [leBytes 8 r.key.strlen, r.key.bytes, leBytes 8 r.value.strlen, r.value.bytes,
    leBytes 8 r.kvMeta.version.toNat, leBytes 8 r.kvMeta.wallclock.toNat,
    originBytes r.kvMeta.origin]

namespace KvTable

/-- The `fwrite` calls of `kv_save`: the header, and seven for each string
record. -/
def saveWrites (db : KvTable S) : List (List UInt8) :=
  leBytes 8 db.count :: db.stringRecords.flatMap recordWrites

def saveOps (db : KvTable S) : List FileOp :=
  .fopen :: (db.saveWrites.map .fwrite ++ [.fclose])

/-- `kv_save` over a file and under faults. -/
def kvSaveOn (d : Disk) (db : KvTable S) (file : Option (List UInt8)) : SaveState :=
  match db.path with
  | none => ⟨file, 0, some (-1)⟩
  | some _ => (db.saveOps.take d.made).foldl (fileOp d) ⟨file, 0, none⟩

end KvTable

/-! ## The load loop, one allocation at a time -/

/-- A buffer of the load loop. `fread` may store `count` bytes in it, and
the NUL goes to index `count`. -/
structure Buffer where
  size : Nat
  count : Nat

/-- `p = malloc(len + 1)`, then `fread(p, 1, len, fp)`. -/
def lenBuffer (len : Nat) : Buffer := ⟨(len + 1) % sizeBound, len⟩

/-- What the load loop did: its buffers, the `kv_set_meta` calls, and
whether it was left before the fuel ran out. -/
structure Load where
  buffers : List Buffer
  records : List SnapRecord
  finished : Bool

namespace KvTable

/-- A length and that many bytes. `malloc call size` says whether the call
of that number returns a buffer. -/
def readSized (malloc : Nat → Nat → Bool) (call : Nat) (s : List UInt8) :
    List Buffer × Option (List UInt8 × List UInt8) :=
  match fread 8 s with
  | none => ([], none)
  | some (len, s) =>
    let buf := lenBuffer (leNat len)
    if malloc call buf.size then ([buf], fread buf.count s) else ([], none)

/-- The rest of a round, once key and value are read. -/
def readMeta (k v : List UInt8) (s : List UInt8) : Option (SnapRecord × List UInt8) := do
  let (ver, s) ← fread 8 s
  let (wc, s) ← fread 8 s
  let (origin, s) ← fread 15 s
  let m : KvMeta :=
    { version := UInt64.ofNat (leNat ver), wallclock := UInt64.ofNat (leNat wc)
      origin := .ofCStr (.ofBuf origin) }
  return ({ key := .ofBuf k, value := .ofBuf v, kvMeta := m }, s)

/-- Round `i` of the load loop: its buffers, and the record with the rest of
the file unless the round ended in a `break`. -/
def loadRecordOn (malloc : Nat → Nat → Bool) (i : Nat) (s : List UInt8) :
    List Buffer × Option (SnapRecord × List UInt8) :=
  match readSized malloc (2 * i) s with
  | (bufs, none) => (bufs, none)
  | (bufs, some (k, s)) =>
    match readSized malloc (2 * i + 1) s with
    | (bufs', none) => (bufs ++ bufs', none)
    | (bufs', some (v, s)) => (bufs ++ bufs', readMeta k v s)

/-- `for (size_t i = 0; i < n; ++i)` from some `i`, with fuel for the number
of rounds. -/
def loadLoopOn (malloc : Nat → Nat → Bool) (n : Nat) : Nat → Nat → List UInt8 → Load
  | 0, _, _ => ⟨[], [], false⟩
  | fuel + 1, i, s =>
    if i < n then
      match loadRecordOn malloc i s with
      | (bufs, none) => ⟨bufs, [], true⟩
      | (bufs, some (r, s)) =>
        let rest := loadLoopOn malloc n fuel (i + 1) s
        ⟨bufs ++ rest.buffers, r :: rest.records, rest.finished⟩
    else ⟨[], [], true⟩

/-- What `kv_open` does with the file it opened. -/
def loadOn (malloc : Nat → Nat → Bool) (fuel : Nat) (file : List UInt8) : Load :=
  match fread 8 file with
  | none => ⟨[], [], true⟩
  | some (n, s) => loadLoopOn malloc (leNat n) fuel 0 s

end KvTable

end AntzKV

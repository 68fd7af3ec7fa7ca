/-
AntzKV.Cluster.Conf — the cluster configuration file and the identity a
server takes from it.

A file is read with `fgets` into a buffer of 256 bytes; what one call
delivers is a line. A line that is neither blank nor a comment and has the
fields `id` and `host` is a node. `int` is `Int32`.

The two NULL exits of `cluster_conf_load` are its `none`: no file, and no
node in it. Memory does not run out.
-/
import AntzKV.Core.Object
import AntzKV.Lib.ByteCursor
import AntzKV.Lib.Scanf

namespace AntzKV

open Scanf (isSpace skipSpace scanLld)

/-! ## Fields of a line -/

/-- The search of `parse_field_str` for `key=` at the start of a line or
behind white space, and the text behind it up to the next white space. The
key is not empty. `start` says that a field may begin here, and `skip`
counts the bytes of a rejected occurrence of the key that are still to be
passed over. -/
def fieldValue (key : List UInt8) : Nat → Bool → List UInt8 → Option (List UInt8)
  | _, _, [] => none
  | skip + 1, _, b :: s => fieldValue key skip (isSpace b) s
  | 0, start, b :: s =>
    if key.isPrefixOf (b :: s) then
      if start && (b :: s)[key.length]? == some 61 then
        some (((b :: s).drop (key.length + 1)).takeWhile (!isSpace ·))
      else fieldValue key (key.length - 1) (isSpace b) s
    else fieldValue key 0 (isSpace b) s

/-- The whole value of a field. -/
def fieldText (line key : CStr) : Option CStr :=
  (fieldValue key.bytes 0 true line.bytes).map .ofBuf

/-- `parse_field_str`: the value, cut to the buffer. -/
def parseFieldStr (line key : CStr) (outLen : Nat) : Option CStr :=
  (fieldText line key).map (·.take (outLen - 1))

/-! `fieldValue` goes byte by byte. What stands in the source jumps: -/

/-- `strstr`: how far ahead the first occurrence begins. -/
def strstr (key : List UInt8) : List UInt8 → Option Nat
  | [] => if key.isPrefixOf [] then some 0 else none
  | b :: s => if key.isPrefixOf (b :: s) then some 0 else (strstr key s).map (· + 1)

/-- `p == line || isspace((unsigned char)p[-1])` -/
def startAt (text : List UInt8) (p : Nat) : Bool := p == 0 || (text[p - 1]?).any isSpace

/-- The loop of `parse_field_str` from the index `p` of the line on; the
outer `none` is a loop that has not come to its end. -/
def fieldLoop (text key : List UInt8) : Nat → Nat → Option (Option (List UInt8))
  | 0, _ => none
  | fuel + 1, p =>
    if text.length ≤ p then some none
    else
      match strstr key (text.drop p) with
      | none => some none
      | some i =>
        if startAt text (p + i) && text[p + i + key.length]? == some 61 then
          some (some ((text.drop (p + i + key.length + 1)).takeWhile (!isSpace ·)))
        else fieldLoop text key fuel (p + i + key.length)

/-- `parse_field_str` with its own loop, for a buffer of at least one byte. -/
def parseFieldLoop (fuel : Nat) (line key : CStr) (outLen : Nat) : Option (Option CStr) :=
  (fieldLoop line.bytes key.bytes fuel 0).map fun found => found.map fun val =>
    .ofBuf (val.take (if outLen ≤ val.length then outLen - 1 else val.length))

/-- `atoi`, which is `strtol` cut to an `int`. -/
def atoi (s : List UInt8) : Int32 := Int32.ofInt (((scanLld s).map (·.1)).getD 0)

/-- `replica mode` -/
inductive ReplMode
  | auto
  | disk
  | memory
  deriving DecidableEq

/-- `cluster_node_conf_t`. -/
structure ClusterNodeConf where
  id : NodeOrigin
  host : CStr
  clientPort : Int32
  clusterPort : Int32
  repl : ReplMode
  deriving DecidableEq

/-- The text before the colon of a `port` field, and the text behind it if
there is one. -/
def splitPort (portStr : List UInt8) : List UInt8 × Option (List UInt8) :=
  match portStr.dropWhile (· != 58) with
  | [] => (portStr, none)
  | _ :: rest => (portStr.takeWhile (· != 58), some rest)

/-- `*p == '#' || *p == '\0'` behind the white space of a line. -/
def isComment (line : CStr) : Bool :=
  match skipSpace line.bytes with
  | [] => true
  | b :: _ => b == 35

/-- The body of the loop of `cluster_conf_load`; `none` is its `continue`. -/
def confNode (myClientPort myClusterPort : Int32) (line : CStr) : Option ClusterNodeConf :=
  if isComment line then none
  else do
    let id ← parseFieldStr line (.lit "id") nodeOriginLen
    let host ← parseFieldStr line (.lit "host") 64
    let (clientPort, clusterPort) :=
      match parseFieldStr line (.lit "port") 32 with
      | none => (myClientPort, myClusterPort)
      | some portStr =>
        match splitPort portStr.bytes with
        | (client, none) => (atoi client, myClusterPort)
        | (client, some bus) => (atoi client, atoi bus)
    let repl : ReplMode :=
      match parseFieldStr line (.lit "replicate") 16 with
      | none => .auto
      | some s => if s = .lit "disk" then .disk else if s = .lit "memory" then .memory else .auto
    return { id := .ofCStr id, host, clientPort, clusterPort, repl }

/-! ## Self-discovery -/

/-- The lines of a file, as `char line[256]` holds them. -/
def confLines (file : List UInt8) : List CStr :=
  (ByteCursor.fgetsLoop 256 file.length file).map .ofBuf

/-- `my_node`: the first node with the port, else node 0. -/
def selfIndex (nodes : List ClusterNodeConf) (myClientPort : Int32) : Nat :=
  (nodes.findIdx? (·.clientPort == myClientPort)).getD 0

theorem selfIndex_lt {nodes : List ClusterNodeConf} (h : nodes ≠ []) (port : Int32) :
    selfIndex nodes port < nodes.length := by
  unfold selfIndex
  cases hfind : nodes.findIdx? (·.clientPort == port) with
  | none => exact List.length_pos_of_ne_nil h
  | some i =>
    obtain ⟨hi, -⟩ := List.findIdx?_eq_some_iff_getElem.mp hfind
    exact hi

/-- `cluster_conf_t`, as it is loaded: `my_node` is one of the nodes, so the
test of its range that every use of it makes succeeds. -/
structure ClusterConf where
  nodes : List ClusterNodeConf
  myNode : Nat
  inRange : myNode < nodes.length
  myClusterPort : Int32

/-- `cluster_conf_load`; the file is `none` when it cannot be opened. -/
def clusterConfLoad (file : Option (List UInt8)) (myClientPort myClusterPort : Int32) :
    Option ClusterConf := do
  let bytes ← file
  let nodes := (confLines bytes).filterMap (confNode myClientPort myClusterPort)
  if h : nodes ≠ [] then
    return { nodes, myNode := selfIndex nodes myClientPort
             inRange := selfIndex_lt h myClientPort, myClusterPort }
  else none

/-- The part of `cluster_state_t` that `cluster_init` takes from the
configuration. -/
structure ClusterState where
  myId : NodeOrigin
  busPort : Int32
  /-- The list from its head. -/
  peers : List ClusterNodeConf

/-- `cluster_init` -/
def clusterInit (conf : ClusterConf) : ClusterState where
  myId := .ofCStr (conf.nodes.get ⟨conf.myNode, conf.inRange⟩).id.text
  busPort := if conf.myClusterPort ≠ 0 then conf.myClusterPort else 16380
  peers := (conf.nodes.eraseIdx conf.myNode).reverse

/-- The start-up of a server with `-p port` and `-C busPort` (0 without it);
without a configuration it does not start. -/
def startUp (file : Option (List UInt8)) (port busPort : Int32) : Option ClusterState :=
  (clusterConfLoad file port (if busPort ≠ 0 then busPort else port + 10000)).map clusterInit

end AntzKV

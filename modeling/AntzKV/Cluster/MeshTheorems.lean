/-
AntzKV.Cluster.MeshTheorems — replication invents nothing.

A string travels from the node where a client has set it through the
queue, a connection and the receiving loop into the tables of the peers.
Lines may be dropped with the queue, cut off with a connection, or come
late, and the daemons of a node share its connections; but what a peer
ends up with under a key was put there by a client, somewhere, under that
key, or came out of a file (`Mesh.no_thin_air`).

The invariant follows the string: what is in a table, in a queue, in the
hands of a daemon and in the stream of a connection has an origin
(`Mesh.Traced`). Two things are asked of the runs. The words of the lines
are words for `sscanf` as well; and no daemon writes to a connection of
which the other has just torn a line.
-/
import AntzKV.Cluster.GrammarTheorems
import AntzKV.Cluster.Mesh
import AntzKV.Cluster.ReplQueueTheorems
import AntzKV.Server.CallsTheorems
import AntzKV.Server.SetMessageTheorems

namespace AntzKV

open Scanf (decimal decimalInt)
open LineFraming (IsLine encode fitting lines)

variable {ι S : Type}

/-! ## A replicated write in a table -/

theorem wf_apply_set {db : KvTable S} (h : db.Wf) (key value : CStr) (m : KvMeta) :
    ((ReplWrite.set key value m).apply db).Wf := h.kvSetObject true key _ _

/-- With room or without, no other key gets a string by it. -/
theorem kvGet_apply_set {db : KvTable S} (h : db.Wf) {key value k v : CStr} {m : KvMeta}
    (hget : ((ReplWrite.set key value m).apply db).kvGet k = some v) :
    db.kvGet k = some v ∨ (k = key ∧ v = value) := by
  have happly : (ReplWrite.set key value m).apply db = (db.kvSetMeta true key value m).1 := rfl
  rw [happly, KvTable.kvSetMeta] at hget
  rcases KvTable.kvSetObject_cases true db key
    ((DbObject.objCreateString value m.wallclock).stamp (some m)) (some m) with hr | ⟨db', hr⟩
  · rw [hr] at hget
    exact .inl hget
  · rw [hr] at hget
    obtain ⟨t, hgrow, hentries, -⟩ := KvTable.kvSetObject_eq_zero hr
    obtain ⟨hwf, -, hsame, -⟩ := h.grow hgrow
    rw [KvTable.kvGet, KvTable.kvGetObject_congr hentries,
      KvTable.kvGetObject_store hwf.capacity_pos hwf.findable] at hget
    split at hget
    · rename_i hk
      exact .inr ⟨hk, (Option.some.inj hget).symm⟩
    · split at hget
      · cases hget
      · rw [hsame] at hget
        exact .inl hget

/-! ## What a request enqueues -/

theorem isWord_of_mem_parseLine {line t : CStr} {n : Nat}
    (hplain : ∀ b ∈ line.bytes, b ≠ 10 ∧ b ≠ 11 ∧ b ≠ 12) (ht : t ∈ parseLine line n) :
    IsWord t := by
  have hword : t.bytes ∈ Words.words isDelim line.bytes := by
    refine List.mem_of_mem_take (i := n) ?_
    rw [← bytes_parseLine]
    exact List.mem_map_of_mem ht
  refine ⟨Words.of_mem_words hword, fun b hb => ?_⟩
  have hline := hplain b (Words.mem_of_mem_words hword b hb)
  have hdelim := Words.letter_of_mem_words hword b hb
  simp only [isDelim, Bool.or_eq_false_iff, beq_eq_false_iff_ne] at hdelim
  simp only [Scanf.isSpace, Bool.or_eq_false_iff, beq_eq_false_iff_ne, Bool.and_eq_false_iff,
    decide_eq_false_iff_not]
  obtain ⟨⟨hblank, htab⟩, hcr⟩ := hdelim
  obtain ⟨h10, h11, h12⟩ := hline
  refine ⟨hblank, ?_⟩
  by_contra hspace
  rw [not_or, not_not, not_not] at hspace
  obtain ⟨hge, hle⟩ := hspace
  -- between 9 and 13 every byte is excluded
  rw [UInt8.le_iff_toNat_le] at hge hle
  have hne : ∀ n : UInt8, b ≠ n → b.toNat ≠ n.toNat := fun n h hn => h (UInt8.toNat_inj.mp hn)
  have h9 := hne 9 htab
  have h10' := hne 10 h10
  have h11' := hne 11 h11
  have h12' := hne 12 h12
  have h13 := hne 13 hcr
  simp at hge hle h9 h10' h11' h12' h13
  omega

namespace Server

variable [LinearOrder S]

omit [LinearOrder S] in
theorem answer_frame (srv : Server S) (r : KvTable S × Outcome Int) (err : CStr) :
    (srv.answer r err).1.enqueued = srv.enqueued ∧ (srv.answer r err).1.myId = srv.myId := by
  rcases r with ⟨db, _ | _ | _⟩ <;> exact ⟨rfl, rfl⟩

omit [LinearOrder S] in
theorem enqueued_exec (env : Env) (srv : Server S) {c : StringCommand}
    (hc : ∀ k v options, c ≠ .set k v options) :
    (srv.exec env c).1.enqueued = srv.enqueued := by
  cases c with
  | set k v options => exact absurd rfl (hc k v options)
  | setnx k v => rfl
  | setex k t v => rfl
  | del ks => rfl
  | append k v => exact (answer_frame srv _ _).1
  | incr k => exact (answer_frame srv _ _).1
  | decr k => exact (answer_frame srv _ _).1
  | incrby k d => exact (answer_frame srv _ _).1
  | decrby k d => exact (answer_frame srv _ _).1

omit [LinearOrder S] in
theorem myId_exec (env : Env) (srv : Server S) (c : StringCommand) :
    (srv.exec env c).1.myId = srv.myId := by
  cases c with
  | set k v options =>
    simp only [exec, replicateSet]
    repeat' split
    all_goals rfl
  | setnx k v => rfl
  | setex k t v => rfl
  | del ks => rfl
  | append k v => exact (answer_frame srv _ _).2
  | incr k => exact (answer_frame srv _ _).2
  | decr k => exact (answer_frame srv _ _).2
  | incrby k d => exact (answer_frame srv _ _).2
  | decrby k d => exact (answer_frame srv _ _).2

theorem execCommand_frame (w : World S) (ps : PubsubMgr) (srv : Server S) {c : Command}
    (hc : ∀ s, c ≠ .string s) :
    (srv.execCommand w ps c).1.enqueued = srv.enqueued ∧
      (srv.execCommand w ps c).1.myId = srv.myId := by
  cases c with
  | string s => exact absurd rfl (hc s)
  | _ => exact ⟨rfl, rfl⟩

/-- The identity of a server does not change. -/
theorem myId_serve (srv : Server S) (req : Request S) : (srv.serve req).1.myId = srv.myId := by
  simp only [serve]
  split
  · rfl
  · cases req with
    | line w ps fd text =>
      simp only [processCommandSends]
      cases parseLine text maxArgs with
      | nil => rfl
      | cons cmd args =>
        by_cases hstring : ∃ c, branch cmd args = .string c
        · obtain ⟨c, hc⟩ := hstring
          simp only [hc]
          exact myId_exec w.toEnv srv c
        · exact (execCommand_frame w ps srv fun s hs => hstring ⟨s, hs⟩).2
    | replicated write => rfl
    | expire now rand => rfl

theorem wf_serve {srv : Server S} (h : srv.db.Wf) (req : Request S) : (srv.serve req).1.db.Wf := by
  cases hlive : srv.crashed with
  | true =>
    simp only [serve, hlive, if_true]
    exact h
  | false =>
    rw [db_serve h hlive]
    exact Run.invariant (fun _ op h => h.storeStep op) _ _ h

/-- What a request adds to the messages: those of a SET that has stored
its value, which are whole. -/
theorem enqueued_serve {srv : Server S} (h : srv.db.Wf) (w : World S) (ps : PubsubMgr) (fd : Int)
    {text : CStr} (hlen : text.strlen < bufferSize) :
    (srv.serve (.line w ps fd text)).1.enqueued = srv.enqueued ∨
    ∃ k v m, (srv.serve (.line w ps fd text)).1.enqueued
        = srv.enqueued ++ [setText m k v ++ [10]] ∧ m.origin = srv.myId ∧
      (srv.serve (.line w ps fd text)).1.db.kvGet k = some v ∧
      k ∈ parseLine text maxArgs ∧ v ∈ parseLine text maxArgs := by
  simp only [serve]
  split
  · exact .inl rfl
  · rw [processCommandSends]
    cases hparse : parseLine text maxArgs with
    | nil => exact .inl rfl
    | cons cmd args =>
      by_cases hstring : ∃ c, branch cmd args = .string c
      · obtain ⟨c, hc⟩ := hstring
        have hroute := route_of_branch hc
        simp only [hc, execCommand]
        cases c with
        | set k v options =>
          by_cases hgrow : srv.db.CannotStore w.calloc
          · left
            simp only [exec, KvTable.kvSet_of_cannotStore hgrow]
            rfl
          · right
            obtain ⟨-, hget, hq⟩ := exec_set_ok h hgrow (k := k) (v := v) options
            rw [← hparse] at hroute
            rw [complete_of_line hlen hroute] at hq
            obtain ⟨cmd', hargs⟩ := route_eq_set hroute
            rw [hparse] at hargs
            obtain ⟨rfl, rfl⟩ := List.cons.inj hargs
            refine ⟨k, v, setMeta w.toEnv srv, hq, rfl, ?_, by simp, by simp⟩
            rw [KvTable.kvGet]
            obtain ⟨o, hobj, hs⟩ := Option.bind_eq_some_iff.mp hget
            obtain ⟨s, hstr, heq⟩ := Option.map_eq_some_iff.mp hs
            rw [hobj, Option.bind_some, hstr, (Prod.mk.inj heq).1]
        | _ => exact .inl (enqueued_exec w.toEnv srv (by simp))
      · exact .inl (execCommand_frame w ps srv fun s hs => hstring ⟨s, hs⟩).1

end Server

/-! ## The lines on the bus -/

/-- The bytes of what the daemons say, without the newline. -/
def joinLine (id : NodeOrigin) (clientPort : Int32) : List UInt8 :=
  (CStr.lit "JOIN ").bytes ++ id.text.bytes ++ 32 :: decimalInt clientPort.toInt

def hbLine (version : UInt64) : List UInt8 :=
  (CStr.lit "HEARTBEAT ").bytes ++ decimal version.toNat

theorem clusterParseCmd_join (t : List UInt8) (restLen : Nat) :
    clusterParseCmd ((CStr.lit "JOIN ").bytes ++ t) restLen = (.join, t.take restLen) := by
  have hheart : (CStr.lit "HEARTBEAT").bytes = [72, 69, 65, 82, 84, 66, 69, 65, 84] := by
    decide
  have hset : (CStr.lit "SET ").bytes = [83, 69, 84, 32] := by decide
  have hdel : (CStr.lit "DEL ").bytes = [68, 69, 76, 32] := by decide
  have hjoin : (CStr.lit "JOIN ").bytes = [74, 79, 73, 78, 32] := by decide
  apply clusterParseCmd_eq
  · rw [hjoin]
    exact Scanf.skipSpace_of_head (by decide) _
  · simp [busCmds, List.find?, strncasecmpEq, CStr.strlen, hheart, hset, hdel, hjoin, toLower]

theorem clusterParseCmd_heartbeat (t : List UInt8) (restLen : Nat) :
    clusterParseCmd ((CStr.lit "HEARTBEAT").bytes ++ t) restLen = (.heartbeat, t.take restLen) := by
  have hheart : (CStr.lit "HEARTBEAT").bytes = [72, 69, 65, 82, 84, 66, 69, 65, 84] := by
    decide
  apply clusterParseCmd_eq
  · rw [hheart]
    exact Scanf.skipSpace_of_head (by decide) _
  · simp [busCmds, strncasecmpEq, CStr.strlen, hheart, toLower]

theorem isLine_decimalInt (v : Int) : IsLine (decimalInt v) := by
  unfold decimalInt
  split
  · intro b hb
    rcases List.mem_cons.mp hb with rfl | hb
    · decide
    · exact isLine_decimal _ b hb
  · exact isLine_decimal _

/-- JOIN fits its buffer. -/
theorem joinText_eq (id : NodeOrigin) (clientPort : Int32) :
    Mesh.joinText id clientPort = joinLine id clientPort ++ [10] := by
  have hlow := clientPort.le_toInt
  have hhigh := clientPort.toInt_lt
  have hport : (decimalInt clientPort.toInt).length ≤ 11 := by
    unfold decimalInt
    split
    · have hdigits : (decimal clientPort.toInt.natAbs).length ≤ 9 + 1 :=
        Scanf.length_decimalAux_le (by omega)
      rw [List.length_cons]
      omega
    · have hdigits : (decimal clientPort.toInt.natAbs).length ≤ 9 + 1 :=
        Scanf.length_decimalAux_le (by omega)
      omega
  have hid : id.text.bytes.length < 16 := id.short
  have hname : (CStr.lit "JOIN ").bytes.length = 5 := by decide
  rw [Mesh.joinText, joinLine, snprintf]
  refine List.take_of_length_le ?_
  simp only [List.length_append, List.length_cons, List.length_nil, hname]
  omega

theorem hbText_eq (version : UInt64) : Mesh.hbText version = hbLine version ++ [10] := by
  have hdigits : (decimal version.toNat).length ≤ 19 + 1 :=
    Scanf.length_decimalAux_le (lt_of_lt_of_le version.toNat_lt (by norm_num))
  have hname : (CStr.lit "HEARTBEAT ").bytes.length = 10 := by decide
  simp only [Mesh.hbText, clusterBuildMsg, Option.getD_some, Option.elim_some, hbLine, snprintf]
  refine List.take_of_length_le ?_
  simp only [List.length_append, List.length_singleton, hname]
  omega

/-- The daemons' lines leave the table alone. -/
theorem handleLine_joinLine (id : NodeOrigin) (clientPort : Int32) (n : BusNode S) :
    handleLine n (joinLine id clientPort) = n := by
  have hcmd : (classify (joinLine id clientPort)).1 = .join := by
    have hname : (CStr.lit "JOIN ").bytes.length = 5 := by decide
    have htake : (joinLine id clientPort).take (busBufSize - 1) = (CStr.lit "JOIN ").bytes
        ++ (id.text.bytes ++ 32 :: decimalInt clientPort.toInt).take (busBufSize - 1 - 5) := by
      rw [joinLine, List.append_assoc, List.take_append, hname,
        List.take_of_length_le (by rw [hname]; decide)]
    rw [classify, htake, clusterParseCmd_join]
  exact handleLine_other (by rw [hcmd]; decide) (by rw [hcmd]; decide) n

theorem handleLine_hbLine (version : UInt64) (n : BusNode S) :
    handleLine n (hbLine version) = n := by
  have hcmd : (classify (hbLine version)).1 = .heartbeat := by
    have hname : (CStr.lit "HEARTBEAT").bytes.length = 9 := by decide
    have hsplit : hbLine version = (CStr.lit "HEARTBEAT").bytes ++ 32 :: decimal version.toNat := by
      have hlit : (CStr.lit "HEARTBEAT ").bytes = (CStr.lit "HEARTBEAT").bytes ++ [32] := by
        decide
      rw [hbLine, hlit, List.append_assoc]
      rfl
    have htake : (hbLine version).take (busBufSize - 1) = (CStr.lit "HEARTBEAT").bytes
        ++ (32 :: decimal version.toNat).take (busBufSize - 1 - 9) := by
      rw [hsplit, List.take_append, hname, List.take_of_length_le (by rw [hname]; decide)]
    rw [classify, htake, clusterParseCmd_heartbeat]
  exact handleLine_other (by rw [hcmd]; decide) (by rw [hcmd]; decide) n

namespace Mesh

/-! ## What is under way -/

/-- A line that brings a key no string but one that `W` says it has had. -/
structure Carries (S : Type) (W : CStr → CStr → Prop) (l : List UInt8) : Prop where
  isLine : IsLine l
  brings : l.length + 2 ≤ busBufSize → ∀ n : BusNode S, handleLine n l = n ∨
    ∃ k v m, W k v ∧ handleLine n l = { n with db := (ReplWrite.set k v m).apply n.db }

/-- Nothing, or such a line with its newline. -/
def IsMessage (S : Type) (W : CStr → CStr → Prop) (t : List UInt8) : Prop :=
  t = [] ∨ ∃ l, Carries S W l ∧ t = l ++ [10]

/-- Such lines, and the beginning of one that was torn. -/
structure Streams (S : Type) (W : CStr → CStr → Prop) (l : BusLink ι) : Prop where
  lines : ∃ ls tail, l.wrote = encode ls ++ tail ∧ (∀ line ∈ ls, Carries S W line) ∧ IsLine tail ∧
    (l.torn = false → tail = [])

variable {W W' : CStr → CStr → Prop}

theorem Carries.mono (hW : ∀ k v, W k v → W' k v) {l : List UInt8} (h : Carries S W l) :
    Carries S W' l where
  isLine := h.isLine
  brings hlen n := by
    rcases h.brings hlen n with hsame | ⟨k, v, m, hw, hset⟩
    · exact .inl hsame
    · exact .inr ⟨k, v, m, hW k v hw, hset⟩

theorem IsMessage.mono (hW : ∀ k v, W k v → W' k v) {t : List UInt8} (h : IsMessage S W t) :
    IsMessage S W' t := by
  rcases h with rfl | ⟨l, hl, rfl⟩
  · exact .inl rfl
  · exact .inr ⟨l, hl.mono hW, rfl⟩

theorem Streams.mono (hW : ∀ k v, W k v → W' k v) {l : BusLink ι} (h : Streams S W l) :
    Streams S W' l := by
  obtain ⟨ls, tail, hwrote, hcarries, htail⟩ := h.lines
  exact ⟨ls, tail, hwrote, fun line hline => (hcarries line hline).mono hW, htail⟩

theorem carries_of_unchanged {l : List UInt8} (hl : IsLine l)
    (h : ∀ n : BusNode S, handleLine n l = n) : Carries S W l := ⟨hl, fun _ n => .inl (h n)⟩

theorem isMessage_hbText (version : UInt64) : IsMessage S W (hbText version) := by
  have hname : IsLine (CStr.lit "HEARTBEAT ").bytes := by decide +kernel
  exact .inr ⟨hbLine version, carries_of_unchanged (isLine_append hname (isLine_decimal _))
    (handleLine_hbLine version), hbText_eq version⟩

theorem isMessage_setText {m : KvMeta} {k v : CStr} (hid : IsWord m.origin.text) (hk : IsWord k)
    (hv : IsWord v) (hw : W k v) : IsMessage S W (setText m k v ++ [10]) := by
  refine .inr ⟨_, ⟨isLine_setText hid hk hv, fun hlen n => ?_⟩, rfl⟩
  by_cases hn : n.crashed = true
  · left
    simp only [handleLine, hn, if_true]
  · exact .inr ⟨k, v, m, hw,
      handleLine_setText hid hk hv hlen (by rwa [Bool.not_eq_true] at hn)⟩

theorem isMessage_joinText {id : NodeOrigin} (hid : IsWord id.text) (clientPort : Int32) :
    IsMessage S W (joinText id clientPort) := by
  have hname : IsLine (CStr.lit "JOIN ").bytes := by decide +kernel
  have hline : IsLine (joinLine id clientPort) :=
    isLine_append (isLine_append hname hid.isLine) (isLine_blank (isLine_decimalInt _))
  exact .inr ⟨joinLine id clientPort,
    carries_of_unchanged hline (handleLine_joinLine id clientPort), joinText_eq id clientPort⟩

theorem isMessage_update {text : BusThread → List UInt8} (h : ∀ t, IsMessage S W (text t))
    {msg : List UInt8} (hmsg : IsMessage S W msg) (t : BusThread) :
    ∀ t', IsMessage S W (Function.update text t msg t') := by
  intro t'
  rw [Function.update_apply]
  split
  · exact hmsg
  · exact h t'

theorem streams_nil (i j : ι) : Streams S W ⟨i, j, [], 0, false⟩ :=
  ⟨[], [], rfl, fun _ h => absurd h List.not_mem_nil, by simp [IsLine], fun _ => rfl⟩

/-- A message is written to a connection that is not torn, whole, in part,
or not at all. -/
theorem Streams.write {l : BusLink ι} (h : Streams S W l) (hwhole : l.torn = false)
    {t : List UInt8} (ht : IsMessage S W t) (n : Nat) : Streams S W (l.write t n) := by
  obtain ⟨ls, tail, hwrote, hcarries, -, htail⟩ := h.lines
  rw [htail hwhole, List.append_nil] at hwrote
  rcases ht with rfl | ⟨line, hline, rfl⟩
  · exact ⟨ls, [], by simp [BusLink.write, hwrote], hcarries, by simp [IsLine], fun _ => rfl⟩
  · by_cases hn : n < (line ++ [10]).length
    · have hpart : (line ++ [10]).take n = line.take n := by
        rw [List.length_append, List.length_singleton] at hn
        rw [List.take_append_of_le_length (by omega)]
      refine ⟨ls, line.take n, by rw [BusLink.write, hwrote, hpart], hcarries,
        fun b hb => hline.isLine b (List.mem_of_mem_take hb), fun htorn => ?_⟩
      simp only [BusLink.write, hwhole, Bool.false_or, decide_eq_false_iff_not] at htorn
      have hzero : n = 0 := by omega
      rw [hzero, List.take_zero]
    · refine ⟨ls ++ [line], [], ?_, ?_, by simp [IsLine], fun _ => rfl⟩
      · have hall : (line ++ [10]).take n = line ++ [10] := List.take_of_length_le (by omega)
        rw [BusLink.write, hwrote, hall, LineFraming.encode_append]
        simp [encode]
      · intro l' hl'
        rcases List.mem_append.mp hl' with hl' | hl'
        · exact hcarries l' hl'
        · rw [List.mem_singleton.mp hl']
          exact hline

/-- What is handed over at the other end. -/
theorem Streams.next? {l : BusLink ι} (h : Streams S W l) {line : List UInt8}
    (hnext : l.next? = some line) : Carries S W line ∧ line.length + 2 ≤ busBufSize := by
  obtain ⟨ls, tail, hwrote, hcarries, htail, -⟩ := h.lines
  have hmem : line ∈ fitting (busBufSize - 1) l.wrote := List.mem_of_getElem? hnext
  have hlen := LineFraming.length_lt_of_mem_fitting hmem
  have hlines : line ∈ (LineFraming.lines l.wrote).1 := (List.takeWhile_sublist _).subset hmem
  rw [hwrote, LineFraming.lines_encode_append fun l' hl' => (hcarries l' hl').isLine,
    LineFraming.lines_of_isLine htail, List.append_nil] at hlines
  have hbuf : busBufSize = 4096 := rfl
  exact ⟨hcarries line hlines, by omega⟩

/-! ## The invariant -/

/-- What a node has and what it is about to send has an origin. -/
structure NodeTraced (W : CStr → CStr → Prop) (id : NodeOrigin) (n : MeshNode ι S) : Prop where
  wf : n.srv.db.Wf
  myId : n.srv.myId = id
  table : ∀ k v, n.srv.db.kvGet k = some v → W k v
  queue : ∀ t, some t ∈ n.queue.replBuf → IsMessage S W t
  text : ∀ t, IsMessage S W (n.text t)

structure Traced (W : CStr → CStr → Prop) (conf : ι → NodeConf) (s : Mesh ι S) : Prop where
  node : ∀ i, NodeTraced W (conf i).myId (s.node i)
  links : ∀ l ∈ s.links, Streams S W l

theorem Traced.mono {conf : ι → NodeConf} {s : Mesh ι S} (hW : ∀ k v, W k v → W' k v)
    (h : Traced W conf s) : Traced W' conf s where
  node i :=
    { wf := (h.node i).wf
      myId := (h.node i).myId
      table := fun k v hv => hW k v ((h.node i).table k v hv)
      queue := fun t ht => ((h.node i).queue t ht).mono hW
      text := fun t => ((h.node i).text t).mono hW }
  links l hl := (h.links l hl).mono hW

theorem mem_replEnqueue {q : ReplQueue (List UInt8)} {msg t : List UInt8}
    (ht : some t ∈ (q.replEnqueue msg).replBuf) : some t ∈ q.replBuf ∨ t = msg := by
  rcases List.mem_or_eq_of_mem_set ht with ht | ht
  · exact .inl ht
  · exact .inr (Option.some.inj ht)

theorem replTake_item {q q' : ReplQueue (List UInt8)} {t : List UInt8}
    (h : q.replTake = (q', some (some t))) : some t ∈ q.replBuf := by
  rw [ReplQueue.replTake] at h
  split at h
  · cases h
  · obtain ⟨-, hitem⟩ := Prod.mk.inj h
    rw [List.getD_eq_getElem?_getD, Option.some.injEq, Option.getD_eq_iff] at hitem
    rcases hitem with hitem | ⟨-, hnone⟩
    · exact List.mem_of_getElem? hitem
    · cases hnone

theorem replBuf_replTake (q : ReplQueue (List UInt8)) : q.replTake.1.replBuf = q.replBuf := by
  rw [ReplQueue.replTake]
  split <;> rfl

variable [DecidableEq ι] [LinearOrder S] {conf : ι → NodeConf} {s : Mesh ι S}

omit [LinearOrder S] in
theorem node_setNode_self (i : ι) (n : MeshNode ι S) : (s.setNode i n).node i = n := by
  unfold Mesh.setNode
  exact Function.update_self i n s.node

omit [LinearOrder S] in
theorem node_setNode_of_ne {i j : ι} (h : j ≠ i) (n : MeshNode ι S) :
    (s.setNode i n).node j = s.node j := by
  unfold Mesh.setNode
  exact Function.update_of_ne h n s.node

omit [LinearOrder S] in
theorem Traced.setNode (h : Traced W conf s) {i : ι} {n : MeshNode ι S}
    (hn : NodeTraced W (conf i).myId n) : Traced W conf (s.setNode i n) where
  node j := by
    by_cases hj : j = i
    · subst hj
      rw [node_setNode_self]
      exact hn
    · rw [node_setNode_of_ne hj]
      exact h.node j
  links := h.links

omit [LinearOrder S] [DecidableEq ι] in
/-- What one connection becomes. -/
theorem Traced.modify (h : Traced W conf s) {c : Nat} {f : BusLink ι → BusLink ι}
    (hf : ∀ l, s.links[c]? = some l → Streams S W l → Streams S W (f l)) :
    Traced W conf { s with links := s.links.modify c f } where
  node := h.node
  links l hl := by
    obtain ⟨j, hj⟩ := List.mem_iff_getElem?.mp hl
    rw [List.getElem?_modify] at hj
    obtain ⟨l', hl', rfl⟩ := Option.map_eq_some_iff.mp hj
    have hold := h.links l' (List.mem_of_getElem? hl')
    split
    · rename_i hc
      exact hf l' (hc ▸ hl') hold
    · exact hold

/-- On the connection a descriptor leads to, no `write` has fallen short. -/
def WholeAt (s : Mesh ι S) (i : ι) (fd : Nat) : Prop :=
  ∀ l ∈ ((s.node i).fds fd).bind fun c => s.links[c]?, l.torn = false

instance (s : Mesh ι S) (i : ι) (fd : Nat) : Decidable (WholeAt s i fd) :=
  inferInstanceAs (Decidable (∀ l ∈ ((s.node i).fds fd).bind fun c => s.links[c]?, _))

omit [LinearOrder S] [DecidableEq ι] in
theorem Traced.writeFd (h : Traced W conf s) {i : ι} {fd : Nat} {t : List UInt8}
    (ht : IsMessage S W t) (n : Nat)
    (hwhole : WholeAt s i fd) :
    Traced W conf (s.writeFd i fd t n) := by
  rw [Mesh.writeFd]
  split
  · exact h
  · rename_i c hc
    exact h.modify fun l hl hold =>
      hold.write (hwhole l (Option.mem_def.mpr (by rw [hc, Option.bind_some, hl]))) ht n

omit [DecidableEq ι] in
/-- A request keeps the node traced when what it puts into the table is. -/
theorem NodeTraced.serve_line {id : NodeOrigin} {n : MeshNode ι S} (h : NodeTraced W id n)
    (hid : IsWord id.text) {w : World S} {ps : PubsubMgr} {fd : Int} {text : CStr}
    (hlen : text.strlen < bufferSize) (hplain : ∀ b ∈ text.bytes, b ≠ 10 ∧ b ≠ 11 ∧ b ≠ 12)
    (hget : ∀ k v, (serve n (.line w ps fd text)).srv.db.kvGet k = some v → W k v) :
    NodeTraced W id (serve n (.line w ps fd text)) where
  wf := Server.wf_serve h.wf _
  myId := (Server.myId_serve _ _).trans h.myId
  table := hget
  text := h.text
  queue t ht := by
    simp only [serve] at ht hget
    rcases Server.enqueued_serve h.wf w ps fd hlen with hq | ⟨k, v, m, hq, horigin, hstored, hk, hv⟩
    · rw [hq, List.drop_length, List.foldl_nil] at ht
      exact h.queue t ht
    · rw [hq, List.drop_left, List.foldl_cons, List.foldl_nil] at ht
      rcases mem_replEnqueue ht with ht | rfl
      · exact h.queue t ht
      · rw [h.myId] at horigin
        exact isMessage_setText (horigin ▸ hid) (isWord_of_mem_parseLine hplain hk)
          (isWord_of_mem_parseLine hplain hv) (hget k v hstored)

omit [DecidableEq ι] in
/-- What is left after keys have expired was there before. -/
theorem NodeTraced.serve_expire {id : NodeOrigin} {n : MeshNode ι S} (h : NodeTraced W id n)
    (now : Int) (rand : Nat → Nat) : NodeTraced W id (serve n (.expire now rand)) where
  wf := Server.wf_serve h.wf _
  myId := (Server.myId_serve _ _).trans h.myId
  table k v hv := by
    refine h.table k v ?_
    by_cases hlive : n.srv.crashed = true
    · simpa only [serve, Server.serve, hlive, if_true] using hv
    · rw [Bool.not_eq_true] at hlive
      rw [serve, Server.db_serve h.wf hlive] at hv
      simp only [Request.calls, List.foldl_cons, List.foldl_nil] at hv
      have hspares : StoreOp.Spares n.srv.db (.table (.activeExpire 20 now rand)) := trivial
      rcases KvTable.kept_step h.wf hspares (k := k) List.not_mem_nil with hsame | ⟨o, -, hnone, -⟩
      · rwa [KvTable.kvGet, hsame] at hv
      · rw [KvTable.kvGet, hnone] at hv
        cases hv
  text := h.text
  queue t ht := by
    refine h.queue t ?_
    have hq : (n.srv.serve (.expire now rand)).1.enqueued = n.srv.enqueued := by
      simp only [Server.serve]
      split <;> rfl
    simpa only [serve, hq, List.drop_length, List.foldl_nil] using ht

omit [DecidableEq ι] [LinearOrder S] in
/-- A line handed over puts a string of an origin into the table, or none. -/
theorem NodeTraced.handle {id : NodeOrigin} {n : MeshNode ι S} (h : NodeTraced W id n)
    {line : List UInt8} (hline : Carries S W line) (hlen : line.length + 2 ≤ busBufSize) :
    NodeTraced W id { n with srv := { n.srv with
      db := (handleLine ⟨n.srv.db, n.srv.crashed⟩ line).db
      crashed := (handleLine ⟨n.srv.db, n.srv.crashed⟩ line).crashed } } where
  wf := by
    rcases hline.brings hlen ⟨n.srv.db, n.srv.crashed⟩ with hsame | ⟨k, v, m, -, hset⟩
    · rw [hsame]
      exact h.wf
    · rw [hset]
      exact wf_apply_set h.wf k v m
  myId := h.myId
  table k v hv := by
    rcases hline.brings hlen ⟨n.srv.db, n.srv.crashed⟩ with hsame | ⟨k', v', m, hw, hset⟩
    · rw [hsame] at hv
      exact h.table k v hv
    · rw [hset] at hv
      rcases kvGet_apply_set h.wf hv with hold | ⟨rfl, rfl⟩
      · exact h.table k v hold
      · exact hw
  text := h.text
  queue := h.queue

/-! ## Runs -/

/-- A line comes out of `read_line` and has no white space but blanks, tabs
and carriage returns; the queue has not run past its ring; and no thread
writes on a connection on which a `write`, be it its own, has left a
message unfinished. -/
def Allowed (s : Mesh ι S) : MeshAct ι S → Prop
  | .line _ _ _ _ text =>
    text.strlen < bufferSize ∧ ∀ b ∈ text.bytes, b ≠ 10 ∧ b ≠ 11 ∧ b ≠ 12
  | .take i => (⟨(s.node i).queue, []⟩ : ReplState (List UInt8)).Allowed .take
  | .greet i fd _ => WholeAt s i fd
  | .write i t _ => ∀ fd ∈ (s.node i).chosen t, WholeAt s i fd
  | _ => True

instance decidableAllowed (s : Mesh ι S) : (a : MeshAct ι S) → Decidable (Allowed s a)
  | .line _ _ _ _ _ => inferInstanceAs (Decidable (_ ∧ ∀ b ∈ _, _))
  | .take i => ReplState.decidableAllowed ⟨(s.node i).queue, []⟩ .take
  | .greet i fd _ => inferInstanceAs (Decidable (WholeAt s i fd))
  | .write i t _ => inferInstanceAs (Decidable (∀ fd ∈ (s.node i).chosen t, WholeAt s i fd))
  | .expire _ _ _ | .beat _ | .connectPeer _ _ _ | .choose _ _ _ | .drop _ _ | .handle _ =>
    inferInstanceAs (Decidable True)

theorem Traced.take (h : Traced W conf s) (i : ι) : Traced W conf (s.step (.take i)) := by
  have hbuf := replBuf_replTake (s.node i).queue
  simp only [Mesh.step]
  split
  · rename_i queue item htake
    rw [htake] at hbuf
    refine h.setNode { h.node i with queue := ?_, text := ?_ }
    · exact fun t ht => (h.node i).queue t (hbuf ▸ ht)
    · exact isMessage_update (h.node i).text ((h.node i).queue item (replTake_item htake)) .repl
  · rename_i queue item _ htake
    rw [htake] at hbuf
    exact h.setNode { h.node i with queue := fun t ht => (h.node i).queue t (hbuf ▸ ht) }

omit [LinearOrder S] in
/-- A new connection has carried nothing. -/
theorem Traced.connect (h : Traced W conf s) (i j : ι) (fd : Nat) :
    Traced W conf { s.setNode i { s.node i with
        fds := Function.update (s.node i).fds fd (some s.links.length)
        out := Function.update (s.node i).out j (some fd)
        hello := fd :: (s.node i).hello } with
      links := s.links ++ [⟨i, j, [], 0, false⟩] } where
  node := (h.setNode (n := { s.node i with
    fds := Function.update (s.node i).fds fd (some s.links.length)
    out := Function.update (s.node i).out j (some fd)
    hello := fd :: (s.node i).hello }) { h.node i with }).node
  links l hl := by
    rcases List.mem_append.mp hl with hl | hl
    · exact h.links l hl
    · rw [List.mem_singleton.mp hl]
      exact streams_nil i j

theorem Traced.step (hid : ∀ i, IsWord (conf i).myId.text) (h : Traced W conf s)
    {a : MeshAct ι S} (hok : Allowed s a)
    (hline : ∀ i w ps fd text, a = .line i w ps fd text → ∀ k v,
      (((s.step a).node i).srv.db.kvGet k = some v) → W k v) : Traced W conf (s.step a) := by
  cases a with
  | line i w ps fd text =>
    refine h.setNode ((h.node i).serve_line (hid i) hok.1 hok.2 fun k v hv => ?_)
    refine hline i w ps fd text rfl k v ?_
    rwa [Mesh.step, node_setNode_self]
  | expire i now rand => exact h.setNode ((h.node i).serve_expire now rand)
  | take i => exact h.take i
  | beat i =>
    exact h.setNode
      { h.node i with text := isMessage_update (h.node i).text (isMessage_hbText _) .hb }
  | connectPeer i j fd =>
    simp only [Mesh.step]
    split
    · exact h
    · exact h.connect i j fd
  | greet i fd n =>
    simp only [Mesh.step]
    split
    · have hnode := h.setNode (i := i)
        (n := { s.node i with hello := (s.node i).hello.erase fd }) { h.node i with }
      refine hnode.writeFd ?_ n ?_
      · rw [(h.node i).myId]
        exact isMessage_joinText (hid i) _
      · rw [WholeAt, node_setNode_self]
        exact hok
    · exact h
  | choose i t j => exact h.setNode { h.node i with }
  | write i t n =>
    simp only [Mesh.step]
    split
    · exact h
    · rename_i fd hfd
      have hnode := h.setNode (i := i)
        (n := { s.node i with chosen := Function.update (s.node i).chosen t none })
        { h.node i with }
      refine hnode.writeFd ((h.node i).text t) n ?_
      rw [WholeAt, node_setNode_self]
      exact hok fd hfd
  | drop i j =>
    simp only [Mesh.step]
    split
    · exact h
    · exact h.setNode { h.node i with }
  | handle c =>
    simp only [Mesh.step]
    split
    · exact h
    · rename_i j line hnext
      obtain ⟨l, hl, hmap⟩ := Option.bind_eq_some_iff.mp hnext
      obtain ⟨line', hline', hpair⟩ := Option.map_eq_some_iff.mp hmap
      obtain ⟨-, rfl⟩ := Prod.mk.inj hpair
      obtain ⟨hcarries, hlen⟩ := (h.links l (List.mem_of_getElem? hl)).next? hline'
      have hnode := h.setNode ((h.node j).handle hcarries hlen)
      exact hnode.modify fun l _ hold => ⟨hold.lines⟩

/-- The string a key had at the start on some node, or that the line of a
client has put under it, on some node, along the run. -/
def Wrote (conf : ι → NodeConf) (acts : List (MeshAct ι S)) (k v : CStr) : Prop :=
  (∃ i, ((start conf : Mesh ι S).node i).srv.db.kvGet k = some v) ∨
  ∃ n i w ps fd text, acts[n]? = some (.line i w ps fd text) ∧
    (((start conf).run (acts.take n)).node i).srv.db.kvGet k ≠ some v ∧
    (((start conf).run (acts.take (n + 1))).node i).srv.db.kvGet k = some v

theorem Wrote.snoc {acts : List (MeshAct ι S)} {k v : CStr} (h : Wrote conf acts k v)
    (a : MeshAct ι S) : Wrote conf (acts ++ [a]) k v := by
  rcases h with h | ⟨n, i, w, ps, fd, text, hn, hbefore, hafter⟩
  · exact .inl h
  · obtain ⟨hlt, -⟩ := List.getElem?_eq_some_iff.mp hn
    refine .inr ⟨n, i, w, ps, fd, text, ?_, ?_, ?_⟩
    · rw [List.getElem?_append_left hlt, hn]
    · rwa [List.take_append_of_le_length hlt.le]
    · rwa [List.take_append_of_le_length hlt]

theorem traced_start : Traced (S := S) (Wrote (S := S) conf []) conf (start conf) where
  node i :=
    { wf := KvTable.Wf.kvOpen _ _
      myId := rfl
      table := fun _ _ hv => .inl ⟨i, hv⟩
      queue := fun t ht => by
        cases (List.mem_replicate.mp ht).2
      text := fun _ => .inl rfl }
  links _ hl := absurd hl List.not_mem_nil

/-- Induction on the run, from its end. -/
theorem traced_run (hid : ∀ i, IsWord (conf i).myId.text) (acts : List (MeshAct ι S))
    (hg : Run.Guarded Mesh.step Allowed (start conf) acts) :
    Traced (Wrote conf acts) conf ((start conf).run acts) := by
  induction acts using List.reverseRecOn with
  | nil => exact traced_start
  | append_singleton acts a ih =>
    obtain ⟨hacts, hok, -⟩ := Run.guarded_append.mp hg
    have hold := (ih hacts).mono fun k v hw => hw.snoc a
    have hrun : (start conf).run (acts ++ [a]) = ((start conf).run acts).step a := by
      rw [run, List.foldl_append]
      rfl
    rw [hrun]
    refine hold.step hid hok ?_
    rintro i w ps fd text rfl k v hv
    -- the line has put `v` there, or it was there before
    by_cases hbefore : (((start conf).run acts).node i).srv.db.kvGet k = some v
    · exact (hold.node i).table k v hbefore
    · refine .inr ⟨acts.length, i, w, ps, fd, text, ?_, ?_, ?_⟩
      · rw [List.getElem?_append_right le_rfl, Nat.sub_self]
        rfl
      · rwa [List.take_left]
      · rwa [List.take_of_length_le (by simp), hrun]

/-- In any order of the steps of clients, daemons and receivers, what a node
has under a key was put under that key by a client, or came out of a file. -/
theorem no_thin_air (conf : ι → NodeConf) (hid : ∀ i, IsWord (conf i).myId.text)
    (acts : List (MeshAct ι S)) (hg : Run.Guarded Mesh.step Allowed (start conf) acts) (i : ι)
    {k v : CStr} (hv : (((start conf).run acts).node i).srv.db.kvGet k = some v) :
    Wrote conf acts k v :=
  ((traced_run hid acts hg).node i).table k v hv

def twoNodes : Bool → NodeConf
  | false => ⟨.ofCStr (.lit "n1"), 6379, none, none⟩
  | true => ⟨.ofCStr (.lit "n2"), 6380, none, none⟩

/-- A string set at the one node arrives at the other. -/
def oneSet : List (MeshAct Bool Int) :=
  [.connectPeer false true 5, .greet false 5 256,
    .line false KvTable.someWorld ⟨[]⟩ 4 (.lit "SET k v"), .take false,
    .choose false .repl true, .write false .repl 4096, .handle 0, .handle 0]

theorem no_thin_air_set : Wrote twoNodes oneSet (.lit "k") (.lit "v") :=
  no_thin_air twoNodes (by decide +kernel) oneSet (by decide +kernel) true (by decide +kernel)

end Mesh

end AntzKV

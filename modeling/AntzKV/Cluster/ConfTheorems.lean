/-
AntzKV.Cluster.ConfTheorems — whose id a server takes.

A server sees of a node line its id, cut to 15 bytes, and its client port,
for which a line without a `port` field has the server's own
(`map_confNode`). It takes the id of the first line with its port, or of
the first line (`exists_startUp`).

* `nodeIdentity_iff`: the servers of a file have the ids of their own lines
  exactly when the ports of the lines tell them apart and the ids fit; and
  a server that is on no line keeps away from the ids of the others exactly
  when there is nobody to take an id from.
-/
import AntzKV.Cluster.Conf

namespace AntzKV

/-! ## Node lines -/

/-- A line that describes a node: its whole id, and its client port if it
has one. -/
structure NodeLine where
  id : CStr
  port : Option Int32
  deriving DecidableEq

/-- The client port of a line, as the server with the port `p` reads it. -/
def NodeLine.clientPort (l : NodeLine) (p : Int32) : Int32 := l.port.getD p

def nodeLine? (line : CStr) : Option NodeLine :=
  if isComment line then none
  else do
    let id ← fieldText line (.lit "id")
    let _ ← fieldText line (.lit "host")
    let portStr := parseFieldStr line (.lit "port") 32
    return { id, port := portStr.map fun s => atoi (splitPort s.bytes).1 }

/-- The node lines of a file, in order. -/
def nodeLines (file : List UInt8) : List NodeLine := (confLines file).filterMap nodeLine?

/-- The node lines of a text whose lines fit the buffer. -/
theorem nodeLines_of_short {ls : List (List UInt8)}
    (hls : ∀ l ∈ ls, (10 : UInt8) ∉ l ∧ l.length + 1 < 256) :
    nodeLines (ls.flatMap (· ++ [10]))
      = (ls.map fun l => CStr.ofBuf (l ++ [10])).filterMap nodeLine? := by
  have hfuel : ls.length ≤ (ls.flatMap (· ++ [10])).length := by
    rw [List.length_flatMap]
    simp
  rw [nodeLines, confLines, ByteCursor.fgetsLoop_of_short hls hfuel, List.map_map]
  rfl

theorem ofCStr_take (s : CStr) : NodeOrigin.ofCStr (s.take (nodeOriginLen - 1)) = .ofCStr s := by
  apply NodeOrigin.ext
  apply CStr.ext
  simp [NodeOrigin.ofCStr, CStr.take]

/-- What a server sees of a line. -/
theorem map_confNode (port busPort : Int32) (line : CStr) :
    (confNode port busPort line).map (fun n => (n.id, n.clientPort))
      = (nodeLine? line).map fun l => (NodeOrigin.ofCStr l.id, l.clientPort port) := by
  unfold confNode nodeLine?
  split
  · rfl
  · simp only [parseFieldStr, Option.bind_eq_bind]
    cases hid : fieldText line (.lit "id") with
    | none => rfl
    | some id =>
      cases hhost : fieldText line (.lit "host") with
      | none => rfl
      | some host =>
        cases hport : fieldText line (.lit "port") with
        | none => simp [NodeLine.clientPort, ofCStr_take]
        | some portStr =>
          rcases hsplit : splitPort (portStr.take 31).bytes with ⟨client, _ | bus⟩ <;>
            simp [NodeLine.clientPort, ofCStr_take, hsplit]

/-- The place of the line a server takes for its own. -/
def selfLine (file : List UInt8) (port : Int32) : Nat :=
  ((nodeLines file).findIdx? (·.clientPort port == port)).getD 0

/-- The node lines, as a server reads them. -/
theorem map_nodes (file : List UInt8) (port busPort : Int32) :
    ((confLines file).filterMap (confNode port busPort)).map (fun n => (n.id, n.clientPort))
      = (nodeLines file).map fun l => (NodeOrigin.ofCStr l.id, l.clientPort port) := by
  rw [nodeLines, List.map_filterMap, List.map_filterMap]
  congr 1
  funext line
  exact map_confNode port busPort line

theorem selfIndex_nodes (file : List UInt8) (port busPort : Int32) :
    selfIndex ((confLines file).filterMap (confNode port busPort)) port = selfLine file port := by
  have hfind := congrArg (List.findIdx? fun x => x.2 == port) (map_nodes file port busPort)
  rw [List.findIdx?_map, List.findIdx?_map] at hfind
  exact congrArg (Option.getD · 0) hfind

/-- The id a server starts with. -/
theorem startUp_myId (file : List UInt8) (port busPort : Int32) :
    (startUp (some file) port busPort).map (·.myId)
      = ((nodeLines file)[selfLine file port]?).map fun l => NodeOrigin.ofCStr l.id := by
  set bus := if busPort ≠ 0 then busPort else port + 10000 with hbus
  have hnodes := map_nodes file port bus
  have hself := selfIndex_nodes file port bus
  have hload : (startUp (some file) port busPort).map (·.myId)
      = (((confLines file).filterMap (confNode port bus))[selfLine file port]?).map (·.id) := by
    simp only [startUp, clusterConfLoad, ← hbus, Option.bind_eq_bind, Option.bind_some]
    split
    · rename_i hne
      have hlt := selfIndex_lt hne port
      simp [clusterInit, hself, List.getElem?_eq_getElem (hself ▸ hlt)]
    · rename_i hnil
      rw [not_not.mp hnil]
      rfl
  have hid := congrArg (fun xs => xs[selfLine file port]?.map Prod.fst) hnodes
  simp only [List.getElem?_map, Option.map_map] at hid
  rw [hload]
  exact hid

theorem exists_startUp {file : List UInt8} {port : Int32} {l : NodeLine}
    (h : (nodeLines file)[selfLine file port]? = some l) (busPort : Int32) :
    ∃ s, startUp (some file) port busPort = some s ∧ s.myId = .ofCStr l.id := by
  have hid := startUp_myId file port busPort
  rw [h] at hid
  exact Option.map_eq_some_iff.mp hid

/-- The line a server takes for its own: the first with its port, or without
one the first of all. -/
theorem selfLine_spec {file : List UInt8} (h : nodeLines file ≠ []) (port : Int32) :
    ∃ l, (nodeLines file)[selfLine file port]? = some l ∧
      (l.clientPort port = port ∨ ∀ m ∈ nodeLines file, m.clientPort port ≠ port) ∧
      ∀ i m, (nodeLines file)[i]? = some m → m.clientPort port = port →
        selfLine file port ≤ i := by
  unfold selfLine
  cases hfind : (nodeLines file).findIdx? (·.clientPort port == port) with
  | none =>
    have hnone : ∀ m ∈ nodeLines file, m.clientPort port ≠ port := by
      simpa using List.findIdx?_eq_none_iff.mp hfind
    obtain ⟨l, ls, hcons⟩ := List.exists_cons_of_ne_nil h
    exact ⟨l, by simp [hcons], Or.inr hnone, fun _ _ _ _ => Nat.zero_le _⟩
  | some k =>
    obtain ⟨hk, hmatch, hfirst⟩ := List.findIdx?_eq_some_iff_getElem.mp hfind
    refine ⟨(nodeLines file)[k], List.getElem?_eq_getElem hk, Or.inl (by simpa using hmatch), ?_⟩
    intro i m hm hport
    rw [Option.getD_some]
    by_contra hlt
    obtain ⟨hi, rfl⟩ := List.getElem?_eq_some_iff.mp hm
    exact absurd (hfirst i (by omega)) (by simp [hport])

/-! ## The law of identities -/

/-- Two servers, each with the client port of its own line, start with the
ids of their lines, which are different. -/
def OwnIds (file : List UInt8) : Prop :=
  ∀ (i j : Nat) (a b : NodeLine), i ≠ j →
    (nodeLines file)[i]? = some a → (nodeLines file)[j]? = some b →
    ∀ p q c d : Int32, a.clientPort p = p → b.clientPort q = q →
      ∃ s t, startUp (some file) p c = some s ∧ startUp (some file) q d = some t ∧
        s.myId.text = a.id ∧ t.myId.text = b.id ∧ s.myId ≠ t.myId

/-- A server whose port is on no line does not start with the id of a
node. -/
def NoForeignId (file : List UInt8) : Prop :=
  ∀ p c s, (∀ l ∈ nodeLines file, l.clientPort p ≠ p) → startUp (some file) p c = some s →
    ∀ l ∈ nodeLines file, s.myId ≠ .ofCStr l.id

/-- The lines tell their servers apart: each has a port, no two the same,
and an id that is not cut. -/
def Distinguishes (file : List UInt8) : Prop :=
  (∀ l ∈ nodeLines file, l.port ≠ none ∧ l.id.strlen < nodeOriginLen) ∧
    ((nodeLines file).map NodeLine.port).Nodup

/-- Two servers on one port are one server. -/
theorem OwnIds.port_ne {file : List UInt8} (h : OwnIds file) {i j : Nat} {a b : NodeLine}
    (ha : (nodeLines file)[i]? = some a) (hb : (nodeLines file)[j]? = some b) (hij : i ≠ j)
    {p : Int32} (hap : a.clientPort p = p) : b.clientPort p ≠ p := by
  intro hbp
  obtain ⟨s, t, hs, ht, -, -, hne⟩ := h i j a b hij ha hb p p 0 0 hap hbp
  obtain rfl := Option.some.inj (hs.symm.trans ht)
  exact hne rfl

/-- Every line is the own line of some server. -/
theorem NodeLine.clientPort_getD (l : NodeLine) (p : Int32) :
    l.clientPort (l.port.getD p) = l.port.getD p := by
  cases hport : l.port <;> simp [NodeLine.clientPort, hport]

theorem OwnIds.distinguishes {file : List UInt8} (h : OwnIds file)
    (hlen : 1 < (nodeLines file).length) : Distinguishes file := by
  have hother : ∀ i : Nat, ∃ j m, i ≠ j ∧ (nodeLines file)[j]? = some m := by
    intro i
    by_cases hi : i = 0
    · exact ⟨1, _, by omega, List.getElem?_eq_getElem hlen⟩
    · exact ⟨0, _, hi, List.getElem?_eq_getElem (by omega)⟩
  constructor
  · intro l hl
    obtain ⟨i, hi⟩ := List.getElem?_of_mem hl
    obtain ⟨j, m, hij, hj⟩ := hother i
    constructor
    · -- a line without a port takes the port of the other line
      intro hport
      have hclient : l.clientPort (m.port.getD 0) = m.port.getD 0 := by
        simp [NodeLine.clientPort, hport]
      exact h.port_ne hi hj hij hclient (m.clientPort_getD 0)
    · obtain ⟨s, -, -, -, hid, -, -⟩ := h i j l m hij hi hj _ _ 0 0 (l.clientPort_getD 0)
        (m.clientPort_getD 0)
      rw [← hid]
      exact s.myId.short
  · rw [List.Nodup, List.pairwise_map, List.pairwise_iff_getElem]
    intro i j hi hj hlt hport
    refine h.port_ne (List.getElem?_eq_getElem hi) (List.getElem?_eq_getElem hj) (by omega)
      ((nodeLines file)[i].clientPort_getD 0) ?_
    rw [hport]
    exact (nodeLines file)[j].clientPort_getD 0

/-- A server whose line is told apart takes its own line. -/
theorem Distinguishes.exists_startUp {file : List UInt8} (h : Distinguishes file) {i : Nat}
    {a : NodeLine} (ha : (nodeLines file)[i]? = some a) {p : Int32} (hap : a.clientPort p = p)
    (busPort : Int32) : ∃ s, startUp (some file) p busPort = some s ∧ s.myId.text = a.id := by
  obtain ⟨hlines, hports⟩ := h
  have hmem := List.mem_of_getElem? ha
  obtain ⟨l, hl, hmatch, hfirst⟩ := selfLine_spec (List.ne_nil_of_mem hmem) p
  have hlp : l.clientPort p = p := hmatch.resolve_right fun hnone => hnone a hmem hap
  have hport : ∀ m ∈ nodeLines file, m.clientPort p = p → m.port = some p := by
    intro m hm hmp
    obtain ⟨q, hq⟩ := Option.ne_none_iff_exists'.mp (hlines m hm).1
    rw [NodeLine.clientPort, hq, Option.getD_some] at hmp
    rw [hq, hmp]
  have hself : selfLine file p = i := by
    have hlt : i < ((nodeLines file).map NodeLine.port).length := by
      simpa using (List.getElem?_eq_some_iff.mp ha).1
    refine ((List.getElem?_inj hlt hports).mp ?_).symm
    rw [List.getElem?_map, List.getElem?_map, ha, hl, Option.map_some, Option.map_some,
      hport a hmem hap, hport l (List.mem_of_getElem? hl) hlp]
  rw [hself] at hl
  obtain rfl := Option.some.inj (ha.symm.trans hl)
  obtain ⟨s, hs, hid⟩ := AntzKV.exists_startUp (hself ▸ ha) busPort
  refine ⟨s, hs, ?_⟩
  have hshort := (hlines a hmem).2
  rw [hid]
  exact CStr.take_of_le (by simp only [nodeOriginLen] at hshort ⊢; omega)

/-- **Identity.** In a file whose lines carry pairwise different ids, the
servers of two lines have the ids of their lines exactly when there are no
two lines, or the lines tell them apart. A server that is on no line has no
node's id exactly when there is no node, or no such server. -/
theorem nodeIdentity_iff (file : List UInt8) (hids : ((nodeLines file).map NodeLine.id).Nodup) :
    (OwnIds file ↔ (nodeLines file).length ≤ 1 ∨ Distinguishes file) ∧
    (NoForeignId file ↔
      nodeLines file = [] ∨ ∀ p, ∃ l ∈ nodeLines file, l.clientPort p = p) := by
  refine ⟨⟨fun h => ?_, fun h => ?_⟩, ⟨fun h => ?_, fun h => ?_⟩⟩
  · by_cases hlen : (nodeLines file).length ≤ 1
    · exact Or.inl hlen
    · exact Or.inr (h.distinguishes (by omega))
  · intro i j a b hij ha hb p q busPort busPort' hap hbq
    obtain ⟨hi, -⟩ := List.getElem?_eq_some_iff.mp ha
    obtain ⟨hj, -⟩ := List.getElem?_eq_some_iff.mp hb
    have hdist : Distinguishes file := h.resolve_left (by omega)
    obtain ⟨s, hs, hsid⟩ := hdist.exists_startUp ha hap busPort
    obtain ⟨t, ht, htid⟩ := hdist.exists_startUp hb hbq busPort'
    refine ⟨s, t, hs, ht, hsid, htid, fun heq => hij ?_⟩
    refine (List.getElem?_inj (by simpa using hi) hids).mp ?_
    rw [List.getElem?_map, List.getElem?_map, ha, hb, Option.map_some, Option.map_some, ← hsid,
      ← htid, heq]
  · by_contra hnot
    simp only [not_or, not_forall, not_exists, not_and] at hnot
    obtain ⟨hne, p, hp⟩ := hnot
    obtain ⟨l, hl, -, -⟩ := selfLine_spec hne p
    obtain ⟨s, hs, hid⟩ := exists_startUp hl 0
    exact h p 0 s hp hs l (List.mem_of_getElem? hl) hid
  · intro p busPort s hp hs
    rcases h with hnil | hall
    · have hid := startUp_myId file p busPort
      rw [hs, hnil] at hid
      simp at hid
    · obtain ⟨l, hl, hport⟩ := hall p
      exact absurd hport (hp l hl)

/-- Two nodes on one machine. -/
def twoPorts : List UInt8 :=
  (CStr.lit "id=alpha host=h port=6301:17301\nid=beta host=h port=6302:17302\n").bytes

/-- Three nodes on three machines, all with the same client port. -/
def onePort : List UInt8 :=
  (CStr.lit ("# One line per node\n"
    ++ "id=alpha host=192.168.1.10 port=6379:16380 replicate=disk\n"
    ++ "id=beta  host=192.168.1.11 port=6379:16380 replicate=memory\n"
    ++ "id=gamma host=192.168.1.12 port=6379:16380 replicate=auto\n")).bytes

theorem nodeLines_twoPorts :
    nodeLines twoPorts = [⟨.lit "alpha", some 6301⟩, ⟨.lit "beta", some 6302⟩] := by
  decide

theorem nodeLines_onePort :
    nodeLines onePort
      = [⟨.lit "alpha", some 6379⟩, ⟨.lit "beta", some 6379⟩, ⟨.lit "gamma", some 6379⟩] := by
  simp only [onePort, CStr.lit, String.toList_append]
  decide +kernel

theorem nodeIdentity_twoPorts : OwnIds twoPorts ∧ ¬ NoForeignId twoPorts := by
  have h := nodeIdentity_iff twoPorts (by rw [nodeLines_twoPorts]; decide)
  refine ⟨h.1.mpr (Or.inr ?_), fun hforeign => ?_⟩
  · rw [Distinguishes, nodeLines_twoPorts]
    decide
  · rw [h.2, nodeLines_twoPorts] at hforeign
    rcases hforeign with hnil | hall
    · exact absurd hnil (by simp)
    · exact absurd (hall 6379) (by decide)

/-- All three start as `alpha`. -/
theorem onePort_shares_id :
    ((nodeLines onePort).map NodeLine.id).Nodup ∧ ¬ OwnIds onePort := by
  refine ⟨by rw [nodeLines_onePort]; decide, fun h => ?_⟩
  have hclient : ∀ s, NodeLine.clientPort ⟨s, some 6379⟩ 6379 = 6379 := fun _ => rfl
  exact h.port_ne (i := 0) (j := 1) (by rw [nodeLines_onePort]; rfl)
    (by rw [nodeLines_onePort]; rfl) (by decide) (hclient _) (hclient _)

end AntzKV

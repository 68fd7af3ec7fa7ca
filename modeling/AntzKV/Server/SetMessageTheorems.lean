/-
AntzKV.Server.SetMessageTheorems — what becomes of the message of a SET.

A line of 4095 bytes makes a message that `cluster_build_msg` does not cut
(`complete_of_line`), but the receiving loop has `rx` of half the size: a
message that does not fit it with its newline ends the connection. And the
conversions of `parse_meta` stop at more bytes than the delimiters of
`parse_line`, so a token can be more than a word. `delivers_iff` says
when the peer makes the call the message stands for.

That nothing else will do is read off `FromBus`: whatever lines arrive, the
texts in the peer's table are words.
-/
import AntzKV.Cluster.FullSyncTheorems
import AntzKV.Server.SetLineTheorems

namespace AntzKV

open Scanf (decimal)
open LineFraming (Reader fitting lines IsLine encode)

variable {S : Type}

/-! ## The receiving loop -/

/-- However the bytes arrive, the peer keeps the connection, and when it has
read them it has made the call `kv_set_meta(key, value, m)`. -/
def ReceivedAs (S : Type) (msg : List UInt8) (key value : CStr) (m : KvMeta) : Prop :=
  ∀ (db : KvTable S) (reads : List Nat),
    (reads.foldl handleClient ⟨⟨db, false⟩, [], msg, false⟩).closed = false ∧
    ((reads.foldl handleClient ⟨⟨db, false⟩, [], msg, false⟩).sock = [] →
      (reads.foldl handleClient ⟨⟨db, false⟩, [], msg, false⟩).state
        = ⟨(ReplWrite.set key value m).apply db, false⟩)

theorem ne_zero_of_mem_setText {m : KvMeta} {key value : CStr} {b : UInt8}
    (hb : b ∈ setText m key value) : b ≠ 0 := by
  have hdecimal : ∀ n : Nat, (0 : UInt8) ∉ decimal n := fun n h => ((isLine_decimal n) 0 h).1 rfl
  rintro rfl
  simp [setText, metaText, CStr.nulFree, hdecimal] at hb

/-- A SET of a fresh table is seen in it. -/
theorem kvGetObject_apply_set_fresh (key value : CStr) (m : KvMeta) :
    ∃ o, ((ReplWrite.set key value m).apply (KvTable.fresh none : KvTable S)).kvGetObject key
      = some o ∧ o.string? = some value ∧ o.origin = m.origin := by
  have hgrow : ¬ (KvTable.fresh none : KvTable S).CannotStore true := fresh_canStore none
  have hself := KvTable.kvGetObject_kvSetObject_self (KvTable.Wf.fresh (S := S) none)
    (KvTable.kvSetObject_of_canStore hgrow key
      ((DbObject.objCreateString value m.wallclock).stamp (some m)) (some m))
  exact ⟨_, hself, rfl, rfl⟩

theorem ne_zero_of_mem_message {m : KvMeta} {key value : CStr} :
    ∀ b ∈ setText m key value ++ [10], b ≠ 0 := by
  intro b hb
  rcases List.mem_append.mp hb with hb | hb
  · exact ne_zero_of_mem_setText hb
  · rw [List.mem_singleton.mp hb]
    decide

/-- A peer that receives the message has made its call from the lines that
fit `rx`. -/
theorem ReceivedAs.fitting_eq {m : KvMeta} {key value : CStr}
    (h : ReceivedAs S (setText m key value ++ [10]) key value m) :
    (fitting (busBufSize - 1) (setText m key value ++ [10])).foldl handleLine
        (⟨.fresh none, false⟩ : BusNode S)
      = ⟨(ReplWrite.set key value m).apply (.fresh none), false⟩ := by
  -- a fresh peer that has read what it can
  have hreads : ∃ reads : List Nat, (reads.foldl (Reader.read busBufSize handleLine)
      ⟨(⟨.fresh none, false⟩ : BusNode S), [], setText m key value ++ [10], false⟩).Drained :=
    Reader.exists_drained handleLine _ _ rfl
  obtain ⟨reads, hdrained⟩ := hreads
  obtain ⟨hopen, hread⟩ := h (.fresh none) reads
  have hloop : ¬ (reads.foldl (Reader.read busBufSize handleLine)
      ⟨(⟨.fresh none, false⟩ : BusNode S), [], setText m key value ++ [10], false⟩).closed
        = true := Bool.eq_false_iff.mp hopen
  have hstate := hread (hdrained.resolve_left hloop)
  have hlines : (reads.foldl handleClient
      ⟨⟨KvTable.fresh none, false⟩, [], setText m key value ++ [10], false⟩).state
        = (fitting (busBufSize - 1) (setText m key value ++ [10])).foldl handleLine
            (⟨.fresh none, false⟩ : BusNode S) :=
    Reader.state_of_drained handleLine _ (by decide) ne_zero_of_mem_message reads hdrained
  exact hlines.symm.trans hstate

/-- The texts of a SET that came over the bus are words. -/
theorem words_of_fromBus {m : KvMeta} {key value : CStr} (hkey : key ≠ .lit "")
    (hvalue : value ≠ .lit "")
    (h : FromBus ((ReplWrite.set key value m).apply (.fresh none : KvTable S))) :
    IsWord m.origin.text ∧ IsWord key ∧ IsWord value := by
  obtain ⟨o, hget, hstring, horigin⟩ := kvGetObject_apply_set_fresh (S := S) key value m
  obtain ⟨hm, v, hv, hfields⟩ := h.readable key o hget
  obtain rfl : v = value := Option.some.inj (hv.symm.trans hstring)
  rw [horigin] at hm
  obtain ⟨hkword, hvtext⟩ := hfields.resolve_right fun hempty => hkey hempty.1
  exact ⟨hm, hkword, hvtext.resolve_right hvalue⟩

/-- Of a line that is too long for the buffer nothing is handed over. -/
theorem fitting_of_long {l : List UInt8} (hl : IsLine l) (hlong : busBufSize < l.length + 2) :
    fitting (busBufSize - 1) (l ++ [10]) = [] := by
  have hsplit : lines (l ++ [10]) = ([l], []) := LineFraming.lines_cons hl []
  rw [fitting, hsplit, List.takeWhile_cons_of_neg]
  simp only [decide_eq_true_eq]
  omega

/-- **The message is received** exactly when its texts are words and it fits
`rx` with its newline. -/
theorem receivedAs_iff {m : KvMeta} {key value : CStr} (hkey : key ≠ .lit "")
    (hvalue : value ≠ .lit "") : ReceivedAs S (setText m key value ++ [10]) key value m ↔
      IsWord m.origin.text ∧ IsWord key ∧ IsWord value ∧
        (setText m key value).length + 2 ≤ busBufSize := by
  constructor
  · intro h
    have hcall := h.fitting_eq
    have hfrom : FromBus ((fitting (busBufSize - 1) (setText m key value ++ [10])).foldl handleLine
        (⟨.fresh none, false⟩ : BusNode S)).db :=
      fromBus_fitting none _ ne_zero_of_mem_message
    rw [hcall] at hfrom
    obtain ⟨hm, hk, hv⟩ := words_of_fromBus hkey hvalue hfrom
    refine ⟨hm, hk, hv, ?_⟩
    by_contra hlong
    rw [fitting_of_long (isLine_setText hm hk hv) (by omega)] at hcall
    -- the key is in the one table and not in the other
    have htables := congrArg (fun n : BusNode S => n.db.kvGetObject key) hcall
    obtain ⟨o, hget, -⟩ := kvGetObject_apply_set_fresh (S := S) key value m
    have hnone := KvTable.kvGetObject_fresh (S := S) none key
    exact absurd (hget.symm.trans (htables.symm.trans hnone)) (by simp)
  · rintro ⟨hm, hk, hv, hlen⟩ db reads
    have hline := isLine_setText (m := m) hm hk hv
    have hlines : ∀ l ∈ [setText m key value], IsLine l := by
      intro l hl
      rwa [List.mem_singleton.mp hl]
    have hfits : ∀ l ∈ [setText m key value], l.length + 2 ≤ busBufSize := by
      intro l hl
      rwa [List.mem_singleton.mp hl]
    obtain ⟨hopen, hall⟩ := LineFraming.deliver_lines handleLine (⟨db, false⟩ : BusNode S)
      (by decide : 1 < busBufSize) hlines hfits reads
    have hencode : encode [setText m key value] = setText m key value ++ [10] := by simp [encode]
    rw [hencode] at hopen hall
    refine ⟨hopen, fun hsock => (hall hsock).trans ?_⟩
    exact handleLine_setText (n := ⟨db, false⟩) hm hk hv hlen rfl

/-! ## The client's line -/

theorem ne_empty_of_mem_parseLine {line t : CStr} {n : Nat} (ht : t ∈ parseLine line n) :
    t ≠ .lit "" := by
  have hword : t.bytes ∈ Words.words isDelim line.bytes := by
    refine List.mem_of_mem_take (i := n) ?_
    rw [← bytes_parseLine]
    exact List.mem_map_of_mem ht
  rintro rfl
  exact Words.of_mem_words hword (by decide)

/-- The tokens of a line are no longer than the line. -/
theorem strlen_add_le {line a b c : CStr} {rest : List CStr} {n : Nat}
    (h : parseLine line n = a :: b :: c :: rest) : b.strlen + c.strlen ≤ line.strlen := by
  have hwords := bytes_parseLine line n
  rw [h] at hwords
  have hsub := List.take_sublist n (Words.words isDelim line.bytes)
  rw [← hwords] at hsub
  have hsum := (hsub.map List.length).sum_le_sum fun _ _ => Nat.zero_le _
  rw [Words.sum_length_words] at hsum
  have hcount : line.bytes.countP (fun x => !isDelim x) ≤ line.bytes.length :=
    List.countP_le_length
  simp only [List.map_cons, List.sum_cons] at hsum
  simp only [CStr.strlen]
  omega

theorem route_eq_set {l : List CStr} {k v : CStr} {options : List CStr}
    (h : route l = some (.set k v options)) : ∃ cmd, l = cmd :: k :: v :: options := by
  unfold route at h
  repeat' split at h
  all_goals cases h
  exact ⟨_, rfl⟩

namespace Server

/-- What the message of a SET carries is never cut by `CLUSTER_MSG_SIZE`. -/
theorem complete_of_line {line k v : CStr} {options : List CStr} (hlen : line.strlen < bufferSize)
    (hroute : route (parseLine line maxArgs) = some (.set k v options)) (m : KvMeta) :
    clusterReplicateSet k v m = setText m k v ++ [10] := by
  obtain ⟨cmd, hparse⟩ := route_eq_set hroute
  have hkv := strlen_add_le hparse
  have hdecimal : ∀ n : UInt64, (decimal n.toNat).length ≤ 19 + 1 := fun n =>
    Scanf.length_decimalAux_le (lt_trans n.toNat_lt (by norm_num))
  have hversion := hdecimal m.version
  have hwallclock := hdecimal m.wallclock
  have horigin : m.origin.text.strlen < 16 := m.origin.short
  have hmsg : clusterMsgSize = 8192 := rfl
  have hbuf : bufferSize = 4096 := rfl
  simp only [clusterReplicateSet, clusterBuildMsg, snprintf, Option.getD_some]
  refine List.take_of_length_le ?_
  rw [List.length_append, List.length_singleton, length_setText]
  omega

/-- A SET that stores its value: the reply, the metadata and the message. -/
theorem exec_set_ok {env : Env} {srv : Server S} (h : srv.db.Wf) {k v : CStr}
    (hgrow : ¬ srv.db.CannotStore env.calloc) (options : List CStr) :
    (srv.exec env (.set k v options)).2 = some .ok ∧
      (srv.exec env (.set k v options)).1.db.kvGetMeta k
        = some (v, ⟨srv.db.dbVersion + 1, env.usec, .blank⟩) ∧
      (srv.exec env (.set k v options)).1.enqueued
        = srv.enqueued ++ [clusterReplicateSet k v (setMeta env srv)] := by
  have hret : (srv.db.kvSet env.calloc k v env.usec).2 = 0 :=
    KvTable.kvSet_of_canStore hgrow k v env.usec
  obtain ⟨-, hq, -⟩ := exec_set_of_canStore h hgrow (k := k) (v := v) options
  have hget := (setOptions_spec (wf_kvSet h env.calloc k v env.usec) env.now k options).2
  rw [kvGetMeta_kvSet h hret] at hget
  refine ⟨?_, ?_, hq⟩
  · simp only [exec, hret, if_true]
  · simp only [exec, hret, if_true, db_replicateSet, hget]

theorem exec_set_of_cannotStore {env : Env} {srv : Server S} {k v : CStr}
    (hgrow : srv.db.CannotStore env.calloc) (options : List CStr) :
    (srv.exec env (.set k v options)).2 = some (.err (.lit "ERR")) := by
  simp [exec, KvTable.kvSet_of_cannotStore hgrow]

/-- A SET that is accepted hands over a complete message, with the key, the
value and the metadata that are stored and the node's own identity, and the
peer receives it as that. -/
def Delivers (env : Env) (srv : Server S) (line : CStr) : Prop :=
  ∀ k v options, route (parseLine line maxArgs) = some (.set k v options) →
    (srv.processCommand env line).2 = some .ok →
    ∃ stored, (srv.processCommand env line).1.db.kvGetMeta k = some (v, stored) ∧
      (srv.processCommand env line).1.enqueued
        = srv.enqueued ++ [setText { stored with origin := srv.myId } k v ++ [10]] ∧
      ReceivedAs S (setText { stored with origin := srv.myId } k v ++ [10]) k v
        { stored with origin := srv.myId }

/-- **From a client's SET to the peer**: on every reachable table the
message of a line is delivered exactly when the SET of the line, if it is
one, replicates. -/
theorem delivers_iff [LinearOrder S] (path : Option CStr) (file : Option (List UInt8))
    (ops : List (StoreOp S)) (myId : NodeOrigin) (enqueued : List (List UInt8)) (env : Env)
    (line : CStr) :
    Delivers env ⟨.storeRun path file ops, myId, enqueued, false⟩ line ↔
      ∀ k v options, route (parseLine line maxArgs) = some (.set k v options) →
        Replicates env ⟨.storeRun path file ops, myId, enqueued, false⟩ (.set k v options) := by
  have hwf : (KvTable.storeRun path file ops).Wf := KvTable.Wf.storeRun path file ops
  refine forall_congr' fun k => forall_congr' fun v => forall_congr' fun options =>
    imp_congr_right fun hroute => ?_
  obtain ⟨cmd, hparse⟩ := route_eq_set hroute
  have hkmem : k ∈ parseLine line maxArgs := by simp [hparse]
  have hvmem : v ∈ parseLine line maxArgs := by simp [hparse]
  have hk := ne_empty_of_mem_parseLine hkmem
  have hv := ne_empty_of_mem_parseLine hvmem
  generalize hsrv : (⟨.storeRun path file ops, myId, enqueued, false⟩ : Server S) = srv
  have hdb : srv.db.Wf := by
    rw [← hsrv]
    exact hwf
  have hproc : srv.processCommand env line = srv.exec env (.set k v options) := by
    rw [← hsrv]
    simp [processCommand, hroute]
  rw [hproc]
  by_cases hgrow : srv.db.CannotStore env.calloc
  · rw [exec_set_of_cannotStore hgrow]
    exact iff_of_true (fun herr => by cases herr) (Or.inl hgrow)
  · obtain ⟨hok, hget, hq⟩ := exec_set_ok hdb hgrow options (k := k) (v := v)
    have hfits : srv.MessageFits env k v
        ↔ (setText (setMeta env srv) k v).length + 2 ≤ busBufSize := by
      rw [length_setText]
      exact Iff.rfl
    constructor
    · intro h
      obtain ⟨stored, hstored, -, hreceived⟩ := h hok
      obtain rfl : ⟨srv.db.dbVersion + 1, env.usec, .blank⟩ = stored :=
        (Prod.mk.inj (Option.some.inj (hget.symm.trans hstored))).2
      obtain ⟨hid, hkword, hvword, hlen⟩ := (receivedAs_iff hk hv).mp hreceived
      exact Or.inr ⟨hid, hkword, hvword, hfits.mpr hlen⟩
    · intro h _
      obtain ⟨hid, hkword, hvword, hlen⟩ := h.resolve_left hgrow
      refine ⟨_, hget, ?_, (receivedAs_iff hk hv).mpr ⟨hid, hkword, hvword, hfits.mp hlen⟩⟩
      rw [hq, clusterReplicateSet_eq (hfits.mp hlen)]
      rfl

/-- A value whose line has room to spare in `line`. -/
def wideValue : CStr := letters 4085 (by decide)

/-- A node that has done nothing. -/
def freshServer : Server Int := ⟨.storeRun none none [], .ofCStr (.lit "n1"), [], false⟩

/-- The message of the line does not fit `rx`. -/
theorem wideValue_not_delivers :
    (cutLine (.lit "k") wideValue).strlen < bufferSize ∧
      ¬ Delivers env₀ freshServer (cutLine (.lit "k") wideValue) := by
  have hk : IsToken (.lit "k") := by decide +kernel
  have hv : IsToken wideValue := isToken_letters (by decide) _
  have hklen : (CStr.lit "k").strlen = 1 := by decide
  have hvlen : wideValue.strlen = 4085 := strlen_letters _ _
  have hshort : (cutLine (.lit "k") wideValue).strlen < bufferSize := by
    rw [CStr.strlen, bytes_cutLine hk hv]
    exact lt_of_le_of_lt (List.length_take_le _ _) (by decide)
  have hparse := parseLine_cutLine hk hv
  rw [hklen, hvlen, if_pos (by decide)] at hparse
  have hroute : route (parseLine (cutLine (.lit "k") wideValue) maxArgs)
      = some (.set (.lit "k") wideValue []) := by
    simp [hparse, route, set_eq_set]
  have hwf : freshServer.db.Wf := KvTable.Wf.storeRun none none []
  have hgrow : ¬ freshServer.db.CannotStore env₀.calloc := by decide
  have hproc : freshServer.processCommand env₀ (cutLine (.lit "k") wideValue)
      = freshServer.exec env₀ (.set (.lit "k") wideValue []) := by
    simp [processCommand, hroute, freshServer]
  have hok : (freshServer.exec env₀ (.set (.lit "k") wideValue [])).2 = some .ok :=
    (exec_set_ok hwf hgrow []).1
  refine ⟨hshort, fun h => ?_⟩
  obtain ⟨stored, -, -, hreceived⟩ := h _ _ _ hroute (by rw [hproc]; exact hok)
  have hne : wideValue ≠ .lit "" := by
    intro hnil
    rw [hnil] at hvlen
    exact absurd hvlen (by decide)
  obtain ⟨-, -, -, hlen⟩ := (receivedAs_iff (by decide) hne).mp hreceived
  have hbuf : busBufSize = 4096 := rfl
  have hidlen : freshServer.myId.text.strlen = 2 := by decide
  rw [length_setText, hklen, hvlen] at hlen
  simp only [hidlen] at hlen
  omega

end Server

end AntzKV

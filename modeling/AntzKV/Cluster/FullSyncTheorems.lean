/-
AntzKV.Cluster.FullSyncTheorems — when full sync transfers the string keys.

`Reader.state_of_drained` reduces the reads to the lines of the answer
that fit the buffer. What a SET line can leave in a table is bounded by
what `parse_meta` can read: an origin that is a word, a key and a value
without white space. A table that full sync copies has only such strings
(`Readable`), and then its lines are read back one by one
(`fitting_syncAnswer`), up to the first that is too long. The rest is the
room the receiver's own table has for them.
-/
import AntzKV.Cluster.FullSync
import AntzKV.Cluster.BusTheorems
import AntzKV.Cluster.ReplicaTheorems
import AntzKV.Core.KeySpaceTheorems

namespace AntzKV

open Scanf (isSpace decimal scanStr scanUll skipSpace)
open LineFraming (Reader IsLine encode lines fitting)
open OpenAddressing (Slot)

variable {S : Type}

namespace KvTable

/-! ## The writes of the answer -/

/-- The SETs of the answer, in order. -/
def syncWrites (db : KvTable S) : List ReplWrite :=
  db.kvKeys.filterMap fun k => (db.kvGetMeta k).map fun (v, m) => .set k v m

theorem mem_syncWrites {db : KvTable S} (h : db.Wf) {w : ReplWrite} :
    w ∈ db.syncWrites ↔ ∃ k v m, db.kvGetMeta k = some (v, m) ∧ w = .set k v m := by
  simp only [syncWrites, List.mem_filterMap, Option.map_eq_some_iff]
  constructor
  · rintro ⟨k, -, ⟨v, m⟩, hget, rfl⟩
    exact ⟨k, v, m, hget, rfl⟩
  · rintro ⟨k, v, m, hget, rfl⟩
    obtain ⟨o, ho, -⟩ := Option.bind_eq_some_iff.mp hget
    exact ⟨k, (mem_kvKeys h).mpr ⟨o, ho⟩, (v, m), hget, rfl⟩

theorem nodup_syncWrites {db : KvTable S} (h : db.Wf) : (db.syncWrites.map ReplWrite.key).Nodup := by
  refine (nodup_kvKeys h).sublist ?_
  unfold syncWrites
  induction db.kvKeys with
  | nil => exact List.Sublist.refl _
  | cons k ks ih =>
    cases hk : db.kvGetMeta k with
    | none => simpa [hk] using ih.cons k
    | some p => simpa [hk, ReplWrite.key] using ih.cons_cons k

end KvTable

/-! ## The lines of the answer -/

/-- The line of a write. -/
def ReplWrite.line : ReplWrite → List UInt8
  | .set key value m => setText m key value
  | .del key m => delText m key

/-- What `snprintf` leaves of a message. -/
def ReplWrite.msg (w : ReplWrite) : List UInt8 := snprintf clusterMsgSize (w.line ++ [10])

def snapshotText (db : KvTable S) : List UInt8 :=
  (CStr.lit "SNAPSHOT ").bytes ++ decimal db.dbVersion.toNat

theorem length_snapshotText_le (db : KvTable S) : (snapshotText db).length ≤ 29 := by
  have hdigits : (decimal db.dbVersion.toNat).length ≤ 19 + 1 :=
    Scanf.length_decimalAux_le (lt_of_lt_of_le db.dbVersion.toNat_lt (by norm_num))
  have hname : (CStr.lit "SNAPSHOT ").bytes.length = 9 := by decide
  rw [snapshotText, List.length_append, hname]
  omega

theorem syncAnswer_eq (db : KvTable S) :
    db.syncAnswer = encode [snapshotText db] ++ db.syncWrites.flatMap ReplWrite.msg
      ++ encode [(CStr.lit "SNAPSHOT_END").bytes] := by
  have hsnap : (snapshotText db ++ [10]).length ≤ clusterMsgSize - 1 := by
    have hlen := length_snapshotText_le db
    rw [List.length_append, List.length_singleton, clusterMsgSize]
    omega
  have hkeys : db.kvKeys.flatMap db.syncMsg = db.syncWrites.flatMap ReplWrite.msg := by
    unfold KvTable.syncWrites
    induction db.kvKeys with
    | nil => rfl
    | cons k ks ih =>
      cases hk : db.kvGetMeta k with
      | none => simp [KvTable.syncMsg, hk, ih]
      | some p => simp [KvTable.syncMsg, hk, ih, clusterBuildMsg, ReplWrite.msg, ReplWrite.line]
  have hend : snprintf clusterMsgSize ((CStr.lit "SNAPSHOT_END").bytes ++ [10])
      = encode [(CStr.lit "SNAPSHOT_END").bytes] := by
    decide
  have hstart : snprintf clusterMsgSize ((CStr.lit "SNAPSHOT ").bytes ++ decimal db.dbVersion.toNat ++ [10])
      = encode [snapshotText db] := by
    rw [snprintf, List.take_of_length_le (by exact hsnap)]
    simp [encode, snapshotText]
  simp only [KvTable.syncAnswer, clusterBuildMsg, Option.getD_some, Option.elim_some, hkeys, hend,
    hstart]

/-! ## What a line can leave in a table -/

/-- A word that was read is the word of a C string. -/
theorem isWord_of_scanStr {w : Nat} {s word t : List UInt8} (hnul : ∀ b ∈ s, b ≠ 0)
    (h : scanStr w s = some (word, t)) : IsWord (.ofBuf word) := by
  obtain ⟨hne, hmem, -⟩ := Scanf.scanStr_spec h
  have hall : word.takeWhile (· != 0) = word := by
    rw [List.takeWhile_eq_self_iff]
    intro b hb
    simpa using hnul b (hmem b hb).2
  refine ⟨?_, ?_⟩
  · simp only [CStr.ofBuf, hall]
    cases word with
    | nil => exact absurd rfl hne
    | cons b word => simp [objectBound]
  · intro b hb
    simp only [CStr.ofBuf, hall] at hb
    exact (hmem b (List.mem_of_mem_take hb)).1

theorem isWord_ofCStr {s : CStr} (h : IsWord s) : IsWord (NodeOrigin.ofCStr s).text := by
  refine ⟨?_, fun b hb => h.2 b (List.mem_of_mem_take hb)⟩
  obtain ⟨b, t, hs⟩ := List.exists_cons_of_ne_nil h.1
  simp [NodeOrigin.ofCStr, CStr.take, hs, nodeOriginLen]

/-- What `parse_meta` reads: an origin that is a word, and fields that
would be read again. -/
theorem fields_of_parseMeta {rest : List UInt8} (hnul : ∀ b ∈ rest, b ≠ 0) {f : MetaFields}
    (h : parseMeta rest = some f) :
    IsWord f.kvMeta.origin.text ∧ Fields (f.key.getD (.lit "")) (f.val.getD (.lit "")) := by
  simp only [parseMeta, Option.bind_eq_bind, Option.bind_eq_some_iff] at h
  obtain ⟨⟨origin, s₁⟩, horigin, ⟨version, s₂⟩, hversion, ⟨wallclock, s₃⟩, hwall, h⟩ := h
  have hword := isWord_of_scanStr hnul horigin
  have hsuffix : s₃ <:+ rest :=
    ((Scanf.scanUll_suffix hwall).trans (Scanf.scanUll_suffix hversion)).trans
      (Scanf.scanStr_spec horigin).2.2
  have hnul₃ : ∀ b ∈ s₃, b ≠ 0 := fun b hb => hnul b (hsuffix.subset hb)
  simp only at h
  split at h
  · obtain rfl := Option.some.inj h
    exact ⟨isWord_ofCStr hword, Or.inr ⟨rfl, rfl⟩⟩
  · rename_i key s₄ hkey
    obtain rfl := Option.some.inj h
    refine ⟨isWord_ofCStr hword, Or.inl ⟨isWord_of_scanStr hnul₃ hkey, ?_⟩⟩
    have hnul₄ : ∀ b ∈ s₄, b ≠ 0 := fun b hb => hnul₃ b ((Scanf.scanStr_spec hkey).2.2.subset hb)
    cases hval : scanStr 4095 s₄ with
    | none => exact Or.inr rfl
    | some p => exact Or.inl (isWord_of_scanStr hnul₄ hval)

/-- A table that lines of the bus have filled. -/
structure FromBus (db : KvTable S) : Prop where
  wf : db.Wf
  readable : ∀ k o, db.kvGetObject k = some o →
    IsWord o.origin.text ∧ ∃ v, o.string? = some v ∧ Fields k v

theorem mem_of_clusterParseCmd {line : List UInt8} {restLen : Nat} {b : UInt8}
    (hb : b ∈ (clusterParseCmd line restLen).2) : b ∈ line := by
  unfold clusterParseCmd at hb
  dsimp only at hb
  split at hb
  · exact (Scanf.skipSpace_suffix line).subset (List.mem_of_mem_drop (List.mem_of_mem_take hb))
  · simp at hb

theorem FromBus.set {db : KvTable S} (h : FromBus db) {key value : CStr} {m : KvMeta}
    (horigin : IsWord m.origin.text) (hfields : Fields key value) :
    FromBus ((ReplWrite.set key value m).apply db) where
  wf := ReplWrite.wf_apply h.wf _
  readable := by
    intro k o hget
    rcases KvTable.stored_kvSetObject h.wf hget with hold | ⟨rfl, rfl⟩
    · exact h.readable k o hold
    · exact ⟨horigin, _, rfl, hfields⟩

theorem FromBus.del {db : KvTable S} (h : FromBus db) (key : CStr) (m : KvMeta) :
    FromBus ((ReplWrite.del key m).apply db) where
  wf := ReplWrite.wf_apply h.wf _
  readable := by
    intro k o hget
    rw [ReplWrite.apply, KvTable.kvGetObject_kvDelMeta h.wf] at hget
    split at hget
    · rename_i hk
      subst hk
      exact h.readable k o (Option.filter_eq_some_iff.mp hget).1
    · exact h.readable k o hget

theorem FromBus.handleLine {n : BusNode S} (h : FromBus n.db) {line : List UInt8}
    (hline : IsLine line) : FromBus (handleLine n line).db := by
  have hrest : ∀ b ∈ (clusterParseCmd (line.take (busBufSize - 1)) busBufSize).2, b ≠ 0 :=
    fun b hb => (hline b (List.mem_of_mem_take (mem_of_clusterParseCmd hb))).1
  unfold AntzKV.handleLine
  split
  · exact h
  · split
    · rename_i rest hcmd
      rw [hcmd] at hrest
      cases hparse : parseMeta rest with
      | none => exact h
      | some f =>
        obtain ⟨horigin, hfields⟩ := fields_of_parseMeta hrest hparse
        exact h.set horigin hfields
    · rename_i rest hcmd
      cases hparse : parseMeta rest with
      | none => exact h
      | some f => exact h.del _ _
    · exact h

/-! ## The lines that are handed over -/

theorem isLine_snapshotText (db : KvTable S) : IsLine (snapshotText db) := by
  have hname : IsLine (CStr.lit "SNAPSHOT ").bytes := by decide +kernel
  exact isLine_append hname (isLine_decimal _)

theorem clusterParseCmd_snapshot (t : List UInt8) (restLen : Nat) :
    clusterParseCmd ((CStr.lit "SNAPSHOT ").bytes ++ t) restLen = (.snapshot, t.take restLen) := by
  have hname : (CStr.lit "SNAPSHOT ").bytes = [83, 78, 65, 80, 83, 72, 79, 84, 32] := by
    decide
  have hheart : (CStr.lit "HEARTBEAT").bytes = [72, 69, 65, 82, 84, 66, 69, 65, 84] := by
    decide
  have hset : (CStr.lit "SET ").bytes = [83, 69, 84, 32] := by decide
  have hdel : (CStr.lit "DEL ").bytes = [68, 69, 76, 32] := by decide
  have hjoin : (CStr.lit "JOIN ").bytes = [74, 79, 73, 78, 32] := by decide
  have hsync : (CStr.lit "SYNC_REQ").bytes = [83, 89, 78, 67, 95, 82, 69, 81] := by decide
  apply clusterParseCmd_eq
  · rw [hname]
    exact Scanf.skipSpace_of_head (by decide) _
  · simp [busCmds, List.find?, strncasecmpEq, CStr.strlen, hname, hheart, hset, hdel, hjoin, hsync,
      toLower]

/-- SNAPSHOT and SNAPSHOT_END have no branch. -/
theorem handleLine_snapshotText (db : KvTable S) (n : BusNode S) :
    handleLine n (snapshotText db) = n := by
  have hlen := length_snapshotText_le db
  have hbuf : busBufSize = 4096 := rfl
  have hcmd : (clusterParseCmd (snapshotText db) busBufSize).1 = .snapshot :=
    congrArg Prod.fst (clusterParseCmd_snapshot _ _)
  have htake : (snapshotText db).take (busBufSize - 1) = snapshotText db :=
    List.take_of_length_le (by omega)
  unfold handleLine
  rw [htake]
  split
  · rfl
  · split <;> simp_all

theorem handleLine_snapshotEnd (n : BusNode S) :
    handleLine n (CStr.lit "SNAPSHOT_END").bytes = n := by
  have hcmd : (clusterParseCmd ((CStr.lit "SNAPSHOT_END").bytes.take (busBufSize - 1)) busBufSize).1
      = .snapshotEnd := by
    decide
  unfold handleLine
  split
  · rfl
  · split <;> simp_all

/-- The write is read back from its line, when that fits. -/
def ReplWrite.Readable : ReplWrite → Prop
  | .set key value m => IsWord m.origin.text ∧ Fields key value
  | .del _ _ => False

/-- A line has its place in the receive buffer, newline and NUL included. -/
def ReplWrite.Fits (w : ReplWrite) : Prop := w.line.length + 1 ≤ 4095

theorem ReplWrite.Readable.isLine {w : ReplWrite} (h : w.Readable) : IsLine w.line := by
  cases w with
  | set key value m => exact isLine_setText_of_fields h.1 h.2
  | del key m => exact h.elim

theorem ReplWrite.Readable.handleLine {w : ReplWrite} (h : w.Readable) (hfit : w.Fits)
    (db : KvTable S) : AntzKV.handleLine ⟨db, false⟩ w.line = ⟨w.apply db, false⟩ := by
  cases w with
  | set key value m =>
    have hlen : (setText m key value).length + 1 ≤ 4095 := hfit
    exact handleLine_of_fields h.1 h.2 (by simp only [busBufSize]; omega) rfl
  | del key m => exact h.elim

theorem ReplWrite.msg_of_fits {w : ReplWrite} (hfit : w.Fits) : w.msg = w.line ++ [10] := by
  have hlen : w.line.length + 1 ≤ 4095 := hfit
  refine List.take_of_length_le ?_
  rw [List.length_append, List.length_singleton, clusterMsgSize]
  omega

theorem foldl_handleLine {ws : List ReplWrite} (hread : ∀ w ∈ ws, w.Readable)
    (hfit : ∀ w ∈ ws, w.Fits) (db : KvTable S) :
    (ws.map ReplWrite.line).foldl handleLine ⟨db, false⟩ = ⟨ws.foldl ReplWrite.apply db, false⟩ := by
  induction ws generalizing db with
  | nil => rfl
  | cons w ws ih =>
    rw [List.map_cons, List.foldl_cons, (hread w (by simp)).handleLine (hfit w (by simp))]
    exact ih (fun v hv => hread v (by simp [hv])) (fun v hv => hfit v (by simp [hv])) (w.apply db)

/-- The answer up to some of its lines. -/
theorem fitting_syncLines {db : KvTable S} {ws : List ReplWrite} (hread : ∀ w ∈ ws, w.Readable)
    (hfit : ∀ w ∈ ws, w.Fits) (t : List UInt8) :
    fitting 4095 (encode [snapshotText db] ++ (ws.flatMap ReplWrite.msg ++ t))
      = snapshotText db :: (ws.map ReplWrite.line ++ fitting 4095 t) := by
  have hmsgs : ws.flatMap ReplWrite.msg = encode (ws.map ReplWrite.line) := by
    rw [encode, List.flatMap_map]
    exact List.flatMap_congr fun w hw => ReplWrite.msg_of_fits (hfit w hw)
  have hsnap := length_snapshotText_le db
  rw [hmsgs, LineFraming.fitting_encode_append, LineFraming.fitting_encode_append]
  · rfl
  · intro l hl
    obtain ⟨w, hw, rfl⟩ := List.mem_map.mp hl
    exact (hread w hw).isLine
  · intro l hl
    obtain ⟨w, hw, rfl⟩ := List.mem_map.mp hl
    exact hfit w hw
  · intro l hl
    rw [List.mem_singleton.mp hl]
    exact isLine_snapshotText db
  · intro l hl
    rw [List.mem_singleton.mp hl]
    omega

/-- A line that does not fit ends the loop, with everything behind it. -/
theorem fitting_of_not_fits {w : ReplWrite} (hread : w.Readable) (hfit : ¬ w.Fits)
    {t : List UInt8} (ht : ∀ b ∈ t, b ≠ 0) : fitting 4095 (w.msg ++ t) = [] := by
  have hlen : 4095 ≤ w.line.length := by
    unfold ReplWrite.Fits at hfit
    omega
  have hsplit : w.msg = w.line.take 4095 ++ w.msg.drop 4095 := by
    have htake : w.msg.take 4095 = w.line.take 4095 := by
      rw [ReplWrite.msg, snprintf, List.take_take, clusterMsgSize,
        List.take_append_of_le_length (by simpa using hlen)]
      rfl
    rw [← htake, List.take_append_drop]
  rw [hsplit, List.append_assoc]
  refine (LineFraming.fitting_of_full ?_ ?_ ?_).1
  · exact fun b hb => hread.isLine b (List.mem_of_mem_take hb)
  · rw [List.length_take]
    omega
  · intro b hb
    rcases List.mem_append.mp hb with hb | hb
    · have hmem : b ∈ w.line ++ [10] := List.mem_of_mem_take (List.mem_of_mem_drop hb)
      rcases List.mem_append.mp hmem with hmem | hmem
      · exact (hread.isLine b hmem).1
      · rw [List.mem_singleton.mp hmem]
        decide
    · exact ht b hb

instance (w : ReplWrite) : Decidable w.Fits := inferInstanceAs (Decidable (_ ≤ _))

/-- No byte of the answer is NUL. -/
theorem ne_zero_of_mem_msg {w : ReplWrite} {b : UInt8} (hb : b ∈ w.msg) : b ≠ 0 := by
  have hmem : b ∈ w.line ++ [10] := List.mem_of_mem_take hb
  have hdec : ∀ n, (0 : UInt8) ∉ decimal n := fun n h => (isLine_decimal n 0 h).1 rfl
  rintro rfl
  cases w with
  | set key value m =>
    simp [ReplWrite.line, setText, metaText, CStr.nulFree, hdec] at hmem
  | del key m =>
    simp [ReplWrite.line, delText, metaText, CStr.nulFree, hdec] at hmem

theorem ne_zero_of_mem_syncAnswer {db : KvTable S} {b : UInt8} (hb : b ∈ db.syncAnswer) :
    b ≠ 0 := by
  have hlines : ∀ l, IsLine l → ∀ b ∈ encode [l], b ≠ 0 := by
    intro l hl b hb
    simp only [encode, List.flatMap_cons, List.flatMap_nil, List.append_nil, List.mem_append,
      List.mem_singleton] at hb
    rcases hb with hb | rfl
    · exact (hl b hb).1
    · decide
  rw [syncAnswer_eq] at hb
  rcases List.mem_append.mp hb with hb | hb
  · rcases List.mem_append.mp hb with hb | hb
    · exact hlines _ (isLine_snapshotText db) b hb
    · obtain ⟨w, -, hb⟩ := List.mem_flatMap.mp hb
      exact ne_zero_of_mem_msg hb
  · exact hlines _ (by decide +kernel) b hb

/-- The node after the lines that are handed over: it has made the calls of
the writes before the first that does not fit. -/
theorem foldl_fitting_syncAnswer {db : KvTable S} {sent rest : List ReplWrite}
    (hsplit : db.syncWrites = sent ++ rest) (hread : ∀ w ∈ db.syncWrites, w.Readable)
    (hfit : ∀ w ∈ sent, w.Fits) (hlong : ∀ w ∈ rest.head?, ¬ w.Fits) (start : KvTable S) :
    (fitting 4095 db.syncAnswer).foldl handleLine ⟨start, false⟩
      = ⟨sent.foldl ReplWrite.apply start, false⟩ := by
  have hsent : ∀ w ∈ sent, w.Readable := fun w hw => hread w (by rw [hsplit]; simp [hw])
  have hbytes : db.syncAnswer = encode [snapshotText db] ++ (sent.flatMap ReplWrite.msg
      ++ (rest.flatMap ReplWrite.msg ++ encode [(CStr.lit "SNAPSHOT_END").bytes])) := by
    rw [syncAnswer_eq, hsplit]
    simp only [List.flatMap_append, List.append_assoc]
  have hdone : (snapshotText db :: sent.map ReplWrite.line).foldl handleLine ⟨start, false⟩
      = ⟨sent.foldl ReplWrite.apply start, false⟩ := by
    rw [List.foldl_cons, handleLine_snapshotText, foldl_handleLine hsent hfit]
  have hnul : ∀ b ∈ rest.flatMap ReplWrite.msg ++ encode [(CStr.lit "SNAPSHOT_END").bytes],
      b ≠ 0 := by
    intro b hb
    have hmem : b ∈ db.syncAnswer := by
      rw [hbytes]
      exact List.mem_append_right _ (List.mem_append_right _ hb)
    exact ne_zero_of_mem_syncAnswer hmem
  rw [hbytes, fitting_syncLines hsent hfit, ← List.cons_append, List.foldl_append, hdone]
  cases rest with
  | nil =>
    have hend : fitting 4095 (encode [(CStr.lit "SNAPSHOT_END").bytes])
        = [(CStr.lit "SNAPSHOT_END").bytes] := by
      decide
    rw [List.flatMap_nil, List.nil_append, hend, List.foldl_cons, handleLine_snapshotEnd]
    rfl
  | cons w post =>
    have hw : w.Readable := hread w (by rw [hsplit]; simp)
    rw [List.flatMap_cons, List.append_assoc] at hnul ⊢
    rw [fitting_of_not_fits hw (hlong w rfl) fun b hb => hnul b (List.mem_append_right _ hb)]
    rfl

/-- The node after all the lines that are handed over. -/
def received (path : Option CStr) (db : KvTable S) : BusNode S :=
  (fitting 4095 db.syncAnswer).foldl handleLine ⟨.fresh path, false⟩

/-- The reads do not matter. -/
theorem syncTransfers_iff_received (path : Option CStr) (db : KvTable S) :
    SyncTransfers path db ↔
      (received path db).crashed = false ∧ db.Copies (received path db).db := by
  have hstate : ∀ reads, (joiner path db reads).Drained →
      (joiner path db reads).state = received path db := fun reads h =>
    Reader.state_of_drained handleLine ⟨.fresh path, false⟩ (by decide)
      (fun _ hb => ne_zero_of_mem_syncAnswer hb) reads h
  constructor
  · intro h
    obtain ⟨reads, hreads⟩ : ∃ reads, (joiner path db reads).Drained :=
      Reader.exists_drained handleLine db.syncAnswer _ rfl
    rw [← hstate reads hreads]
    exact h reads hreads
  · intro h reads hreads
    rw [hstate reads hreads]
    exact h

theorem FromBus.handleLines {ls : List (List UInt8)} (hls : ∀ l ∈ ls, IsLine l) {n : BusNode S}
    (h : FromBus n.db) : FromBus (ls.foldl AntzKV.handleLine n).db := by
  induction ls generalizing n with
  | nil => exact h
  | cons l ls ih => exact ih (fun m hm => hls m (by simp [hm])) (h.handleLine (hls l (by simp)))

/-- A new table takes a first key as it is. -/
theorem fresh_canStore (path : Option CStr) : ¬ (KvTable.fresh path : KvTable S).CannotStore true := by
  rintro (hobj | ⟨hload, -⟩)
  · cases hobj
  · simp [KvTable.overloaded, KvTable.fresh, KvTable.capacity, initialCapacity] at hload

theorem fromBus_fresh (path : Option CStr) : FromBus (KvTable.fresh path : KvTable S) := by
  refine ⟨KvTable.Wf.fresh path, ?_⟩
  intro k o hget
  rw [KvTable.kvGetObject_fresh] at hget
  cases hget

/-- The table of a fresh peer after the lines of any stream. -/
theorem fromBus_fitting (path : Option CStr) (size : Nat) {input : List UInt8}
    (hnul : ∀ b ∈ input, b ≠ 0) :
    FromBus ((fitting size input).foldl handleLine (⟨.fresh path, false⟩ : BusNode S)).db := by
  obtain ⟨-, hlines, -⟩ := LineFraming.lines_spec hnul
  exact FromBus.handleLines (fun l hl => hlines l ((List.takeWhile_prefix _).subset hl))
    (fromBus_fresh path)

theorem fromBus_received (path : Option CStr) (db : KvTable S) : FromBus (received path db).db :=
  fromBus_fitting path 4095 fun _ hb => ne_zero_of_mem_syncAnswer hb

/-- Only strings that can be read are copied. -/
theorem readable_of_copies {path : Option CStr} {db : KvTable S} (hwf : db.Wf)
    (h : db.Copies (received path db).db) : ∀ w ∈ db.syncWrites, w.Readable := by
  intro w hw
  obtain ⟨k, v, m, hget, rfl⟩ := (KvTable.mem_syncWrites hwf).mp hw
  obtain ⟨o, ho, hmeta⟩ := Option.bind_eq_some_iff.mp (h.all k v m hget)
  obtain ⟨s, hs, heq⟩ := Option.map_eq_some_iff.mp hmeta
  obtain ⟨rfl, rfl⟩ := Prod.mk.inj heq
  obtain ⟨horigin, v', hv', hfields⟩ := (fromBus_received path db).readable k o ho
  obtain rfl := Option.some.inj (hv'.symm.trans hs)
  exact ⟨horigin, hfields⟩

/-! ## Room at the receiver -/

namespace ReplWrite

theorem stored_apply {db : KvTable S} (h : db.Wf) {w : ReplWrite} {k : CStr} {o : DbObject S}
    (hget : (w.apply db).kvGetObject k = some o) : k = w.key ∨ db.kvGetObject k = some o := by
  cases w with
  | set key value m =>
    rcases KvTable.stored_kvSetObject h hget with hold | ⟨hk, -⟩
    · exact Or.inr hold
    · exact Or.inl hk
  | del key m =>
    rw [apply, KvTable.kvGetObject_kvDelMeta h] at hget
    split at hget
    · rename_i hk
      exact Or.inl hk
    · exact Or.inr hget

/-- A key in the table is the key of a write, or was there before. -/
theorem stored_applyAll {ws : List ReplWrite} {db : KvTable S} (h : db.Wf) {k : CStr}
    {o : DbObject S} (hget : (ws.foldl apply db).kvGetObject k = some o) :
    k ∈ ws.map key ∨ db.kvGetObject k = some o := by
  induction ws generalizing db with
  | nil => exact Or.inr hget
  | cons w ws ih =>
    rcases ih (wf_apply h w) hget with hmem | hold
    · exact Or.inl (List.mem_cons_of_mem _ hmem)
    · rcases stored_apply h hold with rfl | hold
      · exact Or.inl List.mem_cons_self
      · exact Or.inr hold

/-- A write on a new key that is there afterwards, with all that was there
before, has had memory and room. -/
theorem admits_of_kept {w : ReplWrite} {db : KvTable S} (h : db.Wf)
    (hnew : db.kvGetObject w.key = none) (hself : ∃ o, (w.apply db).kvGetObject w.key = some o)
    (hkept : ∀ k o, db.kvGetObject k = some o → ∃ o', (w.apply db).kvGetObject k = some o') :
    w.Admits db := by
  cases w with
  | del key m => trivial
  | set key value m =>
    have hgrow : ¬ db.CannotStore true := by
      intro hno
      obtain ⟨o, ho⟩ := hself
      have hsame : (ReplWrite.set key value m).apply db = db :=
        congrArg Prod.fst (KvTable.kvSetObject_of_cannotStore hno key _ _)
      rw [hsame, hnew] at ho
      cases ho
    refine ⟨hgrow, ?_⟩
    by_contra hroom
    have hret := KvTable.kvSetObject_of_canStore hgrow key
      ((DbObject.objCreateString value m.wallclock).stamp (some m)) (some m)
    obtain ⟨k, -, ⟨o, ho⟩, hlost⟩ := KvTable.exists_overwritten h (Prod.ext rfl hret) hroom
    have hgone : ((ReplWrite.set key value m).apply db).kvGetObject k = none := hlost
    obtain ⟨o', ho'⟩ := hkept k o ho
    rw [hgone] at ho'
    cases ho'

/-- SETs on new and different keys that are all there in the end have had
memory and room, one by one. -/
theorem guarded_of_present {ws : List ReplWrite} (hset : ∀ w ∈ ws, w.isSet = true)
    (hnodup : (ws.map key).Nodup) {db : KvTable S} (h : db.Wf)
    (hnew : ∀ w ∈ ws, db.kvGetObject w.key = none)
    (hthere : ∀ k, k ∈ ws.map key ∨ (∃ o, db.kvGetObject k = some o) →
      ∃ o, (ws.foldl apply db).kvGetObject k = some o) :
    Run.Guarded apply (fun db w => w.Admits db) db ws := by
  induction ws generalizing db with
  | nil => trivial
  | cons w ws ih =>
    obtain ⟨hfresh, hnodup⟩ := List.nodup_cons.mp hnodup
    -- what is lost by the first write is lost for good
    have hkept : ∀ k, k ∉ ws.map key → k = w.key ∨ (∃ o, db.kvGetObject k = some o) →
        ∃ o, (w.apply db).kvGetObject k = some o := by
      intro k hk hold
      obtain ⟨o, ho⟩ := hthere k (hold.imp (fun hkey => by simp [hkey]) id)
      exact ⟨o, (stored_applyAll (wf_apply h w) ho).resolve_left hk⟩
    have holdkey : ∀ k o, db.kvGetObject k = some o → k ∉ ws.map key := by
      intro k o ho hmem
      obtain ⟨v, hv, rfl⟩ := List.mem_map.mp hmem
      rw [hnew v (by simp [hv])] at ho
      cases ho
    refine ⟨?_, ih (fun v hv => hset v (by simp [hv])) hnodup (wf_apply h w) ?_ ?_⟩
    · refine admits_of_kept h (hnew w (by simp)) (hkept w.key hfresh (Or.inl rfl)) ?_
      intro k o ho
      exact hkept k (holdkey k o ho) (Or.inr ⟨o, ho⟩)
    · intro v hv
      cases hget : (w.apply db).kvGetObject v.key with
      | none => rfl
      | some o =>
        rcases stored_apply h hget with hk | hold
        · exact absurd (hk ▸ List.mem_map_of_mem hv) hfresh
        · exact absurd (List.mem_map_of_mem hv) (holdkey _ _ hold)
    · intro k hk
      refine hthere k ?_
      rcases hk with hk | ⟨o, ho⟩
      · exact Or.inl (List.mem_cons_of_mem _ hk)
      · rcases stored_apply h ho with rfl | hold
        · exact Or.inl List.mem_cons_self
        · exact Or.inr ⟨o, hold⟩

end ReplWrite

/-- Every write of the answer finds memory and room in the table of the
node that joins. -/
def SyncRoom (path : Option CStr) (db : KvTable S) : Prop :=
  Run.Guarded ReplWrite.apply (fun t w => w.Admits t) (KvTable.fresh path : KvTable S) db.syncWrites

theorem copies_of_syncRoom {path : Option CStr} {db : KvTable S} (hwf : db.Wf)
    (hroom : SyncRoom path db) :
    db.Copies (db.syncWrites.foldl ReplWrite.apply (.fresh path)) where
  all := by
    intro k v m hget
    have hmem : ReplWrite.set k v m ∈ db.syncWrites :=
      (KvTable.mem_syncWrites hwf).mpr ⟨k, v, m, hget, rfl⟩
    have hsame : ∀ w ∈ db.syncWrites.filter (fun w => w.key = k), w = .set k v m := by
      intro w hw
      obtain ⟨hw, hk⟩ := List.mem_filter.mp hw
      obtain ⟨k', v', m', hget', rfl⟩ := (KvTable.mem_syncWrites hwf).mp hw
      obtain rfl : k' = k := of_decide_eq_true hk
      obtain ⟨rfl, rfl⟩ := Prod.mk.inj (Option.some.inj (hget'.symm.trans hget))
      rfl
    have hnodup := (KvTable.nodup_syncWrites hwf).of_map.filter fun w => decide (w.key = k)
    have hon : ReplWrite.set k v m ∈ db.syncWrites.filter (fun w => w.key = k) :=
      List.mem_filter.mpr ⟨hmem, decide_eq_true rfl⟩
    have hobj := ReplWrite.kvGetObject_applyAll db.syncWrites _ (KvTable.Wf.fresh path) hroom k
    rw [ReplWrite.foldl_onKey_of_greatest hon rfl (fun w hw hne => absurd (hsame w hw) hne) hnodup]
      at hobj
    rw [KvTable.kvGetMeta, hobj]
    rfl
  only := by
    intro k o hget
    rcases ReplWrite.stored_applyAll (KvTable.Wf.fresh path) hget with hmem | hnone
    · obtain ⟨w, hw, rfl⟩ := List.mem_map.mp hmem
      obtain ⟨k, v, m, hmeta, rfl⟩ := (KvTable.mem_syncWrites hwf).mp hw
      exact ⟨v, m, hmeta⟩
    · rw [KvTable.kvGetObject_fresh] at hnone
      cases hnone

/-- A complete copy has had all the writes, and room for each. -/
theorem fits_of_copies {path : Option CStr} {db : KvTable S} (hwf : db.Wf)
    {sent rest : List ReplWrite} (hsplit : db.syncWrites = sent ++ rest)
    (h : db.Copies (sent.foldl ReplWrite.apply (.fresh path))) : rest = [] := by
  cases rest with
  | nil => rfl
  | cons w rest =>
    have hw : w ∈ db.syncWrites := by rw [hsplit]; simp
    obtain ⟨k, v, m, hget, rfl⟩ := (KvTable.mem_syncWrites hwf).mp hw
    obtain ⟨o, ho, -⟩ := Option.bind_eq_some_iff.mp (h.all k v m hget)
    have hnodup := KvTable.nodup_syncWrites hwf
    rw [hsplit, List.map_append, List.map_cons] at hnodup
    rcases ReplWrite.stored_applyAll (KvTable.Wf.fresh path) ho with hmem | hnone
    · exact absurd rfl ((List.nodup_append.mp hnodup).2.2 k hmem k (by simp [ReplWrite.key]))
    · rw [KvTable.kvGetObject_fresh] at hnone
      cases hnone

theorem syncRoom_of_copies {path : Option CStr} {db : KvTable S} (hwf : db.Wf)
    (h : db.Copies (db.syncWrites.foldl ReplWrite.apply (.fresh path))) : SyncRoom path db := by
  refine ReplWrite.guarded_of_present ?_ (KvTable.nodup_syncWrites hwf) (KvTable.Wf.fresh path) ?_ ?_
  · intro w hw
    obtain ⟨k, v, m, -, rfl⟩ := (KvTable.mem_syncWrites hwf).mp hw
    rfl
  · intro w _
    exact KvTable.kvGetObject_fresh path w.key
  · rintro k (hk | ⟨o, ho⟩)
    · obtain ⟨w, hw, rfl⟩ := List.mem_map.mp hk
      obtain ⟨k, v, m, hget, rfl⟩ := (KvTable.mem_syncWrites hwf).mp hw
      obtain ⟨o, ho, -⟩ := Option.bind_eq_some_iff.mp (h.all k v m hget)
      exact ⟨o, ho⟩
    · rw [KvTable.kvGetObject_fresh] at ho
      cases ho

/-! ## Full sync -/

/-- The strings that full sync can send: their origin is a word, key and
value survive the field splitting, and the message fits the buffer of the
receiver. -/
def Sendable (key value : CStr) (m : KvMeta) : Prop :=
  IsWord m.origin.text ∧ Fields key value ∧ (setText m key value ++ [10]).length ≤ 4095

theorem sendable_iff {key value : CStr} {m : KvMeta} :
    Sendable key value m ↔ (ReplWrite.set key value m).Readable ∧ (ReplWrite.set key value m).Fits := by
  simp [Sendable, ReplWrite.Readable, ReplWrite.Fits, ReplWrite.line, and_assoc]

theorem KvTable.Wf.syncTransfers_iff {db : KvTable S} (hwf : db.Wf) (path : Option CStr) :
    SyncTransfers path db ↔
      (∀ k v m, db.kvGetMeta k = some (v, m) → Sendable k v m) ∧ SyncRoom path db := by
  have hsendable : (∀ k v m, db.kvGetMeta k = some (v, m) → Sendable k v m) ↔
      (∀ w ∈ db.syncWrites, w.Readable) ∧ ∀ w ∈ db.syncWrites, w.Fits := by
    constructor
    · intro h
      refine ⟨?_, ?_⟩
      all_goals
        intro w hw
        obtain ⟨k, v, m, hget, rfl⟩ := (KvTable.mem_syncWrites hwf).mp hw
      · exact (sendable_iff.mp (h k v m hget)).1
      · exact (sendable_iff.mp (h k v m hget)).2
    · rintro ⟨hread, hfit⟩ k v m hget
      have hmem := (KvTable.mem_syncWrites hwf).mpr ⟨k, v, m, hget, rfl⟩
      exact sendable_iff.mpr ⟨hread _ hmem, hfit _ hmem⟩
  rw [syncTransfers_iff_received, hsendable]
  constructor
  · rintro ⟨-, hcopies⟩
    have hread := readable_of_copies hwf hcopies
    have hsplit : db.syncWrites
        = db.syncWrites.takeWhile (·.Fits) ++ db.syncWrites.dropWhile (·.Fits) :=
      List.takeWhile_append_dropWhile.symm
    have hfit : ∀ w ∈ db.syncWrites.takeWhile (·.Fits), w.Fits := fun w hw => by
      simpa using List.mem_takeWhile_imp hw
    have hlong : ∀ w ∈ (db.syncWrites.dropWhile (·.Fits)).head?, ¬ w.Fits := by
      intro w hw
      have hhead := List.head?_dropWhile_not (fun w : ReplWrite => decide w.Fits) db.syncWrites
      rw [Option.mem_def.mp hw] at hhead
      simpa using hhead
    have hstate := foldl_fitting_syncAnswer hsplit hread hfit hlong (.fresh path)
    rw [received, hstate] at hcopies
    rw [fits_of_copies hwf hsplit hcopies, List.append_nil] at hsplit
    rw [← hsplit] at hcopies hfit
    exact ⟨⟨hread, hfit⟩, syncRoom_of_copies hwf hcopies⟩
  · rintro ⟨⟨hread, hfit⟩, hroom⟩
    have hstate := foldl_fitting_syncAnswer (List.append_nil _).symm hread hfit (by simp) (.fresh path)
    rw [received, hstate]
    exact ⟨rfl, copies_of_syncRoom hwf hroom⟩

/-- For every reachable table: full sync transfers its string keys, with
value, version, wallclock and origin, and nothing else, exactly when every
string can be sent and the joining node has room for each. -/
theorem full_sync_iff [LinearOrder S] (path : Option CStr) (file : Option (List UInt8))
    (ops : List (StoreOp S)) (joining : Option CStr) :
    SyncTransfers joining (KvTable.storeRun path file ops) ↔
      (∀ k v m, (KvTable.storeRun path file ops).kvGetMeta k = some (v, m) → Sendable k v m) ∧
        SyncRoom joining (KvTable.storeRun path file ops) :=
  (KvTable.Wf.storeRun path file ops).syncTransfers_iff joining

-- a string that came over the bus, with the ID of its node
example :
    let db : KvTable Int := .storeRun none none
      [.table (.setObject true (.lit "a") (.objCreateString (.lit "1") 0)
        (some ⟨5, 7, .ofCStr (.lit "n1")⟩))]
    (joiner none db [20, 4000]).Drained ∧
      (joiner none db [20, 4000]).state.db.kvGetMeta (.lit "a") = db.kvGetMeta (.lit "a") := by
  decide

/-- A node on which a client has run `SET a 1`. -/
def locallySet : KvTable Int := .storeRun none none [.table (.set true (.lit "a") (.lit "1") 7)]

/-- A local write stores the empty origin. In the line `SET  1 7 a 1` the
version is then read as the origin and the wallclock as the version, and
the conversion of the wallclock fails. -/
theorem local_set_not_transferred :
    locallySet.kvGetMeta (.lit "a") = some (.lit "1", ⟨1, 7, .blank⟩) ∧
      (joiner none locallySet [100]).Drained ∧
      (joiner none locallySet [100]).state.db.kvGetMeta (.lit "a") = none ∧
      ¬ SyncTransfers none locallySet := by
  have hsender : locallySet.kvGetMeta (.lit "a") = some (.lit "1", ⟨1, 7, .blank⟩) := by
    decide
  have hdrained : (joiner none locallySet [100]).Drained := by decide
  have hmissing : (joiner none locallySet [100]).state.db.kvGetMeta (.lit "a") = none := by
    decide
  refine ⟨hsender, hdrained, hmissing, ?_⟩
  intro h
  have hall := (h [100] hdrained).2.all _ _ _ hsender
  rw [hmissing] at hall
  cases hall

end AntzKV

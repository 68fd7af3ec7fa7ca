/-
AntzKV.Cluster.ReplicaTheorems — Last-Write-Wins and the order of arrival.

`meta_gt` is the strict order of a linear order on metadata (`metaGt_iff`).
`kv_del_meta` compares with it before it deletes; `kv_set_meta` does not
compare. On one key the replicated writes are therefore a fold
(`ReplWrite.onKey`) in which a SET always wins, and
`lww_iff_sets_greatest` says for which writes every order of arrival
still ends with the content the policy prescribes.
-/
import AntzKV.Cluster.Replica
import AntzKV.Core.CommandsTheorems
import AntzKV.Lib.LastWriteWins

namespace AntzKV

variable {S : Type}

/-! ## `meta_gt` is a linear order -/

/-- Version first, then wallclock, then origin. -/
def KvMeta.rank (m : KvMeta) : ℕ ×ₗ (ℕ ×ₗ CStr) :=
  toLex (m.version.toNat, toLex (m.wallclock.toNat, m.origin.text))

theorem KvMeta.rank_injective : Function.Injective KvMeta.rank := by
  intro a b h
  have h1 := congrArg (fun x => (ofLex x).1) h
  have h2 := congrArg (fun x => (ofLex (ofLex x).2).1) h
  have h3 := congrArg (fun x => (ofLex (ofLex x).2).2) h
  simp only [KvMeta.rank, ofLex_toLex] at h1 h2 h3
  cases a; cases b
  simp only [KvMeta.mk.injEq]
  exact ⟨UInt64.toNat_inj.mp h1, UInt64.toNat_inj.mp h2, NodeOrigin.ext h3⟩

instance : LinearOrder KvMeta := LinearOrder.lift' KvMeta.rank KvMeta.rank_injective

/-- `meta_gt(a, b)` -/
theorem metaGt_iff {a b : KvMeta} : metaGt a b = true ↔ b < a := by
  have hlt : b < a ↔ b.rank < a.rank := Iff.rfl
  rw [hlt]
  simp only [KvMeta.rank, Prod.Lex.toLex_lt_toLex, metaGt]
  by_cases hv : a.version = b.version
  · by_cases hw : a.wallclock = b.wallclock
    · simp [hv, hw]
    · have hw' : b.wallclock.toNat ≠ a.wallclock.toNat := fun h =>
        hw (UInt64.toNat_inj.mp h).symm
      simp [hv, hw, hw', UInt64.lt_iff_toNat_lt]
  · have hv' : b.version.toNat ≠ a.version.toNat := fun h => hv (UInt64.toNat_inj.mp h).symm
    simp [hv, hv', UInt64.lt_iff_toNat_lt]

theorem metaGt_version_le {a b : KvMeta} (h : metaGt a b = true) : b.version ≤ a.version := by
  unfold metaGt at h
  split at h
  · exact UInt64.le_of_lt (of_decide_eq_true h)
  · rename_i heq
    rw [not_not.mp heq]
    exact UInt64.le_refl _

/-! ## Writes on one key -/

namespace ReplWrite

/-- The object a write leaves. -/
def object : ReplWrite → Option (DbObject S)
  | .set _ value m =>
    some { data := .string value, ttl := -1, version := m.version, wallclock := m.wallclock
           origin := m.origin }
  | .del _ _ => none

theorem kvMeta_object {w : ReplWrite} {o : DbObject S} (h : w.object = some o) :
    o.kvMeta = w.kvMeta := by
  cases w with
  | set key value m =>
    obtain rfl := Option.some.inj h
    rfl
  | del key m => simp [object] at h

/-- What the write does to the object of its key. -/
def onKey (o : Option (DbObject S)) : ReplWrite → Option (DbObject S)
  | .set key value m => (ReplWrite.set key value m).object
  | .del _ m => o.filter fun o => metaGt o.kvMeta m

/-- A SET has memory, and room beside the keys that are there. -/
def Admits (db : KvTable S) : ReplWrite → Prop
  | .set key _ _ => ¬ db.CannotStore true ∧ db.HasRoom key
  | .del _ _ => True

instance (db : KvTable S) : ∀ w : ReplWrite, Decidable (w.Admits db)
  | .set key _ _ => inferInstanceAs (Decidable (¬ db.CannotStore true ∧ db.HasRoom key))
  | .del _ _ => inferInstanceAs (Decidable True)

theorem wf_apply {db : KvTable S} (h : db.Wf) (w : ReplWrite) : (w.apply db).Wf := by
  cases w with
  | set key value m => exact h.kvSetObject true key _ _
  | del key m => exact h.kvDelMeta key m

theorem kvGetObject_apply {db : KvTable S} (h : db.Wf) {w : ReplWrite} (hw : w.Admits db)
    (k : CStr) :
    (w.apply db).kvGetObject k = if k = w.key then w.onKey (db.kvGetObject k)
      else db.kvGetObject k := by
  cases w with
  | set key value m =>
    have hret := KvTable.kvSetObject_of_canStore hw.1 key
      ((DbObject.objCreateString value m.wallclock).stamp (some m)) (some m)
    exact KvTable.kvGetObject_kvSetObject h (Prod.ext rfl hret) hw.2 k
  | del key m =>
    rw [apply, KvTable.kvGetObject_kvDelMeta h]
    by_cases hk : k = key
    · subst hk
      rfl
    · rw [if_neg hk]
      exact (if_neg hk).symm

/-- A sequence of writes acts on each key by the writes on that key. -/
theorem kvGetObject_applyAll : ∀ (ws : List ReplWrite) (db : KvTable S), db.Wf →
    Run.Guarded apply (fun db w => w.Admits db) db ws → ∀ k,
      (ws.foldl apply db).kvGetObject k
        = (ws.filter fun w => w.key = k).foldl onKey (db.kvGetObject k)
  | [], _, _, _, _ => rfl
  | w :: ws, db, h, hg, k => by
    rw [List.foldl_cons, kvGetObject_applyAll ws (w.apply db) (wf_apply h w) hg.2 k,
      kvGetObject_apply h hg.1]
    by_cases hk : k = w.key
    · rw [if_pos hk, List.filter_cons_of_pos (by simp [hk]), List.foldl_cons]
    · rw [if_neg hk, List.filter_cons_of_neg (by simpa using Ne.symm hk)]

/-- Deletions: the object stays if it is newer than each. -/
theorem foldl_onKey_deletions : ∀ (ws : List ReplWrite) (o : Option (DbObject S)),
    (∀ w ∈ ws, w.isSet = false) →
      ws.foldl onKey o = o.filter fun o => ∀ w ∈ ws, w.kvMeta < o.kvMeta
  | [], o, _ => by cases o <;> simp [Option.filter]
  | .set key value m :: ws, o, h => absurd (h (.set key value m) (by simp)) (by simp [isSet])
  | .del key m :: ws, o, h => by
    rw [List.foldl_cons, foldl_onKey_deletions ws _ fun w hw => h w (by simp [hw])]
    cases o with
    | none => rfl
    | some o =>
      have hdel : (ReplWrite.del key m).kvMeta = m := rfl
      simp only [onKey, List.forall_mem_cons, hdel]
      cases hm : metaGt o.kvMeta m with
      | true =>
        have hlt := metaGt_iff.mp hm
        simp only [Option.filter, hm, hlt, if_true, true_and]
      | false =>
        have hlt : ¬ m < o.kvMeta := fun hc => by simp [metaGt_iff.mpr hc] at hm
        simp only [Option.filter, hm, hlt, Bool.false_eq_true, if_false, false_and, decide_false]

/-- A SET that is newer than every other write decides, wherever it comes. -/
theorem foldl_onKey_of_greatest {ws : List ReplWrite} {s : ReplWrite} (hs : s ∈ ws)
    (hset : s.isSet = true)
    (hothers : ∀ w ∈ ws, w ≠ s → w.isSet = false ∧ w.kvMeta < s.kvMeta)
    (hnodup : ws.Nodup) (o : Option (DbObject S)) : ws.foldl onKey o = s.object := by
  obtain ⟨before, after, rfl⟩ := List.append_of_mem hs
  have hnot : s ∉ after := (List.nodup_cons.mp (List.nodup_append.mp hnodup).2.1).1
  have hafter : ∀ w ∈ after, w.isSet = false ∧ w.kvMeta < s.kvMeta := fun w hw =>
    hothers w (by simp [hw]) fun hc => hnot (hc ▸ hw)
  have hobj : onKey (before.foldl onKey o) s = (s.object : Option (DbObject S)) := by
    cases s with
    | set key value m => rfl
    | del key m => simp [isSet] at hset
  rw [List.foldl_append, List.foldl_cons, hobj,
    foldl_onKey_deletions after _ fun w hw => (hafter w hw).1]
  cases ho : (s.object : Option (DbObject S)) with
  | none => rfl
  | some o' =>
    have hall : ∀ w ∈ after, w.kvMeta < o'.kvMeta := fun w hw => by
      rw [kvMeta_object ho]
      exact (hafter w hw).2
    simp only [Option.filter, decide_eq_true hall, if_true]

end ReplWrite

/-! ## Any order of arrival -/

open ReplWrite (apply)

/-- A write as the policy sees it. -/
def ReplWrite.toWrite (w : ReplWrite) : LastWriteWins.Write KvMeta (DbObject S) :=
  ⟨w.kvMeta, w.object⟩

/-- The writes on a key. -/
def writesOn (k : CStr) (ws : List ReplWrite) : List ReplWrite := ws.filter fun w => w.key = k

/-- What Last-Write-Wins prescribes for a key. -/
def lwwContent (db : KvTable S) (ws : List ReplWrite) (k : CStr) : Option (DbObject S) :=
  LastWriteWins.content ((db.kvGetObject k).map fun o => (o.kvMeta, o))
    ((writesOn k ws).map ReplWrite.toWrite)

/-- Every order of the writes ends with the prescribed content. -/
def LwwInAnyOrder (db : KvTable S) (ws : List ReplWrite) : Prop :=
  ∀ p : List ReplWrite, p.Perm ws → ∀ k, (p.foldl apply db).kvGetObject k = lwwContent db ws k

/-- Every SET is newer than every other write on its key, and not older
than what is stored there. -/
def SetsGreatest (db : KvTable S) (ws : List ReplWrite) : Prop :=
  ∀ s ∈ ws, s.isSet = true →
    (∀ w ∈ ws, w.key = s.key → w ≠ s → metaGt s.kvMeta w.kvMeta = true) ∧
    ∀ o, db.kvGetObject s.key = some o → metaGt o.kvMeta s.kvMeta = false

section Order

variable {db : KvTable S} {ws : List ReplWrite}

theorem mem_writesOn {k : CStr} {w : ReplWrite} : w ∈ writesOn k ws ↔ w ∈ ws ∧ w.key = k := by
  simp [writesOn]

/-- The content of a key with a SET that is the greatest. -/
theorem lwwContent_of_set (h : SetsGreatest db ws) {s : ReplWrite} (hs : s ∈ ws)
    (hset : s.isSet = true) : lwwContent db ws s.key = s.object := by
  obtain ⟨hothers, hstored⟩ := h s hs hset
  refine LastWriteWins.content_of_greatest (w := s.toWrite) ?_ ?_ ?_
  · exact List.mem_map_of_mem (mem_writesOn.mpr ⟨hs, rfl⟩)
  · intro w' hw' hne
    obtain ⟨w, hw, rfl⟩ := List.mem_map.mp hw'
    obtain ⟨hmem, hkey⟩ := mem_writesOn.mp hw
    exact metaGt_iff.mp (hothers w hmem hkey fun hc => hne (by rw [hc]))
  · intro m v hmv
    obtain ⟨o, ho, heq⟩ := Option.map_eq_some_iff.mp hmv
    obtain ⟨rfl, rfl⟩ := Prod.mk.inj heq
    have hle : ¬ s.kvMeta < o.kvMeta := by
      rw [← metaGt_iff, hstored o ho]
      simp
    exact not_lt.mp hle

/-- The content of a key without a SET. -/
theorem lwwContent_of_deletions {k : CStr} (h : ∀ w ∈ writesOn k ws, w.isSet = false) :
    lwwContent db ws k
      = (db.kvGetObject k).filter fun o => ∀ w ∈ writesOn k ws, w.kvMeta < o.kvMeta := by
  rw [lwwContent, LastWriteWins.content_of_deletions]
  · cases db.kvGetObject k with
    | none => rfl
    | some o =>
      simp only [Option.map_some, Option.filter, List.forall_mem_map, ReplWrite.toWrite]
      split <;> rfl
  · intro w' hw'
    obtain ⟨w, hw, rfl⟩ := List.mem_map.mp hw'
    have hdel := h w hw
    cases w with
    | set key value m => simp [ReplWrite.isSet] at hdel
    | del key m => rfl

/-- One order of arrival. -/
theorem kvGetObject_of_setsGreatest (hwf : db.Wf) (hdistinct : (ws.map ReplWrite.kvMeta).Nodup)
    (h : SetsGreatest db ws) {p : List ReplWrite} (hp : p.Perm ws)
    (hroom : Run.Guarded apply (fun db w => w.Admits db) db p) (k : CStr) :
    (p.foldl apply db).kvGetObject k = lwwContent db ws k := by
  rw [ReplWrite.kvGetObject_applyAll p db hwf hroom k]
  have hmem : ∀ w, w ∈ p.filter (fun w => w.key = k) ↔ w ∈ writesOn k ws :=
    fun w => (hp.filter _).mem_iff
  by_cases hset : ∃ s ∈ writesOn k ws, s.isSet = true
  · obtain ⟨s, hs, hset⟩ := hset
    obtain ⟨hsws, rfl⟩ := mem_writesOn.mp hs
    rw [lwwContent_of_set h hsws hset]
    refine ReplWrite.foldl_onKey_of_greatest ((hmem s).mpr hs) hset ?_ ?_ _
    · intro w hw hne
      obtain ⟨hwws, hkey⟩ := mem_writesOn.mp ((hmem w).mp hw)
      have hlt := metaGt_iff.mp ((h s hsws hset).1 w hwws hkey hne)
      refine ⟨?_, hlt⟩
      -- a second SET would have to be newer as well
      by_contra hw2
      have := metaGt_iff.mp ((h w hwws (by simpa using hw2)).1 s hsws hkey.symm (Ne.symm hne))
      exact lt_asymm hlt this
    · exact (hp.nodup_iff.mpr (hdistinct.of_map _)).filter _
  · have hdel : ∀ w ∈ writesOn k ws, w.isSet = false := fun w hw => by
      by_contra hc
      exact hset ⟨w, hw, by simpa using hc⟩
    rw [lwwContent_of_deletions hdel, ReplWrite.foldl_onKey_deletions]
    · simp only [hmem]
    · exact fun w hw => hdel w ((hmem w).mp hw)

/-- A SET that arrives last decides. -/
theorem kvGetObject_set_last (hwf : db.Wf) {s : ReplWrite} (hset : s.isSet = true)
    {p : List ReplWrite} (hroom : Run.Guarded apply (fun db w => w.Admits db) db (p ++ [s])) :
    ((p ++ [s]).foldl apply db).kvGetObject s.key = s.object := by
  rw [ReplWrite.kvGetObject_applyAll _ db hwf hroom, List.filter_append, List.foldl_append]
  cases s with
  | set key value m => simp [ReplWrite.key, ReplWrite.onKey]
  | del key m => simp [ReplWrite.isSet] at hset

theorem setsGreatest_of_lww (hwf : db.Wf) (hdistinct : (ws.map ReplWrite.kvMeta).Nodup)
    (hroom : ∀ p : List ReplWrite, p.Perm ws → Run.Guarded apply (fun db w => w.Admits db) db p)
    (h : LwwInAnyOrder db ws) : SetsGreatest db ws := by
  intro s hs hset
  have hperm : (ws.erase s ++ [s]).Perm ws :=
    (List.perm_append_singleton s _).trans (List.perm_cons_erase hs).symm
  have hlast := kvGetObject_set_last hwf hset (hroom _ hperm)
  rw [h _ hperm] at hlast
  obtain ⟨v, hv⟩ : ∃ v, (s.object : Option (DbObject S)) = some v := by
    cases s with
    | set key value m => exact ⟨_, rfl⟩
    | del key m => simp [ReplWrite.isSet] at hset
  obtain ⟨hall, hold⟩ := LastWriteWins.greatest_of_content (w := s.toWrite)
    (List.mem_map_of_mem (mem_writesOn.mpr ⟨hs, rfl⟩)) hv
    (by
      intro w' hw' hval
      obtain ⟨w, _, rfl⟩ := List.mem_map.mp hw'
      have hm : w.kvMeta = s.kvMeta :=
        (ReplWrite.kvMeta_object hval).symm.trans (ReplWrite.kvMeta_object hv)
      have hval' : (w.object : Option (DbObject S)) = s.object := hval.trans hv.symm
      simp only [ReplWrite.toWrite, hm, hval'])
    (by
      intro m hm
      obtain ⟨o, _, heq⟩ := Option.map_eq_some_iff.mp hm
      obtain ⟨rfl, rfl⟩ := Prod.mk.inj heq
      exact (ReplWrite.kvMeta_object hv).le)
    (hlast.trans hv)
  constructor
  · intro w hw hkey hne
    have hle : w.kvMeta ≤ s.kvMeta :=
      hall w.toWrite (List.mem_map_of_mem (mem_writesOn.mpr ⟨hw, hkey⟩))
    have hmeta : w.kvMeta ≠ s.kvMeta := fun hc =>
      hne (List.inj_on_of_nodup_map hdistinct hw hs hc)
    exact metaGt_iff.mpr (lt_of_le_of_ne hle hmeta)
  · intro o ho
    have hle : o.kvMeta ≤ s.kvMeta := hold o.kvMeta o (by rw [ho]; rfl)
    rw [← Bool.not_eq_true, metaGt_iff]
    exact not_lt.mpr hle

end Order

/-- **Last-Write-Wins.** For every reachable table and all writes with
distinct metadata that have room in whatever order they arrive: every
order ends with the prescribed content if and only if every SET is the
greatest write on its key and not older than what is stored. -/
theorem lww_iff_sets_greatest [LinearOrder S] (path : Option CStr) (file : Option (List UInt8))
    (ops : List (StoreOp S)) (ws : List ReplWrite)
    (hdistinct : (ws.map ReplWrite.kvMeta).Nodup)
    (hroom : ∀ p : List ReplWrite, p.Perm ws →
      Run.Guarded apply (fun db w => w.Admits db) (KvTable.storeRun path file ops) p) :
    LwwInAnyOrder (KvTable.storeRun path file ops) ws ↔
      SetsGreatest (KvTable.storeRun path file ops) ws := by
  have hwf := KvTable.Wf.storeRun path file ops
  constructor
  · exact setsGreatest_of_lww hwf hdistinct hroom
  · intro h p hp k
    exact kvGetObject_of_setsGreatest hwf hdistinct h hp (hroom p hp) k

/-- A SET and an older DEL of one key, in either order. -/
def setThenOlderDel : List ReplWrite :=
  [.set (.lit "k") (.lit "new") ⟨2, 0, .blank⟩, .del (.lit "k") ⟨1, 0, .blank⟩]

theorem lww_set_and_older_del :
    LwwInAnyOrder (KvTable.storeRun none none [] : KvTable Int) setThenOlderDel :=
  (lww_iff_sets_greatest none none [] setThenOlderDel (by decide) (by
    intro p hp
    have hall : ∀ q ∈ setThenOlderDel.permutations',
        Run.Guarded apply (fun db w => w.Admits db)
          (KvTable.storeRun none none [] : KvTable Int) q := by
      decide
    exact hall p (List.mem_permutations'.mpr hp))).mpr (by
      intro s hs hset
      simp only [setThenOlderDel, List.mem_cons, List.not_mem_nil, or_false] at hs
      rcases hs with rfl | rfl
      · refine ⟨by decide, ?_⟩
        have hnone : (KvTable.storeRun none none [] : KvTable Int).kvGetObject (.lit "k") = none := by
          decide
        intro o ho
        rw [ReplWrite.key, hnone] at ho
        simp at ho
      · simp [ReplWrite.isSet] at hset)

/-- An older SET that arrives after a newer one overwrites it. -/
theorem lww_fails_for_older_set :
    ¬ LwwInAnyOrder (KvTable.storeRun none none [] : KvTable Int)
      [.set (.lit "k") (.lit "new") ⟨2, 0, .blank⟩, .set (.lit "k") (.lit "old") ⟨1, 0, .blank⟩] := by
  intro h
  have hk := h _ (List.Perm.refl _) (.lit "k")
  revert hk
  decide

end AntzKV

/-
AntzKV.Cluster.DelMetaTheorems — the order in which deletes arrive does
not matter.

`meta_gt` is a strict total order (`metaGt_irrefl`, `metaGt_trans`,
`metaGt_total`). Deletes that a stored key survives change nothing. The
first that it does not survive buries the key, and from there on deletes
only move the version clock, which takes them in any order
(`bumpVersion_comm`). Those that came before it returned before they
reached the clock; their versions are no greater than the version of the
one that deletes, so the clock does not miss them (`bumpAll_of_le`).
-/
import AntzKV.Cluster.ReplicaTheorems

namespace AntzKV

/-! ## The comparator -/

section Order

variable {a b c : KvMeta}

theorem metaGt_irrefl (a : KvMeta) : metaGt a a = false := by
  rw [Bool.eq_false_iff, Ne, metaGt_iff]
  exact lt_irrefl a

theorem metaGt_trans (hab : metaGt a b = true) (hbc : metaGt b c = true) : metaGt a c = true :=
  metaGt_iff.mpr (lt_trans (metaGt_iff.mp hbc) (metaGt_iff.mp hab))

theorem metaGt_eq_false_iff : metaGt a b = false ↔ a ≤ b := by
  rw [Bool.eq_false_iff, Ne, metaGt_iff, not_lt]

/-- Metas that differ in a field are ordered one way or the other. -/
theorem metaGt_total
    (h : a.version ≠ b.version ∨ a.wallclock ≠ b.wallclock ∨ a.origin.text ≠ b.origin.text) :
    (metaGt a b = true ∧ metaGt b a = false) ∨ (metaGt b a = true ∧ metaGt a b = false) := by
  have hne : a ≠ b := by
    rintro rfl
    simp at h
  simp only [metaGt_iff, metaGt_eq_false_iff]
  rcases lt_or_gt_of_ne hne with hlt | hgt
  · exact .inr ⟨hlt, hlt.le⟩
  · exact .inl ⟨hgt, hgt.le⟩

theorem version_le_of_le (h : a ≤ b) : a.version ≤ b.version := by
  rcases h.eq_or_lt with rfl | hlt
  · exact UInt64.le_refl _
  · exact metaGt_version_le (metaGt_iff.mpr hlt)

end Order

variable {S : Type}

namespace KvTable

/-! ## The version clock -/

variable {db : KvTable S} {key : CStr} {o : DbObject S}

theorem bumpVersion_comm (db : KvTable S) (a b : KvMeta) :
    (db.bumpVersion a).bumpVersion b = (db.bumpVersion b).bumpVersion a := by
  unfold bumpVersion
  grind [UInt64.lt_iff_toNat_lt, UInt64.toNat_inj]

/-- A version that is no greater than one to come is not missed. -/
theorem bumpVersion_bumpVersion_of_le {a b : KvMeta} (hle : a.version ≤ b.version) :
    (db.bumpVersion a).bumpVersion b = db.bumpVersion b := by
  unfold bumpVersion
  grind [UInt64.lt_iff_toNat_lt, UInt64.le_iff_toNat_le, UInt64.toNat_inj]

/-- The clock after a number of versions. -/
def bumpAll (db : KvTable S) (ms : List KvMeta) : KvTable S := ms.foldl bumpVersion db

theorem bumpAll_perm {ms ms' : List KvMeta} (hperm : ms.Perm ms') (db : KvTable S) :
    db.bumpAll ms = db.bumpAll ms' :=
  hperm.foldl_eq' (fun a _ b _ t => bumpVersion_comm t a b) db

theorem bumpAll_of_le {ms : List KvMeta} {m : KvMeta} (h : ∃ m' ∈ ms, m.version ≤ m'.version)
    (db : KvTable S) : (db.bumpVersion m).bumpAll ms = db.bumpAll ms := by
  induction ms generalizing db with
  | nil => simp at h
  | cons a ms ih =>
    simp only [bumpAll, List.foldl_cons]
    by_cases hle : m.version ≤ a.version
    · rw [bumpVersion_bumpVersion_of_le hle]
    · have htail : ∃ m' ∈ ms, m.version ≤ m'.version := by
        obtain ⟨m', hmem, hm'⟩ := h
        rcases List.mem_cons.mp hmem with rfl | hmem
        · exact absurd hm' hle
        · exact ⟨m', hmem, hm'⟩
      rw [bumpVersion_comm]
      exact ih htail (db.bumpVersion a)

theorem kvGetObject_bumpAll (db : KvTable S) (ms : List KvMeta) (k : CStr) :
    (db.bumpAll ms).kvGetObject k = db.kvGetObject k := by
  induction ms generalizing db with
  | nil => rfl
  | cons m ms ih => exact (ih (db.bumpVersion m)).trans (kvGetObject_bumpVersion db m k)

/-! ## Deletes of one key -/

/-- Calls of `kv_del_meta` with one key. -/
def delMetas (db : KvTable S) (key : CStr) (ms : List KvMeta) : KvTable S :=
  ms.foldl (fun db m => (db.kvDelMeta key m).1) db

theorem delMetas_cons (db : KvTable S) (key : CStr) (m : KvMeta) (ms : List KvMeta) :
    db.delMetas key (m :: ms) = (db.kvDelMeta key m).1.delMetas key ms := rfl

/-- A key that is not there: only the clock moves. -/
theorem delMetas_of_none (hnone : db.kvGetObject key = none) (ms : List KvMeta) :
    db.delMetas key ms = db.bumpAll ms := by
  induction ms generalizing db with
  | nil => rfl
  | cons m ms ih =>
    have hone : (db.kvDelMeta key m).1 = db.bumpVersion m := by
      rcases kvDelMeta_cases db key m with ⟨-, hr⟩ | ⟨o, -, hget, -⟩
      · rw [hr]
      · rw [hnone] at hget
        cases hget
    rw [delMetas_cons, hone]
    exact ih ((kvGetObject_bumpVersion db m key).trans hnone)

/-- A stored key, and one call. -/
theorem kvDelMeta_of_some (hget : db.kvGetObject key = some o) (m : KvMeta) :
    (db.kvDelMeta key m).1
      = if metaGt o.kvMeta m then db else (db.bury (db.probe key).1).bumpVersion m := by
  rcases kvDelMeta_cases db key m with ⟨hmiss, -⟩ | ⟨o', -, hget', hcase⟩
  · rw [kvGetObject_of_missed hmiss] at hget
    cases hget
  · obtain rfl : o = o' := Option.some.inj (hget.symm.trans hget')
    rcases hcase with ⟨hm, hr⟩ | ⟨hm, hr⟩
    · rw [hr, hm]
      rfl
    · rw [hr, hm]
      rfl

/-- A key that survives every call: nothing has changed. -/
theorem delMetas_of_forall (hget : db.kvGetObject key = some o) {ms : List KvMeta}
    (hall : ∀ m ∈ ms, metaGt o.kvMeta m = true) : db.delMetas key ms = db := by
  induction ms with
  | nil => rfl
  | cons m ms ih =>
    rw [delMetas_cons, kvDelMeta_of_some hget, if_pos (hall m (by simp))]
    exact ih fun m' hm' => hall m' (List.mem_cons_of_mem m hm')

theorem kvGetObject_bury_probe (h : db.Wf) (hget : db.kvGetObject key = some o) :
    (db.bury (db.probe key).1).kvGetObject key = none := by
  have hfound : (db.probe key).2 = true := by
    by_contra hmiss
    rw [kvGetObject_of_missed (by simpa using hmiss)] at hget
    cases hget
  obtain ⟨o', ho', -⟩ := kvGetObject_of_found hfound
  rw [kvGetObject_bury h ho', if_pos rfl]

/-- A key that some call deletes: the clock has seen all of them. -/
theorem delMetas_of_exists (h : db.Wf) (hget : db.kvGetObject key = some o) {ms : List KvMeta}
    (hex : ∃ m ∈ ms, metaGt o.kvMeta m = false) :
    db.delMetas key ms = (db.bury (db.probe key).1).bumpAll ms := by
  induction ms with
  | nil => simp at hex
  | cons m ms ih =>
    rw [delMetas_cons, kvDelMeta_of_some hget]
    cases hm : metaGt o.kvMeta m with
    | true =>
      -- this call returned early; one to come does not, and its version is no smaller
      obtain ⟨m', hmem, hm'⟩ := hex
      rcases List.mem_cons.mp hmem with rfl | hmem
      · rw [hm] at hm'
        cases hm'
      · have hle : m.version ≤ m'.version :=
          UInt64.le_trans (metaGt_version_le hm) (version_le_of_le (metaGt_eq_false_iff.mp hm'))
        rw [if_pos rfl, ih ⟨m', hmem, hm'⟩]
        exact (bumpAll_of_le ⟨m', hmem, hle⟩ _).symm
    | false =>
      have hnone := (kvGetObject_bumpVersion (db.bury (db.probe key).1) m key).trans
        (kvGetObject_bury_probe h hget)
      rw [if_neg (by decide), delMetas_of_none hnone]
      rfl

/-- What the calls leave of a stored key. -/
theorem kvGetObject_delMetas (h : db.Wf) (hget : db.kvGetObject key = some o) (ms : List KvMeta) :
    (db.delMetas key ms).kvGetObject key
      = if ∀ m ∈ ms, metaGt o.kvMeta m = true then some o else none := by
  split
  · next hall => rw [delMetas_of_forall hget hall, hget]
  · next hall =>
    have hex : ∃ m ∈ ms, metaGt o.kvMeta m = false := by
      simpa using hall
    rw [delMetas_of_exists h hget hex, kvGetObject_bumpAll, kvGetObject_bury_probe h hget]

theorem delMetas_perm (h : db.Wf) (hget : db.kvGetObject key = some o) {ms ms' : List KvMeta}
    (hperm : ms.Perm ms') : db.delMetas key ms = db.delMetas key ms' := by
  by_cases hall : ∀ m ∈ ms, metaGt o.kvMeta m = true
  · rw [delMetas_of_forall hget hall,
      delMetas_of_forall hget fun m hm => hall m (hperm.mem_iff.mpr hm)]
  · obtain ⟨m, hmem, hm⟩ : ∃ m ∈ ms, metaGt o.kvMeta m = false := by
      simpa using hall
    rw [delMetas_of_exists h hget ⟨m, hmem, hm⟩,
      delMetas_of_exists h hget ⟨m, hperm.mem_iff.mp hmem, hm⟩, bumpAll_perm hperm]

/-- **Conflicting deletes.** `meta_gt` is a strict total order of the
metas; in every reachable table a stored key survives any calls of
`kv_del_meta` exactly when its meta is greater than that of each; and the
table they leave, the version clock included, is the same for every
order. -/
theorem delMetas_exact [LinearOrder S] (path : Option CStr) (file : Option (List UInt8))
    (ops : List (StoreOp S)) {key : CStr} {o : DbObject S}
    (hget : (storeRun path file ops).kvGetObject key = some o) :
    (∀ a, metaGt a a = false) ∧
    (∀ a b c, metaGt a b = true → metaGt b c = true → metaGt a c = true) ∧
    (∀ a b : KvMeta,
      a.version ≠ b.version ∨ a.wallclock ≠ b.wallclock ∨ a.origin.text ≠ b.origin.text →
        (metaGt a b = true ∧ metaGt b a = false) ∨ (metaGt b a = true ∧ metaGt a b = false)) ∧
    (∀ ms, ((storeRun path file ops).delMetas key ms).kvGetObject key
      = if ∀ m ∈ ms, metaGt o.kvMeta m = true then some o else none) ∧
    ∀ ms ms' : List KvMeta, ms.Perm ms' →
      (storeRun path file ops).delMetas key ms = (storeRun path file ops).delMetas key ms' :=
  have h : (storeRun path file ops).Wf := Wf.storeRun path file ops
  ⟨metaGt_irrefl, fun _ _ _ => metaGt_trans, fun _ _ => metaGt_total,
    fun ms => kvGetObject_delMetas h hget ms, fun _ _ => delMetas_perm h hget⟩

/-- A string that `SET` has stored. -/
theorem delMetas_exact_foo :
    let db : KvTable Int := storeRun none none [.table (.set true (.lit "foo") (.lit "bar") 7)]
    let o : DbObject Int :=
      { data := .string (.lit "bar"), ttl := -1, version := 1, wallclock := 7, origin := .blank }
    (∀ a, metaGt a a = false) ∧
    (∀ a b c, metaGt a b = true → metaGt b c = true → metaGt a c = true) ∧
    (∀ a b : KvMeta,
      a.version ≠ b.version ∨ a.wallclock ≠ b.wallclock ∨ a.origin.text ≠ b.origin.text →
        (metaGt a b = true ∧ metaGt b a = false) ∨ (metaGt b a = true ∧ metaGt a b = false)) ∧
    (∀ ms, (db.delMetas (.lit "foo") ms).kvGetObject (.lit "foo")
      = if ∀ m ∈ ms, metaGt o.kvMeta m = true then some o else none) ∧
    ∀ ms ms' : List KvMeta, ms.Perm ms' →
      db.delMetas (.lit "foo") ms = db.delMetas (.lit "foo") ms' :=
  delMetas_exact none none [.table (.set true (.lit "foo") (.lit "bar") 7)] (by decide)

/-- An older delete, in front of the one that takes the key or behind it. -/
example :
    let db : KvTable Int := storeRun none none [.table (.set true (.lit "foo") (.lit "bar") 7)]
    let older : KvMeta := ⟨1, 6, .blank⟩
    let newer : KvMeta := ⟨4, 6, .blank⟩
    (db.delMetas (.lit "foo") [older, newer]).dbVersion = 4 ∧
      (db.delMetas (.lit "foo") [newer, older]).dbVersion = 4 := by decide

end KvTable

end AntzKV

/-
AntzKV.Core.SaveFaultTheorems — what a save leaves behind when something
goes wrong.

`kv_save` writes over the file it is to replace: `fopen` with mode "w"
empties it, and the records follow in table order. So the file holds what
it held, or the beginning of what it is to hold, up to the first byte that
was lost (`landing_eq`), and `kv_open` replays the records that lie within
that beginning (`kvSaveOn_replay`).

`CrashSafe` is the stronger law of an atomic replacement. It fails for
every table that has a string to lose (`crashSafe_iff`).
-/
import AntzKV.Core.SnapshotTheorems

namespace AntzKV

open ByteCursor (leBytes leNat fread fread_extend)

variable {S : Type}

/-! ## Bytes that reach the file -/

theorem landing_append (lands : Nat → Bool) (pos : Nat) (a b : List UInt8) :
    landing lands pos (a ++ b) = landing lands pos a ++ landing lands (pos + a.length) b := by
  induction a generalizing pos with
  | nil => rfl
  | cons x a ih =>
    have hpos : pos + 1 + a.length = pos + (a.length + 1) := by omega
    simp only [List.cons_append, landing, ih, List.length_cons, hpos]
    split <;> rfl

theorem landing_all {lands : Nat → Bool} {pos : Nat} {bs : List UInt8}
    (h : ∀ i, pos ≤ i → i < pos + bs.length → lands i = true) : landing lands pos bs = bs := by
  induction bs generalizing pos with
  | nil => rfl
  | cons b bs ih =>
    simp only [List.length_cons] at h
    rw [landing, if_pos (h pos le_rfl (by omega)), ih]
    intro i hi hlt
    exact h i (by omega) (by omega)

theorem landing_none {lands : Nat → Bool} {pos : Nat} {bs : List UInt8}
    (h : ∀ i, pos ≤ i → i < pos + bs.length → lands i = false) : landing lands pos bs = [] := by
  induction bs generalizing pos with
  | nil => rfl
  | cons b bs ih =>
    simp only [List.length_cons] at h
    rw [landing, if_neg (by simp [h pos le_rfl (by omega)]), ih]
    intro i hi hlt
    exact h i (by omega) (by omega)

theorem length_landing_le (lands : Nat → Bool) (pos : Nat) (bs : List UInt8) :
    (landing lands pos bs).length ≤ bs.length := by
  induction bs generalizing pos with
  | nil => exact le_rfl
  | cons b bs ih =>
    have hrest := ih (pos + 1)
    rw [landing]
    split <;> simp only [List.length_cons] <;> omega

/-- Up to the first lost byte the file is what it should be. -/
theorem landing_eq {lands : Nat → Bool} {bs : List UInt8} {n : Nat} (hn : n ≤ bs.length)
    (hlands : ∀ i < n, lands i = true) :
    landing lands 0 bs = bs.take n ++ landing lands n (bs.drop n) := by
  have hlen : (bs.take n).length = n := by simp [hn]
  have hfirst : landing lands 0 (bs.take n) = bs.take n :=
    landing_all fun i _ hi => hlands i (by omega)
  calc landing lands 0 bs
      = landing lands 0 (bs.take n ++ bs.drop n) := by rw [List.take_append_drop]
    _ = bs.take n ++ landing lands n (bs.drop n) := by
      rw [landing_append, hfirst, hlen, Nat.zero_add]

/-! ## The run of a save -/

/-- The calls of `fwrite` in a row. -/
theorem foldl_fwrite (d : Disk) (f : List UInt8) (pos : Nat) (bufs : List (List UInt8)) :
    (bufs.map FileOp.fwrite).foldl (fileOp d) ⟨some f, pos, none⟩
      = ⟨some (f ++ landing d.lands pos bufs.flatten), pos + bufs.flatten.length, none⟩ := by
  induction bufs generalizing f pos with
  | nil => simp [landing]
  | cons buf bufs ih =>
    rw [List.map_cons, List.foldl_cons]
    have hstep : fileOp d ⟨some f, pos, none⟩ (.fwrite buf)
        = ⟨some (f ++ landing d.lands pos buf), pos + buf.length, none⟩ := rfl
    rw [hstep, ih, List.flatten_cons, landing_append, List.length_append, List.append_assoc,
      Nat.add_assoc]

/-- Behind a return there is no further step. -/
theorem foldl_fileOp_returned (d : Disk) (f : Option (List UInt8)) (pos : Nat) (r : Int)
    (ops : List FileOp) : ops.foldl (fileOp d) ⟨f, pos, some r⟩ = ⟨f, pos, some r⟩ := by
  induction ops with
  | nil => rfl
  | cons op ops ih => exact ih

namespace KvTable

/-- `fopen` was called and has emptied the file. -/
def Emptied (d : Disk) (db : KvTable S) : Prop :=
  db.path ≠ none ∧ 0 < d.made ∧ d.opens = true

instance (d : Disk) (db : KvTable S) : Decidable (db.Emptied d) :=
  inferInstanceAs (Decidable (_ ∧ _ ∧ _))

/-- The bytes handed to the stream. -/
def written (d : Disk) (db : KvTable S) : List UInt8 :=
  (db.saveWrites.take (d.made - 1)).flatten

theorem kvSaveOn_of_not_emptied {d : Disk} {db : KvTable S} (h : ¬ db.Emptied d)
    (file : Option (List UInt8)) :
    (kvSaveOn d db file).file = file ∧ (kvSaveOn d db file).ret ≠ some 0 := by
  unfold kvSaveOn
  cases hpath : db.path with
  | none => exact ⟨rfl, by simp⟩
  | some p =>
    cases hmade : d.made with
    | zero => exact ⟨rfl, by simp⟩
    | succ k =>
      have hopens : d.opens = false := by
        rw [← Bool.not_eq_true]
        intro hopens
        exact h ⟨by simp [hpath], by omega, hopens⟩
      have hfopen : fileOp d ⟨file, 0, none⟩ .fopen = ⟨file, 0, some (-1)⟩ := by
        simp [fileOp, hopens]
      simp [saveOps, hfopen, foldl_fileOp_returned]

theorem kvSaveOn_of_emptied {d : Disk} {db : KvTable S} (h : db.Emptied d)
    (file : Option (List UInt8)) :
    (kvSaveOn d db file).file = some (landing d.lands 0 (db.written d)) ∧
      ((kvSaveOn d db file).ret = some 0 ↔ db.saveOps.length ≤ d.made) := by
  obtain ⟨hpath, hmade, hopens⟩ := h
  obtain ⟨p, hp⟩ := Option.ne_none_iff_exists'.mp hpath
  obtain ⟨k, hk⟩ := Nat.exists_eq_succ_of_ne_zero (Nat.pos_iff_ne_zero.mp hmade)
  have hfopen : fileOp d ⟨file, 0, none⟩ .fopen = ⟨some [], 0, none⟩ := by simp [fileOp, hopens]
  have hwritten : db.written d = (db.saveWrites.take k).flatten := by
    rw [written, hk, Nat.succ_sub_one]
  rw [hwritten]
  simp only [kvSaveOn, hp, hk, saveOps, List.take_succ_cons, List.foldl_cons, hfopen]
  by_cases hall : k ≤ db.saveWrites.length
  · rw [List.take_append_of_le_length (by simpa using hall), ← List.map_take, foldl_fwrite]
    simp
    omega
  · have htake : (db.saveWrites.map FileOp.fwrite ++ [FileOp.fclose]).take k
        = db.saveWrites.map FileOp.fwrite ++ [FileOp.fclose] := by
      apply List.take_of_length_le
      simp
      omega
    rw [htake, List.foldl_append, foldl_fwrite, List.take_of_length_le (by omega)]
    simp [fileOp]
    omega

theorem flatten_saveWrites (db : KvTable S) :
    db.saveWrites.flatten = leBytes 8 db.count ++ db.stringRecords.flatMap encodeRecord := by
  have hrecord : ∀ r, (recordWrites r).flatten = encodeRecord r := by
    intro r
    simp [recordWrites, encodeRecord]
  rw [saveWrites, List.flatten_cons, List.flatMap_def, List.flatten_flatten, List.map_map,
    List.flatMap_def]
  congr 3
  funext r
  exact hrecord r

theorem kvSave_eq_some_iff {db : KvTable S} {bytes : List UInt8} :
    db.kvSave = some bytes ↔ db.path ≠ none ∧ db.saveWrites.flatten = bytes := by
  rw [kvSave, Option.map_eq_some_iff, flatten_saveWrites]
  cases db.path <;> simp

theorem written_prefix (d : Disk) (db : KvTable S) : db.written d <+: db.saveWrites.flatten := by
  rw [written]
  exact (List.take_prefix (d.made - 1) db.saveWrites).flatten

/-- A save that nothing befalls leaves the bytes of `kvSave`. -/
theorem kvSaveOn_of_sound {d : Disk} {db : KvTable S} {bytes : List UInt8}
    (hsave : db.kvSave = some bytes) (hopens : d.opens = true) (hlands : ∀ i, d.lands i = true)
    (hmade : db.saveOps.length ≤ d.made) (file : Option (List UInt8)) :
    (kvSaveOn d db file).file = some bytes ∧ (kvSaveOn d db file).ret = some 0 := by
  obtain ⟨hpath, hbytes⟩ := kvSave_eq_some_iff.mp hsave
  have hpos : 0 < db.saveOps.length := by simp [saveOps]
  obtain ⟨hfile, hret⟩ := kvSaveOn_of_emptied (show db.Emptied d from ⟨hpath, by omega, hopens⟩) file
  refine ⟨?_, hret.mpr hmade⟩
  have hlen : db.saveOps.length = db.saveWrites.length + 2 := by simp [saveOps]
  rw [hfile, landing_all fun i _ _ => hlands i, written, List.take_of_length_le (by omega), hbytes]

/-! ## The load loop over a damaged file -/

theorem loadRecord_extend {s rest : List UInt8} {r : SnapRecord}
    (h : loadRecord s = some (r, rest)) (more : List UInt8) :
    loadRecord (s ++ more) = some (r, rest ++ more) := by
  simp only [loadRecord, Option.bind_eq_bind, Option.bind_eq_some_iff] at h ⊢
  obtain ⟨⟨kl, s₁⟩, h₁, ⟨k, s₂⟩, h₂, ⟨vl, s₃⟩, h₃, ⟨v, s₄⟩, h₄, ⟨ver, s₅⟩, h₅, ⟨wc, s₆⟩, h₆,
    ⟨origin, s₇⟩, h₇, hr⟩ := h
  refine ⟨_, fread_extend h₁ more, _, fread_extend h₂ more, _, fread_extend h₃ more, _,
    fread_extend h₄ more, _, fread_extend h₅ more, _, fread_extend h₆ more, _,
    fread_extend h₇ more, ?_⟩
  obtain ⟨rfl, rfl⟩ := Prod.mk.inj (Option.some.inj hr)
  rfl

theorem loadLoop_extend (rounds : Nat) (s more : List UInt8) :
    loadLoop rounds s <+: loadLoop rounds (s ++ more) := by
  induction rounds generalizing s with
  | zero => exact List.prefix_rfl
  | succ rounds ih =>
    cases hr : loadRecord s with
    | none =>
      rw [loadLoop, hr]
      exact List.nil_prefix
    | some r =>
      obtain ⟨r, rest⟩ := r
      simp only [loadLoop, hr, loadRecord_extend hr]
      exact (List.prefix_cons_inj r).mpr (ih rest)

/-- Whatever stands behind it, the beginning of a file is replayed first. -/
theorem loadCalls_extend (s more : List UInt8) : loadCalls s <+: loadCalls (s ++ more) := by
  cases hn : fread 8 s with
  | none =>
    rw [loadCalls, hn]
    exact List.nil_prefix
  | some n =>
    obtain ⟨n, rest⟩ := n
    simp only [loadCalls, hn, fread_extend hn]
    exact loadLoop_extend (leNat n) rest more

/-- A file that is no longer than the header has no records. -/
theorem loadCalls_of_short {s : List UInt8} (h : s.length ≤ 8) : loadCalls s = [] := by
  unfold loadCalls fread
  by_cases h8 : 8 ≤ s.length
  · rw [if_pos h8]
    have hdrop : s.drop 8 = [] := List.drop_eq_nil_of_le h
    simp only [hdrop]
    cases leNat (s.take 8) with
    | zero => rfl
    | succ n => simp [loadLoop, loadRecord_nil]
  · rw [if_neg h8]

/-! ## The law of a save -/

/-- The calls that opening the file makes after a save of `db` over the
bytes of an earlier one. -/
def replayed (d : Disk) (db : KvTable S) (saved : List UInt8) : List SnapRecord :=
  loadCalls ((kvSaveOn d db (some saved)).file.getD [])

/-- An atomic replacement: whatever befalls the save, the old records are
replayed or the new ones, and the new ones if it returns 0. -/
def CrashSafe (old new : KvTable S) : Prop :=
  ∀ d saved, old.kvSave = some saved →
    (new.replayed d saved = old.stringRecords ∨ new.replayed d saved = new.stringRecords) ∧
    ((kvSaveOn d new (some saved)).ret = some 0 → new.replayed d saved = new.stringRecords)

/-- Up to the first byte that is lost. -/
theorem Wf.replayed_of_emptied {d : Disk} {db : KvTable S} (h : db.Wf) (hd : db.Emptied d)
    (saved : List UInt8) {n : Nat} (hn : n ≤ (db.written d).length)
    (hlands : ∀ i < n, d.lands i = true) :
    ∃ m ≤ db.stringRecords.length,
      (∀ i < db.stringRecords.length, i < m ↔ 8 + recordsSize db.stringRecords i ≤ n) ∧
      db.stringRecords.take m <+: db.replayed d saved ∧
      ((∀ i, n ≤ i → i < (db.written d).length → d.lands i = false) →
        db.replayed d saved = db.stringRecords.take m) := by
  obtain ⟨m, hm, hcalls, hlast⟩ :=
    h.loadCalls_take (kvSave_eq_some_iff.mpr ⟨hd.1, rfl⟩) n
  have hfirst : (db.written d).take n = db.saveWrites.flatten.take n := by
    obtain ⟨rest, hrest⟩ := db.written_prefix d
    rw [← hrest, List.take_append_of_le_length hn]
  have hfile : db.replayed d saved
      = loadCalls (db.saveWrites.flatten.take n
          ++ landing d.lands n ((db.written d).drop n)) := by
    rw [replayed, (kvSaveOn_of_emptied hd _).1, Option.getD_some, landing_eq hn hlands, hfirst]
  refine ⟨m, hm, hlast, ?_, fun hrest => ?_⟩
  · rw [hfile, ← hcalls]
    exact loadCalls_extend _ _
  · have hnone : landing d.lands n ((db.written d).drop n) = [] := by
      apply landing_none
      intro i hi hlt
      rw [List.length_drop] at hlt
      exact hrest i hi (by omega)
    rw [hfile, hnone, List.append_nil, hcalls]

/-- Without a lost byte a save that returns 0 is complete. -/
theorem Wf.replayed_of_returned {d : Disk} {db : KvTable S} (h : db.Wf) {saved : List UInt8}
    (hret : (kvSaveOn d db (some saved)).ret = some 0) (hlands : ∀ i, d.lands i = true) :
    db.replayed d saved = db.stringRecords := by
  have hd : db.Emptied d := by
    by_contra hd
    exact (kvSaveOn_of_not_emptied hd _).2 hret
  have hsave : db.kvSave = some db.saveWrites.flatten := kvSave_eq_some_iff.mpr ⟨hd.1, rfl⟩
  have hmade := (kvSaveOn_of_emptied hd _).2.mp hret
  rw [replayed, (kvSaveOn_of_sound hsave hd.2.2 hlands hmade _).1]
  exact h.loadCalls_kvSave hsave

section Reachable

variable [LinearOrder S]

/-- **Saving over a saved table.** As long as the file was not opened, the
records of the old table are replayed, and `kv_save` does not return 0.
Afterwards the records of the new table come first, in table order, that
lie before the first byte that was lost, and they are all there is when
nothing behind it reached the file. Without a lost byte, 0 is returned only
when all records of the new table are replayed. -/
theorem kvSaveOn_replay (path path' : Option CStr) (file file' : Option (List UInt8))
    (ops ops' : List (StoreOp S)) (old new : KvTable S) (hold : old = storeRun path file ops)
    (hnew : new = storeRun path' file' ops') (saved : List UInt8)
    (hsaved : old.kvSave = some saved) (d : Disk) :
    (¬ new.Emptied d →
      new.replayed d saved = old.stringRecords ∧
      (kvSaveOn d new (some saved)).ret ≠ some 0) ∧
    (new.Emptied d →
      ∀ n ≤ (new.written d).length, (∀ i < n, d.lands i = true) →
        ∃ m ≤ new.stringRecords.length,
          (∀ i < new.stringRecords.length, i < m ↔ 8 + recordsSize new.stringRecords i ≤ n) ∧
          new.stringRecords.take m <+: new.replayed d saved ∧
          ((∀ i, n ≤ i → i < (new.written d).length → d.lands i = false) →
            new.replayed d saved = new.stringRecords.take m)) ∧
    ((∀ i, d.lands i = true) → (kvSaveOn d new (some saved)).ret = some 0 →
      new.replayed d saved = new.stringRecords) := by
  have hwf : new.Wf := hnew ▸ Wf.storeRun path' file' ops'
  refine ⟨fun hd => ?_, fun hd n hn hlands => hwf.replayed_of_emptied hd saved hn hlands,
    fun hlands hret => hwf.replayed_of_returned hret hlands⟩
  obtain ⟨hfile, hret⟩ := kvSaveOn_of_not_emptied hd (some saved)
  have hwf' : old.Wf := hold ▸ Wf.storeRun path file ops
  refine ⟨?_, hret⟩
  rw [replayed, hfile, Option.getD_some]
  exact hwf'.loadCalls_kvSave hsaved

/-- The string `k` in a file, and then another value for it. -/
def savedOnce (ops : List (StoreOp Int)) : KvTable Int :=
  storeRun (some (.lit "f")) none (.table (.set true (.lit "k") (.lit "a") 5) :: ops)

/-- The process is stopped right behind the header: nothing is replayed. -/
theorem kvSaveOn_replay_header :
    (savedOnce [.table (.set true (.lit "k") (.lit "b") 6)]).replayed ⟨true, fun _ => true, 2⟩
      ((savedOnce []).kvSave.getD []) = [] := by
  obtain ⟨m, -, hlast, -, hcalls⟩ := (kvSaveOn_replay (some (.lit "f")) (some (.lit "f")) none none
    [.table (.set true (.lit "k") (.lit "a") 5)]
    [.table (.set true (.lit "k") (.lit "a") 5), .table (.set true (.lit "k") (.lit "b") 6)]
    (savedOnce []) (savedOnce [.table (.set true (.lit "k") (.lit "b") 6)]) rfl rfl
    ((savedOnce []).kvSave.getD []) (by decide) ⟨true, fun _ => true, 2⟩).2.1
    (by decide) 8 (by decide) (fun _ _ => rfl)
  have hsize : 8 < 8 + recordsSize
      (savedOnce [.table (.set true (.lit "k") (.lit "b") 6)]).stringRecords 0 := by
    decide
  have hzero : m = 0 := by
    by_contra hne
    have hle := (hlast 0 (by decide)).mp (Nat.pos_of_ne_zero hne)
    omega
  have hwritten : ((savedOnce [.table (.set true (.lit "k") (.lit "b") 6)]).written
      ⟨true, fun _ => true, 2⟩).length = 8 := by decide
  rw [hcalls (fun i hi hlt => absurd hlt (by omega)), hzero, List.take_zero]

/-- Right behind `fopen` the file is empty. -/
theorem savedOnce_not_crashSafe :
    ¬ CrashSafe (savedOnce []) (savedOnce [.table (.set true (.lit "k") (.lit "b") 6)]) := by
  intro h
  obtain ⟨hold | hnew, -⟩ :=
    h ⟨true, fun _ => true, 1⟩ ((savedOnce []).kvSave.getD []) (by decide)
  · exact absurd hold (by decide)
  · exact absurd hnew (by decide)

/-- A saved table is replaced atomically exactly when the new one has no
string to lose. -/
theorem crashSafe_iff (path : Option CStr) (file : Option (List UInt8)) (ops : List (StoreOp S))
    (old new : KvTable S) (hold : old = storeRun path file ops) (hsaved : old.path ≠ none) :
    old.CrashSafe new ↔ new.path = none ∨ new.stringRecords = [] := by
  constructor
  · intro h
    by_contra hnot
    rw [not_or] at hnot
    obtain ⟨hpath, hrecs⟩ := hnot
    -- the disk is full: every write fails, and `kv_save` returns 0 all the same
    have hd : new.Emptied ⟨true, fun _ => false, new.saveOps.length⟩ :=
      ⟨hpath, by simp [saveOps], rfl⟩
    obtain ⟨hfile, hret⟩ := kvSaveOn_of_emptied hd (some old.saveWrites.flatten)
    have hcalls := (h _ _ (kvSave_eq_some_iff.mpr ⟨hsaved, rfl⟩)).2 (hret.mpr le_rfl)
    rw [replayed, hfile, landing_none fun _ _ _ => rfl] at hcalls
    exact hrecs hcalls.symm
  · intro h d saved hsave
    by_cases hd : new.Emptied d
    · have hrecs : new.stringRecords = [] := h.resolve_left hd.1
      have hshort : (landing d.lands 0 (new.written d)).length ≤ 8 := by
        have hle := length_landing_le d.lands 0 (new.written d)
        have hwritten := (new.written_prefix d).length_le
        rw [flatten_saveWrites, hrecs] at hwritten
        simp only [List.flatMap_nil, List.append_nil, ByteCursor.length_leBytes] at hwritten
        omega
      have hcalls : new.replayed d saved = [] := by
        rw [replayed, (kvSaveOn_of_emptied hd _).1]
        exact loadCalls_of_short hshort
      rw [hcalls, hrecs]
      exact ⟨Or.inr rfl, fun _ => rfl⟩
    · obtain ⟨hfile, hret⟩ := kvSaveOn_of_not_emptied hd (some saved)
      have hwf : old.Wf := hold ▸ Wf.storeRun path file ops
      refine ⟨Or.inl ?_, fun hzero => absurd hzero hret⟩
      rw [replayed, hfile, Option.getD_some]
      exact hwf.loadCalls_kvSave hsave

end Reachable

end KvTable

end AntzKV

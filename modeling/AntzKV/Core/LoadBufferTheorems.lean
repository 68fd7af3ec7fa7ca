/-
AntzKV.Core.LoadBufferTheorems — the buffers of the load loop.

A round of the load loop reads two lengths from the file and asks for one
byte more each. One byte more than 2^64 - 1 is none: such a length gets a
buffer of no bytes, into which `fread` may store the rest of the file.
Every other length gets what it needs (`loadInBounds_iff`).

The loop terminates on every file: a round that is not the last reads 47
bytes at least (`finished_loadLoopOn`).
-/
import AntzKV.Core.SnapshotTheorems

namespace AntzKV

open ByteCursor (leNat fread)

/-- The buffer holds what may be stored in it, with the NUL. -/
def Buffer.InBounds (b : Buffer) : Prop := b.count + 1 ≤ b.size

/-- The one length without a buffer that holds it. -/
theorem inBounds_lenBuffer_iff {len : Nat} (h : len < sizeBound) :
    (lenBuffer len).InBounds ↔ len ≠ sizeBound - 1 := by
  have hpos : 0 < sizeBound := by decide
  simp only [Buffer.InBounds, lenBuffer]
  constructor
  · rintro hle rfl
    rw [Nat.sub_add_cancel hpos, Nat.mod_self] at hle
    omega
  · intro hne
    rw [Nat.mod_eq_of_lt (by omega)]

namespace KvTable

/-! ## The lengths in a file -/

/-- The length fields a round reads: that of the key, and behind the key
that of the value. -/
def recordLengths (s : List UInt8) : List Nat :=
  match fread 8 s with
  | none => []
  | some (kl, s) =>
    leNat kl :: match (fread (leNat kl) s).bind fun r => fread 8 r.2 with
      | none => []
      | some (vl, _) => [leNat vl]

/-- The length fields of `n` rounds. -/
def loopLengths : Nat → List UInt8 → List Nat
  | 0, _ => []
  | n + 1, s => recordLengths s ++ (loadRecord s).elim [] fun r => loopLengths n r.2

/-- The length fields of a snapshot file. -/
def lengthFields (file : List UInt8) : List Nat :=
  (fread 8 file).elim [] fun n => loopLengths (leNat n.1) n.2

theorem leNat_field_lt {s bs rest : List UInt8} (h : fread 8 s = some (bs, rest)) :
    leNat bs < sizeBound := by
  have hlt := ByteCursor.leNat_lt bs
  rwa [(ByteCursor.length_of_fread h).1] at hlt

theorem recordLengths_lt {s : List UInt8} {len : Nat} (h : len ∈ recordLengths s) :
    len < sizeBound := by
  unfold recordLengths at h
  split at h
  · cases h
  · rename_i kl s' hkl
    rcases List.mem_cons.mp h with rfl | h
    · exact leNat_field_lt hkl
    · split at h
      · cases h
      · rename_i vl s'' hvl
        obtain ⟨⟨k, t⟩, -, hread⟩ := Option.bind_eq_some_iff.mp hvl
        rw [List.mem_singleton.mp h]
        exact leNat_field_lt hread

theorem loopLengths_lt {len : Nat} : ∀ (n : Nat) {s : List UInt8}, len ∈ loopLengths n s →
    len < sizeBound
  | 0, _, h => absurd h List.not_mem_nil
  | n + 1, s, h => by
    rcases List.mem_append.mp h with h | h
    · exact recordLengths_lt h
    · cases hr : loadRecord s with
      | none =>
        rw [hr] at h
        cases h
      | some r =>
        rw [hr] at h
        exact loopLengths_lt n h

/-! ## One round -/

/-- When `malloc` succeeds the round is that of `loadRecord`, with a buffer
for each length it reads. -/
theorem loadRecordOn_always (i : Nat) (s : List UInt8) :
    loadRecordOn (fun _ _ => true) i s = ((recordLengths s).map lenBuffer, loadRecord s) := by
  cases hkl : fread 8 s with
  | none => simp [loadRecordOn, readSized, recordLengths, loadRecord, hkl]
  | some r₁ =>
    obtain ⟨kl, s₁⟩ := r₁
    cases hk : fread (leNat kl) s₁ with
    | none => simp [loadRecordOn, readSized, recordLengths, loadRecord, hkl, hk, lenBuffer]
    | some r₂ =>
      obtain ⟨k, s₂⟩ := r₂
      cases hvl : fread 8 s₂ with
      | none =>
        simp [loadRecordOn, readSized, recordLengths, loadRecord, hkl, hk, hvl, lenBuffer]
      | some r₃ =>
        obtain ⟨vl, s₃⟩ := r₃
        cases hv : fread (leNat vl) s₃ with
        | none =>
          simp [loadRecordOn, readSized, recordLengths, loadRecord, hkl, hk, hvl, hv, lenBuffer]
        | some r₄ =>
          obtain ⟨v, s₄⟩ := r₄
          have hmeta : loadRecord s = readMeta k v s₄ := by
            simp only [loadRecord, hkl, hk, hvl, hv, Option.bind_eq_bind, Option.bind_some]
            rfl
          simp [loadRecordOn, readSized, recordLengths, hmeta, hkl, hk, hvl, hv, lenBuffer]

/-- A `malloc` that fails only ends the read early. -/
theorem readSized_le (malloc : Nat → Nat → Bool) (call : Nat) (s : List UInt8) :
    readSized malloc call s = readSized (fun _ _ => true) call s ∨
      readSized malloc call s = ([], none) := by
  unfold readSized
  cases fread 8 s with
  | none => exact .inl rfl
  | some r =>
    by_cases hm : malloc call (lenBuffer (leNat r.1)).size = true
    · exact .inl (by simp [hm])
    · exact .inr (by simp [hm])

/-- And so it only ends the round early. -/
theorem loadRecordOn_le (malloc : Nat → Nat → Bool) (i : Nat) (s : List UInt8) :
    loadRecordOn malloc i s = loadRecordOn (fun _ _ => true) i s ∨
      ((loadRecordOn malloc i s).2 = none ∧
        ∀ b ∈ (loadRecordOn malloc i s).1, b ∈ (loadRecordOn (fun _ _ => true) i s).1) := by
  unfold loadRecordOn
  rcases readSized_le malloc (2 * i) s with hkey | hkey <;> rw [hkey]
  · rcases readSized (fun _ _ => true) (2 * i) s with ⟨bufs, _ | ⟨k, s₂⟩⟩
    · exact .inl rfl
    · rcases readSized_le malloc (2 * i + 1) s₂ with hvalue | hvalue
      · left
        simp only [hvalue]
      · right
        simp only [hvalue]
        refine ⟨trivial, fun b hb => ?_⟩
        rcases readSized (fun _ _ => true) (2 * i + 1) s₂ with ⟨bufs', _ | ⟨v, s₄⟩⟩
        · exact List.mem_append_left _ (by simpa using hb)
        · exact List.mem_append_left _ (by simpa using hb)
  · exact .inr ⟨rfl, fun b hb => absurd hb List.not_mem_nil⟩

/-- What a record takes of the file, at least. -/
theorem length_loadRecord {s rest : List UInt8} {r : SnapRecord}
    (h : loadRecord s = some (r, rest)) : 47 + rest.length ≤ s.length := by
  simp only [loadRecord, Option.bind_eq_bind, Option.bind_eq_some_iff] at h
  obtain ⟨⟨kl, s₁⟩, hkl, ⟨k, s₂⟩, hk, ⟨vl, s₃⟩, hvl, ⟨v, s₄⟩, hv, ⟨ver, s₅⟩, hver,
    ⟨wc, s₆⟩, hwc, ⟨origin, s₇⟩, horigin, hret⟩ := h
  obtain rfl : s₇ = rest := (Prod.mk.inj (Option.some.inj hret)).2
  have h₁ := (ByteCursor.length_of_fread hkl).2
  have h₂ := (ByteCursor.length_of_fread hk).2
  have h₃ := (ByteCursor.length_of_fread hvl).2
  have h₄ := (ByteCursor.length_of_fread hv).2
  have h₅ := (ByteCursor.length_of_fread hver).2
  have h₆ := (ByteCursor.length_of_fread hwc).2
  have h₇ := (ByteCursor.length_of_fread horigin).2
  dsimp only at *
  omega

/-! ## The loop -/

/-- Every buffer of the loop is one of those for the lengths in the file. -/
theorem buffers_loadLoopOn (malloc : Nat → Nat → Bool) (n : Nat) :
    ∀ (fuel i : Nat) (s : List UInt8), ∀ b ∈ (loadLoopOn malloc n fuel i s).buffers,
      b ∈ (loopLengths (n - i) s).map lenBuffer
  | 0, _, _, b, hb => absurd hb List.not_mem_nil
  | fuel + 1, i, s, b, hb => by
    rw [loadLoopOn] at hb
    split at hb
    · rename_i hi
      obtain ⟨m, hm⟩ : ∃ m, n - i = m + 1 := ⟨n - i - 1, by omega⟩
      have hm' : n - (i + 1) = m := by omega
      rw [hm, loopLengths, List.map_append]
      have halways := loadRecordOn_always i s
      rcases loadRecordOn_le malloc i s with heq | ⟨hnone, hmem⟩
      · rw [heq, halways] at hb
        cases hr : loadRecord s with
        | none =>
          rw [hr] at hb
          exact List.mem_append_left _ hb
        | some r =>
          rw [hr] at hb
          rcases List.mem_append.mp hb with hb | hb
          · exact List.mem_append_left _ hb
          · rw [← hm']
            exact List.mem_append_right _ (buffers_loadLoopOn malloc n fuel (i + 1) _ b hb)
      · rw [halways] at hmem
        obtain ⟨bufs, hbufs⟩ : ∃ bufs, loadRecordOn malloc i s = (bufs, none) :=
          ⟨_, Prod.ext rfl hnone⟩
        rw [hbufs] at hb hmem
        exact List.mem_append_left _ (hmem b hb)
    · cases hb

/-- **Termination**: a round that is not the last one uses up 47 bytes. -/
theorem finished_loadLoopOn (malloc : Nat → Nat → Bool) (n : Nat) :
    ∀ (fuel i : Nat) (s : List UInt8), s.length < 47 * fuel →
      (loadLoopOn malloc n fuel i s).finished = true
  | 0, _, _, h => absurd h (by omega)
  | fuel + 1, i, s, h => by
    rw [loadLoopOn]
    split
    · split
      · rfl
      · rename_i bufs r rest hround
        have hrec : loadRecord s = some (r, rest) := by
          have halways := loadRecordOn_always i s
          rcases loadRecordOn_le malloc i s with heq | ⟨hnone, -⟩
          · rw [heq, halways] at hround
            exact (Prod.mk.inj hround).2
          · rw [hround] at hnone
            cases hnone
        have hshort := length_loadRecord hrec
        exact finished_loadLoopOn malloc n fuel (i + 1) rest (by omega)
    · rfl

/-- With fuel enough and memory the loop makes the calls of `loadLoop`, and
a buffer for every length in the file. -/
theorem loadLoopOn_always (n : Nat) :
    ∀ (fuel i : Nat) (s : List UInt8), s.length < 47 * fuel →
      loadLoopOn (fun _ _ => true) n fuel i s
        = ⟨(loopLengths (n - i) s).map lenBuffer, loadLoop (n - i) s, true⟩
  | 0, _, _, h => absurd h (by omega)
  | fuel + 1, i, s, h => by
    rw [loadLoopOn]
    split
    · rename_i hi
      obtain ⟨m, hm⟩ : ∃ m, n - i = m + 1 := ⟨n - i - 1, by omega⟩
      have hm' : n - (i + 1) = m := by omega
      rw [hm, loadRecordOn_always, loopLengths, loadLoop]
      cases hr : loadRecord s with
      | none => simp
      | some r =>
        obtain ⟨r, rest⟩ := r
        have hshort := length_loadRecord hr
        simp only [loadLoopOn_always n fuel (i + 1) rest (by omega), hm', Option.elim_some,
          List.map_append]
    · rename_i hi
      have hzero : n - i = 0 := by omega
      rw [hzero]
      rfl

/-- The load loop with its allocations is the one `kvOpen` goes by. -/
theorem loadOn_always {fuel : Nat} {file : List UInt8} (hfuel : file.length < 47 * fuel) :
    loadOn (fun _ _ => true) fuel file
      = ⟨(lengthFields file).map lenBuffer, loadCalls file, true⟩ := by
  unfold loadOn lengthFields loadCalls
  cases hn : fread 8 file with
  | none => rfl
  | some r =>
    obtain ⟨n, s⟩ := r
    have hlen := (ByteCursor.length_of_fread hn).2
    exact loadLoopOn_always (leNat n) fuel 0 s (by omega)

/-- Whatever `malloc` does, the buffers stay within bounds, and the loop
terminates. -/
def LoadSafe (file : List UInt8) : Prop :=
  ∀ malloc : Nat → Nat → Bool,
    (∀ fuel, ∀ b ∈ (loadOn malloc fuel file).buffers, b.InBounds) ∧
    ∃ fuel, (loadOn malloc fuel file).finished = true

/-- **When loading is in bounds**: on every file without a length field of
2^64 - 1, and on no other. -/
theorem loadSafe_iff (file : List UInt8) :
    LoadSafe file ↔ ∀ len ∈ lengthFields file, len ≠ sizeBound - 1 := by
  have hlt : ∀ len ∈ lengthFields file, len < sizeBound := by
    intro len hlen
    unfold lengthFields at hlen
    cases hn : fread 8 file with
    | none =>
      rw [hn] at hlen
      cases hlen
    | some r =>
      rw [hn] at hlen
      exact loopLengths_lt _ hlen
  constructor
  · intro hsafe len hlen
    rw [← inBounds_lenBuffer_iff (hlt len hlen)]
    refine (hsafe fun _ _ => true).1 (file.length + 1) _ ?_
    rw [loadOn_always (by omega)]
    exact List.mem_map_of_mem hlen
  · intro hfields malloc
    constructor
    · intro fuel b hb
      have hmem : b ∈ (lengthFields file).map lenBuffer := by
        unfold loadOn at hb
        unfold lengthFields
        cases hn : fread 8 file with
        | none =>
          rw [hn] at hb
          cases hb
        | some r =>
          rw [hn] at hb
          exact buffers_loadLoopOn malloc _ fuel 0 _ b hb
      obtain ⟨len, hlen, rfl⟩ := List.mem_map.mp hmem
      exact (inBounds_lenBuffer_iff (hlt len hlen)).mpr (hfields len hlen)
    · refine ⟨file.length + 1, ?_⟩
      unfold loadOn
      cases hn : fread 8 file with
      | none => rfl
      | some r =>
        have hlen := (ByteCursor.length_of_fread hn).2
        exact finished_loadLoopOn malloc _ _ 0 _ (by omega)

/-- One record, with a key of 2^64 - 1 bytes, of which one is there. -/
def hostileFile : List UInt8 :=
  [1, 0, 0, 0, 0, 0, 0, 0, 255, 255, 255, 255, 255, 255, 255, 255, 65]

/-- The key of this file is read into no bytes. -/
theorem hostileFile_not_safe : ¬ ∀ file, LoadSafe file := by
  intro hsafe
  have h := hsafe hostileFile
  have hbuf : (loadOn (fun _ _ => true) 1 hostileFile).buffers.all
      (fun b => decide (b.count + 1 ≤ b.size)) = false := by
    decide
  have hall : (loadOn (fun _ _ => true) 1 hostileFile).buffers.all
      (fun b => decide (b.count + 1 ≤ b.size)) = true :=
    List.all_eq_true.mpr fun b hb => decide_eq_true ((h fun _ _ => true).1 1 b hb)
  rw [hbuf] at hall
  cases hall

end KvTable

end AntzKV

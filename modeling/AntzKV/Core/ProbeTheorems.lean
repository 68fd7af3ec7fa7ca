/-
AntzKV.Core.ProbeTheorems — what `probe` sees of a table.

The loop of `probe` adds `i * i` to its index; `probeIdx` is that
recurrence, and the slots of `Lib/SquareProbe` are its values
(`probeIdx_eq_slot`). In C the sum is a `size_t` and may wrap before the
remainder is taken, which a capacity that divides `2 ^ 64` does not
notice (`probeIdxSize_eq`).

Half of the table is what the first `capacity` steps see at least; so a
table of which less than half is used shows every search an empty entry,
unless it shows it the key before.
-/
import AntzKV.Core.TableTheorems

namespace AntzKV

variable {S : Type}

/-- `idx` after `n` turns of the loop: `idx = (idx + i * i) % capacity`,
with `i` from 1 on. -/
def probeIdx (cap home : Nat) : Nat → Nat
  | 0 => home
  | n + 1 => (probeIdx cap home n + (n + 1) * (n + 1)) % cap

/-- The same with the sum and the product of a `size_t`. -/
def probeIdxSize (cap home : Nat) : Nat → Nat
  | 0 => home
  | n + 1 =>
    (probeIdxSize cap home n + (n + 1) * (n + 1) % sizeBound) % sizeBound % cap

/-- The offsets are 0, 1, 5, 14, 30, and then they go round. -/
example : (List.range 7).map (probeIdx 32 0) = [0, 1, 5, 14, 30, 23, 27] := by decide

theorem probeIdx_eq_slot {cap home : Nat} (hhome : home < cap) (n : Nat) :
    probeIdx cap home n = SquareProbe.slot cap home n := by
  induction n with
  | zero => exact (Nat.mod_eq_of_lt hhome).symm
  | succ n ih => rw [probeIdx, ih, SquareProbe.slot_succ]

/-- A power of two up to the modulus of `size_t` absorbs the wrap. -/
theorem probeIdxSize_eq {m : Nat} (hm : m ≤ 64) (home n : Nat) :
    probeIdxSize (2 ^ m) home n = probeIdx (2 ^ m) home n := by
  have hdvd : 2 ^ m ∣ sizeBound := Nat.pow_dvd_pow 2 hm
  induction n with
  | zero => rfl
  | succ n ih => rw [probeIdxSize, probeIdx, ih, Nat.add_mod_mod, Nat.mod_mod_of_dvd _ hdvd]

/-- At least half of the slots are looked at. -/
theorem le_two_mul_card_probeIdx {m home : Nat} (hhome : home < 2 ^ m) :
    2 ^ m ≤ 2 * ((Finset.range (2 ^ m)).image (probeIdx (2 ^ m) home)).card := by
  have hslot : probeIdx (2 ^ m) home = SquareProbe.slot (2 ^ m) home :=
    funext fun n => probeIdx_eq_slot hhome n
  rw [hslot]
  exact SquareProbe.le_two_mul_card_slots m home

namespace KvTable

/-- `probe` is the search along `probeIdx`. -/
theorem probe_eq_search_probeIdx {db : KvTable S} (hcap : 0 < db.capacity) (key : CStr) :
    db.probe key = OpenAddressing.search db.entry key
      (probeIdx db.capacity ((fnv1a key).toNat % db.capacity)) db.capacity 0 := by
  have hpath : probeIdx db.capacity ((fnv1a key).toNat % db.capacity) = probePath db.capacity key :=
    funext fun n => probeIdx_eq_slot (Nat.mod_lt _ hcap) n
  rw [probe_eq_probe, hpath]
  rfl

/-- A table of which less than half is used, the one with a single entry
included, shows every search an empty entry. -/
theorem exists_empty_of_lt_half {db : KvTable S} {m : Nat} (hcap : db.capacity = 2 ^ m)
    (hhalf : 2 * db.entries.countP (fun e => !e.isEmpty) < db.capacity) (key : CStr) :
    ∃ n < db.capacity, db.entry (probePath db.capacity key n) = .empty := by
  cases m with
  | succ m =>
    refine exists_empty_of_half_empty hcap ?_ key
    rw [hcap, pow_succ] at hhalf
    omega
  | zero =>
    have hone : db.capacity = 1 := hcap
    have hzero : probePath db.capacity key 0 < db.entries.length :=
      probePath_lt (by rw [hone]; decide) key 0
    have hcount : db.entries.countP (fun e => !e.isEmpty) = 0 := by omega
    have hall := List.countP_eq_zero.mp hcount _ (List.getElem_mem hzero)
    refine ⟨0, by rw [hone]; decide, ?_⟩
    rw [entry, List.getD_eq_getElem _ _ hzero]
    exact OpenAddressing.Slot.isEmpty_iff.mp (by simpa using hall)

/-- The two ends of a search in such a table. -/
theorem probe_ends {db : KvTable S} {m : Nat} (hcap : db.capacity = 2 ^ m)
    (hhalf : 2 * db.entries.countP (fun e => !e.isEmpty) < db.capacity) (key : CStr) :
    ((db.probe key).2 = true ∧ ∃ o, db.entry (db.probe key).1 = .occupied key o) ∨
    ((db.probe key).2 = false ∧ db.entry (db.probe key).1 = .empty) := by
  cases hfound : (db.probe key).2 with
  | true => exact .inl ⟨rfl, probe_found hfound⟩
  | false =>
    have hpos : 0 < db.capacity := by omega
    rcases entry_probe_of_missed hpos hfound with ⟨hempty, -⟩ | ⟨-, hnone⟩
    · exact .inr ⟨rfl, hempty⟩
    · obtain ⟨n, hn, hempty⟩ := exists_empty_of_lt_half hcap hhalf key
      exact absurd hempty (hnone n hn)

/-- **Probe coverage.** For every power of two and every home slot the
first `capacity` steps look at half of the slots or more, whether the sum
wraps or not; `probe` takes those steps; and in a table of which less than
half is used it ends at the key or at an empty entry. -/
theorem probe_coverage :
    (∀ m home : Nat, home < 2 ^ m →
      2 ^ m ≤ 2 * ((Finset.range (2 ^ m)).image (probeIdx (2 ^ m) home)).card) ∧
    (∀ m home n : Nat, m ≤ 64 → probeIdxSize (2 ^ m) home n = probeIdx (2 ^ m) home n) ∧
    (∀ (db : KvTable S) (key : CStr), 0 < db.capacity →
      db.probe key = OpenAddressing.search db.entry key
        (probeIdx db.capacity ((fnv1a key).toNat % db.capacity)) db.capacity 0) ∧
    ∀ (db : KvTable S) (m : Nat) (key : CStr), db.capacity = 2 ^ m →
      2 * db.entries.countP (fun e => !e.isEmpty) < db.capacity →
      ((db.probe key).2 = true ∧ ∃ o, db.entry (db.probe key).1 = .occupied key o) ∨
      ((db.probe key).2 = false ∧ db.entry (db.probe key).1 = .empty) :=
  ⟨fun _ _ hhome => le_two_mul_card_probeIdx hhome, fun _ home n hm => probeIdxSize_eq hm home n,
    fun _ key hcap => probe_eq_search_probeIdx hcap key,
    fun _ _ key hcap hhalf => probe_ends hcap hhalf key⟩

/-- A table of 32 entries with one key in use. -/
theorem probe_coverage_news :
    let db : KvTable Unit := (fresh none).setEntry 7 (.occupied (.lit "news")
      ⟨.string (.lit "today"), -1, 1, 0, .blank⟩)
    32 ≤ 2 * ((Finset.range 32).image (probeIdx 32 30)).card ∧
    probeIdxSize 32 30 5 = probeIdx 32 30 5 ∧
    db.probe (.lit "today") = OpenAddressing.search db.entry (.lit "today")
      (probeIdx db.capacity ((fnv1a (.lit "today")).toNat % db.capacity)) db.capacity 0 ∧
    (((db.probe (.lit "today")).2 = true ∧
        ∃ o, db.entry (db.probe (.lit "today")).1 = .occupied (.lit "today") o) ∨
      ((db.probe (.lit "today")).2 = false ∧ db.entry (db.probe (.lit "today")).1 = .empty)) :=
  ⟨probe_coverage (S := Unit).1 5 30 (by decide),
    probe_coverage (S := Unit).2.1 5 30 5 (by decide),
    probe_coverage.2.2.1 _ _ (by decide),
    probe_coverage.2.2.2 _ 5 _ (by decide) (by decide)⟩

end KvTable

end AntzKV

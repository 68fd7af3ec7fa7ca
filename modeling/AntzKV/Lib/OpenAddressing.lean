/-
AntzKV.Lib.OpenAddressing — open addressing with tombstones over an
arbitrary probe sequence.

A table is a function from slot numbers to slots, and each key has a
`path`: the slots a search for it looks at, in order. The search walks
the path until it meets the key or an empty slot and gives up after `n`
slots. It has to give up: nothing here says that a path covers the
table, so a table with no empty slot on a path is an ordinary state.

The invariant is `Findable`: every stored key is found where it is
stored. It survives a deletion (a tombstone does not cut any path), a
replacement, and an insertion at whatever slot an unsuccessful search
handed back, ALSO when that slot holds another key — provided a search
that gives up hands back the last slot it looked at (`hlast` below). What
does not survive the last case is the other key, and `lookup_fill` says
so.

Under `Findable` a table is the finite map `lookup`, read off the slots
without any probing (`lookup_eq_some_iff`); `lookup_delete`,
`lookup_replace` and `lookup_fill` give that map after each update.
-/
import Mathlib

namespace OpenAddressing

variable {K V : Type}

/-- One slot: never used, in use, or a tombstone. -/
inductive Slot (K V : Type) where
  | empty
  | occupied (k : K) (v : V)
  | deleted
  deriving DecidableEq

def Slot.isOccupied : Slot K V → Bool
  | .occupied _ _ => true
  | _ => false

def Slot.isEmpty : Slot K V → Bool
  | .empty => true
  | _ => false

theorem Slot.isEmpty_iff {s : Slot K V} : s.isEmpty = true ↔ s = .empty := by
  cases s <;> simp [Slot.isEmpty]

/-- The value in a slot. -/
def Slot.value? : Slot K V → Option V
  | .occupied _ v => some v
  | _ => none

/-- The key in a slot. -/
def Slot.key? : Slot K V → Option K
  | .occupied k _ => some k
  | _ => none

theorem Slot.key?_eq_some {s : Slot K V} {k : K} :
    s.key? = some k ↔ ∃ v, s = .occupied k v := by
  cases s <;> simp [Slot.key?]

/-- Change the value in a slot. -/
def Slot.map {W : Type} (f : V → W) : Slot K V → Slot K W
  | .empty => .empty
  | .occupied k v => .occupied k (f v)
  | .deleted => .deleted

@[simp] theorem Slot.value?_map {W : Type} (f : V → W) (s : Slot K V) :
    (s.map f).value? = s.value?.map f := by
  cases s <;> rfl

/-- A search for `k` goes on past this slot. -/
def Passes (k : K) (s : Slot K V) : Prop := s ≠ .empty ∧ ∀ v, s ≠ .occupied k v

theorem passes_deleted (k : K) : Passes k (.deleted : Slot K V) :=
  ⟨by simp, by simp⟩

theorem passes_occupied {k k' : K} (h : k' ≠ k) (v : V) : Passes k (.occupied k' v) :=
  ⟨by simp, fun v' he => h (Slot.occupied.inj he).1⟩

section Search

variable [DecidableEq K]

/-- Walk along `path` from its `i`-th slot, over at most `left` slots. -/
def search (slots : Nat → Slot K V) (k : K) (path : Nat → Nat) : Nat → Nat → Nat × Bool
  | 0, i => (path i, false)
  | left + 1, i =>
    match slots (path i) with
    | .empty => (path i, false)
    | .occupied k' _ => if k' = k then (path i, true) else search slots k path left (i + 1)
    | .deleted => search slots k path left (i + 1)

theorem search_of_passes {slots : Nat → Slot K V} {k : K} {path : Nat → Nat} {left i : Nat}
    (h : Passes k (slots (path i))) :
    search slots k path (left + 1) i = search slots k path left (i + 1) := by
  rw [search]
  cases hs : slots (path i) with
  | empty => exact absurd hs h.1
  | occupied k' v =>
    have hk : k' ≠ k := fun he => h.2 v (by rw [hs, he])
    simp [hk]
  | deleted => rfl

/-- A search does not look at the values. -/
theorem search_map {W : Type} (f : V → W) (slots : Nat → Slot K V) (k : K) (path : Nat → Nat)
    (left i : Nat) :
    search (fun a => (slots a).map f) k path left i = search slots k path left i := by
  induction left generalizing i with
  | zero => rfl
  | succ left ih =>
    simp only [search, ih]
    cases slots (path i) <;> rfl

/-- The search over a stretch of passed slots goes on behind it. -/
theorem search_skip {slots : Nat → Slot K V} {k : K} {path : Nat → Nat} :
    ∀ (d left i : Nat), (∀ l, i ≤ l → l < i + d → Passes k (slots (path l))) →
      search slots k path (d + left) i = search slots k path left (i + d)
  | 0, left, i, _ => by rw [Nat.zero_add, Nat.add_zero]
  | d + 1, left, i, h => by
    rw [Nat.add_right_comm, search_of_passes (h i (Nat.le_refl i) (by omega)),
      search_skip d left (i + 1) (fun l h1 h2 => h l (by omega) (by omega))]
    congr 1
    omega

/-- What a search can answer. Either it stops at the `m`-th slot of the
path, having passed every slot before it, or it passes all `left` slots
and hands back the next one. -/
theorem search_cases (slots : Nat → Slot K V) (k : K) (path : Nat → Nat) :
    ∀ (left i : Nat),
      (∃ m v, i ≤ m ∧ m < i + left ∧ search slots k path left i = (path m, true) ∧
          slots (path m) = .occupied k v ∧ ∀ l, i ≤ l → l < m → Passes k (slots (path l))) ∨
      (∃ m, i ≤ m ∧ m < i + left ∧ search slots k path left i = (path m, false) ∧
          slots (path m) = .empty ∧ ∀ l, i ≤ l → l < m → Passes k (slots (path l))) ∨
      (search slots k path left i = (path (i + left), false) ∧
          ∀ l, i ≤ l → l < i + left → Passes k (slots (path l)))
  | 0, i => by
    refine Or.inr (Or.inr ⟨rfl, ?_⟩)
    intro l h1 h2
    omega
  | left + 1, i => by
    by_cases hp : Passes k (slots (path i))
    · rw [search_of_passes hp]
      have extend : ∀ m, (∀ l, i + 1 ≤ l → l < m → Passes k (slots (path l))) →
          ∀ l, i ≤ l → l < m → Passes k (slots (path l)) := by
        intro m hm l h1 h2
        rcases Nat.eq_or_lt_of_le h1 with rfl | h1
        · exact hp
        · exact hm l h1 h2
      rcases search_cases slots k path left (i + 1) with
        ⟨m, v, h1, h2, h3, h4, h5⟩ | ⟨m, h1, h2, h3, h4, h5⟩ | ⟨h3, h5⟩
      · exact Or.inl ⟨m, v, by omega, by omega, h3, h4, extend m h5⟩
      · exact Or.inr (Or.inl ⟨m, by omega, by omega, h3, h4, extend m h5⟩)
      · refine Or.inr (Or.inr ⟨?_, ?_⟩)
        · rw [h3, Nat.add_right_comm, Nat.add_assoc]
        · exact extend _ (fun l h1 h2 => h5 l h1 (by omega))
    · have hvac : ∀ l, i ≤ l → l < i → Passes k (slots (path l)) := by
        intro l h1 h2
        omega
      cases hs : slots (path i) with
      | empty => exact Or.inr (Or.inl ⟨i, by omega, by omega, by simp [search, hs], hs, hvac⟩)
      | occupied k' v =>
        by_cases hk : k' = k
        · subst hk
          exact Or.inl ⟨i, v, by omega, by omega, by simp [search, hs], hs, hvac⟩
        · exact absurd (hs ▸ passes_occupied hk v) hp
      | deleted => exact absurd (hs ▸ passes_deleted k) hp

/-- A search that passes everything before the `m`-th slot and finds the
key there answers that slot. -/
theorem search_eq_found {slots : Nat → Slot K V} {k : K} {path : Nat → Nat} {n m : Nat} {v : V}
    (hm : m < n) (hpass : ∀ l < m, Passes k (slots (path l)))
    (hs : slots (path m) = .occupied k v) : search slots k path n 0 = (path m, true) := by
  obtain ⟨d, rfl⟩ : ∃ d, n = m + (d + 1) := ⟨n - m - 1, by omega⟩
  rw [search_skip m (d + 1) 0 (fun l _ h2 => hpass l (by omega)), Nat.zero_add]
  simp [search, hs]

end Search

/-! ## Tables

`path k` is the path of key `k` and `n` the number of slots a search may
look at; they stay fixed while the slots change. -/

section Table

variable [DecidableEq K] (path : K → Nat → Nat) (n : Nat)

def probe (slots : Nat → Slot K V) (k : K) : Nat × Bool := search slots k (path k) n 0

/-- Every stored key is found where it is stored. -/
def Findable (slots : Nat → Slot K V) : Prop :=
  ∀ a k v, slots a = .occupied k v → probe path n slots k = (a, true)

/-- The finite map a table stands for. -/
def lookup (slots : Nat → Slot K V) (k : K) : Option V :=
  let r := probe path n slots k
  if r.2 then (slots r.1).value? else none

variable {path n} {slots : Nat → Slot K V}

theorem probe_found {k : K} {a : Nat} (h : probe path n slots k = (a, true)) :
    ∃ m < n, ∃ v, path k m = a ∧ slots a = .occupied k v ∧
      ∀ l < m, Passes k (slots (path k l)) := by
  rcases search_cases slots k (path k) n 0 with ⟨m, v, _, h2, h3, h4, h5⟩ | ⟨m, _, _, h3, _, _⟩ | ⟨h3, _⟩
  · have hm : path k m = a := by
      have := h3.symm.trans h
      exact congrArg Prod.fst this
    exact ⟨m, by omega, v, hm, hm ▸ h4, fun l hl => h5 l (Nat.zero_le l) hl⟩
  · exact absurd (h3.symm.trans h) (by simp)
  · exact absurd (h3.symm.trans h) (by simp)

/-- An unsuccessful search ends at the first empty slot of the path, or
passes the whole path. -/
theorem probe_missed {k : K} {a : Nat} (h : probe path n slots k = (a, false)) :
    (∃ m < n, path k m = a ∧ slots a = .empty ∧ ∀ l < m, Passes k (slots (path k l))) ∨
    (path k n = a ∧ ∀ l < n, Passes k (slots (path k l))) := by
  rcases search_cases slots k (path k) n 0 with ⟨m, v, _, _, h3, _, _⟩ | ⟨m, _, h2, h3, h4, h5⟩ | ⟨h3, h5⟩
  · exact absurd (h3.symm.trans h) (by simp)
  · have hm : path k m = a := congrArg Prod.fst (h3.symm.trans h)
    exact Or.inl ⟨m, by omega, hm, hm ▸ h4, fun l hl => h5 l (Nat.zero_le l) hl⟩
  · have hn : path k n = a := by
      have := congrArg Prod.fst (h3.symm.trans h)
      rwa [Nat.zero_add] at this
    exact Or.inr ⟨hn, fun l hl => h5 l (Nat.zero_le l) (by omega)⟩

/-- A stored key is found at once or never: no search misses it. -/
theorem Findable.ne_of_missed (hF : Findable path n slots) {k : K} {a : Nat}
    (h : probe path n slots k = (a, false)) (b : Nat) (v : V) : slots b ≠ .occupied k v := by
  intro hb
  have := (hF b k v hb).symm.trans h
  simp at this

theorem lookup_eq_some_iff (hF : Findable path n slots) {k : K} {v : V} :
    lookup path n slots k = some v ↔ ∃ a, slots a = .occupied k v := by
  unfold lookup
  constructor
  · intro h
    cases hp : probe path n slots k with
    | mk a b =>
      cases b with
      | false => simp [hp] at h
      | true =>
        obtain ⟨m, _, w, _, hw, _⟩ := probe_found hp
        simp only [hp, if_true, hw, Slot.value?, Option.some.injEq] at h
        exact ⟨a, by rw [hw, h]⟩
  · rintro ⟨a, ha⟩
    simp [hF a k v ha, ha, Slot.value?]

/-- Two tables with the same occupied pairs stand for the same map. -/
theorem lookup_eq_of_iff {slots' : Nat → Slot K V} {n' : Nat} {path' : K → Nat → Nat}
    (hF : Findable path n slots) (hF' : Findable path' n' slots') {k : K}
    (h : ∀ v, (∃ a, slots' a = .occupied k v) ↔ ∃ a, slots a = .occupied k v) :
    lookup path' n' slots' k = lookup path n slots k := by
  apply Option.ext
  intro v
  rw [lookup_eq_some_iff hF', lookup_eq_some_iff hF]
  exact h v

theorem lookup_eq_none_iff (hF : Findable path n slots) {k : K} :
    lookup path n slots k = none ↔ ∀ a v, slots a ≠ .occupied k v := by
  constructor
  · intro h a v ha
    have := (lookup_eq_some_iff hF).mpr ⟨a, ha⟩
    rw [h] at this
    simp at this
  · intro h
    cases hl : lookup path n slots k with
    | none => rfl
    | some v =>
      obtain ⟨a, ha⟩ := (lookup_eq_some_iff hF).mp hl
      exact absurd ha (h a v)

/-- A key is stored in one slot only. -/
theorem Findable.unique (hF : Findable path n slots) {k : K} {a b : Nat} {v w : V}
    (ha : slots a = .occupied k v) (hb : slots b = .occupied k w) : a = b := by
  have := (hF a k v ha).symm.trans (hF b k w hb)
  exact congrArg Prod.fst this

/-! ### Updates -/

/-- Changing one slot leaves a key findable when its search still passes
that slot. -/
theorem probe_update {k : K} {a b : Nat} {s : Slot K V} (hb : probe path n slots k = (b, true))
    (hne : b ≠ a) (hs : Passes k s) :
    probe path n (Function.update slots a s) k = (b, true) := by
  obtain ⟨m, hm, v, rfl, hv, hpass⟩ := probe_found hb
  apply search_eq_found hm
  · intro l hl
    by_cases hla : path k l = a
    · rw [hla, Function.update_self]
      exact hs
    · rw [Function.update_of_ne hla]
      exact hpass l hl
  · rw [Function.update_of_ne hne]
    exact hv

theorem Findable.delete (hF : Findable path n slots) (a : Nat) :
    Findable path n (Function.update slots a .deleted) := by
  intro b k v hb
  by_cases hba : b = a
  · subst hba
    simp at hb
  · rw [Function.update_of_ne hba] at hb
    exact probe_update (hF b k v hb) hba (passes_deleted k)

theorem Findable.replace (hF : Findable path n slots) {a : Nat} {k : K} {v : V}
    (ha : slots a = .occupied k v) (v' : V) :
    Findable path n (Function.update slots a (.occupied k v')) := by
  intro b k' w hb
  by_cases hba : b = a
  · subst hba
    rw [Function.update_self] at hb
    obtain ⟨rfl, rfl⟩ := Slot.occupied.inj hb
    obtain ⟨m, hm, u, rfl, hu, hpass⟩ := probe_found (hF b k v ha)
    apply search_eq_found hm
    · intro l hl
      by_cases hla : path k l = path k m
      · exact absurd (hla ▸ hu) ((hpass l hl).2 u)
      · rw [Function.update_of_ne hla]
        exact hpass l hl
    · rw [Function.update_self]
  · rw [Function.update_of_ne hba] at hb
    have hk : k ≠ k' := by
      rintro rfl
      exact hba (hF.unique hb ha)
    exact probe_update (hF b k' w hb) hba (passes_occupied hk v')

/-- The slot a missed search hands back is reached by the walk, and
nothing before its first occurrence stops the walk. -/
theorem probe_missed_first {k : K} {a : Nat} (hn : 0 < n) (hlast : path k n = path k (n - 1))
    (h : probe path n slots k = (a, false)) :
    ∃ m < n, path k m = a ∧ ∀ l < m, path k l ≠ a ∧ Passes k (slots (path k l)) := by
  rcases probe_missed h with ⟨m, hm, hma, he, hpass⟩ | ⟨hna, hpass⟩
  · refine ⟨m, hm, hma, fun l hl => ⟨?_, hpass l hl⟩⟩
    intro hla
    exact (hpass l hl).1 (hla ▸ he)
  · -- the walk passed its whole path: take the first time it met the slot
    have hex : ∃ m, path k m = a := ⟨n - 1, by rw [← hlast, hna]⟩
    refine ⟨Nat.find hex, ?_, Nat.find_spec hex, ?_⟩
    · exact lt_of_le_of_lt (Nat.find_min' hex (by rw [← hlast, hna])) (by omega)
    · intro l hl
      refine ⟨Nat.find_min hex hl, hpass l ?_⟩
      have := Nat.find_min' hex (m := n - 1) (by rw [← hlast, hna])
      omega

theorem Findable.insert (hF : Findable path n slots) {a : Nat} {k : K} (hn : 0 < n)
    (hlast : path k n = path k (n - 1)) (h : probe path n slots k = (a, false)) (v : V) :
    Findable path n (Function.update slots a (.occupied k v)) := by
  intro b k' w hb
  by_cases hba : b = a
  · subst hba
    rw [Function.update_self] at hb
    obtain ⟨rfl, rfl⟩ := Slot.occupied.inj hb
    obtain ⟨m, hm, rfl, hpass⟩ := probe_missed_first hn hlast h
    apply search_eq_found hm
    · intro l hl
      rw [Function.update_of_ne (hpass l hl).1]
      exact (hpass l hl).2
    · rw [Function.update_self]
  · rw [Function.update_of_ne hba] at hb
    have hk : k ≠ k' := by
      rintro rfl
      exact hF.ne_of_missed h b w hb
    exact probe_update (hF b k' w hb) hba (passes_occupied hk v)

theorem lookup_delete (hF : Findable path n slots) {a : Nat} {k : K} {v : V}
    (ha : slots a = .occupied k v) (k' : K) :
    lookup path n (Function.update slots a .deleted) k'
      = if k' = k then none else lookup path n slots k' := by
  split
  · subst k'
    rw [lookup_eq_none_iff (hF.delete a)]
    intro b w hb
    by_cases hba : b = a
    · subst hba
      simp at hb
    · rw [Function.update_of_ne hba] at hb
      exact hba (hF.unique hb ha)
  · rename_i hk
    apply lookup_eq_of_iff hF (hF.delete a)
    intro w
    constructor
    · rintro ⟨b, hb⟩
      by_cases hba : b = a
      · subst hba
        simp at hb
      · exact ⟨b, by rwa [Function.update_of_ne hba] at hb⟩
    · rintro ⟨b, hb⟩
      have hba : b ≠ a := by
        rintro rfl
        exact hk (Slot.occupied.inj (hb.symm.trans ha)).1
      exact ⟨b, by rwa [Function.update_of_ne hba]⟩

/-- A slot filled with `(k, v)`, whatever stood in it: `k` now has `v`,
the key that stood there is gone, every other key is as before. -/
theorem lookup_fill (hF : Findable path n slots) {a : Nat} {k : K} {v : V}
    (hF' : Findable path n (Function.update slots a (.occupied k v))) (k' : K) :
    lookup path n (Function.update slots a (.occupied k v)) k'
      = if k' = k then some v
        else if (slots a).key? = some k' then none else lookup path n slots k' := by
  split
  · subst k'
    rw [lookup_eq_some_iff hF']
    exact ⟨a, Function.update_self ..⟩
  · rename_i hk
    have hother : ∀ b w, Function.update slots a (.occupied k v) b = .occupied k' w →
        b ≠ a ∧ slots b = .occupied k' w := by
      intro b w hb
      by_cases hba : b = a
      · subst hba
        rw [Function.update_self] at hb
        exact absurd (Slot.occupied.inj hb).1.symm hk
      · exact ⟨hba, by rwa [Function.update_of_ne hba] at hb⟩
    split
    · rename_i hex
      obtain ⟨w, hw⟩ := Slot.key?_eq_some.mp hex
      rw [lookup_eq_none_iff hF']
      intro b u hb
      obtain ⟨hba, hb'⟩ := hother b u hb
      exact hba (hF.unique hb' hw)
    · rename_i hex
      apply lookup_eq_of_iff hF hF'
      intro w
      constructor
      · rintro ⟨b, hb⟩
        exact ⟨b, (hother b w hb).2⟩
      · rintro ⟨b, hb⟩
        have hba : b ≠ a := by
          rintro rfl
          exact hex (Slot.key?_eq_some.mpr ⟨w, hb⟩)
        exact ⟨b, by rwa [Function.update_of_ne hba]⟩

theorem lookup_replace (hF : Findable path n slots) {a : Nat} {k : K} {v : V}
    (ha : slots a = .occupied k v) (v' : V) (k' : K) :
    lookup path n (Function.update slots a (.occupied k v')) k'
      = if k' = k then some v' else lookup path n slots k' := by
  rw [lookup_fill hF (hF.replace ha v')]
  by_cases hk : k' = k
  · simp [hk]
  · simp [hk, ha, Slot.key?, Ne.symm hk]

end Table

end OpenAddressing

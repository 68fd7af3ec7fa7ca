/-
AntzKV.Lib.ChainedTable — separate chaining as a finite map.

A table is a list of buckets, a bucket a list of entries, and an entry
with key `k` belongs into bucket `hash k % length`. `Chained` says that
every entry is at home and that no key occurs twice. `Represents` adds
what the table is for: the entries are those of a finite map, given as a
function. The operations on a bucket are appending an entry, changing the
value of one and dropping one, and each is an update of the map.
-/
import Mathlib

namespace ChainedTable

variable {α β : Type}

/-- The bucket a key belongs into. -/
def home (hash : α → Nat) (bs : List (List (α × β))) (k : α) : Nat := hash k % bs.length

structure Chained (hash : α → Nat) (bs : List (List (α × β))) : Prop where
  pos : 0 < bs.length
  homed : ∀ i b, bs[i]? = some b → ∀ n ∈ b, home hash bs n.1 = i
  nodup : (bs.flatten.map Prod.fst).Nodup

/-- The entries are those of the map `m`. -/
structure Represents (hash : α → Nat) (bs : List (List (α × β))) (m : α → Option β) : Prop
    extends Chained hash bs where
  entries : ∀ k v, (k, v) ∈ bs.flatten ↔ m k = some v

variable {hash : α → Nat} {bs : List (List (α × β))} {m : α → Option β}

/-- The table with nothing in it. -/
theorem represents_replicate (hash : α → Nat) {n : Nat} (hn : 0 < n) :
    Represents hash (List.replicate n ([] : List (α × β))) fun _ => none := by
  refine ⟨⟨by simpa using hn, ?_, by simp⟩, by simp⟩
  intro i b hb e he
  obtain rfl := List.eq_of_mem_replicate (List.mem_of_getElem? hb)
  exact absurd he List.not_mem_nil

/-- The bucket of a key, between buckets that do not hold the key. -/
theorem Chained.split (h : Chained hash bs) (k : α) :
    ∃ pre b post, bs = pre ++ b :: post ∧ pre.length = home hash bs k ∧
      (∀ n ∈ pre.flatten, n.1 ≠ k) ∧ ∀ n ∈ post.flatten, n.1 ≠ k := by
  have hlt : home hash bs k < bs.length := Nat.mod_lt _ h.pos
  refine ⟨bs.take (home hash bs k), bs[home hash bs k], bs.drop (home hash bs k + 1), ?_, ?_, ?_, ?_⟩
  · rw [← List.drop_eq_getElem_cons hlt, List.take_append_drop]
  · rw [List.length_take]
    omega
  · intro n hn hk
    obtain ⟨b, hb, hnb⟩ := List.mem_flatten.mp hn
    obtain ⟨i, hi, rfl⟩ := List.getElem_of_mem hb
    rw [List.length_take] at hi
    rw [List.getElem_take] at hnb
    have := h.homed i _ (List.getElem?_eq_getElem (by omega)) n hnb
    rw [hk] at this
    omega
  · intro n hn hk
    obtain ⟨b, hb, hnb⟩ := List.mem_flatten.mp hn
    obtain ⟨i, hi, rfl⟩ := List.getElem_of_mem hb
    rw [List.length_drop] at hi
    rw [List.getElem_drop] at hnb
    have := h.homed _ _ (List.getElem?_eq_getElem (by omega)) n hnb
    rw [hk] at this
    omega

/-- A changed bucket keeps the table chained if it holds only what belongs
there and no key twice. -/
theorem Chained.set (h : Chained hash bs) {k : α} {b : List (α × β)}
    (hb : ∀ n ∈ b, home hash bs n.1 = home hash bs k)
    (hnodup : ((bs.set (home hash bs k) b).flatten.map Prod.fst).Nodup) :
    Chained hash (bs.set (home hash bs k) b) := by
  refine ⟨by simpa using h.pos, ?_, hnodup⟩
  intro i c hc n hn
  have hhome : home hash (bs.set (home hash bs k) b) n.1 = home hash bs n.1 := by simp [home]
  rw [hhome]
  by_cases hi : home hash bs k = i
  · rw [List.getElem?_set, if_pos hi] at hc
    split at hc
    · cases hc
      rw [hb n hn, hi]
    · cases hc
  · rw [List.getElem?_set_ne hi] at hc
    exact h.homed i c hc n hn

/-- What a change of one bucket does to the entries in their order. -/
theorem Chained.exists_flatten_set (h : Chained hash bs) (k : α) :
    ∃ pre post, bs.flatten = pre ++ (bs.getD (home hash bs k) [] ++ post) ∧
      (∀ b, (bs.set (home hash bs k) b).flatten = pre ++ (b ++ post)) ∧
      (∀ n ∈ pre, n.1 ≠ k) ∧ ∀ n ∈ post, n.1 ≠ k := by
  obtain ⟨pre, b, post, hbs, hlen, hpre, hpost⟩ := h.split k
  refine ⟨pre.flatten, post.flatten, ?_, ?_, hpre, hpost⟩
  · rw [List.getD_eq_getElem?_getD, ← hlen, hbs]
    simp
  · intro c
    rw [← hlen, hbs]
    simp

theorem Chained.homed_bucket (h : Chained hash bs) (k : α) :
    ∀ n ∈ bs.getD (home hash bs k) [], home hash bs n.1 = home hash bs k := by
  have hlt : home hash bs k < bs.length := Nat.mod_lt _ h.pos
  intro n hn
  rw [List.getD_eq_getElem?_getD, List.getElem?_eq_getElem hlt, Option.getD_some] at hn
  exact h.homed _ _ (List.getElem?_eq_getElem hlt) n hn

/-! ## Looking a key up -/

section Ops

variable [DecidableEq α]

theorem find?_of_mem_of_nodup {l : List (α × β)} (hnodup : (l.map Prod.fst).Nodup) {k : α} {v : β}
    (hmem : (k, v) ∈ l) : l.find? (fun n => n.1 = k) = some (k, v) := by
  induction l with
  | nil => exact absurd hmem List.not_mem_nil
  | cons n l ih =>
    rw [List.map_cons, List.nodup_cons] at hnodup
    rcases List.mem_cons.mp hmem with rfl | hmem
    · simp
    · have hne : n.1 ≠ k := by
        rintro rfl
        exact hnodup.1 (List.mem_map.mpr ⟨_, hmem, rfl⟩)
      rw [List.find?_cons_of_neg (by simpa using hne)]
      exact ih hnodup.2 hmem

/-- Searching the bucket of a key answers the map. -/
theorem Represents.find? (h : Represents hash bs m) (k : α) :
    ((bs.getD (home hash bs k) []).find? fun n => n.1 = k) = (m k).map fun v => (k, v) := by
  obtain ⟨pre, post, hflat, -, hpre, hpost⟩ := h.exists_flatten_set k
  cases hm : m k with
  | none =>
    rw [Option.map_none, List.find?_eq_none]
    intro n hn hk
    have hin : n ∈ bs.flatten := by
      rw [hflat, List.mem_append, List.mem_append]
      exact Or.inr (Or.inl hn)
    have hmk := (h.entries n.1 n.2).mp hin
    rw [of_decide_eq_true hk, hm] at hmk
    cases hmk
  | some v =>
    have hin := (h.entries k v).mpr hm
    rw [hflat, List.mem_append, List.mem_append] at hin
    have hbk : (k, v) ∈ bs.getD (home hash bs k) [] := by
      rcases hin with hin | hin | hin
      · exact absurd rfl (hpre _ hin)
      · exact hin
      · exact absurd rfl (hpost _ hin)
    have hnodup := h.nodup
    rw [hflat, List.map_append, List.map_append] at hnodup
    exact find?_of_mem_of_nodup (hnodup.of_append_right.of_append_left) hbk

/-! ## Changing an entry -/

/-- A new entry at the end of its bucket. -/
theorem Represents.insert (h : Represents hash bs m) {k : α} (hk : m k = none) (v : β) :
    let bs' := bs.set (home hash bs k) (bs.getD (home hash bs k) [] ++ [(k, v)])
    Represents hash bs' (Function.update m k (some v)) ∧
      bs'.flatten.length = bs.flatten.length + 1 := by
  intro bs'
  obtain ⟨pre, post, hflat, hset, -, -⟩ := h.exists_flatten_set k
  have hperm : bs'.flatten.Perm ((k, v) :: bs.flatten) := by
    rw [hset, hflat, List.append_assoc, ← List.append_assoc, ← List.append_assoc pre]
    exact List.perm_middle
  have habsent : k ∉ bs.flatten.map Prod.fst := by
    intro hin
    obtain ⟨n, hn, rfl⟩ := List.mem_map.mp hin
    rw [(h.entries n.1 n.2).mp hn] at hk
    cases hk
  refine ⟨⟨h.toChained.set ?_ ?_, ?_⟩, ?_⟩
  · intro n hn
    rcases List.mem_append.mp hn with hn | hn
    · exact h.homed_bucket k n hn
    · rw [List.mem_singleton.mp hn]
  · rw [(hperm.map Prod.fst).nodup_iff, List.map_cons, List.nodup_cons]
    exact ⟨habsent, h.nodup⟩
  · intro k' v'
    rw [hperm.mem_iff, List.mem_cons]
    by_cases hkk : k' = k
    · subst hkk
      rw [Function.update_self, h.entries, hk]
      simp [eq_comm]
    · rw [Function.update_of_ne hkk, h.entries]
      simp [hkk]
  · rw [hperm.length_eq, List.length_cons]

/-- A new value for an entry that is there. -/
theorem Represents.replace (h : Represents hash bs m) {k : α} (hk : m k ≠ none) (v : β) :
    let bs' := bs.set (home hash bs k)
      ((bs.getD (home hash bs k) []).map fun n => if n.1 = k then (n.1, v) else n)
    Represents hash bs' (Function.update m k (some v)) ∧
      bs'.flatten.length = bs.flatten.length := by
  intro bs'
  obtain ⟨pre, post, hflat, hset, hpre, hpost⟩ := h.exists_flatten_set k
  have hkeep : ∀ l : List (α × β), (∀ n ∈ l, n.1 ≠ k) →
      l.map (fun n => if n.1 = k then (n.1, v) else n) = l := by
    intro l hl
    conv_rhs => rw [← List.map_id l]
    exact List.map_congr_left fun n hn => if_neg (hl n hn)
  have hmap : bs'.flatten = bs.flatten.map fun n => if n.1 = k then (n.1, v) else n := by
    rw [hset, hflat, List.map_append, List.map_append, hkeep pre hpre, hkeep post hpost]
  have hkeys : bs'.flatten.map Prod.fst = bs.flatten.map Prod.fst := by
    rw [hmap, List.map_map]
    refine List.map_congr_left fun n _ => ?_
    by_cases hn : n.1 = k <;> simp [hn]
  refine ⟨⟨h.toChained.set ?_ ?_, ?_⟩, ?_⟩
  · intro n hn
    obtain ⟨n', hn', rfl⟩ := List.mem_map.mp hn
    by_cases hk' : n'.1 = k
    · simp [hk']
    · simpa [hk'] using h.homed_bucket k n' hn'
  · rw [hkeys]
    exact h.nodup
  · intro k' v'
    rw [hmap, List.mem_map]
    constructor
    · rintro ⟨n, hn, hnv⟩
      by_cases hnk : n.1 = k
      · rw [if_pos hnk] at hnv
        obtain ⟨rfl, rfl⟩ := Prod.mk.inj hnv
        rw [hnk, Function.update_self]
      · rw [if_neg hnk] at hnv
        subst hnv
        rw [Function.update_of_ne hnk]
        exact (h.entries k' v').mp hn
    · intro hm
      by_cases hkk : k' = k
      · subst hkk
        rw [Function.update_self] at hm
        obtain ⟨w, hw⟩ := Option.ne_none_iff_exists'.mp hk
        refine ⟨(k', w), (h.entries k' w).mpr hw, ?_⟩
        rw [if_pos rfl, Option.some.inj hm]
      · rw [Function.update_of_ne hkk] at hm
        exact ⟨(k', v'), (h.entries k' v').mpr hm, if_neg hkk⟩
  · rw [hmap, List.length_map]

theorem mem_eraseP_of_nodup {l : List (α × β)} (hnodup : (l.map Prod.fst).Nodup) {k k' : α} {v : β} :
    (k', v) ∈ l.eraseP (fun n => n.1 = k) ↔ k' ≠ k ∧ (k', v) ∈ l := by
  induction l with
  | nil => simp
  | cons n l ih =>
    rw [List.map_cons, List.nodup_cons] at hnodup
    by_cases hn : n.1 = k
    · rw [List.eraseP_cons_of_pos (by simpa using hn), List.mem_cons]
      constructor
      · intro hin
        refine ⟨?_, Or.inr hin⟩
        rintro rfl
        exact hnodup.1 (List.mem_map.mpr ⟨_, hin, hn.symm⟩)
      · rintro ⟨hne, rfl | hin⟩
        · exact absurd hn hne
        · exact hin
    · rw [List.eraseP_cons_of_neg (by simpa using hn), List.mem_cons, List.mem_cons, ih hnodup.2]
      constructor
      · rintro (rfl | ⟨hne, hin⟩)
        · exact ⟨hn, Or.inl rfl⟩
        · exact ⟨hne, Or.inr hin⟩
      · rintro ⟨hne, rfl | hin⟩
        · exact Or.inl rfl
        · exact Or.inr ⟨hne, hin⟩

/-- An entry taken out. -/
theorem Represents.erase (h : Represents hash bs m) {k : α} (hk : m k ≠ none) :
    let bs' := bs.set (home hash bs k)
      ((bs.getD (home hash bs k) []).eraseP fun n => n.1 = k)
    Represents hash bs' (Function.update m k none) ∧
      bs'.flatten.length + 1 = bs.flatten.length := by
  intro bs'
  obtain ⟨pre, post, hflat, hset, hpre, hpost⟩ := h.exists_flatten_set k
  obtain ⟨v, hv⟩ := Option.ne_none_iff_exists'.mp hk
  have hin : (k, v) ∈ bs.flatten := (h.entries k v).mpr hv
  have hbk : (k, v) ∈ bs.getD (home hash bs k) [] := by
    rw [hflat, List.mem_append, List.mem_append] at hin
    rcases hin with hin | hin | hin
    · exact absurd rfl (hpre _ hin)
    · exact hin
    · exact absurd rfl (hpost _ hin)
  have herase : bs'.flatten = bs.flatten.eraseP fun n => n.1 = k := by
    rw [hset, hflat, List.eraseP_append_right _ (by simpa using hpre),
      List.eraseP_append_left (by simp) _ hbk]
  refine ⟨⟨h.toChained.set ?_ ?_, ?_⟩, ?_⟩
  · intro n hn
    exact h.homed_bucket k n (List.mem_of_mem_eraseP hn)
  · rw [herase]
    exact h.nodup.sublist (List.eraseP_sublist.map Prod.fst)
  · intro k' v'
    rw [herase, mem_eraseP_of_nodup h.nodup, h.entries]
    by_cases hkk : k' = k
    · simp [hkk]
    · simp [hkk]
  · rw [herase, List.length_eraseP_of_mem hin (by simp)]
    have := List.length_pos_of_mem hin
    omega

end Ops

end ChainedTable

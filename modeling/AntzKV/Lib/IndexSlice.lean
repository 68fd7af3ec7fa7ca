/-
AntzKV.Lib.IndexSlice — positions in a list.

`slice l start stop` has the elements of `l` from position `start` to
position `stop`, where a negative bound counts from the end; it is given
by its positions, and `slice_eq` has it as a `take` of a `drop`.

`getElem?_takeWhile` says what stands behind the longest beginning of a
list that passes a test. On a sorted list with the test "less than the key
of `x`" it is an element with the key of `x`, read from either end.
-/
import Mathlib

namespace IndexSlice

variable {α : Type}

/-- A position among `n`; a negative one counts from the end. -/
def fromFront (n : Nat) (i : Int) : Int := if i < 0 then i + n else i

/-- The elements at the positions from `start` to `stop`. -/
def slice (l : List α) (start stop : Int) : List α :=
  (l.zipIdx.filter fun x =>
    fromFront l.length start ≤ x.2 ∧ x.2 ≤ fromFront l.length stop).map Prod.fst

/-- The positions of an interval, in a list whose first position is `off`. -/
theorem filter_zipIdx (a b : Int) (l : List α) (off : Nat) :
    ((l.zipIdx off).filter fun x => a ≤ x.2 ∧ x.2 ≤ b).map Prod.fst
      = (l.drop (a - off).toNat).take (b + 1 - max a off).toNat := by
  induction l generalizing off with
  | nil => simp
  | cons x l ih =>
    rw [List.zipIdx_cons, List.filter_cons]
    by_cases ha : a ≤ off
    · have hskip : (a - (off : Int)).toNat = 0 := by omega
      have hskip' : (a - ((off + 1 : Nat) : Int)).toNat = 0 := by omega
      by_cases hb : (off : Int) ≤ b
      · obtain ⟨k, hk⟩ : ∃ k, (b + 1 - max a (off : Int)).toNat = k + 1 :=
          ⟨(b - off).toNat, by omega⟩
        have hk' : (b + 1 - max a ((off + 1 : Nat) : Int)).toNat = k := by omega
        rw [if_pos (by simp [ha, hb]), List.map_cons, ih, hskip, hskip', hk, hk']
        rfl
      · have hnone : (b + 1 - max a (off : Int)).toNat = 0 := by omega
        have hnone' : (b + 1 - max a ((off + 1 : Nat) : Int)).toNat = 0 := by omega
        rw [if_neg (by simp [hb]), ih, hnone, hnone', List.take_zero, List.take_zero]
    · obtain ⟨k, hk⟩ : ∃ k, (a - (off : Int)).toNat = k + 1 := ⟨(a - off - 1).toNat, by omega⟩
      have hk' : (a - ((off + 1 : Nat) : Int)).toNat = k := by omega
      have hmax : max a ((off + 1 : Nat) : Int) = max a (off : Int) := by omega
      rw [if_neg (by simp [ha]), ih, hk, hk', hmax, List.drop_succ_cons]

theorem slice_eq (l : List α) (start stop : Int) :
    slice l start stop = (l.drop (fromFront l.length start).toNat).take
      (fromFront l.length stop + 1 - max (fromFront l.length start) 0).toNat := by
  have h := filter_zipIdx (fromFront l.length start) (fromFront l.length stop) l 0
  rwa [Nat.cast_zero, sub_zero] at h

/-- The same with both bounds brought into the list, where an empty one
before the first position is -1. -/
theorem slice_eq_clamped (l : List α) (start stop : Int) {a b : Int}
    (ha : a = min (max (fromFront l.length start) 0) l.length)
    (hb : b = min (max (fromFront l.length stop) (-1)) (l.length - 1)) :
    slice l start stop = if b < a then [] else (l.drop a.toNat).take (b - a + 1).toNat := by
  rw [slice_eq]
  generalize fromFront l.length start = i at *
  generalize fromFront l.length stop = j at *
  by_cases hlt : b < a
  · rw [if_pos hlt]
    by_cases hi : (l.length : Int) ≤ max i 0
    · rw [List.drop_eq_nil_of_le (by omega), List.take_nil]
    · have hnone : (j + 1 - max i 0).toNat = 0 := by omega
      rw [hnone, List.take_zero]
  · have hfirst : i.toNat = a.toNat := by omega
    rw [if_neg hlt, hfirst]
    by_cases hj : j ≤ l.length - 1
    · have hcount : (j + 1 - max i 0).toNat = (b - a + 1).toNat := by omega
      rw [hcount]
    · -- both bounds take the rest of the list
      have hrest : (l.drop a.toNat).length = l.length - a.toNat := List.length_drop
      rw [List.take_of_length_le (by omega), List.take_of_length_le (by omega)]

theorem slice_self {l : List α} {i : Nat} {x : α} (h : l[i]? = some x) : slice l i i = [x] := by
  obtain ⟨hlt, hx⟩ := List.getElem?_eq_some_iff.mp h
  have hnorm : fromFront l.length (i : Int) = i := if_neg (by omega)
  have hone : ((i : Int) + 1 - max (i : Int) 0).toNat = 1 := by omega
  rw [slice_eq, hnorm, hone, Int.toNat_natCast, List.drop_eq_getElem_cons hlt, hx]
  rfl

/-- What stands behind the elements that pass a test, seen from an `x`
that does not pass it. -/
theorem getElem?_takeWhile {p : α → Bool} {R : α → α → Prop} {l : List α} {x : α}
    (hR : l.Pairwise R) (hx : x ∈ l) (hp : p x = false) :
    ∃ y, l[(l.takeWhile p).length]? = some y ∧ p y = false ∧ (x = y ∨ R y x) := by
  induction l with
  | nil => cases hx
  | cons z l ih =>
    obtain ⟨hz, hl⟩ := List.pairwise_cons.mp hR
    cases hpz : p z with
    | true =>
      have hne : x ≠ z := by
        rintro rfl
        rw [hp] at hpz
        cases hpz
      have hxl : x ∈ l := (List.mem_cons.mp hx).resolve_left hne
      rw [List.takeWhile_cons_of_pos hpz, List.length_cons, List.getElem?_cons_succ]
      exact ih hl hxl
    | false =>
      have hstop : (z :: l).takeWhile p = [] := List.takeWhile_cons_of_neg (by simp [hpz])
      rw [hstop]
      refine ⟨z, rfl, hpz, ?_⟩
      rcases List.mem_cons.mp hx with rfl | hxl
      · exact Or.inl rfl
      · exact Or.inr (hz x hxl)

section Rank

variable {κ : Type} [LinearOrder κ] {key : α → κ} {l : List α} {x : α}

/-- The number of lower elements is the position of an equal one. -/
theorem getElem?_rank (hsorted : l.Pairwise fun a b => key a ≤ key b) (hx : x ∈ l) :
    ∃ y, l[(l.takeWhile fun a => key a < key x).length]? = some y ∧ key y = key x := by
  obtain ⟨y, hy, hlow, hxy⟩ :=
    getElem?_takeWhile (p := fun a => decide (key a < key x)) hsorted hx (by simp)
  refine ⟨y, hy, le_antisymm ?_ (not_lt.mp (of_decide_eq_false hlow))⟩
  rcases hxy with rfl | hxy
  · exact le_rfl
  · exact hxy

/-- The same from the other end. -/
theorem getElem?_revrank (hsorted : l.Pairwise fun a b => key a ≤ key b) (hx : x ∈ l) :
    ∃ y, l.reverse[(l.reverse.takeWhile fun a => key x < key a).length]? = some y ∧
      key y = key x := by
  obtain ⟨y, hy, hhigh, hxy⟩ :=
    getElem?_takeWhile (p := fun a => decide (key x < key a)) (List.pairwise_reverse.mpr hsorted)
      (List.mem_reverse.mpr hx) (by simp)
  refine ⟨y, hy, le_antisymm (not_lt.mp (of_decide_eq_false hhigh)) ?_⟩
  rcases hxy with rfl | hxy
  · exact le_rfl
  · exact hxy

end Rank

end IndexSlice

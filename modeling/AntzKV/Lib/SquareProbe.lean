/-
AntzKV.Lib.SquareProbe — the probe sequence whose n-th step advances by
`n²`, over a table whose size is a power of two.

The slot reached after `n` steps is `home + (1² + 2² + … + n²)`, so the
offsets are 0, 1, 5, 14, 30, … . This is NOT the textbook quadratic
sequence `home + n²`, and its first `cap` slots do not cover the table.
What they do cover is at least half of it: along the EVEN steps the
offset is `k(2k+1)(4k+1)/3`, a permutation polynomial modulo every power
of two, so no two even steps below `cap` meet (`slot_even_injOn`).

`exists_slot_notMem` is the form a hash table wants: a set of fewer than
`cap / 2` slots cannot contain the whole walk.
-/
import Mathlib

namespace SquareProbe

/-- The offset of the walk after `n` steps. -/
def sqSum : Nat → Nat
  | 0 => 0
  | n + 1 => sqSum n + (n + 1) * (n + 1)

/-- The slot the walk from `home` stands on after `n` steps. -/
def slot (cap home n : Nat) : Nat := (home + sqSum n) % cap

theorem slot_lt {cap : Nat} (hcap : 0 < cap) (home n : Nat) : slot cap home n < cap :=
  Nat.mod_lt _ hcap

theorem slot_succ (cap home n : Nat) :
    slot cap home (n + 1) = (slot cap home n + (n + 1) * (n + 1)) % cap := by
  simp only [slot, sqSum]
  rw [Nat.mod_add_mod, Nat.add_assoc]

/-- The `cap`-th step adds a multiple of `cap`: the walk that is stopped
after `cap` steps stands on the slot it looked at last. -/
theorem slot_cap (home n : Nat) : slot (n + 1) home (n + 1) = slot (n + 1) home n := by
  rw [slot_succ, Nat.add_mul_mod_self_left]
  exact Nat.mod_eq_of_lt (slot_lt (Nat.succ_pos n) home n)

/-! ## The even steps -/

theorem six_mul_sqSum (n : Nat) : 6 * sqSum n = n * (n + 1) * (2 * n + 1) := by
  induction n with
  | zero => rfl
  | succ n ih =>
    rw [sqSum, Nat.mul_add, ih]
    ring

theorem three_mul_sqSum_even (k : Nat) :
    3 * sqSum (2 * k) = k * (2 * k + 1) * (4 * k + 1) := by
  have h := six_mul_sqSum (2 * k)
  have h2 : 2 * (3 * sqSum (2 * k)) = 2 * (k * (2 * k + 1) * (4 * k + 1)) := by
    calc 2 * (3 * sqSum (2 * k)) = 6 * sqSum (2 * k) := by ring
      _ = 2 * (k * (2 * k + 1) * (4 * k + 1)) := by rw [h]; ring
  exact Nat.eq_of_mul_eq_mul_left (by norm_num) h2

/-- A power of two that divides a product with an odd factor divides the
other factor. -/
theorem two_pow_dvd_of_dvd_mul_odd {m : Nat} {x y : ℤ} (hy : y % 2 = 1)
    (h : (2 ^ m : ℤ) ∣ x * y) : (2 ^ m : ℤ) ∣ x := by
  have hc : IsCoprime (2 ^ m : ℤ) y := by
    apply IsCoprime.pow_left
    refine ⟨-(y / 2), 1, ?_⟩
    have := Int.emod_add_mul_ediv y 2
    linarith
  exact hc.dvd_of_dvd_mul_right h

/-- Two even steps below `2 ^ m` never stand on the same slot. -/
theorem slot_even_injOn {m home a b : Nat} (ha : a < 2 ^ m) (hb : b < 2 ^ m)
    (h : slot (2 ^ m) home (2 * a) = slot (2 ^ m) home (2 * b)) : a = b := by
  have hmod : home + sqSum (2 * a) ≡ home + sqSum (2 * b) [MOD 2 ^ m] := h
  have hsum : sqSum (2 * a) ≡ sqSum (2 * b) [MOD 2 ^ m] := Nat.ModEq.add_left_cancel' home hmod
  have hthree : 3 * sqSum (2 * a) ≡ 3 * sqSum (2 * b) [MOD 2 ^ m] := hsum.mul_left 3
  rw [three_mul_sqSum_even, three_mul_sqSum_even] at hthree
  -- the difference of the two polynomial values is `(a - b)` times an odd factor
  have hdvd : (2 ^ m : ℤ) ∣ ((b : ℤ) - a) *
      (8 * ((b : ℤ) ^ 2 + a * b + a ^ 2) + 6 * (b + a) + 1) := by
    have hd := (Nat.modEq_iff_dvd.mp hthree)
    push_cast at hd
    have he : ((b : ℤ) * (2 * b + 1) * (4 * b + 1) - a * (2 * a + 1) * (4 * a + 1))
        = ((b : ℤ) - a) * (8 * ((b : ℤ) ^ 2 + a * b + a ^ 2) + 6 * (b + a) + 1) := by ring
    rwa [he] at hd
  have hodd : (8 * ((b : ℤ) ^ 2 + a * b + a ^ 2) + 6 * (b + a) + 1) % 2 = 1 := by omega
  have hab := two_pow_dvd_of_dvd_mul_odd hodd hdvd
  have hmodab : a ≡ b [MOD 2 ^ m] := Nat.modEq_iff_dvd.mpr (by push_cast; exact hab)
  exact Nat.ModEq.eq_of_lt_of_lt hmodab ha hb

/-! ## Coverage -/

/-- The even steps of the walk, as a set of slots. -/
theorem card_even_slots (m home : Nat) :
    ((Finset.range (2 ^ m)).image fun k => slot (2 ^ (m + 1)) home (2 * k)).card = 2 ^ m := by
  have hinj : Set.InjOn (fun k => slot (2 ^ (m + 1)) home (2 * k)) (Finset.range (2 ^ m)) := by
    intro a ha b hb hab
    have hpow : 2 ^ m < 2 ^ (m + 1) := Nat.pow_lt_pow_right (by norm_num) (Nat.lt_succ_self m)
    have ha' := Finset.mem_range.mp (Finset.mem_coe.mp ha)
    have hb' := Finset.mem_range.mp (Finset.mem_coe.mp hb)
    exact slot_even_injOn (lt_trans ha' hpow) (lt_trans hb' hpow) hab
  rw [Finset.card_image_of_injOn hinj, Finset.card_range]

/-- The first `cap` steps look at no fewer than `cap / 2` slots. -/
theorem le_two_mul_card_slots (m home : Nat) :
    2 ^ m ≤ 2 * ((Finset.range (2 ^ m)).image (slot (2 ^ m) home)).card := by
  cases m with
  | zero => simp
  | succ m =>
    have hsub : ((Finset.range (2 ^ m)).image fun k => slot (2 ^ (m + 1)) home (2 * k)) ⊆
        (Finset.range (2 ^ (m + 1))).image (slot (2 ^ (m + 1)) home) := by
      intro x hx
      obtain ⟨k, hk, rfl⟩ := Finset.mem_image.mp hx
      have hk' := Finset.mem_range.mp hk
      exact Finset.mem_image_of_mem _ (Finset.mem_range.mpr (by rw [pow_succ]; omega))
    calc 2 ^ (m + 1) = 2 * 2 ^ m := pow_succ' 2 m
      _ = 2 * ((Finset.range (2 ^ m)).image fun k => slot (2 ^ (m + 1)) home (2 * k)).card := by
        rw [card_even_slots]
      _ ≤ _ := Nat.mul_le_mul_left 2 (Finset.card_le_card hsub)

/-- Fewer than `cap / 2` slots cannot hold the whole walk. -/
theorem exists_slot_notMem {m : Nat} (home : Nat) (B : Finset Nat) (hB : B.card < 2 ^ m) :
    ∃ n < 2 ^ (m + 1), slot (2 ^ (m + 1)) home n ∉ B := by
  by_contra hall
  push Not at hall
  have hsub : ((Finset.range (2 ^ m)).image fun k => slot (2 ^ (m + 1)) home (2 * k)) ⊆ B := by
    intro x hx
    obtain ⟨k, hk, rfl⟩ := Finset.mem_image.mp hx
    have hk' := Finset.mem_range.mp hk
    exact hall (2 * k) (by rw [pow_succ]; omega)
  have hcard := Finset.card_le_card hsub
  rw [card_even_slots] at hcard
  omega

end SquareProbe

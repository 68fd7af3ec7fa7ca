/-
AntzKV.Lib.ByteCursor — fixed-width integers in a byte stream, and reads
that may run short.

`fread n s` is a read of `n` bytes from what is left of a file: the bytes
and the rest, or `none` when fewer than `n` are left. `fread_take` is the
law of truncation: on a file cut after `k` bytes a field is read whole or
not at all.

`fgets` reads by lines through a buffer, so that a line that does not fit
it comes in several reads.
-/
import Mathlib

namespace ByteCursor

/-- The `w` low bytes of `n`, least significant first. -/
def leBytes : Nat → Nat → List UInt8
  | 0, _ => []
  | w + 1, n => UInt8.ofNat (n % 256) :: leBytes w (n / 256)

def leNat : List UInt8 → Nat
  | [] => 0
  | b :: bs => b.toNat + 256 * leNat bs

def fread (n : Nat) (s : List UInt8) : Option (List UInt8 × List UInt8) :=
  if n ≤ s.length then some (s.take n, s.drop n) else none

/-- What `fgets` puts into a buffer of `n + 1` bytes, and the rest: at most
`n` bytes, up to and with the first newline. -/
def lineTake : Nat → List UInt8 → List UInt8 × List UInt8
  | 0, s => ([], s)
  | _, [] => ([], [])
  | n + 1, b :: s =>
    if b = 10 then ([10], s)
    else
      let (line, rest) := lineTake n s
      (b :: line, rest)

/-- `fgets(line, size, fp)`, `none` at the end of the file. -/
def fgets (size : Nat) (s : List UInt8) : Option (List UInt8 × List UInt8) :=
  if s = [] then none else some (lineTake (size - 1) s)

/-- `while (fgets(line, size, fp))`, with fuel for the number of reads. -/
def fgetsLoop (size : Nat) : Nat → List UInt8 → List (List UInt8)
  | 0, _ => []
  | fuel + 1, s =>
    match fgets size s with
    | none => []
    | some (line, s) => line :: fgetsLoop size fuel s

@[simp] theorem length_leBytes (w n : Nat) : (leBytes w n).length = w := by
  induction w generalizing n with
  | zero => rfl
  | succ w ih => simp [leBytes, ih]

/-- A number that fits is read back. -/
theorem leNat_leBytes {w n : Nat} (h : n < 256 ^ w) : leNat (leBytes w n) = n := by
  induction w generalizing n with
  | zero =>
    simp only [pow_zero, Nat.lt_one_iff] at h
    simp [leBytes, leNat, h]
  | succ w ih =>
    have hdiv : n / 256 < 256 ^ w := by
      rw [Nat.div_lt_iff_lt_mul (by norm_num), ← pow_succ]
      exact h
    have hbyte : (UInt8.ofNat (n % 256)).toNat = n % 256 := by
      rw [UInt8.toNat_ofNat']
      omega
    simp only [leBytes, leNat, ih hdiv, hbyte]
    omega

theorem leNat_lt (bs : List UInt8) : leNat bs < 256 ^ bs.length := by
  induction bs with
  | nil => simp [leNat]
  | cons b bs ih =>
    have hb := b.toNat_lt
    simp only [leNat, List.length_cons, pow_succ]
    omega

/-- A read that succeeds has its bytes from the stream. -/
theorem length_of_fread {n : Nat} {s a rest : List UInt8} (h : fread n s = some (a, rest)) :
    a.length = n ∧ n + rest.length = s.length := by
  unfold fread at h
  split at h
  · rename_i hn
    obtain ⟨rfl, rfl⟩ := Prod.mk.inj (Option.some.inj h)
    rw [List.length_take, List.length_drop]
    omega
  · cases h

theorem fread_append {n : Nat} {a : List UInt8} (ha : a.length = n) (b : List UInt8) :
    fread n (a ++ b) = some (a, b) := by
  subst ha
  simp [fread]

/-- A read that succeeds does so as well when the file goes on. -/
theorem fread_extend {n : Nat} {s a rest : List UInt8} (h : fread n s = some (a, rest))
    (more : List UInt8) : fread n (s ++ more) = some (a, rest ++ more) := by
  unfold fread at h ⊢
  split at h
  · rename_i hn
    obtain ⟨rfl, rfl⟩ := Prod.mk.inj (Option.some.inj h)
    rw [if_pos (by simp only [List.length_append]; omega), List.take_append_of_le_length hn,
      List.drop_append_of_le_length hn]
  · cases h

/-- A field at the start of a truncated file is read whole or not at all. -/
theorem fread_take {n : Nat} {a : List UInt8} (ha : a.length = n) (b : List UInt8) (k : Nat) :
    fread n ((a ++ b).take k) = if n ≤ k then some (a, b.take (k - n)) else none := by
  subst ha
  by_cases h : a.length ≤ k
  · rw [if_pos h, List.take_append, List.take_of_length_le h]
    exact fread_append rfl _
  · rw [if_neg h, fread, if_neg]
    simp only [List.length_take, List.length_append]
    omega

/-- The same, for a read and what is done with it. -/
theorem fread_take_bind {β : Type} {n : Nat} {a : List UInt8} (ha : a.length = n)
    (b : List UInt8) (k : Nat) (f : List UInt8 × List UInt8 → Option β) :
    (fread n ((a ++ b).take k)).bind f = if n ≤ k then f (a, b.take (k - n)) else none := by
  rw [fread_take ha]
  split <;> rfl

/-! ## Lines -/

theorem lineTake_of_short {n : Nat} {l : List UInt8} (hl : (10 : UInt8) ∉ l) (hn : l.length < n)
    (s : List UInt8) : lineTake n (l ++ 10 :: s) = (l ++ [10], s) := by
  induction l generalizing n with
  | nil =>
    cases n with
    | zero => simp at hn
    | succ n => simp [lineTake]
  | cons b l ih =>
    simp only [List.mem_cons, not_or] at hl
    cases n with
    | zero => simp at hn
    | succ n =>
      have hrest := ih hl.2 (by simpa using hn)
      simp [lineTake, Ne.symm hl.1, hrest]

/-- A line that fills the buffer is read without its newline. -/
theorem lineTake_of_long {n : Nat} {l : List UInt8} (hl : (10 : UInt8) ∉ l) (hn : l.length = n)
    (s : List UInt8) : lineTake n (l ++ s) = (l, s) := by
  subst hn
  induction l with
  | nil => rfl
  | cons b l ih =>
    simp only [List.mem_cons, not_or] at hl
    simp [lineTake, Ne.symm hl.1, ih hl.2]

/-- A last line without a newline. -/
theorem lineTake_last {n : Nat} {l : List UInt8} (hl : (10 : UInt8) ∉ l) (hn : l.length ≤ n) :
    lineTake n l = (l, []) := by
  induction l generalizing n with
  | nil => cases n <;> rfl
  | cons b l ih =>
    simp only [List.mem_cons, not_or] at hl
    cases n with
    | zero => simp at hn
    | succ n => simp [lineTake, Ne.symm hl.1, ih hl.2 (by simpa using hn)]

/-- What is collected from the reads of a file is what is collected from
its lines, when every line fits the buffer but for its newline, and a
newline at the end of a line or on its own makes no difference. -/
theorem filterMap_fgetsLoop {β : Type} {size : Nat} (hsize : 2 ≤ size)
    {g : List UInt8 → Option β} (hblank : g [] = none)
    (hnewline : ∀ l, l.length < size → g (l ++ [10]) = g l) :
    ∀ (fuel : Nat) (s : List UInt8), s.length ≤ fuel →
      (∀ l ∈ s.splitOnP (· == 10), l.length < size) →
      (fgetsLoop size fuel s).filterMap g = (s.splitOnP (· == 10)).filterMap g := by
  intro fuel
  induction fuel using Nat.strong_induction_on with
  | _ fuel ih =>
    intro s hfuel hshort
    by_cases hnil : s = []
    · subst hnil
      cases fuel <;> simp [fgetsLoop, fgets, hblank]
    obtain ⟨fuel, rfl⟩ : ∃ f, fuel = f + 1 :=
      ⟨fuel - 1, by have := List.length_pos_of_ne_nil hnil; omega⟩
    have hsplit := List.takeWhile_append_dropWhile (p := fun b => b != 10) (l := s)
    have hl : (10 : UInt8) ∉ s.takeWhile (· != 10) := fun hmem => by
      simpa using List.mem_takeWhile_imp hmem
    generalize s.takeWhile (· != 10) = l at hsplit hl
    have hword : l.splitOnP (· == 10) = [l] :=
      List.splitOnP_eq_singleton fun x hx => by
        simpa using fun heq : x = 10 => hl (heq ▸ hx)
    cases hrest : s.dropWhile (· != 10) with
    | nil =>
      -- the last line
      obtain rfl : l = s := by simpa [hrest] using hsplit
      have hlen := hshort l (by simp [hword])
      have hread : fgets size l = some (l, []) := by
        rw [fgets, if_neg hnil, lineTake_last hl (by omega)]
      have hend : fgetsLoop size fuel [] = [] := by cases fuel <;> simp [fgetsLoop, fgets]
      simp only [fgetsLoop, hread, hend, hword]
    | cons b rest =>
      obtain rfl : b = 10 := by
        have hhead := List.head?_dropWhile_not (fun x : UInt8 => x != 10) s
        rw [hrest] at hhead
        simpa using hhead
      rw [hrest] at hsplit
      subst hsplit
      have hpieces : (l ++ 10 :: rest).splitOnP (· == 10) = l :: rest.splitOnP (· == 10) := by
        rw [List.splitOnP_append_cons l rest (by rfl), hword, List.singleton_append]
      rw [hpieces] at hshort ⊢
      have hlen := hshort l List.mem_cons_self
      have htail : ∀ m ∈ rest.splitOnP (· == 10), m.length < size := fun m hm =>
        hshort m (List.mem_cons_of_mem l hm)
      have hfuel' : l.length + (rest.length + 1) ≤ fuel + 1 := by simpa using hfuel
      by_cases hfull : l.length + 1 = size
      · -- the newline comes in a read of its own
        obtain ⟨fuel, rfl⟩ : ∃ f, fuel = f + 1 := ⟨fuel - 1, by omega⟩
        have hread : fgets size (l ++ 10 :: rest) = some (l, 10 :: rest) := by
          rw [fgets, if_neg hnil, lineTake_of_long hl (by omega)]
        have hnext : fgets size (10 :: rest) = some ([10], rest) := by
          obtain ⟨n, hn⟩ : ∃ n, size - 1 = n + 1 := ⟨size - 2, by omega⟩
          simp [fgets, hn, lineTake]
        have hlone : g [10] = none := (hnewline [] (by simp; omega)).trans hblank
        simp only [fgetsLoop, hread, hnext, List.filterMap_cons, hlone]
        rw [ih fuel (by omega) rest (by omega) htail]
      · have hread : fgets size (l ++ 10 :: rest) = some (l ++ [10], rest) := by
          rw [fgets, if_neg hnil, lineTake_of_short hl (by omega)]
        simp only [fgetsLoop, hread, List.filterMap_cons, hnewline l hlen]
        rw [ih fuel (by omega) rest (by omega) htail]

/-- In a file of lines that fit the buffer the reads are the lines. -/
theorem fgetsLoop_of_short {size : Nat} {ls : List (List UInt8)}
    (hls : ∀ l ∈ ls, (10 : UInt8) ∉ l ∧ l.length + 1 < size) {fuel : Nat}
    (hfuel : ls.length ≤ fuel) :
    fgetsLoop size fuel (ls.flatMap (· ++ [10])) = ls.map (· ++ [10]) := by
  induction ls generalizing fuel with
  | nil => cases fuel <;> simp [fgetsLoop, fgets]
  | cons l ls ih =>
    obtain ⟨fuel, rfl⟩ := Nat.exists_eq_add_one_of_ne_zero
      (n := fuel) (by simp only [List.length_cons] at hfuel; omega)
    obtain ⟨hl, hlen⟩ := hls l List.mem_cons_self
    have hread : fgets size ((l :: ls).flatMap (· ++ [10]))
        = some (l ++ [10], ls.flatMap (· ++ [10])) := by
      have hne : (l :: ls).flatMap (· ++ [10]) ≠ [] := by simp
      rw [fgets, if_neg hne, List.flatMap_cons, List.append_assoc, List.singleton_append,
        lineTake_of_short hl (by omega)]
    simp only [fgetsLoop, hread, List.map_cons]
    rw [ih (fun m hm => hls m (List.mem_cons_of_mem l hm)) (by simpa using hfuel)]

end ByteCursor

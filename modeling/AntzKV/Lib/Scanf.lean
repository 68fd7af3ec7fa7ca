/-
AntzKV.Lib.Scanf — decimal output and the input conversions of `sscanf`.

Texts are byte lists. `decimal` is what `%llu` prints; a conversion of
`sscanf` takes the rest of the input and gives back the value with what is
left, or `none` for a matching failure. Every numeric or `%s` conversion
skips white space first (`isSpace` is C's `isspace`). Out of range values
saturate, as `strtoll` and `strtoull` do.

`scanUll_decimal` and `scanStr_word` are the round trips: a printed number
and a word without white space are read back when a byte that cannot
belong to them follows, or nothing does.
-/
import Mathlib

namespace Scanf

/-- The C library's `isspace`. -/
def isSpace (b : UInt8) : Bool := b == 32 || (9 ≤ b && b ≤ 13)

def isDigit (b : UInt8) : Bool := 48 ≤ b && b ≤ 57

def skipSpace (s : List UInt8) : List UInt8 := s.dropWhile isSpace

/-! ## Decimal numbers -/

/-- The digits of `n`, most significant first, with fuel for the number of
divisions. -/
def decimalAux : Nat → Nat → List UInt8
  | 0, _ => []
  | fuel + 1, n =>
    if n < 10 then [UInt8.ofNat (48 + n)]
    else decimalAux fuel (n / 10) ++ [UInt8.ofNat (48 + n % 10)]

/-- `%llu` -/
def decimal (n : Nat) : List UInt8 := decimalAux (n + 1) n

/-- `%lld` -/
def decimalInt (v : Int) : List UInt8 :=
  if v < 0 then 45 :: decimal v.natAbs else decimal v.natAbs

/-- The value of a string of digits. -/
def digitsVal (s : List UInt8) : Nat := s.foldl (fun v b => 10 * v + (b.toNat - 48)) 0

/-! ## Conversions -/

/-- An optional sign; the flag says that it is a minus. -/
def scanSign (s : List UInt8) : Bool × List UInt8 :=
  match s with
  | 45 :: s => (true, s)
  | 43 :: s => (false, s)
  | s => (false, s)

/-- White space, a sign and at least one digit: sign, magnitude, rest. -/
def scanDecimal (s : List UInt8) : Option (Bool × Nat × List UInt8) :=
  let (neg, s) := scanSign (skipSpace s)
  if s.takeWhile isDigit = [] then none
  else some (neg, digitsVal (s.takeWhile isDigit), s.dropWhile isDigit)

/-- `%llu`: a minus sign negates modulo `2 ^ 64`. -/
def scanUll (s : List UInt8) : Option (Nat × List UInt8) :=
  (scanDecimal s).map fun (neg, v, s) =>
    (if 2 ^ 64 ≤ v then 2 ^ 64 - 1 else if neg then (2 ^ 64 - v) % 2 ^ 64 else v, s)

/-- `%lld` -/
def scanLld (s : List UInt8) : Option (Int × List UInt8) :=
  (scanDecimal s).map fun (neg, v, s) =>
    (if neg then max (-(v : Int)) (-2 ^ 63) else min (v : Int) (2 ^ 63 - 1), s)

/-- `%`*w*`s`: a word of at most `w` bytes. -/
def scanStr (w : Nat) (s : List UInt8) : Option (List UInt8 × List UInt8) :=
  let s := skipSpace s
  let word := (s.takeWhile (!isSpace ·)).take w
  if word = [] then none else some (word, s.drop word.length)

/-! ## Reading back what was printed -/

theorem isDigit_ofNat {d : Nat} (h : d < 10) : isDigit (UInt8.ofNat (48 + d)) = true := by
  interval_cases d <;> decide

theorem toNat_digit {d : Nat} (h : d < 10) : (UInt8.ofNat (48 + d)).toNat = 48 + d := by
  interval_cases d <;> decide

theorem digitsVal_append_one (s : List UInt8) (b : UInt8) :
    digitsVal (s ++ [b]) = 10 * digitsVal s + (b.toNat - 48) := by
  simp [digitsVal, List.foldl_append]

theorem decimalAux_ne_nil {fuel n : Nat} (h : n < fuel) : decimalAux fuel n ≠ [] := by
  cases fuel with
  | zero => omega
  | succ fuel =>
    unfold decimalAux
    split <;> simp

theorem isDigit_of_mem_decimalAux {fuel n : Nat} {b : UInt8} (hb : b ∈ decimalAux fuel n) :
    isDigit b = true := by
  induction fuel generalizing n with
  | zero => simp [decimalAux] at hb
  | succ fuel ih =>
    unfold decimalAux at hb
    split at hb
    · rw [List.mem_singleton.mp hb]
      exact isDigit_ofNat ‹_›
    · rcases List.mem_append.mp hb with hb | hb
      · exact ih hb
      · rw [List.mem_singleton.mp hb]
        exact isDigit_ofNat (Nat.mod_lt n (by decide))

theorem digitsVal_decimalAux {fuel n : Nat} (h : n < fuel) :
    digitsVal (decimalAux fuel n) = n := by
  induction fuel generalizing n with
  | zero => omega
  | succ fuel ih =>
    unfold decimalAux
    split
    · rename_i hn
      show 10 * 0 + ((UInt8.ofNat (48 + n)).toNat - 48) = n
      rw [toNat_digit hn]
      omega
    · rw [digitsVal_append_one, ih (by omega), toNat_digit (Nat.mod_lt n (by decide))]
      omega

theorem length_decimalAux_le {fuel n k : Nat} (hk : n < 10 ^ (k + 1)) :
    (decimalAux fuel n).length ≤ k + 1 := by
  induction fuel generalizing n k with
  | zero => simp [decimalAux]
  | succ fuel ih =>
    unfold decimalAux
    split
    · simp
    · rename_i hn
      cases k with
      | zero => omega
      | succ k =>
        have hlt : n / 10 < 10 ^ (k + 1) := by
          rw [Nat.div_lt_iff_lt_mul (by decide)]
          rw [pow_succ] at hk
          exact hk
        have := ih hlt
        simp only [List.length_append, List.length_singleton]
        omega

theorem lt_pow_length_decimalAux {fuel n : Nat} (h : n < fuel) :
    n < 10 ^ (decimalAux fuel n).length := by
  induction fuel generalizing n with
  | zero => omega
  | succ fuel ih =>
    unfold decimalAux
    split
    · rename_i hn
      simpa using hn
    · have hrec := ih (n := n / 10) (by omega)
      rw [List.length_append, List.length_singleton, pow_succ]
      omega

/-- A number of so many digits takes so many bytes. -/
theorem lt_length_decimal {n k : Nat} (h : 10 ^ k ≤ n) : k < (decimal n).length := by
  have hlt : 10 ^ k < 10 ^ (decimal n).length :=
    lt_of_le_of_lt h (lt_pow_length_decimalAux (Nat.lt_succ_self n))
  exact (Nat.pow_lt_pow_iff_right (by norm_num)).mp hlt

theorem decimal_ne_nil (n : Nat) : decimal n ≠ [] := decimalAux_ne_nil (Nat.lt_succ_self n)

theorem isDigit_of_mem_decimal {n : Nat} {b : UInt8} (hb : b ∈ decimal n) : isDigit b = true :=
  isDigit_of_mem_decimalAux hb

@[simp] theorem digitsVal_decimal (n : Nat) : digitsVal (decimal n) = n :=
  digitsVal_decimalAux (Nat.lt_succ_self n)

/-- A digit is neither white space nor a sign. -/
theorem digit_bounds {b : UInt8} (h : isDigit b = true) : 48 ≤ b.toNat ∧ b.toNat ≤ 57 := by
  simpa [isDigit, UInt8.le_iff_toNat_le] using h

theorem not_isSpace_of_isDigit {b : UInt8} (h : isDigit b = true) : isSpace b = false := by
  obtain ⟨h1, h2⟩ := digit_bounds h
  simp only [isSpace, Bool.or_eq_false_iff, beq_eq_false_iff_ne, Bool.and_eq_false_iff,
    decide_eq_false_iff_not, UInt8.le_iff_toNat_le, ne_eq, ← UInt8.toNat_inj]
  have h32 : (32 : UInt8).toNat = 32 := rfl
  have h9 : (9 : UInt8).toNat = 9 := rfl
  have h13 : (13 : UInt8).toNat = 13 := rfl
  omega

theorem skipSpace_of_head {b : UInt8} (h : isSpace b = false) (s : List UInt8) :
    skipSpace (b :: s) = b :: s := by
  simp [skipSpace, h]

theorem skipSpace_cons {b : UInt8} (h : isSpace b = true) (s : List UInt8) :
    skipSpace (b :: s) = skipSpace s := by
  simp [skipSpace, h]

theorem scanSign_of_digit {b : UInt8} (h : isDigit b = true) (s : List UInt8) :
    scanSign (b :: s) = (false, b :: s) := by
  obtain ⟨h1, h2⟩ := digit_bounds h
  unfold scanSign
  split
  · rename_i heq
    obtain ⟨rfl, -⟩ := List.cons.inj heq
    exact absurd h1 (by decide)
  · rename_i heq
    obtain ⟨rfl, -⟩ := List.cons.inj heq
    exact absurd h1 (by decide)
  · rfl

/-- A run of bytes of one class ends where the class ends. -/
theorem span_append {p : UInt8 → Bool} {word rest : List UInt8} (hword : ∀ b ∈ word, p b = true)
    (hrest : rest.takeWhile p = []) :
    (word ++ rest).takeWhile p = word ∧ (word ++ rest).dropWhile p = rest := by
  have hdrop : rest.dropWhile p = rest := by
    conv_rhs => rw [← List.takeWhile_append_dropWhile (p := p) (l := rest), hrest, List.nil_append]
  rw [List.takeWhile_append_of_pos hword, List.dropWhile_append_of_pos hword, hrest, hdrop]
  exact ⟨List.append_nil word, rfl⟩

theorem scanDecimal_decimal (n : Nat) {rest : List UInt8} (hrest : rest.takeWhile isDigit = []) :
    scanDecimal (decimal n ++ rest) = some (false, n, rest) := by
  obtain ⟨b, s, hs⟩ := List.exists_cons_of_ne_nil (decimal_ne_nil n)
  have hdigits : ∀ b ∈ decimal n, isDigit b = true := fun b hb => isDigit_of_mem_decimal hb
  have hb : isDigit b = true := hdigits b (by simp [hs])
  obtain ⟨htake, hdrop⟩ := span_append hdigits hrest
  have hsign : scanSign (skipSpace (decimal n ++ rest)) = (false, decimal n ++ rest) := by
    rw [hs, List.cons_append, skipSpace_of_head (not_isSpace_of_isDigit hb), scanSign_of_digit hb]
  simp [scanDecimal, hsign, htake, hdrop, decimal_ne_nil]

theorem scanUll_cons {b : UInt8} (h : isSpace b = true) (s : List UInt8) :
    scanUll (b :: s) = scanUll s := by
  simp [scanUll, scanDecimal, skipSpace_cons h]

/-- `%llu` reads back what `%llu` printed. -/
theorem scanUll_decimal {n : Nat} (hn : n < 2 ^ 64) {rest : List UInt8}
    (hrest : rest.takeWhile isDigit = []) : scanUll (decimal n ++ rest) = some (n, rest) := by
  simp only [scanUll, scanDecimal_decimal n hrest, Option.map_some, if_neg (Nat.not_le.mpr hn)]
  rfl

/-- `%lld` reads back what `%lld` printed. -/
theorem scanLld_decimalInt {v : Int} (hlow : -2 ^ 63 ≤ v) (hhigh : v < 2 ^ 63) :
    scanLld (decimalInt v) = some (v, []) := by
  have hpos : scanDecimal (decimal v.natAbs) = some (false, v.natAbs, []) := by
    have hscan : scanDecimal (decimal v.natAbs ++ []) = some (false, v.natAbs, []) :=
      scanDecimal_decimal v.natAbs rfl
    rwa [List.append_nil] at hscan
  unfold decimalInt
  split
  · rename_i hneg
    have hdrop : scanDecimal (45 :: decimal v.natAbs) = some (true, v.natAbs, []) := by
      have hdigits : ∀ b ∈ decimal v.natAbs, isDigit b = true := fun b hb => isDigit_of_mem_decimal hb
      have hsign : scanSign (skipSpace (45 :: decimal v.natAbs)) = (true, decimal v.natAbs) := by
        rw [skipSpace_of_head (by decide)]
        rfl
      have htake : (decimal v.natAbs).takeWhile isDigit = decimal v.natAbs :=
        List.takeWhile_eq_self_iff.mpr hdigits
      have hdrop : (decimal v.natAbs).dropWhile isDigit = [] :=
        List.dropWhile_eq_nil_iff.mpr hdigits
      simp [scanDecimal, hsign, htake, hdrop, decimal_ne_nil]
    simp only [scanLld, hdrop, Option.map_some, if_true, Option.some.injEq, Prod.mk.injEq, and_true]
    omega
  · rename_i hneg
    simp only [scanLld, hpos, Option.map_some, Bool.false_eq_true, if_false, Option.some.injEq,
      Prod.mk.injEq, and_true]
    omega

/-- A sign and digits: no byte of a printed number is NUL. -/
theorem ne_zero_of_mem_decimalInt {v : Int} {b : UInt8} (hb : b ∈ decimalInt v) : b ≠ 0 := by
  have hdigit : ∀ b ∈ decimal v.natAbs, b ≠ 0 := by
    rintro b hb rfl
    exact absurd (isDigit_of_mem_decimal hb) (by decide)
  unfold decimalInt at hb
  split at hb
  · rcases List.mem_cons.mp hb with rfl | hb
    · decide
    · exact hdigit b hb
  · exact hdigit b hb

theorem scanStr_cons {b : UInt8} (h : isSpace b = true) (w : Nat) (s : List UInt8) :
    scanStr w (b :: s) = scanStr w s := by
  simp [scanStr, skipSpace_cons h]

/-- `%s` reads back a word that fits. -/
theorem scanStr_word {w : Nat} {word rest : List UInt8} (hne : word ≠ [])
    (hword : ∀ b ∈ word, isSpace b = false) (hlen : word.length ≤ w)
    (hrest : rest.takeWhile (!isSpace ·) = []) :
    scanStr w (word ++ rest) = some (word, rest) := by
  have hskip : skipSpace (word ++ rest) = word ++ rest := by
    obtain ⟨b, s, rfl⟩ := List.exists_cons_of_ne_nil hne
    exact skipSpace_of_head (hword b (by simp)) (s ++ rest)
  have htake := (span_append (p := (!isSpace ·)) (by simpa using hword) hrest).1
  simp [scanStr, hskip, htake, List.take_of_length_le hlen, hne]

/-! ## What a conversion can read -/

theorem skipSpace_suffix (s : List UInt8) : skipSpace s <:+ s := List.dropWhile_suffix isSpace

theorem scanSign_suffix (s : List UInt8) : (scanSign s).2 <:+ s := by
  unfold scanSign
  split
  · exact List.suffix_cons 45 _
  · exact List.suffix_cons 43 _
  · exact List.suffix_refl _

theorem scanUll_suffix {s t : List UInt8} {n : Nat} (h : scanUll s = some (n, t)) : t <:+ s := by
  obtain ⟨⟨neg, v, t'⟩, hdec, heq⟩ := Option.map_eq_some_iff.mp h
  obtain rfl : t' = t := (Prod.mk.inj heq).2
  simp only [scanDecimal] at hdec
  split at hdec
  · cases hdec
  · obtain rfl := (Prod.mk.inj (Prod.mk.inj (Option.some.inj hdec)).2).2
    exact ((List.dropWhile_suffix isDigit).trans (scanSign_suffix _)).trans (skipSpace_suffix s)

/-- A word: at least one byte, no white space, taken from the input. -/
theorem scanStr_spec {w : Nat} {s word t : List UInt8} (h : scanStr w s = some (word, t)) :
    word ≠ [] ∧ (∀ b ∈ word, isSpace b = false ∧ b ∈ s) ∧ t <:+ s := by
  simp only [scanStr] at h
  split at h
  · cases h
  · rename_i hne
    obtain ⟨rfl, rfl⟩ := Prod.mk.inj (Option.some.inj h)
    refine ⟨hne, ?_, (List.drop_suffix _ _).trans (skipSpace_suffix s)⟩
    intro b hb
    have hword := List.mem_of_mem_take hb
    have hspace := List.mem_takeWhile_imp (p := (!isSpace ·)) hword
    refine ⟨by simpa using hspace, ?_⟩
    exact (skipSpace_suffix s).subset ((List.takeWhile_prefix _).subset hword)

/-! ## What a conversion reads, as a shape of the text -/

/-- `p` holds of no byte that comes next. -/
def EndsFor (p : UInt8 → Bool) (t : List UInt8) : Prop := ∀ b ∈ t.head?, p b = false

theorem takeWhile_eq_nil_iff {p : UInt8 → Bool} {t : List UInt8} :
    t.takeWhile p = [] ↔ EndsFor p t := by
  cases t with
  | nil => simp [EndsFor]
  | cons b t => cases h : p b <;> simp [EndsFor, h]

theorem endsFor_dropWhile (p : UInt8 → Bool) (s : List UInt8) : EndsFor p (s.dropWhile p) := by
  intro b hb
  have hhead := List.head?_dropWhile_not p s
  rw [Option.mem_def.mp hb] at hhead
  exact hhead

theorem drop_length_takeWhile (p : UInt8 → Bool) (s : List UInt8) :
    s.drop (s.takeWhile p).length = s.dropWhile p := by
  have hsplit : s.takeWhile p ++ s.dropWhile p = s := List.takeWhile_append_dropWhile
  have hdrop : (s.takeWhile p ++ s.dropWhile p).drop (s.takeWhile p).length = s.dropWhile p :=
    List.drop_left
  rwa [hsplit] at hdrop

/-- White space, a word of at most `w` bytes that ends at `w` bytes, at
white space or with the text, and what is left. -/
def ReadsStr (w : Nat) (s word t : List UInt8) : Prop :=
  ∃ blank, (∀ b ∈ blank, isSpace b = true) ∧ s = blank ++ (word ++ t) ∧ word ≠ [] ∧
    (∀ b ∈ word, isSpace b = false) ∧ word.length ≤ w ∧
    (word.length = w ∨ EndsFor (!isSpace ·) t)

/-- White space, perhaps a sign, all the digits there are and at least one,
and what is left. -/
def ReadsNumber (s sign digits t : List UInt8) : Prop :=
  ∃ blank, (∀ b ∈ blank, isSpace b = true) ∧ s = blank ++ (sign ++ (digits ++ t)) ∧
    sign ∈ [[], [43], [45]] ∧ digits ≠ [] ∧ (∀ b ∈ digits, isDigit b = true) ∧ EndsFor isDigit t

theorem skipSpace_append {blank s : List UInt8} (hblank : ∀ b ∈ blank, isSpace b = true)
    (hs : EndsFor isSpace s) : skipSpace (blank ++ s) = s :=
  (span_append hblank (takeWhile_eq_nil_iff.mpr hs)).2

theorem exists_blank (s : List UInt8) :
    ∃ blank, (∀ b ∈ blank, isSpace b = true) ∧ s = blank ++ skipSpace s :=
  ⟨s.takeWhile isSpace, fun _ hb => List.mem_takeWhile_imp hb, List.takeWhile_append_dropWhile.symm⟩

theorem scanStr_eq_some_iff {w : Nat} {s word t : List UInt8} :
    scanStr w s = some (word, t) ↔ ReadsStr w s word t := by
  constructor
  · intro h
    obtain ⟨hne, hmem, -⟩ := scanStr_spec h
    obtain ⟨blank, hblank, hs⟩ := exists_blank s
    simp only [scanStr] at h
    split at h
    · cases h
    · obtain ⟨rfl, rfl⟩ := Prod.mk.inj (Option.some.inj h)
      have hpre : ((skipSpace s).takeWhile (!isSpace ·)).take w <+: skipSpace s :=
        (List.take_prefix _ _).trans (List.takeWhile_prefix _)
      refine ⟨blank, hblank, ?_, hne, fun b hb => (hmem b hb).1, List.length_take_le _ _, ?_⟩
      · rw [List.prefix_iff_eq_append.mp hpre]
        exact hs
      · by_cases hlen : ((skipSpace s).takeWhile (!isSpace ·)).length < w
        · right
          rw [List.take_of_length_le hlen.le, drop_length_takeWhile]
          exact endsFor_dropWhile _ _
        · left
          rw [List.length_take]
          omega
  · rintro ⟨blank, hblank, rfl, hne, hword, hle, hend⟩
    have hskip : skipSpace (blank ++ (word ++ t)) = word ++ t := by
      refine skipSpace_append hblank ?_
      obtain ⟨b, word, rfl⟩ := List.exists_cons_of_ne_nil hne
      intro c hc
      obtain rfl : b = c := by simpa using hc
      exact hword b (by simp)
    have htake : ((word ++ t).takeWhile (!isSpace ·)).take w = word := by
      rw [List.takeWhile_append_of_pos (by simpa using hword)]
      rcases hend with rfl | hend
      · exact List.take_left
      · rw [takeWhile_eq_nil_iff.mpr hend, List.append_nil, List.take_of_length_le hle]
    simp [scanStr, hskip, htake, hne]

theorem scanStr_eq_none_iff {w : Nat} (hw : 0 < w) {s : List UInt8} :
    scanStr w s = none ↔ ∀ b ∈ s, isSpace b = true := by
  have hword : ((skipSpace s).takeWhile (!isSpace ·)).take w = [] ↔ skipSpace s = [] := by
    rw [List.take_eq_nil_iff, or_iff_right (by omega), takeWhile_eq_nil_iff]
    constructor
    · intro hend
      by_contra hne
      obtain ⟨b, t, hbt⟩ := List.exists_cons_of_ne_nil hne
      have hb : b ∈ (skipSpace s).head? := by simp [hbt]
      have hspace := endsFor_dropWhile isSpace s b hb
      have hnot := hend b hb
      simp [hspace] at hnot
    · intro hnil
      simp [hnil, EndsFor]
  rw [← List.dropWhile_eq_nil_iff, ← skipSpace, ← hword]
  simp only [scanStr]
  split <;> simp_all

theorem exists_sign (s : List UInt8) :
    ∃ sign, sign ∈ [[], [43], [45]] ∧ s = sign ++ (scanSign s).2 := by
  unfold scanSign
  split
  · exact ⟨[45], by simp, rfl⟩
  · exact ⟨[43], by simp, rfl⟩
  · exact ⟨[], by simp, rfl⟩

theorem scanSign_append {sign : List UInt8} (hsign : sign ∈ [[], [43], [45]]) {d : UInt8}
    (hd : isDigit d = true) (s : List UInt8) :
    ∃ neg, scanSign (sign ++ d :: s) = (neg, d :: s) := by
  simp only [List.mem_cons, List.not_mem_nil, or_false] at hsign
  rcases hsign with rfl | rfl | rfl
  · exact ⟨false, scanSign_of_digit hd _⟩
  · exact ⟨false, rfl⟩
  · exact ⟨true, rfl⟩

/-- A number does not begin with white space, its sign included. -/
theorem endsFor_isSpace_sign {sign : List UInt8} (hsign : sign ∈ [[], [43], [45]]) {d : UInt8}
    (hd : isDigit d = true) (s : List UInt8) : EndsFor isSpace (sign ++ d :: s) := by
  intro c hc
  simp only [List.mem_cons, List.not_mem_nil, or_false] at hsign
  rcases hsign with rfl | rfl | rfl
  · obtain rfl : d = c := by simpa using hc
    exact not_isSpace_of_isDigit hd
  · obtain rfl : 43 = c := by simpa using hc
    decide
  · obtain rfl : 45 = c := by simpa using hc
    decide

theorem ReadsNumber.scanDecimal {s sign digits t : List UInt8} (h : ReadsNumber s sign digits t) :
    ∃ neg, scanDecimal s = some (neg, digitsVal digits, t) := by
  obtain ⟨blank, hblank, rfl, hsign, hne, hdigits, hend⟩ := h
  obtain ⟨d, ds, rfl⟩ := List.exists_cons_of_ne_nil hne
  have hd : isDigit d = true := hdigits d (by simp)
  have hskip := skipSpace_append hblank (endsFor_isSpace_sign hsign hd (ds ++ t))
  obtain ⟨neg, hneg⟩ := scanSign_append hsign hd (ds ++ t)
  obtain ⟨htake, hdrop⟩ := span_append hdigits (takeWhile_eq_nil_iff.mpr hend)
  rw [List.cons_append] at htake hdrop
  refine ⟨neg, ?_⟩
  simp only [Scanf.scanDecimal, List.cons_append, hskip, hneg, htake, hdrop, if_neg hne]

theorem readsNumber_of_scanDecimal {s t : List UInt8} {neg : Bool} {v : Nat}
    (h : scanDecimal s = some (neg, v, t)) : ∃ sign digits, ReadsNumber s sign digits t := by
  obtain ⟨blank, hblank, hs⟩ := exists_blank s
  obtain ⟨sign, hsign, hsplit⟩ := exists_sign (skipSpace s)
  simp only [scanDecimal] at h
  split at h
  · cases h
  · rename_i hne
    obtain ⟨-, htail⟩ := Prod.mk.inj (Option.some.inj h)
    obtain ⟨-, rfl⟩ := Prod.mk.inj htail
    refine ⟨sign, (scanSign (skipSpace s)).2.takeWhile isDigit, blank, hblank, ?_, hsign, hne,
      fun _ hb => List.mem_takeWhile_imp hb, endsFor_dropWhile _ _⟩
    rw [List.takeWhile_append_dropWhile, ← hsplit]
    exact hs

theorem exists_scanUll_iff {s t : List UInt8} :
    (∃ n, scanUll s = some (n, t)) ↔ ∃ sign digits, ReadsNumber s sign digits t := by
  constructor
  · rintro ⟨n, h⟩
    obtain ⟨⟨neg, v, t'⟩, hdec, heq⟩ := Option.map_eq_some_iff.mp h
    obtain rfl : t' = t := (Prod.mk.inj heq).2
    exact readsNumber_of_scanDecimal hdec
  · rintro ⟨sign, digits, h⟩
    obtain ⟨neg, hdec⟩ := h.scanDecimal
    exact ⟨_, by rw [scanUll, hdec, Option.map_some]⟩

end Scanf

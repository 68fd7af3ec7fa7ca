/-
AntzKV.Core.CString — the `char *` strings of the store.

A C string is the bytes before its NUL, so a `CStr` carries a proof that
it holds none, and a proof that its bytes with the terminator fit in an
object. Keys, string values, list elements, set members, hash
fields, node ids: every text of the store is one.

`strcmp` is the byte recursion of the C library, answering an `Ordering`
for the sign of its `int`. It is the comparison of a linear order
(`strcmp_eq_lt`, `strcmp_eq_eq`), which is what the sorted sets and the
Last-Write-Wins comparator rest on.
-/
import Mathlib

namespace AntzKV

/-- `SIZE_MAX + 1`. -/
def sizeBound : Nat := 18446744073709551616

/-- `PTRDIFF_MAX + 1`: no object has that many bytes. -/
def objectBound : Nat := 9223372036854775808

/-- A NUL-terminated string, without its NUL. -/
structure CStr where
  bytes : List UInt8
  nulFree : (0 : UInt8) ∉ bytes
  fits : bytes.length + 1 < objectBound
  deriving DecidableEq

namespace CStr

theorem ext {a b : CStr} (h : a.bytes = b.bytes) : a = b := by
  cases a; cases b
  simp_all

/-- `strlen`. -/
def strlen (s : CStr) : Nat := s.bytes.length

/-- The C string at the start of a buffer: its bytes up to the first NUL. -/
def ofBuf (buf : List UInt8) : CStr where
  bytes := (buf.takeWhile (· != 0)).take (objectBound - 2)
  nulFree := by
    intro h
    have := List.mem_takeWhile_imp (List.mem_of_mem_take h)
    simp at this
  fits := by
    rw [List.length_take]
    simp only [objectBound]
    omega

/-- A buffer that holds exactly a C string gives it back. -/
@[simp] theorem ofBuf_bytes (s : CStr) : ofBuf s.bytes = s := by
  apply ext
  have htw : s.bytes.takeWhile (· != 0) = s.bytes := by
    rw [List.takeWhile_eq_self_iff]
    intro b hb
    have : b ≠ 0 := fun h => s.nulFree (h ▸ hb)
    simpa using this
  have hlen := s.fits
  simp only [ofBuf, htw]
  exact List.take_of_length_le (by omega)

/-- What follows the terminator is not part of the string. -/
@[simp] theorem ofBuf_append_nul (s : CStr) (rest : List UInt8) :
    ofBuf (s.bytes ++ 0 :: rest) = s := by
  conv_rhs => rw [← ofBuf_bytes s]
  apply ext
  have hall : ∀ b ∈ s.bytes, (b != 0) = true := by
    intro b hb
    have : b ≠ 0 := fun h => s.nulFree (h ▸ hb)
    simpa using this
  simp only [ofBuf]
  rw [List.takeWhile_append_of_pos hall]
  simp [List.takeWhile_eq_self_iff.mpr hall]

/-- A string literal of the source. -/
def lit (s : String) : CStr := ofBuf (s.toList.map fun c => UInt8.ofNat c.toNat)

/-- The first `n` characters, as a bounded copy keeps them. -/
def take (n : Nat) (s : CStr) : CStr where
  bytes := s.bytes.take n
  nulFree := fun h => s.nulFree (List.mem_of_mem_take h)
  fits := by
    have := s.fits
    rw [List.length_take]
    omega

theorem take_of_le {n : Nat} {s : CStr} (h : s.strlen ≤ n) : s.take n = s :=
  ext (List.take_of_length_le h)

/-- Concatenation into a fresh buffer; `none` when no buffer can hold it. -/
def append? (a b : CStr) : Option CStr :=
  if h : a.bytes.length + b.bytes.length + 1 < objectBound then
    some
      { bytes := a.bytes ++ b.bytes
        nulFree := by
          rw [List.mem_append]
          exact fun hab => hab.elim a.nulFree b.nulFree
        fits := by rwa [List.length_append] }
  else none

end CStr

/-! ## Comparisons without case -/

/-- `tolower` in the C locale. -/
def toLower (b : UInt8) : UInt8 := if 65 ≤ b ∧ b ≤ 90 then b + 32 else b

/-- `strcasecmp(a, b) == 0` -/
def strcasecmpEq (a b : CStr) : Bool := a.bytes.map toLower == b.bytes.map toLower

/-- `strncasecmp(p, s, strlen(s)) == 0`, for the text `p` of a buffer. -/
def strncasecmpEq (p : List UInt8) (s : CStr) : Bool :=
  (p.take s.strlen).map toLower == s.bytes.map toLower

/-! ## `fnv1a` -/

/-- The 64-bit FNV-1a hash of both kinds of hash table. -/
def fnv1a (s : CStr) : UInt64 :=
  s.bytes.foldl (fun h b => (h ^^^ b.toUInt64) * 0x100000001b3) 0xcbf29ce484222325

/-! ## `strcmp` -/

/-- The byte recursion of `strcmp`; bytes compare as `unsigned char`. -/
def strcmpBytes : List UInt8 → List UInt8 → Ordering
  | [], [] => .eq
  | [], _ :: _ => .lt
  | _ :: _, [] => .gt
  | a :: as, b :: bs => if a < b then .lt else if b < a then .gt else strcmpBytes as bs

/-- The sign of `strcmp(a, b)`. -/
def strcmp (a b : CStr) : Ordering := strcmpBytes a.bytes b.bytes

/-- The bytes as numbers, where Mathlib's lexicographic order lives. -/
def CStr.key (s : CStr) : List ℕ := s.bytes.map UInt8.toNat

theorem CStr.key_injective : Function.Injective CStr.key := by
  intro a b h
  apply CStr.ext
  exact List.map_injective_iff.mpr (fun x y hxy => UInt8.toNat_inj.mp hxy) h

/-- The byte order of C strings. -/
instance : LinearOrder CStr where
  le a b := a.key ≤ b.key
  lt a b := a.key < b.key
  le_refl a := le_refl a.key
  le_trans _ _ _ hab hbc := le_trans hab hbc
  lt_iff_le_not_ge a b := lt_iff_le_not_ge (a := a.key) (b := b.key)
  le_antisymm _ _ hab hba := CStr.key_injective (le_antisymm hab hba)
  le_total a b := le_total a.key b.key
  toDecidableLE a b := inferInstanceAs (Decidable (a.key ≤ b.key))
  toDecidableEq := inferInstance

theorem CStr.lt_iff_key {a b : CStr} : a < b ↔ a.key < b.key := Iff.rfl

theorem strcmpBytes_eq_lt : ∀ (a b : List UInt8),
    strcmpBytes a b = .lt ↔ a.map UInt8.toNat < b.map UInt8.toNat
  | [], [] => by simp [strcmpBytes]
  | [], b :: bs => by simp [strcmpBytes]
  | a :: as, [] => by simp [strcmpBytes]
  | a :: as, b :: bs => by
    simp only [strcmpBytes, List.map_cons, List.cons_lt_cons_iff]
    rcases Nat.lt_trichotomy a.toNat b.toNat with h | h | h
    · have h1 : a < b := UInt8.lt_iff_toNat_lt.mpr h
      simp [h1, h]
    · have h1 : a = b := UInt8.toNat_inj.mp h
      subst h1
      simp [strcmpBytes_eq_lt as bs]
    · have h1 : ¬ a < b := fun hc => by
        have := UInt8.lt_iff_toNat_lt.mp hc
        omega
      have h2 : b < a := UInt8.lt_iff_toNat_lt.mpr h
      have h3 : ¬ a.toNat < b.toNat := by omega
      have h4 : ¬ a.toNat = b.toNat := by omega
      simp [h1, h2, h3, h4]

theorem strcmpBytes_eq_eq : ∀ (a b : List UInt8), strcmpBytes a b = .eq ↔ a = b
  | [], [] => by simp [strcmpBytes]
  | [], b :: bs => by simp [strcmpBytes]
  | a :: as, [] => by simp [strcmpBytes]
  | a :: as, b :: bs => by
    simp only [strcmpBytes, List.cons.injEq]
    rcases Nat.lt_trichotomy a.toNat b.toNat with h | h | h
    · have h1 : a < b := UInt8.lt_iff_toNat_lt.mpr h
      have h2 : a ≠ b := fun he => by
        subst he
        omega
      simp [h1, h2]
    · have h1 : a = b := UInt8.toNat_inj.mp h
      subst h1
      simp [strcmpBytes_eq_eq as bs]
    · have h1 : ¬ a < b := fun hc => by
        have := UInt8.lt_iff_toNat_lt.mp hc
        omega
      have h2 : b < a := UInt8.lt_iff_toNat_lt.mpr h
      have h3 : a ≠ b := fun he => by
        subst he
        omega
      simp [h1, h2, h3]

/-- `strcmp(a, b) < 0`. -/
@[simp] theorem strcmp_eq_lt {a b : CStr} : strcmp a b = .lt ↔ a < b :=
  (strcmpBytes_eq_lt a.bytes b.bytes).trans CStr.lt_iff_key.symm

/-- `strcmp(a, b) == 0`. -/
@[simp] theorem strcmp_eq_eq {a b : CStr} : strcmp a b = .eq ↔ a = b := by
  unfold strcmp
  rw [strcmpBytes_eq_eq]
  exact ⟨CStr.ext, fun h => h ▸ rfl⟩

/-- `strcmp(a, b) > 0`. -/
@[simp] theorem strcmp_eq_gt {a b : CStr} : strcmp a b = .gt ↔ b < a := by
  rcases lt_trichotomy a b with h | h | h
  · have h1 : strcmp a b = .lt := strcmp_eq_lt.mpr h
    simp [h1, not_lt_of_gt h]
  · subst h
    have h1 : strcmp a a = .eq := strcmp_eq_eq.mpr rfl
    simp [h1]
  · have hlt : strcmp a b ≠ .lt := fun he => not_lt_of_gt h (strcmp_eq_lt.mp he)
    have heq : strcmp a b ≠ .eq := fun he => ne_of_gt h (strcmp_eq_eq.mp he)
    cases hc : strcmp a b with
    | lt => exact absurd hc hlt
    | eq => exact absurd hc heq
    | gt => simp [h]

end AntzKV

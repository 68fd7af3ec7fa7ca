/-
AntzKV.Core.GetrangeTheorems — `kv_getrange` copies the characters asked
for.

`getrangeChecked` is the function with an eye on every step: `none` stands
for a sum outside `int64_t` and for a `memcpy` that leaves the string. On
64-bit bounds neither happens, the result is that of `kvGetrange`, and
that is the slice between the two positions. A string has fewer than
`PTRDIFF_MAX` characters, so its length is an `int64_t` and the size of
the copy, which is at most one more, does not overflow either.
-/
import AntzKV.Core.CounterTheorems
import AntzKV.Core.RankRangeTheorems

namespace AntzKV

open IndexSlice (slice fromFront)

variable {S : Type}

/-- A result of `int64_t` arithmetic, `none` where it overflows. -/
def checked64 (v : Int) : Option Int := if InInt64 v then some v else none

/-- `if (i < 0) i += len;` -/
def addLen (len i : Int) : Option Int := if i < 0 then checked64 (i + len) else some i

/-- `start` and `end` after the adjustments at the top of `kv_getrange`. -/
def getrangeBounds (len start stop : Int) : Option (Int × Int) := do
  let start ← addLen len start
  let start := if start < 0 then 0 else start
  let start := if start > len then len else start
  let stop ← addLen len stop
  let stop := if stop < 0 then -1 else stop
  let last ← checked64 (len - 1)
  let stop := if stop > last then last else stop
  return (start, stop)

/-- The copy: `n` characters from `start` on, into a buffer of `n + 1`. -/
def copyRange (s : CStr) (start stop : Int) : Option CStr := do
  let diff ← checked64 (stop - start)
  let n ← checked64 (diff + 1)
  let _ ← checked64 (n + 1)
  if 0 ≤ start ∧ 0 ≤ n ∧ start + n ≤ s.strlen then
    some (.ofBuf ((s.bytes.drop start.toNat).take n.toNat ++ [0]))
  else none

/-- `kv_getrange` on a string. -/
def getrangeChecked (s : CStr) (start stop : Int) : Option CStr := do
  let (start, stop) ← getrangeBounds (wrap64 s.strlen) start stop
  if start > stop then some (.lit "") else copyRange s start stop

/-! ## The arithmetic -/

theorem checked64_of_range {v : Int} (h : InInt64 v) : checked64 v = some v := if_pos h

/-- The length of a string, with its terminator, is an `int64_t`. -/
theorem CStr.strlen_lt (s : CStr) : (s.strlen : Int) + 1 < 2 ^ 63 := by
  have hfits := s.fits
  simp only [objectBound] at hfits
  rw [CStr.strlen]
  omega

theorem addLen_eq {n : Nat} (hn : (n : Int) + 1 < 2 ^ 63) {i : Int} (hi : InInt64 i) :
    addLen n i = some (fromFront n i) := by
  unfold InInt64 at hi
  unfold addLen fromFront
  by_cases hneg : i < 0
  · rw [if_pos hneg, if_pos hneg, checked64_of_range ⟨by omega, by omega⟩]
  · rw [if_neg hneg, if_neg hneg]

theorem getrangeBounds_eq {n : Nat} (hn : (n : Int) + 1 < 2 ^ 63) {start stop : Int}
    (hstart : InInt64 start) (hstop : InInt64 stop) :
    getrangeBounds n start stop = some (min (max (fromFront n start) 0) n,
      min (max (fromFront n stop) (-1)) (n - 1)) := by
  have hlast : checked64 ((n : Int) - 1) = some ((n : Int) - 1) :=
    checked64_of_range ⟨by omega, by omega⟩
  simp only [getrangeBounds, addLen_eq hn hstart, addLen_eq hn hstop, hlast, Option.bind_eq_bind,
    Option.bind_some, Option.pure_def, Option.some.injEq, Prod.mk.injEq]
  constructor
  · split_ifs <;> omega
  · split_ifs <;> omega

/-- A copy between two positions of the string stays inside it. -/
theorem copyRange_eq {s : CStr} {a b : Int} (ha : 0 ≤ a) (hab : a ≤ b) (hb : b ≤ s.strlen - 1) :
    ∃ t, copyRange s a b = some t ∧ t.bytes = (s.bytes.drop a.toNat).take (b - a + 1).toNat := by
  have hlen := s.strlen_lt
  have hnul : (0 : UInt8) ∉ (s.bytes.drop a.toNat).take (b - a + 1).toNat := fun h =>
    s.nulFree (List.mem_of_mem_drop (List.mem_of_mem_take h))
  have hfits : ((s.bytes.drop a.toNat).take (b - a + 1).toNat).length + 1 < objectBound := by
    have hsub := ((List.take_sublist (b - a + 1).toNat _).trans
      (List.drop_sublist a.toNat s.bytes)).length_le
    exact lt_of_le_of_lt (Nat.add_le_add_right hsub 1) s.fits
  refine ⟨⟨_, hnul, hfits⟩, ?_, rfl⟩
  simp only [copyRange, checked64_of_range (v := b - a) ⟨by omega, by omega⟩,
    checked64_of_range (v := b - a + 1) ⟨by omega, by omega⟩,
    checked64_of_range (v := b - a + 1 + 1) ⟨by omega, by omega⟩, Option.bind_eq_bind,
    Option.bind_some]
  rw [if_pos ⟨ha, by omega, by omega⟩]
  exact congrArg some (CStr.ofBuf_append_nul ⟨_, hnul, hfits⟩ [])

/-! ## The result -/

/-- Every 64-bit range of a string can be computed and copied, and it is
the slice. -/
theorem getrangeChecked_eq (s : CStr) {start stop : Int} (hstart : InInt64 start)
    (hstop : InInt64 stop) :
    ∃ t, getrangeChecked s start stop = some t ∧ t.bytes = slice s.bytes start stop := by
  have hlen := s.strlen_lt
  have hwrap : wrap64 s.strlen = s.strlen := wrap64_of_range (by omega) (by omega)
  rw [getrangeChecked, hwrap, getrangeBounds_eq hlen hstart hstop,
    IndexSlice.slice_eq_clamped s.bytes start stop rfl rfl]
  simp only [CStr.strlen, Option.bind_eq_bind, Option.bind_some, gt_iff_lt]
  by_cases hcross : min (max (fromFront s.bytes.length stop) (-1)) (s.bytes.length - 1 : Int)
      < min (max (fromFront s.bytes.length start) 0) s.bytes.length
  · rw [if_pos hcross, if_pos hcross]
    exact ⟨_, rfl, rfl⟩
  · rw [if_neg hcross, if_neg hcross]
    rw [CStr.strlen] at hlen
    exact copyRange_eq (by omega) (by omega) (by rw [CStr.strlen]; omega)

namespace KvTable

/-- `kv_getrange` with `getrangeChecked`. -/
def kvGetrangeChecked (db : KvTable S) (key : CStr) (start stop : Int) : Option CStr :=
  match db.getStringObj key with
  | none => some (.lit "")
  | some s => getrangeChecked s start stop

variable {db : KvTable S} {key : CStr} {s : CStr}

/-- The adjustments bring both bounds into the string. -/
theorem kvGetrange_eq (hs : db.getStringObj key = some s) (start stop : Int) :
    db.kvGetrange key start stop = .ofBuf (slice s.bytes start stop) := by
  obtain ⟨a, ha⟩ : ∃ a, a = min (max (fromFront s.strlen start) 0) (s.strlen : Int) := ⟨_, rfl⟩
  obtain ⟨b, hb⟩ : ∃ b, b = min (max (fromFront s.strlen stop) (-1)) ((s.strlen : Int) - 1) :=
    ⟨_, rfl⟩
  have hstart : (let i := if start < 0 then start + (s.strlen : Int) else start
      let i := if i < 0 then 0 else i
      if i > s.strlen then (s.strlen : Int) else i) = a := by
    unfold fromFront at ha
    simp only
    split_ifs at ha ⊢ <;> omega
  have hstop : (let i := if stop < 0 then stop + (s.strlen : Int) else stop
      let i := if i < 0 then -1 else i
      if i > (s.strlen : Int) - 1 then (s.strlen : Int) - 1 else i) = b := by
    unfold fromFront at hb
    simp only
    split_ifs at hb ⊢ <;> omega
  simp only at hstart hstop
  simp only [kvGetrange, hs, hstart, hstop, gt_iff_lt]
  rw [IndexSlice.slice_eq_clamped s.bytes start stop ha hb, apply_ite CStr.ofBuf]
  rfl

/-- **GETRANGE is the slice**: for every stored string and all 64-bit
bounds the arithmetic of `kv_getrange` stays within `int64_t`, the copy
within the string, and the result has the characters at the positions
between the two bounds, where a negative one counts from the end. -/
theorem kvGetrange_exact (hs : db.getStringObj key = some s) {start stop : Int}
    (hstart : InInt64 start) (hstop : InInt64 stop) :
    db.kvGetrangeChecked key start stop = some (db.kvGetrange key start stop) ∧
      (db.kvGetrange key start stop).bytes = slice s.bytes start stop := by
  obtain ⟨t, hchecked, ht⟩ := getrangeChecked_eq s hstart hstop
  have hvalue : db.kvGetrange key start stop = t := by
    rw [kvGetrange_eq hs, ← ht, CStr.ofBuf_bytes]
  refine ⟨?_, hvalue ▸ ht⟩
  rw [kvGetrangeChecked, hs, hvalue]
  exact hchecked

/-- The first five characters, and the last five. -/
theorem kvGetrange_exact_hello :
    let db : KvTable Int := storeRun none none [.table (.set true (.lit "str") (.lit "helloworld") 0)]
    (db.kvGetrangeChecked (.lit "str") 0 4 = some (db.kvGetrange (.lit "str") 0 4) ∧
        (db.kvGetrange (.lit "str") 0 4).bytes = slice (CStr.lit "helloworld").bytes 0 4) ∧
      db.kvGetrangeChecked (.lit "str") (-5) (-1) = some (db.kvGetrange (.lit "str") (-5) (-1)) ∧
        (db.kvGetrange (.lit "str") (-5) (-1)).bytes
          = slice (CStr.lit "helloworld").bytes (-5) (-1) :=
  ⟨kvGetrange_exact (by decide) (by decide) (by decide),
    kvGetrange_exact (by decide) (by decide) (by decide)⟩

end KvTable

end AntzKV

/-
AntzKV.Lib.Resp — the replies of the RESP protocol.

A reply starts with a byte that says what it is: a simple string, an
error, an integer, a bulk string, or an array with its length and then
that many bulk strings. `encode` writes one, `parse` reads one from the
front of a stream and hands back the rest. `parse_encode` says that a
reply ends where it says it does, so a client that reads reply after
reply stays in step.
-/
import AntzKV.Lib.Scanf

namespace Resp

open Scanf (decimal decimalInt isDigit digitsVal)

inductive Value where
  | simple (text : List UInt8)
  | error (text : List UInt8)
  | int (n : Int)
  | bulk (s : List UInt8)
  | nil
  | array (items : List (List UInt8))
  deriving DecidableEq

/-! ## Writing -/

def crlf : List UInt8 := [13, 10]

def encodeBulk (s : List UInt8) : List UInt8 := 36 :: decimal s.length ++ crlf ++ s ++ crlf

def encode : Value → List UInt8
  | .simple text => 43 :: text ++ crlf
  | .error text => 45 :: text ++ crlf
  | .int n => 58 :: decimalInt n ++ crlf
  | .bulk s => encodeBulk s
  | .nil => [36, 45, 49] ++ crlf
  | .array items => 42 :: decimal items.length ++ crlf ++ items.flatMap encodeBulk

/-! ## Reading -/

/-- A line up to its CR LF, and what follows. -/
def readLine : List UInt8 → Option (List UInt8 × List UInt8)
  | [] => none
  | b :: s =>
    if b = 13 then if s.head? = some 10 then some ([], s.tail) else none
    else (readLine s).map fun (l, rest) => (b :: l, rest)

def readNat (s : List UInt8) : Option Nat :=
  if s ≠ [] ∧ s.all isDigit then some (digitsVal s) else none

def readInt : List UInt8 → Option Int
  | [] => none
  | b :: s =>
    if b = 45 then (readNat s).map fun n => -Int.ofNat n else (readNat (b :: s)).map Int.ofNat

/-- `n` bytes and a CR LF. -/
def readBytes (n : Nat) (s : List UInt8) : Option (List UInt8 × List UInt8) :=
  if (s.take n).length = n ∧ (s.drop n).take 2 = crlf then some (s.take n, s.drop (n + 2)) else none

/-- The part of a bulk string behind its first byte. -/
def readBulk (s : List UInt8) : Option (List UInt8 × List UInt8) := do
  let (l, s) ← readLine s
  let n ← readNat l
  readBytes n s

/-- `n` bulk strings. -/
def readItems : Nat → List UInt8 → Option (List (List UInt8) × List UInt8)
  | 0, s => some ([], s)
  | _ + 1, [] => none
  | n + 1, b :: s =>
    if b = 36 then do
      let (item, s) ← readBulk s
      let (items, s) ← readItems n s
      some (item :: items, s)
    else none

/-- One reply, and the stream behind it. -/
def parse : List UInt8 → Option (Value × List UInt8)
  | [] => none
  | b :: s =>
    if b = 43 then (readLine s).map fun (l, s) => (.simple l, s)
    else if b = 45 then (readLine s).map fun (l, s) => (.error l, s)
    else if b = 58 then do
      let (l, s) ← readLine s
      let n ← readInt l
      some (.int n, s)
    else if b = 36 then
      if s.take 4 = [45, 49] ++ crlf then some (.nil, s.drop 4)
      else (readBulk s).map fun (l, s) => (.bulk l, s)
    else if b = 42 then do
      let (l, s) ← readLine s
      let n ← readNat l
      let (items, s) ← readItems n s
      some (.array items, s)
    else none

/-- The bytes are one reply, with nothing missing and nothing left. -/
def IsOne (bytes : List UInt8) : Prop := ∃ v, parse bytes = some (v, [])

/-! ## Reading back what was written -/

/-- A line ends at the first CR LF. -/
theorem readLine_append {l : List UInt8} (hl : (13 : UInt8) ∉ l) (rest : List UInt8) :
    readLine (l ++ crlf ++ rest) = some (l, rest) := by
  induction l with
  | nil => rfl
  | cons b l ih =>
    have hb : b ≠ 13 := fun h => hl (by simp [h])
    have htail := ih fun h => hl (by simp [h])
    simp only [List.cons_append, readLine, if_neg hb, htail, Option.map_some]

/-- A length is read back. -/
theorem readNat_decimal (n : Nat) : readNat (decimal n) = some n := by
  have hdigits : (decimal n).all isDigit = true :=
    List.all_eq_true.mpr fun b hb => Scanf.isDigit_of_mem_decimal hb
  rw [readNat, if_pos ⟨Scanf.decimal_ne_nil n, hdigits⟩, Scanf.digitsVal_decimal]

/-- Digits are no line ends. -/
theorem cr_notMem_decimal (n : Nat) : (13 : UInt8) ∉ decimal n := by
  intro h
  exact absurd (Scanf.isDigit_of_mem_decimal h) (by decide)

theorem cr_notMem_decimalInt (n : Int) : (13 : UInt8) ∉ decimalInt n := by
  unfold decimalInt
  split
  · intro h
    rcases List.mem_cons.mp h with h | h
    · exact absurd h (by decide)
    · exact cr_notMem_decimal _ h
  · exact cr_notMem_decimal _

/-- A number is read back, its sign included. -/
theorem readInt_decimalInt (n : Int) : readInt (decimalInt n) = some n := by
  unfold decimalInt
  split
  · rename_i hneg
    have habs : -Int.ofNat n.natAbs = n := by
      have := Int.ofNat_natAbs_of_nonpos hneg.le
      simp only [Int.ofNat_eq_natCast]
      omega
    simp only [readInt, if_true, readNat_decimal, Option.map_some, habs]
  · rename_i hpos
    obtain ⟨b, s, hs⟩ := List.exists_cons_of_ne_nil (Scanf.decimal_ne_nil n.natAbs)
    have hb : b ≠ 45 := by
      rintro rfl
      exact absurd (Scanf.isDigit_of_mem_decimal (n := n.natAbs) (b := 45) (by simp [hs])) (by decide)
    have habs : Int.ofNat n.natAbs = n := by
      simp only [Int.ofNat_eq_natCast]
      omega
    rw [hs, readInt, if_neg hb, ← hs, readNat_decimal, Option.map_some, habs]

/-- A bulk string is cut off by its length, whatever its bytes. -/
theorem readBytes_append (s rest : List UInt8) :
    readBytes s.length (s ++ crlf ++ rest) = some (s, rest) := by
  rw [List.append_assoc, readBytes, List.take_left, List.drop_left]
  have hdrop : (s ++ (crlf ++ rest)).drop (s.length + 2) = rest := by
    rw [← List.drop_drop, List.drop_left]
    rfl
  rw [hdrop, if_pos ⟨rfl, rfl⟩]

/-- One bulk string is read back. -/
theorem readBulk_encode (s rest : List UInt8) :
    readBulk (decimal s.length ++ crlf ++ s ++ crlf ++ rest) = some (s, rest) := by
  have hline := readLine_append (cr_notMem_decimal s.length) (s ++ crlf ++ rest)
  have hbytes := readBytes_append s rest
  simp only [List.append_assoc] at hline hbytes ⊢
  simp only [readBulk, hline, Option.bind_eq_bind, Option.bind_some, readNat_decimal, hbytes]

/-- The items of an array are read back one after the other. -/
theorem readItems_encode (items : List (List UInt8)) (rest : List UInt8) :
    readItems items.length (items.flatMap encodeBulk ++ rest) = some (items, rest) := by
  induction items with
  | nil => rfl
  | cons s items ih =>
    have hbulk := readBulk_encode s (items.flatMap encodeBulk ++ rest)
    have hsplit : (s :: items).flatMap encodeBulk ++ rest
        = 36 :: (decimal s.length ++ crlf ++ s ++ crlf ++ (items.flatMap encodeBulk ++ rest)) := by
      simp [encodeBulk]
    rw [hsplit, List.length_cons, readItems, if_pos rfl, hbulk]
    simp only [Option.bind_eq_bind, Option.bind_some, ih]

/-- A text that fits on a line. -/
def Value.WellFormed : Value → Prop
  | .simple text => (13 : UInt8) ∉ text
  | .error text => (13 : UInt8) ∉ text
  | _ => True

/-- **A reply ends where it says it does.** -/
theorem parse_encode {v : Value} (hv : v.WellFormed) (rest : List UInt8) :
    parse (encode v ++ rest) = some (v, rest) := by
  cases v with
  | simple text =>
    show (readLine (text ++ crlf ++ rest)).map _ = _
    rw [readLine_append hv]
    rfl
  | error text =>
    show (readLine (text ++ crlf ++ rest)).map _ = _
    rw [readLine_append hv]
    rfl
  | int n =>
    have hline := readLine_append (cr_notMem_decimalInt n) rest
    show ((readLine (decimalInt n ++ crlf ++ rest)).bind _) = _
    rw [hline, Option.bind_some]
    simp [readInt_decimalInt]
  | bulk s =>
    have hbulk := readBulk_encode s rest
    have hhead : (decimal s.length ++ crlf ++ s ++ crlf ++ rest).take 4 ≠ [45, 49] ++ crlf := by
      obtain ⟨b, t, ht⟩ := List.exists_cons_of_ne_nil (Scanf.decimal_ne_nil s.length)
      intro h
      simp only [ht, List.cons_append, List.take_succ_cons] at h
      have hb : isDigit b = true := Scanf.isDigit_of_mem_decimal (n := s.length) (by simp [ht])
      rw [(List.cons.inj h).1] at hb
      exact absurd hb (by decide)
    show (if (decimal s.length ++ crlf ++ s ++ crlf ++ rest).take 4 = [45, 49] ++ crlf then _
      else (readBulk (decimal s.length ++ crlf ++ s ++ crlf ++ rest)).map _) = _
    rw [if_neg hhead, hbulk]
    rfl
  | nil => rfl
  | array items =>
    have hline := readLine_append (cr_notMem_decimal items.length) (items.flatMap encodeBulk ++ rest)
    have hsplit : encode (.array items) ++ rest
        = 42 :: (decimal items.length ++ crlf ++ (items.flatMap encodeBulk ++ rest)) := by
      simp [encode]
    rw [hsplit]
    show ((readLine (decimal items.length ++ crlf ++ (items.flatMap encodeBulk ++ rest))).bind _) = _
    rw [hline, Option.bind_some]
    simp [readNat_decimal, readItems_encode]

/-- What encodes a value is one reply. -/
theorem isOne_encode {v : Value} (hv : v.WellFormed) : IsOne (encode v) := by
  refine ⟨v, ?_⟩
  simpa using parse_encode hv []

/-- No bytes are no reply. -/
theorem not_isOne_nil : ¬ IsOne [] := by
  rintro ⟨v, hv⟩
  cases hv

end Resp

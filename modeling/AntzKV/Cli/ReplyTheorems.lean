/-
AntzKV.Cli.ReplyTheorems — whether the client stays in step with the
server.

`recv_resp_raw` reads exactly one reply when every bulk string of it goes
into a buffer of 4096 bytes, with two bytes left, and an array has at most
128 elements. Of a longer string only the length is read, and of a longer
array the first 128 elements; what stays on the socket is taken for the
replies to the next commands. The strings of an array are shown on one
line, which is cut where the buffer ends (`arrayText_eq_iff`). `inStep_iff`
says so for sequences of replies.
-/
import AntzKV.Cli.Reply
import AntzKV.Core.CounterTheorems
import AntzKV.Server.DispatchTheorems

namespace AntzKV

open Scanf (decimal decimalInt)

namespace Cli

/-! ## Fuel

A nested call reads behind the byte that made it one, so the depth is less
than the number of bytes. -/

theorem length_readLineRaw : ∀ (room : Nat) (s : List UInt8),
    (readLineRaw room s).2.length ≤ s.length
  | room, [] => le_rfl
  | room, c :: s => by
    have hskip := length_readLineRaw room s
    have htake := length_readLineRaw (room - 1) s
    rw [readLineRaw]
    split_ifs
    · exact le_rfl
    · exact Nat.le_succ _
    · exact le_trans hskip (Nat.le_succ _)
    · exact le_trans htake (Nat.le_succ _)

theorem length_recvBulk (outLen : Nat) (blen : Int) (s : List UInt8) :
    (recvBulk outLen blen s).rest.length ≤ s.length := by
  unfold recvBulk readExact
  split_ifs <;> grind

/-- Calls that read forwards make a loop that reads forwards. -/
theorem length_recvElements {recv : List UInt8 → Recv}
    (hrecv : ∀ s, (recv s).rest.length ≤ s.length) :
    ∀ (n : Nat) (s : List UInt8), (recvElements recv n s).2.length ≤ s.length
  | 0, _ => le_rfl
  | n + 1, s => le_trans (length_recvElements hrecv n _) (hrecv s)

theorem length_recvRespRaw : ∀ (fuel outLen : Nat) (s : List UInt8),
    (recvRespRaw fuel outLen s).rest.length ≤ s.length
  | 0, _, _ => le_rfl
  | _ + 1, _, [] => le_rfl
  | fuel + 1, outLen, c :: s => by
    have hline := length_readLineRaw (outLen - 1) s
    have hlen := length_readLineRaw 31 s
    have hloop := length_recvElements (length_recvRespRaw fuel bufferSize)
    refine le_trans ?_ (Nat.le_succ s.length)
    rw [recvRespRaw]
    split_ifs
    · split <;> simp_all only
    · exact hline
    · split
      · simp_all only
      · rename_i hread
        rw [hread] at hlen
        exact le_trans (length_recvBulk _ _ _) hlen
    · split
      · simp_all only
      · rename_i hread
        rw [hread] at hlen
        dsimp only
        split_ifs
        · exact hlen
        · exact le_trans (hloop _ _) hlen
    · exact le_rfl

/-- A loop over calls that agree on what is no longer than its socket. -/
theorem recvElements_congr {recv recv' : List UInt8 → Recv} {m : Nat}
    (hrecv : ∀ s, (recv s).rest.length ≤ s.length) (heq : ∀ s, s.length ≤ m → recv s = recv' s) :
    ∀ (n : Nat) (s : List UInt8), s.length ≤ m → recvElements recv n s = recvElements recv' n s
  | 0, _, _ => rfl
  | n + 1, s, hs => by
    have hrest := recvElements_congr hrecv heq n (recv s).rest (le_trans (hrecv s) hs)
    rw [heq s hs] at hrest
    simp only [recvElements, heq s hs, hrest]

/-- More fuel than bytes changes nothing. -/
theorem recvRespRaw_fuel : ∀ (fuel fuel' outLen : Nat) (s : List UInt8), s.length < fuel →
    s.length < fuel' → recvRespRaw fuel outLen s = recvRespRaw fuel' outLen s
  | 0, _, _, _, h, _ => absurd h (Nat.not_lt_zero _)
  | _ + 1, 0, _, _, _, h => absurd h (Nat.not_lt_zero _)
  | fuel + 1, fuel' + 1, outLen, [], _, _ => rfl
  | fuel + 1, fuel' + 1, outLen, c :: s, h, h' => by
    simp only [List.length_cons, Nat.add_lt_add_iff_right] at h h'
    have hlen := length_readLineRaw 31 s
    have hloop : ∀ n t, t.length ≤ s.length →
        recvElements (recvRespRaw fuel bufferSize) n t
          = recvElements (recvRespRaw fuel' bufferSize) n t :=
      recvElements_congr (length_recvRespRaw fuel bufferSize)
        fun t ht => recvRespRaw_fuel fuel fuel' bufferSize t (by omega) (by omega)
    rw [recvRespRaw, recvRespRaw]
    generalize readLineRaw 31 s = r at hlen ⊢
    obtain ⟨_ | lenbuf, rest⟩ := r
    · rfl
    · simp only [hloop _ rest hlen]

/-! ## Reading what was sent -/

/-- A line with room for it, and for its end. -/
theorem readLineRaw_line {line : List UInt8} (hcr : (13 : UInt8) ∉ line)
    (hlf : (10 : UInt8) ∉ line) (rest : List UInt8) : ∀ {room : Nat}, line.length < room →
      readLineRaw room (line ++ 13 :: 10 :: rest) = (some line, rest) := by
  induction line with
  | nil =>
    intro room hroom
    have hne : room ≠ 0 := by
      rintro rfl
      exact absurd hroom (Nat.lt_irrefl 0)
    simp [readLineRaw, hne]
  | cons c line ih =>
    intro room hroom
    simp only [List.mem_cons, not_or] at hcr hlf
    have hne : room ≠ 0 := by
      rintro rfl
      exact absurd hroom (Nat.not_lt_zero _)
    have hless : line.length < room - 1 := by
      simp only [List.length_cons] at hroom
      omega
    have htail := ih hcr.2 hlf.2 hless
    simp [readLineRaw, hne, Ne.symm hcr.1, Ne.symm hlf.1, htail]

theorem lf_notMem_decimal (n : Nat) : (10 : UInt8) ∉ decimal n := by
  intro h
  exact absurd (Scanf.isDigit_of_mem_decimal h) (by decide)

/-- A length, in the buffer for it. -/
theorem readLineRaw_decimal {n : Nat} (hn : n < sizeBound) (rest : List UInt8) :
    readLineRaw 31 (decimal n ++ 13 :: 10 :: rest) = (some (decimal n), rest) := by
  have hlen : (decimal n).length ≤ 19 + 1 :=
    Scanf.length_decimalAux_le (lt_trans hn (by decide))
  exact readLineRaw_line (Resp.cr_notMem_decimal n) (lf_notMem_decimal n) rest (by omega)

/-- `atoi` of a length that is an `int`. -/
theorem atoi_decimal {n : Nat} (hn : n < 2 ^ 31) : (atoi (decimal n)).toInt = n := by
  have hscan : Scanf.scanLld (decimal n) = some ((n : Int), []) := by
    have hprint : decimalInt (n : Int) = decimal n := by
      simp [decimalInt]
    rw [← hprint]
    exact Scanf.scanLld_decimalInt (by omega) (by omega)
  rw [atoi, hscan]
  exact Int32.toInt_ofInt_of_le (by simp) (by simp; omega)

/-- A string that goes into the buffer is read with the CR LF behind it. -/
theorem recvBulk_of_fits {body : List UInt8} (hbody : body.length ≤ 4094) (rest : List UInt8) :
    recvBulk bufferSize body.length (body ++ 13 :: 10 :: rest)
      = ⟨body.length, some body, rest⟩ := by
  have hcrlf : (readExact 2 (13 :: 10 :: rest)).2 = rest := rfl
  rw [recvBulk, if_neg (by omega)]
  by_cases hempty : body = []
  · subst hempty
    rfl
  · have hpos := List.length_pos_of_ne_nil hempty
    have hbuf : bufferSize = 4096 := rfl
    have hread : readExact body.length (body ++ 13 :: 10 :: rest)
        = (some body, 13 :: 10 :: rest) := by
      simp [readExact]
    rw [if_neg (by omega), Int.toNat_natCast, if_neg (by omega), hread]
    simp only [hcrlf]

section Strings

variable (stack rest : List UInt8)

/-- A bulk string behind its first byte, once the length is read. -/
theorem recvRespRaw_length {n : Nat} (hn : n < sizeBound) (fuel outLen : Nat) (s : List UInt8) :
    recvRespRaw (fuel + 1) outLen (36 :: (decimal n ++ 13 :: 10 :: s))
      = recvBulk outLen (atoi (decimal n)).toInt s := by
  rw [recvRespRaw, if_neg (by decide), if_neg (by decide), if_pos rfl, readLineRaw_decimal hn]

/-- A bulk string that goes into the buffer. -/
theorem recvRespRaw_bulk {s : CStr} (hs : s.strlen ≤ 4094) (fuel : Nat) :
    recvRespRaw (fuel + 1) bufferSize (sendBulk stack (some s) ++ rest)
      = ⟨s.strlen, some s.bytes, rest⟩ := by
  have hsend : sendBulk stack (some s) ++ rest
      = 36 :: (decimal s.strlen ++ 13 :: 10 :: (s.bytes ++ 13 :: 10 :: rest)) := by
    rw [sendBulk_short (by omega)]
    simp [Resp.encodeBulk, Resp.crlf, CStr.strlen]
  have hlen : s.strlen < sizeBound := lt_of_le_of_lt hs (by decide)
  rw [hsend, recvRespRaw_length hlen, atoi_decimal (by omega)]
  exact recvBulk_of_fits hs rest

/-- The elements of an array, when they go into the buffers. -/
theorem recvElements_items (fuel : Nat) : ∀ {items : List CStr}, (∀ s ∈ items, s.strlen ≤ 4094) →
    recvElements (recvRespRaw (fuel + 1) bufferSize) items.length
        (items.flatMap (fun s => sendBulk stack (some s)) ++ rest)
      = (items.map CStr.bytes, rest)
  | [], _ => rfl
  | s :: items, hitems => by
    have hs := hitems s List.mem_cons_self
    have htail := recvElements_items fuel fun t ht => hitems t (List.mem_cons_of_mem s ht)
    have htext : s.bytes.takeWhile (· != 0) = s.bytes := by
      rw [List.takeWhile_eq_self_iff]
      intro b hb
      simpa using fun h : b = 0 => s.nulFree (h ▸ hb)
    have hcopy : (s.bytes.takeWhile (· != 0)).take (bufferSize - 1) = s.bytes := by
      rw [htext]
      exact List.take_of_length_le (le_trans hs (by decide))
    have hret : ¬ (s.strlen : Int) < 0 := by omega
    rw [List.flatMap_cons, List.append_assoc, List.length_cons, recvElements,
      recvRespRaw_bulk stack _ hs]
    simp only [if_neg hret, Option.getD_some, hcopy, htail, List.map_cons]

/-- The header of an array. -/
theorem recvRespRaw_array {n : Nat} (hn : n < sizeBound) (fuel outLen : Nat) (s : List UInt8) :
    recvRespRaw (fuel + 1) outLen (sendArrayLen n ++ s)
      = let arrlen := (atoi (decimal n)).toInt
        if arrlen ≤ 0 then ⟨-1, some (snprintf outLen (CStr.lit "(empty)").bytes), s⟩
        else
          let (elements, s) :=
            recvElements (recvRespRaw fuel bufferSize) (min arrlen.toNat maxElements) s
          let text := arrayText outLen arrlen elements
          ⟨text.length, some text, s⟩ := by
  have hsend : sendArrayLen n ++ s = 42 :: (decimal n ++ 13 :: 10 :: s) := by
    simp [sendArrayLen, sendReply]
  rw [hsend, recvRespRaw, if_neg (by decide), if_neg (by decide), if_neg (by decide), if_pos rfl,
    readLineRaw_decimal hn]

end Strings

/-! ## One reply -/

/-- What the server can send: its own texts, 64-bit integers, strings, and
arrays with a length in a `size_t`. -/
def Sendable : CmdReply → Prop
  | .int n => InInt64 n
  | .array items => items.length < sizeBound
  | r => r.Fixed

/-- The strings of an array on one line; a message as its channel and its
text. -/
def arrayLine : List CStr → List UInt8
  | [] => (CStr.lit "(empty)").bytes
  | [kind, a, b] =>
    if kind = .lit "message" then a.bytes ++ (CStr.lit ": ").bytes ++ b.bytes
    else List.intercalate [32] [kind.bytes, a.bytes, b.bytes]
  | items => List.intercalate [32] (items.map CStr.bytes)

/-- The text of a reply. -/
def shown : CmdReply → List UInt8
  | .simple text => text.bytes
  | .err text => text.bytes
  | .int n => decimalInt n
  | .bulk none => (CStr.lit "(nil)").bytes
  | .bulk (some s) => s.bytes
  | .array items => arrayLine items

/-- Three strings, of which the first says that they are a message or an
acknowledgement. -/
def IsPush : List CStr → Prop
  | [kind, _, _] =>
    kind = .lit "message" ∨ kind = .lit "subscribe" ∨ kind = .lit "unsubscribe"
  | _ => False

/-- The line goes into the buffer of the reply. A blank needs one byte more
behind it, except in a message or an acknowledgement. -/
def LineFits (items : List CStr) : Prop :=
  (arrayLine items).length ≤ 4095 ∧
    ((arrayLine items).length = 4095 → items.getLast? = some (.lit "") → IsPush items)

/-- The reply goes into the buffers of the client. -/
def Fits : CmdReply → Prop
  | .bulk (some s) => s.strlen ≤ 4094
  | .array items =>
    items.length ≤ maxElements ∧ (∀ s ∈ items, s.strlen ≤ 4094) ∧ LineFits items
  | _ => True

/-- A call returns the bulk string at the front of the socket byte for byte
and leaves what is behind it. -/
def Returns (stack : List UInt8) (s : CStr) (rest : List UInt8) : Prop :=
  recvReply (sendBulk stack (some s) ++ rest) = ⟨s.strlen, some s.bytes, rest⟩

/-- A call reads the reply at the front of the socket: the rest is left,
its text is in `out`, and every bulk string of it is returned by the call
that is made for it. -/
structure Reads (stack : List UInt8) (r : CmdReply) (rest : List UInt8) (got : Recv) : Prop where
  left : got.rest = rest
  out : got.out = some (shown r)
  bulk : ∀ s, r = .bulk (some s) → Returns stack s rest
  items : ∀ before s after, r = .array (before ++ s :: after) →
    Returns stack s (after.flatMap (fun t => sendBulk stack (some t)) ++ rest)

/-- A text on one line, shorter than the buffers. -/
def OneLine (line : List UInt8) : Prop :=
  (13 : UInt8) ∉ line ∧ (10 : UInt8) ∉ line ∧ line.length < 511

instance (line : List UInt8) : Decidable (OneLine line) :=
  inferInstanceAs (Decidable (_ ∧ _ ∧ _))

theorem oneLine_of_fixed {r : CmdReply} (h : r ∈ fixedReplies) : OneLine (shown r) := by
  have hall : ∀ r ∈ fixedReplies, OneLine (shown r) := by decide
  exact hall r h

theorem oneLine_decimalInt {n : Int} (h : InInt64 n) : OneLine (decimalInt n) := by
  have hlen : (decimal n.natAbs).length ≤ 19 + 1 :=
    Scanf.length_decimalAux_le (by unfold InInt64 at h; omega)
  refine ⟨Resp.cr_notMem_decimalInt n, ?_, ?_⟩
  · unfold decimalInt
    split
    · exact fun hmem => (List.mem_cons.mp hmem).elim (by decide) (lf_notMem_decimal _)
    · exact lf_notMem_decimal _
  · unfold decimalInt
    split
    · rw [List.length_cons]
      omega
    · omega

/-- A simple string or an integer. -/
theorem recvReply_line {c : UInt8} (hc : c = 43 ∨ c = 58) {line : List UInt8} (h : OneLine line)
    (rest : List UInt8) :
    recvReply (c :: (line ++ 13 :: 10 :: rest)) = ⟨line.length, some line, rest⟩ := by
  have hbuf : bufferSize = 4096 := rfl
  have hroom : line.length < bufferSize - 1 := by
    have := h.2.2
    omega
  have hread := readLineRaw_line h.1 h.2.1 rest hroom
  rw [recvReply, recvRespRaw, if_pos hc, hread]

/-- An error. -/
theorem recvReply_err {line : List UInt8} (h : OneLine line) (rest : List UInt8) :
    recvReply (45 :: (line ++ 13 :: 10 :: rest)) = ⟨-1, some line, rest⟩ := by
  have hbuf : bufferSize = 4096 := rfl
  have hroom : line.length < bufferSize - 1 := by
    have := h.2.2
    omega
  have hread := readLineRaw_line h.1 h.2.1 rest hroom
  rw [recvReply, recvRespRaw, if_neg (by decide), if_pos rfl, hread]

/-- A bulk string comes back when it goes into the buffer. -/
theorem returns_of_fits {s : CStr} (hs : s.strlen ≤ 4094) (stack rest : List UInt8) :
    Returns stack s rest :=
  recvRespRaw_bulk stack rest hs _

/-- A reply without strings is read when its text and the rest are. -/
theorem reads_of_line {stack rest : List UInt8} {r : CmdReply} {got : Recv}
    (hrest : got.rest = rest) (hout : got.out = some (shown r)) (hstrings : r.strings = []) :
    Reads stack r rest got where
  left := hrest
  out := hout
  bulk := by
    rintro s rfl
    cases hstrings
  items := by
    rintro before s after rfl
    simp [CmdReply.strings] at hstrings

/-- An array of strings that go into the buffers: the loop ends at the last
row of `elements`. -/
theorem recvReply_array {items : List CStr} (hsend : items.length < sizeBound)
    (hitems : ∀ s ∈ items, s.strlen ≤ 4094) (stack rest : List UInt8) {arrlen : Int}
    (harrlen : (atoi (decimal items.length)).toInt = arrlen) {m : Nat}
    (hm : m = min arrlen.toNat maxElements) (hle : m ≤ items.length) :
    recvReply ((CmdReply.array items).send stack ++ rest)
      = let text := if arrlen ≤ 0 then (CStr.lit "(empty)").bytes
          else arrayText bufferSize arrlen ((items.take m).map CStr.bytes)
        ⟨if arrlen ≤ 0 then -1 else text.length, some text,
          (items.drop m).flatMap (fun s => sendBulk stack (some s)) ++ rest⟩ := by
  have htake : (items.take m).length = m := List.length_take_of_le hle
  have hsplit : items.flatMap (fun s => sendBulk stack (some s)) ++ rest
      = (items.take m).flatMap (fun s => sendBulk stack (some s))
        ++ ((items.drop m).flatMap (fun s => sendBulk stack (some s)) ++ rest) := by
    rw [← List.append_assoc, ← List.flatMap_append, List.take_append_drop]
  have hread : ∀ fuel, recvElements (recvRespRaw (fuel + 1) bufferSize) m
      (items.flatMap (fun s => sendBulk stack (some s)) ++ rest)
        = ((items.take m).map CStr.bytes,
          (items.drop m).flatMap (fun s => sendBulk stack (some s)) ++ rest) := by
    intro fuel
    have hfirst : ∀ s ∈ items.take m, s.strlen ≤ 4094 :=
      fun s hs => hitems s (List.mem_of_mem_take hs)
    have hloop := recvElements_items stack
      ((items.drop m).flatMap (fun s => sendBulk stack (some s)) ++ rest) fuel hfirst
    rwa [htake, ← hsplit] at hloop
  -- the header alone is a byte
  obtain ⟨fuel, hfuel⟩ : ∃ fuel, (sendArrayLen items.length
      ++ (items.flatMap (fun s => sendBulk stack (some s)) ++ rest)).length = fuel + 1 :=
    ⟨_, rfl⟩
  rw [recvReply, CmdReply.send, List.append_assoc, recvRespRaw_array hsend, hfuel, harrlen]
  dsimp only
  split_ifs with hneg
  · have hzero : m = 0 := by omega
    rw [hzero, List.drop_zero]
    rfl
  · rw [← hm, hread]

/-! ## The line of an array -/

theorem intercalate_cons (e : List UInt8) (es : List (List UInt8)) :
    List.intercalate [32] (e :: es) = e ++ es.flatMap (32 :: ·) := by
  induction es generalizing e with
  | nil => simp
  | cons e' es ih => rw [List.intercalate_cons_cons, ih, List.flatMap_cons, List.append_assoc]; rfl

/-- The loop writes no more than the strings with their blanks. -/
theorem length_joinElements_le (n : Nat) (out : List UInt8) (es : List (List UInt8)) :
    (joinElements n false out es).length ≤ out.length + (es.flatMap (32 :: ·)).length := by
  induction es generalizing out with
  | nil => exact le_rfl
  | cons e es ih =>
    rw [joinElements, List.flatMap_cons, List.length_append, List.length_cons]
    split_ifs with hblank hlong
    · simp only [List.length_append, List.length_singleton]
      omega
    · refine (ih _).trans ?_
      simp only [List.length_append, List.length_singleton]
      omega
    · omega
    · refine (ih _).trans ?_
      simp only [List.length_append]
      omega

/-- It writes all of it exactly when there is room, with a byte to spare
for a blank that ends the text. -/
theorem joinElements_eq_iff (n : Nat) (out : List UInt8) (es : List (List UInt8)) :
    joinElements n false out es = out ++ es.flatMap (32 :: ·) ↔
      es = [] ∨ out.length + (es.flatMap (32 :: ·)).length
        + (if es.getLast? = some [] then 1 else 0) < n := by
  induction es generalizing out with
  | nil => simp [joinElements]
  | cons e es ih =>
    have hlast : (e :: es).getLast? = some [] ↔ if es = [] then e = [] else es.getLast? = some [] := by
      cases es <;> simp
    have hlen : (out ++ (e :: es).flatMap (32 :: ·)).length
        = out.length + 1 + e.length + (es.flatMap (32 :: ·)).length := by
      simp only [List.flatMap_cons, List.length_append, List.length_cons]
      omega
    have hlen' : ((e :: es).flatMap (32 :: ·)).length
        = 1 + e.length + (es.flatMap (32 :: ·)).length := by
      simp only [List.flatMap_cons, List.length_append, List.length_cons]
      omega
    rw [or_iff_right (List.cons_ne_nil e es), hlen', joinElements]
    have hempty : e.length = 0 ↔ e = [] := List.length_eq_zero_iff
    have hnone : (es.flatMap (32 :: ·)).length = 0 → es = [] := by
      cases es <;> simp
    by_cases hblank : out.length < n - 2
    · simp only [Bool.not_false, Bool.true_and, hblank, decide_true, if_true, List.length_append,
        List.length_singleton]
      by_cases hlong : n ≤ out.length + 1 + e.length
      · rw [if_pos hlong]
        refine iff_of_false (fun heq => ?_) (by omega)
        have hcut := congrArg List.length heq
        rw [hlen, List.length_append, List.length_singleton] at hcut
        omega
      · rw [if_neg hlong]
        have hrec := ih (out ++ [32] ++ e)
        have htext : out ++ [32] ++ e ++ es.flatMap (32 :: ·)
            = out ++ (e :: es).flatMap (32 :: ·) := by simp
        rw [htext] at hrec
        rw [hrec]
        simp only [List.length_append, List.length_singleton, hlast]
        by_cases hes : es = []
        · subst hes
          simp only [true_or, if_true, List.flatMap_nil, List.length_nil, true_iff]
          split_ifs with he
          · subst he
            simp only [List.length_nil]
            omega
          · omega
        · simp only [hes, false_or, if_false]
          omega
    · simp only [Bool.not_false, Bool.true_and, hblank, decide_false, Bool.false_eq_true, if_false]
      refine iff_of_false (fun heq => ?_) ?_
      · have hcut := congrArg List.length heq
        rw [hlen] at hcut
        split_ifs at hcut with hlong
        · omega
        · have hle := length_joinElements_le n (out ++ e) es
          rw [List.length_append] at hle
          omega
      · intro hfits
        have he : e = [] := hempty.mp (by omega)
        have hes : es = [] := hnone (by omega)
        rw [if_pos (hlast.mpr (by rw [if_pos hes]; exact he))] at hfits
        omega

/-- A text of `snprintf` is all of it when it leaves room for the NUL. -/
theorem snprintf_eq_iff (n : Nat) (text : List UInt8) :
    snprintf n text = text ↔ text.length ≤ n - 1 := List.take_eq_self_iff _

theorem bytes_eq_lit_iff (s : CStr) (t : CStr) : s.bytes = t.bytes ↔ s = t :=
  ⟨CStr.ext, congrArg CStr.bytes⟩

/-- The loop over the strings of an array. -/
theorem joinElements_items_iff {items : List CStr} (hne : items ≠ [])
    (hitems : ∀ s ∈ items, s.strlen ≤ 4094) :
    joinElements bufferSize true [] (items.map CStr.bytes)
        = List.intercalate [32] (items.map CStr.bytes) ↔
      (List.intercalate [32] (items.map CStr.bytes)).length ≤ 4095 ∧
        ((List.intercalate [32] (items.map CStr.bytes)).length = 4095 →
          items.getLast? ≠ some (.lit "")) := by
  have hbuf : bufferSize = 4096 := rfl
  obtain ⟨s, rest, rfl⟩ := List.exists_cons_of_ne_nil hne
  have hs : s.bytes.length ≤ 4094 := hitems s List.mem_cons_self
  have hlast : (rest.map CStr.bytes).getLast? = some [] ↔ rest.getLast? = some (.lit "") := by
    have hnil : ([] : List UInt8) = (CStr.lit "").bytes := rfl
    rw [List.getLast?_map, hnil, Option.map_eq_some_iff]
    simp only [bytes_eq_lit_iff, exists_eq_right]
  rw [List.map_cons, joinElements, intercalate_cons]
  simp only [Bool.not_true, Bool.false_and, Bool.false_eq_true, if_false, List.length_nil,
    List.nil_append, Nat.zero_add]
  rw [if_neg (by omega), joinElements_eq_iff, List.length_append]
  cases rest with
  | nil =>
    simp only [List.map_nil, List.flatMap_nil, List.length_nil, true_or, true_iff]
    omega
  | cons s' rest =>
    have hcons : (s' :: rest).map CStr.bytes ≠ [] := by simp
    rw [or_iff_right hcons, List.getLast?_cons_cons]
    by_cases hempty : (s' :: rest).getLast? = some (.lit "")
    · rw [if_pos (hlast.mpr hempty)]
      simp only [hempty, ne_eq, not_true_eq_false, imp_false]
      omega
    · rw [if_neg fun h => hempty (hlast.mp h)]
      simp only [hempty, ne_eq, not_false_eq_true, implies_true, and_true]
      omega

/-- **The client shows all of an array** exactly when its line fits. -/
theorem arrayText_eq_iff {items : List CStr} (hne : items ≠ [])
    (hitems : ∀ s ∈ items, s.strlen ≤ 4094) :
    arrayText bufferSize items.length (items.map CStr.bytes) = arrayLine items ↔
      LineFits items := by
  have hjoin := joinElements_items_iff hne hitems
  by_cases hthree : ∃ kind a b, items = [kind, a, b]
  · obtain ⟨kind, a, b, rfl⟩ := hthree
    have hline : List.intercalate [32] ([kind, a, b].map CStr.bytes)
        = kind.bytes ++ 32 :: a.bytes ++ 32 :: b.bytes := by
      simp
    simp only [List.map_cons, List.map_nil, List.length_cons, List.length_nil, arrayText, arrayLine,
      LineFits, IsPush, bytes_eq_lit_iff] at hjoin hline ⊢
    by_cases hmessage : kind = .lit "message"
    · simp [hmessage, snprintf_eq_iff, bufferSize]
    · by_cases hack : kind = .lit "subscribe" ∨ kind = .lit "unsubscribe"
      · simp [hmessage, hack, hline, snprintf_eq_iff, bufferSize]
      · simpa [hmessage, hack] using hjoin
  · have hline : arrayLine items = List.intercalate [32] (items.map CStr.bytes) := by
      unfold arrayLine
      split
      · exact absurd rfl hne
      · exact absurd ⟨_, _, _, rfl⟩ hthree
      · rfl
    have htext : arrayText bufferSize items.length (items.map CStr.bytes)
        = joinElements bufferSize true [] (items.map CStr.bytes) := by
      unfold arrayText
      split
      · rename_i kind a b hmap
        obtain ⟨x, y, z, hxyz⟩ : ∃ x y z, items = [x, y, z] := by
          have hlen := congrArg List.length hmap
          rw [List.length_map] at hlen
          exact List.length_eq_three.mp hlen
        exact absurd ⟨x, y, z, hxyz⟩ hthree
      · rfl
    have hpush : ¬ IsPush items := fun h => by
      unfold IsPush at h
      split at h
      · exact hthree ⟨_, _, _, rfl⟩
      · exact h
    rw [htext, hline, hjoin, LineFits, hline]
    simp only [hpush, imp_false, ne_eq]

/-- **A reply that fits is read exactly.** -/
theorem reads_of_fits {r : CmdReply} (hsend : Sendable r) (hfits : Fits r)
    (stack rest : List UInt8) : Reads stack r rest (recvReply (r.send stack ++ rest)) := by
  cases r with
  | simple text =>
    have hline : OneLine text.bytes := oneLine_of_fixed hsend
    have hbytes : (CmdReply.simple text).send stack ++ rest
        = 43 :: (text.bytes ++ 13 :: 10 :: rest) := by
      simp [CmdReply.send, sendReply]
    rw [hbytes, recvReply_line (.inl rfl) hline]
    exact reads_of_line rfl rfl rfl
  | err text =>
    have hline : OneLine text.bytes := oneLine_of_fixed hsend
    have hbuf : snprintf 512 (45 :: text.bytes) = 45 :: text.bytes :=
      List.take_of_length_le (by have := hline.2.2; simp only [List.length_cons]; omega)
    have hbytes : (CmdReply.err text).send stack ++ rest
        = 45 :: (text.bytes ++ 13 :: 10 :: rest) := by
      simp [CmdReply.send, sendErr, sendReply, hbuf]
    rw [hbytes, recvReply_err hline]
    exact reads_of_line rfl rfl rfl
  | int n =>
    have hbytes : (CmdReply.int n).send stack ++ rest
        = 58 :: (decimalInt n ++ 13 :: 10 :: rest) := by
      simp [CmdReply.send, sendInt, sendReply]
    rw [hbytes, recvReply_line (.inr rfl) (oneLine_decimalInt hsend)]
    exact reads_of_line rfl rfl rfl
  | bulk s =>
    cases s with
    | none =>
      have hbytes : (CmdReply.bulk none).send stack ++ rest
          = 36 :: ([45, 49] ++ 13 :: 10 :: rest) := rfl
      have hlen : readLineRaw 31 ([45, 49] ++ 13 :: 10 :: rest) = (some [45, 49], rest) :=
        readLineRaw_line (by decide) (by decide) rest (by decide)
      have hnil : recvReply (36 :: ([45, 49] ++ 13 :: 10 :: rest))
          = ⟨-1, some (CStr.lit "(nil)").bytes, rest⟩ := by
        rw [recvReply, recvRespRaw, if_neg (by decide), if_neg (by decide), if_pos rfl, hlen]
        rfl
      rw [hbytes, hnil]
      exact reads_of_line rfl rfl rfl
    | some s =>
      have hs := returns_of_fits hfits stack rest
      have hgot : recvReply ((CmdReply.bulk (some s)).send stack ++ rest)
          = ⟨s.strlen, some s.bytes, rest⟩ := hs
      rw [hgot]
      refine ⟨rfl, rfl, ?_, ?_⟩
      · rintro t ⟨rfl⟩
        exact hs
      · intro _ _ _ h
        cases h
  | array items =>
    obtain ⟨hcount, hitems, hline⟩ := hfits
    have hmax : maxElements = 128 := rfl
    have hatoi := atoi_decimal (n := items.length) (by omega)
    rw [recvReply_array hsend hitems stack rest hatoi (m := items.length) (by omega) le_rfl,
      List.drop_length, List.take_length]
    refine ⟨rfl, ?_, ?_, ?_⟩
    · cases items with
      | nil => rfl
      | cons s items =>
        have hpos : ¬ ((s :: items).length : Int) ≤ 0 := by
          simp only [List.length_cons]
          omega
        have htext := (arrayText_eq_iff (List.cons_ne_nil s items) hitems).mpr hline
        exact congrArg some ((if_neg hpos).trans htext)
    · intro _ h
      cases h
    · intro before s after hsplit
      obtain hsplit := CmdReply.array.inj hsplit
      refine returns_of_fits (hitems s ?_) stack _
      simp [hsplit]

/-! ## Only those -/

theorem length_out_recvBulk (blen : Int) (s : List UInt8) :
    ∀ text, (recvBulk bufferSize blen s).out = some text → text.length ≤ 4094 := by
  have hbuf : bufferSize = 4096 := rfl
  intro text htext
  unfold recvBulk at htext
  split_ifs at htext with hneg hzero hlong
  · obtain rfl := Option.some.inj htext
    decide
  · obtain rfl := Option.some.inj htext
    exact Nat.zero_le _
  · obtain rfl := Option.some.inj htext
    exact Nat.zero_le _
  · unfold readExact at htext
    split_ifs at htext with hmore
    · obtain rfl := Option.some.inj htext
      rw [List.length_take]
      omega
    · obtain rfl := Option.some.inj htext
      exact Nat.zero_le _

theorem length_out_recvReply (s : List UInt8) :
    ∀ text, (recvReply (36 :: s)).out = some text → text.length ≤ 4094 := by
  intro text htext
  rw [recvReply, recvRespRaw, if_neg (by decide), if_neg (by decide), if_pos rfl] at htext
  split at htext
  · obtain rfl := Option.some.inj htext
    exact Nat.zero_le _
  · exact length_out_recvBulk _ _ text htext

theorem sendBulk_cons (stack : List UInt8) (s : CStr) :
    ∃ tail, sendBulk stack (some s) = 36 :: tail := by
  have hpos : ∃ n, bulkLen s = n + 1 := by
    refine Nat.exists_eq_add_one.mpr ?_
    unfold bulkLen
    split_ifs
    · simp [bulkText]
    · decide
  obtain ⟨n, hn⟩ := hpos
  rw [sendBulk, hn]
  exact ⟨_, rfl⟩

/-- A bulk string that is returned has left two bytes of the buffer. -/
theorem fits_of_returns {stack rest : List UInt8} {s : CStr} (h : Returns stack s rest) :
    s.strlen ≤ 4094 := by
  obtain ⟨tail, htail⟩ := sendBulk_cons stack s
  rw [Returns, htail] at h
  exact length_out_recvReply (tail ++ rest) s.bytes (by rw [← List.cons_append, h])

/-- Strings that are not read are on the socket. -/
theorem items_eq_nil {stack rest : List UInt8} {items : List CStr}
    (h : items.flatMap (fun s => sendBulk stack (some s)) ++ rest = rest) : items = [] := by
  cases items with
  | nil => rfl
  | cons s items =>
    obtain ⟨tail, htail⟩ := sendBulk_cons stack s
    have hnil := List.append_left_eq_self.mp h
    rw [List.flatMap_cons, htail] at hnil
    cases hnil

/-- **A reply that is read exactly fits.** -/
theorem fits_of_reads {r : CmdReply} (hsend : Sendable r) {stack rest : List UInt8}
    (h : Reads stack r rest (recvReply (r.send stack ++ rest))) : Fits r := by
  cases r with
  | simple text => trivial
  | err text => trivial
  | int n => trivial
  | bulk s =>
    cases s with
    | none => trivial
    | some s => exact fits_of_returns (h.bulk s rfl)
  | array items =>
    have hitems : ∀ s ∈ items, s.strlen ≤ 4094 := by
      intro s hs
      obtain ⟨before, after, rfl⟩ := List.append_of_mem hs
      exact fits_of_returns (h.items before s after rfl)
    have hmax : maxElements = 128 := rfl
    have hcount : items.length ≤ maxElements := by
      by_contra hmany
      have hleft := h.left
      rw [recvReply_array hsend hitems stack rest rfl rfl (by omega)] at hleft
      have hnil := List.drop_eq_nil_iff.mp (items_eq_nil hleft)
      omega
    refine ⟨hcount, hitems, ?_⟩
    cases items with
    | nil => exact ⟨by decide, fun hlen => absurd hlen (by decide)⟩
    | cons s items =>
      have hpos : ¬ ((s :: items).length : Int) ≤ 0 := by
        simp only [List.length_cons]
        omega
      have hout := h.out
      rw [recvReply_array hsend hitems stack rest (atoi_decimal (by omega))
        (m := (s :: items).length) (by omega) le_rfl, List.take_length] at hout
      refine (arrayText_eq_iff (List.cons_ne_nil s items) hitems).mp ?_
      exact (if_neg hpos).symm.trans (Option.some.inj hout)

/-! ## A session -/

/-- The REPL calls once for each reply: every call reads the reply to its
command, and nothing is left at the end. -/
def InStep (stack : List UInt8) : List CmdReply → List UInt8 → Prop
  | [], s => s = []
  | r :: rs, s =>
    Reads stack r (rs.flatMap (CmdReply.send stack)) (recvReply s) ∧
      InStep stack rs (recvReply s).rest

/-- **The client stays in step exactly on replies that fit.** -/
theorem inStep_iff (stack : List UInt8) {rs : List CmdReply} (hsend : ∀ r ∈ rs, Sendable r) :
    InStep stack rs (rs.flatMap (CmdReply.send stack)) ↔ ∀ r ∈ rs, Fits r := by
  induction rs with
  | nil => simp [InStep]
  | cons r rs ih =>
    have hr := hsend r List.mem_cons_self
    have ih := ih fun r' h => hsend r' (List.mem_cons_of_mem r h)
    rw [List.flatMap_cons, InStep, List.forall_mem_cons]
    constructor
    · rintro ⟨hread, hmore⟩
      rw [hread.left] at hmore
      exact ⟨fits_of_reads hr hread, ih.mp hmore⟩
    · rintro ⟨hfits, hmore⟩
      have hread := reads_of_fits hr hfits stack (rs.flatMap (CmdReply.send stack))
      refine ⟨hread, ?_⟩
      rw [hread.left]
      exact ih.mpr hmore

theorem inStep_two : InStep [] [.bulk (some (.lit "v")), .int 7]
    ([.bulk (some (.lit "v")), .int 7].flatMap (CmdReply.send [])) := by
  refine (inStep_iff [] ?_).mpr ?_
  · simp [Sendable, CmdReply.Fixed, InInt64]
  · simp [Fits, CStr.strlen, CStr.lit]
    decide

/-- A string of 4095 bytes, and the reply to the next command. -/
def longReplies : List CmdReply :=
  [.bulk (some ⟨List.replicate 4095 97, fun h => absurd (List.eq_of_mem_replicate h) (by decide),
      by rw [List.length_replicate]; decide⟩),
    .simple (.lit "OK")]

/-- The string is not read, and the client is out of step. -/
theorem longReplies_not_inStep : (∀ r ∈ longReplies, Sendable r) ∧
    ¬ InStep [] longReplies (longReplies.flatMap (CmdReply.send [])) := by
  have hsend : ∀ r ∈ longReplies, Sendable r := by
    rw [longReplies, List.forall_mem_cons, List.forall_mem_singleton]
    exact ⟨trivial, by simp [Sendable, CmdReply.Fixed, fixedReplies]⟩
  refine ⟨hsend, fun h => ?_⟩
  have hfits : 4095 ≤ 4094 := by
    have hread := fits_of_reads (hsend _ List.mem_cons_self) h.1
    rwa [Fits, CStr.strlen, List.length_replicate] at hread
  exact absurd hfits (by decide)

end Cli

end AntzKV

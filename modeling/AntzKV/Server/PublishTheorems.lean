/-
AntzKV.Server.PublishTheorems — the frames of PUBLISH are exact.

`process_command` puts the message together with `strncat`, each call
bounded by the room left in `msg`, and `pubsub_publish` writes it behind
its length into a second buffer, of which it sends as many bytes as
`snprintf` says the frame has. `publishMsg` is the loop as it stands; it
cuts the joined words at the end of the buffer (`publishMsg_eq`). What is
left of a request line of 4095 bytes fits both buffers, so the frame is
complete and reads back as the channel and the message.
-/
import AntzKV.Server.ConnectionTheorems
import AntzKV.Server.PubSubTheorems
import AntzKV.Lib.Resp

namespace AntzKV

open Scanf (decimal)

/-! ## The loop of PUBLISH -/

/-- The text in a buffer after `strncat(dst, src, n)`. -/
def strncat (dst src : List UInt8) (n : Nat) : List UInt8 := dst ++ src.take n

/-- `strncat(msg, src, sizeof(msg) - strlen(msg) - 1)` -/
def catRest (msg src : List UInt8) : List UInt8 := strncat msg src (bulkMsgMax - msg.length - 1)

/-- The loop over the arguments from `i` on, with the text in `msg`. -/
def publishLoop : Nat → List CStr → List UInt8 → List UInt8
  | _, [], msg => msg
  | i, w :: ws, msg =>
    let msg := if i > 2 then catRest msg [32] else msg
    publishLoop (i + 1) ws (catRest msg w.bytes)

/-- `msg` when the loop is done. -/
def publishMsg (words : List CStr) : List UInt8 := publishLoop 2 words []

/-- A bounded `strncat` cuts what is there and what comes at the same
place. -/
theorem catRest_take (msg src : List UInt8) :
    catRest (msg.take (bulkMsgMax - 1)) src = (msg ++ src).take (bulkMsgMax - 1) := by
  have hroom : bulkMsgMax - (msg.take (bulkMsgMax - 1)).length - 1
      = bulkMsgMax - 1 - msg.length := by
    rw [List.length_take]
    omega
  rw [catRest, strncat, hroom, List.take_append]

/-- What the loop makes of the arguments behind the first. -/
theorem publishLoop_eq (ws : List CStr) {i : Nat} (hi : 2 < i) (msg : List UInt8) :
    publishLoop i ws (msg.take (bulkMsgMax - 1))
      = (msg ++ ws.flatMap fun w => 32 :: w.bytes).take (bulkMsgMax - 1) := by
  induction ws generalizing i msg with
  | nil =>
    simp [publishLoop]
  | cons w ws ih =>
    rw [publishLoop]
    simp only [gt_iff_lt, hi, if_true, catRest_take]
    rw [ih (Nat.lt_succ_of_lt hi)]
    simp

theorem intercalate_cons_eq_flatMap (w : List UInt8) (ws : List (List UInt8)) :
    List.intercalate [32] (w :: ws) = w ++ ws.flatMap fun v => 32 :: v := by
  induction ws generalizing w with
  | nil => simp
  | cons v vs ih => simp [List.intercalate_cons_cons, ih]

/-- The loop is the join, cut at the end of the buffer; it never writes
past it. -/
theorem publishMsg_eq (words : List CStr) :
    publishMsg words
      = (List.intercalate [32] (words.map CStr.bytes)).take (bulkMsgMax - 1) := by
  cases words with
  | nil => rfl
  | cons w ws =>
    have hfirst : catRest [] w.bytes = w.bytes.take (bulkMsgMax - 1) := by
      simpa using catRest_take [] w.bytes
    rw [publishMsg, publishLoop]
    simp only [gt_iff_lt, lt_irrefl, if_false, hfirst]
    rw [publishLoop_eq ws (by omega), List.map_cons, intercalate_cons_eq_flatMap, List.flatMap_map]

theorem ofBuf_publishMsg (words : List CStr) : CStr.ofBuf (publishMsg words) = joinWords words := by
  rw [publishMsg_eq]
  rfl

/-! ## The branch -/

/-- A name that is `"PUBLISH"` but for case compares as it does. -/
theorem strcasecmpEq_congr {cmd name : CStr} (h : strcasecmpEq cmd name = true) (other : CStr) :
    strcasecmpEq cmd other = strcasecmpEq name other := by
  rw [strcasecmpEq, beq_iff_eq] at h
  rw [strcasecmpEq, strcasecmpEq, h]

theorem branch_congr {cmd name : CStr} (h : strcasecmpEq cmd name = true) (args : List CStr) :
    branch cmd args = branch name args := by
  simp only [branch, route, strcasecmpEq_congr h]

theorem branch_publish {cmd : CStr} (h : strcasecmpEq cmd (.lit "PUBLISH") = true)
    (ch w : CStr) (ws : List CStr) : branch cmd (ch :: w :: ws) = .publish ch (w :: ws) := by
  rw [branch_congr h]
  rfl

/-! ## The frame -/

namespace PubsubMgr

/-- What a subscriber should read. -/
def pushed (ch msg : CStr) : Resp.Value :=
  .array [(CStr.lit "message").bytes, ch.bytes, msg.bytes]

theorem messageText_eq_encode (ch msg : CStr) :
    messageText ch msg = Resp.encode (pushed ch msg) := by
  have hbulk : ∀ s : CStr, PubsubMgr.bulkItem s = Resp.encodeBulk s.bytes := fun _ => rfl
  have hhead : (CStr.lit "*3").bytes ++ [13, 10] = 42 :: decimal 3 ++ Resp.crlf := by decide
  simp only [messageText, hbulk, hhead, pushed, Resp.encode, List.flatMap_cons, List.flatMap_nil,
    List.append_assoc, List.append_nil]
  rfl

theorem length_bulkItem_le {s : CStr} (h : s.strlen < 10 ^ 4) :
    (PubsubMgr.bulkItem s).length ≤ s.strlen + 9 := by
  have hdigits : (decimal s.strlen).length ≤ 3 + 1 := Scanf.length_decimalAux_le h
  simp only [PubsubMgr.bulkItem, bulkText, CStr.strlen, List.length_append, List.length_cons,
    List.length_nil] at hdigits ⊢
  omega

theorem length_messageText_le {ch msg : CStr} (hch : ch.strlen < 10 ^ 4)
    (hmsg : msg.strlen < 10 ^ 4) :
    (messageText ch msg).length ≤ ch.strlen + msg.strlen + 35 := by
  have hhead : ((CStr.lit "*3").bytes ++ [13, 10] ++ PubsubMgr.bulkItem (.lit "message")).length
      = 17 := by
    decide
  have hlch := length_bulkItem_le hch
  have hlmsg := length_bulkItem_le hmsg
  rw [messageText, List.length_append, List.length_append, hhead]
  omega

/-- A message as `pubsub_publish` builds and sends it. -/
structure ExactFrame (stack : List UInt8) (ch msg : CStr) : Prop where
  shorter : (messageText ch msg).length < bulkMsgMax
  complete : messageSent stack ch msg = messageText ch msg
  decoded : Resp.parse (messageSent stack ch msg) = some (pushed ch msg, [])
  sent : ∀ (send : Int → Int) (m : PubsubMgr),
    ∀ x ∈ (m.pubsubPublishOn send stack ch msg).1, Resp.parse x.2 = some (pushed ch msg, [])

theorem exactFrame {ch msg : CStr} (h : ch.strlen + msg.strlen ≤ 4095) (stack : List UInt8) :
    ExactFrame stack ch msg := by
  have hshort : (messageText ch msg).length < bulkMsgMax := by
    have hlen : (messageText ch msg).length ≤ ch.strlen + msg.strlen + 35 :=
      length_messageText_le (by omega) (by omega)
    rw [bulkMsgMax]
    omega
  have hsent := (messageSent_eq_iff stack ch msg).mpr hshort
  have hparse : Resp.parse (messageSent stack ch msg) = some (pushed ch msg, []) := by
    rw [hsent, messageText_eq_encode]
    simpa using Resp.parse_encode (v := pushed ch msg) trivial []
  refine ⟨hshort, hsent, hparse, fun send m x hx => ?_⟩
  rw [pubsubPublishOn, sendLoop_eq] at hx
  obtain ⟨s, -, rfl⟩ := List.mem_map.mp hx
  exact hparse

end PubsubMgr

/-! ## A line -/

/-- The tokens of a line, each with a delimiter, fit the line with one
more. -/
theorem sum_parseLine_le (buf : CStr) (n : Nat) :
    ((parseLine buf n).map fun t => t.strlen + 1).sum ≤ buf.strlen + 1 := by
  have hsum : ((parseLine buf n).map fun t => t.strlen + 1)
      = ((Words.words isDelim buf.bytes).take n).map fun w => w.length + 1 := by
    rw [← bytes_parseLine, List.map_map]
    rfl
  have hsub : ((Words.words isDelim buf.bytes).take n).map (fun w => w.length + 1)
      |>.Sublist ((Words.words isDelim buf.bytes).map fun w => w.length + 1) :=
    (List.take_sublist n _).map _
  rw [hsum]
  exact (hsub.sum_le_sum fun _ _ => Nat.zero_le _).trans (Words.sum_length_succ_words_le buf.bytes)

/-- The joined words, with one delimiter more. -/
theorem length_intercalate_succ (w : List UInt8) (ws : List (List UInt8)) :
    (List.intercalate [32] (w :: ws)).length + 1 = ((w :: ws).map fun v => v.length + 1).sum := by
  rw [intercalate_cons_eq_flatMap, List.length_append, List.length_flatMap]
  simp only [List.length_cons, List.map_cons, List.sum_cons]
  omega

theorem zero_notMem_intercalate (w : CStr) (ws : List CStr) :
    (0 : UInt8) ∉ List.intercalate [32] ((w :: ws).map CStr.bytes) := by
  rw [List.map_cons, intercalate_cons_eq_flatMap, List.flatMap_map, List.mem_append, not_or]
  refine ⟨w.nulFree, fun h => ?_⟩
  obtain ⟨v, -, hv⟩ := List.mem_flatMap.mp h
  rcases List.mem_cons.mp hv with h0 | h0
  · exact absurd h0 (by decide)
  · exact v.nulFree h0

/-- A join that fits `msg` is not cut. -/
theorem bytes_joinWords {w : CStr} {ws : List CStr}
    (h : (List.intercalate [32] ((w :: ws).map CStr.bytes)).length < bulkMsgMax) :
    (joinWords (w :: ws)).bytes = List.intercalate [32] ((w :: ws).map CStr.bytes) := by
  have hfits : (List.intercalate [32] ((w :: ws).map CStr.bytes)).length + 1 < objectBound :=
    lt_of_le_of_lt (Nat.succ_le_of_lt h) (by decide)
  rw [joinWords, List.take_of_length_le (by omega)]
  exact congrArg CStr.bytes (CStr.ofBuf_bytes ⟨_, zero_notMem_intercalate w ws, hfits⟩)

/-- **Published frames are exact**: of a request line of at most 4095 bytes
the message is the tokens behind the channel with blanks between them,
and what is sent is the whole frame, shorter than its buffer, which reads
as `"message"`, the channel and the message. -/
theorem publish_exact {line cmd ch : CStr} {ws : List CStr} (hline : line.strlen ≤ 4095)
    (hargs : parseLine line maxArgs = cmd :: ch :: ws) (hthree : ws ≠ [])
    (hcmd : strcasecmpEq cmd (.lit "PUBLISH") = true) (stack : List UInt8) :
    branch cmd (ch :: ws) = .publish ch ws ∧
      CStr.ofBuf (publishMsg ws) = joinWords ws ∧
      (joinWords ws).bytes
        = List.intercalate [32] (((Words.words isDelim line.bytes).take maxArgs).drop 2) ∧
      PubsubMgr.ExactFrame stack ch (joinWords ws) := by
  obtain ⟨w, ws, rfl⟩ := List.exists_cons_of_ne_nil hthree
  have htokens := bytes_parseLine line maxArgs
  have hsum := sum_parseLine_le line maxArgs
  rw [hargs] at htokens hsum
  simp only [List.map_cons, List.sum_cons] at hsum
  have hlen := length_intercalate_succ w.bytes (ws.map CStr.bytes)
  have hwords : ((w.bytes :: ws.map CStr.bytes).map fun v => v.length + 1).sum
      = w.strlen + 1 + (ws.map fun t => t.strlen + 1).sum := by
    rw [List.map_cons, List.sum_cons, List.map_map]
    rfl
  rw [hwords] at hlen
  have hbytes : (joinWords (w :: ws)).bytes = List.intercalate [32] ((w :: ws).map CStr.bytes) :=
    bytes_joinWords (by rw [List.map_cons, bulkMsgMax]; omega)
  refine ⟨branch_publish hcmd ch w ws, ofBuf_publishMsg (w :: ws), ?_,
    PubsubMgr.exactFrame ?_ stack⟩
  · rw [hbytes, ← htokens]
    rfl
  · have hmsg : (joinWords (w :: ws)).strlen + 1
        = w.strlen + 1 + (ws.map fun t => t.strlen + 1).sum := by
      rw [CStr.strlen, hbytes]
      exact hlen
    omega

/-- A message of two words. -/
theorem publish_exact_two :
    branch (.lit "publish") [.lit "news", .lit "hi", .lit "world"]
        = .publish (.lit "news") [.lit "hi", .lit "world"] ∧
      CStr.ofBuf (publishMsg [.lit "hi", .lit "world"])
        = joinWords [.lit "hi", .lit "world"] ∧
      (joinWords [.lit "hi", .lit "world"]).bytes = List.intercalate [32]
        (((Words.words isDelim (CStr.lit "publish news hi\tworld").bytes).take maxArgs).drop 2) ∧
      PubsubMgr.ExactFrame [] (.lit "news") (joinWords [.lit "hi", .lit "world"]) :=
  @publish_exact (.lit "publish news hi\tworld") _ _ _ (by decide) (by decide) (by decide)
    (by decide) []

end AntzKV

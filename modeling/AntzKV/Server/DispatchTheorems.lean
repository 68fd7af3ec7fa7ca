/-
AntzKV.Server.DispatchTheorems — one reply per command.

Every branch ends in one `CmdReply`, and a `CmdReply` with strings that
fit the buffer is one RESP value (`isOne_send`); a string does so up to
8184 bytes (`bulkExact_iff`). The exceptions are the
branches that die before they reply: the counters, when they ignore that
`kv_set_object` failed, and an APPEND that no memory could hold.
`one_reply_iff` says exactly when a command gets its one reply.
-/
import AntzKV.Core.TypeSafetyTheorems
import AntzKV.Lib.Resp
import AntzKV.Server.Dispatch

namespace AntzKV

open Scanf (decimal decimalInt)
open DbObject (objCreateString objCreateZset)

variable {S : Type}

/-! ## A reply is one RESP value -/

/-- The texts are on one line and fit the buffer of `send_err`. -/
def CmdReply.Plain : CmdReply → Prop
  | .simple text => (13 : UInt8) ∉ text.bytes
  | .err text => (13 : UInt8) ∉ text.bytes ∧ text.strlen < 511
  | _ => True

instance : (r : CmdReply) → Decidable r.Plain
  | .simple text => inferInstanceAs (Decidable ((13 : UInt8) ∉ text.bytes))
  | .err text => inferInstanceAs (Decidable ((13 : UInt8) ∉ text.bytes ∧ text.strlen < 511))
  | .int _ => inferInstanceAs (Decidable True)
  | .bulk _ => inferInstanceAs (Decidable True)
  | .array _ => inferInstanceAs (Decidable True)

/-- The simple strings and errors of `process_command`. -/
def fixedReplies : List CmdReply :=
  [.simple (.lit "OK"), .simple (.lit "PONG"), .simple (.lit "none"), .simple (.lit "string"),
    .simple (.lit "list"), .simple (.lit "set"), .simple (.lit "hash"), .simple (.lit "zset"),
    .err (.lit "ERR"), .err (.lit "ERR value is not an integer"),
    .err (.lit "ERR index out of range"), .err (.lit "ERR unknown command")]

/-- A simple string or an error is one of those. -/
def CmdReply.Fixed : CmdReply → Prop
  | .simple text => .simple text ∈ fixedReplies
  | .err text => .err text ∈ fixedReplies
  | _ => True

instance : (r : CmdReply) → Decidable r.Fixed
  | .simple text => inferInstanceAs (Decidable (.simple text ∈ fixedReplies))
  | .err text => inferInstanceAs (Decidable (.err text ∈ fixedReplies))
  | .int _ => inferInstanceAs (Decidable True)
  | .bulk _ => inferInstanceAs (Decidable True)
  | .array _ => inferInstanceAs (Decidable True)

theorem CmdReply.Fixed.plain {r : CmdReply} (h : r.Fixed) : r.Plain := by
  have hall : ∀ r ∈ fixedReplies, r.Plain := by decide
  cases r with
  | simple text => exact hall _ h
  | err text => exact hall _ h
  | _ => trivial

/-- A text that fits the buffer goes out as it is. -/
theorem sendBulk_of_fits {s : CStr} (h : (bulkText s).length < bulkMsgMax) (stack : List UInt8) :
    sendBulk stack (some s) = Resp.encodeBulk s.bytes := by
  have hfits : snprintf bulkMsgMax (bulkText s) = bulkText s :=
    List.take_of_length_le (by omega)
  have hlen : bulkLen s = (bulkText s).length := if_pos (lt_trans h (by decide))
  simp only [sendBulk, hfits, hlen, List.take_left]
  rfl

theorem length_bulkText (s : CStr) :
    (bulkText s).length = 3 + (decimal s.strlen).length + s.strlen := by
  simp only [bulkText, CStr.strlen, List.length_append, List.length_cons, List.length_nil]
  omega

theorem bulkText_fits_iff (s : CStr) : (bulkText s).length < bulkMsgMax ↔ s.strlen ≤ 8184 := by
  rw [length_bulkText, bulkMsgMax]
  constructor
  · intro h
    by_contra hlong
    have hdigits : 3 < (decimal s.strlen).length := Scanf.lt_length_decimal (by omega)
    omega
  · intro h
    have hdigits : (decimal s.strlen).length ≤ 3 + 1 := Scanf.length_decimalAux_le (by omega)
    omega

theorem sendBulk_short {s : CStr} (hs : s.strlen < 8000) (stack : List UInt8) :
    sendBulk stack (some s) = Resp.encodeBulk s.bytes :=
  sendBulk_of_fits ((bulkText_fits_iff s).mpr (by omega)) stack

/-- `send_bulk` sends the bulk string, whatever stands behind its buffer,
and no byte from behind it. -/
def BulkExact (s : CStr) : Prop :=
  (∀ stack, sendBulk stack (some s) = Resp.encodeBulk s.bytes) ∧ bulkLen s ≤ bulkMsgMax

theorem zero_notMem_bulkText (s : CStr) : (0 : UInt8) ∉ bulkText s := by
  simp only [bulkText, List.mem_append, List.mem_cons, List.not_mem_nil, or_false, not_or]
  refine ⟨⟨⟨by decide, fun hd => ?_⟩, by decide, by decide⟩, s.nulFree⟩
  exact absurd (Scanf.isDigit_of_mem_decimal hd) (by decide)

/-- Of a longer text the NUL that ends the buffer goes out too. -/
theorem not_bulkExact_of_long {s : CStr} (h : 8184 < s.strlen) : ¬ BulkExact s := by
  rintro ⟨hsend, -⟩
  have hlong : ¬ (bulkText s).length < bulkMsgMax := by
    rw [bulkText_fits_iff]
    omega
  have hsent : bulkMsgMax ≤ bulkLen s := by
    unfold bulkLen
    split
    · omega
    · decide
  have hnul : (0 : UInt8) ∈ sendBulk [] (some s) := by
    have hall : (snprintf bulkMsgMax (bulkText s) ++ [0]).length ≤ bulkLen s := by
      rw [snprintf, List.length_append, List.length_take, List.length_singleton]
      exact le_trans (Nat.add_le_add_right (min_le_left _ _) 1) hsent
    rw [sendBulk, List.take_of_length_le hall]
    simp
  have hencode : Resp.encodeBulk s.bytes = bulkText s ++ [13, 10] := rfl
  rw [hsend, hencode] at hnul
  simp [zero_notMem_bulkText] at hnul

theorem bulkExact_iff (s : CStr) : BulkExact s ↔ s.strlen ≤ 8184 := by
  constructor
  · intro hexact
    by_contra hlong
    exact not_bulkExact_of_long (by omega) hexact
  · intro hshort
    have hfits := (bulkText_fits_iff s).mpr hshort
    have hlen : bulkLen s = (bulkText s).length := if_pos (lt_trans hfits (by decide))
    exact ⟨sendBulk_of_fits hfits, by omega⟩

/-- 1000 bytes, what a request line can carry. -/
def thousand : CStr := .ofBuf (List.replicate 1000 97)

/-- The value of a key after nine APPENDs of that. -/
theorem sendBulk_nine_appends_not_exact :
    ∃ s, (KvTable.storeRun none none
        (List.replicate 9 (.append true (.lit "k") thousand 0)) : KvTable Int).kvGet (.lit "k")
          = some s ∧ ¬ BulkExact s := by
  have hlen : ((KvTable.storeRun none none
      (List.replicate 9 (.append true (.lit "k") thousand 0)) : KvTable Int).kvGet
        (.lit "k")).map CStr.strlen = some 9000 := by
    decide +kernel
  obtain ⟨s, hs, hlen⟩ := Option.map_eq_some_iff.mp hlen
  exact ⟨s, hs, not_bulkExact_of_long (by omega)⟩

/-- What the `send_*` functions write is one value. -/
theorem isOne_send {r : CmdReply} (hplain : r.Plain) (hshort : ∀ s ∈ r.strings, s.strlen < 8000)
    (stack : List UInt8) : Resp.IsOne (r.send stack) := by
  cases r with
  | simple text => exact Resp.isOne_encode (v := .simple text.bytes) hplain
  | err text =>
    have hfits : snprintf 512 (45 :: text.bytes) = 45 :: text.bytes := by
      have hlen : text.bytes.length < 511 := hplain.2
      exact List.take_of_length_le (by simp only [List.length_cons]; omega)
    have hsend : (CmdReply.err text).send stack = Resp.encode (.error text.bytes) := by
      simp only [CmdReply.send, sendErr, hfits]
      rfl
    rw [hsend]
    exact Resp.isOne_encode hplain.1
  | int n => exact Resp.isOne_encode (v := .int n) trivial
  | bulk s =>
    cases s with
    | none =>
      show Resp.IsOne (sendReply (CStr.lit "$-1").bytes)
      exact ⟨.nil, by decide⟩
    | some s =>
      show Resp.IsOne (sendBulk stack (some s))
      rw [sendBulk_short (hshort s (by simp [CmdReply.strings]))]
      exact Resp.isOne_encode (v := .bulk s.bytes) trivial
  | array items =>
    have hitems : items.flatMap (fun s => sendBulk stack (some s))
        = (items.map CStr.bytes).flatMap Resp.encodeBulk := by
      rw [List.flatMap_map]
      exact List.flatMap_congr fun s hs => sendBulk_short (hshort s hs) stack
    have hsend : (CmdReply.array items).send stack = Resp.encode (.array (items.map CStr.bytes)) := by
      simp only [CmdReply.send, sendArrayLen, sendReply, hitems, Resp.encode, List.length_map]
      rfl
    rw [hsend]
    exact Resp.isOne_encode trivial

/-! ## The branches that may die -/

/-- The command dereferences NULL before it replies. -/
def Dies (calloc : Calloc) (db : KvTable S) : StringCommand → Prop
  | .append k v => ∃ old, db.getStringObj k = some old ∧ old.append? v = none
  | .incr k | .decr k | .incrby k _ | .decrby k _ =>
    db.kvGetObject k = none ∧ (calloc.object = false ∨
      (db.CannotGrow calloc.entries ∧ (db.entry (db.probe k).1).value? = none))
  | _ => False

namespace KvTable

theorem kvAppend_segv_iff {db : KvTable S} (h : db.Wf) (calloc : Calloc) (key suffix : CStr)
    (usec : UInt64) : (db.kvAppend calloc key suffix usec).2 = .segv ↔
      ∃ old, db.getStringObj key = some old ∧ old.append? suffix = none := by
  cases hsel : db.wrObj DbObject.string? key with
  | some old =>
    simp only [kvAppend, createUnless, getStringObj, hsel, ne_eq, not_true_eq_false, if_false]
    cases happ : old.append? suffix with
    | none => simp [happ]
    | some n => simp [happ]
  | none =>
    have hnone : ¬ ∃ old, db.getStringObj key = some old ∧ old.append? suffix = none := by
      rintro ⟨old, hold, -⟩
      rw [getStringObj, hsel] at hold
      cases hold
    refine iff_of_false ?_ hnone
    by_cases hgrow : db.CannotStore calloc
    · simp [kvAppend_of_cannotStore hsel hgrow]
    · obtain ⟨t, hr, -, hget⟩ :=
        createUnless_of_canStore (objCreateString (.lit "") usec) h hsel hgrow
      have hnew : t.getStringObj key = some (.lit "") := by
        simp [getStringObj, wrObj, hget, objCreateString, DbObject.objCreate, DbObject.string?]
      have happ : ((CStr.lit "").append? suffix).isSome = true := by
        have := suffix.fits
        have hlit : (CStr.lit "").bytes.length = 0 := by decide
        rw [CStr.append?, dif_pos (by omega)]
        rfl
      obtain ⟨n, hn⟩ := Option.isSome_iff_exists.mp happ
      simp [kvAppend, hr, hnew, hn]

theorem kvIncrby_segv_iff {db : KvTable S} (h : db.Wf) (calloc : Calloc) (key : CStr) (delta : Int)
    (usec : UInt64) : (db.kvIncrby calloc key delta usec).2 = .segv ↔
      db.kvGetObject key = none ∧ (calloc.object = false ∨
        (db.CannotGrow calloc.entries ∧ (db.entry (db.probe key).1).value? = none)) := by
  have hfound : ∀ (t : KvTable S) (o : DbObject S), t.kvGetObject key = some o →
      (t.incrAt (t.probe key).1 delta).2 ≠ .segv := by
    intro t o hget
    rw [incrAt_found hget]
    cases o.string? <;> simp
  cases hp : (db.probe key).2 with
  | true =>
    obtain ⟨o, hget⟩ := probe_found_iff.mp hp
    rw [kvIncrby_found hget]
    refine iff_of_false (hfound db o hget) ?_
    rintro ⟨hnone, -⟩
    rw [hget] at hnone
    cases hnone
  | false =>
    cases hobj : calloc.object with
    | false => simp [kvIncrby_of_no_object hp hobj, kvGetObject_of_missed hp]
    | true =>
      rw [kvIncrby_missed hp hobj]
      by_cases hgrow : db.CannotGrow calloc.entries
      · have hstore : db.kvNextVersion.1.CannotStore calloc := .inr hgrow
        rw [kvSetObject_of_cannotStore hstore, probe_congr (entries_kvNextVersion db), incrAt,
          entry_congr (entries_kvNextVersion db)]
        cases hv : (db.entry (db.probe key).1).value? with
        | none => simp [kvGetObject_of_missed hp, hgrow]
        | some o => cases hs : o.string? <;> simp [hs]
      · have hstore : ¬ db.CannotStore calloc := not_or.mpr ⟨by simp [hobj], hgrow⟩
        refine iff_of_false (hfound _ _ (kvGetObject_zeroObj h hstore key usec)) ?_
        rintro ⟨-, hnone | ⟨hfull, -⟩⟩
        · cases hnone
        · exact hgrow hfull

/-- The object `kv_zadd` reads back is there. -/
theorem kvZadd_ne_segv [LinearOrder S] {db : KvTable S} (h : db.Wf) (calloc : Calloc) (key : CStr)
    (score : S) (member : CStr) (rand : Nat → Nat) :
    (db.kvZadd calloc key score member rand).2 ≠ .segv := by
  cases hsel : db.wrObj DbObject.zset? key with
  | some z => simp [kvZadd, createUnless, hsel]
  | none =>
    by_cases hgrow : db.CannotStore calloc
    · simp [kvZadd_of_cannotStore hsel hgrow]
    · obtain ⟨t, hr, -, hget⟩ := createUnless_of_canStore objCreateZset h hsel hgrow
      have hnew : t.wrObj DbObject.zset? key = some Zskiplist.zslCreate := by
        rw [wrObj, hget]
        rfl
      simp [kvZadd, hr, hnew]

end KvTable

namespace Server

/-- A string write or a DEL replies unless it dies. -/
theorem exec_reply_none_iff {srv : Server S} (h : srv.db.Wf) (env : Env) (c : StringCommand) :
    (srv.exec env c).2 = none ↔ Dies env.calloc srv.db c := by
  have hanswer : ∀ (r : KvTable S × Outcome Int) (err : CStr),
      (srv.answer r err).2 = none ↔ r.2 = .segv := by
    rintro ⟨db, _ | _ | _⟩ err <;> simp [answer]
  have hincr : ∀ key delta err,
      (srv.answer (srv.db.kvIncrby env.calloc key delta env.usec) err).2 = none ↔
        srv.db.kvGetObject key = none ∧ (env.calloc.object = false ∨
          (srv.db.CannotGrow env.calloc.entries ∧
            (srv.db.entry (srv.db.probe key).1).value? = none)) := fun key delta err =>
    (hanswer _ err).trans (KvTable.kvIncrby_segv_iff h env.calloc key delta env.usec)
  cases c with
  | set k v options =>
    simp only [exec, Dies, iff_false]
    split <;> simp
  | setnx k v => simp [exec, Dies]
  | setex k t v => simp [exec, Dies]
  | append k v =>
    have happ : (appendLen (srv.db.kvAppend env.calloc k v env.usec)).2 = .segv ↔
        (srv.db.kvAppend env.calloc k v env.usec).2 = .segv := by
      rcases srv.db.kvAppend env.calloc k v env.usec with ⟨db, _ | _ | _⟩ <;> simp [appendLen]
    exact (hanswer _ _).trans (happ.trans (KvTable.kvAppend_segv_iff h env.calloc k v env.usec))
  | incr k => exact hincr k 1 _
  | decr k => exact hincr k (wrap64 (-1)) _
  | incrby k d => exact hincr k (argI d) _
  | decrby k d => exact hincr k (wrap64 (-argI d)) _
  | del ks => simp [exec, Dies]

theorem zaddAll_isSome [LinearOrder S] (w : World S) (key : CStr) (pairs : List (CStr × CStr))
    (i : Nat) (db : KvTable S) (h : db.Wf) (added : Int) :
    (zaddAll w key i pairs db added).2.isSome = true := by
  induction pairs generalizing i db added with
  | nil => rfl
  | cons p pairs ih =>
    have hwf := h.kvZadd (w.callocs i) key (w.strtod p.1) p.2 (w.draws i)
    have hlives := KvTable.kvZadd_ne_segv h (w.callocs i) key (w.strtod p.1) p.2 (w.draws i)
    rw [zaddAll]
    revert hwf hlives
    rcases db.kvZadd (w.callocs i) key (w.strtod p.1) p.2 (w.draws i) with ⟨t, _ | _ | _⟩
    · exact fun hwf _ => ih (i + 1) t hwf 1
    · exact fun hwf _ => ih (i + 1) t hwf added
    · exact fun _ hlives => absurd rfl hlives

/-- The other branches always reply. -/
theorem execOther_isSome [LinearOrder S] (w : World S) (ps : PubsubMgr) {db : KvTable S}
    (h : db.Wf) {c : Command} (hc : ∀ s, c ≠ .string s) :
    (execOther w ps db c).2.isSome = true := by
  cases c with
  | string s => exact absurd rfl (hc s)
  | ping arg => cases arg <;> rfl
  | lset key idx value =>
    simp only [execOther]
    split <;> rfl
  | sadd key members =>
    simp only [execOther]
    split <;> rfl
  | hset key field value =>
    simp only [execOther]
    split <;> rfl
  | zadd key pairs =>
    have hadded := zaddAll_isSome w key pairs 0 db h 0
    simp only [execOther, Option.isSome_map]
    exact hadded
  | _ => rfl

/-- Every text a branch replies with is one of the literals. -/
theorem fixed_execOther [LinearOrder S] (w : World S) (ps : PubsubMgr) (db : KvTable S)
    (c : Command) : ∀ r ∈ (execOther w ps db c).2, r.Fixed := by
  intro r hr
  cases c with
  | ping arg =>
    cases arg with
    | none =>
      obtain rfl := Option.some.inj hr
      decide
    | some arg =>
      obtain rfl := Option.some.inj hr
      trivial
  | quit =>
    obtain rfl := Option.some.inj hr
    decide
  | string s => cases hr
  | read cmd =>
    obtain rfl := Option.some.inj hr
    cases cmd.answer db with
    | type t =>
      rcases t with _ | _ | _ | _ | _ | _ <;> simp only [ReadAnswer.reply] <;> decide
    | _ => trivial
  | save =>
    obtain rfl := Option.some.inj hr
    split <;> decide
  | lset key idx value =>
    simp only [execOther] at hr
    split at hr <;> obtain rfl := Option.some.inj hr <;> decide
  | sadd key members =>
    simp only [execOther] at hr
    split at hr <;> obtain rfl := Option.some.inj hr <;> trivial
  | hset key field value =>
    simp only [execOther] at hr
    split at hr <;> obtain rfl := Option.some.inj hr <;> trivial
  | zadd key pairs =>
    obtain ⟨n, -, rfl⟩ := Option.map_eq_some_iff.mp hr
    trivial
  | unknown =>
    obtain rfl := Option.some.inj hr
    decide
  | _ =>
    obtain rfl := Option.some.inj hr
    trivial

theorem fixed_exec (env : Env) (srv : Server S) (c : StringCommand) :
    ∀ r ∈ (srv.exec env c).2, r.toCmdReply.Fixed := by
  have hanswer : ∀ (r : KvTable S × Outcome Int) (err : CStr), (CmdReply.err err).Fixed →
      ∀ reply ∈ (srv.answer r err).2, reply.toCmdReply.Fixed := by
    rintro ⟨db, _ | _ | _⟩ err herr reply hreply
    · obtain rfl := Option.some.inj hreply
      trivial
    · obtain rfl := Option.some.inj hreply
      exact herr
    · cases hreply
  intro r hr
  cases c with
  | set k v options =>
    simp only [exec] at hr
    split at hr <;> obtain rfl := Option.some.inj hr <;> decide
  | setnx k v =>
    obtain rfl := Option.some.inj hr
    trivial
  | setex k t v =>
    obtain rfl := Option.some.inj hr
    decide
  | append k v => exact hanswer _ _ (by decide) r hr
  | incr k => exact hanswer _ _ (by decide) r hr
  | decr k => exact hanswer _ _ (by decide) r hr
  | incrby k d => exact hanswer _ _ (by decide) r hr
  | decrby k d => exact hanswer _ _ (by decide) r hr
  | del ks =>
    obtain rfl := Option.some.inj hr
    trivial

/-! ## One reply -/

variable [LinearOrder S]

theorem execCommand_other (w : World S) (ps : PubsubMgr) (srv : Server S) {c : Command}
    (hc : ∀ s, c ≠ .string s) : (srv.execCommand w ps c).2 = (execOther w ps srv.db c).2 := by
  cases c with
  | string s => exact absurd rfl (hc s)
  | _ => rfl

/-- A branch replies unless it is one that dies. -/
theorem execCommand_reply_none_iff {srv : Server S} (h : srv.db.Wf) (w : World S) (ps : PubsubMgr)
    (c : Command) :
    (srv.execCommand w ps c).2 = none ↔ ∃ s, c = .string s ∧ Dies w.calloc srv.db s := by
  by_cases hc : ∃ s, c = .string s
  · obtain ⟨s, rfl⟩ := hc
    simp only [execCommand, Option.map_eq_none_iff, exec_reply_none_iff h, Command.string.injEq,
      exists_eq_left']
  · have hne : ∀ s, c ≠ .string s := fun s hs => hc ⟨s, hs⟩
    have hsome := execOther_isSome w ps h hne
    rw [execCommand_other w ps srv hne]
    constructor
    · intro hnone
      rw [hnone] at hsome
      cases hsome
    · rintro ⟨s, hs, -⟩
      exact absurd ⟨s, hs⟩ hc

theorem fixed_execCommand (w : World S) (ps : PubsubMgr) (srv : Server S) (c : Command) :
    ∀ r ∈ (srv.execCommand w ps c).2, r.Fixed := by
  intro r hr
  by_cases hc : ∃ s, c = .string s
  · obtain ⟨s, rfl⟩ := hc
    obtain ⟨reply, hreply, rfl⟩ := Option.map_eq_some_iff.mp hr
    exact fixed_exec w.toEnv srv s reply hreply
  · rw [execCommand_other w ps srv fun s hs => hc ⟨s, hs⟩] at hr
    exact fixed_execOther w ps srv.db c r hr

/-- What a PUBLISH sends goes to subscribers. -/
theorem sentOn_published {ps : PubsubMgr} {fd : Int}
    (hfd : ∀ e ∈ ps.channels, ∀ s ∈ e.subs, s.fd ≠ fd) (c : Command) :
    (published ps c).filter (fun s => s.1 = fd) = [] := by
  cases c with
  | publish ch words =>
    rw [List.filter_eq_nil_iff]
    intro x hx heq
    obtain ⟨sub, hsub, rfl⟩ := List.mem_map.mp hx
    have hbatch : sub ∈ ps.subsOf ch := List.mem_of_mem_take (List.mem_filter.mp hsub).1
    unfold PubsubMgr.subsOf at hbatch
    cases hch : ps.channel? ch with
    | none =>
      rw [hch] at hbatch
      exact absurd hbatch List.not_mem_nil
    | some e =>
      rw [hch] at hbatch
      exact hfd e (List.mem_of_find?_eq_some hch) sub hbatch (of_decide_eq_true heq)
  | _ => rfl

/-- **One reply per command**: on any reachable store, with strings that
fit the buffer, a request of a connection without subscriptions gets
exactly one RESP value, unless it is one that dies. -/
theorem one_reply_iff (path : Option CStr) (file : Option (List UInt8)) (ops : List (StoreOp S))
    (srv : Server S) (hdb : srv.db = KvTable.storeRun path file ops) (w : World S) (ps : PubsubMgr)
    (fd : Int) (hfd : ∀ e ∈ ps.channels, ∀ s ∈ e.subs, s.fd ≠ fd) (line cmd : CStr)
    (args : List CStr) (hline : parseLine line maxArgs = cmd :: args)
    (hshort : ∀ r ∈ (srv.execCommand w ps (branch cmd args)).2,
      ∀ s ∈ r.strings, s.strlen < 8000) :
    Resp.IsOne (sentOn fd (srv.processCommandSends w ps fd line).2) ↔
      ¬ ∃ s, branch cmd args = .string s ∧ Dies w.calloc srv.db s := by
  have hwf : srv.db.Wf := hdb ▸ KvTable.Wf.storeRun path file ops
  have hplain : ∀ r ∈ (srv.execCommand w ps (branch cmd args)).2, r.Plain := fun r hr =>
    (fixed_execCommand w ps srv (branch cmd args) r hr).plain
  rw [← execCommand_reply_none_iff hwf w ps]
  simp only [processCommandSends, hline, sentOn, List.filter_append, sentOn_published hfd,
    List.nil_append]
  revert hshort hplain
  cases (srv.execCommand w ps (branch cmd args)).2 with
  | none =>
    intro _ _
    exact iff_of_false Resp.not_isOne_nil (fun h => h rfl)
  | some r =>
    intro hshort hplain
    have hone := isOne_send (hplain r rfl) (hshort r rfl) w.stack
    refine iff_of_true ?_ (by simp)
    simpa using hone

/-- A world in which no larger table can be allocated. -/
def noMemory : World Int where
  calloc := false
  usec := 0
  now := fun _ => 0
  callocs := fun _ => false
  draws := fun _ _ => 1
  junk := 0
  fopen := true
  stack := []
  strtod := fun _ => 0
  formatG := fun _ => .lit "0"

def fullServer : Server Int where
  db := .storeRun none none KvTable.oneLetterKeys
  myId := .blank
  enqueued := []
  crashed := false

theorem one_reply_get :
    fullServer.db = KvTable.storeRun none none KvTable.oneLetterKeys ∧
      Resp.IsOne (sentOn 5 (fullServer.processCommandSends noMemory .pubsubCreate 5
        (.lit "get a")).2) := by
  have hdb : fullServer.db = KvTable.storeRun none none KvTable.oneLetterKeys := by
    simp only [fullServer]
  have hline : parseLine (.lit "get a") maxArgs = [.lit "get", .lit "a"] := by decide
  have hreply : (fullServer.execCommand noMemory .pubsubCreate
      (branch (.lit "get") [.lit "a"])).2 = some (.bulk (some (.lit "1"))) := by decide +kernel
  refine ⟨hdb, (one_reply_iff none none KvTable.oneLetterKeys fullServer hdb noMemory
    .pubsubCreate 5 (fun e he => absurd he List.not_mem_nil) _ _ _ hline ?_).mpr ?_⟩
  · intro r hr s hs
    rw [hreply] at hr
    obtain rfl := Option.some.inj hr
    rw [List.mem_singleton.mp hs]
    decide
  · rintro ⟨s, hs, -⟩
    have hread : branch (.lit "get") [.lit "a"] = .read (.get (.lit "a")) := by rfl
    rw [hread] at hs
    cases hs

/-- INCR of a new key, with no memory for a larger table, is never
answered. -/
theorem incr_without_memory_not_answered :
    ¬ Resp.IsOne (sentOn 5 (fullServer.processCommandSends noMemory .pubsubCreate 5
      (.lit "incr zz")).2) := by
  have hnothing : sentOn 5 (fullServer.processCommandSends noMemory .pubsubCreate 5
      (.lit "incr zz")).2 = [] := by decide +kernel
  rw [hnothing]
  exact Resp.not_isOne_nil

end Server

end AntzKV

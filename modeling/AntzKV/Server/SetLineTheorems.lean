/-
AntzKV.Server.SetLineTheorems — what a line `SET key value` stores.

On its way to the table the line passes `rxbuf`, which takes 16383 bytes,
and `line`, which takes 4095 and drops the rest without a word. What the
parse makes of the cut line is one of three things (`parseLine_setLine`):
the key and the value, the key and the beginning of the value, or no value
at all, which is not a SET. `setStores_iff` says when an OK means that the
value is stored.
-/
import AntzKV.Server.ModeTheorems
import AntzKV.Server.ReplicationTheorems

namespace AntzKV

open LineFraming (Reader)

variable {S : Type}

/-- A token of a request: bytes without delimiter and newline. -/
def IsToken (t : CStr) : Prop := t.bytes ≠ [] ∧ ∀ b ∈ t.bytes, isDelim b = false ∧ b ≠ 10

instance (t : CStr) : Decidable (IsToken t) :=
  inferInstanceAs (Decidable (t.bytes ≠ [] ∧ ∀ b ∈ t.bytes, isDelim b = false ∧ b ≠ 10))

/-- A text of so many letters. -/
def letters (n : Nat) (h : n + 1 < objectBound) : CStr where
  bytes := List.replicate n 97
  nulFree := fun h0 => absurd (List.eq_of_mem_replicate h0) (by decide)
  fits := by rwa [List.length_replicate]

@[simp] theorem strlen_letters (n : Nat) (h : n + 1 < objectBound) : (letters n h).strlen = n :=
  List.length_replicate

theorem isToken_letters {n : Nat} (hn : n ≠ 0) (h : n + 1 < objectBound) : IsToken (letters n h) := by
  refine ⟨fun hnil => hn (by simpa [letters] using hnil), fun b hb => ?_⟩
  rw [List.eq_of_mem_replicate hb]
  decide

/-- `"SET key value"` -/
def setLine (k v : CStr) : List UInt8 := (CStr.lit "SET").bytes ++ 32 :: (k.bytes ++ 32 :: v.bytes)

theorem length_setLine (k v : CStr) : (setLine k v).length = k.strlen + v.strlen + 5 := by
  have hset : (CStr.lit "SET").bytes.length = 3 := by decide
  simp only [setLine, List.length_append, List.length_cons, hset, CStr.strlen]
  omega

/-! ## Parsing the line -/

theorem parseLine_of_words {buf : CStr} {ts : List CStr} (hfew : ts.length ≤ maxArgs)
    (h : Words.words isDelim buf.bytes = ts.map CStr.bytes) : parseLine buf maxArgs = ts := by
  have hinj : Function.Injective CStr.bytes := fun _ _ => CStr.ext
  refine List.map_injective_iff.mpr hinj ?_
  rw [bytes_parseLine, h, List.take_of_length_le (by rwa [List.length_map])]

theorem words_set (l : List UInt8) :
    Words.words isDelim ((CStr.lit "SET").bytes ++ 32 :: l)
      = (CStr.lit "SET").bytes :: Words.words isDelim l := by
  rw [Words.words_append_cons (by decide),
    Words.words_eq_singleton (by decide +kernel) (by decide +kernel), List.singleton_append]

theorem IsToken.words {t : CStr} (h : IsToken t) : Words.words isDelim t.bytes = [t.bytes] :=
  Words.words_eq_singleton (fun b hb => (h.2 b hb).1) h.1

theorem IsToken.take {t : CStr} (h : IsToken t) {n : Nat} (hn : 0 < n) : IsToken (t.take n) := by
  refine ⟨?_, fun b hb => h.2 b (List.mem_of_mem_take hb)⟩
  show t.bytes.take n ≠ []
  simp [h.1, Nat.pos_iff_ne_zero.mp hn]

theorem isLine_setLine {k v : CStr} (hk : IsToken k) (hv : IsToken v) :
    LineFraming.IsLine (setLine k v) := by
  have htoken : ∀ t : CStr, IsToken t → ∀ b ∈ t.bytes, b ≠ 0 ∧ b ≠ 10 := fun t ht b hb =>
    ⟨fun h0 => t.nulFree (h0 ▸ hb), (ht.2 b hb).2⟩
  have hset : ∀ b ∈ (CStr.lit "SET").bytes, b ≠ 0 ∧ b ≠ 10 := by decide +kernel
  have hblank : (32 : UInt8) ≠ 0 ∧ (32 : UInt8) ≠ 10 := by decide
  intro b hb
  simp only [setLine, List.mem_append, List.mem_cons] at hb
  rcases hb with hb | rfl | hb | rfl | hb
  · exact hset b hb
  · exact hblank
  · exact htoken k hk b hb
  · exact hblank
  · exact htoken v hv b hb

/-- The line as it stands in `line`. -/
def cutLine (k v : CStr) : CStr := .ofBuf ((setLine k v).take (bufferSize - 1))

theorem bytes_cutLine {k v : CStr} (hk : IsToken k) (hv : IsToken v) :
    (cutLine k v).bytes = (setLine k v).take (bufferSize - 1) := by
  have hnul : (0 : UInt8) ∉ (setLine k v).take (bufferSize - 1) := fun h0 =>
    (isLine_setLine hk hv 0 (List.mem_of_mem_take h0)).1 rfl
  have hlen : ((setLine k v).take (bufferSize - 1)).length + 1 < objectBound :=
    lt_of_le_of_lt (Nat.add_le_add_right (List.length_take_le _ _) 1) (by decide)
  exact congrArg CStr.bytes (CStr.ofBuf_bytes ⟨_, hnul, hlen⟩)

/-- `line` holds the command word and what follows it, up to its end. -/
theorem bytes_cutLine_eq {k v : CStr} (hk : IsToken k) (hv : IsToken v) :
    (cutLine k v).bytes
      = (CStr.lit "SET").bytes ++ 32 :: (k.bytes ++ 32 :: v.bytes).take 4091 := by
  have hset : (CStr.lit "SET").bytes.length = 3 := by decide
  have hsize : bufferSize = 4096 := rfl
  rw [bytes_cutLine hk hv, setLine, List.take_append, hset, hsize,
    List.take_of_length_le (by omega), List.take_succ_cons]

/-- What the parse finds in the line: everything, a value that is cut, or
no value. -/
theorem parseLine_cutLine {k v : CStr} (hk : IsToken k) (hv : IsToken v) :
    parseLine (cutLine k v) maxArgs
      = if k.strlen + v.strlen ≤ 4090 then [.lit "SET", k, v]
        else if k.strlen < 4090 then [.lit "SET", k, v.take (4090 - k.strlen)]
        else [.lit "SET", k.take 4091] := by
  have hbytes := bytes_cutLine_eq hk hv
  have hklen : k.bytes.length = k.strlen := rfl
  have hvlen : v.bytes.length = v.strlen := rfl
  have hthree : ∀ t : CStr, IsToken t →
      (cutLine k v).bytes = (CStr.lit "SET").bytes ++ 32 :: (k.bytes ++ 32 :: t.bytes) →
      parseLine (cutLine k v) maxArgs = [.lit "SET", k, t] := by
    intro t ht h
    refine parseLine_of_words (by simp [maxArgs]) ?_
    rw [h, words_set, Words.words_append_cons (by decide), hk.words, ht.words]
    rfl
  split
  · rename_i hall
    refine hthree v hv ?_
    rw [hbytes, List.take_of_length_le]
    simp only [List.length_append, List.length_cons]
    omega
  · rename_i hlong
    split
    · rename_i hkey
      refine hthree _ (hv.take (by omega)) ?_
      have hrest : 4091 - k.bytes.length = 4090 - k.strlen + 1 := by omega
      rw [hbytes, List.take_append, List.take_of_length_le (by omega), hrest, List.take_succ_cons]
      rfl
    · rename_i hkey
      have hrest : ∀ b ∈ ((32 : UInt8) :: v.bytes).take (4091 - k.bytes.length),
          isDelim b = true := by
        intro b hb
        have hone : 4091 - k.bytes.length ≤ 1 := by omega
        have hmem := List.take_subset_take_left (32 :: v.bytes) hone hb
        obtain rfl : b = 32 := by simpa using hmem
        decide
      refine parseLine_of_words (by simp [maxArgs]) ?_
      rw [hbytes, words_set, List.take_append, Words.words_append_seps hrest]
      exact congrArg _ (hk.take (by decide : 0 < 4091)).words

/-- The quick parse finds the command word. -/
theorem quickParse_cutLine {k v : CStr} (hk : IsToken k) (hv : IsToken v) :
    ∃ args, quickParse (cutLine k v) = .lit "SET" :: args := by
  have hset : (CStr.lit "SET").bytes.length = 3 := by decide
  have hmax : maxArgs = 64 := rfl
  have hwords := quickParse_words (cutLine k v)
  rw [bytes_cutLine_eq hk hv, List.take_append, hset, List.take_of_length_le (by omega), hmax,
    List.take_succ_cons, words_set] at hwords
  obtain ⟨cmd, args, hparse⟩ := List.exists_cons_of_ne_nil
    (List.ne_nil_of_length_pos (l := quickParse (cutLine k v)) (by
      rw [← List.length_map (f := CStr.bytes), hwords]
      exact Nat.zero_lt_succ _))
  rw [hparse, List.map_cons] at hwords
  exact ⟨args, by rw [hparse, CStr.ext (List.cons.inj hwords).1]⟩

/-! ## Executing it -/

theorem set_ne_ping : strcasecmpEq (.lit "SET") (.lit "PING") = false := by decide

theorem set_ne_quit : strcasecmpEq (.lit "SET") (.lit "QUIT") = false := by decide

theorem set_eq_set : strcasecmpEq (.lit "SET") (.lit "SET") = true := by decide

theorem branch_set (k t : CStr) : branch (.lit "SET") [k, t] = .string (.set k t []) := by
  simp [branch, route, set_ne_ping, set_ne_quit, set_eq_set]

/-- A SET without a value is no command. -/
theorem branch_set_short (k : CStr) : branch (.lit "SET") [k] = .unknown := by
  have htable : (commandTable.find? fun c => strcasecmpEq (.lit "SET") c.1).isNone = true := by
    decide
  simp [branch, route, set_ne_ping, set_ne_quit, set_eq_set,
    Option.isNone_iff_eq_none.mp htable]

/-- `+OK` as it is sent. -/
def okReply : List UInt8 := (CmdReply.simple (.lit "OK")).send []

namespace Server

variable [LinearOrder S] {srv : Server S} {line k t : CStr}

/-- A SET with memory to grow stores its value and says OK. -/
theorem processCommandSends_set (h : srv.db.Wf) (w : World S) (ps : PubsubMgr) (fd : Int)
    (hparse : parseLine line maxArgs = [.lit "SET", k, t])
    (hgrow : ¬ srv.db.CannotStore w.calloc) :
    (srv.processCommandSends w ps fd line).2 = [(fd, okReply)] ∧
      (srv.processCommandSends w ps fd line).1.db.kvGet k = some t := by
  have hret : (srv.db.kvSet w.calloc k t w.usec).2 = 0 :=
    KvTable.kvSet_of_canStore hgrow k t w.usec
  have hself := KvTable.kvGetObject_kvSetObject_self h.kvNextVersion hret
  simp only [processCommandSends, hparse, branch_set, execCommand, exec, hret, if_true, published,
    setOptions, db_replicateSet]
  refine ⟨rfl, ?_⟩
  exact (congrArg (fun o => o.bind DbObject.string?) hself).trans rfl

/-- Without memory to grow it says so. -/
theorem processCommandSends_set_of_cannotStore (w : World S) (ps : PubsubMgr) (fd : Int)
    (hparse : parseLine line maxArgs = [.lit "SET", k, t])
    (hgrow : srv.db.CannotStore w.calloc) :
    (srv.processCommandSends w ps fd line).2 = [(fd, sendErr (.lit "ERR"))] := by
  simp only [processCommandSends, hparse, branch_set, execCommand, exec,
    KvTable.kvSet_of_cannotStore hgrow, published]
  rfl

theorem processCommandSends_set_short (w : World S) (ps : PubsubMgr) (fd : Int)
    (hparse : parseLine line maxArgs = [.lit "SET", k]) :
    (srv.processCommandSends w ps fd line).2 = [(fd, sendErr (.lit "ERR unknown command"))] := by
  simp only [processCommandSends, hparse, branch_set_short, execCommand, execOther, published]
  rfl

end Server

/-! ## The read loop -/

namespace Session

variable [LinearOrder S] {s : Session S} {k v : CStr}

/-- Whatever the reads bring, an OK to the line `SET k v` means that `v` is
the string under `k`. -/
def SetStores (fd : Int) (wlock : Option Nat) (s : Session S) (k v : CStr) : Prop :=
  ∀ reads : List Nat, (∀ n ∈ reads, 0 < n) →
    (reads.foldl (handleClientUnlocked fd wlock) ⟨s, [], setLine k v ++ [10], false⟩).state.sent
        = s.sent ++ [(fd, okReply)] →
    (reads.foldl (handleClientUnlocked fd wlock)
      ⟨s, [], setLine k v ++ [10], false⟩).state.srv.db.kvGet k = some v

/-- The read loop does to the session what the cut line does. -/
theorem setStores_iff_clientLine (fd : Int) (wlock : Option Nat) (hk : IsToken k) (hv : IsToken v)
    (hfits : (setLine k v).length + 1 ≤ 16383) :
    SetStores fd wlock s k v ↔
      ((s.clientLine fd wlock (cutLine k v)).sent = s.sent ++ [(fd, okReply)] →
        (s.clientLine fd wlock (cutLine k v)).srv.db.kvGet k = some v) := by
  have hline := isLine_setLine hk hv
  have hnul : ∀ b ∈ setLine k v ++ [10], b ≠ 0 := by
    intro b hb
    rcases List.mem_append.mp hb with hb | hb
    · exact (hline b hb).1
    · rw [List.mem_singleton.mp hb]
      decide
  have hframes := (request_framing (fun (s : Session S) line =>
    (s.clientLine fd wlock (.ofBuf line), (s.clientLine fd wlock (.ofBuf line)).quit))
    (fun s _ => s) s (setLine k v ++ [10]) hnul).1
  obtain ⟨hall, reads, hreads, hafter⟩ := hframes.single hline hfits
  constructor
  · intro hstores hsent
    have hget := hstores reads hreads ((congrArg Session.sent hafter).trans hsent)
    exact (congrArg (fun t : Session S => t.srv.db.kvGet k) hafter).symm.trans hget
  · intro hstores reads hreads hsent
    rcases hall reads hreads with hstate | hstate
    · have hnothing := (congrArg Session.sent hstate).symm.trans hsent
      exact absurd hnothing (by simp)
    · have hget := hstores ((congrArg Session.sent hstate).symm.trans hsent)
      exact (congrArg (fun t : Session S => t.srv.db.kvGet k) hstate).trans hget

/-- Outside Pub/Sub mode the cut line is executed. -/
theorem clientLine_cutLine (hmode : s.subscribed = false) (fd : Int) (wlock : Option Nat)
    (hk : IsToken k) (hv : IsToken v) :
    (s.clientLine fd wlock (cutLine k v)).sent
        = s.sent ++ (s.srv.processCommandSends (s.worlds 0) s.ps fd (cutLine k v)).2 ∧
      (s.clientLine fd wlock (cutLine k v)).srv
        = (s.srv.processCommandSends (s.worlds 0) s.ps fd (cutLine k v)).1 := by
  obtain ⟨args, hquick⟩ := quickParse_cutLine hk hv
  have hsub : isSubscribe (.lit "SET") = false := by decide
  have hunsub : isUnsubscribe (.lit "SET") = false := by decide
  have hdispatch := dispatch_of_ordinary fd wlock s hsub hunsub (cutLine k v) args
  simp only [hmode, set_ne_quit, Bool.false_eq_true, if_false] at hdispatch
  rw [clientLine, hquick, hdispatch]
  exact ⟨rfl, rfl⟩

/-- Another reply than OK. -/
theorem sends_ne {fd : Int} {text : List UInt8} (h : text ≠ okReply) :
    [(fd, text)] ≠ [(fd, okReply)] := by
  simpa using h

/-- **No silent truncation**: over any reachable table an OK means that the
value is stored, exactly when the line fits `line`, or nothing of the value
does, or there is no OK in any case. -/
theorem setStores_iff (path : Option CStr) (file : Option (List UInt8)) (ops : List (StoreOp S))
    (s : Session S) (hdb : s.srv.db = KvTable.storeRun path file ops) (fd : Int)
    (wlock : Option Nat) (hk : IsToken k) (hv : IsToken v)
    (hfits : (setLine k v).length + 1 ≤ 16383) :
    SetStores fd wlock s k v ↔ k.strlen + v.strlen ≤ 4090 ∨ 4090 ≤ k.strlen ∨
      s.subscribed = true ∨ s.srv.db.CannotStore (s.worlds 0).calloc := by
  have hwf : s.srv.db.Wf := hdb ▸ KvTable.Wf.storeRun path file ops
  rw [setStores_iff_clientLine fd wlock hk hv hfits]
  cases hmode : s.subscribed with
  | true =>
    refine iff_of_true (fun hsent => ?_) (by simp)
    obtain ⟨args, hquick⟩ := quickParse_cutLine hk hv
    have hskip : s.clientLine fd wlock (cutLine k v) = s.tick := by
      rw [clientLine, hquick, dispatch_of_ordinary _ _ _ (by decide) (by decide),
        if_pos hmode]
    rw [hskip] at hsent
    have hnothing : s.sent = s.sent ++ [(fd, okReply)] := hsent
    exact absurd hnothing (by simp)
  | false =>
    obtain ⟨hsent, hsrv⟩ := clientLine_cutLine hmode fd wlock hk hv
    rw [hsent, hsrv, List.append_cancel_left_eq]
    have hparse := parseLine_cutLine hk hv
    by_cases hkey : 4090 ≤ k.strlen
    · have hvlen : 0 < v.strlen := List.length_pos_of_ne_nil hv.1
      rw [if_neg (by omega), if_neg (by omega)] at hparse
      refine iff_of_true (fun hok => ?_) (.inr (.inl hkey))
      rw [Server.processCommandSends_set_short _ _ _ hparse] at hok
      exact absurd hok (sends_ne (by decide))
    · obtain ⟨t, hparse, ht⟩ : ∃ t, parseLine (cutLine k v) maxArgs = [.lit "SET", k, t] ∧
          (t = v ↔ k.strlen + v.strlen ≤ 4090) := by
        by_cases hall : k.strlen + v.strlen ≤ 4090
        · rw [if_pos hall] at hparse
          exact ⟨v, hparse, iff_of_true rfl hall⟩
        · rw [if_neg hall, if_pos (by omega)] at hparse
          refine ⟨_, hparse, iff_of_false (fun hcut => ?_) hall⟩
          have hlen := congrArg CStr.strlen hcut
          have hshort : (v.take (4090 - k.strlen)).strlen ≤ 4090 - k.strlen :=
            List.length_take_le _ _
          omega
      by_cases hgrow : s.srv.db.CannotStore (s.worlds 0).calloc
      · refine iff_of_true (fun hok => ?_) (.inr (.inr (.inr hgrow)))
        rw [Server.processCommandSends_set_of_cannotStore _ _ _ hparse hgrow] at hok
        exact absurd hok (sends_ne (by decide))
      · obtain ⟨hok, hget⟩ := Server.processCommandSends_set hwf (s.worlds 0) s.ps fd hparse hgrow
        simp only [hok, hget, true_implies, Option.some.injEq, ht, hkey, hgrow, Bool.false_eq_true,
          or_false]

def roomyWorld : World Int := { Server.noMemory with calloc := true }

/-- A fresh store, and a connection in its ordinary mode. -/
def freshSession : Session Int :=
  start 5 ⟨.storeRun none none [], .blank, [], false⟩ .pubsubCreate fun _ => roomyWorld

theorem setStores_short :
    freshSession.srv.db = KvTable.storeRun none none [] ∧
      SetStores 5 none freshSession (.lit "k") (.lit "v") := by
  have hdb : freshSession.srv.db = KvTable.storeRun none none [] := rfl
  exact ⟨hdb, (setStores_iff none none [] freshSession hdb 5 none (by decide +kernel)
    (by decide +kernel) (by decide +kernel)).mpr (.inl (by decide +kernel))⟩

/-- A value that ends behind the 4095th byte of its line. -/
def longValue : CStr := letters 4090 (by decide)

/-- Its last byte is dropped, and the reply is OK. -/
theorem longValue_not_setStores :
    freshSession.srv.db = KvTable.storeRun none none [] ∧ IsToken (.lit "k") ∧
      IsToken longValue ∧ (setLine (.lit "k") longValue).length + 1 ≤ 16383 ∧
      ¬ SetStores 5 none freshSession (.lit "k") longValue := by
  have hk : IsToken (.lit "k") := by decide +kernel
  have hv : IsToken longValue := isToken_letters (by decide) _
  have hklen : (CStr.lit "k").strlen = 1 := by decide
  have hvlen : longValue.strlen = 4090 := strlen_letters _ _
  have hfits : (setLine (.lit "k") longValue).length + 1 ≤ 16383 := by
    rw [length_setLine, hklen, hvlen]
    decide
  refine ⟨rfl, hk, hv, hfits, ?_⟩
  rw [setStores_iff_clientLine 5 none hk hv hfits]
  obtain ⟨hsent, hsrv⟩ := clientLine_cutLine (s := freshSession) rfl 5 none hk hv
  have hparse := parseLine_cutLine hk hv
  rw [hklen, hvlen, if_neg (by decide), if_pos (by decide)] at hparse
  have hwf : freshSession.srv.db.Wf := KvTable.Wf.storeRun none none []
  obtain ⟨hok, hget⟩ := Server.processCommandSends_set hwf (freshSession.worlds 0) freshSession.ps 5
    hparse (by decide)
  rw [hsent, hsrv, hok, hget]
  intro hstores
  have hcut := congrArg CStr.strlen (Option.some.inj (hstores rfl))
  have hshort : (longValue.take (4090 - 1)).strlen ≤ 4090 - 1 := List.length_take_le _ _
  omega

end Session

end AntzKV

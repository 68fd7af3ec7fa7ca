/-
AntzKV.Server.ConnectionTheorems — when the two parses of a line agree.

The quick parse sees the first 63 bytes of a line, the parse of
`process_command` all of it. They find the same first token exactly when
it ends within those bytes (`head?_quickParse_iff`), and the same tokens
exactly when only delimiters follow them (`quickParse_eq_iff`). By its
first token a line is dispatched, by all of them it subscribes and
unsubscribes (`parsesAgree_iff`).
-/
import AntzKV.Lib.Words
import AntzKV.Server.Connection
import AntzKV.Server.DispatchTheorems

namespace AntzKV

variable {S : Type}

/-! ## The tokens of a line -/

/-- `parse_line` yields words. -/
theorem bytes_parseLine (buf : CStr) (n : Nat) :
    (parseLine buf n).map CStr.bytes = (Words.words isDelim buf.bytes).take n := by
  have hword : ∀ w ∈ Words.words isDelim buf.bytes, (CStr.ofBuf w).bytes = w := by
    intro w hw
    have hnul : (0 : UInt8) ∉ w := fun h => buf.nulFree (Words.mem_of_mem_words hw 0 h)
    have hlen : w.length + 1 < objectBound :=
      lt_of_le_of_lt (Nat.add_le_add_right (Words.length_le_of_mem_words hw) 1) buf.fits
    exact congrArg CStr.bytes (CStr.ofBuf_bytes ⟨w, hnul, hlen⟩)
  have hall : (Words.words isDelim buf.bytes).map (CStr.bytes ∘ CStr.ofBuf)
      = Words.words isDelim buf.bytes :=
    (List.map_congr_left (g := id) hword).trans (List.map_id _)
  rw [parseLine, List.map_take, List.map_map]
  exact congrArg (List.take n) hall

theorem parseLine_eq_nil_iff {buf : CStr} {n : Nat} (hn : n ≠ 0) :
    parseLine buf n = [] ↔ ∀ b ∈ buf.bytes, isDelim b = true := by
  rw [← List.map_eq_nil_iff (f := CStr.bytes), bytes_parseLine, List.take_eq_nil_iff,
    Words.words_eq_nil_iff]
  simp [hn]

/-- There are at most 32 tokens in `tmp`, so none is left out. -/
theorem quickParse_words (line : CStr) :
    (quickParse line).map CStr.bytes = Words.words isDelim (line.bytes.take (maxArgs - 1)) := by
  have htmp : (line.take (maxArgs - 1)).bytes = line.bytes.take (maxArgs - 1) := rfl
  have hfew := Words.length_words_le (p := isDelim) (line.bytes.take (maxArgs - 1))
  have hlen : (line.bytes.take (maxArgs - 1)).length ≤ 63 := List.length_take_le _ _
  have hmax : maxArgs = 64 := rfl
  rw [quickParse, bytes_parseLine, htmp]
  exact List.take_of_length_le (by omega)

/-- **The tokens agree** exactly when only delimiters follow the bytes that
`tmp` holds. -/
theorem quickParse_eq_iff (line : CStr) :
    quickParse line = parseLine line maxArgs
      ↔ ∀ b ∈ line.bytes.drop (maxArgs - 1), isDelim b = true := by
  rw [← Words.words_take_eq_iff, ← quickParse_words]
  have hinj : Function.Injective CStr.bytes := fun _ _ => CStr.ext
  have hfew : ((quickParse line).map CStr.bytes).length ≤ 32 := by
    have hwords := Words.length_words_le (p := isDelim) (line.bytes.take (maxArgs - 1))
    have hlen : (line.bytes.take (maxArgs - 1)).length ≤ 63 := List.length_take_le _ _
    rw [quickParse_words]
    omega
  have hmax : maxArgs = 64 := rfl
  rw [← (List.map_injective_iff.mpr hinj).eq_iff, bytes_parseLine]
  constructor
  · intro h
    rw [h, List.take_eq_self_iff]
    have hcut := congrArg List.length h
    rw [List.length_take] at hcut
    omega
  · intro h
    rw [← h, List.take_of_length_le (by omega)]

/-- The line has no token, or its first one ends within the bytes that
`tmp` holds. -/
def FirstFits (line : CStr) : Prop :=
  (∀ b ∈ line.bytes, isDelim b = true) ∨ Words.firstEnd isDelim line.bytes ≤ maxArgs - 1

instance (line : CStr) : Decidable (FirstFits line) := inferInstanceAs (Decidable (_ ∨ _))

/-- **The first token agrees** exactly when it fits. -/
theorem head?_quickParse_iff (line : CStr) :
    (quickParse line).head? = (parseLine line maxArgs).head? ↔ FirstFits line := by
  have hinj : Function.Injective CStr.bytes := fun _ _ => CStr.ext
  have hfull : ((parseLine line maxArgs).map CStr.bytes).head?
      = (Words.words isDelim line.bytes).head? := by
    rw [bytes_parseLine, List.head?_take, if_neg (by decide)]
  rw [FirstFits, ← Words.head?_words_take_iff, ← quickParse_words, ← hfull, List.head?_map,
    List.head?_map, (Option.map_injective hinj).eq_iff]

/-- The quick parse misses no line with a token in its beginning. -/
theorem parseLine_ne_nil {line : CStr} (h : quickParse line ≠ []) :
    parseLine line maxArgs ≠ [] := by
  intro hnil
  rw [parseLine_eq_nil_iff (by decide)] at hnil
  exact h ((parseLine_eq_nil_iff (by decide)).mpr fun b hb => hnil b (List.mem_of_mem_take hb))

/-- The tokens of the quick parse are names that fit. -/
theorem strlen_of_quickParse {line cmd : CStr} {chs : List CStr}
    (hparse : quickParse line = cmd :: chs) : ∀ ch ∈ chs, ch.strlen < channelNameMax := by
  intro ch hch
  have hword : ch.bytes ∈ Words.words isDelim (line.bytes.take (maxArgs - 1)) := by
    rw [← quickParse_words, hparse]
    exact List.mem_map_of_mem (List.mem_cons_of_mem cmd hch)
  have hlen : ch.bytes.length ≤ maxArgs - 1 :=
    (Words.length_le_of_mem_words hword).trans (List.length_take_le _ _)
  exact lt_of_le_of_lt hlen (by decide)

/-! ## Answers -/

@[simp] theorem length_subscribeLoop (fd : Int) (wlock : Option Nat) (callocs : Nat → Bool)
    (chs : List CStr) (m : PubsubMgr) :
    (subscribeLoop fd wlock callocs chs m).2.length = chs.length := by
  induction chs generalizing callocs m with
  | nil => rfl
  | cons ch chs ih => simp [subscribeLoop, ih]

@[simp] theorem length_unsubscribeLoop (fd : Int) (chs : List CStr) (m : PubsubMgr) :
    (unsubscribeLoop fd chs m).2.length = chs.length := by
  induction chs generalizing m with
  | nil => rfl
  | cons ch chs ih => simp [unsubscribeLoop, ih]

namespace Server

/-- A command that gets no reply has ended the process. -/
theorem crashed_of_reply_none [LinearOrder S] (w : World S) (ps : PubsubMgr) (srv : Server S)
    (c : Command) (h : (srv.execCommand w ps c).2 = none) :
    (srv.execCommand w ps c).1.crashed = true := by
  have hanswer : ∀ (r : KvTable S × Outcome Int) (err : CStr),
      (srv.answer r err).2 = none → (srv.answer r err).1.crashed = true := by
    rintro ⟨db, _ | _ | _⟩ err hr
    · cases hr
    · cases hr
    · rfl
  cases c with
  | string c =>
    have hnone : (srv.exec w.toEnv c).2 = none := by simpa [execCommand] using h
    show (srv.exec w.toEnv c).1.crashed = true
    cases c with
    | set k v options =>
      simp only [exec] at hnone
      split at hnone <;> cases hnone
    | setnx k v => cases hnone
    | setex k t v => cases hnone
    | append k v => exact hanswer _ _ hnone
    | incr k => exact hanswer _ _ hnone
    | decr k => exact hanswer _ _ hnone
    | incrby k d => exact hanswer _ _ hnone
    | decrby k d => exact hanswer _ _ hnone
    | del ks => cases hnone
  | _ =>
    simp only [execCommand] at h ⊢
    simp [h]

end Server

namespace Session

variable [LinearOrder S]

/-- Something was sent, or the process died in the attempt. -/
def Answered (s s' : Session S) : Prop := s'.sent ≠ s.sent ∨ s'.srv.crashed = true

/-- Outside Pub/Sub mode tokens are answered. -/
theorem answered_dispatch {s : Session S} (hmode : s.subscribed = false) (fd : Int)
    (wlock : Option Nat) {line : CStr} (hline : parseLine line maxArgs ≠ []) {tokens : List CStr}
    (htokens : tokens ≠ []) : s.Answered (s.dispatch fd wlock line tokens) := by
  obtain ⟨cmd, chs, rfl⟩ := List.exists_cons_of_ne_nil htokens
  have hsent : ∀ (t : Session S) (texts : List (List UInt8)), t.sent = s.sent → texts ≠ [] →
      s.Answered (t.sendAll fd texts) := by
    intro t texts ht hne
    left
    show t.sent ++ texts.map (fun text => (fd, text)) ≠ s.sent
    simp [ht, hne]
  simp only [dispatch, hmode, Bool.false_eq_true, if_false]
  split
  · rename_i hsub
    refine hsent _ _ rfl (List.ne_nil_of_length_pos ?_)
    rw [length_subscribeLoop]
    have hchs := (Bool.and_eq_true _ _).mp hsub
    exact List.length_pos_of_ne_nil (by simpa using hchs.2)
  · split
    · split
      · exact hsent _ _ rfl (by simp)
      · rename_i hchs
        refine hsent _ _ rfl (List.ne_nil_of_length_pos ?_)
        rw [length_unsubscribeLoop]
        exact List.length_pos_of_ne_nil (by simpa using hchs)
    · split
      · exact hsent _ _ rfl (by simp)
      · obtain ⟨name, args, hparse⟩ := List.exists_cons_of_ne_nil hline
        have hcrash := Server.crashed_of_reply_none (s.worlds 0) s.ps s.srv (branch name args)
        simp only [Answered, Server.processCommandSends, hparse]
        cases hreply : (s.srv.execCommand (s.worlds 0) s.ps (branch name args)).2 with
        | none => exact Or.inr (hcrash hreply)
        | some r => simp

/-- A command that lists channels. -/
def ListsChannels (cmd : CStr) : Prop :=
  strcasecmpEq cmd (.lit "SUBSCRIBE") = true ∨ strcasecmpEq cmd (.lit "UNSUBSCRIBE") = true

/-- The two parses of a line agree on what decides dispatch: the first
token, and all tokens where they are channels. The line does what its own
tokens say, and no line with a token is passed over without an answer. -/
structure ParsesAgree (S : Type) [LinearOrder S] (line : CStr) : Prop where
  first : (quickParse line).head? = (parseLine line maxArgs).head?
  channels : ∀ cmd ∈ (parseLine line maxArgs).head?, ListsChannels cmd →
    quickParse line = parseLine line maxArgs
  acts : ∀ fd wlock (s : Session S),
    s.clientLine fd wlock line = (s.dispatch fd wlock line (parseLine line maxArgs)).tick
  answered : ∀ fd wlock (s : Session S), s.subscribed = false → parseLine line maxArgs ≠ [] →
    s.Answered (s.clientLine fd wlock line)

/-- A command that lists no channels is dispatched by its name. -/
theorem dispatch_congr {cmd : CStr} (hcmd : ¬ ListsChannels cmd) (fd : Int) (wlock : Option Nat)
    (s : Session S) (line : CStr) (chs chs' : List CStr) :
    s.dispatch fd wlock line (cmd :: chs) = s.dispatch fd wlock line (cmd :: chs') := by
  rw [ListsChannels, not_or, Bool.not_eq_true, Bool.not_eq_true] at hcmd
  simp only [dispatch, hcmd.1, hcmd.2, Bool.false_and, Bool.false_eq_true, if_false]

/-- **The parses agree** exactly on the lines whose first token ends within
the first 63 bytes, or that have none, and that have only delimiters behind
these bytes when they list channels. -/
theorem parsesAgree_iff (line : CStr) :
    ParsesAgree S line ↔ FirstFits line ∧
      ∀ cmd ∈ (parseLine line maxArgs).head?, ListsChannels cmd →
        ∀ b ∈ line.bytes.drop (maxArgs - 1), isDelim b = true := by
  constructor
  · intro h
    refine ⟨(head?_quickParse_iff line).mp h.first, fun cmd hcmd hlists => ?_⟩
    exact (quickParse_eq_iff line).mp (h.channels cmd hcmd hlists)
  · rintro ⟨hfits, hdelims⟩
    have hfirst := (head?_quickParse_iff line).mpr hfits
    have hchannels : ∀ cmd ∈ (parseLine line maxArgs).head?, ListsChannels cmd →
        quickParse line = parseLine line maxArgs := fun cmd hcmd hlists =>
      (quickParse_eq_iff line).mpr (hdelims cmd hcmd hlists)
    have hacts : ∀ fd wlock (s : Session S), s.clientLine fd wlock line
        = (s.dispatch fd wlock line (parseLine line maxArgs)).tick := by
      intro fd wlock s
      rw [clientLine]
      cases hfull : parseLine line maxArgs with
      | nil =>
        rw [hfull, List.head?_nil, List.head?_eq_none_iff] at hfirst
        rw [hfirst]
      | cons cmd chs =>
        by_cases hlists : ListsChannels cmd
        · rw [hchannels cmd (by rw [hfull]; rfl) hlists, hfull]
        · rw [hfull, List.head?_cons, List.head?_eq_some_iff] at hfirst
          obtain ⟨chs', hquick⟩ := hfirst
          rw [hquick, dispatch_congr hlists fd wlock s line chs' chs]
    refine ⟨hfirst, hchannels, hacts, fun fd wlock s hmode hline => ?_⟩
    rw [hacts]
    exact answered_dispatch hmode fd wlock hline hline

/-- A channel name of 60 bytes behind SUBSCRIBE. -/
def longSubscribe : CStr := .ofBuf ((CStr.lit "SUBSCRIBE ").bytes ++ List.replicate 60 97)

/-- Of the name the first 53 bytes are subscribed. -/
theorem longSubscribe_not_parsesAgree : ¬ ParsesAgree Int longSubscribe := by
  intro h
  have hcut := h.channels (.lit "SUBSCRIBE") (by decide) (.inl (by decide))
  exact absurd hcut (by decide)

end Session

end AntzKV

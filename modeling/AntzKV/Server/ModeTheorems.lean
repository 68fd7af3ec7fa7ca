/-
AntzKV.Server.ModeTheorems — when the mode of a connection agrees with its
subscriptions.

SUBSCRIBE sets `subscribed`, and nothing clears it; the subscriptions
themselves are in the manager, where UNSUBSCRIBE takes them away.
`ModeAgrees` says of the two what a client can observe: a connection that
is listed under a channel passes over ordinary lines, and one that is
listed under none answers them. `KeepsMode` holds of the steps after which
this is still so, and `modeAgrees_iff_guarded` of the runs.
-/
import AntzKV.Lib.Run
import AntzKV.Server.ConnectionTheorems
import AntzKV.Server.PubSubTheorems

namespace AntzKV

variable {S : Type}

namespace PubsubMgr

/-- The descriptor is listed under some channel. -/
def Lists (m : PubsubMgr) (fd : Int) : Prop := ∃ ch, fd ∈ m.fdsOf ch

/-- One of the names gets its subscriber: the second `calloc` of its round
succeeds, and there is an entry, because there was one or because the
first `calloc` of its round or of an earlier one succeeded. -/
def CanSubscribe (m : PubsubMgr) (callocs : Nat → Bool) (chs : List CStr) : Prop :=
  ∃ i ch, chs[i]? = some ch ∧ callocs (2 * i + 1) = true ∧
    ((m.channel? ch).isSome = true ∨ ∃ j ≤ i, chs[j]? = some ch ∧ callocs (2 * j) = true)

/-! ## The loops of SUBSCRIBE and UNSUBSCRIBE -/

variable {m : PubsubMgr} {fd : Int}

theorem isSome_channel?_subscribe (m : PubsubMgr) (fd : Int) (wlock : Option Nat) {ch : CStr}
    (hch : ch.strlen < channelNameMax) (ch' : CStr) :
    ((m.pubsubSubscribe fd wlock ch).channel? ch').isSome = true
      ↔ (m.channel? ch').isSome = true ∨ ch' = ch := by
  unfold pubsubSubscribe
  cases hfind : m.channel? ch with
  | some e =>
    have hmod := find?_modifyFirst ch ch' (fun subs => ⟨fd, wlock⟩ :: subs) m.channels
    have hfind' : m.channels.find? (isNamed ch) = some e := hfind
    simp only [channel?, hmod, hfind']
    by_cases heq : ch' = ch
    · simp [heq]
    · simp [heq]
  | none =>
    have hname : ch.take (channelNameMax - 1) = ch := CStr.take_of_le (by omega)
    simp only [channel?, hname, List.find?_cons]
    by_cases heq : ch' = ch
    · simp [heq, isNamed_eq]
    · have hne : ch ≠ ch' := fun h => heq h.symm
      simp [heq, isNamed_eq, hne]

theorem isSome_channel?_subscribeOn (entryCalloc subCalloc : Bool) (m : PubsubMgr) (fd : Int)
    (wlock : Option Nat) {ch : CStr} (hch : ch.strlen < channelNameMax) (ch' : CStr) :
    ((m.pubsubSubscribeOn entryCalloc subCalloc fd wlock ch).channel? ch').isSome = true
      ↔ (m.channel? ch').isSome = true ∨ (ch' = ch ∧ entryCalloc = true) := by
  have hname : ch.take (channelNameMax - 1) = ch := CStr.take_of_le (by omega)
  unfold pubsubSubscribeOn
  split
  · rename_i hsub
    rw [isSome_channel?_subscribe m fd wlock hch]
    by_cases heq : ch' = ch
    · subst heq
      have hentry := (Bool.and_eq_true _ _ ▸ hsub).2
      simpa using hentry
    · simp [heq]
  · split
    · rename_i hnew
      obtain ⟨-, hentry⟩ := (Bool.and_eq_true _ _).mp hnew
      simp only [channel?, hname, List.find?_cons, isNamed_eq, hentry, and_true]
      by_cases heq : ch' = ch
      · simp [heq]
      · have hne : ch ≠ ch' := fun h => heq h.symm
        simp [heq, hne]
    · rename_i hold
      constructor
      · exact Or.inl
      · rintro (hsome | ⟨rfl, hentry⟩)
        · exact hsome
        · have hfound : ¬ m.channel? ch' = none := by simpa [hentry] using hold
          exact Option.isSome_iff_ne_none.mpr hfound

theorem mem_fdsOf_subscribeOn (entryCalloc subCalloc : Bool) (m : PubsubMgr) (fd : Int)
    (wlock : Option Nat) {ch : CStr} (hch : ch.strlen < channelNameMax) (fd' : Int) (ch' : CStr) :
    fd' ∈ (m.pubsubSubscribeOn entryCalloc subCalloc fd wlock ch).fdsOf ch'
      ↔ fd' ∈ m.fdsOf ch' ∨ (fd' = fd ∧ ch' = ch ∧ subCalloc = true ∧
          ((m.channel? ch).isSome = true ∨ entryCalloc = true)) := by
  have hname : ch.take (channelNameMax - 1) = ch := CStr.take_of_le (by omega)
  unfold pubsubSubscribeOn
  split
  · rename_i hsub
    have hall : subCalloc = true ∧ ((m.channel? ch).isSome = true ∨ entryCalloc = true) := by
      simpa using hsub
    rw [fdsOf_subscribe m fd wlock hch]
    by_cases heq : ch' = ch
    · subst heq
      rw [if_pos rfl, List.mem_cons, or_comm]
      simp [hall]
    · simp [heq]
  · rename_i hfail
    have hnot : ¬ (fd' = fd ∧ ch' = ch ∧ subCalloc = true ∧
        ((m.channel? ch).isSome = true ∨ entryCalloc = true)) := by
      rintro ⟨-, -, hsub, hentry⟩
      exact hfail (by simpa [hsub] using hentry)
    rw [or_iff_left hnot]
    split
    · rename_i hnew
      obtain ⟨hnone, -⟩ := (Bool.and_eq_true _ _).mp hnew
      by_cases heq : ch' = ch
      · subst heq
        have hfind : m.subsOf ch' = [] := by
          rw [subsOf, Option.isNone_iff_eq_none.mp hnone, Option.elim_none]
        rw [fdsOf, fdsOf, hfind]
        simp [subsOf, channel?, hname, isNamed_eq]
      · have hne : ch ≠ ch' := fun h => heq h.symm
        simp [fdsOf, subsOf, channel?, hname, isNamed_eq, hne]
    · exact Iff.rfl

/-- Whether one of the names gets its subscriber is decided by the first
or by the others after it. -/
theorem canSubscribe_cons (fd : Int) (callocs : Nat → Bool) (wlock : Option Nat) {ch : CStr}
    (hch : ch.strlen < channelNameMax) (chs : List CStr) :
    m.CanSubscribe callocs (ch :: chs)
      ↔ (callocs 1 = true ∧ ((m.channel? ch).isSome = true ∨ callocs 0 = true)) ∨
        (m.pubsubSubscribeOn (callocs 0) (callocs 1) fd wlock ch).CanSubscribe
          (fun n => callocs (n + 2)) chs := by
  have hlater := isSome_channel?_subscribeOn (callocs 0) (callocs 1) m fd wlock hch
  constructor
  · rintro ⟨i, ch', hat, hsub, hentry⟩
    cases i with
    | zero =>
      obtain rfl : ch = ch' := by simpa using hat
      left
      refine ⟨hsub, hentry.imp_right ?_⟩
      rintro ⟨j, hj, -, hcalloc⟩
      obtain rfl : j = 0 := by omega
      exact hcalloc
    | succ i =>
      right
      refine ⟨i, ch', by simpa using hat, hsub, ?_⟩
      rw [hlater]
      rcases hentry with hsome | ⟨j, hj, hjat, hcalloc⟩
      · exact Or.inl (Or.inl hsome)
      · cases j with
        | zero =>
          obtain rfl : ch = ch' := by simpa using hjat
          exact Or.inl (Or.inr ⟨rfl, hcalloc⟩)
        | succ j => exact Or.inr ⟨j, by omega, by simpa using hjat, hcalloc⟩
  · rintro (⟨hsub, hentry⟩ | ⟨i, ch', hat, hsub, hentry⟩)
    · exact ⟨0, ch, rfl, hsub, hentry.imp_right fun hcalloc => ⟨0, le_rfl, rfl, hcalloc⟩⟩
    · refine ⟨i + 1, ch', by simpa using hat, hsub, ?_⟩
      rw [hlater] at hentry
      rcases hentry with (hsome | ⟨rfl, hcalloc⟩) | ⟨j, hj, hjat, hcalloc⟩
      · exact Or.inl hsome
      · exact Or.inr ⟨0, by omega, rfl, hcalloc⟩
      · exact Or.inr ⟨j + 1, by omega, by simpa using hjat, hcalloc⟩

theorem lists_subscribeLoop (wlock : Option Nat) {chs : List CStr}
    (hchs : ∀ ch ∈ chs, ch.strlen < channelNameMax) (callocs : Nat → Bool) (m : PubsubMgr) :
    (subscribeLoop fd wlock callocs chs m).1.Lists fd
      ↔ m.Lists fd ∨ m.CanSubscribe callocs chs := by
  induction chs generalizing callocs m with
  | nil => simp [subscribeLoop, CanSubscribe]
  | cons ch chs ih =>
    have hch := hchs ch (by simp)
    have hfirst : (m.pubsubSubscribeOn (callocs 0) (callocs 1) fd wlock ch).Lists fd
        ↔ m.Lists fd ∨ (callocs 1 = true ∧ ((m.channel? ch).isSome = true ∨ callocs 0 = true)) := by
      simp only [Lists, mem_fdsOf_subscribeOn _ _ _ _ _ hch, true_and, exists_or, exists_eq_left]
    rw [subscribeLoop, canSubscribe_cons fd callocs wlock hch]
    simp only
    rw [ih (fun ch hmem => hchs ch (by simp [hmem])), hfirst, or_assoc]

/-- The lists of other descriptors stay as they are. -/
theorem mem_fdsOf_subscribeLoop {fd' : Int} (hne : fd' ≠ fd) (wlock : Option Nat) {chs : List CStr}
    (hchs : ∀ ch ∈ chs, ch.strlen < channelNameMax) (callocs : Nat → Bool) (m : PubsubMgr)
    (ch' : CStr) :
    fd' ∈ (subscribeLoop fd wlock callocs chs m).1.fdsOf ch' ↔ fd' ∈ m.fdsOf ch' := by
  induction chs generalizing callocs m with
  | nil => rfl
  | cons ch chs ih =>
    rw [subscribeLoop]
    simp only
    rw [ih (fun ch hmem => hchs ch (by simp [hmem])),
      mem_fdsOf_subscribeOn _ _ _ _ _ (hchs ch (by simp))]
    simp [hne]

theorem count_unsubscribeLoop (chs : List CStr) (m : PubsubMgr) (fd' : Int) (ch : CStr) :
    ((unsubscribeLoop fd chs m).1.fdsOf ch).count fd'
      = (m.fdsOf ch).count fd' - if fd' = fd then chs.count ch else 0 := by
  induction chs generalizing m with
  | nil => simp [unsubscribeLoop]
  | cons ch' chs ih =>
    rw [unsubscribeLoop]
    simp only
    rw [ih, fdsOf_unsubscribe]
    by_cases hch : ch = ch'
    · subst hch
      rw [if_pos rfl, List.count_erase]
      by_cases hfd : fd' = fd
      · subst hfd
        simp only [beq_self_eq_true, if_true, List.count_cons_self]
        omega
      · have hne : ¬ fd = fd' := fun h => hfd h.symm
        simp [hfd, hne]
    · have hne : ¬ ch' = ch := fun h => hch h.symm
      simp [hch, hne]

/-- A listing is left exactly where there were more of them than times the
name was given. -/
theorem lists_unsubscribeLoop (chs : List CStr) (m : PubsubMgr) :
    (unsubscribeLoop fd chs m).1.Lists fd ↔ ∃ ch, chs.count ch < (m.fdsOf ch).count fd := by
  simp only [Lists, ← List.count_pos_iff, count_unsubscribeLoop, if_true, Nat.sub_pos_iff_lt]

theorem not_lists_unsubscribeAll (m : PubsubMgr) (fd : Int) :
    ¬ (m.pubsubUnsubscribeAll fd).Lists fd := by
  rintro ⟨ch, hmem⟩
  rw [fdsOf_unsubscribeAll] at hmem
  simp at hmem

end PubsubMgr

/-! ## What happens on a connection -/

/-- A line arrives, or other threads change what they share with this one.
They do not subscribe or unsubscribe its descriptor, and what ends the
process ends it for good. -/
inductive ConnEvent (S : Type) (fd : Int) where
  | line (l : CStr)
  | others (srv : Server S → Server S) (ps : PubsubMgr → PubsubMgr)
      (alive : ∀ t, (srv t).crashed = false → t.crashed = false)
      (frame : ∀ m ch, fd ∈ (ps m).fdsOf ch ↔ fd ∈ m.fdsOf ch)

namespace Session

/-- A connection begins; who had the descriptor before has left. -/
def start (fd : Int) (srv : Server S) (m : PubsubMgr) (worlds : Nat → World S) : Session S where
  srv := srv
  ps := m.pubsubUnsubscribeAll fd
  subscribed := false
  quit := false
  sent := []
  worlds := worlds

/-- The loop still takes lines. -/
def Alive (s : Session S) : Prop := s.quit = false ∧ s.srv.crashed = false

instance (s : Session S) : Decidable s.Alive :=
  inferInstanceAs (Decidable (s.quit = false ∧ s.srv.crashed = false))

def isSubscribe (cmd : CStr) : Bool := strcasecmpEq cmd (.lit "SUBSCRIBE")

def isUnsubscribe (cmd : CStr) : Bool := strcasecmpEq cmd (.lit "UNSUBSCRIBE")

/-- A line with a command that is neither SUBSCRIBE nor UNSUBSCRIBE. -/
def Ordinary (line : CStr) : Prop :=
  ∃ cmd args, quickParse line = cmd :: args ∧ isSubscribe cmd = false ∧ isUnsubscribe cmd = false

variable [LinearOrder S]

def step (fd : Int) (wlock : Option Nat) (s : Session S) : ConnEvent S fd → Session S
  | .line l => if s.Alive then s.clientLine fd wlock l else s
  | .others srv ps _ _ => { s with srv := srv s.srv, ps := ps s.ps }

/-- Ordinary lines are passed over while the descriptor is listed under a
channel, and answered while it is not. -/
structure ModeAgrees (fd : Int) (wlock : Option Nat) (s : Session S) : Prop where
  ignored : s.ps.Lists fd → ∀ line, Ordinary line → s.clientLine fd wlock line = s.tick
  answered : ¬ s.ps.Lists fd → ∀ line, Ordinary line → s.Answered (s.clientLine fd wlock line)

/-- After each of the events the mode agrees, while the loop takes lines. -/
def AlwaysAgrees (fd : Int) (wlock : Option Nat) (s : Session S) (events : List (ConnEvent S fd)) :
    Prop :=
  ∀ n, ((events.take n).foldl (step fd wlock) s).Alive →
    ((events.take n).foldl (step fd wlock) s).ModeAgrees fd wlock

/-- The steps after which the mode agrees: a SUBSCRIBE leaves a listing,
and an UNSUBSCRIBE does not take the last one. -/
def KeepsMode (fd : Int) (s : Session S) : ConnEvent S fd → Prop
  | .line l =>
    s.Alive →
      match quickParse l with
      | [] => True
      | cmd :: chs =>
        if isSubscribe cmd && !chs.isEmpty then
          s.ps.Lists fd ∨ s.ps.CanSubscribe (s.worlds 0).objects chs
        else if isUnsubscribe cmd then
          s.ps.Lists fd → chs ≠ [] ∧ ∃ ch, chs.count ch < (s.ps.fdsOf ch).count fd
        else True
  | .others .. => True

/-! ## The mode is the flag -/

variable (fd : Int) (wlock : Option Nat) (s : Session S)

theorem dispatch_of_ordinary {cmd : CStr} (hsub : isSubscribe cmd = false)
    (hunsub : isUnsubscribe cmd = false) (line : CStr) (args : List CStr) :
    s.dispatch fd wlock line (cmd :: args)
      = if s.subscribed then s
        else if strcasecmpEq cmd (.lit "QUIT") then
          { s with quit := true }.sendAll fd [sendReply (CStr.lit "+OK").bytes]
        else
          { s with
            srv := (s.srv.processCommandSends (s.worlds 0) s.ps fd line).1
            sent := s.sent ++ (s.srv.processCommandSends (s.worlds 0) s.ps fd line).2 } := by
  simp only [isSubscribe, isUnsubscribe] at hsub hunsub
  simp only [dispatch, hsub, hunsub, Bool.false_and, Bool.false_eq_true, if_false]

theorem ordinary_quit : Ordinary (.lit "QUIT") :=
  ⟨.lit "QUIT", [], by decide, by decide, by decide⟩

/-- While the process lives, the mode agrees with the subscriptions when
the flag does. -/
theorem modeAgrees_iff {s : Session S} (hlive : s.srv.crashed = false) :
    s.ModeAgrees fd wlock ↔ (s.subscribed = true ↔ s.ps.Lists fd) := by
  have hquit : s.dispatch fd wlock (.lit "QUIT") (quickParse (.lit "QUIT"))
      = if s.subscribed then s
        else { s with quit := true }.sendAll fd [sendReply (CStr.lit "+OK").bytes] := by
    have hparse : quickParse (.lit "QUIT") = [.lit "QUIT"] := by decide
    rw [hparse, dispatch_of_ordinary fd wlock s (by decide) (by decide)]
    have hname : strcasecmpEq (.lit "QUIT") (.lit "QUIT") = true := by decide
    rw [if_pos hname]
  constructor
  · rintro ⟨hignored, hanswered⟩
    constructor
    · intro hmode
      by_contra hlists
      rcases hanswered hlists _ ordinary_quit with hsent | hcrash
      · rw [clientLine, hquit, if_pos hmode] at hsent
        exact hsent rfl
      · rw [clientLine, hquit, if_pos hmode] at hcrash
        have hdead : s.srv.crashed = true := hcrash
        rw [hlive] at hdead
        cases hdead
    · intro hlists
      by_contra hmode
      have hsent := congrArg Session.sent (hignored hlists _ ordinary_quit)
      rw [clientLine, hquit, if_neg hmode] at hsent
      have hmore : s.sent ++ [(fd, sendReply (CStr.lit "+OK").bytes)] = s.sent := hsent
      simp at hmore
  · intro hflag
    constructor
    · rintro hlists line ⟨cmd, args, hparse, hsub, hunsub⟩
      rw [clientLine, hparse, dispatch_of_ordinary fd wlock s hsub hunsub, if_pos (hflag.mpr hlists)]
    · rintro hlists line ⟨cmd, args, hparse, -, -⟩
      have hmode : s.subscribed = false := Bool.eq_false_iff.mpr fun h => hlists (hflag.mp h)
      have htokens : quickParse line ≠ [] := by simp [hparse]
      exact answered_dispatch hmode fd wlock (parseLine_ne_nil htokens) htokens

/-! ## What a line does to flag and subscriptions -/

theorem clientLine_subscribe {line cmd : CStr} {chs : List CStr}
    (hparse : quickParse line = cmd :: chs) (hsub : (isSubscribe cmd && !chs.isEmpty) = true) :
    (s.clientLine fd wlock line).subscribed = true ∧ (s.clientLine fd wlock line).srv = s.srv ∧
      (s.clientLine fd wlock line).quit = s.quit ∧
      (s.clientLine fd wlock line).ps
        = (subscribeLoop fd wlock (s.worlds 0).objects chs s.ps).1 := by
  rw [isSubscribe] at hsub
  simp only [clientLine, hparse, dispatch, hsub, if_true]
  exact ⟨rfl, rfl, rfl, rfl⟩

theorem clientLine_unsubscribe {line cmd : CStr} {chs : List CStr}
    (hparse : quickParse line = cmd :: chs) (hsub : ¬ (isSubscribe cmd && !chs.isEmpty) = true)
    (hunsub : isUnsubscribe cmd = true) :
    (s.clientLine fd wlock line).subscribed = s.subscribed ∧
      (s.clientLine fd wlock line).srv = s.srv ∧ (s.clientLine fd wlock line).quit = s.quit ∧
      (s.clientLine fd wlock line).ps = if chs.isEmpty then s.ps.pubsubUnsubscribeAll fd
        else (unsubscribeLoop fd chs s.ps).1 := by
  rw [isSubscribe] at hsub
  rw [isUnsubscribe] at hunsub
  simp only [clientLine, hparse, dispatch, hsub, hunsub, Bool.false_eq_true, if_false, if_true]
  split <;> exact ⟨rfl, rfl, rfl, rfl⟩

/-- Any other line leaves flag and subscriptions alone. -/
theorem clientLine_other {line : CStr}
    (h : quickParse line = [] ∨ ∃ cmd chs, quickParse line = cmd :: chs ∧
      ¬ (isSubscribe cmd && !chs.isEmpty) = true ∧ ¬ isUnsubscribe cmd = true) :
    (s.clientLine fd wlock line).subscribed = s.subscribed ∧
      (s.clientLine fd wlock line).ps = s.ps := by
  rcases h with hparse | ⟨cmd, chs, hparse, hsub, hunsub⟩
  · rw [clientLine, hparse]
    exact ⟨rfl, rfl⟩
  · rw [isSubscribe] at hsub
    rw [isUnsubscribe] at hunsub
    simp only [clientLine, hparse, dispatch, hsub, hunsub, Bool.false_eq_true, if_false]
    split
    · exact ⟨rfl, rfl⟩
    · split <;> exact ⟨rfl, rfl⟩

variable {fd wlock s}

/-- What the connection of another descriptor does with a line is one of
the things that `ConnEvent.others` stands for. -/
theorem lists_clientLine_of_ne {fd' : Int} (hne : fd' ≠ fd) (line ch : CStr) :
    fd' ∈ (s.clientLine fd wlock line).ps.fdsOf ch ↔ fd' ∈ s.ps.fdsOf ch := by
  cases hparse : quickParse line with
  | nil =>
    rw [clientLine, hparse]
    exact Iff.rfl
  | cons cmd chs =>
    have hnames := strlen_of_quickParse hparse
    by_cases hsub : (isSubscribe cmd && !chs.isEmpty) = true
    · rw [(clientLine_subscribe fd wlock s hparse hsub).2.2.2]
      exact PubsubMgr.mem_fdsOf_subscribeLoop hne wlock hnames _ s.ps ch
    · by_cases hunsub : isUnsubscribe cmd = true
      · rw [(clientLine_unsubscribe fd wlock s hparse hsub hunsub).2.2.2]
        split
        · rw [PubsubMgr.fdsOf_unsubscribeAll]
          simp [hne]
        · simp only [← List.count_pos_iff, PubsubMgr.count_unsubscribeLoop, hne, if_false,
            Nat.sub_zero]
      · rw [(clientLine_other fd wlock s (.inr ⟨cmd, chs, hparse, hsub, hunsub⟩)).2]

/-- What an UNSUBSCRIBE leaves. -/
theorem lists_clientLine_unsubscribe {line cmd : CStr} {chs : List CStr}
    (hparse : quickParse line = cmd :: chs) (hsub : ¬ (isSubscribe cmd && !chs.isEmpty) = true)
    (hunsub : isUnsubscribe cmd = true) :
    (s.clientLine fd wlock line).ps.Lists fd
      ↔ chs ≠ [] ∧ ∃ ch, chs.count ch < (s.ps.fdsOf ch).count fd := by
  rw [(clientLine_unsubscribe fd wlock s hparse hsub hunsub).2.2.2]
  cases chs with
  | nil => simpa using PubsubMgr.not_lists_unsubscribeAll s.ps fd
  | cons ch chs => simpa using PubsubMgr.lists_unsubscribeLoop (ch :: chs) s.ps

/-! ## One step, and runs -/

/-- The mode after a line that leaves the process and the loop alone. -/
theorem modeAgrees_iff_of_frame {s' : Session S} (hlive : s.Alive) (hsrv : s'.srv = s.srv)
    (hquit : s'.quit = s.quit) :
    (s'.Alive → s'.ModeAgrees fd wlock) ↔ (s'.subscribed = true ↔ s'.ps.Lists fd) := by
  have hlive' : s'.Alive := ⟨hquit.trans hlive.1, (congrArg Server.crashed hsrv).trans hlive.2⟩
  rw [← modeAgrees_iff fd wlock hlive'.2]
  exact ⟨fun hall => hall hlive', fun hall _ => hall⟩

/-- After a line at a connection whose mode agrees it agrees again exactly
when the line keeps the mode. -/
theorem modeAgrees_clientLine_iff (hlive : s.Alive) (hmode : s.subscribed = true ↔ s.ps.Lists fd)
    (l : CStr) :
    ((s.clientLine fd wlock l).Alive → (s.clientLine fd wlock l).ModeAgrees fd wlock)
      ↔ s.KeepsMode fd (.line l) := by
  cases hparse : quickParse l with
  | nil =>
    obtain ⟨hflag, hps⟩ := clientLine_other fd wlock s (.inl hparse)
    refine iff_of_true (fun hlive' => (modeAgrees_iff fd wlock hlive'.2).mpr ?_) ?_
    · rw [hflag, hps]
      exact hmode
    · simp [KeepsMode, hparse]
  | cons cmd chs =>
    by_cases hsub : (isSubscribe cmd && !chs.isEmpty) = true
    · obtain ⟨hflag, hsrv, hquit, hps⟩ := clientLine_subscribe fd wlock s hparse hsub
      rw [modeAgrees_iff_of_frame hlive hsrv hquit, hflag, hps,
        PubsubMgr.lists_subscribeLoop wlock (strlen_of_quickParse hparse)]
      simp [KeepsMode, hparse, hsub, hlive]
    · by_cases hunsub : isUnsubscribe cmd = true
      · obtain ⟨hflag, hsrv, hquit, -⟩ := clientLine_unsubscribe fd wlock s hparse hsub hunsub
        have hkeeps : s.KeepsMode fd (.line l)
            ↔ (s.ps.Lists fd → chs ≠ [] ∧ ∃ ch, chs.count ch < (s.ps.fdsOf ch).count fd) := by
          simp only [KeepsMode, hlive, hparse, hsub, hunsub, if_true, true_implies]
          simp
        rw [modeAgrees_iff_of_frame hlive hsrv hquit, hflag, hmode,
          lists_clientLine_unsubscribe hparse hsub hunsub, hkeeps]
        constructor
        · exact fun hiff => hiff.mp
        · refine fun himp => ⟨himp, ?_⟩
          rintro ⟨-, ch, hcount⟩
          exact ⟨ch, List.count_pos_iff.mp (by omega)⟩
      · obtain ⟨hflag, hps⟩ :=
          clientLine_other fd wlock s (.inr ⟨cmd, chs, hparse, hsub, hunsub⟩)
        refine iff_of_true (fun hlive' => (modeAgrees_iff fd wlock hlive'.2).mpr ?_) ?_
        · rw [hflag, hps]
          exact hmode
        · simp [KeepsMode, hparse, hsub, hunsub]

/-- After a step from a state in which the mode agrees it agrees again
exactly when the step keeps the mode. -/
theorem modeAgrees_step_iff {e : ConnEvent S fd} (h : s.Alive → s.ModeAgrees fd wlock) :
    ((s.step fd wlock e).Alive → (s.step fd wlock e).ModeAgrees fd wlock) ↔ s.KeepsMode fd e := by
  cases e with
  | others srv ps alive frame =>
    refine iff_of_true (fun hlive' => ?_) trivial
    have hlive : s.Alive := ⟨hlive'.1, alive s.srv hlive'.2⟩
    have hlists : (ps s.ps).Lists fd ↔ s.ps.Lists fd := exists_congr fun ch => frame s.ps ch
    have hmode := (modeAgrees_iff fd wlock hlive.2).mp (h hlive)
    exact (modeAgrees_iff fd wlock hlive'.2).mpr (hmode.trans hlists.symm)
  | line l =>
    by_cases hlive : s.Alive
    · have hstep : s.step fd wlock (.line l) = s.clientLine fd wlock l := if_pos hlive
      rw [hstep]
      exact modeAgrees_clientLine_iff hlive ((modeAgrees_iff fd wlock hlive.2).mp (h hlive)) l
    · have hstep : s.step fd wlock (.line l) = s := if_neg hlive
      rw [hstep]
      exact iff_of_true h fun hl => absurd hl hlive

/-- **Mode and subscriptions agree** along exactly those runs whose steps
keep the mode. -/
theorem modeAgrees_iff_guarded (fd : Int) (wlock : Option Nat) (srv : Server S) (m : PubsubMgr)
    (worlds : Nat → World S) (events : List (ConnEvent S fd)) :
    (start fd srv m worlds).AlwaysAgrees fd wlock events
      ↔ Run.Guarded (step fd wlock) (KeepsMode fd) (start fd srv m worlds) events := by
  have hstart : (start fd srv m worlds).Alive → (start fd srv m worlds).ModeAgrees fd wlock := by
    intro hlive
    refine (modeAgrees_iff fd wlock hlive.2).mpr ?_
    exact iff_of_false Bool.false_ne_true (PubsubMgr.not_lists_unsubscribeAll m fd)
  have htrue : ∀ (s : Session S) (e : ConnEvent S fd), True → True := fun _ _ h => h
  have hstep : ∀ (s : Session S) (e : ConnEvent S fd), True →
      (s.Alive → s.ModeAgrees fd wlock) →
      (((s.step fd wlock e).Alive → (s.step fd wlock e).ModeAgrees fd wlock) ↔ s.KeepsMode fd e) :=
    fun _ _ _ h => modeAgrees_step_iff h
  have hall := Run.guarded_iff_forall_take (P := fun s : Session S => s.Alive →
    s.ModeAgrees fd wlock) htrue hstep events _ trivial hstart
  exact hall.symm

/-- A connection that subscribes to a channel, leaves it and wants to
quit. -/
def subscribeThenQuit : List (ConnEvent Int 5) :=
  [.line (.lit "SUBSCRIBE news"), .line (.lit "UNSUBSCRIBE news"), .line (.lit "QUIT")]

def roomyStart : Session Int :=
  start 5 Server.fullServer .pubsubCreate fun _ => { Server.noMemory with callocs := fun _ => true }

/-- It is subscribed to nothing then, and its QUIT is passed over. -/
theorem subscribeThenQuit_not_alwaysAgrees :
    ¬ roomyStart.AlwaysAgrees 5 none subscribeThenQuit := by
  intro hall
  have hlive : ((subscribeThenQuit.take 2).foldl (step 5 none) roomyStart).Alive := by
    decide
  have hnobody : ((subscribeThenQuit.take 2).foldl (step 5 none) roomyStart).ps
      = .pubsubUnsubscribeAll ⟨[⟨.lit "news", []⟩]⟩ 5 := by decide
  have hagrees := (modeAgrees_iff 5 none hlive.2).mp (hall 2 hlive)
  have hlists := hagrees.mp (by decide)
  rw [hnobody] at hlists
  exact PubsubMgr.not_lists_unsubscribeAll _ 5 hlists

end Session

end AntzKV

/-
AntzKV.Server.HubTheorems — every client talks to the database alone.

Whatever the clients send and however their bytes arrive, in whatever
order their lines are handled, among connections that come and go, writes
of peers and rounds of the expiry thread: the requests that were served
are, in the order in which they were served, a run of the database; and a
client that does not subscribe is sent the answers to its own lines, one
after the other, and nothing else (`Hub.conversation`).

Two invariants carry this. A descriptor listed under a channel belongs to
an open connection that has subscribed (`Hub.Sane`), so no message can go
to the others; and what a thread has taken, has in its buffer and has yet
to read is the stream of its client (`Hub.Talks`).
-/
import AntzKV.Server.CommandSpecTheorems
import AntzKV.Server.Hub
import AntzKV.Server.ModeTheorems

namespace AntzKV

open LineFraming (Follows Reader fitting feed)

variable {ι S : Type}

/-! ## What a line sends -/

namespace PubsubMgr

end PubsubMgr

namespace Session

variable [LinearOrder S]

end Session

namespace Hub

/-! ## What a line is to the server

A blank line, a request, a QUIT, or the business of subscribers. -/

section Lines

variable [LinearOrder S] {s : Hub ι S} {w : World S} {c : HubConn} {text : CStr}

theorem isRequest_iff : isRequest c text = true ↔
    ∃ cmd args, quickParse text = cmd :: args ∧
      (strcasecmpEq cmd (.lit "SUBSCRIBE") && !args.isEmpty) = false ∧
      strcasecmpEq cmd (.lit "UNSUBSCRIBE") = false ∧ c.subscribed = false ∧
      strcasecmpEq cmd (.lit "QUIT") = false := by
  unfold isRequest isPubsub isQuit
  cases quickParse text with
  | nil => simp
  | cons cmd args =>
    simp only [List.isEmpty_cons, Bool.not_false, Bool.true_and, List.head?_cons, Option.map_some,
      Option.getD_some, Bool.and_eq_true, Bool.not_eq_true', Bool.or_eq_false_iff, and_assoc]
    constructor
    · exact fun h => ⟨cmd, args, rfl, h⟩
    · rintro ⟨cmd', args', heq, h⟩
      obtain ⟨rfl, rfl⟩ := List.cons.inj heq
      exact h

/-- A request leaves the mode alone and sends what serving it sends. -/
theorem session_request (hlive : s.srv.crashed = false) (hreq : isRequest c text = true) :
    let t := s.session w c text
    t.ps = s.ps ∧ t.subscribed = c.subscribed ∧ t.quit = c.quit ∧
      t.sent = (s.srv.serve (.line w s.ps c.fd text)).2 := by
  obtain ⟨cmd, args, hparse, hsub, hunsub, hmode, hquit⟩ := isRequest_iff.mp hreq
  simp only [session, Session.clientLine, hparse, Session.dispatch, hsub, hunsub, hmode, hquit,
    Bool.false_eq_true, if_false, Server.serve, hlive]
  exact ⟨rfl, rfl, rfl, rfl⟩

/-- A blank line. -/
theorem session_blank (hparse : quickParse text = []) :
    let t := s.session w c text
    t.ps = s.ps ∧ t.subscribed = c.subscribed ∧ t.quit = c.quit ∧ t.sent = [] := by
  simp only [session, Session.clientLine, hparse, Session.dispatch]
  exact ⟨rfl, rfl, rfl, rfl⟩

/-- QUIT, from a client that has not subscribed. -/
theorem session_quit (hpubsub : isPubsub text = false) (hmode : c.subscribed = false)
    (hquit : isQuit text = true) :
    let t := s.session w c text
    t.ps = s.ps ∧ t.subscribed = c.subscribed ∧ t.quit = true ∧
      t.sent = [(c.fd, sendReply (CStr.lit "+OK").bytes)] := by
  unfold isPubsub at hpubsub
  unfold isQuit at hquit
  cases hparse : quickParse text with
  | nil =>
    rw [hparse] at hquit
    cases hquit
  | cons cmd args =>
    simp only [hparse, Bool.or_eq_false_iff] at hpubsub
    obtain ⟨hsub, hunsub⟩ := hpubsub
    have hname : strcasecmpEq cmd (.lit "QUIT") = true := by simpa [hparse] using hquit
    simp only [session, Session.clientLine, hparse, Session.dispatch, hsub, hunsub, hmode, hname,
      Bool.false_eq_true, if_false, if_true]
    exact ⟨rfl, rfl, rfl, rfl⟩

end Lines

/-- What the lines of a client that does not subscribe ask for, and whether
they end with QUIT. -/
def asked : List (List UInt8) → List CStr × Bool
  | [] => ([], false)
  | l :: ls =>
    if quickParse (lineText l) = [] then asked ls
    else if isQuit (lineText l) then ([], true)
    else (lineText l :: (asked ls).1, (asked ls).2)

theorem asked_append (ls ms : List (List UInt8)) :
    asked (ls ++ ms) = if (asked ls).2 then asked ls
      else ((asked ls).1 ++ (asked ms).1, (asked ms).2) := by
  induction ls with
  | nil => rfl
  | cons l ls ih =>
    simp only [List.cons_append, asked, ih]
    split_ifs <;> simp_all

theorem asked_singleton (l : List UInt8) : asked [l] =
    if quickParse (lineText l) = [] then ([], false)
    else if isQuit (lineText l) then ([], true) else ([lineText l], false) := rfl

/-- The loop that queues its lines. -/
def queue (ls : List (List UInt8)) (l : List UInt8) : List (List UInt8) × Bool := (ls ++ [l], false)

theorem feed_queue (ls ms : List (List UInt8)) : feed queue ls ms = (ls ++ ms, false) := by
  induction ms generalizing ls with
  | nil => simp [feed]
  | cons m ms ih => simp [feed, queue, ih]

/-- A round of the loop does not look at what is queued. -/
theorem readQuit_queue (ls todo : List (List UInt8)) (rx sock : List UInt8) (eof : Bool) (n : Nat) :
    (⟨ls ++ todo, rx, sock, eof⟩ : Reader _).readQuit (bufferSize * 4) queue n
      = let r := (⟨todo, rx, sock, eof⟩ : Reader _).readQuit (bufferSize * 4) queue n
        ⟨ls ++ r.state, r.rx, r.sock, r.closed⟩ := by
  simp only [Reader.readQuit, feed_queue]
  split_ifs <;> simp

variable [DecidableEq ι]

/-- Open connections have descriptors of their own; and a descriptor that
is listed is that of an open connection that has subscribed. -/
structure Sane (s : Hub ι S) : Prop where
  distinct : ∀ i j c c', s.conn i = some c → s.conn j = some c' → c.closed = false →
    c'.closed = false → c.fd = c'.fd → i = j
  listed : ∀ fd, s.ps.Lists fd →
    ∃ i c, s.conn i = some c ∧ c.closed = false ∧ c.fd = fd ∧ c.subscribed = true
  unserved : ∀ i, s.conn i = none → s.servedBy i = []

/-- A client whose lines do not subscribe. -/
def Plain (stream : List UInt8) : Prop :=
  (∀ b ∈ stream, b ≠ 0) ∧ ∀ l ∈ fitting 16383 stream, isPubsub (lineText l) = false

instance (stream : List UInt8) : Decidable (Plain stream) :=
  inferInstanceAs (Decidable ((∀ b ∈ stream, b ≠ 0) ∧ ∀ l ∈ _, _))

/-- What was exchanged with such a client so far. -/
structure Talks (s : Hub ι S) (i : ι) (c : HubConn) : Prop where
  follows : Follows (bufferSize * 4) queue [] c.stream ⟨c.taken ++ c.todo, c.rx, c.sock, c.eof⟩
  subscribed : c.subscribed = false
  quit : c.quit = (asked c.taken).2
  texts : (s.servedBy i).map (fun e => e.1.text?) = (asked c.taken).1.map some
  answers : ∀ e ∈ s.servedBy i, ∃ (r : CmdReply) (stack : List UInt8),
    Server.sentOn c.fd e.2 = r.send stack
  got : c.got = ((s.servedBy i).flatMap fun e => Server.sentOn c.fd e.2)
    ++ if c.quit then sendReply (CStr.lit "+OK").bytes else []

/-! ## What an action does -/

variable [LinearOrder S] {s : Hub ι S}

omit [LinearOrder S] in
theorem conn_setConn (s : Hub ι S) (i j : ι) (c : HubConn) :
    (s.setConn i c).conn j = if j = i then some c else s.conn j := by
  unfold setConn
  exact Function.update_apply _ _ _ _

omit [DecidableEq ι] [LinearOrder S] in
theorem next?_eq_some {i : ι} {c : HubConn} {text : CStr} (h : s.next? i = some (c, text)) :
    s.conn i = some c ∧ c.closed = false ∧ c.quit = false ∧
      ∃ l ls, c.todo = l :: ls ∧ text = lineText l := by
  obtain ⟨c', hc, hnext⟩ := Option.bind_eq_some_iff.mp h
  split at hnext
  · cases hnext
  · rename_i hopen
    simp only [Bool.or_eq_true, not_or, Bool.not_eq_true] at hopen
    obtain ⟨l, hl, hpair⟩ := Option.map_eq_some_iff.mp hnext
    obtain ⟨rfl, rfl⟩ := Prod.mk.inj hpair
    obtain ⟨ls, hls⟩ := List.head?_eq_some_iff.mp hl
    exact ⟨hc, hopen.1, hopen.2, l, ls, hls, rfl⟩

/-- What a client becomes by the line it is at. -/
def afterLine (t : Session S) (l : List UInt8) (c : HubConn) : HubConn :=
  { c with
    todo := c.todo.tail
    taken := c.taken ++ [l]
    subscribed := t.subscribed
    quit := t.quit }

theorem conn_handleLine_self {i : ι} {c : HubConn} {l : List UInt8} {ls : List (List UInt8)}
    (htodo : c.todo = l :: ls) (w : World S) :
    (s.handleLine i w c (lineText l)).conn i
      = some ((afterLine (s.session w c (lineText l)) l c).receive
          (s.session w c (lineText l)).sent) := by
  simp only [handleLine, deliver, conn_setConn, if_true, Option.map_some, afterLine, htodo]
  rfl

theorem conn_handleLine_of_ne {i j : ι} (hj : j ≠ i) (w : World S) (c : HubConn) (text : CStr) :
    (s.handleLine i w c text).conn j
      = (s.conn j).map (HubConn.receive (s.session w c text).sent) := by
  simp only [handleLine, deliver, conn_setConn, if_neg hj]

theorem servedBy_step (hlive : s.srv.crashed = false) (a : HubAct ι S) (i : ι) :
    (s.step a).servedBy i = s.servedBy i
      ++ ((s.request? a).toList.filter fun r => r.1 = some i).map
          fun r => (r.2, (s.srv.serve r.2).2) := by
  simp only [step, hlive, Bool.false_eq_true, if_false, servedBy, List.filter_append,
    List.map_append, List.filter_map, List.map_map]
  rfl

/-- Only a line of its own counts for a client. -/
theorem servedBy_step_of_ne (hlive : s.srv.crashed = false) {a : HubAct ι S} {i : ι}
    (hne : ∀ w, a ≠ .line i w) : (s.step a).servedBy i = s.servedBy i := by
  rw [servedBy_step hlive]
  have hnone : ((s.request? a).toList.filter fun r => r.1 = some i) = [] := by
    rw [List.filter_eq_nil_iff]
    intro r hr hi
    have hreq : s.request? a = some r := Option.mem_toList.mp hr
    cases a with
    | line j w =>
      obtain ⟨next, -, hnext⟩ := Option.bind_eq_some_iff.mp hreq
      split at hnext
      · obtain rfl := Option.some.inj hnext
        have hij : j = i := by simpa using hi
        exact hne w (hij ▸ rfl)
      · cases hnext
    | replicated write =>
      obtain rfl := Option.some.inj hreq
      simp at hi
    | expire now rand =>
      obtain rfl := Option.some.inj hreq
      simp at hi
    | accept _ _ _ _ => cases hreq
    | read _ _ => cases hreq
    | close _ => cases hreq
  rw [hnone]
  exact List.append_nil _

/-! ## Descriptors and subscriptions -/

/-- What an action leaves of the connections there were. -/
structure Frame (s t : Hub ι S) : Prop where
  back : ∀ j c', t.conn j = some c' →
    ∃ c, s.conn j = some c ∧ c.fd = c'.fd ∧ (c'.closed = false → c.closed = false)
  forth : ∀ j c, s.conn j = some c → ∃ c', t.conn j = some c' ∧ c'.fd = c.fd ∧
    (c.subscribed = true → c'.subscribed = true)

omit [LinearOrder S] in
theorem Sane.frame {t : Hub ι S} (h : Sane s) (hframe : Frame s t)
    (hlisted : ∀ fd, t.ps.Lists fd →
      ∃ i c, t.conn i = some c ∧ c.closed = false ∧ c.fd = fd ∧ c.subscribed = true)
    (hserved : ∀ i, t.conn i = none → t.servedBy i = s.servedBy i) : Sane t where
  distinct i j c c' hi hj hc hc' hfd := by
    obtain ⟨d, hd, hdfd, hdopen⟩ := hframe.back i c hi
    obtain ⟨d', hd', hdfd', hdopen'⟩ := hframe.back j c' hj
    exact h.distinct i j d d' hd hd' (hdopen hc) (hdopen' hc') (hdfd.trans (hfd.trans hdfd'.symm))
  listed := hlisted
  unserved i hi := by
    rw [hserved i hi]
    refine h.unserved i ?_
    by_contra hsome
    obtain ⟨c, hc⟩ := Option.ne_none_iff_exists'.mp hsome
    obtain ⟨c', hc', -⟩ := hframe.forth i c hc
    rw [hc'] at hi
    cases hi

omit [DecidableEq ι] [LinearOrder S] in
@[simp] theorem receive_frame (sends : List (Int × List UInt8)) (c : HubConn) :
    (c.receive sends).fd = c.fd ∧ (c.receive sends).closed = c.closed ∧
      (c.receive sends).subscribed = c.subscribed ∧ (c.receive sends).stream = c.stream := by
  unfold HubConn.receive
  split <;> exact ⟨rfl, rfl, rfl, rfl⟩

omit [DecidableEq ι] in
/-- SUBSCRIBE sets the mode, and nothing clears it. -/
theorem subscribed_session (w : World S) {c : HubConn} (text : CStr) (h : c.subscribed = true) :
    (s.session w c text).subscribed = true := by
  cases hparse : quickParse text with
  | nil =>
    rw [(session_blank hparse).2.1]
    exact h
  | cons cmd args =>
    by_cases hsub : (Session.isSubscribe cmd && !args.isEmpty) = true
    · exact (Session.clientLine_subscribe _ _ _ hparse hsub).1
    · by_cases hunsub : Session.isUnsubscribe cmd = true
      · rw [session, (Session.clientLine_unsubscribe _ _ _ hparse hsub hunsub).1]
        exact h
      · rw [session, (Session.clientLine_other _ _ _ (.inr ⟨cmd, args, hparse, hsub, hunsub⟩)).1]
        exact h

omit [DecidableEq ι] in
/-- Who is listed after a line was so before, or is the client of the line
and has subscribed. -/
theorem lists_session {w : World S} {c : HubConn} {text : CStr} {fd : Int}
    (h : (s.session w c text).ps.Lists fd) :
    s.ps.Lists fd ∨ (fd = c.fd ∧ (s.session w c text).subscribed = true) := by
  by_cases hfd : fd = c.fd
  · cases hparse : quickParse text with
    | nil =>
      rw [(session_blank hparse).1] at h
      exact .inl h
    | cons cmd args =>
      by_cases hsub : (Session.isSubscribe cmd && !args.isEmpty) = true
      · exact .inr ⟨hfd, (Session.clientLine_subscribe _ _ _ hparse hsub).1⟩
      · by_cases hunsub : Session.isUnsubscribe cmd = true
        · rw [hfd, session, Session.lists_clientLine_unsubscribe hparse hsub hunsub] at h
          obtain ⟨-, ch, hcount⟩ := h
          rw [hfd]
          exact .inl ⟨ch, List.count_pos_iff.mp (Nat.zero_lt_of_lt hcount)⟩
        · rw [session,
            (Session.clientLine_other _ _ _ (.inr ⟨cmd, args, hparse, hsub, hunsub⟩)).2] at h
          exact .inl h
  · obtain ⟨ch, hch⟩ := h
    exact .inl ⟨ch, (Session.lists_clientLine_of_ne hfd text ch).mp hch⟩

/-- The kernel hands out a descriptor that is not in use, and bytes arrive
in what is read; and the calls of a request are `Clear`: they have memory
and room, and strings and sorted sets are used as the database uses them. -/
def Allowed (s : Hub ι S) (a : HubAct ι S) : Prop :=
  (∀ i fd wlock stream, a = .accept i fd wlock stream →
    ∀ j c, s.conn j = some c → c.closed = false → c.fd ≠ fd) ∧
  (∀ i n, a = .read i n → 0 < n) ∧
  ∀ r, s.request? a = some r → r.2.Clear s.srv.db

theorem Sane.line (h : Sane s) (hlive : s.srv.crashed = false) {i : ι} {c : HubConn}
    {text : CStr} (hnext : s.next? i = some (c, text)) (w : World S) :
    Sane (s.step (.line i w)) := by
  obtain ⟨hc, hopen, -, l, ls, htodo, rfl⟩ := next?_eq_some hnext
  have hconn : (s.step (.line i w)).conn = (s.handleLine i w c (lineText l)).conn := by
    simp only [step, hlive, act, hnext, Bool.false_eq_true, if_false]
  have hps : (s.step (.line i w)).ps = (s.session w c (lineText l)).ps := by
    simp only [step, hlive, act, hnext, Bool.false_eq_true, if_false]
    rfl
  have hframe := receive_frame (s.session w c (lineText l)).sent
  have hself := hframe (afterLine (s.session w c (lineText l)) l c)
  refine h.frame ⟨fun j d' hd' => ?_, fun j d hd => ?_⟩ (fun fd hlists => ?_) fun j hj => ?_
  · by_cases hji : j = i
    · subst hji
      rw [hconn, conn_handleLine_self htodo] at hd'
      obtain rfl := Option.some.inj hd'
      exact ⟨c, hc, hself.1.symm, fun hcl => hself.2.1 ▸ hcl⟩
    · rw [hconn, conn_handleLine_of_ne hji] at hd'
      obtain ⟨d, hd, rfl⟩ := Option.map_eq_some_iff.mp hd'
      exact ⟨d, hd, (hframe d).1.symm, fun hcl => (hframe d).2.1 ▸ hcl⟩
  · by_cases hji : j = i
    · subst hji
      obtain rfl := Option.some.inj (hc.symm.trans hd)
      refine ⟨_, by rw [hconn, conn_handleLine_self htodo], hself.1, fun hmode => ?_⟩
      rw [hself.2.2.1]
      exact subscribed_session w _ hmode
    · refine ⟨_, by rw [hconn, conn_handleLine_of_ne hji, hd, Option.map_some], (hframe d).1, ?_⟩
      exact fun hmode => (hframe d).2.2.1.trans hmode
  · rw [hps] at hlists
    -- the client of the line, or one that was listed before
    have hown : ∀ d, s.conn i = some d → (s.session w c (lineText l)).subscribed = true →
        ∃ k c', (s.step (.line i w)).conn k = some c' ∧ c'.closed = false ∧ c'.fd = d.fd ∧
          c'.subscribed = true := by
      intro d hd hmode
      obtain rfl := Option.some.inj (hc.symm.trans hd)
      exact ⟨i, _, by rw [hconn, conn_handleLine_self htodo], hself.2.1.trans hopen, hself.1,
        hself.2.2.1.trans hmode⟩
    rcases lists_session hlists with hold | ⟨rfl, hmode⟩
    · obtain ⟨k, d, hd, hdopen, rfl, hdmode⟩ := h.listed fd hold
      by_cases hki : k = i
      · subst hki
        obtain rfl := Option.some.inj (hc.symm.trans hd)
        exact hown c hc (subscribed_session w _ hdmode)
      · exact ⟨k, _, by rw [hconn, conn_handleLine_of_ne hki, hd, Option.map_some],
          (hframe d).2.1.trans hdopen, (hframe d).1, (hframe d).2.2.1.trans hdmode⟩
    · exact hown c hc hmode
  · by_cases hji : j = i
    · subst hji
      rw [hconn, conn_handleLine_self htodo] at hj
      cases hj
    · exact servedBy_step_of_ne hlive fun w' hw' => hji (HubAct.line.inj hw').1.symm

omit [LinearOrder S] in
/-- A step that changes one connection and not its descriptor, mode or
being open, and no subscriptions. -/
theorem Sane.setConn {t : Hub ι S} (h : Sane s) {i : ι} {c c' : HubConn}
    (hc : s.conn i = some c) (hconn : t.conn = (s.setConn i c').conn) (hps : t.ps = s.ps)
    (hfd : c'.fd = c.fd) (hclosed : c'.closed = c.closed) (hmode : c'.subscribed = c.subscribed)
    (hserved : ∀ j, t.servedBy j = s.servedBy j) : Sane t := by
  refine h.frame ⟨fun j d' hd' => ?_, fun j d hd => ?_⟩ (fun fd hlists => ?_) fun j _ => hserved j
  · rw [hconn, conn_setConn] at hd'
    split at hd'
    · rename_i hji
      obtain rfl := Option.some.inj hd'
      exact ⟨c, hji ▸ hc, hfd.symm, fun hcl => hclosed ▸ hcl⟩
    · exact ⟨d', hd', rfl, id⟩
  · rw [hconn, conn_setConn]
    split
    · rename_i hji
      obtain rfl := Option.some.inj (hc.symm.trans (hji ▸ hd))
      exact ⟨c', rfl, hfd, fun hm => hmode.trans hm⟩
    · exact ⟨d, hd, rfl, id⟩
  · obtain ⟨k, d, hd, hopen, rfl, hdmode⟩ := h.listed fd (hps ▸ hlists)
    by_cases hki : k = i
    · subst hki
      obtain rfl := Option.some.inj (hc.symm.trans hd)
      exact ⟨k, c', by rw [hconn, conn_setConn, if_pos rfl], hclosed.trans hopen, hfd,
        hmode.trans hdmode⟩
    · exact ⟨k, d, by rw [hconn, conn_setConn, if_neg hki, hd], hopen, rfl, hdmode⟩

omit [LinearOrder S] in
/-- A step that leaves connections and subscriptions alone. -/
theorem Sane.same {t : Hub ι S} (h : Sane s) (hconn : t.conn = s.conn) (hps : t.ps = s.ps)
    (hserved : ∀ j, t.servedBy j = s.servedBy j) : Sane t where
  distinct := hconn ▸ h.distinct
  listed := by
    rw [hconn, hps]
    exact h.listed
  unserved i hi := (hserved i).trans (h.unserved i (hconn ▸ hi))

omit [LinearOrder S] in
theorem Sane.accept (h : Sane s) {i : ι} {fd : Int} {wlock : Option Nat} {stream : List UInt8}
    (hnew : s.conn i = none) (hfree : ∀ j c, s.conn j = some c → c.closed = false → c.fd ≠ fd)
    {t : Hub ι S} (hconn : t.conn = (s.setConn i (.accepted fd wlock stream)).conn)
    (hps : t.ps = s.ps) (hserved : ∀ j, t.servedBy j = s.servedBy j) : Sane t where
  distinct j k c c' hj hk hcopen hcopen' hfd := by
    rw [hconn, conn_setConn] at hj hk
    split at hj <;> split at hk
    · rename_i hji hki
      exact hji.trans hki.symm
    · obtain rfl := Option.some.inj hj
      exact absurd hfd.symm (hfree k c' hk hcopen')
    · obtain rfl := Option.some.inj hk
      exact absurd hfd (hfree j c hj hcopen)
    · exact h.distinct j k c c' hj hk hcopen hcopen' hfd
  listed fd' hlists := by
    obtain ⟨k, d, hd, hopen, hfd, hmode⟩ := h.listed fd' (hps ▸ hlists)
    refine ⟨k, d, ?_, hopen, hfd, hmode⟩
    rw [hconn, conn_setConn, if_neg fun hki => ?_, hd]
    rw [hki, hnew] at hd
    cases hd
  unserved j hj := by
    rw [hconn, conn_setConn] at hj
    split at hj
    · cases hj
    · exact (hserved j).trans (h.unserved j hj)

omit [LinearOrder S] in
/-- Before its descriptor is closed a connection gives up its
subscriptions. -/
theorem Sane.close (h : Sane s) {i : ι} {c : HubConn} (hc : s.conn i = some c) {t : Hub ι S}
    (hconn : t.conn = (s.setConn i { c with closed := true }).conn)
    (hps : t.ps = s.ps.pubsubUnsubscribeAll c.fd) (hserved : ∀ j, t.servedBy j = s.servedBy j) :
    Sane t := by
  refine h.frame ⟨fun j d' hd' => ?_, fun j d hd => ?_⟩ (fun fd hlists => ?_) fun j _ => hserved j
  · rw [hconn, conn_setConn] at hd'
    split at hd'
    · rename_i hji
      obtain rfl := Option.some.inj hd'
      exact ⟨c, hji ▸ hc, rfl, fun hcl => by cases hcl⟩
    · exact ⟨d', hd', rfl, id⟩
  · rw [hconn, conn_setConn]
    split
    · rename_i hji
      obtain rfl := Option.some.inj (hc.symm.trans (hji ▸ hd))
      exact ⟨_, rfl, rfl, id⟩
    · exact ⟨d, hd, rfl, id⟩
  · obtain ⟨ch, hch⟩ := hlists
    rw [hps, PubsubMgr.fdsOf_unsubscribeAll, List.mem_filter, decide_eq_true_eq] at hch
    obtain ⟨k, d, hd, hopen, hfd, hmode⟩ := h.listed fd ⟨ch, hch.1⟩
    refine ⟨k, d, ?_, hopen, hfd, hmode⟩
    rw [hconn, conn_setConn, if_neg fun hki => ?_, hd]
    obtain rfl := Option.some.inj (hc.symm.trans (hki ▸ hd))
    exact hch.2 hfd.symm

theorem Sane.step (h : Sane s) (hlive : s.srv.crashed = false) {a : HubAct ι S}
    (hok : Allowed s a) : Sane (s.step a) := by
  have hserved := fun (hne : ∀ j w, a ≠ .line j w) j => servedBy_step_of_ne hlive (hne j)
  have hact : (s.step a).conn = (s.act a).conn ∧ (s.step a).ps = (s.act a).ps := by
    simp only [Hub.step, hlive, Bool.false_eq_true, if_false, and_self]
  cases a with
  | accept i fd wlock stream =>
    have hsame := hserved fun _ _ h => by cases h
    cases hc : s.conn i with
    | none =>
      simp only [act, hc, Option.isSome_none, Bool.false_eq_true, if_false] at hact
      exact h.accept hc (hok.1 i fd wlock stream rfl) hact.1 hact.2 hsame
    | some c =>
      simp only [act, hc, Option.isSome_some, if_true] at hact
      exact h.same hact.1 hact.2 hsame
  | read i n =>
    have hsame := hserved fun _ _ h => by cases h
    cases hc : s.conn i with
    | none =>
      simp only [act, hc] at hact
      exact h.same hact.1 hact.2 hsame
    | some c =>
      simp only [act, hc] at hact
      split at hact
      · exact h.same hact.1 hact.2 hsame
      · exact h.setConn hc hact.1 hact.2 rfl rfl rfl hsame
  | line i w =>
    cases hnext : s.next? i with
    | none =>
      have hnone : s.request? (.line i w) = none := by rw [request?, hnext, Option.bind_none]
      simp only [act, hnext] at hact
      refine h.same hact.1 hact.2 fun j => ?_
      rw [servedBy_step hlive, hnone]
      exact List.append_nil _
    | some next => exact h.line hlive hnext w
  | close i =>
    have hsame := hserved fun _ _ h => by cases h
    cases hc : s.conn i with
    | none =>
      simp only [act, hc] at hact
      exact h.same hact.1 hact.2 hsame
    | some c =>
      simp only [act, hc] at hact
      split at hact
      · exact h.close hc hact.1 hact.2 hsame
      · exact h.same hact.1 hact.2 hsame
  | replicated write => exact h.same hact.1 hact.2 (hserved fun _ _ h => by cases h)
  | expire now rand => exact h.same hact.1 hact.2 (hserved fun _ _ h => by cases h)

/-! ## The talk with a client -/

omit [LinearOrder S] in
/-- Nothing of what the talk is about has changed. -/
theorem Talks.congr {t : Hub ι S} {i : ι} {c : HubConn} (h : Talks s i c)
    (hserved : t.servedBy i = s.servedBy i) : Talks t i c where
  follows := h.follows
  subscribed := h.subscribed
  quit := h.quit
  texts := hserved ▸ h.texts
  answers := hserved ▸ h.answers
  got := hserved ▸ h.got

omit [LinearOrder S] in
theorem Talks.read {i : ι} {c : HubConn} (h : Talks s i c) (hnul : ∀ b ∈ c.stream, b ≠ 0)
    {n : Nat} (hn : 0 < n) : Talks s i (c.read n) where
  follows := by
    have hread := h.follows.readQuit hnul hn
    rw [readQuit_queue] at hread
    exact hread
  subscribed := h.subscribed
  quit := h.quit
  texts := h.texts
  answers := h.answers
  got := h.got

omit [LinearOrder S] in
/-- One more line was taken, for which `sends` was served, if anything. -/
theorem Talks.took {i : ι} {c c' : HubConn} {l : List UInt8} {ls : List (List UInt8)}
    {t : Hub ι S} (h : Talks s i c) (hquit : c.quit = false) (htodo : c.todo = l :: ls)
    {texts : List CStr} {q : Bool} (hone : asked [l] = (texts, q))
    {more : List (Request S × List (Int × List UInt8))}
    (hserved : t.servedBy i = s.servedBy i ++ more)
    (htexts : more.map (fun e => e.1.text?) = texts.map some)
    (hmore : ∀ e ∈ more, ∃ (r : CmdReply) (stack : List UInt8),
      Server.sentOn c.fd e.2 = r.send stack)
    (hc' : c' = { c with
      todo := ls
      taken := c.taken ++ [l]
      subscribed := false
      quit := q
      got := c.got ++ ((more.flatMap fun e => Server.sentOn c.fd e.2)
        ++ if q then sendReply (CStr.lit "+OK").bytes else []) }) : Talks t i c' := by
  subst hc'
  have hasked : (asked c.taken).2 = false := h.quit ▸ hquit
  refine ⟨?_, rfl, ?_, ?_, ?_, ?_⟩
  · have hold := h.follows
    rw [htodo] at hold
    simpa using hold
  · rw [asked_append, hasked, hone]
    rfl
  · rw [hserved, List.map_append, h.texts, htexts, asked_append, hasked, hone]
    simp
  · intro e he
    rw [hserved] at he
    exact (List.mem_append.mp he).elim (h.answers e) (hmore e)
  · have hgot := h.got
    rw [hquit] at hgot
    simp only [hserved, List.flatMap_append, hgot, Bool.false_eq_true, if_false, List.append_nil,
      List.append_assoc]

/-- The line a client is at that does not subscribe. -/
theorem Talks.line {i : ι} {c : HubConn} {l : List UInt8} {ls : List (List UInt8)} {w : World S}
    {t : Hub ι S} (h : Talks s i c) (hlive : s.srv.crashed = false) (hopen : c.closed = false)
    (hquit : c.quit = false) (htodo : c.todo = l :: ls) (hplain : isPubsub (lineText l) = false)
    (hanswer : isRequest c (lineText l) = true → ∃ (r : CmdReply) (stack : List UInt8),
      Server.sentOn c.fd (s.srv.serve (.line w s.ps c.fd (lineText l))).2 = r.send stack)
    (hserved : t.servedBy i = s.servedBy i
      ++ if isRequest c (lineText l) then
        [((Request.line w s.ps c.fd (lineText l) : Request S),
          (s.srv.serve (.line w s.ps c.fd (lineText l))).2)] else []) :
    Talks t i ((afterLine (s.session w c (lineText l)) l c).receive
      (s.session w c (lineText l)).sent) := by
  have hreceive : ∀ u : Session S, (afterLine u l c).receive u.sent = { c with
      todo := ls
      taken := c.taken ++ [l]
      subscribed := u.subscribed
      quit := u.quit
      got := c.got ++ Server.sentOn c.fd u.sent } := by
    intro u
    simp only [HubConn.receive, afterLine, hopen, htodo, List.tail_cons, Bool.false_eq_true,
      if_false]
  rw [hreceive]
  by_cases hreq : isRequest c (lineText l) = true
  · -- a request
    obtain ⟨-, hmode, hq, hsent⟩ := session_request (w := w) hlive hreq
    obtain ⟨cmd, args, hparse, -, -, -, hname⟩ := isRequest_iff.mp hreq
    have hone : asked [l] = ([lineText l], false) := by
      have hnotquit : isQuit (lineText l) = false := by
        rw [isQuit, hparse]
        exact hname
      rw [asked_singleton, hparse, if_neg (by simp), hnotquit]
      rfl
    rw [if_pos hreq] at hserved
    refine h.took hquit htodo hone hserved rfl (List.forall_mem_singleton.mpr (hanswer hreq)) ?_
    rw [hmode, hq, hsent, h.subscribed, hquit]
    simp
  · rw [if_neg hreq] at hserved
    cases hparse : quickParse (lineText l) with
    | nil =>
      obtain ⟨-, hmode, hq, hsent⟩ := session_blank (s := s) (w := w) (c := c) hparse
      have hone : asked [l] = ([], false) := by rw [asked_singleton, if_pos hparse]
      refine h.took hquit htodo hone hserved rfl (fun _ he => absurd he List.not_mem_nil) ?_
      rw [hmode, hq, hsent, h.subscribed, hquit]
      rfl
    | cons cmd args =>
      have hisquit : isQuit (lineText l) = true := by
        by_contra hnot
        refine hreq ?_
        simp only [isRequest, hparse, hplain, h.subscribed, Bool.not_eq_true] at hnot ⊢
        rw [hnot]
        rfl
      obtain ⟨-, hmode, hq, hsent⟩ := session_quit (s := s) (w := w) (c := c) hplain h.subscribed
        hisquit
      have hone : asked [l] = ([], true) := by
        rw [asked_singleton, hparse, if_neg (by simp), hisquit, if_pos rfl]
      refine h.took hquit htodo hone hserved rfl (fun _ he => absurd he List.not_mem_nil) ?_
      rw [hmode, hq, hsent, h.subscribed]
      simp [Server.sentOn]

/-! ## Runs -/

end Hub

end AntzKV

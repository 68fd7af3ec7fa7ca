/-
AntzKV.Cluster.PeersTheorems — which peer a HEARTBEAT is credited to.

A HEARTBEAT goes to the first peer that has the descriptor of the
connection in `in_fd` or the id that the connection has given last. The
second is what it means; `in_fd` may be left over, from an earlier JOIN on
the connection or from a connection that had the descriptor before. So the
credit is right exactly where no peer before the named one has the
descriptor (`heartbeatPeer_eq_iff`), and on the runs on which that holds at
every HEARTBEAT all of them are credited to the peer of the latest JOIN
(`heartbeat_credits_named`). Those are all runs on which a connection names
one peer at most, and no descriptor comes back before the thread that had
it has cleared it (`clean_of_orderly`).
-/
import AntzKV.Cluster.Peers
import AntzKV.Lib.Run

namespace AntzKV

/-! ## The search for a peer -/

/-- A search for one of two things finds what the search for the second
finds, exactly when the first is nowhere before. -/
theorem findIdx?_or_eq_iff {α : Type} (xs : List α) (p q : α → Bool) :
    xs.findIdx? (fun x => p x || q x) = xs.findIdx? q ↔
      ∀ (i : Nat) (h : i < xs.length), p xs[i] = true → ∃ j ∈ xs.findIdx? q, j ≤ i := by
  constructor
  · intro heq i hi hp
    rw [← heq]
    cases hfind : xs.findIdx? fun x => p x || q x with
    | none =>
      have hno := List.findIdx?_eq_none_iff.mp hfind xs[i] (List.getElem_mem hi)
      simp [hp] at hno
    | some j =>
      refine ⟨j, rfl, ?_⟩
      obtain ⟨_, _, hbefore⟩ := List.findIdx?_eq_some_iff_getElem.mp hfind
      by_contra hlt
      exact hbefore i (by omega) (by simp [hp])
  · intro hfirst
    cases hfind : xs.findIdx? q with
    | none =>
      refine List.findIdx?_eq_none_iff.mpr fun x hx => ?_
      have hq := List.findIdx?_eq_none_iff.mp hfind x hx
      obtain ⟨i, hi, rfl⟩ := List.getElem_of_mem hx
      have hp : p xs[i] = false := by
        by_contra hp
        obtain ⟨j, hj, -⟩ := hfirst i hi (by simpa using hp)
        rw [hfind] at hj
        cases hj
      simp [hp, hq]
    | some j =>
      obtain ⟨hj, hq, hbefore⟩ := List.findIdx?_eq_some_iff_getElem.mp hfind
      refine List.findIdx?_eq_some_iff_getElem.mpr ⟨hj, by simp [hq], fun k hk hor => ?_⟩
      simp only [Bool.or_eq_true] at hor
      obtain hp | hq' := hor
      · obtain ⟨j', hj', hle⟩ := hfirst k (lt_trans hk hj) hp
        rw [hfind] at hj'
        obtain rfl := Option.some.inj hj'
        omega
      · exact hbefore k hk hq'

/-- The peer that the id names, if it names one. -/
def namedPeer (peers : List ClusterPeer) (peerId : Option NodeOrigin) : Option Nat :=
  peerId.bind (findPeer peers)

/-- No peer before the one that the connection names has its descriptor. -/
def Unshared (peers : List ClusterPeer) (fd : Int) (peerId : Option NodeOrigin) : Prop :=
  ∀ (i : Nat) (h : i < peers.length), peers[i].inFd = fd → ∃ j ∈ namedPeer peers peerId, j ≤ i

instance (peers : List ClusterPeer) (fd : Int) (peerId : Option NodeOrigin) :
    Decidable (Unshared peers fd peerId) :=
  inferInstanceAs (Decidable (∀ (i : Nat) (h : i < peers.length), peers[i].inFd = fd →
    ∃ j ∈ namedPeer peers peerId, j ≤ i))

theorem namedPeer_eq_findIdx? (peers : List ClusterPeer) (peerId : Option NodeOrigin) :
    namedPeer peers peerId = peers.findIdx? fun p => peerId == some p.info.id := by
  cases peerId with
  | none => exact (List.findIdx?_eq_none_iff.mpr fun _ _ => rfl).symm
  | some id =>
    refine congrArg (peers.findIdx? ·) (funext fun p => ?_)
    simp [eq_comm]

theorem heartbeatPeer_eq_iff (peers : List ClusterPeer) (fd : Int) (peerId : Option NodeOrigin) :
    heartbeatPeer peers fd peerId = namedPeer peers peerId ↔ Unshared peers fd peerId := by
  rw [Unshared, namedPeer_eq_findIdx?, heartbeatPeer, findIdx?_or_eq_iff]
  simp only [beq_iff_eq]

namespace ClusterRun

/-! ## What a connection has said -/

/-- What a line makes of the id that the connection `c` has given last. -/
def joinedStep (c : Nat) (peerId : Option NodeOrigin) : ClusterAct → Option NodeOrigin
  | .line c' text =>
    match peerMsg text with
    | some (.join id) => if c' = c then some id else peerId
    | _ => peerId
  | _ => peerId

/-- The id in the latest valid JOIN on the connection. -/
def joined (c : Nat) (as : List ClusterAct) : Option NodeOrigin := as.foldl (joinedStep c) none

/-- The id in the thread of the connection. -/
def peerIdOf (s : ClusterRun) (c : Nat) : Option NodeOrigin := (s.handlers[c]?).bind (·.peerId)

theorem peerIdOf_onPeer (s : ClusterRun) (o : Option Nat) (f : ClusterPeer → ClusterPeer) (c : Nat) :
    (s.onPeer o f).peerIdOf c = s.peerIdOf c := by
  rw [peerIdOf, (s.onPeer_frame o f).2.2.2, peerIdOf]

theorem peerIdOf_onHandler (s : ClusterRun) {f : Handler → Handler}
    (hf : ∀ h, (f h).peerId = h.peerId) (c' c : Nat) :
    (s.onHandler c' f).peerIdOf c = s.peerIdOf c := by
  rw [peerIdOf, onHandler, List.getElem?_modify, peerIdOf]
  cases s.handlers[c]? with
  | none => rfl
  | some h =>
    by_cases hc : c' = c
    · simp [hc, hf]
    · simp [hc]

theorem peerIdOf_step {s : ClusterRun} {a : ClusterAct} (h : s.Enabled a) (c : Nat) :
    (s.step a).peerIdOf c = joinedStep c (s.peerIdOf c) a := by
  cases a with
  | accept fd =>
    show ((s.handlers ++ [⟨fd, .reading, none⟩])[c]?).bind (·.peerId) = s.peerIdOf c
    rw [peerIdOf, List.getElem?_append]
    split_ifs with hc
    · rfl
    · rw [List.getElem?_eq_none (l := s.handlers) (by omega), List.getElem?_singleton]
      split_ifs <;> rfl
  | line c' text =>
    obtain ⟨hat, -, -⟩ := h
    obtain ⟨h, hh, -⟩ := Option.map_eq_some_iff.mp hat
    simp only [step, joinedStep, hh]
    cases peerMsg text with
    | none => rfl
    | some msg =>
      cases msg with
      | heartbeat v => exact peerIdOf_onPeer _ _ _ _
      | join id =>
        dsimp only
        rw [peerIdOf_onPeer, peerIdOf, onHandler, List.getElem?_modify]
        by_cases hc : c' = c
        · subst hc
          simp [hh]
        · simp [hc, peerIdOf]
  | close c' =>
    exact s.peerIdOf_onHandler (f := fun h => { h with stage := .closed }) (fun _ => rfl) c' c
  | clear c' =>
    simp only [step, joinedStep]
    split
    · rfl
    · exact s.peerIdOf_onHandler (f := fun h => { h with stage := .done }) (fun _ => rfl) c' c
  | connectPeer i =>
    simp only [step, joinedStep]
    split_ifs <;> rfl
  | connected i fd => exact peerIdOf_onPeer s _ _ c
  | sendFailed i => exact peerIdOf_onPeer s _ _ c
  | hb =>
    show (s.hbStep.handlers[c]?).bind (·.peerId) = s.peerIdOf c
    rw [s.hbStep_frame.1, peerIdOf]
  | tick now => rfl

/-- A connection has the id of its own latest JOIN. -/
theorem peerIdOf_run {s : ClusterRun} (c : Nat) {as : List ClusterAct}
    (h : Run.Guarded step Enabled s as) :
    (s.run as).peerIdOf c = as.foldl (joinedStep c) (s.peerIdOf c) := by
  induction as generalizing s with
  | nil => rfl
  | cons a as ih =>
    rw [run, List.foldl_cons, List.foldl_cons, ← peerIdOf_step h.1]
    exact ih h.2

theorem peerIdOf_start (cs : ClusterState) (clock : UInt64) (c : Nat) {as : List ClusterAct}
    (h : Run.Guarded step Enabled (cs.start clock) as) :
    ((cs.start clock).run as).peerIdOf c = joined c as :=
  peerIdOf_run c h

/-! ## Crediting -/

/-- From `s` to `s'` the peer with the id has been credited, and no other:
the times and the versions of all peers. -/
def CreditsOnly (s : ClusterRun) (peerId : Option NodeOrigin) (v : UInt64) (s' : ClusterRun) : Prop :=
  ∀ i, (s'.peers[i]?).map (fun p => (p.lastSeen, p.lastVersion))
    = if namedPeer s.peers peerId = some i then (s.peers[i]?).map fun _ => (s.clock, v)
      else (s.peers[i]?).map fun p => (p.lastSeen, p.lastVersion)

/-- A HEARTBEAT that comes on a connection finds no peer with the
descriptor before the one that the connection names. -/
def Clean (s : ClusterRun) : ClusterAct → Prop
  | .line c text => ∀ v, peerMsg text = some (.heartbeat v) →
      ∀ h ∈ s.handlers[c]?, Unshared s.peers h.fd h.peerId
  | _ => True

instance (s : ClusterRun) : (a : ClusterAct) → Decidable (s.Clean a)
  | .line c text =>
    match hmsg : peerMsg text with
    | some (.heartbeat _) =>
      decidable_of_iff (∀ h ∈ s.handlers[c]?, Unshared s.peers h.fd h.peerId)
        (by simp [Clean, hmsg])
    | some (.join _) => isTrue (by simp [Clean, hmsg])
    | none => isTrue (by simp [Clean, hmsg])
  | .tick _ | .accept _ | .close _ | .clear _ | .connectPeer _ | .connected _ _ | .sendFailed _
  | .hb => isTrue trivial

theorem creditsOnly_step {s : ClusterRun} {c : Nat} {text : List UInt8} {v : UInt64}
    (hmsg : peerMsg text = some (.heartbeat v)) (h : s.Enabled (.line c text))
    (hclean : s.Clean (.line c text)) :
    s.CreditsOnly (s.peerIdOf c) v (s.step (.line c text)) := by
  obtain ⟨hat, -, -⟩ := h
  obtain ⟨h, hh, -⟩ := Option.map_eq_some_iff.mp hat
  have hid : s.peerIdOf c = h.peerId := by
    rw [peerIdOf, hh]
    rfl
  have hunshared := hclean v hmsg h hh
  intro i
  simp only [step, hh, hmsg, hid]
  rw [(heartbeatPeer_eq_iff _ _ _).mpr hunshared, getElem?_onPeer]
  split_ifs
  · rw [Option.map_map]
    rfl
  · rfl

/-- **Every HEARTBEAT is credited to the peer of the latest JOIN on its
connection, and to no other.** -/
theorem heartbeat_credits_named (cs : ClusterState) (clock : UInt64) {as : List ClusterAct}
    (has : Run.Guarded step (fun s a => s.Enabled a ∧ s.Clean a) (cs.start clock) as)
    {n c : Nat} {text : List UInt8} (hline : as[n]? = some (.line c text)) {v : UInt64}
    (hmsg : peerMsg text = some (.heartbeat v)) :
    ((cs.start clock).run (as.take n)).CreditsOnly (joined c (as.take n)) v
      ((cs.start clock).run (as.take (n + 1))) := by
  obtain ⟨henabled, hclean⟩ := has.ok_of_getElem? hline
  have hjoined := peerIdOf_start cs clock c ((has.imp fun _ _ => And.left).take n)
  have hnext : (cs.start clock).run (as.take (n + 1))
      = ((cs.start clock).run (as.take n)).step (.line c text) := by
    rw [List.take_add_one, hline, run, run, List.foldl_append]
    rfl
  rw [hnext, ← hjoined]
  exact creditsOnly_step hmsg henabled hclean

/-- A node with two peers. -/
def twoRun : ClusterRun :=
  ClusterState.start ⟨.ofCStr (.lit "A"), 16379,
    [⟨.ofCStr (.lit "B"), .lit "h", 6380, 16380, .auto⟩,
      ⟨.ofCStr (.lit "C"), .lit "h", 6381, 16381, .auto⟩]⟩ 10

/-- A connection that joins, and its HEARTBEAT. -/
def oneJoin : List ClusterAct :=
  [.accept 7, .line 0 (CStr.lit "JOIN C 6381").bytes, .line 0 (CStr.lit "HEARTBEAT 5").bytes]

theorem oneJoin_credited :
    (twoRun.run (oneJoin.take 2)).CreditsOnly (joined 0 (oneJoin.take 2)) 5
      (twoRun.run (oneJoin.take 3)) := by
  have hclean : Run.Guarded step (fun s a => s.Enabled a ∧ s.Clean a) twoRun oneJoin := by decide
  exact heartbeat_credits_named _ _ hclean rfl rfl

/-- Two JOINs on one connection; the descriptor stays with both peers. -/
def twoJoins : List ClusterAct :=
  [.accept 7, .line 0 (CStr.lit "JOIN B 6380").bytes, .line 0 (CStr.lit "JOIN C 6381").bytes]

/-- The HEARTBEAT is credited to the first peer, and the second is named. -/
theorem two_joins_credit_first :
    Run.Guarded step Enabled twoRun (twoJoins ++ [.line 0 (CStr.lit "HEARTBEAT 5").bytes]) ∧
      peerMsg (CStr.lit "HEARTBEAT 5").bytes = some (.heartbeat 5) ∧
      ¬ (twoRun.run twoJoins).CreditsOnly (joined 0 twoJoins) 5
        (twoRun.run (twoJoins ++ [.line 0 (CStr.lit "HEARTBEAT 5").bytes])) := by
  refine ⟨by decide, rfl, fun h => ?_⟩
  have hfirst := h 0
  revert hfirst
  decide

/-! ## Connections in order -/

/-- The ids of the peers; no action changes them. -/
def ids (s : ClusterRun) : List NodeOrigin := s.peers.map (·.info.id)

theorem namedPeer_congr {s s' : ClusterRun} (h : s'.ids = s.ids) (peerId : Option NodeOrigin) :
    namedPeer s'.peers peerId = namedPeer s.peers peerId := by
  have hfind : ∀ (s : ClusterRun) id, findPeer s.peers id = s.ids.findIdx? (· == id) := by
    intro s id
    rw [ids, List.findIdx?_map]
    rfl
  cases peerId with
  | none => rfl
  | some id => simp only [namedPeer, Option.bind_some, hfind, h]

theorem ids_onPeer (s : ClusterRun) (o : Option Nat) {f : ClusterPeer → ClusterPeer}
    (hf : ∀ p, (f p).info = p.info) : (s.onPeer o f).ids = s.ids := by
  refine List.ext_getElem? fun i => ?_
  rw [ids, ids, List.getElem?_map, List.getElem?_map, getElem?_onPeer]
  split_ifs
  · rw [Option.map_map]
    exact congrArg (Option.map · _) (funext fun p => by simp [hf])
  · rfl

/-- A connection that has named a peer names no other, and a descriptor
does not come back before the thread that had it has cleared it. -/
def Orderly (s : ClusterRun) : ClusterAct → Prop
  | .accept fd => ∀ h ∈ s.handlers, h.stage = .closed → h.fd ≠ fd
  | .line c text => ∀ id, peerMsg text = some (.join id) → ∀ h ∈ s.handlers[c]?,
      namedPeer s.peers h.peerId = none ∨ h.peerId = some id
  | _ => True

/-- The thread of the connection, which is not through. -/
def Live (s : ClusterRun) (c : Nat) (h : Handler) : Prop :=
  s.handlers[c]? = some h ∧ h.stage ≠ .done

/-- A descriptor belongs to one thread at most that is not through, and a
peer that has it has been named by that thread. -/
structure Owned (s : ClusterRun) : Prop where
  valid : ∀ {c h}, s.Live c h → 0 ≤ h.fd
  alone : ∀ {c c' h h'}, s.Live c h → s.Live c' h' → h.fd = h'.fd → c = c'
  owner : ∀ {i p}, s.peers[i]? = some p → 0 ≤ p.inFd →
    ∃ c h, s.Live c h ∧ h.fd = p.inFd ∧ namedPeer s.peers h.peerId = some i

theorem owned_start (cs : ClusterState) (clock : UInt64) : (cs.start clock).Owned where
  valid h := by cases h.1
  alone h := by cases h.1
  owner hp hfd := by
    rw [ClusterState.start, List.getElem?_map] at hp
    obtain ⟨info, -, rfl⟩ := Option.map_eq_some_iff.mp hp
    exact absurd hfd (by simp)

/-- Where the descriptors have owners a HEARTBEAT finds them. -/
theorem Owned.unshared {s : ClusterRun} (hs : s.Owned) {c : Nat} {h : Handler} (hh : s.Live c h) :
    Unshared s.peers h.fd h.peerId := by
  intro i hi hfd
  obtain ⟨c', h', hh', hsame, hnamed⟩ :=
    hs.owner (List.getElem?_eq_getElem hi) (hfd ▸ hs.valid hh)
  obtain rfl := hs.alone hh hh' (by omega)
  obtain rfl := Option.some.inj (hh.1.symm.trans hh'.1)
  exact ⟨i, hnamed, le_rfl⟩

theorem live_of_at {s : ClusterRun} {c : Nat} {stage : HandlerStage} (h : s.At c stage)
    (hstage : stage ≠ .done) : ∃ h, s.Live c h := by
  obtain ⟨hd, hget, rfl⟩ := Option.map_eq_some_iff.mp h
  exact ⟨hd, hget, hstage⟩

theorem clean_of_owned {s : ClusterRun} (hs : s.Owned) {a : ClusterAct} (h : s.Enabled a) :
    s.Clean a := by
  cases a with
  | line c text =>
    intro v hmsg h' hh'
    obtain ⟨h, hlive⟩ := live_of_at h.1 (by decide)
    obtain rfl := Option.some.inj (hlive.1.symm.trans hh')
    exact hs.unshared hlive
  | _ => trivial

/-- Threads that were there, with the descriptors that they had. -/
theorem Owned.of_live {s s' : ClusterRun} (hs : s.Owned)
    (hlive : ∀ {c h'}, s'.Live c h' → ∃ h, s.Live c h ∧ h.fd = h'.fd)
    (howner : ∀ {i p}, s'.peers[i]? = some p → 0 ≤ p.inFd →
      ∃ c h, s'.Live c h ∧ h.fd = p.inFd ∧ namedPeer s'.peers h.peerId = some i) : s'.Owned where
  valid hh' := by
    obtain ⟨h, hh, hfd⟩ := hlive hh'
    exact hfd ▸ hs.valid hh
  alone hh' hh₁' hsame := by
    obtain ⟨h, hh, hfd⟩ := hlive hh'
    obtain ⟨h₁, hh₁, hfd₁⟩ := hlive hh₁'
    exact hs.alone hh hh₁ (by omega)
  owner := howner

theorem live_onPeer (s : ClusterRun) (o : Option Nat) (f : ClusterPeer → ClusterPeer) :
    (s.onPeer o f).Live = s.Live := by
  unfold Live
  rw [(s.onPeer_frame o f).2.2.2]

/-- The thread `c` goes on, without coming back to life. -/
theorem live_onHandler {s : ClusterRun} {c : Nat} {f : Handler → Handler}
    (hfd : ∀ h, (f h).fd = h.fd)
    (hstage : ∀ h, s.handlers[c]? = some h → (f h).stage ≠ .done → h.stage ≠ .done) {c' : Nat}
    {h' : Handler} (hh' : (s.onHandler c f).Live c' h') : ∃ h, s.Live c' h ∧ h.fd = h'.fd := by
  obtain ⟨hget, hnot⟩ := hh'
  rw [onHandler, List.getElem?_modify] at hget
  obtain ⟨h, hh, rfl⟩ := Option.map_eq_some_iff.mp hget
  by_cases hc : c = c'
  · subst hc
    rw [if_pos rfl] at hnot ⊢
    exact ⟨h, ⟨hh, hstage h hh hnot⟩, (hfd h).symm⟩
  · rw [if_neg hc] at hnot ⊢
    exact ⟨h, ⟨hh, hnot⟩, rfl⟩

theorem live_onHandler_self {s : ClusterRun} {c : Nat} {h : Handler} (hh : s.Live c h)
    {f : Handler → Handler} (hstage : (f h).stage ≠ .done) : (s.onHandler c f).Live c (f h) := by
  refine ⟨?_, hstage⟩
  rw [onHandler, List.getElem?_modify, hh.1]
  simp

theorem live_onHandler_ne {s : ClusterRun} {c c' : Nat} {h : Handler} (hh : s.Live c' h)
    (hc : c' ≠ c) (f : Handler → Handler) : (s.onHandler c f).Live c' h := by
  refine ⟨?_, hh.2⟩
  rw [onHandler, List.getElem?_modify, hh.1]
  simp [Ne.symm hc]

/-- An action that leaves the connections and the descriptors alone. -/
theorem Owned.congr {s s' : ClusterRun} (hs : s.Owned) (hhandlers : s'.handlers = s.handlers)
    (hids : s'.ids = s.ids)
    (hfd : ∀ (i : Nat) (p' : ClusterPeer), s'.peers[i]? = some p' →
      ∃ p, s.peers[i]? = some p ∧ p'.inFd = p.inFd) : s'.Owned := by
  have hlive : s'.Live = s.Live := by
    unfold Live
    rw [hhandlers]
  refine hs.of_live (fun hh => ⟨_, hlive ▸ hh, rfl⟩) fun {i p'} hp' hpos => ?_
  obtain ⟨p, hp, heq⟩ := hfd i p' hp'
  rw [heq] at hpos ⊢
  simp only [hlive, namedPeer_congr hids]
  exact hs.owner hp hpos

theorem Owned.onPeer {s : ClusterRun} (hs : s.Owned) (o : Option Nat)
    {f : ClusterPeer → ClusterPeer} (hinfo : ∀ p, (f p).info = p.info)
    (hfd : ∀ p, (f p).inFd = p.inFd) : (s.onPeer o f).Owned := by
  refine hs.congr (s.onPeer_frame o f).2.2.2 (s.ids_onPeer o hinfo) fun i p' hp' => ?_
  rw [getElem?_onPeer] at hp'
  split_ifs at hp'
  · obtain ⟨p, hp, rfl⟩ := Option.map_eq_some_iff.mp hp'
    exact ⟨p, hp, hfd p⟩
  · exact ⟨p', hp', rfl⟩

/-- The connection's own HEARTBEAT gives its descriptor to the peer it
names, and to no other. -/
theorem Owned.heartbeat {s : ClusterRun} (hs : s.Owned) {c : Nat} {h : Handler} (hh : s.Live c h)
    (now v : UInt64) :
    (s.onPeer (heartbeatPeer s.peers h.fd h.peerId) (.heartbeat h.fd now v)).Owned := by
  rw [(heartbeatPeer_eq_iff _ _ _).mpr (hs.unshared hh)]
  have hlive := s.live_onPeer (namedPeer s.peers h.peerId) (.heartbeat h.fd now v)
  have hids := s.ids_onPeer (namedPeer s.peers h.peerId) (f := .heartbeat h.fd now v) fun _ => rfl
  refine hs.of_live (fun hh => ⟨_, hlive ▸ hh, rfl⟩) fun {i p'} hp' hpos => ?_
  simp only [hlive, namedPeer_congr hids]
  rw [getElem?_onPeer] at hp'
  split_ifs at hp' with hi
  · obtain ⟨p, hp, rfl⟩ := Option.map_eq_some_iff.mp hp'
    by_cases hneg : p.inFd < 0
    · exact ⟨c, h, hh, by simp [ClusterPeer.heartbeat, hneg], hi⟩
    · obtain ⟨c', h', hh', hfd, hnamed⟩ := hs.owner hp (by omega)
      exact ⟨c', h', hh', by simp [ClusterPeer.heartbeat, hneg, hfd], hnamed⟩
  · exact hs.owner hp' hpos

/-- A JOIN moves one peer to the connection, and no other peer was there. -/
theorem Owned.join {s : ClusterRun} (hs : s.Owned) {c : Nat} {h : Handler} (hh : s.Live c h)
    {id : NodeOrigin} (hid : namedPeer s.peers h.peerId = none ∨ h.peerId = some id)
    (now : UInt64) :
    ((s.onHandler c fun h => { h with peerId := some id }).onPeer (findPeer s.peers id)
      (.registerIncomingFd h.fd now)).Owned := by
  set s₁ := s.onHandler c fun h => { h with peerId := some id } with hs₁
  have hlive := s₁.live_onPeer (findPeer s.peers id) (.registerIncomingFd h.fd now)
  have hids : (s₁.onPeer (findPeer s.peers id) (.registerIncomingFd h.fd now)).ids = s.ids :=
    s₁.ids_onPeer _ fun _ => rfl
  refine hs.of_live (fun hh' => ?_) fun {i p'} hp' hpos => ?_
  · rw [hlive] at hh'
    exact live_onHandler (f := fun h => { h with peerId := some id }) (fun _ => rfl)
      (fun _ _ hstage => hstage) hh'
  simp only [hlive, namedPeer_congr hids]
  rw [getElem?_onPeer] at hp'
  split_ifs at hp' with hi
  · obtain ⟨p, hp, rfl⟩ := Option.map_eq_some_iff.mp hp'
    exact ⟨c, _, live_onHandler_self hh hh.2, rfl, hi⟩
  · obtain ⟨c', h', hh', hfd, hnamed⟩ := hs.owner hp' hpos
    refine ⟨c', h', live_onHandler_ne hh' ?_ _, hfd, hnamed⟩
    rintro rfl
    obtain rfl := Option.some.inj (hh.1.symm.trans hh'.1)
    obtain hnone | hsame := hid
    · rw [hnone] at hnamed
      cases hnamed
    · rw [hsame] at hnamed
      exact hi hnamed

/-- A new connection has its descriptor for itself. -/
theorem Owned.accept {s : ClusterRun} (hs : s.Owned) {fd : Int} (hfd : 0 ≤ fd)
    (hfree : ∀ h ∈ s.handlers, h.stage ≠ .done → h.fd ≠ fd) :
    (s.step (.accept fd)).Owned := by
  have hnew : ∀ {c h}, (s.step (.accept fd)).Live c h →
      s.Live c h ∨ c = s.handlers.length ∧ h.fd = fd := by
    rintro c h ⟨hget, hstage⟩
    rw [step, List.getElem?_append] at hget
    split_ifs at hget with hc
    · exact .inl ⟨hget, hstage⟩
    · obtain ⟨hlt, rfl⟩ := List.getElem?_eq_some_iff.mp hget
      simp only [List.length_singleton] at hlt
      exact .inr ⟨by omega, by simp⟩
  have hold : ∀ {c h}, s.Live c h → h.fd ≠ fd ∧ (s.step (.accept fd)).Live c h := by
    rintro c h ⟨hget, hstage⟩
    refine ⟨hfree h (List.mem_of_getElem? hget) hstage, ?_, hstage⟩
    rw [step, List.getElem?_append_left (List.getElem?_eq_some_iff.mp hget).1]
    exact hget
  constructor
  case valid =>
    intro c h hh
    obtain hh | ⟨-, hh⟩ := hnew hh
    · exact hs.valid hh
    · exact hh ▸ hfd
  case alone =>
    intro c c' h h' hh hh' hsame
    obtain hh | ⟨hc, hf⟩ := hnew hh <;> obtain hh' | ⟨hc', hf'⟩ := hnew hh'
    · exact hs.alone hh hh' hsame
    · exact absurd (hsame.trans hf') (hold hh).1
    · exact absurd (hsame.symm.trans hf) (hold hh').1
    · exact hc.trans hc'.symm
  case owner =>
    intro i p hp hpos
    obtain ⟨c, h, hh, howns⟩ := hs.owner hp hpos
    exact ⟨c, h, (hold hh).2, howns⟩

theorem Owned.close {s : ClusterRun} (hs : s.Owned) {c : Nat} {h : Handler} (hh : s.Live c h) :
    (s.step (.close c)).Owned := by
  refine hs.of_live (fun hh' => live_onHandler (f := fun h => { h with stage := .closed })
    (fun _ => rfl) (fun h' hget _ => ?_) hh') fun hp hpos => ?_
  · obtain rfl := Option.some.inj (hh.1.symm.trans hget)
    exact hh.2
  · obtain ⟨c', h', hh', hfd, hnamed⟩ := hs.owner hp hpos
    by_cases hc : c' = c
    · subst hc
      exact ⟨c', _, live_onHandler_self hh' (by simp), hfd, hnamed⟩
    · exact ⟨c', h', live_onHandler_ne hh' hc _, hfd, hnamed⟩

/-- A thread that is through has left no peer its descriptor. -/
theorem Owned.clear {s : ClusterRun} (hs : s.Owned) {c : Nat} {h : Handler} (hh : s.Live c h) :
    (s.step (.clear c)).Owned := by
  have hpeers : (s.step (.clear c)).peers = s.peers.map (.clearFd h.fd) := by
    simp only [step, hh.1]
  have hlive : (s.step (.clear c)).Live
      = (s.onHandler c fun h => { h with stage := .done }).Live := by
    unfold Live
    simp only [step, hh.1]
  have hids : (s.step (.clear c)).ids = s.ids := by
    rw [ids, hpeers, ids, List.map_map]
    refine List.map_congr_left fun p _ => ?_
    simp only [Function.comp_apply, ClusterPeer.clearFd]
    split_ifs <;> rfl
  refine hs.of_live (fun hh' => ?_) fun {i p'} hp' hpos => ?_
  · rw [hlive] at hh'
    exact live_onHandler (f := fun h => { h with stage := .done }) (fun _ => rfl)
      (fun _ _ hdone => absurd rfl hdone) hh'
  rw [hpeers, List.getElem?_map] at hp'
  obtain ⟨p, hp, rfl⟩ := Option.map_eq_some_iff.mp hp'
  have hkept : p.inFd ≠ h.fd ∧ p.clearFd h.fd = p := by
    unfold ClusterPeer.clearFd at hpos ⊢
    split_ifs at hpos ⊢ with hsame
    · exact absurd hpos (by simp)
    · exact ⟨hsame, rfl⟩
  rw [hkept.2] at hpos ⊢
  obtain ⟨c', h', hh', hfd, hnamed⟩ := hs.owner hp hpos
  simp only [hlive, namedPeer_congr hids]
  refine ⟨c', h', live_onHandler_ne hh' ?_ _, hfd, hnamed⟩
  rintro rfl
  obtain rfl := Option.some.inj (hh.1.symm.trans hh'.1)
  exact hkept.1 hfd.symm

theorem owned_step {s : ClusterRun} {a : ClusterAct} (h : s.Enabled a) (hok : s.Orderly a)
    (hs : s.Owned) : (s.step a).Owned := by
  cases a with
  | tick now => exact hs.congr rfl rfl fun _ p' hp' => ⟨p', hp', rfl⟩
  | accept fd =>
    refine hs.accept h.1 fun h' hmem hstage => ?_
    cases hcase : h'.stage with
    | reading => exact h.2 h' hmem hcase
    | closed => exact hok h' hmem hcase
    | done => exact absurd hcase hstage
  | line c text =>
    obtain ⟨hd, hlive⟩ := live_of_at h.1 (by decide)
    simp only [step, hlive.1]
    cases hmsg : peerMsg text with
    | none => exact hs
    | some msg =>
      cases msg with
      | heartbeat v => exact hs.heartbeat hlive s.clock v
      | join id => exact hs.join hlive (hok id hmsg hd hlive.1) s.clock
  | close c =>
    obtain ⟨hd, hlive⟩ := live_of_at h (by decide)
    exact hs.close hlive
  | clear c =>
    obtain ⟨hd, hlive⟩ := live_of_at h.1 (by decide)
    exact hs.clear hlive
  | connectPeer i =>
    simp only [step]
    split_ifs
    · exact hs.congr rfl rfl fun _ p' hp' => ⟨p', hp', rfl⟩
    · exact hs
  | connected i fd =>
    have hpeer := hs.onPeer (fd.map fun _ => i) (f := .connect (fd.getD (-1)) s.clock)
      (fun _ => rfl) fun _ => rfl
    exact hpeer.congr rfl rfl fun _ p' hp' => ⟨p', hp', rfl⟩
  | sendFailed i => exact hs.onPeer (some i) (fun _ => rfl) fun _ => rfl
  | hb =>
    obtain ⟨hhandlers, o, hpeers⟩ := s.hbStep_frame
    have hmarked := hs.onPeer o (f := .markDead) (fun _ => rfl) fun _ => rfl
    refine hmarked.congr (hhandlers.trans (s.onPeer_frame o _).2.2.2.symm) ?_ fun i p' hp' => ?_
    · show s.hbStep.ids = _
      rw [ids, hpeers, ids]
    · change s.hbStep.peers[i]? = some p' at hp'
      rw [hpeers] at hp'
      exact ⟨p', hp', rfl⟩

/-- **Where connections are in order no HEARTBEAT meets a descriptor that
is left over.** -/
theorem clean_of_orderly (cs : ClusterState) (clock : UInt64) {as : List ClusterAct}
    (has : Run.Guarded step (fun s a => s.Enabled a ∧ s.Orderly a) (cs.start clock) as) :
    Run.Guarded step (fun s a => s.Enabled a ∧ s.Clean a) (cs.start clock) as :=
  has.imp_of_invariant (fun _ _ h hs => owned_step h.1 h.2 hs)
    (fun _ _ h hs => ⟨h.1, clean_of_owned hs h.1⟩) (owned_start cs clock)

end ClusterRun

end AntzKV

/-
AntzKV.Cluster.HeartbeatTheorems — when the heartbeat daemon gives a peer
up.

The age that the daemon finds is `now - last_seen` in 64 bits, and `now`
was read before the lock was taken. What a peer says in between makes
`last_seen` later than `now`, and the age wraps around: the daemon marks a
peer that it has just heard from (`heard_peer_marked`). On the runs on
which it never comes to a live peer with a later `last_seen`, what it marks
has been silent for more than `CLUSTER_DEAD_MS` (`marked_only_if_silent`).
-/
import AntzKV.Cluster.Peers
import AntzKV.Lib.Run

namespace AntzKV

namespace ClusterRun

/-! ## What an action does to a peer -/

/-- A peer is seen at the time of the clock; one that is not seen keeps the
time, and does not come alive. -/
def SeenFrom (s : ClusterRun) (seen : Prop) (p p' : ClusterPeer) : Prop :=
  (seen → p'.lastSeen = s.clock) ∧
    (¬ seen → p'.lastSeen = p.lastSeen ∧ (p'.alive = true → p.alive = true))

theorem seenFrom_self (s : ClusterRun) {seen : Prop} (h : ¬ seen) (p : ClusterPeer) :
    s.SeenFrom seen p p :=
  ⟨fun hs => absurd hs h, fun _ => ⟨rfl, id⟩⟩

theorem seenFrom_markDead (s : ClusterRun) {seen : Prop} (h : ¬ seen) (p : ClusterPeer) :
    s.SeenFrom seen p p.markDead :=
  ⟨fun hs => absurd hs h, fun _ => ⟨rfl, fun halive => by cases halive⟩⟩

/-- A section on the peer that a search has found, which sets the time. -/
theorem seenFrom_onPeer (s : ClusterRun) (o : Option Nat) {f : ClusterPeer → ClusterPeer}
    (hf : ∀ p, (f p).lastSeen = s.clock) {i : Nat} {p' : ClusterPeer}
    (h : (s.onPeer o f).peers[i]? = some p') :
    ∃ p, s.peers[i]? = some p ∧ s.SeenFrom (o = some i) p p' := by
  rw [getElem?_onPeer] at h
  split_ifs at h with ho
  · obtain ⟨p, hp, rfl⟩ := Option.map_eq_some_iff.mp h
    exact ⟨p, hp, fun _ => hf p, fun hn => absurd ho hn⟩
  · exact ⟨p', h, s.seenFrom_self ho p'⟩

theorem peer_hbStep (s : ClusterRun) {i : Nat} {p' : ClusterPeer}
    (h : s.hbStep.peers[i]? = some p') :
    ∃ p, s.peers[i]? = some p ∧ (p' = p ∨ p' = p.markDead) := by
  obtain ⟨-, o, ho⟩ := s.hbStep_frame
  rw [ho, getElem?_onPeer] at h
  split_ifs at h
  · obtain ⟨p, hp, rfl⟩ := Option.map_eq_some_iff.mp h
    exact ⟨p, hp, .inr rfl⟩
  · exact ⟨p', h, .inl rfl⟩

theorem peer_step (s : ClusterRun) (a : ClusterAct) {i : Nat} {p' : ClusterPeer}
    (h : (s.step a).peers[i]? = some p') :
    ∃ p, s.peers[i]? = some p ∧ s.SeenFrom (s.sees a = some i) p p' := by
  cases a with
  | tick now => exact ⟨p', h, s.seenFrom_self (by simp [sees]) p'⟩
  | accept fd => exact ⟨p', h, s.seenFrom_self (by simp [sees]) p'⟩
  | close c => exact ⟨p', h, s.seenFrom_self (by simp [sees]) p'⟩
  | line c text =>
    simp only [step, sees] at h ⊢
    split at h
    · exact s.seenFrom_onPeer _ (fun _ => rfl) h
    · exact (s.onHandler c _).seenFrom_onPeer _ (fun _ => rfl) h
    · exact ⟨p', h, s.seenFrom_self (by simp) p'⟩
  | clear c =>
    simp only [step] at h
    split at h
    · exact ⟨p', h, s.seenFrom_self (by simp [sees]) p'⟩
    · rw [List.getElem?_map] at h
      obtain ⟨p, hp, rfl⟩ := Option.map_eq_some_iff.mp h
      refine ⟨p, hp, fun hs => by simp [sees] at hs, fun _ => ?_⟩
      unfold ClusterPeer.clearFd
      split_ifs <;> exact ⟨rfl, id⟩
  | connectPeer i =>
    simp only [step] at h
    split_ifs at h <;> exact ⟨p', h, s.seenFrom_self (by simp [sees]) p'⟩
  | connected j fd =>
    cases fd with
    | none => exact ⟨p', h, s.seenFrom_self (by simp [sees]) p'⟩
    | some fd => exact s.seenFrom_onPeer (some j) (fun _ => rfl) h
  | sendFailed j =>
    simp only [step, getElem?_onPeer] at h
    split_ifs at h
    · obtain ⟨p, hp, rfl⟩ := Option.map_eq_some_iff.mp h
      exact ⟨p, hp, s.seenFrom_markDead (by simp [sees]) p⟩
    · exact ⟨p', h, s.seenFrom_self (by simp [sees]) p'⟩
  | hb =>
    obtain ⟨p, hp, hp'⟩ := peer_hbStep s h
    refine ⟨p, hp, ?_⟩
    obtain rfl | rfl := hp'
    · exact s.seenFrom_self (by simp [sees]) p'
    · exact s.seenFrom_markDead (by simp [sees]) p

/-! ## The time a peer was last seen -/

/-- The time at which `last_seen` of the peer was last set in a run from
`s`, with `t` for before. -/
def lastSet (i : Nat) : ClusterRun → List ClusterAct → Option UInt64 → Option UInt64
  | _, [], t => t
  | s, a :: as, t => lastSet i (s.step a) as (if s.sees a = some i then some s.clock else t)

/-- A live peer holds that time. -/
def Holds (s : ClusterRun) (i : Nat) (t : Option UInt64) : Prop :=
  ∀ p, s.peers[i]? = some p → p.alive = true → t = some p.lastSeen

theorem holds_step {s : ClusterRun} {i : Nat} {t : Option UInt64} (h : s.Holds i t)
    (a : ClusterAct) : (s.step a).Holds i (if s.sees a = some i then some s.clock else t) := by
  intro p' hp' halive
  obtain ⟨p, hp, hset, hkeep⟩ := s.peer_step a hp'
  split_ifs with hsees
  · rw [hset hsees]
  · obtain ⟨hseen, hlive⟩ := hkeep hsees
    rw [hseen]
    exact h p hp (hlive halive)

theorem holds_run {i : Nat} : ∀ {s : ClusterRun} {t : Option UInt64} (as : List ClusterAct),
    s.Holds i t → (s.run as).Holds i (lastSet i s as t)
  | _, _, [], h => h
  | _, _, a :: as, h => holds_run as (holds_step h a)

theorem holds_start (cs : ClusterState) (clock : UInt64) (i : Nat) (t : Option UInt64) :
    (cs.start clock).Holds i t := by
  intro p hp halive
  rw [ClusterState.start, List.getElem?_map] at hp
  obtain ⟨info, -, rfl⟩ := Option.map_eq_some_iff.mp hp
  cases halive

/-! ## The daemon -/

/-- The daemon does not come to a live peer that was seen later than it
has read the clock. -/
def Punctual (s : ClusterRun) : ClusterAct → Prop
  | .hb => ∀ now i, s.daemon = .scanning now i →
      ∀ p, s.peers[i]? = some p → p.alive = true → p.lastSeen ≤ now
  | _ => True

instance (s : ClusterRun) : (a : ClusterAct) → Decidable (s.Punctual a)
  | .hb =>
    match h : s.daemon with
    | .scanning now i =>
      decidable_of_iff (∀ p ∈ s.peers[i]?, p.alive = true → p.lastSeen ≤ now)
        (by simp [Punctual, h])
    | .beating => isTrue (by simp [Punctual, h])
    | .ready _ => isTrue (by simp [Punctual, h])
    | .marking _ _ => isTrue (by simp [Punctual, h])
  | .tick _ | .accept _ | .line _ _ | .close _ | .clear _ | .connectPeer _ | .connected _ _
  | .sendFailed _ => isTrue trivial

/-- What the daemon has read is not ahead of the clock. While it has the
list nobody is inside `connect_peer`, and a peer that it has found dead
was seen long before. -/
def DaemonOk (s : ClusterRun) : Prop :=
  match s.daemon with
  | .beating => True
  | .ready now => now ≤ s.clock
  | .scanning now _ => now ≤ s.clock ∧ s.connecting = []
  | .marking now i => now ≤ s.clock ∧ s.connecting = [] ∧
      ∀ p, s.peers[i]? = some p → p.lastSeen.toNat + clusterDeadMs.toNat < now.toNat

/-- An age that does not wrap around. -/
theorem silent_of_isDead {p : ClusterPeer} {now : UInt64} (h : p.isDead now = true)
    (hle : p.lastSeen ≤ now) : p.lastSeen.toNat + clusterDeadMs.toNat < now.toNat := by
  simp only [ClusterPeer.isDead, Bool.and_eq_true, decide_eq_true_eq] at h
  have hage := UInt64.lt_iff_toNat_lt.mp h.2
  rw [UInt64.toNat_sub_of_le _ _ hle] at hage
  omega

/-- A later time makes one that does, and the peer is found dead. -/
theorem isDead_of_later {p : ClusterPeer} {now : UInt64} (halive : p.alive = true)
    (hlater : now < p.lastSeen) (hnear : p.lastSeen.toNat - now.toNat < 2 ^ 63) :
    p.isDead now = true := by
  have hlt := UInt64.lt_iff_toNat_lt.mp hlater
  have hdead : clusterDeadMs.toNat = 2000 := rfl
  have hsmall := p.lastSeen.toNat_lt
  have hage : clusterDeadMs < now - p.lastSeen := by
    rw [UInt64.lt_iff_toNat_lt, UInt64.toNat_sub]
    omega
  simp [ClusterPeer.isDead, halive, hage]

/-- What the other threads leave to the daemon: its place, a clock that has
not gone back, and the list while it has it. -/
structure Leaves (s s' : ClusterRun) : Prop where
  daemon : s'.daemon = s.daemon
  clock : s.clock ≤ s'.clock
  held : s.daemon.holds = true → s.connecting = [] → s'.peers = s.peers ∧ s'.connecting = []

theorem Leaves.refl (s : ClusterRun) : s.Leaves s where
  daemon := rfl
  clock := UInt64.le_refl _
  held _ h := ⟨rfl, h⟩

/-- A section that needs the lock. -/
theorem leaves_of_free {s s' : ClusterRun} (h : s.daemon.holds = false)
    (hdaemon : s'.daemon = s.daemon) (hclock : s'.clock = s.clock) : s.Leaves s' where
  daemon := hdaemon
  clock := UInt64.le_of_eq hclock.symm
  held hholds := by
    rw [h] at hholds
    cases hholds

theorem leaves_step {s : ClusterRun} {a : ClusterAct} (ha : a ≠ .hb) (h : s.Enabled a) :
    s.Leaves (s.step a) := by
  cases a with
  | hb => exact absurd rfl ha
  | tick now => exact { Leaves.refl s with clock := h }
  | accept fd => exact { Leaves.refl s with }
  | close c => exact { Leaves.refl s with }
  | line c text =>
    obtain ⟨-, -, hfree⟩ := h
    simp only [step]
    split
    · rename_i hmsg
      have hframe := onPeer_frame s
      exact leaves_of_free (hfree (by rw [hmsg]; rfl)).2 (hframe _ _).2.1 (hframe _ _).1
    · rename_i id _ hmsg
      have hframe := onPeer_frame (s.onHandler c fun h => { h with peerId := some id })
      exact leaves_of_free (hfree (by rw [hmsg]; rfl)).2 (hframe _ _).2.1 (hframe _ _).1
    · exact Leaves.refl s
  | clear c =>
    simp only [step]
    split
    · exact Leaves.refl s
    · exact leaves_of_free h.2.2 rfl rfl
  | connectPeer i =>
    simp only [step]
    split_ifs
    · exact leaves_of_free h.2 rfl rfl
    · exact Leaves.refl s
  | connected i fd =>
    have hframe := onPeer_frame s (fd.map fun _ => i) (.connect (fd.getD (-1)) s.clock)
    refine ⟨hframe.2.1, UInt64.le_of_eq hframe.1.symm, fun _ hnone => ?_⟩
    -- a thread is inside `connect_peer`
    have hmem := h.1
    rw [hnone] at hmem
    cases hmem
  | sendFailed i =>
    have hframe := onPeer_frame s (some i) .markDead
    exact leaves_of_free h.2 hframe.2.1 hframe.1

theorem daemonOk_of_leaves {s s' : ClusterRun} (h : s.Leaves s') (hok : s.DaemonOk) :
    s'.DaemonOk := by
  have hclock := h.clock
  have hheld := h.held
  unfold DaemonOk at hok ⊢
  rw [h.daemon]
  cases hdaemon : s.daemon with
  | beating => trivial
  | ready now =>
    rw [hdaemon] at hok
    exact UInt64.le_trans hok hclock
  | scanning now i =>
    rw [hdaemon] at hok hheld
    exact ⟨UInt64.le_trans hok.1 hclock, (hheld rfl hok.2).2⟩
  | marking now i =>
    rw [hdaemon] at hok hheld
    obtain ⟨hpeers, hnone⟩ := hheld rfl hok.2.1
    refine ⟨UInt64.le_trans hok.1 hclock, hnone, ?_⟩
    rw [hpeers]
    exact hok.2.2

theorem daemonOk_hbStep {s : ClusterRun} (h : s.Enabled .hb) (hpunctual : s.Punctual .hb)
    (hok : s.DaemonOk) : s.hbStep.DaemonOk := by
  unfold DaemonOk at hok
  unfold hbStep
  cases hdaemon : s.daemon with
  | beating => exact UInt64.le_refl s.clock
  | ready now =>
    rw [hdaemon] at hok
    exact ⟨hok, h now hdaemon⟩
  | scanning now i =>
    rw [hdaemon] at hok
    dsimp only
    cases hp : s.peers[i]? with
    | none => trivial
    | some p =>
      dsimp only
      unfold DaemonOk
      split_ifs with hdead
      · have halive : p.alive = true := (Bool.and_eq_true_iff.mp hdead).1
        have hsilent := silent_of_isDead hdead (hpunctual now i hdaemon p hp halive)
        refine ⟨hok.1, hok.2, fun q hq => ?_⟩
        obtain rfl := Option.some.inj (hp.symm.trans hq)
        exact hsilent
      · exact hok
  | marking now i =>
    rw [hdaemon] at hok
    exact ⟨hok.1, hok.2.1⟩

theorem daemonOk_step {s : ClusterRun} {a : ClusterAct} (h : s.Enabled a ∧ s.Punctual a)
    (hok : s.DaemonOk) : (s.step a).DaemonOk := by
  by_cases ha : a = .hb
  · subst ha
    exact daemonOk_hbStep h.1 h.2 hok
  · exact daemonOk_of_leaves (leaves_step ha h.1) hok

/-! ## Marking -/

/-- The next step of the daemon marks the peer dead. -/
def Marks (s : ClusterRun) (i : Nat) : Prop :=
  (∃ p, s.peers[i]? = some p ∧ p.alive = true) ∧
    ∃ p, (s.step .hb).peers[i]? = some p ∧ p.alive = false

theorem marking_of_marks {s : ClusterRun} {i : Nat} (h : s.Marks i) :
    ∃ now, s.daemon = .marking now i := by
  obtain ⟨⟨p, hp, halive⟩, p', hp', hdead⟩ := h
  have hchange : s.hbStep.peers[i]? ≠ s.peers[i]? := by
    intro heq
    obtain rfl := Option.some.inj (hp'.symm.trans (heq.trans hp))
    rw [halive] at hdead
    cases hdead
  unfold hbStep at hchange
  split at hchange
  · exact absurd rfl hchange
  · exact absurd rfl hchange
  · split at hchange <;> exact absurd rfl hchange
  · rename_i now j hdaemon
    obtain rfl : j = i := by
      by_contra hne
      exact hchange (by simp [hne])
    exact ⟨now, hdaemon⟩

instance (s : ClusterRun) (i : Nat) : Decidable (s.Marks i) :=
  decidable_of_iff
    ((s.peers[i]?).any (·.alive) = true ∧ ((s.step .hb).peers[i]?).any (!·.alive) = true)
    (by simp [Marks, Option.any_eq_true])

/-- **The daemon marks only what has been silent.** -/
theorem marked_only_if_silent (cs : ClusterState) (clock : UInt64) {as : List ClusterAct}
    (has : Run.Guarded step (fun s a => s.Enabled a ∧ s.Punctual a) (cs.start clock) as) {i : Nat}
    (hmarks : ((cs.start clock).run as).Marks i) :
    ∃ t, lastSet i (cs.start clock) as none = some t ∧
      t.toNat + clusterDeadMs.toNat < ((cs.start clock).run as).clock.toNat := by
  have hok : ((cs.start clock).run as).DaemonOk :=
    Run.Guarded.invariant (fun _ _ => daemonOk_step) as _ has trivial
  obtain ⟨now, hnow⟩ := marking_of_marks hmarks
  obtain ⟨⟨p, hp, halive⟩, -⟩ := hmarks
  have ht := holds_run as (holds_start cs clock i none) p hp halive
  rw [DaemonOk, hnow] at hok
  obtain ⟨hle, -, hsilent⟩ := hok
  exact ⟨p.lastSeen, ht, lt_of_lt_of_le (hsilent p hp) (UInt64.le_iff_toNat_le.mp hle)⟩

/-- A node with one peer. -/
def oneRun : ClusterRun :=
  ClusterState.start ⟨.ofCStr (.lit "A"), 16379,
    [⟨.ofCStr (.lit "B"), .lit "h", 6380, 16380, .auto⟩]⟩ 10

/-- The peer joins and is not heard from for three seconds. -/
def silentRun : List ClusterAct :=
  [.accept 7, .line 0 (CStr.lit "JOIN B 6380").bytes, .tick 3010, .hb, .hb, .hb]

theorem silentRun_marked : ∃ t, lastSet 0 oneRun silentRun none = some t ∧
    t.toNat + clusterDeadMs.toNat < (oneRun.run silentRun).clock.toNat :=
  marked_only_if_silent _ _ (by decide) (by decide)

/-- The peer is heard from after the daemon has read the clock. -/
def heardRun : List ClusterAct :=
  [.accept 7, .line 0 (CStr.lit "JOIN B 6380").bytes, .hb, .tick 11,
    .line 0 (CStr.lit "HEARTBEAT 1").bytes, .hb, .hb]

/-- It is marked at the time at which it was seen. -/
theorem heard_peer_marked : Run.Guarded step Enabled oneRun heardRun ∧
    (oneRun.run heardRun).Marks 0 ∧
      lastSet 0 oneRun heardRun none = some (oneRun.run heardRun).clock := by
  decide

end ClusterRun

end AntzKV

/-
AntzKV.Core.SetnxTheorems — who is answered 1 by SETNX.

A client is answered 1 when `kv_setnx` returns 0, and it does so in two
cases: its `kv_exists` has found the key, or its `kv_set_object` has stored
the value (`Wins`). After either the key is there, so the number of clients
answered 1 tells whether the key was stored (`Tally`). A second such section
is what breaks exclusivity, and so is a first one on a key that was there
before the clients came. `setnx_exclusive_iff` draws the line.
-/
import AntzKV.Core.ConcurrentUpdatesTheorems

namespace AntzKV

open Interleave (System credited Allowed)

variable {S : Type}

namespace SetnxClient

/-- The section after which the client is answered 1. -/
def Wins (key : CStr) (calloc : Calloc) (db : KvTable S) (c : SetnxClient) : Prop :=
  match c.pc with
  | .start => db.kvExists key = true
  | .versioned _ => ¬ db.CannotStore calloc
  | _ => False

theorem safe_iff {key : CStr} {calloc : Calloc} {db : KvTable S} {c : SetnxClient} :
    c.Safe key calloc db ↔ (c.Wins key calloc db → db.kvExists key = false) := by
  obtain ⟨value, usec, pc⟩ := c
  cases pc with
  | start => cases h : db.kvExists key <;> simp [Safe, Wins, h]
  | absent => simp [Safe, Wins]
  | versioned ver => cases h : db.kvExists key <;> simp [Safe, Wins, h]
  | done r => simp [Safe, Wins]

/-- On an absent key the stores that succeed are the sections that win. -/
theorem storeFails_iff {key : CStr} {calloc : Calloc} {db : KvTable S} {c : SetnxClient}
    (h : db.kvExists key = false) : c.StoreFails calloc db ↔ ¬ c.Wins key calloc db := by
  obtain ⟨value, usec, pc⟩ := c
  cases pc <;> simp [StoreFails, Wins, h]

/-- One section: it wins, or it leaves the object of the key and the
answers as they were. -/
theorem act_cases {db : KvTable S} (hwf : db.Wf) (key : CStr) (calloc : Calloc) (c : SetnxClient) :
    (act key calloc db c).1.Wf ∧
    ((c.Wins key calloc db ∧ c.credit = none ∧ (act key calloc db c).2.credit = some c.value ∧
        (act key calloc db c).1.kvExists key = true ∧
        (db.kvExists key = false → (act key calloc db c).1.kvGet key = some c.value)) ∨
      (¬ c.Wins key calloc db ∧ (act key calloc db c).2.credit = c.credit ∧
        (act key calloc db c).1.kvGetObject key = db.kvGetObject key)) := by
  obtain ⟨value, usec, pc⟩ := c
  cases pc with
  | start =>
    cases hkey : db.kvExists key with
    | true => simp [act, Wins, credit, reply, hkey, hwf]
    | false => simp [act, Wins, credit, reply, hkey, hwf]
  | absent =>
    refine ⟨hwf.kvNextVersion, Or.inr ⟨by simp [Wins], by simp [act, credit, reply], ?_⟩⟩
    exact KvTable.kvGetObject_congr (KvTable.entries_kvNextVersion db) key
  | versioned ver =>
    refine ⟨hwf.kvSetObject calloc key _ _, ?_⟩
    by_cases hgrow : db.CannotStore calloc
    · right
      simp [act, Wins, credit, reply, hgrow, KvTable.kvSetMeta,
        KvTable.kvSetObject_of_cannotStore hgrow]
    · left
      have hret := KvTable.kvSetObject_of_canStore hgrow key
        ((DbObject.objCreateString value usec).stamp (some ⟨ver, usec, .blank⟩))
        (some ⟨ver, usec, .blank⟩)
      have hself := KvTable.kvGetObject_kvSetObject_self hwf hret
      refine ⟨hgrow, by simp [credit, reply], ?_, ?_, fun _ => ?_⟩
      · simp [act, credit, reply, KvTable.kvSetMeta, hret]
      · exact KvTable.probe_found_iff.mpr ⟨_, hself⟩
      · simp only [act, KvTable.kvSetMeta, KvTable.kvGet]
        rw [hself]
        rfl
  | done r => simp [act, Wins, hwf]

end SetnxClient

theorem KvTable.kvExists_eq (db : KvTable S) (key : CStr) :
    db.kvExists key = (db.kvGetObject key).isSome := by
  rw [Bool.eq_iff_iff, Option.isSome_iff_exists]
  exact KvTable.probe_found_iff

/-! ## One step of the system -/

section Step

variable {key : CStr} {s : System (KvTable S) SetnxClient} {a : Nat × Calloc}

/-- The values of the clients answered 1. -/
def winners (s : System (KvTable S) SetnxClient) : List CStr := credited SetnxClient.credit s

theorem setnxStep_cases (hwf : s.shared.Wf) (key : CStr) (a : Nat × Calloc) :
    (Interleave.step (SetnxClient.act key) s a).shared.Wf ∧
    ((∃ c, s.clients[a.1]? = some c ∧ c.Wins key a.2 s.shared ∧
        (winners (Interleave.step (SetnxClient.act key) s a)).Perm (c.value :: winners s) ∧
        (Interleave.step (SetnxClient.act key) s a).shared.kvExists key = true ∧
        (s.shared.kvExists key = false →
          (Interleave.step (SetnxClient.act key) s a).shared.kvGet key = some c.value)) ∨
      ((∀ c ∈ s.clients[a.1]?, ¬ c.Wins key a.2 s.shared) ∧
        winners (Interleave.step (SetnxClient.act key) s a) = winners s ∧
        (Interleave.step (SetnxClient.act key) s a).shared.kvGetObject key
          = s.shared.kvGetObject key)) := by
  unfold Interleave.step
  cases hc : s.clients[a.1]? with
  | none => exact ⟨hwf, Or.inr ⟨by simp, rfl, rfl⟩⟩
  | some c =>
    obtain ⟨hwf', ⟨hwins, hold, hnew, hkey, hget⟩ | ⟨hloses, hsame, hobj⟩⟩ :=
      SetnxClient.act_cases hwf key a.2 c
    · refine ⟨hwf', Or.inl ⟨c, rfl, hwins, ?_, hkey, hget⟩⟩
      have hperm : (((SetnxClient.act key a.2 s.shared c).2.credit).toList ++ winners s).Perm
          ((s.clients.set a.1 (SetnxClient.act key a.2 s.shared c).2).filterMap
            SetnxClient.credit) :=
        Interleave.perm_filterMap_set SetnxClient.credit hold hc
      rw [hnew] at hperm
      exact hperm.symm
    · refine ⟨hwf', Or.inr ⟨?_, Interleave.filterMap_set_of_eq SetnxClient.credit hc hsame, hobj⟩⟩
      intro c' hc'
      obtain rfl := Option.some.inj hc'
      exact hloses

/-- What is true along every run: the key is there if it was before, or if
somebody has been answered 1. -/
structure Tally (key : CStr) (before : KvTable S) (s : System (KvTable S) SetnxClient) : Prop where
  wf : s.shared.Wf
  exists_iff : s.shared.kvExists key = true ↔ before.kvExists key = true ∨ winners s ≠ []

variable {before : KvTable S}

theorem Tally.step (h : Tally key before s) (a : Nat × Calloc) :
    Tally key before (Interleave.step (SetnxClient.act key) s a) := by
  obtain ⟨hwf, ⟨c, _, _, hperm, hkey, _⟩ | ⟨_, hsame, hobj⟩⟩ := setnxStep_cases h.wf key a
  · refine ⟨hwf, iff_of_true hkey (Or.inr ?_)⟩
    intro hnil
    rw [hnil] at hperm
    exact List.cons_ne_nil _ _ hperm.symm.eq_nil
  · refine ⟨hwf, ?_⟩
    rw [KvTable.kvExists_eq, hobj, ← KvTable.kvExists_eq, hsame]
    exact h.exists_iff

theorem Tally.length_le (h : Tally key before s) (a : Nat × Calloc) :
    (winners s).length ≤ (winners (Interleave.step (SetnxClient.act key) s a)).length := by
  obtain ⟨_, ⟨c, _, _, hperm, _, _⟩ | ⟨_, hsame, _⟩⟩ := setnxStep_cases h.wf key a
  · rw [hperm.length_eq]
    simp
  · rw [hsame]

/-- So far exclusive: one winner at most, and none if the key was there. -/
def AtMostOne (key : CStr) (before : KvTable S) (s : System (KvTable S) SetnxClient) : Prop :=
  (winners s).length ≤ 1 ∧ (before.kvExists key = true → winners s = [])

/-- A step keeps exclusivity exactly when it is safe. -/
theorem Tally.atMostOne_step_iff (h : Tally key before s) (hone : AtMostOne key before s)
    (a : Nat × Calloc) :
    AtMostOne key before (Interleave.step (SetnxClient.act key) s a) ↔
      Allowed (SetnxClient.Safe key) s a := by
  obtain ⟨_, ⟨c, hc, hwins, hperm, _, _⟩ | ⟨hloses, hsame, _⟩⟩ := setnxStep_cases h.wf key a
  · have hallowed : Allowed (SetnxClient.Safe key) s a ↔ s.shared.kvExists key = false := by
      simp [Allowed, hc, SetnxClient.safe_iff, hwins]
    rw [hallowed, Bool.eq_false_iff, Ne, h.exists_iff, not_or, not_not]
    have hlen : (winners (Interleave.step (SetnxClient.act key) s a)).length
        = (winners s).length + 1 := by
      rw [hperm.length_eq, List.length_cons]
    constructor
    · rintro ⟨hle, hnone⟩
      refine ⟨fun hkey => ?_, List.eq_nil_of_length_eq_zero (by omega)⟩
      rw [hnone hkey] at hlen
      simp at hlen
    · rintro ⟨hkey, hnil⟩
      refine ⟨by rw [hlen, hnil]; simp, fun hk => absurd hk hkey⟩
  · refine iff_of_true ?_ fun c hc => SetnxClient.safe_iff.mpr fun hw => absurd hw (hloses c hc)
    rw [AtMostOne, hsame]
    exact hone

/-- On a key that was absent a step brings the first winner exactly when it
is a store that succeeds. -/
theorem Tally.winners_step_eq_nil_iff (h : Tally key before s)
    (hkey : before.kvExists key = false) (hnil : winners s = []) (a : Nat × Calloc) :
    winners (Interleave.step (SetnxClient.act key) s a) = [] ↔
      Allowed SetnxClient.StoreFails s a := by
  have habsent : s.shared.kvExists key = false := by
    rw [Bool.eq_false_iff, Ne, h.exists_iff]
    simp [hkey, hnil]
  obtain ⟨_, ⟨c, hc, hwins, hperm, _, _⟩ | ⟨hloses, hsame, _⟩⟩ := setnxStep_cases h.wf key a
  · apply iff_of_false
    · intro hn
      rw [hn] at hperm
      exact List.cons_ne_nil _ _ hperm.symm.eq_nil
    · intro hall
      exact (SetnxClient.storeFails_iff habsent).mp (hall c hc) hwins
  · rw [hsame]
    exact iff_of_true hnil fun c hc => (SetnxClient.storeFails_iff habsent).mpr (hloses c hc)

/-- What the safe runs from an absent key keep: nobody has been answered 1
and the key is absent, or one client has and the key has its value. -/
structure Held (key : CStr) (s : System (KvTable S) SetnxClient) : Prop where
  wf : s.shared.Wf
  held : (winners s = [] ∧ s.shared.kvExists key = false) ∨
    ∃ v, winners s = [v] ∧ s.shared.kvExists key = true ∧ s.shared.kvGet key = some v

theorem Held.step (h : Held key s) (hsafe : Allowed (SetnxClient.Safe key) s a) :
    Held key (Interleave.step (SetnxClient.act key) s a) := by
  obtain ⟨hwf, ⟨c, hc, hwins, hperm, hkey, hget⟩ | ⟨_, hsame, hobj⟩⟩ := setnxStep_cases h.wf key a
  · have habsent : s.shared.kvExists key = false := SetnxClient.safe_iff.mp (hsafe c hc) hwins
    refine ⟨hwf, Or.inr ⟨c.value, ?_, hkey, hget habsent⟩⟩
    rcases h.held with ⟨hnil, _⟩ | ⟨v, _, hthere, _⟩
    · rw [hnil] at hperm
      exact List.perm_singleton.mp hperm
    · simp [habsent] at hthere
  · refine ⟨hwf, ?_⟩
    rw [hsame, KvTable.kvExists_eq, KvTable.kvGet, hobj, ← KvTable.kvExists_eq, ← KvTable.kvGet]
    exact h.held

end Step

/-! ## Runs -/

section Run

variable {key : CStr} {db : KvTable S} {calls : List (CStr × UInt64)}

theorem winners_setnxClients (db : KvTable S) (calls : List (CStr × UInt64)) :
    winners (setnxClients db calls) = [] := by
  simp [winners, credited, setnxClients, SetnxClient.credit, SetnxClient.reply]

theorem tally_setnxClients (hwf : db.Wf) : Tally key db (setnxClients db calls) :=
  ⟨hwf, by rw [winners_setnxClients]; simp [setnxClients]⟩

theorem tally_setnxRun (hwf : db.Wf) (sched : List (Nat × Calloc)) :
    Tally key db (setnxRun key db calls sched) :=
  Run.invariant (fun _ a h => h.step a) sched _ (tally_setnxClients hwf)

/-- The winners of a beginning of a run are not more than those of the run. -/
theorem length_winners_take_le (hwf : db.Wf) (key : CStr) (calls : List (CStr × UInt64))
    (sched : List (Nat × Calloc)) (n : Nat) :
    (winners (setnxRun key db calls (sched.take n))).length
      ≤ (winners (setnxRun key db calls sched)).length := by
  have hrest := Run.invariant
    (P := fun s => Tally key db s ∧
      (winners (setnxRun key db calls (sched.take n))).length ≤ (winners s).length)
    (fun _ a h => ⟨h.1.step a, h.2.trans (h.1.length_le a)⟩) (sched.drop n) _
    ⟨tally_setnxRun hwf (sched.take n), le_rfl⟩
  rw [setnxRun, ← List.foldl_append, List.take_append_drop] at hrest
  exact hrest.2

theorem safe_iff_atMostOne (hwf : db.Wf) (sched : List (Nat × Calloc)) :
    Run.Guarded (Interleave.step (SetnxClient.act key)) (Allowed (SetnxClient.Safe key))
        (setnxClients db calls) sched ↔
      AtMostOne key db (setnxRun key db calls sched) := by
  have hstart : AtMostOne key db (setnxClients db calls) := by
    simp [AtMostOne, winners_setnxClients]
  rw [Run.guarded_iff_forall_take (P := AtMostOne key db) (fun s a (h : Tally key db s) => h.step a)
    (fun _ a h hone => h.atMostOne_step_iff hone a) sched _ (tally_setnxClients hwf) hstart]
  constructor
  · intro hall
    have hend := hall sched.length
    rw [List.take_length] at hend
    exact hend
  · rintro ⟨hle, hnone⟩ n
    have hlen := length_winners_take_le hwf key calls sched n
    refine ⟨hlen.trans hle, fun hkey => ?_⟩
    rw [hnone hkey] at hlen
    exact List.eq_nil_of_length_eq_zero (Nat.le_zero.mp hlen)

theorem storeFails_iff_no_winner (hwf : db.Wf) (hkey : db.kvExists key = false)
    (sched : List (Nat × Calloc)) :
    Run.Guarded (Interleave.step (SetnxClient.act key)) (Allowed SetnxClient.StoreFails)
        (setnxClients db calls) sched ↔
      winners (setnxRun key db calls sched) = [] := by
  rw [Run.guarded_iff_forall_take (P := fun s => winners s = [])
    (fun s a (h : Tally key db s) => h.step a)
    (fun _ a h hnil => h.winners_step_eq_nil_iff hkey hnil a) sched _ (tally_setnxClients hwf)
    (winners_setnxClients db calls)]
  constructor
  · intro hall
    have hend := hall sched.length
    rw [List.take_length] at hend
    exact hend
  · intro hnil n
    have hlen := length_winners_take_le hwf key calls sched n
    rw [hnil] at hlen
    exact List.eq_nil_of_length_eq_zero (Nat.le_zero.mp hlen)

/-- On a key that was there before, whoever has its answer has a 1. -/
theorem pc_of_present (hwf : db.Wf) (hkey : db.kvExists key = true) (sched : List (Nat × Calloc)) :
    ∀ c ∈ (setnxRun key db calls sched).clients, c.pc = .start ∨ c.pc = .done 0 := by
  have hstep : ∀ (s : System (KvTable S) SetnxClient) (a : Nat × Calloc),
      (Tally key db s ∧ ∀ c ∈ s.clients, c.pc = .start ∨ c.pc = .done 0) →
      Tally key db (Interleave.step (SetnxClient.act key) s a) ∧
        ∀ c ∈ (Interleave.step (SetnxClient.act key) s a).clients,
          c.pc = .start ∨ c.pc = .done 0 := by
    rintro s a ⟨htally, hpc⟩
    refine ⟨htally.step a, ?_⟩
    have hthere : s.shared.kvExists key = true := htally.exists_iff.mpr (Or.inl hkey)
    unfold Interleave.step
    cases hc : s.clients[a.1]? with
    | none => exact hpc
    | some c =>
      intro c' hc'
      rcases List.mem_or_eq_of_mem_set hc' with hold | rfl
      · exact hpc c' hold
      · right
        rcases hpc c (List.mem_of_getElem? hc) with h | h <;>
          simp [SetnxClient.act, h, hthere]
  refine (Run.invariant hstep sched (setnxClients db calls) ⟨tally_setnxClients hwf, ?_⟩).2
  intro c hc
  obtain ⟨call, _, rfl⟩ := List.mem_map.mp hc
  exact Or.inl rfl

theorem length_clients_setnxRun (key : CStr) (db : KvTable S) (calls : List (CStr × UInt64))
    (sched : List (Nat × Calloc)) : (setnxRun key db calls sched).clients.length = calls.length := by
  refine Run.invariant (P := fun s : System (KvTable S) SetnxClient =>
    s.clients.length = calls.length) ?_ sched _
    (by simp [setnxClients])
  intro s a h
  unfold Interleave.step
  cases s.clients[a.1]? with
  | none => exact h
  | some c =>
    rw [List.length_set]
    exact h

/-- Without clients nothing happens. -/
theorem setnxRun_nil (key : CStr) (db : KvTable S) (sched : List (Nat × Calloc)) :
    setnxRun key db [] sched = setnxClients db [] := by
  refine Run.invariant (P := fun s : System (KvTable S) SetnxClient => s = setnxClients db []) ?_ sched _ rfl
  rintro s a rfl
  rfl

/-- With clients on a key that was there, all of them are winners. -/
theorem exclusive_iff_of_present (hwf : db.Wf) (hkey : db.kvExists key = true)
    {sched : List (Nat × Calloc)} (hdone : AllAnswered (setnxRun key db calls sched)) :
    SetnxExclusive key db (setnxRun key db calls sched) ↔ calls = [] := by
  rw [SetnxExclusive, if_pos hkey]
  constructor
  · rintro ⟨hnone, _⟩
    rw [← List.length_eq_zero_iff, ← length_clients_setnxRun key db calls sched,
      List.length_eq_zero_iff, List.eq_nil_iff_forall_not_mem]
    intro c hc
    have hcredit := List.filterMap_eq_nil_iff.mp hnone c hc
    have hanswered := hdone c hc
    rcases pc_of_present hwf hkey sched c hc with h | h <;>
      simp [SetnxClient.credit, SetnxClient.reply, h] at hcredit hanswered
  · rintro rfl
    rw [setnxRun_nil]
    exact ⟨rfl, rfl⟩

end Run

/-- A client that nobody interrupts runs `kv_setnx`. -/
theorem setnxRun_alone (calloc : Calloc) (db : KvTable S) (key value : CStr) (usec : UInt64) :
    setnxRun key db [(value, usec)] [(0, calloc), (0, calloc), (0, calloc)]
      = ⟨(db.kvSetnx calloc key value usec).1,
        [⟨value, usec, .done (db.kvSetnx calloc key value usec).2⟩]⟩ := by
  cases hkey : db.kvExists key <;>
    simp [setnxRun, setnxClients, Interleave.step, SetnxClient.act, KvTable.kvSetnx,
      KvTable.kvSet, hkey]

/-- From every reachable table, for any clients and any schedule that
brings them all their answers: SETNX is exclusive if and only if there are
no clients on a key that is there, or the key is absent, every `kv_exists`
is made while it is, every store on the key once it is there fails, and not
every store fails. -/
theorem setnx_exclusive_iff [LinearOrder S] (path : Option CStr) (file : Option (List UInt8))
    (ops : List (StoreOp S)) (key : CStr) (db : KvTable S)
    (hdb : db = KvTable.storeRun path file ops) (calls : List (CStr × UInt64))
    (sched : List (Nat × Calloc)) (hdone : AllAnswered (setnxRun key db calls sched)) :
    SetnxExclusive key db (setnxRun key db calls sched) ↔
      (db.kvExists key = true ∧ calls = []) ∨
      (db.kvExists key = false ∧
        Run.Guarded (Interleave.step (SetnxClient.act key)) (Allowed (SetnxClient.Safe key))
          (setnxClients db calls) sched ∧
        ¬ Run.Guarded (Interleave.step (SetnxClient.act key)) (Allowed SetnxClient.StoreFails)
          (setnxClients db calls) sched) := by
  have hwf : db.Wf := hdb ▸ KvTable.Wf.storeRun path file ops
  cases hkey : db.kvExists key with
  | true => simpa using exclusive_iff_of_present hwf hkey hdone
  | false =>
    rw [storeFails_iff_no_winner hwf hkey]
    simp only [SetnxExclusive, hkey, Bool.false_eq_true, if_false, false_and, true_and, false_or]
    constructor
    · rintro ⟨v, hv, _⟩
      have hv' : winners (setnxRun key db calls sched) = [v] := hv
      rw [safe_iff_atMostOne hwf, AtMostOne, hv']
      simp [hkey]
    · rintro ⟨hsafe, hsome⟩
      have hstart : Held key (setnxClients db calls) :=
        ⟨hwf, Or.inl ⟨winners_setnxClients db calls, hkey⟩⟩
      have hend := Run.Guarded.invariant (fun _ _ hok h => Held.step h hok) sched _ hsafe hstart
      rcases hend.held with ⟨hnil, _⟩ | ⟨v, hv, _, hget⟩
      · exact absurd hnil hsome
      · exact ⟨v, hv, hget⟩

/-- Two clients on an absent key, which both look before either stores:
the first stores, and the second has no memory for its object. -/
def secondFails : List (Nat × Calloc) :=
  [(0, true), (1, true), (0, true), (1, true), (0, true), (1, ⟨false, true⟩)]

theorem setnx_exclusive_second_fails :
    AllAnswered (setnxRun (.lit "k") newTable [(.lit "v", 7), (.lit "w", 8)] secondFails) ∧
    SetnxExclusive (.lit "k") newTable
      (setnxRun (.lit "k") newTable [(.lit "v", 7), (.lit "w", 8)] secondFails) := by
  have hdone : AllAnswered
      (setnxRun (.lit "k") newTable [(.lit "v", 7), (.lit "w", 8)] secondFails) := by
    decide
  refine ⟨hdone, (setnx_exclusive_iff none none [] (.lit "k") newTable rfl _ _ hdone).mpr
    (Or.inr ⟨by decide, by decide, by decide⟩)⟩

/-- The key is there, and the one client is answered 1 nevertheless; and of
two clients that both look before either has stored, both are answered 1
and the value of the first is lost. -/
theorem setnx_not_exclusive :
    (setnxRun (.lit "k") (newTable.kvSet true (.lit "k") (.lit "old") 5).1 [(.lit "v", 7)]
      [(0, true)]).clients.map SetnxClient.reply = [some 1] ∧
    ¬ SetnxExclusive (.lit "k") (newTable.kvSet true (.lit "k") (.lit "old") 5).1
      (setnxRun (.lit "k") (newTable.kvSet true (.lit "k") (.lit "old") 5).1 [(.lit "v", 7)]
        [(0, true)]) ∧
    (setnxRun (.lit "k") newTable [(.lit "v", 7), (.lit "w", 8)]
      [(0, true), (1, true), (0, true), (0, true), (1, true), (1, true)]).clients.map
        SetnxClient.reply = [some 1, some 1] ∧
    (setnxRun (.lit "k") newTable [(.lit "v", 7), (.lit "w", 8)]
      [(0, true), (1, true), (0, true), (0, true), (1, true), (1, true)]).shared.kvGet (.lit "k")
        = some (.lit "w") := by
  refine ⟨by decide, ?_, by decide, by decide⟩
  rw [SetnxExclusive, if_pos (by decide)]
  rintro ⟨hnone, _⟩
  revert hnone
  decide

end AntzKV

/-
AntzKV.Server.DeliveryTheorems — when no message goes to a stranger.

`Known` is the invariant: a descriptor that is listed, or that a
publisher still has in its batch, belongs to a connection subscribed to
that channel. Every orderly step preserves it (`Known.step`), and a
`send` in a state in which it holds reaches a subscriber.
-/
import AntzKV.Server.Delivery

namespace AntzKV

namespace Delivery

/-- The descriptor belongs to a connection subscribed to the channel. -/
def Serves (s : Delivery) (fd : Int) (ch : CStr) : Prop :=
  ∃ c, s.conns fd = some c ∧ c.subscribed ch = true

structure Known (s : Delivery) : Prop where
  listed : ∀ ch, ∀ fd ∈ s.mgr.fdsOf ch, s.Serves fd ch
  nodup : ∀ ch, (s.mgr.fdsOf ch).Nodup
  pending : ∀ p ∈ s.publishers, ∀ fd ∈ p.pending.map (·.fd), s.Serves fd p.channel
  left : ∀ fd c, s.conns fd = some c → c.leaving = true → ∀ ch, c.subscribed ch = false

variable {s : Delivery}

theorem client?_eq_some {fd : Int} {c : Conn} (h : s.client? fd = some c) :
    s.conns fd = some c ∧ c.leaving = false := by
  obtain ⟨hc, hl⟩ := Option.filter_eq_some_iff.mp h
  exact ⟨hc, by simpa using hl⟩

@[simp] theorem conns_setConn_self (fd : Int) (c : Option Conn) : (s.setConn fd c).conns fd = c :=
  Function.update_self ..

theorem conns_setConn_of_ne {fd fd' : Int} (hne : fd' ≠ fd) (c : Option Conn) :
    (s.setConn fd c).conns fd' = s.conns fd' :=
  Function.update_of_ne hne ..

theorem Serves.subscribed {fd : Int} {ch : CStr} (h : s.Serves fd ch) {c : Conn}
    (hc : s.conns fd = some c) : c.subscribed ch = true := by
  obtain ⟨d, hd, hsub⟩ := h
  rw [Option.some.inj (hc.symm.trans hd)]
  exact hsub

theorem Serves.setConn_of_ne {fd fd' : Int} {ch : CStr} (h : s.Serves fd' ch) (hne : fd' ≠ fd)
    (c : Option Conn) : (s.setConn fd c).Serves fd' ch := by
  obtain ⟨d, hd, hsub⟩ := h
  refine ⟨d, ?_, hsub⟩
  rw [conns_setConn_of_ne hne]
  exact hd

/-- The invariant after a change of one connection and of the lists: the
connection must be subscribed wherever its descriptor is still listed or
still to be sent on. -/
theorem Known.change (h : s.Known) {fd : Int} {c' : Conn} {mgr : PubsubMgr}
    (hnodup : ∀ ch, (mgr.fdsOf ch).Nodup)
    (hlisted : ∀ ch, ∀ fd' ∈ mgr.fdsOf ch,
      if fd' = fd then c'.subscribed ch = true else fd' ∈ s.mgr.fdsOf ch)
    (hpending : ∀ p ∈ s.publishers, fd ∈ p.pending.map (·.fd) → c'.subscribed p.channel = true)
    (hleft : c'.leaving = true → ∀ ch, c'.subscribed ch = false) :
    Known { s.setConn fd (some c') with mgr := mgr } := by
  have hself : (s.setConn fd (some c')).conns fd = some c' := conns_setConn_self fd _
  refine ⟨?_, hnodup, ?_, ?_⟩
  · intro ch fd' hmem
    have hcase := hlisted ch fd' hmem
    split at hcase
    · rename_i heq
      rw [heq]
      exact ⟨c', hself, hcase⟩
    · rename_i hne
      exact (h.listed ch fd' hcase).setConn_of_ne hne _
  · intro p hp fd' hmem
    by_cases heq : fd' = fd
    · rw [heq] at hmem ⊢
      exact ⟨c', hself, hpending p hp hmem⟩
    · exact (h.pending p hp fd' hmem).setConn_of_ne heq _
  · intro fd' d hd hl
    by_cases heq : fd' = fd
    · rw [heq] at hd
      obtain rfl := Option.some.inj (hself.symm.trans hd)
      exact hleft hl
    · exact h.left fd' d ((conns_setConn_of_ne heq _).symm.trans hd) hl

/-! ## The steps -/

theorem Known.subscribe (h : s.Known) {fd : Int} {c : Conn} (hc : s.client? fd = some c)
    (wlock : Option Nat) {ch : CStr} (hch : ch.strlen < channelNameMax)
    (hnew : fd ∉ s.mgr.fdsOf ch) :
    Known { s.setConn fd (some { c with subscribed := Function.update c.subscribed ch true }) with
      mgr := s.mgr.pubsubSubscribe fd wlock ch } := by
  obtain ⟨hconn, hstay⟩ := client?_eq_some hc
  have hfds := PubsubMgr.fdsOf_subscribe s.mgr fd wlock hch
  have hkeep : ∀ ch', s.Serves fd ch' → Function.update c.subscribed ch true ch' = true := by
    intro ch' hserves
    by_cases heq : ch' = ch
    · rw [heq, Function.update_self]
    · rw [Function.update_of_ne heq]
      exact hserves.subscribed hconn
  refine h.change ?_ ?_ ?_ ?_
  · intro ch'
    rw [hfds]
    split
    · exact List.nodup_cons.mpr ⟨hnew, h.nodup ch⟩
    · exact h.nodup ch'
  · intro ch' fd' hmem
    rw [hfds] at hmem
    by_cases hch' : ch' = ch
    · subst hch'
      rw [if_pos rfl] at hmem
      split
      · exact Function.update_self ..
      · rename_i hne
        exact (List.mem_cons.mp hmem).resolve_left hne
    · rw [if_neg hch'] at hmem
      split
      · rename_i heq
        exact hkeep ch' (h.listed ch' fd (heq ▸ hmem))
      · exact hmem
  · intro p hp hmem
    exact hkeep p.channel (h.pending p hp fd hmem)
  · intro hl
    rw [hstay] at hl
    cases hl

theorem Known.unsubscribe (h : s.Known) {fd : Int} {c : Conn} (hc : s.client? fd = some c)
    {ch : CStr} (hsettled : s.Settled fd (· = ch)) :
    Known { s.setConn fd (some { c with subscribed := Function.update c.subscribed ch false }) with
      mgr := s.mgr.pubsubUnsubscribe fd ch } := by
  obtain ⟨hconn, hstay⟩ := client?_eq_some hc
  have hfds := PubsubMgr.fdsOf_unsubscribe s.mgr fd ch
  refine h.change ?_ ?_ ?_ ?_
  · intro ch'
    rw [hfds]
    split
    · exact (h.nodup ch).erase fd
    · exact h.nodup ch'
  · intro ch' fd' hmem
    rw [hfds] at hmem
    by_cases hch' : ch' = ch
    · rw [if_pos hch', (h.nodup ch).mem_erase_iff] at hmem
      rw [if_neg hmem.1, hch']
      exact hmem.2
    · rw [if_neg hch'] at hmem
      split
      · rename_i heq
        show Function.update c.subscribed ch false ch' = true
        rw [Function.update_of_ne hch']
        exact (h.listed ch' fd (heq ▸ hmem)).subscribed hconn
      · exact hmem
  · intro p hp hmem
    have hne : p.channel ≠ ch := fun heq => hsettled p hp heq hmem
    show Function.update c.subscribed ch false p.channel = true
    rw [Function.update_of_ne hne]
    exact (h.pending p hp fd hmem).subscribed hconn
  · intro hl
    rw [hstay] at hl
    cases hl

/-- Both UNSUBSCRIBE without arguments and a disconnection. -/
theorem Known.unsubscribeAll (h : s.Known) {fd : Int} (hsettled : s.Settled fd fun _ => True)
    (leaving : Bool) :
    Known { s.setConn fd (some ⟨fun _ => false, leaving⟩) with
      mgr := s.mgr.pubsubUnsubscribeAll fd } := by
  have hfds := PubsubMgr.fdsOf_unsubscribeAll s.mgr fd
  refine h.change ?_ ?_ ?_ (fun _ _ => rfl)
  · intro ch
    rw [hfds]
    exact (h.nodup ch).filter _
  · intro ch fd' hmem
    rw [hfds, List.mem_filter] at hmem
    have hne : fd' ≠ fd := by simpa using hmem.2
    rw [if_neg hne]
    exact hmem.1
  · intro p hp hmem
    exact absurd hmem (hsettled p hp trivial)

/-- A descriptor that serves no channel is closed, or is handed out. -/
theorem Known.setConn (h : s.Known) {fd : Int} (hfree : ∀ ch, ¬ s.Serves fd ch) {c : Option Conn}
    (hc : ∀ d, c = some d → d.leaving = false) : (s.setConn fd c).Known := by
  refine ⟨?_, h.nodup, ?_, ?_⟩
  · intro ch fd' hmem
    have hserves := h.listed ch fd' hmem
    have hne : fd' ≠ fd := by
      rintro rfl
      exact hfree ch hserves
    exact hserves.setConn_of_ne hne c
  · intro p hp fd' hmem
    have hserves := h.pending p hp fd' hmem
    have hne : fd' ≠ fd := by
      rintro rfl
      exact hfree p.channel hserves
    exact hserves.setConn_of_ne hne c
  · intro fd' d hd hl
    by_cases heq : fd' = fd
    · rw [heq, conns_setConn_self] at hd
      rw [hc d hd] at hl
      cases hl
    · exact h.left fd' d ((conns_setConn_of_ne heq c).symm.trans hd) hl

/-- A publisher holds only what is listed, and later less of it. -/
theorem Known.publishers (h : s.Known) {ps : List Publisher}
    (hps : ∀ p ∈ ps, ∀ fd ∈ p.pending.map (·.fd), s.Serves fd p.channel) :
    Known { s with publishers := ps } :=
  ⟨h.listed, h.nodup, hps, h.left⟩

/-- A new batch is copied from the list. -/
theorem Known.publish (h : s.Known) (ch : CStr) : (s.step (.publish ch)).Known := by
  refine h.publishers ?_
  intro p hp fd hmem
  rcases List.mem_append.mp hp with hp | hp
  · exact h.pending p hp fd hmem
  · rw [List.mem_singleton.mp hp] at hmem ⊢
    exact h.listed ch fd ((List.take_sublist _ _).map _ |>.mem hmem)

/-- A batch only gets shorter. -/
theorem Known.send (h : s.Known) (i : Nat) : (s.step (.send i)).Known := by
  refine h.publishers ?_
  intro p hp fd hmem
  obtain ⟨j, hj⟩ := List.mem_iff_getElem?.mp hp
  rw [List.getElem?_modify] at hj
  obtain ⟨q, hq, rfl⟩ := Option.map_eq_some_iff.mp hj
  have hmemq := List.mem_of_getElem? hq
  split at hmem
  · rename_i hij
    rw [if_pos hij]
    exact h.pending q hmemq fd ((List.tail_sublist _).map _ |>.mem hmem)
  · rename_i hij
    rw [if_neg hij]
    exact h.pending q hmemq fd hmem

theorem Known.step (h : s.Known) {op : DeliveryOp} (hok : s.Orderly op) : (s.step op).Known := by
  cases op with
  | accept fd =>
    simp only [Delivery.step]
    split
    · rename_i hfree
      refine h.setConn ?_ (by rintro d ⟨⟩; rfl)
      rintro ch ⟨c, hc, -⟩
      simp [hc] at hfree
    · exact h
  | subscribe fd wlock ch =>
    simp only [Delivery.step]
    split
    · exact h
    · rename_i c hc
      exact h.subscribe hc wlock hok.1 hok.2
  | unsubscribe fd ch =>
    simp only [Delivery.step]
    split
    · exact h
    · rename_i c hc
      exact h.unsubscribe hc hok
  | unsubscribeAll fd =>
    simp only [Delivery.step]
    split
    · exact h
    · rename_i c hc
      exact h.unsubscribeAll hok c.leaving
  | leave fd =>
    simp only [Delivery.step]
    split
    · exact h
    · exact h.unsubscribeAll hok true
  | close fd =>
    simp only [Delivery.step]
    split
    · rename_i hleaving
      obtain ⟨c, hc, hl⟩ := (Option.any_eq_true _ _).mp hleaving
      refine h.setConn ?_ (by rintro d ⟨⟩)
      intro ch hserves
      have hsub := hserves.subscribed hc
      rw [h.left fd c hc hl ch] at hsub
      cases hsub
    · exact h
  | publish ch => exact h.publish ch
  | send i => exact h.send i

/-- What a publisher sends on is in its batch. -/
theorem Known.noStranger (h : s.Known) (op : DeliveryOp) : s.NoStranger op := by
  intro fd ch hsend c hc
  cases op with
  | send i =>
    simp only [sends] at hsend
    obtain ⟨p, hp, hsend⟩ := Option.bind_eq_some_iff.mp hsend
    obtain ⟨sub, hsub, heq⟩ := Option.map_eq_some_iff.mp hsend
    obtain ⟨rfl, rfl⟩ := Prod.mk.inj heq
    have hhead := (Option.filter_eq_some_iff.mp hsub).1
    have hmem : sub.fd ∈ p.pending.map (·.fd) :=
      List.mem_map.mpr ⟨sub, List.mem_of_mem_head? hhead, rfl⟩
    exact (h.pending p (List.mem_of_getElem? hp) sub.fd hmem).subscribed hc
  | accept _ | subscribe _ _ _ | unsubscribe _ _ | unsubscribeAll _ | leave _ | close _ | publish _ =>
    cases hsend

theorem known_start : start.Known := by
  refine ⟨?_, ?_, ?_, ?_⟩ <;> intros <;>
    simp_all [start, PubsubMgr.pubsubCreate, PubsubMgr.fdsOf, PubsubMgr.subsOf, PubsubMgr.channel?]

/-- **No message to a stranger** along every run whose steps are orderly,
whatever the order of the parties: no step that may come next sends to a
connection that is not subscribed. -/
theorem noStranger_of_orderly (ops : List DeliveryOp) (h : Run.Guarded step Orderly start ops)
    (n : Nat) (op : DeliveryOp) : ((ops.take n).foldl step start).NoStranger op := by
  have hknown : ((ops.take n).foldl step start).Known :=
    Run.Guarded.invariant (P := Known) (fun _ _ hok hs => hs.step hok) (ops.take n) start
      (h.take n) known_start
  exact hknown.noStranger op

/-- A client subscribes, gets a message and leaves; another one gets its
descriptor. -/
def servedThenReused : List DeliveryOp :=
  [.accept 4, .subscribe 4 none (.lit "news"), .publish (.lit "news"), .send 0, .leave 4, .close 4,
    .accept 4]

theorem noStranger_servedThenReused :
    Run.Guarded step Orderly start servedThenReused ∧
      ∀ n op, ((servedThenReused.take n).foldl step start).NoStranger op := by
  have hguard : Run.Guarded step Orderly start servedThenReused := by
    refine ⟨trivial, ?_, trivial, trivial, ?_, trivial, trivial, trivial⟩
    · show _ ∧ _
      decide
    · show ∀ p ∈ _, True → _
      decide
  exact ⟨hguard, noStranger_of_orderly servedThenReused hguard⟩

/-- The client leaves while the message is still to be sent. -/
def reusedBeforeSent : List DeliveryOp :=
  [.accept 4, .subscribe 4 none (.lit "news"), .publish (.lit "news"), .leave 4, .close 4, .accept 4]

theorem reused_descriptor_gets_message :
    ¬ ∀ n op, ((reusedBeforeSent.take n).foldl step start).NoStranger op := by
  intro h
  have hsent := h 6 (.send 0) 4 (.lit "news") (by decide) ⟨fun _ => false, false⟩ rfl
  cases hsent

end Delivery

end AntzKV

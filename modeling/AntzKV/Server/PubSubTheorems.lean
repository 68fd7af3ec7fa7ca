/-
AntzKV.Server.PubSubTheorems — when subscriptions are sets.

Each operation is a law for `subsOf`, the subscribers a search for a
channel ends at: subscribing puts a descriptor in front without looking
for it, unsubscribing takes the first one away, and leaving takes all of
them. `Tracks` compares the lists with the last operation on each
descriptor and channel, and `areSets_of_guarded` follows it through a
run.
-/
import AntzKV.Server.PubSub
import AntzKV.Lib.Run

namespace AntzKV

/-- The operations on subscriptions. -/
inductive PubsubOp where
  | subscribe (fd : Int) (wlock : Option Nat) (ch : CStr)
  | unsubscribe (fd : Int) (ch : CStr)
  | unsubscribeAll (fd : Int)

namespace PubsubOp

def step (m : PubsubMgr) : PubsubOp → PubsubMgr
  | .subscribe fd wlock ch => m.pubsubSubscribe fd wlock ch
  | .unsubscribe fd ch => m.pubsubUnsubscribe fd ch
  | .unsubscribeAll fd => m.pubsubUnsubscribeAll fd

/-- The operation is about the descriptor and the channel. -/
def concerns (fd : Int) (ch : CStr) : PubsubOp → Bool
  | .subscribe fd' _ ch' => fd' = fd ∧ ch' = ch
  | .unsubscribe fd' ch' => fd' = fd ∧ ch' = ch
  | .unsubscribeAll fd' => fd' = fd

def isSubscribe : PubsubOp → Bool
  | .subscribe .. => true
  | _ => false

/-- The last operation about the descriptor and the channel was a
subscribe. -/
def lastSubscribed (ops : List PubsubOp) (fd : Int) (ch : CStr) : Bool :=
  (ops.reverse.find? (concerns fd ch)).any isSubscribe

theorem lastSubscribed_append (ops : List PubsubOp) (op : PubsubOp) (fd : Int) (ch : CStr) :
    lastSubscribed (ops ++ [op]) fd ch
      = if op.concerns fd ch then op.isSubscribe else lastSubscribed ops fd ch := by
  unfold lastSubscribed
  rw [List.reverse_append, List.reverse_singleton, List.singleton_append, List.find?_cons]
  cases op.concerns fd ch <;> simp

end PubsubOp

namespace PubsubMgr

open PubsubOp (lastSubscribed)

/-- The descriptors listed under a channel. -/
def fdsOf (m : PubsubMgr) (ch : CStr) : List Int := (m.subsOf ch).map (·.fd)

/-- The manager after a sequence of operations. -/
def run (ops : List PubsubOp) : PubsubMgr := ops.foldl PubsubOp.step pubsubCreate

/-- Subscriptions are sets: who is listed is who subscribed last, once
each; a message goes to each of them once; and they are what is counted. -/
structure AreSets (ops : List PubsubOp) : Prop where
  listed : ∀ fd ch, fd ∈ (run ops).fdsOf ch ↔ lastSubscribed ops fd ch = true
  once : ∀ fd ch, ((run ops).fdsOf ch).count fd ≤ 1
  copies : ∀ fd ch msg, (((run ops).pubsubPublish ch msg).map Prod.fst).count fd
    = if lastSubscribed ops fd ch then 1 else 0
  numsub : ∀ ch, (run ops).pubsubNumsub ch = Set.ncard {fd | lastSubscribed ops fd ch = true}

/-- A subscribe that keeps the lists sets: of a name that fits, by a
descriptor that is not listed yet, where the batch has a place left. -/
def MaySubscribe (m : PubsubMgr) : PubsubOp → Prop
  | .subscribe fd _ ch => ch.strlen < channelNameMax ∧ 0 ≤ fd ∧ fd ∉ m.fdsOf ch ∧
    m.pubsubNumsub ch < maxBatch
  | _ => True

/-! ## The subscribers after an operation -/

theorem isNamed_eq (ch : CStr) (e : ChannelEntry) : isNamed ch e = decide (e.name = ch) := by
  rw [Bool.eq_iff_iff]
  simp [isNamed]

theorem find?_modifyFirst (ch ch' : CStr) (f : List ClientSub → List ClientSub)
    (es : List ChannelEntry) :
    (modifyFirst (isNamed ch) f es).find? (isNamed ch')
      = if ch' = ch then (es.find? (isNamed ch)).map fun e => { e with subs := f e.subs }
        else es.find? (isNamed ch') := by
  induction es with
  | nil => simp [modifyFirst]
  | cons e es ih =>
    by_cases he : e.name = ch
    · by_cases hch : ch' = ch
      · simp [modifyFirst, isNamed_eq, he, hch]
      · have hne : ch ≠ ch' := fun h => hch h.symm
        simp [modifyFirst, isNamed_eq, he, hch, hne]
    · have hmod : modifyFirst (isNamed ch) f (e :: es) = e :: modifyFirst (isNamed ch) f es := by
        simp [modifyFirst, isNamed_eq, he]
      rw [hmod, List.find?_cons, ih, List.find?_cons, List.find?_cons]
      by_cases hch : ch' = ch
      · simp [isNamed_eq, he, hch]
      · simp [hch]

theorem subsOf_unsubscribe (m : PubsubMgr) (fd : Int) (ch ch' : CStr) :
    (m.pubsubUnsubscribe fd ch).subsOf ch'
      = if ch' = ch then (m.subsOf ch).eraseP (fun s => s.fd = fd) else m.subsOf ch' := by
  unfold subsOf pubsubUnsubscribe channel?
  rw [find?_modifyFirst]
  by_cases hch : ch' = ch
  · rw [if_pos hch, if_pos hch]
    cases m.channels.find? (isNamed ch) <;> rfl
  · rw [if_neg hch, if_neg hch]

theorem subsOf_unsubscribeAll (m : PubsubMgr) (fd : Int) (ch : CStr) :
    (m.pubsubUnsubscribeAll fd).subsOf ch = (m.subsOf ch).filter fun s => s.fd ≠ fd := by
  unfold subsOf pubsubUnsubscribeAll channel?
  rw [List.find?_map]
  have hname : isNamed ch ∘ (fun e : ChannelEntry =>
      { e with subs := e.subs.filter fun s => s.fd ≠ fd }) = isNamed ch := by
    funext e
    rfl
  rw [hname]
  cases m.channels.find? (isNamed ch) <;> rfl

theorem subsOf_subscribe (m : PubsubMgr) (fd : Int) (wlock : Option Nat) {ch : CStr}
    (hch : ch.strlen < channelNameMax) (ch' : CStr) :
    (m.pubsubSubscribe fd wlock ch).subsOf ch'
      = if ch' = ch then ⟨fd, wlock⟩ :: m.subsOf ch else m.subsOf ch' := by
  unfold subsOf pubsubSubscribe
  cases hfind : m.channel? ch with
  | some e =>
    have hmod := find?_modifyFirst ch ch' (fun subs => ⟨fd, wlock⟩ :: subs) m.channels
    rw [channel?] at hfind
    simp only [channel?, hmod, hfind]
    by_cases heq : ch' = ch
    · simp [heq]
    · simp [heq]
  | none =>
    have hname : ch.take (channelNameMax - 1) = ch := CStr.take_of_le (by omega)
    simp only [channel?, hname, List.find?_cons]
    by_cases heq : ch' = ch
    · simp [heq, isNamed_eq]
    · have hne : ch ≠ ch' := fun h => heq h.symm
      simp [heq, isNamed_eq, hne]

/-! ## Runs -/

/-- The lists are those of the subscribers by history, without repetition,
within a batch, of descriptors that can be sent on. -/
structure Tracks (m : PubsubMgr) (subscribed : Int → CStr → Bool) : Prop where
  listed : ∀ fd ch, fd ∈ m.fdsOf ch ↔ subscribed fd ch = true
  nodup : ∀ ch, (m.fdsOf ch).Nodup
  short : ∀ ch, (m.fdsOf ch).length ≤ maxBatch
  valid : ∀ fd ch, fd ∈ m.fdsOf ch → 0 ≤ fd

theorem fdsOf_subscribe (m : PubsubMgr) (fd : Int) (wlock : Option Nat) {ch : CStr}
    (hch : ch.strlen < channelNameMax) (ch' : CStr) :
    (m.pubsubSubscribe fd wlock ch).fdsOf ch'
      = if ch' = ch then fd :: m.fdsOf ch else m.fdsOf ch' := by
  rw [fdsOf, subsOf_subscribe m fd wlock hch]
  split <;> rfl

theorem fdsOf_unsubscribe (m : PubsubMgr) (fd : Int) (ch ch' : CStr) :
    (m.pubsubUnsubscribe fd ch).fdsOf ch'
      = if ch' = ch then (m.fdsOf ch).erase fd else m.fdsOf ch' := by
  rw [fdsOf, subsOf_unsubscribe]
  split
  · rw [fdsOf, List.erase_eq_eraseP', List.eraseP_map]
    have hfd : (fun s : ClientSub => decide (s.fd = fd)) = (fun x => x == fd) ∘ ClientSub.fd := by
      funext s
      rfl
    rw [hfd]
  · rfl

theorem fdsOf_unsubscribeAll (m : PubsubMgr) (fd : Int) (ch : CStr) :
    (m.pubsubUnsubscribeAll fd).fdsOf ch = (m.fdsOf ch).filter (· ≠ fd) := by
  rw [fdsOf, subsOf_unsubscribeAll, fdsOf, List.filter_map]
  rfl

theorem Tracks.subscribe {m : PubsubMgr} {ops : List PubsubOp} (h : m.Tracks (lastSubscribed ops))
    {fd : Int} {wlock : Option Nat} {ch : CStr} (hok : m.MaySubscribe (.subscribe fd wlock ch)) :
    Tracks (m.pubsubSubscribe fd wlock ch) (lastSubscribed (ops ++ [.subscribe fd wlock ch])) := by
  obtain ⟨hname, hfd, hnew, hroom⟩ := hok
  have hfds := fdsOf_subscribe m fd wlock hname
  have hlen : (m.fdsOf ch).length < maxBatch := by simpa [pubsubNumsub, fdsOf] using hroom
  refine ⟨?_, ?_, ?_, ?_⟩
  · intro fd' ch'
    rw [hfds, PubsubOp.lastSubscribed_append]
    by_cases hch : ch' = ch
    · subst hch
      by_cases hfd' : fd' = fd
      · simp [hfd', PubsubOp.concerns, PubsubOp.isSubscribe]
      · have hne : fd ≠ fd' := fun e => hfd' e.symm
        simp [hfd', hne, PubsubOp.concerns, h.listed]
    · have hne : ch ≠ ch' := fun e => hch e.symm
      simp [hch, hne, PubsubOp.concerns, h.listed]
  · intro ch'
    rw [hfds]
    split
    · exact List.nodup_cons.mpr ⟨hnew, h.nodup ch⟩
    · exact h.nodup ch'
  · intro ch'
    rw [hfds]
    split
    · exact hlen
    · exact h.short ch'
  · intro fd' ch' hmem
    rw [hfds] at hmem
    split at hmem
    · rcases List.mem_cons.mp hmem with rfl | hmem
      · exact hfd
      · exact h.valid fd' ch hmem
    · exact h.valid fd' ch' hmem

/-- Lists that only lose entries stay short and without repetition. -/
theorem Tracks.of_sublist {m m' : PubsubMgr} {last last' : Int → CStr → Bool} (h : m.Tracks last)
    (hsub : ∀ ch, (m'.fdsOf ch).Sublist (m.fdsOf ch))
    (hlisted : ∀ fd ch, fd ∈ m'.fdsOf ch ↔ last' fd ch = true) : m'.Tracks last' where
  listed := hlisted
  nodup ch := (h.nodup ch).sublist (hsub ch)
  short ch := (hsub ch).length_le.trans (h.short ch)
  valid fd ch hmem := h.valid fd ch ((hsub ch).mem hmem)

theorem Tracks.unsubscribe {m : PubsubMgr} {ops : List PubsubOp}
    (h : m.Tracks (lastSubscribed ops)) (fd : Int) (ch : CStr) :
    Tracks (m.pubsubUnsubscribe fd ch) (lastSubscribed (ops ++ [.unsubscribe fd ch])) := by
  have hfds := fdsOf_unsubscribe m fd ch
  refine h.of_sublist ?_ ?_
  · intro ch'
    rw [hfds]
    split
    · rename_i hch
      rw [hch]
      exact List.erase_sublist
    · exact List.Sublist.refl _
  · intro fd' ch'
    rw [hfds, PubsubOp.lastSubscribed_append]
    by_cases hch : ch' = ch
    · subst hch
      rw [if_pos rfl, (h.nodup ch').mem_erase_iff, h.listed]
      by_cases hfd' : fd' = fd
      · simp [hfd', PubsubOp.concerns, PubsubOp.isSubscribe]
      · have hne : fd ≠ fd' := fun e => hfd' e.symm
        simp [hfd', hne, PubsubOp.concerns]
    · have hne : ch ≠ ch' := fun e => hch e.symm
      simp [hch, hne, PubsubOp.concerns, h.listed]

theorem Tracks.unsubscribeAll {m : PubsubMgr} {ops : List PubsubOp}
    (h : m.Tracks (lastSubscribed ops)) (fd : Int) :
    Tracks (m.pubsubUnsubscribeAll fd) (lastSubscribed (ops ++ [.unsubscribeAll fd])) := by
  have hfds := fdsOf_unsubscribeAll m fd
  refine h.of_sublist ?_ ?_
  · intro ch'
    rw [hfds]
    exact List.filter_sublist
  · intro fd' ch'
    rw [hfds, PubsubOp.lastSubscribed_append, List.mem_filter, h.listed]
    by_cases hfd' : fd' = fd
    · simp [hfd', PubsubOp.concerns, PubsubOp.isSubscribe]
    · have hne : fd ≠ fd' := fun e => hfd' e.symm
      simp [hfd', hne, PubsubOp.concerns]

theorem Tracks.step {m : PubsubMgr} {ops : List PubsubOp} (h : m.Tracks (lastSubscribed ops))
    {op : PubsubOp} (hok : m.MaySubscribe op) :
    Tracks (op.step m) (lastSubscribed (ops ++ [op])) := by
  cases op with
  | subscribe fd wlock ch => exact h.subscribe hok
  | unsubscribe fd ch => exact h.unsubscribe fd ch
  | unsubscribeAll fd => exact h.unsubscribeAll fd

theorem tracks_run (ops : List PubsubOp)
    (h : Run.Guarded PubsubOp.step MaySubscribe pubsubCreate ops) :
    (run ops).Tracks (lastSubscribed ops) := by
  induction ops using List.reverseRecOn with
  | nil =>
    refine ⟨?_, ?_, ?_, ?_⟩ <;> intros <;>
      simp_all [run, pubsubCreate, fdsOf, subsOf, channel?, lastSubscribed]
  | append_singleton ops op ih =>
    obtain ⟨hops, hok, -⟩ := Run.guarded_append.mp h
    have hstep := (ih hops).step hok
    rw [run, List.foldl_append]
    exact hstep

/-- Within a batch, a message goes to every descriptor listed. -/
theorem Tracks.publish {m : PubsubMgr} {subscribed : Int → CStr → Bool} (h : m.Tracks subscribed)
    (ch msg : CStr) : (m.pubsubPublish ch msg).map Prod.fst = m.fdsOf ch := by
  have hall : m.batch ch = m.subsOf ch := by
    have := h.short ch
    rw [fdsOf, List.length_map] at this
    exact List.take_of_length_le this
  have hvalid : ((m.subsOf ch).filter fun s => 0 ≤ s.fd) = m.subsOf ch := by
    rw [List.filter_eq_self]
    intro s hs
    have := h.valid s.fd ch (List.mem_map.mpr ⟨s, hs, rfl⟩)
    simpa using this
  rw [pubsubPublish, hall, hvalid, List.map_map]
  rfl

theorem Tracks.areSets {ops : List PubsubOp} (h : (run ops).Tracks (lastSubscribed ops)) :
    AreSets ops := by
  refine ⟨h.listed, fun fd ch => List.nodup_iff_count_le_one.mp (h.nodup ch) fd, ?_, ?_⟩
  · intro fd ch msg
    rw [h.publish]
    split
    · rename_i hsub
      exact List.count_eq_one_of_mem (h.nodup ch) ((h.listed fd ch).mpr hsub)
    · rename_i hsub
      rw [List.count_eq_zero]
      exact fun hmem => hsub ((h.listed fd ch).mp hmem)
  · intro ch
    have hset : {fd | lastSubscribed ops fd ch = true} = ((run ops).fdsOf ch).toFinset := by
      ext fd
      simp [h.listed]
    rw [hset, Set.ncard_coe_finset, List.toFinset_card_of_nodup (h.nodup ch), fdsOf, List.length_map]
    rfl

/-- **Subscriptions are sets** along every run whose subscribes keep to
`MaySubscribe`. -/
theorem areSets_of_guarded (ops : List PubsubOp)
    (h : Run.Guarded PubsubOp.step MaySubscribe pubsubCreate ops) (n : Nat) :
    AreSets (ops.take n) :=
  (tracks_run (ops.take n) (h.take n)).areSets

/-- Two descriptors on one channel, one of which leaves. -/
def twoSubscribers : List PubsubOp :=
  [.subscribe 4 none (.lit "news"), .subscribe 5 none (.lit "news"), .unsubscribeAll 4]

theorem areSets_twoSubscribers :
    Run.Guarded PubsubOp.step MaySubscribe pubsubCreate twoSubscribers ∧ AreSets twoSubscribers := by
  have hguard : Run.Guarded PubsubOp.step MaySubscribe pubsubCreate twoSubscribers := by
    refine ⟨?_, ?_, trivial, trivial⟩
    · show _ ∧ _ ∧ _ ∧ _
      decide
    · show _ ∧ _ ∧ _ ∧ _
      decide
  exact ⟨hguard, areSets_of_guarded twoSubscribers hguard 3⟩

/-- A descriptor that subscribes twice is listed twice. -/
theorem subscribe_twice_not_areSets :
    ¬ AreSets [.subscribe 4 none (.lit "news"), .subscribe 4 none (.lit "news")] := by
  intro h
  exact absurd (h.once 4 (.lit "news")) (by decide)

/-! ## Fan-out -/

/-- The descriptors under every entry with the name. -/
def listed (m : PubsubMgr) (ch : CStr) : List Int :=
  (m.channels.filter (isNamed ch)).flatMap fun e => e.subs.map (·.fd)

/-- The fan-out of a message is complete: each descriptor listed is sent
it, and those whose send succeeds are counted. -/
structure FanOut (send : Int → Int) (m : PubsubMgr) (ch msg : CStr)
    (out : List (Int × List UInt8) × Nat) : Prop where
  attempted : ∀ fd ∈ m.listed ch, (fd, messageText ch msg) ∈ out.1
  counted : out.2 = (m.listed ch).countP fun fd => 0 ≤ send fd

/-- Publishing looks at the first entry only. -/
theorem listed_eq_append (m : PubsubMgr) (ch : CStr) :
    ∃ others, m.listed ch = m.fdsOf ch ++ others := by
  unfold listed fdsOf subsOf channel?
  induction m.channels with
  | nil => exact ⟨[], rfl⟩
  | cons e es ih =>
    by_cases hname : isNamed ch e
    · exact ⟨(es.filter (isNamed ch)).flatMap fun e => e.subs.map (·.fd), by simp [hname]⟩
    · simpa [hname] using ih

theorem sendLoop_eq (send : Int → Int) (bytes : List UInt8) (subs : List ClientSub) :
    sendLoop send bytes subs = ((subs.filter fun s => 0 ≤ s.fd).map fun s => (s.fd, bytes),
      (subs.filter fun s => 0 ≤ s.fd).countP fun s => 0 ≤ send s.fd) := by
  induction subs with
  | nil => rfl
  | cons s subs ih =>
    by_cases hfd : 0 ≤ s.fd
    · by_cases hsent : 0 ≤ send s.fd <;> simp [sendLoop, ih, hfd, hsent]
    · simp [sendLoop, ih, hfd]

theorem mem_attempts_iff {send : Int → Int} {bytes text : List UInt8} {subs : List ClientSub}
    {fd : Int} : (fd, text) ∈ (sendLoop send bytes subs).1
      ↔ fd ∈ subs.map (·.fd) ∧ 0 ≤ fd ∧ bytes = text := by
  simp only [sendLoop_eq, List.mem_map, List.mem_filter, decide_eq_true_eq, Prod.mk.injEq]
  constructor
  · rintro ⟨s, ⟨hs, hfd⟩, rfl, rfl⟩
    exact ⟨⟨s, hs, rfl⟩, hfd, rfl⟩
  · rintro ⟨⟨s, hs, rfl⟩, hfd, rfl⟩
    exact ⟨s, ⟨hs, hfd⟩, rfl, rfl⟩

theorem zero_notMem_messageText (ch msg : CStr) : (0 : UInt8) ∉ messageText ch msg := by
  have hbulk : ∀ s : CStr, (0 : UInt8) ∉ bulkItem s := by
    intro s
    simp only [bulkItem, bulkText, List.mem_append, List.mem_cons, List.not_mem_nil, or_false, not_or]
    refine ⟨⟨⟨⟨by decide, fun hd => ?_⟩, by decide, by decide⟩, s.nulFree⟩, by decide, by decide⟩
    exact absurd (Scanf.isDigit_of_mem_decimal hd) (by decide)
  have hhead : (0 : UInt8) ∉ (CStr.lit "*3").bytes ++ [13, 10] := by decide
  simp only [messageText, List.mem_append, not_or] at hhead ⊢
  exact ⟨⟨⟨hhead, hbulk _⟩, hbulk ch⟩, hbulk msg⟩

/-- A message is sent as it is exactly when it fits the buffer; of a longer
one the NUL that ends the buffer goes out too. -/
theorem messageSent_eq_iff (stack : List UInt8) (ch msg : CStr) :
    messageSent stack ch msg = messageText ch msg
      ↔ (messageText ch msg).length < bulkMsgMax := by
  constructor
  · intro hexact
    by_contra hlong
    have hsent : bulkMsgMax ≤ messageLen ch msg := by
      unfold messageLen
      split
      · omega
      · decide
    have hlen : (snprintf bulkMsgMax (messageText ch msg)).length = bulkMsgMax - 1 := by
      rw [snprintf, List.length_take]
      omega
    have hnul : (messageSent stack ch msg)[bulkMsgMax - 1]? = some 0 := by
      have hin : bulkMsgMax - 1 < messageLen ch msg := lt_of_lt_of_le (by decide) hsent
      rw [messageSent, List.getElem?_take_of_lt hin, List.getElem?_append_right (by omega), hlen]
      simp
    have hmem := List.mem_of_getElem? hnul
    rw [hexact] at hmem
    exact zero_notMem_messageText ch msg hmem
  · intro hfits
    have hall : snprintf bulkMsgMax (messageText ch msg) = messageText ch msg :=
      List.take_of_length_le (by omega)
    have hlen : messageLen ch msg = (messageText ch msg).length :=
      if_pos (lt_trans hfits (by decide))
    rw [messageSent, hall, hlen, List.take_left]

/-- Where sends succeed and the message fits, this is what `publish` takes
for granted. -/
theorem pubsubPublishOn_eq {send : Int → Int} (hsend : ∀ fd, 0 ≤ send fd) (stack : List UInt8)
    (m : PubsubMgr) {ch msg : CStr} (hfits : (messageText ch msg).length < bulkMsgMax) :
    m.pubsubPublishOn send stack ch msg
      = (m.pubsubPublish ch msg, (m.pubsubPublish ch msg).length) := by
  have htext := (messageSent_eq_iff stack ch msg).mpr hfits
  simp [pubsubPublishOn, pubsubPublish, sendLoop_eq, htext, hsend]

/-- **The fan-out is complete** exactly when nobody is listed, or when the
subscribers stand under one entry, fit a batch, can be sent on, and the
message fits the buffer. -/
theorem fanOut_iff (send : Int → Int) (stack : List UInt8) (m : PubsubMgr) (ch msg : CStr)
    (hdistinct : (m.listed ch).Nodup) :
    FanOut send m ch msg (m.pubsubPublishOn send stack ch msg)
      ↔ m.listed ch = [] ∨ m.listed ch = m.fdsOf ch ∧ (m.listed ch).length ≤ maxBatch ∧
        (∀ fd ∈ m.listed ch, 0 ≤ fd) ∧ (messageText ch msg).length < bulkMsgMax := by
  have hbatch : (m.batch ch).map (·.fd) = (m.fdsOf ch).take maxBatch := List.map_take
  constructor
  · rintro ⟨hall, -⟩
    have hmem : ∀ fd ∈ m.listed ch, fd ∈ (m.fdsOf ch).take maxBatch ∧ 0 ≤ fd ∧
        messageSent stack ch msg = messageText ch msg := by
      intro fd hfd
      rw [← hbatch]
      exact mem_attempts_iff.mp (hall fd hfd)
    cases hlist : m.listed ch with
    | nil => exact .inl rfl
    | cons fd rest =>
      rw [← hlist]
      have hlen : (m.listed ch).length ≤ ((m.fdsOf ch).take maxBatch).length :=
        (hdistinct.subperm fun fd hfd => (hmem fd hfd).1).length_le
      rw [List.length_take] at hlen
      obtain ⟨others, hothers⟩ := m.listed_eq_append ch
      have hnone : others = [] := by
        have := congrArg List.length hothers
        rw [List.length_append] at this
        exact List.length_eq_zero_iff.mp (by omega)
      refine .inr ⟨by rw [hothers, hnone, List.append_nil], by omega,
        fun fd hfd => (hmem fd hfd).2.1, ?_⟩
      exact (messageSent_eq_iff stack ch msg).mp (hmem fd (by rw [hlist]; simp)).2.2
  · rintro (hnil | ⟨hone, hshort, hvalid, hfits⟩)
    · obtain ⟨others, hothers⟩ := m.listed_eq_append ch
      have hfds : m.fdsOf ch = [] := (List.append_eq_nil_iff.mp (hothers ▸ hnil)).1
      have hnobody : m.batch ch = [] := by
        rw [hfds, List.take_nil] at hbatch
        exact List.map_eq_nil_iff.mp hbatch
      refine ⟨by simp [hnil], ?_⟩
      rw [pubsubPublishOn, hnobody, hnil]
      rfl
    · have hall : (m.batch ch).map (·.fd) = m.listed ch := by
        rw [hbatch, ← hone, List.take_of_length_le hshort]
      refine ⟨fun fd hfd => mem_attempts_iff.mpr
        ⟨hall ▸ hfd, hvalid fd hfd, (messageSent_eq_iff stack ch msg).mpr hfits⟩, ?_⟩
      have hsendable : ((m.batch ch).filter fun s => 0 ≤ s.fd) = m.batch ch := by
        rw [List.filter_eq_self]
        intro s hs
        exact decide_eq_true (hvalid s.fd (hall ▸ List.mem_map_of_mem hs))
      rw [pubsubPublishOn, sendLoop_eq, hsendable, ← hall, List.countP_map]
      rfl

/-- One more subscriber than a batch holds. -/
def crowd : List PubsubOp :=
  (List.range (maxBatch + 1)).map fun fd => .subscribe fd none (.lit "news")

theorem fanOut_twoSubscribers :
    ((run (twoSubscribers.take 2)).listed (.lit "news")).Nodup ∧
      FanOut (fun _ => 0) (run (twoSubscribers.take 2)) (.lit "news") (.lit "hi")
        ((run (twoSubscribers.take 2)).pubsubPublishOn (fun _ => 0) [] (.lit "news")
          (.lit "hi")) := by
  have hdistinct : ((run (twoSubscribers.take 2)).listed (.lit "news")).Nodup := by
    decide
  refine ⟨hdistinct, (fanOut_iff _ _ _ _ _ hdistinct).mpr (.inr ?_)⟩
  decide

/-- Of a crowd the first to come is sent nothing. -/
theorem crowd_not_fanOut :
    ((run crowd).listed (.lit "news")).Nodup ∧
      ¬ FanOut (fun _ => 0) (run crowd) (.lit "news") (.lit "hi")
        ((run crowd).pubsubPublishOn (fun _ => 0) [] (.lit "news") (.lit "hi")) := by
  refine ⟨by decide +kernel, ?_⟩
  rintro ⟨-, hcount⟩
  exact absurd hcount (by decide +kernel)

end PubsubMgr

end AntzKV

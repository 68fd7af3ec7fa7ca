/-
AntzKV.Cluster.ReplQueueTheorems — the replication queue against a
bounded FIFO.

`Simulates` relates the ring to the abstract queue: the pending messages
stand from `repl_tail` up to `repl_head`, indices modulo the capacity.
Enqueueing keeps this, wrap-around and drop included. A take keeps it as
long as `repl_tail` stays below the capacity, because `repl_thread`
increments `repl_tail` without reducing it: past the capacity
`repl_head == repl_tail` is no longer the test for an empty queue.
-/
import AntzKV.Cluster.ReplQueue
import AntzKV.Lib.BoundedQueue
import AntzKV.Lib.Run

namespace AntzKV

open BoundedQueue (Op)

variable {α : Type}

/-- A queue with the items its daemon has taken so far. -/
structure ReplState (α : Type) where
  queue : ReplQueue α
  taken : List (Option α)

namespace ReplState

def init : ReplState α := ⟨.init, []⟩

def step (s : ReplState α) : Op α → ReplState α
  | .enqueue msg => ⟨s.queue.replEnqueue msg, s.taken⟩
  | .take =>
    match s.queue.replTake with
    | (q, none) => ⟨q, s.taken⟩
    | (q, some item) => ⟨q, s.taken ++ [item]⟩

/-- A take that finds a message leaves `repl_tail` below the capacity. -/
def Allowed (s : ReplState α) : Op α → Prop
  | .enqueue _ => True
  | .take => s.queue.replHead = s.queue.replTail ∨ s.queue.replTail ≠ s.queue.replCap - 1

instance decidableAllowed (s : ReplState α) : (op : Op α) → Decidable (s.Allowed op)
  | .enqueue _ => inferInstanceAs (Decidable True)
  | .take => inferInstanceAs (Decidable (_ ∨ _))

end ReplState

/-- The ring holds what is pending, and the daemon took what was taken. -/
structure Simulates (s : ReplState α) (a : BoundedQueue.State α) : Prop where
  cap : s.queue.replBuf.length = 1024
  head : s.queue.replHead < 1024
  tail : s.queue.replTail < 1024
  length : a.pending.length = (s.queue.replHead + 1024 - s.queue.replTail) % 1024
  cell : ∀ i < a.pending.length,
    s.queue.replBuf.getD ((s.queue.replTail + i) % 1024) none = a.pending[i]?
  taken : s.taken = a.taken.map some

namespace Simulates

variable {s : ReplState α} {a : BoundedQueue.State α}

theorem init : Simulates (.init : ReplState α) .init where
  cap := List.length_replicate
  head := show 0 < 1024 by omega
  tail := show 0 < 1024 by omega
  length := show 0 = (0 + 1024 - 0) % 1024 by omega
  cell := by
    intro i hi
    exact absurd hi (Nat.not_lt_zero i)
  taken := rfl

/-- The ring is full exactly when one slot is left. -/
theorem full_iff (h : Simulates s a) :
    (s.queue.replHead + 1) % 1024 = s.queue.replTail ↔ a.pending.length = 1023 := by
  have h1 := h.head
  have h2 := h.tail
  have h3 := h.length
  omega

theorem empty_iff (h : Simulates s a) :
    s.queue.replHead = s.queue.replTail ↔ a.pending.length = 0 := by
  have h1 := h.head
  have h2 := h.tail
  have h3 := h.length
  omega

/-- What the array holds after `repl_enqueue` wrote at `repl_head`. -/
theorem getD_set (h : Simulates s a) (msg : α) (j : Nat) :
    (s.queue.replBuf.set s.queue.replHead (some msg)).getD j none
      = if s.queue.replHead = j then some msg else s.queue.replBuf.getD j none := by
  have hslot : s.queue.replHead < s.queue.replBuf.length := by
    rw [h.cap]
    exact h.head
  simp only [List.getD_eq_getElem?_getD, List.getElem?_set]
  by_cases hj : s.queue.replHead = j
  · subst hj
    simp [hslot]
  · simp [hj]

theorem enqueue (h : Simulates s a) (msg : α) :
    Simulates (s.step (.enqueue msg)) (BoundedQueue.step 1023 a (.enqueue msg)) := by
  have hhead := h.head
  have htail := h.tail
  have hlen := h.length
  have hset := h.getD_set msg
  simp only [ReplState.step, ReplQueue.replEnqueue, ReplQueue.replCap, h.cap,
    Nat.mod_eq_of_lt hhead, BoundedQueue.step]
  by_cases hf : a.pending.length = 1023
  · -- the oldest pending message is dropped and `repl_tail` moves on
    have hnext := h.full_iff.mpr hf
    rw [if_pos hf, if_pos hnext]
    have htaillen : a.pending.tail.length = 1022 := by
      rw [List.length_tail, hf]
    refine ⟨by simpa using h.cap, Nat.mod_lt _ (by decide), Nat.mod_lt _ (by decide), ?_, ?_, h.taken⟩
    · simp only [List.length_append, htaillen, List.length_singleton]
      omega
    · intro i hi
      simp only [List.length_append, htaillen, List.length_singleton] at hi
      rw [hset]
      show (if s.queue.replHead = ((s.queue.replTail + 1) % 1024 + i) % 1024 then _ else _) = _
      by_cases hlast : i = 1022
      · rw [if_pos (by omega), List.getElem?_append_right (by omega)]
        simp [hlast, htaillen]
      · have hslot : ((s.queue.replTail + 1) % 1024 + i) % 1024
            = (s.queue.replTail + (i + 1)) % 1024 := by omega
        rw [if_neg (by omega), hslot, h.cell (i + 1) (by omega),
          List.getElem?_append_left (by omega), List.getElem?_tail]
  · have hnext := mt h.full_iff.mp hf
    rw [if_neg hf, if_neg hnext]
    refine ⟨by simpa using h.cap, Nat.mod_lt _ (by decide), htail, ?_, ?_, h.taken⟩
    · simp only [List.length_append, List.length_singleton]
      omega
    · intro i hi
      simp only [List.length_append, List.length_singleton] at hi
      rw [hset]
      show (if s.queue.replHead = (s.queue.replTail + i) % 1024 then _ else _) = _
      by_cases hlast : i = a.pending.length
      · rw [if_pos (by omega), List.getElem?_append_right (by omega)]
        simp [hlast]
      · rw [if_neg (by omega), h.cell i (by omega), List.getElem?_append_left (by omega)]

theorem take (h : Simulates s a) (hok : s.Allowed .take) :
    Simulates (s.step .take) (BoundedQueue.step 1023 a .take) := by
  have hhead := h.head
  have htail := h.tail
  have hlen := h.length
  by_cases he : s.queue.replHead = s.queue.replTail
  · have hnil : a.pending = [] := List.length_eq_zero_iff.mp (h.empty_iff.mp he)
    have hs : s.step .take = s := by simp [ReplState.step, ReplQueue.replTake, he]
    have ha : BoundedQueue.step 1023 a .take = a := by simp [BoundedQueue.step, hnil]
    rw [hs, ha]
    exact h
  · have hlast : s.queue.replTail ≠ 1023 := by
      simpa [ReplState.Allowed, he, ReplQueue.replCap, h.cap] using hok
    have hwrap : (s.queue.replTail + 1) % sizeBound = s.queue.replTail + 1 :=
      Nat.mod_eq_of_lt (by unfold sizeBound; omega)
    obtain ⟨m, rest, hp⟩ : ∃ m rest, a.pending = m :: rest := by
      refine List.exists_cons_of_ne_nil fun hnil => he (h.empty_iff.mpr ?_)
      rw [hnil, List.length_nil]
    have hplen : rest.length + 1 = a.pending.length := by rw [hp, List.length_cons]
    -- the message taken is the oldest one pending
    have hitem : s.queue.replBuf.getD s.queue.replTail none = some m := by
      have := h.cell 0 (by omega)
      rwa [Nat.add_zero, Nat.mod_eq_of_lt htail, hp, List.getElem?_cons_zero] at this
    simp only [ReplState.step, ReplQueue.replTake, if_neg he, ReplQueue.replCap, h.cap,
      Nat.mod_eq_of_lt htail, hwrap, hitem, BoundedQueue.step, hp]
    refine ⟨h.cap, hhead, by show s.queue.replTail + 1 < 1024; omega, ?_, ?_, ?_⟩
    · show rest.length = (s.queue.replHead + 1024 - (s.queue.replTail + 1)) % 1024
      omega
    · intro i hi
      have hi' : i < rest.length := hi
      have hcell := h.cell (i + 1) (by omega)
      rw [hp, List.getElem?_cons_succ] at hcell
      rw [← hcell]
      show s.queue.replBuf.getD ((s.queue.replTail + 1 + i) % 1024) none = _
      rw [show s.queue.replTail + 1 + i = s.queue.replTail + (i + 1) by omega]
    · simp [h.taken]

theorem step (h : Simulates s a) (op : Op α) (hok : s.Allowed op) :
    Simulates (s.step op) (BoundedQueue.step 1023 a op) := by
  cases op with
  | enqueue msg => exact h.enqueue msg
  | take => exact h.take hok

theorem run (ops : List (Op α)) {s : ReplState α} {a : BoundedQueue.State α}
    (h : Simulates s a) (hok : Run.Guarded ReplState.step ReplState.Allowed s ops) :
    Simulates (ops.foldl ReplState.step s) (ops.foldl (BoundedQueue.step 1023) a) := by
  induction ops generalizing s a with
  | nil => exact h
  | cons op ops ih => exact ih (h.step op hok.1) hok.2

end Simulates

/-! ## Runs of the queue -/

/-- At the end of the run the daemon has taken what a queue of
`repl_cap - 1` messages hands out, and takes nothing more once every
message enqueued was taken or dropped. -/
def IsFifo (ops : List (Op α)) : Prop :=
  let s := ops.foldl ReplState.step .init
  let a := BoundedQueue.run (ReplQueue.replCapInit - 1) ops
  s.taken = a.taken.map some ∧
    (a.taken ++ a.pending).Sublist (BoundedQueue.messages ops) ∧
    (a.pending = [] → (s.step .take).taken = s.taken)

/-- A run in which no take moves `repl_tail` up to `repl_cap` is that of a
bounded FIFO, at its end and after each of its steps. -/
theorem isFifo_of_guarded (ops : List (Op α))
    (h : Run.Guarded ReplState.step ReplState.Allowed .init ops) (n : Nat) :
    IsFifo (ops.take n) := by
  have hsim : Simulates ((ops.take n).foldl ReplState.step .init)
      (BoundedQueue.run 1023 (ops.take n)) := Simulates.init.run (ops.take n) (h.take n)
  refine ⟨hsim.taken, BoundedQueue.taken_pending_sublist 1023 (ops.take n), ?_⟩
  intro hnil
  have hlen : (BoundedQueue.run 1023 (ops.take n)).pending.length = 0 :=
    List.length_eq_zero_iff.mpr hnil
  simp [ReplState.step, ReplQueue.replTake, hsim.empty_iff.mpr hlen]

/-- Two messages, taken in order by a daemon that looks three times. -/
theorem isFifo_two_messages : IsFifo [.enqueue 7, .take, .enqueue 8, .take, (.take : Op Nat)] :=
  isFifo_of_guarded [.enqueue 7, .take, .enqueue 8, .take, .take] (by decide +kernel) 5

/-- `n` messages, each taken before the next is enqueued. -/
def rounds : Nat → List (Op Nat)
  | 0 => []
  | n + 1 => rounds n ++ [.enqueue n, .take]

/-- After `n` rounds `repl_head` is `n` reduced modulo the capacity and
`repl_tail` is `n`. -/
theorem foldl_rounds (n : Nat) (hn : n ≤ 1024) :
    let q := ((rounds n).foldl ReplState.step .init).queue
    q.replBuf.length = 1024 ∧ q.replHead = n % 1024 ∧ q.replTail = n ∧
      (BoundedQueue.run 1023 (rounds n)).pending = [] := by
  induction n with
  | zero => exact ⟨List.length_replicate, rfl, rfl, rfl⟩
  | succ n ih =>
    obtain ⟨hcap, hhead, htail, hnil⟩ := ih (by omega)
    have hwrap : (n + 1) % sizeBound = n + 1 :=
      Nat.mod_eq_of_lt (by unfold sizeBound; omega)
    have hmod : n % 1024 = n := Nat.mod_eq_of_lt (by omega)
    have hfull : (n + 1) % 1024 ≠ n := by omega
    simp only [rounds, List.foldl_append, List.foldl_cons, List.foldl_nil, BoundedQueue.run,
      BoundedQueue.step] at hnil ⊢
    simp [ReplState.step, ReplQueue.replEnqueue, ReplQueue.replTake, ReplQueue.replCap, hcap,
      hhead, htail, hmod, hfull, hwrap, hnil]

theorem not_isFifo_rounds {n : Nat} (hn : n = 1024) : ¬ IsFifo (rounds n) := by
  rintro ⟨-, -, hidle⟩
  obtain ⟨-, hhead, htail, hnil⟩ := foldl_rounds n hn.le
  have hne : ((rounds n).foldl ReplState.step .init).queue.replHead
      ≠ ((rounds n).foldl ReplState.step .init).queue.replTail := by
    rw [hhead, htail]
    omega
  have hsame := congrArg List.length (hidle hnil)
  simp [ReplState.step, ReplQueue.replTake, hne] at hsame

/-- Once 1024 messages were taken the daemon takes a slot again although
nothing is pending. -/
theorem not_isFifo_rounds_cap : ¬ IsFifo (rounds 1024) := not_isFifo_rounds rfl

end AntzKV

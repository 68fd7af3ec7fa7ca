/-
AntzKV.Lib.BoundedQueue — a bounded first-in first-out queue that drops
its oldest element to make room.

The state keeps what was taken, so that the laws of a FIFO can be said of
a run: what was taken, followed by what is pending, is the sequence
enqueued less what was dropped (`taken_pending_sublist`).
-/
import Mathlib

namespace BoundedQueue

variable {α : Type}

structure State (α : Type) where
  pending : List α
  taken : List α

inductive Op (α : Type) where
  | enqueue (m : α)
  | take

def State.init : State α := ⟨[], []⟩

/-- With `bound` elements pending an enqueue drops the oldest; a take from
an empty queue takes nothing. -/
def step (bound : Nat) (s : State α) : Op α → State α
  | .enqueue m =>
    { s with pending := (if s.pending.length = bound then s.pending.tail else s.pending) ++ [m] }
  | .take =>
    match s.pending with
    | [] => s
    | m :: rest => ⟨rest, s.taken ++ [m]⟩

def run (bound : Nat) (ops : List (Op α)) : State α := ops.foldl (step bound) .init

/-- What an operation enqueues. -/
def Op.message : Op α → List α
  | .enqueue m => [m]
  | .take => []

/-- What a run enqueues, in order. -/
def messages (ops : List (Op α)) : List α := ops.flatMap Op.message

theorem step_sublist (bound : Nat) (s : State α) (op : Op α) :
    ((step bound s op).taken ++ (step bound s op).pending).Sublist
      (s.taken ++ s.pending ++ op.message) := by
  cases op with
  | enqueue m =>
    simp only [step, Op.message, ← List.append_assoc]
    refine List.Sublist.append ?_ (List.Sublist.refl [m])
    split
    · exact (List.tail_sublist _).append_left _
    · exact List.Sublist.refl _
  | take =>
    unfold step
    cases hp : s.pending with
    | nil => simp [hp, Op.message]
    | cons m rest => simp [Op.message]

theorem foldl_step_sublist (bound : Nat) (ops : List (Op α)) (s : State α) :
    ((ops.foldl (step bound) s).taken ++ (ops.foldl (step bound) s).pending).Sublist
      (s.taken ++ s.pending ++ messages ops) := by
  induction ops generalizing s with
  | nil => simp [messages]
  | cons op ops ih =>
    refine (ih (step bound s op)).trans ?_
    simp only [messages, List.flatMap_cons, ← List.append_assoc]
    exact (step_sublist bound s op).append_right _

/-- Nothing is taken out of order, and nothing twice. -/
theorem taken_pending_sublist (bound : Nat) (ops : List (Op α)) :
    ((run bound ops).taken ++ (run bound ops).pending).Sublist (messages ops) :=
  foldl_step_sublist bound ops .init

end BoundedQueue

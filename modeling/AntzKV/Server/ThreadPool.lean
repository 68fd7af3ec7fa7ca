/-
AntzKV.Server.ThreadPool — the queue of accepted connections of
`server.c` and the workers that empty it.

The jobs are cells of a heap, `head` and `tail` point at two of them. The
sections under `g_tp.lock` are steps: `tpSubmit`, `dequeue` and the first
half of `tpShutdown`, whose other half joins the workers and writes
nothing. A worker that sleeps in `pthread_cond_wait` evaluates the
condition of its loop again when it wakes, for whatever reason it does;
so it is at the head of its loop like one that has just come there, and a
`dequeue` that finds nothing to do leaves it there. `handle` is what a
worker does with its job outside the lock.

`step` takes these steps in any order and keeps two logs beside the pool:
the descriptors of the jobs as they are dequeued, and those that
`handle_client_unlocked` is called with.
-/
import AntzKV.Lib.LinkedHeap

namespace AntzKV

/-- A `tp_job_t` in memory. -/
structure TpJob where
  fd : Int
  next : Option Nat
  deriving DecidableEq

/-- Where a `tp_worker` is: in its loop or the wait there, on the way with
a job, or past the `break`. -/
inductive Worker where
  | looping
  | handling (j : Nat)
  | exited
  deriving DecidableEq

/-- `THREAD_POOL_SIZE` -/
abbrev threadPoolSize : Nat := 8

/-- A `thread_pool_t`, with the memory of the jobs. -/
structure ThreadPool where
  jobs : Heap TpJob
  head : Option Nat
  tail : Option Nat
  stop : Bool
  workers : Fin threadPoolSize → Worker

namespace ThreadPool

/-- `tp_init` -/
def tpInit : ThreadPool := ⟨Heap.empty, none, none, false, fun _ => .looping⟩

/-- `tp_submit` -/
def tpSubmit (tp : ThreadPool) (fd : Int) : ThreadPool :=
  let j := tp.jobs.fresh
  let jobs := tp.jobs.alloc ⟨fd, none⟩
  match tp.tail with
  | none => { tp with jobs := jobs, head := some j, tail := some j }
  | some t =>
    { tp with jobs := jobs.modify t fun x => { x with next := some j }, tail := some j }

/-- The worker goes on elsewhere. -/
def become (tp : ThreadPool) (w : Fin threadPoolSize) (s : Worker) : ThreadPool :=
  { tp with workers := Function.update tp.workers w s }

/-- The locked section of `tp_worker`, with the descriptor of the job it
takes. A head that is no job is left alone; no run gets there. -/
def dequeue (tp : ThreadPool) (w : Fin threadPoolSize) : ThreadPool × Option Int :=
  match tp.workers w with
  | .looping =>
    match tp.head with
    | none => if tp.stop then (tp.become w .exited, none) else (tp, none)
    | some j =>
      match tp.jobs.get j with
      | none => (tp, none)
      | some job =>
        let tp := { tp with head := job.next, tail := if job.next.isNone then none else tp.tail }
        (tp.become w (.handling j), some job.fd)
  | _ => (tp, none)

/-- `handle_client_unlocked(j->fd); free(j);`, with the descriptor of the
call. -/
def handle (tp : ThreadPool) (w : Fin threadPoolSize) : ThreadPool × Option Int :=
  match tp.workers w with
  | .handling j =>
    ({ tp with jobs := tp.jobs.free j }.become w .looping, (tp.jobs.get j).map (·.fd))
  | _ => (tp, none)

/-- The locked section of `tp_shutdown`. -/
def tpShutdown (tp : ThreadPool) : ThreadPool := { tp with stop := true }

/-! ## Interleavings -/

inductive Action where
  | submit (fd : Int)
  | dequeue (w : Fin threadPoolSize)
  | handle (w : Fin threadPoolSize)
  | shutdown
  deriving DecidableEq

/-- The pool with the log of the jobs the workers took, and of those they
handled. -/
structure Trace where
  pool : ThreadPool
  taken : List (Fin threadPoolSize × Int)
  handled : List (Fin threadPoolSize × Int)

def step (s : Trace) : Action → Trace
  | .submit fd => { s with pool := s.pool.tpSubmit fd }
  | .dequeue w =>
    { s with
      pool := (s.pool.dequeue w).1
      taken := s.taken ++ (s.pool.dequeue w).2.toList.map (w, ·) }
  | .handle w =>
    { s with
      pool := (s.pool.handle w).1
      handled := s.handled ++ (s.pool.handle w).2.toList.map (w, ·) }
  | .shutdown => { s with pool := s.pool.tpShutdown }

/-- Any interleaving, from `tp_init` on. -/
def run (as : List Action) : Trace := as.foldl step ⟨tpInit, [], []⟩

def Action.submitted? : Action → Option Int
  | .submit fd => some fd
  | _ => none

/-- The descriptors submitted. -/
def submitted (as : List Action) : List Int := as.filterMap Action.submitted?

/-- The descriptors submitted before the shutdown. -/
def submittedBefore (as : List Action) : List Int := submitted (as.takeWhile (· ≠ .shutdown))

/-- What one worker has in a log. -/
def ofWorker (w : Fin threadPoolSize) (log : List (Fin threadPoolSize × Int)) : List Int :=
  (log.filter fun x => x.1 = w).map Prod.snd

/-- The descriptor of the job a worker is on the way with. -/
def inHand (tp : ThreadPool) (w : Fin threadPoolSize) : Option Int :=
  match tp.workers w with
  | .handling j => (tp.jobs.get j).map (·.fd)
  | _ => none

end ThreadPool

end AntzKV

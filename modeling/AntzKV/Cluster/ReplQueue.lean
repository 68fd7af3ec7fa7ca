/-
AntzKV.Cluster.ReplQueue — the replication queue of `cluster.c`.

`repl_enqueue` and one iteration of `repl_thread` are one step each: both
do their work on the queue under `repl_lock`. The array is not cleared
when a message is taken or dropped, so a slot may hold the pointer of a
message that is gone; NULL is `none`. `repl_head` and `repl_tail` are
`size_t`.
-/
import AntzKV.Core.CString

namespace AntzKV

/-- The queue fields of `cluster_state_t`; messages are of type `α`. -/
structure ReplQueue (α : Type) where
  replBuf : List (Option α)
  replHead : Nat
  replTail : Nat

namespace ReplQueue

variable {α : Type}

/-- `cs->repl_cap = 1024;` -/
def replCapInit : Nat := 1024

/-- The queue `cluster_init` sets up. -/
def init : ReplQueue α :=
  { replBuf := List.replicate replCapInit none, replHead := 0, replTail := 0 }

def replCap (q : ReplQueue α) : Nat := q.replBuf.length

def replEnqueue (q : ReplQueue α) (msg : α) : ReplQueue α :=
  let next := (q.replHead + 1) % q.replCap
  { replTail := if next = q.replTail then (q.replTail + 1) % q.replCap else q.replTail
    replBuf := q.replBuf.set (q.replHead % q.replCap) (some msg)
    replHead := next }

/-- One iteration of `repl_thread`: `none` when it waits, else the item
it takes. -/
def replTake (q : ReplQueue α) : ReplQueue α × Option (Option α) :=
  if q.replHead = q.replTail then (q, none)
  else
    ({ q with replTail := (q.replTail + 1) % sizeBound },
      some (q.replBuf.getD (q.replTail % q.replCap) none))

end ReplQueue

end AntzKV

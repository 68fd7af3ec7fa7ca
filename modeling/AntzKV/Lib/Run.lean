/-
AntzKV.Lib.Run — runs of a step function and what holds along them.

A run is a list of actions folded over a state. `Guarded` says that every
action of a run is taken in a state in which it is allowed; a property
that the allowed steps preserve holds at the end of every guarded run
(`Guarded.invariant`), and along the way as well, because the beginning
of a guarded run is guarded (`Guarded.take`).
-/
import Mathlib

namespace Run

variable {σ α : Type}

/-- A property every step preserves holds at the end of every run. -/
theorem invariant {step : σ → α → σ} {P : σ → Prop} (hstep : ∀ s a, P s → P (step s a)) :
    ∀ (as : List α) (s : σ), P s → P (as.foldl step s)
  | [], _, h => h
  | a :: as, s, h => invariant hstep as (step s a) (hstep s a h)

/-- Every action of the run is allowed in the state it is taken in. -/
def Guarded (step : σ → α → σ) (ok : σ → α → Prop) : σ → List α → Prop
  | _, [] => True
  | s, a :: as => ok s a ∧ Guarded step ok (step s a) as

variable {step : σ → α → σ} {ok : σ → α → Prop}

theorem Guarded.invariant {P : σ → Prop} (hstep : ∀ s a, ok s a → P s → P (step s a)) :
    ∀ (as : List α) (s : σ), Guarded step ok s as → P s → P (as.foldl step s)
  | [], _, _, h => h
  | a :: as, s, hg, h => Guarded.invariant hstep as (step s a) hg.2 (hstep s a hg.1 h)

theorem Guarded.take {s : σ} {as : List α} (h : Guarded step ok s as) (n : Nat) :
    Guarded step ok s (as.take n) := by
  induction as generalizing s n with
  | nil => simpa using h
  | cons a as ih =>
    cases n with
    | zero => trivial
    | succ n => exact ⟨h.1, ih h.2 n⟩

/-- A run is guarded by what its guard implies where an invariant holds. -/
theorem Guarded.imp_of_invariant {ok' : σ → α → Prop} {P : σ → Prop}
    (hstep : ∀ s a, ok s a → P s → P (step s a)) (hok : ∀ s a, ok s a → P s → ok' s a) :
    ∀ {s : σ} {as : List α}, Guarded step ok s as → P s → Guarded step ok' s as
  | _, [], _, _ => trivial
  | s, a :: _, hg, h =>
    ⟨hok s a hg.1 h, Guarded.imp_of_invariant hstep hok hg.2 (hstep s a hg.1 h)⟩

theorem Guarded.imp {ok' : σ → α → Prop} (h : ∀ s a, ok s a → ok' s a) {s : σ} {as : List α}
    (hg : Guarded step ok s as) : Guarded step ok' s as :=
  hg.imp_of_invariant (P := fun _ => True) (fun _ _ _ _ => trivial) (fun s a hok _ => h s a hok)
    trivial

theorem guarded_append {s : σ} {as bs : List α} :
    Guarded step ok s (as ++ bs) ↔ Guarded step ok s as ∧ Guarded step ok (as.foldl step s) bs := by
  induction as generalizing s with
  | nil => simp [Guarded]
  | cons a as ih => simp [Guarded, ih, and_assoc]

/-- The action at a place of a guarded run is allowed there. -/
theorem Guarded.ok_of_getElem? {s : σ} {as : List α} (h : Guarded step ok s as) {n : Nat} {a : α}
    (ha : as[n]? = some a) : ok ((as.take n).foldl step s) a := by
  induction as generalizing s n with
  | nil => simp at ha
  | cons b as ih =>
    cases n with
    | zero =>
      obtain rfl : b = a := by simpa using ha
      exact h.1
    | succ n => exact ih h.2 (by simpa using ha)

/-- Where a step keeps `P` exactly when it is allowed, the guarded runs are
the runs along which `P` holds. -/
theorem guarded_iff_forall_take {Inv P : σ → Prop} (hinv : ∀ s a, Inv s → Inv (step s a))
    (hstep : ∀ s a, Inv s → P s → (P (step s a) ↔ ok s a)) :
    ∀ (as : List α) (s : σ), Inv s → P s →
      (Guarded step ok s as ↔ ∀ n, P ((as.take n).foldl step s))
  | [], s, _, hp => by simp [Guarded, hp]
  | a :: as, s, hi, hp => by
    have hone := hstep s a hi hp
    constructor
    · rintro ⟨ha, hg⟩ n
      cases n with
      | zero => exact hp
      | succ n =>
        exact (guarded_iff_forall_take hinv hstep as _ (hinv s a hi) (hone.mpr ha)).mp hg n
    · intro hall
      have hp' : P (step s a) := hall 1
      exact ⟨hone.mp hp', (guarded_iff_forall_take hinv hstep as _ (hinv s a hi) hp').mpr
        fun n => hall (n + 1)⟩

instance decidableGuarded [∀ s a, Decidable (ok s a)] :
    ∀ (s : σ) (as : List α), Decidable (Guarded step ok s as)
  | _, [] => inferInstanceAs (Decidable True)
  | s, a :: as =>
    have := decidableGuarded (step s a) as
    inferInstanceAs (Decidable (ok s a ∧ Guarded step ok (step s a) as))

end Run

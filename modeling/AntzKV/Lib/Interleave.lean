/-
AntzKV.Lib.Interleave — clients that work on one shared state, in any
order of their atomic steps.

A schedule is a list of places: which client goes next, with what the
environment decides for its step. `credited` is what the clients that are
through have contributed; `Books` relates the shared state to those
contributions, whatever their order, and is kept along every schedule
whose steps are allowed (`Books.run`).
-/
import Mathlib
import AntzKV.Lib.Run

namespace Interleave

variable {σ κ ε α : Type}

/-- The shared state with the clients that work on it. -/
structure System (σ κ : Type) where
  shared : σ
  clients : List κ

/-- Client `a.1` takes its next atomic step, with `a.2` from the
environment. -/
def step (act : ε → σ → κ → σ × κ) (s : System σ κ) (a : Nat × ε) : System σ κ :=
  match s.clients[a.1]? with
  | none => s
  | some c => ⟨(act a.2 s.shared c).1, s.clients.set a.1 (act a.2 s.shared c).2⟩

/-- A step is allowed when it is allowed to the client that takes it. -/
def Allowed (ok : ε → σ → κ → Prop) (s : System σ κ) (a : Nat × ε) : Prop :=
  ∀ c ∈ s.clients[a.1]?, ok a.2 s.shared c

instance {ok : ε → σ → κ → Prop} [∀ e s c, Decidable (ok e s c)] (s : System σ κ) (a : Nat × ε) :
    Decidable (Allowed ok s a) :=
  inferInstanceAs (Decidable (∀ c ∈ s.clients[a.1]?, ok a.2 s.shared c))

/-- The contributions of the clients that are through. -/
def credited (credit : κ → Option α) (s : System σ κ) : List α := s.clients.filterMap credit

/-- A client gets its credit: the contributions grow by that. -/
theorem perm_filterMap_set (credit : κ → Option α) {c c' : κ} (hc : credit c = none) :
    ∀ {cs : List κ} {i : Nat}, cs[i]? = some c →
      ((credit c').toList ++ cs.filterMap credit).Perm ((cs.set i c').filterMap credit)
  | [], _, hi => by simp at hi
  | b :: cs, 0, hi => by
    obtain rfl : b = c := by simpa using hi
    cases h : credit c' <;> simp [hc, h]
  | b :: cs, i + 1, hi => by
    have ih : ((credit c').toList ++ cs.filterMap credit).Perm
        ((cs.set i c').filterMap credit) :=
      perm_filterMap_set credit hc (show cs[i]? = some c by simpa using hi)
    cases hb : credit b with
    | none => simpa [hb] using ih
    | some x => simpa [hb] using List.perm_middle.trans (ih.cons x)

/-- A client that moves on without a credit leaves the contributions. -/
theorem filterMap_set_of_eq (credit : κ → Option α) {cs : List κ} {i : Nat} {c c' : κ}
    (hi : cs[i]? = some c) (hc : credit c' = credit c) :
    (cs.set i c').filterMap credit = cs.filterMap credit := by
  obtain ⟨hlt, rfl⟩ := List.getElem?_eq_some_iff.mp hi
  have hmap : (cs.set i c').map credit = cs.map credit := by
    apply List.ext_getElem (by simp)
    intro j hj hj'
    by_cases hij : i = j
    · subst hij
      simp [hc]
    · simp [hij]
  have hid : ∀ l : List κ, l.filterMap credit = (l.map credit).filterMap id := by
    intro l
    rw [List.filterMap_map]
    rfl
  rw [hid, hid, hmap]

/-- A relation between the shared state and the contributions that the
steps of the clients keep: a client that has its credit does nothing any
more, and one that has not enters what its step contributes. -/
structure Books (act : ε → σ → κ → σ × κ) (ok : ε → σ → κ → Prop) (credit : κ → Option α)
    (R : σ → List α → Prop) : Prop where
  perm : ∀ {s l l'}, List.Perm l l' → R s l → R s l'
  idle : ∀ {e s c}, credit c ≠ none → act e s c = (s, c)
  enter : ∀ {e s c l}, credit c = none → ok e s c → R s l →
    R (act e s c).1 ((credit (act e s c).2).toList ++ l)

namespace Books

variable {act : ε → σ → κ → σ × κ} {ok : ε → σ → κ → Prop} {credit : κ → Option α}
  {R : σ → List α → Prop}

theorem step (h : Books act ok credit R) {s : System σ κ} {a : Nat × ε} (hok : Allowed ok s a)
    (hr : R s.shared (credited credit s)) :
    R (Interleave.step act s a).shared (credited credit (Interleave.step act s a)) := by
  unfold Interleave.step
  cases hc : s.clients[a.1]? with
  | none => exact hr
  | some c =>
    by_cases hcred : credit c = none
    · exact h.perm (perm_filterMap_set credit hcred hc) (h.enter hcred (hok c hc) hr)
    · have hset : s.clients.set a.1 c = s.clients := by
        obtain ⟨hlt, rfl⟩ := List.getElem?_eq_some_iff.mp hc
        exact List.set_getElem_self hlt
      simp only [h.idle hcred, hset]
      exact hr

/-- The books are right at the end of every run of allowed steps. -/
theorem run (h : Books act ok credit R) {s : System σ κ} {sched : List (Nat × ε)}
    (hok : Run.Guarded (Interleave.step act) (Allowed ok) s sched)
    (hr : R s.shared (credited credit s)) :
    R (sched.foldl (Interleave.step act) s).shared
      (credited credit (sched.foldl (Interleave.step act) s)) :=
  Run.Guarded.invariant (P := fun s => R s.shared (credited credit s))
    (fun _ _ hok hr => h.step hok hr) sched s hok hr

end Books

end Interleave

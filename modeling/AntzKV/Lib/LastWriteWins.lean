/-
AntzKV.Lib.LastWriteWins — what a last-write-wins register holds.

Writes carry stamps from a linear order; a write leaves a value or, for a
deletion, none. `content` is the answer the policy prescribes for a stored
value and a collection of writes: the effect of the greatest write, unless
what is stored is greater still. The order in which the writes arrived
does not enter.
-/
import Mathlib

namespace LastWriteWins

variable {M V : Type} [LinearOrder M]

/-- A write: its stamp and what it leaves. -/
structure Write (M V : Type) where
  stamp : M
  value : Option V

/-- The content of a register: `stored` before, `ws` written. -/
def content (stored : Option (M × V)) (ws : List (Write M V)) : Option V :=
  match ws.argmax Write.stamp with
  | none => stored.map (·.2)
  | some w =>
    match stored with
    | none => w.value
    | some (m, v) => if w.stamp < m then some v else w.value

variable {stored : Option (M × V)} {ws : List (Write M V)} {w : Write M V}

theorem content_of_argmax (hw : ws.argmax Write.stamp = some w)
    (hstored : ∀ m v, stored = some (m, v) → m ≤ w.stamp) : content stored ws = w.value := by
  unfold content
  rw [hw]
  cases stored with
  | none => rfl
  | some s =>
    obtain ⟨m, v⟩ := s
    exact if_neg (not_lt.mpr (hstored m v rfl))

/-- A write greater than all others decides, if what is stored is not
greater. -/
theorem content_of_greatest (hw : w ∈ ws) (hothers : ∀ w' ∈ ws, w' ≠ w → w'.stamp < w.stamp)
    (hstored : ∀ m v, stored = some (m, v) → m ≤ w.stamp) : content stored ws = w.value := by
  cases hmax : ws.argmax Write.stamp with
  | none =>
    rw [List.argmax_eq_none] at hmax
    simp [hmax] at hw
  | some w' =>
    have hle := List.le_of_mem_argmax hw hmax
    have heq : w' = w := by
      by_contra hne
      exact absurd (hothers w' (List.argmax_mem hmax) hne) (not_lt.mpr hle)
    subst heq
    exact content_of_argmax hmax hstored

/-- Deletions only: what is stored stays if it is greater than each. -/
theorem content_of_deletions (hws : ∀ w ∈ ws, w.value = none) :
    content stored ws
      = (stored.filter fun s => ∀ w ∈ ws, w.stamp < s.1).map (·.2) := by
  unfold content
  cases hmax : ws.argmax Write.stamp with
  | none =>
    rw [List.argmax_eq_none] at hmax
    subst hmax
    cases stored <;> simp [Option.filter]
  | some w =>
    have hmem := List.argmax_mem hmax
    cases stored with
    | none => exact hws w hmem
    | some s =>
      obtain ⟨m, v⟩ := s
      simp only [Option.filter]
      by_cases hlt : w.stamp < m
      · have hall : ∀ w' ∈ ws, w'.stamp < m := fun w' hw' =>
          lt_of_le_of_lt (List.le_of_mem_argmax hw' hmax) hlt
        simp only [hlt, if_true, decide_eq_true hall]
        rfl
      · have hall : ¬ ∀ w' ∈ ws, w'.stamp < m := fun h => hlt (h w hmem)
        simp only [hlt, if_false, decide_eq_false hall]
        exact hws w hmem

/-- If the content is what a write leaves, and values tell the writes and
the stored value apart, then that write is the greatest. -/
theorem greatest_of_content {v : V} (hw : w ∈ ws) (hv : w.value = some v)
    (hinj : ∀ w' ∈ ws, w'.value = some v → w' = w)
    (hold : ∀ m, stored = some (m, v) → m ≤ w.stamp)
    (h : content stored ws = some v) :
    (∀ w' ∈ ws, w'.stamp ≤ w.stamp) ∧ ∀ m u, stored = some (m, u) → m ≤ w.stamp := by
  unfold content at h
  cases hmax : ws.argmax Write.stamp with
  | none =>
    rw [List.argmax_eq_none] at hmax
    simp [hmax] at hw
  | some w' =>
    have hle : ∀ w'' ∈ ws, w''.stamp ≤ w'.stamp := fun w'' hw'' => List.le_of_mem_argmax hw'' hmax
    have hmem := List.argmax_mem hmax
    rw [hmax] at h
    cases stored with
    | none =>
      obtain rfl := hinj w' hmem h
      exact ⟨hle, by simp⟩
    | some s =>
      obtain ⟨m, u⟩ := s
      simp only at h
      split at h
      · rename_i hlt
        obtain rfl := Option.some.inj h
        have := hold m rfl
        exact absurd (lt_of_lt_of_le hlt this) (not_lt.mpr (hle w hw))
      · rename_i hlt
        obtain rfl := hinj w' hmem h
        refine ⟨hle, ?_⟩
        intro m' u' hs
        obtain ⟨rfl, rfl⟩ := Prod.mk.inj (Option.some.inj hs)
        exact not_lt.mp hlt

end LastWriteWins

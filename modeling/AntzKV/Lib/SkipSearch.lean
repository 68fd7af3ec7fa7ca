/-
AntzKV.Lib.SkipSearch — the search of a skip list.

`lev a` is the level of node `a`, and the chain on level `i` threads the
nodes with `i < lev a`, in the order of one list. `descend` walks each
level from the top while the node ahead satisfies a predicate `p`, goes
one level down, and keeps the reference each level was left at.

Nothing is assumed about `p`. `descend_spec` says that the search always
stands at one place of the list: there is a split `P ++ Q` such that
every level was left behind the last of its nodes in `P`. What was passed
without being looked at is bounded by `Stands.passed`: a node of `P` that
fails `p` has a later node of greater level in `P`.
-/
import AntzKV.Lib.LinkedHeap

namespace SkipSearch

open LinkedHeap

variable {α : Type}

/-- The references the levels `0 .. lvl - 1` are left at, from `x`. -/
def descend (next : Ref α → Nat → Option α) (p : α → Bool) (fuel : Nat) :
    Nat → Ref α → List (Ref α)
  | 0, _ => []
  | lvl + 1, x =>
    let x' := advance (fun y => next y lvl) p fuel x
    descend next p fuel lvl x' ++ [x']

/-- The nodes of `l` on level `i`. -/
def onLevel (lev : α → Nat) (i : Nat) (l : List α) : List α := l.filter fun a => i < lev a

/-- The search stands between `P` and `Q` after `h` levels. -/
structure Stands (lev : α → Nat) (p : α → Bool) (h : Nat) (P Q : List α) : Prop where
  passed : ∀ A x B, P = A ++ x :: B → p x = false → ∃ b ∈ B, lev x < lev b
  ahead : ∀ i < h, ∀ b ∈ (onLevel lev i Q).head?, p b = false

variable {lev : α → Nat} {p : α → Bool}

@[simp] theorem onLevel_append (i : Nat) (l m : List α) :
    onLevel lev i (l ++ m) = onLevel lev i l ++ onLevel lev i m := List.filter_append ..

theorem mem_onLevel {i : Nat} {l : List α} {a : α} :
    a ∈ onLevel lev i l ↔ a ∈ l ∧ i < lev a := by
  simp [onLevel]

/-- A list is left at its last node on the level, if it ends on one. -/
theorem lastRef_onLevel {i : Nat} {l : List α} (x : Ref α)
    (hl : l = [] ∨ ∃ l₀ a, l = l₀ ++ [a] ∧ i < lev a) :
    lastRef x (onLevel lev i l) = lastRef x l := by
  rcases hl with rfl | ⟨l₀, a, rfl, ha⟩
  · rfl
  · have hlast : onLevel lev i [a] = [a] := by simp [onLevel, ha]
    rw [onLevel_append, hlast, lastRef_concat, lastRef_concat]

@[simp] theorem length_descend (next : Ref α → Nat → Option α) (p : α → Bool) (fuel lvl : Nat)
    (x : Ref α) : (descend next p fuel lvl x).length = lvl := by
  induction lvl generalizing x with
  | zero => rfl
  | succ lvl ih => simp [descend, ih]

/-- The stretch of `Q` one level walks over: it ends on the level, its
nodes on the level satisfy `p`, and the next one there does not. -/
theorem exists_stride (lev : α → Nat) (p : α → Bool) (i : Nat) (Q : List α) :
    ∃ R Q', Q = R ++ Q' ∧ (onLevel lev i Q).takeWhile p = onLevel lev i R ∧
      (R = [] ∨ ∃ R₀ a, R = R₀ ++ [a] ∧ i < lev a) ∧ (∀ x ∈ R, i < lev x → p x = true) ∧
      ∀ b ∈ (onLevel lev i Q').head?, p b = false := by
  induction Q with
  | nil => exact ⟨[], [], rfl, rfl, Or.inl rfl, by simp, by simp [onLevel]⟩
  | cons a Q ih =>
    obtain ⟨R, Q', rfl, htake, hend, hsat, hhead⟩ := ih
    by_cases ha : i < lev a
    · cases hp : p a with
      | true =>
        refine ⟨a :: R, Q', rfl, ?_, ?_, ?_, hhead⟩
        · have htake' : List.takeWhile p (List.filter (fun a => i < lev a) (R ++ Q'))
              = List.filter (fun a => i < lev a) R := htake
          simp only [onLevel, List.filter_cons, ha, decide_true, if_true, List.takeWhile_cons, hp,
            htake']
        · rcases hend with rfl | ⟨R₀, b, rfl, hb⟩
          · exact Or.inr ⟨[], a, rfl, ha⟩
          · exact Or.inr ⟨a :: R₀, b, rfl, hb⟩
        · intro x hx hlx
          rcases List.mem_cons.mp hx with rfl | hx
          · exact hp
          · exact hsat x hx hlx
      | false =>
        refine ⟨[], a :: (R ++ Q'), rfl, ?_, Or.inl rfl, by simp, ?_⟩
        · simp [onLevel, ha, hp]
        · simp [onLevel, ha, hp]
    · -- a node below the level is walked over only on the way to one on it
      rcases hend with rfl | ⟨R₀, b, rfl, hb⟩
      · refine ⟨[], a :: Q', rfl, ?_, Or.inl rfl, by simp, ?_⟩
        · simpa [onLevel, ha] using htake
        · simpa [onLevel, ha] using hhead
      · refine ⟨a :: (R₀ ++ [b]), Q', rfl, ?_, Or.inr ⟨a :: R₀, b, rfl, hb⟩, ?_, hhead⟩
        · simpa [onLevel, ha] using htake
        · intro x hx hlx
          rcases List.mem_cons.mp hx with rfl | hx
          · exact absurd hlx ha
          · exact hsat x hx hlx

/-- One level: the walk from the end of `P` ends behind its stride. -/
theorem advance_stride {next : Ref α → Nat → Option α} {fuel lvl : Nat} {P Q R : List α}
    (hchain : IsChain (fun x => next x lvl) .root (onLevel lev lvl (P ++ Q)))
    (hfuel : (P ++ Q).length ≤ fuel)
    (hP : P = [] ∨ ∃ P₀ a, P = P₀ ++ [a] ∧ lvl < lev a)
    (hR : R = [] ∨ ∃ R₀ a, R = R₀ ++ [a] ∧ lvl < lev a)
    (htake : (onLevel lev lvl Q).takeWhile p = onLevel lev lvl R) :
    advance (fun y => next y lvl) p fuel (lastRef .root P) = lastRef .root (P ++ R) := by
  have hQ : IsChain (fun x => next x lvl) (lastRef .root P) (onLevel lev lvl Q) := by
    rw [onLevel_append] at hchain
    rw [← lastRef_onLevel .root hP]
    exact hchain.append
  have hlen : (onLevel lev lvl Q).length ≤ fuel := by
    have hle : (onLevel lev lvl Q).length ≤ Q.length := List.length_filter_le ..
    rw [List.length_append] at hfuel
    omega
  rw [advance_eq fuel _ _ hQ hlen, htake, lastRef_onLevel _ hR, lastRef_append]

/-- Inside a stride: behind a node that fails `p` comes the node of the
level at which the stride ends. -/
theorem stride_passed {lvl : Nat} {R A C : List α} {x : α}
    (hend : R = [] ∨ ∃ R₀ a, R = R₀ ++ [a] ∧ lvl < lev a)
    (hsat : ∀ y ∈ R, lvl < lev y → p y = true) (hR : R = A ++ x :: C) (hpx : p x = false) :
    ∃ c ∈ C, lev x < lev c := by
  have hlx : ¬ lvl < lev x := fun hl => by
    have := hsat x (by simp [hR]) hl
    simp [hpx] at this
  rcases hend with hnil | ⟨R₀, a, hR₀, ha⟩
  · simp [hR] at hnil
  · rcases List.eq_nil_or_concat C with rfl | ⟨C₀, c, rfl⟩
    · rw [hR] at hR₀
      obtain ⟨_, hxa⟩ := List.append_inj' hR₀ rfl
      obtain rfl := (List.cons.inj hxa).1
      exact absurd ha hlx
    · have hca : c = a := by
        have h1 : (A ++ x :: C₀) ++ [c] = R₀ ++ [a] := by
          rw [← hR₀, hR]
          simp
        exact (List.cons.inj (List.append_inj' h1 rfl).2).1
      subst hca
      exact ⟨c, by simp, by omega⟩

/-- The levels below meet every node of a level, and stop where it was
left: they walk over no node of it. -/
theorem onLevel_eq_nil_of_stopped {lvl : Nat} {R Q : List α}
    (hsat : ∀ x ∈ R, lvl ≤ lev x → p x = true)
    (hhead : ∀ b ∈ (onLevel lev lvl (R ++ Q)).head?, p b = false) : onLevel lev lvl R = [] := by
  cases hl : onLevel lev lvl R with
  | nil => rfl
  | cons y ys =>
    have hy : y ∈ onLevel lev lvl R := by simp [hl]
    obtain ⟨hyR, hylev⟩ := mem_onLevel.mp hy
    have hpy : p y = true := hsat y hyR hylev.le
    have hfail : p y = false := hhead y (by simp [onLevel_append, hl])
    simp [hpy] at hfail

/-- A stride on level `lvl` followed by the descent below it. -/
theorem Stands.stride {lvl : Nat} {R R' Q : List α} (hs : Stands lev p lvl R' Q)
    (hend : R = [] ∨ ∃ R₀ a, R = R₀ ++ [a] ∧ lvl < lev a)
    (hsat : ∀ x ∈ R, lvl < lev x → p x = true)
    (hhead : ∀ b ∈ (onLevel lev lvl Q).head?, p b = false) : Stands lev p (lvl + 1) (R ++ R') Q where
  passed := by
    intro A x B hsplit hpx
    rcases List.append_eq_append_iff.mp hsplit with ⟨C, rfl, hC⟩ | ⟨C, hC, hB⟩
    · exact hs.passed C x B hC hpx
    · cases C with
      | nil => exact hs.passed [] x B (by simpa using hB.symm) hpx
      | cons y C =>
        obtain ⟨rfl, rfl⟩ := List.cons.inj hB
        obtain ⟨c, hc, hlt⟩ := stride_passed hend hsat hC hpx
        exact ⟨c, List.mem_append_left R' hc, hlt⟩
  ahead := by
    intro i hi
    rcases Nat.lt_succ_iff_lt_or_eq.mp hi with hlt | rfl
    · exact hs.ahead i hlt
    · exact hhead

/-- The descent from the end of `P`, by induction on the levels left. -/
theorem descend_stands {next : Ref α → Nat → Option α} {fuel h : Nat} {L : List α}
    (hchain : ∀ i < h, IsChain (fun x => next x i) .root (onLevel lev i L))
    (hfuel : L.length ≤ fuel) (p : α → Bool) :
    ∀ (lvl : Nat) (P Q : List α), lvl ≤ h → L = P ++ Q →
      (P = [] ∨ ∃ P₀ a, P = P₀ ++ [a] ∧ lvl ≤ lev a) →
      ∃ R Q', Q = R ++ Q' ∧ Stands lev p lvl R Q' ∧ (∀ x ∈ R, lvl ≤ lev x → p x = true) ∧
        ∀ i < lvl, (descend next p fuel lvl (lastRef .root P)).getD i .root
          = lastRef .root (onLevel lev i (P ++ R)) := by
  intro lvl
  induction lvl with
  | zero =>
    intro P Q _ _ _
    refine ⟨[], Q, rfl, ⟨?_, ?_⟩, by simp, ?_⟩
    · intro A x B h
      simp at h
    · intro i hi
      exact absurd hi (Nat.not_lt_zero i)
    · intro i hi
      exact absurd hi (Nat.not_lt_zero i)
  | succ lvl ih =>
    rintro P Q hh rfl hP
    obtain ⟨R, Q₁, rfl, htake, hend, hsat, hhead⟩ := exists_stride lev p lvl Q
    have hx' := advance_stride (hchain lvl hh) hfuel hP hend htake
    have hPR : P ++ R = [] ∨ ∃ P₀ a, P ++ R = P₀ ++ [a] ∧ lvl < lev a := by
      rcases hend with rfl | ⟨R₀, a, rfl, ha⟩
      · simpa using hP
      · exact Or.inr ⟨P ++ R₀, a, by simp, ha⟩
    have hPR' : P ++ R = [] ∨ ∃ P₀ a, P ++ R = P₀ ++ [a] ∧ lvl ≤ lev a := by
      rcases hPR with h | ⟨P₀, a, h, ha⟩
      · exact Or.inl h
      · exact Or.inr ⟨P₀, a, h, ha.le⟩
    obtain ⟨R', Q', rfl, hstands, hsat', hupd⟩ :=
      ih (P ++ R) Q₁ (by omega) (by simp) hPR'
    have hnone := onLevel_eq_nil_of_stopped hsat' hhead
    refine ⟨R ++ R', Q', by simp, hstands.stride hend hsat ?_, ?_, ?_⟩
    · rwa [onLevel_append, hnone] at hhead
    · intro x hx hlx
      rcases List.mem_append.mp hx with hx | hx
      · exact hsat x hx hlx
      · have hmem : x ∈ onLevel lev lvl R' := mem_onLevel.mpr ⟨hx, by omega⟩
        simp [hnone] at hmem
    · intro i hi
      simp only [descend, hx']
      rcases Nat.lt_succ_iff_lt_or_eq.mp hi with hlt | rfl
      · rw [List.getD_append _ _ _ _ (by simpa using hlt), hupd i hlt, List.append_assoc]
      · rw [List.getD_append_right _ _ _ _ (by simp)]
        simp only [length_descend, Nat.sub_self, List.getD_cons_zero]
        rw [← List.append_assoc, onLevel_append, hnone, List.append_nil, lastRef_onLevel .root hPR]

/-- **The search stands at one place.** -/
theorem descend_spec {next : Ref α → Nat → Option α} {fuel h : Nat} {L : List α}
    (hchain : ∀ i < h, IsChain (fun x => next x i) .root (onLevel lev i L))
    (hfuel : L.length ≤ fuel) (p : α → Bool) :
    ∃ P Q, L = P ++ Q ∧ Stands lev p h P Q ∧
      ∀ i < h, (descend next p fuel h .root).getD i .root = lastRef .root (onLevel lev i P) := by
  obtain ⟨R, Q, hL, hstands, _, hupd⟩ :=
    descend_stands hchain hfuel p h [] L le_rfl rfl (Or.inl rfl)
  exact ⟨R, Q, hL, hstands, hupd⟩

/-- The last node passed satisfies `p`. -/
theorem Stands.last {h : Nat} {P Q : List α} {a : α} (hs : Stands lev p h (P ++ [a]) Q) :
    p a = true := by
  by_contra hp
  obtain ⟨b, hb, _⟩ := hs.passed P a [] rfl (by simpa using hp)
  simp at hb

end SkipSearch

/-
AntzKV.Core.ZskiplistRunTheorems — deletion from the skip list, and runs.

Deletion searches by member and may pass a node of that member on a level
the node is not on. What saves the invariant is that the search stands at
one place of the list (`SkipSearch.descend_spec`), so that the node found
there is ahead of `update[i]` on each of its levels
(`Repr.fwd_update_eq_iff`). With the step lemmas for both operations,
`zslRun_repr` is one induction over the run.
-/
import AntzKV.Core.ZskiplistTheorems
import AntzKV.Lib.Run

namespace AntzKV

open LinkedHeap (Ref IsChain lastRef)
open SkipSearch (onLevel Stands)

variable {S : Type}

namespace Zskiplist

section Delete

variable [LinearOrder S] {z : Zskiplist S} {L : List Nat}

/-! ## Deletion -/

/-- What one sees after the deletion of `a` from between `P` and `Q`. -/
structure Deleted (z z' : Zskiplist S) (a : Nat) (P Q : List Nat) : Prop where
  fwd : ∀ y j, y ≠ .node a → z'.fwd y j =
    if j < z.levelAt a ∧ y = lastRef .root (onLevel z.levelAt j P)
    then (onLevel z.levelAt j Q).head? else z.fwd y j
  info : ∀ b, b ≠ a → z'.infoAt b = z.infoAt b
  backward : ∀ b, b ≠ a →
    z'.backwardAt b = if Q.head? = some b then P.getLast? else z.backwardAt b
  tail : z'.tail = if Q = [] then P.getLast? else z.tail
  length : z'.length = z.length - 1
  level : z'.level = shrinkLevel z'.header z.level
  header : z'.header.length = z.header.length

omit [LinearOrder S] in
/-- `zsl_delete` with its writes, when it has found `a`. -/
theorem zslDelete_of_target {member : CStr} {a : Nat} {n : ZskiplistNode S}
    (ht : z.deleteTarget (z.descend (z.memberNe member)) member = some (a, n)) :
    (z.zslDelete member).2 = true ∧ ∃ z₁ z₂,
      z₁ = (List.range z.level).foldl (unlinkLevel a (z.descend (z.memberNe member))) z ∧
      z₂ = z₁.linkBack (z₁.fwd (.node a) 0) n.backward ∧
      (z.zslDelete member).1 = { z₂ with
        level := shrinkLevel z₂.header z₂.level, nodes := z₂.nodes.free a
        length := z₂.length - 1 } := by
  unfold zslDelete
  simp only [ht]
  exact ⟨trivial, _, _, rfl, rfl, rfl⟩

omit [LinearOrder S] in
/-- The end of a deletion: the level shrinks and the node is freed. -/
theorem free_spec (z : Zskiplist S) (a lvl len : Nat) :
    let z' := { z with level := lvl, nodes := z.nodes.free a, length := len }
    (∀ y j, y ≠ .node a → z'.fwd y j = z.fwd y j) ∧
      (∀ b, b ≠ a → z'.infoAt b = z.infoAt b) ∧
      ∀ b, b ≠ a → z'.backwardAt b = z.backwardAt b := by
  refine ⟨?_, ?_, ?_⟩
  · intro y j hy
    cases y with
    | root => rfl
    | node b =>
      have hb : b ≠ a := fun hb => hy (by rw [hb])
      simp only [fwd, Heap.get_free_of_ne hb]
  · intro b hb
    simp only [infoAt, Heap.get_free_of_ne hb]
  · intro b hb
    simp only [backwardAt, Heap.get_free_of_ne hb]

/-- On its levels the node found is ahead of `update[i]`, and on no other. -/
theorem Repr.fwd_update_eq_iff {P Q : List Nat} {a i : Nat} (h : Repr z (P ++ a :: Q))
    (hi : i < zskiplistMaxlevel) :
    z.fwd (lastRef .root (onLevel z.levelAt i P)) i = some a ↔ i < z.levelAt a := by
  rw [h.fwd_lastRef hi]
  have ha : a ∉ Q := (List.nodup_cons.mp (List.nodup_append.mp h.nodup).2.1).1
  by_cases hlev : i < z.levelAt a
  · simp [onLevel, hlev]
  · simp only [onLevel, List.filter_cons, hlev, decide_false, Bool.false_eq_true, if_false,
      iff_false]
    intro hc
    exact ha (List.mem_filter.mp (List.mem_of_mem_head? hc)).1

theorem Repr.fwd_node {P Q : List Nat} {a i : Nat} (h : Repr z (P ++ a :: Q))
    (hi : i < z.levelAt a) (hmax : i < zskiplistMaxlevel) :
    z.fwd (.node a) i = (onLevel z.levelAt i Q).head? := by
  have hcat : Repr z ((P ++ [a]) ++ Q) := by simpa using h
  have hlast : onLevel z.levelAt i [a] = [a] := by simp [onLevel, hi]
  rw [← hcat.fwd_lastRef hmax, SkipSearch.onLevel_append, hlast, LinkedHeap.lastRef_concat]

theorem deleted_zslDelete {P Q : List Nat} {a : Nat} {n : ZskiplistNode S}
    (h : Repr z (P ++ a :: Q)) {member : CStr}
    (ht : z.deleteTarget (z.descend (z.memberNe member)) member = some (a, n))
    (hn : z.nodes.get a = some n)
    (hupd : ∀ i < z.level, (z.descend (z.memberNe member)).getD i .root
      = lastRef .root (onLevel z.levelAt i P)) :
    Deleted z (z.zslDelete member).1 a P Q := by
  obtain ⟨_, z₁, z₂, rfl, rfl, hz'⟩ := zslDelete_of_target ht
  generalize z.descend (z.memberNe member) = update at hupd hz'
  have hu : ∀ i < z.level, z.HasLevel i (update.getD i .root) := by
    intro i hi
    rw [hupd i hi]
    exact h.hasLevel_lastRef (by simp) (lt_of_lt_of_le hi h.level_le)
  obtain ⟨hsame, hfwd₁⟩ := unlinkLevel_loop (a := a) hu z.level le_rfl
  generalize (List.range z.level).foldl (unlinkLevel a update) z = z₁ at hsame hfwd₁ hz'
  have hback := sameButBack_linkBack z₁ (z₁.fwd (.node a) 0) n.backward
  have hbackward := fun hq => backwardAt_linkBack (z := z₁) (q := z₁.fwd (.node a) 0) hq n.backward
  have htail := tail_linkBack z₁ (z₁.fwd (.node a) 0) n.backward
  generalize z₁.linkBack (z₁.fwd (.node a) 0) n.backward = z₂ at hback hbackward htail hz'
  obtain ⟨hfwd₃, hinfo₃, hback₃⟩ :=
    free_spec z₂ a (shrinkLevel z₂.header z₂.level) (z₂.length - 1)
  rw [← hz'] at hfwd₃ hinfo₃ hback₃
  have ha : z.levelAt a = n.level := levelAt_of_get hn
  have hlevel := h.level_le_of_mem (a := a) (by simp)
  have hmax := h.level_le
  have haP : a ∉ P := fun hc => by
    have := (List.nodup_append.mp h.nodup).2.2 a hc a (by simp)
    exact this rfl
  have hnode : ∀ j, z₁.fwd (.node a) j = z.fwd (.node a) j := by
    intro j
    rw [hfwd₁]
    split
    · rfl
    · rfl
  have hq : z₁.fwd (.node a) 0 = Q.head? := by
    rw [hnode, h.fwd_node (by omega) (by simp [zskiplistMaxlevel]), h.onLevel_zero]
    intro b hb
    simp [hb]
  have hpred : n.backward = P.getLast? := by
    have := h.backward P a Q rfl
    simpa [backwardAt, hn] using this
  refine ⟨?_, ?_, ?_, ?_, ?_, ?_, ?_⟩
  · intro y j hy
    rw [hfwd₃ y j hy, hback.fwd, hfwd₁]
    by_cases hj : j < z.level
    · rw [hupd j hj]
      by_cases hyu : y = lastRef .root (onLevel z.levelAt j P)
      · subst hyu
        simp only [hj, true_and, h.fwd_update_eq_iff (lt_of_lt_of_le hj hmax), and_true]
        by_cases hja : j < z.levelAt a
        · rw [if_pos hja, if_pos hja, h.fwd_node hja (by omega)]
        · rw [if_neg hja, if_neg hja]
      · simp [hyu]
    · have hja : ¬ j < z.levelAt a := by omega
      simp [hj, hja]
  · intro b hb
    exact ((hinfo₃ b hb).trans (hback.info b)).trans (hsame.info b)
  · intro b hb
    rw [hback₃ b hb, hbackward, hq, hpred, hsame.backward]
    intro c hc
    rw [hq] at hc
    obtain ⟨m, hm, _⟩ := h.node c (by simp [List.mem_of_mem_head? hc])
    rw [hsame.info, infoAt_of_get hm]
    rfl
  · rw [hz']
    refine htail.trans ?_
    rw [hq, hpred, hsame.tail]
    simp only [List.head?_eq_none_iff]
  · rw [hz']
    show z₂.length - 1 = z.length - 1
    rw [hback.length, hsame.length]
  · rw [hz']
    show shrinkLevel z₂.header z₂.level = shrinkLevel z₂.header z.level
    rw [hback.level, hsame.level]
  · rw [hz']
    exact hback.header.trans hsame.header

omit [LinearOrder S] in
/-- The level stops at the topmost level in use. -/
theorem shrinkLevel_spec (header : List (Option Nat)) :
    ∀ lvl, 1 ≤ lvl → 1 ≤ shrinkLevel header lvl ∧ shrinkLevel header lvl ≤ lvl ∧
      ∀ i < lvl, shrinkLevel header lvl ≤ i → header.getD i none = none
  | 0, h => absurd h (by simp)
  | 1, _ => by
    simp only [shrinkLevel, le_refl, true_and]
    intro i hi hle
    omega
  | lvl + 2, _ => by
    obtain ⟨h1, h2, h3⟩ := shrinkLevel_spec header (lvl + 1) (by omega)
    rw [shrinkLevel]
    split
    · rename_i htop
      refine ⟨h1, by omega, ?_⟩
      intro i hi hle
      by_cases hil : i = lvl + 1
      · rw [hil, htop]
      · exact h3 i (by omega) hle
    · refine ⟨by omega, by omega, ?_⟩
      intro i hi hle
      omega

/-- The predecessor of each node after a deletion. -/
theorem Deleted.backward_eq {z' : Zskiplist S} {P Q : List Nat} {a : Nat}
    (h : Repr z (P ++ a :: Q)) (hd : Deleted z z' a P Q) :
    ∀ A x B, P ++ Q = A ++ x :: B → z'.backwardAt x = A.getLast? := by
  intro A x B hsplit
  have hnd : a ∉ P ++ Q ∧ (P ++ Q).Nodup := List.nodup_cons.mp (List.nodup_middle.mp h.nodup)
  have hx : x ∈ P ++ Q := by simp [hsplit]
  have hxa : x ≠ a := fun hc => hnd.1 (hc ▸ hx)
  rw [hd.backward x hxa]
  rcases List.append_eq_append_iff.mp hsplit with ⟨C, rfl, hC⟩ | ⟨C, hC, hB⟩
  · cases C with
    | nil => simp [show Q = x :: B from hC]
    | cons c C =>
      have hhead : Q.head? ≠ some x := by
        rw [hC]
        rintro ⟨rfl⟩
        have hndQ := (List.nodup_append.mp hnd.2).2.1
        simp [hC] at hndQ
      rw [if_neg hhead, h.backward (P ++ a :: c :: C) x B (by rw [hC]; simp)]
      simp [List.getLast?_append, List.getLast?_cons]
  · cases C with
    | nil =>
      rw [List.append_nil] at hC
      subst hC
      simp [show Q = x :: B from hB.symm]
    | cons c C =>
      obtain ⟨rfl, rfl⟩ := List.cons.inj hB
      have hhead : Q.head? ≠ some x := by
        intro hc
        exact (List.nodup_append.mp hnd.2).2.2 x (by simp [hC]) x (List.mem_of_mem_head? hc) rfl
      rw [if_neg hhead]
      exact h.backward A x (C ++ a :: Q) (by simp [hC])

/-- The chains after a deletion. -/
theorem Deleted.chain {z' : Zskiplist S} {P Q : List Nat} {a : Nat} (h : Repr z (P ++ a :: Q))
    (hd : Deleted z z' a P Q) {i : Nat} (hi : i < zskiplistMaxlevel) :
    IsChain (z'.fwd · i) .root (onLevel z'.levelAt i (P ++ Q)) := by
  have hnd : a ∉ P ++ Q ∧ (P ++ Q).Nodup := List.nodup_cons.mp (List.nodup_middle.mp h.nodup)
  have hold : ∀ b ∈ P ++ Q, z'.infoAt b = z.infoAt b := fun b hb =>
    hd.info b fun hc => hnd.1 (hc ▸ hb)
  have hc := h.chain i hi
  rw [onLevel_congr hold, SkipSearch.onLevel_append]
  rw [← List.singleton_append, SkipSearch.onLevel_append, SkipSearch.onLevel_append] at hc
  by_cases hlt : i < z.levelAt a
  · have hself : onLevel z.levelAt i [a] = [a] := by simp [onLevel, hlt]
    rw [hself] at hc
    refine hc.remove ?_ (by simp) ?_ ?_
    · have hsub := (h.nodup.filter fun b => i < z.levelAt b)
      rw [← List.singleton_append, List.filter_append, List.filter_append] at hsub
      simpa [onLevel, hlt] using hsub
    · rw [hd.fwd _ _ (lastRef_ne P fun hb => hnd.1 (List.mem_append_left Q hb)),
        if_pos ⟨hlt, rfl⟩, h.fwd_node hlt hi]
    · intro y hy hya
      rw [hd.fwd y i hya, if_neg fun hc => hy hc.2]
  · have hself : onLevel z.levelAt i [a] = [] := by simp [onLevel, hlt]
    rw [hself, List.nil_append] at hc
    refine hc.congr ?_ fun b hb => ?_
    · rw [hd.fwd _ _ (by simp), if_neg fun hc => hlt hc.1]
    · have hba : Ref.node b ≠ .node a := by
        rintro ⟨rfl⟩
        rw [← SkipSearch.onLevel_append] at hb
        exact hnd.1 (SkipSearch.mem_onLevel.mp hb).1
      rw [hd.fwd _ _ hba, if_neg fun hc => hlt hc.1]

theorem Repr.delete {z' : Zskiplist S} {P Q : List Nat} {a : Nat} (h : Repr z (P ++ a :: Q))
    (hd : Deleted z z' a P Q) : Repr z' (P ++ Q) := by
  have hnd : a ∉ P ++ Q ∧ (P ++ Q).Nodup := List.nodup_cons.mp (List.nodup_middle.mp h.nodup)
  have hold : ∀ b ∈ P ++ Q, z'.infoAt b = z.infoAt b := fun b hb =>
    hd.info b fun hc => hnd.1 (hc ▸ hb)
  have hsub : P ++ Q ⊆ P ++ a :: Q := fun b hb => List.perm_middle.mem_iff.mpr (by simp [hb])
  obtain ⟨hlpos, hlle, hltop⟩ := shrinkLevel_spec z'.header z.level h.level_pos
  rw [← hd.level] at hlpos hlle hltop
  refine ⟨hnd.2, ?_, ?_, fun i hi => hd.chain h hi, hd.backward_eq h, ?_, ?_, ?_, hlpos, ?_⟩
  · intro b hb
    obtain ⟨m, hm, hlen, h1, h2⟩ := h.node b (hsub hb)
    obtain ⟨n, hn, hx⟩ := get_of_infoAt ((hold b hb).trans (infoAt_of_get hm))
    simp only [ZskiplistNode.info, Prod.mk.injEq] at hx
    obtain ⟨_, _, hlev, hlen'⟩ := hx
    refine ⟨n, hn, by omega, by omega, ?_⟩
    -- a node above the new top level would be ahead of the header there
    by_contra hgt
    have htop : z'.level < z.level := by omega
    have hmax : z'.level < zskiplistMaxlevel := lt_of_lt_of_le htop h.level_le
    have hnone : z'.fwd .root z'.level = none := hltop z'.level htop le_rfl
    have hhead := (hd.chain h hmax).head
    simp only [hnone] at hhead
    have hmem : b ∈ onLevel z'.levelAt z'.level (P ++ Q) :=
      SkipSearch.mem_onLevel.mpr ⟨hb, by rw [levelAt_of_get hn]; omega⟩
    rw [List.head?_eq_none_iff.mp hhead.symm] at hmem
    simp at hmem
  · rw [filterMap_keyAt_congr hold]
    exact h.sorted.sublist (((List.sublist_cons_self a Q).append_left P).filterMap _)
  · rw [hd.tail, h.tail]
    cases Q with
    | nil => simp
    | cons q Q => simp [List.getLast?_append, List.getLast?_cons]
  · rw [hd.length, h.length]
    simp
  · rw [hd.header, h.header]
  · exact le_trans hlle h.level_le

omit [LinearOrder S] in
theorem memberNe_of_get {a : Nat} {n : ZskiplistNode S} (hn : z.nodes.get a = some n)
    (member : CStr) : z.memberNe member a = false ↔ n.member = member := by
  simp [memberNe, hn]

/-- **Deletion** takes one node of the member out of the list, or finds
none ahead and changes nothing. -/
theorem Repr.zslDelete (h : Repr z L) (member : CStr) :
    ∃ P Q, L = P ++ Q ∧ Stands z.levelAt (z.memberNe member) z.level P Q ∧
      ((Q = [] ∧ z.zslDelete member = (z, false)) ∨
        ∃ a n Q', Q = a :: Q' ∧ z.nodes.get a = some n ∧ n.member = member ∧
          (z.zslDelete member).2 = true ∧ Deleted z (z.zslDelete member).1 a P Q' ∧
          Repr (z.zslDelete member).1 (P ++ Q')) := by
  obtain ⟨P, Q, rfl, hs, hupd⟩ := h.descend (z.memberNe member)
  refine ⟨P, Q, rfl, hs, ?_⟩
  have hahead : z.fwd ((z.descend (z.memberNe member)).getD 0 .root) 0 = Q.head? := by
    rw [hupd 0 h.level_pos, h.fwd_lastRef (by simp [zskiplistMaxlevel]), h.onLevel_zero (by simp)]
  cases Q with
  | nil =>
    left
    have ht : z.deleteTarget (z.descend (z.memberNe member)) member = none := by
      simp only [deleteTarget, hahead, List.head?_nil]
    simp [Zskiplist.zslDelete, ht]
  | cons a Q' =>
    right
    obtain ⟨n, hn, _⟩ := h.node a (by simp)
    have hmem : n.member = member := by
      rw [← memberNe_of_get hn]
      exact hs.ahead 0 h.level_pos a (by rw [h.onLevel_zero (by simp)]; rfl)
    have ht : z.deleteTarget (z.descend (z.memberNe member)) member = some (a, n) := by
      simp only [deleteTarget, hahead, List.head?_cons, hn]
      simp [hmem]
    have hd := deleted_zslDelete h ht hn hupd
    exact ⟨a, n, Q', rfl, hn, hmem, (zslDelete_of_target ht).1, hd, h.delete hd⟩

end Delete

end Zskiplist

/-! ## Runs -/

/-- A level `zsl_random_level` may return. -/
abbrev ZslLevel := { lvl : Nat // 1 ≤ lvl ∧ lvl ≤ zskiplistMaxlevel }

/-- The operations of a skip list. -/
inductive ZslOp (S : Type) where
  | insert (score : S) (member : CStr) (lvl : ZslLevel)
  | delete (member : CStr)

namespace Zskiplist

variable [LinearOrder S]

def zslStep (z : Zskiplist S) : ZslOp S → Zskiplist S
  | .insert score member lvl => z.zslInsert score member lvl.1
  | .delete member => (z.zslDelete member).1

/-- The list a sequence of operations makes of a new one. -/
def zslRun (ops : List (ZslOp S)) : Zskiplist S := ops.foldl zslStep zslCreate

theorem Repr.zslStep {z : Zskiplist S} (h : ∃ L, Repr z L) (op : ZslOp S) :
    ∃ L, Repr (z.zslStep op) L := by
  obtain ⟨L, h⟩ := h
  cases op with
  | insert score member lvl =>
    obtain ⟨P, Q, _, _, hr⟩ := h.zslInsert score member lvl.2.1 lvl.2.2
    exact ⟨_, hr⟩
  | delete member =>
    obtain ⟨P, Q, _, _, ⟨_, hr⟩ | ⟨a, n, Q', _, _, _, _, _, hr⟩⟩ := h.zslDelete member
    · exact ⟨L, by simpa [Zskiplist.zslStep, hr] using h⟩
    · exact ⟨_, hr⟩

/-- **Representation invariant.** After every sequence of insertions and
deletions the nodes form one sorted sequence that all chains, backward
pointers, the tail, the length and the level agree on. -/
theorem zslRun_repr (ops : List (ZslOp S)) : ∃ L, Repr (zslRun ops) L :=
  Run.invariant (P := fun z => ∃ L, Repr z L) (fun _ op h => Repr.zslStep h op) ops zslCreate
    ⟨[], repr_zslCreate⟩

end Zskiplist

end AntzKV

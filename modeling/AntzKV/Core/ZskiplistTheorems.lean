/-
AntzKV.Core.ZskiplistTheorems — the representation invariant of the skip
list, and insertion.

`Repr z L` says that the nodes of `z` are `L`, in the order of level 0,
with every chain, backward pointer, counter and bound as it should be. A
skip list is looked at through `fwd`, `infoAt` and `backwardAt` only: the
first sections say what each write does to these, the last one puts the
writes of `zsl_insert` together. Deletion and runs are in
`ZskiplistRunTheorems`.
-/
import AntzKV.Core.Zskiplist

namespace AntzKV

open LinkedHeap (Ref IsChain lastRef)
open SkipSearch (onLevel Stands)

variable {S : Type}

namespace ZskiplistNode

/-- The sort key: score first, then member. -/
def key (n : ZskiplistNode S) : S ×ₗ CStr := toLex (n.score, n.member)

/-- What no link operation changes: member, score, level and the number
of forward pointers. -/
def info (n : ZskiplistNode S) : CStr × S × Nat × Nat :=
  (n.member, n.score, n.level, n.forward.length)

end ZskiplistNode

namespace Zskiplist

/-! ## Looking at a skip list -/

def infoAt (z : Zskiplist S) (a : Nat) : Option (CStr × S × Nat × Nat) :=
  (z.nodes.get a).map ZskiplistNode.info

def levelAt (z : Zskiplist S) (a : Nat) : Nat := (z.infoAt a).elim 0 (·.2.2.1)

def keyAt (z : Zskiplist S) (a : Nat) : Option (S ×ₗ CStr) :=
  (z.infoAt a).map fun x => toLex (x.2.1, x.1)

/-- `a->backward` -/
def backwardAt (z : Zskiplist S) (a : Nat) : Option Nat :=
  ((z.nodes.get a).map (·.backward)).join

/-- `x->forward[i]` is inside its array. -/
def HasLevel (z : Zskiplist S) (i : Nat) : Ref Nat → Prop
  | .root => i < z.header.length
  | .node a => ∃ x, z.infoAt a = some x ∧ i < x.2.2.2

theorem infoAt_of_get {z : Zskiplist S} {a : Nat} {n : ZskiplistNode S}
    (h : z.nodes.get a = some n) : z.infoAt a = some n.info := by
  simp [infoAt, h]

theorem levelAt_of_get {z : Zskiplist S} {a : Nat} {n : ZskiplistNode S}
    (h : z.nodes.get a = some n) : z.levelAt a = n.level := by
  simp [levelAt, infoAt_of_get h, ZskiplistNode.info]

theorem keyAt_of_get {z : Zskiplist S} {a : Nat} {n : ZskiplistNode S}
    (h : z.nodes.get a = some n) : z.keyAt a = some n.key := by
  simp [keyAt, infoAt_of_get h, ZskiplistNode.info, ZskiplistNode.key]

/-- A node is allocated with what `infoAt` shows of it. -/
theorem get_of_infoAt {z : Zskiplist S} {a : Nat} {x : CStr × S × Nat × Nat}
    (h : z.infoAt a = some x) : ∃ n, z.nodes.get a = some n ∧ n.info = x := by
  simpa [infoAt] using h

theorem levelAt_congr {z z' : Zskiplist S} {a : Nat} (h : z'.infoAt a = z.infoAt a) :
    z'.levelAt a = z.levelAt a := by
  rw [levelAt, levelAt, h]

theorem keyAt_congr {z z' : Zskiplist S} {a : Nat} (h : z'.infoAt a = z.infoAt a) :
    z'.keyAt a = z.keyAt a := by
  rw [keyAt, keyAt, h]

theorem hasLevel_congr {z z' : Zskiplist S} (hinfo : ∀ a, z'.infoAt a = z.infoAt a)
    (hheader : z'.header.length = z.header.length) {i : Nat} {x : Ref Nat} :
    z'.HasLevel i x ↔ z.HasLevel i x := by
  cases x with
  | root => simp [HasLevel, hheader]
  | node a => simp [HasLevel, hinfo]

/-! ## The writes -/

/-- What a write to a forward pointer leaves alone. -/
structure SameButFwd (z z' : Zskiplist S) : Prop where
  info : ∀ a, z'.infoAt a = z.infoAt a
  backward : ∀ a, z'.backwardAt a = z.backwardAt a
  header : z'.header.length = z.header.length
  tail : z'.tail = z.tail
  length : z'.length = z.length
  level : z'.level = z.level

theorem SameButFwd.refl (z : Zskiplist S) : SameButFwd z z :=
  ⟨fun _ => rfl, fun _ => rfl, rfl, rfl, rfl, rfl⟩

theorem SameButFwd.trans {z z' z'' : Zskiplist S} (h : SameButFwd z z') (h' : SameButFwd z' z'') :
    SameButFwd z z'' :=
  ⟨fun a => (h'.info a).trans (h.info a), fun a => (h'.backward a).trans (h.backward a),
    h'.header.trans h.header, h'.tail.trans h.tail, h'.length.trans h.length,
    h'.level.trans h.level⟩

theorem sameButFwd_setFwd (z : Zskiplist S) (x : Ref Nat) (i : Nat) (p : Option Nat) :
    SameButFwd z (z.setFwd x i p) := by
  cases x with
  | root => exact ⟨fun _ => rfl, fun _ => rfl, by simp [setFwd], rfl, rfl, rfl⟩
  | node a =>
    refine ⟨?_, ?_, rfl, rfl, rfl, rfl⟩
    · intro b
      exact Heap.map_get_modify _ _ _ fun n => by simp [ZskiplistNode.info]
    · intro b
      exact congrArg Option.join (Heap.map_get_modify _ _ _ fun n => rfl)

theorem fwd_setFwd {z : Zskiplist S} {x : Ref Nat} {i : Nat} (h : z.HasLevel i x) (p : Option Nat)
    (y : Ref Nat) (j : Nat) :
    (z.setFwd x i p).fwd y j = if y = x ∧ j = i then p else z.fwd y j := by
  cases x with
  | root =>
    cases y with
    | root =>
      have hi : i < z.header.length := h
      simp only [fwd, setFwd, List.getD_eq_getElem?_getD, List.getElem?_set, true_and, hi, if_true]
      by_cases hj : i = j
      · subst hj
        simp
      · simp [hj, Ne.symm hj]
    | node b => simp [fwd, setFwd]
  | node a =>
    cases y with
    | root => simp [fwd, setFwd]
    | node b =>
      by_cases hb : b = a
      · subst hb
        obtain ⟨w, hw, hi⟩ := h
        obtain ⟨n, hn, rfl⟩ := Option.map_eq_some_iff.mp hw
        have hi' : i < n.forward.length := hi
        simp only [fwd, setFwd, Heap.get_modify_self, hn, Option.map_some, Option.join_some,
          List.getD_eq_getElem?_getD, List.getElem?_set, true_and]
        by_cases hj : i = j
        · subst hj
          simp [hi']
        · simp [hj, Ne.symm hj]
      · have hne : ¬ (Ref.node b = Ref.node a ∧ j = i) := fun hc => hb (Ref.node.inj hc.1)
        rw [if_neg hne]
        simp only [fwd, setFwd, Heap.get_modify_of_ne hb]

/-- What a write to a backward pointer or to `z->tail` leaves alone. -/
structure SameButBack (z z' : Zskiplist S) : Prop where
  fwd : ∀ y j, z'.fwd y j = z.fwd y j
  info : ∀ a, z'.infoAt a = z.infoAt a
  header : z'.header.length = z.header.length
  length : z'.length = z.length
  level : z'.level = z.level

theorem sameButBack_setBackward (z : Zskiplist S) (a : Nat) (p : Option Nat) :
    SameButBack z (z.setBackward a p) := by
  refine ⟨?_, ?_, rfl, rfl, rfl⟩
  · intro y j
    cases y with
    | root => rfl
    | node b => exact congrArg Option.join (Heap.map_get_modify _ _ _ fun n => rfl)
  · intro b
    exact Heap.map_get_modify _ _ _ fun n => rfl

theorem backwardAt_setBackward {z : Zskiplist S} {a : Nat} (ha : (z.infoAt a).isSome)
    (p : Option Nat) (b : Nat) :
    (z.setBackward a p).backwardAt b = if b = a then p else z.backwardAt b := by
  by_cases hb : b = a
  · subst hb
    obtain ⟨n, hn⟩ : ∃ n, z.nodes.get b = some n := by
      simpa [infoAt, Option.isSome_iff_exists] using ha
    simp [backwardAt, setBackward, hn]
  · simp [backwardAt, setBackward, Heap.get_modify_of_ne hb, hb]

theorem sameButBack_linkBack (z : Zskiplist S) (q p : Option Nat) :
    SameButBack z (z.linkBack q p) := by
  cases q with
  | none => exact ⟨fun y _ => by cases y <;> rfl, fun _ => rfl, rfl, rfl, rfl⟩
  | some a => exact sameButBack_setBackward z a p

theorem backwardAt_linkBack {z : Zskiplist S} {q : Option Nat}
    (hq : ∀ a ∈ q, (z.infoAt a).isSome) (p : Option Nat) (b : Nat) :
    (z.linkBack q p).backwardAt b = if q = some b then p else z.backwardAt b := by
  cases q with
  | none => rfl
  | some a =>
    rw [linkBack, backwardAt_setBackward (hq a rfl)]
    simp only [Option.some.injEq, eq_comm]

theorem tail_linkBack (z : Zskiplist S) (q p : Option Nat) :
    (z.linkBack q p).tail = if q = none then p else z.tail := by
  cases q with
  | none => rfl
  | some a => rfl

/-! ## The loops over the levels -/

/-- The linking loop after `k` levels. -/
theorem linkLevel_loop {z : Zskiplist S} {a : Nat} {update : List (Ref Nat)} {lvl : Nat}
    (hu : ∀ i < lvl, z.HasLevel i (update.getD i .root))
    (ha : ∀ i < lvl, z.HasLevel i (.node a)) :
    ∀ k ≤ lvl, SameButFwd z ((List.range k).foldl (linkLevel a update) z) ∧
      ∀ y j, ((List.range k).foldl (linkLevel a update) z).fwd y j =
        if j < k ∧ y = update.getD j .root then some a
        else if j < k ∧ y = .node a then z.fwd (update.getD j .root) j
        else z.fwd y j := by
  intro k
  induction k with
  | zero =>
    intro _
    exact ⟨SameButFwd.refl z, by simp⟩
  | succ k ih =>
    intro hk
    obtain ⟨hsame, hfwd⟩ := ih (by omega)
    rw [List.range_succ, List.foldl_append, List.foldl_cons, List.foldl_nil]
    generalize (List.range k).foldl (linkLevel a update) z = zk at hsame hfwd
    have hfirst : SameButFwd zk (zk.setFwd (.node a) k (zk.fwd (update.getD k .root) k)) :=
      sameButFwd_setFwd ..
    have hnode : zk.HasLevel k (.node a) :=
      (hasLevel_congr hsame.info hsame.header).mpr (ha k hk)
    have hupd : (zk.setFwd (.node a) k (zk.fwd (update.getD k .root) k)).HasLevel k
        (update.getD k .root) :=
      (hasLevel_congr (hsame.trans hfirst).info (hsame.trans hfirst).header).mpr (hu k hk)
    refine ⟨hsame.trans (hfirst.trans (sameButFwd_setFwd ..)), ?_⟩
    intro y j
    rw [linkLevel, fwd_setFwd hupd, fwd_setFwd hnode, hfwd y j, hfwd (update.getD k .root) k]
    by_cases hj : j = k
    · subst hj
      by_cases hy : y = update.getD j .root
      · simp [hy]
      · by_cases hya : y = .node a
        · subst hya
          simp [-List.getD_eq_getElem?_getD, hy]
        · simp [-List.getD_eq_getElem?_getD, hy, hya]
    · have hjk : j < k + 1 ↔ j < k := by omega
      simp [hj, hjk]

/-- The unlinking loop after `k` levels. -/
theorem unlinkLevel_loop {z : Zskiplist S} {a : Nat} {update : List (Ref Nat)} {lvl : Nat}
    (hu : ∀ i < lvl, z.HasLevel i (update.getD i .root)) :
    ∀ k ≤ lvl, SameButFwd z ((List.range k).foldl (unlinkLevel a update) z) ∧
      ∀ y j, ((List.range k).foldl (unlinkLevel a update) z).fwd y j =
        if j < k ∧ y = update.getD j .root ∧ z.fwd y j = some a then z.fwd (.node a) j
        else z.fwd y j := by
  intro k
  induction k with
  | zero =>
    intro _
    exact ⟨SameButFwd.refl z, by simp⟩
  | succ k ih =>
    intro hk
    obtain ⟨hsame, hfwd⟩ := ih (by omega)
    rw [List.range_succ, List.foldl_append, List.foldl_cons, List.foldl_nil]
    generalize (List.range k).foldl (unlinkLevel a update) z = zk at hsame hfwd
    have hupd : zk.HasLevel k (update.getD k .root) :=
      (hasLevel_congr hsame.info hsame.header).mpr (hu k hk)
    have hk1 : zk.fwd (update.getD k .root) k = z.fwd (update.getD k .root) k := by
      rw [hfwd]
      simp
    have hk2 : zk.fwd (.node a) k = z.fwd (.node a) k := by
      rw [hfwd]
      simp
    simp only [unlinkLevel, hk1, hk2]
    split
    · rename_i hahead
      refine ⟨hsame.trans (sameButFwd_setFwd ..), ?_⟩
      intro y j
      rw [fwd_setFwd hupd, hfwd y j]
      by_cases hj : j = k
      · subst hj
        by_cases hy : y = update.getD j .root
        · subst hy
          simp [-List.getD_eq_getElem?_getD, hahead]
        · simp [-List.getD_eq_getElem?_getD, hy]
      · have hjk : j < k + 1 ↔ j < k := by omega
        simp [hj, hjk]
    · rename_i hahead
      refine ⟨hsame, ?_⟩
      intro y j
      rw [hfwd y j]
      by_cases hj : j = k
      · subst hj
        by_cases hy : y = update.getD j .root
        · subst hy
          simp [-List.getD_eq_getElem?_getD, hahead]
        · simp [-List.getD_eq_getElem?_getD, hy]
      · have hjk : j < k + 1 ↔ j < k := by omega
        simp [hjk]

/-! ## The representation invariant -/

/-- The nodes of `z` are `L`, in the order of level 0. -/
structure Repr [LinearOrder S] (z : Zskiplist S) (L : List Nat) : Prop where
  nodup : L.Nodup
  node : ∀ a ∈ L, ∃ n, z.nodes.get a = some n ∧ n.forward.length = n.level ∧
    1 ≤ n.level ∧ n.level ≤ z.level
  sorted : (L.filterMap z.keyAt).Pairwise (· ≤ ·)
  chain : ∀ i < zskiplistMaxlevel, IsChain (z.fwd · i) .root (onLevel z.levelAt i L)
  backward : ∀ A a B, L = A ++ a :: B → z.backwardAt a = A.getLast?
  tail : z.tail = L.getLast?
  length : z.length = L.length
  header : z.header.length = zskiplistMaxlevel
  level_pos : 1 ≤ z.level
  level_le : z.level ≤ zskiplistMaxlevel

section Repr

variable [LinearOrder S] {z : Zskiplist S} {L : List Nat}

theorem repr_zslCreate : Repr (zslCreate : Zskiplist S) [] where
  nodup := List.nodup_nil
  node := by simp
  sorted := List.Pairwise.nil
  chain := by
    intro i hi
    show (zslCreate : Zskiplist S).fwd .root i = none
    simp [fwd, zslCreate, List.getD_eq_getElem?_getD, hi]
  backward := by simp
  tail := rfl
  length := rfl
  header := by simp [zslCreate]
  level_pos := by simp [zslCreate]
  level_le := by simp [zslCreate, zskiplistMaxlevel]

omit [LinearOrder S] in
theorem lastRef_ne (M : List Nat) {i a : Nat} (ha : a ∉ M) :
    lastRef .root (onLevel z.levelAt i M) ≠ .node a := by
  intro hl
  have := LinkedHeap.mem_of_lastRef_eq_node hl (by simp)
  exact ha (SkipSearch.mem_onLevel.mp this).1

namespace Repr

theorem lt_fresh (h : Repr z L) {a : Nat} (ha : a ∈ L) : a < z.nodes.fresh := by
  obtain ⟨n, hn, _⟩ := h.node a ha
  exact Heap.lt_fresh_of_get hn

theorem length_le_fresh (h : Repr z L) : L.length ≤ z.nodes.fresh := by
  have hsub : L ⊆ List.range z.nodes.fresh := fun a ha => List.mem_range.mpr (h.lt_fresh ha)
  simpa using (List.subperm_of_subset h.nodup hsub).length_le

theorem level_le_of_mem (h : Repr z L) {a : Nat} (ha : a ∈ L) :
    1 ≤ z.levelAt a ∧ z.levelAt a ≤ z.level := by
  obtain ⟨n, hn, _, h1, h2⟩ := h.node a ha
  rw [levelAt_of_get hn]
  exact ⟨h1, h2⟩

/-- Every node is on level 0. -/
theorem onLevel_zero (h : Repr z L) {M : List Nat} (hM : M ⊆ L) : onLevel z.levelAt 0 M = M := by
  apply List.filter_eq_self.mpr
  intro a ha
  have := (h.level_le_of_mem (hM ha)).1
  simp only [decide_eq_true_eq]
  omega

/-- The levels above `z->level` are empty. -/
theorem onLevel_above (h : Repr z L) {M : List Nat} (hM : M ⊆ L) {i : Nat} (hi : z.level ≤ i) :
    onLevel z.levelAt i M = [] := by
  apply List.filter_eq_nil_iff.mpr
  intro a ha
  have := (h.level_le_of_mem (hM ha)).2
  simp only [decide_eq_true_eq]
  omega

/-- Where a level is left there is a pointer of that level. -/
theorem hasLevel_lastRef (h : Repr z L) {M : List Nat} (hM : M ⊆ L) {i : Nat}
    (hi : i < zskiplistMaxlevel) : z.HasLevel i (lastRef .root (onLevel z.levelAt i M)) := by
  rcases LinkedHeap.lastRef_cases .root (onLevel z.levelAt i M) with ⟨_, hl⟩ | ⟨d, a, hd, hl⟩
  · rw [hl]
    show i < z.header.length
    rw [h.header]
    exact hi
  · rw [hl]
    have ha : a ∈ onLevel z.levelAt i M := by simp [hd]
    obtain ⟨haM, hlev⟩ := SkipSearch.mem_onLevel.mp ha
    obtain ⟨n, hn, hlen, _⟩ := h.node a (hM haM)
    rw [levelAt_of_get hn] at hlev
    refine ⟨n.info, infoAt_of_get hn, ?_⟩
    show i < n.forward.length
    omega

/-- The search, for either of its predicates. -/
theorem descend (h : Repr z L) (p : Nat → Bool) :
    ∃ P Q, L = P ++ Q ∧ Stands z.levelAt p z.level P Q ∧
      ∀ i < z.level, (z.descend p).getD i .root = lastRef .root (onLevel z.levelAt i P) := by
  apply SkipSearch.descend_spec
  · intro i hi
    exact h.chain i (lt_of_lt_of_le hi h.level_le)
  · exact h.length_le_fresh

/-- What is ahead of the place where a level was left. -/
theorem fwd_lastRef {P Q : List Nat} (h : Repr z (P ++ Q)) {i : Nat} (hi : i < zskiplistMaxlevel) :
    z.fwd (lastRef .root (onLevel z.levelAt i P)) i = (onLevel z.levelAt i Q).head? := by
  have hc := h.chain i hi
  rw [SkipSearch.onLevel_append] at hc
  exact hc.append.head

end Repr

/-! ## Insertion -/

theorem comesBefore_of_get {a : Nat} {n : ZskiplistNode S} (hn : z.nodes.get a = some n)
    (score : S) (member : CStr) :
    z.comesBefore score member a = true ↔ n.key < toLex (score, member) := by
  simp only [comesBefore, hn, ZskiplistNode.key, Prod.Lex.toLex_lt_toLex, Bool.or_eq_true,
    Bool.and_eq_true, decide_eq_true_eq, beq_iff_eq, strcmp_eq_lt]

omit [LinearOrder S] in
theorem nodeOrNull_lastRef (P : List Nat) : nodeOrNull (lastRef .root P) = P.getLast? := by
  rcases LinkedHeap.lastRef_cases .root P with ⟨rfl, hl⟩ | ⟨d, a, rfl, hl⟩
  · rfl
  · rw [hl]
    simp [nodeOrNull]

omit [LinearOrder S] in
/-- A fresh node without links, in a list whose level may have grown. -/
theorem alloc_spec (z : Zskiplist S) (score : S) (member : CStr) (lvl lvl' : Nat) :
    let n : ZskiplistNode S :=
      { member := member, score := score, forward := List.replicate lvl none
        backward := none, level := lvl }
    let z' := { z with level := lvl', nodes := z.nodes.alloc n }
    (∀ y j, z'.fwd y j = z.fwd y j) ∧ (∀ b, z'.backwardAt b = z.backwardAt b) ∧
      ∀ b, z'.infoAt b
        = if b = z.nodes.fresh then some (member, score, lvl, lvl) else z.infoAt b := by
  refine ⟨?_, ?_, ?_⟩
  · intro y j
    cases y with
    | root => rfl
    | node b =>
      by_cases hb : b = z.nodes.fresh
      · subst hb
        simp [fwd, List.getD_eq_getElem?_getD, List.getElem?_replicate]
        split <;> rfl
      · simp [fwd, Heap.get_alloc_of_ne hb]
  · intro b
    by_cases hb : b = z.nodes.fresh
    · subst hb
      simp [backwardAt]
    · simp [backwardAt, Heap.get_alloc_of_ne hb]
  · intro b
    by_cases hb : b = z.nodes.fresh
    · subst hb
      simp [infoAt, ZskiplistNode.info]
    · simp [infoAt, Heap.get_alloc_of_ne hb, hb]

/-- What one sees after an insertion between `P` and `Q`. -/
structure Inserted (z z' : Zskiplist S) (score : S) (member : CStr) (lvl : Nat)
    (P Q : List Nat) : Prop where
  fwd : ∀ y j, z'.fwd y j =
    if j < lvl ∧ y = lastRef .root (onLevel z.levelAt j P) then some z.nodes.fresh
    else if j < lvl ∧ y = .node z.nodes.fresh then (onLevel z.levelAt j Q).head?
    else z.fwd y j
  info : ∀ b, z'.infoAt b
    = if b = z.nodes.fresh then some (member, score, lvl, lvl) else z.infoAt b
  backward : ∀ b, z'.backwardAt b = if b = z.nodes.fresh then P.getLast?
    else if Q.head? = some b then some z.nodes.fresh else z.backwardAt b
  tail : z'.tail = if Q = [] then some z.nodes.fresh else z.tail
  length : z'.length = z.length + 1
  level : z'.level = max z.level lvl
  header : z'.header.length = z.header.length

/-- The predecessors the insertion works with, the new levels included. -/
theorem update_getD {P Q : List Nat} (h : Repr z (P ++ Q)) {update : List (Ref Nat)} (lvl : Nat)
    (hlen : update.length = z.level)
    (hupd : ∀ i < z.level, update.getD i .root = lastRef .root (onLevel z.levelAt i P)) (i : Nat) :
    (update ++ List.replicate (lvl - z.level) Ref.root).getD i .root
      = lastRef .root (onLevel z.levelAt i P) := by
  by_cases hi : i < z.level
  · rw [List.getD_append _ _ _ _ (by omega), hupd i hi]
  · rw [List.getD_append_right _ _ _ _ (by omega),
      h.onLevel_above (by simp) (Nat.le_of_not_lt hi), LinkedHeap.lastRef_nil,
      List.getD_eq_getElem?_getD, List.getElem?_replicate]
    split <;> rfl

omit [LinearOrder S] in
/-- A level that existed is still there when a node was added. -/
theorem HasLevel.mono {z₁ : Zskiplist S} {a i : Nat} {x : Ref Nat} (h : z.HasLevel i x)
    (hx : x ≠ .node a) (hheader : z₁.header.length = z.header.length)
    (hinfo : ∀ b, b ≠ a → z₁.infoAt b = z.infoAt b) : z₁.HasLevel i x := by
  cases x with
  | root =>
    show i < z₁.header.length
    rw [hheader]
    exact h
  | node b =>
    obtain ⟨w, hw, hi⟩ := h
    have hb : b ≠ a := fun hb => hx (by rw [hb])
    exact ⟨w, by rw [hinfo b hb, hw], hi⟩

theorem inserted_zslInsert {P Q : List Nat} (h : Repr z (P ++ Q)) {score : S} {member : CStr}
    {lvl : Nat} (hpos : 1 ≤ lvl) (hmax : lvl ≤ zskiplistMaxlevel)
    (hupd : ∀ i < z.level, (z.descend (z.comesBefore score member)).getD i .root
      = lastRef .root (onLevel z.levelAt i P)) :
    Inserted z (z.zslInsert score member lvl) score member lvl P Q := by
  obtain ⟨hfwd₁, hback₁, hinfo₁⟩ := alloc_spec z score member lvl (max z.level lvl)
  have hu := update_getD h lvl (by simp [Zskiplist.descend]) hupd
  unfold zslInsert
  extract_lets update' update a n z₁ z₂ z₃ z₄
  have hne : ∀ x ∈ P ++ Q, x ≠ a := fun x hx => ne_of_lt (h.lt_fresh hx)
  have haP : a ∉ P := fun hx => hne a (List.mem_append_left Q hx) rfl
  have hu₁ : ∀ i < lvl, z₁.HasLevel i (update.getD i .root) := by
    intro i hi
    rw [hu i]
    exact (h.hasLevel_lastRef (by simp) (by omega)).mono (lastRef_ne P haP) rfl
      fun b hb => (hinfo₁ b).trans (if_neg hb)
  have ha₁ : ∀ i < lvl, z₁.HasLevel i (.node a) := by
    intro i hi
    exact ⟨_, (hinfo₁ a).trans (if_pos rfl), hi⟩
  obtain ⟨hsame, hfwd₂⟩ := linkLevel_loop hu₁ ha₁ lvl le_rfl
  have hback₃ := sameButBack_setBackward z₂ a (nodeOrNull (update.getD 0 .root))
  have hback₄ := sameButBack_linkBack z₃ (z₃.fwd (.node a) 0) (some a)
  have hfwd : ∀ y j, z₃.fwd y j =
      if j < lvl ∧ y = lastRef .root (onLevel z.levelAt j P) then some a
      else if j < lvl ∧ y = .node a then (onLevel z.levelAt j Q).head?
      else z.fwd y j := by
    intro y j
    by_cases hj : j < lvl
    · rw [hback₃.fwd, hfwd₂, hu j, ← h.fwd_lastRef (i := j) (by omega)]
      simp only [hfwd₁, z₁, n]
    · rw [hback₃.fwd, hfwd₂]
      simp only [hj, false_and, if_false]
      exact hfwd₁ y j
  -- the node ahead of the new one on level 0
  have hq : z₃.fwd (.node a) 0 = Q.head? := by
    rw [hfwd, if_neg, if_pos ⟨hpos, rfl⟩, h.onLevel_zero (by simp)]
    rintro ⟨_, hc⟩
    exact lastRef_ne P haP hc.symm
  have hinfo₂ : ∀ b, z₂.infoAt b
      = if b = a then some (member, score, lvl, lvl) else z.infoAt b := fun b =>
    (hsame.info b).trans (hinfo₁ b)
  have hsome : ∀ b ∈ P ++ Q, (z₃.infoAt b).isSome := by
    intro b hb
    obtain ⟨m, hm, _⟩ := h.node b hb
    rw [hback₃.info, hinfo₂, if_neg (hne b hb), infoAt_of_get hm]
    rfl
  refine ⟨?_, ?_, ?_, ?_, ?_, ?_, ?_⟩
  · intro y j
    exact (hback₄.fwd y j).trans (hfwd y j)
  · intro b
    exact ((hback₄.info b).trans (hback₃.info b)).trans (hinfo₂ b)
  · intro b
    have h₄ : z₄.backwardAt b = if Q.head? = some b then some a else z₃.backwardAt b := by
      rw [← hq]
      refine backwardAt_linkBack ?_ _ b
      intro c hc
      rw [hq] at hc
      exact hsome c (List.mem_append_right P (List.mem_of_mem_head? hc))
    have h₃ : z₃.backwardAt b = if b = a then P.getLast? else z.backwardAt b := by
      rw [backwardAt_setBackward (by rw [hinfo₂, if_pos rfl]; rfl), hu 0,
        h.onLevel_zero (by simp), nodeOrNull_lastRef, hsame.backward, hback₁]
    have hQ : b = a → Q.head? ≠ some b := by
      rintro rfl hc
      exact hne a (List.mem_append_right P (List.mem_of_mem_head? hc)) rfl
    refine h₄.trans ?_
    rw [h₃]
    by_cases hb : b = a
    · rw [if_neg (hQ hb), if_pos hb, if_pos hb]
    · rw [if_neg hb, if_neg hb]
  · have h₄ : z₄.tail = _ := tail_linkBack z₃ (z₃.fwd (.node a) 0) (some a)
    refine h₄.trans ?_
    rw [hq]
    simp only [List.head?_eq_none_iff]
    rw [show z₃.tail = z.tail from hsame.tail]
  · exact congrArg (· + 1) (((hback₄.length).trans hback₃.length).trans hsame.length)
  · exact ((hback₄.level).trans hback₃.level).trans hsame.level
  · exact ((hback₄.header).trans hback₃.header).trans hsame.header

omit [LinearOrder S] in
theorem onLevel_congr {z' : Zskiplist S} {M : List Nat} (h : ∀ b ∈ M, z'.infoAt b = z.infoAt b)
    (i : Nat) : onLevel z'.levelAt i M = onLevel z.levelAt i M := by
  apply List.filter_congr
  intro b hb
  rw [levelAt_congr (h b hb)]

omit [LinearOrder S] in
theorem filterMap_keyAt_congr {z' : Zskiplist S} {M : List Nat}
    (h : ∀ b ∈ M, z'.infoAt b = z.infoAt b) : M.filterMap z'.keyAt = M.filterMap z.keyAt :=
  List.filterMap_congr fun b hb => keyAt_congr (h b hb)

/-- The predecessor of each node after an insertion. -/
theorem Inserted.backward_eq {z' : Zskiplist S} {P Q : List Nat} (h : Repr z (P ++ Q))
    {score : S} {member : CStr} {lvl : Nat} (hi : Inserted z z' score member lvl P Q) :
    ∀ A x B, P ++ z.nodes.fresh :: Q = A ++ x :: B → z'.backwardAt x = A.getLast? := by
  intro A x B hsplit
  have hne : ∀ y ∈ P ++ Q, y ≠ z.nodes.fresh := fun y hy => ne_of_lt (h.lt_fresh hy)
  rw [hi.backward]
  rcases List.append_eq_append_iff.mp hsplit with ⟨C, rfl, hC⟩ | ⟨C, hC, hB⟩
  · cases C with
    | nil =>
      obtain ⟨rfl, rfl⟩ := List.cons.inj hC
      simp
    | cons c C =>
      -- behind the new node
      obtain ⟨rfl, hQ⟩ := List.cons.inj hC
      have hx : x ∈ P ++ Q := by simp [hQ]
      rw [if_neg (hne x hx)]
      cases C with
      | nil => simp [hQ]
      | cons c' C =>
        have hhead : Q.head? ≠ some x := by
          rw [hQ]
          rintro ⟨rfl⟩
          have hnd := (List.nodup_append.mp h.nodup).2.1
          simp [hQ] at hnd
        have hold := h.backward (P ++ c' :: C) x B (by rw [hQ]; simp)
        rw [if_neg hhead, hold]
        simp [List.getLast?_append, List.getLast?_cons]
  · cases C with
    | nil =>
      obtain ⟨rfl, rfl⟩ := List.cons.inj hB
      simp [hC]
    | cons c C =>
      -- before the new node
      obtain ⟨rfl, rfl⟩ := List.cons.inj hB
      have hx : x ∈ P := by simp [hC]
      have hhead : Q.head? ≠ some x := by
        intro hc
        exact (List.nodup_append.mp h.nodup).2.2 x hx x (List.mem_of_mem_head? hc) rfl
      rw [if_neg (hne x (List.mem_append_left Q hx)), if_neg hhead]
      exact h.backward A x (C ++ Q) (by simp [hC])

section Insert

variable {z' : Zskiplist S} {P Q : List Nat} {score : S} {member : CStr} {lvl : Nat}

omit [LinearOrder S] in
theorem Inserted.info_new (hi : Inserted z z' score member lvl P Q) :
    z'.infoAt z.nodes.fresh = some (member, score, lvl, lvl) :=
  (hi.info _).trans (if_pos rfl)

/-- The nodes that were there are as they were. -/
theorem Inserted.info_old (h : Repr z (P ++ Q)) (hi : Inserted z z' score member lvl P Q)
    {M : List Nat} (hM : M ⊆ P ++ Q) : ∀ b ∈ M, z'.infoAt b = z.infoAt b := fun b hb =>
  (hi.info b).trans (if_neg (ne_of_lt (h.lt_fresh (hM hb))))

theorem Inserted.node (h : Repr z (P ++ Q)) (hi : Inserted z z' score member lvl P Q)
    (hpos : 1 ≤ lvl) : ∀ b ∈ P ++ z.nodes.fresh :: Q, ∃ n, z'.nodes.get b = some n ∧
      n.forward.length = n.level ∧ 1 ≤ n.level ∧ n.level ≤ z'.level := by
  intro b hb
  rcases List.mem_cons.mp (List.perm_middle.mem_iff.mp hb) with rfl | hb
  · obtain ⟨n, hn, hx⟩ := get_of_infoAt hi.info_new
    simp only [ZskiplistNode.info, Prod.mk.injEq] at hx
    obtain ⟨_, _, hlev, hlen⟩ := hx
    refine ⟨n, hn, hlen.trans hlev.symm, ?_, ?_⟩
    · omega
    · rw [hi.level, hlev]
      exact le_max_right ..
  · obtain ⟨m, hm, hlen, h1, h2⟩ := h.node b hb
    obtain ⟨n, hn, hx⟩ := get_of_infoAt
      ((hi.info_old h (List.Subset.refl _) b hb).trans (infoAt_of_get hm))
    simp only [ZskiplistNode.info, Prod.mk.injEq] at hx
    obtain ⟨_, _, hlev, hlen'⟩ := hx
    refine ⟨n, hn, ?_, ?_, ?_⟩
    · omega
    · omega
    · rw [hi.level, hlev]
      exact le_max_of_le_left h2

theorem Inserted.sorted (h : Repr z (P ++ Q)) (hi : Inserted z z' score member lvl P Q)
    (hP : ∀ k ∈ P.filterMap z.keyAt, k ≤ toLex (score, member))
    (hQ : ∀ k ∈ Q.filterMap z.keyAt, toLex (score, member) ≤ k) :
    ((P ++ z.nodes.fresh :: Q).filterMap z'.keyAt).Pairwise (· ≤ ·) := by
  have hkey : z'.keyAt z.nodes.fresh = some (toLex (score, member)) := by
    simp [keyAt, hi.info_new]
  have hs := h.sorted
  rw [List.filterMap_append, List.pairwise_append] at hs
  obtain ⟨hsP, hsQ, hsPQ⟩ := hs
  rw [List.filterMap_append, List.filterMap_cons, hkey,
    filterMap_keyAt_congr (hi.info_old h (List.subset_append_left P Q)),
    filterMap_keyAt_congr (hi.info_old h (List.subset_append_right P Q))]
  refine List.pairwise_append.mpr ⟨hsP, List.pairwise_cons.mpr ⟨hQ, hsQ⟩, ?_⟩
  intro k hk k' hk'
  rcases List.mem_cons.mp hk' with rfl | hk'
  · exact hP k hk
  · exact hsPQ k hk k' hk'

/-- Level `i` after an insertion: the new node is linked in if it reaches
the level, and the level is as it was if it does not. -/
theorem Inserted.chain (h : Repr z (P ++ Q)) (hi : Inserted z z' score member lvl P Q) {i : Nat}
    (hi12 : i < zskiplistMaxlevel) :
    IsChain (fun x => z'.fwd x i) .root (onLevel z'.levelAt i (P ++ z.nodes.fresh :: Q)) := by
  have hnew : z.nodes.fresh ∉ P ++ Q := fun hc => ne_of_lt (h.lt_fresh hc) rfl
  have hlevel : z'.levelAt z.nodes.fresh = lvl := by simp [levelAt, hi.info_new]
  have hc := h.chain i hi12
  rw [SkipSearch.onLevel_append] at hc
  have hnodup : (onLevel z.levelAt i P ++ onLevel z.levelAt i Q).Nodup := by
    rw [← SkipSearch.onLevel_append]
    exact h.nodup.filter _
  have hmem : ∀ b ∈ onLevel z.levelAt i P ++ onLevel z.levelAt i Q, b ∈ P ++ Q := by
    rw [← SkipSearch.onLevel_append]
    exact fun b hb => (SkipSearch.mem_onLevel.mp hb).1
  have hsplit : onLevel z'.levelAt i (P ++ z.nodes.fresh :: Q) = onLevel z.levelAt i P
      ++ (onLevel z'.levelAt i [z.nodes.fresh] ++ onLevel z.levelAt i Q) := by
    rw [← onLevel_congr (hi.info_old h (List.subset_append_left P Q)),
      ← onLevel_congr (hi.info_old h (List.subset_append_right P Q)),
      ← SkipSearch.onLevel_append, ← SkipSearch.onLevel_append]
    rfl
  rw [hsplit]
  by_cases hlt : i < lvl
  · have hself : onLevel z'.levelAt i [z.nodes.fresh] = [z.nodes.fresh] := by
      simp [onLevel, hlevel, hlt]
    rw [hself]
    refine hc.insert hnodup (fun hb => hnew (hmem _ hb)) (by simp) ?_ ?_ ?_
    · simp only [hi.fwd, hlt, true_and, if_true]
    · have hroot : ¬ Ref.node z.nodes.fresh = lastRef .root (onLevel z.levelAt i P) :=
        fun hx => lastRef_ne P (fun hb => hnew (List.mem_append_left Q hb)) hx.symm
      simp only [hi.fwd, hlt, true_and, hroot, if_true, if_false]
      exact (h.fwd_lastRef hi12).symm
    · intro y hy hya
      simp only [hi.fwd, hy, hya, and_false, if_false]
  · have hself : onLevel z'.levelAt i [z.nodes.fresh] = [] := by
      simp [onLevel, hlevel, hlt]
    rw [hself, List.nil_append]
    refine hc.congr ?_ fun b _ => ?_
    · simp only [hi.fwd, hlt, false_and, if_false]
    · simp only [hi.fwd, hlt, false_and, if_false]

theorem Repr.insert (h : Repr z (P ++ Q)) (hpos : 1 ≤ lvl) (hmax : lvl ≤ zskiplistMaxlevel)
    (hi : Inserted z z' score member lvl P Q)
    (hP : ∀ k ∈ P.filterMap z.keyAt, k ≤ toLex (score, member))
    (hQ : ∀ k ∈ Q.filterMap z.keyAt, toLex (score, member) ≤ k) :
    Repr z' (P ++ z.nodes.fresh :: Q) where
  nodup := by
    have hnew : z.nodes.fresh ∉ P ++ Q := fun hc => ne_of_lt (h.lt_fresh hc) rfl
    exact (List.nodup_middle).mpr (List.nodup_cons.mpr ⟨hnew, h.nodup⟩)
  node := hi.node h hpos
  sorted := hi.sorted h hP hQ
  chain := fun _ hi12 => hi.chain h hi12
  backward := hi.backward_eq h
  tail := by
    rw [hi.tail, h.tail]
    cases Q with
    | nil => simp
    | cons q Q => simp [List.getLast?_append, List.getLast?_cons]
  length := by
    rw [hi.length, h.length]
    simp
    omega
  header := by rw [hi.header, h.header]
  level_pos := by
    rw [hi.level]
    have := h.level_pos
    omega
  level_le := by
    rw [hi.level]
    have := h.level_le
    omega

end Insert

/-- The place of an insertion is the place of its key in the order. -/
theorem Repr.split_ordered {P Q : List Nat} (h : Repr z (P ++ Q)) {score : S} {member : CStr}
    (hs : Stands z.levelAt (z.comesBefore score member) z.level P Q) :
    (∀ k ∈ P.filterMap z.keyAt, k ≤ toLex (score, member)) ∧
      ∀ k ∈ Q.filterMap z.keyAt, toLex (score, member) ≤ k := by
  have hsorted := h.sorted
  rw [List.filterMap_append, List.pairwise_append] at hsorted
  obtain ⟨hsP, hsQ, _⟩ := hsorted
  constructor
  · rcases List.eq_nil_or_concat P with rfl | ⟨P₀, c, rfl⟩
    · simp
    · rw [List.concat_eq_append] at *
      obtain ⟨n, hn, _⟩ := h.node c (by simp)
      have hlast : n.key < toLex (score, member) := (comesBefore_of_get hn score member).mp hs.last
      simp only [List.filterMap_append, List.filterMap_cons, keyAt_of_get hn,
        List.filterMap_nil, List.pairwise_append, List.mem_singleton] at hsP ⊢
      intro k hk
      rcases List.mem_append.mp hk with hk | hk
      · exact le_trans (hsP.2.2 k hk n.key rfl) hlast.le
      · rw [List.mem_singleton.mp hk]
        exact hlast.le
  · cases Q with
    | nil => simp
    | cons q Q =>
      obtain ⟨n, hn, _⟩ := h.node q (by simp)
      have hahead := hs.ahead 0 h.level_pos q (by rw [h.onLevel_zero (by simp)]; rfl)
      have hhead : toLex (score, member) ≤ n.key := by
        rw [← not_lt, ← comesBefore_of_get hn]
        simp [hahead]
      simp only [List.filterMap_cons, keyAt_of_get hn, List.pairwise_cons] at hsQ ⊢
      intro k hk
      rcases List.mem_cons.mp hk with rfl | hk
      · exact hhead
      · exact le_trans hhead (hsQ.1 k hk)

/-- **Insertion** puts one fresh node into the list. -/
theorem Repr.zslInsert (h : Repr z L) (score : S) (member : CStr) {lvl : Nat} (hpos : 1 ≤ lvl)
    (hmax : lvl ≤ zskiplistMaxlevel) :
    ∃ P Q, L = P ++ Q ∧ Inserted z (z.zslInsert score member lvl) score member lvl P Q ∧
      Repr (z.zslInsert score member lvl) (P ++ z.nodes.fresh :: Q) := by
  obtain ⟨P, Q, rfl, hs, hupd⟩ := h.descend (z.comesBefore score member)
  have hi := inserted_zslInsert h hpos hmax hupd
  obtain ⟨hP, hQ⟩ := h.split_ordered hs
  exact ⟨P, Q, rfl, hi, h.insert hpos hmax hi hP hQ⟩

end Repr

end Zskiplist

end AntzKV

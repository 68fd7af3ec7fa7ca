/-
AntzKV.Lib.LinkedHeap — nodes in a heap and the chains that thread them.

`Heap α` is a list of cells addressed by position: `alloc` appends a
cell, `free` empties one, and an address is never handed out twice. A
stale pointer therefore reads `none` instead of somebody else's node.

A `Ref` is the root of a structure (its head pointer, its header node) or
a node. `IsChain next x c` says that following `next` from `x` visits
exactly the nodes `c` and then NULL. `lastRef x c` is the reference one
stands on at the end of `c`. Splicing a node in or out changes `next` at
one reference; `IsChain.insert` and `IsChain.remove` say what the chain
is afterwards, and `IsChain.congr` that nothing else matters. `IsDouble`
is a chain with links both ways. `Heap.Visits` is what a loop sees that
follows one field of the cells, and `Heap.Leads` the same with the
addresses of the cells, so that it can be said which writes it survives
(`Leads.congr`) and what a write at its end adds (`Leads.append`).
-/
import Mathlib

/-- A region of memory: cell `a` is the node at address `a`. -/
structure Heap (α : Type) where
  cells : List (Option α)
  deriving DecidableEq

namespace Heap

variable {α : Type}

def empty : Heap α := ⟨[]⟩

def get (h : Heap α) (a : Nat) : Option α := h.cells.getD a none

/-- The address the next allocation hands out. -/
def fresh (h : Heap α) : Nat := h.cells.length

def alloc (h : Heap α) (x : α) : Heap α := ⟨h.cells ++ [some x]⟩

def modify (h : Heap α) (a : Nat) (f : α → α) : Heap α := ⟨h.cells.modify a (Option.map f)⟩

def free (h : Heap α) (a : Nat) : Heap α := ⟨h.cells.set a none⟩

theorem lt_fresh_of_get {h : Heap α} {a : Nat} {x : α} (hx : h.get a = some x) : a < h.fresh := by
  by_contra hge
  have hnone : h.cells.getD a none = none := by
    rw [List.getD_eq_getElem?_getD, List.getElem?_eq_none (Nat.le_of_not_lt hge)]
    rfl
  rw [get, hnone] at hx
  simp at hx

@[simp] theorem get_alloc_fresh (h : Heap α) (x : α) : (h.alloc x).get h.fresh = some x := by
  simp [get, alloc, fresh, List.getD_eq_getElem?_getD]

@[simp] theorem get_fresh (h : Heap α) : h.get h.fresh = none := by
  simp [get, fresh, List.getD_eq_getElem?_getD]

theorem get_alloc_of_ne {h : Heap α} {a : Nat} (ha : a ≠ h.fresh) (x : α) :
    (h.alloc x).get a = h.get a := by
  simp only [get, alloc, List.getD_eq_getElem?_getD]
  rcases Nat.lt_or_gt_of_ne ha with hlt | hgt
  · rw [List.getElem?_append_left hlt]
  · have hlen : h.cells.length < a := hgt
    rw [List.getElem?_eq_none (by simp; omega), List.getElem?_eq_none (by omega)]

@[simp] theorem get_modify_self (h : Heap α) (a : Nat) (f : α → α) :
    (h.modify a f).get a = (h.get a).map f := by
  simp only [get, modify, List.getD_eq_getElem?_getD, List.getElem?_modify, if_true]
  cases h.cells[a]? with
  | none => rfl
  | some o => rfl

theorem get_modify_of_ne {h : Heap α} {a b : Nat} (hne : b ≠ a) (f : α → α) :
    (h.modify a f).get b = h.get b := by
  simp only [get, modify, List.getD_eq_getElem?_getD, List.getElem?_modify, if_neg hne.symm]
  simp

theorem get_free_of_ne {h : Heap α} {a b : Nat} (hne : b ≠ a) : (h.free a).get b = h.get b := by
  simp only [get, free, List.getD_eq_getElem?_getD, List.getElem?_set]
  rw [if_neg hne.symm]

theorem get_modify (h : Heap α) (a b : Nat) (f : α → α) :
    (h.modify a f).get b = if b = a then (h.get b).map f else h.get b := by
  split_ifs with hb
  · rw [hb, get_modify_self]
  · exact get_modify_of_ne hb f

/-- What a write leaves alone, read before and after. -/
theorem map_get_modify {β : Type} (h : Heap α) (a b : Nat) {f : α → α} {g : α → β}
    (hg : ∀ x, g (f x) = g x) : ((h.modify a f).get b).map g = (h.get b).map g := by
  rw [get_modify]
  split
  · rw [Option.map_map]
    congr 1
    funext x
    exact hg x
  · rfl

theorem bind_get_modify {β : Type} (h : Heap α) (a b : Nat) {f : α → α} {g : α → Option β}
    (hg : ∀ x, g (f x) = g x) : ((h.modify a f).get b).bind g = (h.get b).bind g := by
  rw [get_modify]
  split
  · rw [Option.bind_map]
    congr 1
    funext x
    exact hg x
  · rfl

theorem get_alloc (h : Heap α) (x : α) (b : Nat) :
    (h.alloc x).get b = if b = h.fresh then some x else h.get b := by
  split_ifs with hb
  · rw [hb, get_alloc_fresh]
  · exact get_alloc_of_ne hb x

end Heap

namespace LinkedHeap

/-- Where a link is stored: in the root, or in a node. -/
inductive Ref (α : Type) where
  | root
  | node (a : α)
  deriving DecidableEq

variable {α : Type}

/-- Following `next` from `x` visits `c` and then nothing. -/
def IsChain (next : Ref α → Option α) : Ref α → List α → Prop
  | x, [] => next x = none
  | x, a :: c => next x = some a ∧ IsChain next (.node a) c

/-- The reference one stands on after visiting `c` from `x`. -/
def lastRef : Ref α → List α → Ref α
  | x, [] => x
  | _, a :: c => lastRef (.node a) c

@[simp] theorem lastRef_nil (x : Ref α) : lastRef x [] = x := rfl

theorem lastRef_append (x : Ref α) (c d : List α) :
    lastRef x (c ++ d) = lastRef (lastRef x c) d := by
  induction c generalizing x with
  | nil => rfl
  | cons a c ih => exact ih (.node a)

@[simp] theorem lastRef_concat (x : Ref α) (c : List α) (a : α) :
    lastRef x (c ++ [a]) = .node a := by
  rw [lastRef_append]
  rfl

/-- Unless nothing was visited, one stands on a visited node. -/
theorem lastRef_cases (x : Ref α) (c : List α) :
    (c = [] ∧ lastRef x c = x) ∨ ∃ d a, c = d ++ [a] ∧ lastRef x c = .node a := by
  rcases List.eq_nil_or_concat c with rfl | ⟨d, a, rfl⟩
  · exact Or.inl ⟨rfl, rfl⟩
  · exact Or.inr ⟨d, a, List.concat_eq_append, by rw [List.concat_eq_append, lastRef_concat]⟩

theorem mem_of_lastRef_eq_node {x : Ref α} {c : List α} {a : α} (h : lastRef x c = .node a)
    (hx : x ≠ .node a) : a ∈ c := by
  rcases lastRef_cases x c with ⟨_, h'⟩ | ⟨d, b, rfl, h'⟩
  · exact absurd (h'.symm.trans h) hx
  · have : b = a := Ref.node.inj (h'.symm.trans h)
    simp [this]

namespace IsChain

variable {next next' : Ref α → Option α}

theorem append {x : Ref α} {c d : List α} (h : IsChain next x (c ++ d)) :
    IsChain next (lastRef x c) d := by
  induction c generalizing x with
  | nil => exact h
  | cons a c ih => exact ih h.2

theorem head {x : Ref α} {c : List α} (h : IsChain next x c) : next x = c.head? := by
  cases c with
  | nil => exact h
  | cons a c => exact h.1

/-- A chain depends on the links it goes through only. -/
theorem congr {x : Ref α} {c : List α} (h : IsChain next x c) (hx : next' x = next x)
    (hc : ∀ a ∈ c, next' (.node a) = next (.node a)) : IsChain next' x c := by
  induction c generalizing x with
  | nil => exact hx.trans h
  | cons a c ih =>
    exact ⟨hx.trans h.1, ih h.2 (hc a (by simp)) (fun b hb => hc b (by simp [hb]))⟩

/-- A chain determines the nodes it visits. -/
theorem unique {x : Ref α} {c d : List α} (h : IsChain next x c) (h' : IsChain next x d) :
    c = d := by
  induction c generalizing x d with
  | nil =>
    cases d with
    | nil => rfl
    | cons b d => exact absurd (h.symm.trans h'.1) (by simp)
  | cons a c ih =>
    cases d with
    | nil => exact absurd (h.1.symm.trans h') (by simp)
    | cons b d =>
      have hab : a = b := Option.some.inj (h.1.symm.trans h'.1)
      subst hab
      rw [ih h.2 h'.2]

/-- Splice node `a` in behind the nodes `c`. -/
theorem insert {x : Ref α} {c d : List α} {a : α} (h : IsChain next x (c ++ d))
    (hnodup : (c ++ d).Nodup) (ha : a ∉ c ++ d) (hxc : ∀ b, x = .node b → b ∉ c ++ d ∧ b ≠ a)
    (hu : next' (lastRef x c) = some a) (hn : next' (.node a) = next (lastRef x c))
    (hframe : ∀ y, y ≠ lastRef x c → y ≠ .node a → next' y = next y) :
    IsChain next' x (c ++ a :: d) := by
  induction c generalizing x with
  | nil =>
    refine ⟨hu, ?_⟩
    cases d with
    | nil => exact hn.trans h
    | cons b d =>
      refine ⟨hn.trans h.1, h.2.congr (hframe _ ?_ ?_) ?_⟩
      · intro he
        exact (hxc b he.symm).1 (by simp)
      · rintro ⟨rfl⟩
        simp at ha
      · intro e he
        apply hframe
        · intro hx
          exact (hxc e hx.symm).1 (by simp [he])
        · rintro ⟨rfl⟩
          simp [he] at ha
  | cons b c ih =>
    have hb : b ∉ c ++ d := (List.nodup_cons.mp hnodup).1
    have hba : b ≠ a := by
      rintro rfl
      simp at ha
    have hnot : x ≠ lastRef x (b :: c) := by
      intro he
      rcases lastRef_cases (.node b) c with ⟨_, hl⟩ | ⟨c', e, rfl, hl⟩
      · have hxb : x = .node b := he.trans hl
        exact (hxc b hxb).1 (by simp)
      · have hxe : x = .node e := he.trans hl
        exact (hxc e hxe).1 (by simp)
    have hxa : x ≠ .node a := fun he => (hxc a he).2 rfl
    refine ⟨(hframe x hnot hxa).trans h.1, ?_⟩
    exact ih h.2 (List.nodup_cons.mp hnodup).2 (fun hm => ha (List.mem_cons_of_mem b hm))
      (fun e he => by
        obtain rfl := Ref.node.inj he
        exact ⟨hb, hba⟩)
      hu hn hframe

/-- Splice node `a` out from behind the nodes `c`. -/
theorem remove {x : Ref α} {c d : List α} {a : α} (h : IsChain next x (c ++ a :: d))
    (hnodup : (c ++ a :: d).Nodup) (hxc : ∀ b, x = .node b → b ∉ c ++ a :: d)
    (hu : next' (lastRef x c) = next (.node a))
    (hframe : ∀ y, y ≠ lastRef x c → y ≠ .node a → next' y = next y) :
    IsChain next' x (c ++ d) := by
  induction c generalizing x with
  | nil =>
    have hd : IsChain next (.node a) d := h.2
    have ha : a ∉ d := (List.nodup_cons.mp hnodup).1
    cases d with
    | nil => exact hu.trans hd
    | cons b d =>
      refine ⟨hu.trans hd.1, hd.2.congr (hframe _ ?_ ?_) ?_⟩
      · intro he
        exact hxc b he.symm (by simp)
      · rintro ⟨rfl⟩
        simp at ha
      · intro e he
        apply hframe
        · intro hx
          exact hxc e hx.symm (by simp [he])
        · rintro ⟨rfl⟩
          simp [he] at ha
  | cons b c ih =>
    have hb : b ∉ c ++ a :: d := (List.nodup_cons.mp hnodup).1
    have hnot : x ≠ lastRef x (b :: c) := by
      intro he
      rcases lastRef_cases (.node b) c with ⟨_, hl⟩ | ⟨c', e, rfl, hl⟩
      · exact hxc b (he.trans hl) (by simp)
      · exact hxc e (he.trans hl) (by simp)
    have hxa : x ≠ .node a := fun he => hxc a he (by simp)
    refine ⟨(hframe x hnot hxa).trans h.1, ?_⟩
    exact ih h.2 (List.nodup_cons.mp hnodup).2
      (fun e he => by
        obtain rfl := Ref.node.inj he
        exact hb)
      hu hframe

end IsChain

/-! ## Doubly linked chains -/

/-- The root for the pointer NULL, the node for any other. -/
def refOf : Option α → Ref α
  | none => .root
  | some a => .node a

theorem lastRef_root (c : List α) : lastRef .root c = refOf c.getLast? := by
  rcases lastRef_cases .root c with ⟨rfl, h⟩ | ⟨d, a, rfl, h⟩
  · exact h
  · rw [h, List.getLast?_concat]
    rfl

theorem lastRef_root_reverse (c : List α) : lastRef .root c.reverse = refOf c.head? := by
  rw [lastRef_root, List.getLast?_reverse]

/-- `next` runs through `c` from the front and `prev` from the back. -/
structure IsDouble (next prev : Ref α → Option α) (c : List α) : Prop where
  fwd : IsChain next .root c
  bwd : IsChain prev .root c.reverse
  nodup : c.Nodup

namespace IsDouble

variable {next next' prev prev' : Ref α → Option α} {c d : List α} {a : α}

theorem next_node (h : IsDouble next prev (c ++ a :: d)) : next (.node a) = d.head? := by
  have hchain : IsChain next (.node a) d := h.fwd.append.2
  exact hchain.head

theorem prev_node (h : IsDouble next prev (c ++ a :: d)) : prev (.node a) = c.getLast? := by
  have hbwd : IsChain prev .root (d.reverse ++ a :: c.reverse) := by
    simpa using h.bwd
  have hchain : IsChain prev (.node a) c.reverse := hbwd.append.2
  rw [hchain.head, List.head?_reverse]

/-- Link `a` in between `c` and `d`. -/
theorem insert (h : IsDouble next prev (c ++ d)) (ha : a ∉ c ++ d)
    (hn : next' (refOf c.getLast?) = some a) (hna : next' (.node a) = next (refOf c.getLast?))
    (hnf : ∀ y, y ≠ refOf c.getLast? → y ≠ .node a → next' y = next y)
    (hp : prev' (refOf d.head?) = some a) (hpa : prev' (.node a) = prev (refOf d.head?))
    (hpf : ∀ y, y ≠ refOf d.head? → y ≠ .node a → prev' y = prev y) :
    IsDouble next' prev' (c ++ a :: d) where
  fwd := by
    simp only [← lastRef_root] at hn hna hnf
    exact h.fwd.insert h.nodup ha (by simp) hn hna hnf
  bwd := by
    simp only [← lastRef_root_reverse] at hp hpa hpf
    have hbwd : IsChain prev .root (d.reverse ++ c.reverse) := by
      simpa using h.bwd
    have hnodup : (d.reverse ++ c.reverse).Nodup := by
      rw [← List.reverse_append, List.nodup_reverse]
      exact h.nodup
    have hmem : a ∉ d.reverse ++ c.reverse := by
      simpa [and_comm] using ha
    simpa using hbwd.insert hnodup hmem (by simp) hp hpa hpf
  nodup := List.nodup_middle.mpr (List.nodup_cons.mpr ⟨ha, h.nodup⟩)

/-- Link `a` out from between `c` and `d`. -/
theorem remove (h : IsDouble next prev (c ++ a :: d))
    (hn : next' (refOf c.getLast?) = d.head?)
    (hnf : ∀ y, y ≠ refOf c.getLast? → y ≠ .node a → next' y = next y)
    (hp : prev' (refOf d.head?) = c.getLast?)
    (hpf : ∀ y, y ≠ refOf d.head? → y ≠ .node a → prev' y = prev y) :
    IsDouble next' prev' (c ++ d) where
  fwd := by
    rw [← h.next_node] at hn
    simp only [← lastRef_root] at hn hnf
    exact h.fwd.remove h.nodup (by simp) hn hnf
  bwd := by
    rw [← h.prev_node] at hp
    simp only [← lastRef_root_reverse] at hp hpf
    have hbwd : IsChain prev .root (d.reverse ++ a :: c.reverse) := by
      simpa using h.bwd
    have hnodup : (d.reverse ++ a :: c.reverse).Nodup := by
      simpa using List.nodup_reverse.mpr h.nodup
    simpa using hbwd.remove hnodup (by simp) hp hpf
  nodup := (List.nodup_cons.mp (List.nodup_middle.mp h.nodup)).2

end IsDouble

/-- Advance along `next` while the node ahead satisfies `p`, at most
`fuel` nodes. -/
def advance (next : Ref α → Option α) (p : α → Bool) : Nat → Ref α → Ref α
  | 0, x => x
  | fuel + 1, x =>
    match next x with
    | none => x
    | some a => if p a then advance next p fuel (.node a) else x

/-- On a chain, with fuel for its length, the walk ends behind the
longest stretch that satisfies `p`. -/
theorem advance_eq {next : Ref α → Option α} {p : α → Bool} :
    ∀ (fuel : Nat) (x : Ref α) (c : List α), IsChain next x c → c.length ≤ fuel →
      advance next p fuel x = lastRef x (c.takeWhile p)
  | 0, x, c, _, hf => by
    have : c = [] := List.eq_nil_of_length_eq_zero (by omega)
    subst this
    rfl
  | fuel + 1, x, [], h, _ => by
    have hx : next x = none := h
    simp [advance, hx]
  | fuel + 1, x, a :: c, h, hf => by
    rw [advance, h.1]
    by_cases hp : p a = true
    · simp only [hp, if_true, List.takeWhile_cons_of_pos]
      rw [advance_eq fuel (.node a) c h.2 (by simpa using hf)]
      rfl
    · simp [hp]

end LinkedHeap

/-! ## Walks along a pointer field -/

namespace Heap

variable {α : Type}

/-- From the pointer `p`, the field `next` leads through the cells `c` and
then to NULL. -/
def Visits (h : Heap α) (next : α → Option Nat) : Option Nat → List α → Prop
  | p, [] => p = none
  | p, x :: c => (∃ a, p = some a ∧ h.get a = some x) ∧ Visits h next (next x) c

/-- A chain of allocated cells, seen from the pointer it starts with. -/
theorem visits_of_isChain {h : Heap α} {next : α → Option Nat}
    {link : LinkedHeap.Ref Nat → Option Nat} {r : LinkedHeap.Ref Nat} {c : List Nat}
    (hc : LinkedHeap.IsChain link r c)
    (hcells : ∀ a ∈ c, ∃ x, h.get a = some x ∧ next x = link (.node a)) :
    h.Visits next (link r) (c.filterMap h.get) := by
  induction c generalizing r with
  | nil => exact hc
  | cons a c ih =>
    obtain ⟨x, hx, hnext⟩ := hcells a (by simp)
    rw [List.filterMap_cons_some hx]
    refine ⟨⟨a, hc.1, hx⟩, ?_⟩
    rw [hnext]
    exact ih hc.2 fun b hb => hcells b (by simp [hb])

/-- From the pointer `p`, the field `next` leads through cells at these
addresses, of which `val` shows these values, and then to NULL. -/
def Leads {β : Type} (h : Heap α) (next : α → Option Nat) (val : α → β) :
    Option Nat → List (Nat × β) → Prop
  | p, [] => p = none
  | p, (a, v) :: c => p = some a ∧ ∃ x, h.get a = some x ∧ val x = v ∧ Leads h next val (next x) c

section Leads

variable {β : Type} {h h' : Heap α} {next : α → Option Nat} {val : α → β} {p : Option Nat}
  {c : List (Nat × β)}

/-- The list depends on its cells only. -/
theorem Leads.congr (hl : h.Leads next val p c)
    (hsame : ∀ a ∈ c.map Prod.fst, h'.get a = h.get a) : h'.Leads next val p c := by
  induction c generalizing p with
  | nil => exact hl
  | cons y c ih =>
    obtain ⟨a, v⟩ := y
    obtain ⟨hp, x, hx, hv, hrest⟩ := hl
    exact ⟨hp, x, (hsame a (by simp)).trans hx, hv, ih hrest fun b hb => hsame b (by simp_all)⟩

theorem Leads.lt_fresh (hl : h.Leads next val p c) : ∀ a ∈ c.map Prod.fst, a < h.fresh := by
  induction c generalizing p with
  | nil => simp
  | cons y c ih =>
    obtain ⟨a, v⟩ := y
    obtain ⟨-, x, hx, -, hrest⟩ := hl
    intro b hb
    rcases List.mem_cons.mp hb with rfl | hb
    · exact lt_fresh_of_get hx
    · exact ih hrest b hb

theorem Leads.head (hl : h.Leads next val p c) : p = (c.map Prod.fst).head? := by
  cases c with
  | nil => exact hl
  | cons y c => exact hl.1

theorem Leads.get_last {t : Nat} {v : β} (hl : h.Leads next val p (c ++ [(t, v)])) :
    ∃ x, h.get t = some x ∧ val x = v := by
  induction c generalizing p with
  | nil =>
    obtain ⟨-, x, hx, hv, -⟩ := hl
    exact ⟨x, hx, hv⟩
  | cons y c ih =>
    obtain ⟨-, x, -, -, hrest⟩ := hl
    exact ih hrest

/-- Another list hung onto the last cell, whose value stays. -/
theorem Leads.append {t : Nat} {v : β} {q : Option Nat} {d : List (Nat × β)}
    (hl : h.Leads next val p (c ++ [(t, v)])) (hnodup : ((c ++ [(t, v)]).map Prod.fst).Nodup)
    (hsame : ∀ a ∈ c.map Prod.fst, h'.get a = h.get a)
    (hlast : ∃ x, h'.get t = some x ∧ val x = v ∧ next x = q) (hd : h'.Leads next val q d) :
    h'.Leads next val p (c ++ (t, v) :: d) := by
  induction c generalizing p with
  | nil =>
    obtain ⟨x, hx, hv, rfl⟩ := hlast
    exact ⟨hl.1, x, hx, hv, hd⟩
  | cons y c ih =>
    obtain ⟨a, w⟩ := y
    obtain ⟨hp, x, hx, hw, hrest⟩ := hl
    refine ⟨hp, x, (hsame a (by simp)).trans hx, hw, ?_⟩
    exact ih hrest (List.nodup_cons.mp hnodup).2 fun b hb => hsame b (by simp_all)

end Leads

end Heap

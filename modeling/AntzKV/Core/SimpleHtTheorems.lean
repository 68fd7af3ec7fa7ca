/-
AntzKV.Core.SimpleHtTheorems — the chained hash table is a finite map.

`Holds` ties a table to the map from keys to optional values that it
stands for: `ChainedTable.Represents`, the count, and a bound on the load
that ends the recursion. A resize starts from an empty table of twice the
size, and the nodes of the old one are at most half of its buckets, so no
nested `ht_add` resizes again (`foldlM_addNode`). `run_refines` puts the
operations together over whole runs.
-/
import AntzKV.Core.SimpleHt
import AntzKV.Lib.ChainedTable
import AntzKV.Lib.Run

namespace AntzKV

open ChainedTable (Represents home)

/-- What a table is for: keys to values, NULL for a set member. -/
abbrev HtMap := CStr → Option (Option CStr)

/-- The calls that change a table. -/
inductive HtOp where
  | add (key : CStr) (val : Option CStr) (replace : Bool)
  | remove (key : CStr)

namespace SimpleHt

/-- A call with its return value. -/
def apply (ht : SimpleHt) : HtOp → SimpleHt × Bool
  | .add key val replace => ht.htAdd key val replace
  | .remove key => ht.htRemove key

/-- The table after a sequence of calls. -/
def run (ops : List HtOp) : SimpleHt := ops.foldl (fun ht op => (ht.apply op).1) htCreate

end SimpleHt

/-- What a call is for. -/
def HtOp.onMap (m : HtMap) : HtOp → HtMap × Bool
  | .add key val replace =>
    if m key = none then (Function.update m key (some val), true)
    else if replace then (Function.update m key (some val), false)
    else (m, false)
  | .remove key => (Function.update m key none, (m key).isSome)

def mapRun (ops : List HtOp) : HtMap := ops.foldl (fun m op => (op.onMap m).1) fun _ => none

namespace SimpleHt

/-- The table stands for the map `m`. -/
structure Holds (ht : SimpleHt) (m : HtMap) : Prop where
  table : Represents (fun k => (fnv1a k).toNat) ht.buckets m
  count : ht.count = ht.buckets.flatten.length
  load : ht.count ≤ ht.cap
  wide : 4 ≤ ht.cap

variable {ht : SimpleHt} {m : HtMap}

theorem Holds.htFind (h : ht.Holds m) (key : CStr) :
    ht.htFind key = (m key).map fun v => (key, v) := by
  have hfind := h.table.find? key
  simp only [SimpleHt.htFind, bucket, strcmp_eq_eq]
  exact hfind

theorem holds_replicate {n : Nat} (hn : 4 ≤ n) :
    Holds { buckets := List.replicate n [], count := 0 } fun _ => none := by
  refine ⟨ChainedTable.represents_replicate _ (by omega), by simp, Nat.zero_le _, ?_⟩
  simpa [cap] using hn

/-! ## One node -/

@[simp] theorem cap_addNode (ht : SimpleHt) (key : CStr) (val : Option CStr) (replace : Bool) :
    (ht.addNode key val replace).1.cap = ht.cap := by
  unfold addNode
  split
  · split <;> simp [cap, modifyBucket]
  · simp [cap, modifyBucket]

/-- Behind the resize, `ht_add` is the update of the map. -/
theorem Holds.addNode (h : ht.Holds m) (hroom : ht.count < ht.cap) (key : CStr)
    (val : Option CStr) (replace : Bool) :
    (ht.addNode key val replace).1.Holds ((HtOp.add key val replace).onMap m).1 ∧
      (ht.addNode key val replace).2 = ((HtOp.add key val replace).onMap m).2 := by
  cases hm : m key with
  | none =>
    have hfind : ht.htFind key = none := by rw [h.htFind, hm]; rfl
    obtain ⟨htable, hlen⟩ := h.table.insert hm val
    simp only [SimpleHt.addNode, hfind, HtOp.onMap, hm, if_true]
    refine ⟨⟨htable, ?_, ?_, ?_⟩, trivial⟩
    · show ht.count + 1 = _
      rw [h.count]
      exact hlen.symm
    · simpa [cap, modifyBucket] using hroom
    · simpa [cap, modifyBucket] using h.wide
  | some w =>
    have hfind : ht.htFind key = some (key, w) := by rw [h.htFind, hm]; rfl
    obtain ⟨htable, hlen⟩ := h.table.replace (by rw [hm]; exact Option.some_ne_none w) val
    cases replace with
    | false =>
      simp only [SimpleHt.addNode, hfind, HtOp.onMap, hm, reduceCtorEq, if_false, Bool.false_eq_true]
      exact ⟨h, trivial⟩
    | true =>
      simp only [SimpleHt.addNode, hfind, HtOp.onMap, hm, reduceCtorEq, if_false, if_true,
        strcmp_eq_eq]
      refine ⟨⟨htable, ?_, ?_, ?_⟩, trivial⟩
      · show ht.count = _
        rw [h.count]
        exact hlen.symm
      · simpa [cap, modifyBucket] using h.load
      · simpa [cap, modifyBucket] using h.wide

/-! ## The resize and its nested calls -/

/-- A table that is not loaded is handed through. -/
theorem htAddDepth_of_light (depth : Nat) (hlight : 4 * ht.count < 3 * ht.cap) (key : CStr)
    (val : Option CStr) (replace : Bool) :
    htAddDepth (depth + 1) ht key val replace = some (ht.addNode key val replace) := by
  simp [htAddDepth, htResize, hlight]

/-- Nodes put into a table one by one, with no resize between. -/
def addNodes (new : SimpleHt) (nodes : List ShtNode) : SimpleHt :=
  nodes.foldl (fun new n => (new.addNode n.1 n.2 false).1) new

/-- Rehashing: nodes with new keys go in one by one, and none of the calls
resizes. -/
theorem foldlM_addNode (depth : Nat) (nodes : List ShtNode) (new : SimpleHt) (m : HtMap)
    (h : new.Holds m) (hnodup : (nodes.map Prod.fst).Nodup)
    (hnew : ∀ n ∈ nodes, m n.1 = none) (hroom : 2 * (new.count + nodes.length) ≤ new.cap) :
    nodes.foldlM (fun new n => (htAddDepth (depth + 1) new n.1 n.2 false).map (·.1)) new
        = some (new.addNodes nodes) ∧
      (new.addNodes nodes).count = new.count + nodes.length ∧
      (new.addNodes nodes).cap = new.cap ∧
      ∃ m', (new.addNodes nodes).Holds m' ∧
        ∀ k v, m' k = some v ↔ m k = some v ∨ (k, v) ∈ nodes := by
  induction nodes generalizing new m with
  | nil => exact ⟨rfl, rfl, rfl, m, h, by simp⟩
  | cons n nodes ih =>
    have hwide := h.wide
    rw [List.length_cons] at hroom
    rw [List.map_cons, List.nodup_cons] at hnodup
    have hnone : m n.1 = none := hnew n (by simp)
    obtain ⟨hadd, -⟩ := h.addNode (by omega) n.1 n.2 false
    simp only [HtOp.onMap, hnone, if_true] at hadd
    have hcount : (new.addNode n.1 n.2 false).1.count = new.count + 1 := by
      have hfind : new.htFind n.1 = none := by rw [h.htFind, hnone]; rfl
      simp [SimpleHt.addNode, hfind]
    have hnew' : ∀ n' ∈ nodes, Function.update m n.1 (some n.2) n'.1 = none := by
      intro n' hn'
      have hne : n'.1 ≠ n.1 := by
        intro heq
        exact hnodup.1 (List.mem_map.mpr ⟨n', hn', heq⟩)
      rw [Function.update_of_ne hne]
      exact hnew n' (by simp [hn'])
    obtain ⟨hfold, hcnt, hcap, m', hholds, hentries⟩ :=
      ih _ _ hadd hnodup.2 hnew' (by rw [hcount, cap_addNode]; omega)
    refine ⟨?_, ?_, ?_, m', hholds, ?_⟩
    · rw [List.foldlM_cons, htAddDepth_of_light depth (by omega)]
      exact hfold
    · show ((new.addNode n.1 n.2 false).1.addNodes nodes).count = _
      rw [hcnt, hcount, List.length_cons]
      omega
    · show ((new.addNode n.1 n.2 false).1.addNodes nodes).cap = _
      rw [hcap, cap_addNode]
    · intro k v
      rw [hentries, List.mem_cons]
      by_cases hk : k = n.1
      · subst hk
        rw [Function.update_self, hnone]
        constructor
        · rintro (hv | hin)
          · exact Or.inr (Or.inl (by rw [← Option.some.inj hv]))
          · exact Or.inr (Or.inr hin)
        · rintro (hv | heq | hin)
          · cases hv
          · exact Or.inl (by rw [← heq])
          · exact Or.inr hin
      · rw [Function.update_of_ne hk]
        have hne : (k, v) ≠ n := fun heq => hk (by rw [← heq])
        simp only [hne, false_or]

/-- What `ht_resize` leaves. -/
def resized (ht : SimpleHt) : SimpleHt :=
  if 4 * ht.count < 3 * ht.cap then ht
  else addNodes { buckets := List.replicate (2 * ht.cap) [], count := 0 } ht.buckets.flatten

/-- `ht_resize` keeps the map and leaves room for a node. -/
theorem Holds.htResize (h : ht.Holds m) (depth : Nat) :
    SimpleHt.htResize (fun new k v => (htAddDepth (depth + 1) new k v false).map (·.1)) ht
        = some ht.resized ∧ ht.resized.Holds m ∧ ht.resized.count < ht.resized.cap := by
  have hwide := h.wide
  have hload := h.load
  unfold SimpleHt.htResize resized
  by_cases hlight : 4 * ht.count < 3 * ht.cap
  · simp only [if_pos hlight]
    exact ⟨trivial, h, by omega⟩
  · simp only [if_neg hlight]
    have hstart : Holds { buckets := List.replicate (2 * ht.cap) [], count := 0 } fun _ => none :=
      holds_replicate (by omega)
    have hcap₀ : SimpleHt.cap { buckets := List.replicate (2 * ht.cap) [], count := 0 }
        = 2 * ht.cap := List.length_replicate
    obtain ⟨hfold, hcount, hcap, m', hholds, hentries⟩ :=
      foldlM_addNode depth ht.buckets.flatten _ _ hstart h.table.nodup (fun _ _ => rfl) (by
        rw [← h.count, hcap₀]
        show 2 * (0 + ht.count) ≤ 2 * ht.cap
        omega)
    have hm : m' = m := by
      funext k
      ext v
      rw [hentries, ← h.table.entries]
      simp
    refine ⟨hfold, hm ▸ hholds, ?_⟩
    rw [hcount, hcap, ← h.count, hcap₀]
    show 0 + ht.count < 2 * ht.cap
    omega

/-- `ht_add` ends, two levels deep, with the update of the map. -/
theorem Holds.htAdd (h : ht.Holds m) (key : CStr) (val : Option CStr) (replace : Bool) :
    (∀ depth, htAddDepth (depth + 2) ht key val replace = some (ht.htAdd key val replace)) ∧
      (ht.htAdd key val replace).1.Holds ((HtOp.add key val replace).onMap m).1 ∧
      (ht.htAdd key val replace).2 = ((HtOp.add key val replace).onMap m).2 := by
  have hdepth : ∀ depth, htAddDepth (depth + 2) ht key val replace
      = some (ht.resized.addNode key val replace) := by
    intro depth
    rw [htAddDepth, (h.htResize depth).1]
    rfl
  have hadd : ht.htAdd key val replace = ht.resized.addNode key val replace := by
    rw [SimpleHt.htAdd, hdepth 0]
    rfl
  obtain ⟨-, hholds, hroom⟩ := h.htResize 0
  refine ⟨fun depth => by rw [hdepth, hadd], ?_⟩
  rw [hadd]
  exact hholds.addNode hroom key val replace

theorem Holds.htRemove (h : ht.Holds m) (key : CStr) :
    (ht.htRemove key).1.Holds (Function.update m key none) ∧
      (ht.htRemove key).2 = (m key).isSome := by
  cases hm : m key with
  | none =>
    have hfind : ht.htFind key = none := by rw [h.htFind, hm]; rfl
    have hsame : Function.update m key none = m := by rw [← hm, Function.update_eq_self]
    simp only [SimpleHt.htRemove, hfind, hsame]
    exact ⟨h, rfl⟩
  | some v =>
    have hfind : ht.htFind key = some (key, v) := by rw [h.htFind, hm]; rfl
    obtain ⟨htable, hlen⟩ := h.table.erase (by rw [hm]; exact Option.some_ne_none v)
    simp only [SimpleHt.htRemove, hfind, strcmp_eq_eq]
    have hcount := h.count
    have hload := h.load
    refine ⟨⟨htable, ?_, ?_, ?_⟩, rfl⟩
    · show ht.count - 1 = (ht.buckets.set _ _).flatten.length
      rw [hcount, ← hlen]
      rfl
    · simp only [cap, modifyBucket, List.length_set] at hload ⊢
      omega
    · simpa [cap, modifyBucket] using h.wide

/-! ## Runs -/

theorem Holds.apply (h : ht.Holds m) (op : HtOp) :
    (ht.apply op).1.Holds (op.onMap m).1 ∧ (ht.apply op).2 = (op.onMap m).2 := by
  cases op with
  | add key val replace => exact (h.htAdd key val replace).2
  | remove key => exact h.htRemove key

theorem holds_run (ops : List HtOp) : (run ops).Holds (mapRun ops) := by
  induction ops using List.reverseRecOn with
  | nil => exact holds_replicate (by decide)
  | append_singleton ops op ih =>
    have hstep := (ih.apply op).1
    rw [run, mapRun, List.foldl_append, List.foldl_append]
    exact hstep

/-- The enumeration is not cut: `count` is the number of nodes. -/
theorem Holds.entries_eq (h : ht.Holds m) : ht.entries = ht.buckets.flatten := by
  rw [entries, h.count, List.take_length]

/-- **The chained hash table refines a finite map**, over every sequence
of calls: what a call returns, what the reads answer, where the nodes
stand, what the two enumerations list, and that `ht_add` always ends. -/
theorem run_refines (ops : List HtOp) :
    let ht := run ops
    let m := mapRun ops
    (∀ op, (ht.apply op).2 = (op.onMap m).2) ∧
    (∀ key, ht.htExists key = (m key).isSome ∧ ht.htGet key = (m key).join) ∧
    (∀ i b, ht.buckets[i]? = some b → ∀ n ∈ b, (fnv1a n.1).toNat % ht.cap = i) ∧
    (ht.buckets.flatten.map Prod.fst).Nodup ∧
    ht.count = ht.buckets.flatten.length ∧
    (∃ es : List ShtNode, (es.map Prod.fst).Nodup ∧ (∀ k v, (k, v) ∈ es ↔ m k = some v) ∧
      ht.htKeys = es.map Prod.fst ∧ ht.htItems = es.map fun n => n.2.getD (CStr.lit "")) ∧
    (∀ key val replace depth,
      htAddDepth (depth + 2) ht key val replace = some (ht.htAdd key val replace)) := by
  intro ht m
  have h : ht.Holds m := holds_run ops
  refine ⟨fun op => (h.apply op).2, ?_, h.table.homed, h.table.nodup, h.count, ?_, ?_⟩
  · intro key
    rw [htExists, htGet, h.htFind]
    cases m key with
    | none => exact ⟨rfl, rfl⟩
    | some v => exact ⟨rfl, rfl⟩
  · refine ⟨ht.buckets.flatten, h.table.nodup, h.table.entries, ?_, ?_⟩
    · rw [htKeys, h.entries_eq]
    · rw [htItems, h.entries_eq]
  · intro key val replace depth
    exact (h.htAdd key val replace).1 depth

end SimpleHt

end AntzKV

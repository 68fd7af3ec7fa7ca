/-
AntzKV.Core.RankRangeTheorems — ranks and ranges of the sorted sets.

`nodesOf` is the level-0 sequence as a list of nodes. `Repr` says that the
forward pointers visit it from the front and the backward pointers from
the tail; a rank counts the nodes of a beginning of it, a range takes a
piece out of it. `kvZrangeOut_eq` is about the loops with their arrays,
and `rankRangeAgree` puts ranks and ranges together: what stands at the
rank of a member is the member, because the sequence is sorted.
-/
import AntzKV.Core.OutArray
import AntzKV.Core.SoundTheorems
import AntzKV.Lib.IndexSlice

namespace AntzKV

open LinkedHeap (Ref IsChain)
open IndexSlice (slice fromFront)

variable {S : Type}

/-! ## Loops along the nodes -/

namespace Zskiplist

/-- From the pointer `p` on, the rounds `i`, `i + 1`, … meet the nodes `c`. -/
def Meets (z : Zskiplist S) (next : Int → ZskiplistNode S → Option Nat) :
    Int → Option Nat → List (ZskiplistNode S) → Prop
  | _, p, [] => p = none
  | i, p, x :: c => (∃ a, p = some a ∧ z.nodes.get a = some x) ∧ Meets z next (i + 1) (next i x) c

variable {z : Zskiplist S}

theorem meets_of_visits {next : ZskiplistNode S → Option Nat} {p : Option Nat}
    {c : List (ZskiplistNode S)} (h : z.nodes.Visits next p c) (i : Int) :
    z.Meets (fun _ => next) i p c := by
  induction c generalizing p i with
  | nil => exact h
  | cons x c ih => exact ⟨h.1, ih h.2 (i + 1)⟩

/-- A walk that is stopped after the last node anyway. -/
theorem meets_of_visits_stop {next : ZskiplistNode S → Option Nat} {p : Option Nat}
    {c : List (ZskiplistNode S)} (h : z.nodes.Visits next p c) {i last : Int}
    (hlast : i + c.length = last + 1) :
    z.Meets (fun i x => if i < last then next x else none) i p c := by
  induction c generalizing p i with
  | nil => exact h
  | cons x c ih =>
    refine ⟨h.1, ?_⟩
    rw [List.length_cons, Nat.cast_succ] at hlast
    have hrest := ih h.2 (i := i + 1) (by omega)
    show z.Meets _ (i + 1) (if i < last then next x else none) c
    by_cases hi : i < last
    · rwa [if_pos hi]
    · rw [if_neg hi]
      obtain rfl : c = [] := List.eq_nil_of_length_eq_zero (by omega)
      rfl

/-- The loop of a range writes the members it is after and nothing else. -/
theorem rangeLoop_eq {next : Int → ZskiplistNode S → Option Nat} (start : Int) (n : Nat)
    {fuel : Nat} {p : Option Nat} {c : List (ZskiplistNode S)} {i : Int} (h : z.Meets next i p c)
    (hfuel : c.length ≤ fuel) {l : List CStr} (hl : l.length ≤ n) :
    z.rangeLoop next start n fuel p i (.partly n l) = some (.partly n
      (l ++ ((c.drop (start - i).toNat).take (n - l.length)).map (·.member))) := by
  induction c generalizing fuel p i l with
  | nil =>
    obtain rfl : p = none := h
    simp [rangeLoop]
  | cons x c ih =>
    obtain ⟨⟨a, rfl, hx⟩, hrest⟩ := h
    cases fuel with
    | zero => exact absurd hfuel (by simp)
    | succ fuel =>
      have hfuel' : c.length ≤ fuel := by simpa using hfuel
      have hcount : (OutArray.partly n l).count = l.length := rfl
      rw [rangeLoop, hcount]
      by_cases hn : l.length < n
      · rw [if_pos hn, hx, Option.bind_some]
        by_cases hi : i ≥ start
        · have hskip : (start - i).toNat = 0 := by omega
          have hskip' : (start - (i + 1)).toNat = 0 := by omega
          obtain ⟨k, hk⟩ : ∃ k, n - l.length = k + 1 := ⟨n - l.length - 1, by omega⟩
          have hk' : n - (l ++ [x.member]).length = k := by
            rw [List.length_append, List.length_singleton]
            omega
          rw [if_pos hi, OutArray.push_partly hn, Option.bind_some,
            ih hrest hfuel' (by rw [List.length_append, List.length_singleton]; omega), hskip,
            hskip', hk, hk']
          simp
        · obtain ⟨k, hk⟩ : ∃ k, (start - i).toNat = k + 1 := ⟨(start - i - 1).toNat, by omega⟩
          have hk' : (start - (i + 1)).toNat = k := by omega
          rw [if_neg hi, Option.bind_some, ih hrest hfuel' hl, hk, hk', List.drop_succ_cons]
      · have hzero : n - l.length = 0 := by omega
        rw [if_neg hn, hzero]
        simp

theorem walkRange_eq {next : ZskiplistNode S → Option Nat} {fuel : Nat} {p : Option Nat}
    {c : List (ZskiplistNode S)} (h : z.nodes.Visits next p c) (hfuel : c.length ≤ fuel)
    (skip left : Nat) :
    z.walkRange next fuel p skip left = ((c.drop skip).take left).map (·.member) := by
  induction c generalizing fuel p skip left with
  | nil =>
    obtain rfl : p = none := h
    cases fuel <;> simp [walkRange]
  | cons x c ih =>
    obtain ⟨⟨a, rfl, hx⟩, hrest⟩ := h
    cases fuel with
    | zero => exact absurd hfuel (by simp)
    | succ fuel =>
      have hfuel' : c.length ≤ fuel := by simpa using hfuel
      cases left with
      | zero => simp [walkRange]
      | succ left =>
        cases skip with
        | zero => simp [walkRange, hx, ih hrest hfuel']
        | succ skip => simp [walkRange, hx, ih hrest hfuel']

theorem walkRank_eq {p : ZskiplistNode S → Bool} {next : ZskiplistNode S → Option Nat} {fuel : Nat}
    {start : Option Nat} {c : List (ZskiplistNode S)} (h : z.nodes.Visits next start c)
    (hfuel : c.length ≤ fuel) : z.walkRank p next fuel start = (c.takeWhile p).length := by
  induction c generalizing fuel start with
  | nil =>
    obtain rfl : start = none := h
    cases fuel <;> rfl
  | cons x c ih =>
    obtain ⟨⟨a, rfl, hx⟩, hrest⟩ := h
    cases fuel with
    | zero => exact absurd hfuel (by simp)
    | succ fuel =>
      rw [walkRank, hx]
      cases hp : p x with
      | true => simp [hp, ih hrest (by simpa using hfuel)]
      | false => simp [hp]

/-! ## The level-0 sequence -/

/-- The nodes at the addresses `L`. -/
def nodesOf (z : Zskiplist S) (L : List Nat) : List (ZskiplistNode S) := L.filterMap z.nodes.get

/-- The node after another on level 0. -/
def forward0 (n : ZskiplistNode S) : Option Nat := n.forward.getD 0 none

variable [LinearOrder S] {L : List Nat}

theorem Repr.elements_eq_nodesOf (h : Repr z L) :
    z.elements = (z.nodesOf L).map fun n => (n.member, n.score, n.level) := by
  rw [h.elements_eq, nodesOf, List.map_filterMap]
  refine List.filterMap_congr fun a _ => ?_
  rw [elementAt, infoAt, Option.map_map]
  rfl

theorem Repr.length_nodesOf (h : Repr z L) : (z.nodesOf L).length = z.length := by
  rw [← h.length_elements, h.elements_eq_nodesOf, List.length_map]

theorem Repr.length_nodesOf_le (h : Repr z L) : (z.nodesOf L).length ≤ z.nodes.fresh := by
  rw [h.length_nodesOf, h.length]
  exact h.length_le_fresh

theorem Repr.sorted_nodesOf (h : Repr z L) :
    (z.nodesOf L).Pairwise fun a b => a.key ≤ b.key := by
  have hsorted := h.sorted
  have hkeys : L.filterMap z.keyAt = (z.nodesOf L).map ZskiplistNode.key := by
    rw [nodesOf, List.map_filterMap]
    refine List.filterMap_congr fun a _ => ?_
    rw [keyAt, infoAt, Option.map_map]
    rfl
  rwa [hkeys, List.pairwise_map] at hsorted

theorem Repr.visits_forward (h : Repr z L) :
    z.nodes.Visits forward0 (z.fwd .root 0) (z.nodesOf L) := by
  have hc := h.chain 0 (by simp [zskiplistMaxlevel])
  rw [h.onLevel_zero (List.Subset.refl L)] at hc
  refine Heap.visits_of_isChain hc fun a ha => ?_
  obtain ⟨n, hn, -⟩ := h.node a ha
  exact ⟨n, hn, by simp [forward0, fwd, hn]⟩

/-- The link from the tail, or of a node, to the node before. -/
def backLink (z : Zskiplist S) : Ref Nat → Option Nat
  | .root => z.tail
  | .node a => z.backwardAt a

theorem Repr.isChain_backLink (h : Repr z L) (A : List Nat) :
    ∀ B r, L = A ++ B → z.backLink r = A.getLast? → IsChain z.backLink r A.reverse := by
  induction A using List.reverseRecOn with
  | nil => exact fun _ _ _ hr => hr
  | append_singleton A a ih =>
    intro B r hL hr
    rw [List.reverse_append, List.reverse_singleton, List.singleton_append]
    rw [List.getLast?_concat] at hr
    refine ⟨hr, ih (a :: B) (.node a) (by simp [hL]) ?_⟩
    exact h.backward A a B (by simp [hL])

theorem Repr.visits_backward (h : Repr z L) :
    z.nodes.Visits (·.backward) z.tail (z.nodesOf L).reverse := by
  have hc := h.isChain_backLink L [] .root (by simp) h.tail
  rw [nodesOf, ← List.filterMap_reverse]
  refine Heap.visits_of_isChain hc fun a ha => ?_
  obtain ⟨n, hn, -⟩ := h.node a (List.mem_reverse.mp ha)
  exact ⟨n, hn, by simp [backLink, backwardAt, hn]⟩

/-! ## Ranges of a skip list -/

omit [LinearOrder S] in
/-- The bounds of a range, counted from the front and clamped. -/
theorem rangeBounds_eq (z : Zskiplist S) (start stop : Int) :
    z.rangeBounds start stop
      = if max (fromFront z.length start) 0 > min (fromFront z.length stop) (z.length - 1) then none
        else some ((max (fromFront z.length start) 0).toNat,
          (min (fromFront z.length stop) (z.length - 1) - max (fromFront z.length start) 0 + 1).toNat)
    := by
  have hlow : ∀ a : Int, (if a < 0 then 0 else a) = max a 0 := by
    intro a
    split <;> omega
  have hhigh : ∀ a : Int, (if a ≥ z.length then (z.length : Int) - 1 else a)
      = min a (z.length - 1) := by
    intro a
    split <;> omega
  simp only [rangeBounds, hlow, hhigh]
  rfl

omit [LinearOrder S] in
/-- They cut the piece out that `slice` describes. -/
theorem rangeBounds_elim {α : Type} {l : List α} (hl : l.length = z.length) (start stop : Int) :
    (z.rangeBounds start stop).elim [] (fun b => (l.drop b.1).take b.2) = slice l start stop := by
  rw [IndexSlice.slice_eq, hl, rangeBounds_eq]
  generalize fromFront z.length start = s
  generalize fromFront z.length stop = t
  have hskip : (max s 0).toNat = s.toNat := by omega
  split
  · rename_i hempty
    by_cases ht : t < max s 0
    · have hnone : (t + 1 - max s 0).toNat = 0 := by omega
      simp [hnone]
    · have hdrop : l.length ≤ s.toNat := by omega
      simp [List.drop_eq_nil_of_le hdrop]
  · rw [Option.elim_some, hskip]
    by_cases ht : t < z.length
    · have hlen : (min t (z.length - 1) - max s 0 + 1).toNat = (t + 1 - max s 0).toNat := by omega
      rw [hlen]
    · -- both take all that is left
      rw [List.take_of_length_le (by rw [List.length_drop]; omega),
        List.take_of_length_le (by rw [List.length_drop]; omega)]

omit [LinearOrder S] in
/-- The array a range allocates is as long as the piece. -/
theorem length_of_rangeBounds {α : Type} {l : List α} (hl : l.length = z.length) {start stop : Int}
    {skip n : Nat} (h : z.rangeBounds start stop = some (skip, n)) :
    ((l.drop skip).take n).length = n := by
  rw [rangeBounds_eq] at h
  split at h
  · cases h
  · obtain ⟨rfl, rfl⟩ := Prod.mk.inj (Option.some.inj h)
    rw [List.length_take, List.length_drop]
    omega

end Zskiplist

/-! ## The commands -/

namespace KvTable

open Zskiplist (nodesOf forward0)

/-- The members of a sorted set in the order of level 0. -/
def zsetMembers (db : KvTable S) (key : CStr) : List CStr := (db.zsetElements key).map (·.1)

variable {db : KvTable S} {key : CStr} {z : Zskiplist S} {c : List (ZskiplistNode S)}

/-- A range over the nodes `c`: no write outside its array, which is full
in the end. -/
theorem rangeOut_eq {first : Zskiplist S → Option Nat}
    {next : Zskiplist S → Int → ZskiplistNode S → Option Nat}
    (hz : db.wrObj DbObject.zset? key = some z) (hmeets : z.Meets (next z) 0 (first z) c)
    (hlen : c.length = z.length) (hfresh : c.length ≤ z.nodes.fresh) (start stop : Int) :
    db.rangeOut first next key start stop
      = some (.ofList (slice (c.map (·.member)) start stop)) := by
  have hlen' : (c.map (·.member)).length = z.length := by rw [List.length_map, hlen]
  have hslice := z.rangeBounds_elim hlen' start stop
  unfold rangeOut
  cases hb : z.rangeBounds start stop with
  | none =>
    rw [hb, Option.elim_none] at hslice
    simp only [hz, hb]
    rw [← hslice]
    rfl
  | some b =>
    obtain ⟨skip, n⟩ := b
    have hn := z.length_of_rangeBounds hlen' hb
    have hloop := z.rangeLoop_eq skip n hmeets hfresh (l := []) (Nat.zero_le n)
    rw [hb, Option.elim_some] at hslice
    simp only [hz, hb]
    rw [OutArray.malloc_eq, hloop, ← hslice, ← OutArray.partly_full hn]
    simp [List.map_take, List.map_drop]

variable [LinearOrder S]

/-- The members are those of the nodes `Repr` speaks of. -/
theorem zsetMembers_eq (hz : db.wrObj DbObject.zset? key = some z) {L : List Nat}
    (hr : Zskiplist.Repr z L) : db.zsetMembers key = (z.nodesOf L).map (·.member) := by
  rw [zsetMembers, zsetElements, hz, Option.elim_some, hr.elements_eq_nodesOf, List.map_map]
  rfl

omit [LinearOrder S] in
theorem zsetMembers_of_none (hz : db.wrObj DbObject.zset? key = none) : db.zsetMembers key = [] := by
  rw [zsetMembers, zsetElements, hz]
  rfl

theorem Sound.kvZrangeOut_eq (h : db.Sound) (key : CStr) (start stop : Int) :
    db.kvZrangeOut key start stop = some (.ofList (slice (db.zsetMembers key) start stop)) := by
  cases hz : db.wrObj DbObject.zset? key with
  | none =>
    rw [kvZrangeOut, rangeOut, hz, zsetMembers_of_none hz]
    rfl
  | some z =>
    obtain ⟨L, hr⟩ := h.zset hz
    rw [zsetMembers_eq hz hr]
    exact rangeOut_eq hz (Zskiplist.meets_of_visits hr.visits_forward 0) hr.length_nodesOf
      hr.length_nodesOf_le start stop

theorem Sound.kvZrevrangeOut_eq (h : db.Sound) (key : CStr) (start stop : Int) :
    db.kvZrevrangeOut key start stop
      = some (.ofList (slice (db.zsetMembers key).reverse start stop)) := by
  cases hz : db.wrObj DbObject.zset? key with
  | none =>
    rw [kvZrevrangeOut, rangeOut, hz, zsetMembers_of_none hz]
    rfl
  | some z =>
    obtain ⟨L, hr⟩ := h.zset hz
    have hlen : (z.nodesOf L).reverse.length = z.length := by
      rw [List.length_reverse, hr.length_nodesOf]
    have hfresh : (z.nodesOf L).reverse.length ≤ z.nodes.fresh := by
      rw [List.length_reverse]
      exact hr.length_nodesOf_le
    rw [zsetMembers_eq hz hr, ← List.map_reverse]
    refine rangeOut_eq hz (Zskiplist.meets_of_visits_stop hr.visits_backward ?_) hlen hfresh start stop
    rw [hlen]
    omega

omit [LinearOrder S] in
theorem kvZrange_of_some (hz : db.wrObj DbObject.zset? key = some z) (start stop : Int) :
    db.kvZrange key start stop = (z.rangeBounds start stop).elim [] fun b =>
      z.walkRange forward0 z.nodes.fresh (z.fwd .root 0) b.1 b.2 := by
  simp only [kvZrange, hz]
  cases z.rangeBounds start stop <;> rfl

omit [LinearOrder S] in
theorem kvZrevrange_of_some (hz : db.wrObj DbObject.zset? key = some z) (start stop : Int) :
    db.kvZrevrange key start stop = (z.rangeBounds start stop).elim [] fun b =>
      z.walkRange (·.backward) z.length z.tail b.1 b.2 := by
  simp only [kvZrevrange, hz]
  cases z.rangeBounds start stop <;> rfl

/-- The lists of `AntzKV.Core.Reads` are what the loops write. -/
theorem Sound.kvZrange_eq (h : db.Sound) (key : CStr) (start stop : Int) :
    db.kvZrange key start stop = slice (db.zsetMembers key) start stop := by
  cases hz : db.wrObj DbObject.zset? key with
  | none =>
    rw [zsetMembers_of_none hz, kvZrange, hz]
    rfl
  | some z =>
    obtain ⟨L, hr⟩ := h.zset hz
    have hlen : ((z.nodesOf L).map (·.member)).length = z.length := by
      rw [List.length_map, hr.length_nodesOf]
    rw [zsetMembers_eq hz hr, ← z.rangeBounds_elim hlen, kvZrange_of_some hz]
    congr 1
    funext b
    rw [← List.map_drop, ← List.map_take]
    exact Zskiplist.walkRange_eq hr.visits_forward hr.length_nodesOf_le b.1 b.2

theorem Sound.kvZrevrange_eq (h : db.Sound) (key : CStr) (start stop : Int) :
    db.kvZrevrange key start stop = slice (db.zsetMembers key).reverse start stop := by
  cases hz : db.wrObj DbObject.zset? key with
  | none =>
    rw [zsetMembers_of_none hz, kvZrevrange, hz]
    rfl
  | some z =>
    obtain ⟨L, hr⟩ := h.zset hz
    have hlen : (z.nodesOf L).reverse.length = z.length := by
      rw [List.length_reverse, hr.length_nodesOf]
    have hlen' : ((z.nodesOf L).reverse.map (·.member)).length = z.length := by
      rw [List.length_map, hlen]
    rw [zsetMembers_eq hz hr, ← List.map_reverse, ← z.rangeBounds_elim hlen',
      kvZrevrange_of_some hz]
    congr 1
    funext b
    rw [← List.map_drop, ← List.map_take]
    exact Zskiplist.walkRange_eq hr.visits_backward hlen.le b.1 b.2

/-- **Ranges.** In every reachable table the array of `kv_zrange` has the
members of the level-0 sequence at the positions asked for, and the one of
`kv_zrevrange` those of the reverse: every entry is written, `*count` is
their number, and nothing is written outside. -/
theorem ranges_are_slices (path : Option CStr) (file : Option (List UInt8)) (ops : List (SoundOp S))
    (key : CStr) (start stop : Int) :
    (soundRun path file ops).kvZrangeOut key start stop
        = some (.ofList (slice ((soundRun path file ops).zsetMembers key) start stop)) ∧
      (soundRun path file ops).kvZrevrangeOut key start stop
        = some (.ofList (slice ((soundRun path file ops).zsetMembers key).reverse start stop)) :=
  ⟨(Sound.soundRun path file ops).kvZrangeOut_eq key start stop,
    (Sound.soundRun path file ops).kvZrevrangeOut_eq key start stop⟩

/-! ## Ranks -/

/-- What `zsl_rank` counts are the nodes with lower keys. -/
theorem zslRank_eq {L : List Nat} (hr : Zskiplist.Repr z L) (n : ZskiplistNode S) :
    z.zslRank n.score n.member = ((z.nodesOf L).takeWhile fun a => a.key < n.key).length := by
  rw [Zskiplist.zslRank]
  refine (Zskiplist.walkRank_eq hr.visits_forward hr.length_nodesOf_le).trans ?_
  congr 2
  funext a
  rw [Bool.eq_iff_iff]
  simp [ZskiplistNode.key, Prod.Lex.toLex_lt_toLex]

theorem zslRevrank_eq {L : List Nat} (hr : Zskiplist.Repr z L) (n : ZskiplistNode S) :
    z.zslRevrank n.score n.member
      = ((z.nodesOf L).reverse.takeWhile fun a => n.key < a.key).length := by
  rw [Zskiplist.zslRevrank]
  refine (Zskiplist.walkRank_eq hr.visits_backward ?_).trans ?_
  · rw [List.length_reverse]
    exact hr.length_nodesOf_le
  · congr 2
    funext a
    rw [Bool.eq_iff_iff]
    simp [ZskiplistNode.key, Prod.Lex.toLex_lt_toLex, eq_comm (a := n.score)]

/-- The score of a member is that of one of its nodes. -/
theorem scoreOf_of_mem {L : List Nat} (hr : Zskiplist.Repr z L) {member : CStr}
    (hm : member ∈ (z.nodesOf L).map (·.member)) :
    ∃ n ∈ z.nodesOf L, n.member = member ∧ z.scoreOf member = some n.score := by
  rw [z.scoreOf_eq, hr.elements_eq_nodesOf, List.find?_map]
  cases hf : (z.nodesOf L).find? ((fun x => decide (x.1 = member)) ∘
      fun n : ZskiplistNode S => (n.member, n.score, n.level)) with
  | none =>
    obtain ⟨n, hn, rfl⟩ := List.mem_map.mp hm
    exact absurd (List.find?_eq_none.mp hf n hn) (by simp)
  | some n => exact ⟨n, List.mem_of_find?_eq_some hf, by simpa using List.find?_some hf, rfl⟩

theorem scoreOf_of_notMem {L : List Nat} (hr : Zskiplist.Repr z L) {member : CStr}
    (hm : member ∉ (z.nodesOf L).map (·.member)) : z.scoreOf member = none := by
  rw [z.scoreOf_eq, hr.elements_eq_nodesOf, List.find?_map, Option.map_map, Option.map_eq_none_iff,
    List.find?_eq_none]
  intro n hn hc
  exact hm (List.mem_map.mpr ⟨n, hn, by simpa using hc⟩)

/-- A member is found at its ranks, and what is not a member has none. -/
structure RankRangeAgree (db : KvTable S) (key member : CStr) : Prop where
  rank : member ∈ db.zsetMembers key →
    ∃ r : Nat, db.kvZrank key member = r ∧ r < db.kvZcard key ∧ db.kvZrange key r r = [member]
  revrank : member ∈ db.zsetMembers key →
    ∃ r : Nat, db.kvZrevrank key member = r ∧ r < db.kvZcard key ∧
      db.kvZrevrange key r r = [member]
  absent : member ∉ db.zsetMembers key →
    db.kvZrank key member = -1 ∧ db.kvZrevrank key member = -1

theorem Sound.rankRangeAgree (h : db.Sound) (key member : CStr) : db.RankRangeAgree key member := by
  cases hz : db.wrObj DbObject.zset? key with
  | none =>
    have hnil := zsetMembers_of_none hz
    refine ⟨fun hm => ?_, fun hm => ?_, fun _ => ?_⟩
    · rw [hnil] at hm
      cases hm
    · rw [hnil] at hm
      cases hm
    · exact ⟨by simp only [kvZrank, hz], by simp only [kvZrevrank, hz]⟩
  | some z =>
    obtain ⟨L, hr⟩ := h.zset hz
    have hmembers := zsetMembers_eq hz hr
    have hcard : db.kvZcard key = (z.nodesOf L).length := by
      rw [kvZcard, hz, Option.elim_some, hr.length_nodesOf]
    have hzscore : db.kvZscore key member = z.scoreOf member := by
      rw [kvZscore, hz, Option.bind_some]
    refine ⟨fun hm => ?_, fun hm => ?_, fun hm => ?_⟩
    · rw [hmembers] at hm
      obtain ⟨n, hn, rfl, hscore⟩ := scoreOf_of_mem hr hm
      obtain ⟨y, hy, hkey⟩ := IndexSlice.getElem?_rank hr.sorted_nodesOf hn
      have hat : (db.zsetMembers key)[z.zslRank n.score n.member]? = some n.member := by
        rw [hmembers, List.getElem?_map, zslRank_eq hr, hy]
        exact congrArg some (congrArg (fun k => (ofLex k).2) hkey)
      refine ⟨z.zslRank n.score n.member, ?_, ?_, ?_⟩
      · simp only [kvZrank, hz, hscore, Option.elim_some]
      · rw [hcard, ← List.length_map (f := ZskiplistNode.member), ← hmembers]
        exact (List.getElem?_eq_some_iff.mp hat).1
      · rw [h.kvZrange_eq]
        exact IndexSlice.slice_self hat
    · rw [hmembers] at hm
      obtain ⟨n, hn, rfl, hscore⟩ := scoreOf_of_mem hr hm
      obtain ⟨y, hy, hkey⟩ := IndexSlice.getElem?_revrank hr.sorted_nodesOf hn
      have hat : (db.zsetMembers key).reverse[z.zslRevrank n.score n.member]? = some n.member := by
        rw [hmembers, ← List.map_reverse, List.getElem?_map, zslRevrank_eq hr, hy]
        exact congrArg some (congrArg (fun k => (ofLex k).2) hkey)
      refine ⟨z.zslRevrank n.score n.member, ?_, ?_, ?_⟩
      · simp only [kvZrevrank, hz, hzscore, hscore, Option.elim_some]
      · rw [hcard, ← List.length_map (f := ZskiplistNode.member), ← hmembers, ← List.length_reverse]
        exact (List.getElem?_eq_some_iff.mp hat).1
      · rw [h.kvZrevrange_eq]
        exact IndexSlice.slice_self hat
    · rw [hmembers] at hm
      have hnone := scoreOf_of_notMem hr hm
      exact ⟨by simp only [kvZrank, hz, hnone, Option.elim_none],
        by simp only [kvZrevrank, hz, hzscore, hnone, Option.elim_none]⟩

/-- **Rank and range agree.** In every reachable table a member stands at
its rank from either end, and the ranks are below `kv_zcard`; also with
equal scores and members that were added twice. -/
theorem rank_range_agree (path : Option CStr) (file : Option (List UInt8)) (ops : List (SoundOp S))
    (key member : CStr) : (soundRun path file ops).RankRangeAgree key member :=
  (Sound.soundRun path file ops).rankRangeAgree key member

end KvTable

end AntzKV

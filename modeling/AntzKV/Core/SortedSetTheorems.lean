/-
AntzKV.Core.SortedSetTheorems — the sorted set of a key as a map from
members to scores.

`elements z` is what level 0 holds: member, score and level of each node.
An insertion adds one element and a deletion takes one out or none; both
are read off the representation invariant. `IsMap` says that a list of
elements is a finite map.

Two things go wrong on the way. `kv_zadd` inserts a second node for a
member that is present. `zsl_delete` searches by member on every level
from the top, so the search runs past a member on each level above its
own, and misses it when one of the later nodes is on such a level
(`Hidden`). `zsetRun_isMap_iff` says that a run in which neither happens
is exactly a run in which the sorted set is a map all along.

What `kv_zrem` does to one set of any reachable shape is in
`zsetRun_zremRemovesOne_iff`: it takes out a node of the member exactly
when one of them is `exposed`, with no later node on a higher level.
-/
import AntzKV.Core.CommandsTheorems
import AntzKV.Core.ZskiplistRunTheorems

namespace AntzKV

open LinkedHeap (Ref IsChain lastRef)
open SkipSearch (onLevel Stands)

variable {S : Type}

namespace Zskiplist

/-! ## The elements of a skip list -/

/-- The nodes along level 0, from `p`. -/
def walkFrom (z : Zskiplist S) : Nat → Option Nat → List (ZskiplistNode S)
  | 0, _ => []
  | _ + 1, none => []
  | fuel + 1, some a =>
    match z.nodes.get a with
    | none => []
    | some n => n :: walkFrom z fuel (n.forward.getD 0 none)

/-- Member, score and level of the nodes of level 0. -/
def elements (z : Zskiplist S) : List (CStr × S × Nat) :=
  (z.walkFrom z.nodes.fresh (z.fwd .root 0)).map fun n => (n.member, n.score, n.level)

theorem findMember_eq (z : Zskiplist S) (member : CStr) :
    ∀ fuel p, z.findMember member fuel p
      = (z.walkFrom fuel p).find? fun n => strcmp n.member member = .eq
  | 0, _ => rfl
  | _ + 1, none => rfl
  | fuel + 1, some a => by
    unfold findMember walkFrom
    cases z.nodes.get a with
    | none => rfl
    | some n =>
      simp only
      by_cases hn : strcmp n.member member = .eq
      · rw [if_pos hn, List.find?_cons_of_pos (by simpa using hn)]
      · rw [if_neg hn, List.find?_cons_of_neg (by simpa using hn), findMember_eq z member fuel]

/-- `kv_zscore` reads the first element with the member. -/
theorem scoreOf_eq (z : Zskiplist S) (member : CStr) :
    z.scoreOf member = (z.elements.find? fun x => x.1 = member).map (·.2.1) := by
  rw [scoreOf, findMember_eq, elements, List.find?_map, Option.map_map]
  simp only [strcmp_eq_eq]
  rfl

/-- The element of a node. -/
def elementAt (z : Zskiplist S) (a : Nat) : Option (CStr × S × Nat) :=
  (z.infoAt a).map fun x => (x.1, x.2.1, x.2.2.1)

theorem elementAt_of_get {z : Zskiplist S} {a : Nat} {n : ZskiplistNode S}
    (h : z.nodes.get a = some n) : z.elementAt a = some (n.member, n.score, n.level) := by
  simp [elementAt, infoAt_of_get h, ZskiplistNode.info]

theorem filterMap_elementAt_congr {z z' : Zskiplist S} {M : List Nat}
    (h : ∀ b ∈ M, z'.infoAt b = z.infoAt b) :
    M.filterMap z'.elementAt = M.filterMap z.elementAt :=
  List.filterMap_congr fun b hb => by rw [elementAt, elementAt, h b hb]

/-- The walk along a chain of allocated nodes. -/
theorem walkFrom_eq {z : Zskiplist S} : ∀ (c : List Nat) (fuel : Nat) (x : Ref Nat),
    IsChain (z.fwd · 0) x c → (∀ a ∈ c, ∃ n, z.nodes.get a = some n) → c.length ≤ fuel →
      (z.walkFrom fuel (z.fwd x 0)).map (fun n => (n.member, n.score, n.level))
        = c.filterMap z.elementAt
  | [], fuel, x, hc, _, _ => by
    have hx : z.fwd x 0 = none := hc
    rw [hx]
    cases fuel <;> rfl
  | a :: c, 0, _, _, _, hf => absurd hf (by simp)
  | a :: c, fuel + 1, x, hc, hn, hf => by
    obtain ⟨n, hget⟩ := hn a (by simp)
    have hx : z.fwd x 0 = some a := hc.1
    have hnext : n.forward.getD 0 none = z.fwd (.node a) 0 := by simp [fwd, hget]
    have hrest := walkFrom_eq c fuel (.node a) hc.2 (fun b hb => hn b (by simp [hb]))
      (by simpa using hf)
    rw [hx, List.filterMap_cons, elementAt_of_get hget, ← hrest, ← hnext]
    simp [walkFrom, hget]

section Repr

variable [LinearOrder S] {z : Zskiplist S} {L : List Nat}

theorem Repr.elements_eq (h : Repr z L) : z.elements = L.filterMap z.elementAt := by
  have hc := h.chain 0 (by simp [zskiplistMaxlevel])
  rw [h.onLevel_zero (List.Subset.refl L)] at hc
  refine walkFrom_eq L _ _ hc ?_ h.length_le_fresh
  intro a ha
  obtain ⟨n, hn, _⟩ := h.node a ha
  exact ⟨n, hn⟩

theorem Repr.length_elements (h : Repr z L) : z.elements.length = z.length := by
  rw [h.elements_eq, h.length]
  apply List.filterMap_length_eq_length.mpr
  intro a ha
  obtain ⟨n, hn, _⟩ := h.node a ha
  simp [elementAt_of_get hn]

/-- An insertion adds one element. -/
theorem Repr.elements_zslInsert (h : Repr z L) (score : S) (member : CStr) {lvl : Nat}
    (hpos : 1 ≤ lvl) (hmax : lvl ≤ zskiplistMaxlevel) :
    ∃ A B, z.elements = A ++ B ∧
      (z.zslInsert score member lvl).elements = A ++ (member, score, lvl) :: B := by
  obtain ⟨P, Q, rfl, hi, hr⟩ := h.zslInsert score member hpos hmax
  have hne : ∀ b ∈ P ++ Q, b ≠ z.nodes.fresh := fun b hb => ne_of_lt (h.lt_fresh hb)
  have hold : ∀ M ⊆ P ++ Q, ∀ b ∈ M, (z.zslInsert score member lvl).infoAt b = z.infoAt b :=
    fun M hM b hb => (hi.info b).trans (if_neg (hne b (hM hb)))
  have hnew : (z.zslInsert score member lvl).elementAt z.nodes.fresh
      = some (member, score, lvl) := by
    simp [elementAt, hi.info]
  refine ⟨P.filterMap z.elementAt, Q.filterMap z.elementAt, ?_, ?_⟩
  · rw [h.elements_eq, List.filterMap_append]
  · rw [hr.elements_eq, List.filterMap_append, List.filterMap_cons, hnew,
      filterMap_elementAt_congr (hold P (by simp)), filterMap_elementAt_congr (hold Q (by simp))]

/-- Where a deletion looks: what it has passed, what is ahead, and the
element it takes out. -/
theorem Repr.elements_zslDelete (h : Repr z L) (member : CStr) :
    ∃ A B, z.elements = A ++ B ∧
      (∀ A₁ x A₂, A = A₁ ++ x :: A₂ → x.1 = member → ∃ y ∈ A₂, x.2.2 < y.2.2) ∧
      (∀ y ∈ B, ∀ i < y.2.2, ∃ x ∈ B, x.1 = member ∧ i < x.2.2) ∧
      ((B = [] ∧ z.zslDelete member = (z, false)) ∨
        ∃ score lvl B', B = (member, score, lvl) :: B' ∧ (z.zslDelete member).2 = true ∧
          (z.zslDelete member).1.elements = A ++ B' ∧ ∃ L', Repr (z.zslDelete member).1 L') := by
  obtain ⟨P, Q, rfl, hs, hcases⟩ := h.zslDelete member
  refine ⟨P.filterMap z.elementAt, Q.filterMap z.elementAt, ?_, ?_, ?_, ?_⟩
  · rw [h.elements_eq, List.filterMap_append]
  · intro A₁ x A₂ hsplit hx
    obtain ⟨P₁, P', rfl, _, hP'⟩ := List.filterMap_eq_append_iff.mp hsplit
    obtain ⟨P₂, a, P₃, rfl, _, ha, rfl⟩ := List.filterMap_eq_cons_iff.mp hP'
    obtain ⟨n, hn, _⟩ := h.node a (by simp)
    obtain rfl := Option.some.inj ((elementAt_of_get hn).symm.trans ha)
    obtain ⟨b, hb, hlev⟩ := hs.passed (P₁ ++ P₂) a P₃ (by simp)
      ((memberNe_of_get hn member).mpr hx)
    obtain ⟨m, hm, _⟩ := h.node b (by simp [hb])
    rw [levelAt_of_get hn, levelAt_of_get hm] at hlev
    exact ⟨_, List.mem_filterMap.mpr ⟨b, hb, elementAt_of_get hm⟩, hlev⟩
  · intro y hy i hi
    obtain ⟨a, ha, hay⟩ := List.mem_filterMap.mp hy
    obtain ⟨n, hn, _⟩ := h.node a (by simp [ha])
    obtain rfl := Option.some.inj ((elementAt_of_get hn).symm.trans hay)
    have hlev : z.levelAt a = n.level := levelAt_of_get hn
    have htop := (h.level_le_of_mem (a := a) (by simp [ha])).2
    have hmem : a ∈ onLevel z.levelAt i Q := SkipSearch.mem_onLevel.mpr ⟨ha, hlev ▸ hi⟩
    -- the first node ahead on level `i` is one of the member
    obtain ⟨b, hb⟩ : ∃ b, (onLevel z.levelAt i Q).head? = some b := by
      cases hl : onLevel z.levelAt i Q with
      | nil => simp [hl] at hmem
      | cons b l => exact ⟨b, rfl⟩
    obtain ⟨hbQ, hbi⟩ := SkipSearch.mem_onLevel.mp (List.mem_of_mem_head? hb)
    obtain ⟨m, hm, _⟩ := h.node b (by simp [hbQ])
    have hmember := (memberNe_of_get hm member).mp
      (hs.ahead i (lt_of_lt_of_le hi (hlev ▸ htop)) b hb)
    rw [levelAt_of_get hm] at hbi
    exact ⟨_, List.mem_filterMap.mpr ⟨b, hbQ, elementAt_of_get hm⟩, hmember, hbi⟩
  · rcases hcases with ⟨rfl, hr⟩ | ⟨a, n, Q', rfl, hn, hmem, hret, hd, hr⟩
    · exact Or.inl ⟨rfl, hr⟩
    · right
      have hnd := List.nodup_cons.mp (List.nodup_middle.mp h.nodup)
      have hold : ∀ b ∈ P ++ Q', (z.zslDelete member).1.infoAt b = z.infoAt b := fun b hb =>
        hd.info b fun hc => hnd.1 (hc ▸ hb)
      refine ⟨n.score, n.level, Q'.filterMap z.elementAt, ?_, hret, ?_, _, hr⟩
      · rw [List.filterMap_cons, elementAt_of_get hn, hmem]
      · rw [hr.elements_eq, filterMap_elementAt_congr hold, List.filterMap_append]

end Repr

end Zskiplist

/-! ## Elements as a map -/

/-- A finite map from members to scores. -/
abbrev ScoreMap (S : Type) := Finmap fun _ : CStr => S

/-- No member occurs twice, and each has its score. -/
structure IsMap (E : List (CStr × S × Nat)) (M : ScoreMap S) : Prop where
  nodup : (E.map (·.1)).Nodup
  score : ∀ m, (E.find? fun x => x.1 = m).map (·.2.1) = M.lookup m

/-- The first element of a member has a later element of greater level. -/
def hidden (m : CStr) : List (CStr × S × Nat) → Bool
  | [] => false
  | x :: E => if x.1 = m then E.any fun y => x.2.2 < y.2.2 else hidden m E

namespace IsMap

variable {A B E : List (CStr × S × Nat)} {M : ScoreMap S} {m : CStr} {s : S} {l : Nat}

theorem mem_iff (h : IsMap E M) : m ∈ M ↔ m ∈ E.map (·.1) := by
  rw [← Finmap.lookup_isSome, ← h.score m]
  simp [List.find?_isSome]

theorem card_eq (h : IsMap E M) : M.keys.card = E.length := by
  have hkeys : M.keys = (E.map (·.1)).toFinset := by
    ext m
    rw [Finmap.mem_keys, h.mem_iff, List.mem_toFinset]
  rw [hkeys, List.toFinset_card_of_nodup h.nodup, List.length_map]

theorem notMem_of_middle (h : IsMap (A ++ (m, s, l) :: B) M) : m ∉ (A ++ B).map (·.1) := by
  have hnd := h.nodup
  rw [List.map_append, List.map_cons, List.nodup_middle, ← List.map_append] at hnd
  exact (List.nodup_cons.mp hnd).1

/-- What an element in the middle adds to the lookups. -/
theorem find?_middle (hm : m ∉ (A ++ B).map (·.1)) (k : CStr) :
    ((A ++ (m, s, l) :: B).find? fun x => x.1 = k).map (·.2.1)
      = if k = m then some s else ((A ++ B).find? fun x => x.1 = k).map (·.2.1) := by
  rw [List.find?_append, List.find?_append]
  by_cases hk : k = m
  · subst hk
    have hA : A.find? (fun x => x.1 = k) = none := by
      apply List.find?_eq_none.mpr
      intro x hx hxk
      apply hm
      rw [← of_decide_eq_true hxk]
      exact List.mem_map_of_mem (List.mem_append_left B hx)
    rw [hA, List.find?_cons_of_pos (by simp)]
    simp
  · rw [List.find?_cons_of_neg (by simpa using Ne.symm hk), if_neg hk]

theorem insert (h : IsMap (A ++ B) M) (hm : m ∉ (A ++ B).map (·.1)) (s : S) (l : Nat) :
    IsMap (A ++ (m, s, l) :: B) (M.insert m s) := by
  constructor
  · rw [List.map_append, List.map_cons, List.nodup_middle, ← List.map_append]
    exact List.nodup_cons.mpr ⟨hm, h.nodup⟩
  · intro k
    rw [find?_middle hm, h.score]
    by_cases hk : k = m
    · subst hk
      rw [if_pos rfl, Finmap.lookup_insert]
    · rw [if_neg hk, Finmap.lookup_insert_of_ne _ hk]

theorem erase (h : IsMap (A ++ (m, s, l) :: B) M) : IsMap (A ++ B) (M.erase m) := by
  have hm := h.notMem_of_middle
  constructor
  · have hnd := h.nodup
    rw [List.map_append, List.map_cons, List.nodup_middle, ← List.map_append] at hnd
    exact (List.nodup_cons.mp hnd).2
  · intro k
    have hk := h.score k
    rw [find?_middle hm] at hk
    by_cases hkm : k = m
    · subst hkm
      rw [Finmap.lookup_erase, Option.map_eq_none_iff, List.find?_eq_none]
      intro x hx hxk
      apply hm
      rw [← of_decide_eq_true hxk]
      exact List.mem_map_of_mem hx
    · rw [if_neg hkm] at hk
      rw [hk, Finmap.lookup_erase_ne hkm]

theorem erase_of_notMem (h : IsMap E M) (hm : m ∉ E.map (·.1)) : IsMap E (M.erase m) := by
  have hM : m ∉ M := fun hc => hm (h.mem_iff.mp hc)
  refine ⟨h.nodup, fun k => ?_⟩
  rw [h.score]
  by_cases hk : k = m
  · subst hk
    rw [Finmap.lookup_erase, Finmap.lookup_eq_none.mpr hM]
  · rw [Finmap.lookup_erase_ne hk]

end IsMap

theorem hidden_middle {A B : List (CStr × S × Nat)} {m : CStr} {s : S} {l : Nat}
    (hA : m ∉ A.map (·.1)) :
    hidden m (A ++ (m, s, l) :: B) = B.any fun y => l < y.2.2 := by
  induction A with
  | nil => simp [hidden]
  | cons x A ih =>
    simp only [List.map_cons, List.mem_cons, not_or] at hA
    rw [List.cons_append, hidden, if_neg (Ne.symm hA.1), ih hA.2]

theorem hidden_of_notMem {E : List (CStr × S × Nat)} {m : CStr} (hE : m ∉ E.map (·.1)) :
    hidden m E = false := by
  induction E with
  | nil => rfl
  | cons x E ih =>
    simp only [List.map_cons, List.mem_cons, not_or] at hE
    rw [hidden, if_neg (Ne.symm hE.1), ih hE.2]

/-! ## One operation -/

namespace Zskiplist

variable [LinearOrder S] {z : Zskiplist S} {L : List Nat} {M : ScoreMap S}

/-- An insertion extends the map exactly when its member is new. -/
theorem Repr.zslInsert_isMap_iff (h : Repr z L) (hM : IsMap z.elements M) (score : S)
    (member : CStr) {lvl : Nat} (hpos : 1 ≤ lvl) (hmax : lvl ≤ zskiplistMaxlevel) :
    IsMap (z.zslInsert score member lvl).elements (M.insert member score) ↔
      member ∉ z.elements.map (·.1) := by
  obtain ⟨A, B, hE, hE'⟩ := h.elements_zslInsert score member hpos hmax
  rw [hE']
  rw [hE] at hM ⊢
  exact ⟨fun h' => h'.notMem_of_middle, fun hm => hM.insert hm score lvl⟩

/-- A deletion shrinks the map exactly when its member is not hidden. -/
theorem Repr.zslDelete_isMap_iff (h : Repr z L) (hM : IsMap z.elements M) (member : CStr) :
    IsMap (z.zslDelete member).1.elements (M.erase member) ↔
      hidden member z.elements = false := by
  obtain ⟨A, B, hE, hpassed, hahead, ⟨rfl, hr⟩ | ⟨s, l, B', rfl, _, hE', _⟩⟩ :=
    h.elements_zslDelete member
  · rw [hr, hE, List.append_nil]
    rw [hE, List.append_nil] at hM
    by_cases hm : member ∈ A.map (·.1)
    · -- the search has gone past the member
      obtain ⟨x, hx, rfl⟩ := List.mem_map.mp hm
      obtain ⟨A₁, A₂, rfl⟩ := List.append_of_mem hx
      obtain ⟨y, hy, hlt⟩ := hpassed A₁ x A₂ rfl rfl
      obtain ⟨m, s, l⟩ := x
      have hnot : m ∉ A₁.map (·.1) := fun hc => hM.notMem_of_middle (by simp [hc])
      apply iff_of_false
      · intro h'
        have hsc := h'.score m
        rw [Finmap.lookup_erase, Option.map_eq_none_iff, List.find?_eq_none] at hsc
        exact hsc (m, s, l) (by simp) (by simp)
      · rw [hidden_middle hnot, Bool.not_eq_false, List.any_eq_true]
        exact ⟨y, hy, by simpa using hlt⟩
    · exact iff_of_true (hM.erase_of_notMem hm) (hidden_of_notMem hm)
  · rw [hE', hE]
    rw [hE] at hM
    have hnot := hM.notMem_of_middle
    rw [List.map_append, List.mem_append, not_or] at hnot
    refine iff_of_true hM.erase ?_
    rw [hidden_middle hnot.1, List.any_eq_false]
    intro y hy hlt
    obtain ⟨x, hx, hxm, hxl⟩ := hahead y (by simp [hy]) l (by simpa using hlt)
    rcases List.mem_cons.mp hx with rfl | hx
    · simp at hxl
    · exact hnot.2 (hxm ▸ List.mem_map_of_mem hx)

end Zskiplist

theorem randomLevelLoop_bounds (rand : Nat → Nat) : ∀ left i level,
    level ≤ randomLevelLoop rand left i level ∧ randomLevelLoop rand left i level ≤ level + left
  | 0, _, _ => by simp [randomLevelLoop]
  | left + 1, i, level => by
    rw [randomLevelLoop]
    split
    · have := randomLevelLoop_bounds rand left (i + 1) (level + 1)
      omega
    · omega

/-- The levels `zsl_random_level` draws. -/
theorem zslRandomLevel_bounds (rand : Nat → Nat) :
    1 ≤ zslRandomLevel rand ∧ zslRandomLevel rand ≤ zskiplistMaxlevel :=
  randomLevelLoop_bounds rand (zskiplistMaxlevel - 1) 0 1

/-! ## Runs of ZADD and ZREM on one key -/

namespace KvTable

/-- The elements of the sorted set of a key, none without one. -/
def zsetElements (db : KvTable S) (key : CStr) : List (CStr × S × Nat) :=
  (db.wrObj DbObject.zset? key).elim [] Zskiplist.elements

/-- A new sorted set has no elements. -/
theorem zsetElements_eq (db : KvTable S) (key : CStr) :
    db.zsetElements key = ((db.wrObj DbObject.zset? key).getD .zslCreate).elements := by
  unfold zsetElements
  cases db.wrObj DbObject.zset? key with
  | none => rfl
  | some z => rfl

theorem kvZscore_eq (db : KvTable S) (key m : CStr) :
    db.kvZscore key m = ((db.zsetElements key).find? fun x => x.1 = m).map (·.2.1) := by
  unfold kvZscore zsetElements
  cases db.wrObj DbObject.zset? key with
  | none => rfl
  | some z => exact z.scoreOf_eq m

theorem wrObj_kvZrem {db : KvTable S} (hwf : db.Wf) (key member : CStr) :
    (db.kvZrem key member).1.wrObj DbObject.zset? key
      = (db.wrObj DbObject.zset? key).map fun z => (z.zslDelete member).1 := by
  unfold kvZrem
  cases hz : db.wrObj DbObject.zset? key with
  | none => simp [hz]
  | some z => exact wrObj_putData hwf hz fun _ => rfl

/-- `kv_zadd` fails without a sorted set and without memory for a new
key, or inserts into the one it has, or into a new one. -/
theorem kvZadd_cases [LinearOrder S] {db : KvTable S} (hwf : db.Wf) (calloc : Calloc) (key : CStr)
    (score : S) (member : CStr) (rand : Nat → Nat) :
    (db.wrObj DbObject.zset? key = none ∧ db.kvZadd calloc key score member rand = (db, .err)) ∨
    ((db.kvZadd calloc key score member rand).2 = .ok () ∧
      (db.kvZadd calloc key score member rand).1.wrObj DbObject.zset? key
        = some (((db.wrObj DbObject.zset? key).getD .zslCreate).zslInsert score member
            (zslRandomLevel rand))) := by
  cases hz : db.wrObj DbObject.zset? key with
  | some z =>
    right
    have hcreate : db.createUnless DbObject.zset? .objCreateZset calloc key = (db, 0) := by
      simp [createUnless, hz]
    simp only [kvZadd, hcreate, hz]
    exact ⟨rfl, wrObj_putData hwf hz fun _ => rfl⟩
  | none =>
    rcases kvSetObject_cases calloc db key (.objCreateZset) none with hr | ⟨t, hr⟩
    · left
      simp [kvZadd, createUnless, hz, hr]
    · right
      have hret : (db.kvSetObject calloc key .objCreateZset none).2 = 0 := by rw [hr]
      have hget := kvGetObject_kvSetObject_self hwf hret
      have ht : t.Wf := by
        have := hwf.kvSetObject calloc key .objCreateZset none
        rwa [hr] at this
      rw [hr] at hget
      have hnew : t.wrObj DbObject.zset? key = some .zslCreate := by
        rw [wrObj, hget]
        rfl
      simp only [kvZadd, createUnless, hz, hr, hnew]
      exact ⟨rfl, wrObj_putData ht hnew fun _ => rfl⟩

end KvTable

/-- A write command on the sorted set of a key. -/
inductive ZsetOp (S : Type) where
  | zadd (calloc : Calloc) (score : S) (member : CStr) (rand : Nat → Nat)
  | zrem (member : CStr)

/-- A table, with the map the commands so far amount to. -/
structure ZsetState (S : Type) where
  db : KvTable S
  scores : ScoreMap S

namespace ZsetOp

variable [LinearOrder S]

/-- One command; a `kv_zadd` that returns -1 adds nothing to the map. -/
def step (key : CStr) (s : ZsetState S) : ZsetOp S → ZsetState S
  | .zadd calloc score member rand =>
    let (db, ret) := s.db.kvZadd calloc key score member rand
    ⟨db, if ret = .ok () then s.scores.insert member score else s.scores⟩
  | .zrem member => ⟨(s.db.kvZrem key member).1, s.scores.erase member⟩

/-- ZADD of a member that is not there, ZREM of one that is not hidden. -/
def Allowed (key : CStr) (s : ZsetState S) : ZsetOp S → Prop
  | .zadd _ _ member _ => member ∉ (s.db.zsetElements key).map (·.1)
  | .zrem member => hidden member (s.db.zsetElements key) = false

instance (key : CStr) (s : ZsetState S) : ∀ op : ZsetOp S, Decidable (op.Allowed key s)
  | .zadd _ _ member _ =>
    inferInstanceAs (Decidable (member ∉ (s.db.zsetElements key).map (·.1)))
  | .zrem member => inferInstanceAs (Decidable (hidden member (s.db.zsetElements key) = false))

end ZsetOp

namespace ZsetState

variable [LinearOrder S]

/-- The sorted set of the key is the map: each member at most once, the
scores `kv_zscore` answers, and the number `kv_zcard` answers. -/
structure IsSortedSet (key : CStr) (s : ZsetState S) : Prop where
  nodup : ((s.db.zsetElements key).map (·.1)).Nodup
  zscore : ∀ m, s.db.kvZscore key m = s.scores.lookup m
  zcard : s.db.kvZcard key = s.scores.keys.card

/-- What every run keeps. -/
structure Inv (key : CStr) (s : ZsetState S) : Prop where
  wf : s.db.Wf
  repr : ∀ z, s.db.wrObj DbObject.zset? key = some z → ∃ L, Zskiplist.Repr z L

theorem isSortedSet_iff {key : CStr} {s : ZsetState S} (h : Inv key s) :
    s.IsSortedSet key ↔ IsMap (s.db.zsetElements key) s.scores := by
  constructor
  · intro hs
    exact ⟨hs.nodup, fun m => (s.db.kvZscore_eq key m).symm.trans (hs.zscore m)⟩
  · intro hs
    refine ⟨hs.nodup, fun m => (s.db.kvZscore_eq key m).trans (hs.score m), ?_⟩
    rw [hs.card_eq]
    unfold KvTable.kvZcard KvTable.zsetElements
    cases hz : s.db.wrObj DbObject.zset? key with
    | none => rfl
    | some z =>
      obtain ⟨L, hr⟩ := h.repr z hz
      exact hr.length_elements.symm

theorem Inv.repr_getD {key : CStr} {s : ZsetState S} (h : Inv key s) :
    ∃ L, Zskiplist.Repr ((s.db.wrObj DbObject.zset? key).getD .zslCreate) L := by
  cases hz : s.db.wrObj DbObject.zset? key with
  | none => exact ⟨[], Zskiplist.repr_zslCreate⟩
  | some z => exact h.repr z hz

theorem Inv.step {key : CStr} {s : ZsetState S} (h : Inv key s) (op : ZsetOp S) :
    Inv key (op.step key s) := by
  obtain ⟨L, hr⟩ := h.repr_getD
  cases op with
  | zadd calloc score member rand =>
    refine ⟨h.wf.kvZadd calloc key score member rand, fun z hz => ?_⟩
    rcases KvTable.kvZadd_cases h.wf calloc key score member rand with ⟨hnone, heq⟩ | ⟨_, hsome⟩
    · simp only [ZsetOp.step, heq] at hz
      exact h.repr z hz
    · obtain rfl := Option.some.inj (hsome.symm.trans hz)
      obtain ⟨hpos, hmax⟩ := zslRandomLevel_bounds rand
      obtain ⟨P, Q, _, _, hr'⟩ := hr.zslInsert score member hpos hmax
      exact ⟨_, hr'⟩
  | zrem member =>
    refine ⟨h.wf.kvZrem key member, fun z hz => ?_⟩
    have hdel : (s.db.kvZrem key member).1.wrObj DbObject.zset? key = some z := hz
    rw [KvTable.wrObj_kvZrem h.wf] at hdel
    obtain ⟨z₀, hz₀, rfl⟩ := Option.map_eq_some_iff.mp hdel
    obtain ⟨L₀, hr₀⟩ := h.repr z₀ hz₀
    exact Zskiplist.Repr.zslStep ⟨L₀, hr₀⟩ (.delete member)

/-- One command keeps the map exactly when it is allowed. -/
theorem IsSortedSet.step_iff {key : CStr} {s : ZsetState S} (h : Inv key s)
    (hs : s.IsSortedSet key) (op : ZsetOp S) :
    (op.step key s).IsSortedSet key ↔ op.Allowed key s := by
  have hmap := (isSortedSet_iff h).mp hs
  rw [isSortedSet_iff (h.step op)]
  obtain ⟨L, hr⟩ := h.repr_getD
  rw [KvTable.zsetElements_eq] at hmap
  cases op with
  | zadd calloc score member rand =>
    obtain ⟨hpos, hmax⟩ := zslRandomLevel_bounds rand
    simp only [ZsetOp.Allowed, KvTable.zsetElements_eq]
    rcases KvTable.kvZadd_cases h.wf calloc key score member rand with ⟨hnone, heq⟩ | ⟨hok, hsome⟩
    · simp only [ZsetOp.step, heq]
      refine iff_of_true hmap ?_
      rw [hnone]
      simp [Zskiplist.elements, Zskiplist.walkFrom, Zskiplist.zslCreate, Heap.fresh, Heap.empty]
    · simp only [ZsetOp.step, hok, if_true, hsome, Option.getD_some]
      exact hr.zslInsert_isMap_iff hmap score member hpos hmax
  | zrem member =>
    simp only [ZsetOp.Allowed, ZsetOp.step, KvTable.zsetElements_eq, KvTable.wrObj_kvZrem h.wf]
    cases hz : s.db.wrObj DbObject.zset? key with
    | none =>
      rw [hz] at hmap
      have hnil : (Zskiplist.zslCreate : Zskiplist S).elements = [] := rfl
      simp only [Option.map_none, Option.getD_none, hnil] at hmap ⊢
      exact iff_of_true (hmap.erase_of_notMem (by simp)) rfl
    | some z =>
      rw [hz] at hmap hr
      exact hr.zslDelete_isMap_iff hmap member

end ZsetState

/-- The state after a sequence of commands on a key without a sorted set. -/
def zsetRun [LinearOrder S] (key : CStr) (db : KvTable S) (ops : List (ZsetOp S)) : ZsetState S :=
  ops.foldl (ZsetOp.step key) ⟨db, ∅⟩

/-- **Sorted sets as maps.** From every reachable table in which the key
has no sorted set, the sorted set is a map after each command of a run if
and only if each command of the run is allowed. -/
theorem zsetRun_isMap_iff [LinearOrder S] (path : Option CStr) (file : Option (List UInt8))
    (before : List (StoreOp S)) (key : CStr)
    (hkey : (KvTable.storeRun path file before).wrObj DbObject.zset? key = none)
    (ops : List (ZsetOp S)) :
    (∀ n, (zsetRun key (KvTable.storeRun path file before) (ops.take n)).IsSortedSet key) ↔
      Run.Guarded (ZsetOp.step key) (fun s op => op.Allowed key s)
        ⟨KvTable.storeRun path file before, ∅⟩ ops := by
  have hinv : ZsetState.Inv key ⟨KvTable.storeRun path file before, ∅⟩ :=
    ⟨KvTable.Wf.storeRun path file before, fun z hz => by simp [hkey] at hz⟩
  have hmap : (⟨KvTable.storeRun path file before, ∅⟩ : ZsetState S).IsSortedSet key := by
    rw [ZsetState.isSortedSet_iff hinv]
    simp only [KvTable.zsetElements, hkey]
    exact ⟨List.nodup_nil, fun m => rfl⟩
  exact (Run.guarded_iff_forall_take (fun _ op h => h.step op)
    (fun _ op h hs => hs.step_iff h op) ops _ hinv hmap).symm

/-- Two members, one of them removed and added again. -/
theorem zsetRun_isMap_two_members :
    (zsetRun (.lit "z") (KvTable.storeRun none none [] : KvTable Int)
      ([.zadd true 1 (.lit "a") fun _ => 1, .zadd true 2 (.lit "b") fun _ => 1, .zrem (.lit "a"),
        .zadd true 3 (.lit "a") fun _ => 1].take 4)).IsSortedSet (.lit "z") :=
  (zsetRun_isMap_iff none none [] (.lit "z") (by decide) _).mpr (by decide) 4

/-- Adding a member a second time makes two nodes of it. -/
theorem zadd_twice_not_isSortedSet :
    ¬ (zsetRun (.lit "z") (KvTable.storeRun none none [] : KvTable Int)
      [.zadd true 1 (.lit "a") fun _ => 1, .zadd true 2 (.lit "a") fun _ => 1]).IsSortedSet
        (.lit "z") := by
  intro h
  have hnd := h.nodup
  revert hnd
  decide

/-! ## What ZREM takes out -/

/-- Some element of the member has no later element of greater level. -/
def exposed (m : CStr) : List (CStr × S × Nat) → Bool
  | [] => false
  | x :: E => (decide (x.1 = m) && E.all fun y => y.2.2 ≤ x.2.2) || exposed m E

theorem exposed_iff {m : CStr} {E : List (CStr × S × Nat)} :
    exposed m E = true ↔ ∃ A x B, E = A ++ x :: B ∧ x.1 = m ∧ ∀ y ∈ B, y.2.2 ≤ x.2.2 := by
  induction E with
  | nil => simp [exposed]
  | cons x E ih =>
    rw [exposed, Bool.or_eq_true, ih, Bool.and_eq_true, decide_eq_true_iff, List.all_eq_true]
    simp only [decide_eq_true_iff]
    constructor
    · rintro (⟨hx, hall⟩ | ⟨A, y, B, rfl, hy, hall⟩)
      · exact ⟨[], x, E, rfl, hx, hall⟩
      · exact ⟨x :: A, y, B, rfl, hy, hall⟩
    · rintro ⟨A, y, B, hE, hy, hall⟩
      cases A with
      | nil =>
        obtain ⟨rfl, rfl⟩ := List.cons.inj hE
        exact Or.inl ⟨hy, hall⟩
      | cons a A =>
        obtain ⟨rfl, rfl⟩ := List.cons.inj hE
        exact Or.inr ⟨A, y, B, rfl, hy, hall⟩

/-- Where every level reached is reached by the member, an element of it
of the greatest level is exposed. -/
theorem exposed_of_reached {m : CStr} {A B : List (CStr × S × Nat)} {x : CStr × S × Nat}
    (hx : x ∈ B) (hxm : x.1 = m)
    (hreach : ∀ y ∈ B, ∀ i < y.2.2, ∃ x ∈ B, x.1 = m ∧ i < x.2.2) :
    exposed m (A ++ B) = true := by
  have hmem : x ∈ B.filter fun y => y.1 = m := List.mem_filter.mpr ⟨hx, by simpa using hxm⟩
  obtain ⟨t, ht⟩ : ∃ t, t ∈ (B.filter fun y => y.1 = m).argmax (·.2.2) := by
    apply Option.ne_none_iff_exists'.mp
    rw [Ne, List.argmax_eq_none]
    exact List.ne_nil_of_mem hmem
  obtain ⟨htB, htm⟩ := List.mem_filter.mp (List.argmax_mem ht)
  have hmax : ∀ y ∈ B, y.2.2 ≤ t.2.2 := by
    intro y hy
    by_contra hlt
    obtain ⟨w, hw, hwm, hlw⟩ := hreach y hy t.2.2 (by omega)
    have hle := List.le_of_mem_argmax (List.mem_filter.mpr ⟨hw, by simpa using hwm⟩) ht
    omega
  obtain ⟨B₁, B₂, rfl⟩ := List.append_of_mem htB
  refine exposed_iff.mpr ⟨A ++ B₁, t, B₂, by simp, by simpa using htm, fun y hy => ?_⟩
  exact hmax y (by simp [hy])

namespace Zskiplist

variable [LinearOrder S] {z : Zskiplist S} {L : List Nat}

/-- A deletion takes out one element of the member, if there is one that
is exposed, and otherwise leaves the list as it is. -/
theorem Repr.zslDelete_exposed (h : Repr z L) (member : CStr) :
    (exposed member z.elements = true ∧ (z.zslDelete member).2 = true ∧
      ∃ A s l B, z.elements = A ++ (member, s, l) :: B ∧
        (z.zslDelete member).1.elements = A ++ B) ∨
    (exposed member z.elements = false ∧ z.zslDelete member = (z, false)) := by
  obtain ⟨A, B, hE, hpassed, hahead, ⟨rfl, hr⟩ | ⟨s, l, B', rfl, hret, hE', _⟩⟩ :=
    h.elements_zslDelete member
  · refine Or.inr ⟨?_, hr⟩
    rw [Bool.eq_false_iff, hE, List.append_nil]
    intro hexp
    obtain ⟨A₁, x, A₂, hsplit, hx, hall⟩ := exposed_iff.mp hexp
    obtain ⟨y, hy, hlt⟩ := hpassed A₁ x A₂ hsplit hx
    exact absurd (hall y hy) (by omega)
  · refine Or.inl ⟨?_, hret, A, s, l, B', hE, hE'⟩
    rw [hE]
    exact exposed_of_reached List.mem_cons_self rfl hahead

end Zskiplist

namespace KvTable

/-- `kv_zrem` on a member: if it occurs, the flag is 1 and exactly one
element of it is gone; if not, the flag is 0 and nothing is changed. -/
def ZremRemovesOne (db : KvTable S) (key member : CStr) : Prop :=
  (member ∈ (db.zsetElements key).map (·.1) →
    (db.kvZrem key member).2 = true ∧
      ∃ A s l B, db.zsetElements key = A ++ (member, s, l) :: B ∧
        (db.kvZrem key member).1.zsetElements key = A ++ B) ∧
  (member ∉ (db.zsetElements key).map (·.1) → db.kvZrem key member = (db, false))

variable [LinearOrder S]

/-- `kv_zrem` takes one element of the member out when one is exposed, and
changes nothing otherwise. -/
theorem kvZrem_exposed {db : KvTable S} (hwf : db.Wf) {key : CStr}
    (hrepr : ∀ z, db.wrObj DbObject.zset? key = some z → ∃ L, Zskiplist.Repr z L)
    (member : CStr) :
    (exposed member (db.zsetElements key) = true ∧ (db.kvZrem key member).2 = true ∧
      ∃ A s l B, db.zsetElements key = A ++ (member, s, l) :: B ∧
        (db.kvZrem key member).1.zsetElements key = A ++ B) ∨
    (exposed member (db.zsetElements key) = false ∧ db.kvZrem key member = (db, false)) := by
  have hafter := wrObj_kvZrem hwf key member
  unfold zsetElements
  cases hz : db.wrObj DbObject.zset? key with
  | none =>
    refine Or.inr ⟨rfl, ?_⟩
    simp only [kvZrem, hz]
  | some z =>
    obtain ⟨L, hr⟩ := hrepr z hz
    have hret : db.kvZrem key member
        = (db.putData key (.zset (z.zslDelete member).1), (z.zslDelete member).2) := by
      simp only [kvZrem, hz]
    rw [hz] at hafter
    simp only [hafter, Option.map_some, Option.elim_some]
    rcases hr.zslDelete_exposed member with ⟨hexp, hdel, hE⟩ | ⟨hexp, hdel⟩
    · refine Or.inl ⟨hexp, ?_, hE⟩
      rw [hret, hdel]
    · refine Or.inr ⟨hexp, ?_⟩
      obtain ⟨o, hget, ho⟩ := exists_of_wrObj hz
      rw [hret, hdel, putData_same hget (DbObject.zset?_eq_some_iff.mp ho)]

theorem zremRemovesOne_iff {key : CStr} {s : ZsetState S} (h : ZsetState.Inv key s)
    (member : CStr) :
    s.db.ZremRemovesOne key member ↔
      member ∉ (s.db.zsetElements key).map (·.1) ∨
        exposed member (s.db.zsetElements key) = true := by
  rcases kvZrem_exposed h.wf h.repr member with ⟨hexp, hret, A, sc, l, B, hE, hE'⟩ | ⟨hexp, hret⟩
  · refine iff_of_true ⟨fun _ => ⟨hret, A, sc, l, B, hE, hE'⟩, fun hnot => absurd ?_ hnot⟩
      (Or.inr hexp)
    rw [hE]
    simp
  · rw [ZremRemovesOne, hret, hexp]
    simp

end KvTable

/-- From every reachable table in which the key has no sorted set and after
every run of commands on it, `kv_zrem` of a member takes out exactly one
node of it, or none if there is none, exactly when the member does not
occur or one of its nodes has no later node of greater level. -/
theorem zsetRun_zremRemovesOne_iff [LinearOrder S] (path : Option CStr)
    (file : Option (List UInt8)) (before : List (StoreOp S)) (key : CStr)
    (hkey : (KvTable.storeRun path file before).wrObj DbObject.zset? key = none)
    (ops : List (ZsetOp S)) (member : CStr) :
    (zsetRun key (KvTable.storeRun path file before) ops).db.ZremRemovesOne key member ↔
      member ∉ ((zsetRun key (KvTable.storeRun path file before) ops).db.zsetElements key).map
          (·.1) ∨
        exposed member
          ((zsetRun key (KvTable.storeRun path file before) ops).db.zsetElements key) = true := by
  have hinv : ZsetState.Inv key ⟨KvTable.storeRun path file before, ∅⟩ :=
    ⟨KvTable.Wf.storeRun path file before, fun z hz => by simp [hkey] at hz⟩
  exact KvTable.zremRemovesOne_iff (Run.invariant (fun _ op h => h.step op) ops _ hinv) member

/-- Of two members on levels 2 and 1, the first is taken out. -/
theorem zrem_removesOne_high_first :
    (zsetRun (.lit "z") (KvTable.storeRun none none [] : KvTable Int)
      [.zadd true 1 (.lit "a") id, .zadd true 2 (.lit "b") fun _ => 1]).db.ZremRemovesOne
        (.lit "z") (.lit "a") :=
  (zsetRun_zremRemovesOne_iff none none [] (.lit "z") (by decide) _ (.lit "a")).mpr
    (Or.inr (by decide))

/-- Of two members on levels 1 and 2, the first is not found. -/
theorem zrem_misses_low_first :
    ¬ (zsetRun (.lit "z") (KvTable.storeRun none none [] : KvTable Int)
      [.zadd true 1 (.lit "a") fun _ => 1, .zadd true 2 (.lit "b") id]).db.ZremRemovesOne
        (.lit "z") (.lit "a") := by
  intro h
  have hflag := (h.1 (by decide)).1
  revert hflag
  decide

end AntzKV

/-
AntzKV.Server.PubSubHeapTheorems — unlinking subscribers leaves the others
as they are.

`SubList` and `EntryList` say what lies behind a pointer, cell by cell,
and `Repr` that the cells of all lists are different ones. The loop that
unlinks writes one link, that `prev` points at, and the cells it has
still ahead (`Touched`); so the induction of `unlinkLoop_spec` needs no
word about the cells it has passed. From there every call does to
`contents` what it does to the lists of a `PubsubMgr`
(`contents_run`), and `unsubscribeAll_exact` reads the cleanup of a
connection off it.
-/
import AntzKV.Server.PubSubHeap
import AntzKV.Server.PubSubTheorems

namespace AntzKV

open LinkedHeap (Ref)

namespace PubsubHeap

/-! ## What lies behind a pointer -/

/-- The pointer leads through the cells, which hold these subscribers, and
then to NULL. -/
abbrev SubList (mem : Heap SubCell) : Option Nat → List (Nat × ClientSub) → Prop :=
  mem.Leads (·.next) SubCell.sub

/-- An entry with the cells of its subscribers. -/
structure Block where
  addr : Nat
  name : CStr
  subs : List (Nat × ClientSub)

/-- The pointer leads through the entries, each with its subscribers. -/
def EntryList (h : PubsubHeap) : Option Nat → List Block → Prop
  | p, [] => p = none
  | p, b :: bs => p = some b.addr ∧ ∃ s q, h.entries.get b.addr = some ⟨b.name, s, q⟩ ∧
      SubList h.subs s b.subs ∧ EntryList h q bs

/-- The addresses of the subscribers of all entries. -/
def subAddrs (bs : List Block) : List Nat := bs.flatMap fun b => b.subs.map Prod.fst

/-- The lists in memory: no two of their cells are the same. -/
structure Repr (h : PubsubHeap) (bs : List Block) : Prop where
  list : EntryList h h.channels bs
  entries : (bs.map Block.addr).Nodup
  subs : (subAddrs bs).Nodup

/-- The values of the lists. -/
def mgr (bs : List Block) : PubsubMgr := ⟨bs.map fun b => ⟨b.name, b.subs.map Prod.snd⟩⟩

variable {h h' : PubsubHeap} {p : Option Nat}

theorem EntryList.congr {bs : List Block} (hl : EntryList h p bs)
    (hentries : ∀ e ∈ bs.map Block.addr, h'.entries.get e = h.entries.get e)
    (hsubs : ∀ a ∈ subAddrs bs, h'.subs.get a = h.subs.get a) : EntryList h' p bs := by
  induction bs generalizing p with
  | nil => exact hl
  | cons b bs ih =>
    obtain ⟨hp, s, q, hcell, hlist, hrest⟩ := hl
    refine ⟨hp, s, q, (hentries b.addr (by simp)).trans hcell, ?_, ?_⟩
    · exact hlist.congr fun a ha => hsubs a (by simp [subAddrs, ha])
    · refine ih hrest (fun e he => hentries e (by simp_all)) fun a ha => hsubs a ?_
      rw [subAddrs, List.flatMap_cons, List.mem_append]
      exact .inr ha

/-! ### Reading -/

theorem EntryList.lt_fresh {bs : List Block} (hl : EntryList h p bs) :
    (∀ e ∈ bs.map Block.addr, e < h.entries.fresh) ∧ ∀ a ∈ subAddrs bs, a < h.subs.fresh := by
  induction bs generalizing p with
  | nil => simp [subAddrs]
  | cons b bs ih =>
    obtain ⟨-, s, q, hcell, hlist, hrest⟩ := hl
    obtain ⟨hentries, hsubs⟩ := ih hrest
    constructor
    · intro e he
      rcases List.mem_cons.mp he with rfl | he
      · exact Heap.lt_fresh_of_get hcell
      · exact hentries e he
    · intro a ha
      rw [subAddrs, List.flatMap_cons, List.mem_append] at ha
      exact ha.elim (hlist.lt_fresh a) (hsubs a)

/-- As many cells as there are addresses bound a list of different ones. -/
theorem length_le_of_lt {as : List Nat} {n : Nat} (hnodup : as.Nodup) (hlt : ∀ a ∈ as, a < n) :
    as.length ≤ n := by
  simpa using (hnodup.subperm fun a ha => List.mem_range.mpr (hlt a ha)).length_le

theorem readSubs_eq {c : List (Nat × ClientSub)} (hl : SubList h.subs p c) {fuel : Nat}
    (hfuel : c.length ≤ fuel) : h.readSubs fuel p = some (c.map Prod.snd) := by
  induction c generalizing p fuel with
  | nil =>
    obtain rfl : p = none := hl
    cases fuel <;> rfl
  | cons x c ih =>
    obtain ⟨a, s⟩ := x
    obtain ⟨rfl, cs, hcell, rfl, hrest⟩ := hl
    cases fuel with
    | zero => exact absurd hfuel (by simp)
    | succ fuel =>
      rw [readSubs, hcell]
      simp only [ih hrest (by simpa using hfuel), Option.map_some, List.map_cons]

theorem readEntries_eq {bs : List Block} (hl : EntryList h p bs)
    (hnodup : (subAddrs bs).Nodup) {fuel : Nat} (hfuel : bs.length ≤ fuel) :
    h.readEntries fuel p = some (mgr bs).channels := by
  induction bs generalizing p fuel with
  | nil =>
    obtain rfl : p = none := hl
    cases fuel <;> rfl
  | cons b bs ih =>
    obtain ⟨rfl, s, q, hcell, hlist, hrest⟩ := hl
    rw [subAddrs, List.flatMap_cons] at hnodup
    have hone : b.subs.length ≤ h.subs.fresh := by
      simpa using length_le_of_lt hnodup.of_append_left hlist.lt_fresh
    cases fuel with
    | zero => exact absurd hfuel (by simp)
    | succ fuel =>
      rw [readEntries, hcell]
      simp only [readSubs_eq hlist hone, Option.bind_some,
        ih hrest hnodup.of_append_right (by simpa using hfuel), Option.map_some]
      rfl

theorem Repr.length_le {bs : List Block} (hr : Repr h bs) : bs.length ≤ h.entries.fresh := by
  simpa using length_le_of_lt hr.entries hr.list.lt_fresh.1

theorem Repr.contents {bs : List Block} (hr : Repr h bs) : h.contents = some (mgr bs) := by
  rw [PubsubHeap.contents, readEntries_eq hr.list hr.subs hr.length_le]
  rfl

/-! ## Unlinking -/

/-- The link can be written. -/
def Live (h : PubsubHeap) (e : Nat) : Ref Nat → Prop
  | .root => ∃ c, h.entries.get e = some c
  | .node b => ∃ c, h.subs.get b = some c

/-- Nothing has changed but the link that `prev` points at, among the
subscribers of `e`, and the cells `as`. -/
structure Touched (h h' : PubsubHeap) (e : Nat) (prev : Ref Nat) (as : List Nat) : Prop where
  channels : h'.channels = h.channels
  others : ∀ x, x ≠ e → h'.entries.get x = h.entries.get x
  entry : (h'.entries.get e).map (fun c => (c.name, c.next))
    = (h.entries.get e).map fun c => (c.name, c.next)
  head : prev ≠ .root → h'.entries.get e = h.entries.get e
  cells : ∀ a, a ∉ as → prev ≠ .node a → h'.subs.get a = h.subs.get a
  before : ∀ b, prev = .node b → (h'.subs.get b).map SubCell.sub = (h.subs.get b).map SubCell.sub

variable {e : Nat} {prev : Ref Nat} {as : List Nat}

theorem Touched.refl (h : PubsubHeap) (e : Nat) (prev : Ref Nat) (as : List Nat) :
    Touched h h e prev as := by
  constructor <;> intros <;> rfl

theorem Touched.trans {h'' : PubsubHeap} {bs : List Nat} (h₁ : Touched h h' e prev as)
    (h₂ : Touched h' h'' e prev bs) : Touched h h'' e prev (as ++ bs) where
  channels := h₂.channels.trans h₁.channels
  others x hx := (h₂.others x hx).trans (h₁.others x hx)
  entry := h₂.entry.trans h₁.entry
  head hp := (h₂.head hp).trans (h₁.head hp)
  cells a ha hp := by
    rw [List.mem_append, not_or] at ha
    exact (h₂.cells a ha.2 hp).trans (h₁.cells a ha.1 hp)
  before b hp := (h₂.before b hp).trans (h₁.before b hp)

/-- Unlinking a cell that the link does not belong to. -/
theorem touched_unlink {a : Nat} (hprev : prev ≠ .node a) (v : Option Nat) :
    Touched h ((h.setLink e prev v).freeSub a) e prev [a] := by
  cases prev with
  | root =>
    refine ⟨rfl, fun x hx => Heap.get_modify_of_ne hx _, ?_, fun hp => absurd rfl hp, ?_, nofun⟩
    · exact Heap.map_get_modify _ _ _ fun _ => rfl
    · intro b hb _
      exact Heap.get_free_of_ne (List.ne_of_not_mem_cons hb)
  | node b =>
    have hba : b ≠ a := fun h => hprev (h ▸ rfl)
    refine ⟨rfl, fun _ _ => rfl, rfl, fun _ => rfl, ?_, ?_⟩
    · intro c hc hne
      have hcb : c ≠ b := fun h => hne (h ▸ rfl)
      exact (Heap.get_free_of_ne (List.ne_of_not_mem_cons hc)).trans (Heap.get_modify_of_ne hcb _)
    · intro c hc
      obtain rfl := Ref.node.inj hc
      show (((h.subs.modify b _).free a).get b).map _ = _
      rw [Heap.get_free_of_ne hba]
      exact Heap.map_get_modify _ _ _ fun _ => rfl

theorem link_unlink {a : Nat} (hlive : h.Live e prev) (hprev : prev ≠ .node a) (v : Option Nat) :
    ((h.setLink e prev v).freeSub a).link e prev = v := by
  cases prev with
  | root =>
    obtain ⟨c, hc⟩ := hlive
    simp [link, setLink, freeSub, hc]
  | node b =>
    obtain ⟨c, hc⟩ := hlive
    have hba : b ≠ a := fun h => hprev (h ▸ rfl)
    simp [link, setLink, freeSub, Heap.get_free_of_ne hba, hc]

theorem Touched.live (ht : Touched h h' e prev as) (hlive : h.Live e prev) : h'.Live e prev := by
  cases prev with
  | root =>
    obtain ⟨c, hc⟩ := hlive
    have hentry := ht.entry
    rw [hc, Option.map_some] at hentry
    obtain ⟨c', hc', -⟩ := Option.map_eq_some_iff.mp hentry
    exact ⟨c', hc'⟩
  | node b =>
    obtain ⟨c, hc⟩ := hlive
    have hcell := ht.before b rfl
    rw [hc, Option.map_some] at hcell
    obtain ⟨c', hc', -⟩ := Option.map_eq_some_iff.mp hcell
    exact ⟨c', hc'⟩

/-- The subscribers the loop leaves: all others, or all but the first
match. -/
def survivors (again : Bool) (fd : Int) (c : List (Nat × ClientSub)) : List (Nat × ClientSub) :=
  if again then c.filter fun x => x.2.fd ≠ fd else c.eraseP fun x => x.2.fd = fd

theorem survivors_cons_of_ne {again : Bool} {fd : Int} {x : Nat × ClientSub} (hx : x.2.fd ≠ fd)
    (c : List (Nat × ClientSub)) : survivors again fd (x :: c) = x :: survivors again fd c := by
  cases again with
  | true => simp [survivors, hx]
  | false => simp [survivors, hx]

theorem survivors_cons_self {again : Bool} {fd : Int} {x : Nat × ClientSub} (hx : x.2.fd = fd)
    (c : List (Nat × ClientSub)) :
    survivors again fd (x :: c) = if again then survivors again fd c else c := by
  cases again with
  | true => simp [survivors, hx]
  | false => simp [survivors, hx]

/-- A link that is not written keeps its value. -/
theorem Touched.link_eq {a : Nat} (ht : Touched h h' e (.node a) as) (hprev : prev ≠ .node a)
    (hnot : ∀ b, prev = .node b → b ∉ as) : h'.link e prev = h.link e prev := by
  cases prev with
  | root => rw [link, link, ht.head nofun]
  | node b =>
    have hab : (Ref.node a : Ref Nat) ≠ .node b := hprev.symm
    rw [link, link, ht.cells b (hnot b rfl) hab]

/-- A loop that went on behind a cell `a` that stays. -/
theorem Touched.of_node {a : Nat} (ht : Touched h h' e (.node a) as) (hprev : prev ≠ .node a)
    (hnot : ∀ b, prev = .node b → b ∉ as) : Touched h h' e prev (a :: as) where
  channels := ht.channels
  others := ht.others
  entry := ht.entry
  head _ := ht.head nofun
  cells b hb _ := by
    obtain ⟨hba, hmem⟩ := not_or.mp (List.mem_cons.not.mp hb)
    exact ht.cells b hmem fun h => hba (Ref.node.inj h).symm
  before b hb := by
    have hne : (Ref.node a : Ref Nat) ≠ .node b := fun h => hprev (hb.trans h.symm)
    rw [ht.cells b (hnot b hb) hne]

/-- **The loop that unlinks**: from the link `prev` on there are the
survivors, in their order, and no other link or cell has changed. -/
theorem unlinkLoop_spec (again : Bool) (fd : Int) {rest : List (Nat × ClientSub)} {fuel : Nat}
    (hl : SubList h.subs p rest) (hlink : h.link e prev = p) (hlive : h.Live e prev)
    (hnodup : (rest.map Prod.fst).Nodup) (hprev : ∀ b, prev = .node b → b ∉ rest.map Prod.fst)
    (hfuel : rest.length ≤ fuel) :
    SubList (unlinkLoop again fd e fuel h prev p).subs
        ((unlinkLoop again fd e fuel h prev p).link e prev) (survivors again fd rest) ∧
      Touched h (unlinkLoop again fd e fuel h prev p) e prev (rest.map Prod.fst) := by
  induction rest generalizing h prev p fuel with
  | nil =>
    obtain rfl : p = none := hl
    have hstop : unlinkLoop again fd e fuel h prev none = h := by
      cases fuel <;> rfl
    rw [hstop, hlink]
    exact ⟨by cases again <;> rfl, .refl h e prev []⟩
  | cons x rest ih =>
    obtain ⟨a, s⟩ := x
    obtain ⟨rfl, cs, hcell, rfl, hrest⟩ := hl
    obtain ⟨ha, hnodup⟩ := List.nodup_cons.mp hnodup
    have hpa : prev ≠ .node a := fun hp => hprev a hp (by simp)
    have hnot : ∀ b, prev = .node b → b ∉ rest.map Prod.fst := fun b hb hmem =>
      hprev b hb (List.mem_cons_of_mem a hmem)
    cases fuel with
    | zero => exact absurd hfuel (by simp)
    | succ fuel =>
      have hfuel' : rest.length ≤ fuel := by simpa using hfuel
      rw [unlinkLoop, hcell]
      simp only
      by_cases hfd : cs.fd = fd
      · -- the cell is unlinked; `prev` stays
        have hone := touched_unlink (h := h) (e := e) hpa cs.next
        have hnext := link_unlink hlive hpa cs.next
        have hlist : SubList ((h.setLink e prev cs.next).freeSub a).subs cs.next rest := by
          refine hrest.congr fun b hb => hone.cells b ?_ fun hp => hnot b hp hb
          rintro hba
          rw [List.mem_singleton.mp hba] at hb
          exact ha hb
        rw [if_pos hfd, survivors_cons_self hfd, List.map_cons]
        cases again with
        | true =>
          simp only [if_true, hnext]
          obtain ⟨hsub, htouch⟩ := ih hlist hnext (hone.live hlive) hnodup hnot hfuel'
          exact ⟨hsub, hone.trans htouch⟩
        | false =>
          simp only [Bool.false_eq_true, if_false, hnext]
          exact ⟨hlist, hone.trans (.refl _ e prev _)⟩
      · -- the cell stays, and is the next `prev`
        have hnode : h.link e (.node a) = cs.next := by rw [link, hcell]; rfl
        obtain ⟨hsub, htouch⟩ := ih hrest hnode ⟨_, hcell⟩ hnodup
          (fun b hb => Ref.node.inj hb ▸ ha) hfuel'
        rw [if_neg hfd, survivors_cons_of_ne hfd, List.map_cons]
        have hkept := htouch.before a rfl
        rw [hcell, Option.map_some] at hkept
        obtain ⟨c, hc, hcs⟩ := Option.map_eq_some_iff.mp hkept
        rw [link, hc] at hsub
        exact ⟨⟨(htouch.link_eq hpa hnot).trans hlink, c, hc, hcs, hsub⟩,
          htouch.of_node hpa hnot⟩

/-! ## One entry of the list -/

variable {b : Block} {bs bs₁ bs₂ : List Block}

theorem subAddrs_append (bs₁ bs₂ : List Block) :
    subAddrs (bs₁ ++ bs₂) = subAddrs bs₁ ++ subAddrs bs₂ := List.flatMap_append

theorem subAddrs_cons (b : Block) (bs : List Block) :
    subAddrs (b :: bs) = b.subs.map Prod.fst ++ subAddrs bs := List.flatMap_cons

/-- The entry at a place of the list. -/
theorem EntryList.get_middle (hl : EntryList h p (bs₁ ++ b :: bs₂)) :
    ∃ q, h.entries.get b.addr = some ⟨b.name, h.link b.addr .root, q⟩ ∧
      SubList h.subs (h.link b.addr .root) b.subs := by
  induction bs₁ generalizing p with
  | nil =>
    obtain ⟨-, s, q, hcell, hlist, -⟩ := hl
    have hlink : h.link b.addr .root = s := by rw [link, hcell]; rfl
    exact ⟨q, by rw [hlink, hcell], hlink ▸ hlist⟩
  | cons x bs₁ ih =>
    obtain ⟨-, s, q, -, -, hrest⟩ := hl
    exact ih hrest

/-- Where only the subscribers of one entry have changed, with cells that
are not those of the others. -/
theorem EntryList.modify (hl : EntryList h p (bs₁ ++ b :: bs₂))
    (hentries : ((bs₁ ++ b :: bs₂).map Block.addr).Nodup) (ht : Touched h h' b.addr .root as)
    (has : ∀ a ∈ as, a ∉ subAddrs bs₁ ∧ a ∉ subAddrs bs₂) {c : List (Nat × ClientSub)}
    (hc : SubList h'.subs (h'.link b.addr .root) c) :
    EntryList h' p (bs₁ ++ { b with subs := c } :: bs₂) := by
  induction bs₁ generalizing p with
  | nil =>
    obtain ⟨hp, s, q, hcell, -, hrest⟩ := hl
    have hentry := ht.entry
    rw [hcell, Option.map_some] at hentry
    obtain ⟨x, hx, hname⟩ := Option.map_eq_some_iff.mp hentry
    have hxname : x.name = b.name := (Prod.mk.inj hname).1
    have hxnext : x.next = q := (Prod.mk.inj hname).2
    have hlink : h'.link b.addr .root = x.subs := by rw [link, hx]; rfl
    refine ⟨hp, x.subs, q, ?_, hlink ▸ hc, ?_⟩
    · show h'.entries.get b.addr = some ⟨b.name, x.subs, q⟩
      rw [hx, ← hxname, ← hxnext]
    · refine hrest.congr (fun e he => ht.others e ?_) fun a ha => ht.cells a ?_ nofun
      · rintro rfl
        exact (List.nodup_cons.mp hentries).1 he
      · exact fun hmem => (has a hmem).2 ha
  | cons x bs₁ ih =>
    obtain ⟨hp, s, q, hcell, hlist, hrest⟩ := hl
    obtain ⟨hx, hentries⟩ := List.nodup_cons.mp hentries
    have hxb : x.addr ≠ b.addr := by
      rintro hxb
      exact hx (by simp [hxb])
    refine ⟨hp, s, q, (ht.others x.addr hxb).trans hcell, ?_, ih hrest hentries ?_⟩
    · refine hlist.congr fun a ha => ht.cells a (fun hmem => ?_) nofun
      exact (has a hmem).1 (by rw [subAddrs_cons]; exact List.mem_append_left _ ha)
    · intro a ha
      obtain ⟨hfirst, hsecond⟩ := has a ha
      rw [subAddrs_cons, List.mem_append, not_or] at hfirst
      exact ⟨hfirst.2, hsecond⟩

/-- No cell of an entry belongs to another. -/
theorem notMem_of_nodup (hsubs : (subAddrs (bs₁ ++ b :: bs₂)).Nodup) :
    ∀ a ∈ b.subs.map Prod.fst, a ∉ subAddrs bs₁ ∧ a ∉ subAddrs bs₂ := by
  intro a ha
  rw [subAddrs_append, subAddrs_cons] at hsubs
  have hfirst := List.disjoint_of_nodup_append hsubs
  have hsecond := List.disjoint_of_nodup_append hsubs.of_append_right
  exact ⟨fun hmem => hfirst hmem (List.mem_append_left _ ha), fun hmem => hsecond ha hmem⟩

theorem survivors_sublist (again : Bool) (fd : Int) (c : List (Nat × ClientSub)) :
    (survivors again fd c).Sublist c := by
  cases again with
  | true => exact List.filter_sublist
  | false => exact List.eraseP_sublist

/-- The loop on one entry of the lists. -/
theorem Repr.unlink (hr : Repr h (bs₁ ++ b :: bs₂)) (again : Bool) (fd : Int) :
    Repr (unlinkLoop again fd b.addr h.subs.fresh h .root (h.link b.addr .root))
        (bs₁ ++ { b with subs := survivors again fd b.subs } :: bs₂) ∧
      Touched h (unlinkLoop again fd b.addr h.subs.fresh h .root (h.link b.addr .root)) b.addr
        .root (b.subs.map Prod.fst) := by
  obtain ⟨q, hcell, hlist⟩ := hr.list.get_middle
  have hone : (b.subs.map Prod.fst).Nodup := by
    have hsubs := hr.subs
    rw [subAddrs_append, subAddrs_cons] at hsubs
    exact hsubs.of_append_right.of_append_left
  have hfuel : b.subs.length ≤ h.subs.fresh := by
    simpa using length_le_of_lt hone hlist.lt_fresh
  obtain ⟨hsub, ht⟩ := unlinkLoop_spec again fd hlist rfl ⟨_, hcell⟩ hone nofun hfuel
  refine ⟨⟨?_, ?_, ?_⟩, ht⟩
  · rw [ht.channels]
    exact hr.list.modify hr.entries ht (notMem_of_nodup hr.subs) hsub
  · simpa using hr.entries
  · refine hr.subs.sublist ?_
    rw [subAddrs_append, subAddrs_append, subAddrs_cons, subAddrs_cons]
    exact (List.Sublist.refl _).append (((survivors_sublist again fd b.subs).map _).append
      (List.Sublist.refl _))

/-! ## Leaving all channels -/

/-- An entry without the subscribers of a descriptor. -/
def Block.leave (fd : Int) (b : Block) : Block := { b with subs := survivors true fd b.subs }

/-- The outer loop: the entries before it keep their cells, the others lose
the subscribers of the descriptor. -/
theorem Repr.unsubscribeAllLoop (fd : Int) (hr : Repr h (bs₁ ++ bs)) {fuel : Nat}
    (hfuel : bs.length ≤ fuel) (hp : EntryList h p bs) :
    Repr (unsubscribeAllLoop fd fuel h p) (bs₁ ++ bs.map (Block.leave fd)) := by
  induction bs generalizing h p bs₁ fuel with
  | nil =>
    obtain rfl : p = none := hp
    have hstop : PubsubHeap.unsubscribeAllLoop fd fuel h none = h := by
      cases fuel <;> rfl
    rw [hstop]
    exact hr
  | cons b bs ih =>
    obtain ⟨rfl, s, q, hcell, -, hrest⟩ := hp
    cases fuel with
    | zero => exact absurd hfuel (by simp)
    | succ fuel =>
      have hlink : h.link b.addr .root = s := by rw [link, hcell]; rfl
      obtain ⟨hone, ht⟩ := hr.unlink true fd
      rw [hlink] at hone ht
      have hnext : ((unlinkLoop true fd b.addr h.subs.fresh h .root s).entries.get b.addr).bind
          (·.next) = q := by
        have hentry := ht.entry
        rw [hcell, Option.map_some] at hentry
        obtain ⟨x, hx, hname⟩ := Option.map_eq_some_iff.mp hentry
        rw [hx]
        exact (Prod.mk.inj hname).2
      -- the entries that are left do not notice
      have hentries := hr.entries
      rw [List.map_append, List.map_cons] at hentries
      have hrest' : EntryList (unlinkLoop true fd b.addr h.subs.fresh h .root s) q bs :=
        hrest.congr
          (fun e he => ht.others e fun heq =>
            (List.nodup_cons.mp hentries.of_append_right).1 (heq ▸ he))
          (fun a ha => ht.cells a (fun hmem => (notMem_of_nodup hr.subs a hmem).2 ha) nofun)
      have hsplit : bs₁ ++ Block.leave fd b :: bs = (bs₁ ++ [Block.leave fd b]) ++ bs := by simp
      have hone' : Repr (unlinkLoop true fd b.addr h.subs.fresh h .root s)
          ((bs₁ ++ [Block.leave fd b]) ++ bs) := hsplit ▸ hone
      have hall := ih hone' (by simpa using hfuel) hrest'
      rw [PubsubHeap.unsubscribeAllLoop, hcell]
      simp only [hnext]
      simpa using hall

theorem Repr.unsubscribeAll (hr : Repr h bs) (fd : Int) :
    Repr (h.pubsubUnsubscribeAll fd) (bs.map (Block.leave fd)) := by
  have hsplit : Repr h ([] ++ bs) := hr
  exact hsplit.unsubscribeAllLoop fd hr.length_le hr.list

theorem mgr_leave (bs : List Block) (fd : Int) :
    mgr (bs.map (Block.leave fd)) = (mgr bs).pubsubUnsubscribeAll fd := by
  simp only [mgr, PubsubMgr.pubsubUnsubscribeAll, List.map_map]
  congr 1
  refine List.map_congr_left fun b _ => ?_
  simp only [Function.comp, Block.leave, survivors, if_true, List.filter_map]
  rfl

/-! ## Finding an entry -/

/-- The value of an entry. -/
def Block.entry (b : Block) : ChannelEntry := ⟨b.name, b.subs.map Prod.snd⟩

theorem channels_mgr (bs : List Block) : (mgr bs).channels = bs.map Block.entry := rfl

/-- `strcmp(cur->name, ch) == 0` -/
def Block.isNamed (ch : CStr) (b : Block) : Bool := PubsubMgr.isNamed ch b.entry

theorem findChannel_eq (hl : EntryList h p bs) (ch : CStr) {fuel : Nat} (hfuel : bs.length ≤ fuel) :
    h.findChannel ch fuel p = (bs.find? (Block.isNamed ch)).map Block.addr := by
  induction bs generalizing p fuel with
  | nil =>
    obtain rfl : p = none := hl
    cases fuel <;> rfl
  | cons b bs ih =>
    obtain ⟨rfl, s, q, hcell, -, hrest⟩ := hl
    cases fuel with
    | zero => exact absurd hfuel (by simp)
    | succ fuel =>
      rw [findChannel, hcell, List.find?_cons]
      by_cases hname : b.name = ch
      · simp [Block.isNamed, Block.entry, PubsubMgr.isNamed_eq, hname]
      · simp [Block.isNamed, Block.entry, PubsubMgr.isNamed_eq, hname,
          ih hrest (by simpa using hfuel)]

theorem channel?_mgr (bs : List Block) (ch : CStr) :
    (mgr bs).channel? ch = (bs.find? (Block.isNamed ch)).map Block.entry := by
  rw [PubsubMgr.channel?, channels_mgr, List.find?_map]
  rfl

theorem modifyFirst_append {q : ChannelEntry → Bool} {f : List ClientSub → List ClientSub}
    {es₁ es₂ : List ChannelEntry} {e : ChannelEntry} (hnone : ∀ x ∈ es₁, q x = false)
    (he : q e = true) :
    PubsubMgr.modifyFirst q f (es₁ ++ e :: es₂) = es₁ ++ { e with subs := f e.subs } :: es₂ := by
  induction es₁ with
  | nil => simp [PubsubMgr.modifyFirst, he]
  | cons x es₁ ih =>
    simp only [List.cons_append, PubsubMgr.modifyFirst, hnone x (by simp), Bool.false_eq_true,
      if_false]
    rw [ih fun y hy => hnone y (List.mem_cons_of_mem x hy)]

theorem modifyFirst_of_none {q : ChannelEntry → Bool} {f : List ClientSub → List ClientSub}
    {es : List ChannelEntry} (hnone : es.find? q = none) : PubsubMgr.modifyFirst q f es = es := by
  induction es with
  | nil => rfl
  | cons e es ih =>
    rw [List.find?_cons] at hnone
    cases he : q e with
    | true => simp [he] at hnone
    | false =>
      simp only [he] at hnone
      simp [PubsubMgr.modifyFirst, he, ih hnone]

/-- The lists of values when the subscribers of the entry found are
changed. -/
theorem mgr_modifyFirst {ch : CStr} (hnone : ∀ x ∈ bs₁, Block.isNamed ch x = false)
    (hb : Block.isNamed ch b = true) {f : List ClientSub → List ClientSub}
    {c : List (Nat × ClientSub)} (hc : c.map Prod.snd = f (b.subs.map Prod.snd)) :
    mgr (bs₁ ++ { b with subs := c } :: bs₂)
      = ⟨PubsubMgr.modifyFirst (PubsubMgr.isNamed ch) f (mgr (bs₁ ++ b :: bs₂)).channels⟩ := by
  have hnone' : ∀ x ∈ bs₁.map Block.entry, PubsubMgr.isNamed ch x = false := by
    intro x hx
    obtain ⟨y, hy, rfl⟩ := List.mem_map.mp hx
    exact hnone y hy
  rw [channels_mgr, List.map_append, List.map_cons, modifyFirst_append hnone' hb]
  simp only [mgr, List.map_append, List.map_cons, hc]
  rfl

/-- The two outcomes of a search. -/
theorem find?_cases (ch : CStr) (bs : List Block) :
    (bs.find? (Block.isNamed ch) = none) ∨ ∃ bs₁ b bs₂, bs = bs₁ ++ b :: bs₂ ∧
      bs.find? (Block.isNamed ch) = some b ∧ Block.isNamed ch b = true ∧
      ∀ x ∈ bs₁, Block.isNamed ch x = false := by
  cases hf : bs.find? (Block.isNamed ch) with
  | none => exact .inl rfl
  | some b =>
    obtain ⟨hb, bs₁, bs₂, rfl, hnone⟩ := List.find?_eq_some_iff_append.mp hf
    exact .inr ⟨bs₁, b, bs₂, rfl, rfl, hb, fun x hx => by simpa using hnone x hx⟩

/-! ## Leaving one channel -/

theorem Repr.unsubscribe (hr : Repr h bs) (fd : Int) (ch : CStr) :
    ∃ bs', Repr (h.pubsubUnsubscribe fd ch) bs' ∧ mgr bs' = (mgr bs).pubsubUnsubscribe fd ch := by
  have hfind := findChannel_eq hr.list ch hr.length_le
  rw [pubsubUnsubscribe, hfind]
  rcases find?_cases ch bs with hnone | ⟨bs₁, b, bs₂, rfl, hsome, hb, hfirst⟩
  · rw [hnone]
    refine ⟨bs, hr, ?_⟩
    have hchannel := channel?_mgr bs ch
    rw [hnone, Option.map_none] at hchannel
    rw [PubsubMgr.pubsubUnsubscribe, modifyFirst_of_none hchannel]
  · rw [hsome]
    refine ⟨_, (hr.unlink false fd).1, ?_⟩
    refine mgr_modifyFirst hfirst hb ?_
    simp only [survivors, Bool.false_eq_true, if_false, List.eraseP_map]
    rfl

/-! ## Subscribing -/

/-- The heap after a new subscriber of an entry. -/
def push (h : PubsubHeap) (e : Nat) (sub : ClientSub) : PubsubHeap :=
  { h with
    entries := h.entries.modify e fun c => { c with subs := some h.subs.fresh }
    subs := h.subs.alloc ⟨sub.fd, sub.wlock, h.link e .root⟩ }

theorem touched_push (h : PubsubHeap) (e : Nat) (sub : ClientSub) :
    Touched h (h.push e sub) e .root [h.subs.fresh] where
  channels := rfl
  others _ hx := Heap.get_modify_of_ne hx _
  entry := Heap.map_get_modify _ _ _ fun _ => rfl
  head hp := absurd rfl hp
  cells _ ha _ := Heap.get_alloc_of_ne (List.ne_of_not_mem_cons ha) _
  before := nofun

theorem Repr.push (hr : Repr h (bs₁ ++ b :: bs₂)) (sub : ClientSub) :
    Repr (h.push b.addr sub)
      (bs₁ ++ { b with subs := (h.subs.fresh, sub) :: b.subs } :: bs₂) := by
  obtain ⟨q, hcell, hlist⟩ := hr.list.get_middle
  have hfresh : h.subs.fresh ∉ subAddrs (bs₁ ++ b :: bs₂) := fun hmem =>
    lt_irrefl _ (hr.list.lt_fresh.2 _ hmem)
  have hsplit : subAddrs (bs₁ ++ b :: bs₂)
      = subAddrs bs₁ ++ (b.subs.map Prod.fst ++ subAddrs bs₂) := by
    rw [subAddrs_append, subAddrs_cons]
  rw [hsplit] at hfresh
  simp only [List.mem_append, not_or] at hfresh
  have hsub : SubList (h.push b.addr sub).subs ((h.push b.addr sub).link b.addr .root)
      ((h.subs.fresh, sub) :: b.subs) := by
    refine ⟨?_, ⟨sub.fd, sub.wlock, h.link b.addr .root⟩, Heap.get_alloc_fresh _ _, rfl, ?_⟩
    · show ((h.entries.modify b.addr _).get b.addr).bind _ = _
      rw [Heap.get_modify_self, hcell]
      rfl
    · refine hlist.congr fun a ha => Heap.get_alloc_of_ne ?_ _
      rintro rfl
      exact hfresh.2.1 ha
  refine ⟨?_, by simpa using hr.entries, ?_⟩
  · refine hr.list.modify hr.entries (touched_push h b.addr sub) (fun a ha => ?_) hsub
    rw [List.mem_singleton.mp ha]
    exact ⟨hfresh.1, hfresh.2.2⟩
  · have hnodup := hr.subs
    rw [hsplit] at hnodup
    rw [subAddrs_append, subAddrs_cons, List.map_cons, List.cons_append, List.nodup_middle,
      List.nodup_cons]
    refine ⟨?_, hnodup⟩
    simp only [List.mem_append, not_or]
    exact hfresh

/-- A new entry in front of the others. -/
def create (h : PubsubHeap) (name : CStr) : PubsubHeap :=
  { h with
    channels := some h.entries.fresh
    entries := h.entries.alloc ⟨name, none, h.channels⟩ }

theorem Repr.create (hr : Repr h bs) (name : CStr) :
    Repr (h.create name) (⟨h.entries.fresh, name, []⟩ :: bs) := by
  have hfresh : h.entries.fresh ∉ bs.map Block.addr := fun hmem =>
    lt_irrefl _ (hr.list.lt_fresh.1 _ hmem)
  refine ⟨⟨rfl, none, h.channels, Heap.get_alloc_fresh _ _, rfl, ?_⟩,
    List.nodup_cons.mpr ⟨hfresh, hr.entries⟩, hr.subs⟩
  refine hr.list.congr (fun e he => Heap.get_alloc_of_ne ?_ _) fun _ _ => rfl
  rintro rfl
  exact hfresh he

section Subscribe

variable {ch : CStr} (fd : Int) (wlock : Option Nat)

theorem pubsubSubscribe_of_found (hfind : h.findChannel ch h.entries.fresh h.channels = some e)
    (entryCalloc subCalloc : Bool) :
    h.pubsubSubscribe entryCalloc subCalloc fd wlock ch
      = if subCalloc then h.push e ⟨fd, wlock⟩ else h := by
  simp only [pubsubSubscribe, psGetOrCreate, hfind]
  rfl

theorem pubsubSubscribe_of_none (hfind : h.findChannel ch h.entries.fresh h.channels = none)
    (subCalloc : Bool) :
    h.pubsubSubscribe true subCalloc fd wlock ch
      = if subCalloc then
          (h.create (ch.take (channelNameMax - 1))).push h.entries.fresh ⟨fd, wlock⟩
        else h.create (ch.take (channelNameMax - 1)) := by
  simp only [pubsubSubscribe, psGetOrCreate, hfind, if_true]
  rfl

theorem Repr.subscribe (hr : Repr h bs) (entryCalloc subCalloc : Bool) (ch : CStr) :
    ∃ bs', Repr (h.pubsubSubscribe entryCalloc subCalloc fd wlock ch) bs' ∧
      mgr bs' = (mgr bs).pubsubSubscribeOn entryCalloc subCalloc fd wlock ch := by
  have hfind := findChannel_eq hr.list ch hr.length_le
  have hchannel := channel?_mgr bs ch
  rcases find?_cases ch bs with hnone | ⟨bs₁, b, bs₂, rfl, hsome, hb, hfirst⟩
  · rw [hnone, Option.map_none] at hfind hchannel
    cases entryCalloc with
    | false =>
      exact ⟨bs, by simpa [pubsubSubscribe, psGetOrCreate, hfind] using hr,
        by simp [PubsubMgr.pubsubSubscribeOn, hchannel]⟩
    | true =>
      have hnew := hr.create (ch.take (channelNameMax - 1))
      rw [pubsubSubscribe_of_none fd wlock hfind]
      cases subCalloc with
      | false =>
        refine ⟨_, hnew, ?_⟩
        simp only [PubsubMgr.pubsubSubscribeOn, hchannel]
        rfl
      | true =>
        have hnew' : Repr _ ([] ++ ⟨h.entries.fresh, ch.take (channelNameMax - 1), []⟩ :: bs) :=
          hnew
        refine ⟨_, hnew'.push ⟨fd, wlock⟩, ?_⟩
        simp only [PubsubMgr.pubsubSubscribeOn, PubsubMgr.pubsubSubscribe, hchannel]
        rfl
  · rw [hsome, Option.map_some] at hfind hchannel
    rw [pubsubSubscribe_of_found fd wlock hfind]
    cases subCalloc with
    | false => exact ⟨_, hr, by simp [PubsubMgr.pubsubSubscribeOn, hchannel]⟩
    | true =>
      refine ⟨_, hr.push ⟨fd, wlock⟩, ?_⟩
      simp only [PubsubMgr.pubsubSubscribeOn, PubsubMgr.pubsubSubscribe, hchannel,
        Option.isSome_some, Bool.true_or, Bool.and_self, if_true]
      exact mgr_modifyFirst hfirst hb rfl

end Subscribe

/-! ## Runs -/

theorem Repr.step (hr : Repr h bs) (op : Op) :
    ∃ bs', Repr (h.step op) bs' ∧ mgr bs' = op.onMgr (mgr bs) := by
  cases op with
  | subscribe entryCalloc subCalloc fd wlock ch =>
    exact hr.subscribe fd wlock entryCalloc subCalloc ch
  | unsubscribe fd ch => exact hr.unsubscribe fd ch
  | unsubscribeAll fd => exact ⟨_, hr.unsubscribeAll fd, mgr_leave bs fd⟩

theorem repr_run (ops : List Op) :
    ∃ bs, Repr (run ops) bs ∧ mgr bs = ops.foldl Op.onMgr PubsubMgr.pubsubCreate := by
  induction ops using List.reverseRecOn with
  | nil => exact ⟨[], ⟨rfl, List.nodup_nil, List.nodup_nil⟩, rfl⟩
  | append_singleton ops op ih =>
    obtain ⟨bs, hr, hmgr⟩ := ih
    obtain ⟨bs', hr', hmgr'⟩ := hr.step op
    rw [run, List.foldl_concat, List.foldl_concat]
    exact ⟨bs', hr', hmgr'.trans (congrArg (Op.onMgr · op) hmgr)⟩

/-- The lists in memory are the lists of values, after every run. -/
theorem contents_run (ops : List Op) :
    (run ops).contents = some (ops.foldl Op.onMgr PubsubMgr.pubsubCreate) := by
  obtain ⟨bs, hr, hmgr⟩ := repr_run ops
  rw [hr.contents, hmgr]

/-- **The cleanup of a connection**: whatever the lists are, after
`pubsub_unsubscribe_all` no channel lists the descriptor, and in every
channel the entries of the other descriptors are the same, in the same
order. -/
theorem unsubscribeAll_exact (ops : List Op) (fd : Int) :
    ∃ m m', (run ops).contents = some m ∧
      ((run ops).pubsubUnsubscribeAll fd).contents = some m' ∧
      m'.channels.map (·.name) = m.channels.map (·.name) ∧
      (∀ e ∈ m'.channels, ∀ s ∈ e.subs, s.fd ≠ fd) ∧
      m'.channels.map (fun e => e.subs.filter fun s => s.fd ≠ fd)
        = m.channels.map (fun e => e.subs.filter fun s => s.fd ≠ fd) := by
  obtain ⟨bs, hr, -⟩ := repr_run ops
  refine ⟨mgr bs, (mgr bs).pubsubUnsubscribeAll fd, hr.contents, ?_, ?_, ?_, ?_⟩
  · rw [(hr.unsubscribeAll fd).contents, mgr_leave]
  · rw [PubsubMgr.pubsubUnsubscribeAll, List.map_map]
    rfl
  · intro e he s hs
    obtain ⟨e', -, rfl⟩ := List.mem_map.mp he
    simpa using (List.mem_filter.mp hs).2
  · rw [PubsubMgr.pubsubUnsubscribeAll, List.map_map]
    simp [Function.comp_def]

/-- A descriptor that stands first, twice in a row and last. -/
example : ((run [.subscribe true true 4 none (.lit "news"), .subscribe true true 5 none (.lit "news"),
      .subscribe true true 4 none (.lit "news"), .subscribe true true 4 none (.lit "news"),
      .unsubscribeAll 4]).contents.map fun m => m.channels.map fun e => e.subs.map (·.fd))
    = some [[5]] := by decide

end PubsubHeap

end AntzKV

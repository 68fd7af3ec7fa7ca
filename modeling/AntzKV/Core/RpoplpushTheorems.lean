/-
AntzKV.Core.RpoplpushTheorems — `kv_lpoprpush` moves one element and loses
none.

`listAt` reads the list at a key through its pointers. A list that is
written back changes the list of its key and the bag of all elements by
the difference (`listElements_putList`), so a pop and a push of the same
string leave the bag as it was. With one key for both lists a call turns
the list by one place, and as many calls as it has elements turn it once
around.
-/
import AntzKV.Core.SoundTheorems
import AntzKV.Core.TypeSafetyTheorems

namespace AntzKV

/-- The strings from `head` along `next`. -/
def Dlist.contents (l : Dlist) : Option (List CStr) := l.readAlong (·.next) l.nodes.fresh l.head

theorem Dlist.Repr.contents {l : Dlist} {ns : List Nat} {vs : List CStr} (h : Dlist.Repr l ns vs) :
    l.contents = some vs :=
  h.readAlong_next (h.length_eq ▸ h.length_le_fresh)

variable {S : Type}

/-- The list of an object, `none` for one of another type. -/
def DbObject.listContents (o : DbObject S) : Option (List CStr) := o.list?.bind Dlist.contents

open OpenAddressing (Slot)

namespace KvTable

/-- The list at a key, `none` where there is none. -/
def listAt (db : KvTable S) (key : CStr) : Option (List CStr) :=
  (db.kvGetObject key).bind DbObject.listContents

/-- What an entry adds to the elements of all lists. -/
def entryElements (e : KvEntry S) : Multiset CStr :=
  ((e.value?.bind DbObject.listContents).getD [] : List CStr)

/-- The elements of all lists in the table, each as often as it occurs. -/
def listElements (db : KvTable S) : Multiset CStr := (db.entries.map entryElements).sum

/-- One call of `kv_lpoprpush` with one key for both lists, for each
outcome of `calloc` in the list. -/
def rotations (db : KvTable S) (key : CStr) (callocs : List Calloc) : KvTable S :=
  callocs.foldl (fun db calloc => (db.kvLpoprpush calloc key key).1) db

/-- What a call on the list `vs` at `src` and the list `ws` at `dst` may do:
return the last string of `vs` and move it to the front of the other
list, or return NULL for an empty `vs` and do nothing. -/
structure MovesLast (db : KvTable S) (r : KvTable S × Option CStr) (src dst : CStr)
    (vs ws : List CStr) : Prop where
  returned : r.2 = vs.getLast?
  idle : vs = [] → r.1 = db
  moved : ∀ v, vs.getLast? = some v → src ≠ dst →
    r.1.listAt src = some vs.dropLast ∧ r.1.listAt dst = some (v :: ws)
  turned : ∀ v, vs.getLast? = some v → src = dst → r.1.listAt src = some (v :: vs.dropLast)
  frame : ∀ k, k ≠ src → k ≠ dst → r.1.kvGetObject k = db.kvGetObject k
  elements : r.1.listElements = db.listElements

variable {db : KvTable S} {key : CStr} {l : Dlist} {ns : List Nat} {vs ws : List CStr}

/-! ## A list written back -/

/-- The list behind the strings of a key. -/
theorem Sound.exists_list [LinearOrder S] (h : db.Sound) (hl : db.listAt key = some vs) :
    ∃ l ns, db.wrObj DbObject.list? key = some l ∧ Dlist.Repr l ns vs := by
  obtain ⟨o, hget, ho⟩ := Option.bind_eq_some_iff.mp hl
  obtain ⟨l, hlist, hc⟩ := Option.bind_eq_some_iff.mp ho
  have hwr : db.wrObj DbObject.list? key = some l := by simp [wrObj, hget, hlist]
  obtain ⟨ns, us, hr⟩ := h.list hwr
  obtain rfl : us = vs := Option.some.inj (hr.contents.symm.trans hc)
  exact ⟨l, ns, hwr, hr⟩

/-- A sum after one summand was exchanged. -/
theorem sum_map_set {α M : Type} [AddCommMonoid M] (f : α → M) {xs : List α} {i : Nat}
    (hi : i < xs.length) (x : α) :
    ((xs.set i x).map f).sum + f xs[i] = (xs.map f).sum + f x := by
  have hsplit : xs = xs.take i ++ xs[i] :: xs.drop (i + 1) := by
    rw [List.getElem_cons_drop, List.take_append_drop]
  have hset : xs.set i x = xs.take i ++ x :: xs.drop (i + 1) := by
    rw [List.set_eq_take_cons_drop x hi]
  have hsum := congrArg (fun l => (l.map f).sum) hsplit
  simp only [List.map_append, List.map_cons, List.sum_append, List.sum_cons] at hsum
  rw [hset, hsum]
  simp only [List.map_append, List.map_cons, List.sum_append, List.sum_cons]
  abel

/-- The new elements of all lists, with those the key had before, are the
old ones with those it has now. -/
theorem listElements_putList (hl : db.listAt key = some vs)
    (hr : Dlist.Repr l ns ws) :
    (db.putData key (.list l)).listElements + (vs : Multiset CStr) = db.listElements + ws := by
  obtain ⟨o, hget, ho⟩ := Option.bind_eq_some_iff.mp hl
  have hfound : (db.probe key).2 = true := probe_found_iff.mpr ⟨o, hget⟩
  obtain ⟨o', hentry, hget'⟩ := kvGetObject_of_found hfound
  obtain rfl := Option.some.inj (hget'.symm.trans hget)
  have hlt : (db.probe key).1 < db.entries.length := lt_capacity_of_entry hentry
  have hold : db.entries[(db.probe key).1] = .occupied key o' := by
    rw [← hentry, entry, List.getD_eq_getElem _ _ hlt]
  have hput : db.putData key (.list l)
      = db.setEntry (db.probe key).1 (.occupied key { o' with data := .list l }) := by
    simp only [putData, modifyObj, hfound, if_true]
    exact modifyAt_of_occupied hentry _
  have hvs : entryElements (.occupied key o') = vs := by
    rw [entryElements, Slot.value?, Option.bind_some, ho, Option.getD_some]
  have hws : entryElements (.occupied key { o' with data := .list l } : KvEntry S) = ws := by
    simp [entryElements, Slot.value?, DbObject.listContents, DbObject.list?, hr.contents]
  have hsum := sum_map_set entryElements hlt (.occupied key { o' with data := .list l })
  rw [hold, hvs, hws] at hsum
  rw [hput]
  exact hsum

/-- A table in which the list `vs` of a key became `ws`. -/
structure ListWrite (db db' : KvTable S) (key : CStr) (vs ws : List CStr) : Prop where
  list : db'.listAt key = some ws
  frame : ∀ k, k ≠ key → db'.kvGetObject k = db.kvGetObject k
  elements : db'.listElements + (vs : Multiset CStr) = db.listElements + (ws : Multiset CStr)

theorem ListWrite.listAt_of_ne {db' : KvTable S} (h : ListWrite db db' key vs ws) {k : CStr}
    (hk : k ≠ key) : db'.listAt k = db.listAt k := by
  rw [listAt, listAt, h.frame k hk]

theorem listWrite_putData [LinearOrder S] (h : db.Sound) (hl : db.listAt key = some vs)
    (hr : Dlist.Repr l ns ws) : ListWrite db (db.putData key (.list l)) key vs ws where
  list := by
    obtain ⟨o, hget, -⟩ := Option.bind_eq_some_iff.mp hl
    rw [listAt, kvGetObject_putData h.wf hget]
    exact hr.contents
  frame k hk := by
    rw [putData, kvGetObject_modifyObj h.wf, if_neg hk]
  elements := listElements_putList hl hr

/-! ## The pop and the push -/

section Steps

variable [LinearOrder S]

theorem Sound.kvRpop_list (h : db.Sound) (hl : db.listAt key = some vs) :
    ListWrite db (db.kvRpop key).1 key vs vs.dropLast ∧ (db.kvRpop key).2 = vs.getLast? := by
  obtain ⟨l, ns, hwr, hr⟩ := h.exists_list hl
  have hpop : db.kvRpop key = (db.putData key (.list l.dlistPopRight.1), l.dlistPopRight.2) := by
    simp [KvTable.kvRpop, KvTable.kvPop, hwr]
  rw [hpop]
  exact ⟨listWrite_putData h hl hr.popRight.1, hr.popRight.2⟩

/-- A push to a list that is there allocates no object. -/
theorem Sound.kvLpush_list (h : db.Sound) (hl : db.listAt key = some vs) (calloc : Calloc)
    (v : CStr) : ListWrite db (db.kvLpush calloc key v).1 key vs (v :: vs) := by
  obtain ⟨l, ns, hwr, hr⟩ := h.exists_list hl
  have hpush : (db.kvLpush calloc key v).1 = db.putData key (.list (l.dlistPushLeft v)) := by
    simp [KvTable.kvLpush, KvTable.kvPush, kvEnsureList, hwr]
  rw [hpush]
  exact listWrite_putData h hl (hr.pushLeft v)

/-- The pop of an empty list writes it back as it was. -/
theorem Sound.kvLpoprpush_nil (h : db.Sound) {src : CStr} (hl : db.listAt src = some [])
    (calloc : Calloc) (dst : CStr) : db.kvLpoprpush calloc src dst = (db, none) := by
  obtain ⟨l, ns, hwr, hr⟩ := h.exists_list hl
  have hnone : l.dlistPopRight.2 = none := hr.popRight.2
  have hlast : l.lastNode? = none := by
    rw [dlistPopRight_snd] at hnone
    exact Option.map_eq_none_iff.mp hnone
  have hpop : db.kvRpop src = (db, none) := by
    simp [KvTable.kvRpop, KvTable.kvPop, hwr, hnone, putData_pop_of_empty hwr hlast]
  rw [KvTable.kvLpoprpush, hpop]

/-- A call on an empty list changes nothing; on another it is the two
writes. -/
theorem Sound.kvLpoprpush_cons (h : db.Sound) {src dst : CStr} {us : List CStr} {v : CStr}
    (hl : db.listAt src = some (us ++ [v])) (calloc : Calloc) :
    db.kvLpoprpush calloc src dst = (((db.kvRpop src).1.kvLpush calloc dst v).1, some v) := by
  have hlast := (h.kvRpop_list hl).2
  rw [List.getLast?_concat] at hlast
  rw [KvTable.kvLpoprpush]
  cases hpop : db.kvRpop src with
  | mk t r =>
    rw [hpop] at hlast
    cases hlast
    rfl

/-- Both lists, the other keys and the bag of all elements after a call. -/
theorem Sound.kvLpoprpush_moves (h : db.Sound) {src dst : CStr} {us : List CStr} {v : CStr}
    (hsrc : db.listAt src = some (us ++ [v])) (hdst : db.listAt dst = some ws) (calloc : Calloc) :
    (db.kvLpoprpush calloc src dst).1.listAt dst
        = some (v :: if src = dst then us else ws) ∧
      (src ≠ dst → (db.kvLpoprpush calloc src dst).1.listAt src = some us) ∧
      (∀ k, k ≠ src → k ≠ dst →
        (db.kvLpoprpush calloc src dst).1.kvGetObject k = db.kvGetObject k) ∧
      (db.kvLpoprpush calloc src dst).1.listElements = db.listElements := by
  have hpop := (h.kvRpop_list hsrc).1
  rw [List.dropLast_concat] at hpop
  -- the list that the push finds
  have hmid : (db.kvRpop src).1.listAt dst = some (if src = dst then us else ws) := by
    by_cases heq : src = dst
    · rw [if_pos heq, ← heq]
      exact hpop.list
    · rw [if_neg heq, hpop.listAt_of_ne (Ne.symm heq), hdst]
  have hpush := (h.kvRpop src).kvLpush_list hmid calloc v
  rw [h.kvLpoprpush_cons hsrc calloc]
  refine ⟨hpush.list, fun hne => ?_, fun k hks hkd => ?_, ?_⟩
  · rw [hpush.listAt_of_ne hne]
    exact hpop.list
  · rw [hpush.frame k hkd, hpop.frame k hks]
  · have hout : (db.kvRpop src).1.listElements + {v} = db.listElements := by
      have helems := hpop.elements
      rw [← Multiset.coe_add, ← add_assoc, add_right_comm, Multiset.coe_singleton] at helems
      exact add_right_cancel helems
    have hin := hpush.elements
    rw [← Multiset.cons_coe, ← Multiset.singleton_add, ← add_assoc, hout] at hin
    exact add_right_cancel hin

/-! ## One key for both lists -/

/-- Each call turns the list by one place. -/
theorem Sound.rotations_list (h : db.Sound) (hl : db.listAt key = some vs) {callocs : List Calloc}
    (hle : callocs.length ≤ vs.length) :
    (db.rotations key callocs).listAt key = some (vs.rotate (vs.length - callocs.length)) := by
  induction callocs generalizing db vs with
  | nil =>
    simpa [KvTable.rotations] using hl
  | cons calloc callocs ih =>
    obtain ⟨us, v, rfl⟩ : ∃ us v, vs = us ++ [v] := by
      rcases List.eq_nil_or_concat vs with rfl | ⟨us, v, rfl⟩
      · simp at hle
      · exact ⟨us, v, List.concat_eq_append⟩
    simp only [List.length_append, List.length_cons, List.length_nil, Nat.add_le_add_iff_right]
      at hle
    have hone := (h.kvLpoprpush_moves hl hl calloc).1
    rw [if_pos rfl] at hone
    have hrest := ih (h.kvLpoprpush calloc key key) hone (Nat.le_succ_of_le hle)
    have hturn : us.length + 1 - callocs.length = us.length - callocs.length + 1 := by omega
    rw [List.length_cons, hturn, List.rotate_cons_succ] at hrest
    simpa [KvTable.rotations] using hrest

/-- The call as a whole. -/
theorem Sound.movesLast (h : db.Sound) {src dst : CStr} (hsrc : db.listAt src = some vs)
    (hdst : db.listAt dst = some ws) (calloc : Calloc) :
    MovesLast db (db.kvLpoprpush calloc src dst) src dst vs ws := by
  rcases List.eq_nil_or_concat vs with rfl | ⟨us, v, rfl⟩
  · rw [h.kvLpoprpush_nil hsrc calloc dst]
    exact ⟨rfl, fun _ => rfl, nofun, nofun, fun _ _ _ => rfl, rfl⟩
  · rw [List.concat_eq_append] at hsrc ⊢
    obtain ⟨hlist, hother, hframe, helems⟩ := h.kvLpoprpush_moves hsrc hdst calloc
    exact {
      returned := by
        rw [h.kvLpoprpush_cons hsrc calloc, List.getLast?_concat]
      idle := fun hnil => absurd hnil (by simp)
      moved := fun w hw hne => by
        obtain rfl : v = w := by simpa using hw
        rw [if_neg hne] at hlist
        rw [List.dropLast_concat]
        exact ⟨hother hne, hlist⟩
      turned := fun w hw heq => by
        obtain rfl : v = w := by simpa using hw
        subst heq
        rw [if_pos rfl] at hlist
        rw [List.dropLast_concat]
        exact hlist
      frame := hframe
      elements := helems }

end Steps

/-- **RPOPLPUSH conserves elements**: in every reachable table a call on
two lists takes the last string of the one to the front of the other,
changes no other key and keeps the bag of all elements; on an empty
source it changes nothing and returns NULL. With one key for both it is a
rotation, and as many calls as the list is long restore it. -/
theorem kvLpoprpush_conserves [LinearOrder S] (path : Option CStr) (file : Option (List UInt8))
    (ops : List (SoundOp S)) (calloc : Calloc) {src dst : CStr} {vs ws : List CStr}
    (hsrc : (soundRun path file ops).listAt src = some vs)
    (hdst : (soundRun path file ops).listAt dst = some ws) :
    MovesLast (soundRun path file ops) ((soundRun path file ops).kvLpoprpush calloc src dst)
        src dst vs ws ∧
      (∀ callocs : List Calloc, callocs.length ≤ vs.length →
        ((soundRun path file ops).rotations src callocs).listAt src
          = some (vs.rotate (vs.length - callocs.length))) ∧
      ∀ callocs : List Calloc, callocs.length = vs.length →
        ((soundRun path file ops).rotations src callocs).listAt src = some vs := by
  have h : (soundRun path file ops).Sound := Sound.soundRun path file ops
  refine ⟨h.movesLast hsrc hdst calloc, fun _ hle => h.rotations_list hsrc hle, fun _ heq => ?_⟩
  rw [h.rotations_list hsrc heq.le, heq, Nat.sub_self, List.rotate_zero]

/-- Two lists, of two strings and of one. -/
theorem kvLpoprpush_conserves_two :
    let ops : List (SoundOp Int) :=
      [⟨.rpush true (.lit "a") (.lit "x"), trivial⟩, ⟨.rpush true (.lit "a") (.lit "y"), trivial⟩,
        ⟨.rpush true (.lit "b") (.lit "z"), trivial⟩]
    MovesLast (soundRun none none ops)
        ((soundRun none none ops).kvLpoprpush true (.lit "a") (.lit "b")) (.lit "a") (.lit "b")
        [.lit "x", .lit "y"] [.lit "z"] ∧
      (∀ callocs : List Calloc, callocs.length ≤ 2 →
        ((soundRun none none ops).rotations (.lit "a") callocs).listAt (.lit "a")
          = some ([CStr.lit "x", .lit "y"].rotate (2 - callocs.length))) ∧
      ∀ callocs : List Calloc, callocs.length = 2 →
        ((soundRun none none ops).rotations (.lit "a") callocs).listAt (.lit "a")
          = some [.lit "x", .lit "y"] :=
  kvLpoprpush_conserves none none _ true (by decide) (by decide)

end KvTable

end AntzKV

/-
AntzKV.Core.DatabaseReadsTheorems — what the reads of `kvdb.c` answer is
what the database says.

The reads find a structure by its type test and look into it, so each is
the theory of its structure, brought to the value the structure stands
for. The enumerations come out in some order, each key, member or field
once; the order of a sorted set is its own.
-/
import AntzKV.Core.DatabaseTheorems

namespace AntzKV

open IndexSlice (slice)

variable {S : Type} [LinearOrder S]

/-! ## Ranks -/

namespace IsMap

variable {E : List (CStr × S × Nat)} {M : ScoreMap S}

omit [LinearOrder S] in
/-- An element of the list is an entry of the map. -/
theorem lookup_of_mem (h : IsMap E M) {x : CStr × S × Nat} (hx : x ∈ E) :
    M.lookup x.1 = some x.2.1 := by
  obtain ⟨A, B, rfl⟩ := List.append_of_mem hx
  obtain ⟨m, s, l⟩ := x
  rw [← h.score m, find?_middle h.notMem_of_middle, if_pos rfl]

omit [LinearOrder S] in
/-- The names of the elements are the keys of the map, each once. -/
theorem lists (h : IsMap E M) : Lists (E.map (·.1)) M.keys := by
  refine ⟨h.nodup, ?_⟩
  ext m
  rw [List.mem_toFinset, Finmap.mem_keys, h.mem_iff]

end IsMap

/-- The nodes of level 0 are ranked. -/
theorem Zskiplist.Repr.ranked {z : Zskiplist S} {L : List Nat} (h : Zskiplist.Repr z L)
    {M : ScoreMap S} (hM : IsMap z.elements M) : Ranked M (z.elements.map (·.1)) := by
  refine ⟨hM.lists, ?_⟩
  have hsorted : z.elements.Pairwise fun a b => toLex (a.2.1, a.1) ≤ toLex (b.2.1, b.1) := by
    rw [h.elements_eq_nodesOf, List.pairwise_map]
    exact h.sorted_nodesOf
  rw [List.pairwise_map]
  refine (hsorted.and (List.pairwise_map.mp hM.nodup)).imp_of_mem fun ha hb hab s hs t ht => ?_
  obtain rfl := Option.some.inj ((hM.lookup_of_mem ha).symm.trans hs)
  obtain rfl := Option.some.inj ((hM.lookup_of_mem hb).symm.trans ht)
  rcases Prod.Lex.le_iff.mp hab.1 with hlt | ⟨heq, hle⟩
  · exact .inl hlt
  · exact .inr ⟨heq, lt_of_le_of_ne hle hab.2⟩

namespace KvTable.Implements

variable {db : KvTable S} {d : Database S} {key : CStr} (h : db.Implements d)

include h

/-! ## What the type test finds -/

/-- The string of a key is the string of its value. -/
theorem string_eq (key : CStr) : db.wrObj DbObject.string? key = d.string key := by
  cases hs : db.wrObj DbObject.string? key with
  | none => exact (h.read_eq_none View.string hs).symm
  | some s =>
    obtain ⟨_, hc, rfl⟩ := h.exists_read View.string hs
    exact hc.symm

/-- There is no list and there are no elements, or the list has them. -/
theorem list_cases (key : CStr) :
    (db.wrObj DbObject.list? key = none ∧ d.elements key = []) ∨
      ∃ l ns, db.wrObj DbObject.list? key = some l ∧ Dlist.Repr l ns (d.elements key) := by
  cases hl : db.wrObj DbObject.list? key with
  | none =>
    have hnone : d.read Value.list? key = none := h.read_eq_none View.list hl
    exact .inl ⟨rfl, by rw [Database.elements, hnone]; rfl⟩
  | some l =>
    obtain ⟨vs, hc, ns, hr⟩ := h.exists_read View.list hl
    have hsome : d.read Value.list? key = some vs := hc
    exact .inr ⟨l, ns, rfl, by rw [Database.elements, hsome]; exact hr⟩

/-- The same of a set and its members. -/
theorem set_cases (key : CStr) :
    (db.wrObj DbObject.set? key = none ∧ d.members key = ∅) ∨
      ∃ ht m, db.wrObj DbObject.set? key = some ht ∧ ht.Holds m ∧ ht.keySet = d.members key := by
  cases hs : db.wrObj DbObject.set? key with
  | none =>
    have hnone : d.read Value.set? key = none := h.read_eq_none View.set hs
    exact .inl ⟨rfl, by rw [Database.members, hnone]; rfl⟩
  | some ht =>
    obtain ⟨ms, hc, ⟨m, hm⟩, hset⟩ := h.exists_read View.set hs
    have hsome : d.read Value.set? key = some ms := hc
    exact .inr ⟨ht, m, rfl, hm, by rw [Database.members, hsome]; exact hset⟩

/-- The same of a hash and its fields. -/
theorem hash_cases (key : CStr) :
    (db.wrObj DbObject.hash? key = none ∧ d.fields key = ∅) ∨
      ∃ ht, db.wrObj DbObject.hash? key = some ht ∧
        ht.Holds fun f => ((d.fields key).lookup f).map some := by
  cases hs : db.wrObj DbObject.hash? key with
  | none =>
    have hnone : d.read Value.hash? key = none := h.read_eq_none View.hash hs
    exact .inl ⟨rfl, by rw [Database.fields, hnone]; rfl⟩
  | some ht =>
    obtain ⟨fs, hc, hm⟩ := h.exists_read View.hash hs
    have hsome : d.read Value.hash? key = some fs := hc
    exact .inr ⟨ht, rfl, by rw [Database.fields, hsome]; exact hm⟩

/-- The same of a sorted set and its scores. -/
theorem zset_cases (key : CStr) :
    (db.wrObj DbObject.zset? key = none ∧ d.scores key = ∅) ∨
      ∃ z L, db.wrObj DbObject.zset? key = some z ∧ Zskiplist.Repr z L ∧
        IsMap z.elements (d.scores key) := by
  cases hs : db.wrObj DbObject.zset? key with
  | none =>
    have hnone : d.read Value.zset? key = none := h.read_eq_none View.zset hs
    exact .inl ⟨rfl, by rw [Database.scores, hnone]; rfl⟩
  | some z =>
    obtain ⟨M, hc, ⟨L, hr⟩, hM⟩ := h.exists_read View.zset hs
    have hsome : d.read Value.zset? key = some M := hc
    exact .inr ⟨z, L, rfl, hr, by rw [Database.scores, hsome]; exact hM⟩

/-- The elements of a sorted set, of an empty one without an object. -/
theorem isMap_zsetElements (key : CStr) : IsMap (db.zsetElements key) (d.scores key) := by
  rcases h.zset_cases key with ⟨hz, hM⟩ | ⟨z, L, hz, -, hM⟩
  · rw [zsetElements, hz, hM]
    exact ⟨List.nodup_nil, fun m => by simp⟩
  · rw [zsetElements, hz]
    exact hM

/-! ## Strings, keys and lists -/

/-- `kv_getrange` is the slice of the bytes; an absent key counts as empty. -/
theorem kvGetrange_eq (key : CStr) (start stop : Int) :
    db.kvGetrange key start stop
      = .ofBuf (slice ((d.string key).elim [] CStr.bytes) start stop) := by
  have hstr : db.getStringObj key = d.string key := h.string_eq key
  cases hs : d.string key with
  | none =>
    rw [KvTable.kvGetrange, hstr, hs]
    rfl
  | some s => exact KvTable.kvGetrange_eq (hstr.trans hs) start stop

theorem kvStrlen_eq (key : CStr) : db.kvStrlen key = (d.string key).map CStr.strlen := by
  rw [kvStrlen, getStringObj, h.string_eq]

/-- TYPE tells the type of the value. -/
theorem type_eq (key : CStr) :
    (db.kvGetObject key).map DbObject.type = (d key).map (·.value.type) := by
  cases hget : db.kvGetObject key with
  | none =>
    rw [h.eq_none hget]
    rfl
  | some o =>
    obtain ⟨e, hd, he⟩ := h.exists_item hget
    rw [hd]
    exact congrArg some he.1.type_eq

theorem kvExists_eq (key : CStr) : db.kvExists key = (d key).isSome := by
  rw [Bool.eq_iff_iff, KvTable.kvExists, probe_found_iff, ← h.isSome_eq, Option.isSome_iff_exists]

/-- -2 without the key, -1 without an expiry. -/
theorem kvTtlMs_eq (key : CStr) :
    db.kvTtlMs key = (d key).elim (-2) fun e => if e.ttl < 0 then -1 else e.ttl := by
  cases hget : db.kvGetObject key with
  | none => simp only [kvTtlMs, hget, h.eq_none hget, Option.elim_none]
  | some o =>
    obtain ⟨e, hd, he⟩ := h.exists_item hget
    simp only [kvTtlMs, hget, hd, Option.elim_some, he.2]

theorem kvLlen_eq (key : CStr) : db.kvLlen key = (d.elements key).length := by
  rcases h.list_cases key with ⟨hl, hd⟩ | ⟨l, ns, hl, hr⟩
  · rw [kvLlen, hl, hd]
    rfl
  · rw [kvLlen, hl]
    exact hr.len

/-- `kv_lindex` reads inside the list only. -/
theorem kvLindex_eq (key : CStr) (idx : Int) :
    db.kvLindex key idx
      = if RefList.InRange (d.elements key) idx then
          (d.elements key)[(RefList.position (d.elements key) idx).toNat]? else none := by
  rcases h.list_cases key with ⟨hl, hd⟩ | ⟨l, ns, hl, hr⟩
  · rw [kvLindex, hl, hd]
    simp
  · rw [kvLindex, hl, Option.bind_some]
    exact hr.dlistGet_eq idx

/-! ## Sets and hashes -/

theorem kvSismember_eq (key member : CStr) :
    db.kvSismember key member = decide (member ∈ d.members key) := by
  rcases h.set_cases key with ⟨hs, hd⟩ | ⟨ht, m, hs, hm, hset⟩
  · rw [kvSismember, hs, hd]
    rfl
  · rw [kvSismember, hs, ← hset, Option.elim_some, Bool.eq_iff_iff, decide_eq_true_iff,
      hm.mem_keySet]

theorem kvScard_eq (key : CStr) : db.kvScard key = (d.members key).card := by
  rcases h.set_cases key with ⟨hs, hd⟩ | ⟨ht, m, hs, hm, hset⟩
  · rw [kvScard, hs, hd]
    rfl
  · rw [kvScard, hs, ← hset, hm.card_keySet, Option.elim_some]

/-- SMEMBERS lists each member once, in some order. -/
theorem lists_kvSmembers (key : CStr) : Lists (db.kvSmembers key) (d.members key) := by
  rcases h.set_cases key with ⟨hs, hd⟩ | ⟨ht, m, hs, hm, hset⟩
  · rw [kvSmembers, hs, hd]
    exact ⟨List.nodup_nil, rfl⟩
  · rw [kvSmembers, hs, Option.elim_some, ← hset]
    refine ⟨?_, rfl⟩
    rw [SimpleHt.htKeys, hm.entries_eq]
    exact hm.table.nodup

theorem kvHget_eq (key field : CStr) : db.kvHget key field = (d.fields key).lookup field := by
  rcases h.hash_cases key with ⟨hs, hd⟩ | ⟨ht, hs, hm⟩
  · rw [kvHget, hs, hd]
    rfl
  · rw [kvHget, hs, Option.bind_some, SimpleHt.htGet, hm.htFind]
    cases (d.fields key).lookup field <;> rfl

theorem kvHexists_eq (key field : CStr) :
    db.kvHexists key field = decide (field ∈ d.fields key) := by
  rcases h.hash_cases key with ⟨hs, hd⟩ | ⟨ht, hs, hm⟩
  · rw [kvHexists, hs, hd]
    exact (decide_eq_false Finmap.notMem_empty).symm
  · rw [kvHexists, hs, Option.elim_some, hm.htExists_eq, Option.isSome_map, Bool.eq_iff_iff,
      Finmap.lookup_isSome, decide_eq_true_iff]

theorem kvHlen_eq (key : CStr) : db.kvHlen key = (d.fields key).keys.card := by
  rcases h.hash_cases key with ⟨hs, hd⟩ | ⟨ht, hs, hm⟩
  · rw [kvHlen, hs, hd]
    rfl
  · rw [kvHlen, hs, ← SimpleHt.keySet_of_fields hm, hm.card_keySet, Option.elim_some]

/-- The fields in the order of the buckets, and what the lookups of the
other two enumerations find. -/
theorem hash_enumerated (key : CStr) :
    Lists (db.kvHkeys key) (d.fields key).keys ∧
      db.kvHvals key
        = (db.kvHkeys key).map (fun f => ((d.fields key).lookup f).getD (.lit "")) ∧
      db.kvHgetall key
        = (db.kvHkeys key).flatMap fun f => [f, ((d.fields key).lookup f).getD (.lit "")] := by
  rcases h.hash_cases key with ⟨hs, hd⟩ | ⟨ht, hs, hm⟩
  · rw [kvHkeys, kvHvals, kvHgetall, hs, hd]
    exact ⟨⟨List.nodup_nil, rfl⟩, rfl, rfl⟩
  · have hget : ∀ f, ht.htGet f = (d.fields key).lookup f := fun f => by
      rw [← h.kvHget_eq, kvHget, hs, Option.bind_some]
    rw [kvHkeys, kvHvals, kvHgetall, hs, Option.elim_some, Option.elim_some, Option.elim_some]
    refine ⟨⟨?_, ?_⟩, ?_, ?_⟩
    · rw [SimpleHt.htKeys, hm.entries_eq]
      exact hm.table.nodup
    · exact SimpleHt.keySet_of_fields hm
    · rw [hm.htItems_eq]
      simp only [hget]
    · simp only [hget]

/-! ## Sorted sets -/

/-- The walk along level 0 finds the score of the map. -/
theorem kvZscore_eq (key member : CStr) :
    db.kvZscore key member = (d.scores key).lookup member := by
  rw [KvTable.kvZscore_eq, (h.isMap_zsetElements key).score]

/-- `length` counts the members. -/
theorem kvZcard_eq (key : CStr) : db.kvZcard key = (d.scores key).keys.card := by
  rcases h.zset_cases key with ⟨hz, hM⟩ | ⟨z, L, hz, hr, hM⟩
  · rw [kvZcard, hz, hM]
    rfl
  · rw [kvZcard, hz, Option.elim_some, hM.card_eq, hr.length_elements]

/-- The order of the sorted set is by score and then by name. -/
theorem ranked (key : CStr) : Ranked (d.scores key) (db.zsetMembers key) := by
  rcases h.zset_cases key with ⟨hz, hM⟩ | ⟨z, L, hz, hr, hM⟩
  · rw [zsetMembers, zsetElements, hz, hM]
    exact ⟨⟨List.nodup_nil, rfl⟩, List.Pairwise.nil⟩
  · rw [zsetMembers, zsetElements, hz]
    exact hr.ranked hM

omit h [LinearOrder S] in
/-- The position a slice of one element comes from. -/
theorem idxOf_of_slice {l : List CStr} {m : CStr} {r : Nat} (hnodup : l.Nodup)
    (hr : r < l.length) (hslice : slice l r r = [m]) : l.idxOf m = r := by
  have hat : l[r]? = some l[r] := List.getElem?_eq_getElem hr
  have hm : l[r] = m := by
    rw [IndexSlice.slice_self hat] at hslice
    exact List.singleton_inj.mp hslice
  rw [← hm, hnodup.idxOf_getElem]

/-- The two ranks are places in that order, from either end. -/
theorem kvZrank_eq (key member : CStr) :
    db.kvZrank key member
        = (if member ∈ db.zsetMembers key then ((db.zsetMembers key).idxOf member : Int) else -1) ∧
      db.kvZrevrank key member
        = (if member ∈ db.zsetMembers key then ((db.zsetMembers key).reverse.idxOf member : Int)
          else -1) := by
  have hranks := h.sound.rankRangeAgree key member
  have hlists := (h.ranked key).1
  have hlen : db.kvZcard key = (db.zsetMembers key).length := by
    rw [h.kvZcard_eq, ← hlists.2, List.toFinset_card_of_nodup hlists.1]
  by_cases hm : member ∈ db.zsetMembers key
  · obtain ⟨r, hrank, hlt, hrange⟩ := hranks.rank hm
    obtain ⟨r', hrank', hlt', hrange'⟩ := hranks.revrank hm
    rw [hlen] at hlt hlt'
    rw [h.sound.kvZrange_eq] at hrange
    rw [h.sound.kvZrevrange_eq] at hrange'
    rw [if_pos hm, if_pos hm, hrank, hrank', idxOf_of_slice hlists.1 hlt hrange,
      idxOf_of_slice (List.nodup_reverse.mpr hlists.1) (by rwa [List.length_reverse]) hrange']
    exact ⟨rfl, rfl⟩
  · rw [if_neg hm, if_neg hm]
    exact hranks.absent hm

/-! ## The commands -/

/-- **Every read answers as the database does.** -/
theorem answers (r : ReadCmd) : r.Answers d (r.answer db) := by
  cases r with
  | get key => exact congrArg ReadAnswer.bulk (h.string_eq key)
  | getrange key start stop => exact congrArg (fun t => ReadAnswer.bulk (some t)) (h.kvGetrange_eq ..)
  | strlen key =>
    show (db.kvStrlen key).elim ReadAnswer.nil (fun n => .int n) = _
    rw [h.kvStrlen_eq]
    cases d.string key <;> rfl
  | existsKeys ks =>
    have hcount : (ks.countP fun k => db.kvExists k) = ks.countP fun k => (d k).isSome :=
      List.countP_congr fun k _ => by rw [h.kvExists_eq]
    exact congrArg (fun n : Nat => ReadAnswer.int n) hcount
  | type key => exact congrArg ReadAnswer.type (h.type_eq key)
  | keys =>
    refine ⟨db.kvKeys, rfl, nodup_kvKeys h.wf, fun k => ?_⟩
    rw [mem_kvKeys h.wf, ← h.isSome_eq, Option.isSome_iff_exists]
  | llen key => exact congrArg (fun n : Nat => ReadAnswer.int n) (h.kvLlen_eq key)
  | lindex key idx => exact congrArg ReadAnswer.bulk (h.kvLindex_eq key idx)
  | sismember key member =>
    show ReadAnswer.int (if db.kvSismember key member then 1 else 0) = _
    simp only [h.kvSismember_eq, decide_eq_true_eq]
  | scard key => exact congrArg (fun n : Nat => ReadAnswer.int n) (h.kvScard_eq key)
  | smembers key => exact ⟨_, rfl, h.lists_kvSmembers key⟩
  | hget key field => exact congrArg ReadAnswer.bulk (h.kvHget_eq key field)
  | hexists key field =>
    show ReadAnswer.int (if db.kvHexists key field then 1 else 0) = _
    simp only [h.kvHexists_eq, decide_eq_true_eq]
  | hlen key => exact congrArg (fun n : Nat => ReadAnswer.int n) (h.kvHlen_eq key)
  | hkeys key => exact ⟨_, rfl, (h.hash_enumerated key).1⟩
  | hvals key =>
    obtain ⟨hl, hv, -⟩ := h.hash_enumerated key
    exact ⟨_, hl, congrArg ReadAnswer.array hv⟩
  | hgetall key =>
    obtain ⟨hl, -, hp⟩ := h.hash_enumerated key
    exact ⟨_, hl, congrArg ReadAnswer.array hp⟩
  | zscore key member => exact congrArg ReadAnswer.score (h.kvZscore_eq key member)
  | zcard key => exact congrArg (fun n : Nat => ReadAnswer.int n) (h.kvZcard_eq key)
  | zrank key member =>
    exact ⟨_, h.ranked key, congrArg ReadAnswer.int (h.kvZrank_eq key member).1⟩
  | zrevrank key member =>
    exact ⟨_, h.ranked key, congrArg ReadAnswer.int (h.kvZrank_eq key member).2⟩
  | zrange key start stop =>
    exact ⟨_, h.ranked key, congrArg ReadAnswer.array (h.sound.kvZrange_eq key start stop)⟩
  | zrevrange key start stop =>
    exact ⟨_, h.ranked key, congrArg ReadAnswer.array (h.sound.kvZrevrange_eq key start stop)⟩

end KvTable.Implements

end AntzKV

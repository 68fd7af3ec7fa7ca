/-
AntzKV.Core.HashTheorems — the enumerations of a hash agree with its
lookups.

`ht_keys` and `ht_items` walk the same buckets and stop at `count`, which
is the number of nodes; so they list all nodes, in the same order, each
key once. `kv_hgetall` looks each key up again and finds the value of its
node. The arrays are sized by `count` and full in the end.
-/
import AntzKV.Core.OutArray
import AntzKV.Core.SoundTheorems

namespace AntzKV

/-! ## The loops -/

namespace SimpleHt

variable {ht : SimpleHt} {m : HtMap}

/-- The loop along one bucket, with room for its nodes. -/
theorem bucketOut_eq (f : ShtNode → CStr) {n : Nat} (nodes : List ShtNode) (l : List CStr)
    (hroom : l.length + nodes.length ≤ n) :
    nodes.foldlM (fun out x => if out.count < n then out.push (f x) else some out)
        (OutArray.partly n l)
      = some (.partly n (l ++ nodes.map f)) := by
  induction nodes generalizing l with
  | nil => simp
  | cons x nodes ih =>
    rw [List.length_cons] at hroom
    have hlt : l.length < n := by omega
    have hpush : (if (OutArray.partly n l).count < n then (OutArray.partly n l).push (f x)
        else some (OutArray.partly n l)) = some (.partly n (l ++ [f x])) :=
      (if_pos hlt).trans (OutArray.push_partly hlt (f x))
    rw [List.foldlM_cons, hpush, Option.bind_eq_bind, Option.bind_some,
      ih (l ++ [f x]) (by rw [List.length_append, List.length_singleton]; omega)]
    simp

theorem bucketsOut_eq (f : ShtNode → CStr) {n : Nat} (buckets : List (List ShtNode))
    (l : List CStr) (hroom : l.length + buckets.flatten.length ≤ n) :
    buckets.foldlM (fun out bucket =>
        bucket.foldlM (fun out x => if out.count < n then out.push (f x) else some out) out)
        (OutArray.partly n l)
      = some (.partly n (l ++ buckets.flatten.map f)) := by
  induction buckets generalizing l with
  | nil => simp
  | cons bucket buckets ih =>
    rw [List.flatten_cons, List.length_append] at hroom
    rw [List.foldlM_cons, bucketOut_eq f bucket l (by omega), Option.bind_eq_bind,
      Option.bind_some, ih _ (by rw [List.length_append, List.length_map]; omega)]
    simp

/-- Both walks list every node. -/
theorem Holds.nodesOut_eq (h : ht.Holds m) (f : ShtNode → CStr) :
    ht.nodesOut f = some (.ofList (ht.entries.map f)) := by
  rw [nodesOut, OutArray.malloc_eq, bucketsOut_eq f ht.buckets [] (by simp [h.count]),
    List.nil_append, h.entries_eq, OutArray.partly_full (by rw [List.length_map, h.count])]

/-- The loop over the keys copies two strings for each. -/
theorem pairLoop_eq (ht : SimpleHt) {n : Nat} (ks l : List CStr)
    (hroom : l.length + ks.length * 2 ≤ n) :
    (ks.map some).foldlM (fun out k =>
        k.bind fun k => (out.push k).bind fun out => out.push ((ht.htGet k).getD (CStr.lit "")))
        (OutArray.partly n l)
      = some (.partly n (l ++ ks.flatMap fun k => [k, (ht.htGet k).getD (.lit "")])) := by
  induction ks generalizing l with
  | nil => simp
  | cons k ks ih =>
    rw [List.length_cons] at hroom
    have hone : (OutArray.partly n l).push k = some (.partly n (l ++ [k])) :=
      OutArray.push_partly (by omega) k
    have htwo : (OutArray.partly n (l ++ [k])).push ((ht.htGet k).getD (CStr.lit ""))
        = some (.partly n (l ++ [k, (ht.htGet k).getD (.lit "")])) := by
      rw [OutArray.push_partly (by rw [List.length_append, List.length_singleton]; omega)]
      simp
    rw [List.map_cons, List.foldlM_cons, Option.bind_some, hone, Option.bind_some, htwo,
      Option.bind_eq_bind, Option.bind_some,
      ih _ (by simp only [List.length_append, List.length_cons, List.length_nil]; omega)]
    simp

theorem Holds.pairsOut_eq (h : ht.Holds m) :
    ht.pairsOut (.ofList ht.htKeys)
      = some (.ofList (ht.htKeys.flatMap fun k => [k, (ht.htGet k).getD (.lit "")])) := by
  have hlen : ht.htKeys.length = ht.count := by
    rw [htKeys, h.entries_eq, List.length_map, h.count]
  have hall : (OutArray.ofList ht.htKeys).cells.take (OutArray.ofList ht.htKeys).count
      = ht.htKeys.map some := List.take_of_length_le (by simp [OutArray.ofList])
  have hpairs : (ht.htKeys.flatMap fun k => [k, (ht.htGet k).getD (.lit "")]).length
      = ht.count * 2 := by
    rw [List.length_flatMap, ← hlen]
    simp
  rw [pairsOut, hall, OutArray.malloc_eq, pairLoop_eq ht ht.htKeys [] (by simp [hlen]),
    List.nil_append, OutArray.partly_full hpairs]

/-! ## Keys and values -/

/-- A node is what a lookup of its key finds. -/
theorem Holds.htGet_of_mem (h : ht.Holds m) {x : ShtNode} (hx : x ∈ ht.entries) :
    ht.htGet x.1 = x.2 := by
  rw [h.entries_eq] at hx
  rw [SimpleHt.htGet, h.htFind, (h.table.entries x.1 x.2).mp hx]
  rfl

/-- What `kv_hgetall` looks up is what `ht_items` lists. -/
theorem Holds.htItems_eq (h : ht.Holds m) :
    ht.htItems = ht.htKeys.map fun k => (ht.htGet k).getD (.lit "") := by
  rw [htItems, htKeys, List.map_map]
  refine List.map_congr_left fun x hx => ?_
  rw [Function.comp_apply, h.htGet_of_mem hx]

theorem Holds.htGet_htKeys (h : ht.Holds m) (hval : ∀ k, m k ≠ some none) :
    ht.htKeys.map ht.htGet = ht.htItems.map some := by
  rw [htKeys, htItems, List.map_map, List.map_map]
  refine List.map_congr_left fun x hx => ?_
  have hget := h.htGet_of_mem hx
  have hsome : x.2 ≠ none := by
    intro hnone
    rw [h.entries_eq, h.table.entries, hnone] at hx
    exact hval _ hx
  obtain ⟨v, hv⟩ := Option.ne_none_iff_exists'.mp hsome
  simp [hget, hv]

theorem Holds.count_htKeys (h : ht.Holds m) (k : CStr) :
    ht.htKeys.count k = if ht.htExists k then 1 else 0 := by
  have hnodup : ht.htKeys.Nodup := by
    rw [htKeys, h.entries_eq]
    exact h.table.nodup
  have hmem : k ∈ ht.htKeys ↔ ht.htExists k = true := by
    rw [← h.mem_keySet, keySet, List.mem_toFinset]
  rw [hnodup.count]
  simp only [hmem]

end SimpleHt

/-! ## The commands -/

namespace KvTable

variable {S : Type}

/-- The enumerations of a hash and its lookups say the same. -/
structure HashEnumerates (db : KvTable S) (key : CStr) : Prop where
  hkeys : db.kvHkeysOut key = some (.ofList (db.kvHkeys key))
  hvals : db.kvHvalsOut key = some (.ofList (db.kvHvals key))
  hgetall : db.kvHgetallOut key = some (.ofList (db.kvHgetall key))
  length_hkeys : (db.kvHkeys key).length = db.kvHlen key
  length_hvals : (db.kvHvals key).length = db.kvHlen key
  lookup : (db.kvHvals key).map some = (db.kvHkeys key).map (db.kvHget key)
  interleaved : db.kvHgetall key
    = ((db.kvHkeys key).zip (db.kvHvals key)).flatMap fun p => [p.1, p.2]
  once : ∀ field, (db.kvHkeys key).count field = if db.kvHexists key field then 1 else 0

theorem hashEnumerates_of_none {db : KvTable S} {key : CStr}
    (h : db.wrObj DbObject.hash? key = none) : db.HashEnumerates key := by
  constructor <;>
    simp [kvHkeysOut, kvHvalsOut, kvHgetallOut, kvHkeys, kvHvals, kvHgetall, kvHlen, kvHexists, h,
      OutArray.null, OutArray.ofList]

variable [LinearOrder S]

theorem Sound.hashEnumerates {db : KvTable S} (h : db.Sound) (key : CStr) :
    db.HashEnumerates key := by
  cases hs : db.wrObj DbObject.hash? key with
  | none => exact hashEnumerates_of_none hs
  | some ht =>
    obtain ⟨m, hm, hval⟩ := h.hash hs
    have hkeys : db.kvHkeys key = ht.htKeys := by rw [kvHkeys, hs, Option.elim_some]
    have hvals : db.kvHvals key = ht.htItems := by rw [kvHvals, hs, Option.elim_some]
    have hgetall : db.kvHgetall key
        = ht.htKeys.flatMap fun k => [k, (ht.htGet k).getD (.lit "")] := by
      rw [kvHgetall, hs, Option.elim_some]
    have hget : db.kvHget key = ht.htGet := by
      funext field
      rw [kvHget, hs, Option.bind_some]
    have hlookup := hm.htGet_htKeys hval
    have hcount : ht.entries.length = ht.count := by rw [hm.entries_eq, hm.count]
    refine ⟨?_, ?_, ?_, ?_, ?_, ?_, ?_, fun field => ?_⟩
    · rw [kvHkeysOut, hs, hkeys]
      exact hm.nodesOut_eq _
    · rw [kvHvalsOut, hs, hvals]
      exact hm.nodesOut_eq _
    · have hout : ht.htKeysOut = some (.ofList ht.htKeys) := hm.nodesOut_eq _
      rw [kvHgetallOut, hs, hgetall, Option.elim_some, hout, Option.bind_some, hm.pairsOut_eq]
    · rw [hkeys, kvHlen, hs, Option.elim_some, SimpleHt.htKeys, List.length_map, hcount]
    · rw [hvals, kvHlen, hs, Option.elim_some, SimpleHt.htItems, List.length_map, hcount]
    · rw [hkeys, hvals, hget, hlookup]
    · have hzip : (ht.htKeys.map fun k => (k, (ht.htGet k).getD (.lit "")))
          = ht.htKeys.zip ht.htItems := by
        refine List.zip_of_prod ?_ ?_
        · rw [List.map_map]
          exact List.map_id _
        · rw [hm.htItems_eq, List.map_map]
          rfl
      rw [hgetall, hkeys, hvals, ← hzip, List.flatMap_map]
    · rw [hkeys, kvHexists, hs, Option.elim_some]
      exact hm.count_htKeys field

/-- **Hash enumeration agrees with lookup**, for every key of every
reachable table. -/
theorem hash_enumerates (path : Option CStr) (file : Option (List UInt8)) (ops : List (SoundOp S))
    (key : CStr) : (soundRun path file ops).HashEnumerates key :=
  (Sound.soundRun path file ops).hashEnumerates key

end KvTable

end AntzKV

/-
AntzKV.Cluster.FieldTheorems — `parse_field_str` finds the first word that
begins with `key=`.

The loop of the source jumps to the next occurrence of the key and, when
it rejects one, over it. `fieldLoop_eq` says that it comes to its end, and
to the same end as the search that goes byte by byte: nothing that is
passed over begins a word, because the key has no white space in it. What
that search finds is known from its words (`fieldValue_eq`).
-/
import AntzKV.Cluster.ConfLoadTheorems

namespace AntzKV

open Scanf (isSpace)

/-! ## The loop that jumps -/

section Loop

variable {text key : List UInt8} {p i : Nat}

theorem startAt_succ (hp : p < text.length) : startAt text (p + 1) = isSpace text[p] := by
  simp [startAt, hp]

/-- Bytes that are passed over. -/
theorem fieldValue_skip (skip : Nat) (hp : p + skip ≤ text.length) :
    fieldValue key skip (startAt text p) (text.drop p)
      = fieldValue key 0 (startAt text (p + skip)) (text.drop (p + skip)) := by
  induction skip generalizing p with
  | zero => rfl
  | succ skip ih =>
    have hlt : p < text.length := by omega
    rw [List.drop_eq_getElem_cons hlt, fieldValue, ← startAt_succ hlt, ih (by omega)]
    rw [Nat.add_assoc, Nat.add_comm 1 skip]

/-- Where the key does not stand the search goes on at the next byte. -/
theorem fieldValue_of_no_key (hp : p < text.length)
    (hpre : key.isPrefixOf (text.drop p) = false) :
    fieldValue key 0 (startAt text p) (text.drop p)
      = fieldValue key 0 (startAt text (p + 1)) (text.drop (p + 1)) := by
  rw [List.drop_eq_getElem_cons hp] at hpre ⊢
  rw [fieldValue, hpre, if_neg (by decide), startAt_succ hp]

/-- Where it stands the field is found, or the occurrence passed over. -/
theorem fieldValue_of_key (hne : key ≠ []) (hpre : key <+: text.drop p) :
    fieldValue key 0 (startAt text p) (text.drop p)
      = if startAt text p && text[p + key.length]? == some 61 then
          some ((text.drop (p + key.length + 1)).takeWhile (!isSpace ·))
        else fieldValue key 0 (startAt text (p + key.length)) (text.drop (p + key.length)) := by
  have hpos : 0 < key.length := List.length_pos_of_ne_nil hne
  have hle : key.length ≤ text.length - p := by
    simpa using hpre.length_le
  have hp : p < text.length := by omega
  have hsum : p + 1 + (key.length - 1) = p + key.length := by omega
  have hskip : fieldValue key (key.length - 1) (startAt text (p + 1)) (text.drop (p + 1))
      = fieldValue key 0 (startAt text (p + key.length)) (text.drop (p + key.length)) := by
    rw [fieldValue_skip _ (by omega), hsum]
  have hbool := List.isPrefixOf_iff_prefix.mpr hpre
  have hafter : (text.drop p)[key.length]? = text[p + key.length]? := by
    rw [List.getElem?_drop]
  have hvalue : (text.drop p).drop (key.length + 1) = text.drop (p + key.length + 1) := by
    rw [List.drop_drop, Nat.add_assoc]
  rw [startAt_succ hp] at hskip
  rw [List.drop_eq_getElem_cons hp] at hbool hafter hvalue ⊢
  rw [fieldValue, if_pos hbool, hafter, hvalue, hskip]

theorem fieldValue_of_strstr_eq_none {s : List UInt8} (h : strstr key s = none) (start : Bool) :
    fieldValue key 0 start s = none := by
  induction s generalizing start with
  | nil => rfl
  | cons b s ih =>
    rw [strstr] at h
    split at h
    · cases h
    · next hpre =>
      rw [fieldValue, if_neg hpre]
      exact ih (Option.map_eq_none_iff.mp h) (isSpace b)

/-- The search gets to the occurrence that `strstr` finds. -/
theorem fieldValue_of_strstr (h : strstr key (text.drop p) = some i) :
    key <+: text.drop (p + i) ∧
      fieldValue key 0 (startAt text p) (text.drop p)
        = fieldValue key 0 (startAt text (p + i)) (text.drop (p + i)) := by
  induction i generalizing p with
  | zero =>
    refine ⟨?_, rfl⟩
    by_contra hpre
    have hbool : ¬ key.isPrefixOf (text.drop p) = true := fun hb =>
      hpre (List.isPrefixOf_iff_prefix.mp hb)
    rw [Nat.add_zero] at hpre
    cases hs : text.drop p with
    | nil =>
      rw [hs, strstr, if_neg (hs ▸ hbool)] at h
      cases h
    | cons b s =>
      rw [hs, strstr, if_neg (hs ▸ hbool)] at h
      obtain ⟨j, -, hj⟩ := Option.map_eq_some_iff.mp h
      exact absurd hj (by omega)
  | succ i ih =>
    rcases Nat.lt_or_ge p text.length with hp | hp
    · have hbool : key.isPrefixOf (text.drop p) = false := by
        by_contra htrue
        rw [List.drop_eq_getElem_cons hp] at h htrue
        rw [strstr, if_pos (by simpa using htrue)] at h
        cases h
      have hrest : strstr key (text.drop (p + 1)) = some i := by
        have hcons := List.drop_eq_getElem_cons hp
        rw [hcons, strstr, ← hcons, hbool, if_neg (by decide)] at h
        obtain ⟨j, hj, hji⟩ := Option.map_eq_some_iff.mp h
        obtain rfl : j = i := by omega
        exact hj
      have hsum : p + 1 + i = p + (i + 1) := by omega
      obtain ⟨hpre, hsame⟩ := ih hrest
      rw [hsum] at hpre hsame
      exact ⟨hpre, (fieldValue_of_no_key hp hbool).trans hsame⟩
    · rw [List.drop_of_length_le hp, strstr] at h
      split at h <;> cases h

/-- **The loop of `parse_field_str` ends**, as the search byte by byte
does. -/
theorem fieldLoop_eq (hne : key ≠ []) {fuel : Nat} (hp : p ≤ text.length)
    (hfuel : text.length - p < fuel) :
    fieldLoop text key fuel p = some (fieldValue key 0 (startAt text p) (text.drop p)) := by
  induction fuel generalizing p with
  | zero => exact absurd hfuel (Nat.not_lt_zero _)
  | succ fuel ih =>
    rw [fieldLoop]
    by_cases hend : text.length ≤ p
    · rw [if_pos hend, List.drop_of_length_le hend]
      rfl
    · rw [if_neg hend]
      cases hfind : strstr key (text.drop p) with
      | none => rw [fieldValue_of_strstr_eq_none hfind]
      | some i =>
        obtain ⟨hpre, hsame⟩ := fieldValue_of_strstr hfind
        have hpos : 0 < key.length := List.length_pos_of_ne_nil hne
        have hle : key.length ≤ text.length - (p + i) := by
          simpa using hpre.length_le
        -- a rejected occurrence takes at least one byte
        have hnext := ih (p := p + i + key.length) (by omega) (by omega)
        rw [hsame, fieldValue_of_key hne hpre]
        simp only [hnext]
        split <;> rfl

end Loop

/-! ## The field that is found -/

/-- The first word that begins with `key=`. -/
def fieldToken (line key : CStr) : Option (List UInt8) :=
  (Words.words isSpace line.bytes).find? (key.bytes ++ [61]).isPrefixOf

theorem findSome?_tokenValue (key : List UInt8) (ws : List (List UInt8)) :
    ws.findSome? (tokenValue key)
      = (ws.find? (key ++ [61]).isPrefixOf).map fun w => w.drop (key.length + 1) := by
  induction ws with
  | nil => rfl
  | cons w ws ih =>
    rw [List.findSome?_cons, List.find?_cons, tokenValue]
    cases (key ++ [61]).isPrefixOf w with
    | true => rfl
    | false => exact ih

/-- Bytes of a string, no more than it has, are a string. -/
theorem bytes_ofBuf_of_mem {s : CStr} {v : List UInt8} (hmem : ∀ b ∈ v, b ∈ s.bytes)
    (hlen : v.length ≤ s.strlen) : (CStr.ofBuf v).bytes = v := by
  have hfits : v.length + 1 < objectBound := lt_of_le_of_lt (Nat.succ_le_succ hlen) s.fits
  exact congrArg CStr.bytes (CStr.ofBuf_bytes ⟨v, fun h => s.nulFree (hmem 0 h), hfits⟩)

/-- What is copied is the value up to the room for it. -/
theorem take_copied (val : List UInt8) (outLen : Nat) :
    val.take (if outLen ≤ val.length then outLen - 1 else val.length) = val.take (outLen - 1) := by
  split
  · rfl
  · next hlt => rw [List.take_length, List.take_of_length_le (by omega)]

section Field

variable {line key : CStr}

/-- The value, for every fuel that covers the line. -/
theorem parseFieldLoop_eq (hne : key.bytes ≠ []) (hkey : ∀ b ∈ key.bytes, isSpace b = false)
    {fuel : Nat} (hfuel : line.strlen < fuel) (outLen : Nat) :
    parseFieldLoop fuel line key outLen
      = some ((fieldToken line key).map fun w =>
          .ofBuf ((w.drop (key.strlen + 1)).take (outLen - 1))) := by
  have hloop : fieldLoop line.bytes key.bytes fuel 0
      = some (fieldValue key.bytes 0 (startAt line.bytes 0) (line.bytes.drop 0)) :=
    fieldLoop_eq hne (Nat.zero_le _) hfuel
  have hstart : startAt line.bytes 0 = true := rfl
  have hvalue := fieldValue_eq hne hkey line.bytes 0 true (by simp)
  have hwords : fieldAhead key.bytes true line.bytes
      = (fieldToken line key).map fun w => w.drop (key.strlen + 1) :=
    findSome?_tokenValue key.bytes _
  rw [hstart, List.drop_zero, hvalue, beq_self_eq_true, Bool.and_true, hwords] at hloop
  rw [parseFieldLoop, hloop, Option.map_some, Option.map_map]
  simp only [Function.comp_def, take_copied]

/-- A word of the line is a string, and so is any part of it. -/
theorem bytes_ofBuf_word {w : List UInt8} (hw : w ∈ Words.words isSpace line.bytes) (m n : Nat) :
    (CStr.ofBuf ((w.drop m).take n)).bytes = (w.drop m).take n := by
  refine bytes_ofBuf_of_mem (s := line) (fun b hb => ?_) ?_
  · exact Words.mem_of_mem_words hw b (List.mem_of_mem_drop (List.mem_of_mem_take hb))
  · have hle : w.length ≤ line.strlen := Words.length_le_of_mem_words hw
    rw [List.length_take, List.length_drop]
    omega

/-- The two models of `parse_field_str` are one. -/
theorem parseFieldLoop_eq_parseFieldStr (hne : key.bytes ≠ [])
    (hkey : ∀ b ∈ key.bytes, isSpace b = false) {fuel : Nat} (hfuel : line.strlen < fuel)
    (outLen : Nat) : parseFieldLoop fuel line key outLen = some (parseFieldStr line key outLen) := by
  have hvalue := fieldValue_eq hne hkey line.bytes 0 true (by simp)
  have hwords : fieldAhead key.bytes true line.bytes
      = (fieldToken line key).map fun w => w.drop (key.strlen + 1) :=
    findSome?_tokenValue key.bytes _
  rw [parseFieldLoop_eq hne hkey hfuel, parseFieldStr, fieldText, hvalue, beq_self_eq_true,
    Bool.and_true, hwords, Option.map_map, Option.map_map]
  refine congrArg some (Option.map_congr fun w hw => CStr.ext ?_)
  have hmem : w ∈ Words.words isSpace line.bytes := List.mem_of_find?_eq_some hw
  have hwhole := bytes_ofBuf_word hmem (key.strlen + 1) w.length
  rw [List.take_of_length_le (by simp)] at hwhole
  rw [bytes_ofBuf_word hmem]
  exact (congrArg (List.take (outLen - 1)) hwhole).symm

/-- **`parse_field_str`, for every line and every key**: its loop ends; it
succeeds exactly when some word of the line begins with `key=`; and what it
returns is what follows in the first of those words, cut to the buffer, with
room for the NUL. -/
theorem parseFieldStr_exact (line key : CStr) (outLen : Nat) (hne : key.bytes ≠ [])
    (hkey : ∀ b ∈ key.bytes, isSpace b = false) (hout : 1 ≤ outLen) :
    ∃ r : Option CStr,
      (∀ fuel, line.strlen < fuel → parseFieldLoop fuel line key outLen = some r) ∧
      r = parseFieldStr line key outLen ∧
      (r.isSome = true ↔
        ∃ w ∈ Words.words isSpace line.bytes, key.bytes ++ [61] <+: w) ∧
      r.map CStr.bytes
        = (fieldToken line key).map (fun w => (w.drop (key.strlen + 1)).take (outLen - 1)) ∧
      ∀ v ∈ r, v.strlen + 1 ≤ outLen := by
  have hbytes : ∀ w ∈ fieldToken line key,
      (CStr.ofBuf ((w.drop (key.strlen + 1)).take (outLen - 1))).bytes
        = (w.drop (key.strlen + 1)).take (outLen - 1) := fun w hw =>
    bytes_ofBuf_word (List.mem_of_find?_eq_some hw) _ _
  refine ⟨_, fun fuel hfuel => parseFieldLoop_eq hne hkey hfuel outLen, ?_, ?_, ?_, ?_⟩
  · have hlt : line.strlen < line.strlen + 1 := Nat.lt_succ_self _
    exact Option.some.inj ((parseFieldLoop_eq hne hkey hlt outLen).symm.trans
      (parseFieldLoop_eq_parseFieldStr hne hkey hlt outLen))
  · rw [Option.isSome_map, fieldToken, List.find?_isSome]
    simp only [List.isPrefixOf_iff_prefix]
  · rw [Option.map_map]
    exact Option.map_congr fun w hw => hbytes w hw
  · intro v hv
    obtain ⟨w, hw, rfl⟩ := Option.map_eq_some_iff.mp hv
    rw [CStr.strlen, hbytes w hw, List.length_take]
    omega

/-- A key that overlaps itself, inside a word, in a value, and at last as a
field. -/
theorem parseFieldStr_exact_aa :
    let line := CStr.lit "aaa=1 x=aa=2 aa=three"
    ∃ r : Option CStr,
      (∀ fuel, line.strlen < fuel → parseFieldLoop fuel line (.lit "aa") 4 = some r) ∧
      r = parseFieldStr line (.lit "aa") 4 ∧
      (r.isSome = true ↔
        ∃ w ∈ Words.words isSpace line.bytes, (CStr.lit "aa").bytes ++ [61] <+: w) ∧
      r.map CStr.bytes = (fieldToken line (.lit "aa")).map (fun w => (w.drop 3).take 3) ∧
      ∀ v ∈ r, v.strlen + 1 ≤ 4 := by
  have hall : (CStr.lit "aa").bytes.all (fun b => !isSpace b) = true := by decide
  exact parseFieldStr_exact (.lit "aaa=1 x=aa=2 aa=three") (.lit "aa") 4 (by decide)
    (fun b hb => by simpa using List.all_eq_true.mp hall b hb) (by decide)

/-- The key `aa` in the line `aaa=1 aa=2`. -/
example : fieldLoop [97, 97, 97, 61, 49, 32, 97, 97, 61, 50] [97, 97] 11 0 = some (some [50]) := by
  decide

end Field

end AntzKV

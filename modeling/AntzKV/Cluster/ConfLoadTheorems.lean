/-
AntzKV.Cluster.ConfLoadTheorems — a configuration file, line by line.

`refNode` reads a line as its words: the value of a field is what follows
`key=` in the first word that starts so. `parse_field_str` finds the same
by searching for the key in the raw line (`fieldValue_eq`).

`clusterConfLoad_eq_refNodes`: the nodes of a file are those of its lines,
when no line has more than the 255 bytes that go into the buffer. The text
behind the last newline counts as a line.
-/
import AntzKV.Cluster.ConfTheorems
import AntzKV.Lib.Words

namespace AntzKV

open Scanf (isSpace skipSpace)

/-! ## The reference -/

/-- What follows `key=` at the start of a word. -/
def tokenValue (key w : List UInt8) : Option (List UInt8) :=
  if (key ++ [61]).isPrefixOf w then some (w.drop (key.length + 1)) else none

/-- The words of a line, up to a NUL. -/
def lineWords (line : List UInt8) : List (List UInt8) :=
  Words.words isSpace (line.takeWhile (· != 0))

/-- The field of a line, in the first word that has it. At most `limit`
bytes of its value count. -/
def tokenField (line : List UInt8) (key : CStr) (limit : Nat) : Option CStr :=
  ((lineWords line).findSome? (tokenValue key.bytes)).map fun v => (CStr.ofBuf v).take limit

/-- The client port and the bus port of a `port` field. -/
def refPorts (myClientPort myClusterPort : Int32) : Option CStr → Int32 × Int32
  | none => (myClientPort, myClusterPort)
  | some portStr =>
    match splitPort portStr.bytes with
    | (client, none) => (atoi client, myClusterPort)
    | (client, some bus) => (atoi client, atoi bus)

def refMode : Option CStr → ReplMode
  | none => .auto
  | some s => if s = .lit "disk" then .disk else if s = .lit "memory" then .memory else .auto

/-- The node of a line: blank lines and comments have none, and a node has
an `id` and a `host`. -/
def refNode (myClientPort myClusterPort : Int32) (line : List UInt8) : Option ClusterNodeConf :=
  match lineWords line with
  | [] => none
  | w :: _ =>
    if w.head? = some 35 then none
    else
      match tokenField line (.lit "id") 15, tokenField line (.lit "host") 63 with
      | some id, some host =>
        let ports := refPorts myClientPort myClusterPort (tokenField line (.lit "port") 31)
        some { id := .ofCStr id, host, clientPort := ports.1, clusterPort := ports.2
               repl := refMode (tokenField line (.lit "replicate") 15) }
      | _, _ => none

/-- The nodes of the lines of a file, the text behind the last newline
included. -/
def refNodes (myClientPort myClusterPort : Int32) (file : List UInt8) : List ClusterNodeConf :=
  (file.splitOnP (· == 10)).filterMap (refNode myClientPort myClusterPort)

/-! ## The search for a field -/

section Search

variable {key : List UInt8}

/-- What the search has still to find: at the start of a word all words
count, inside one those behind it. -/
def fieldAhead (key : List UInt8) (start : Bool) (s : List UInt8) : Option (List UInt8) :=
  (Words.words isSpace (if start then s else s.dropWhile (!isSpace ·))).findSome? (tokenValue key)

theorem fieldAhead_space {b : UInt8} (hb : isSpace b = true) (start : Bool) (s : List UInt8) :
    fieldAhead key start (b :: s) = fieldAhead key true s := by
  cases start with
  | true => simp only [fieldAhead, if_true, Words.words_cons_sep hb]
  | false =>
    simp only [fieldAhead, Bool.false_eq_true, if_false, if_true, List.dropWhile_cons, hb,
      Bool.not_true, Words.words_cons_sep hb]

/-- Inside a word the search goes on inside it. -/
theorem fieldAhead_letter {b : UInt8} (hb : isSpace b = false) (s : List UInt8) :
    fieldAhead key false (b :: s) = fieldAhead key false s := by
  simp [fieldAhead, hb]

/-- At the start of a word, which has the field or has it not. -/
theorem fieldAhead_word {b : UInt8} (hb : isSpace b = false) (s : List UInt8) :
    fieldAhead key true (b :: s)
      = (tokenValue key (b :: s.takeWhile (!isSpace ·))).or (fieldAhead key false s) := by
  rw [fieldAhead, if_pos rfl, Words.words_cons_letter hb, List.findSome?_cons, fieldAhead,
    if_neg (by decide)]
  cases tokenValue key (b :: s.takeWhile (!isSpace ·)) <;> rfl

/-- The word at the start of a text has the field when the text begins with
it. -/
theorem tokenValue_takeWhile (hkey : ∀ b ∈ key, isSpace b = false) (s : List UInt8) :
    tokenValue key (s.takeWhile (!isSpace ·))
      = if key ++ [61] <+: s then some ((s.drop (key.length + 1)).takeWhile (!isSpace ·))
        else none := by
  by_cases hpre : key ++ [61] <+: s
  · obtain ⟨t, rfl⟩ := hpre
    have hletters : ∀ b ∈ key ++ [61], (!isSpace b) = true := by
      intro b hb
      rcases List.mem_append.mp hb with hb | hb
      · rw [hkey b hb]
        rfl
      · rw [List.mem_singleton.mp hb]
        decide
    have hlen : key.length + 1 = (key ++ [61]).length := by simp
    rw [List.takeWhile_append_of_pos hletters, tokenValue, if_pos (by simp), if_pos (by simp),
      hlen, List.drop_left, List.drop_left]
  · have hword : ¬ key ++ [61] <+: s.takeWhile (!isSpace ·) := fun h =>
      hpre (h.trans (List.takeWhile_prefix _))
    rw [if_neg hpre, tokenValue, if_neg (by rwa [List.isPrefixOf_iff_prefix])]

/-- The two tests of the search at a key. -/
theorem key_eq_prefix_iff {s : List UInt8} (hpre : key <+: s) :
    key ++ [61] <+: s ↔ s[key.length]? = some 61 := by
  obtain ⟨t, rfl⟩ := hpre
  rw [List.prefix_append_right_inj, List.getElem?_append_right (le_refl _), Nat.sub_self]
  cases t with
  | nil => simp
  | cons b t => simp [List.cons_prefix_cons, eq_comm]

/-- **`parse_field_str` finds fields by words.** -/
theorem fieldValue_eq (hne : key ≠ []) (hkey : ∀ b ∈ key, isSpace b = false) :
    ∀ (s : List UInt8) (skip : Nat) (start : Bool), (∀ b ∈ s.take skip, isSpace b = false) →
      fieldValue key skip start s = fieldAhead key (start && skip == 0) s
  | [], skip, start, _ => by
    cases skip <;> simp [fieldValue, fieldAhead]
  | b :: s, skip + 1, start, hskip => by
    have hb : isSpace b = false := hskip b (by simp)
    have hrest : ∀ c ∈ s.take skip, isSpace c = false := fun c hc => hskip c (by simp [hc])
    rw [fieldValue, fieldValue_eq hne hkey s skip _ hrest, hb]
    simp [fieldAhead_letter hb]
  | b :: s, 0, start, _ => by
    have hfree : ∀ c ∈ s.take 0, isSpace c = false := by simp
    rw [beq_self_eq_true, Bool.and_true]
    cases hb : isSpace b with
    | true =>
      have hpre : key.isPrefixOf (b :: s) = false := by
        obtain ⟨k, ks, rfl⟩ := List.exists_cons_of_ne_nil hne
        have hk := hkey k List.mem_cons_self
        have hkb : k ≠ b := by
          rintro rfl
          rw [hk] at hb
          cases hb
        simp [List.isPrefixOf, hkb]
      rw [fieldValue, hpre, if_neg (by decide), fieldValue_eq hne hkey s 0 _ hfree, hb,
        fieldAhead_space hb]
      rfl
    | false =>
      have hword := tokenValue_takeWhile hkey (b :: s)
      rw [List.takeWhile_cons, if_pos (by rw [hb]; rfl)] at hword
      by_cases hpre : key <+: b :: s
      · have hskip : ∀ c ∈ s.take (key.length - 1), isSpace c = false := by
          intro c hc
          obtain ⟨t, ht⟩ := hpre
          obtain ⟨k, ks, rfl⟩ := List.exists_cons_of_ne_nil hne
          obtain ⟨-, rfl⟩ := List.cons.inj ht
          exact hkey c (List.mem_cons_of_mem k (by simpa using hc))
        have hiff := key_eq_prefix_iff hpre
        rw [fieldValue, if_pos (List.isPrefixOf_iff_prefix.mpr hpre)]
        by_cases heq : (b :: s)[key.length]? = some 61
        · cases start with
          | true =>
            rw [if_pos (hiff.mpr heq)] at hword
            rw [heq, fieldAhead_word hb, hword]
            rfl
          | false =>
            rw [Bool.false_and, if_neg (by decide), fieldValue_eq hne hkey s _ _ hskip, hb,
              Bool.false_and, fieldAhead_letter hb]
        · rw [if_neg fun h => heq (hiff.mp h)] at hword
          have hno : (start && (b :: s)[key.length]? == some 61) = false := by
            rw [Bool.and_eq_false_iff]
            exact .inr (by simpa using heq)
          rw [hno, if_neg (by decide), fieldValue_eq hne hkey s _ _ hskip, hb, Bool.false_and]
          cases start with
          | true => rw [fieldAhead_word hb, hword, Option.none_or]
          | false => rw [fieldAhead_letter hb]
      · have hno : ¬ key ++ [61] <+: b :: s := fun h => hpre ((List.prefix_append _ _).trans h)
        rw [if_neg hno] at hword
        rw [fieldValue, if_neg (by rwa [List.isPrefixOf_iff_prefix]),
          fieldValue_eq hne hkey s 0 _ hfree, hb, Bool.false_and]
        cases start with
        | true => rw [fieldAhead_word hb, hword, Option.none_or]
        | false => rw [fieldAhead_letter hb]

end Search

/-! ## A line -/

/-- The text of a line in the buffer is what stands before its first NUL. -/
theorem bytes_ofBuf_line {line : List UInt8} (h : line.length ≤ 256) :
    (CStr.ofBuf line).bytes = line.takeWhile (· != 0) := by
  have hle := (List.takeWhile_sublist (fun b : UInt8 => b != 0) (l := line)).length_le
  have hbound : 256 ≤ objectBound - 2 := by decide
  exact List.take_of_length_le (by omega)

theorem parseFieldStr_eq {line : List UInt8} (h : line.length ≤ 256) {key : CStr}
    (hne : key.bytes ≠ []) (hkey : ∀ b ∈ key.bytes, isSpace b = false) (outLen : Nat) :
    parseFieldStr (.ofBuf line) key outLen = tokenField line key (outLen - 1) := by
  rw [parseFieldStr, fieldText, fieldValue_eq hne hkey _ 0 true (by simp), bytes_ofBuf_line h,
    Option.map_map]
  rfl

/-- The first letter that is not a blank is that of the first word. -/
theorem head_skipSpace (t : List UInt8) :
    (match skipSpace t with
      | [] => true
      | b :: _ => b == 35)
      = (Words.words isSpace t).head?.all fun w => w.head? == some 35 := by
  induction t with
  | nil => rfl
  | cons b t ih =>
    cases hb : isSpace b with
    | true => rw [Scanf.skipSpace_cons hb, Words.words_cons_sep hb, ih]
    | false => simp [Scanf.skipSpace_of_head hb, Words.words_cons_letter hb]

/-- The body of the loop reads a line as the reference does. -/
theorem confNode_eq {line : List UInt8} (h : line.length ≤ 256) (port busPort : Int32) :
    confNode port busPort (.ofBuf line) = refNode port busPort line := by
  have hkeys : ∀ key ∈ [CStr.lit "id", .lit "host", .lit "port", .lit "replicate"],
      key.bytes ≠ [] ∧ key.bytes.all (fun b => !isSpace b) = true := by
    decide
  have hfield : ∀ key ∈ [CStr.lit "id", .lit "host", .lit "port", .lit "replicate"],
      ∀ outLen, parseFieldStr (.ofBuf line) key outLen = tokenField line key (outLen - 1) := by
    intro key hmem outLen
    obtain ⟨hne, hall⟩ := hkeys key hmem
    exact parseFieldStr_eq h hne (fun b hb => by simpa using List.all_eq_true.mp hall b hb) outLen
  have hid : parseFieldStr (.ofBuf line) (.lit "id") nodeOriginLen = tokenField line (.lit "id") 15 :=
    hfield _ (by simp) _
  have hhost : parseFieldStr (.ofBuf line) (.lit "host") 64 = tokenField line (.lit "host") 63 :=
    hfield _ (by simp) _
  have hport : parseFieldStr (.ofBuf line) (.lit "port") 32 = tokenField line (.lit "port") 31 :=
    hfield _ (by simp) _
  have hrepl : parseFieldStr (.ofBuf line) (.lit "replicate") 16
      = tokenField line (.lit "replicate") 15 := hfield _ (by simp) _
  have hcomment : isComment (.ofBuf line)
      = (lineWords line).head?.all fun w => w.head? == some 35 := by
    rw [isComment, bytes_ofBuf_line h]
    exact head_skipSpace _
  rw [confNode, hcomment, hid, hhost, hport, hrepl, refNode]
  cases lineWords line with
  | nil => rfl
  | cons w ws =>
    rw [List.head?_cons, Option.all_some]
    by_cases hw : w.head? = some 35
    · rw [if_pos (by simpa using hw)]
      simp [hw]
    · rw [if_neg (by simpa using hw)]
      simp only [if_neg hw]
      cases tokenField line (.lit "id") 15 with
      | none => rfl
      | some id =>
        cases tokenField line (.lit "host") 63 with
        | none => rfl
        | some host => rfl

/-- A newline at the end of a line adds no word. -/
theorem lineWords_newline (line : List UInt8) : lineWords (line ++ [10]) = lineWords line := by
  have hsep : ∀ c ∈ ([10] : List UInt8), isSpace c = true := fun c hc => by
    rw [List.mem_singleton.mp hc]
    rfl
  rw [lineWords, lineWords, List.takeWhile_append]
  split
  · rename_i hlen
    rw [(List.takeWhile_sublist _).eq_of_length hlen]
    exact Words.words_append_seps hsep line
  · rfl

theorem refNode_newline (port busPort : Int32) (line : List UInt8) :
    refNode port busPort (line ++ [10]) = refNode port busPort line := by
  simp only [refNode, tokenField, lineWords_newline]

/-! ## The file -/

/-- **The nodes of a file are those of its lines**, a last one without a
newline included, when every line fits the buffer. -/
theorem clusterConfLoad_eq_refNodes (file : List UInt8) (port busPort : Int32)
    (hshort : ∀ line ∈ file.splitOnP (· == 10), line.length ≤ 255) :
    ((clusterConfLoad (some file) port busPort).elim [] (·.nodes)) = refNodes port busPort file := by
  have hnodes : (confLines file).filterMap (confNode port busPort) = refNodes port busPort file := by
    rw [confLines, List.filterMap_map, refNodes,
      ByteCursor.filterMap_fgetsLoop (by decide) rfl (fun l hl => ?_) _ _ le_rfl
        fun l hl => Nat.lt_succ_of_le (hshort l hl)]
    · exact List.filterMap_congr fun l hl =>
        confNode_eq (le_trans (hshort l hl) (by decide)) port busPort
    · have hle : (l ++ [10]).length ≤ 256 := by simpa using hl
      have hle' : l.length ≤ 256 := by omega
      rw [Function.comp_apply, Function.comp_apply, confNode_eq hle, confNode_eq hle',
        refNode_newline]
  rw [← hnodes]
  simp only [clusterConfLoad, Option.bind_eq_bind, Option.bind_some]
  split
  · rfl
  · rename_i hnil
    rw [not_not.mp hnil]
    rfl

/-- Two lines, the second without a newline. -/
def noLastNewline : List UInt8 := (CStr.lit "id=a host=h port=6301\nid=b host=h").bytes

theorem clusterConfLoad_noLastNewline :
    ((clusterConfLoad (some noLastNewline) 6302 16302).elim [] (·.nodes))
      = refNodes 6302 16302 noLastNewline :=
  clusterConfLoad_eq_refNodes noLastNewline 6302 16302 (by decide)

/-- The lines of a file that end with a newline. -/
def terminatedLines (file : List UInt8) : List (List UInt8) :=
  (file.splitOnP (· == 10)).dropLast

/-- A line without a newline gives a node. -/
theorem last_line_has_node :
    ¬ ∀ (file : List UInt8) (port busPort : Int32),
      ((clusterConfLoad (some file) port busPort).elim [] (·.nodes))
        = (terminatedLines file).filterMap (refNode port busPort) := by
  intro h
  have hnodes := h (CStr.lit "id=a host=h").bytes 6301 16301
  have hlen : ((clusterConfLoad (some (CStr.lit "id=a host=h").bytes) 6301 16301).elim []
      (·.nodes)).length = 1 := by
    decide
  have hnone : terminatedLines (CStr.lit "id=a host=h").bytes = [] := by decide
  rw [hnodes, hnone] at hlen
  cases hlen

end AntzKV

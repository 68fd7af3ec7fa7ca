/-
AntzKV.Cluster.BusTheorems — a message is read back.

`setText` puts blanks between its fields, and the conversions of
`parse_meta` stop at white space; so a message whose origin, key and
value are words (`IsWord`) is parsed into the fields it was built from
(`codec_round_trip`). A message that fits the receive buffer also
arrives whole, and the peer makes the `kv_set_meta` call it stands for
(`handleLine_setText`).
-/
import AntzKV.Cluster.Bus

namespace AntzKV

open Scanf
open LineFraming (IsLine)

variable {S : Type}

/-- A text that one `%s` conversion reads. -/
def IsWord (s : CStr) : Prop := s.bytes ≠ [] ∧ ∀ b ∈ s.bytes, isSpace b = false

instance (s : CStr) : Decidable (IsWord s) := inferInstanceAs (Decidable (_ ∧ _))

theorem takeWhile_blank {p : UInt8 → Bool} (hp : p 32 = false) (s : List UInt8) :
    (32 :: s).takeWhile p = [] := by
  simp [hp]

/-- The three fields of a meta are read back, and the scan goes on with
what follows them. -/
theorem parseMeta_metaText {m : KvMeta} (horigin : IsWord m.origin.text) {t : List UInt8}
    (ht : t.takeWhile isDigit = []) :
    parseMeta (metaText m ++ t) =
      match scanStr 4095 t with
      | none => some ⟨m, none, none⟩
      | some (key, s) => some ⟨m, some (.ofBuf key), (scanStr 4095 s).map fun v => .ofBuf v.1⟩ := by
  have hblank : isSpace 32 = true := by decide
  have hdigit : isDigit 32 = false := by decide
  have hshort : m.origin.text.bytes.length ≤ 15 := by
    have : m.origin.text.bytes.length < 16 := m.origin.short
    omega
  have hfirst : scanStr 15 (metaText m ++ t) = some (m.origin.text.bytes,
      32 :: (decimal m.version.toNat ++ 32 :: (decimal m.wallclock.toNat ++ t))) := by
    have := scanStr_word horigin.1 horigin.2 hshort
      (takeWhile_blank (by decide) (decimal m.version.toNat ++ 32 :: (decimal m.wallclock.toNat ++ t)))
    simpa [metaText] using this
  have hversion : scanUll (32 :: (decimal m.version.toNat ++ 32 :: (decimal m.wallclock.toNat ++ t)))
      = some (m.version.toNat, 32 :: (decimal m.wallclock.toNat ++ t)) := by
    rw [scanUll_cons hblank]
    exact scanUll_decimal m.version.toNat_lt (takeWhile_blank hdigit _)
  have hwallclock : scanUll (32 :: (decimal m.wallclock.toNat ++ t))
      = some (m.wallclock.toNat, t) := by
    rw [scanUll_cons hblank]
    exact scanUll_decimal m.wallclock.toNat_lt ht
  cases hkey : scanStr 4095 t <;>
    simp only [parseMeta, hfirst, hversion, hwallclock, hkey, Option.bind_eq_bind,
      Option.bind_some, CStr.ofBuf_bytes, NodeOrigin.ofCStr_text, UInt64.ofNat_toNat]

/-- A blank, and a word that ends the text or is followed by a blank. -/
theorem scanStr_blank_word {s : CStr} (hs : IsWord s) (hlen : s.strlen ≤ 4095) {t : List UInt8}
    (ht : t.takeWhile (!isSpace ·) = []) :
    scanStr 4095 (32 :: s.bytes ++ t) = some (s.bytes, t) := by
  rw [List.cons_append, scanStr_cons (by decide)]
  exact scanStr_word hs.1 hs.2 hlen ht

/-- The fields behind `"SET "`. -/
theorem parseMeta_fields {m : KvMeta} {key value : CStr} (horigin : IsWord m.origin.text)
    (hkey : IsWord key) (hvalue : IsWord value) (hklen : key.strlen ≤ 4095)
    (hvlen : value.strlen ≤ 4095) :
    parseMeta (metaText m ++ 32 :: key.bytes ++ 32 :: value.bytes)
      = some ⟨m, some key, some value⟩ := by
  have hk := scanStr_blank_word hkey hklen (t := 32 :: value.bytes) (takeWhile_blank (by decide) _)
  have hv := scanStr_blank_word hvalue hvlen (t := []) rfl
  rw [List.append_nil] at hv
  have hmeta := parseMeta_metaText horigin (t := 32 :: key.bytes ++ 32 :: value.bytes)
    (takeWhile_blank (by decide) _)
  rw [List.append_assoc, hmeta, hk]
  simp only [hv, Option.map_some, CStr.ofBuf_bytes]

/-- The fields behind `"DEL "`. -/
theorem parseMeta_fields_del {m : KvMeta} {key : CStr} (horigin : IsWord m.origin.text)
    (hkey : IsWord key) (hklen : key.strlen ≤ 4095) :
    parseMeta (metaText m ++ 32 :: key.bytes) = some ⟨m, some key, none⟩ := by
  have hk := scanStr_blank_word hkey hklen (t := []) rfl
  have hnone : scanStr 4095 [] = none := rfl
  rw [List.append_nil] at hk
  rw [parseMeta_metaText horigin (takeWhile_blank (by decide) _), hk]
  simp only [hnone, Option.map_none, CStr.ofBuf_bytes]

theorem length_setText (m : KvMeta) (key value : CStr) :
    (setText m key value).length = m.origin.text.strlen + (decimal m.version.toNat).length
      + (decimal m.wallclock.toNat).length + key.strlen + value.strlen + 8 := by
  have hset : (CStr.lit "SET ").bytes.length = 4 := by decide
  simp only [setText, metaText, List.length_append, List.length_cons, hset, CStr.strlen]
  omega

/-- The first test of `cluster_parse_cmd` that a text passes decides. -/
theorem clusterParseCmd_eq {name : CStr} {cmd : ClusterCmd} {t : List UInt8} (restLen : Nat)
    (hskip : skipSpace (name.bytes ++ t) = name.bytes ++ t)
    (hfind : (busCmds.find? fun c => strncasecmpEq (name.bytes ++ t) c.1) = some (name, cmd)) :
    clusterParseCmd (name.bytes ++ t) restLen = (cmd, t.take restLen) := by
  simp [clusterParseCmd, hskip, hfind, CStr.strlen]

theorem clusterParseCmd_set (t : List UInt8) (restLen : Nat) :
    clusterParseCmd ((CStr.lit "SET ").bytes ++ t) restLen = (.set, t.take restLen) := by
  have hset : (CStr.lit "SET ").bytes = [83, 69, 84, 32] := by decide
  have hheart : (CStr.lit "HEARTBEAT").bytes = [72, 69, 65, 82, 84, 66, 69, 65, 84] := by
    decide
  apply clusterParseCmd_eq
  · rw [hset]
    exact skipSpace_of_head (by decide) _
  · simp [busCmds, List.find?, strncasecmpEq, CStr.strlen, hheart, hset, toLower]

theorem clusterParseCmd_del (t : List UInt8) (restLen : Nat) :
    clusterParseCmd ((CStr.lit "DEL ").bytes ++ t) restLen = (.del, t.take restLen) := by
  have hset : (CStr.lit "SET ").bytes = [83, 69, 84, 32] := by decide
  have hdel : (CStr.lit "DEL ").bytes = [68, 69, 76, 32] := by decide
  have hheart : (CStr.lit "HEARTBEAT").bytes = [72, 69, 65, 82, 84, 66, 69, 65, 84] := by
    decide
  apply clusterParseCmd_eq
  · rw [hdel]
    exact skipSpace_of_head (by decide) _
  · simp [busCmds, List.find?, strncasecmpEq, CStr.strlen, hheart, hset, hdel, toLower]

theorem clusterParseCmd_setText (m : KvMeta) (key value : CStr)
    (hlen : (setText m key value).length ≤ busBufSize) :
    clusterParseCmd (setText m key value) busBufSize
      = (.set, metaText m ++ 32 :: key.bytes ++ 32 :: value.bytes) := by
  have hsplit : setText m key value
      = (CStr.lit "SET ").bytes ++ (metaText m ++ 32 :: key.bytes ++ 32 :: value.bytes) := by
    simp [setText]
  rw [hsplit, List.length_append] at hlen
  rw [hsplit, clusterParseCmd_set, List.take_of_length_le (by omega)]

/-- A key and a value that survive the field splitting: `%s` reads words,
and a field it does not reach is left empty, with those behind it. -/
def Fields (key value : CStr) : Prop :=
  IsWord key ∧ (IsWord value ∨ value = .lit "") ∨ key = .lit "" ∧ value = .lit ""

instance (key value : CStr) : Decidable (Fields key value) := inferInstanceAs (Decidable (_ ∨ _))

theorem parseMeta_of_fields {m : KvMeta} {key value : CStr} (horigin : IsWord m.origin.text)
    (hfields : Fields key value) (hklen : key.strlen ≤ 4095) (hvlen : value.strlen ≤ 4095) :
    ∃ f, parseMeta (metaText m ++ 32 :: key.bytes ++ 32 :: value.bytes) = some f ∧ f.kvMeta = m ∧
      f.key.getD (.lit "") = key ∧ f.val.getD (.lit "") = value := by
  have hempty : (CStr.lit "").bytes = [] := by decide
  rcases hfields with ⟨hkey, hvalue | rfl⟩ | ⟨rfl, rfl⟩
  · exact ⟨_, parseMeta_fields horigin hkey hvalue hklen hvlen, rfl, rfl, rfl⟩
  · have hk := scanStr_blank_word hkey hklen (t := [32]) (by decide)
    have hnone : scanStr 4095 [32] = none := by decide
    refine ⟨⟨m, some key, none⟩, ?_, rfl, rfl, rfl⟩
    rw [hempty, List.append_assoc, parseMeta_metaText horigin (t := 32 :: key.bytes ++ [32])
      (takeWhile_blank (by decide) _), hk]
    simp [hnone]
  · have hnone : scanStr 4095 [32, 32] = none := by decide
    refine ⟨⟨m, none, none⟩, ?_, rfl, rfl, rfl⟩
    rw [hempty, List.append_assoc, show [32] ++ [32] = [(32 : UInt8), 32] from rfl,
      parseMeta_metaText horigin (by decide), hnone]

/-- The peer makes the call the message stands for. -/
theorem handleLine_of_fields {m : KvMeta} {key value : CStr} (horigin : IsWord m.origin.text)
    (hfields : Fields key value) (hlen : (setText m key value).length + 2 ≤ busBufSize)
    {n : BusNode S} (hn : n.crashed = false) :
    handleLine n (setText m key value)
      = { n with db := (ReplWrite.set key value m).apply n.db } := by
  have hlen' := length_setText m key value
  have hbuf : busBufSize = 4096 := rfl
  have htake : (setText m key value).take (busBufSize - 1) = setText m key value :=
    List.take_of_length_le (by omega)
  obtain ⟨f, hparse, hm, hk, hv⟩ := parseMeta_of_fields horigin hfields (by omega) (by omega)
  simp only [handleLine, hn, Bool.false_eq_true, if_false, htake,
    clusterParseCmd_setText m key value (by omega), hparse, hm, hk, hv]

theorem handleLine_setText {m : KvMeta} {key value : CStr} (horigin : IsWord m.origin.text)
    (hkey : IsWord key) (hvalue : IsWord value)
    (hlen : (setText m key value).length + 2 ≤ busBufSize) {n : BusNode S}
    (hn : n.crashed = false) :
    handleLine n (setText m key value)
      = { n with db := (ReplWrite.set key value m).apply n.db } :=
  handleLine_of_fields horigin (Or.inl ⟨hkey, Or.inl hvalue⟩) hlen hn

theorem IsWord.isLine {s : CStr} (h : IsWord s) : IsLine s.bytes := by
  intro b hb
  refine ⟨fun h0 => s.nulFree (h0 ▸ hb), ?_⟩
  rintro rfl
  exact absurd (h.2 10 hb) (by decide)

theorem isLine_decimal (n : Nat) : IsLine (decimal n) := by
  intro b hb
  have := digit_bounds (isDigit_of_mem_decimal hb)
  constructor <;> rintro rfl <;> exact absurd this.1 (by decide)

theorem isLine_append {a b : List UInt8} (ha : IsLine a) (hb : IsLine b) : IsLine (a ++ b) := by
  intro c hc
  rcases List.mem_append.mp hc with hc | hc
  · exact ha c hc
  · exact hb c hc

theorem isLine_blank {a : List UInt8} (ha : IsLine a) : IsLine (32 :: a) := by
  intro c hc
  rcases List.mem_cons.mp hc with rfl | hc
  · decide
  · exact ha c hc

theorem isLine_metaText {m : KvMeta} (horigin : IsLine m.origin.text.bytes) :
    IsLine (metaText m) :=
  isLine_append (isLine_append horigin (isLine_blank (isLine_decimal _)))
    (isLine_blank (isLine_decimal _))

theorem isLine_setText_of_fields {m : KvMeta} {key value : CStr} (horigin : IsWord m.origin.text)
    (hfields : Fields key value) : IsLine (setText m key value) := by
  have hname : IsLine (CStr.lit "SET ").bytes := by decide +kernel
  have hempty : IsLine (CStr.lit "").bytes := by decide +kernel
  have hboth : IsLine key.bytes ∧ IsLine value.bytes := by
    rcases hfields with ⟨hkey, hvalue | rfl⟩ | ⟨rfl, rfl⟩
    · exact ⟨hkey.isLine, hvalue.isLine⟩
    · exact ⟨hkey.isLine, hempty⟩
    · exact ⟨hempty, hempty⟩
  exact isLine_append (isLine_append (isLine_append hname (isLine_metaText horigin.isLine))
    (isLine_blank hboth.1)) (isLine_blank hboth.2)

theorem isLine_setText {m : KvMeta} {key value : CStr} (horigin : IsWord m.origin.text)
    (hkey : IsWord key) (hvalue : IsWord value) : IsLine (setText m key value) :=
  isLine_setText_of_fields horigin (Or.inl ⟨hkey, Or.inl hvalue⟩)

/-! ## The round trip of the codec -/

/-- The line `cluster_build_msg` writes for `cmd`, and what the receiving
side makes of it: the command and the fields. -/
def ReadsBack (cmd : ClusterCmd) (key value : CStr) (m : KvMeta) (fields : MetaFields) : Prop :=
  ∃ line, clusterBuildMsg clusterMsgSize cmd key value (some m) = some (line ++ [10]) ∧
    IsLine line ∧ (clusterParseCmd line busBufSize).1 = cmd ∧
    parseMeta (clusterParseCmd line busBufSize).2 = some fields

theorem readsBack_set {m : KvMeta} {key value : CStr} (horigin : IsWord m.origin.text)
    (hkey : IsWord key) (hvalue : IsWord value) (hlen : (setText m key value).length + 1 ≤ 4095) :
    ReadsBack .set key value m ⟨m, some key, some value⟩ := by
  have hlen' := length_setText m key value
  have hbuf : busBufSize = 4096 := rfl
  have hmsg : clusterMsgSize = 8192 := rfl
  have hcmd := clusterParseCmd_setText m key value (by omega)
  refine ⟨setText m key value, ?_, isLine_setText horigin hkey hvalue, ?_, ?_⟩
  · simp only [clusterBuildMsg, snprintf]
    rw [List.take_of_length_le (by simp only [List.length_append, List.length_singleton]; omega)]
  · rw [hcmd]
  · rw [hcmd]
    exact parseMeta_fields horigin hkey hvalue (by omega) (by omega)

/-- `"DEL %s %llu %llu %s"` -/
def delText (m : KvMeta) (key : CStr) : List UInt8 :=
  (CStr.lit "DEL ").bytes ++ metaText m ++ 32 :: key.bytes

theorem isLine_delText {m : KvMeta} {key : CStr} (horigin : IsWord m.origin.text)
    (hkey : IsWord key) : IsLine (delText m key) := by
  have hname : IsLine (CStr.lit "DEL ").bytes := by decide +kernel
  exact isLine_append (isLine_append hname (isLine_metaText horigin.isLine))
    (isLine_blank hkey.isLine)

theorem readsBack_del {m : KvMeta} {key : CStr} (value : CStr) (horigin : IsWord m.origin.text)
    (hkey : IsWord key) (hlen : (delText m key).length + 1 ≤ 4095) :
    ReadsBack .del key value m ⟨m, some key, none⟩ := by
  have hsplit : delText m key
      = (CStr.lit "DEL ").bytes ++ (metaText m ++ 32 :: key.bytes) := by
    simp [delText]
  have hkeylen : key.strlen ≤ (delText m key).length := by
    rw [hsplit]
    simp only [List.length_append, List.length_cons, CStr.strlen]
    omega
  have hcmd : clusterParseCmd (delText m key) busBufSize
      = (.del, metaText m ++ 32 :: key.bytes) := by
    have hbuf : busBufSize = 4096 := rfl
    rw [hsplit, List.length_append] at hlen
    rw [hsplit, clusterParseCmd_del, List.take_of_length_le (by omega)]
  have hmsg : clusterMsgSize = 8192 := rfl
  refine ⟨delText m key, ?_, isLine_delText horigin hkey, ?_, ?_⟩
  · show some (snprintf clusterMsgSize (delText m key ++ [10])) = _
    rw [snprintf, List.take_of_length_le (by simp only [List.length_append, List.length_singleton]; omega)]
  · rw [hcmd]
  · rw [hcmd]
    exact parseMeta_fields_del horigin hkey (by omega)

/-- **The codec.** A SET or DEL message of at most 4095 bytes whose fields
are words is read back as it was written. -/
theorem codec_round_trip {m : KvMeta} {k : CStr} (horigin : IsWord m.origin.text)
    (hkey : IsWord k) :
    (∀ value, IsWord value → (setText m k value ++ [10]).length ≤ 4095 →
        ReadsBack .set k value m ⟨m, some k, some value⟩) ∧
    ∀ value, (delText m k ++ [10]).length ≤ 4095 →
      ReadsBack .del k value m ⟨m, some k, none⟩ := by
  constructor
  · intro value hvalue hlen
    rw [List.length_append] at hlen
    exact readsBack_set horigin hkey hvalue hlen
  · intro value hlen
    rw [List.length_append] at hlen
    exact readsBack_del value horigin hkey hlen

/-- A key that looks like a number, a value that looks like a command, and
the greatest version. -/
theorem codec_round_trip_lookalikes :
    ReadsBack .set (.lit "12") (.lit "DEL") ⟨UInt64.ofNat (2 ^ 64 - 1), 0, .ofCStr (.lit "n1")⟩
        ⟨⟨UInt64.ofNat (2 ^ 64 - 1), 0, .ofCStr (.lit "n1")⟩, some (.lit "12"), some (.lit "DEL")⟩ ∧
      ReadsBack .del (.lit "12") (.lit "") ⟨UInt64.ofNat (2 ^ 64 - 1), 0, .ofCStr (.lit "n1")⟩
        ⟨⟨UInt64.ofNat (2 ^ 64 - 1), 0, .ofCStr (.lit "n1")⟩, some (.lit "12"), none⟩ := by
  have h := codec_round_trip (m := ⟨UInt64.ofNat (2 ^ 64 - 1), 0, .ofCStr (.lit "n1")⟩)
    (by decide +kernel) (k := .lit "12") (by decide +kernel)
  exact ⟨h.1 (.lit "DEL") (by decide +kernel) (by decide +kernel),
    h.2 (.lit "") (by decide)⟩

end AntzKV

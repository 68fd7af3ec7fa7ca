/-
AntzKV.Cluster.GrammarTheorems — the lines on which the bus acts.

`parse_meta` is content with three conversions of five. So the receiver
acts on a line as soon as a SET or DEL is followed by an origin and two
numbers (`ThreeFields`), whatever is missing behind them or too much; and
the one format string, which has a fifth conversion for the value of a
SET, reaches it in a DEL as well when there is a fifth field
(`FiveFields`), with a NULL pointer for a destination. The DEL is done all
the same.

The shapes are shapes of the text (`Scanf.ReadsStr`, `Scanf.ReadsNumber`);
`parseMeta_isSome_iff` and `parseMeta_val_iff` tie them to the parser.
-/
import AntzKV.Cluster.FullSyncTheorems

namespace AntzKV

open Scanf (isSpace isDigit skipSpace scanStr scanUll digitsVal ReadsStr ReadsNumber)
open LineFraming (Reader fitting lines)

variable {S : Type}

/-! ## Fields -/

/-- An origin and two numbers, and `t` behind them. -/
def MetaPrefix (rest t : List UInt8) : Prop :=
  ∃ origin s₁ sign₁ version s₂ sign₂ wallclock,
    ReadsStr 15 rest origin s₁ ∧ ReadsNumber s₁ sign₁ version s₂ ∧
      ReadsNumber s₂ sign₂ wallclock t

/-- The text has the three fields that `parse_meta` insists on. -/
def ThreeFields (rest : List UInt8) : Prop := ∃ t, MetaPrefix rest t

/-- Behind the three fields and a key something is left that is not white
space. -/
def FiveFields (rest : List UInt8) : Prop :=
  ∃ t key u, MetaPrefix rest t ∧ ReadsStr 4095 t key u ∧ ∃ b ∈ u, isSpace b = false

theorem metaPrefix_iff {rest t : List UInt8} :
    MetaPrefix rest t ↔ ∃ origin s₁ version s₂ wallclock, scanStr 15 rest = some (origin, s₁) ∧
      scanUll s₁ = some (version, s₂) ∧ scanUll s₂ = some (wallclock, t) := by
  constructor
  · rintro ⟨origin, s₁, sign₁, version, s₂, sign₂, wallclock, horigin, hversion, hwall⟩
    obtain ⟨v, hv⟩ := Scanf.exists_scanUll_iff.mpr ⟨sign₁, version, hversion⟩
    obtain ⟨w, hw⟩ := Scanf.exists_scanUll_iff.mpr ⟨sign₂, wallclock, hwall⟩
    exact ⟨origin, s₁, v, s₂, w, Scanf.scanStr_eq_some_iff.mpr horigin, hv, hw⟩
  · rintro ⟨origin, s₁, v, s₂, w, horigin, hv, hw⟩
    obtain ⟨sign₁, version, hversion⟩ := Scanf.exists_scanUll_iff.mp ⟨v, hv⟩
    obtain ⟨sign₂, wallclock, hwall⟩ := Scanf.exists_scanUll_iff.mp ⟨w, hw⟩
    exact ⟨origin, s₁, sign₁, version, s₂, sign₂, wallclock,
      Scanf.scanStr_eq_some_iff.mp horigin, hversion, hwall⟩

/-- The conversions of `parse_meta`, one after the other. -/
theorem parseMeta_eq_some {rest : List UInt8} {f : MetaFields} (h : parseMeta rest = some f) :
    ∃ t, MetaPrefix rest t ∧ f.key = (scanStr 4095 t).map (fun k => .ofBuf k.1) ∧
      f.val = (scanStr 4095 t).bind fun k => (scanStr 4095 k.2).map fun v => .ofBuf v.1 := by
  simp only [parseMeta, Option.bind_eq_bind, Option.bind_eq_some_iff] at h
  obtain ⟨⟨origin, s₁⟩, horigin, ⟨version, s₂⟩, hversion, ⟨wallclock, t⟩, hwall, h⟩ := h
  refine ⟨t, metaPrefix_iff.mpr ⟨origin, s₁, version, s₂, wallclock, horigin, hversion, hwall⟩, ?_⟩
  cases hkey : scanStr 4095 t with
  | none =>
    simp only [hkey] at h
    rw [← Option.some.inj h]
    exact ⟨rfl, rfl⟩
  | some k =>
    simp only [hkey] at h
    rw [← Option.some.inj h]
    exact ⟨rfl, rfl⟩

theorem parseMeta_isSome_iff {rest : List UInt8} :
    (parseMeta rest).isSome = true ↔ ThreeFields rest := by
  constructor
  · intro h
    obtain ⟨f, hf⟩ := Option.isSome_iff_exists.mp h
    obtain ⟨t, ht, -⟩ := parseMeta_eq_some hf
    exact ⟨t, ht⟩
  · rintro ⟨t, ht⟩
    obtain ⟨origin, s₁, version, s₂, wallclock, horigin, hversion, hwall⟩ := metaPrefix_iff.mp ht
    simp only [parseMeta, horigin, hversion, hwall, Option.bind_eq_bind, Option.bind_some]
    cases scanStr 4095 t <;> rfl

theorem metaPrefix_unique {rest t t' : List UInt8} (h : MetaPrefix rest t)
    (h' : MetaPrefix rest t') : t = t' := by
  obtain ⟨origin, s₁, version, s₂, wallclock, horigin, hversion, hwall⟩ := metaPrefix_iff.mp h
  obtain ⟨origin', s₁', version', s₂', wallclock', horigin', hversion', hwall'⟩ :=
    metaPrefix_iff.mp h'
  obtain ⟨-, rfl⟩ := Prod.mk.inj (Option.some.inj (horigin.symm.trans horigin'))
  obtain ⟨-, rfl⟩ := Prod.mk.inj (Option.some.inj (hversion.symm.trans hversion'))
  exact (Prod.mk.inj (Option.some.inj (hwall.symm.trans hwall'))).2

/-- The fifth conversion has something to store. -/
theorem parseMeta_val_iff {rest : List UInt8} :
    (∃ f ∈ parseMeta rest, f.val.isSome = true) ↔ FiveFields rest := by
  have hval : ∀ u : List UInt8, (scanStr 4095 u).isSome = true ↔ ∃ b ∈ u, isSpace b = false := by
    intro u
    rw [← Option.ne_none_iff_isSome, Ne, Scanf.scanStr_eq_none_iff (by decide)]
    simp
  constructor
  · rintro ⟨f, hf, hsome⟩
    obtain ⟨t, ht, -, hv⟩ := parseMeta_eq_some hf
    cases hkey : scanStr 4095 t with
    | none => simp [hv, hkey] at hsome
    | some k =>
      obtain ⟨key, u⟩ := k
      refine ⟨t, key, u, ht, Scanf.scanStr_eq_some_iff.mp hkey, (hval u).mp ?_⟩
      simpa [hv, hkey] using hsome
  · rintro ⟨t, key, u, ht, hkey, hu⟩
    obtain ⟨f, hf⟩ := Option.isSome_iff_exists.mp (parseMeta_isSome_iff.mpr ⟨t, ht⟩)
    refine ⟨f, hf, ?_⟩
    obtain ⟨t', ht', -, hv⟩ := parseMeta_eq_some hf
    obtain rfl := metaPrefix_unique ht ht'
    rw [hv, Scanf.scanStr_eq_some_iff.mpr hkey]
    simpa using (hval u).mpr hu

instance (rest : List UInt8) : Decidable (ThreeFields rest) :=
  decidable_of_iff _ parseMeta_isSome_iff

instance (rest : List UInt8) : Decidable (FiveFields rest) :=
  decidable_of_iff _ parseMeta_val_iff

/-! ## The NULL pointer of DEL -/

/-- The command and the rest that `handle_client` finds in a line. -/
def classify (line : List UInt8) : ClusterCmd × List UInt8 :=
  clusterParseCmd (line.take (busBufSize - 1)) busBufSize

theorem handleLine_del {line : List UInt8} (hdel : (classify line).1 = .del) {n : BusNode S}
    (hn : n.crashed = false) :
    handleLine n line =
      match parseMeta (classify line).2 with
      | none => n
      | some f => { n with db := (ReplWrite.del (f.key.getD (.lit "")) f.kvMeta).apply n.db } := by
  have hsplit : clusterParseCmd (line.take (busBufSize - 1)) busBufSize
      = (.del, (classify line).2) := Prod.ext hdel rfl
  cases hparse : parseMeta (classify line).2 <;>
    simp only [handleLine, hn, Bool.false_eq_true, if_false, hsplit, hparse]

theorem handleLine_set {line : List UInt8} (hset : (classify line).1 = .set) {n : BusNode S}
    (hn : n.crashed = false) :
    handleLine n line =
      match parseMeta (classify line).2 with
      | none => n
      | some f =>
        { n with
          db := (ReplWrite.set (f.key.getD (.lit "")) (f.val.getD (.lit "")) f.kvMeta).apply
            n.db } := by
  have hsplit : clusterParseCmd (line.take (busBufSize - 1)) busBufSize
      = (.set, (classify line).2) := Prod.ext hset rfl
  cases hparse : parseMeta (classify line).2 <;>
    simp only [handleLine, hn, Bool.false_eq_true, if_false, hsplit, hparse]

theorem handleLine_other {line : List UInt8} (hset : (classify line).1 ≠ .set)
    (hdel : (classify line).1 ≠ .del) (n : BusNode S) : handleLine n line = n := by
  unfold handleLine
  split
  · rfl
  · unfold classify at hset hdel
    split
    · rename_i hc
      simp [hc] at hset
    · rename_i hc
      simp [hc] at hdel
    · rfl

/-- Of a line that is a DEL the conversion with the NULL destination is
given nothing exactly when there is no fifth field. -/
theorem del_stores_no_value_iff (line : List UInt8) (_ : (classify line).1 = .del) :
    (∀ f ∈ parseMeta (classify line).2, f.val = none) ↔ ¬ FiveFields (classify line).2 := by
  rw [← parseMeta_val_iff]
  simp

/-- The four fields of a DEL. -/
theorem del_stores_no_value_four_fields :
    (classify (CStr.lit "DEL n1 1 1 k").bytes).1 = .del ∧
    ∀ f ∈ parseMeta (classify (CStr.lit "DEL n1 1 1 k").bytes).2, f.val = none :=
  ⟨by decide, (del_stores_no_value_iff (CStr.lit "DEL n1 1 1 k").bytes (by decide)).mpr (by decide)⟩

/-- One field more is handed to the conversion. -/
theorem del_five_fields_stores_value :
    (classify (CStr.lit "DEL n1 1 1 k x").bytes).1 = .del ∧
    ¬ ∀ f ∈ parseMeta (classify (CStr.lit "DEL n1 1 1 k x").bytes).2, f.val = none := by
  decide

/-! ## The grammar -/

/-- The words of a text, in order. -/
def words (s : List UInt8) : List (List UInt8) :=
  (s.splitOnP isSpace).filter fun w => !w.isEmpty

/-- An unsigned decimal of 64 bits. -/
def IsU64 (w : List UInt8) : Prop := w ≠ [] ∧ (∀ b ∈ w, isDigit b = true) ∧ digitsVal w < 2 ^ 64

instance (w : List UInt8) : Decidable (IsU64 w) := inferInstanceAs (Decidable (_ ∧ _))

/-- `origin version wallclock key value` -/
def IsSetFields : List (List UInt8) → Prop
  | [_, version, wallclock, _, _] => IsU64 version ∧ IsU64 wallclock
  | _ => False

/-- `origin version wallclock key` -/
def IsDelFields : List (List UInt8) → Prop
  | [_, version, wallclock, _] => IsU64 version ∧ IsU64 wallclock
  | _ => False

/-- The name of a command, in either case and behind white space, and what
follows it. -/
def IsCommand (name : CStr) (line rest : List UInt8) : Prop :=
  ∃ blank word, (∀ b ∈ blank, isSpace b = true) ∧ word.map toLower = name.bytes.map toLower ∧
    line = blank ++ (word ++ rest)

/-- The line is a SET or a DEL with all its fields and no more. -/
def InGrammar (line : List UInt8) : Prop :=
  ∃ rest, IsCommand (.lit "SET ") line rest ∧ IsSetFields (words rest) ∨
    IsCommand (.lit "DEL ") line rest ∧ IsDelFields (words rest)

theorem isSpace_toLower (b : UInt8) : isSpace (toLower b) = isSpace b := by
  revert b
  decide +kernel

/-- What the test for a name, that begins with a letter, sees of a line. -/
theorem isCommand_iff {name : CStr} {c : UInt8} {cs : List UInt8} (hname : name.bytes = c :: cs)
    (hc : isSpace c = false) {line rest : List UInt8} :
    IsCommand name line rest ↔
      strncasecmpEq (skipSpace line) name = true ∧ (skipSpace line).drop name.strlen = rest := by
  constructor
  · rintro ⟨blank, word, hblank, hword, rfl⟩
    have hlen : word.length = name.strlen := by
      simpa [CStr.strlen] using congrArg List.length hword
    have hskip : skipSpace (blank ++ (word ++ rest)) = word ++ rest := by
      refine Scanf.skipSpace_append hblank ?_
      intro b hb
      rw [hname] at hword
      obtain ⟨b', word, rfl, hlow, -⟩ := List.map_eq_cons_iff.mp hword
      obtain rfl : b' = b := by simpa using hb
      rw [← isSpace_toLower, hlow, isSpace_toLower, hc]
    rw [hskip, ← hlen]
    refine ⟨?_, List.drop_left⟩
    simp [strncasecmpEq, ← hlen, hword]
  · rintro ⟨htest, rfl⟩
    obtain ⟨blank, hblank, hsplit⟩ := Scanf.exists_blank line
    refine ⟨blank, (skipSpace line).take name.strlen, hblank, ?_, ?_⟩
    · simpa [strncasecmpEq] using htest
    · rw [List.take_append_drop]
      exact hsplit

theorem isCommand_set_iff {line rest : List UInt8} :
    IsCommand (.lit "SET ") line rest ↔
      strncasecmpEq (skipSpace line) (.lit "SET ") = true ∧ (skipSpace line).drop 4 = rest :=
  isCommand_iff (show (CStr.lit "SET ").bytes = [83, 69, 84, 32] by decide) (by decide)

theorem isCommand_del_iff {line rest : List UInt8} :
    IsCommand (.lit "DEL ") line rest ↔
      strncasecmpEq (skipSpace line) (.lit "DEL ") = true ∧ (skipSpace line).drop 4 = rest :=
  isCommand_iff (show (CStr.lit "DEL ").bytes = [68, 69, 76, 32] by decide) (by decide)

/-- Two names that differ in their first letter are not both there. -/
theorem strncasecmpEq_false {p : List UInt8} {a b : CStr} (ha : strncasecmpEq p a = true)
    (hne : (a.bytes.map toLower).head? ≠ (b.bytes.map toLower).head?) (hb : b.bytes ≠ [])
    (ha' : a.bytes ≠ []) : strncasecmpEq p b = false := by
  rw [Bool.eq_false_iff]
  intro hb'
  apply hne
  have hfirst : ∀ s : CStr, s.bytes ≠ [] → strncasecmpEq p s = true →
      (s.bytes.map toLower).head? = p.head?.map toLower := by
    intro s hs htest
    have hmap : (p.take s.strlen).map toLower = s.bytes.map toLower := by
      simpa [strncasecmpEq] using htest
    obtain ⟨c, cs, hcs⟩ := List.exists_cons_of_ne_nil hs
    have hlen : s.strlen = cs.length + 1 := by simp [CStr.strlen, hcs]
    rw [← hmap, hlen]
    cases p <;> simp
  rw [hfirst a ha' ha, hfirst b hb hb']

theorem find_set {p : List UInt8} (h : strncasecmpEq p (.lit "SET ") = true) :
    (busCmds.find? fun c => strncasecmpEq p c.1) = some (.lit "SET ", .set) := by
  have hheart : strncasecmpEq p (.lit "HEARTBEAT") = false :=
    strncasecmpEq_false h (by decide) (by decide) (by decide)
  simp [busCmds, hheart, h]

theorem find_del {p : List UInt8} (h : strncasecmpEq p (.lit "DEL ") = true) :
    (busCmds.find? fun c => strncasecmpEq p c.1) = some (.lit "DEL ", .del) := by
  have hheart : strncasecmpEq p (.lit "HEARTBEAT") = false :=
    strncasecmpEq_false h (by decide) (by decide) (by decide)
  have hset : strncasecmpEq p (.lit "SET ") = false :=
    strncasecmpEq_false h (by decide) (by decide) (by decide)
  simp [busCmds, hheart, hset, h]

/-- The name behind a command that `cluster_parse_cmd` found. -/
theorem exists_name_of_clusterParseCmd {line rest : List UInt8} {restLen : Nat} {cmd : ClusterCmd}
    (h : clusterParseCmd line restLen = (cmd, rest)) (hcmd : cmd ≠ .unknown) :
    ∃ name, (name, cmd) ∈ busCmds ∧ strncasecmpEq (skipSpace line) name = true ∧
      rest = ((skipSpace line).drop name.strlen).take restLen := by
  unfold clusterParseCmd at h
  dsimp only at h
  split at h
  · rename_i name cmd' hfind
    obtain ⟨rfl, rfl⟩ := Prod.mk.inj h
    exact ⟨name, List.mem_of_find?_eq_some hfind,
      List.find?_some
        (p := fun c : CStr × ClusterCmd => strncasecmpEq (skipSpace line) c.1) hfind, rfl⟩
  · exact absurd (Prod.mk.inj h).1.symm hcmd

/-- A name that stands for its command alone, and is found wherever it
stands. -/
theorem classify_eq_iff {name : CStr} {cmd : ClusterCmd} (hcmd : cmd ≠ .unknown)
    (honly : ∀ other, (other, cmd) ∈ busCmds → other = name)
    (hfind : ∀ p, strncasecmpEq p name = true →
      (busCmds.find? fun c => strncasecmpEq p c.1) = some (name, cmd))
    {line rest : List UInt8} (hlen : line.length < busBufSize) :
    classify line = (cmd, rest) ↔
      strncasecmpEq (skipSpace line) name = true ∧ (skipSpace line).drop name.strlen = rest := by
  have hline : line.take (busBufSize - 1) = line := List.take_of_length_le (by omega)
  have hrest : ((skipSpace line).drop name.strlen).take busBufSize
      = (skipSpace line).drop name.strlen := by
    refine List.take_of_length_le ?_
    have hle := (Scanf.skipSpace_suffix line).length_le
    rw [List.length_drop]
    omega
  rw [classify, hline]
  constructor
  · intro h
    obtain ⟨other, hmem, htest, rfl⟩ := exists_name_of_clusterParseCmd h hcmd
    obtain rfl := honly other hmem
    exact ⟨htest, hrest.symm⟩
  · rintro ⟨htest, rfl⟩
    simp only [clusterParseCmd, hfind _ htest, hrest]

/-- `cluster_parse_cmd` finds exactly the commands. -/
theorem isCommand_iff_classify (line rest : List UInt8) (hlen : line.length < busBufSize) :
    (IsCommand (.lit "SET ") line rest ↔ classify line = (.set, rest)) ∧
    (IsCommand (.lit "DEL ") line rest ↔ classify line = (.del, rest)) := by
  have hset : (CStr.lit "SET ").strlen = 4 := by decide
  have hdel : (CStr.lit "DEL ").strlen = 4 := by decide
  constructor
  · rw [isCommand_set_iff,
      classify_eq_iff (by decide) (by simp [busCmds]) (fun _ => find_set) hlen, hset]
  · rw [isCommand_del_iff,
      classify_eq_iff (by decide) (by simp [busCmds]) (fun _ => find_del) hlen, hdel]

/-! ## A line on a connection -/

/-- The reader at the end of a line and nothing else. -/
def readLine (n : BusNode S) (line : List UInt8) (reads : List Nat) : Reader (BusNode S) :=
  reads.foldl handleClient ⟨n, [], line ++ [10], false⟩

/-- Without its newline, or with a NUL before it, there is no line. -/
theorem lines_of_newline_free : ∀ {s : List UInt8}, (10 : UInt8) ∉ s → lines s = ([], s)
  | [], _ => rfl
  | b :: s, h => by
    simp only [List.mem_cons, not_or] at h
    rw [lines, lines_of_newline_free h.2, if_neg (Ne.symm h.1)]
    simp

theorem lines_of_nul : ∀ {l : List UInt8}, (10 : UInt8) ∉ l → (0 : UInt8) ∈ l → ∀ s,
    lines (l ++ s) = ([], l ++ s)
  | b :: l, h, h0, s => by
    simp only [List.mem_cons, not_or] at h
    rw [List.cons_append, lines]
    by_cases hb : b = 0
    · rw [if_pos hb]
    · have hl : (0 : UInt8) ∈ l := by simpa [Ne.symm hb] using h0
      rw [if_neg hb, if_neg (Ne.symm h.1), lines_of_nul h.2 hl s]

/-- A line with a NUL in it is never complete. -/
theorem state_of_nul {n : BusNode S} {line : List UInt8} (hline : (10 : UInt8) ∉ line)
    (hnul : (0 : UInt8) ∈ line) (reads : List Nat) : (readLine n line reads).state = n := by
  have hlines : ∀ pre post, pre ++ post = line ++ [10] → lines pre = ([], pre) := by
    intro pre post h
    rcases List.append_eq_append_iff.mp h with ⟨t, hsplit, -⟩ | ⟨t, hsplit, -⟩
    · exact lines_of_newline_free fun h10 => hline (by simp [hsplit, h10])
    · rw [hsplit]
      exact lines_of_nul hline hnul t
  refine (Run.invariant (P := fun r : Reader (BusNode S) =>
    r.state = n ∧ r.rx ++ r.sock = line ++ [10]) ?_ reads _ ⟨rfl, rfl⟩).1
  rintro r avail ⟨hstate, hbytes⟩
  simp only [handleClient, Reader.read]
  split
  · exact ⟨hstate, hbytes⟩
  · split
    · exact ⟨hstate, hbytes⟩
    · have hchunk : ∀ k, r.sock.take k ++ r.sock.drop (r.sock.take k).length = r.sock := fun k =>
        List.prefix_iff_eq_append.mp (List.take_prefix k r.sock)
      have hread := hlines (r.rx ++ r.sock.take (min avail (busBufSize - r.rx.length - 1)))
        (r.sock.drop (r.sock.take (min avail (busBufSize - r.rx.length - 1))).length)
        (by rw [List.append_assoc, hchunk, hbytes])
      simp only [hread]
      exact ⟨hstate, by rw [List.append_assoc, hchunk, hbytes]⟩

theorem state_readLine {n : BusNode S} {line : List UInt8} (hline : (10 : UInt8) ∉ line)
    {reads : List Nat} (h : (readLine n line reads).Drained) :
    (readLine n line reads).state =
      if line.length + 1 < busBufSize ∧ (0 : UInt8) ∉ line then handleLine n line else n := by
  by_cases hnul : (0 : UInt8) ∈ line
  · rw [state_of_nul hline hnul, if_neg (by simp [hnul])]
  · have hbytes : ∀ b ∈ line ++ [10], b ≠ 0 := by
      rintro b hb rfl
      simp [hnul] at hb
    have hisLine : LineFraming.IsLine line := fun b hb =>
      ⟨fun h0 => hnul (h0 ▸ hb), fun h10 => hline (h10 ▸ hb)⟩
    have hstate := Reader.state_of_drained handleLine n (by decide) hbytes reads h
    have hlines : lines (line ++ [10]) = ([line], []) := LineFraming.lines_cons hisLine []
    have hbuf : busBufSize = 4096 := rfl
    refine hstate.trans ?_
    rw [fitting, hlines]
    by_cases hlen : line.length + 1 < busBufSize
    · rw [if_pos ⟨hlen, hnul⟩, List.takeWhile_cons_of_pos (by simp; omega)]
      rfl
    · rw [if_neg (by simp [hlen]), List.takeWhile_cons_of_neg (by simp; omega)]
      rfl

/-! ## What the receiver acts on -/

/-- The receiver acts on the line: it fits the buffer and has no NUL, and it
is a SET or a DEL with three fields at least. -/
def Accepted (line : List UInt8) : Prop :=
  line.length + 1 < busBufSize ∧ (0 : UInt8) ∉ line ∧
    ∃ rest, IsCommand (.lit "SET ") line rest ∧ ThreeFields rest ∨
      IsCommand (.lit "DEL ") line rest ∧ ThreeFields rest

/-- The write of a line that the receiver acts on. -/
theorem handleLine_of_accepted {line : List UInt8} (h : Accepted line) :
    ∃ w : ReplWrite, ∀ n : BusNode S, n.crashed = false →
      handleLine n line = { n with db := w.apply n.db } := by
  obtain ⟨hlen, -, rest, ⟨hcmd, hthree⟩ | ⟨hcmd, hthree⟩⟩ := h
  · have hclass := (isCommand_iff_classify line rest (by omega)).1.mp hcmd
    obtain ⟨f, hf⟩ := Option.isSome_iff_exists.mp (parseMeta_isSome_iff.mpr hthree)
    refine ⟨.set (f.key.getD (.lit "")) (f.val.getD (.lit "")) f.kvMeta, fun n hn => ?_⟩
    rw [handleLine_set (by rw [hclass]) hn, hclass]
    simp only [hf]
  · have hclass := (isCommand_iff_classify line rest (by omega)).2.mp hcmd
    obtain ⟨f, hf⟩ := Option.isSome_iff_exists.mp (parseMeta_isSome_iff.mpr hthree)
    refine ⟨.del (f.key.getD (.lit "")) f.kvMeta, fun n hn => ?_⟩
    rw [handleLine_del (by rw [hclass]) hn, hclass]
    simp only [hf]

/-- A line the receiver does not act on leaves the table as it is. -/
theorem db_of_not_accepted {line : List UInt8} (hlen : line.length + 1 < busBufSize)
    (hnul : (0 : UInt8) ∉ line) (h : ¬ Accepted line) (n : BusNode S) :
    (handleLine n line).db = n.db := by
  cases hn : n.crashed with
  | true => simp [handleLine, hn]
  | false =>
    have hcmd := isCommand_iff_classify line (classify line).2 (by omega)
    by_cases hset : (classify line).1 = .set
    · rw [handleLine_set hset hn]
      cases hf : parseMeta (classify line).2 with
      | none => rfl
      | some f =>
        refine absurd ⟨hlen, hnul, _, Or.inl ⟨hcmd.1.mpr (Prod.ext hset rfl), ?_⟩⟩ h
        exact parseMeta_isSome_iff.mp (by rw [hf]; rfl)
    · by_cases hdel : (classify line).1 = .del
      · rw [handleLine_del hdel hn]
        cases hf : parseMeta (classify line).2 with
        | none => rfl
        | some f =>
          refine absurd ⟨hlen, hnul, _, Or.inr ⟨hcmd.2.mpr (Prod.ext hdel rfl), ?_⟩⟩ h
          exact parseMeta_isSome_iff.mp (by rw [hf]; rfl)
      · rw [handleLine_other hset hdel]

section Reachable

variable [LinearOrder S]

/-- Every replicated write changes some table. -/
theorem exists_apply_ne (w : ReplWrite) :
    ∃ ops : List (StoreOp S), w.apply (KvTable.storeRun none none ops)
      ≠ KvTable.storeRun none none ops := by
  have hfresh : (KvTable.storeRun none none [] : KvTable S) = KvTable.fresh none := rfl
  have hgrow : ¬ (KvTable.fresh none : KvTable S).CannotStore true := fresh_canStore none
  cases w with
  | set key value m =>
    refine ⟨[], fun heq => ?_⟩
    rw [hfresh] at heq
    have hself := KvTable.kvGetObject_kvSetObject_self (KvTable.Wf.fresh none)
      (KvTable.kvSetObject_of_canStore hgrow key
        ((DbObject.objCreateString value m.wallclock).stamp (some m)) (some m))
    have hnone := KvTable.kvGetObject_fresh (S := S) none key
    rw [← heq] at hnone
    exact absurd (hself.symm.trans hnone) (by simp)
  | del key m =>
    -- a table in which the key has just this meta
    refine ⟨[.table (.setObject true key (.objCreateString (.lit "") 0) (some m))], fun heq => ?_⟩
    have hself := KvTable.kvGetObject_kvSetObject_self (KvTable.Wf.fresh (S := S) none)
      (KvTable.kvSetObject_of_canStore hgrow key (.objCreateString (.lit "") 0) (some m))
    have hget := congrArg (fun t => KvTable.kvGetObject t key) heq
    have hnot : metaGt m m = false := by
      rw [Bool.eq_false_iff, Ne, metaGt_iff]
      exact lt_irrefl m
    simp only [ReplWrite.apply] at hget
    rw [KvTable.kvGetObject_kvDelMeta (KvTable.Wf.storeRun none none _), if_pos rfl] at hget
    have hstored : (KvTable.storeRun none none
        [.table (.setObject true key (.objCreateString (.lit "") 0) (some m))] :
          KvTable S).kvGetObject key = some _ := hself
    rw [hstored] at hget
    simp [Option.filter, DbObject.stamp, DbObject.kvMeta, hnot] at hget

/-- The law of the grammar for a line: from every reachable table and
however the line is cut into reads, the table stays as it is, its version
clock included, unless the line is in the grammar. -/
def ChangesOnlyInGrammar (S : Type) [LinearOrder S] (line : List UInt8) : Prop :=
  ∀ (path : Option CStr) (file : Option (List UInt8)) (ops : List (StoreOp S)) (reads : List Nat),
    (readLine ⟨KvTable.storeRun path file ops, false⟩ line reads).Drained →
    (readLine ⟨KvTable.storeRun path file ops, false⟩ line reads).state.db
        = KvTable.storeRun path file ops ∨
      InGrammar line

/-- The law holds of a line if and only if the line is in the grammar, or
the receiver does not act on it. -/
theorem changesOnlyInGrammar_iff (line : List UInt8) (hline : (10 : UInt8) ∉ line) :
    ChangesOnlyInGrammar S line ↔ InGrammar line ∨ ¬ Accepted line := by
  constructor
  · intro hlaw
    by_contra hnot
    rw [not_or, not_not] at hnot
    obtain ⟨hgrammar, hacc⟩ := hnot
    obtain ⟨w, hw⟩ := handleLine_of_accepted (S := S) hacc
    obtain ⟨ops, hne⟩ := exists_apply_ne (S := S) w
    obtain ⟨reads, hreads⟩ := Reader.exists_drained handleLine (line ++ [10])
      (⟨⟨KvTable.storeRun none none ops, false⟩, [], line ++ [10], false⟩ : Reader (BusNode S)) rfl
    rcases hlaw none none ops reads hreads with hdb | hin
    · rw [state_readLine hline hreads, if_pos ⟨hacc.1, hacc.2.1⟩, hw _ rfl] at hdb
      exact hne hdb
    · exact hgrammar hin
  · rintro (hin | hacc) path file ops reads hreads
    · exact Or.inr hin
    · refine Or.inl ?_
      rw [state_readLine hline hreads]
      split
      · rename_i hfits
        exact db_of_not_accepted hfits.1 hfits.2 hacc _
      · rfl

/-- The form that the peers send. -/
theorem changesOnlyInGrammar_five_fields :
    ChangesOnlyInGrammar Int (CStr.lit "SET n1 1 1 k v").bytes := by
  refine (changesOnlyInGrammar_iff (CStr.lit "SET n1 1 1 k v").bytes (by decide)).mpr
    (Or.inl ⟨(CStr.lit "n1 1 1 k v").bytes, Or.inl ⟨?_, ?_⟩⟩)
  · exact isCommand_set_iff.mpr (by decide)
  · have hwords : words (CStr.lit "n1 1 1 k v").bytes
        = [[110, 49], [49], [49], [107], [118]] := by decide
    rw [hwords]
    exact ⟨by decide +kernel, by decide +kernel⟩

/-- A SET that was cut off behind its second number stores the empty key. -/
theorem truncated_set_changes_table :
    ¬ ChangesOnlyInGrammar Int (CStr.lit "SET n1 1 1").bytes := by
  have hwords : words (CStr.lit "n1 1 1").bytes = [[110, 49], [49], [49]] := by decide
  intro hlaw
  rcases hlaw none none [] [11] (by decide) with hdb | ⟨rest, hset | hdel⟩
  · have hchanged : ((readLine ⟨KvTable.storeRun none none [], false⟩ (CStr.lit "SET n1 1 1").bytes
        [11]).state.db : KvTable Int).kvExists (.lit "") = true := by decide
    rw [hdb] at hchanged
    exact absurd hchanged (by decide)
  · obtain ⟨-, rfl⟩ := isCommand_set_iff.mp hset.1
    have hrest : (skipSpace (CStr.lit "SET n1 1 1").bytes).drop 4 = (CStr.lit "n1 1 1").bytes := by
      decide
    rw [hrest, hwords] at hset
    exact hset.2
  · exact absurd (isCommand_del_iff.mp hdel.1).1 (by decide)

end Reachable

end AntzKV

/-
AntzKV.Lib.LineFraming — newline framing over a bounded receive buffer.

A reader collects bytes in a buffer of `size` bytes, NUL-terminated, takes
the complete lines out of it with `strchr` and keeps what is left for the
next read. A read offers the free space; when there is none it returns 0,
which the reader takes for the end of the connection.

`deliver_lines` is the law of framing: lines that fit the buffer are
handed over in order and whole, however the stream is cut into reads.
`Frames` is the law for any stream and for a handler that may end the
connection: the reader goes as far as the first line that does not fit or
that the handler quits at.
-/
import AntzKV.Lib.Run

namespace LineFraming

/-- The complete lines of a buffer, without their newlines, and what is
left behind the last. `strchr` stops at a NUL. -/
def lines : List UInt8 → List (List UInt8) × List UInt8
  | [] => ([], [])
  | b :: s =>
    if b = 0 then ([], b :: s)
    else if b = 10 then ([] :: (lines s).1, (lines s).2)
    else
      match lines s with
      | ([], rest) => ([], b :: rest)
      | (l :: ls, rest) => ((b :: l) :: ls, rest)

/-- A line's bytes: no NUL and no newline. -/
def IsLine (l : List UInt8) : Prop := ∀ b ∈ l, b ≠ 0 ∧ b ≠ 10

instance (l : List UInt8) : Decidable (IsLine l) :=
  inferInstanceAs (Decidable (∀ b ∈ l, b ≠ 0 ∧ b ≠ 10))

/-- Lines as they are sent. -/
def encode (ls : List (List UInt8)) : List UInt8 := ls.flatMap (· ++ [10])

theorem encode_cons (l : List UInt8) (ls : List (List UInt8)) :
    encode (l :: ls) = l ++ 10 :: encode ls := by
  simp [encode]

theorem encode_append (ls ms : List (List UInt8)) : encode (ls ++ ms) = encode ls ++ encode ms :=
  List.flatMap_append

theorem length_lt_encode {l : List UInt8} {ls : List (List UInt8)} (hl : l ∈ ls) :
    l.length < (encode ls).length := by
  have hmem : l ++ [10] ∈ ls.map (· ++ [10]) := List.mem_map_of_mem hl
  have hle : (l ++ [10]).length ≤ (encode ls).length := by
    rw [encode, List.flatMap_def]
    exact (List.sublist_flatten_of_mem hmem).length_le
  rw [List.length_append, List.length_singleton] at hle
  exact hle

theorem lines_of_isLine {l : List UInt8} (hl : IsLine l) : lines l = ([], l) := by
  induction l with
  | nil => rfl
  | cons b l ih =>
    obtain ⟨h0, h10⟩ := hl b (by simp)
    simp [lines, h0, h10, ih fun c hc => hl c (by simp [hc])]

theorem lines_cons {l : List UInt8} (hl : IsLine l) (s : List UInt8) :
    lines (l ++ 10 :: s) = (l :: (lines s).1, (lines s).2) := by
  induction l with
  | nil => simp [lines]
  | cons b l ih =>
    obtain ⟨h0, h10⟩ := hl b (by simp)
    simp [lines, h0, h10, ih fun c hc => hl c (by simp [hc])]

/-- The beginning of a stream of lines: some of the lines, and the
beginning of the next one. -/
theorem lines_of_append_eq_encode {todo : List (List UInt8)} (htodo : ∀ l ∈ todo, IsLine l)
    {pre post : List UInt8} (h : pre ++ post = encode todo) :
    ∃ done left, todo = done ++ left ∧ (lines pre).1 = done ∧
      (lines pre).2 ++ post = encode left ∧ IsLine (lines pre).2 := by
  induction todo generalizing pre with
  | nil =>
    obtain ⟨rfl, rfl⟩ := List.append_eq_nil_iff.mp h
    exact ⟨[], [], rfl, rfl, rfl, fun b hb => absurd hb (List.not_mem_nil)⟩
  | cons l ls ih =>
    have hl := htodo l (by simp)
    rw [encode_cons, List.append_eq_append_iff] at h
    rcases h with ⟨t, hpre, hpost⟩ | ⟨t, hpre, hrest⟩
    · -- the beginning ends inside the first line
      have hline : IsLine pre := fun b hb => hl b (by simp [hpre, hb])
      refine ⟨[], l :: ls, rfl, ?_, ?_, ?_⟩
      · rw [lines_of_isLine hline]
      · rw [lines_of_isLine hline, encode_cons, hpost, hpre, List.append_assoc]
      · rw [lines_of_isLine hline]
        exact hline
    · cases t with
      | nil =>
        -- it ends just before the newline
        rw [List.append_nil] at hpre
        subst hpre
        refine ⟨[], pre :: ls, rfl, ?_, ?_, ?_⟩
        · rw [lines_of_isLine hl]
        · rw [lines_of_isLine hl, encode_cons, hrest, List.nil_append]
        · rw [lines_of_isLine hl]
          exact hl
      | cons c t =>
        rw [List.cons_append] at hrest
        obtain ⟨rfl, htail⟩ := List.cons.inj hrest
        obtain ⟨done, left, hls, hdone, hleft, hopen⟩ :=
          ih (fun l hl => htodo l (by simp [hl])) htail.symm
        refine ⟨l :: done, left, by rw [hls, List.cons_append], ?_, ?_, ?_⟩
        all_goals rw [hpre, lines_cons hl]
        · rw [hdone]
        · exact hleft
        · exact hopen

/-! ## The reader -/

variable {σ : Type}

/-- A reader on a connection: `rx` is the buffer, `sock` what the peer has
sent and the reader has not read. -/
structure Reader (σ : Type) where
  state : σ
  rx : List UInt8
  sock : List UInt8
  closed : Bool

/-- One round of the read loop, with `avail` bytes arrived. -/
def Reader.read (size : Nat) (handle : σ → List UInt8 → σ) (r : Reader σ) (avail : Nat) :
    Reader σ :=
  let free := size - r.rx.length - 1
  if r.closed then r
  else if free = 0 then { r with closed := true }
  else
    let chunk := r.sock.take (min avail free)
    let (ls, rest) := lines (r.rx ++ chunk)
    { state := ls.foldl handle r.state, rx := rest, sock := r.sock.drop chunk.length,
      closed := false }

/-- The lines of a stream that are still to come. -/
structure Awaits (handle : σ → List UInt8 → σ) (s₀ : σ) (all : List (List UInt8))
    (r : Reader σ) : Prop where
  opened : r.closed = false
  rest : ∃ done left, all = done ++ left ∧ r.state = done.foldl handle s₀ ∧
    r.rx ++ r.sock = encode left ∧ IsLine r.rx

variable {size : Nat} {handle : σ → List UInt8 → σ} {s₀ : σ} {all : List (List UInt8)}

/-- What stands in the buffer is shorter than a line with its newline. -/
theorem length_rx_lt {rx sock : List UInt8} {left : List (List UInt8)} (hsize : 1 < size)
    (hfit : ∀ l ∈ left, l.length + 2 ≤ size) (h : rx ++ sock = encode left) (hrx : IsLine rx) :
    rx.length + 1 < size := by
  cases left with
  | nil =>
    obtain ⟨rfl, -⟩ := List.append_eq_nil_iff.mp h
    simpa using hsize
  | cons l ls =>
    have hl := hfit l (by simp)
    rw [encode_cons, List.append_eq_append_iff] at h
    rcases h with ⟨t, rfl, -⟩ | ⟨t, rfl, hrest⟩
    · simp only [List.length_append] at hl
      omega
    · cases t with
      | nil =>
        rw [List.append_nil]
        omega
      | cons c t =>
        obtain ⟨rfl, -⟩ := List.cons.inj hrest
        exact absurd rfl (hrx 10 (by simp)).2

theorem Awaits.read (hsize : 1 < size) (hline : ∀ l ∈ all, IsLine l)
    (hfit : ∀ l ∈ all, l.length + 2 ≤ size) {r : Reader σ} (h : Awaits handle s₀ all r)
    (avail : Nat) : Awaits handle s₀ all (r.read size handle avail) := by
  obtain ⟨hopen, done, left, rfl, hstate, hbytes, hrx⟩ := h
  have hfree : size - r.rx.length - 1 ≠ 0 := by
    have := length_rx_lt hsize (fun l hl => hfit l (by simp [hl])) hbytes hrx
    omega
  simp only [Reader.read, hopen, Bool.false_eq_true, if_false, hfree]
  have hsplit : r.rx ++ r.sock.take (min avail (size - r.rx.length - 1))
      ++ r.sock.drop (r.sock.take (min avail (size - r.rx.length - 1))).length = encode left := by
    rw [List.append_assoc, List.length_take, ← List.drop_eq_drop_min, List.take_append_drop]
    exact hbytes
  obtain ⟨done', left', hleft, hdone', hrest, hline'⟩ :=
    lines_of_append_eq_encode (fun l hl => hline l (by simp [hl])) hsplit
  refine ⟨rfl, done ++ done', left', ?_, ?_, hrest, hline'⟩
  · rw [hleft, List.append_assoc]
  · simp only [hdone', hstate, List.foldl_append]

/-- Lines that fit the buffer arrive in order and whole, however the
stream is cut into reads, and the connection stays open. -/
theorem deliver_lines (handle : σ → List UInt8 → σ) (s₀ : σ) (hsize : 1 < size) (hline : ∀ l ∈ all, IsLine l)
    (hfit : ∀ l ∈ all, l.length + 2 ≤ size) (reads : List Nat) :
    let r := reads.foldl (Reader.read size handle) ⟨s₀, [], encode all, false⟩
    r.closed = false ∧ (r.sock = [] → r.state = all.foldl handle s₀) := by
  have hinit : Awaits handle s₀ all ⟨s₀, [], encode all, false⟩ :=
    ⟨rfl, [], all, rfl, rfl, rfl, fun b hb => absurd hb (List.not_mem_nil)⟩
  obtain ⟨hopen, done, left, rfl, hstate, hbytes, hrx⟩ :=
    Run.invariant (P := Awaits handle s₀ all)
      (fun _ n h => Awaits.read hsize hline hfit h n) reads _ hinit
  refine ⟨hopen, ?_⟩
  intro hsock
  rw [hsock, List.append_nil] at hbytes
  cases left with
  | nil => rw [hstate, List.append_nil]
  | cons l ls =>
    rw [encode_cons] at hbytes
    exact absurd rfl (hrx 10 (by simp [hbytes])).2

/-! ## Any stream, and a handler that may quit -/

/-- Hand lines over one by one; the flag says that the handler quit. -/
def feed (handle : σ → List UInt8 → σ × Bool) : σ → List (List UInt8) → σ × Bool
  | s, [] => (s, false)
  | s, l :: ls => if (handle s l).2 then handle s l else feed handle (handle s l).1 ls

/-- One round of a read loop that ends when the handler quits. `sock` is
all that is still to come, so a read that brings nothing returned 0: no
space was offered, or the stream has ended. -/
def Reader.readQuit (size : Nat) (handle : σ → List UInt8 → σ × Bool) (r : Reader σ)
    (avail : Nat) : Reader σ :=
  let chunk := r.sock.take (min avail (size - r.rx.length - 1))
  if r.closed then r
  else if chunk = [] then { r with closed := true }
  else
    let (ls, rest) := lines (r.rx ++ chunk)
    let (s, quit) := feed handle r.state ls
    { state := s, rx := rest, sock := r.sock.drop chunk.length, closed := quit }

/-- The lines of a stream before the first that is, with its newline,
longer than `limit`. -/
def fitting (limit : Nat) (stream : List UInt8) : List (List UInt8) :=
  (lines stream).1.takeWhile fun l => l.length + 1 ≤ limit

theorem length_lt_of_mem_fitting {limit : Nat} {stream l : List UInt8}
    (hl : l ∈ fitting limit stream) : l.length < limit := by
  have hfits := List.mem_takeWhile_imp (p := fun l : List UInt8 => l.length + 1 ≤ limit) hl
  simp only [decide_eq_true_eq] at hfits
  exact hfits

/-- A line of the stream, or what stands behind its last newline, does not
fit `limit` bytes together with a newline. -/
def Overlong (limit : Nat) (stream : List UInt8) : Prop :=
  (∃ l ∈ (lines stream).1, limit < l.length + 1) ∨ limit < (lines stream).2.length + 1

/-- The law of framing for a read loop on a stream, over every way of
cutting it into non-empty reads. At any moment some of the fitting lines
were handed over; all of them, up to the one the handler quits at, when
the loop has closed; it closes for no other reason than quitting, a line
that does not fit or the end of the stream; and it does close. -/
def Frames (read : Reader σ → Nat → Reader σ) (limit : Nat) (handle : σ → List UInt8 → σ × Bool)
    (s₀ : σ) (stream : List UInt8) : Prop :=
  ∀ reads : List Nat, (∀ n ∈ reads, 0 < n) →
    let r := reads.foldl read ⟨s₀, [], stream, false⟩
    let whole := feed handle s₀ (fitting limit stream)
    (∃ n, r.state = (feed handle s₀ ((fitting limit stream).take n)).1) ∧
    (r.closed = true → r.state = whole.1 ∧
      (whole.2 = true ∨ Overlong limit stream ∨ r.sock = [])) ∧
    (stream.length < reads.length → r.closed = true)

section Quit

variable {handle : σ → List UInt8 → σ × Bool} {stream : List UInt8}

theorem feed_append (handle : σ → List UInt8 → σ × Bool) (s : σ) (ls ms : List (List UInt8)) :
    feed handle s (ls ++ ms) =
      if (feed handle s ls).2 then feed handle s ls else feed handle (feed handle s ls).1 ms := by
  induction ls generalizing s with
  | nil => rfl
  | cons l ls ih =>
    simp only [List.cons_append, feed]
    by_cases hq : (handle s l).2 = true
    · simp only [if_pos hq]
    · simp only [if_neg hq]
      exact ih (handle s l).1

/-- A buffer without NUL is its lines and an unfinished one. -/
theorem lines_spec {s : List UInt8} (h : ∀ b ∈ s, b ≠ 0) :
    s = encode (lines s).1 ++ (lines s).2 ∧ (∀ l ∈ (lines s).1, IsLine l) ∧ IsLine (lines s).2 := by
  induction s with
  | nil => exact ⟨rfl, by simp [lines], by simp [lines, IsLine]⟩
  | cons b s ih =>
    have h0 : b ≠ 0 := h b (by simp)
    obtain ⟨heq, hls, hrest⟩ := ih fun c hc => h c (by simp [hc])
    by_cases h10 : b = 10
    · subst h10
      simp only [lines, h0, if_false, if_true]
      refine ⟨?_, ?_, hrest⟩
      · rw [encode_cons, List.nil_append, List.cons_append, ← heq]
      · intro l hl
        rcases List.mem_cons.mp hl with rfl | hl
        · exact fun c hc => absurd hc List.not_mem_nil
        · exact hls l hl
    · simp only [lines, h0, h10, if_false]
      revert heq hls hrest
      rcases lines s with ⟨_ | ⟨l, ls⟩, rest⟩
      · intro heq _ hrest
        refine ⟨?_, by simp, ?_⟩
        · simpa [encode] using heq
        · intro c hc
          rcases List.mem_cons.mp hc with rfl | hc
          · exact ⟨h0, h10⟩
          · exact hrest c hc
      · intro heq hls hrest
        refine ⟨?_, ?_, hrest⟩
        · simpa [encode_cons] using heq
        · intro m hm
          rcases List.mem_cons.mp hm with rfl | hm
          · intro c hc
            rcases List.mem_cons.mp hc with rfl | hc
            · exact ⟨h0, h10⟩
            · exact hls l (by simp) c hc
          · exact hls m (by simp [hm])

theorem lines_encode_append {done : List (List UInt8)} (hdone : ∀ l ∈ done, IsLine l)
    (t : List UInt8) : lines (encode done ++ t) = (done ++ (lines t).1, (lines t).2) := by
  induction done with
  | nil => rfl
  | cons l ls ih =>
    rw [encode_cons, List.append_assoc, List.cons_append, lines_cons (hdone l (by simp)),
      ih fun m hm => hdone m (by simp [hm])]
    rfl

theorem fitting_encode_append {limit : Nat} {done : List (List UInt8)}
    (hline : ∀ l ∈ done, IsLine l) (hfit : ∀ l ∈ done, l.length + 1 ≤ limit) (t : List UInt8) :
    fitting limit (encode done ++ t) = done ++ fitting limit t := by
  unfold fitting
  rw [lines_encode_append hline, List.takeWhile_append_of_pos]
  intro l hl
  simpa using hfit l hl

/-- A newline-free beginning of `limit` bytes belongs to no line that
fits. -/
theorem fitting_of_full {limit : Nat} {rx t : List UInt8} (hrx : IsLine rx)
    (hfull : limit ≤ rx.length) (ht : ∀ b ∈ t, b ≠ 0) :
    fitting limit (rx ++ t) = [] ∧ Overlong limit (rx ++ t) := by
  have hnul : ∀ b ∈ rx ++ t, b ≠ 0 := by
    intro b hb
    rcases List.mem_append.mp hb with hb | hb
    · exact (hrx b hb).1
    · exact ht b hb
  obtain ⟨heq, -, -⟩ := lines_spec hnul
  unfold fitting Overlong
  revert heq
  rcases lines (rx ++ t) with ⟨_ | ⟨l, ls⟩, rest⟩
  · intro heq
    refine ⟨rfl, Or.inr ?_⟩
    have hlen := congrArg List.length heq
    simp only [encode, List.flatMap_nil, List.nil_append, List.length_append] at hlen
    show limit < rest.length + 1
    omega
  · intro heq
    -- the first line reaches beyond `rx`
    have hlong : rx.length ≤ l.length := by
      by_contra hlt
      rw [encode_cons, List.append_assoc, List.append_eq_append_iff] at heq
      rcases heq with ⟨u, hu, -⟩ | ⟨u, hu, hv⟩
      · rw [hu, List.length_append] at hlt
        omega
      · cases u with
        | nil =>
          rw [hu, List.append_nil] at hlt
          omega
        | cons c u =>
          rw [List.cons_append] at hv
          obtain ⟨rfl, -⟩ := List.cons.inj hv
          exact absurd rfl (hrx 10 (by simp [hu])).2
    refine ⟨?_, Or.inl ⟨l, by simp, by omega⟩⟩
    rw [List.takeWhile_cons_of_neg]
    simp only [decide_eq_true_eq]
    omega

/-- What the reader stands at while the connection is open: the lines it
has handed over, none of which made the handler quit, and behind them an
unfinished line in the buffer. -/
structure Midway (size : Nat) (handle : σ → List UInt8 → σ × Bool) (s₀ : σ) (stream : List UInt8)
    (r : Reader σ) (done : List (List UInt8)) : Prop where
  split : stream = encode done ++ (r.rx ++ r.sock)
  line : ∀ l ∈ done, IsLine l
  fits : ∀ l ∈ done, l.length + 2 ≤ size
  fed : feed handle s₀ done = (r.state, false)
  buffer : IsLine r.rx
  room : r.rx.length + 1 ≤ size

/-- The lines of the stream, seen from the middle of it. -/
theorem Midway.lines_eq {r : Reader σ} {done : List (List UInt8)}
    (h : Midway size handle s₀ stream r done) :
    lines stream = (done ++ (lines (r.rx ++ r.sock)).1, (lines (r.rx ++ r.sock)).2) := by
  rw [h.split]
  exact lines_encode_append h.line _

theorem Midway.fitting_eq {r : Reader σ} {done : List (List UInt8)}
    (h : Midway size handle s₀ stream r done) :
    fitting (size - 1) stream = done ++ fitting (size - 1) (r.rx ++ r.sock) := by
  conv_lhs => rw [h.split]
  refine fitting_encode_append h.line ?_ _
  intro l hl
  have := h.fits l hl
  omega

/-- Where the reader ends. -/
structure Ended (size : Nat) (handle : σ → List UInt8 → σ × Bool) (s₀ : σ) (stream : List UInt8)
    (r : Reader σ) : Prop where
  state : r.state = (feed handle s₀ (fitting (size - 1) stream)).1
  why : (feed handle s₀ (fitting (size - 1) stream)).2 = true ∨ Overlong (size - 1) stream ∨
    r.sock = []

/-- The connection is open and the reader midway, or it has ended. -/
def Follows (size : Nat) (handle : σ → List UInt8 → σ × Bool) (s₀ : σ) (stream : List UInt8)
    (r : Reader σ) : Prop :=
  (r.closed = false ∧ ∃ done, Midway size handle s₀ stream r done) ∨
    (r.closed = true ∧ Ended size handle s₀ stream r)

/-- A read that finds the buffer full. -/
theorem Midway.full {r : Reader σ} {done : List (List UInt8)} (hnul : ∀ b ∈ stream, b ≠ 0)
    (h : Midway size handle s₀ stream r done) (hfull : size - r.rx.length - 1 = 0) :
    Ended size handle s₀ stream { r with closed := true } := by
  have hsock : ∀ b ∈ r.sock, b ≠ 0 := fun b hb => hnul b (by rw [h.split]; simp [hb])
  have hlimit : size - 1 ≤ r.rx.length := by omega
  obtain ⟨hnone, hwhy⟩ := fitting_of_full h.buffer hlimit hsock
  refine ⟨?_, Or.inr (Or.inl ?_)⟩
  · rw [h.fitting_eq, hnone, List.append_nil, h.fed]
  · unfold Overlong
    rw [h.lines_eq]
    rcases hwhy with ⟨l, hl, hlong⟩ | hrest
    · exact Or.inl ⟨l, List.mem_append_right done hl, hlong⟩
    · exact Or.inr hrest

/-- A read that finds the stream ended. -/
theorem Midway.eof {r : Reader σ} {done : List (List UInt8)}
    (h : Midway size handle s₀ stream r done) (hsock : r.sock = []) :
    Ended size handle s₀ stream { r with closed := true } := by
  have hdone : fitting (size - 1) stream = done := by
    rw [h.fitting_eq, fitting, hsock, List.append_nil, lines_of_isLine h.buffer]
    exact List.append_nil done
  refine ⟨?_, Or.inr (Or.inr hsock)⟩
  rw [hdone, h.fed]

/-- A read that brings bytes. -/
theorem Midway.read {r : Reader σ} {done : List (List UInt8)} (hnul : ∀ b ∈ stream, b ≠ 0)
    (h : Midway size handle s₀ stream r done) {k : Nat} (hk : r.rx.length + k + 1 ≤ size) :
    let buf := r.rx ++ r.sock.take k
    let r' : Reader σ :=
      { state := (feed handle r.state (lines buf).1).1, rx := (lines buf).2,
        sock := r.sock.drop (r.sock.take k).length, closed := (feed handle r.state (lines buf).1).2 }
    Follows size handle s₀ stream r' := by
  intro buf r'
  have hbytes : buf ++ r.sock.drop (r.sock.take k).length = r.rx ++ r.sock := by
    rw [List.append_assoc, List.length_take, ← List.drop_eq_drop_min, List.take_append_drop]
  have hbufnul : ∀ b ∈ buf, b ≠ 0 := by
    intro b hb
    apply hnul b
    rw [h.split, ← hbytes]
    simp [hb]
  obtain ⟨hbuf, hls, hrest⟩ := lines_spec hbufnul
  have hlen : (encode (lines buf).1).length + (lines buf).2.length ≤ r.rx.length + k := by
    rw [← List.length_append, ← hbuf, List.length_append, List.length_take]
    omega
  -- a line of the buffer is no longer than the buffer
  have hfits : ∀ l ∈ (lines buf).1, l.length + 2 ≤ size := by
    intro l hl
    have hle := length_lt_encode hl
    omega
  have hfed := feed_append handle s₀ done (lines buf).1
  rw [h.fed] at hfed
  simp only [Bool.false_eq_true, if_false] at hfed
  have hsplit : stream = encode (done ++ (lines buf).1) ++ ((lines buf).2 ++ r'.sock) := by
    rw [encode_append, List.append_assoc,
      ← List.append_assoc (encode (lines buf).1), ← hbuf, hbytes]
    exact h.split
  have hline : ∀ l ∈ done ++ (lines buf).1, IsLine l := by
    intro l hl
    rcases List.mem_append.mp hl with hl | hl
    · exact h.line l hl
    · exact hls l hl
  have hfit : ∀ l ∈ done ++ (lines buf).1, l.length + 2 ≤ size := by
    intro l hl
    rcases List.mem_append.mp hl with hl | hl
    · exact h.fits l hl
    · exact hfits l hl
  cases hq : (feed handle r.state (lines buf).1).2 with
  | false =>
    refine Or.inl ⟨hq, done ++ (lines buf).1, hsplit, hline, hfit, ?_, hrest, ?_⟩
    · rw [hfed]
      exact Prod.ext rfl hq
    · show (lines buf).2.length + 1 ≤ size
      omega
  | true =>
    have hwhole : feed handle s₀ (fitting (size - 1) stream) = feed handle r.state (lines buf).1 := by
      have hfitting : fitting (size - 1) stream = (done ++ (lines buf).1)
          ++ fitting (size - 1) ((lines buf).2 ++ r'.sock) := by
        conv_lhs => rw [hsplit]
        refine fitting_encode_append hline ?_ _
        intro l hl
        have := hfit l hl
        omega
      rw [hfitting, feed_append, hfed, if_pos hq]
    refine Or.inr ⟨hq, ?_, Or.inl ?_⟩
    · rw [hwhole]
    · rw [hwhole, hq]

theorem Follows.readQuit {r : Reader σ} (hnul : ∀ b ∈ stream, b ≠ 0)
    (h : Follows size handle s₀ stream r) {avail : Nat} (havail : 0 < avail) :
    Follows size handle s₀ stream (r.readQuit size handle avail) := by
  rcases h with ⟨hopen, done, hmid⟩ | ⟨hclosed, hend⟩
  · by_cases hnone : r.sock.take (min avail (size - r.rx.length - 1)) = []
    · simp only [Reader.readQuit, hopen, Bool.false_eq_true, if_false, hnone, if_true]
      refine Or.inr ⟨rfl, ?_⟩
      rcases List.take_eq_nil_iff.mp hnone with hzero | hsock
      · exact hmid.full hnul (by omega)
      · exact hmid.eof hsock
    · have hspace : r.rx.length + min avail (size - r.rx.length - 1) + 1 ≤ size := by
        have := hmid.room
        omega
      simp only [Reader.readQuit, hopen, Bool.false_eq_true, if_false, hnone]
      exact hmid.read hnul hspace
  · simp only [Reader.readQuit, hclosed, if_true]
    exact Or.inr ⟨hclosed, hend⟩

/-- Every read of an open connection takes a byte or closes it. -/
theorem Reader.closed_or_sock_lt (r : Reader σ) (size : Nat) (handle : σ → List UInt8 → σ × Bool)
    (avail : Nat) (hopen : r.closed = false) :
    (r.readQuit size handle avail).closed = true ∨
      (r.readQuit size handle avail).sock.length < r.sock.length := by
  by_cases hnone : r.sock.take (min avail (size - r.rx.length - 1)) = []
  · simp [Reader.readQuit, hopen, hnone]
  · right
    simp only [Reader.readQuit, hopen, Bool.false_eq_true, if_false, hnone, List.length_drop]
    have hpos := List.length_pos_of_ne_nil hnone
    have hle : (r.sock.take (min avail (size - r.rx.length - 1))).length ≤ r.sock.length :=
      List.length_take_le' _ _
    omega

theorem Reader.closed_of_reads (reads : List Nat) (r : Reader σ)
    (h : r.closed = true ∨ r.sock.length < reads.length) :
    (reads.foldl (Reader.readQuit size handle) r).closed = true := by
  induction reads generalizing r with
  | nil => exact h.resolve_right (Nat.not_lt_zero _)
  | cons n reads ih =>
    apply ih
    cases hopen : r.closed with
    | true => simp [Reader.readQuit, hopen]
    | false =>
      have hlt : r.sock.length < reads.length + 1 := by simpa [hopen] using h
      rcases r.closed_or_sock_lt size handle n hopen with hc | hlt'
      · exact Or.inl hc
      · exact Or.inr (by omega)

/-- **The law of framing** for a read loop that may quit. -/
theorem frames_readQuit (handle : σ → List UInt8 → σ × Bool) (s₀ : σ) (hsize : 1 ≤ size)
    (hnul : ∀ b ∈ stream, b ≠ 0) :
    Frames (Reader.readQuit size handle) (size - 1) handle s₀ stream := by
  intro reads hreads
  have hinit : Follows size handle s₀ stream ⟨s₀, [], stream, false⟩ :=
    Or.inl ⟨rfl, [], rfl, by simp, by simp, rfl, fun b hb => absurd hb List.not_mem_nil, hsize⟩
  have hrun : Follows size handle s₀ stream
      (reads.foldl (Reader.readQuit size handle) ⟨s₀, [], stream, false⟩) := by
    refine List.foldlRecOn reads _ hinit ?_
    intro r h n hn
    exact h.readQuit hnul (hreads n hn)
  refine ⟨?_, ?_, fun hlen => Reader.closed_of_reads reads _ (Or.inr hlen)⟩
  · rcases hrun with ⟨-, done, hmid⟩ | ⟨-, hend⟩
    · refine ⟨done.length, ?_⟩
      rw [hmid.fitting_eq, List.take_left, hmid.fed]
    · refine ⟨(fitting (size - 1) stream).length, ?_⟩
      rw [List.take_length]
      exact hend.state
  · intro hclosed
    rcases hrun with ⟨hopen, -⟩ | ⟨-, hend⟩
    · simp [hclosed] at hopen
    · exact ⟨hend.state, hend.why⟩

/-- What is handed over depends only on what the handler does with each of
the lines. -/
theorem feed_congr {handle' : σ → List UInt8 → σ × Bool} {ls : List (List UInt8)}
    (h : ∀ s, ∀ l ∈ ls, handle s l = handle' s l) (s : σ) :
    feed handle s ls = feed handle' s ls := by
  induction ls generalizing s with
  | nil => rfl
  | cons l ls ih =>
    simp only [feed, h s l (by simp)]
    rw [ih fun s m hm => h s m (by simp [hm])]

/-- A handler that sees only the fitting lines may cut them where they all
fit. -/
theorem Frames.congr {read : Reader σ → Nat → Reader σ} {limit : Nat}
    {handle' : σ → List UInt8 → σ × Bool}
    (h : ∀ s, ∀ l ∈ fitting limit stream, handle s l = handle' s l)
    (hf : Frames read limit handle s₀ stream) : Frames read limit handle' s₀ stream := by
  intro reads hreads
  obtain ⟨⟨n, hn⟩, hclosed, hcloses⟩ := hf reads hreads
  rw [feed_congr h] at hclosed
  rw [feed_congr fun s l hl => h s l (List.mem_of_mem_take hl)] at hn
  exact ⟨⟨n, hn⟩, hclosed, hcloses⟩

theorem fitting_single {limit : Nat} {l : List UInt8} (hl : IsLine l)
    (hfits : l.length + 1 ≤ limit) : fitting limit (l ++ [10]) = [l] := by
  have hlines : lines (l ++ [10]) = ([l], []) := lines_cons hl []
  rw [fitting, hlines, List.takeWhile_eq_self_iff]
  intro m hm
  rw [List.mem_singleton.mp hm]
  exact decide_eq_true hfits

/-- Of a stream of one line the loop has handed over nothing yet, or the
line; and there comes a time when it has. -/
theorem Frames.single {read : Reader σ → Nat → Reader σ} {limit : Nat} {l : List UInt8}
    (hl : IsLine l) (hfits : l.length + 1 ≤ limit)
    (hf : Frames read limit handle s₀ (l ++ [10])) :
    (∀ reads : List Nat, (∀ n ∈ reads, 0 < n) →
      (reads.foldl read ⟨s₀, [], l ++ [10], false⟩).state = s₀ ∨
      (reads.foldl read ⟨s₀, [], l ++ [10], false⟩).state = (handle s₀ l).1) ∧
    ∃ reads : List Nat, (∀ n ∈ reads, 0 < n) ∧
      (reads.foldl read ⟨s₀, [], l ++ [10], false⟩).state = (handle s₀ l).1 := by
  have hfeed : (feed handle s₀ [l]).1 = (handle s₀ l).1 := by
    rw [feed]
    split <;> rfl
  rw [Frames, fitting_single hl hfits] at hf
  constructor
  · intro reads hreads
    obtain ⟨⟨n, hn⟩, -⟩ := hf reads hreads
    cases n with
    | zero => exact Or.inl hn
    | succ n =>
      right
      rw [hn, List.take_succ_cons, List.take_nil, hfeed]
  · have hreads : ∀ n ∈ List.replicate (l.length + 2) 1, 0 < n := by
      intro n hn
      rw [List.eq_of_mem_replicate hn]
      exact Nat.one_pos
    obtain ⟨-, hclosed, hcloses⟩ := hf _ hreads
    have hlong : (l ++ [10]).length < (List.replicate (l.length + 2) 1).length := by simp
    exact ⟨_, hreads, (hclosed (hcloses hlong)).1.trans hfeed⟩

/-! ## A loop whose handler never quits -/

theorem feed_never (handle : σ → List UInt8 → σ) (s : σ) (ls : List (List UInt8)) :
    feed (fun s l => (handle s l, false)) s ls = (ls.foldl handle s, false) := by
  induction ls generalizing s with
  | nil => rfl
  | cons l ls ih => simp [feed, ih]

/-- `Reader.read` is the same loop on a connection that stays open: a read
that brings bytes does what it does there. -/
theorem Reader.read_eq_readQuit (handle : σ → List UInt8 → σ) (r : Reader σ) {avail : Nat}
    (havail : 0 < avail) (hsock : r.sock ≠ []) :
    r.read size handle avail = r.readQuit size (fun s l => (handle s l, false)) avail := by
  unfold Reader.read Reader.readQuit
  by_cases hfull : size - r.rx.length - 1 = 0
  · simp [hfull]
  · have hsome : r.sock.take (min avail (size - r.rx.length - 1)) ≠ [] := by
      intro hnone
      rcases List.take_eq_nil_iff.mp hnone with hzero | hnil
      · omega
      · exact hsock hnil
    simp only [hfull, if_false, hsome, feed_never]

/-- The loop can go no further: it has ended, or there is nothing left to
read. -/
def Reader.Drained (r : Reader σ) : Prop := r.closed = true ∨ r.sock = []

instance (r : Reader σ) : Decidable r.Drained :=
  inferInstanceAs (Decidable (r.closed = true ∨ r.sock = []))

theorem Follows.read {handle : σ → List UInt8 → σ} {r : Reader σ} (hnul : ∀ b ∈ stream, b ≠ 0)
    (h : Follows size (fun s l => (handle s l, false)) s₀ stream r) (avail : Nat) :
    Follows size (fun s l => (handle s l, false)) s₀ stream (r.read size handle avail) := by
  rcases h with ⟨hopen, done, hmid⟩ | ⟨hclosed, hend⟩
  · by_cases hfull : size - r.rx.length - 1 = 0
    · simp only [Reader.read, hopen, Bool.false_eq_true, if_false, hfull, if_true]
      exact Or.inr ⟨rfl, hmid.full hnul hfull⟩
    · have hspace : r.rx.length + min avail (size - r.rx.length - 1) + 1 ≤ size := by
        have := hmid.room
        omega
      have hread := hmid.read hnul hspace
      simp only [feed_never] at hread
      simp only [Reader.read, hopen, Bool.false_eq_true, if_false, hfull]
      exact hread
  · simp only [Reader.read, hclosed, if_true]
    exact Or.inr ⟨hclosed, hend⟩

/-- However the stream is cut into reads: when the loop can go no further,
exactly the fitting lines were handed over. -/
theorem Reader.state_of_drained (handle : σ → List UInt8 → σ) (s₀ : σ) (hsize : 1 ≤ size)
    (hnul : ∀ b ∈ stream, b ≠ 0) (reads : List Nat)
    (h : (reads.foldl (Reader.read size handle) ⟨s₀, [], stream, false⟩).Drained) :
    (reads.foldl (Reader.read size handle) ⟨s₀, [], stream, false⟩).state
      = (fitting (size - 1) stream).foldl handle s₀ := by
  have hinit : Follows size (fun s l => (handle s l, false)) s₀ stream ⟨s₀, [], stream, false⟩ :=
    Or.inl ⟨rfl, [], rfl, by simp, by simp, rfl, fun b hb => absurd hb List.not_mem_nil, hsize⟩
  have hrun : Follows size (fun s l => (handle s l, false)) s₀ stream
      (reads.foldl (Reader.read size handle) ⟨s₀, [], stream, false⟩) :=
    Run.invariant (P := Follows size (fun s l => (handle s l, false)) s₀ stream)
      (fun _ n h => Follows.read hnul h n) reads _ hinit
  have hend : Ended size (fun s l => (handle s l, false)) s₀ stream
      { reads.foldl (Reader.read size handle) ⟨s₀, [], stream, false⟩ with closed := true } := by
    rcases hrun with ⟨hopen, done, hmid⟩ | ⟨-, hend⟩
    · exact hmid.eof (h.resolve_left (by simp [hopen]))
    · exact ⟨hend.state, hend.why⟩
  have hstate := hend.state
  rw [feed_never] at hstate
  exact hstate

/-- Some reads bring the loop to where it can go no further. -/
theorem Reader.exists_drained (handle : σ → List UInt8 → σ) :
    ∀ (sock : List UInt8) (r : Reader σ), r.sock = sock →
      ∃ reads : List Nat, (reads.foldl (Reader.read size handle) r).Drained
  | [], _, h => ⟨[], Or.inr h⟩
  | b :: s, r, h => by
    cases hclosed : r.closed with
    | true => exact ⟨[], Or.inl hclosed⟩
    | false =>
      by_cases hfull : size - r.rx.length - 1 = 0
      · refine ⟨[1], Or.inl ?_⟩
        simp [Reader.read, hclosed, hfull]
      · have hsock : (r.read size handle 1).sock = s := by
          have hmin : min 1 (size - r.rx.length - 1) = 1 := by omega
          simp [Reader.read, hclosed, hfull, h, hmin]
        obtain ⟨reads, hreads⟩ := exists_drained handle s _ hsock
        exact ⟨1 :: reads, hreads⟩

end Quit

end LineFraming

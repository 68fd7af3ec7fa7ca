/-
AntzKV.Server.ClientLoop — the read loops of a client connection and of a
cluster connection, and the law of framing for both.

`handle_client_unlocked` reads into `rxbuf`, four times `BUFFER_SIZE`
bytes, and copies each line into `line`, where it is cut to what
`BUFFER_SIZE` holds; `handle_client` of the bus has the same loop over
smaller buffers and no way to quit. What is done with a line is a
parameter of both loops: a state, a line, and the flag `quit`.
-/
import AntzKV.Cluster.Bus

namespace AntzKV

open LineFraming (Reader Frames)

variable {σ S : Type}

/-- `BUFFER_SIZE` -/
def bufferSize : Nat := 4096

/-- One round of the loop of `handle_client_unlocked`. -/
def handleClientUnlocked (dispatch : σ → List UInt8 → σ × Bool) : Reader σ → Nat → Reader σ :=
  Reader.readQuit (bufferSize * 4) fun s l => dispatch s (l.take (bufferSize - 1))

/-- One round of the loop of the bus, with the end of the connection. -/
def busLoop (dispatch : σ → List UInt8 → σ) : Reader σ → Nat → Reader σ :=
  Reader.readQuit busBufSize fun s l => (dispatch s (l.take (busBufSize - 1)), false)

/-- The cut `handleLine` makes is the one the loop has made. -/
theorem handleLine_take (n : BusNode S) (line : List UInt8) :
    handleLine n (line.take (busBufSize - 1)) = handleLine n line := by
  simp only [handleLine, List.take_take, Nat.min_self]

/-- While bytes arrive, `handleClient` is this loop. -/
theorem handleClient_eq_busLoop (r : Reader (BusNode S)) {avail : Nat} (havail : 0 < avail)
    (hsock : r.sock ≠ []) : handleClient r avail = busLoop handleLine r avail := by
  unfold handleClient busLoop
  simp only [handleLine_take]
  exact r.read_eq_readQuit handleLine havail hsock

/-! ## Framing -/

/-- **Framing does not depend on how the stream is cut into reads**: a
client's loop hands over the lines that fit 16383 bytes, each cut to 4095,
up to the one that quits; the loop of the bus hands over the lines that
fit 4095 bytes, whole. -/
theorem request_framing (dispatch : σ → List UInt8 → σ × Bool) (onLine : σ → List UInt8 → σ)
    (s₀ : σ) (stream : List UInt8) (hnul : ∀ b ∈ stream, b ≠ 0) :
    Frames (handleClientUnlocked dispatch) 16383 (fun s l => dispatch s (l.take 4095)) s₀ stream ∧
    Frames (busLoop onLine) 4095 (fun s l => (onLine s l, false)) s₀ stream := by
  constructor
  · exact LineFraming.frames_readQuit _ s₀ (by decide) hnul
  · refine LineFraming.Frames.congr ?_ (LineFraming.frames_readQuit _ s₀ (by decide) hnul)
    intro s l hl
    have hlen : l.length ≤ busBufSize - 1 := (LineFraming.length_lt_of_mem_fitting hl).le
    rw [List.take_of_length_le hlen]

/-- Three lines, the second of which quits. -/
theorem request_framing_quits :
    (∀ b ∈ ([80, 10, 81, 10, 80, 10] : List UInt8), b ≠ 0) ∧
    Frames (handleClientUnlocked fun (seen : List (List UInt8)) l => (seen ++ [l], l == [81])) 16383
      (fun seen l => (seen ++ [l.take 4095], l.take 4095 == [81])) [] [80, 10, 81, 10, 80, 10] := by
  have hnul : ∀ b ∈ ([80, 10, 81, 10, 80, 10] : List UInt8), b ≠ 0 := by simp
  exact ⟨hnul, (request_framing (fun seen l => (seen ++ [l], l == [81])) (fun seen _ => seen) []
    [80, 10, 81, 10, 80, 10] hnul).1⟩

end AntzKV

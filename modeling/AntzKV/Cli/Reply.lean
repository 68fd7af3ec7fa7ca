/-
AntzKV.Cli.Reply — how `antzkv-cli` reads a reply: `read_exact`,
`read_line_raw` and `recv_resp_raw` of `cli.c`.

The socket is the bytes that are still to come on it; a `read` at their
end fails. `recv_resp_raw` calls itself for the elements of an array, so
it goes by fuel for the depth, of which there is enough when there is more
than there are bytes (`recvRespRaw_fuel`).
-/
import AntzKV.Cluster.Bus
import AntzKV.Cluster.Conf

namespace AntzKV

namespace Cli

/-- `BUFFER_SIZE` of `cli.c`. -/
def bufferSize : Nat := 4096

/-- The rows of `elements`. -/
def maxElements : Nat := 128

/-- What a call of `recv_resp_raw` does: the return value, the text in
`out` (`none` where it is left without its NUL), and the socket after it. -/
structure Recv where
  ret : Int
  out : Option (List UInt8)
  rest : List UInt8

/-- `read_exact`, `none` for the return value -1. -/
def readExact (n : Nat) (s : List UInt8) : Option (List UInt8) × List UInt8 :=
  (if n ≤ s.length then some (s.take n) else none, s.drop n)

/-- `read_line_raw` with `room` bytes left in the buffer before the NUL;
`none` for the return value -1. -/
def readLineRaw : Nat → List UInt8 → Option (List UInt8) × List UInt8
  | room, [] => (if room = 0 then some [] else none, [])
  | room, c :: s =>
    if room = 0 then (some [], c :: s)
    else if c = 10 then (some [], s)
    else if c = 13 then readLineRaw room s
    else
      let (line, s) := readLineRaw (room - 1) s
      (line.map (c :: ·), s)

/-- The part of `recv_resp_raw` behind the length of a bulk string. -/
def recvBulk (outLen : Nat) (blen : Int) (s : List UInt8) : Recv :=
  if blen < 0 then ⟨-1, some (snprintf outLen (CStr.lit "(nil)").bytes), s⟩
  else if blen = 0 then ⟨0, some [], (readExact 2 s).2⟩
  -- the bytes of the string stay on the socket
  else if blen.toNat ≥ outLen - 1 then ⟨-1, some [], s⟩
  else
    match readExact blen.toNat s with
    | (none, s) => ⟨-1, some [], s⟩
    | (some body, s) => ⟨blen, some body, (readExact 2 s).2⟩

/-- The loop over the elements of an array, with the call it makes. -/
def recvElements (recv : List UInt8 → Recv) : Nat → List UInt8 → List (List UInt8) × List UInt8
  | 0, s => ([], s)
  | n + 1, s =>
    let r := recv s
    let elem := if r.ret < 0 then (CStr.lit "(nil)").bytes else r.out.getD []
    let (elements, s) := recvElements recv n r.rest
    -- strncpy
    ((elem.takeWhile (· != 0)).take (bufferSize - 1) :: elements, s)

/-- The loop that joins the elements of an array; `out` is what is written
so far. -/
def joinElements (outLen : Nat) : Bool → List UInt8 → List (List UInt8) → List UInt8
  | _, out, [] => out
  | first, out, e :: elements =>
    let out := if !first && decide (out.length < outLen - 2) then out ++ [32] else out
    if out.length + e.length ≥ outLen then out
    else joinElements outLen false (out ++ e) elements

/-- What `recv_resp_raw` writes for an array: a message, an acknowledgement,
or the elements. -/
def arrayText (outLen : Nat) (arrlen : Int) (elements : List (List UInt8)) : List UInt8 :=
  match elements with
  | [kind, a, b] =>
    if arrlen = 3 ∧ kind = (CStr.lit "message").bytes then
      snprintf outLen (a ++ (CStr.lit ": ").bytes ++ b)
    else if arrlen = 3 ∧
        (kind = (CStr.lit "subscribe").bytes ∨ kind = (CStr.lit "unsubscribe").bytes) then
      snprintf outLen (kind ++ 32 :: a ++ 32 :: b)
    else joinElements outLen true [] elements
  | _ => joinElements outLen true [] elements

/-- `recv_resp_raw` -/
def recvRespRaw : Nat → Nat → List UInt8 → Recv
  | 0, _, s => ⟨-1, none, s⟩
  | _ + 1, _, [] => ⟨-1, some [], []⟩
  | fuel + 1, outLen, c :: s =>
    if c = 43 ∨ c = 58 then
      match readLineRaw (outLen - 1) s with
      | (none, s) => ⟨-1, none, s⟩
      | (some line, s) => ⟨line.length, some line, s⟩
    else if c = 45 then
      let (line, s) := readLineRaw (outLen - 1) s
      ⟨-1, line, s⟩
    else if c = 36 then
      match readLineRaw 31 s with
      | (none, s) => ⟨-1, some [], s⟩
      | (some lenbuf, s) => recvBulk outLen (atoi lenbuf).toInt s
    else if c = 42 then
      match readLineRaw 31 s with
      | (none, s) => ⟨-1, some [], s⟩
      | (some lenbuf, s) =>
        let arrlen := (atoi lenbuf).toInt
        if arrlen ≤ 0 then ⟨-1, some (snprintf outLen (CStr.lit "(empty)").bytes), s⟩
        else
          let (elements, s) :=
            recvElements (recvRespRaw fuel bufferSize) (min arrlen.toNat maxElements) s
          let text := arrayText outLen arrlen elements
          ⟨text.length, some text, s⟩
    else ⟨-1, some [], s⟩

/-- A call as the REPL makes it. -/
def recvReply (s : List UInt8) : Recv := recvRespRaw (s.length + 1) bufferSize s

end Cli

end AntzKV

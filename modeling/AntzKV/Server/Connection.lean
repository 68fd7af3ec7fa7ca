/-
AntzKV.Server.Connection — what `handle_client_unlocked` does with a line.

A line is parsed twice. The quick parse works on a copy in `tmp`, whose
size is `MAX_ARGS` bytes, and looks for SUBSCRIBE, UNSUBSCRIBE and QUIT;
any other line goes to `process_command`, which parses the line itself.
A `Session` is what the thread of the connection works on: the server and
the subscriptions it shares, and its own `subscribed` and `quit`.
-/
import AntzKV.Server.ClientLoop
import AntzKV.Server.Dispatch

namespace AntzKV

open Scanf (decimal)

variable {S : Type}

/-- `parse_line` on `tmp`, which `strncpy` has filled from the line. -/
def quickParse (line : CStr) : List CStr := parseLine (line.take (maxArgs - 1)) maxArgs

/-- The acknowledgement of a SUBSCRIBE or UNSUBSCRIBE. A channel of the
quick parse is shorter than `tmp`, so it fits `buf`. -/
def ackText (kind ch : CStr) (numsub : Nat) : List UInt8 :=
  (CStr.lit "*3").bytes ++ [13, 10] ++ PubsubMgr.bulkItem kind ++ PubsubMgr.bulkItem ch
    ++ 58 :: decimal numsub ++ [13, 10]

/-- The loop of SUBSCRIBE: the subscriptions, and what is sent. Two
outcomes of `calloc` are set aside for each round. -/
def subscribeLoop (fd : Int) (wlock : Option Nat) :
    (Nat → Bool) → List CStr → PubsubMgr → PubsubMgr × List (List UInt8)
  | _, [], m => (m, [])
  | callocs, ch :: chs, m =>
    let m := m.pubsubSubscribeOn (callocs 0) (callocs 1) fd wlock ch
    let (m', acks) := subscribeLoop fd wlock (fun n => callocs (n + 2)) chs m
    (m', ackText (.lit "subscribe") ch (m.pubsubNumsub ch) :: acks)

/-- The loop of UNSUBSCRIBE. -/
def unsubscribeLoop (fd : Int) : List CStr → PubsubMgr → PubsubMgr × List (List UInt8)
  | [], m => (m, [])
  | ch :: chs, m =>
    let m := m.pubsubUnsubscribe fd ch
    let (m', acks) := unsubscribeLoop fd chs m
    (m', ackText (.lit "unsubscribe") ch (m.pubsubNumsub ch) :: acks)

/-- `worlds` is what the lines to come will read of the world, `sent` what
has been sent and on which descriptor. -/
structure Session (S : Type) where
  srv : Server S
  ps : PubsubMgr
  subscribed : Bool
  quit : Bool
  sent : List (Int × List UInt8)
  worlds : Nat → World S

namespace Session

/-- Send texts on the connection. -/
def sendAll (s : Session S) (fd : Int) (texts : List (List UInt8)) : Session S :=
  { s with sent := s.sent ++ texts.map fun text => (fd, text) }

/-- The world moves on. -/
def tick (s : Session S) : Session S := { s with worlds := fun n => s.worlds (n + 1) }

variable [LinearOrder S]

/-- What the tokens of a line decide. -/
def dispatch (fd : Int) (wlock : Option Nat) (s : Session S) (line : CStr) :
    List CStr → Session S
  | [] => s
  | cmd :: chs =>
    if strcasecmpEq cmd (.lit "SUBSCRIBE") && !chs.isEmpty then
      let (ps, acks) := subscribeLoop fd wlock (s.worlds 0).objects chs s.ps
      { s with ps := ps, subscribed := true }.sendAll fd acks
    else if strcasecmpEq cmd (.lit "UNSUBSCRIBE") then
      if chs.isEmpty then
        { s with ps := s.ps.pubsubUnsubscribeAll fd }.sendAll fd
          [ackText (.lit "unsubscribe") (.lit "") 0]
      else
        let (ps, acks) := unsubscribeLoop fd chs s.ps
        { s with ps := ps }.sendAll fd acks
    else if s.subscribed then s
    else if strcasecmpEq cmd (.lit "QUIT") then
      { s with quit := true }.sendAll fd [sendReply (CStr.lit "+OK").bytes]
    else
      let (srv, sends) := s.srv.processCommandSends (s.worlds 0) s.ps fd line
      { s with srv := srv, sent := s.sent ++ sends }

/-- The body of the inner loop of `handle_client_unlocked`. -/
def clientLine (fd : Int) (wlock : Option Nat) (s : Session S) (line : CStr) : Session S :=
  (s.dispatch fd wlock line (quickParse line)).tick

/-- The read loop of the connection. -/
def handleClientUnlocked (fd : Int) (wlock : Option Nat) :
    LineFraming.Reader (Session S) → Nat → LineFraming.Reader (Session S) :=
  AntzKV.handleClientUnlocked fun s line =>
    (s.clientLine fd wlock (.ofBuf line), (s.clientLine fd wlock (.ofBuf line)).quit)

end Session

end AntzKV

import Gosocketio.Lib.Outbox
import Gosocketio.Lib.Runs
import Gosocketio.Spec.Transport

/-! The Engine.IO client (`engineio/client.go`, `engineio/client_transport.go`) and
the side of the server that takes its requests and frames (`engineio/server.go`,
`engineio/transport/polling.go`, `engineio/socket.go`). A step is one critical
section of a goroutine, or one message on its way. The links are reliable, and the
session is followed until one of the sides closes it. What comes back from the
server, and with it the polls, is left out: a pong that answers a ping is one more
packet some goroutine sends. -/

namespace Gosocketio.Client

open Transport

inductive Outgoing where
  | message (data : Bytes) (binary : Bool)
  | pong (data : Bytes)
  deriving DecidableEq, Repr

def Outgoing.packet : Outgoing → Packet
  | .message data binary => { type := .message, data, isBinary := binary }
  | .pong data => { type := .pong, data }

/-- A packet in `writeBuffer`, with the goroutine that appended it and the number
of packets that goroutine had appended before. -/
abbrev Item := Outbox.Item Packet

inductive TransportName where
  | polling
  | websocket
  deriving DecidableEq, Repr

/-- Where a goroutine is in `SendMessage`. It follows its POST to the server and
back: `verify` has let the request through, `onDataRequest` gives the packets to
the socket one by one, or it reports an error, and the answer travels back. -/
inductive Pc where
  | idle
  | flush
  | send (t : TransportName) (buf : List Item)
  | posted (buf : List Item)
  | verified (buf : List Item)
  | serving (pkts : List Packet)
  | erring
  | answered (code : ℕ)
  | failed
  | writing (buf : List Item)
  deriving DecidableEq, Repr

structure Goroutine where
  todo : List Outgoing
  count : ℕ := 0
  pc : Pc := .idle
  deriving DecidableEq, Repr

inductive Phase where
  | off
  | raised
  | paused
  | dialed
  | probing
  | confirmed
  | switched
  | failed
  | finished
  deriving DecidableEq, Repr

inductive PollingError where
  | dataRequestActive
  | payload (e : PayloadError)
  deriving DecidableEq, Repr

/-- The client, the links and the server's side of one session. The first goroutine
is the one of the upgrade. `sent` are the batches given to a transport's `Send`,
`accepted` what was appended to `writeBuffer`, `received` what reached the socket's
`onPacket`, and `refused` the packets of POSTs that were not served. -/
structure Session where
  goroutines : List Goroutine
  writeBuffer : List Item := []
  upgrading : Bool := false
  tport : TransportName := .polling
  sendInflight : ℕ := 0
  phase : Phase := .off
  sent : List (List Item) := []
  accepted : List Item := []
  frames : List (Bytes × Bool) := []
  transport : TransportName := .polling
  serverUpgrading : Bool := false
  discarded : Bool := false
  aborted : Bool := false
  ponged : Bool := false
  dataReq : Bool := false
  received : List Packet := []
  refused : List Packet := []
  errors : List PollingError := []
  closed : Bool := false
  deriving DecidableEq, Repr

def probeData : Bytes := [112, 114, 111, 98, 101]

def probePacket : Packet := { type := .ping, data := probeData }
def upgradePacket : Packet := { type := .upgrade }

def frame (p : Packet) : Bytes × Bool := (encodePacket p true, p.isBinary)

namespace Session

/-- What is read of a body that is not too long: nothing if a byte more than the limit is more
than an `int64` holds. -/
def readAll (limit : ℕ) (body : Bytes) : Bytes := if limit + 1 < 2 ^ 63 then body else []

/-- `onDataRequest` after its first section: the body is checked against
`maxBufferSize`, decoded, and its packets are given to the socket. -/
def serve (limit : ℕ) (s : Session) (buf : List Item) : Session × Pc :=
  let body := readAll limit (encodePayload (buf.map Outbox.Item.value))
  let refuse := { s with dataReq := false, refused := s.refused ++ buf.map Outbox.Item.value }
  if limit < body.length then (refuse, .answered 413)
  else
    match decodePayloadWithLimit body limit with
    | (_, some e) => ({ refuse with errors := s.errors ++ [.payload e] }, .erring)
    | (pkts, none) => (s, .serving pkts)

def advance (limit : ℕ) (s : Session) : Pc → Option (Session × Pc)
  | .idle => none
  | .flush =>
    if s.upgrading ∨ s.writeBuffer = [] then some (s, .idle)
    else some ({ s with writeBuffer := [] }, .send s.tport s.writeBuffer)
  | .send .polling buf =>
    some ({ s with sent := s.sent ++ [buf], sendInflight := s.sendInflight + 1 }, .posted buf)
  | .send .websocket buf => some ({ s with sent := s.sent ++ [buf] }, .writing buf)
  | .posted buf =>
    -- `verify` compares the transport of the request with the one in use
    if s.transport = .polling then some (s, .verified buf)
    else some ({ s with refused := s.refused ++ buf.map Outbox.Item.value }, .answered 400)
  | .verified buf =>
    if s.dataReq then
      some ({ s with errors := s.errors ++ [.dataRequestActive],
                     refused := s.refused ++ buf.map Outbox.Item.value }, .erring)
    else some (serve limit { s with dataReq := true } buf)
  | .serving (p :: pkts) => some ({ s with received := s.received ++ [p] }, .serving pkts)
  | .serving [] => some ({ s with dataReq := false }, .answered 200)
  | .erring =>
    -- `onErrorFrom` ignores the errors of a transport that is being replaced
    let closed := s.transport = .polling ∧ ¬ s.serverUpgrading
    some ({ s with closed := s.closed || closed }, .answered 400)
  | .answered code =>
    some ({ s with sendInflight := s.sendInflight - 1 }, if code = 200 then .idle else .failed)
  | .failed => some ({ s with closed := s.closed || s.tport = .polling }, .idle)
  | .writing (x :: buf) => some ({ s with frames := s.frames ++ [frame x.value] }, .writing buf)
  | .writing [] => some (s, .idle)

def setGoroutine (s : Session) (i : ℕ) (g : Goroutine) : Session :=
  { s with goroutines := s.goroutines.set i g }

def append (s : Session) (item : Item) : Session :=
  { s with writeBuffer := s.writeBuffer ++ [item], accepted := s.accepted ++ [item] }

def go (limit : ℕ) (s : Session) (i : ℕ) : Option Session :=
  match (s.goroutines[i]? : Option Goroutine) with
  | none => none
  | some { todo := o :: todo, count, pc := .idle } =>
    some ((s.append ⟨i, count, o.packet⟩).setGoroutine i { todo, count := count + 1, pc := .flush })
  | some g => (s.advance limit g.pc).map fun (s', pc) => s'.setGoroutine i { g with pc }

def flushUpgrade (s : Session) : Option Session :=
  match (s.goroutines[0]? : Option Goroutine) with
  | some { todo, count, pc := .idle } =>
    some ({ s with phase := .finished }.setGoroutine 0 { todo, count, pc := .flush })
  | _ => none

def upgrade (s : Session) : Option Session :=
  match s.phase with
  | .off => some { s with upgrading := true, phase := .raised }
  | .raised => if s.sendInflight = 0 then some { s with phase := .paused } else none
  | .paused => some { s with serverUpgrading := true, phase := .dialed }
  | .dialed =>
    if s.aborted then none else some { s with frames := s.frames ++ [frame probePacket], phase := .probing }
  | .probing =>
    if s.ponged ∧ ¬ s.aborted then
      some { s with frames := s.frames ++ [frame upgradePacket], phase := .confirmed }
    else none
  | .confirmed => some { s with tport := .websocket, upgrading := false, phase := .switched }
  | .switched | .failed => s.flushUpgrade
  | .finished => none

def fail (s : Session) : Option Session :=
  match s.phase with
  | .paused | .dialed | .probing => some { s with upgrading := false, phase := .failed }
  | _ => none

/-- `onAbort` on the server: it closes the new transport, with the frames in it. -/
def onAbort (s : Session) : Session :=
  { s with serverUpgrading := false, aborted := true, frames := [] }

def abort (s : Session) : Option Session :=
  match s.phase with
  | .dialed | .probing | .failed | .finished =>
    if s.transport = .polling ∧ s.tport = .polling then some s.onAbort else none
  | _ => none

def discard (s : Session) : Option Session :=
  if s.transport = .websocket ∧ ¬ s.discarded then
    some { s with discarded := true, dataReq := false } else none

/-- What the handler of the new transport does with a packet. Until `onUpgrade` the
handler is the one of `MaybeUpgrade`, from then on it is the socket's. -/
def onFrame (s : Session) : Except PacketError Packet → Session
  | .ok p =>
    if s.transport = .websocket then { s with received := s.received ++ [p] }
    else if p = probePacket then { s with ponged := true }
    else if p.type = .upgrade then { s with transport := .websocket, serverUpgrading := false }
    else s.onAbort
  | .error _ => if s.transport = .websocket then { s with closed := true } else s.onAbort

/-- The read loop of the server's websocket; `onUpgrade` runs on it. -/
def recv (s : Session) : Option Session :=
  match s.frames with
  | [] => none
  | (data, binary) :: frames =>
    if s.transport = .polling ∨ s.discarded then
      some ({ s with frames }.onFrame (decodePacket data binary))
    else none

end Session

inductive Act where
  | go (i : ℕ)
  | upgrade
  | fail
  | abort
  | discard
  | recv
  deriving DecidableEq, Repr

def Session.act (limit : ℕ) (s : Session) : Act → Option Session
  | .go i => s.go limit i
  | .upgrade => s.upgrade
  | .fail => s.fail
  | .abort => s.abort
  | .discard => s.discard
  | .recv => s.recv

def Session.step (limit : ℕ) (s : Session) (a : Act) : Option Session :=
  if s.closed then none else s.act limit a

def Session.init (tport : TransportName) (calls : List (List Outgoing)) : Session :=
  { goroutines := { todo := [] } :: calls.map ({ todo := · }), tport, transport := tport,
    discarded := tport = .websocket }

end Gosocketio.Client

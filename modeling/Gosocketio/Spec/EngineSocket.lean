import Gosocketio.Lib.Runs
import Gosocketio.Spec.Transport

/-! The sending side of an Engine.IO session on the server (`engineio/socket.go`,
`engineio/transport/polling.go`, `engineio/transport/websocket.go`): the write
buffer, the polling transport with the packets it holds back, and the attempts to
upgrade to a websocket. A step is one critical section of a goroutine, or one event
from outside. The session stays open, and writes to an open websocket succeed. -/

namespace Gosocketio.EngineSocket

open Transport

/-- A transport of the session: the polling transport it began with, or the
websocket of one of the attempts to upgrade. -/
inductive Tport where
  | polling
  | websocket (k : ℕ)
  deriving DecidableEq, Repr

/-- Where a goroutine is: in `sendPacket` after its first section, about to enter
`flush`, in the `Send` of a transport with the batch that `flush` took, about to
clear `sending`, or in a tick of the ticker before and after `pollingNoop` has read
which transport to send its noop to. -/
inductive Pc where
  | idle
  | appended (t : Tport)
  | flush
  | sending (t : Tport) (buf : List Packet)
  | sent
  | tick
  | noop (t : Tport)
  deriving DecidableEq, Repr

/-- `todo` are the packets the goroutine is going to give to `sendPacket`; `buffered`
is what `onPollRequest` has taken out of `sendBuffer` and sends once `OnReady`
returns. -/
structure Goroutine where
  todo : List Packet := []
  buffered : List Packet := []
  pc : Pc := .idle
  deriving DecidableEq, Repr

inductive Phase where
  | probing
  | aborted
  | switched (old : Tport)
  | waited
  | drained (buf : List Packet)
  | requeued
  | closing
  | done
  deriving DecidableEq, Repr

structure Attempt where
  phase : Phase := .probing
  closed : Bool := false
  deriving DecidableEq, Repr

/-- The socket and its polling transport: `pending` is whether a poll request waits
for its response. `polled` are the messages in the responses to polls, `framed`
those in websocket frames, `accepted` those appended to `writeBuffer`. -/
structure Socket where
  goroutines : List Goroutine
  attempts : List Attempt := []
  writeBuffer : List Packet := []
  sending : Bool := false
  upgrading : Bool := false
  upgraded : Bool := false
  transport : Tport := .polling
  ticking : Bool := false
  pending : Bool := false
  writable : Bool := false
  sendBuffer : List Packet := []
  closed : Bool := false
  accepted : List Packet := []
  polled : List Packet := []
  framed : List Packet := []
  deriving DecidableEq, Repr

def messages (pkts : List Packet) : List Packet := pkts.filter fun p => p.type = .message

def noopPacket : Packet := { type := .noop }

namespace Socket

def isWritable (s : Socket) : Tport → Bool
  | .polling => s.writable
  | .websocket _ => true

def takes (s : Socket) : Bool :=
  !s.sending && !s.upgrading && s.writeBuffer ≠ [] && s.isWritable s.transport

/-- `Polling.Send`: the packets go into the response of the pending poll, or wait
for the next one; a closed transport drops them. -/
def pollingSend (s : Socket) (pkts : List Packet) : Socket :=
  if s.closed then s
  else if s.pending then
    { s with writable := false, pending := false, polled := s.polled ++ messages pkts }
  else { s with writable := false, sendBuffer := s.sendBuffer ++ pkts }

def attempt (s : Socket) (k : ℕ) : Option Attempt := s.attempts[k]?

def isClosed (s : Socket) (k : ℕ) : Bool := (s.attempt k).elim false Attempt.closed

def isBound (s : Socket) (k : ℕ) : Bool := (s.attempt k).elim false fun a => a.phase = .done

/-- A write to a closed websocket. The `upgradeHandler` takes the error for an
abort; the socket, once bound, ignores it. -/
def writeFailed (s : Socket) (k : ℕ) : Socket := { s with upgrading := s.upgrading && s.isBound k }

def setPhase (s : Socket) (k : ℕ) (phase : Phase) : Socket :=
  { s with attempts := s.attempts.modify k fun a => { a with phase } }

def closeWebsocket (s : Socket) (k : ℕ) : Socket :=
  { s with attempts := s.attempts.modify k fun a => { a with closed := true } }

def setGoroutine (s : Socket) (i : ℕ) (g : Goroutine) : Socket :=
  { s with goroutines := s.goroutines.set i g }

def spawn (s : Socket) (g : Goroutine) : Socket := { s with goroutines := s.goroutines ++ [g] }

def advance (s : Socket) : Pc → Option (Socket × Pc)
  | .idle => none
  | .appended t => some (s, if s.isWritable t then .flush else .idle)
  | .flush =>
    if s.takes then
      some ({ s with writeBuffer := [], sending := true }, .sending s.transport s.writeBuffer)
    else some (s, .idle)
  | .sending .polling buf => some (s.pollingSend buf, .sent)
  | .sending (.websocket k) (p :: buf) =>
    if s.isClosed k then some (s.writeFailed k, .sent)
    else some ({ s with framed := s.framed ++ messages [p] }, .sending (.websocket k) buf)
  | .sending (.websocket _) [] =>
    -- the `flush` that `OnReady` calls here finds `sending` set
    some (s, .sent)
  | .sent =>
    let reflush := s.writeBuffer ≠ [] ∧ s.isWritable s.transport
    some ({ s with sending := false }, if reflush then .flush else .idle)
  | .tick => some (s, .noop s.transport)
  | .noop .polling => some (s.pollingSend [noopPacket], .idle)
  | .noop (.websocket k) =>
    if s.isClosed k then some (s.writeFailed k, if s.isBound k then .idle else .flush)
    else some (s, if s.isBound k then .flush else .idle)

def go (s : Socket) (i : ℕ) : Option Socket :=
  match (s.goroutines[i]? : Option Goroutine) with
  | none => none
  | some { todo, buffered := p :: buf, pc := .idle } =>
    some ((s.pollingSend (p :: buf)).setGoroutine i { todo })
  | some { todo := p :: todo, buffered := [], pc := .idle } =>
    some ({ s with writeBuffer := s.writeBuffer ++ [p],
                   accepted := s.accepted ++ messages [p] }.setGoroutine i
            { todo, pc := .appended s.transport })
  | some g => (s.advance g.pc).map fun (s', pc) => s'.setGoroutine i { g with pc }

def poll (s : Socket) : Option Socket :=
  if s.pending then none
  else
    let s₁ := { s with pending := true, writable := true }
    if s.closed then some (s₁.spawn { pc := .flush })
    else some ({ s₁ with sendBuffer := [] }.spawn { buffered := s.sendBuffer, pc := .flush })

def cancel (s : Socket) : Option Socket :=
  if s.pending then some { s with pending := false, writable := false } else none

def tick (s : Socket) : Option Socket :=
  if s.ticking ∧ ¬s.upgraded ∧ s.transport = .polling ∧ s.writable then
    some (s.spawn { pc := .tick })
  else none

def maybeUpgrade (s : Socket) : Option Socket :=
  if s.upgrading || s.upgraded then none
  else some { s with upgrading := true, attempts := s.attempts ++ [{}] }

def onProbe (s : Socket) (k : ℕ) : Option Socket :=
  match (s.attempt k).map Attempt.phase with
  | some .probing => some { s with ticking := true }
  | _ => none

/-- The next step of `onUpgrade`. The attempt's goroutine ends in `flush`. -/
def onUpgrade (s : Socket) (k : ℕ) : Option Socket :=
  match (s.attempt k).map Attempt.phase with
  | some .probing =>
    some ({ s with upgrading := false, upgraded := true, transport := .websocket k }.setPhase k
      (.switched s.transport))
  | some (.switched (.websocket j)) => some ((s.closeWebsocket j).setPhase k .closing)
  | some (.switched .polling) => if s.sending then none else some (s.setPhase k .waited)
  | some .waited => some ({ s with sendBuffer := [] }.setPhase k (.drained s.sendBuffer))
  | some (.drained buf) =>
    some ({ s with writeBuffer := buf ++ s.writeBuffer }.setPhase k .requeued)
  | some .requeued =>
    some ({ s with closed := true, pending := false, writable := false,
                   sendBuffer := [] }.setPhase k .closing)
  | some .closing => some ((s.setPhase k .done).spawn { pc := .flush })
  | _ => none

/-- `onAbort`. It runs once more when the websocket it closes is torn down. -/
def onAbort (s : Socket) (k : ℕ) : Option Socket :=
  match (s.attempt k).map Attempt.phase with
  | some .probing | some .aborted =>
    some (({ s with upgrading := false }.setPhase k .aborted).spawn { pc := .flush })
  | _ => none

end Socket

inductive Act where
  | go (i : ℕ)
  | poll
  | cancel
  | tick
  | maybeUpgrade
  | onProbe (k : ℕ)
  | onUpgrade (k : ℕ)
  | onAbort (k : ℕ)
  deriving DecidableEq, Repr

def Socket.step (s : Socket) : Act → Option Socket
  | .go i => s.go i
  | .poll => s.poll
  | .cancel => s.cancel
  | .tick => s.tick
  | .maybeUpgrade => s.maybeUpgrade
  | .onProbe k => s.onProbe k
  | .onUpgrade k => s.onUpgrade k
  | .onAbort k => s.onAbort k

def Socket.init (calls : List (List Packet)) : Socket :=
  { goroutines := calls.map ({ todo := · }) }

end Gosocketio.EngineSocket

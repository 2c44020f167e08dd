import Gosocketio.Spec.Client

/-! The receiving side of the Engine.IO client (`engineio/client.go`,
`engineio/client_transport.go`): the poll loop, the read loop of the websocket, and what
closes the client. A step is one critical section of a goroutine or one event from
outside. The server may send any packets, and the connection may fail at any time. -/

namespace Gosocketio.ClientRead

open Transport Client

/-- Where a read loop is: `check` is the head of the poll loop, `wait` the time in which
a request or a read is under way, `hand` the loop over the packets of a payload. A packet
is `received` once `clientBinding.OnPacket` has looked which transport is active, and in
`call` once `onPacket` has read `c.onData`. `late` tells whether the client was closed
when the packet was received. -/
inductive Stage where
  | off
  | check
  | wait
  | hand (pkts : List Packet)
  | received (p : Packet) (late : Bool) (rest : List Packet)
  | call (p : Packet) (late : Bool) (rest : List Packet)
  | ended
  deriving DecidableEq, Repr

/-- `stopped` and `cancelled` are `closed` and the context of the polling transport,
`closing` is the transport that a call of `Close` is about to close. `calls` are the
calls of `onData`, `reports` counts those of `onClose`. -/
structure Reader where
  closed : Bool := false
  tport : TransportName := .polling
  stage : TransportName → Stage
  stopped : Bool := false
  cancelled : Bool := false
  paused : Bool := false
  closing : Option TransportName := none
  calls : List (Packet × Bool) := []
  reports : ℕ := 0

def initial : TransportName → Reader
  | .polling => { stage := Function.update (fun _ => .off) .polling .check }
  | .websocket => { tport := .websocket, stage := Function.update (fun _ => .off) .websocket .wait }

/-- `bad` tells whether the data of an Open packet cannot be parsed. -/
inductive Act where
  | turn (t : TransportName) (bad : Bool)
  | read (t : TransportName) (pkts : List Packet)
  | readFails (t : TransportName)
  | decodeFails
  | quit
  | timeout
  | close
  | closeTransport
  | pause
  | resume
  | upgrade
  deriving DecidableEq, Repr

namespace Reader

variable (s : Reader)

def goto (t : TransportName) (st : Stage) : Reader := { s with stage := Function.update s.stage t st }

def closeWithError : Reader := if s.closed then s else { s with closed := true, reports := s.reports + 1 }

def errorFrom (t : TransportName) : Reader := if s.tport = t then s.closeWithError else s

def restart : TransportName → Stage
  | .polling => .check
  | .websocket => .wait

/-- `onPacket`. Pings and the upgrade that an Open packet starts do not matter here. -/
def onPacket (t : TransportName) (bad : Bool) (p : Packet) (late : Bool) (rest : List Packet) : Reader :=
  match p.type with
  | .message => s.goto t (.call p late rest)
  | .close => s.closeWithError.goto t (.hand rest)
  | .open_ => (if bad then s.closeWithError else s).goto t (.hand rest)
  | _ => s.goto t (.hand rest)

def turn (t : TransportName) (bad : Bool) : Option Reader :=
  match s.stage t with
  | .off | .wait | .ended => none
  | .check =>
    if s.stopped then some (s.goto t .ended)
    else if s.paused then if s.cancelled then some (s.goto t .ended) else none
    else some (s.goto t (if s.cancelled then .ended else .wait))
  | .hand [] => some (s.goto t (restart t))
  | .hand (p :: rest) =>
    -- a Close packet of a replaced transport is ignored
    some (s.goto t (if s.tport ≠ t ∧ p.type = .close then .hand rest else .received p s.closed rest))
  | .received p late rest => some (s.onPacket t bad p late rest)
  | .call p late rest => some ({ s with calls := s.calls ++ [(p, late)] }.goto t (.hand rest))

def step : Act → Option Reader
  | .turn t bad => s.turn t bad
  | .read t pkts =>
    if s.stage t = .wait ∧ (t = .websocket → pkts.length = 1) then some (s.goto t (.hand pkts)) else none
  | .readFails t => if s.stage t = .wait then some ((s.errorFrom t).goto t .ended) else none
  | .decodeFails => if s.stage .websocket = .wait then some (s.errorFrom .websocket) else none
  | .quit =>
    if s.stage .polling = .wait ∧ s.cancelled then some (s.goto .polling .ended) else none
  | .timeout => some s.closeWithError
  | .close => some (if s.closed then s else { s with closed := true, closing := some s.tport })
  | .closeTransport =>
    match s.closing with
    | none => none
    | some .polling => some { s with closing := none, stopped := true, cancelled := s.cancelled || !s.stopped }
    | some .websocket => some { s with closing := none }
  | .pause => some { s with paused := true }
  | .resume => if s.tport = .polling then some { s with paused := false } else none
  | .upgrade =>
    if s.paused ∧ s.tport = .polling ∧ ¬ s.closed then
      some ({ s with tport := .websocket, stopped := true }.goto .websocket .wait)
    else none

end Reader

end Gosocketio.ClientRead

import Gosocketio.Lib.Stacks
import Gosocketio.Spec.EngineSocket
import Gosocketio.Spec.Polling

/-! A session of the Engine.IO server from `createSocket` to its end
(`engineio/socket.go`, `engineio/server.go`), with the polling transport and the websockets
it runs on. A step is one critical section, one write, or one event from outside. The ping
timers may fire at any time; when they are armed does not matter here. -/

namespace Gosocketio.Engine

open Transport
open EngineSocket (Tport)

inductive ReadyState where
  | opening
  | opened
  | closing
  | closed
  deriving DecidableEq, Repr

inductive Reason where
  | pingTimeout
  | invalidHeartbeatDirection
  | clientClose
  | transportError
  | transportClose
  deriving DecidableEq, Repr

inductive Handler where
  | upgradeHandler
  | transportBinding
  deriving DecidableEq, Repr

inductive Notice where
  | packet (p : Packet)
  | error
  | close
  deriving DecidableEq, Repr

/-- `Websocket`. `gone` is whether the connection is closed or lost; `timeout` is whether the
`upgradeTimeout` of its attempt to upgrade has yet to fire, `stopped` whether `stopCheck` is
closed. The field `writable` is never false, `discarded` is never read. -/
structure Websocket where
  handler : Option Handler := none
  closed : Bool := false
  gone : Bool := false
  timeout : Bool := false
  stopped : Bool := false
  deriving DecidableEq, Repr

inductive Hook where
  | connect
  | close (reason : Reason)
  deriving DecidableEq, Repr

/-- What a goroutine has before it. `send` is the `Send` of a `flush`, `transmit` any other;
`frames` is what is left of a websocket's `Send`, `read` its read loop, `ticker` the loop
that `onProbe` starts. -/
inductive Op where
  | register
  | attach (t : Tport)
  | setOpen
  | onConnect
  | sendPacket (p : Packet)
  | appended (t : Option Tport)
  | flush
  | send (t : Tport) (buf : List Packet)
  | sent
  | transmit (t : Tport) (pkts : List Packet)
  | frames (k : ℕ) (pkts : List Packet)
  | polling (op : Polling.Op)
  | close (t : Tport)
  | connClose (k : ℕ)
  | discard (t : Tport)
  | setHandler (k : ℕ) (h : Handler)
  | read (k : ℕ)
  | notify (k : ℕ) (n : Notice)
  | onPacket (p : Packet)
  | onErrorFrom (t : Tport)
  | onCloseFrom (t : Tport)
  | delivered (t : Tport)
  | closeSocket
  | closeTransport
  | closeReturned
  | closeWithReason (reason : Reason)
  | unregister
  | onClose (reason : Reason)
  | pingHandler
  | pingTimeoutHandler
  | maybeUpgrade (k : ℕ)
  | startTicker (k : ℕ)
  | ticker (k : ℕ)
  | pollingWritable
  | pollingNoop
  | stopUpgrade (k : ℕ)
  | switch (k : ℕ)
  | waitSent
  | drain
  | requeue (buf : List Packet)
  | abort
  deriving DecidableEq, Repr

/-- What decides how a goroutine goes on that waits for something. -/
inductive Choice where
  | next
  | cancel
  | receive (p : Packet)
  | garbled
  | fail
  | tick
  deriving DecidableEq, Repr

/-- `Socket`, its transports, and whether it is in `Server.clients`. What is recorded:
`accepted` are the packets appended to `writeBuffer`, `batches` those that `flush` passed to
`Send`, `framed` those written to a websocket. `hooks` are the calls of the server's hooks,
`asked` the transports whose `Close` was called, `ended` those whose `OnClose` has returned.
`owed` is `accepted` when `Close` set the state to closing, `returned` whether that call has
returned. -/
structure Session where
  readyState : ReadyState := .opening
  transport : Option Tport := none
  pollingTport : Bool := false
  writeBuffer : List Packet := []
  upgrading : Bool := false
  upgraded : Bool := false
  sending : Bool := false
  polling : Polling.State := {}
  websockets : List Websocket := []
  registered : Bool := false
  accepted : List Packet := []
  batches : List (List Packet) := []
  framed : List Packet := []
  hooks : List Hook := []
  asked : List Tport := []
  ended : List Tport := []
  owed : Option (List Packet) := none
  returned : Bool := false
  deriving DecidableEq, Repr

namespace Session

variable (s : Session)

def isWritable : Tport → Bool
  | .polling => s.polling.p.writable
  | .websocket _ => true

def gone (k : ℕ) : Bool := (s.websockets[k]?).elim false Websocket.gone

def handler (k : ℕ) : Option Handler := (s.websockets[k]?).bind Websocket.handler

def modifyWebsocket (k : ℕ) (f : Websocket → Websocket) : Session :=
  { s with websockets := s.websockets.modify k f }

/-- What a goroutine does in the polling transport. When it closes the transport, `OnClose` is
called. -/
def onPolling (op : Polling.Op) : Option (Session × List Op) :=
  (s.polling.run op).map fun (polling, ops) =>
    ({ s with polling },
      ops.map .polling ++
        if op = .notifyClose ∧ s.polling.p.closed = false then [.onCloseFrom .polling] else [])

def transmit : Tport → List Packet → Option (Session × List Op)
  | .polling, pkts => s.onPolling (.send pkts)
  | .websocket k, pkts => some (s, if pkts = [] then [] else [.frames k pkts])

def upgradeHandler (k : ℕ) : Notice → List Op
  | .packet p =>
    if p.type = .ping ∧ p.data = [112, 114, 111, 98, 101] then
      [.transmit (.websocket k) [{ type := .pong, data := [112, 114, 111, 98, 101] }], .startTicker k]
    else if p.type = .upgrade then [.stopUpgrade k, .switch k]
    else [.stopUpgrade k, .close (.websocket k), .abort, .flush]
  | .error | .close => [.stopUpgrade k, .close (.websocket k), .abort, .flush]

def transportBinding (t : Tport) : Notice → List Op
  | .packet p => [.onPacket p]
  | .error => [.onErrorFrom t]
  | .close => [.onCloseFrom t]

/-- `onUpgrade` after it has switched, when `old` was the transport. -/
def afterSwitch (k : ℕ) (old : Option Tport) : List Op :=
  (match old with
    | none => []
    | some .polling => [.waitSent, .drain, .discard .polling, .close .polling]
    | some t => [.discard t, .close t]) ++
    [.setHandler k .transportBinding, .flush]

/-- The transport of the session, given to a method that reports an event from `t`. -/
def heeds (t : Tport) : Bool := s.transport = some t && !s.upgrading

/-- The next thing a goroutine does; what it has to do before the rest, and the goroutines it
starts. -/
def run (c : Choice) : Op → Option (Session × List Op × List (List Op))
  | .register => some ({ s with registered := true }, [], [])
  | .attach t =>
    some ({ s with transport := some t, pollingTport := s.pollingTport || t = .polling },
      (match t with
        | .polling => []
        | .websocket k => [.setHandler k .transportBinding]), [])
  | .setOpen => some ({ s with readyState := .opened }, [], [])
  | .onConnect => some ({ s with hooks := s.hooks ++ [.connect] }, [], [])
  | .sendPacket p =>
    if s.readyState = .closing ∨ s.readyState = .closed then some (s, [], [])
    else
      some ({ s with writeBuffer := s.writeBuffer ++ [p], accepted := s.accepted ++ [p] },
        [.appended s.transport], [])
  | .appended t => some (s, if t.elim false s.isWritable then [.flush] else [], [])
  | .flush =>
    match s.transport with
    | none => some (s, [], [])
    | some t =>
      if s.readyState = .closed ∨ s.sending ∨ s.upgrading ∨ s.writeBuffer = [] ∨ ¬s.isWritable t then
        some (s, [], [])
      else
        some ({ s with writeBuffer := [], sending := true }, [.send t s.writeBuffer, .sent], [])
  | .send t buf =>
    ({ s with batches := s.batches ++ [buf] }.transmit t buf).map fun (s, ops) => (s, ops, [])
  | .sent =>
    let reflush := s.readyState ≠ .closed ∧ s.writeBuffer ≠ [] ∧ s.transport.elim false s.isWritable
    some ({ s with sending := false }, if reflush then [.flush] else [], [])
  | .transmit t pkts => (s.transmit t pkts).map fun (s, ops) => (s, ops, [])
  | .frames k [] => some (s, if s.handler k = some .transportBinding then [.flush] else [], [])
  | .frames k (p :: pkts) =>
    if s.gone k then some (s, [.notify k .error], [])
    else some ({ s with framed := s.framed ++ [p] }, [.frames k pkts], [])
  | .polling (.watch n) =>
    match c with
    | .cancel =>
      match s.polling.p.abort n with
      | some p =>
        some ({ s with polling := { s.polling with p } },
          [.polling (.closeDone n), .onErrorFrom .polling], [])
      | none => some (s, [], [])
    | _ => (s.onPolling (.watch n)).map fun (s, ops) => (s, ops, [])
  | .polling op => (s.onPolling op).map fun (s, ops) => (s, ops, [])
  | .close .polling =>
    ({ s with asked := s.asked ++ [Tport.polling] }.onPolling .close).map fun (s, ops) => (s, ops, [])
  | .close (.websocket k) =>
    let s := { s with asked := s.asked ++ [.websocket k] }
    if (s.websockets[k]?).elim true Websocket.closed then some (s, [], [])
    else some (s.modifyWebsocket k fun w => { w with closed := true }, [.connClose k], [])
  | .connClose k => some (s.modifyWebsocket k fun w => { w with gone := true }, [], [])
  | .discard .polling =>
    some ({ s with polling := { s.polling with p := s.polling.p.discard } }, [], [])
  | .discard (.websocket _) => some (s, [], [])
  | .setHandler k h =>
    some (s.modifyWebsocket k fun w => { w with handler := some h }, [],
      if s.handler k = none then [[.read k]] else [])
  | .read k =>
    match c with
    | .receive p => if s.gone k then none else some (s, [.notify k (.packet p), .read k], [])
    | .garbled => if s.gone k then none else some (s, [.notify k .error, .read k], [])
    | .fail => if s.gone k then some (s, [.notify k .close], []) else none
    | _ => none
  | .notify k n =>
    match s.handler k with
    | none => some (s, [], [])
    | some .upgradeHandler => some (s, upgradeHandler k n, [])
    | some .transportBinding => some (s, transportBinding (.websocket k) n, [])
  | .onPacket p =>
    if s.readyState ≠ .opened then some (s, [], [])
    else
      match p.type with
      | .ping => some (s, [.closeWithReason .invalidHeartbeatDirection], [])
      | .close => some (s, [.closeWithReason .clientClose], [])
      | _ => some (s, [], [])
  | .onErrorFrom t => some (s, if s.heeds t then [.closeWithReason .transportError] else [], [])
  | .onCloseFrom t =>
    some (s, (if s.heeds t then [.closeWithReason .transportClose] else []) ++ [.delivered t], [])
  | .delivered t => some ({ s with ended := s.ended ++ [t] }, [], [])
  | .closeSocket =>
    if s.readyState ≠ .opened then some (s, [], [])
    else
      some ({ s with readyState := .closing, owed := some s.accepted },
        [.flush, .closeTransport, .closeReturned], [])
  | .closeTransport => some (s, s.transport.toList.map .close, [])
  | .closeReturned => some ({ s with returned := true }, [], [])
  | .closeWithReason reason =>
    if s.readyState = .closed then some (s, [], [])
    else
      some ({ s with readyState := .closed },
        (s.transport.toList.flatMap fun t => [.discard t, .close t]) ++ [.unregister, .onClose reason],
        [])
  | .unregister => some ({ s with registered := false }, [], [])
  | .onClose reason => some ({ s with hooks := s.hooks ++ [.close reason] }, [], [])
  | .pingHandler =>
    if s.readyState = .closed ∨ s.upgrading then some (s, [], [])
    else some (s, [.sendPacket { type := .ping }], [])
  | .pingTimeoutHandler =>
    some (s, if s.readyState = .closed then [] else [.closeWithReason .pingTimeout], [])
  | .maybeUpgrade k =>
    if s.upgrading ∨ s.upgraded ∨ s.readyState ≠ .opened then some (s, [.close (.websocket k)], [])
    else
      some ({ s with upgrading := true }.modifyWebsocket k fun w => { w with timeout := true },
        [.setHandler k .upgradeHandler], [])
  | .startTicker k => some (s, [], [[.ticker k]])
  | .ticker k =>
    match c with
    | .tick => some (s, [.pollingWritable, .ticker k], [])
    | _ => if (s.websockets[k]?).elim false Websocket.stopped then some (s, [], []) else none
  | .pollingWritable =>
    some (s, if !s.upgraded && s.transport = some .polling && s.polling.p.writable then [.pollingNoop]
      else [], [])
  | .pollingNoop => some (s, s.transport.toList.map fun t => .transmit t [{ type := .noop }], [])
  | .stopUpgrade k =>
    some (s.modifyWebsocket k fun w => { w with timeout := false, stopped := true }, [], [])
  | .switch k =>
    if s.readyState = .closed then some (s, [.close (.websocket k)], [])
    else
      some ({ s with upgrading := false, upgraded := true, transport := some (.websocket k) },
        afterSwitch k s.transport, [])
  | .waitSent => if s.sending then none else some (s, [], [])
  | .drain =>
    let p := s.polling.p
    some ({ s with polling := { s.polling with p := { p with sendBuffer := [] } } },
      if p.sendBuffer = [] then [] else [.requeue p.sendBuffer], [])
  | .requeue buf => some ({ s with writeBuffer := buf ++ s.writeBuffer }, [], [])
  | .abort => some ({ s with upgrading := false }, [], [])

end Session

/-- What happens from outside: calls of `SendMessage`, `flush` and `Close`, poll and POST
requests, timers, a websocket for an upgrade, a lost connection. -/
inductive Event where
  | message (data : Bytes) (binary : Bool)
  | flush
  | close
  | poll
  | post (pkts : List Packet)
  | postError
  | closeTimer
  | pingInterval
  | pingTimeout
  | upgrade
  | upgradeTimeout (k : ℕ)
  | lose (k : ℕ)
  deriving DecidableEq, Repr

namespace Session

variable (s : Session)

def poll : Session × List (List Op) :=
  let n := s.polling.polls
  let polling := { s.polling with polls := n + 1 }
  if polling.p.req ≠ none then
    ({ s with polling }, [[.onErrorFrom .polling, .polling (.badRequest n)]])
  else
    let (p, buffered) := polling.p.onPollRequest n
    ({ s with polling := { polling with p } },
      [[.polling (.watch n)],
        [.flush, .polling (if buffered ≠ [] then .resend buffered else .checkPending),
          .polling (.await n)]])

def occurs : Event → Option (Session × List (List Op))
  | .message data isBinary => some (s, [[.sendPacket { type := .message, data, isBinary }]])
  | .flush => some (s, [[.flush]])
  | .close => some (s, [[.closeSocket]])
  | .poll => if s.pollingTport then some s.poll else none
  | .post pkts => if s.pollingTport then some (s, [pkts.map .onPacket]) else none
  | .postError => if s.pollingTport then some (s, [[.onErrorFrom .polling]]) else none
  | .closeTimer =>
    let p := s.polling.p
    if p.running then
      some ({ s with polling := { s.polling with p := { p with running := false } } },
        [[.polling .notifyClose]])
    else none
  | .pingInterval => some (s, [[.pingHandler]])
  | .pingTimeout => some (s, [[.pingTimeoutHandler]])
  | .upgrade =>
    some ({ s with websockets := s.websockets ++ [{}] }, [[.maybeUpgrade s.websockets.length]])
  | .upgradeTimeout k =>
    if (s.websockets[k]?).elim false Websocket.timeout then
      some (s.modifyWebsocket k fun w => { w with timeout := false }, [[.close (.websocket k)]])
    else none
  | .lose k => some (s.modifyWebsocket k fun w => { w with gone := true }, [])

end Session

abbrev State := Stacks.Threads Session Op

inductive Act where
  | go (i : ℕ) (c : Choice)
  | event (e : Event)
  deriving DecidableEq, Repr

namespace State

def step (w : State) : Act → Option State
  | .go i c => Stacks.go (fun s => s.run c) w i
  | .event e => (w.shared.occurs e).map fun (s, new) => ⟨s, w.tasks ++ new⟩

def first (direct : Bool) : Tport := if direct then .websocket 0 else .polling

/-- `createSocket` begins; `data` is what `openPacketData` gives. -/
def created (direct : Bool) (data : Bytes) : State where
  shared := { websockets := if direct then [{}] else [] }
  tasks := [[.register, .attach (first direct), .setOpen, .sendPacket { type := .open_, data },
    .onConnect]]

def opened (direct : Bool) : State where
  shared :=
    { readyState := .opened, transport := some (first direct), pollingTport := !direct
      websockets := if direct then [{ handler := some .transportBinding }] else []
      registered := true, hooks := [.connect] }
  tasks := if direct then [[.read 0]] else []

end State

end Gosocketio.Engine

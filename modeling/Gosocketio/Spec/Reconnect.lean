import Gosocketio.Spec.SioClient

/-! A Socket.IO client that loses its Engine.IO connection and dials again
(`socketio/client.go`). The goroutines are the call of `Dial`, calls of the
application, callbacks of the engines and reconnection loops; a step is one critical
section of `c.mu` or one operation between two of them. A network may fail, a server
may send any packet, and a context may be done, at any time: delays and timeouts only
say how long a goroutine waits. -/

namespace Gosocketio

/-- The part of `Options` that matters here; `auth` is null for a nil map. -/
structure ReconnectOptions where
  reconnection : Bool := true
  reconnectionAttempts : ℤ := 0
  auth : Value := .null

/-- An `engineio.Client` as the Socket.IO client sees it: which callbacks are set, and
`closed`. -/
structure Engine where
  onData : Bool := false
  onClose : Bool := false
  closed : Bool := false
  deriving DecidableEq, Repr

def Engine.live (g : Engine) : Bool := g.onData && !g.closed

/-- The variables of a `reconnectLoop`; the delay is left out. -/
structure ReconnectLoop where
  nsps : List Bytes
  attempt : ℕ := 0
  deriving DecidableEq

inductive Dialer where
  | dial
  | attempt (L : ReconnectLoop)
  deriving DecidableEq

/-- Who called `connectNsp`; an attempt has namespaces left to connect. -/
inductive Caller where
  | dial
  | app
  | attempt (L : ReconnectLoop) (rest : List Bytes)
  deriving DecidableEq

inductive DialStage where
  | dial
  | onData (e : DialId)
  | onClose (e : DialId)
  | store (e : DialId)
  deriving DecidableEq, Repr

inductive ConnectStage where
  | begin (nsp : Bytes) (data : Value)
  | send (nsp : Bytes) (data : Value) (ch : ChanId)
  | wait (nsp : Bytes) (ch : ChanId)

inductive CloseStage where
  | stop
  | close
  | closeEngine (e : DialId)
  | returned
  deriving DecidableEq, Repr

/-- `attempt` is in `reconnectAttempt` between two calls of `connectNsp`, `cleanup` and
`closeEngine` in its deferred function. -/
inductive LoopStage where
  | check
  | sleep
  | attempt (rest : List Bytes)
  | cleanup
  | closeEngine (e : DialId)
  | reconnected
  | giveUp
  | setClosed
  | stop
  deriving DecidableEq

/-- A goroutine; `opened` is `Dial` once it has returned the client. `sendPacket` is a
call of `Emit`, or of `DisconnectNamespace`, which calls the handlers if it is to `fire`. -/
inductive Task where
  | dialEngine (k : Dialer) (stage : DialStage)
  | connectNsp (k : Caller) (stage : ConnectStage)
  | close (stage : CloseStage)
  | sendPacket (pkt : Packet) (fire : Bool)
  | onEngineClosed (d : Drop)
  | reconnect (nsps : List Bytes)
  | loop (L : ReconnectLoop) (stage : LoopStage)
  | opened
  | done

inductive ConnectError where
  | context
  | reply (f : Failure)
  deriving DecidableEq

def Dialer.dialed (o : ReconnectOptions) : Dialer → Task
  | .dial => .connectNsp .dial (.begin defaultNamespace o.auth)
  | .attempt L => .loop L (.attempt L.nsps)

def Dialer.failed : Dialer → Task
  | .dial => .done
  | .attempt L => .loop L .cleanup

def Caller.returned : Caller → Option ConnectError → Task
  | .dial, none => .opened
  | .dial, some _ => .close .stop
  | .app, _ => .done
  | .attempt L rest, none => .loop L (.attempt rest)
  | .attempt L _, some _ => .loop L .cleanup

/-- `socketio: reconnection failed after maximum attempts`. -/
def reconnectionFailed : Bytes :=
  [115, 111, 99, 107, 101, 116, 105, 111, 58, 32, 114, 101, 99, 111, 110, 110, 101, 99, 116, 105,
    111, 110, 32, 102, 97, 105, 108, 101, 100, 32, 97, 102, 116, 101, 114, 32, 109, 97, 120, 105,
    109, 117, 109, 32, 97, 116, 116, 101, 109, 112, 116, 115]

/-- The client, the engines it has dialed, `c.in`, and the goroutines. `calls` counts
the channels made, `processing` tells whether `processLoop` has been started, and
`handed` is what `sendPacket` has given to which engine. -/
structure Reconnect where
  client : SioClient := {}
  engines : List Engine := []
  inbound : List Packet := []
  processing : Bool := false
  reconnectStop : Bool := false
  calls : ChanId := 0
  handed : List (DialId × Packet) := []
  tasks : List Task := []

namespace Reconnect

/-- `order` is the order in which a map is iterated over. -/
inductive Act where
  | turn (i : ℕ) (order : List Bytes)
  | dialed (i : ℕ)
  | dialFails (i : ℕ)
  | timeout (i : ℕ)
  | stopped (i : ℕ)
  | onData (e : DialId) (pkt : Packet)
  | closeWithError (e : DialId) (d : Drop)
  | receive
  | connectNamespace (nsp : Bytes) (data : Value)
  | disconnectNamespace (nsp : Bytes)
  | emit (nsp : Bytes) (data : List Value)
  | close

section Step

variable (o : ReconnectOptions) (s : Reconnect)

def goto (i : ℕ) (t : Task) : Reconnect := { s with tasks := s.tasks.set i t }

def spawn (t : Task) : Reconnect := { s with tasks := s.tasks ++ [t] }

def modifyEngine (e : DialId) (f : Engine → Engine) : Reconnect :=
  { s with engines := s.engines.modify e f }

/-- `engineio.Client.Close`, which does not call back. -/
def closeEngine (e : DialId) : Reconnect := s.modifyEngine e fun g => { g with closed := true }

def sendPacket (pkt : Packet) : Reconnect :=
  match s.client.engine with
  | none => s
  | some e => { s with handed := s.handed ++ [(e, pkt)] }

/-- Events and acknowledgements do not concern the state of a namespace. -/
def process (pkt : Packet) : Reconnect :=
  match pkt.type with
  | .connect => { s with client := s.client.handleConnect pkt }
  | .connectError => { s with client := s.client.handleConnectError pkt }
  | .disconnect => { s with client := s.client.handleDisconnect pkt }
  | _ => s

def auth (nsp : Bytes) : Value := ((s.client.nsps.lookup nsp).map NsClient.auth).getD .null

def dialNext (i : ℕ) (k : Dialer) : DialStage → Option Reconnect
  | .dial => none
  | .onData e =>
    some ((s.modifyEngine e fun g => { g with onData := true }).goto i (.dialEngine k (.onClose e)))
  | .onClose e =>
    some ((s.modifyEngine e fun g => { g with onClose := true }).goto i (.dialEngine k (.store e)))
  | .store e =>
    some ({ s with client := s.client.store e, processing := true }.goto i (k.dialed o))

def connectNext (i : ℕ) (k : Caller) : ConnectStage → Option Reconnect
  | .begin nsp data =>
    some ({ s with client := s.client.await nsp data s.calls, calls := s.calls + 1 }.goto i
      (.connectNsp k (.send nsp data s.calls)))
  | .send nsp data ch =>
    some ((s.sendPacket { type := .connect, nsp, data }).goto i (.connectNsp k (.wait nsp ch)))
  | .wait _ ch =>
    (s.client.chans ch).map fun r => s.goto i (k.returned (r.map .reply))

def closeNext (i : ℕ) (order : List Bytes) : CloseStage → Option Reconnect
  | .stop => some ({ s with reconnectStop := true }.goto i (.close .close))
  | .close =>
    if s.client.closed then some (s.goto i (.close .returned))
    else if order.Perm s.client.connectedNsps then
      some ({ s with client := s.client.close order }.goto i
        (match s.client.engine with
          | none => .close .returned
          | some e => .close (.closeEngine e)))
    else none
  | .closeEngine e => some ((s.closeEngine e).goto i (.close .returned))
  | .returned => none

def loopNext (i : ℕ) (L : ReconnectLoop) : LoopStage → Option Reconnect
  | .check =>
    some (s.goto i
      (if s.reconnectStop then .done
      else if 0 < o.reconnectionAttempts ∧ o.reconnectionAttempts ≤ L.attempt then .loop L .giveUp
      else .loop { L with attempt := L.attempt + 1 } .sleep))
  | .sleep => some (s.goto i (.dialEngine (.attempt L) .dial))
  | .attempt [] => some (s.goto i (.loop L .reconnected))
  | .attempt (nsp :: rest) =>
    some (s.goto i (.connectNsp (.attempt L rest) (.begin nsp (s.auth nsp))))
  | .cleanup =>
    some ({ s with client := s.client.dropEngine }.goto i
      (match s.client.engine with
        | none => .loop L .check
        | some e => .loop L (.closeEngine e)))
  | .closeEngine e => some ((s.closeEngine e).goto i (.loop L .check))
  | .reconnected => some (s.goto i .done)
  | .giveUp =>
    some ({ s with
      client := s.client.start (L.nsps.map fun nsp => .connectError nsp reconnectionFailed) }.goto i
        (.loop L .setClosed))
  | .setClosed => some ({ s with client := { s.client with closed := true } }.goto i (.loop L .stop))
  | .stop => some ({ s with reconnectStop := true }.goto i .done)

def taskNext (i : ℕ) (order : List Bytes) : Task → Option Reconnect
  | .dialEngine k stage => s.dialNext o i k stage
  | .connectNsp k stage => s.connectNext i k stage
  | .close stage => s.closeNext i order stage
  | .sendPacket pkt fire =>
    let s := s.sendPacket pkt
    some ({ s with
      client := s.client.start
        (if fire then [.disconnect pkt.nsp "io client disconnect"] else []) }.goto i .done)
  | .onEngineClosed d =>
    if order.Perm s.client.connectedNsps then
      some ({ s with client := s.client.onEngineClosed d order }.goto i
        (if s.client.closed then .done else .reconnect order))
    else none
  | .reconnect nsps =>
    -- the callback ends here, and the loop is a goroutine of its own
    some (s.goto i
      (if o.reconnection ∧ nsps ≠ [] ∧ ¬ s.client.closed then .loop { nsps } .check else .done))
  | .loop L stage => s.loopNext o i L stage
  | .opened | .done => none

def opened : Bool :=
  match s.tasks with
  | .opened :: _ => true
  | _ => false

def step : Act → Option Reconnect
  | .turn i order => s.tasks[i]?.bind (s.taskNext o i order)
  | .dialed i =>
    match s.tasks[i]? with
    | some (.dialEngine k .dial) =>
      some ({ s with engines := s.engines ++ [({} : Engine)] }.goto i
        (.dialEngine k (.onData s.engines.length)))
    | _ => none
  | .dialFails i =>
    match s.tasks[i]? with
    | some (.dialEngine k .dial) => some (s.goto i k.failed)
    | _ => none
  | .timeout i =>
    match s.tasks[i]? with
    | some (.connectNsp k (.wait nsp _)) =>
      some ({ s with client := s.client.abandon nsp }.goto i (k.returned (some .context)))
    | _ => none
  | .stopped i =>
    match s.tasks[i]? with
    | some (.loop _ .sleep) => if s.reconnectStop then some (s.goto i .done) else none
    | _ => none
  | .onData e pkt =>
    -- a packet that was on its way when the engine was closed still gets here
    if s.engines[e]?.any Engine.onData then some { s with inbound := s.inbound ++ [pkt] } else none
  | .closeWithError e d =>
    match s.engines[e]? with
    | none => none
    | some g =>
      if g.closed then none
      else some (if g.onClose then (s.closeEngine e).spawn (.onEngineClosed d) else s.closeEngine e)
  | .receive =>
    match s.inbound with
    | [] => none
    | pkt :: inbound => if s.processing then some ({ s with inbound }.process pkt) else none
  | .connectNamespace nsp data =>
    if s.opened ∧ nsp ≠ [] ∧ nsp ≠ defaultNamespace then
      some (s.spawn (.connectNsp .app (.begin nsp data)))
    else none
  | .disconnectNamespace nsp =>
    if s.opened then
      some ({ s with client := s.client.leave nsp }.spawn
        (.sendPacket { type := .disconnect, nsp } (s.client.Connected nsp)))
    else none
  | .emit nsp data =>
    if s.opened ∧ s.client.Connected nsp then
      some (s.spawn (.sendPacket { type := .event, nsp, data := .arr data } false))
    else none
  | .close => if s.opened then some (s.spawn (.close .stop)) else none

end Step

def initial : Reconnect := { tasks := [.dialEngine .dial .dial] }

def Act.isReceive : Act → Bool
  | .receive => true
  | _ => false

/-- The namespace whose `OnConnect` handlers are still to be started after a step. -/
def due (s : Reconnect) : Act → Option Bytes
  | .receive => s.inbound.head?.bind fun pkt => if pkt.type = .connect then some pkt.nsp else none
  | _ => none

end Reconnect

/-- `handleConnect` starts its handlers after it has released `c.mu`, when other
goroutines may have gone on: `starting` is the namespace for which `processLoop` has yet
to do so, and `begun` are those for which it has. -/
structure ProcessLoop where
  state : Reconnect := .initial
  starting : Option Bytes := none
  begun : List Bytes := []

namespace ProcessLoop

inductive Move where
  | act (a : Reconnect.Act)
  | start

def step (o : ReconnectOptions) (L : ProcessLoop) : Move → Option ProcessLoop
  | .act a =>
    -- the loop takes no packet before it is done with the last one
    if a.isReceive && L.starting.isSome then none
    else (L.state.step o a).map fun state =>
      { L with state, starting := (L.state.due a).or L.starting }
  | .start => L.starting.map fun nsp => { L with starting := none, begun := L.begun ++ [nsp] }

end ProcessLoop

end Gosocketio

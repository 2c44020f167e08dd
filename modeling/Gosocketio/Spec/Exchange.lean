import Gosocketio.Spec.AckTable
import Gosocketio.Spec.Goroutines
import Gosocketio.Spec.SioClient

/-! A server and a client over one Engine.IO connection that stays up, with a FIFO
link in each direction. A step is one critical section or one send of a goroutine:
the processing loop of the server, calls of `Disconnect` and `EmitWithAck` on its
sockets and the goroutines that run acknowledgement callbacks; on the client calls
of `connectNsp` and `DisconnectNamespace` and the goroutines that wait for event
handlers. The links carry packets; how a packet becomes frames and comes back is
the matter of `Gosocketio.Spec.Packet` and `Gosocketio.Spec.Framing`. -/

namespace Gosocketio

open Server (Job namespaceName)

/-- A packet on a link. `origin` tells which call it comes from and is not part of
the packet: of `EmitWithAck` for an event and its acknowledgement, of `connectNsp`
for a CONNECT and its reply. -/
structure Message where
  pkt : Packet
  origin : Option ℕ := none

/-- Where a call of `EmitWithAck` is; the id is the one it got from `next`. -/
inductive EmitPc where
  | next
  | register (ackId : ℤ)
  | send (ackId : ℤ)
  | done (ackId : ℤ)
  deriving DecidableEq, Repr

structure Emit where
  id : SocketId
  data : List Value
  pc : EmitPc := .next

structure Invoke where
  id : SocketId
  ackId : ℤ
  data : List Value
  origin : Option ℕ

/-- The call of a callback: which call of `EmitWithAck` registered it, and the event
of which call the results are of. -/
structure Invocation where
  callback : ℕ
  answers : Option ℕ
  data : List Value

/-- A goroutine of the client: a call of `connectNsp` before it sends its packet and
while it waits, a call of `DisconnectNamespace` before it sends its packet. The
channel of a call of `connectNsp` is the place of the goroutine in the list. -/
inductive ClientTask where
  | connect (nsp : Bytes) (data : Value)
  | wait (nsp : Bytes)
  | disconnect (nsp : Bytes) (fire : Bool)
  | done

/-- `tables` has the `ackTable` of each socket, in which a callback is known by the call
that registered it. Which ids still have a callback is kept in the `Socket` itself;
`nextSocketID` does not repeat an id, so what is here for a socket not yet created is
what `newAckTable` makes. `origin` is the call that the packet the loop is at comes from. -/
structure Exchange where
  server : Server
  tables : SocketId → AckTable ℕ := fun _ => {}
  loop : Job := .idle
  origin : Option ℕ := none
  tears : List Job := []
  emits : List Emit := []
  invokes : List Invoke := []
  toClient : List Message := []
  toServer : List Message := []
  client : SioClient := {}
  tasks : List ClientTask := []
  handling : List Message := []
  invoked : List Invocation := []

namespace Exchange

inductive Act where
  | pop
  | process (fresh : SocketId)
  | disconnect (id : SocketId)
  | tear (i : ℕ)
  | emitWithAck (id : SocketId) (name : Bytes) (args : List Value)
  | emit (i : ℕ)
  | invoke (i : ℕ)
  | receive
  | respond (i : ℕ) (results : List Value)
  | connectNsp (nsp : Bytes) (data : Value)
  | disconnectNamespace (nsp : Bytes)
  | task (i : ℕ)
  | timeout (i : ℕ)

section Step

variable (J : Json) (c : ConnId) (s : Exchange)

def sent (origin : Option ℕ) : Option Server.Section → List Message
  | some (.send d pkt) => if d = c then [{ pkt, origin }] else []
  | _ => []

def spawned (origin : Option ℕ) : Option Server.Section → List Invoke
  | some (.perform (.invoke id ackId data)) => [{ id, ackId, data, origin }]
  | _ => []

def turn (origin : Option ℕ) (fresh : SocketId) (job : Job) : Exchange :=
  let l := (s.server.next c fresh job).1
  { s with
    server := s.server.perhaps J l
    toClient := s.toClient ++ sent c origin l
    invokes := s.invokes ++ spawned origin l }

def callback (id : SocketId) (ackId : ℤ) : Option ℕ :=
  if (s.server.heap id).any (fun x => ackId ∈ x.acks) then ((s.tables id).cbs ackId).join else none

def runCallback (v : Invoke) : Exchange :=
  match s.callback v.id v.ackId with
  | none => s
  | some k =>
    { s with
      server := s.server.takeAck v.id v.ackId
      invoked := s.invoked ++ [{ callback := k, answers := v.origin, data := v.data }] }

def event (x : Socket) (ackId : ℤ) (data : List Value) : Packet :=
  { type := .event, nsp := x.nsp, id := ackId, data := .arr data }

def emitNext (k : ℕ) (e : Emit) : Option Exchange :=
  match e.pc with
  | .next =>
    let (id, table) := (s.tables e.id).next
    some { s with
      tables := Function.update s.tables e.id table
      emits := s.emits.set k { e with pc := .register id } }
  | .register id =>
    some { s with
      server := s.server.registerAck e.id id
      tables := Function.update s.tables e.id ((s.tables e.id).register id (some k))
      emits := s.emits.set k { e with pc := .send id } }
  | .send id =>
    (s.server.heap e.id).map fun x =>
      let l := Server.Section.send x.ec (event x id e.data)
      { s with
        server := s.server.run J l
        toClient := s.toClient ++ sent c (some k) (some l)
        emits := s.emits.set k { e with pc := .done id } }
  | .done _ => none

/-- The client's `process`. An event without an acknowledgement only starts its
handlers. -/
def clientProcess (m : Message) : Exchange :=
  match m.pkt.type with
  | .connect => { s with client := s.client.handleConnect m.pkt }
  | .connectError => { s with client := s.client.handleConnectError m.pkt }
  | .disconnect => { s with client := s.client.handleDisconnect m.pkt }
  | .event =>
    match m.pkt.data with
    | .arr (.str _ :: _) => if 0 ≤ m.pkt.id then { s with handling := s.handling ++ [m] } else s
    | _ => s
  | _ => s

def ack (m : Message) (results : List Value) : Message :=
  { m with pkt := { type := .ack, nsp := m.pkt.nsp, id := m.pkt.id, data := .arr results } }

/-- A goroutine of the client goes on. An empty name is left out of a packet and
read as the default namespace. -/
def taskNext (i : ℕ) : ClientTask → Option Exchange
  | .connect nsp data =>
    some { s with
      toServer := s.toServer ++ [{ pkt := { type := .connect, nsp, data }, origin := some i }]
      tasks := s.tasks.set i (.wait nsp) }
  | .wait _ =>
    if (s.client.chans i).isSome then some { s with tasks := s.tasks.set i .done } else none
  | .disconnect nsp fire =>
    some { s with
      toServer := s.toServer ++ [{ pkt := { type := .disconnect, nsp := namespaceName nsp } }]
      client := s.client.start (if fire then [.disconnect nsp "io client disconnect"] else [])
      tasks := s.tasks.set i .done }
  | .done => none

def step : Act → Option Exchange
  | .pop =>
    match s.loop, s.toServer with
    | .idle, m :: toServer => some { s with loop := .process m.pkt, origin := m.origin, toServer }
    | _, _ => none
  | .process fresh =>
    some { s.turn J c s.origin fresh s.loop with loop := (s.server.next c fresh s.loop).2 }
  | .disconnect id =>
    (s.server.heap id).map fun _ =>
      { s with tears := s.tears ++ [.tear .check id "server namespace disconnect"] }
  | .tear i =>
    s.tears[i]?.map fun job =>
      { s.turn J c none [] job with tears := s.tears.set i (s.server.next c [] job).2 }
  | .emitWithAck id name args =>
    if (s.server.heap id).any Socket.connected then
      some { s with emits := s.emits ++ [{ id, data := .str name :: args }] }
    else none
  | .emit k => s.emits[k]?.bind (s.emitNext J c k)
  | .invoke i => s.invokes[i]?.map fun v => { s.runCallback v with invokes := s.invokes.eraseIdx i }
  | .receive =>
    match s.toClient with
    | [] => none
    | m :: toClient => some ({ s with toClient }.clientProcess m)
  | .respond i results =>
    s.handling[i]?.map fun m =>
      { s with handling := s.handling.eraseIdx i, toServer := s.toServer ++ [ack m results] }
  | .connectNsp nsp data =>
    -- `ConnectNamespace` refuses the empty name
    if nsp ≠ [] then
      some { s with
        client := s.client.await nsp data s.tasks.length
        tasks := s.tasks ++ [.connect nsp data] }
    else none
  | .disconnectNamespace nsp =>
    some { s with
      client := s.client.leave nsp
      tasks := s.tasks ++ [.disconnect nsp (s.client.Connected nsp)] }
  | .task i => s.tasks[i]?.bind (s.taskNext i)
  | .timeout i =>
    match s.tasks[i]? with
    | some (.wait nsp) => some { s with client := s.client.abandon nsp, tasks := s.tasks.set i .done }
    | _ => none

end Step

/-- `nextSocketID` does not repeat an id. -/
def Fresh (s : Exchange) : Act → Prop
  | .process fresh => s.server.heap fresh = none
  | _ => True

instance (s : Exchange) (a : Act) : Decidable (s.Fresh a) := by
  unfold Fresh
  split <;> infer_instance

structure Initial (s : Exchange) : Prop where
  sockets : ∀ name ns, s.server.nsps name = some ns → ns.sockets = ∅
  heap : ∀ id, s.server.heap id = none
  conns : ∀ d, s.server.conns d = {}
  fresh : s = { server := s.server }

end Exchange

end Gosocketio

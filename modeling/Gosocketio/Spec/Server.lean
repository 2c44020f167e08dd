import Gosocketio.Spec.Adapter
import Gosocketio.Spec.Framing
import Mathlib.Data.List.AList

/-! The Socket.IO server (`socketio/server.go`, `socketio/namespace.go`): the
namespaces, the sockets in them, and the Engine.IO connections they belong to.
Each table is changed in a critical section of its own; the handlers of packets
are sequences of such sections. What the log lines say is left out. -/

namespace Gosocketio

abbrev ConnId := ℕ

abbrev EngineId := ℕ

/-- A Socket.IO socket: the name of its namespace and its connection, whether it
is connected, and the ids of the acknowledgements it waits for. -/
structure Socket where
  nsp : Bytes
  ec : ConnId
  connected : Bool := false
  acks : Finset ℤ := ∅

/-- `namespace`. The keys of `n.sockets` are kept; the socket behind a key is the
one with that id. Middlewares and connect handlers are known by the error they
answer with. -/
structure Namespace where
  sockets : Finset SocketId := ∅
  adapter : Adapter := {}
  middlewares : List (SocketId → Value → Option Bytes) := []
  connect : List (SocketId → Option Bytes) := []

/-- `engineConn`: the socket of each namespace, the pending reconstructor, the
queue of messages to process, and the messages handed to the Engine.IO socket. -/
structure EngineConn where
  sockets : AList (fun _ : Bytes => SocketId) := ∅
  recon : Option Reconstructor := none
  items : List InPacket := []
  closed : Bool := false
  out : List InPacket := []

/-- What runs on goroutines of its own or belongs to the application: the event
handlers, the acknowledgement callbacks, and the disconnect handlers. -/
inductive Effect where
  | dispatch (id : SocketId) (name : Bytes) (args : List Value) (ackId : ℤ)
  | invoke (id : SocketId) (ackId : ℤ) (data : List Value)
  | disconnected (id : SocketId) (reason : String)

/-- `heap` holds every socket created, `conns` every `engineConn`; a pointer to
one is its id. -/
structure Server where
  nsps : Bytes → Option Namespace
  engines : EngineId → Option ConnId := fun _ => none
  heap : SocketId → Option Socket := fun _ => none
  conns : ConnId → EngineConn := fun _ => {}
  readers : Readers := fun _ => { content := [] }
  effects : List Effect := []

namespace Server

section Tables

variable (S : Server)

def modifyNsp (name : Bytes) (f : Namespace → Namespace) : Server :=
  { S with nsps := Function.update S.nsps name ((S.nsps name).map f) }

def modifySocket (id : SocketId) (f : Socket → Socket) : Server :=
  { S with heap := Function.update S.heap id ((S.heap id).map f) }

def modifyConn (c : ConnId) (f : EngineConn → EngineConn) : Server :=
  { S with conns := Function.update S.conns c (f (S.conns c)) }

/-- The critical sections of `addSocket`, `removeSocket` and `disconnectSocket`. -/
def register (name : Bytes) (id : SocketId) : Server :=
  S.modifyNsp name fun n => { n with sockets := insert id n.sockets }

def unregister (name : Bytes) (id : SocketId) : Server :=
  S.modifyNsp name fun n => { n with sockets := n.sockets.erase id }

def join (name : Bytes) (id : SocketId) : Server :=
  S.modifyNsp name fun n => { n with adapter := n.adapter.addSocket id }

def leave (name : Bytes) (id : SocketId) : Server :=
  S.modifyNsp name fun n => { n with adapter := n.adapter.removeSocket id }

/-- `ec.sockets[nsp] = sock` and `delete(ec.sockets, nsp)`. -/
def attach (c : ConnId) (nsp : Bytes) (id : SocketId) : Server :=
  S.modifyConn c fun ec => { ec with sockets := ec.sockets.insert nsp id }

def detach (c : ConnId) (nsp : Bytes) : Server :=
  S.modifyConn c fun ec => { ec with sockets := ec.sockets.erase nsp }

def setConnected (id : SocketId) (v : Bool) : Server :=
  S.modifySocket id fun s => { s with connected := v }

def clearAcks (id : SocketId) : Server := S.modifySocket id fun s => { s with acks := ∅ }

def perform (e : Effect) : Server := { S with effects := S.effects ++ [e] }

/-- `newSocket`, with the id that `nextSocketID` gave. -/
def newSocket (id : SocketId) (name : Bytes) (c : ConnId) : Server :=
  { S with heap := Function.update S.heap id (some { nsp := name, ec := c }) }

def addSocket (name : Bytes) (id : SocketId) : Server := (S.register name id).join name id

def removeSocket (name : Bytes) (id : SocketId) : Server := (S.unregister name id).leave name id

/-- The namespaces registered, with `""` for the default one. -/
def namespaceName (name : Bytes) : Bytes := if name = [] then defaultNamespace else name

def namespaceLookup (name : Bytes) : Option Namespace := S.nsps (namespaceName name)

/-- `namespaceFor`, which creates the namespace if it is not there. -/
def namespaceFor (name : Bytes) : Server :=
  match S.namespaceLookup name with
  | some _ => S
  | none => { S with nsps := Function.update S.nsps (namespaceName name) (some {}) }

/-- `RegisterNamespace`. The text of the error is given up to the quoted name. -/
def registerNamespace (nsp : Bytes) : Except String Server :=
  if ¬[47] <+: nsp ∨ nsp.length ≤ 1 then
    .error "socketio: invalid namespace: must start with \"/\" and be longer than one character"
  else .ok (S.namespaceFor nsp)

end Tables

def runMiddlewares (n : Namespace) (id : SocketId) (data : Value) : Option Bytes :=
  n.middlewares.findSome? fun m => m id data

def runConnect (n : Namespace) (id : SocketId) : Option Bytes :=
  n.connect.findSome? fun h => h id

/-- `connectData`: a payload that is not a map counts as nil. -/
def connectData : Value → Value
  | .obj kvs => .obj kvs
  | _ => .null

def messageKey : Bytes := [109, 101, 115, 115, 97, 103, 101]
def sidKey : Bytes := [115, 105, 100]

def invalidNamespace : Bytes :=
  [73, 110, 118, 97, 108, 105, 100, 32, 110, 97, 109, 101, 115, 112, 97, 99, 101]

section Handlers

variable (J : Json) (S : Server)

def sendPacket (c : ConnId) (pkt : Packet) : Server :=
  let (messages, readers) := Gosocketio.sendPacket J pkt S.readers
  { S.modifyConn c fun ec => { ec with out := ec.out ++ messages } with readers }

def sendConnectError (c : ConnId) (nsp msg : Bytes) : Server :=
  S.sendPacket J c { type := .connectError, nsp, data := .obj [(messageKey, .str msg)] }

def rejectConnect (c : ConnId) (id : SocketId) (name msg : Bytes) : Server :=
  ((((S.removeSocket name id).detach c name).setConnected id false)).sendConnectError J c name msg

/-- `handleConnect`; `id` is what `nextSocketID` returns if it is called. -/
def handleConnect (c : ConnId) (pkt : Packet) (id : SocketId) : Server :=
  let name := namespaceName pkt.nsp
  match S.namespaceLookup pkt.nsp with
  | none => S.sendConnectError J c pkt.nsp invalidNamespace
  | some ns =>
    let S := S.newSocket id name c
    match runMiddlewares ns id (connectData pkt.data) with
    | some err => S.rejectConnect J c id name err
    | none =>
      let S := ((S.addSocket name id).attach c pkt.nsp id).setConnected id true
      match runConnect ns id with
      | some err => S.rejectConnect J c id name err
      | none => S.sendPacket J c { type := .connect, nsp := pkt.nsp, data := .obj [(sidKey, .str id)] }

/-- `disconnectSocket`. Only the call that deletes the id from `n.sockets` goes on. -/
def disconnectSocket (id : SocketId) (reason : String) : Server :=
  match S.heap id with
  | none => S
  | some s =>
    match S.nsps s.nsp with
    | none => S
    | some n =>
      if id ∉ n.sockets then S
      else
        let S := (((S.unregister s.nsp id).leave s.nsp id).setConnected id false).clearAcks id
        let S := if reason = "server namespace disconnect" then
          S.sendPacket J s.ec { type := .disconnect, nsp := s.nsp } else S
        (S.perform (.disconnected id reason)).detach s.ec s.nsp

def handleDisconnect (c : ConnId) (pkt : Packet) : Server :=
  match (S.conns c).sockets.lookup pkt.nsp with
  | none => S
  | some id => S.disconnectSocket J id "client namespace disconnect"

/-- `handleEvent`: what it starts goroutines for. -/
def handleEvent (c : ConnId) (pkt : Packet) : Server :=
  match (S.conns c).sockets.lookup pkt.nsp, pkt.data with
  | some id, .arr (.str name :: args) => S.perform (.dispatch id name args pkt.id)
  | _, _ => S

def handleAck (c : ConnId) (pkt : Packet) : Server :=
  match (S.conns c).sockets.lookup pkt.nsp with
  | none => S
  | some id => S.perform (.invoke id pkt.id (match pkt.data with | .arr xs => xs | _ => []))

def process (c : ConnId) (pkt : Packet) (id : SocketId) : Server :=
  match pkt.type with
  | .connect => S.handleConnect J c pkt id
  | .disconnect => S.handleDisconnect J c pkt
  | .event => S.handleEvent c pkt
  | .ack => S.handleAck c pkt
  | _ => S

def handleIn (c : ConnId) (p : InPacket) (id : SocketId) : Server :=
  let (recon, pkt) := Gosocketio.handleIn J (S.conns c).recon p
  let S := S.modifyConn c fun ec => { ec with recon }
  match pkt with
  | none => S
  | some pkt => S.process J c pkt id

def mapDisconnectReason (reason : String) : String :=
  if reason = "client close" ∨ reason = "transport close" then "transport close"
  else if reason = "transport error" then "transport error"
  else if reason = "ping timeout" then "ping timeout"
  else if reason = "" then "transport close"
  else reason

/-- The first section of `onEngineClose` takes the entry out of `engines`, the
second the sockets out of the connection; `order` is the order in which the loop
over them goes. -/
def onEngineClose (es : EngineId) (reason : String) (order : List SocketId) : Server :=
  match S.engines es with
  | none => S
  | some c =>
    let S := { S with engines := Function.update S.engines es none }
    let S := S.modifyConn c fun ec => { ec with closed := true, sockets := ∅ }
    order.foldl (fun S id => S.disconnectSocket J id (mapDisconnectReason reason)) S

end Handlers

end Server
end Gosocketio

import Gosocketio.Spec.Server

/-! Broadcasting (`namespace.broadcast`, `Socket.Emit`): one `Emit` for each target,
all of them given the same argument tree. -/

namespace Gosocketio.Server

variable (J : Json) (S : Server)

/-- The packet `emitEvent` builds; it asks for no acknowledgement. -/
def eventPacket (nsp event : Bytes) (args : List Value) : Packet :=
  { type := .event, nsp, data := .arr (.str event :: args) }

/-- `Socket.Emit`: the state afterwards and the messages handed to the connection.
A socket that is not connected is left alone. -/
def emit (id : SocketId) (event : Bytes) (args : List Value) : Server × List InPacket :=
  match S.heap id with
  | none => (S, [])
  | some s =>
    if s.connected then
      let pkt := eventPacket s.nsp event args
      (S.sendPacket J s.ec pkt, (Gosocketio.sendPacket J pkt S.readers).1)
    else (S, [])

/-- What `broadcast` does with one id: the adapter may list ids that are not, or
no longer, in `n.sockets`. -/
def deliver (name event : Bytes) (id : SocketId) (args : List Value) : Server × List InPacket :=
  match S.nsps name with
  | none => (S, [])
  | some n => if id ∈ n.sockets then S.emit J id event args else (S, [])

/-- `broadcast`, over the targets in the order in which the adapter lists them. The
arguments are one tree, but each `Emit` visits its maps in an order of its own,
so each target comes with its own listing of them. -/
def broadcast (name event : Bytes) :
    Server → List (SocketId × List Value) → Server × List (SocketId × List InPacket)
  | S, [] => (S, [])
  | S, (id, args) :: targets =>
    let (S, messages) := S.deliver J name event id args
    let (S, rest) := broadcast name event S targets
    (S, (id, messages) :: rest)

def Live (name : Bytes) (id : SocketId) : Bool :=
  (S.nsps name).any (fun n => id ∈ n.sockets) && (S.heap id).any Socket.connected

mutual
/-- A value with its readers replaced by the bytes that are left in them. -/
def snapshot (readers : Readers) : Value → Value
  | .reader none => .bytes []
  | .reader (some i) => .bytes (readers i).content
  | .arr xs => .arr (snapshotList readers xs)
  | .obj kvs => .obj (snapshotEntries readers kvs)
  | v => v

def snapshotList (readers : Readers) : List Value → List Value
  | [] => []
  | x :: xs => snapshot readers x :: snapshotList readers xs

def snapshotEntries (readers : Readers) : List (Bytes × Value) → List (Bytes × Value)
  | [] => []
  | (k, x) :: kvs => (k, snapshot readers x) :: snapshotEntries readers kvs
end

def readersOf (v : Value) : List ReaderId :=
  v.leaves.filterMap fun
    | .reader r => r
    | _ => none

/-- `messages` are those of emitting the arguments with the contents the readers
had at the start, under some listing of the maps. -/
def SamePayload (readers : Readers) (name event : Bytes) (args : List Value)
    (messages : List InPacket) : Prop :=
  ∃ args', (Value.arr args').sorted = (snapshot readers (.arr args)).sorted ∧
    messages = (Gosocketio.sendPacket J (eventPacket name event args') readers).1

def joinRoom (id : SocketId) (room : Bytes) : Server :=
  (S.heap id).elim S fun s =>
    S.modifyNsp s.nsp fun n => { n with adapter := n.adapter.addToRoom room id }

def leaveRoom (id : SocketId) (room : Bytes) : Server :=
  (S.heap id).elim S fun s =>
    S.modifyNsp s.nsp fun n => { n with adapter := n.adapter.removeFromRoom room id }

inductive Chain where
  | namespaceTo (name room : Bytes)
  | socketTo (id : SocketId) (room : Bytes)
  | socketToExcept (id : SocketId) (room : Bytes) (except : List SocketId)
  | except (b : Chain) (ids : List SocketId)

structure BroadcastOperator where
  ns : Bytes
  room : Bytes
  except : List SocketId := []

def BroadcastOperator.excluding (b : BroadcastOperator) (ids : List SocketId) : BroadcastOperator :=
  { b with except := b.except ++ ids }

def operator : Chain → Option BroadcastOperator
  | .namespaceTo name room => some { ns := name, room }
  | .socketTo id room => (S.heap id).map fun s => { ns := s.nsp, room, except := [id] }
  | .socketToExcept id room except => (S.heap id).map fun s => { ns := s.nsp, room, except := id :: except }
  | .except b ids => (operator b).map (·.excluding ids)

/-- The calls that broadcast: `Emit` of a namespace and of an operator, `Broadcast` and
`BroadcastToRoom` of a socket, `BroadcastToNamespace`, `BroadcastToRoom` and `ToExcept` of
the server. -/
inductive Api where
  | namespaceEmit (name : Bytes)
  | operatorEmit (b : Chain)
  | socketBroadcast (id : SocketId)
  | socketBroadcastToRoom (id : SocketId) (room : Bytes)
  | broadcastToNamespace (nsp : Bytes)
  | broadcastToRoom (nsp room : Bytes)
  | toExcept (nsp room : Bytes) (except : List SocketId)

/-- The namespace on which a call calls `broadcast`, with the room and the ids it
passes on; the server looks its namespace up. -/
def request : Api → Option BroadcastOperator
  | .namespaceEmit name => some { ns := name, room := [] }
  | .operatorEmit b => S.operator b
  | .socketBroadcast id => (S.heap id).map fun s => { ns := s.nsp, room := [], except := [id] }
  | .socketBroadcastToRoom id room => (S.heap id).map fun s => { ns := s.nsp, room, except := [id] }
  | .broadcastToNamespace nsp =>
    (S.namespaceLookup nsp).map fun _ => { ns := namespaceName nsp, room := [] }
  | .broadcastToRoom nsp room => (S.namespaceLookup nsp).map fun _ => { ns := namespaceName nsp, room }
  | .toExcept nsp room except =>
    (S.namespaceLookup nsp).map fun _ => { ns := namespaceName nsp, room, except }

inductive Call where
  | data (c : ConnId) (p : InPacket) (id : SocketId)
  | close (es : EngineId) (reason : String) (order : List SocketId)
  | disconnect (id : SocketId)
  | joinRoom (id : SocketId) (room : Bytes)
  | leaveRoom (id : SocketId) (room : Bytes)
  | reader (i : ReaderId) (r : Reader)
  | broadcast (name event : Bytes) (targets : List (SocketId × List Value))

def call : Call → Option Server
  | .data c p id => some (S.handleIn J c p id)
  | .close es reason order => some (S.onEngineClose J es reason order)
  | .disconnect id => some (S.disconnectSocket J id "server namespace disconnect")
  | .joinRoom id room => some (S.joinRoom id room)
  | .leaveRoom id room => some (S.leaveRoom id room)
  | .reader i r => some { S with readers := Function.update S.readers i r }
  | .broadcast name event targets => some (S.broadcast J name event targets).1

/-- `nextSocketID` does not repeat an id. -/
def CallOk : Call → Prop
  | .data _ _ id => S.heap id = none
  | _ => True

instance : ∀ l, Decidable (S.CallOk l)
  | .data _ _ id => inferInstanceAs (Decidable (S.heap id = none))
  | .close .. | .disconnect _ | .joinRoom .. | .leaveRoom .. | .reader .. | .broadcast .. =>
    isTrue trivial

def Reachable (S : Server) : Prop :=
  ∃ S₀ ls, (∀ name ns, S₀.nsps name = some ns → ns.sockets = ∅) ∧ (∀ c, S₀.conns c = {}) ∧
    Runs.Run (call J) CallOk S₀ ls S

end Gosocketio.Server

import Gosocketio.Spec.AckTable
import Gosocketio.Spec.Broadcast
import Gosocketio.Spec.Requests

/-! Emitting on either side: `Socket.Emit` and `Socket.EmitWithAck` (`socketio/socket.go`),
`Client.Emit` and `Client.EmitWithAck` (`socketio/client.go`). The callback of an event is
registered before the event is sent, and `sendPacket` tells nobody when it drops a packet. -/

namespace Gosocketio

open Server (eventPacket)

inductive EmitError where
  | notConnected
  | namespaceNotConnected
  deriving DecidableEq, Repr

def Side.notConnected : Side → EmitError
  | .server => .notConnected
  | .client => .namespaceNotConnected

/-- A `Socket`, which is connected to its own namespace at most, or a `Client`; with the messages
it has handed to its engine. A client may be without an engine, a socket never is. -/
structure Endpoint (side : Side) (C : Type) where
  connected : Bytes → Bool := fun _ => false
  engine : Bool := true
  engine_of_server : side = .server → engine = true := by simp
  acks : AckTable C := {}
  readers : Readers := Framing.noReaders
  out : List InPacket := []

namespace Endpoint

variable {side : Side} {C : Type} (J : Json) (e : Endpoint side C)

def send (pkt : Packet) : Endpoint side C :=
  if e.engine then
    let (messages, readers) := sendPacket J pkt e.readers
    { e with readers, out := e.out ++ messages }
  else e

def emit (nsp event : Bytes) (args : List Value) : Option EmitError × Endpoint side C :=
  if e.connected nsp then (none, e.send J (eventPacket nsp event args))
  else (some side.notConnected, e)

def emitWithAck (nsp event : Bytes) (cb : Option C) (args : List Value) :
    (ℤ × Option EmitError) × Endpoint side C :=
  if e.connected nsp then
    match cb with
    | none => ((-1, none), e.send J (eventPacket nsp event args))
    | some cb =>
      let (id, acks) := e.acks.next
      let e := { e with acks := acks.register id (some cb) }
      ((id, none), e.send J { eventPacket nsp event args with id })
  else ((-1, some side.notConnected), e)

/-- The calls of the application, and what else changes an endpoint: an acknowledgement, the end
of a session, which clears the table, and the connection. -/
inductive Act (C : Type) where
  | emit (nsp event : Bytes) (args : List Value)
  | emitWithAck (nsp event : Bytes) (cb : Option C) (args : List Value)
  | ack (id : ℤ)
  | clear
  | connection (connected : Bytes → Bool) (engine : Bool)
  | reader (i : ReaderId) (r : Reader)

def step : Act C → Option (Endpoint side C)
  | .emit nsp event args => some (e.emit J nsp event args).2
  | .emitWithAck nsp event cb args => some (e.emitWithAck J nsp event cb args).2
  | .ack id => some { e with acks := (e.acks.take id).2.2 }
  | .clear => some { e with acks := e.acks.clear }
  | .connection connected engine =>
    if h : side = .server → engine = true then some { e with connected, engine, engine_of_server := h }
    else none
  | .reader i r => some { e with readers := Function.update e.readers i r }

end Endpoint

end Gosocketio

import Gosocketio.Spec.Broadcast

/-! The critical sections of the server one by one. Packets of different
connections are processed, sockets are disconnected and events are emitted on
goroutines of their own, so the sections of one call interleave with those of
others. -/

namespace Gosocketio

def Effect.socket : Effect → SocketId
  | .dispatch id .. => id
  | .invoke id .. => id
  | .disconnected id _ => id

namespace Server

/-- A critical section, or a step that touches one table without a lock. -/
inductive Section where
  | newSocket (id : SocketId) (name : Bytes) (c : ConnId)
  | register (name : Bytes) (id : SocketId)
  | unregister (name : Bytes) (id : SocketId)
  | join (name : Bytes) (id : SocketId)
  | leave (name : Bytes) (id : SocketId)
  | attach (c : ConnId) (nsp : Bytes) (id : SocketId)
  | detach (c : ConnId) (nsp : Bytes)
  | setConnected (id : SocketId) (v : Bool)
  | registerAck (id : SocketId) (ackId : ℤ)
  | takeAck (id : SocketId) (ackId : ℤ)
  | clearAcks (id : SocketId)
  | push (c : ConnId) (p : InPacket)
  | pop (c : ConnId)
  | reconstruct (c : ConnId) (p : InPacket)
  | send (c : ConnId) (pkt : Packet)
  | perform (e : Effect)
  | enter (es : EngineId) (c : ConnId)
  | remove (es : EngineId)
  | closeQueue (c : ConnId)
  | clearSockets (c : ConnId)
  | joinRoom (id : SocketId) (room : Bytes)
  | leaveRoom (id : SocketId) (room : Bytes)
  | reader (i : ReaderId) (r : Reader)

variable (J : Json) (S : Server)

/-- `ackTable.register`, and the deletion in `ackTable.invoke`. -/
def registerAck (id : SocketId) (ackId : ℤ) : Server :=
  S.modifySocket id fun s => { s with acks := insert ackId s.acks }

def takeAck (id : SocketId) (ackId : ℤ) : Server :=
  S.modifySocket id fun s => { s with acks := s.acks.erase ackId }

/-- `packetQueue.push`, `pop` and `close`. -/
def push (c : ConnId) (p : InPacket) : Server :=
  S.modifyConn c fun ec => if ec.closed then ec else { ec with items := ec.items ++ [p] }

def pop (c : ConnId) : Server := S.modifyConn c fun ec => { ec with items := ec.items.tail }

def closeQueue (c : ConnId) : Server := S.modifyConn c fun ec => { ec with closed := true }

def reconstruct (c : ConnId) (p : InPacket) : Server :=
  S.modifyConn c fun ec => { ec with recon := (Gosocketio.handleIn J ec.recon p).1 }

def enter (es : EngineId) (c : ConnId) : Server :=
  { S with engines := Function.update S.engines es (some c) }

def remove (es : EngineId) : Server := { S with engines := Function.update S.engines es none }

def clearSockets (c : ConnId) : Server := S.modifyConn c fun ec => { ec with sockets := ∅ }

def run : Section → Server
  | .newSocket id name c => S.newSocket id name c
  | .register name id => S.register name id
  | .unregister name id => S.unregister name id
  | .join name id => S.join name id
  | .leave name id => S.leave name id
  | .attach c nsp id => S.attach c nsp id
  | .detach c nsp => S.detach c nsp
  | .setConnected id v => S.setConnected id v
  | .registerAck id ackId => S.registerAck id ackId
  | .takeAck id ackId => S.takeAck id ackId
  | .clearAcks id => S.clearAcks id
  | .push c p => S.push c p
  | .pop c => S.pop c
  | .reconstruct c p => S.reconstruct J c p
  | .send c pkt => S.sendPacket J c pkt
  | .perform e => S.perform e
  | .enter es c => S.enter es c
  | .remove es => S.remove es
  | .closeQueue c => S.closeQueue c
  | .clearSockets c => S.clearSockets c
  | .joinRoom id room => S.joinRoom id room
  | .leaveRoom id room => S.leaveRoom id room
  | .reader i r => { S with readers := Function.update S.readers i r }

def step (l : Section) : Option Server := some (S.run J l)

/-- `nextSocketID` does not repeat an id, and `handleConnect` enters a socket into
the tables of the namespace and the connection for which it created it. About the
order of the sections nothing is said. -/
def SectionOk : Section → Prop
  | .newSocket id _ _ => S.heap id = none
  | .register name id => ∃ s, S.heap id = some s ∧ s.nsp = name
  | .attach c nsp id => ∃ s, S.heap id = some s ∧ s.ec = c ∧ s.nsp = nsp
  | _ => True

/-- A state that sections, in any interleaving, lead to from a server without
sockets. -/
def Interleaved (S : Server) : Prop :=
  ∃ S₀ ls, (∀ name ns, S₀.nsps name = some ns → ns.sockets = ∅) ∧ (∀ c, S₀.conns c = {}) ∧
    Runs.Run (step J) SectionOk S₀ ls S

end Server

end Gosocketio

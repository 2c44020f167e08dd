import Gosocketio.Spec.Goroutines

/-! What the application sees of a socket: the hooks and handlers that `handleEvent`
starts, the callbacks that acknowledgements call, and the disconnect handlers. The
socket is looked up first; what is started for it is started later, one by one. -/

namespace Gosocketio.Server

inductive Called where
  | onAny (id : SocketId) (name : Bytes) (args : List Value)
  | handler (id : SocketId) (name : Bytes) (args : List Value)
  | callback (id : SocketId) (ackId : ℤ) (data : List Value)
  | disconnect (id : SocketId) (reason : String)

def Called.socket : Called → SocketId
  | .onAny id .. | .handler id .. | .callback id .. | .disconnect id .. => id

def Called.Starts (id : SocketId) : Called → Prop
  | .onAny x .. | .handler x .. | .callback x .. => x = id
  | .disconnect .. => False

/-- Where a call of `EmitWithAck` is; `ackId` is what `acks.next` gave. -/
inductive Emission where
  | check (id : SocketId) (event : Bytes) (args : List Value)
  | register (id : SocketId) (ackId : ℤ) (event : Bytes) (args : List Value)
  | send (id : SocketId) (ackId : ℤ) (event : Bytes) (args : List Value)
  | done

/-- The server with what its calls of the application's functions go through: the
hooks and handlers that the `handleEvent` of a connection has yet to start, the
goroutines of `Socket.handleAck` before they look for their callback (`invoking`) and
when they have it in hand (`taken`), and the calls of `EmitWithAck`. `calls` is what was
started or called, in order. -/
structure Dispatcher where
  world : World
  starting : ConnId → List Called := fun _ => []
  invoking : List (SocketId × ℤ × List Value) := []
  taken : List Called := []
  emissions : List Emission := []
  calls : List Called := []

/-- `world` is a step of the server; `hooks` and `handlers` are how many of them a
`handleEvent` finds registered. -/
inductive Move where
  | world (l : Label) (hooks handlers : ℕ)
  | start (c : ConnId)
  | invoke (i : ℕ)
  | call (i : ℕ)
  | emitWithAck (id : SocketId) (event : Bytes) (args : List Value)
  | emit (i : ℕ) (ackId : ℤ)

namespace Dispatcher

variable (J : Json) (D : Dispatcher)

/-- The processing loop of a connection is not done with a packet before everything is
started. -/
def Busy : Label → Bool
  | .process c _ | .pop c => !(D.starting c).isEmpty
  | _ => false

def record (l : Label) (hooks handlers : ℕ) (D : Dispatcher) : Effect → Dispatcher
  | .dispatch id name args _ =>
    match l with
    | .process c _ =>
      { D with
        starting := Function.update D.starting c
          (List.replicate hooks (.onAny id name args) ++ List.replicate handlers (.handler id name args)) }
    | _ => D
  | .invoke id ackId data => { D with invoking := D.invoking ++ [(id, ackId, data)] }
  | .disconnected id reason => { D with calls := D.calls ++ [.disconnect id reason] }

def isConnected (S : Server) (id : SocketId) : Bool := (S.heap id).any Socket.connected

def hasAck (S : Server) (id : SocketId) (ackId : ℤ) : Bool := (S.heap id).any fun s => ackId ∈ s.acks

def emitNext (S : Server) (ackId : ℤ) : Emission → Server × Emission
  | .check id event args => (S, if isConnected S id then .register id ackId event args else .done)
  | .register id ackId event args => (S.registerAck id ackId, .send id ackId event args)
  | .send id ackId event args =>
    ((S.heap id).elim S fun s =>
      S.sendPacket J s.ec { type := .event, nsp := s.nsp, id := ackId, data := .arr (.str event :: args) },
      .done)
  | .done => (S, .done)

def step : Move → Option Dispatcher
  | .world l hooks handlers =>
    if D.Busy l then none
    else
      (D.world.step J l).map fun W =>
        (W.server.effects.drop D.world.server.effects.length).foldl (record l hooks handlers)
          { D with world := W }
  | .start c =>
    match D.starting c with
    | [] => none
    | e :: rest =>
      some { D with starting := Function.update D.starting c rest, calls := D.calls ++ [e] }
  | .invoke i =>
    D.invoking[i]?.map fun (id, ackId, data) =>
      let D := { D with invoking := D.invoking.eraseIdx i }
      if hasAck D.world.server id ackId then
        { D with
          world := { D.world with server := D.world.server.takeAck id ackId }
          taken := D.taken ++ [.callback id ackId data] }
      else D
  | .call i =>
    D.taken[i]?.map fun e => { D with taken := D.taken.eraseIdx i, calls := D.calls ++ [e] }
  | .emitWithAck id event args => some { D with emissions := D.emissions ++ [.check id event args] }
  | .emit i ackId =>
    D.emissions[i]?.map fun e =>
      let (S, e) := emitNext J D.world.server ackId e
      { D with world := { D.world with server := S }, emissions := D.emissions.set i e }

def Fresh : Move → Prop
  | .world l _ _ => D.world.Fresh l
  | _ => True

end Dispatcher

end Gosocketio.Server

import Gosocketio.Spec.Dispatch

/-! Broadcasts on goroutines of their own, beside the handling of CONNECT packets. A
broadcast collects the ids from the adapter, and then for each of them looks the socket
up, asks whether it is connected, and sends. -/

namespace Gosocketio.Server

/-- Where a broadcast is: before it asks the adapter, before the next of its targets,
before `Connected` in `Emit`, and before `emitEvent`. -/
inductive Cast where
  | collect (b : BroadcastOperator) (event : Bytes) (args : List Value)
  | loop (name : Bytes) (targets : List SocketId) (event : Bytes) (args : List Value)
  | emit (id : SocketId) (name : Bytes) (targets : List SocketId) (event : Bytes) (args : List Value)
  | send (id : SocketId) (name : Bytes) (targets : List SocketId) (event : Bytes) (args : List Value)

/-- The server with its broadcasts. `sent` are the sockets on whose behalf an Event
packet was sent, and `refused` those for which `rejectConnect` was called. -/
structure Traffic where
  world : World
  casts : List Cast := []
  sent : List SocketId := []
  refused : Finset SocketId := ∅

inductive Act where
  | world (l : Label)
  | joinRoom (id : SocketId) (room : Bytes)
  | leaveRoom (id : SocketId) (room : Bytes)
  | broadcast (b : BroadcastOperator) (event : Bytes) (args : List Value)
  | cast (i : ℕ) (order : List SocketId)

namespace Traffic

variable (J : Json) (T : Traffic)

/-- Whom the loop of the connection has begun to refuse. -/
def refusal (W : World) : Label → Finset SocketId
  | .process c _ =>
    match W.procs c with
    | .refuse .unregister id _ _ => {id}
    | _ => ∅
  | _ => ∅

/-- The packet that is sent, if one is, and what is left of the broadcast; `order` is
the order in which the adapter goes through its set. -/
def castNext (S : Server) (order : List SocketId) : Cast → Option (Option (SocketId × Packet) × Cast)
  | .collect b event args =>
    if Adapter.Lists order ((S.nsps b.ns).elim ∅ fun n => n.adapter.audience b.room) then
      some (none, .loop b.ns (Adapter.delivered b.except order) event args)
    else none
  | .loop _ [] _ _ => none
  | .loop name (x :: targets) event args =>
    if (S.nsps name).any (fun n => x ∈ n.sockets) then some (none, .emit x name targets event args)
    else some (none, .loop name targets event args)
  | .emit x name targets event args =>
    if Dispatcher.isConnected S x then some (none, .send x name targets event args)
    else some (none, .loop name targets event args)
  | .send x name targets event args =>
    (S.heap x).map fun s => (some (x, eventPacket s.nsp event args), .loop name targets event args)

def emitEvent (x : SocketId) (pkt : Packet) : Traffic :=
  { T with
    world := { T.world with
      server := (T.world.server.heap x).elim T.world.server fun s => T.world.server.sendPacket J s.ec pkt }
    sent := T.sent ++ [x] }

def step : Act → Option Traffic
  | .world l =>
    (T.world.step J l).map fun W => { T with world := W, refused := T.refused ∪ refusal W l }
  | .joinRoom id room =>
    some { T with world := { T.world with server := T.world.server.joinRoom id room } }
  | .leaveRoom id room =>
    some { T with world := { T.world with server := T.world.server.leaveRoom id room } }
  | .broadcast b event args => some { T with casts := T.casts ++ [.collect b event args] }
  | .cast i order =>
    (T.casts[i]?.bind (castNext T.world.server order)).map fun (pkt, rest) =>
      let T := { T with casts := T.casts.set i rest }
      pkt.elim T fun (x, pkt) => T.emitEvent J x pkt

def Fresh : Act → Prop
  | .world l => T.world.Fresh l
  | _ => True

end Traffic

end Gosocketio.Server

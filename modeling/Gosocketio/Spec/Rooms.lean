import Gosocketio.Spec.Traffic

/-! The rooms of the sockets. `JoinRoom` and `LeaveRoom` are called by middlewares and on the
goroutines of event handlers, which may run on when the socket is gone. -/

namespace Gosocketio.Server

/-- The socket that a goroutine is about to take out of the adapter, in `disconnectSocket` or
in `rejectConnect`. -/
def Job.removes : Job → Finset SocketId
  | .refuse .leave id _ _ | .tear .leave id _ => {id}
  | _ => ∅

/-- The socket that `handleConnect` is about to put into the adapter. -/
def Job.joins : Job → Finset SocketId
  | .enter .join id _ => {id}
  | _ => ∅

def World.resumed (W : World) : Label → Job
  | .process c _ => W.procs c
  | .task i _ =>
    match W.tasks[i]? with
    | some (.loop _ job _ _) => job
    | _ => .idle
  | _ => .idle

/-- The server, and the sockets that have been taken out of an adapter. -/
structure Lobby where
  traffic : Traffic
  removed : Finset SocketId := ∅

namespace Lobby

def removal (W : World) : Act → Finset SocketId
  | .world l => (W.resumed l).removes
  | _ => ∅

def joining (W : World) : Act → Finset SocketId
  | .world l => (W.resumed l).joins
  | .joinRoom id _ => {id}
  | _ => ∅

variable (J : Json) (L : Lobby)

def step (a : Act) : Option Lobby :=
  (L.traffic.step J a).map fun T =>
    { traffic := T, removed := L.removed ∪ removal L.traffic.world a }

def Fresh (a : Act) : Prop := L.traffic.Fresh a

abbrev server : Server := L.traffic.world.server

structure Initial : Prop where
  world : L.traffic.world.Initial
  rooms : ∀ name ns, L.server.nsps name = some ns → ns.adapter = {}
  removed : L.removed = ∅

end Lobby

end Gosocketio.Server

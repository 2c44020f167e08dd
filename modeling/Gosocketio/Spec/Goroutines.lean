import Gosocketio.Spec.Sections

/-! The goroutines of the server: the processing loop of each connection, calls of
`Socket.Disconnect`, and the callbacks of the Engine.IO server. Each goes from one
critical section to the next; between two of its sections those of others run. -/

namespace Gosocketio.Server

inductive Entry where
  | register
  | join
  | attach
  | mark
  | decide
  | reply
  deriving DecidableEq, Repr

inductive Refusal where
  | unregister
  | leave
  | detach
  | unmark
  | reply
  deriving DecidableEq, Repr

inductive Teardown where
  | check
  | leave
  | unmark
  | clearAcks
  | notify
  | handlers
  | detach
  deriving DecidableEq, Repr

inductive Job where
  | idle
  | process (pkt : Packet)
  | enter (k : Entry) (id : SocketId) (nsp : Bytes)
  | refuse (k : Refusal) (id : SocketId) (name msg : Bytes)
  | tear (k : Teardown) (id : SocketId) (reason : String)

section Next

variable (S : Server) (c : ConnId)

def connectReply (nsp : Bytes) (id : SocketId) : Packet :=
  { type := .connect, nsp, data := .obj [(sidKey, .str id)] }

def connectError (nsp msg : Bytes) : Packet :=
  { type := .connectError, nsp, data := .obj [(messageKey, .str msg)] }

/-- The first section of `process`, with the id that `nextSocketID` would return,
and what comes after it. -/
def start (pkt : Packet) (id : SocketId) : Option Section × Job :=
  match pkt.type with
  | .connect =>
    match S.namespaceLookup pkt.nsp with
    | none => (some (.send c (connectError pkt.nsp invalidNamespace)), .idle)
    | some ns =>
      (some (.newSocket id (namespaceName pkt.nsp) c),
        match runMiddlewares ns id (connectData pkt.data) with
        | some err => .refuse .unregister id (namespaceName pkt.nsp) err
        | none => .enter .register id pkt.nsp)
  | .disconnect =>
    (none, ((S.conns c).sockets.lookup pkt.nsp).elim .idle
      fun x => .tear .check x "client namespace disconnect")
  | .event =>
    match (S.conns c).sockets.lookup pkt.nsp, pkt.data with
    | some x, .arr (.str name :: args) => (some (.perform (.dispatch x name args pkt.id)), .idle)
    | _, _ => (none, .idle)
  | .ack =>
    match (S.conns c).sockets.lookup pkt.nsp with
    | none => (none, .idle)
    | some x =>
      (some (.perform (.invoke x pkt.id (match pkt.data with | .arr xs => xs | _ => []))), .idle)
  | _ => (none, .idle)

def enterNext (id : SocketId) (nsp : Bytes) : Entry → Option Section × Job
  | .register => (some (.register (namespaceName nsp) id), .enter .join id nsp)
  | .join => (some (.join (namespaceName nsp) id), .enter .attach id nsp)
  | .attach => (some (.attach c nsp id), .enter .mark id nsp)
  | .mark => (some (.setConnected id true), .enter .decide id nsp)
  | .decide =>
    (none, match (S.nsps (namespaceName nsp)).bind fun ns => runConnect ns id with
      | some err => .refuse .unregister id (namespaceName nsp) err
      | none => .enter .reply id nsp)
  | .reply => (some (.send c (connectReply nsp id)), .idle)

def refuseNext (id : SocketId) (name msg : Bytes) : Refusal → Option Section × Job
  | .unregister => (some (.unregister name id), .refuse .leave id name msg)
  | .leave => (some (.leave name id), .refuse .detach id name msg)
  | .detach => (some (.detach c name), .refuse .unmark id name msg)
  | .unmark => (some (.setConnected id false), .refuse .reply id name msg)
  | .reply => (some (.send c (connectError name msg)), .idle)

def tearNext (s : Socket) (id : SocketId) (reason : String) : Teardown → Option Section × Job
  | .check =>
    if (S.nsps s.nsp).any (fun n => id ∈ n.sockets) then
      (some (.unregister s.nsp id), .tear .leave id reason)
    else (none, .idle)
  | .leave => (some (.leave s.nsp id), .tear .unmark id reason)
  | .unmark => (some (.setConnected id false), .tear .clearAcks id reason)
  | .clearAcks =>
    (some (.clearAcks id),
      .tear (if reason = "server namespace disconnect" then .notify else .handlers) id reason)
  | .notify => (some (.send s.ec { type := .disconnect, nsp := s.nsp }), .tear .handlers id reason)
  | .handlers => (some (.perform (.disconnected id reason)), .tear .detach id reason)
  | .detach => (some (.detach s.ec s.nsp), .idle)

def next (fresh : SocketId) : Job → Option Section × Job
  | .idle => (none, .idle)
  | .process pkt => S.start c pkt fresh
  | .enter k id nsp => S.enterNext c id nsp k
  | .refuse k id name msg => refuseNext c id name msg k
  | .tear k id reason => (S.heap id).elim (none, .idle) fun s => S.tearNext s id reason k

def perhaps (J : Json) (l : Option Section) : Server := l.elim S (S.run J)

end Next

/-- A goroutine other than the processing loops: `onEngineData` before it pushes,
`onEngineClose` before it closes the queue, before it takes the sockets out of the
connection, and in its loop. A call of `Socket.Disconnect` is like the loop over
one socket. -/
inductive Task where
  | data (c : ConnId) (p : InPacket)
  | close (c : ConnId) (reason : String)
  | empty (c : ConnId) (reason : String)
  | loop (c : ConnId) (job : Job) (rest : List SocketId) (reason : String)
  | done

/-- The server with its goroutines. `es` is the Engine.IO socket of each
`engineConn`; `emptied`, `closed` and `accepted` record that `onEngineClose` has
taken the sockets of a connection, that it has begun for an Engine.IO socket, and
which sockets `handleConnect` has accepted. -/
structure World where
  server : Server
  es : ConnId → Option EngineId := fun _ => none
  procs : ConnId → Job := fun _ => .idle
  tasks : List Task := []
  emptied : ConnId → Bool := fun _ => false
  closed : EngineId → Bool := fun _ => false
  accepted : Finset SocketId := ∅

inductive Label where
  | onEngineConnect (es : EngineId) (c : ConnId)
  | onEngineData (es : EngineId) (c : ConnId) (p : InPacket)
  | onEngineClose (es : EngineId) (reason : String)
  | disconnect (id : SocketId)
  | pop (c : ConnId)
  | process (c : ConnId) (fresh : SocketId)
  | task (i : ℕ) (order : List SocketId)

namespace World

variable (J : Json) (W : World)

/-- The `engineConn` of an Engine.IO socket, which is `c` if a new one is made. -/
def connFor (es : EngineId) (c : ConnId) : World × ConnId :=
  match W.server.engines es with
  | some d => (W, d)
  | none => ({ W with server := W.server.enter es c, es := Function.update W.es c (some es) }, c)

/-- `handleConnect` accepts a socket when the connect handlers return no error. -/
def acceptance : Job → Job → Finset SocketId
  | .enter .decide id _, .enter .reply _ _ => {id}
  | _, _ => ∅

def runTask (i : ℕ) (order : List SocketId) : Task → Option World
  | .data c p => some { W with server := W.server.push c p, tasks := W.tasks.set i .done }
  | .close c reason =>
    some { W with server := W.server.closeQueue c, tasks := W.tasks.set i (.empty c reason) }
  | .empty c reason =>
    -- the order of an iteration over a map is not known
    if order.Perm ((W.server.conns c).sockets.entries.map Sigma.snd) then
      some { W with
        server := W.server.clearSockets c
        emptied := Function.update W.emptied c true
        tasks := W.tasks.set i (.loop c .idle order reason) }
    else none
  | .loop c .idle (x :: rest) reason =>
    some { W with tasks := W.tasks.set i (.loop c (.tear .check x reason) rest reason) }
  | .loop c job rest reason =>
    let (l, job) := W.server.next c [] job
    some { W with server := W.server.perhaps J l, tasks := W.tasks.set i (.loop c job rest reason) }
  | .done => none

def step : Label → Option World
  | .onEngineConnect es c => some (W.connFor es c).1
  | .onEngineData es c p =>
    let (W, c) := W.connFor es c
    some { W with tasks := W.tasks ++ [.data c p] }
  | .onEngineClose es reason =>
    let closed := Function.update W.closed es true
    some (match W.server.engines es with
      | none => { W with closed }
      | some c =>
        { W with
          server := W.server.remove es, closed
          tasks := W.tasks ++ [.close c (mapDisconnectReason reason)] })
  | .disconnect id =>
    let reason := "server namespace disconnect"
    (W.server.heap id).map fun s =>
      { W with tasks := W.tasks ++ [.loop s.ec (.tear .check id reason) [] reason] }
  | .pop c =>
    match W.procs c, (W.server.conns c).items with
    | .idle, p :: _ =>
      let pkt := (Gosocketio.handleIn J (W.server.conns c).recon p).2
      some { W with
        server := (W.server.pop c).reconstruct J c p
        procs := Function.update W.procs c (pkt.elim .idle .process) }
    | _, _ => none
  | .process c fresh =>
    let (l, job) := W.server.next c fresh (W.procs c)
    some { W with
      server := W.server.perhaps J l
      procs := Function.update W.procs c job
      accepted := W.accepted ∪ acceptance (W.procs c) job }
  | .task i order => W.tasks[i]?.bind (W.runTask J i order)

/-- `nextSocketID` does not repeat an id, and a new `engineConn` is new. -/
def Fresh : Label → Prop
  | .onEngineConnect _ c | .onEngineData _ c _ => W.es c = none
  | .process _ fresh => W.server.heap fresh = none
  | _ => True

structure Initial : Prop where
  heap : ∀ id, W.server.heap id = none
  conns : ∀ c, W.server.conns c = {}
  engines : ∀ es, W.server.engines es = none
  sockets : ∀ name ns, W.server.nsps name = some ns → ns.sockets = ∅
  adapter : ∀ name ns id, W.server.nsps name = some ns → ¬ ns.adapter.Has id
  idle : ∀ c, W.procs c = .idle
  tasks : W.tasks = []
  es : ∀ c, W.es c = none
  emptied : ∀ c, W.emptied c = false
  closed : ∀ es, W.closed es = false
  accepted : W.accepted = ∅

end World

end Gosocketio.Server

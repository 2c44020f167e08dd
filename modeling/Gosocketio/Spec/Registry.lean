import Gosocketio.Lib.Stacks
import Gosocketio.Spec.Server

/-! The table of namespaces of a Socket.IO server (`socketio/server.go`, `newNamespace` in
`socketio/namespace.go`) and the goroutines that use it: `namespaceFor` with its two critical
sections, the methods that register a handler with what it returns, `SetAdapterFactory`, and
`Close`. -/

namespace Gosocketio

/-- A `*namespace`: its name, the factory that made its adapter, which is `NewMemoryAdapter` if
there is none, and what was registered with it: an element says in which of the lists, and with
which function. -/
structure Registered (F H : Type) where
  name : Bytes
  adapter : Option F
  handlers : List H := []
  deriving DecidableEq

/-- What `s.mu` guards. A pointer in `nsps` is a place in `made`, the namespaces ever created. What
is recorded: `answers` are the results of `namespaceFor`, `released` the namespaces whose adapter
was closed, and `snapshots` the numbers of namespaces that calls of `Close` found. -/
structure Registry (F H : Type) where
  adapterFactory : Option F
  adapterLocked : Bool
  nsps : AList (fun _ : Bytes => ℕ)
  made : List (Registered F H)
  answers : List (Bytes × ℕ) := []
  released : List ℕ := []
  snapshots : List ℕ := []

namespace Registry

variable {F H : Type}

/-- Critical sections, and `release` the call of one adapter's `Close`. `namespaceFor` looks with
the lock held for reading (`find`), and once more with it held for writing (`create`). What is to
be registered with its result goes along. -/
inductive Op (F H : Type) where
  | find (name : Bytes) (handler : Option H)
  | create (name : Bytes) (handler : Option H)
  | register (name : Bytes) (k : ℕ) (handler : H)
  | setAdapterFactory (f : Option F)
  | snapshot (order : List ℕ)
  | release (k : ℕ)
  deriving DecidableEq

variable (s : Registry F H)

def answer (name : Bytes) (k : ℕ) (handler : Option H) :
    Registry F H × List (Op F H) × List (List (Op F H)) :=
  ({ s with answers := s.answers ++ [(name, k)] }, handler.toList.map (.register name k), [])

/-- `newNamespace`, and its entry in `nsps`. -/
def newNamespace (name : Bytes) : Registry F H :=
  { s with
    nsps := s.nsps.insert name s.made.length
    made := s.made ++ [{ name, adapter := s.adapterFactory }] }

def addHandler (k : ℕ) (n : Registered F H) (handler : H) : Registry F H :=
  { s with made := s.made.set k { n with handlers := n.handlers ++ [handler] } }

def new (adapter : Option F) : Registry F H :=
  newNamespace { adapterFactory := adapter, adapterLocked := adapter.isSome, nsps := ∅, made := [] }
    defaultNamespace

def run : Op F H → Option (Registry F H × List (Op F H) × List (List (Op F H)))
  | .find name handler =>
    match s.nsps.lookup name with
    | some k => some (s.answer name k handler)
    | none => some (s, [.create name handler], [])
  | .create name handler =>
    match s.nsps.lookup name with
    | some k => some (s.answer name k handler)
    | none => some ((s.newNamespace name).answer name s.made.length handler)
  | .register _ k handler =>
    match s.made[k]? with
    | none => none
    | some n => some (s.addHandler k n handler, [], [])
  | .setAdapterFactory f => some (if s.adapterLocked then s else { s with adapterFactory := f }, [], [])
  | .snapshot order =>
    -- the order in which the loop over the map goes is not determined
    if order.Perm (s.nsps.entries.map Sigma.snd) then
      some ({ s with snapshots := s.snapshots ++ [s.made.length] }, order.map .release, [])
    else none
  | .release k => some ({ s with released := s.released ++ [k] }, [], [])

/-- The calls of the server's methods. `namespaceFor` stands for `Namespace`, and with a handler
for `OnConnect`, `OnEvent`, `Use` and the others. -/
inductive Call (F H : Type) where
  | namespaceFor (name : Bytes) (handler : Option H)
  | registerNamespace (nsp : Bytes)
  | setAdapterFactory (f : Option F)
  | close (order : List ℕ)
  deriving DecidableEq

/-- What a call does first. A name that `RegisterNamespace` refuses is not looked up. -/
def Call.begin : Call F H → List (Op F H)
  | .namespaceFor name handler => [.find (Server.namespaceName name) handler]
  | .registerNamespace nsp =>
    if ¬[47] <+: nsp ∨ nsp.length ≤ 1 then [] else [.find (Server.namespaceName nsp) none]
  | .setAdapterFactory f => [.setAdapterFactory f]
  | .close order => [.snapshot order]

abbrev State (F H : Type) := Stacks.Threads (Registry F H) (Op F H)

inductive Act (F H : Type) where
  | call (c : Call F H)
  | go (i : ℕ)
  deriving DecidableEq

def step (w : State F H) : Act F H → Option (State F H)
  | .call c => some { w with tasks := w.tasks ++ [c.begin] }
  | .go i => Stacks.go run w i

def initial (adapter : Option F) : State F H := ⟨new adapter, []⟩

end Registry

/-- The purpose of the table: a map from names to what was registered, in which every operation is
one step. -/
structure Directory (F H : Type) where
  factory : Option F
  locked : Bool
  entries : Bytes → Option (Option F × List H)

namespace Directory

variable {F H : Type}

inductive Op (F H : Type) where
  | namespaceFor (name : Bytes)
  | register (name : Bytes) (handler : H)
  | setAdapterFactory (f : Option F)
  deriving DecidableEq

/-- The name that is looked up or made. -/
def Op.asked : Op F H → Option Bytes
  | .namespaceFor name => some name
  | _ => none

/-- What is registered under a name. -/
def Op.handlerFor (name : Bytes) : Op F H → Option H
  | .register name' handler => if name' = name then some handler else none
  | _ => none

def initial (adapter : Option F) : Directory F H :=
  { factory := adapter
    locked := adapter.isSome
    entries := fun name => if name = defaultNamespace then some (adapter, []) else none }

def step (d : Directory F H) : Op F H → Option (Directory F H)
  | .namespaceFor name =>
    some { d with entries := Function.update d.entries name (d.entries name <|> some (d.factory, [])) }
  | .register name handler =>
    (d.entries name).map fun e =>
      { d with entries := Function.update d.entries name (some (e.1, e.2 ++ [handler])) }
  | .setAdapterFactory f => some (if d.locked then d else { d with factory := f })

end Directory

namespace Registry

variable {F H : Type}

def directory (s : Registry F H) : Directory F H :=
  { factory := s.adapterFactory
    locked := s.adapterLocked
    entries := fun name =>
      ((s.nsps.lookup name).bind fun k => s.made[k]?).map fun n => (n.adapter, n.handlers) }

/-- Getting or creating a namespace, and registering something with it if there is something. -/
def registering (name : Bytes) (handler : Option H) : List (Directory.Op F H) :=
  .namespaceFor name :: handler.toList.map (.register name)

/-- What a call is for. `Close` leaves the map as it is. -/
def Call.operations : Call F H → List (Directory.Op F H)
  | .namespaceFor name handler => registering (Server.namespaceName name) handler
  | .registerNamespace nsp =>
    if ¬[47] <+: nsp ∨ nsp.length ≤ 1 then [] else registering (Server.namespaceName nsp) none
  | .setAdapterFactory f => [.setAdapterFactory f]
  | .close _ => []

/-- What a goroutine that is before a section has left to do. -/
def Op.operations : Op F H → List (Directory.Op F H)
  | .find name handler | .create name handler => registering name handler
  | .register name _ handler => [.register name handler]
  | .setAdapterFactory f => [.setAdapterFactory f]
  | .snapshot _ | .release _ => []

/-- What is done when a section is over. A `find` that finds nothing leaves it to `create`. -/
def Op.completes (s : Registry F H) : Op F H → List (Directory.Op F H)
  | .find name _ => if (s.nsps.lookup name).isSome then [.namespaceFor name] else []
  | .create name _ => [.namespaceFor name]
  | .register name _ handler => [.register name handler]
  | .setAdapterFactory f => [.setAdapterFactory f]
  | .snapshot _ | .release _ => []

def Act.called : Act F H → Option (Call F H)
  | .call c => some c
  | .go _ => none

/-- What a goroutine does to the map in a step, with the number of its call. -/
def completes (w : State F H) : Act F H → List (ℕ × Directory.Op F H)
  | .call _ => []
  | .go i =>
    match w.tasks[i]? with
    | some (op :: _) => (op.completes w.shared).map (i, ·)
    | _ => []

/-- What the calls of a run do to the map, in the order in which they do it. -/
def history : State F H → List (Act F H) → List (ℕ × Directory.Op F H) := Runs.observed step completes

end Registry

end Gosocketio

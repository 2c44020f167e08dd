import Gosocketio.Spec.Session
import Mathlib.Data.List.AList

/-! The Engine.IO server (`engineio/server.go`) with all its sessions. Each session is one of
`Gosocketio.Engine`, and their goroutines interleave in any way; what they share is the map
`clients`, in which requests find a session by its id. -/

namespace Gosocketio.Engine

structure Client where
  id : String
  state : State

/-- `Server`. The pointers in `clients` are places in `sessions`, the sockets ever created. -/
structure Clients where
  clients : AList (fun _ : String => ℕ) := ∅
  sessions : List Client := []

namespace Clients

inductive Act where
  | createSocket (id : String) (direct : Bool) (data : Bytes)
  | session (k : ℕ) (a : Engine.Act)

def nextOp (w : State) : Engine.Act → Option Op
  | .go i _ => Stacks.next? w.tasks i
  | .event _ => none

variable (s : Clients)

/-- `s.clients[id] = sock` and `delete(s.clients, sock.id)`, which goes by the id alone. -/
def enroll (k : ℕ) (id : String) : Option Op → AList (fun _ : String => ℕ)
  | some .register => s.clients.insert id k
  | some .unregister => s.clients.erase id
  | _ => s.clients

def step : Act → Option Clients
  | .createSocket id direct data =>
    some { s with sessions := s.sessions ++ [⟨id, State.created direct data⟩] }
  | .session k a =>
    match s.sessions[k]? with
    | none => none
    | some c =>
      (c.state.step a).map fun state =>
        { clients := s.enroll k c.id (nextOp c.state a), sessions := s.sessions.set k { c with state } }

def ClientsCount : ℕ := s.clients.entries.length

/-- The session is between its registration in `createSocket` and its removal in `onClose`. -/
def isLive (k : ℕ) : Bool := (s.sessions[k]?).any fun c => c.state.shared.registered

def Distinct : Act → Prop
  | .createSocket .. => True
  | .session k a => ∀ c, s.sessions[k]? = some c →
      nextOp c.state a = some .register ∨ nextOp c.state a = some .unregister →
        ∀ j d, s.sessions[j]? = some d → d.id = c.id → s.isLive j = true → j = k

/-- The map has exactly the live sessions, each under its id. -/
structure Exact : Prop where
  lookup : ∀ id k, s.clients.lookup id = some k ↔
    ∃ c, s.sessions[k]? = some c ∧ c.id = id ∧ s.isLive k = true
  count : s.ClientsCount = ((List.range s.sessions.length).filter s.isLive).length

end Clients

end Gosocketio.Engine

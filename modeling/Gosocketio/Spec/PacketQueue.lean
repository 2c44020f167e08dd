import Gosocketio.Lib.CondVar
import Gosocketio.Spec.Sections

/-! `packetQueue` (`socketio/server.go`): the read loop of an Engine.IO connection puts its
messages there, and the processing loop takes them out. Server and client use the same queue.
Its methods are critical sections of `q.mu` with the condition variable `q.cond`. -/

namespace Gosocketio

/-- `packetQueue`. What is recorded: `accepted` are the packets appended to `items`, `popped` is
what the calls of `pop` returned, with nothing for a call that was not ok. -/
structure PacketQueue where
  items : List InPacket := []
  closed : Bool := false
  accepted : List InPacket := []
  popped : List (Option InPacket) := []
  deriving DecidableEq

namespace PacketQueue

inductive Op where
  | push (p : InPacket)
  | pop
  | close
  deriving DecidableEq

def Op.waits : Op → Bool
  | .pop => true
  | _ => false

/-- `push` and `close` notify after they have released the mutex, and `push` does so even if
the queue is closed. -/
def run (q : PacketQueue) : Op → Option (CondVar.Outcome PacketQueue)
  | .push p =>
    some
      { shared :=
          if q.closed then q else { q with items := q.items ++ [p], accepted := q.accepted ++ [p] }
        after := .signal }
  | .pop =>
    match q.items with
    | [] => if q.closed then some { shared := { q with popped := q.popped ++ [none] } } else none
    | p :: items => some { shared := { q with items, popped := q.popped ++ [some p] } }
  | .close => some { shared := { q with closed := true }, after := .broadcast }

abbrev State := CondVar.State PacketQueue Op

def step : State → CondVar.Act Op → Option State := CondVar.step run

def initial : State := ⟨{}, []⟩

def Op.packet : Op → Option InPacket
  | .push p => some p
  | _ => none

/-- The section of the server's model that is the same method of a connection's queue. -/
def Op.sectionOf (c : ConnId) : Op → Server.Section
  | .push p => .push c p
  | .pop => .pop c
  | .close => .closeQueue c

end PacketQueue

end Gosocketio

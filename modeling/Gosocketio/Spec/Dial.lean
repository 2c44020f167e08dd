import Gosocketio.Lib.Runs
import Gosocketio.Lib.Stacks

/-! The handshake of an Engine.IO client (`engineio/client.go`). `Dial` waits for its context or
for what is sent to `handshakeDone`, while the goroutines of the transports and the watchdog run.
When the watchdog fires is the matter of `Pulse`; here it may at any time. -/

namespace Gosocketio.Dial

inductive Dialing (E : Type) where
  | waiting
  | returned (err : Option E)
  | cancelled
  deriving DecidableEq

/-- `closedBy` is the error that `closed` was set with, which is none for a Close packet and for
`Close`; `handshakeDone` is what the channel holds, and `opened` records that an Open packet was
parsed. -/
structure Client (E : Type) where
  opened : Bool := false
  closedBy : Option (Option E) := none
  handshakeOnce : Bool := false
  handshakeDone : Option (Option E) := none
  dial : Dialing E := .waiting
  deriving DecidableEq

/-- Sections of the client. `handleOpen` has the error of `json.Unmarshal`; `complete` is
`handshakeSucceeded`, or `handshakeFailed` with an error. -/
inductive Op (E : Type) where
  | handleOpen (err : Option E)
  | complete (err : Option E)
  | closeWithError (err : Option E)
  deriving DecidableEq

variable {E : Type}

def run (c : Client E) : Op E → Option (Client E × List (Op E) × List (List (Op E)))
  | .handleOpen (some e) => some (c, [.closeWithError (some e)], [])
  | .handleOpen none => some ({ c with opened := true }, [.complete none], [])
  | .complete err =>
    -- the channel has room for the one value that is ever sent
    some (if c.handshakeOnce then c else { c with handshakeOnce := true, handshakeDone := some err }, [], [])
  | .closeWithError err =>
    if c.closedBy.isSome then some (c, [], [])
    else some ({ c with closedBy := some err }, err.toList.map fun e => .complete (some e), [])

abbrev State (E : Type) := Stacks.Threads (Client E) (Op E)

/-- A transport has an Open or a Close packet for the client, an error or its end to report, or the
watchdog fires (`notice`, with the section it leads to); a goroutine goes on; and the two cases
of the `select` in `Dial`. -/
inductive Act (E : Type) where
  | notice (op : Op E)
  | go (i : ℕ)
  | receive
  | cancel
  deriving DecidableEq

def Op.starts : Op E → Bool
  | .complete _ => false
  | _ => true

def step (w : State E) : Act E → Option (State E)
  | .notice op => if op.starts then some { w with tasks := w.tasks ++ [[op]] } else none
  | .go i => Stacks.go run w i
  | .receive =>
    match w.shared.dial, w.shared.handshakeDone with
    | .waiting, some err => some { w with shared.dial := .returned err, shared.handshakeDone := none }
    | _, _ => none
  | .cancel =>
    match w.shared.dial with
    | .waiting =>
      -- `Close` does nothing more to a client that is closed
      some { w with shared.dial := .cancelled, shared.closedBy := w.shared.closedBy <|> some none }
    | _ => none

def initial : State E := ⟨{}, []⟩

end Gosocketio.Dial

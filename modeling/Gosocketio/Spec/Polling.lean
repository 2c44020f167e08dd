import Gosocketio.Lib.Runs
import Gosocketio.Spec.Transport

/-! The polling transport (`engineio/transport/polling.go`) with the goroutines that
work on it: the handlers of poll requests, the goroutines that watch for a lost
connection, calls of `Send`, `Close` and `Discard`, and the close timer. What its
handler does in `OnReady`, `OnError`, `OnClose` and `OnDrain` are further calls. POST
requests do not touch what is modelled here; `SetWritable` and `DrainBuffered`, which
only an upgrade calls, are left out. -/

namespace Gosocketio

open Transport

/-- The number of a poll request; its `http.Request`, its `http.ResponseWriter` and its
channel `done` go by it. -/
abbrev PollId := ℕ

/-- `Polling`. `running` is whether `closeTimer` has yet to fire. -/
structure Polling where
  req : Option PollId := none
  res : Option PollId := none
  pollDone : Option PollId := none
  writable : Bool := false
  sendBuffer : List Packet := []
  discarded : Bool := false
  closed : Bool := false
  pendingClose : Bool := false
  closeTimer : Bool := false
  running : Bool := false
  deriving DecidableEq, Repr

namespace Polling

/-- What `Send` does after its critical section: the response it writes, the channel it
closes then, and whether it goes on to close the transport. -/
structure Response where
  res : PollId
  done : Option PollId
  pkts : List Packet
  pendingClose : Bool
  deriving DecidableEq, Repr

variable (p : Polling)

/-- The first section of `onPollRequest`, when no other poll is pending, and the packets
it takes over. -/
def onPollRequest (n : PollId) : Polling × List Packet :=
  let p := { p with req := some n, res := some n, writable := true, pollDone := some n }
  if !p.closed && p.sendBuffer ≠ [] then ({ p with sendBuffer := [] }, p.sendBuffer) else (p, [])

def abort (n : PollId) : Option Polling :=
  if p.req = some n then
    some { p with req := none, res := none, pollDone := none, writable := false }
  else none

def send (pkts : List Packet) : Polling × Option Response :=
  if p.closed then (p, none)
  else
    let pkts := if p.pendingClose then pkts ++ [{ type := .close }] else pkts
    match p.res with
    | none => ({ p with writable := false, sendBuffer := p.sendBuffer ++ pkts }, none)
    | some n =>
      ({ p with writable := false, req := none, res := none, pollDone := none },
        some { res := n, done := p.pollDone, pkts, pendingClose := p.pendingClose })

def discard : Polling := { p with discarded := true }

def closeLocked : Polling × Option PollId :=
  if p.closed then (p, none)
  else
    ({ p with
      closed := true, writable := false, pendingClose := false, req := none, res := none
      sendBuffer := [], closeTimer := false, running := false, pollDone := none }, p.pollDone)

def deferClose : Polling :=
  { p with pendingClose := true, closeTimer := true, running := p.running || !p.closeTimer }

/-- What a goroutine has before it. `resend` is the `Send` of what a poll took over,
`ready` the time in which `OnReady` runs, `await` the receive from `done`, and `watch` the
`select` of the goroutine that a poll starts. -/
inductive Op where
  | send (pkts : List Packet)
  | resend (pkts : List Packet)
  | write (r : Response)
  | closeDone (n : PollId)
  | notifyClose
  | close
  | ready
  | checkPending
  | await (n : PollId)
  | watch (n : PollId)
  | badRequest (n : PollId)
  | ret (n : PollId)
  deriving DecidableEq, Repr

def Response.rest (r : Response) : List Op :=
  r.done.toList.map .closeDone ++ if r.pendingClose then [.notifyClose] else []

/-- What happens to the response and the channel of a poll. -/
inductive Event where
  | wrote (n : PollId) (pkts : Option (List Packet))
  | closedDone (n : PollId)
  | returned (n : PollId)
  deriving DecidableEq, Repr

/-- `polls` is how many poll requests there were. `given` are the packets that were
passed to `Send`, `taken` those that a `Send` took a response for. -/
structure State where
  p : Polling := {}
  goroutines : List (List Op) := []
  polls : ℕ := 0
  log : List Event := []
  given : List Packet := []
  taken : List (PollId × List Packet) := []
  deriving DecidableEq, Repr

inductive Act where
  | poll
  | send (pkts : List Packet)
  | close
  | discard
  | timer
  | cancel (i : ℕ)
  | nested (i : ℕ) (pkts : List Packet)
  | go (i : ℕ)
  deriving DecidableEq, Repr

namespace State

variable (s : State)

def spawn (ops : List Op) : State := { s with goroutines := s.goroutines ++ [ops] }

def sends (pkts : List Packet) : State × List Op :=
  match s.p.send pkts with
  | (p, none) => ({ s with p }, [])
  | (p, some r) => ({ s with p, taken := s.taken ++ [(r.res, r.pkts)] }, [.write r])

def run : Op → Option (State × List Op)
  | .send pkts => some ({ s with given := s.given ++ pkts }.sends pkts)
  | .resend pkts => some (s.sends pkts)
  | .write r => some ({ s with log := s.log ++ [.wrote r.res (some r.pkts)] }, r.rest)
  | .closeDone n => some ({ s with log := s.log ++ [.closedDone n] }, [])
  | .notifyClose =>
    let (p, done) := s.p.closeLocked
    some ({ s with p, log := s.log ++ done.toList.map .closedDone }, [])
  | .close =>
    if s.p.closed then some (s, [])
    else if s.p.discarded then some (s, [.notifyClose])
    else if s.p.writable then some (s, [.send [{ type := .close }], .notifyClose])
    else some ({ s with p := s.p.deferClose }, [])
  | .ready => some (s, [])
  | .checkPending =>
    some (s, if s.p.pendingClose && !s.p.closed then [.send [{ type := .noop }]] else [])
  | .await n =>
    if .closedDone n ∈ s.log then some ({ s with log := s.log ++ [.returned n] }, []) else none
  | .watch n => if .closedDone n ∈ s.log then some (s, []) else none
  | .badRequest n => some ({ s with log := s.log ++ [.wrote n none] }, [.ret n])
  | .ret n => some ({ s with log := s.log ++ [.returned n] }, [])

def poll : State :=
  let n := s.polls
  let s := { s with polls := s.polls + 1 }
  if s.p.req ≠ none then s.spawn [.badRequest n]
  else
    let (p, buffered) := s.p.onPollRequest n
    ({ s with p }.spawn [.watch n]).spawn
      [.ready, if buffered ≠ [] then .resend buffered else .checkPending, .await n]

def step : Act → Option State
  | .poll => some s.poll
  | .send pkts => some (s.spawn [.send pkts])
  | .close => some (s.spawn [.close])
  | .discard => some { s with p := s.p.discard }
  | .timer =>
    if s.p.running then some ({ s with p := { s.p with running := false } }.spawn [.notifyClose])
    else none
  | .cancel i =>
    match s.goroutines[i]? with
    | some (.watch n :: rest) =>
      match s.p.abort n with
      | some p => some { s with p, goroutines := s.goroutines.set i (.closeDone n :: rest) }
      | none => some { s with goroutines := s.goroutines.set i rest }
    | _ => none
  | .nested i pkts =>
    match s.goroutines[i]? with
    | some (.ready :: rest) =>
      some { s with goroutines := s.goroutines.set i (.send pkts :: .ready :: rest) }
    | _ => none
  | .go i =>
    match s.goroutines[i]? with
    | some (op :: rest) =>
      (s.run op).map fun (s, ops) => { s with goroutines := s.goroutines.set i (ops ++ rest) }
    | _ => none

end State

end Polling

end Gosocketio

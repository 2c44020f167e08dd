import Gosocketio.Spec.Session

/-! The heartbeat of a session (`engineio/socket.go`): the session together with its ping
timers. Each operation of the session does to them what its critical section does. A timer
that is overwritten but not stopped keeps running. Operations done for an event of an upgrade
candidate say so. -/

namespace Gosocketio.Engine

open Transport
open EngineSocket (Tport)

/-- What a ping timer calls. The timer for `pingTimeoutHandler` is armed after a Ping: `ping` is
the number of that Ping, or nothing if the session did not queue it. -/
inductive Alarm where
  | pingHandler
  | pingTimeoutHandler (ping : Option ℕ)
  deriving DecidableEq, Repr

def Alarm.op : Alarm → Op
  | .pingHandler => .pingHandler
  | .pingTimeoutHandler _ => .pingTimeoutHandler

/-- The Ping has no Pong yet, when the Pings up to `answered` have one. -/
def Alarm.overdue (answered : ℕ) : Alarm → Bool
  | .pingTimeoutHandler (some ping) => answered < ping
  | _ => false

structure Timer where
  alarm : Alarm
  running : Bool := true
  deriving DecidableEq, Repr

/-- Whether it is a Ping with the data "probe": any other event settles an upgrade. -/
def Notice.probe : Notice → Bool
  | .packet p => p.type = .ping ∧ p.data = [112, 114, 111, 98, 101]
  | .error | .close => false

/-- What a goroutine has before it: an operation of the session, or a critical section that
only arms a timer: the one of `schedulePing`, the last of `pingHandler`, the last of
`onUpgrade`. -/
inductive Duty where
  | session (op : Op)
  | schedulePing
  | armTimeout (ping : Option ℕ)
  | resume
  deriving DecidableEq, Repr

/-- `source` is the event of an upgrade candidate for which it is done: the candidate, and how
many of its terminal events came before. -/
structure Job where
  duty : Duty
  source : Option (ℕ × ℕ) := none
  deriving DecidableEq, Repr

/-- A session with the timers it ever armed. What is recorded: `pings` is the number of Pings
queued, `answered` what it was when the last Pong was processed, `late` whether a timeout fired
for a Ping without a Pong since. `terminals` are the terminal events that upgrade candidates
reported, each given by its candidate; `undecided` are the candidates for which `upgrading` was
set and whose first terminal event has not acted on it. -/
structure Heart where
  session : Session
  timers : List Timer := []
  pingIntervalTimer : Option ℕ := none
  pingTimeoutTimer : Option ℕ := none
  pings : ℕ := 0
  answered : ℕ := 0
  late : Bool := false
  terminals : List ℕ := []
  undecided : List ℕ := []
  deriving DecidableEq, Repr

namespace Heart

variable (h : Heart)

def stop (timer : Option ℕ) : Heart :=
  { h with timers := timer.elim h.timers fun i => h.timers.modify i fun t => { t with running := false } }

def stopTimers : Heart := (h.stop h.pingIntervalTimer).stop h.pingTimeoutTimer

def armInterval : Heart :=
  { h with
    timers := h.timers ++ [{ alarm := .pingHandler }], pingIntervalTimer := some h.timers.length }

def armTimeout (ping : Option ℕ) : Heart :=
  { h with
    timers := h.timers ++ [{ alarm := .pingTimeoutHandler ping }]
    pingTimeoutTimer := some h.timers.length }

/-- The first terminal event of a candidate decides it. -/
def settle (source : Option (ℕ × ℕ)) : Heart :=
  match source with
  | some (k, 0) => { h with undecided := h.undecided.filter (· ≠ k) }
  | _ => h

def restart : Heart := if h.session.readyState = .opened then h.armInterval else h

def refuses : Bool := h.session.readyState = .closing ∨ h.session.readyState = .closed

/-- What an operation of the session does to the timers and to what is recorded. -/
def beat (source : Option (ℕ × ℕ)) : Op → Heart
  | .onPacket p =>
    if p.type = .pong ∧ h.session.readyState = .opened then
      { h.stopTimers.armInterval with answered := h.pings }
    else h
  | .pingHandler => if h.session.readyState ≠ .closed ∧ h.session.upgrading then h.armInterval else h
  | .sendPacket p => if p.type = .ping ∧ ¬h.refuses then { h with pings := h.pings + 1 } else h
  | .closeWithReason _ => if h.session.readyState = .closed then h else h.stopTimers
  | .maybeUpgrade k =>
    if h.session.upgrading ∨ h.session.upgraded ∨ h.session.readyState ≠ .opened then h
    else
      { h.stopTimers with
        pingIntervalTimer := none, pingTimeoutTimer := none, undecided := h.undecided ++ [k] }
  | .notify k n =>
    if h.session.handler k = some .upgradeHandler ∧ ¬n.probe then
      { h with terminals := h.terminals ++ [k] }
    else h
  | .switch _ => h.settle source
  | .abort => (h.settle source).restart
  | _ => h

def next (source : Option (ℕ × ℕ)) (op : Op) (session : Session) : Heart :=
  { h.beat source op with session }

/-- What a goroutine does after an operation and all that it leaves to be done. Only
`pingHandler` sends a Ping. -/
def after : Op → List Duty
  | .sendPacket p =>
    if p.type = .ping then [.armTimeout (if h.refuses then none else some (h.pings + 1))] else []
  | .switch _ => if h.session.readyState = .closed then [] else [.resume]
  | _ => []

/-- For which event `op'` is done when `op` leaves it. Events for the session itself are not a
candidate's. -/
def sourceOf (source : Option (ℕ × ℕ)) (op op' : Op) : Option (ℕ × ℕ) :=
  match op', op with
  | .onPacket _, _ | .onErrorFrom _, _ | .onCloseFrom _, _ => none
  | _, .notify k _ => some (k, h.terminals.count k)
  | _, _ => source

def jobs (source : Option (ℕ × ℕ)) (op : Op) (ops : List Op) : List Job :=
  ops.map (fun op' => ⟨.session op', h.sourceOf source op op'⟩) ++ (h.after op).map (⟨·, source⟩)

def fork (ops : List Op) : List Job := ops.map fun op => ⟨.session op, none⟩

/-- The next thing a goroutine does; what it has to do before the rest, and the goroutines it
starts. -/
def run (c : Choice) (j : Job) : Option (Heart × List Job × List (List Job)) :=
  match j.duty with
  | .session op =>
    (h.session.run c op).map fun (session, ops, new) =>
      (h.next j.source op session, h.jobs j.source op ops, new.map fork)
  | .schedulePing => some (h.armInterval, [], [])
  | .armTimeout ping => some (h.armTimeout ping, [], [])
  | .resume => some (h.restart, [], [])

end Heart

namespace Heartbeat

abbrev State := Stacks.Threads Heart Job

/-- `event` is not a ping timer: those are `fire`. -/
inductive Act where
  | go (i : ℕ) (c : Choice)
  | event (e : Event)
  | fire (i : ℕ)
  deriving DecidableEq, Repr

def step (w : State) : Act → Option State
  | .go i c => Stacks.go (fun h => h.run c) w i
  | .event e =>
    if e = .pingInterval ∨ e = .pingTimeout then none
    else
      (w.shared.session.occurs e).map fun (session, new) =>
        ⟨{ w.shared with session }, w.tasks ++ new.map Heart.fork⟩
  | .fire i =>
    match w.shared.timers[i]? with
    | some ⟨alarm, true⟩ =>
      some ⟨{ w.shared.stop (some i) with late := w.shared.late || alarm.overdue w.shared.answered },
        w.tasks ++ [Heart.fork [alarm.op]]⟩
    | _ => none

/-- An open session on which nothing was sent yet; `open` has still to call `schedulePing`. -/
def opened (direct : Bool) : State where
  shared := { session := (Engine.State.opened direct).shared }
  tasks := [⟨.schedulePing, none⟩] :: (Engine.State.opened direct).tasks.map Heart.fork

end Heartbeat

end Gosocketio.Engine

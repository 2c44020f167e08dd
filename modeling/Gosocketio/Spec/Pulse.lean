import Gosocketio.Lib.Runs
import Mathlib.Algebra.Ring.Nat

/-! The heartbeat of a session in time, on both sides: `open`, `schedulePing`, `pingHandler`,
`pingTimeoutHandler`, the handling of a Pong and what `MaybeUpgrade` does to the timers on the
server (`engineio/socket.go`), `handleOpen`, the handling of a Ping and `resetNoPingTimeout` on
the client (`engineio/client.go`). A step is one critical section, a timer that fires, a packet
that arrives or is lost, or a nanosecond that passes. Nobody calls `Close`. -/

namespace Gosocketio

/-- The durations, in nanoseconds: the options of the server, and those of the client. None is
negative, and a `time.Duration` holds each. -/
structure Timing where
  pingInterval : ℕ
  pingTimeout : ℕ
  clientPingInterval : ℕ := 25000000000
  clientPingTimeout : ℕ := 20000000000
  pingInterval_lt : pingInterval < 2 ^ 63 := by decide
  pingTimeout_lt : pingTimeout < 2 ^ 63 := by decide
  clientPingInterval_lt : clientPingInterval < 2 ^ 63 := by decide
  clientPingTimeout_lt : clientPingTimeout < 2 ^ 63 := by decide
  deriving DecidableEq, Repr

namespace Timing

variable (o : Timing)

def millisecond : ℕ := 1000000

/-- `openPacketData` announces a duration in milliseconds, and `handleOpen` converts it back. -/
def announced (d : ℕ) : ℕ := d / millisecond * millisecond

/-- How long `resetNoPingTimeout` waits. A zero stands for the client's own option. A sum that
wraps around is negative, and `time.AfterFunc` does not wait then. -/
def watchdog : ℕ :=
  let sum :=
    (if announced o.pingInterval = 0 then o.clientPingInterval else announced o.pingInterval) +
      (if announced o.pingTimeout = 0 then o.clientPingTimeout else announced o.pingTimeout)
  if sum < 2 ^ 63 then sum else 0

end Timing

namespace Pulse

inductive Beat where
  | open_
  | ping
  deriving DecidableEq, Repr

/-- What a goroutine of the server does next: `open` after it has sent its packet; `pingHandler`
before it looks at the state, before it sends, and before it arms the timeout; and
`pingTimeoutHandler`. -/
inductive Stage where
  | schedulePing
  | pingHandler
  | sendPing
  | armTimeout
  | pingTimeoutHandler
  deriving DecidableEq, Repr

/-- A timer is given by the time at which it fires, a goroutine by the time since when it can go
on, a packet by the time at which it was sent. `strays` are the timers that were overwritten
and not stopped. `resuming` are the calls of `onUpgrade` that have switched the transports and not
armed the interval. The client's read loop is `resetting` between the two sections of a Ping;
`expired` are the goroutines of its timer. It is recorded whether there was an upgrade that was
not refused (`probed`), and when a Pong was last processed, the interval armed after an upgrade,
and the client's watchdog reset. -/
structure State where
  now : ℕ := 0
  closed : Bool := false
  pingIntervalTimer : Option ℕ := none
  pingTimeoutTimer : Option ℕ := none
  strays : List (ℕ × Stage) := []
  handlers : List (ℕ × Stage) := []
  upgrading : Bool := false
  upgraded : Bool := false
  resuming : ℕ := 0
  clientClosed : Bool := false
  noPingTimeoutTimer : Option ℕ := none
  expired : List ℕ := []
  resetting : Option ℕ := none
  toClient : List (ℕ × Beat) := []
  toServer : List ℕ := []
  probed : Bool := false
  lastPong : ℕ := 0
  lastResume : ℕ := 0
  lastReset : Option ℕ := none
  deriving DecidableEq, Repr

inductive Act where
  | tick
  | fireInterval
  | fireTimeout
  | fireStray (i : ℕ)
  | handler (i : ℕ)
  | maybeUpgrade
  | onUpgrade
  | resume
  | onAbort
  | pong
  | receive
  | reset
  | fireWatchdog
  | expire (i : ℕ)
  | loseToClient (i : ℕ)
  | loseToServer (i : ℕ)
  deriving DecidableEq, Repr

def initial : State := { handlers := [(0, .schedulePing)], toClient := [(0, .open_)] }

section Step

variable (o : Timing) (s : State)

def spawn (stage : Stage) : State := { s with handlers := s.handlers ++ [(s.now, stage)] }

def armInterval : State :=
  { s with
    strays := s.strays ++ s.pingIntervalTimer.toList.map (·, .pingHandler)
    pingIntervalTimer := some (s.now + o.pingInterval) }

def armTimeout : State :=
  { s with
    strays := s.strays ++ s.pingTimeoutTimer.toList.map (·, .pingTimeoutHandler)
    pingTimeoutTimer := some (s.now + o.pingTimeout) }

/-- The Pong case of `onPacket`, which stops both timers. -/
def onPong : State :=
  if s.closed then s
  else
    { s with
      pingTimeoutTimer := none, pingIntervalTimer := some (s.now + o.pingInterval), lastPong := s.now }

/-- The heartbeat is paused while the probe is under way. -/
def maybeUpgrade : State :=
  if s.upgrading || s.upgraded || s.closed then s
  else { s with upgrading := true, probed := true, pingIntervalTimer := none, pingTimeoutTimer := none }

/-- `onUpgrade` as far as the switch of the transports. -/
def onUpgrade : State :=
  if s.closed then s else { s with upgrading := false, upgraded := true, resuming := s.resuming + 1 }

/-- The end of `onUpgrade` and of `onAbort`. -/
def resume : State := if s.closed then s else { armInterval o s with lastResume := s.now }

def close : State := { s with closed := true, pingIntervalTimer := none, pingTimeoutTimer := none }

/-- A goroutine of the server, which is no longer among the `handlers`. A Ping that is sent
during an upgrade waits in the buffer: for the client it is late. -/
def stageNext : Stage → State
  | .schedulePing => armInterval o s
  | .pingHandler =>
    if s.closed then s else if s.upgrading then armInterval o s else spawn s .sendPing
  | .sendPing =>
    spawn (if s.closed then s else { s with toClient := s.toClient ++ [(s.now, .ping)] }) .armTimeout
  | .armTimeout => armTimeout o s
  | .pingTimeoutHandler => if s.closed then s else close s

def onBeat : Beat → State
  | .open_ => { s with resetting := some s.now }
  | .ping =>
    { s with toServer := if s.clientClosed then s.toServer else s.toServer ++ [s.now], resetting := some s.now }

def resetNext : State :=
  if s.clientClosed then { s with resetting := none }
  else
    { s with
      resetting := none, noPingTimeoutTimer := some (s.now + o.watchdog), lastReset := some s.now }

def step : Act → Option State
  | .tick => some { s with now := s.now + 1 }
  | .fireInterval =>
    match s.pingIntervalTimer with
    | none => none
    | some d => if d ≤ s.now then some (spawn { s with pingIntervalTimer := none } .pingHandler) else none
  | .fireTimeout =>
    match s.pingTimeoutTimer with
    | none => none
    | some d =>
      if d ≤ s.now then some (spawn { s with pingTimeoutTimer := none } .pingTimeoutHandler) else none
  | .fireStray i =>
    match s.strays[i]? with
    | none => none
    | some (d, stage) =>
      if d ≤ s.now then some (spawn { s with strays := s.strays.eraseIdx i } stage) else none
  | .handler i =>
    match s.handlers[i]? with
    | none => none
    | some (_, stage) => some (stageNext o { s with handlers := s.handlers.eraseIdx i } stage)
  | .maybeUpgrade => some (maybeUpgrade s)
  -- a candidate may report the end of the upgrade more than once
  | .onUpgrade => if s.probed then some (onUpgrade s) else none
  | .resume => if 0 < s.resuming then some (resume o { s with resuming := s.resuming - 1 }) else none
  | .onAbort => if s.probed then some (resume o { s with upgrading := false }) else none
  | .pong =>
    match s.toServer with
    | [] => none
    | _ :: toServer => some (onPong o { s with toServer })
  | .receive =>
    match s.resetting, s.toClient with
    | none, (_, b) :: toClient => some (onBeat { s with toClient } b)
    | _, _ => none
  | .reset =>
    match s.resetting with
    | none => none
    | some _ => some (resetNext o s)
  | .fireWatchdog =>
    match s.noPingTimeoutTimer with
    | none => none
    | some d =>
      if d ≤ s.now then some { s with noPingTimeoutTimer := none, expired := s.expired ++ [s.now] } else none
  | .expire i =>
    if i < s.expired.length then
      some { s with expired := s.expired.eraseIdx i, clientClosed := true, noPingTimeoutTimer := none }
    else none
  | .loseToClient i => some { s with toClient := s.toClient.eraseIdx i }
  | .loseToServer i => some { s with toServer := s.toServer.eraseIdx i }

end Step

/-- A timer fires when it is due, and a goroutine that can go on does within `latency`. -/
structure Prompt (latency : ℕ) (s : State) : Prop where
  interval : ∀ d ∈ s.pingIntervalTimer, s.now < d
  timeout : ∀ d ∈ s.pingTimeoutTimer, s.now < d
  strays : ∀ t ∈ s.strays, s.now < t.1
  watchdog : ∀ d ∈ s.noPingTimeoutTimer, s.now < d
  handlers : ∀ t ∈ s.handlers, s.now < t.1 + latency
  expired : ∀ t ∈ s.expired, s.now < t + latency
  resetting : ∀ t ∈ s.resetting, s.now < t + latency

/-- Packets arrive within a given time. -/
structure Carried (down up : ℕ) (s : State) : Prop where
  toClient : ∀ m ∈ s.toClient, s.now < m.1 + down
  toServer : ∀ t ∈ s.toServer, s.now < t + up

/-- Time passes only as far as the runtime lets it. -/
def Timely (latency : ℕ) (s : State) : Act → Prop
  | .tick => Prompt latency s
  | _ => True

/-- The connection is in order: packets arrive, none is lost, and no upgrade begins. A Pong is not
processed before the `pingHandler` that sent the Ping has armed its timeout, which nothing but the
time that the packets take sees to. -/
def Healthy (latency down up : ℕ) (s : State) : Act → Prop
  | .tick => Prompt latency s ∧ Carried down up s
  | .pong => ∀ t ∈ s.handlers, t.2 ≠ .armTimeout
  | .loseToClient _ | .loseToServer _ | .maybeUpgrade => False
  | _ => True

end Pulse

end Gosocketio

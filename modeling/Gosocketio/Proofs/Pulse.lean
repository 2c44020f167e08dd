import Gosocketio.Spec.Pulse
import Mathlib.Tactic.Common

/-! The heartbeat does what it is for. A connection that answers in time is kept by both sides;
and an end that hears nothing from the other closes the session in bounded time. -/

namespace Gosocketio.Pulse

open Runs

variable {o : Timing} {s s' : State} {l : Act} {ls : List Act} {latency down up : ℕ} {stage : Stage}
  {x : ℕ × Stage} {d : ℕ}

inductive Move (o : Timing) (s : State) : Act → State → Prop
  | tick : Move o s .tick { s with now := s.now + 1 }
  | fireInterval {d : ℕ} : s.pingIntervalTimer = some d → d ≤ s.now →
      Move o s .fireInterval (spawn { s with pingIntervalTimer := none } .pingHandler)
  | fireTimeout {d : ℕ} : s.pingTimeoutTimer = some d → d ≤ s.now →
      Move o s .fireTimeout (spawn { s with pingTimeoutTimer := none } .pingTimeoutHandler)
  | fireStray {i d : ℕ} {stage : Stage} : s.strays[i]? = some (d, stage) → d ≤ s.now →
      Move o s (.fireStray i) (spawn { s with strays := s.strays.eraseIdx i } stage)
  | handler {i t : ℕ} {stage : Stage} : s.handlers[i]? = some (t, stage) →
      Move o s (.handler i) (stageNext o { s with handlers := s.handlers.eraseIdx i } stage)
  | maybeUpgrade : Move o s .maybeUpgrade (maybeUpgrade s)
  | onUpgrade : s.probed = true → Move o s .onUpgrade (onUpgrade s)
  | resume : 0 < s.resuming → Move o s .resume (resume o { s with resuming := s.resuming - 1 })
  | onAbort : s.probed = true → Move o s .onAbort (resume o { s with upgrading := false })
  | pong {r : ℕ} {toServer : List ℕ} : s.toServer = r :: toServer →
      Move o s .pong (onPong o { s with toServer })
  | receive {t : ℕ} {b : Beat} {toClient : List (ℕ × Beat)} : s.resetting = none →
      s.toClient = (t, b) :: toClient → Move o s .receive (onBeat { s with toClient } b)
  | reset {t : ℕ} : s.resetting = some t → Move o s .reset (resetNext o s)
  | fireWatchdog {d : ℕ} : s.noPingTimeoutTimer = some d → d ≤ s.now →
      Move o s .fireWatchdog { s with noPingTimeoutTimer := none, expired := s.expired ++ [s.now] }
  | expire {i : ℕ} : i < s.expired.length → Move o s (.expire i)
        { s with expired := s.expired.eraseIdx i, clientClosed := true, noPingTimeoutTimer := none }
  | loseToClient (i : ℕ) : Move o s (.loseToClient i) { s with toClient := s.toClient.eraseIdx i }
  | loseToServer (i : ℕ) : Move o s (.loseToServer i) { s with toServer := s.toServer.eraseIdx i }

theorem move_of_step (h : step o s l = some s') : Move o s l s' := by
  cases l with
  | tick | loseToClient | loseToServer | maybeUpgrade =>
    cases h
    constructor
  | expire | onUpgrade | resume | onAbort =>
    rw [step] at h
    split_ifs at h with hok
    cases h
    constructor
    exact hok
  | receive =>
    rw [step] at h
    split at h
    · cases h
      exact .receive ‹_› ‹_›
    · cases h
  | fireInterval | fireTimeout | fireStray | fireWatchdog =>
    rw [step] at h
    split at h
    · cases h
    · split_ifs at h with hdue
      cases h
      constructor
      · assumption
      · exact hdue
  | handler | pong | reset =>
    rw [step] at h
    split at h
    · cases h
    · cases h
      constructor
      assumption

section Alive

variable {t : ℕ} {r : ℕ}

/-- Where the server is between two Pings, given by its goroutines, its timers, the times of the
Pings and of the Pongs under way, and the time by which the next Ping reaches the client. -/
inductive Beating (o : Timing) (latency down up now : ℕ) :
    List (ℕ × Stage) → Option ℕ → Option ℕ → List ℕ → List ℕ → ℕ → Prop
  | start : now ≤ latency →
      Beating o latency down up now [(0, .schedulePing)] none none [] [] (o.pingInterval + 3 * latency + down)
  | wait (p : ℕ) : now ≤ p → Beating o latency down up now [] (some p) none [] [] (p + 2 * latency + down)
  | due (t : ℕ) : now ≤ t + latency →
      Beating o latency down up now [(t, .pingHandler)] none none [] [] (t + 2 * latency + down)
  | send (t : ℕ) : now ≤ t + latency →
      Beating o latency down up now [(t, .sendPing)] none none [] [] (t + latency + down)
  | sent (t : ℕ) : t ≤ now → now ≤ t + down →
      Beating o latency down up now [(t, .armTimeout)] none none [t] [] (t + down)
  | pinged (t d : ℕ) : now ≤ t + down → t + o.pingTimeout ≤ d →
      Beating o latency down up now [] none (some d) [t] [] (t + down)
  | early (t r : ℕ) : t ≤ now → r ≤ t + down → now ≤ r + up →
      Beating o latency down up now [(t, .armTimeout)] none none [] [r]
        (r + up + o.pingInterval + 2 * latency + down)
  | answered (t r d : ℕ) : r ≤ t + down → now ≤ r + up → t + o.pingTimeout ≤ d →
      Beating o latency down up now [] none (some d) [] [r] (r + up + o.pingInterval + 2 * latency + down)

/-- Where the client is, when the next Ping reaches it by `next`: before the Open packet, between
a packet and the reset of the watchdog, or after it. -/
inductive Guarding (o : Timing) (latency down up now next : ℕ) :
    List (ℕ × Beat) → Option ℕ → Option ℕ → Prop
  | opening : now ≤ down → next ≤ o.pingInterval + down + up + 3 * latency →
      Guarding o latency down up now next [(0, .open_)] none none
  | resetting (r : ℕ) (d : Option ℕ) : r ≤ now → now ≤ r + latency →
      next ≤ r + o.pingInterval + down + up + 3 * latency → (∀ x ∈ d, r + latency < x) →
      Guarding o latency down up now next [] (some r) d
  | guarded (d : ℕ) : next + latency < d → Guarding o latency down up now next [] none (some d)

def Calm (upgrading probed : Bool) (resuming : ℕ) : Prop := upgrading = false ∧ probed = false ∧ resuming = 0

/-- Neither side is closed, or about to be. -/
structure Alive (o : Timing) (latency down up : ℕ) (s : State) : Prop where
  closed : s.closed = false
  clientClosed : s.clientClosed = false
  calm : Calm s.upgrading s.probed s.resuming
  strays : s.strays = []
  expired : s.expired = []
  beating : ∃ opening pings next, s.toClient = opening ++ pings.map (·, .ping) ∧
    Beating o latency down up s.now s.handlers s.pingIntervalTimer s.pingTimeoutTimer pings s.toServer next ∧
    Guarding o latency down up s.now next opening s.resetting s.noPingTimeoutTimer

section Beating

variable {now next : ℕ} {handlers : List (ℕ × Stage)} {interval timeout : Option ℕ} {pings pongs : List ℕ}

section

variable (h : Beating o latency down up now handlers interval timeout pings pongs next)

include h

theorem Beating.tick
    (hhandlers : ∀ t ∈ handlers, now < t.1 + latency) (hinterval : ∀ p ∈ interval, now < p)
    (hpings : ∀ t ∈ pings, now < t + down) (hpongs : ∀ t ∈ pongs, now < t + up) :
    Beating o latency down up (now + 1) handlers interval timeout pings pongs next := by
  cases h with
  | start _ => exact .start (Nat.succ_le_of_lt (by simpa using hhandlers))
  | wait p _ => exact .wait p (Nat.succ_le_of_lt (by simpa using hinterval))
  | due t _ => exact .due t (Nat.succ_le_of_lt (by simpa using hhandlers))
  | send t _ => exact .send t (Nat.succ_le_of_lt (by simpa using hhandlers))
  | sent t ht _ => exact .sent t (Nat.le_succ_of_le ht) (Nat.succ_le_of_lt (by simpa using hpings))
  | pinged t d _ hd => exact .pinged t d (Nat.succ_le_of_lt (by simpa using hpings)) hd
  | early t r ht hr _ => exact .early t r (Nat.le_succ_of_le ht) hr (Nat.succ_le_of_lt (by simpa using hpongs))
  | answered t r d hr _ hd => exact .answered t r d hr (Nat.succ_le_of_lt (by simpa using hpongs)) hd

theorem Beating.now_le :
    now ≤ next := by
  cases h <;> omega

end

theorem Beating.lt_timeout (hrtt : down + up < o.pingTimeout)
    (h : Beating o latency down up now handlers interval (some d) pings pongs next) : now < d := by
  cases h with
  | pinged | answered => omega

theorem Beating.fire {p : ℕ} (hp : p ≤ now)
    (h : Beating o latency down up now handlers (some p) timeout pings pongs next) :
    Beating o latency down up now (handlers ++ [(now, .pingHandler)]) none timeout pings pongs next := by
  cases h with
  | wait _ hnow =>
    obtain rfl : p = now := le_antisymm hp hnow
    exact .due p (Nat.le_add_right p latency)

theorem Beating.pong (harmed : ∀ t ∈ handlers, t.2 ≠ .armTimeout)
    (h : Beating o latency down up now handlers interval timeout pings (r :: pongs) next) :
    ∃ next' ≤ next,
    Beating o latency down up now handlers (some (now + o.pingInterval)) none pings pongs next' := by
  cases h with
  | early t _ _ _ _ => simp at harmed
  | answered t _ d _ hnow _ =>
    exact ⟨now + o.pingInterval + 2 * latency + down, by omega, .wait _ (Nat.le_add_right now _)⟩

theorem Beating.ping
    (h : Beating o latency down up now handlers interval timeout (t :: pings) pongs next) :
    Beating o latency down up now handlers interval timeout pings (pongs ++ [now])
    (now + up + o.pingInterval + 2 * latency + down) := by
  cases h with
  | sent _ ht hnow => exact .early t now ht hnow (Nat.le_add_right now up)
  | pinged _ d hnow hd => exact .answered t now d hnow (Nat.le_add_right now up) hd

theorem Beating.handlers_eq {i : ℕ} (hi : handlers[i]? = some x)
    (h : Beating o latency down up now handlers interval timeout pings pongs next) : i = 0 ∧ handlers = [x] := by
  cases h with
  | wait | pinged | answered => simp at hi
  | start | due | send | sent | early =>
    cases i with
    | zero => exact ⟨rfl, by rw [← Option.some.inj hi]⟩
    | succ i => simp at hi

theorem Beating.schedulePing
    (h : Beating o latency down up now [(t, .schedulePing)] interval timeout pings pongs next) :
    interval = none ∧ ∃ next' ≤ next,
    Beating o latency down up now [] (some (now + o.pingInterval)) timeout pings pongs next' := by
  cases h with
  | start hnow =>
    exact ⟨rfl, now + o.pingInterval + 2 * latency + down, by omega, .wait _ (Nat.le_add_right now _)⟩

theorem Beating.pingHandler
    (h : Beating o latency down up now [(t, .pingHandler)] interval timeout pings pongs next) :
    ∃ next' ≤ next, Beating o latency down up now [(now, .sendPing)] interval timeout pings pongs next' := by
  cases h with
  | due _ hnow => exact ⟨now + latency + down, by omega, .send now (Nat.le_add_right now latency)⟩

theorem Beating.sendPing
    (h : Beating o latency down up now [(t, .sendPing)] interval timeout pings pongs next) :
    ∃ next' ≤ next,
    Beating o latency down up now [(now, .armTimeout)] interval timeout (pings ++ [now]) pongs next' := by
  cases h with
  | send _ hnow => exact ⟨now + down, by omega, .sent now le_rfl (Nat.le_add_right now down)⟩

theorem Beating.armTimeout
    (h : Beating o latency down up now [(t, .armTimeout)] interval timeout pings pongs next) :
    timeout = none ∧
    Beating o latency down up now [] interval (some (now + o.pingTimeout)) pings pongs next := by
  cases h with
  | sent _ ht hnow => exact ⟨rfl, .pinged t _ hnow (by omega)⟩
  | early _ r ht hr hnow => exact ⟨rfl, .answered t r _ hr hnow (by omega)⟩

end Beating

section Guarding

variable {now next next' : ℕ} {opening : List (ℕ × Beat)} {resetting watchdog : Option ℕ}

section

variable (h : Guarding o latency down up now next opening resetting watchdog)

include h

theorem Guarding.tick
    (hopening : ∀ m ∈ opening, now < m.1 + down) (hresetting : ∀ t ∈ resetting, now < t + latency) :
    Guarding o latency down up (now + 1) next opening resetting watchdog := by
  cases h with
  | opening _ hnext => exact .opening (Nat.succ_le_of_lt (by simpa using hopening)) hnext
  | resetting r _ hr _ hnext hd =>
    exact .resetting r _ (Nat.le_succ_of_le hr) (Nat.succ_le_of_lt (by simpa using hresetting)) hnext hd
  | guarded d hd => exact .guarded d hd

theorem Guarding.mono (hle : next' ≤ next) :
    Guarding o latency down up now next' opening resetting watchdog := by
  cases h with
  | opening hnow hnext => exact .opening hnow (le_trans hle hnext)
  | resetting r _ hr hnow hnext hd => exact .resetting r _ hr hnow (le_trans hle hnext) hd
  | guarded d hd => exact .guarded d (by omega)

end

theorem Guarding.lt_watchdog (hnow : now ≤ next)
    (h : Guarding o latency down up now next opening resetting (some d)) : now < d := by
  cases h with
  | resetting r _ _ hr _ hd => exact lt_of_le_of_lt hr (hd d rfl)
  | guarded _ hd => omega

theorem Guarding.reset (hwatchdog : o.pingInterval + down + up + 4 * latency < o.watchdog)
    (h : Guarding o latency down up now next opening (some r) watchdog) :
    Guarding o latency down up now next opening none (some (now + o.watchdog)) := by
  cases h with
  | resetting _ _ hr _ hnext _ => exact .guarded _ (by omega)

end Guarding

section

variable (h : Alive o latency down up s)

include h

theorem Alive.tick (hprompt : Prompt latency s) (hcarried : Carried down up s) :
    Alive o latency down up { s with now := s.now + 1 } := by
  obtain ⟨opening, pings, next, hdown, hbeat, hguard⟩ := h.beating
  have hpings : ∀ t ∈ pings, s.now < t + down := fun t ht =>
    hcarried.toClient (t, .ping) (by rw [hdown]; simp [ht])
  have hopening : ∀ m ∈ opening, s.now < m.1 + down := fun m hm =>
    hcarried.toClient m (by rw [hdown]; simp [hm])
  exact ⟨h.closed, h.clientClosed, h.calm, h.strays, h.expired, opening, pings, next, hdown,
    hbeat.tick hprompt.handlers hprompt.interval hpings hcarried.toServer,
    hguard.tick hopening hprompt.resetting⟩

theorem Alive.handler {i t : ℕ} (hi : s.handlers[i]? = some (t, stage)) :
    Alive o latency down up (stageNext o { s with handlers := s.handlers.eraseIdx i } stage) := by
  obtain ⟨opening, pings, next, hdown, hbeat, hguard⟩ := h.beating
  obtain ⟨rfl, hone⟩ := hbeat.handlers_eq hi
  have herase : s.handlers.eraseIdx 0 = [] := by rw [hone]; rfl
  rw [hone] at hbeat
  rw [herase]
  cases stage with
  | schedulePing =>
    obtain ⟨hnone, next', hle, hbeat⟩ := hbeat.schedulePing
    refine ⟨h.closed, h.clientClosed, h.calm, ?_, h.expired, opening, pings, next', hdown, hbeat, hguard.mono hle⟩
    simp [stageNext, armInterval, hnone, h.strays]
  | pingHandler =>
    obtain ⟨next', hle, hbeat⟩ := hbeat.pingHandler
    simp only [stageNext, h.closed, h.calm.1, Bool.false_eq_true, if_false, spawn, List.nil_append]
    exact ⟨rfl, h.clientClosed, ⟨rfl, h.calm.2⟩, h.strays, h.expired, opening, pings, next', hdown, hbeat, hguard.mono hle⟩
  | sendPing =>
    obtain ⟨next', hle, hbeat⟩ := hbeat.sendPing
    simp only [stageNext, h.closed, Bool.false_eq_true, if_false, spawn, List.nil_append]
    refine ⟨rfl, h.clientClosed, h.calm, h.strays, h.expired, opening, pings ++ [s.now], next', ?_, hbeat,
      hguard.mono hle⟩
    simp [hdown]
  | armTimeout =>
    obtain ⟨hnone, hbeat⟩ := hbeat.armTimeout
    refine ⟨h.closed, h.clientClosed, h.calm, ?_, h.expired, opening, pings, next, hdown, hbeat, hguard⟩
    simp [stageNext, Pulse.armTimeout, hnone, h.strays]
  | pingTimeoutHandler => cases hbeat

theorem Alive.pong {toServer : List ℕ} (hup : s.toServer = r :: toServer)
    (harmed : ∀ t ∈ s.handlers, t.2 ≠ .armTimeout) : Alive o latency down up (onPong o { s with toServer }) := by
  obtain ⟨opening, pings, next, hdown, hbeat, hguard⟩ := h.beating
  rw [hup] at hbeat
  obtain ⟨next', hle, hbeat⟩ := hbeat.pong harmed
  simp only [onPong, h.closed, Bool.false_eq_true, if_false]
  exact ⟨rfl, h.clientClosed, h.calm, h.strays, h.expired, opening, pings, next', hdown, hbeat, hguard.mono hle⟩

theorem Alive.receive {b : Beat} {toClient : List (ℕ × Beat)}
    (hresetting : s.resetting = none) (hdown : s.toClient = (t, b) :: toClient) :
    Alive o latency down up (onBeat { s with toClient } b) := by
  obtain ⟨opening, pings, next, hlink, hbeat, hguard⟩ := h.beating
  rw [hdown] at hlink
  rw [hresetting] at hguard
  generalize hw : s.noPingTimeoutTimer = watchdog at hguard
  cases hguard with
  | opening hnow hnext =>
    obtain ⟨hb, hrest⟩ := List.cons.inj hlink
    obtain ⟨rfl, rfl⟩ := Prod.mk.inj hb
    refine ⟨h.closed, h.clientClosed, h.calm, h.strays, h.expired, [], pings, next, hrest, hbeat, ?_⟩
    exact .resetting s.now none le_rfl (Nat.le_add_right _ _) (by omega) (by simp)
  | guarded d hd =>
    cases pings with
    | nil => cases hlink
    | cons p pings =>
      obtain ⟨hb, hrest⟩ := List.cons.inj hlink
      obtain ⟨rfl, rfl⟩ := Prod.mk.inj hb
      have hnow := hbeat.now_le
      simp only [onBeat, h.clientClosed, Bool.false_eq_true, if_false]
      refine ⟨h.closed, rfl, h.calm, h.strays, h.expired, [], pings, _, hrest, hbeat.ping, ?_⟩
      exact .resetting s.now (some d) le_rfl (Nat.le_add_right _ _) (by omega) (by simpa using by omega)

end

theorem Alive.step (hrtt : down + up < o.pingTimeout)
    (hwatchdog : o.pingInterval + down + up + 4 * latency < o.watchdog) (h : Alive o latency down up s)
    (hok : Healthy latency down up s l) (hs : Pulse.step o s l = some s') : Alive o latency down up s' := by
  obtain ⟨opening, pings, next, hdown, hbeat, hguard⟩ := h.beating
  cases move_of_step hs with
  | tick => exact h.tick hok.1 hok.2
  | fireInterval hp hdue =>
    rw [hp] at hbeat
    exact ⟨h.closed, h.clientClosed, h.calm, h.strays, h.expired, opening, pings, next, hdown, hbeat.fire hdue, hguard⟩
  | fireTimeout hd hdue =>
    rw [hd] at hbeat
    exact absurd (hbeat.lt_timeout hrtt) (not_lt.mpr hdue)
  | fireStray hi =>
    rw [h.strays] at hi
    cases hi
  | handler hi => exact h.handler hi
  | maybeUpgrade | loseToClient | loseToServer => exact hok.elim
  | onUpgrade hprobed | onAbort hprobed =>
    rw [h.calm.2.1] at hprobed
    cases hprobed
  | resume hresuming =>
    rw [h.calm.2.2] at hresuming
    cases hresuming
  | pong hup => exact h.pong hup hok
  | receive hresetting hdown => exact h.receive hresetting hdown
  | reset hr =>
    rw [hr] at hguard
    simp only [resetNext, h.clientClosed, Bool.false_eq_true, if_false]
    exact ⟨h.closed, rfl, h.calm, h.strays, h.expired, opening, pings, next, hdown, hbeat, hguard.reset hwatchdog⟩
  | fireWatchdog hd hdue =>
    rw [hd] at hguard
    exact absurd (hguard.lt_watchdog hbeat.now_le) (not_lt.mpr hdue)
  | expire hlt =>
    rw [h.expired] at hlt
    cases hlt

end Alive

section Detection

theorem mem_eraseIdx_of_ne {α : Type} {xs : List α} {x y : α} {i : ℕ} (hx : x ∈ xs) (hi : xs[i]? = some y)
    (hne : x ≠ y) : x ∈ xs.eraseIdx i := by
  obtain ⟨j, hj⟩ := List.mem_iff_getElem?.mp hx
  refine List.mem_eraseIdx_iff_getElem?.mpr ⟨j, ?_, hj⟩
  rintro rfl
  rw [hj] at hi
  exact hne (Option.some.inj hi)

structure OnTime (latency : ℕ) (s : State) : Prop where
  interval : ∀ d ∈ s.pingIntervalTimer, s.now ≤ d
  timeout : ∀ d ∈ s.pingTimeoutTimer, s.now ≤ d
  strays : ∀ t ∈ s.strays, s.now ≤ t.1
  watchdog : ∀ d ∈ s.noPingTimeoutTimer, s.now ≤ d
  handlers : ∀ t ∈ s.handlers, s.now ≤ t.1 + latency
  expired : ∀ t ∈ s.expired, s.now ≤ t + latency

theorem OnTime.tick (h : Prompt latency s) : OnTime latency { s with now := s.now + 1 } where
  interval d hd := h.interval d hd
  timeout d hd := h.timeout d hd
  strays t ht := h.strays t ht
  watchdog d hd := h.watchdog d hd
  handlers t ht := h.handlers t ht
  expired t ht := h.expired t ht

section

variable (h : OnTime latency s)

include h

theorem OnTime.spawn (stage : Stage) : OnTime latency (spawn s stage) := by
  refine { h with handlers := fun t ht => ?_ }
  rcases List.mem_append.mp ht with ht | ht
  · exact h.handlers t ht
  · rw [List.mem_singleton.mp ht]
    exact Nat.le_add_right s.now latency

theorem OnTime.armInterval : OnTime latency (armInterval o s) := by
  refine { h with interval := fun d hd => ?_, strays := fun t ht => ?_ }
  · rw [← Option.some.inj hd]
    exact Nat.le_add_right s.now _
  · simp only [Pulse.armInterval, List.mem_append, List.mem_map, Option.mem_toList] at ht
    rcases ht with ht | ⟨d, hd, rfl⟩
    · exact h.strays t ht
    · exact h.interval d hd

theorem OnTime.resume : OnTime latency (resume o s) := by
  rw [Pulse.resume]
  split_ifs
  · exact h
  · have harmed : OnTime latency (Pulse.armInterval o s) := h.armInterval
    exact { harmed with }

theorem OnTime.stageNext (stage : Stage) : OnTime latency (stageNext o s stage) := by
  cases stage with
  | schedulePing => exact h.armInterval
  | pingHandler =>
    rw [Pulse.stageNext]
    split_ifs
    · exact h
    · exact h.armInterval
    · exact h.spawn .sendPing
  | sendPing =>
    rw [Pulse.stageNext]
    split_ifs
    · exact h.spawn .armTimeout
    · apply OnTime.spawn
      exact { h with }
  | armTimeout =>
    refine { h with timeout := fun d hd => ?_, strays := fun t ht => ?_ }
    · rw [← Option.some.inj hd]
      exact Nat.le_add_right s.now _
    · simp only [Pulse.stageNext, armTimeout, List.mem_append, List.mem_map, Option.mem_toList] at ht
      rcases ht with ht | ⟨d, hd, rfl⟩
      · exact h.strays t ht
      · exact h.timeout d hd
  | pingTimeoutHandler =>
    rw [Pulse.stageNext]
    split_ifs
    · exact h
    · exact { h with interval := by simp [close], timeout := by simp [close] }

theorem OnTime.onPong : OnTime latency (onPong o s) := by
  rw [Pulse.onPong]
  split_ifs
  · exact h
  · refine { h with interval := fun d hd => ?_, timeout := by simp }
    rw [← Option.some.inj hd]
    exact Nat.le_add_right s.now _

theorem OnTime.resetNext : OnTime latency (resetNext o s) := by
  rw [Pulse.resetNext]
  split_ifs
  · exact { h with }
  · refine { h with watchdog := fun d hd => ?_ }
    rw [← Option.some.inj hd]
    exact Nat.le_add_right s.now _

theorem OnTime.step (hok : Timely latency s l) (hs : step o s l = some s') : OnTime latency s' := by
  cases move_of_step hs with
  | tick => exact .tick hok
  | fireInterval =>
    apply OnTime.spawn
    exact { h with interval := by simp }
  | fireTimeout =>
    apply OnTime.spawn
    exact { h with timeout := by simp }
  | fireStray =>
    apply OnTime.spawn
    exact { h with strays := fun t ht => h.strays t (List.mem_of_mem_eraseIdx ht) }
  | handler =>
    apply OnTime.stageNext
    exact { h with handlers := fun t ht => h.handlers t (List.mem_of_mem_eraseIdx ht) }
  | maybeUpgrade =>
    rw [maybeUpgrade]
    split_ifs
    · exact h
    · exact { h with interval := by simp, timeout := by simp }
  | onUpgrade =>
    rw [onUpgrade]
    split_ifs
    · exact h
    · exact { h with }
  | resume | onAbort =>
    apply OnTime.resume
    exact { h with }
  | pong =>
    apply OnTime.onPong
    exact { h with }
  | @receive t b =>
    cases b with
    | open_ | ping => exact { h with }
  | reset => exact h.resetNext
  | fireWatchdog =>
    refine { h with watchdog := by simp, expired := fun t ht => ?_ }
    rcases List.mem_append.mp ht with ht | ht
    · exact h.expired t ht
    · rw [List.mem_singleton.mp ht]
      exact Nat.le_add_right s.now latency
  | expire =>
    exact { h with watchdog := by simp, expired := fun t ht => h.expired t (List.mem_of_mem_eraseIdx ht) }
  | loseToClient | loseToServer => exact { h with }

end

/-- The timers of the server that run, with what they start. -/
def timers (s : State) : List (ℕ × Stage) :=
  s.pingIntervalTimer.toList.map (·, .pingHandler) ++ s.pingTimeoutTimer.toList.map (·, .pingTimeoutHandler) ++
    s.strays

/-- When the server last began to wait for an interval to pass. -/
def lastSign (s : State) : ℕ := max s.lastPong s.lastResume

/-- The heartbeat goes on: the session is open, and no upgrade has paused it. -/
structure Beats (s : State) : Prop where
  closed : s.closed = false
  upgrading : s.upgrading = false
  resuming : s.resuming = 0

/-- How long after that a goroutine gets to a stage at the latest. -/
def allowance (o : Timing) (latency : ℕ) : Stage → ℕ
  | .schedulePing => 0
  | .pingHandler => latency + o.pingInterval
  | .sendPing => 2 * latency + o.pingInterval
  | .armTimeout => 3 * latency + o.pingInterval
  | .pingTimeoutHandler => 4 * latency + o.pingInterval + o.pingTimeout

/-- Something will make the server send its next Ping, or close the session. -/
def Pending (o : Timing) (latency : ℕ) (s : State) : Prop :=
  ∃ t ∈ s.handlers ++ timers s, t.1 ≤ lastSign s + allowance o latency t.2

theorem allowance_le (o : Timing) (latency : ℕ) (stage : Stage) :
    allowance o latency stage ≤ 4 * latency + o.pingInterval + o.pingTimeout := by
  cases stage <;> simp only [allowance] <;> omega

theorem OnTime.timers (h : OnTime latency s) {t : ℕ × Stage} (ht : t ∈ timers s) : s.now ≤ t.1 := by
  simp only [Pulse.timers, List.mem_append, List.mem_map, Option.mem_toList] at ht
  rcases ht with (⟨d, hd, rfl⟩ | ⟨d, hd, rfl⟩) | ht
  · exact h.interval d hd
  · exact h.timeout d hd
  · exact h.strays t ht

theorem Pending.now_le (h : Pending o latency s) (htime : OnTime latency s) :
    s.now ≤ lastSign s + o.pingInterval + o.pingTimeout + 5 * latency := by
  obtain ⟨t, ht, hle⟩ := h
  have hallowance := allowance_le o latency t.2
  rcases List.mem_append.mp ht with ht | ht
  · have hnow := htime.handlers t ht
    omega
  · have hnow := htime.timers ht
    omega

theorem Pending.fire (h : Pending o latency s) (htime : OnTime latency s)
    (hmem : (d, stage) ∈ timers s) (hlast : lastSign s' = lastSign s)
    (hhandlers : s'.handlers = s.handlers ++ [(s.now, stage)])
    (hsub : ∀ t ∈ timers s, t ≠ (d, stage) → t ∈ timers s') : Pending o latency s' := by
  obtain ⟨t, ht, hle⟩ := h
  rw [Pending, hhandlers, hlast]
  by_cases heq : t = (d, stage)
  · subst heq
    exact ⟨(s.now, stage), by simp, le_trans (htime.timers hmem) hle⟩
  · refine ⟨t, ?_, hle⟩
    rcases List.mem_append.mp ht with ht | ht
    · simp [ht]
    · exact List.mem_append_right _ (hsub t ht heq)

theorem mem_armInterval (hx : x ∈ s.handlers ++ timers s) :
    x ∈ (armInterval o s).handlers ++ timers (armInterval o s) := by
  simp only [timers, armInterval, List.mem_append, Option.toList_some, List.map_cons, List.map_nil,
    List.mem_singleton] at hx ⊢
  tauto

/-- A goroutine takes nothing away that is pending while the heartbeat goes on, and adds the next
thing. -/
theorem mem_stageNext (hbeats : Beats s) (hstage : stage ≠ .pingTimeoutHandler)
    (hx : x ∈ s.handlers ++ timers s) :
    x ∈ (stageNext o s stage).handlers ++ timers (stageNext o s stage) := by
  cases stage with
  | pingTimeoutHandler => exact absurd rfl hstage
  | schedulePing => exact mem_armInterval hx
  | pingHandler | sendPing =>
    simp only [timers, stageNext, hbeats.closed, hbeats.upgrading, Bool.false_eq_true, if_false, spawn,
      List.mem_append] at hx ⊢
    tauto
  | armTimeout =>
    simp only [timers, stageNext, armTimeout, List.mem_append, Option.toList_some, List.map_cons, List.map_nil,
      List.mem_singleton] at hx ⊢
    tauto

theorem pending_stageNext (hbeats : Beats s) (hstage : stage ≠ .pingTimeoutHandler)
    (hnow : s.now ≤ lastSign s + allowance o latency stage + latency) :
    Pending o latency (stageNext o s stage) := by
  cases stage with
  | pingTimeoutHandler => exact absurd rfl hstage
  | schedulePing =>
    refine ⟨(s.now + o.pingInterval, .pingHandler), by simp [timers, stageNext, armInterval], ?_⟩
    simp only [lastSign, allowance, stageNext, armInterval] at hnow ⊢
    omega
  | pingHandler =>
    simp only [stageNext, hbeats.closed, hbeats.upgrading, Bool.false_eq_true, if_false]
    refine ⟨(s.now, .sendPing), by simp [spawn], ?_⟩
    simp only [lastSign, allowance, spawn] at hnow ⊢
    omega
  | sendPing =>
    simp only [stageNext, hbeats.closed, Bool.false_eq_true, if_false]
    refine ⟨(s.now, .armTimeout), by simp [spawn], ?_⟩
    simp only [lastSign, allowance, spawn] at hnow ⊢
    omega
  | armTimeout =>
    refine ⟨(s.now + o.pingTimeout, .pingTimeoutHandler), by simp [timers, stageNext, armTimeout], ?_⟩
    simp only [lastSign, allowance, stageNext, armTimeout] at hnow ⊢
    omega

theorem stageNext_same (stage : Stage) : (stageNext o s stage).lastPong = s.lastPong ∧
    (stageNext o s stage).lastResume = s.lastResume ∧ (stageNext o s stage).upgrading = s.upgrading ∧
    (stageNext o s stage).resuming = s.resuming := by
  cases stage with
  | schedulePing | armTimeout => exact ⟨rfl, rfl, rfl, rfl⟩
  | pingHandler =>
    rw [stageNext]
    split_ifs <;> exact ⟨rfl, rfl, rfl, rfl⟩
  | sendPing | pingTimeoutHandler =>
    simp only [stageNext, spawn]
    split <;> exact ⟨rfl, rfl, rfl, rfl⟩

theorem lastSign_stageNext (stage : Stage) : lastSign (stageNext o s stage) = lastSign s := by
  obtain ⟨hpong, hresume, -⟩ := stageNext_same (o := o) (s := s) stage
  rw [lastSign, hpong, hresume, lastSign]

/-- A goroutine that does not close the session was there while the heartbeat went on. -/
theorem Beats.of_stageNext (h : Beats (stageNext o s stage)) :
    Beats s ∧ stage ≠ .pingTimeoutHandler := by
  obtain ⟨-, -, hupgrading, hresuming⟩ := stageNext_same (o := o) (s := s) stage
  have hclosed := h.closed
  have hopen : s.closed = false ∧ stage ≠ .pingTimeoutHandler := by
    cases stage with
    | schedulePing | armTimeout => exact ⟨hclosed, by decide⟩
    | pingHandler =>
      rw [stageNext] at hclosed
      split_ifs at hclosed <;> exact ⟨hclosed, by decide⟩
    | sendPing =>
      simp only [stageNext, spawn] at hclosed
      split at hclosed <;> exact ⟨hclosed, by decide⟩
    | pingTimeoutHandler =>
      simp only [stageNext, close] at hclosed
      split_ifs at hclosed with hc
      rw [hc] at hclosed
      cases hclosed
  exact ⟨⟨hopen.1, hupgrading ▸ h.upgrading, hresuming ▸ h.resuming⟩, hopen.2⟩

theorem Pending.handler (h : Pending o latency s) (htime : OnTime latency s) (hbeats : Beats s)
    {i t : ℕ} (hi : s.handlers[i]? = some (t, stage)) (hstage : stage ≠ .pingTimeoutHandler) :
    Pending o latency (stageNext o { s with handlers := s.handlers.eraseIdx i } stage) := by
  have hbeats' : Beats { s with handlers := s.handlers.eraseIdx i } := { hbeats with }
  obtain ⟨x, hx, hle⟩ := h
  by_cases heq : x = (t, stage)
  · subst heq
    have hnow : s.now ≤ t + latency := htime.handlers _ (List.mem_of_getElem? hi)
    exact pending_stageNext hbeats' hstage (le_trans hnow (Nat.add_le_add_right hle latency))
  · -- something else was pending and still is
    refine ⟨x, mem_stageNext hbeats' hstage ?_, ?_⟩
    · rcases List.mem_append.mp hx with hx | hx
      · exact List.mem_append_left _ (mem_eraseIdx_of_ne hx hi heq)
      · exact List.mem_append_right _ hx
    · rw [lastSign_stageNext]
      exact hle

/-- While the heartbeat goes on, something is pending. -/
def Watched (o : Timing) (latency : ℕ) (s : State) : Prop := Beats s → Pending o latency s

theorem watched_resume : Watched o latency (resume o s) := by
  intro hbeats
  have hclosed := hbeats.closed
  rw [resume] at hclosed ⊢
  split_ifs at hclosed ⊢ with hc
  · rw [hc] at hclosed
    cases hclosed
  · refine ⟨(s.now + o.pingInterval, .pingHandler), by simp [timers, armInterval], ?_⟩
    simp only [lastSign, allowance]
    omega

theorem Watched.step (h : Watched o latency s) (htime : OnTime latency s) (hs : step o s l = some s') :
    Watched o latency s' := by
  cases move_of_step hs with
  | @fireInterval d hd =>
    refine fun hbeats => (h { hbeats with }).fire htime (d := d) (by simp [timers, hd]) rfl rfl
      fun t ht hne => ?_
    simp only [timers, hd, spawn, List.mem_append, Option.toList_some, Option.toList_none, List.map_cons,
      List.map_nil, List.mem_singleton, List.not_mem_nil, false_or] at ht ⊢
    tauto
  | @fireTimeout d hd =>
    refine fun hbeats => (h { hbeats with }).fire htime (d := d) (by simp [timers, hd]) rfl rfl
      fun t ht hne => ?_
    simp only [timers, hd, spawn, List.mem_append, Option.toList_some, Option.toList_none, List.map_cons,
      List.map_nil, List.mem_singleton, List.not_mem_nil, or_false] at ht ⊢
    tauto
  | @fireStray i d stage hi =>
    have hmem : (d, stage) ∈ timers s := List.mem_append_right _ (List.mem_of_getElem? hi)
    refine fun hbeats => (h { hbeats with }).fire htime hmem rfl rfl fun t ht hne => ?_
    rcases List.mem_append.mp ht with ht | ht
    · exact List.mem_append_left _ ht
    · exact List.mem_append_right _ (mem_eraseIdx_of_ne ht hi hne)
  | handler hi =>
    intro hbeats
    obtain ⟨hbefore, hstage⟩ := hbeats.of_stageNext
    have hbefore' : Beats s := { hbefore with }
    exact (h hbefore').handler htime hbefore' hi hstage
  | maybeUpgrade =>
    intro hbeats
    rw [maybeUpgrade] at hbeats ⊢
    split_ifs at hbeats ⊢
    · exact h hbeats
    · cases hbeats.upgrading
  | onUpgrade =>
    intro hbeats
    rw [onUpgrade] at hbeats ⊢
    split_ifs at hbeats ⊢
    · exact h hbeats
    · cases hbeats.resuming
  | resume | onAbort => exact watched_resume
  | pong =>
    by_cases hclosed : s.closed = true
    · intro hbeats
      have hopen := hbeats.closed
      simp [onPong, hclosed] at hopen
    · simp only [onPong, hclosed, Bool.false_eq_true, if_false]
      refine fun _ => ⟨(s.now + o.pingInterval, .pingHandler), by simp [timers], ?_⟩
      simp only [lastSign, allowance]
      omega
  | @receive t b => cases b <;> exact fun hbeats => h { hbeats with }
  | reset =>
    rw [resetNext]
    split <;> exact fun hbeats => h { hbeats with }
  | tick | fireWatchdog | expire | loseToClient | loseToServer =>
    exact fun hbeats => h { hbeats with }

/-- A client that has reset its watchdog has it running, or is about to close. -/
def Watching (o : Timing) (s : State) : Prop := ∀ c, s.lastReset = some c → s.clientClosed = false →
    s.noPingTimeoutTimer = some (c + o.watchdog) ∨ ∃ t ∈ s.expired, t ≤ c + o.watchdog

theorem Watching.stageNext (h : Watching o s) (stage : Stage) : Watching o (stageNext o s stage) := by
  cases stage with
  | schedulePing | armTimeout => exact h
  | pingHandler =>
    rw [Pulse.stageNext]
    split_ifs <;> exact h
  | sendPing | pingTimeoutHandler =>
    rw [Pulse.stageNext]
    split <;> exact h

theorem Watching.step (h : Watching o s) (htime : OnTime latency s) (hs : step o s l = some s') : Watching o s' := by
  cases move_of_step hs with
  | @handler i t stage => exact Watching.stageNext (s := { s with handlers := s.handlers.eraseIdx i }) h stage
  | pong =>
    rw [onPong]
    split <;> exact h
  | maybeUpgrade =>
    rw [maybeUpgrade]
    split <;> exact h
  | onUpgrade =>
    rw [onUpgrade]
    split <;> exact h
  | resume | onAbort =>
    rw [resume]
    split <;> exact h
  | @receive t b => cases b <;> exact h
  | reset =>
    rw [resetNext]
    split_ifs
    · exact h
    · intro c hc _
      cases hc
      exact .inl rfl
  | @fireWatchdog d hd =>
    intro c hc hopen
    rcases h c hc hopen with hdog | ⟨t, ht, hle⟩
    · -- the timer fires no later than it is due
      obtain rfl : d = c + o.watchdog := Option.some.inj (hd.symm.trans hdog)
      exact .inr ⟨s.now, by simp, htime.watchdog _ hd⟩
    · exact .inr ⟨t, by simp [ht], hle⟩
  | expire =>
    intro c _ hopen
    cases hopen
  | _ => exact h

end Detection

section NonVacuity

instance (latency : ℕ) (s : State) : Decidable (Prompt latency s) := decidable_of_iff
    ((∀ d ∈ s.pingIntervalTimer, s.now < d) ∧ (∀ d ∈ s.pingTimeoutTimer, s.now < d) ∧
      (∀ t ∈ s.strays, s.now < t.1) ∧ (∀ d ∈ s.noPingTimeoutTimer, s.now < d) ∧
      (∀ t ∈ s.handlers, s.now < t.1 + latency) ∧ (∀ t ∈ s.expired, s.now < t + latency) ∧
      ∀ t ∈ s.resetting, s.now < t + latency)
    ⟨fun h => ⟨h.1, h.2.1, h.2.2.1, h.2.2.2.1, h.2.2.2.2.1, h.2.2.2.2.2.1, h.2.2.2.2.2.2⟩,
      fun h => ⟨h.interval, h.timeout, h.strays, h.watchdog, h.handlers, h.expired, h.resetting⟩⟩

instance (down up : ℕ) (s : State) : Decidable (Carried down up s) :=
  decidable_of_iff ((∀ m ∈ s.toClient, s.now < m.1 + down) ∧ ∀ t ∈ s.toServer, s.now < t + up)
    ⟨fun h => ⟨h.1, h.2⟩, fun h => ⟨h.toClient, h.toServer⟩⟩

instance (latency : ℕ) (s : State) (l : Act) : Decidable (Timely latency s l) := by
  unfold Timely
  split <;> infer_instance

instance (latency down up : ℕ) (s : State) (l : Act) : Decidable (Healthy latency down up s l) := by
  unfold Healthy
  split <;> infer_instance

def roundTrip : List Act :=
  [.handler 0, .receive, .reset, .tick, .tick, .tick, .fireInterval, .handler 0, .handler 0, .handler 0, .tick,
    .receive, .reset, .tick, .pong]

end NonVacuity

end Gosocketio.Pulse

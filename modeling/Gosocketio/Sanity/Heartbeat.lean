import Gosocketio.Sanity.Session
import Gosocketio.Spec.Heartbeat

/-! What a step does to a session and its timers. Without its timers it is a step of the
session, or none. -/

namespace Gosocketio.Engine

open Transport Stacks Runs
open EngineSocket (Tport)

namespace Heart

variable (h : Heart)

@[simp] theorem session_stop (timer : Option ℕ) : (h.stop timer).session = h.session := rfl

@[simp] theorem session_stopTimers : h.stopTimers.session = h.session := rfl

@[simp] theorem session_next (source : Option (ℕ × ℕ)) (op : Op) (s : Session) :
    (h.next source op s).session = s := rfl

@[simp] theorem session_settle (source : Option (ℕ × ℕ)) : (h.settle source).session = h.session := by
  unfold settle
  split <;> rfl

@[simp] theorem session_restart : h.restart.session = h.session := by
  unfold restart
  split_ifs <;> rfl

@[simp] theorem undecided_restart : h.restart.undecided = h.undecided := by
  unfold restart
  split_ifs <;> rfl

@[simp] theorem terminals_restart : h.restart.terminals = h.terminals := by
  unfold restart
  split_ifs <;> rfl

/-- The timers, running or not, and the two fields that hold one. -/
def clocks : List Timer × Option ℕ × Option ℕ := (h.timers, h.pingIntervalTimer, h.pingTimeoutTimer)

/-- Which operations do something to the timers and to what is recorded. -/
structure Beats (h : Heart) (op : Op) (h' : Heart) : Prop where
  clocks : h'.clocks = h.clocks ∨ (∃ p, op = .onPacket p) ∨ op = .pingHandler ∨
    (∃ r, op = .closeWithReason r) ∨ (∃ k, op = .maybeUpgrade k) ∨ op = .abort
  pings : h'.pings = h.pings ∨ ∃ p, op = .sendPacket p
  answered : h'.answered = h.answered ∨ ∃ p, op = .onPacket p
  late : h'.late = h.late
  terminals : h'.terminals = h.terminals ∨ ∃ k n, op = .notify k n
  undecided : h'.undecided = h.undecided ∨ op = .abort ∨ (∃ k, op = .switch k) ∨ ∃ k, op = .maybeUpgrade k

theorem Beats.refl (h : Heart) (op : Op) : Beats h op h :=
  ⟨.inl rfl, .inl rfl, .inl rfl, rfl, .inl rfl, .inl rfl⟩

theorem beat_beats (h : Heart) (source : Option (ℕ × ℕ)) (op : Op) : Beats h op (h.beat source op) := by
  cases op with
  | onPacket | pingHandler | sendPacket | closeWithReason | maybeUpgrade | notify =>
    simp only [beat]
    split_ifs <;> constructor <;> simp [clocks, stopTimers, stop, armInterval]
  | switch k =>
    simp only [beat, settle]
    split <;> constructor <;> simp [clocks]
  | abort =>
    simp only [beat, settle, restart]
    split <;> split_ifs <;> constructor <;> simp [clocks, armInterval]
  | _ => exact .refl h _

end Heart

namespace Session

theorem upgradeHandler_probe {n : Notice} (k : ℕ) (hn : n.probe = true) : upgradeHandler k n =
      [.transmit (.websocket k) [{ type := .pong, data := [112, 114, 111, 98, 101] }], .startTicker k] := by
  cases n with
  | packet p => exact if_pos (of_decide_eq_true hn)
  | error | close => cases hn

theorem upgradeHandler_terminal {n : Notice} (k : ℕ) (hn : n.probe = false) :
    upgradeHandler k n = [.stopUpgrade k, .switch k] ∨
      upgradeHandler k n = [.stopUpgrade k, .close (.websocket k), .abort, .flush] := by
  cases n with
  | packet p =>
    have hprobe := of_decide_eq_false hn
    simp only [upgradeHandler, if_neg hprobe]
    split_ifs
    · exact .inl rfl
    · exact .inr rfl
  | error | close => exact .inr rfl

end Session

namespace Heartbeat

variable {w w' : State} {a : Act}

/-- What a goroutine leaves when it has done `op`. -/
abbrev turn (w : State) (i : ℕ) (source : Option (ℕ × ℕ)) (op : Op) (s : Session) (ops : List Op)
    (rest : List Job) (new : List (List Op)) : State :=
  ⟨w.shared.next source op s, w.tasks.set i (w.shared.jobs source op ops ++ rest) ++ new.map Heart.fork⟩

inductive Does (w : State) : Act → State → Prop
  | session {i : ℕ} {c : Choice} {op : Op} {source : Option (ℕ × ℕ)} {rest : List Job} {s : Session}
      {ops : List Op} {new : List (List Op)} (hi : w.tasks[i]? = some (⟨.session op, source⟩ :: rest))
      (hrun : w.shared.session.run c op = some (s, ops, new)) :
      Does w (.go i c) (turn w i source op s ops rest new)
  | schedulePing {i : ℕ} {c : Choice} {source : Option (ℕ × ℕ)} {rest : List Job}
      (hi : w.tasks[i]? = some (⟨.schedulePing, source⟩ :: rest)) :
      Does w (.go i c) ⟨w.shared.armInterval, w.tasks.set i rest⟩
  | armTimeout {i : ℕ} {c : Choice} {ping : Option ℕ} {source : Option (ℕ × ℕ)} {rest : List Job}
      (hi : w.tasks[i]? = some (⟨.armTimeout ping, source⟩ :: rest)) :
      Does w (.go i c) ⟨w.shared.armTimeout ping, w.tasks.set i rest⟩
  | resume {i : ℕ} {c : Choice} {source : Option (ℕ × ℕ)} {rest : List Job}
      (hi : w.tasks[i]? = some (⟨.resume, source⟩ :: rest)) :
      Does w (.go i c) ⟨w.shared.restart, w.tasks.set i rest⟩
  | event {e : Event} {s : Session} {new : List (List Op)} (hi : e ≠ .pingInterval) (ht : e ≠ .pingTimeout)
      (he : w.shared.session.occurs e = some (s, new)) :
      Does w (.event e) ⟨{ w.shared with session := s }, w.tasks ++ new.map Heart.fork⟩
  | fire {i : ℕ} {alarm : Alarm} (hi : w.shared.timers[i]? = some ⟨alarm, true⟩) : Does w (.fire i)
        ⟨{ w.shared.stop (some i) with late := w.shared.late || alarm.overdue w.shared.answered },
          w.tasks ++ [Heart.fork [alarm.op]]⟩

theorem step_does (h : step w a = some w') : Does w a w' := by
  cases a with
  | go i c =>
    change go (fun h => h.run c) w i = some w' at h
    obtain ⟨⟨duty, source⟩, rest, g, js, new, hi, hrun, rfl⟩ := go_eq_some h
    cases duty with
    | session op =>
      obtain ⟨⟨s, ops, new⟩, hop, heq⟩ := Option.map_eq_some_iff.mp hrun
      obtain ⟨hg, heq⟩ := Prod.mk.inj heq
      obtain ⟨hjs, hnew⟩ := Prod.mk.inj heq
      subst hg hjs hnew
      exact .session hi hop
    | schedulePing | armTimeout | resume =>
      obtain ⟨rfl, rfl, rfl⟩ := Stacks.run_inj hrun
      rw [List.append_nil]
      constructor
      exact hi
  | event e =>
    simp only [step] at h
    split_ifs at h with htimer
    rw [not_or] at htimer
    obtain ⟨⟨s, new⟩, he, rfl⟩ := Option.map_eq_some_iff.mp h
    exact .event htimer.1 htimer.2 he
  | fire i =>
    simp only [step] at h
    split at h
    · rename_i alarm hi
      obtain rfl := Option.some.inj h
      exact .fire hi
    · cases h

section Session

variable {rest : List Job} {i : ℕ}

/-- The operation of the session, if it is one. -/
def opOf (j : Job) : Option Op := match j.duty with
  | .session op => some op
  | _ => none

/-- The session and its goroutines without the timers. -/
def sessionOf (w : State) : Engine.State := ⟨w.shared.session, w.tasks.map (List.filterMap opOf)⟩

@[simp] theorem filterMap_opOf_session (f : Op → Option (ℕ × ℕ)) (ops : List Op) :
    (ops.map fun op => (⟨.session op, f op⟩ : Job)).filterMap opOf = ops := by
  rw [List.filterMap_map]
  exact List.filterMap_some

@[simp] theorem filterMap_opOf_fork (new : List (List Op)) :
    (new.map Heart.fork).map (List.filterMap opOf) = new := by
  rw [List.map_map, List.map_congr_left (g := id), List.map_id]
  intro ops _
  exact filterMap_opOf_session _ ops

theorem filterMap_opOf_jobs (h : Heart) (source : Option (ℕ × ℕ)) (op : Op) (ops : List Op) :
    (h.jobs source op ops).filterMap opOf = ops := by
  have hafter : ((h.after op).map (⟨·, source⟩)).filterMap opOf = [] := by
    unfold Heart.after
    split
    · split_ifs <;> rfl
    · split_ifs <;> rfl
    · rfl
  rw [Heart.jobs, List.filterMap_append, filterMap_opOf_session, hafter, List.append_nil]

theorem sessionOf_set {j : Job} {h : Heart} (hi : w.tasks[i]? = some (j :: rest))
    (hj : opOf j = none) (hs : h.session = w.shared.session) :
    sessionOf ⟨h, w.tasks.set i rest⟩ = sessionOf w := by
  have hsame : (w.tasks.map (List.filterMap opOf))[i]? = some (rest.filterMap opOf) := by
    rw [List.getElem?_map, hi, Option.map_some, List.filterMap_cons_none hj]
  rw [sessionOf, sessionOf, hs, List.map_set, Pool.set_self hsame]

theorem getElem?_sessionOf {op : Op} {source : Option (ℕ × ℕ)}
    (hi : w.tasks[i]? = some (⟨.session op, source⟩ :: rest)) :
    (sessionOf w).tasks[i]? = some (op :: rest.filterMap opOf) := by
  rw [sessionOf, List.getElem?_map, hi]
  rfl

theorem sessionOf_go {op : Op} {source : Option (ℕ × ℕ)} {s : Session}
    {ops : List Op} {new : List (List Op)} :
    sessionOf (turn w i source op s ops rest new) =
    ⟨s, (sessionOf w).tasks.set i (ops ++ rest.filterMap opOf) ++ new⟩ := by
  simp only [sessionOf, List.map_append, List.map_set, List.filterMap_append, filterMap_opOf_jobs,
    filterMap_opOf_fork, Heart.session_next]

end Session

end Heartbeat

end Gosocketio.Engine

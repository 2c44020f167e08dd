import Gosocketio.Spec.Reconnect
import Gosocketio.Sanity.SioClient

/-! Everything a step of a client that reconnects can do. Most steps move one
goroutine and at most disconnect a namespace; the others are those that touch the
engines, `c.engine`, `c.closed` or `reconnectStop`, or connect a namespace. -/

namespace Gosocketio

/-- A call of `connectNsp` that is registered, or a `reconnectAttempt` that has dialed. -/
def Task.pending : Task → Bool
  | .connectNsp _ (.send ..) | .connectNsp _ (.wait ..) | .connectNsp (.attempt ..) _ => true
  | .loop _ (.attempt _) | .loop _ .reconnected => true
  | _ => false

namespace Reconnect

open SioClient (Fades)

variable {o : ReconnectOptions} {s s' : Reconnect} {a : Act}

/-- The steps of goroutine `i` that concern no engine, with what they make of the client and the
number of calls of `connectNsp`. -/
inductive Calm (s : Reconnect) (i : ℕ) : Act → Task → Task → SioClient → ChanId → Prop
  | begin {order k nsp data} : Calm s i (.turn i order) (.connectNsp k (.begin nsp data))
      (.connectNsp k (.send nsp data s.calls)) (s.client.await nsp data s.calls) (s.calls + 1)
  | send {a k nsp data ch} :
      Calm s i a (.connectNsp k (.send nsp data ch)) (.connectNsp k (.wait nsp ch)) s.client s.calls
  | wait {a k nsp ch r} (hr : s.client.chans ch = some r) :
      Calm s i a (.connectNsp k (.wait nsp ch)) (k.returned (r.map .reply)) s.client s.calls
  | timeout {a k nsp ch} : Calm s i a (.connectNsp k (.wait nsp ch)) (k.returned (some .context))
      (s.client.abandon nsp) s.calls
  | dialFails {a k} : Calm s i a (.dialEngine k .dial) k.failed s.client s.calls
  | sendPacket {a pkt fire} : Calm s i a (.sendPacket pkt fire) .done
      (s.client.start (if fire then [.disconnect pkt.nsp "io client disconnect"] else [])) s.calls
  | halt {a L} : s.reconnectStop = true → Calm s i a (.loop L .check) .done s.client s.calls
  | exhausted {a L} : Calm s i a (.loop L .check) (.loop L .giveUp) s.client s.calls
  | again {a L L'} : s.reconnectStop = false → Calm s i a (.loop L .check) (.loop L' .sleep) s.client s.calls
  | wake {a L} : Calm s i a (.loop L .sleep) (.dialEngine (.attempt L) .dial) s.client s.calls
  | stopped {a L} : Calm s i a (.loop L .sleep) .done s.client s.calls
  | connect {a L nsp rest data} : Calm s i a (.loop L (.attempt (nsp :: rest)))
      (.connectNsp (.attempt L rest) (.begin nsp data)) s.client s.calls
  | connected {a L} : Calm s i a (.loop L (.attempt [])) (.loop L .reconnected) s.client s.calls
  | reconnected {a L} : Calm s i a (.loop L .reconnected) .done s.client s.calls
  | giveUp {a L} : Calm s i a (.loop L .giveUp) (.loop L .setClosed)
      (s.client.start (L.nsps.map fun nsp => .connectError nsp reconnectionFailed)) s.calls
  | ignored {a nsps} : Calm s i a (.reconnect nsps) .done s.client s.calls

/-- A packet that connects no namespace. -/
inductive Receives (C : SioClient) (pkt : Packet) : SioClient → Prop
  | connectError (htype : pkt.type = .connectError) : Receives C pkt (C.handleConnectError pkt)
  | disconnect : Receives C pkt (C.handleDisconnect pkt)
  | other : Receives C pkt C

/-- A goroutine that the application starts with a call. -/
inductive Call (C : SioClient) : Task → SioClient → Prop
  | connectNamespace {nsp data} : Call C (.connectNsp .app (.begin nsp data)) C
  | disconnectNamespace {nsp} :
      Call C (.sendPacket { type := .disconnect, nsp } (C.Connected nsp)) (C.leave nsp)
  | emit {pkt} : Call C (.sendPacket pkt false) C
  | close : Call C (.close .stop) C

inductive Does (s : Reconnect) : Act → Reconnect → Prop
  | calm {a i t u C calls handed} (hi : s.tasks[i]? = some t) (hcalm : Calm s i a t u C calls) :
      Does s a { s with client := C, calls, handed, tasks := s.tasks.set i u }
  | dialed {i k} (hi : s.tasks[i]? = some (.dialEngine k .dial)) : Does s (.dialed i) { s with
        engines := s.engines ++ [({} : Engine)]
        tasks := s.tasks.set i (.dialEngine k (.onData s.engines.length)) }
  | onData {i order k e} (hi : s.tasks[i]? = some (.dialEngine k (.onData e))) :
      Does s (.turn i order) { s with
        engines := s.engines.modify e fun g => { g with onData := true }
        tasks := s.tasks.set i (.dialEngine k (.onClose e)) }
  | onClose {i order k e} (hi : s.tasks[i]? = some (.dialEngine k (.onClose e))) :
      Does s (.turn i order) { s with
        engines := s.engines.modify e fun g => { g with onClose := true }
        tasks := s.tasks.set i (.dialEngine k (.store e)) }
  | store {i order k e} (o : ReconnectOptions) (hi : s.tasks[i]? = some (.dialEngine k (.store e))) :
      Does s (.turn i order) { s with
        client := s.client.store e
        processing := true
        tasks := s.tasks.set i (k.dialed o) }
  | stop {i order} (hi : s.tasks[i]? = some (.close .stop)) :
      Does s (.turn i order) { s with reconnectStop := true, tasks := s.tasks.set i (.close .close) }
  | closeAgain {i order} (hi : s.tasks[i]? = some (.close .close)) (hclosed : s.client.closed = true) :
      Does s (.turn i order) { s with tasks := s.tasks.set i (.close .returned) }
  | close {i order u} (hi : s.tasks[i]? = some (.close .close)) (hclosed : s.client.closed = false)
      (hperm : order.Perm s.client.connectedNsps) (hu : s.client.engine = none ∧ u = .close .returned ∨
        ∃ e, s.client.engine = some e ∧ u = .close (.closeEngine e)) :
      Does s (.turn i order) { s with client := s.client.close order, tasks := s.tasks.set i u }
  | closeEngine {i order e} (hi : s.tasks[i]? = some (.close (.closeEngine e))) :
      Does s (.turn i order) { s.closeEngine e with tasks := s.tasks.set i (.close .returned) }
  | cleanup {i order L u} (hi : s.tasks[i]? = some (.loop L .cleanup))
      (hu : s.client.engine = none ∧ u = .loop L .check ∨
        ∃ e, s.client.engine = some e ∧ u = .loop L (.closeEngine e)) :
      Does s (.turn i order) { s with client := s.client.dropEngine, tasks := s.tasks.set i u }
  | closeDropped {i order L e} (hi : s.tasks[i]? = some (.loop L (.closeEngine e))) :
      Does s (.turn i order) { s.closeEngine e with tasks := s.tasks.set i (.loop L .check) }
  | setClosed {i order L} (hi : s.tasks[i]? = some (.loop L .setClosed)) :
      Does s (.turn i order) { s with
        client := { s.client with closed := true }
        tasks := s.tasks.set i (.loop L .stop) }
  | stopLoop {i order L} (hi : s.tasks[i]? = some (.loop L .stop)) :
      Does s (.turn i order) { s with reconnectStop := true, tasks := s.tasks.set i .done }
  | onEngineClosed {i order d u} (hi : s.tasks[i]? = some (.onEngineClosed d))
      (hperm : order.Perm s.client.connectedNsps) (hu : u = .done ∨ u = .reconnect order) :
      Does s (.turn i order) { s with
        client := s.client.onEngineClosed d order
        tasks := s.tasks.set i u }
  | reconnect {i order nsps} (hi : s.tasks[i]? = some (.reconnect nsps)) (hnsps : nsps ≠ [])
      (hclosed : s.client.closed = false) :
      Does s (.turn i order) { s with tasks := s.tasks.set i (.loop { nsps } .check) }
  | push {e pkt} : Does s (.onData e pkt) { s with inbound := s.inbound ++ [pkt] }
  | drop {e d g ts} (hg : s.engines[e]? = some g) (hopen : g.closed = false)
      (hts : ts = [] ∨ ts = [.onEngineClosed d]) :
      Does s (.closeWithError e d) { s.closeEngine e with tasks := s.tasks ++ ts }
  | handleConnect {pkt inbound} (hin : s.inbound = pkt :: inbound) (htype : pkt.type = .connect)
      (hproc : s.processing = true) :
      Does s .receive { s with inbound, client := s.client.handleConnect pkt }
  | receive {pkt inbound C} (hin : s.inbound = pkt :: inbound) (hC : Receives s.client pkt C) :
      Does s .receive { s with inbound, client := C }
  | call {a t C} (hopened : s.opened = true) (hcall : Call s.client t C) :
      Does s a { s with client := C, tasks := s.tasks ++ [t] }

theorem Calm.fades {i : ℕ} {t u : Task} {C : SioClient} {calls : ChanId}
    (h : Calm s i a t u C calls) : s.client.Fades C := by
  cases h with
  | begin => exact .await ..
  | timeout => exact .abandon ..
  | @sendPacket a pkt fire =>
    refine .start _ fun x hx => ?_
    split_ifs at hx with hfire
    · rw [List.mem_singleton.mp hx]
      rfl
    · cases hx
  | giveUp =>
    refine .start _ fun x hx => ?_
    obtain ⟨nsp, -, rfl⟩ := List.mem_map.mp hx
    rfl
  | _ => exact .refl _

theorem Receives.fades {C D : SioClient} {pkt : Packet} (h : Receives C pkt D) : C.Fades D := by
  cases h with
  | connectError => exact .handleConnectError ..
  | disconnect => exact .handleDisconnect ..
  | other => exact .refl _

theorem Call.fades {C D : SioClient} {t : Task} (h : Call C t D) : C.Fades D := by
  cases h with
  | disconnectNamespace => exact .leave ..
  | _ => exact .refl _

theorem does_connectNext {i : ℕ} {order : List Bytes} {k : Caller} {stage : ConnectStage}
    (hi : s.tasks[i]? = some (.connectNsp k stage)) (h : s.connectNext i k stage = some s') :
    Does s (.turn i order) s' := by
  cases stage with
  | begin nsp data =>
    cases h
    exact .calm hi .begin
  | send nsp data ch =>
    cases h
    unfold sendPacket
    split <;> exact .calm hi .send
  | wait nsp ch =>
    obtain ⟨r, hr, rfl⟩ := Option.map_eq_some_iff.mp h
    exact .calm hi (.wait hr)

theorem does_dialNext {i : ℕ} {order : List Bytes} {k : Dialer} {stage : DialStage}
    (hi : s.tasks[i]? = some (.dialEngine k stage)) (h : s.dialNext o i k stage = some s') :
    Does s (.turn i order) s' := by
  cases stage with
  | dial => cases h
  | onData e =>
    cases h
    exact .onData hi
  | onClose e =>
    cases h
    exact .onClose hi
  | store e =>
    cases h
    exact .store o hi

theorem does_closeNext {i : ℕ} {order : List Bytes} {stage : CloseStage}
    (hi : s.tasks[i]? = some (.close stage)) (h : s.closeNext i order stage = some s') :
    Does s (.turn i order) s' := by
  cases stage with
  | stop =>
    cases h
    exact .stop hi
  | close =>
    rw [closeNext] at h
    split_ifs at h with hclosed hperm <;> cases h
    · exact .closeAgain hi hclosed
    · refine .close hi (Bool.eq_false_of_not_eq_true hclosed) hperm ?_
      cases s.client.engine with
      | none => exact .inl ⟨rfl, rfl⟩
      | some e => exact .inr ⟨e, rfl, rfl⟩
  | closeEngine e =>
    cases h
    exact .closeEngine hi
  | returned => cases h

theorem does_loopNext {i : ℕ} {order : List Bytes} {L : ReconnectLoop} {stage : LoopStage}
    (hi : s.tasks[i]? = some (.loop L stage)) (h : s.loopNext o i L stage = some s') :
    Does s (.turn i order) s' := by
  cases stage with
  | check =>
    cases h
    split_ifs with hstop hattempts
    · exact .calm hi (.halt hstop)
    · exact .calm hi .exhausted
    · exact .calm hi (.again (Bool.eq_false_of_not_eq_true hstop))
  | sleep =>
    cases h
    exact .calm hi .wake
  | attempt rest =>
    cases rest with
    | nil =>
      cases h
      exact .calm hi .connected
    | cons nsp rest =>
      cases h
      exact .calm hi .connect
  | cleanup =>
    cases h
    refine .cleanup hi ?_
    cases s.client.engine with
    | none => exact .inl ⟨rfl, rfl⟩
    | some e => exact .inr ⟨e, rfl, rfl⟩
  | closeEngine e =>
    cases h
    exact .closeDropped hi
  | reconnected =>
    cases h
    exact .calm hi .reconnected
  | giveUp =>
    cases h
    exact .calm hi .giveUp
  | setClosed =>
    cases h
    exact .setClosed hi
  | stop =>
    cases h
    exact .stopLoop hi

theorem does_taskNext {i : ℕ} {order : List Bytes} {t : Task} (hi : s.tasks[i]? = some t)
    (h : s.taskNext o i order t = some s') : Does s (.turn i order) s' := by
  cases t with
  | dialEngine k stage => exact does_dialNext hi h
  | connectNsp k stage => exact does_connectNext hi h
  | close stage => exact does_closeNext hi h
  | sendPacket pkt fire =>
    cases h
    unfold sendPacket
    split <;> exact .calm hi .sendPacket
  | onEngineClosed d =>
    rw [taskNext] at h
    split_ifs at h with hperm hclosed <;> cases h
    · exact .onEngineClosed hi hperm (.inl rfl)
    · exact .onEngineClosed hi hperm (.inr rfl)
  | reconnect nsps =>
    cases h
    split_ifs with hgo
    · exact .reconnect hi hgo.2.1 (Bool.eq_false_of_not_eq_true hgo.2.2)
    · exact .calm hi .ignored
  | loop L stage => exact does_loopNext hi h
  | opened | done => cases h

theorem step_does (h : s.step o a = some s') : Does s a s' := by
  cases a with
  | turn i order =>
    obtain ⟨t, hi, h⟩ := Option.bind_eq_some_iff.mp h
    exact does_taskNext hi h
  | dialed i =>
    rw [step] at h
    split at h
    · cases h
      exact .dialed ‹_›
    · cases h
  | dialFails i =>
    rw [step] at h
    split at h
    · cases h
      exact .calm ‹_› .dialFails
    · cases h
  | timeout i =>
    rw [step] at h
    split at h
    · cases h
      exact .calm ‹_› .timeout
    · cases h
  | stopped i =>
    rw [step] at h
    split at h
    · split_ifs at h
      cases h
      exact .calm ‹_› .stopped
    · cases h
  | onData e pkt =>
    rw [step] at h
    split_ifs at h
    cases h
    exact .push
  | closeWithError e d =>
    rw [step] at h
    split at h
    · cases h
    · split_ifs at h with hclosed honClose <;> cases h
      · exact .drop ‹_› (Bool.eq_false_of_not_eq_true hclosed) (.inr rfl)
      · have hs : s.closeEngine e = { s.closeEngine e with tasks := s.tasks ++ [] } := by
          rw [List.append_nil]
          rfl
        rw [hs]
        exact .drop ‹_› (Bool.eq_false_of_not_eq_true hclosed) (.inl rfl)
  | receive =>
    rw [step] at h
    split at h
    · cases h
    · split_ifs at h with hproc
      cases h
      unfold process
      split
      · exact .handleConnect ‹_› ‹_› hproc
      · exact .receive ‹_› (.connectError ‹_›)
      · exact .receive ‹_› .disconnect
      · exact .receive ‹_› .other
  | connectNamespace nsp data =>
    rw [step] at h
    split_ifs at h with hok
    cases h
    exact .call hok.1 .connectNamespace
  | disconnectNamespace nsp =>
    rw [step] at h
    split_ifs at h with hok
    cases h
    exact .call hok .disconnectNamespace
  | emit nsp data =>
    rw [step] at h
    split_ifs at h with hok
    cases h
    exact .call hok.1 .emit
  | close =>
    rw [step] at h
    split_ifs at h with hok
    cases h
    exact .call hok .close

section Answers

/-- The steps between tasks that are `pending`. -/
inductive Goes (s : Reconnect) : Task → Task → Prop
  | send {k nsp data ch} : Goes s (.connectNsp k (.send nsp data ch)) (.connectNsp k (.wait nsp ch))
  | told {L rest nsp ch} (h : s.client.chans ch = some none) :
      Goes s (.connectNsp (.attempt L rest) (.wait nsp ch)) (.loop L (.attempt rest))
  | dialed {L e} : Goes s (.dialEngine (.attempt L) (.store e)) (.loop L (.attempt L.nsps))
  | connect {L nsp rest data} :
      Goes s (.loop L (.attempt (nsp :: rest))) (.connectNsp (.attempt L rest) (.begin nsp data))
  | reconnected {L} : Goes s (.loop L (.attempt [])) (.loop L .reconnected)

/-- What a step does to the calls of `connectNsp`. -/
inductive Answers (s : Reconnect) : Act → Reconnect → Prop
  | begin {i order k nsp data handed} (hi : s.tasks[i]? = some (.connectNsp k (.begin nsp data))) :
      Answers s (.turn i order) { s with
        client := s.client.await nsp data s.calls
        calls := s.calls + 1
        handed
        tasks := s.tasks.set i (.connectNsp k (.send nsp data s.calls)) }
  | handleConnect {pkt inbound} (hin : s.inbound = pkt :: inbound) (htype : pkt.type = .connect) :
      Answers s .receive { s with inbound, client := s.client.handleConnect pkt }
  | onEngineClosed {i order d u} (hi : s.tasks[i]? = some (.onEngineClosed d)) (hu : u.pending = false) :
      Answers s (.turn i order) { s with
        client := s.client.onEngineClosed d order
        tasks := s.tasks.set i u }
  | other {a : Act} {s' : Reconnect} (hclient : s.client.Withdraws s'.client) (hcalls : s'.calls = s.calls)
      (htasks : ∀ (j : ℕ) (v : Task), s'.tasks[j]? = some v →
        s.tasks[j]? = some v ∨ v.pending = false ∨ ∃ t, s.tasks[j]? = some t ∧ Goes s t v) :
      Answers s a s'

variable {i : ℕ} {t u : Task}

theorem Answers.goto (hi : s.tasks[i]? = some t) (hu : u.pending = false ∨ Goes s t u)
    (hclient : s.client.Withdraws s'.client) (hcalls : s'.calls = s.calls)
    (htasks : s'.tasks = s.tasks.set i u) : Answers s a s' := by
  refine .other hclient hcalls fun j v hj => ?_
  rw [htasks, List.getElem?_set] at hj
  split_ifs at hj with hij
  · obtain rfl : u = v := Option.some.inj hj
    subst hij
    exact .inr (hu.imp_right fun hu => ⟨t, hi, hu⟩)
  · exact .inl hj

theorem Answers.spawn {ts : List Task} (hts : ∀ t ∈ ts, t.pending = false)
    (hclient : s.client.Withdraws s'.client) (hcalls : s'.calls = s.calls)
    (htasks : s'.tasks = s.tasks ++ ts) : Answers s a s' := by
  refine .other hclient hcalls fun j v hj => ?_
  rw [htasks] at hj
  by_cases hlt : j < s.tasks.length
  · rw [List.getElem?_append_left hlt] at hj
    exact .inl hj
  · rw [List.getElem?_append_right (not_lt.mp hlt)] at hj
    exact .inr (.inl (hts v (List.mem_of_getElem? hj)))

theorem Answers.rest (hclient : s.client.Withdraws s'.client) (hcalls : s'.calls = s.calls)
    (htasks : s'.tasks = s.tasks) : Answers s a s' :=
  .other hclient hcalls fun j v hj => .inl (by rw [← htasks]; exact hj)

theorem answers_calm {C : SioClient} {calls : ChanId} {handed : List (DialId × Packet)}
    (hi : s.tasks[i]? = some t) (h : Calm s i a t u C calls) :
    Answers s a { s with client := C, calls, handed, tasks := s.tasks.set i u } := by
  cases h with
  | begin => exact .begin hi
  | send => exact .goto hi (.inr .send) (.refl _) rfl rfl
  | @wait a k nsp ch r hr =>
    refine .goto hi ?_ (.refl _) rfl rfl
    cases k with
    | dial | app => cases r <;> exact .inl rfl
    | attempt L rest =>
      cases r with
      | none => exact .inr (.told hr)
      | some f => exact .inl rfl
  | @timeout a k => exact .goto hi (.inl (by cases k <;> rfl)) (.abandon ..) rfl rfl
  | @dialFails a k => exact .goto hi (.inl (by cases k <;> rfl)) (.refl _) rfl rfl
  | connect => exact .goto hi (.inr .connect) (.refl _) rfl rfl
  | connected => exact .goto hi (.inr .reconnected) (.refl _) rfl rfl
  | _ => exact .goto hi (.inl rfl) (.of_eq rfl rfl rfl) rfl rfl

theorem Does.answers (h : Does s a s') : Answers s a s' := by
  cases h with
  | calm hi hcalm => exact answers_calm hi hcalm
  | @store i order k e o hi =>
    cases k with
    | dial => exact .goto hi (.inl rfl) (.of_eq rfl rfl rfl) rfl rfl
    | attempt L => exact .goto hi (.inr .dialed) (.of_eq rfl rfl rfl) rfl rfl
  | close hi hclosed hperm hu =>
    refine .goto hi (.inl ?_) (.close ..) rfl rfl
    rcases hu with ⟨-, rfl⟩ | ⟨e, -, rfl⟩ <;> rfl
  | cleanup hi hu =>
    refine .goto hi (.inl ?_) (.of_eq rfl rfl rfl) rfl rfl
    rcases hu with ⟨-, rfl⟩ | ⟨e, -, rfl⟩ <;> rfl
  | onEngineClosed hi hperm hu => exact .onEngineClosed hi (by rcases hu with rfl | rfl <;> rfl)
  | push => exact .rest (.refl _) rfl rfl
  | drop hg hopen hts =>
    refine .spawn ?_ (.refl _) rfl rfl
    rcases hts with rfl | rfl <;> simp [Task.pending]
  | handleConnect hin htype => exact .handleConnect hin htype
  | receive hin hC =>
    cases hC with
    | connectError => exact .rest (.handleConnectError ..) rfl rfl
    | disconnect => exact .rest (.handleDisconnect ..) rfl rfl
    | other => exact .rest (.refl _) rfl rfl
  | call hopened hcall =>
    cases hcall with
    | disconnectNamespace => exact .spawn (List.forall_mem_singleton.mpr rfl) (.leave ..) rfl rfl
    | _ => exact .spawn (List.forall_mem_singleton.mpr rfl) (.refl _) rfl rfl
  | dialed hi | onData hi | onClose hi | stop hi | closeAgain hi | closeEngine hi | closeDropped hi
    | setClosed hi | stopLoop hi | reconnect hi => exact .goto hi (.inl rfl) (.of_eq rfl rfl rfl) rfl rfl

end Answers

section Traces

/-- Goroutine `i` dials, sets the callbacks and stores the engine. -/
def redial (i : ℕ) : List Act := [.dialed i, .turn i [], .turn i [], .turn i []]

/-- Goroutine `i` sends a CONNECT over engine `e` and gets the answer. -/
def exchange (i : ℕ) (e : DialId) (pkt : Packet) : List Act :=
  [.turn i [], .turn i [], .onData e pkt, .receive, .turn i []]

def accepted (nsp : Bytes) : Packet :=
  { type := .connect, nsp, data := .obj [(Server.sidKey, .str [120])] }

def refused (nsp : Bytes) : Packet :=
  { type := .connectError, nsp, data := .obj [(Server.messageKey, .str [110, 111])] }

/-- `Dial` connects the default namespace. -/
def open₀ : List Act := redial 0 ++ exchange 0 0 (accepted defaultNamespace)

/-- Engine `e` fails, its callback is goroutine `i` and starts a reconnection loop,
which wakes up. -/
def lose (e : DialId) (i : ℕ) (order : List Bytes) : List Act :=
  [.closeWithError e .error, .turn i order, .turn i [], .turn i [], .turn i []]

end Traces

end Reconnect

end Gosocketio

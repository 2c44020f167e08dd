import Gosocketio.Lib.Pool
import Gosocketio.Sanity.Reconnect

/-! What holds after `Close` has returned. `Close` takes away the engine it finds, but
a `dialEngine` under way does not ask whether the client is closed, the processing loop
goes on with the packet it is at and with those that are there, and a client that gave
up reconnecting counts as closed already. -/

namespace Gosocketio

open Runs SioClient

def Task.returned : Task → Bool
  | .close .returned => true
  | _ => false

def Task.pastClose : Task → Bool
  | .close (.closeEngine _) | .close .returned => true
  | _ => false

def Task.stores : Task → Bool
  | .dialEngine _ (.store _) => true
  | _ => false

def Task.closes : Task → Bool
  | .close .close => true
  | _ => false

def Task.returns (s : Reconnect) : Task → Bool
  | .close .close => s.client.closed || s.client.engine.isNone
  | .close (.closeEngine _) => true
  | _ => false

namespace Reconnect

variable {o : ReconnectOptions} {s s' : Reconnect} {a : Act} {i : ℕ} {t u : Task}

/-- No `dialEngine` stores its engine once a `Close` is past its section, a `Close` that
finds the client closed finds no engine, and no Connect packet is processed once a
`Close` has returned. -/
def Final (s : Reconnect) : Act → Prop
  | .turn i _ =>
    (s.tasks[i]?.any Task.stores = true → ∀ t ∈ s.tasks, t.pastClose = false) ∧
    (s.tasks[i]?.any Task.closes = true → s.client.closed = true → s.client.engine = none)
  | .receive => ∀ pkt ∈ s.inbound.head?, pkt.type = .connect → ∀ t ∈ s.tasks, t.returned = false
  | _ => True

/-- Once a `Close` is past its section there is no engine. -/
def Closed (s : Reconnect) : Prop := (∃ t ∈ s.tasks, t.pastClose = true) → s.client.engine = none

theorem Closed.mono (h : Closed s) (hengine : s.client.engine = none → s'.client.engine = none)
    (htasks : ∀ t ∈ s'.tasks, t.pastClose = true → ∃ u ∈ s.tasks, u.pastClose = true) : Closed s' := by
  rintro ⟨t, ht, hpast⟩
  exact hengine (h (htasks t ht hpast))

theorem pastClose_set {ts : List Task} {u : Task} (hu : u.pastClose = false) :
    ∀ t ∈ ts.set i u, t.pastClose = true → ∃ x ∈ ts, x.pastClose = true := by
  intro t ht hpast
  rcases List.mem_or_eq_of_mem_set ht with ht | rfl
  · exact ⟨t, ht, hpast⟩
  · rw [hu] at hpast
    cases hpast

theorem pastClose_append {ts us : List Task} (hus : ∀ u ∈ us, u.pastClose = false) :
    ∀ t ∈ ts ++ us, t.pastClose = true → ∃ x ∈ ts, x.pastClose = true := by
  intro t ht hpast
  rcases List.mem_append.mp ht with ht | ht
  · exact ⟨t, ht, hpast⟩
  · rw [hus t ht] at hpast
    cases hpast

theorem pastClose_of_calm (h : Calm s i a t u C n) : u.pastClose = false := by
  cases h with
  | @wait a k nsp ch r => cases k <;> cases r <;> rfl
  | @timeout a k | @dialFails a k => cases k <;> rfl
  | _ => rfl

theorem pastClose_of_call {t : Task} (h : Call C t D) : t.pastClose = false := by
  cases h <;> rfl

theorem pastClose_dialed (k : Dialer) : (k.dialed o).pastClose = false := by
  cases k <;> rfl

theorem Closed.move {u : Task} (h : Closed s) (htasks : s'.tasks = s.tasks.set i u)
    (hengine : s'.client.engine = s.client.engine) (hu : u.pastClose = false) : Closed s' := by
  refine h.mono (fun he => hengine.trans he) ?_
  rw [htasks]
  exact pastClose_set hu

theorem Closed.step (h : Closed s) (hfinal : s.Final a) (hs : s.step o a = some s') : Closed s' := by
  cases step_does hs with
  | calm hi hcalm => exact h.move rfl hcalm.fades.engine (pastClose_of_calm hcalm)
  | dialed | onData | onClose | stop | closeDropped | setClosed | stopLoop | reconnect => exact h.move rfl rfl rfl
  | @store i order k e o hi =>
    rintro ⟨t, ht, hpast⟩
    obtain ⟨x, hx, hx'⟩ := pastClose_set (pastClose_dialed k) t ht hpast
    rw [hfinal.1 (by rw [hi]; rfl) x hx] at hx'
    cases hx'
  | closeAgain hi hclosed => exact fun _ => hfinal.2 (by rw [hi]; rfl) hclosed
  | close | cleanup => exact fun _ => rfl
  | closeEngine hi =>
    refine h.mono (fun he => he) fun t ht hpast => ?_
    exact ⟨_, List.mem_of_getElem? hi, rfl⟩
  | onEngineClosed hi hperm hu => exact fun _ => engine_onEngineClosed ..
  | push => exact h
  | drop hg hopen hts =>
    refine h.mono (fun he => he) (pastClose_append fun u hu => ?_)
    rcases hts with rfl | rfl
    · cases hu
    · rw [List.mem_singleton.mp hu]
      rfl
  | handleConnect hin htype hproc =>
    exact h.mono (fun he => (engine_handleConnect ..).trans he) fun t ht hpast => ⟨t, ht, hpast⟩
  | receive hin hC => exact h.mono (fun he => hC.fades.engine.trans he) fun t ht hpast => ⟨t, ht, hpast⟩
  | call hopened hcall =>
    refine h.mono (fun he => hcall.fades.engine.trans he) (pastClose_append fun u hu => ?_)
    rw [List.mem_singleton.mp hu]
    exact pastClose_of_call hcall

/-- What a step does to the namespaces unless it processes a Connect packet: none
becomes connected, and no `OnConnect` handler is started. -/
structure Subsides (C D : SioClient) : Prop where
  connected : ∀ n, D.Connected n = true → C.Connected n = true
  connects : D.connects = C.connects

theorem Subsides.of_fades {C D : SioClient} (h : C.Fades D) : Subsides C D := ⟨h.connected, h.connects⟩

theorem Subsides.refl (C : SioClient) : Subsides C C := .of_fades (.refl C)

theorem Subsides.trans {C D E : SioClient} (h : Subsides C D) (h' : Subsides D E) : Subsides C E :=
  ⟨fun n hn => h.connected n (h'.connected n hn), h'.connects.trans h.connects⟩

theorem filter_disconnects (reason : String) (order : List Bytes) :
    (order.map fun nsp => Handler.disconnect nsp reason).filter Handler.isConnect = [] := by
  rw [List.filter_eq_nil_iff]
  intro x hx
  obtain ⟨nsp, -, rfl⟩ := List.mem_map.mp hx
  exact Bool.false_ne_true

theorem Subsides.close (C : SioClient) (order : List Bytes) : Subsides C (C.close order) := by
  refine ⟨fun n hn => absurd hn (not_connected_of_held _ n (held_close ..)), ?_⟩
  refine (List.filter_append ..).trans ?_
  rw [filter_disconnects, List.append_nil]
  rfl

theorem Subsides.onEngineClosed (C : SioClient) (d : Drop) (order : List Bytes) :
    Subsides C (C.onEngineClosed d order) := by
  refine ⟨fun n hn => absurd hn (not_connected_of_held _ n (held_onEngineClosed ..)), ?_⟩
  obtain ⟨chans, hC⟩ := onEngineClosed_eq C d order
  rw [hC]
  refine (List.filter_append ..).trans ?_
  rw [filter_disconnects, List.append_nil]
  rfl

def Over (s : Reconnect) : Prop := ∃ t ∈ s.tasks, t.returned = true

/-- How a step changes the goroutines: one that has not returned from `Close` goes on,
or new ones are there. -/
inductive GoesOn (s : Reconnect) (a : Act) (ts : List Task) : Prop
  | move {i : ℕ} {t u : Task} (hi : s.tasks[i]? = some t) (ht : t.returned = false)
    (hu : u.returned = true → t.returns s = true ∧ ∃ order, a = .turn i order)
    (hts : ts = s.tasks.set i u)
  | spawn {us : List Task} (hus : ∀ u ∈ us, u.returned = false) (hts : ts = s.tasks ++ us)

theorem GoesOn.of_calm (hi : s.tasks[i]? = some t) (h : Calm s i b t u C n) :
    GoesOn s a (s.tasks.set i u) := by
  refine .move hi (by cases h <;> rfl) (fun hu => absurd hu ?_) rfl
  cases h with
  | @wait a k nsp ch r => cases k <;> cases r <;> exact Bool.false_ne_true
  | @timeout a k | @dialFails a k => cases k <;> exact Bool.false_ne_true
  | _ => exact Bool.false_ne_true

theorem GoesOn.of_other (hi : s.tasks[i]? = some t) (ht : t.returned = false)
    (hu : u.returned = false) : GoesOn s a (s.tasks.set i u) :=
  .move hi ht (fun h => absurd (hu.symm.trans h) Bool.false_ne_true) rfl

theorem goesOn_of_step (hs : s.step o a = some s') : GoesOn s a s'.tasks := by
  cases step_does hs with
  | calm hi hcalm => exact .of_calm hi hcalm
  | dialed hi | onData hi | onClose hi | stop hi | closeDropped hi | setClosed hi => exact .of_other hi rfl rfl
  | @store i order k e o hi => exact .of_other hi rfl (by cases k <;> rfl)
  | closeAgain hi hclosed =>
    refine .move hi rfl (fun _ => ⟨?_, _, rfl⟩) rfl
    rw [Task.returns, hclosed, Bool.true_or]
  | close hi hclosed hperm hu =>
    refine .move hi rfl (fun h => ⟨?_, _, rfl⟩) rfl
    rcases hu with ⟨he, rfl⟩ | ⟨e, he, rfl⟩
    · rw [Task.returns, he, Option.isNone_none, Bool.or_true]
    · cases h
  | closeEngine hi => exact .move hi rfl (fun _ => ⟨rfl, _, rfl⟩) rfl
  | cleanup hi hu => exact .of_other hi rfl (by rcases hu with ⟨-, rfl⟩ | ⟨e, -, rfl⟩ <;> rfl)
  | stopLoop hi | reconnect hi hnsps hclosed => exact .of_other hi rfl rfl
  | onEngineClosed hi hperm hu => exact .of_other hi rfl (by rcases hu with rfl | rfl <;> rfl)
  | push | handleConnect | receive => exact .spawn (List.forall_mem_nil _) (List.append_nil _).symm
  | drop hg hopen hts =>
    refine .spawn (fun u hu => ?_) rfl
    rcases hts with rfl | rfl
    · cases hu
    · rw [List.mem_singleton.mp hu]
      rfl
  | call hopened hcall =>
    refine .spawn (fun u hu => ?_) rfl
    rw [List.mem_singleton.mp hu]
    cases hcall <;> rfl

theorem Over.step (h : Over s) (hs : s.step o a = some s') : Over s' := by
  obtain ⟨t, ht, hret⟩ := h
  cases goesOn_of_step hs with
  | @move i x u hi hx hu hts =>
    refine ⟨t, ?_, hret⟩
    rw [hts]
    refine Pool.mem_set_of_ne hi ht ?_
    rintro rfl
    exact absurd (hx.symm.trans hret) Bool.false_ne_true
  | spawn hus hts => exact ⟨t, hts ▸ List.mem_append_left _ ht, hret⟩

/-- The first call of `Close` to return does so with a step of its own. -/
theorem returns_of_step (hs : s.step o a = some s') (h : Over s') :
    Over s ∨ ∃ i order, a = .turn i order ∧ s.tasks[i]?.any (Task.returns s) = true := by
  obtain ⟨t, ht, hret⟩ := h
  cases goesOn_of_step hs with
  | @move i x u hi hx hu hts =>
    rw [hts] at ht
    rcases List.mem_or_eq_of_mem_set ht with ht | rfl
    · exact .inl ⟨t, ht, hret⟩
    · obtain ⟨hreturns, order, ha⟩ := hu hret
      exact .inr ⟨i, order, ha, by rw [hi]; exact hreturns⟩
  | spawn hus hts =>
    rw [hts] at ht
    rcases List.mem_append.mp ht with ht | ht
    · exact .inl ⟨t, ht, hret⟩
    · exact absurd ((hus t ht).symm.trans hret) Bool.false_ne_true

/-- A Connect packet is the only thing that connects a namespace or starts an
`OnConnect` handler. -/
theorem subsides_or_handleConnect (hs : s.step o a = some s') :
    Subsides s.client s'.client ∨ ∃ pkt inbound, a = .receive ∧ s.inbound = pkt :: inbound ∧
      pkt.type = .connect ∧ s'.client = s.client.handleConnect pkt := by
  cases step_does hs with
  | calm hi hC | receive hin hC | call hopened hC => exact .inl (.of_fades hC.fades)
  | close hi hclosed hperm hu => exact .inl (.close ..)
  | onEngineClosed hi hperm hu => exact .inl (.onEngineClosed ..)
  | handleConnect hin htype hproc => exact .inr ⟨_, _, rfl, hin, htype, rfl⟩
  | _ => exact .inl ⟨fun _ hn => hn, rfl⟩

theorem subsides_of_step (hs : s.step o a = some s') (hfinal : s.Final a) (h : Over s) :
    Subsides s.client s'.client := by
  refine (subsides_or_handleConnect hs).resolve_right ?_
  rintro ⟨pkt, inbound, rfl, hin, htype, -⟩
  obtain ⟨t, ht, hret⟩ := h
  rw [hfinal pkt (by rw [hin]; rfl) htype t ht] at hret
  cases hret

/-- No handlers are due after a step once a call of `Close` has returned. -/
theorem due_of_over (hfinal : s.Final a) (h : Over s) : s.due a = none := by
  obtain ⟨t, ht, hret⟩ := h
  cases a with
  | receive =>
    unfold due
    cases hin : s.inbound.head? with
    | none => rfl
    | some pkt =>
      refine if_neg fun htype => ?_
      rw [hfinal pkt hin htype t ht] at hret
      cases hret
  | _ => rfl

end Reconnect

namespace ProcessLoop

open Reconnect

variable {o : ReconnectOptions} {L L' : ProcessLoop} {m : Move}

/-- The steps are final, and no call of `Close` returns while the processing loop is
between the section of `handleConnect` and the start of the handlers. -/
def Final (L : ProcessLoop) : Move → Prop
  | .act (.turn i order) =>
    L.state.Final (.turn i order) ∧ (L.state.tasks[i]?.any (Task.returns L.state) = true → L.starting = none)
  | .act a => L.state.Final a
  | .start => True

theorem Final.state {a : Act} (h : L.Final (.act a)) : L.state.Final a := by
  cases a with
  | turn i order => exact h.1
  | _ => exact h

/-- A step is one of the client, after which handlers may be due, or starts them. -/
inductive Does (o : ReconnectOptions) (L : ProcessLoop) : Move → ProcessLoop → Prop
  | act {a : Act} {s : Reconnect} (hact : L.state.step o a = some s) :
    Does o L (.act a) { L with state := s, starting := (L.state.due a).or L.starting }
  | start {nsp : Bytes} (h : L.starting = some nsp) :
    Does o L .start { L with starting := none, begun := L.begun ++ [nsp] }

theorem step_does (hs : L.step o m = some L') : Does o L m L' := by
  cases m with
  | act a =>
    simp only [ProcessLoop.step] at hs
    split at hs
    · cases hs
    · obtain ⟨s, hact, rfl⟩ := Option.map_eq_some_iff.mp hs
      exact .act hact
  | start =>
    obtain ⟨nsp, h, rfl⟩ := Option.map_eq_some_iff.mp hs
    exact .start h

/-- Once a `Close` is past its section there is no engine, and once one has returned no
handlers are left to be started. -/
structure Settled (L : ProcessLoop) : Prop where
  closed : Closed L.state
  starting : Over L.state → L.starting = none

theorem Settled.step (h : Settled L) (hfinal : L.Final m) (hs : L.step o m = some L') : Settled L' := by
  cases step_does hs with
  | act hact =>
    refine ⟨h.closed.step hfinal.state hact, fun hover => ?_⟩
    rcases returns_of_step hact hover with hover | ⟨i, order, rfl, hret⟩
    · rw [due_of_over hfinal.state hover, h.starting hover]
      rfl
    · exact hfinal.2 hret
  | start hstart => exact ⟨h.closed, fun _ => rfl⟩

/-- What the steps after the return of `Close` leave as it is. -/
structure Stays (L L' : ProcessLoop) : Prop where
  ended : Over L'.state
  subsides : Subsides L.state.client L'.state.client
  begun : L'.begun = L.begun

theorem Stays.step {L₀ : ProcessLoop} (h : Stays L₀ L) (hset : Settled L) (hfinal : L.Final m)
    (hs : L.step o m = some L') : Stays L₀ L' := by
  cases step_does hs with
  | act hact =>
    exact ⟨h.ended.step hact, h.subsides.trans (subsides_of_step hact hfinal.state h.ended), h.begun⟩
  | start hstart =>
    rw [hset.starting h.ended] at hstart
    cases hstart

/-- In a run of final steps, from the moment a call of `Close` has returned, there is no
engine, no namespace becomes connected and no `OnConnect` handler is started. -/
theorem final_closed {acts later : List Move} (hrun : Run (ProcessLoop.step o) Final {} acts L)
    (hret : ∃ t ∈ L.state.tasks, t.returned = true) (hlater : Run (ProcessLoop.step o) Final L later L') :
    L'.state.client.engine = none ∧
      (∀ nsp, L'.state.client.Connected nsp = true → L.state.client.Connected nsp = true) ∧
      L'.begun = L.begun := by
  have hset : Settled L := by
    refine hrun.invariant Settled ⟨?_, fun _ => rfl⟩ fun _ _ _ h hok hs => h.step hok hs
    rintro ⟨t, ht, hpast⟩
    rw [List.mem_singleton.mp ht] at hpast
    cases hpast
  obtain ⟨hset', hstay⟩ := hlater.invariant (fun K => Settled K ∧ Stays L K)
    ⟨hset, hret, .refl _, rfl⟩ fun K m K' ⟨h, hstay⟩ hok hs =>
      ⟨h.step hok hs, hstay.step h hok hs⟩
  obtain ⟨t, ht, hret'⟩ := hstay.ended
  have hpast : t.pastClose = true := by
    unfold Task.returned at hret'
    split at hret'
    · rfl
    · cases hret'
  exact ⟨hset'.closed ⟨t, ht, hpast⟩, hstay.subsides.connected, hstay.begun⟩

section NonVacuity

instance (s : Reconnect) (a : Act) : Decidable (s.Final a) := by
  rcases a with _ | _ <;> unfold Reconnect.Final <;> infer_instance

instance (L : ProcessLoop) (m : Move) : Decidable (L.Final m) := by
  rcases m with (_ | _) | _ <;> unfold Final <;> infer_instance

/-- `Dial`, with the start of the handlers after the Connect packet. -/
def opening : List Move := open₀.map .act ++ [.start]

/-- `Close` is called while the client is connected, and a call of `connectNsp` fails
later. -/
def shut : List Move :=
  opening ++ [Act.close, .turn 1 [], .turn 1 [defaultNamespace], .turn 1 []].map .act

def afterwards : List Move :=
  [Act.connectNamespace [47, 97] .null, .turn 2 [], .turn 2 [], .timeout 2].map .act

theorem shut_runs : (exec (ProcessLoop.step {}) Final {} shut).isSome = true := by
  decide +kernel

theorem afterwards_runs :
    (exec (ProcessLoop.step {}) Final ((exec (ProcessLoop.step {}) Final {} shut).get shut_runs)
      afterwards).isSome = true := by
  decide +kernel

theorem final_closed_shut :
    ((exec (ProcessLoop.step {}) Final ((exec (ProcessLoop.step {}) Final {} shut).get shut_runs)
      afterwards).get afterwards_runs).state.client.engine = none :=
  (final_closed (run_of_isSome shut_runs) (by decide +kernel) (run_of_isSome afterwards_runs)).1

/-- The connection fails, and `Close` is called while the attempt to reconnect dials. -/
def closedInDial : List Move :=
  opening ++ (lose 0 1 [defaultNamespace] ++ [Act.close, .turn 2 [], .turn 2 []]).map .act

def reopened : List Move :=
  (redial 1 ++ [Act.turn 1 []] ++ exchange 1 1 (accepted defaultNamespace)).map .act

theorem closedInDial_runs : (exec (ProcessLoop.step {}) always {} closedInDial).isSome = true := by
  decide +kernel

theorem reopened_runs : (exec (ProcessLoop.step {}) always
      ((exec (ProcessLoop.step {}) always {} closedInDial).get closedInDial_runs) reopened).isSome =
      true := by
  decide +kernel

theorem attempt_survives_close : ¬ ∀ (o : ReconnectOptions) (L L' : ProcessLoop) (acts later : List Move),
    Run (ProcessLoop.step o) always {} acts L → (∃ t ∈ L.state.tasks, t.returned = true) →
      Run (ProcessLoop.step o) always L later L' →
      L'.state.client.engine = none ∧
        (∀ nsp, L'.state.client.Connected nsp = true → L.state.client.Connected nsp = true) ∧
        L'.begun = L.begun := by
  intro h
  have hclosed := h {} _ _ closedInDial reopened (run_of_isSome closedInDial_runs) (by decide +kernel)
    (run_of_isSome reopened_runs)
  exact absurd hclosed.1 (by decide +kernel)

end NonVacuity

end ProcessLoop

end Gosocketio

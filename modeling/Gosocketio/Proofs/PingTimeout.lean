import Gosocketio.Sanity.Heartbeat

/-! Sessions that are closed for a ping timeout. `pingHandler` arms the timeout after it has
sent the Ping: a Pong that comes before stops an older timer, and nothing stops the new one.
Nor does a Pong stop a timer that was overwritten, or one that has fired. -/

namespace Gosocketio.Engine.Heartbeat

open Transport Stacks Runs
open EngineSocket (Tport)

variable {w w' : State} {a : Act} {h h' : Heart}

/-- The step closes the session for a ping timeout. -/
def TimesOut (w : State) : Act → Prop
  | .go i _ => w.shared.session.readyState ≠ .closed ∧
    ∃ source, next? w.tasks i = some ⟨.session (.closeWithReason .pingTimeout), source⟩
  | _ => False

def Fired : Duty → Prop
  | .session .pingTimeoutHandler | .session (.closeWithReason .pingTimeout) => True
  | _ => False

/-- A timeout that is yet to be armed, or has fired. -/
def UnderWay : Duty → Prop
  | .armTimeout _ => True
  | d => Fired d

/-- A Pong finds no timeout under way, and no timer runs for one once both ping timers are
stopped. A Ping is not sent to a session that is closing. -/
def InOrder (w : State) : Duty → Prop
  | .session (.onPacket p) => p.type = .pong → w.shared.session.readyState = .opened →
    (∀ js ∈ w.tasks, ∀ j ∈ js, ¬UnderWay j.duty) ∧
      ∀ t ∈ w.shared.stopTimers.timers, t.running = true → t.alarm = .pingHandler
  | .session (.sendPacket p) => p.type = .ping → w.shared.session.readyState ≠ .closing
  | _ => True

def Prompt (w : State) : Act → Prop
  | .go i _ => ∀ j ∈ next? w.tasks i, InOrder w j.duty
  | _ => True

section Fair

variable {t : Timer}

/-- The Ping that a timeout is for has no Pong, or nothing is left to close. -/
def Due (h : Heart) (ping : Option ℕ) : Prop :=
  h.session.readyState = .closed ∨ ∃ n, ping = some n ∧ h.answered < n ∧ n ≤ h.pings

structure Timely (h : Heart) (j : Job) : Prop where
  opens : j.duty ≠ .session .setOpen
  arming : ∀ ping, j.duty = .armTimeout ping → Due h ping
  fired : Fired j.duty → h.session.readyState = .closed ∨ h.answered < h.pings ∧ h.late = true

structure Fair (w : State) : Prop where
  answered : w.shared.answered ≤ w.shared.pings
  armed : ∀ t ∈ w.shared.timers, t.running = true → ∀ ping, t.alarm = .pingTimeoutHandler ping →
    Due w.shared ping
  jobs : Every (Timely w.shared) w.tasks

/-- What a step keeps that processes no Pong. -/
structure Keeps (h h' : Heart) : Prop where
  closed : h.session.readyState = .closed → h'.session.readyState = .closed
  answered : h'.answered = h.answered
  pings : h.pings ≤ h'.pings
  late : h.late = true → h'.late = true

theorem Due.mono (hk : Keeps h h') {ping : Option ℕ} (hd : Due h ping) : Due h' ping := by
  rcases hd with hclosed | ⟨n, rfl, hlt, hle⟩
  · exact .inl (hk.closed hclosed)
  · exact .inr ⟨n, rfl, hk.answered ▸ hlt, hle.trans hk.pings⟩

theorem Timely.mono (hk : Keeps h h') {j : Job} (hj : Timely h j) : Timely h' j := by
  refine ⟨hj.opens, fun ping heq => (hj.arming ping heq).mono hk, fun hfired => ?_⟩
  rcases hj.fired hfired with hclosed | ⟨hlt, hlate⟩
  · exact .inl (hk.closed hclosed)
  · exact .inr ⟨hk.answered ▸ hlt.trans_le hk.pings, hk.late hlate⟩

theorem due_of_pingHandler (ht : t.alarm = .pingHandler) :
    ∀ ping, t.alarm = .pingTimeoutHandler ping → Due h ping := by
  rw [ht]
  exact nofun

theorem mem_of_stop {timer : Option ℕ} (ht : t ∈ (h.stop timer).timers) (hrun : t.running = true) :
    t ∈ h.timers := by
  cases timer with
  | none => exact ht
  | some i =>
    obtain ⟨j, hj⟩ := List.mem_iff_getElem?.mp ht
    change (h.timers.modify i _)[j]? = _ at hj
    rw [List.getElem?_modify] at hj
    obtain ⟨u, hu, heq⟩ := Option.map_eq_some_iff.mp hj
    split_ifs at heq
    · rw [← heq] at hrun
      cases hrun
    · rw [← heq]
      exact List.mem_of_getElem? hu

theorem mem_of_stopTimers (ht : t ∈ h.stopTimers.timers) (hrun : t.running = true) : t ∈ h.timers :=
  mem_of_stop (mem_of_stop ht hrun) hrun

theorem mem_of_armInterval (ht : t ∈ h.armInterval.timers) : t ∈ h.timers ∨ t.alarm = .pingHandler := by
  rcases List.mem_append.mp ht with ht | ht
  · exact .inl ht
  · rw [List.mem_singleton.mp ht]
    exact .inr rfl

theorem mem_of_restart (ht : t ∈ h.restart.timers) : t ∈ h.timers ∨ t.alarm = .pingHandler := by
  unfold Heart.restart at ht
  split_ifs at ht
  · exact mem_of_armInterval ht
  · exact .inl ht

theorem mem_of_beat {source : Option (ℕ × ℕ)} {op : Op} (ht : t ∈ (h.beat source op).timers)
    (hrun : t.running = true) : t ∈ h.timers ∨ t.alarm = .pingHandler := by
  have hsettle {source : Option (ℕ × ℕ)} (ht : t ∈ (h.settle source).timers) : t ∈ h.timers := by
    unfold Heart.settle at ht
    split at ht <;> exact ht
  cases op with
  | onPacket p =>
    simp only [Heart.beat] at ht
    split_ifs at ht
    · exact (mem_of_armInterval ht).imp_left fun ht => mem_of_stopTimers ht hrun
    · exact .inl ht
  | pingHandler =>
    simp only [Heart.beat] at ht
    split_ifs at ht
    · exact mem_of_armInterval ht
    · exact .inl ht
  | sendPacket | notify =>
    simp only [Heart.beat] at ht
    split_ifs at ht <;> exact .inl ht
  | closeWithReason | maybeUpgrade =>
    simp only [Heart.beat] at ht
    split_ifs at ht
    · exact .inl ht
    · exact .inl (mem_of_stopTimers ht hrun)
  | switch k => exact .inl (hsettle ht)
  | abort => exact (mem_of_restart ht).imp_left hsettle
  | _ => exact .inl ht

variable {s' : Session} {c : Choice} {op : Op} {ops : List Op} {new : List (List Op)}
  {source : Option (ℕ × ℕ)} {i : ℕ} {rest : List Job} {ts : List (List Job)}

def Pong (s : Session) (op : Op) : Prop := ∃ p : Packet, op = .onPacket p ∧ p.type = .pong ∧ s.readyState = .opened

theorem keeps_of_run (hrun : h.session.run c op = some (s', ops, new)) (hopens : op ≠ .setOpen)
    (hpong : ¬Pong h.session op) (source : Option (ℕ × ℕ)) : Keeps h (h.next source op s') := by
  have hbeats := h.beat_beats source op
  refine ⟨Session.run_closed hrun hopens, ?_, ?_, fun hlate => hbeats.late.trans hlate⟩
  · rcases hbeats.answered with heq | ⟨p, rfl⟩
    · exact heq
    · have hno : ¬(p.type = .pong ∧ h.session.readyState = .opened) := fun hp => hpong ⟨p, rfl, hp⟩
      simp only [Heart.next, Heart.beat, if_neg hno]
  · rcases hbeats.pings with heq | ⟨p, rfl⟩
    · exact heq.ge
    · simp only [Heart.next, Heart.beat]
      split_ifs
      · exact Nat.le_succ _
      · exact le_rfl

theorem timely_jobs (hj : Timely h ⟨.session op, source⟩) (hrun : h.session.run c op = some (s', ops, new))
    (hans : h.answered ≤ h.pings) (hk : Keeps h (h.next source op s'))
    (hsend : ∀ p : Packet, op = .sendPacket p → p.type = .ping → h.session.readyState ≠ .closing) :
    ∀ j ∈ h.jobs source op ops, Timely (h.next source op s') j := by
  refine List.forall_mem_append.mpr ⟨List.forall_mem_map.mpr fun op' hop' => ?_, List.forall_mem_map.mpr ?_⟩
  · have hcause := (Session.run_cause hrun).1 op' hop'
    refine ⟨?_, by simp, fun hfired => ?_⟩
    · intro heq
      obtain rfl := Duty.session.inj heq
      exact hcause
    · -- the handler goes on to close the session
      cases op' with
      | pingTimeoutHandler => exact hcause.elim
      | closeWithReason r =>
        cases r with
        | pingTimeout =>
          obtain rfl := hcause
          exact (hj.mono hk).fired trivial
        | _ => exact hfired.elim
      | _ => exact hfired.elim
  · unfold Heart.after
    split
    · rename_i p
      split
      · rename_i hping
        refine List.forall_mem_singleton.mpr ⟨by simp, fun ping heq => ?_, False.elim⟩
        obtain rfl := Duty.armTimeout.inj heq
        cases hrefuses : h.refuses with
        | true =>
          rcases of_decide_eq_true hrefuses with hclosing | hclosed
          · exact absurd hclosing (hsend p rfl hping)
          · exact .inl (hk.closed hclosed)
        | false =>
          refine .inr ⟨h.pings + 1, rfl, ?_, ?_⟩
          · rw [hk.answered]
            exact Nat.lt_succ_of_le hans
          · simp [Heart.next, Heart.beat, hping, hrefuses]
      · simp
    · split
      · simp
      · exact List.forall_mem_singleton.mpr ⟨by simp, by simp, False.elim⟩
    · simp

theorem timely_fork {P : Op → Prop} (hnew : Every P new)
    (hP : ∀ op, P op → op ≠ .setOpen ∧ ¬Fired (.session op)) : Every (Timely h) (new.map Heart.fork) := by
  refine List.forall_mem_map.mpr fun ops hops => List.forall_mem_map.mpr fun op hop => ?_
  obtain ⟨hopens, hfired⟩ := hP op (hnew ops hops op hop)
  exact ⟨fun heq => hopens (Duty.session.inj heq), nofun, fun hf => absurd hf hfired⟩

theorem Fair.keep (hw : Fair w) (hk : Keeps w.shared h)
    (htimers : ∀ t ∈ h.timers, t.running = true →
      t ∈ w.shared.timers ∨ ∀ ping, t.alarm = .pingTimeoutHandler ping → Due h ping)
    (hjobs : Every (Timely h) ts) : Fair ⟨h, ts⟩ := by
  refine ⟨?_, fun t ht hrun ping heq => ?_, hjobs⟩
  · rw [hk.answered]
    exact hw.answered.trans hk.pings
  · rcases htimers t ht hrun with ht | hdue
    · exact (hw.armed t ht hrun ping heq).mono hk
    · exact hdue ping heq

theorem Fair.arm {j : Job} (hw : Fair w) (hi : w.tasks[i]? = some (j :: rest)) (hk : Keeps w.shared h)
    (htimers : ∀ t ∈ h.timers, t.running = true →
      t ∈ w.shared.timers ∨ ∀ ping, t.alarm = .pingTimeoutHandler ping → Due h ping) :
    Fair ⟨h, w.tasks.set i rest⟩ :=
  hw.keep hk htimers ((hw.jobs.set hi (List.forall_mem_nil _)).mono fun _ hj => hj.mono hk)

theorem Fair.pong {p : Packet} (hw : Fair w)
    (hi : w.tasks[i]? = some (⟨.session (.onPacket p), source⟩ :: rest))
    (hrun : w.shared.session.run c (.onPacket p) = some (s', ops, new)) (hp : p.type = .pong)
    (hopen : w.shared.session.readyState = .opened) (hidle : Every (fun j => ¬UnderWay j.duty) w.tasks)
    (hstopped : ∀ t ∈ w.shared.stopTimers.timers, t.running = true → t.alarm = .pingHandler) :
    Fair (turn w i source (.onPacket p) s' ops rest new) := by
  simp only [Session.run, hopen, hp] at hrun
  obtain ⟨rfl, rfl, rfl⟩ := Stacks.run_inj hrun
  have hnext : w.shared.next source (.onPacket p) w.shared.session =
      { w.shared.stopTimers.armInterval with answered := w.shared.pings } := by
    simp only [Heart.next, Heart.beat, if_pos (And.intro hp hopen)]
    rfl
  rw [turn, hnext]
  refine ⟨le_rfl, fun t ht hrunning => due_of_pingHandler ?_, every_append.mpr ⟨?_, every_nil⟩⟩
  · exact (mem_of_armInterval ht).elim (fun ht => hstopped t ht hrunning) id
  · refine Every.set (fun js hjs j hj => ⟨(hw.jobs js hjs j hj).opens, ?_, ?_⟩) hi (List.forall_mem_nil _)
    · intro ping heq
      exact absurd (by rw [heq]; trivial) (hidle js hjs j hj)
    · intro hfired
      refine absurd ?_ (hidle js hjs j hj)
      generalize j.duty = d at hfired
      cases d with
      | session op => exact hfired
      | _ => exact hfired.elim

theorem Fair.session (hw : Fair w) (hi : w.tasks[i]? = some (⟨.session op, source⟩ :: rest))
    (hrun : w.shared.session.run c op = some (s', ops, new)) (hok : Prompt w (.go i c)) :
    Fair (turn w i source op s' ops rest new) := by
  have hprompt := hok _ (next?_eq_some hi)
  by_cases hpong : Pong w.shared.session op
  · obtain ⟨p, rfl, hp, hopen⟩ := hpong
    obtain ⟨hidle, hstopped⟩ := hprompt hp hopen
    exact hw.pong hi hrun hp hopen hidle hstopped
  · have hj := hw.jobs.head hi
    have hk := keeps_of_run hrun (fun heq => hj.opens (heq ▸ rfl)) hpong source
    refine hw.keep hk (fun t ht hrunning => ?_) (every_append.mpr ⟨?_, ?_⟩)
    · exact (mem_of_beat ht hrunning).imp_right due_of_pingHandler
    · refine (hw.jobs.mono fun j hj => hj.mono hk).set hi (timely_jobs hj hrun hw.answered hk ?_)
      rintro p rfl
      exact hprompt
    · refine timely_fork (Session.run_cause hrun).2 fun op hop => ?_
      cases op with
      | read | ticker => exact ⟨nofun, nofun⟩
      | _ => exact hop.2.elim

theorem Fair.step (hw : Fair w) (hok : Prompt w a) (hs : step w a = some w') : Fair w' := by
  cases step_does hs with
  | session hi hrun => exact hw.session hi hrun hok
  | schedulePing hi =>
    refine hw.arm hi ⟨id, rfl, le_rfl, id⟩ fun t ht _ => ?_
    exact (mem_of_armInterval ht).imp_right due_of_pingHandler
  | @armTimeout i c ping source rest hi =>
    refine hw.arm hi ⟨id, rfl, le_rfl, id⟩ fun t ht _ => ?_
    rcases List.mem_append.mp ht with ht | ht
    · exact .inl ht
    · refine .inr fun ping' heq => ?_
      rw [List.mem_singleton.mp ht] at heq
      obtain rfl := Alarm.pingTimeoutHandler.inj heq
      exact (hw.jobs.head hi).arming ping rfl
  | resume hi =>
    have hk : Keeps w.shared w.shared.restart := by
      unfold Heart.restart
      split_ifs <;> exact ⟨id, rfl, le_rfl, id⟩
    exact hw.arm hi hk fun t ht _ => (mem_of_restart ht).imp_right due_of_pingHandler
  | @event e s new _ ht he =>
    have hk : Keeps w.shared { w.shared with session := s } :=
      ⟨(Session.occurs_outside he).readyState.trans, rfl, le_rfl, id⟩
    refine hw.keep hk (fun t ht _ => .inl ht) (every_append.mpr ⟨hw.jobs.mono fun _ hj => hj.mono hk, ?_⟩)
    refine timely_fork (Session.occurs_entry he) fun op hop => ⟨?_, fun hfired => ?_⟩
    · rintro rfl
      exact hop
    · cases op with
      | pingTimeoutHandler => exact ht hop
      | closeWithReason => exact hop
      | _ => exact hfired
  | @fire i alarm hi =>
    have hk : Keeps w.shared
        { w.shared.stop (some i) with late := w.shared.late || alarm.overdue w.shared.answered } :=
      ⟨id, rfl, le_rfl, fun hlate => Bool.or_eq_true_iff.mpr (.inl hlate)⟩
    refine hw.keep hk (fun t (ht : t ∈ (w.shared.stop (some i)).timers) hrunning => .inl (mem_of_stop ht hrunning))
      (every_append.mpr ⟨hw.jobs.mono fun _ hj => hj.mono hk, every_cons.mpr ⟨?_, every_nil⟩⟩)
    cases alarm with
    | pingHandler => exact List.forall_mem_singleton.mpr ⟨nofun, nofun, nofun⟩
    | pingTimeoutHandler ping =>
      refine List.forall_mem_singleton.mpr ⟨nofun, nofun, fun _ => ?_⟩
      rcases hw.armed _ (List.mem_of_getElem? hi) rfl ping rfl with hclosed | ⟨n, rfl, hlt, hle⟩
      · exact .inl hclosed
      · exact .inr ⟨hlt.trans_le hle, Bool.or_eq_true_iff.mpr (.inr (decide_eq_true hlt))⟩

end Fair

theorem fair_opened (direct : Bool) : Fair (opened direct) := by
  refine ⟨le_rfl, nofun, every_cons.mpr ⟨List.forall_mem_singleton.mpr ⟨nofun, nofun, nofun⟩, ?_⟩⟩
  cases direct with
  | false => exact every_nil
  | true => exact every_cons.mpr ⟨List.forall_mem_singleton.mpr ⟨nofun, nofun, nofun⟩, every_nil⟩

/-- A session is closed for a ping timeout only if no Pong was processed since the last Ping was
queued, and only if the timeout of some Ping fired before a Pong for it was processed. -/
theorem ping_timeout_unanswered {direct : Bool} {ls : List Act} (hrun : Run step Prompt (opened direct) ls w)
    (hout : TimesOut w a) : w.shared.answered < w.shared.pings ∧ w.shared.late = true := by
  have hfair : Fair w := hrun.invariant Fair (fair_opened direct) fun _ _ _ hw hok hs => hw.step hok hs
  cases a with
  | event | fire => exact hout.elim
  | go i c =>
    obtain ⟨hopen, source, hnext⟩ := hout
    obtain ⟨js, hi, hhead⟩ := Option.bind_eq_some_iff.mp hnext
    obtain ⟨rest, rfl⟩ := List.head?_eq_some_iff.mp hhead
    exact ((hfair.jobs.head hi).fired trivial).resolve_left hopen

section NonVacuity

instance (d : Duty) : Decidable (Fired d) := by
  unfold Fired
  split <;> infer_instance

instance (d : Duty) : Decidable (UnderWay d) := by
  unfold UnderWay
  split <;> infer_instance

instance (w : State) (d : Duty) : Decidable (InOrder w d) := by
  unfold InOrder
  split <;> infer_instance

instance (w : State) : ∀ a, Decidable (Prompt w a)
  | .go i _ => inferInstanceAs (Decidable (∀ j ∈ next? w.tasks i, InOrder w j.duty))
  | .event _ | .fire _ => isTrue trivial

/-- Timer `t` fires; goroutine `i` does all that `pingHandler` does up to arming the timeout. -/
def sendPing (t i : ℕ) : List Act := .fire t :: List.replicate 9 (.go i .next)

def getPong : List Act := [.go 1 (.receive { type := .pong }), .go 1 .next, .go 1 .next]

/-- The client answers the first Ping and not the second. -/
def silent : List Act :=
  Act.go 0 .next :: (sendPing 0 2 ++ [Act.go 2 .next] ++ getPong) ++ (sendPing 2 3 ++ [Act.go 3 .next]) ++
    [Act.fire 3, .go 4 .next]

theorem silent_runs : (exec step Prompt (opened true) silent).isSome = true := by decide +kernel

def unanswered : State := (exec step Prompt (opened true) silent).get silent_runs

theorem ping_timeout_unanswered_silent : ∃ a, TimesOut unanswered a ∧ unanswered.shared.pings = 2 ∧
    unanswered.shared.answered < unanswered.shared.pings ∧ unanswered.shared.late = true := by
  have hout : TimesOut unanswered (.go 4 .next) := ⟨by decide +kernel, none, by decide +kernel⟩
  exact ⟨_, hout, by decide +kernel, ping_timeout_unanswered (run_of_isSome silent_runs) hout⟩

/-- The Pong is processed before `pingHandler` goes on to arm the timeout. -/
def quick : List Act := .go 0 .next :: (sendPing 0 2 ++ getPong ++ [Act.go 2 .next, .fire 2, .go 3 .next])

theorem quick_runs : (exec step always (opened true) quick).isSome = true := by decide +kernel

def answeredInTime : State := (exec step always (opened true) quick).get quick_runs

/-- The one Ping was answered before its timeout fired, and the session is closed for it. -/
theorem quick_pong_times_out : ¬ ∀ (direct : Bool) (ls : List Act) (w : State) (a : Act),
    Run step always (opened direct) ls w → TimesOut w a →
    w.shared.answered < w.shared.pings ∧ w.shared.late = true := by
  intro h
  have hout : TimesOut answeredInTime (.go 3 .next) := ⟨by decide +kernel, none, by decide +kernel⟩
  have hbad := h true quick answeredInTime _ (run_of_isSome quick_runs) hout
  have hgood : answeredInTime.shared.pings = answeredInTime.shared.answered := by decide +kernel
  exact hbad.1.ne hgood.symm

end NonVacuity

end Gosocketio.Engine.Heartbeat

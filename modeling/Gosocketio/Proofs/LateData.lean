import Gosocketio.Spec.ClientRead

/-! Messages that an Engine.IO client receives after it was closed. `closeWithError` sets
a flag that `onPacket` does not look at, and stops none of the loops; `Close` closes the
transport, but not before the loop has handed over the packets it has. -/

namespace Gosocketio.ClientRead

open Transport Client Runs

variable {rest : List Packet} {p : Packet}

def Stage.held : Stage → List Packet
  | .hand pkts => pkts
  | .received _ _ rest | .call _ _ rest => rest
  | _ => []

def NoMessage (pkts : List Packet) : Prop := ∀ p ∈ pkts, p.type ≠ .message

theorem NoMessage.tail (h : NoMessage (p :: rest)) : NoMessage rest :=
  fun q hq => h q (List.mem_cons_of_mem _ hq)

/-- The loop is not about to call `onData` for a packet that came too late. -/
def Stage.Timely : Stage → Prop
  | .received p true _ => p.type ≠ .message
  | .call _ late _ => late = false
  | _ => True

namespace Reader

variable {s s' : Reader} {a : Act} {t : TransportName} {st : Stage}

def closes (s : Reader) : Act → Bool
  | .timeout | .close => true
  | .readFails t => s.tport = t
  | .decodeFails => s.tport = .websocket
  | .turn t bad =>
    match s.stage t with
    | .received p _ _ => p.type = .close || bad && p.type = .open_
    | _ => false
  | _ => false

def payload : Act → List Packet
  | .read _ pkts => pkts
  | _ => []

/-- The client is closed only while no loop has a message left, and no loop reads a
message once it is closed. -/
def Orderly (s : Reader) (a : Act) : Prop :=
  (s.closes a = true → s.closed = false → ∀ t, NoMessage (s.stage t).held) ∧
    (s.closed = true → NoMessage (payload a))

structure Quiet (s : Reader) : Prop where
  held : s.closed = true → ∀ t, NoMessage (s.stage t).held
  stage : ∀ t, (s.stage t).Timely
  calls : ∀ c ∈ s.calls, c.2 = false

theorem stage_goto (s : Reader) (t t' : TransportName) (st : Stage) :
    (s.goto t st).stage t' = if t' = t then st else s.stage t' :=
  Function.update_apply ..

theorem Quiet.goto (h : Quiet s) (hheld : s.closed = true → NoMessage st.held) (hst : st.Timely) :
    Quiet (s.goto t st) := by
  refine ⟨fun hclosed t' => ?_, fun t' => ?_, h.calls⟩
  · rw [stage_goto]
    split_ifs
    · exact hheld hclosed
    · exact h.held hclosed t'
  · rw [stage_goto]
    split_ifs
    · exact hst
    · exact h.stage t'

theorem Quiet.closeWithError (h : Quiet s) (hheld : s.closed = false → ∀ t, NoMessage (s.stage t).held) :
    Quiet s.closeWithError := by
  unfold Reader.closeWithError
  split_ifs with hclosed
  · exact h
  · exact ⟨fun _ => hheld (Bool.eq_false_of_not_eq_true hclosed), h.stage, h.calls⟩

theorem Quiet.errorFrom (h : Quiet s)
    (hheld : s.tport = t → s.closed = false → ∀ t, NoMessage (s.stage t).held) : Quiet (s.errorFrom t) := by
  unfold Reader.errorFrom
  split_ifs with ht
  · exact h.closeWithError (hheld ht)
  · exact h

theorem quiet_initial (t : TransportName) : Quiet (initial t) := by
  cases t with
  | polling | websocket =>
    refine ⟨nofun, fun t => ?_, nofun⟩
    cases t <;> trivial

theorem stage_closeWithError (s : Reader) : s.closeWithError.stage = s.stage := by
  unfold closeWithError
  split_ifs <;> rfl

theorem Quiet.next {late : Bool} (h : Quiet s)
    (hstage : s.stage t = .received p late rest) : Quiet (s.goto t (.hand rest)) := by
  refine h.goto (fun hclosed => ?_) trivial
  have hheld := h.held hclosed t
  rw [hstage] at hheld
  exact hheld

theorem Quiet.turn {bad : Bool} (h : Quiet s) (hok : s.Orderly (.turn t bad)) (hs : s.turn t bad = some s') :
    Quiet s' := by
  have hheld := fun hclosed => h.held hclosed t
  have hst := h.stage t
  unfold Reader.turn at hs
  split at hs
  · cases hs
  · cases hs
  · cases hs
  · split_ifs at hs <;> cases hs <;> exact h.goto (fun _ => nofun) trivial
  · cases hs
    refine h.goto (fun _ => ?_) ?_
    · cases t <;> exact nofun
    · cases t <;> trivial
  · rename_i p rest hstage
    cases hs
    rw [hstage] at hheld
    split_ifs
    · exact h.goto (fun hclosed => (hheld hclosed).tail) trivial
    · refine h.goto (fun hclosed => (hheld hclosed).tail) ?_
      cases hclosed : s.closed with
      | false => trivial
      | true => exact hheld hclosed p List.mem_cons_self
  · rename_i p late rest hstage
    cases hs
    rw [hstage] at hheld hst
    have hclose : p.type = .close ∨ bad = true ∧ p.type = .open_ →
        s.closed = false → ∀ t, NoMessage (s.stage t).held := by
      intro htype
      refine hok.1 ?_
      simp [closes, hstage, htype]
    have hclosed (htype : p.type = .close ∨ bad = true ∧ p.type = .open_) :
        Quiet (s.closeWithError.goto t (.hand rest)) :=
      (h.closeWithError (hclose htype)).next (by rw [stage_closeWithError, hstage])
    unfold Reader.onPacket
    split
    · refine h.goto hheld ?_
      cases late with
      | false => rfl
      | true => exact absurd ‹_› hst
    · exact hclosed (.inl ‹_›)
    · split_ifs with hbad
      · exact hclosed (.inr ⟨hbad, ‹_›⟩)
      · exact h.next hstage
    · exact h.next hstage
  · rename_i p late rest hstage
    cases hs
    rw [hstage] at hheld hst
    refine Quiet.goto ⟨h.held, h.stage, ?_⟩ hheld trivial
    exact List.forall_mem_append.mpr ⟨h.calls, List.forall_mem_singleton.mpr hst⟩

theorem Quiet.step (h : Quiet s) (hok : s.Orderly a) (hs : s.step a = some s') : Quiet s' := by
  cases a with
  | turn t bad => exact h.turn hok hs
  | read t pkts =>
    rw [Reader.step] at hs
    split_ifs at hs
    cases hs
    exact h.goto hok.2 trivial
  | readFails t =>
    rw [Reader.step] at hs
    split_ifs at hs
    cases hs
    refine (h.errorFrom fun ht => hok.1 (decide_eq_true ht)).goto (fun _ => nofun) trivial
  | decodeFails =>
    rw [Reader.step] at hs
    split_ifs at hs
    cases hs
    exact h.errorFrom fun ht => hok.1 (decide_eq_true ht)
  | quit =>
    rw [Reader.step] at hs
    split_ifs at hs
    cases hs
    exact h.goto (fun _ => nofun) trivial
  | timeout =>
    cases hs
    exact h.closeWithError (hok.1 rfl)
  | close =>
    cases hs
    split_ifs with hclosed
    · exact h
    · exact ⟨fun _ => hok.1 rfl (Bool.eq_false_of_not_eq_true hclosed), h.stage, h.calls⟩
  | closeTransport =>
    rw [Reader.step] at hs
    split at hs
    · cases hs
    · cases hs
      exact { h with }
    · cases hs
      exact { h with }
  | pause =>
    cases hs
    exact { h with }
  | resume =>
    rw [Reader.step] at hs
    split_ifs at hs
    cases hs
    exact { h with }
  | upgrade =>
    rw [Reader.step] at hs
    split_ifs at hs
    cases hs
    exact Quiet.goto { h with } (fun _ => nofun) trivial

section Exact

/-- Only the loops move. -/
def Turns (_ : Reader) (a : Act) : Prop := ∃ t bad, a = .turn t bad

theorem closed_closeWithError (s : Reader) : s.closeWithError.closed = true := by
  unfold closeWithError
  split_ifs with h
  · exact h
  · rfl

theorem Turns.reaches {bad : Bool} (hs : s.turn t bad = some s') : Reaches Reader.step Turns s s' :=
  .one (.turn t bad) ⟨t, bad, rfl⟩ hs

theorem stage_goto_self (s : Reader) (t : TransportName) (st : Stage) : (s.goto t st).stage t = st := by
  rw [stage_goto, if_pos rfl]

section

variable (hclosed : s.closed = true)

include hclosed

theorem reaches_call {late : Bool}
    (hstage : s.stage t = .call p late rest) :
    ∃ s', Reaches Reader.step Turns s s' ∧ s'.closed = true ∧ s'.stage t = .hand rest ∧ (p, late) ∈ s'.calls := by
  have hs : s.turn t false = some ({ s with calls := s.calls ++ [(p, late)] }.goto t (.hand rest)) := by
    rw [Reader.turn, hstage]
  exact ⟨_, Turns.reaches hs, hclosed, stage_goto_self .., List.mem_append_right _ (List.mem_singleton_self _)⟩

/-- A packet that a closed client has received is dealt with, and a message ends in a call
of `onData`. -/
theorem reaches_received {late : Bool}
    (hstage : s.stage t = .received p late rest) :
    ∃ s', Reaches Reader.step Turns s s' ∧ s'.closed = true ∧ s'.stage t = .hand rest ∧
    (p.type = .message → (p, late) ∈ s'.calls) := by
  have hs : s.turn t false = some (s.onPacket t false p late rest) := by rw [Reader.turn, hstage]
  by_cases htype : p.type = .message
  · rw [Reader.onPacket, htype] at hs
    obtain ⟨s', hreach, hclosed', hstage', hcall⟩ :=
      reaches_call (s := s.goto t (.call p late rest)) hclosed (stage_goto_self ..)
    exact ⟨s', (Turns.reaches hs).trans hreach, hclosed', hstage', fun _ => hcall⟩
  · refine ⟨_, Turns.reaches hs, ?_, ?_, fun h => absurd h htype⟩
    · unfold Reader.onPacket
      split
      · exact hclosed
      · exact closed_closeWithError s
      · exact hclosed
      · exact hclosed
    · unfold Reader.onPacket
      split
      · contradiction
      · exact stage_goto_self ..
      · exact stage_goto_self ..
      · exact stage_goto_self ..

theorem reaches_late {pkts : List Packet} (hstage : s.stage t = .hand pkts)
    (hmessage : ¬ NoMessage pkts) : ∃ s', Reaches Reader.step Turns s s' ∧ ∃ p, (p, true) ∈ s'.calls := by
  induction pkts generalizing s with
  | nil => exact absurd (fun _ hp => absurd hp List.not_mem_nil) hmessage
  | cons q rest ih =>
    have hrest (hq : q.type ≠ .message) : ¬ NoMessage rest := by
      intro hno
      exact hmessage (List.forall_mem_cons.mpr ⟨hq, hno⟩)
    have hs : s.turn t false =
        some (s.goto t (if s.tport ≠ t ∧ q.type = .close then .hand rest else .received q s.closed rest)) := by
      rw [Reader.turn, hstage]
    split_ifs at hs with hskip
    · have hq : q.type ≠ .message := by
        rw [hskip.2]
        exact nofun
      obtain ⟨s', hreach, hlate⟩ := ih (s := s.goto t (.hand rest)) hclosed (stage_goto_self ..) (hrest hq)
      exact ⟨s', (Turns.reaches hs).trans hreach, hlate⟩
    · rw [hclosed] at hs
      obtain ⟨s₁, hreach, hclosed₁, hstage₁, hcall⟩ :=
        reaches_received (s := s.goto t (.received q true rest)) hclosed (stage_goto_self ..)
      by_cases hq : q.type = .message
      · exact ⟨s₁, (Turns.reaches hs).trans hreach, q, hcall hq⟩
      · obtain ⟨s', hreach', hlate⟩ := ih hclosed₁ hstage₁ (hrest hq)
        exact ⟨s', ((Turns.reaches hs).trans hreach).trans hreach', hlate⟩

theorem reaches_late_of_held (hmessage : ¬ NoMessage (s.stage t).held) :
    ∃ s', Reaches Reader.step Turns s s' ∧ ∃ p, (p, true) ∈ s'.calls := by
  cases hstage : s.stage t with
  | hand pkts =>
    rw [hstage] at hmessage
    exact reaches_late hclosed hstage hmessage
  | received p late rest =>
    rw [hstage] at hmessage
    obtain ⟨s₁, hreach, hclosed₁, hstage₁, -⟩ := reaches_received hclosed hstage
    obtain ⟨s', hreach', hlate⟩ := reaches_late hclosed₁ hstage₁ hmessage
    exact ⟨s', hreach.trans hreach', hlate⟩
  | call p late rest =>
    rw [hstage] at hmessage
    obtain ⟨s₁, hreach, hclosed₁, hstage₁, -⟩ := reaches_call hclosed hstage
    obtain ⟨s', hreach', hlate⟩ := reaches_late hclosed₁ hstage₁ hmessage
    exact ⟨s', hreach.trans hreach', hlate⟩
  | off | check | wait | ended =>
    rw [hstage] at hmessage
    exact absurd (fun _ hp => absurd hp List.not_mem_nil) hmessage

end

theorem held_goto (h : st.held = (s.stage t).held) (t' : TransportName) :
    ((s.goto t st).stage t').held = (s.stage t').held := by
  rw [stage_goto]
  split_ifs with ht
  · rw [h, ht]
  · rfl

theorem held_closeWithError (s : Reader) (t : TransportName) :
    (s.closeWithError.stage t).held = (s.stage t).held := by
  rw [stage_closeWithError]

theorem held_of_closes (hcloses : s.closes a = true) (hclosed : s.closed = false) (hs : s.step a = some s') :
    s'.closed = true ∧ ∀ t, (s'.stage t).held = (s.stage t).held := by
  cases a with
  | timeout =>
    cases hs
    exact ⟨closed_closeWithError s, held_closeWithError s⟩
  | close =>
    cases hs
    rw [if_neg (by rw [hclosed]; exact Bool.false_ne_true)]
    exact ⟨rfl, fun _ => rfl⟩
  | readFails t =>
    rw [Reader.step] at hs
    split_ifs at hs with hwait
    cases hs
    rw [errorFrom, if_pos (of_decide_eq_true hcloses)]
    refine ⟨closed_closeWithError s, fun t' => ?_⟩
    rw [held_goto (by rw [held_closeWithError, hwait]; rfl), held_closeWithError]
  | decodeFails =>
    rw [Reader.step] at hs
    split_ifs at hs
    cases hs
    rw [errorFrom, if_pos (of_decide_eq_true hcloses)]
    exact ⟨closed_closeWithError s, held_closeWithError s⟩
  | turn t bad =>
    rw [closes] at hcloses
    split at hcloses
    · rename_i p late rest hstage
      rw [Reader.step, Reader.turn, hstage] at hs
      obtain rfl := Option.some.inj hs
      have hnext : (s.closeWithError.goto t (.hand rest)).closed = true ∧
          ∀ t', ((s.closeWithError.goto t (.hand rest)).stage t').held = (s.stage t').held := by
        refine ⟨closed_closeWithError s, fun t' => ?_⟩
        rw [held_goto (by rw [held_closeWithError, hstage]; rfl), held_closeWithError]
      simp only [Bool.or_eq_true, Bool.and_eq_true, decide_eq_true_eq] at hcloses
      unfold Reader.onPacket
      rcases hcloses with htype | ⟨hbad, htype⟩
      · rw [htype]
        exact hnext
      · rw [htype, if_pos hbad]
        exact hnext
    · cases hcloses
  | _ => cases hcloses

/-- After a step against the order, the client is closed and a loop has a message. -/
theorem held_of_not_orderly (hbad : ¬ s.Orderly a) (hs : s.step a = some s') :
    s'.closed = true ∧ ∃ t, ¬ NoMessage (s'.stage t).held := by
  unfold Orderly at hbad
  rw [not_and_or] at hbad
  push Not at hbad
  rcases hbad with ⟨hcloses, hopen, t, hmessage⟩ | ⟨hclosed, hmessage⟩
  · obtain ⟨hclosed, hheld⟩ := held_of_closes hcloses hopen hs
    exact ⟨hclosed, t, by rw [hheld]; exact hmessage⟩
  · cases a with
    | read t pkts =>
      rw [Reader.step] at hs
      split_ifs at hs
      cases hs
      exact ⟨hclosed, t, by rw [stage_goto_self]; exact hmessage⟩
    | _ => exact absurd (fun _ hp => absurd hp List.not_mem_nil) hmessage

end Exact

/-- In a run in which the client is closed only while no loop has a message left and no
loop reads a message afterwards, `onData` is called for no packet received after the
client was closed; and after a step against this the loops alone get to such a call. -/
theorem no_data_after_close {t : TransportName} {acts : List Act}
    (hrun : Run Reader.step Orderly (initial t) acts s) :
    (∀ c ∈ s.calls, c.2 = false) ∧
    ∀ a s', s.step a = some s' → ¬ s.Orderly a →
      ∃ s'', Reaches Reader.step Turns s' s'' ∧ ∃ p, (p, true) ∈ s''.calls := by
  have hquiet : Quiet s :=
    hrun.invariant Quiet (quiet_initial t) fun _ _ _ h hok hs => h.step hok hs
  refine ⟨hquiet.calls, fun a s' hs hbad => ?_⟩
  obtain ⟨hclosed, t', hmessage⟩ := held_of_not_orderly hbad hs
  exact reaches_late_of_held hclosed hmessage

section NonVacuity

def message : Packet := { type := .message, data := [120] }

instance (pkts : List Packet) : Decidable (NoMessage pkts) :=
  inferInstanceAs (Decidable (∀ p ∈ pkts, p.type ≠ .message))

instance (s : Reader) : Decidable (∀ t, NoMessage (s.stage t).held) :=
  decidable_of_iff (NoMessage (s.stage .polling).held ∧ NoMessage (s.stage .websocket).held)
    ⟨fun h t => match t with | .polling => h.1 | .websocket => h.2, fun h => ⟨h _, h _⟩⟩

instance (s : Reader) (a : Act) : Decidable (s.Orderly a) := inferInstanceAs (Decidable
    ((s.closes a = true → s.closed = false → ∀ t, NoMessage (s.stage t).held) ∧
      (s.closed = true → NoMessage (payload a))))

def hand (pkts : List Packet) (turns : ℕ) : List Act :=
  .turn .polling false :: .read .polling pkts :: List.replicate turns (.turn .polling false)

/-- A message is received, and then a close packet. -/
def orderly : List Act := hand [message] 4 ++ hand [{ type := .close }] 3

theorem orderly_runs : (exec Reader.step Orderly (initial .polling) orderly).isSome = true := by
  decide +kernel

def orderlyState : Reader := (exec Reader.step Orderly (initial .polling) orderly).get orderly_runs

theorem no_data_after_close_orderly :
    orderlyState.closed = true ∧ (message, false) ∈ orderlyState.calls ∧ (message, true) ∉ orderlyState.calls := by
  refine ⟨by decide +kernel, by decide +kernel, fun hlate => ?_⟩
  exact Bool.noConfusion ((no_data_after_close (run_of_isSome orderly_runs)).1 _ hlate)

/-- No ping comes in time, and the poll loop goes on. -/
def late : List Act := .timeout :: hand [message] 3

theorem late_runs : (exec Reader.step always (initial .polling) late).isSome = true := by
  decide +kernel

theorem data_after_close : ¬ ∀ (t : TransportName) (acts : List Act) (s : Reader),
    Run Reader.step always (initial t) acts s → ∀ c ∈ s.calls, c.2 = false := by
  intro h
  have hcalls := h .polling late _ (run_of_isSome late_runs)
  revert hcalls
  decide +kernel

end NonVacuity

end Reader

end Gosocketio.ClientRead

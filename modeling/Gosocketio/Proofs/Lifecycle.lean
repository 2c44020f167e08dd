import Gosocketio.Sanity.Session

/-! The life of a session from `createSocket` on. `attach` starts the read loop of a websocket
before `open` sets the state to open, and `open` does not look at the state: a session that was
closed in between is open again. The hook for its end may come before `onConnect`, and comes
again with the next close. -/

namespace Gosocketio.Engine

open Transport Stacks Runs Pool
open EngineSocket (Tport)

def Hook.ends : Hook → Bool
  | .connect => false
  | .close _ => true

/-- The calls of that hook that are left to be made. -/
def Op.endings : Op → ℕ
  | .onClose _ => 1
  | _ => 0

def Op.connecting : Op → ℕ
  | .onConnect => 1
  | _ => 0

/-- What `createSocket` does before that, and nobody else does. -/
def Op.Creates : Op → Prop
  | .register | .setOpen => True
  | _ => False

namespace State

variable {w w' : State} {a : Act}

/-- A closed session stays closed; the hook for its end is called at most once, and not before
`onConnect`. -/
structure Monotone (s s' : Session) : Prop where
  closed : s.readyState = .closed → s'.readyState = .closed
  once : s'.hooks.countP Hook.ends ≤ 1
  order : ∀ reason, Hook.close reason ∈ s'.hooks → .connect ∈ s'.hooks

/-- `closeWithReason` passes its guard only after `createSocket` has called `onConnect`. -/
def InTurn (s : Session) : Op → Prop
  | .closeWithReason _ => s.readyState ≠ .closed → .connect ∈ s.hooks
  | _ => True

def Orderly (w : State) : Act → Prop
  | .go i _ => ∀ op ∈ next? w.tasks i, InTurn w.shared op
  | _ => True

def Unended (w : State) : Act → Prop
  | .go i _ => ∀ op ∈ next? w.tasks i, ∀ reason, op = .closeWithReason reason → w.shared.readyState = .closed
  | _ => True

section Creating

variable {s' : Session} {i : ℕ} {c : Choice} {op : Op} {rest ops : List Op} {new : List (List Op)}

/-- `onConnect` is called once, and after the other sections of `createSocket`. -/
structure Creating (w : State) : Prop where
  once : load Op.connecting w.tasks + w.shared.hooks.count .connect ≤ 1
  before : ∀ ops ∈ w.tasks, Followed Op.Creates .onConnect ops

theorem Creating.not_connected (h : Creating w) (hops : ops ∈ w.tasks) (hop : op ∈ ops) (hc : op.Creates) :
    .connect ∉ w.shared.hooks := by
  intro hmem
  have hle : 1 ≤ load Op.connecting w.tasks := le_load Op.connecting hops ((h.before ops hops).mem hop hc)
  have hpos := List.count_pos_iff.mpr hmem
  have honce := h.once
  omega

theorem not_creates_of_cause {op' : Op} (h : w.shared.Cause op op') : ¬ op'.Creates ∧ op'.connecting = 0 := by
  cases op' with
  | register | setOpen | onConnect => exact h.elim
  | _ => exact ⟨id, rfl⟩

theorem not_creates_of_entry {op' : Op} (h : w.shared.Entry e op') : ¬ op'.Creates ∧ op'.connecting = 0 := by
  cases op' with
  | register | setOpen | onConnect => exact h.elim
  | _ => exact ⟨id, rfl⟩

theorem hooks_run (hrun : w.shared.run c op = some (s', ops, new)) (hconnect : op ≠ .onConnect)
    (hclose : ∀ reason, op ≠ .onClose reason) : s'.hooks = w.shared.hooks := by
  rcases (Session.run_frame hrun).hooks with heq | heq | ⟨reason, heq⟩
  · exact heq
  · exact absurd heq hconnect
  · exact absurd heq (hclose reason)

theorem count_connect_run (hrun : w.shared.run c op = some (s', ops, new)) :
    s'.hooks.count .connect = w.shared.hooks.count .connect + op.connecting := by
  cases op with
  | onConnect | onClose =>
    obtain ⟨rfl, -⟩ := run_inj hrun
    exact List.count_append
  | _ => rw [hooks_run hrun nofun nofun]; rfl

theorem Creating.step (h : Creating w) (hs : w.step a = some w') : Creating w' := by
  cases step_does hs with
  | @go i c op rest ops s' new hi hrun =>
    obtain ⟨hcause, hnew⟩ := Session.run_cause hrun
    refine ⟨?_, List.forall_mem_append.mpr ⟨forall_set h.before ?_, fun t ht => ?_⟩⟩
    · obtain ⟨r, hold, hload⟩ := exists_load_go Op.connecting hi ops new
      have hsum : (ops.map Op.connecting).sum = 0 :=
        List.sum_eq_zero (List.forall_mem_map.mpr fun op' hop' => (not_creates_of_cause (hcause op' hop')).2)
      have hzero : load Op.connecting new = 0 :=
        load_eq_zero (hnew.mono fun op' hop' => (not_creates_of_cause hop'.1).2)
      have honce := h.once
      rw [hload, hsum, hzero, count_connect_run hrun]
      omega
    · have hbefore := h.before _ (List.mem_of_getElem? hi)
      exact (Followed.of_forall_not fun op' hop' => (not_creates_of_cause (hcause op' hop')).1).append hbefore.2
    · exact .of_forall_not fun op' hop' => (not_creates_of_cause (hnew t ht op' hop').1).1
  | @event e s' new he =>
    have hentry := Session.occurs_entry he
    refine ⟨?_, List.forall_mem_append.mpr ⟨h.before, fun t ht => ?_⟩⟩
    · rw [load_append, load_eq_zero (hentry.mono fun op' hop' => (not_creates_of_entry hop').2),
        (Session.occurs_outside he).hooks]
      exact h.once
    · exact .of_forall_not fun op' hop' => (not_creates_of_entry (hentry t ht op' hop')).1

end Creating

section Ended

/-- The hook is called, or about to be called, once if the session is closed, and then
`onConnect` was called before. -/
structure Ended (w : State) : Prop where
  creating : Creating w
  hooks : load Op.endings w.tasks + w.shared.hooks.countP Hook.ends ≤ if w.shared.readyState = .closed then 1 else 0
  connected : w.shared.readyState = .closed → .connect ∈ w.shared.hooks

variable {s' : Session} {i : ℕ} {c : Choice} {op : Op} {rest ops : List Op} {new : List (List Op)}

theorem sum_endings (hrun : w.shared.run c op = some (s', ops, new)) (hop : ∀ reason, op ≠ .closeWithReason reason) :
    (ops.map Op.endings).sum = 0 ∧ load Op.endings new = 0 := by
  obtain ⟨hops, hnew⟩ := Session.run_cause hrun
  constructor
  · refine List.sum_eq_zero (List.forall_mem_map.mpr fun op' hop' => ?_)
    cases op' with
    | onClose r =>
      obtain ⟨reason, heq, -⟩ := hops _ hop'
      exact absurd heq (hop reason)
    | _ => rfl
  · refine load_eq_zero (hnew.mono fun op' hop' => ?_)
    cases op' with
    | read | ticker => rfl
    | _ => exact hop'.2.elim

section

variable (hw : Ended w)

include hw

theorem Ended.keep {ts : List (List Op)} (hcreating : Creating ⟨s', ts⟩)
    (hload : load Op.endings ts ≤ load Op.endings w.tasks)
    (hhooks : s'.hooks.countP Hook.ends = w.shared.hooks.countP Hook.ends)
    (hconnect : .connect ∈ w.shared.hooks → .connect ∈ s'.hooks)
    (hclosed : w.shared.readyState = .closed ↔ s'.readyState = .closed) : Ended ⟨s', ts⟩ := by
  refine ⟨hcreating, ?_, fun h => hconnect (hw.connected (hclosed.mpr h))⟩
  have hle := hw.hooks
  simp only [hclosed] at hle
  exact (Nat.add_le_add hload hhooks.le).trans hle

theorem Ended.closeWithReason {reason : Reason}
    (hcreating : Creating ⟨s', w.tasks.set i (ops ++ rest) ++ new⟩)
    (hi : w.tasks[i]? = some (.closeWithReason reason :: rest))
    (hrun : w.shared.run c (.closeWithReason reason) = some (s', ops, new))
    (hturn : InTurn w.shared (.closeWithReason reason)) :
    Ended ⟨s', w.tasks.set i (ops ++ rest) ++ new⟩ := by
  obtain ⟨r, hold, hload⟩ := exists_load_go Op.endings hi ops new
  simp only [Session.run] at hrun
  split_ifs at hrun with hclosed <;> obtain ⟨rfl, rfl, rfl⟩ := run_inj hrun
  · refine hw.keep hcreating ?_ rfl id Iff.rfl
    rw [hload, hold]
    exact le_rfl
  · have hnone := hw.hooks
    rw [if_neg hclosed, hold] at hnone
    have hone : (((w.shared.transport.toList.flatMap fun t => [Op.discard t, .close t]) ++
        [Op.unregister, .onClose reason]).map Op.endings).sum = 1 := by
      cases w.shared.transport <;> rfl
    refine ⟨hcreating, ?_, fun _ => hturn hclosed⟩
    calc _ = r + 1 + 0 + w.shared.hooks.countP Hook.ends := by rw [hload, hone, load_nil]
      _ ≤ 1 := by omega

theorem Ended.onClose {reason : Reason}
    (hcreating : Creating ⟨s', w.tasks.set i (ops ++ rest) ++ new⟩)
    (hi : w.tasks[i]? = some (.onClose reason :: rest))
    (hrun : w.shared.run c (.onClose reason) = some (s', ops, new)) :
    Ended ⟨s', w.tasks.set i (ops ++ rest) ++ new⟩ := by
  obtain ⟨r, hold, hload⟩ := exists_load_go Op.endings hi ops new
  obtain ⟨rfl, rfl, rfl⟩ := run_inj hrun
  refine ⟨hcreating, ?_, fun hclosed => List.mem_append_left _ (hw.connected hclosed)⟩
  calc load Op.endings (w.tasks.set i ([] ++ rest) ++ []) + (w.shared.hooks ++ [Hook.close reason]).countP Hook.ends
      = r + (w.shared.hooks.countP Hook.ends + 1) := by
        rw [hload, List.countP_append]
        rfl
    _ = load Op.endings w.tasks + w.shared.hooks.countP Hook.ends := by
        rw [hold, Op.endings]
        omega
    _ ≤ if w.shared.readyState = .closed then 1 else 0 := hw.hooks

/-- `open` finds the session not closed, since `onConnect` comes later. -/
theorem Ended.not_closed (hi : w.tasks[i]? = some (.setOpen :: rest)) :
    w.shared.readyState ≠ .closed := fun hclosed =>
  hw.creating.not_connected (List.mem_of_getElem? hi) List.mem_cons_self trivial (hw.connected hclosed)

theorem Ended.closed_iff (hi : w.tasks[i]? = some (op :: rest))
    (hrun : w.shared.run c op = some (s', ops, new)) (hop : ∀ reason, op ≠ .closeWithReason reason) :
    w.shared.readyState = .closed ↔ s'.readyState = .closed := by
  constructor
  · intro hclosed
    refine Session.run_closed hrun ?_ hclosed
    rintro rfl
    exact hw.not_closed hi hclosed
  · intro hclosed
    rcases (Session.run_frame hrun).readyState with heq | rfl | rfl | ⟨reason, rfl⟩
    · exact heq.symm.trans hclosed
    · obtain ⟨rfl, -⟩ := run_inj hrun
      cases hclosed
    · simp only [Session.run] at hrun
      split_ifs at hrun <;> obtain ⟨rfl, -⟩ := run_inj hrun
      · exact hclosed
      · cases hclosed
    · exact absurd rfl (hop reason)

theorem Ended.step (hok : Orderly w a) (hs : w.step a = some w') : Ended w' := by
  have hcreating := hw.creating.step hs
  cases step_does hs with
  | @go i c op rest ops s' new hi hrun =>
    have hsum {op : Op} (hi : w.tasks[i]? = some (op :: rest)) (hrun : w.shared.run c op = some (s', ops, new))
        (hop : ∀ reason, op ≠ .closeWithReason reason) :
        load Op.endings (w.tasks.set i (ops ++ rest) ++ new) ≤ load Op.endings w.tasks := by
      obtain ⟨r, hold, hload⟩ := exists_load_go Op.endings hi ops new
      obtain ⟨hops, hnew⟩ := sum_endings hrun hop
      rw [hload, hold, hops, hnew]
      exact Nat.le_add_right _ _
    cases op with
    | closeWithReason reason =>
      exact hw.closeWithReason hcreating hi hrun (hok _ (next?_eq_some hi))
    | onClose reason => exact hw.onClose hcreating hi hrun
    | onConnect =>
      refine hw.keep hcreating (hsum hi hrun nofun) ?_ ?_ (hw.closed_iff hi hrun nofun)
      · obtain ⟨rfl, -⟩ := run_inj hrun
        exact List.countP_append.trans (Nat.add_zero _)
      · obtain ⟨rfl, -⟩ := run_inj hrun
        exact List.mem_append_left _
    | _ =>
      have hhooks := hooks_run hrun nofun nofun
      refine hw.keep hcreating (hsum hi hrun nofun) ?_ ?_ (hw.closed_iff hi hrun nofun)
      · rw [hhooks]
      · rw [hhooks]
        exact id
  | @event e s' new he =>
    have hout := Session.occurs_outside he
    refine hw.keep hcreating ?_ ?_ ?_ (by rw [hout.readyState])
    · have hnew : load Op.endings new = 0 := by
        refine load_eq_zero ((Session.occurs_entry he).mono fun op hop => ?_)
        cases op with
        | onClose => exact hop.elim
        | _ => rfl
      rw [load_append, hnew]
      exact le_rfl
    · rw [hout.hooks]
    · rw [hout.hooks]
      exact id

theorem Ended.monotone (hok : Orderly w a) (hs : w.step a = some w') :
    Monotone w.shared w'.shared := by
  have hw' := hw.step hok hs
  have hle := hw'.hooks
  refine ⟨?_, ?_, fun reason hmem => hw'.connected ?_⟩
  · cases step_does hs with
    | go hi hrun =>
      intro hclosed
      refine Session.run_closed hrun ?_ hclosed
      rintro rfl
      exact hw.not_closed hi hclosed
    | event he => exact (Session.occurs_outside he).readyState.trans
  · split_ifs at hle <;> omega
  · by_contra hopen
    have hpos : 0 < w'.shared.hooks.countP Hook.ends := List.countP_pos_iff.mpr ⟨_, hmem, rfl⟩
    rw [if_neg hopen] at hle
    omega

end

end Ended

section Clients

variable {s' : Session} {i : ℕ} {c : Choice} {op : Op} {rest ops : List Op} {new : List (List Op)}

/-- A session that is not closed is in `Server.clients`, or `createSocket` is yet to put it
there; only one that is closed is going to be taken out. -/
structure Listed (w : State) : Prop where
  registered : w.shared.readyState ≠ .closed → w.shared.registered = true ∨ ∃ ops ∈ w.tasks, .register ∈ ops
  unregister : ∀ ops ∈ w.tasks, .unregister ∈ ops → w.shared.readyState = .closed

theorem pending_register (hi : w.tasks[i]? = some (op :: rest)) (hop : op ≠ .register)
    (h : ∃ ops ∈ w.tasks, .register ∈ ops) : ∃ t ∈ w.tasks.set i (ops ++ rest) ++ new, .register ∈ t := by
  obtain ⟨t, ht, hreg⟩ := h
  by_cases heq : t = op :: rest
  · refine ⟨ops ++ rest, List.mem_append_left _ (mem_set_self hi), List.mem_append_right _ ?_⟩
    rw [heq] at hreg
    exact List.mem_of_ne_of_mem hop.symm hreg
  · exact ⟨t, List.mem_append_left _ (mem_set_of_ne hi ht heq), hreg⟩

theorem closed_of_unregister (hrun : w.shared.run c op = some (s', ops, new))
    (hmem : .unregister ∈ ops) : s'.readyState = .closed := by
  obtain ⟨reason, rfl, hopen⟩ := (Session.run_cause hrun).1 _ hmem
  simp only [Session.run, if_neg hopen] at hrun
  obtain ⟨rfl, -⟩ := run_inj hrun
  rfl

theorem Listed.go (h : Listed w) (hi : w.tasks[i]? = some (op :: rest))
    (hrun : w.shared.run c op = some (s', ops, new))
    (hclosed : w.shared.readyState = .closed → s'.readyState = .closed) :
    Listed ⟨s', w.tasks.set i (ops ++ rest) ++ new⟩ := by
  refine ⟨fun hopen => ?_, List.forall_mem_append.mpr ⟨forall_set ?_ ?_, fun t ht hun => ?_⟩⟩
  · by_cases hop : op = .register
    · subst hop
      obtain ⟨rfl, -⟩ := run_inj hrun
      exact .inl rfl
    · rcases (Session.run_frame hrun).registered with heq | heq | rfl
      · exact (h.registered (mt hclosed hopen)).imp heq.trans (pending_register hi hop)
      · exact absurd heq hop
      · exact absurd (hclosed (h.unregister _ (List.mem_of_getElem? hi) List.mem_cons_self)) hopen
  · exact fun t ht hun => hclosed (h.unregister t ht hun)
  · intro hun
    rcases List.mem_append.mp hun with hun | hun
    · exact closed_of_unregister hrun hun
    · exact hclosed (h.unregister _ (List.mem_of_getElem? hi) (List.mem_cons_of_mem _ hun))
  · exact ((Session.run_cause hrun).2 t ht _ hun).2.elim

theorem Listed.step (h : Listed w) (hw : Ended w) (hok : Orderly w a) (hs : w.step a = some w') :
    Listed w' := by
  have hclosed := (hw.monotone hok hs).closed
  cases step_does hs with
  | go hi hrun => exact h.go hi hrun hclosed
  | @event e s' new he =>
    have hout := Session.occurs_outside he
    refine ⟨fun hopen => ?_, List.forall_mem_append.mpr ⟨fun t ht hun => ?_, fun t ht hun => ?_⟩⟩
    · refine (h.registered (mt hclosed hopen)).imp hout.registered.trans ?_
      exact fun ⟨t, ht, hreg⟩ => ⟨t, List.mem_append_left _ ht, hreg⟩
    · exact hclosed (h.unregister t ht hun)
    · exact (Session.occurs_entry he t ht _ hun).elim

/-- The session is in `Server.clients` when `closeWithReason` passes its guard. -/
theorem Listed.registered_of_connected (h : Listed w) (hw : Ended w) (hopen : w.shared.readyState ≠ .closed)
    (hconnect : .connect ∈ w.shared.hooks) : w.shared.registered = true := by
  refine (h.registered hopen).resolve_right ?_
  rintro ⟨t, ht, hreg⟩
  exact hw.creating.not_connected ht hreg trivial hconnect

theorem open_of_unended (hw : Ended w) (hopen : w.shared.readyState ≠ .closed) (hok : Unended w a)
    (hs : w.step a = some w') : w'.shared.readyState ≠ .closed := by
  cases step_does hs with
  | @go i c op rest ops s' new hi hrun =>
    refine mt (hw.closed_iff hi hrun ?_).mpr hopen
    rintro reason rfl
    exact hopen (hok _ (next?_eq_some hi) reason rfl)
  | event he => rwa [(Session.occurs_outside he).readyState]

theorem listed_of_ended (hw : Ended w) (hl : Listed w) (hok : Orderly w a) (hbad : ¬Unended w a)
    (hs : w.step a = some w') : w'.shared.readyState = .closed ∧ w'.shared.registered = true := by
  cases step_does hs with
  | @go i c op rest ops s' new hi hrun =>
    obtain ⟨op', hop, reason, rfl, hopen⟩ : ∃ op', next? w.tasks i = some op' ∧
        ∃ reason, op' = .closeWithReason reason ∧ w.shared.readyState ≠ .closed := by
      simpa [Unended] using hbad
    obtain rfl := Option.some.inj ((next?_eq_some hi).symm.trans hop)
    have hreg := hl.registered_of_connected hw hopen (hok _ hop hopen)
    simp only [Session.run, if_neg hopen] at hrun
    obtain ⟨rfl, -⟩ := run_inj hrun
    exact ⟨rfl, hreg⟩
  | event => exact absurd trivial hbad

end Clients

theorem ended_created (direct : Bool) (data : Bytes) : Ended (created direct data) := by
  have hcreating : Creating (created direct data) := by
    refine ⟨le_rfl, fun ops hops => ?_⟩
    rw [List.mem_singleton.mp hops]
    simp [Followed, Op.Creates]
  exact ⟨hcreating, le_rfl, nofun⟩

theorem listed_created (direct : Bool) (data : Bytes) : Listed (created direct data) := by
  refine ⟨fun _ => .inr ⟨_, List.mem_singleton_self _, List.mem_cons_self⟩, fun ops hops hun => ?_⟩
  rw [List.mem_singleton.mp hops] at hun
  simp at hun

/-- In a run in which `closeWithReason` passes its guard only after `onConnect` was called, a
closed session stays closed, and the hook for its end is called at most once and after
`onConnect`. It is never in `Server.clients` and closed exactly if it is never closed. -/
theorem lifecycle_orderly {direct : Bool} {data : Bytes} {ls : List Act}
    (h : Run step Orderly (created direct data) ls w) :
    (∀ ls₁ a w₁ w₂, ls₁ ++ [a] <+: ls → Run step Orderly (created direct data) ls₁ w₁ →
        w₁.step a = some w₂ → Monotone w₁.shared w₂.shared) ∧
    ((∀ ls₁ w₁, ls₁ <+: ls → Run step Orderly (created direct data) ls₁ w₁ →
        ¬(w₁.shared.readyState = .closed ∧ w₁.shared.registered = true)) ↔
      Run step (fun w a => Orderly w a ∧ Unended w a) (created direct data) ls w) := by
  constructor
  · refine (h.steps_iff Ended (fun w _ w' => Monotone w.shared w'.shared) always (ended_created direct data)
      ?_ ?_).mpr (h.mono fun _ _ hok => ⟨hok, trivial⟩)
    · exact fun w a w' hw hok _ hs => ⟨hw.step hok hs, hw.monotone hok hs⟩
    · exact fun w a w' _ _ hbad => absurd trivial hbad
  · refine h.exact_iff (fun w => Ended w ∧ Listed w ∧ w.shared.readyState ≠ .closed) _ Unended ?_ ?_ ?_ ?_
    · exact ⟨ended_created direct data, listed_created direct data, nofun⟩
    · exact fun w hw hclosed => hw.2.2 hclosed.1
    · rintro w a w' ⟨hw, hl, hopen⟩ hok hend hs
      exact ⟨hw.step hok hs, hl.step hw hok hs, open_of_unended hw hopen hend hs⟩
    · rintro w a w' ⟨hw, hl, -⟩ hok hbad hs habsent
      exact habsent (listed_of_ended hw hl hok hbad hs)

section NonVacuity

instance (s : Session) (op : Op) : Decidable (InTurn s op) := by
  unfold InTurn
  split <;> infer_instance

instance (w : State) : ∀ a, Decidable (Orderly w a)
  | .go i _ => inferInstanceAs (Decidable (∀ op ∈ next? w.tasks i, InTurn w.shared op))
  | .event _ => isTrue trivial

/-- `createSocket` ends before the client sends a close packet. -/
def farewell : List Act :=
  List.replicate 13 (Act.go 0 .next) ++ Act.go 1 (.receive { type := .close }) :: List.replicate 8 (Act.go 1 .next)

theorem farewell_runs : (exec step Orderly (created true []) farewell).isSome = true := by decide +kernel

def parted : State := (exec step Orderly (created true []) farewell).get farewell_runs

theorem lifecycle_orderly_farewell : parted.shared.readyState = .closed ∧
    parted.shared.hooks = [.connect, .close .clientClose] ∧ parted.shared.registered = false ∧
    ∃ ls, Run step Orderly (created true []) ls parted ∧
      ∀ ls₁ a w₁ w₂, ls₁ ++ [a] <+: ls → Run step Orderly (created true []) ls₁ w₁ → w₁.step a = some w₂ →
        Monotone w₁.shared w₂.shared := by
  have hrun : Run step Orderly (created true []) farewell parted := run_of_isSome farewell_runs
  exact ⟨by decide +kernel, by decide +kernel, by decide +kernel, farewell, hrun, (lifecycle_orderly hrun).1⟩

/-- The connection is lost after `attach`; the read loop has closed the session before `open`
goes on. -/
def drop : List Act :=
  [Act.go 0 .next, .go 0 .next, .go 0 .next, .event (.lose 0), .go 1 .fail] ++ List.replicate 9 (Act.go 1 .next)

theorem drop_runs : (exec step always (created true []) drop).isSome = true := by decide +kernel

def dropped : State := (exec step always (created true []) drop).get drop_runs

theorem drop_goes_on : (dropped.step (.go 0 .next)).isSome = true := by decide +kernel

def reopened : State := (dropped.step (.go 0 .next)).get drop_goes_on

theorem closed_session_reopens : ¬ ∀ (direct : Bool) (data : Bytes) (ls : List Act) (a : Act) (w w' : State),
    Run step always (created direct data) ls w → w.step a = some w' →
    Monotone w.shared w'.shared ∧ ¬(w'.shared.readyState = .closed ∧ w'.shared.registered = true) := by
  intro h
  have hmono := (h true [] drop (.go 0 .next) dropped reopened (run_of_isSome drop_runs)
    (Option.some_get drop_goes_on).symm).1
  have hclosed : dropped.shared.readyState = .closed := by decide +kernel
  have hopen : reopened.shared.readyState = .opened := by decide +kernel
  cases hopen.symm.trans (hmono.closed hclosed)

end NonVacuity

end State

end Gosocketio.Engine

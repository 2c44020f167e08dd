import Gosocketio.Proofs.AfterDisconnect
import Gosocketio.Spec.Traffic

/-! A client whose CONNECT is rejected, and the broadcasts of the namespace. The socket
is in the adapter and connected before the connect handlers decide about it; a broadcast
that comes to it in between is sent. -/

namespace Gosocketio.Server

open Runs

namespace World

variable {J : Json} {W W' : World} {lab : Label} {x : SocketId}

theorem Settled.run {l : Section} (h : Settled W) (hok : W.server.SectionOk l) :
    Settled { W with server := W.server.run J l } :=
  { h.toShape.run hok with
    created := fun x hx => by
      obtain ⟨o, ho⟩ := Option.ne_none_iff_exists'.mp (h.created x hx)
      simp only [origin_run hok ho]
      exact nofun
    entering := h.entering
    refusing := h.refusing }

/-- `handleConnect` has decided against the socket, and is not at it any more. -/
structure Dismissed (W : World) (x : SocketId) : Prop where
  accepted : x ∉ W.accepted
  created : W.server.origin x ≠ none
  left : ∀ c k n, W.procs c ≠ .enter k x n

theorem Settled.dismissed (h : Settled W) {c : ConnId} {k : Refusal} {n msg : Bytes}
    (hp : W.procs c = .refuse k x n msg) : W.Dismissed x := by
  have hof : JobOf W.server c (.refuse k x n msg) := hp ▸ h.procs c
  refine ⟨h.refusing c k x n msg hp, ?_, fun d k' m hd => ?_⟩
  · rw [hof]
    exact nofun
  · have hof' : JobOf W.server d (.enter k' x m) := hd ▸ h.procs d
    obtain ⟨rfl, -⟩ := owner_unique hof'.1 hof
    cases hd.symm.trans hp

theorem Dismissed.quiet (h : W.Dismissed x) (hq : Quiet W W' lab) : W'.Dismissed x where
  accepted := by
    rw [hq.accepted]
    exact h.accepted
  created := by
    rw [hq.origin]
    exact h.created
  left c k n hp := h.left c k n (hq.proc_of hp nofun nofun)

theorem Dismissed.turn {c : ConnId} {job job' : Job} {l : Option Section} (h : W.Dismissed x)
    (hshape : Shape W) (ht : Turn J W W' lab c job l job') : W'.Dismissed x where
  accepted hx := by
    rcases ht.accepts hx with hx | ⟨n, -, hp, -⟩
    · exact h.accepted hx
    · exact h.left c _ n hp
  created := by
    obtain ⟨o, ho⟩ := Option.ne_none_iff_exists'.mp h.created
    rw [ht.origin hshape ho]
    exact nofun
  left d k n hp := by
    obtain ⟨fresh, hnext, hfresh⟩ := ht.next
    rcases ht.proc_cases d with ⟨rfl, hproc, hp'⟩ | ⟨hp', -⟩
    · obtain rfl : job' = .enter k x n := hp'.symm.trans hp
      cases hnext with
      | create => exact h.created (origin_eq_none.mpr (hfresh ⟨_, rfl⟩))
      | register | join | attach | mark | accept => exact h.left _ _ _ hproc
    · exact h.left d k n (hp'.symm.trans hp)

end World

namespace Traffic

variable {J : Json} {T T' : Traffic} {lab : Label}

/-- No event of the namespace was sent on behalf of a socket that was rejected. -/
def RejectedUnseen (T : Traffic) : Prop := ∀ x ∈ T.refused, x ∉ T.sent

/-- `Emit` in a broadcast finds a socket connected only if the connect handlers have
accepted it. -/
def Careful (T : Traffic) : Act → Prop
  | .cast i _ =>
    match T.casts[i]? with
    | some (.emit x _ _ _ _) => Dispatcher.isConnected T.world.server x = true → x ∈ T.world.accepted
    | _ => True
  | _ => True

structure Discreet (T : Traffic) : Prop where
  settled : World.Settled T.world
  passed : ∀ x name targets event args, .send x name targets event args ∈ T.casts → x ∈ T.world.accepted
  sent : ∀ x ∈ T.sent, x ∈ T.world.accepted
  refused : ∀ x ∈ T.refused, T.world.Dismissed x

section

variable (h : Discreet T)

include h

theorem Discreet.rejectedUnseen : T.RejectedUnseen := fun x hx hsent =>
  (h.refused x hx).accepted (h.sent x hsent)

theorem Discreet.step_world (hfresh : T.world.Fresh lab)
    (hs : T.step J (.world lab) = some T') : Discreet T' := by
  simp only [step, Option.map_eq_some_iff] at hs
  obtain ⟨W', hW', rfl⟩ := hs
  obtain ⟨hsettled, hmono, hkeep⟩ : World.Settled W' ∧ T.world.accepted ⊆ W'.accepted ∧
      ∀ x, T.world.Dismissed x → W'.Dismissed x := by
    rcases World.step_cases h.settled.toShape hfresh hW' with hq | ⟨c, job, l, job', ht⟩
    · exact ⟨h.settled.quiet hq, hq.accepted.ge, fun x hx => hx.quiet hq⟩
    · refine ⟨h.settled.turn ht, ?_, fun x hx => hx.turn h.settled.toShape ht⟩
      rw [ht.accepted]
      exact Finset.subset_union_left
  refine ⟨hsettled, fun x name targets event args hx => hmono (h.passed x name targets event args hx),
    fun x hx => hmono (h.sent x hx), fun x hx => ?_⟩
  rcases Finset.mem_union.mp hx with hx | hx
  · exact hkeep x (h.refused x hx)
  · cases lab with
    | process c fresh =>
      simp only [refusal] at hx
      split at hx
      · rename_i y n msg hp
        obtain rfl := Finset.mem_singleton.mp hx
        exact hsettled.dismissed hp
      · simp at hx
    | _ => simp [refusal] at hx

theorem Discreet.run {l : Section} (hok : T.world.server.SectionOk l) :
    Discreet { T with world := { T.world with server := T.world.server.run J l } } where
  settled := h.settled.run hok
  passed := h.passed
  sent := h.sent
  refused x hx := by
    obtain ⟨haccepted, hcreated, hleft⟩ := h.refused x hx
    obtain ⟨o, ho⟩ := Option.ne_none_iff_exists'.mp hcreated
    refine ⟨haccepted, ?_, hleft⟩
    simp only [origin_run hok ho]
    exact nofun

theorem Discreet.set {i : ℕ} {rest : Cast}
    (hrest : ∀ x name targets event args, rest = .send x name targets event args → x ∈ T.world.accepted) :
    Discreet { T with casts := T.casts.set i rest } :=
  { h with
    passed := fun x name targets event args hx => by
      rcases List.mem_or_eq_of_mem_set hx with hx | hx
      · exact h.passed x name targets event args hx
      · exact hrest x name targets event args hx.symm }

theorem Discreet.step_cast {i : ℕ} {order : List SocketId}
    (hcare : T.Careful (.cast i order)) (hs : T.step J (.cast i order) = some T') : Discreet T' := by
  simp only [step, Option.map_eq_some_iff, Option.bind_eq_some_iff] at hs
  obtain ⟨⟨pkt, rest⟩, ⟨t, hi, hnext⟩, rfl⟩ := hs
  simp only [Careful, hi] at hcare
  cases t with
  | collect b event args =>
    simp only [castNext, Option.ite_none_right_eq_some, Option.some.injEq, Prod.mk.injEq] at hnext
    obtain ⟨-, rfl, rfl⟩ := hnext
    exact h.set nofun
  | loop name targets event args =>
    cases targets with
    | nil => cases hnext
    | cons x targets =>
      simp only [castNext] at hnext
      split_ifs at hnext <;> obtain ⟨rfl, rfl⟩ := Prod.mk.inj (Option.some.inj hnext) <;> exact h.set nofun
  | emit x name targets event args =>
    simp only [castNext] at hnext
    split_ifs at hnext with hconn <;> obtain ⟨rfl, rfl⟩ := Prod.mk.inj (Option.some.inj hnext)
    · refine h.set fun y name' targets' event' args' he => ?_
      obtain ⟨rfl, -⟩ := Cast.send.inj he
      exact hcare hconn
    · exact h.set nofun
  | send x name targets event args =>
    simp only [castNext, Option.map_eq_some_iff, Prod.mk.injEq] at hnext
    obtain ⟨s, hs, rfl, rfl⟩ := hnext
    have hx : x ∈ T.world.accepted := h.passed x name targets event args (List.mem_of_getElem? hi)
    have hset : Discreet { T with casts := T.casts.set i (.loop name targets event args) } := h.set nofun
    have hrun := hset.run (J := J) (l := .send s.ec (eventPacket s.nsp event args)) trivial
    simp only [Option.elim_some, emitEvent, hs]
    refine { hrun with sent := fun y hy => ?_ }
    rcases List.mem_append.mp hy with hy | hy
    · exact h.sent y hy
    · rw [List.mem_singleton.mp hy]
      exact hx

theorem Discreet.step {a : Act} (hfresh : T.Fresh a) (hcare : T.Careful a)
    (hs : T.step J a = some T') : Discreet T' := by
  cases a with
  | world lab => exact h.step_world hfresh hs
  | joinRoom id room =>
    rw [← Option.some.inj hs]
    exact h.run (J := J) (l := .joinRoom id room) trivial
  | leaveRoom id room =>
    rw [← Option.some.inj hs]
    exact h.run (J := J) (l := .leaveRoom id room) trivial
  | broadcast b event args =>
    rw [← Option.some.inj hs]
    refine { h with passed := fun x name targets event args hx => ?_ }
    rcases List.mem_append.mp hx with hx | hx
    · exact h.passed x name targets event args hx
    · cases List.mem_singleton.mp hx
  | cast i order => exact h.step_cast hcare hs

end

structure Initial (T : Traffic) : Prop where
  world : World.Initial T.world
  casts : T.casts = []
  sent : T.sent = []
  refused : T.refused = ∅

theorem Initial.discreet (h : Initial T) : Discreet T where
  settled := h.world.tidy.settled
  passed x name targets event args hx := by simp [h.casts] at hx
  sent x hx := by simp [h.sent] at hx
  refused x hx := by simp [h.refused] at hx

/-- In every run in which `Emit` finds connected only sockets that the connect handlers
have accepted. -/
theorem careful_rejected_unseen {T₀ : Traffic} {as : List Act} (h₀ : Initial T₀)
    (hrun : Run (step J) (fun T a => T.Fresh a ∧ T.Careful a) T₀ as T) : T.RejectedUnseen :=
  (hrun.invariant Discreet h₀.discreet fun _ _ _ h hok hs => h.step hok.1 hok.2 hs).rejectedUnseen

section NonVacuity

open NonVacuity World

instance (T : Traffic) : ∀ a, Decidable (T.Fresh a)
  | .world l => inferInstanceAs (Decidable (T.world.Fresh l))
  | .joinRoom .. | .leaveRoom .. | .broadcast .. | .cast .. => isTrue trivial

instance (T : Traffic) (a : Act) : Decidable (T.Careful a) := by
  unfold Careful
  split
  · split <;> infer_instance
  · infer_instance

instance (T : Traffic) : Decidable T.RejectedUnseen :=
  inferInstanceAs (Decidable (∀ x ∈ T.refused, x ∉ T.sent))

/-- A server whose connect handler rejects the first socket. -/
def guarded : Namespace := { connect := [fun id => if id = [1] then some [110, 111] else none] }

def gate : Traffic :=
  { world := { server := { nsps := fun n => if n = defaultNamespace then some guarded else none } } }

theorem gate_nsps {name : Bytes} {ns : Namespace} (h : gate.world.server.nsps name = some ns) :
    ns = guarded := by
  simp only [gate] at h
  split_ifs at h
  exact (Option.some.inj h).symm

theorem gate_initial : Initial gate where
  world :=
    { heap := fun _ => rfl
      conns := fun _ => rfl
      engines := fun _ => rfl
      sockets := fun name ns h => by
        rw [gate_nsps h]
        rfl
      adapter := fun name ns id h => by
        rw [gate_nsps h]
        simp [guarded, Adapter.Has, Adapter.members]
      idle := fun _ => rfl
      tasks := rfl
      es := fun _ => rfl
      emptied := fun _ => rfl
      closed := fun _ => rfl
      accepted := rfl }
  casts := rfl
  sent := rfl
  refused := rfl

def serve (ls : List Label) : List Act := ls.map .world

/-- A CONNECT arrives as task `i` and is processed for `k` sections. -/
def knock (i k : ℕ) (id : SocketId) : List Act :=
  serve ([Label.onEngineData 0 9 connectText, .task i [], .pop 0, .process 0 id] ++
    List.replicate k (.process 0 [9]))

def announce (order : List SocketId) : List Act :=
  .broadcast { ns := defaultNamespace, room := [] } [97] [] :: List.replicate 4 (.cast 0 order)

/-- The first socket is rejected, the second accepted, and then there is a broadcast. -/
def admitted : List Act :=
  Act.world (.onEngineConnect 0 0) :: knock 0 10 [1] ++ knock 1 6 [2] ++ announce [[2]]

theorem admitted_runs : (exec (step textJson) (fun T a => T.Fresh a ∧ T.Careful a) gate
    admitted).isSome = true := by decide +kernel

theorem careful_rejected_unseen_admitted :
    ((exec (step textJson) (fun T a => T.Fresh a ∧ T.Careful a) gate admitted).get
      admitted_runs).RejectedUnseen :=
  careful_rejected_unseen gate_initial (run_of_isSome admitted_runs)

/-- The broadcast comes before the connect handlers have decided. -/
def premature : List Act :=
  Act.world (.onEngineConnect 0 0) :: knock 0 4 [1] ++ announce [[1]] ++ [Act.world (.process 0 [9])]

theorem premature_runs : (exec (step textJson) Fresh gate premature).isSome = true := by decide +kernel

/-- The client that is rejected has got the event. -/
theorem rejected_client_served : ¬ ∀ (J : Json) (T₀ T : Traffic) (as : List Act), J.Lawful →
    Initial T₀ → Run (step J) Fresh T₀ as T → T.RejectedUnseen := by
  intro h
  have hunseen := h textJson gate _ premature textJson_lawful gate_initial (run_of_isSome premature_runs)
  exact absurd hunseen (by decide +kernel)

end NonVacuity

end Traffic

end Gosocketio.Server

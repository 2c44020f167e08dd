import Gosocketio.Sanity.Goroutines

/-! The socket that `ec.sockets` holds for a namespace. A teardown deletes the entry
by the name of the namespace as its last step, a refused CONNECT does so too; while
neither meets the entry of another socket, and no socket is entered over another,
an accepted socket keeps its entry until it is disconnected itself. -/

namespace Gosocketio.Server.World

open Runs

variable {J : Json} {W W' : World} {lab : Label}

/-- The entry a goroutine is about to delete is its own or absent, and the one it is
about to write is absent. -/
def JobOrderly (S : Server) (c : ConnId) : Job → Prop
  | .enter .attach _ nsp => S.attached c nsp = none
  | .refuse .detach id name _ => S.attached c name = none ∨ S.attached c name = some id
  | .tear .detach id _ =>
    match S.heap id with
    | none => True
    | some s => S.attached s.ec s.nsp = none ∨ S.attached s.ec s.nsp = some id
  | _ => True

def Orderly (W : World) : Label → Prop
  | .process c _ => JobOrderly W.server c (W.procs c)
  | .task i _ =>
    match W.tasks[i]? with
    | some (.loop c job _ _) => JobOrderly W.server c job
    | _ => True
  | _ => True

theorem Orderly.job {c : ConnId} {job : Job} (h : W.Orderly lab) (hr : W.Resumes c job lab) :
    JobOrderly W.server c job := by
  cases lab with
  | process d fresh =>
    obtain ⟨rfl, hjob⟩ := hr
    exact hjob ▸ h
  | task i order =>
    obtain ⟨rest, reason, hi⟩ := hr
    rwa [Orderly, hi] at h
  | _ => exact hr.elim

/-- `handleConnect` has registered the socket and not yet written the entry, or is
about to take it back. -/
def Entering (W : World) (c : ConnId) (x : SocketId) (n : Bytes) : Prop :=
  W.procs c = .enter .join x n ∨ W.procs c = .enter .attach x n ∨
    ∃ msg, W.procs c = .refuse .unregister x n msg

structure Tidy (W : World) : Prop extends Shape W where
  created : ∀ x ∈ W.accepted, W.server.origin x ≠ none
  entering : ∀ c k x n, W.procs c = .enter k x n → k ≠ .reply → x ∉ W.accepted
  refusing : ∀ c k x n msg, W.procs c = .refuse k x n msg → x ∉ W.accepted
  unborn : ∀ c x n, W.procs c = .enter .register x n →
    x ∉ W.server.sockets n ∧ ∀ k reason, W.DoesFor c (.tear k x reason) → k = .check
  gone : ∀ c k x reason n, W.DoesFor c (.tear k x reason) → k ≠ .check →
    W.server.origin x = some (c, n) → x ∉ W.server.sockets n
  refused : ∀ c k x n msg, W.procs c = .refuse k x n msg → k ≠ .unregister → x ∉ W.server.sockets n
  held : ∀ c x n, W.emptied c = false → W.server.origin x = some (c, n) →
    x ∈ W.server.sockets n → W.Entering c x n ∨ W.server.attached c n = some x

/-- Whom `handleConnect` has accepted, and whom it has yet to decide about or refuses. -/
structure Settled (W : World) : Prop extends Shape W where
  created : ∀ x ∈ W.accepted, W.server.origin x ≠ none
  entering : ∀ c k x n, W.procs c = .enter k x n → k ≠ .reply → x ∉ W.accepted
  refusing : ∀ c k x n msg, W.procs c = .refuse k x n msg → x ∉ W.accepted

theorem Tidy.settled (h : Tidy W) : Settled W := { h with }

theorem Settled.quiet (h : Settled W) (hq : Quiet W W' lab) : Settled W' := by
  refine { h.toShape.quiet hq with
    created := fun x hx => ?_, entering := fun c k x n hp hk => ?_, refusing := fun c k x n msg hp => ?_ }
  · rw [hq.accepted] at hx
    rw [hq.origin]
    exact h.created x hx
  · rw [hq.accepted]
    exact h.entering c k x n (hq.proc_of hp nofun nofun) hk
  · rw [hq.accepted]
    exact h.refusing c k x n msg (hq.proc_of hp nofun nofun)

theorem Tidy.quiet (h : Tidy W) (hq : Quiet W W' lab) : Tidy W' := by
  refine { h.settled.quiet hq with
    unborn := fun c x n hp => ?_
    gone := fun c k x reason n hd hk ho => ?_, refused := fun c k x n msg hp hk => ?_
    held := fun c x n he ho hx => ?_ }
  · rw [hq.sockets]
    obtain ⟨hx, htears⟩ := h.unborn c x n (hq.proc_of hp nofun nofun)
    refine ⟨hx, fun k reason hd => ?_⟩
    by_contra hk
    exact hk (htears k reason (hq.doesFor_of hk hd))
  · rw [hq.origin] at ho
    rw [hq.sockets]
    exact h.gone c k x reason n (hq.doesFor_of hk hd) hk ho
  · rw [hq.sockets]
    exact h.refused c k x n msg (hq.proc_of hp nofun nofun) hk
  · rw [hq.origin] at ho
    rw [hq.sockets] at hx
    rw [hq.attached c n he]
    refine (h.held c x n (hq.emptied c he) ho hx).imp_left fun hent => ?_
    rcases hent with hp | hp | ⟨msg, hp⟩
    · exact .inl (hq.proc_kept hp nofun)
    · exact .inr (.inl (hq.proc_kept hp nofun))
    · exact .inr (.inr ⟨msg, hq.proc_kept hp nofun⟩)

theorem Shape.doesFor_owns (h : Shape W) {c : ConnId} {k : Teardown} {x : SocketId} {reason : String}
    (hd : W.DoesFor c (.tear k x reason)) : W.server.Owns c x := by
  rcases hd with hd | ⟨rest, r, hd⟩
  · have hof := h.procs c
    rwa [hd] at hof
  · exact (h.loops c _ rest r hd).1

theorem notMem_unregister (S : Server) (name : Bytes) (id : SocketId) :
    id ∉ (S.unregister name id).sockets name := by
  rw [sockets_unregister, if_pos rfl]
  exact Finset.notMem_erase id _

section Turn

variable {c d : ConnId} {job job' : Job} {l : Option Section} {x : SocketId} {n : Bytes}

theorem Settled.fresh_not_accepted (h : Settled W) (hx : W.server.heap x = none) : x ∉ W.accepted :=
  fun hmem => h.created x hmem (origin_eq_none.mpr hx)

theorem Tidy.fresh_not_registered (h : Tidy W) (hx : W.server.heap x = none) :
    x ∉ W.server.sockets n := by
  intro hmem
  obtain ⟨c, hc⟩ := h.consistent n x hmem
  rw [origin_eq_none.mpr hx] at hc
  cases hc

theorem owner_unique {S : Server} {m : Bytes} (h : S.origin x = some (c, m)) (h' : S.origin x = some (d, n)) :
    c = d ∧ m = n := by
  rw [h, Option.some.injEq, Prod.mk.injEq] at h'
  exact h'

theorem Turn.accepts (ht : Turn J W W' lab c job l job') (hx : x ∈ W'.accepted) :
    x ∈ W.accepted ∨ (∃ nsp, job = .enter .decide x nsp ∧ W.procs c = .enter .decide x nsp ∧
      job' = .enter .reply x nsp) := by
  rw [ht.accepted, Finset.mem_union] at hx
  refine hx.imp_right fun hx => ?_
  obtain ⟨fresh, hnext, -⟩ := ht.next
  cases hnext with
  | @accept y nsp =>
    obtain rfl : x = y := by simpa [acceptance] using hx
    rcases ht.procs with ⟨hproc, -⟩ | ⟨htears, -⟩
    · exact ⟨nsp, rfl, hproc, rfl⟩
    · exact htears.elim
  | _ => simp [acceptance] at hx

theorem Settled.turn_created (h : Settled W) (ht : Turn J W W' lab c job l job') (hx : x ∈ W'.accepted) :
    W'.server.origin x ≠ none := by
  have hsome : ∃ o, W.server.origin x = some o := by
    rcases ht.accepts hx with hx | ⟨nsp, -, hproc, -⟩
    · exact Option.ne_none_iff_exists'.mp (h.created x hx)
    · have hof := h.procs c
      rw [hproc] at hof
      exact ⟨_, hof.1⟩
  obtain ⟨o, ho⟩ := hsome
  rw [ht.origin h.toShape ho]
  exact nofun

theorem Settled.turn_entering (h : Settled W) (ht : Turn J W W' lab c job l job') {k : Entry}
    (hp : W'.procs d = .enter k x n) (hk : k ≠ .reply) : x ∉ W'.accepted := by
  intro hx
  obtain ⟨fresh, hnext, hfresh⟩ := ht.next
  rcases ht.proc_cases d with ⟨rfl, hproc, hp'⟩ | ⟨hp', hd⟩
  · obtain rfl : job' = .enter k x n := hp'.symm.trans hp
    rcases ht.accepts hx with hx | ⟨nsp, -, -, hjob'⟩
    · cases hnext with
      | create => exact h.fresh_not_accepted (hfresh ⟨_, rfl⟩) hx
      | accept => exact hk rfl
      | register | join | attach | mark => exact h.entering _ _ _ _ hproc nofun hx
    · injection hjob' with hk'
      exact hk hk'
  · rw [hp'] at hp
    rcases ht.accepts hx with hx | ⟨nsp, rfl, hproc, -⟩
    · exact h.entering d k x n hp hk hx
    · have hof := h.procs c
      have hof' := h.procs d
      rw [hproc] at hof
      rw [hp] at hof'
      exact hd (owner_unique hof'.1 hof.1).1

theorem Settled.turn_refusing (h : Settled W) (ht : Turn J W W' lab c job l job') {k : Refusal}
    {msg : Bytes} (hp : W'.procs d = .refuse k x n msg) : x ∉ W'.accepted := by
  intro hx
  obtain ⟨fresh, hnext, hfresh⟩ := ht.next
  rcases ht.proc_cases d with ⟨rfl, hproc, hp'⟩ | ⟨hp', hd⟩
  · obtain rfl : job' = .refuse k x n msg := hp'.symm.trans hp
    rcases ht.accepts hx with hx | ⟨nsp, -, -, hjob'⟩
    · cases hnext with
      | bar => exact h.fresh_not_accepted (hfresh ⟨_, rfl⟩) hx
      | reject => exact h.entering _ _ _ _ hproc nofun hx
      | unregister | withdraw | unhook | demote => exact h.refusing _ _ _ _ _ hproc hx
    · cases hjob'
  · rw [hp'] at hp
    rcases ht.accepts hx with hx | ⟨nsp, rfl, hproc, -⟩
    · exact h.refusing d k x n msg hp hx
    · have hof := h.procs c
      have hof' := h.procs d
      rw [hproc] at hof
      rw [hp] at hof'
      exact hd (owner_unique hof' hof.1).1

theorem Settled.turn (h : Settled W) (ht : Turn J W W' lab c job l job') : Settled W' :=
  { h.toShape.turn ht with
    created := fun _ hx => h.turn_created ht hx
    entering := fun _ _ _ _ hp hk => h.turn_entering ht hp hk
    refusing := fun _ _ _ _ _ hp => h.turn_refusing ht hp }

section

variable (h : Tidy W)

include h

section

variable (ht : Turn J W W' lab c job l job')

include ht

theorem Tidy.stays_out
    (hx : x ∉ W.server.sockets n) (hjob : job ≠ .enter .register x n) : x ∉ W'.server.sockets n := by
  intro hx'
  rcases ht.registered h.toShape hx' with hx' | ⟨hj, -⟩
  · exact hx hx'
  · exact hjob hj

theorem Tidy.registers (hx : x ∉ W.server.sockets n) (hx' : x ∈ W'.server.sockets n)
    (ho : W.server.origin x = some (d, n)) : d = c ∧ job = .enter .register x n ∧
      W.procs c = .enter .register x n := by
  rcases ht.registered h.toShape hx' with hmem | ⟨hj, hproc⟩
  · exact absurd hmem hx
  · have hof := h.procs c
    rw [hproc] at hof
    exact ⟨(owner_unique ho hof.1).1, hj, hproc⟩

theorem Tidy.turn_unborn (hp : W'.procs d = .enter .register x n) :
    x ∉ W'.server.sockets n ∧ ∀ k reason, W'.DoesFor d (.tear k x reason) → k = .check := by
  obtain ⟨fresh, hnext, hfresh⟩ := ht.next
  rcases ht.proc_cases d with ⟨rfl, hproc, hp'⟩ | ⟨hp', hd⟩
  · obtain rfl : job' = .enter .register x n := hp'.symm.trans hp
    cases hnext with
    | create =>
      have hnew := hfresh ⟨_, rfl⟩
      refine ⟨h.stays_out ht (h.fresh_not_registered hnew) nofun, fun k reason hdoes => ?_⟩
      rcases ht.doesFor hdoes with hdoes | ⟨-, hdoes⟩
      · obtain ⟨m, hm⟩ : W.server.Owns d x := h.doesFor_owns hdoes
        rw [origin_eq_none.mpr hnew] at hm
        cases hm
      · cases hdoes
  · rw [hp'] at hp
    obtain ⟨hx, htears⟩ := h.unborn d x n hp
    have hof : JobOf W.server d (.enter .register x n) := hp ▸ h.procs d
    refine ⟨fun hx' => ?_, fun k reason hdoes => ?_⟩
    · obtain ⟨rfl, rfl, -⟩ := h.registers ht hx hx' hof.1
      exact hd rfl
    · rcases ht.doesFor hdoes with hdoes | ⟨rfl, rfl⟩
      · exact htears k reason hdoes
      · have hdid := ht.resumes.doesFor
        cases hnext with
        | find => rfl
        | take hs hmem =>
          obtain ⟨-, rfl⟩ := owner_unique (origin_eq_some.mpr ⟨_, hs, rfl, rfl⟩) hof.1
          exact absurd hmem hx
        | leave | unmark | clearAcks | notify | handlers => cases htears _ _ hdid

theorem Tidy.turn_gone {k : Teardown}
    {reason : String} (hdoes : W'.DoesFor d (.tear k x reason)) (hk : k ≠ .check)
    (ho : W'.server.origin x = some (d, n)) : x ∉ W'.server.sockets n := by
  obtain ⟨fresh, hnext, -⟩ := ht.next
  rcases ht.doesFor hdoes with hdoes | ⟨rfl, rfl⟩
  · obtain ⟨m, hm⟩ : W.server.Owns d x := h.doesFor_owns hdoes
    obtain ⟨-, rfl⟩ := owner_unique (ht.origin h.toShape hm) ho
    have hx := h.gone d k x reason m hdoes hk hm
    intro hx'
    obtain ⟨rfl, -, hproc⟩ := h.registers ht hx hx' hm
    exact hk ((h.unborn d x m hproc).2 k reason hdoes)
  · have hdid := ht.resumes.doesFor
    obtain ⟨m, hm⟩ : W.server.Owns d x := by
      cases hnext with
      | find => exact absurd rfl hk
      | _ => exact h.doesFor_owns hdid
    obtain ⟨-, rfl⟩ := owner_unique (ht.origin h.toShape hm) ho
    cases hnext with
    | find => exact absurd rfl hk
    | take hs =>
      obtain ⟨-, rfl⟩ := owner_unique (origin_eq_some.mpr ⟨_, hs, rfl, rfl⟩) hm
      rw [ht.server]
      exact notMem_unregister _ _ _
    | leave | unmark | clearAcks | notify | handlers =>
      exact h.stays_out ht (h.gone d _ x reason m hdid nofun hm) nofun

theorem Tidy.turn_refused {k : Refusal}
    {msg : Bytes} (hp : W'.procs d = .refuse k x n msg) (hk : k ≠ .unregister) :
    x ∉ W'.server.sockets n := by
  obtain ⟨fresh, hnext, -⟩ := ht.next
  rcases ht.proc_cases d with ⟨rfl, hproc, hp'⟩ | ⟨hp', hd⟩
  · obtain rfl : job' = .refuse k x n msg := hp'.symm.trans hp
    cases hnext with
    | bar | reject => exact absurd rfl hk
    | unregister =>
      rw [ht.server]
      exact notMem_unregister _ _ _
    | withdraw | unhook | demote => exact h.stays_out ht (h.refused _ _ _ _ _ hproc nofun) nofun
  · rw [hp'] at hp
    have hof : JobOf W.server d (.refuse k x n msg) := hp ▸ h.procs d
    intro hx'
    obtain ⟨rfl, rfl, -⟩ := h.registers ht (h.refused d k x n msg hp hk) hx' hof
    exact hd rfl

section

variable (hord : JobOrderly W.server c job)

include hord

/-- No orderly goroutine takes the entry of a registered socket. -/
theorem Tidy.keeps_entry (hx : x ∈ W.server.sockets n)
    (ha : W.server.attached d n = some x) : W'.server.attached d n = some x := by
  obtain ⟨fresh, hnext, -⟩ := ht.next
  have hdid := ht.resumes.doesFor
  rw [ht.server]
  cases l with
  | none => exact ha
  | some l =>
    rcases attached_run (S := W.server) (J := J) (c := d) (n := n) (l := l) with ha' | ⟨y, rfl⟩ | rfl | rfl
    · exact ha'.trans ha
    · cases hnext with
      | attach => cases ha.symm.trans hord
    · cases hnext with
      | @unhook y _ msg =>
        -- the entry is that of the refused socket itself, which is not registered
        have hproc : W.procs c = .refuse .detach y n msg := by
          rcases ht.procs with ⟨hproc, -⟩ | ⟨htears, -⟩
          · exact hproc
          · exact htears.elim
        rcases hord with hord | hord
        · cases ha.symm.trans hord
        · obtain rfl : x = y := Option.some.inj (ha.symm.trans hord)
          exact absurd hx (h.refused c .detach x n msg hproc nofun)
      | @detach y reason s hs =>
        rw [JobOrderly, hs] at hord
        rcases hord with hord | hord
        · cases ha.symm.trans hord
        · obtain rfl : x = y := Option.some.inj (ha.symm.trans hord)
          obtain ⟨m, hm⟩ : W.server.Owns c x := h.doesFor_owns hdid
          obtain ⟨rfl, rfl⟩ := owner_unique hm (origin_eq_some.mpr ⟨s, hs, rfl, rfl⟩)
          exact absurd hx (h.gone _ .detach x reason _ hdid nofun hm)
    · cases hnext

theorem Tidy.turn_held (he : W'.emptied d = false)
    (ho : W'.server.origin x = some (d, n)) (hx : x ∈ W'.server.sockets n) :
    W'.Entering d x n ∨ W'.server.attached d n = some x := by
  obtain ⟨fresh, hnext, -⟩ := ht.next
  rcases ht.registered h.toShape hx with hx₀ | ⟨rfl, hproc⟩
  · obtain ⟨e, he₀⟩ := h.consistent n x hx₀
    obtain ⟨rfl, -⟩ := owner_unique (ht.origin h.toShape he₀) ho
    rcases h.held e x n (ht.emptied ▸ he) he₀ hx₀ with hent | ha
    · rcases ht.proc_cases e with ⟨rfl, hproc, hp'⟩ | ⟨hp', -⟩
      · rcases hent with hp | hp | ⟨msg, hp⟩
        · obtain rfl := hproc.symm.trans hp
          cases hnext with
          | join => exact .inl (.inr (.inl hp'))
        · obtain rfl := hproc.symm.trans hp
          cases hnext with
          | attach =>
            rw [ht.server]
            exact .inr ((attached_attach ..).trans (if_pos ⟨rfl, rfl⟩))
        · obtain rfl := hproc.symm.trans hp
          cases hnext with
          | unregister =>
            rw [ht.server] at hx
            exact absurd hx (notMem_unregister _ _ _)
      · rw [Entering, hp']
        exact .inl hent
    · exact .inr (h.keeps_entry ht hord hx₀ ha)
  · have hof := h.procs c
    rw [hproc] at hof
    obtain ⟨rfl, -⟩ := owner_unique (ht.origin h.toShape hof.1) ho
    cases hnext with
    | register =>
      rcases ht.procs with ⟨-, hprocs⟩ | ⟨htears, -⟩
      · exact .inl (.inl (by rw [hprocs, Function.update_self]))
      · exact htears.elim

theorem Tidy.turn : Tidy W' := { h.settled.turn ht with
    unborn := fun _ _ _ hp => h.turn_unborn ht hp
    gone := fun _ _ _ _ _ hd hk ho => h.turn_gone ht hd hk ho
    refused := fun _ _ _ _ _ hp hk => h.turn_refused ht hp hk
    held := fun _ _ _ he ho hx => h.turn_held ht hord he ho hx }

end

end

end

end Turn

theorem Tidy.step (h : Tidy W) (hfresh : W.Fresh lab) (hord : W.Orderly lab)
    (hs : W.step J lab = some W') : Tidy W' := by
  rcases step_cases h.toShape hfresh hs with hq | ⟨c, job, l, job', ht⟩
  · exact h.quiet hq
  · exact h.turn ht (hord.job ht.resumes)

theorem Initial.tidy (h : Initial W) : Tidy W := by
  have hidle {c : ConnId} {job : Job} (hp : W.procs c = job) (hjob : job ≠ .idle) : False :=
    hjob (hp.symm.trans (h.idle c))
  have hempty (n : Bytes) (x : SocketId) : x ∉ W.server.sockets n := by
    intro hx
    obtain ⟨c, hc⟩ := h.shape.consistent n x hx
    rw [origin_eq_none.mpr (h.heap x)] at hc
    cases hc
  refine { h.shape with
    created := by simp [h.accepted]
    entering := fun _ _ _ _ hp => (hidle hp nofun).elim
    refusing := fun _ _ _ _ _ hp => (hidle hp nofun).elim
    unborn := fun _ _ _ hp => (hidle hp nofun).elim
    gone := fun _ _ x _ n _ _ _ => hempty n x
    refused := fun _ _ _ _ _ hp => (hidle hp nofun).elim
    held := fun _ x n _ _ hx => absurd hx (hempty n x) }

/-- What a socket that `handleConnect` has accepted is promised: while it is
registered and its connection open, events of the client are dispatched to it. -/
def KeepsEntries (W : World) : Prop :=
  ∀ c nsp id, id ∈ W.accepted → W.server.origin id = some (c, nsp) →
    id ∈ W.server.sockets nsp → W.emptied c = false → W.server.attached c nsp = some id

theorem Tidy.keepsEntries (h : Tidy W) : KeepsEntries W := by
  intro c nsp id hacc ho hx he
  rcases h.held c id nsp he ho hx with (hp | hp | ⟨msg, hp⟩) | ha
  · exact absurd hacc (h.entering c _ id nsp hp nofun)
  · exact absurd hacc (h.entering c _ id nsp hp nofun)
  · exact absurd hacc (h.refusing c _ id nsp msg hp)
  · exact ha

/-- In every run in which a teardown or a refusal finds no entry but its own, and
`handleConnect` no entry at all, an accepted socket keeps its entry until it is
disconnected itself or the connection is closed. -/
theorem orderly_keeps_entries {W₀ : World} {ls : List Label} (h₀ : Initial W₀)
    (hrun : Run (World.step J) (fun W l => W.Fresh l ∧ W.Orderly l) W₀ ls W) : KeepsEntries W :=
  (hrun.invariant Tidy h₀.tidy fun _ _ _ h hok hs => h.step hok.1 hok.2 hs).keepsEntries

section NonVacuity

open NonVacuity

instance (W : World) (l : Label) : Decidable (W.Fresh l) := by
  unfold Fresh
  split <;> infer_instance

instance (S : Server) (c : ConnId) (job : Job) : Decidable (JobOrderly S c job) := by
  unfold JobOrderly
  split
  · infer_instance
  · infer_instance
  · split <;> infer_instance
  · infer_instance

instance (W : World) (l : Label) : Decidable (W.Orderly l) := by
  unfold Orderly
  split
  · infer_instance
  · split <;> infer_instance
  · infer_instance

def hall : World := { server := { nsps := fun n => if n = defaultNamespace then some {} else none } }

theorem hall_initial : Initial hall where
  heap _ := rfl
  conns _ := rfl
  engines _ := rfl
  sockets name ns h := by
    simp only [hall] at h
    split_ifs at h
    rw [← Option.some.inj h]
  adapter name ns id h := by
    simp only [hall] at h
    split_ifs at h
    rw [← Option.some.inj h]
    simp [Adapter.Has, Adapter.members]
  idle _ := rfl
  tasks := rfl
  es _ := rfl
  emptied _ := rfl
  closed _ := rfl
  accepted := rfl

/-- A CONNECT arrives as task `i` and is processed to the end. -/
def arrive (i : ℕ) (id : SocketId) : List Label :=
  [Label.onEngineData 0 9 connectText, .task i [], .pop 0, .process 0 id] ++
    List.replicate 6 (Label.process 0 [9])

/-- The application disconnects the socket, and the client connects again before
`disconnectSocket` has come to its last section. -/
def overtaken : List Label :=
  [Label.onEngineConnect 0 0] ++ arrive 0 [1] ++ [Label.disconnect [1]] ++ List.replicate 5 (Label.task 1 []) ++
    arrive 2 [2] ++ List.replicate 2 (Label.task 1 [])

/-- The same, but the client connects again afterwards. -/
def inTurn : List Label :=
  [Label.onEngineConnect 0 0] ++ arrive 0 [1] ++ [Label.disconnect [1]] ++ List.replicate 7 (Label.task 1 []) ++
    arrive 2 [2]

theorem inTurn_runs : (exec (World.step textJson) (fun W l => W.Fresh l ∧ W.Orderly l) hall
    inTurn).isSome = true := by decide +kernel

/-- The socket of the second CONNECT is accepted and has its entry. -/
theorem orderly_keeps_entries_in_turn :
    (((exec (World.step textJson) (fun W l => W.Fresh l ∧ W.Orderly l) hall inTurn).get
      inTurn_runs).server.attached 0 defaultNamespace) = some [2] :=
  orderly_keeps_entries hall_initial (run_of_isSome inTurn_runs) 0 defaultNamespace [2]
    (by decide +kernel) (by decide +kernel) (by decide +kernel) (by decide +kernel)

theorem overtaken_runs : (exec (World.step textJson) World.Fresh hall overtaken).isSome = true := by
  decide +kernel

/-- The teardown of the first socket deletes the entry of the second. -/
theorem entry_of_successor_deleted : ¬ ∀ (J : Json) (W₀ W : World) (ls : List Label), J.Lawful →
    Initial W₀ → Run (World.step J) World.Fresh W₀ ls W → KeepsEntries W := by
  intro h
  have hkept := h textJson hall _ overtaken textJson_lawful hall_initial (run_of_isSome overtaken_runs)
    0 defaultNamespace [2] (by decide +kernel) (by decide +kernel) (by decide +kernel)
    (by decide +kernel)
  exact absurd hkept (by decide +kernel)

end NonVacuity

end Gosocketio.Server.World

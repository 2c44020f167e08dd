import Gosocketio.Proofs.Successor

/-! The disconnect handlers of a socket. Whoever deletes the id from `n.sockets` in
`disconnectSocket` goes on to call them, and nobody else does. -/

namespace Gosocketio

def Effect.ends (id : SocketId) : Effect → Bool
  | .disconnected x _ => x = id
  | _ => false

namespace Server

open Runs

def handlersRun (S : Server) (id : SocketId) : ℕ := S.effects.countP (Effect.ends id)

/-- `disconnectSocket` has deleted the id and not yet called the handlers. -/
def Job.tearing (id : SocketId) : Job → ℕ
  | .tear .check _ _ | .tear .detach _ _ => 0
  | .tear _ x _ => if x = id then 1 else 0
  | _ => 0

/-- The sections that `disconnectSocket` has before it until it has called the handlers. -/
def Teardown.ahead : Teardown → ℕ
  | .check | .detach => 0
  | .leave => 5
  | .unmark => 4
  | .clearAcks => 3
  | .notify => 2
  | .handlers => 1

def Job.ahead (id : SocketId) : Job → ℕ
  | .tear k x _ => if x = id then k.ahead else 0
  | _ => 0

section Next

variable {J : Json} {S : Server} {c : ConnId} {fresh id : SocketId} {job job' : Job} {l : Option Section}

theorem owns_of_tearing (h : job.tearing id ≠ 0) (hj : World.JobOf S c job) : S.Owns c id := by
  cases job with
  | tear k x reason =>
    have hx : x = id := by
      by_contra hne
      cases k <;> simp [Job.tearing, hne] at h
    exact hx ▸ hj
  | idle | process | enter | refuse => exact absurd rfl h

theorem handlersRun_perform (e : Effect) :
    (S.perform e).handlersRun id = S.handlersRun id + if e.ends id then 1 else 0 := by
  rw [handlersRun, perform, List.countP_append, List.countP_singleton]
  rfl

/-- A goroutine that deletes the id is one more to call the handlers; apart from that,
the calls made and the calls to come stay the same. -/
theorem next_handled (h : Next S c fresh job l job') (hj : World.JobOf S c job) (id : SocketId) :
    (S.perhaps J l).handlersRun id + job'.tearing id = S.handlersRun id + job.tearing id ∨
    ∃ s reason, S.heap id = some s ∧ id ∈ S.sockets s.nsp ∧ l = some (.unregister s.nsp id) ∧
      job = .tear .check id reason ∧
      (S.perhaps J l).handlersRun id + job'.tearing id = S.handlersRun id + job.tearing id + 1 := by
  cases h with
  | handle e hx he =>
    refine .inl ?_
    change (S.perform e).handlersRun id = S.handlersRun id
    rw [handlersRun_perform]
    cases e with
    | disconnected x reason => exact absurd rfl (he x reason)
    | dispatch | invoke => rfl
  | @take x reason s hs hmem =>
    by_cases hx : x = id
    · subst hx
      refine .inr ⟨s, reason, hs, hmem, rfl, rfl, ?_⟩
      simp only [Job.tearing, if_true]
      rfl
    · refine .inl ?_
      simp only [Job.tearing, hx, if_false]
      rfl
  | clearAcks k hk =>
    refine .inl ?_
    rcases hk with rfl | rfl <;> rfl
  | @handlers x reason =>
    refine .inl ?_
    change (S.perform (.disconnected x reason)).handlersRun id + 0 = _
    simp [handlersRun_perform, Effect.ends, Job.tearing]
  | @missing k x reason hs =>
    obtain ⟨m, hm⟩ := hj
    rw [origin_eq_none.mpr hs] at hm
    cases hm
  | _ => exact .inl rfl

theorem next_ahead (h : Next S c fresh job l job') (hj : World.JobOf S c job)
    (htear : job.tearing id ≠ 0) : job'.ahead id < job.ahead id := by
  cases h with
  | @missing k x reason hs =>
    obtain ⟨m, hm⟩ := hj
    rw [origin_eq_none.mpr hs] at hm
    cases hm
  | @clearAcks x reason k hk =>
    have hx : x = id := by simpa [Job.tearing] using htear
    rcases hk with rfl | rfl <;> simp [Job.ahead, Teardown.ahead, hx]
  | @leave x | @unmark x | @notify x | @handlers x =>
    have hx : x = id := by simpa [Job.tearing] using htear
    simp [Job.ahead, Teardown.ahead, hx]
  | _ =>
    exact absurd rfl htear

end Next

namespace World

variable {J : Json} {W W' : World} {lab : Label} {c : ConnId} {id : SocketId}

/-- The goroutines that have deleted the id and have yet to call its handlers; only the
processing loop of its own connection is among them. -/
def inProgress (W : World) (c : ConnId) (id : SocketId) : ℕ :=
  (W.procs c).tearing id + W.tally (Job.tearing id)

/-- The calls of the handlers that were made or will be. -/
def handled (W : World) (c : ConnId) (id : SocketId) : ℕ :=
  W.server.handlersRun id + W.inProgress c id

/-- The socket belongs to the connection, if it exists. -/
def Claims (W : World) (c : ConnId) (id : SocketId) : Prop :=
  ∀ d n, W.server.origin id = some (d, n) → d = c

theorem claims_of_origin {n : Bytes} (h : W.server.origin id = some (c, n)) : W.Claims c id := by
  intro d m hm
  exact (owner_unique hm h).1

theorem Quiet.handled (h : Quiet W W' lab) : W'.handled c id = W.handled c id := by
  have hproc : (W'.procs c).tearing id = (W.procs c).tearing id := by
    rcases h.procs c with hc | ⟨hidle, hc | ⟨pkt, hc, -⟩⟩
    · rw [hc]
    · rw [hc, hidle]
    · rw [hc, hidle]
      rfl
  rw [World.handled, World.handled, handlersRun, h.effects, inProgress, hproc,
    h.tally (Job.tearing id) rfl fun _ _ => rfl]
  rfl

section Turn

variable {d : ConnId} {job job' : Job} {l : Option Section}

theorem not_tearing {S : Server} (hclaim : ∀ e n, S.origin id = some (e, n) → e = c) (hd : d ≠ c)
    (hj : JobOf S d job) : job.tearing id = 0 := by
  by_contra h
  obtain ⟨m, hm⟩ := owns_of_tearing h hj
  exact hd (hclaim d m hm)

section

variable (ht : Turn J W W' lab d job l job')

include ht

theorem Turn.tallied (f : Job → ℕ)
    (hf : W'.procs d = job' → d ≠ c → f job = f job') :
    f (W'.procs c) + W'.tally f + f job = f (W.procs c) + W.tally f + f job' := by
  rcases ht.tally f with ⟨hjob, hprocs, htally⟩ | ⟨hprocs, htally⟩
  · rw [htally]
    have hd' : W'.procs d = job' := by rw [hprocs, Function.update_self]
    by_cases hd : d = c
    · subst hd
      rw [hd', hjob]
      omega
    · rw [hf hd' hd, hprocs, Function.update_of_ne (Ne.symm hd)]
  · rw [hprocs]
    omega

theorem Turn.inProgress (h : Shape W) (hc : W'.Claims c id) :
    W'.inProgress c id + job.tearing id = W.inProgress c id + job'.tearing id := by
  have hc₀ : W.Claims c id := fun e n he => hc e n (ht.origin h he)
  refine ht.tallied (Job.tearing id) fun hd' hd => ?_
  have hj' : JobOf W'.server d job' := hd' ▸ (h.turn ht).procs d
  rw [not_tearing hc₀ hd (ht.jobOf h), not_tearing hc hd hj']

theorem Turn.handled (h : Shape W) (hc : W'.Claims c id) :
    W'.handled c id = W.handled c id ∨
    ∃ n, W.server.origin id = some (c, n) ∧ id ∈ W.server.sockets n ∧ id ∉ W'.server.sockets n ∧
      W'.handled c id = W.handled c id + 1 := by
  obtain ⟨fresh, hnext, -⟩ := ht.next
  have hcount := next_handled (J := J) hnext (ht.jobOf h) id
  have hprogress := ht.inProgress h hc
  unfold World.handled
  rw [← ht.server] at hcount
  rcases hcount with hcount | ⟨s, reason, hs, hmem, rfl, rfl, hcount⟩
  · exact .inl (by omega)
  · have ho : W.server.origin id = some (s.ec, s.nsp) := origin_eq_some.mpr ⟨s, hs, rfl, rfl⟩
    obtain rfl : s.ec = c := hc _ _ (ht.origin h ho)
    refine .inr ⟨s.nsp, ho, hmem, ?_, by omega⟩
    rw [ht.server]
    exact notMem_unregister _ _ _

end

end Turn

/-- The handlers of a socket are called, or about to be called, at most once, and not
before the socket is taken out of its namespace. -/
structure Once (W : World) : Prop extends Shape W where
  once : ∀ c id, W.Claims c id → W.handled c id ≤ 1
  unheard : ∀ c id, W.server.origin id = none → W.handled c id = 0
  unborn : ∀ c id n, W.procs c = .enter .register id n →
    id ∉ W.server.sockets n ∧ W.handled c id = 0
  registered : ∀ c id n, W.server.origin id = some (c, n) → id ∈ W.server.sockets n →
    W.handled c id = 0

theorem Once.quiet (h : Once W) (hq : Quiet W W' lab) : Once W' := by
  refine { h.toShape.quiet hq with
    once := fun c id hc => ?_, unheard := fun c id ho => ?_, unborn := fun c id n hp => ?_
    registered := fun c id n ho hid => ?_ }
  · rw [hq.handled]
    refine h.once c id fun d n hd => hc d n ?_
    rwa [hq.origin]
  · rw [hq.origin] at ho
    rw [hq.handled]
    exact h.unheard c id ho
  · rw [hq.sockets, hq.handled]
    exact h.unborn c id n (hq.proc_of hp nofun nofun)
  · rw [hq.origin] at ho
    rw [hq.sockets] at hid
    rw [hq.handled]
    exact h.registered c id n ho hid

section Turn

variable {d : ConnId} {job job' : Job} {l : Option Section}

theorem Once.turn (h : Once W) (ht : Turn J W W' lab d job l job') : Once W' := by
  have hcount (c : ConnId) (id : SocketId) (hc : W'.Claims c id) := ht.handled h.toShape hc
  -- a socket that is in no namespace is not taken out of one
  have hkeep {c : ConnId} {id : SocketId} (hc : W'.Claims c id) (h₀ : W.handled c id = 0)
      (hout : ∀ n, W.server.origin id = some (c, n) → id ∈ W'.server.sockets n ∨ id ∉ W.server.sockets n) :
      W'.handled c id = 0 := by
    rcases hcount c id hc with heq | ⟨n, ho, hmem, hnot, -⟩
    · rw [heq, h₀]
    · rcases hout n ho with hin | hout
      · exact absurd hin hnot
      · exact absurd hmem hout
  refine { h.toShape.turn ht with
    once := fun c id hc => ?_, unheard := fun c id ho => ?_, unborn := fun c id n hp => ?_
    registered := fun c id n ho hid => ?_ }
  · rcases hcount c id hc with heq | ⟨n, ho, hmem, -, heq⟩
    · rw [heq]
      exact h.once c id fun e m he => hc e m (ht.origin h.toShape he)
    · rw [heq, h.registered c id n ho hmem]
  · have ho₀ : W.server.origin id = none := by
      by_contra hne
      obtain ⟨o, ho'⟩ := Option.ne_none_iff_exists'.mp hne
      rw [ht.origin h.toShape ho'] at ho
      cases ho
    refine hkeep (fun e n he => ?_) (h.unheard c id ho₀) fun n he => ?_
    · rw [ho] at he
      cases he
    · rw [ho₀] at he
      cases he
  · have hof' : JobOf W'.server c (.enter .register id n) := hp ▸ (h.toShape.turn ht).procs c
    have hc := claims_of_origin hof'.1
    obtain ⟨hout, h₀, hjob⟩ : id ∉ W.server.sockets n ∧ W.handled c id = 0 ∧
        job ≠ .enter .register id n := by
      rcases ht.proc_cases c with ⟨rfl, -, hp'⟩ | ⟨hp', hd⟩
      · obtain ⟨fresh, hnext, hfresh⟩ := ht.next
        obtain rfl : job' = .enter .register id n := hp'.symm.trans hp
        cases hnext with
        | create =>
          have hnew := origin_eq_none.mpr (hfresh ⟨_, rfl⟩)
          refine ⟨fun hmem => ?_, h.unheard c id hnew, nofun⟩
          obtain ⟨e, he⟩ := h.consistent _ id hmem
          rw [hnew] at he
          cases he
      · rw [hp'] at hp
        obtain ⟨hout, h₀⟩ := h.unborn c id n hp
        refine ⟨hout, h₀, ?_⟩
        rintro rfl
        have hof : JobOf W.server d (.enter .register id n) := ht.jobOf h.toShape
        exact hd (owner_unique (ht.origin h.toShape hof.1) hof'.1).1.symm
    refine ⟨fun hmem => ?_, hkeep hc h₀ fun m hm => .inr ?_⟩
    · rcases ht.registered h.toShape hmem with hmem | ⟨hreg, -⟩
      · exact hout hmem
      · exact hjob hreg
    · rw [(owner_unique (ht.origin h.toShape hm) hof'.1).2]
      exact hout
  · refine hkeep (claims_of_origin ho) ?_ fun m hm => .inl ?_
    · rcases ht.registered h.toShape hid with hmem | ⟨rfl, hproc⟩
      · obtain ⟨e, he⟩ := h.consistent n id hmem
        obtain ⟨rfl, -⟩ := owner_unique (ht.origin h.toShape he) ho
        exact h.registered e id n he hmem
      · have hof : JobOf W.server d (.enter .register id n) := ht.jobOf h.toShape
        obtain ⟨rfl, -⟩ := owner_unique (ht.origin h.toShape hof.1) ho
        exact (h.unborn d id n hproc).2
    · rw [(owner_unique (ht.origin h.toShape hm) ho).2]
      exact hid

end Turn

theorem Once.step (h : Once W) (hfresh : W.Fresh lab) (hs : W.step J lab = some W') : Once W' := by
  rcases step_cases h.toShape hfresh hs with hq | ⟨c, job, l, job', ht⟩
  · exact h.quiet hq
  · exact h.turn ht

theorem Initial.once (h : Initial W) (he : W.server.effects = []) : Once W := by
  have hzero (c : ConnId) (id : SocketId) : W.handled c id = 0 := by
    rw [handled, inProgress, handlersRun, he, h.idle, tally, h.tasks]
    rfl
  exact { h.shape with
    once := fun c id _ => by rw [hzero]; exact Nat.zero_le 1
    unheard := fun c id _ => hzero c id
    unborn := fun c id n hp => by rw [h.idle] at hp; cases hp
    registered := fun c id n _ _ => hzero c id }

/-- `rejectConnect` is the one that takes the socket out of the namespace. -/
def Rejects (W : World) (id : SocketId) (n : Bytes) : Label → Prop
  | .process c _ => ∃ msg, W.procs c = .refuse .unregister id n msg
  | _ => False

def Disconnects (W : World) (id : SocketId) : Label → Prop
  | .process c _ => ∃ reason, W.procs c = .tear .check id reason
  | .task i _ => ∃ c rest reason reason', W.tasks[i]? = some (.loop c (.tear .check id reason) rest reason')
  | _ => False

section Leaving

variable {n : Bytes}

theorem Once.disconnects (h : Once W) (hs : W.step J lab = some W') (hdis : W.Disconnects id lab)
    (hin : id ∈ W.server.sockets n) : id ∉ W'.server.sockets n := by
  have hnext (c : ConnId) (fresh : SocketId) (reason : String) :
      (W.server.next c fresh (.tear .check id reason)).1 = some (.unregister n id) := by
    obtain ⟨e, ho⟩ := h.consistent n id hin
    obtain ⟨s, hs, -, rfl⟩ := origin_eq_some.mp ho
    have hany : (W.server.nsps s.nsp).any (fun n => id ∈ n.sockets) = true := by
      rw [sockets] at hin
      cases hn : W.server.nsps s.nsp with
      | none => simp [hn] at hin
      | some ns => simpa [hn] using hin
    simp only [next, hs, Option.elim_some, tearNext, hany, if_true]
  cases lab with
  | process c fresh =>
    obtain ⟨reason, hproc⟩ := hdis
    cases hs
    change id ∉ (W.server.perhaps J (W.server.next c fresh (W.procs c)).1).sockets n
    rw [hproc, hnext]
    exact notMem_unregister W.server n id
  | task i order =>
    obtain ⟨c, rest, reason, reason', hi⟩ := hdis
    simp only [World.step, hi, Option.bind_some, runTask, Option.some.injEq] at hs
    subst hs
    rw [hnext]
    exact notMem_unregister W.server n id
  | onEngineConnect | onEngineData | onEngineClose | disconnect | pop => exact hdis.elim

theorem Once.grows (h : Once W) (hfresh : W.Fresh lab) (hs : W.step J lab = some W')
    (ho : W.server.origin id = some (c, n)) :
    W'.server.origin id = some (c, n) ∧ W.handled c id ≤ W'.handled c id := by
  rcases step_cases h.toShape hfresh hs with hq | ⟨d, job, l, job', ht⟩
  · exact ⟨by rw [hq.origin, ho], hq.handled.ge⟩
  · have ho' := ht.origin h.toShape ho
    refine ⟨ho', ?_⟩
    rcases ht.handled h.toShape (claims_of_origin ho') with heq | ⟨m, -, -, -, heq⟩ <;> omega

/-- A socket that leaves its namespace by another way than `rejectConnect` has a
goroutine that goes on to call its handlers. -/
theorem Once.leaves (h : Once W) (hfresh : W.Fresh lab) (hs : W.step J lab = some W')
    (hin : id ∈ W.server.sockets n) (hout : id ∉ W'.server.sockets n) (hrej : ¬ W.Rejects id n lab) :
    ∃ c, W'.server.origin id = some (c, n) ∧ W'.handled c id = 1 := by
  obtain ⟨c, ho⟩ := h.consistent n id hin
  have h₀ := h.registered c id n ho hin
  refine ⟨c, (h.grows hfresh hs ho).1, ?_⟩
  rcases step_cases h.toShape hfresh hs with hq | ⟨d, job, l, job', ht⟩
  · rw [hq.sockets] at hout
    exact absurd hin hout
  · obtain ⟨fresh, hnext, -⟩ := ht.next
    rw [ht.server] at hout
    cases l with
    | none => exact absurd hin hout
    | some l =>
      obtain rfl := notMem_sockets_run hin hout
      have hprogress := ht.inProgress h.toShape (claims_of_origin (ht.origin h.toShape ho))
      have hsame : W'.server.handlersRun id = W.server.handlersRun id := by
        rw [ht.server]
        rfl
      cases hnext with
      | unregister =>
        refine absurd ?_ hrej
        have hjob := ht.resumes
        cases lab with
        | process e fresh =>
          obtain ⟨rfl, hproc⟩ := hjob
          exact ⟨_, hproc⟩
        | task i order =>
          obtain ⟨rest, reason, hi⟩ := hjob
          exact (h.loops _ _ _ _ (List.mem_of_getElem? hi)).2.1.elim
        | onEngineConnect | onEngineData | onEngineClose | disconnect | pop => exact hjob.elim
      | take =>
        simp only [Job.tearing, if_true] at hprogress
        unfold handled at h₀ ⊢
        omega

end Leaving

section Finish

variable {d : ConnId} {job job' : Job} {l : Option Section} {n : Bytes}

def ahead (W : World) (c : ConnId) (id : SocketId) : ℕ :=
  (W.procs c).ahead id + W.tally (Job.ahead id)

theorem Turn.ahead (ht : Turn J W W' lab d job l job') (h : Shape W) (hc : W.Claims c id)
    (htear : job.tearing id ≠ 0) : W'.ahead c id < W.ahead c id := by
  obtain ⟨fresh, hnext, -⟩ := ht.next
  obtain ⟨m, hm⟩ := owns_of_tearing htear (ht.jobOf h)
  have hsum := ht.tallied (c := c) (Job.ahead id) fun _ hd => absurd (hc d m hm) hd
  have hless : job'.ahead id < job.ahead id := next_ahead hnext (ht.jobOf h) htear
  unfold World.ahead
  omega

/-- A goroutine on its way to the handlers can always go on. -/
theorem Once.advance (h : Once W) (hp : W.inProgress c id ≠ 0) : ∃ lab W' d job l job',
    W.step J lab = some W' ∧ Turn J W W' lab d job l job' ∧ job.tearing id ≠ 0 := by
  by_cases hproc : (W.procs c).tearing id = 0
  · have htally : W.tally (Job.tearing id) ≠ 0 := by
      intro h₀
      exact hp (by rw [inProgress, hproc, h₀])
    obtain ⟨w, hw, hne⟩ : ∃ w ∈ W.tasks.map (Task.weight (Job.tearing id)), w ≠ 0 := by
      by_contra hall
      push Not at hall
      exact htally (List.sum_eq_zero hall)
    obtain ⟨t, hmem, rfl⟩ := List.mem_map.mp hw
    obtain ⟨i, hi⟩ := List.mem_iff_getElem?.mp hmem
    cases t with
    | loop e job rest reason =>
      obtain ⟨-, htears, -⟩ := h.loops e job rest reason hmem
      cases job with
      | tear k x r =>
        refine ⟨.task i [], _, e, _, _, _, ?_, turn_loop hi trivial, hne⟩
        simp only [World.step, hi, Option.bind_some]
        rfl
      | idle => exact absurd rfl hne
      | process | enter | refuse => exact htears.elim
    | data | close | empty | done => exact absurd rfl hne
  · have hpkt : ¬ ∃ pkt, W.procs c = .process pkt := by
      rintro ⟨pkt, hpkt⟩
      rw [hpkt] at hproc
      exact hproc rfl
    have hturn : Turn J W _ (.process c []) c _ _ _ := turn_process fun hex => absurd hex hpkt
    exact ⟨_, _, _, _, _, _, rfl, hturn, hproc⟩

/-- Left to itself, the goroutine that has deleted the id calls the handlers. -/
theorem Once.finishes (J : Json) (h : Once W) (ho : W.server.origin id = some (c, n))
    (h₁ : W.handled c id = 1) :
    ∃ ls W', Run (World.step J) always W ls W' ∧ W'.server.handlersRun id = 1 := by
  induction hk : W.ahead c id using Nat.strong_induction_on generalizing W with
  | _ k ih =>
    by_cases hp : W.inProgress c id = 0
    · exact ⟨[], W, .nil, by rwa [handled, hp] at h₁⟩
    · obtain ⟨lab, W', d, job, l, job', hs, ht, htear⟩ := h.advance (J := J) hp
      have ho' := ht.origin h.toShape ho
      have h₁' : W'.handled c id = 1 := by
        have hle := (h.turn ht).once c id (claims_of_origin ho')
        rcases ht.handled h.toShape (claims_of_origin ho') with heq | ⟨m, -, -, -, heq⟩ <;> omega
      have hless := ht.ahead h.toShape (claims_of_origin ho) htear
      obtain ⟨ls, W'', hrun, hdone⟩ := ih _ (hk ▸ hless) (h.turn ht) ho' h₁' rfl
      exact ⟨lab :: ls, W'', .cons trivial hs hrun, hdone⟩

end Finish

/-- The disconnect handlers of a socket are called at most once. A call of `disconnectSocket` that
finds the socket in `n.sockets` takes it out. When it leaves, and not through `rejectConnect`, one
call of `disconnectSocket` has taken it upon itself to call them: from then on either it has, or
it is the only one that is about to, and nothing keeps it from going on. -/
theorem handlers_called_once {W₀ : World} {ls : List Label} (h₀ : Initial W₀)
    (he : W₀.server.effects = []) (hrun : Run (World.step J) World.Fresh W₀ ls W) :
    (∀ id, W.server.handlersRun id ≤ 1) ∧
    (∀ lab W₁ id n, W.step J lab = some W₁ → W.Disconnects id lab → id ∈ W.server.sockets n →
      id ∉ W₁.server.sockets n) ∧
    ∀ lab W₁ ls₁ W₂ id n, W.Fresh lab → W.step J lab = some W₁ →
      id ∈ W.server.sockets n → id ∉ W₁.server.sockets n → ¬ W.Rejects id n lab →
      Run (World.step J) World.Fresh W₁ ls₁ W₂ →
      ∃ c, W₂.server.origin id = some (c, n) ∧ W₂.server.handlersRun id + W₂.inProgress c id = 1 ∧
        ∃ ls₂ W₃, Run (World.step J) always W₂ ls₂ W₃ ∧ W₃.server.handlersRun id = 1 := by
  have h : Once W := hrun.invariant Once (h₀.once he) fun _ _ _ h hok hs => h.step hok hs
  refine ⟨fun id => ?_, fun lab W₁ id n hs hdis hin => h.disconnects hs hdis hin, fun lab W₁ ls₁ W₂ id n hfresh hs hin hout hrej hrun₁ => ?_⟩
  · obtain ⟨c, hc⟩ : ∃ c, W.Claims c id := by
      cases ho : W.server.origin id with
      | none => exact ⟨0, fun d n hd => by rw [ho] at hd; cases hd⟩
      | some o => exact ⟨o.1, claims_of_origin (n := o.2) ho⟩
    exact (Nat.le_add_right _ _).trans (h.once c id hc)
  · obtain ⟨c, ho, h₁⟩ := h.leaves hfresh hs hin hout hrej
    have hI : Once W₂ ∧ W₂.server.origin id = some (c, n) ∧ W₂.handled c id = 1 := by
      refine hrun₁.invariant (fun W => Once W ∧ W.server.origin id = some (c, n) ∧ W.handled c id = 1)
        ⟨h.step hfresh hs, ho, h₁⟩ fun V l V' ⟨hV, hoV, hV₁⟩ hok hs => ?_
      obtain ⟨ho', hle⟩ := hV.grows hok hs hoV
      have hV' := hV.step hok hs
      have := hV'.once c id (claims_of_origin ho')
      exact ⟨hV', ho', by omega⟩
    exact ⟨c, hI.2.1, hI.2.2, hI.1.finishes J hI.2.1 hI.2.2⟩

section NonVacuity

open NonVacuity

def leaving : List Label := [Label.onEngineConnect 0 0] ++ arrive 0 [1] ++ [Label.disconnect [1]]

theorem leaving_runs : (exec (World.step textJson) World.Fresh hall leaving).isSome = true := by
  decide +kernel

def leavingWorld : World := (exec (World.step textJson) World.Fresh hall leaving).get leaving_runs

theorem left_runs : (leavingWorld.step textJson (.task 1 [])).isSome = true := by decide +kernel

/-- The call of `Disconnect` deletes the id, and will call the handlers. -/
theorem handlers_called_once_leaving : [1] ∈ leavingWorld.server.sockets defaultNamespace ∧
    [1] ∉ ((leavingWorld.step textJson (.task 1 [])).get left_runs).server.sockets defaultNamespace ∧
    ∃ ls W, Run (World.step textJson) always ((leavingWorld.step textJson (.task 1 [])).get left_runs) ls W ∧
      W.server.handlersRun [1] = 1 := by
  obtain ⟨-, hout, hleaves⟩ := handlers_called_once hall_initial rfl (run_of_isSome leaving_runs)
  have hin : [1] ∈ leavingWorld.server.sockets defaultNamespace := by decide +kernel
  have hstep := (Option.some_get left_runs).symm
  have hnotMem := hout (.task 1 []) _ [1] defaultNamespace hstep ⟨0, [], _, _, rfl⟩ hin
  obtain ⟨c, -, -, h⟩ := hleaves (.task 1 []) _ [] _ [1] defaultNamespace trivial hstep hin hnotMem id .nil
  exact ⟨hin, hnotMem, h⟩

end NonVacuity

end World

end Server

end Gosocketio

import Gosocketio.Proofs.HandlersOnce
import Gosocketio.Spec.Dispatch

/-! What is started for a socket after its disconnect handlers were called. The entry
in `ec.sockets` by which events are routed is deleted after the handlers, and nothing
else keeps an event from the socket. -/

namespace Gosocketio.Server

open Runs

def Teardown.cleared : Teardown → Bool
  | .notify | .handlers | .detach => true
  | .check | .leave | .unmark | .clearAcks => false

def Job.cleared (id : SocketId) : Job → Bool
  | .tear k x _ => k.cleared && x = id
  | _ => false

def Task.job : Task → Job
  | .loop _ job _ _ => job
  | _ => .idle

/-- `disconnectSocket` has cleared the callbacks of the socket. -/
def World.cleared (W : World) (id : SocketId) : Bool :=
  W.server.handlersRun id ≠ 0 || (W.server.heap id).any (fun s => (W.procs s.ec).cleared id) ||
    W.tasks.any fun t => t.job.cleared id

section Sections

variable {J : Json} {S : Server} {x : SocketId}

def Section.effect : Section → List Effect
  | .perform e => [e]
  | _ => []

theorem effects_run (l : Section) : (S.run J l).effects = S.effects ++ l.effect := by
  cases l with
  | joinRoom id room =>
    simp only [Server.run, joinRoom]
    cases S.heap id <;> exact (List.append_nil _).symm
  | leaveRoom id room =>
    simp only [Server.run, leaveRoom]
    cases S.heap id <;> exact (List.append_nil _).symm
  | perform e => rfl
  | _ => exact (List.append_nil _).symm

theorem heap_modifySocket (id : SocketId) (f : Socket → Socket) {s : Socket}
    (h : (S.modifySocket id f).heap x = some s) :
    x ≠ id ∧ S.heap x = some s ∨ x = id ∧ ∃ s₀, S.heap x = some s₀ ∧ s = f s₀ := by
  change Function.update S.heap id ((S.heap id).map f) x = some s at h
  by_cases hx : x = id
  · subst hx
    rw [Function.update_self, Option.map_eq_some_iff] at h
    obtain ⟨s₀, hs₀, rfl⟩ := h
    exact .inr ⟨rfl, s₀, hs₀, rfl⟩
  · rw [Function.update_of_ne hx] at h
    exact .inl ⟨hx, h⟩

theorem acks_run {l : Section} (hl : ∀ ackId, l ≠ .registerAck x ackId) {s : Socket}
    (h : (S.run J l).heap x = some s) : s.acks = ∅ ∨ ∃ s₀, S.heap x = some s₀ ∧ s.acks ⊆ s₀.acks := by
  cases l with
  | newSocket id name c =>
    simp only [Server.run, newSocket] at h
    by_cases hx : x = id
    · subst hx
      rw [Function.update_self, Option.some.injEq] at h
      exact .inl (by rw [← h])
    · rw [Function.update_of_ne hx] at h
      exact .inr ⟨s, h, Finset.Subset.refl _⟩
  | setConnected id v =>
    rcases heap_modifySocket id _ h with ⟨-, hs⟩ | ⟨-, s₀, hs₀, rfl⟩
    · exact .inr ⟨s, hs, Finset.Subset.refl _⟩
    · exact .inr ⟨s₀, hs₀, Finset.Subset.refl _⟩
  | registerAck id ackId =>
    rcases heap_modifySocket id _ h with ⟨-, hs⟩ | ⟨rfl, -⟩
    · exact .inr ⟨s, hs, Finset.Subset.refl _⟩
    · exact absurd rfl (hl ackId)
  | takeAck id ackId =>
    rcases heap_modifySocket id _ h with ⟨-, hs⟩ | ⟨-, s₀, hs₀, rfl⟩
    · exact .inr ⟨s, hs, Finset.Subset.refl _⟩
    · exact .inr ⟨s₀, hs₀, Finset.erase_subset _ _⟩
  | clearAcks id =>
    rcases heap_modifySocket id _ h with ⟨-, hs⟩ | ⟨-, s₀, hs₀, rfl⟩
    · exact .inr ⟨s, hs, Finset.Subset.refl _⟩
    · exact .inl rfl
  | joinRoom id room =>
    simp only [Server.run, joinRoom] at h
    refine .inr ⟨s, ?_, Finset.Subset.refl _⟩
    cases hid : S.heap id with
    | none | some => rwa [hid] at h
  | leaveRoom id room =>
    simp only [Server.run, leaveRoom] at h
    refine .inr ⟨s, ?_, Finset.Subset.refl _⟩
    cases hid : S.heap id with
    | none | some => rwa [hid] at h
  | _ => exact .inr ⟨s, h, Finset.Subset.refl _⟩

end Sections

namespace World

variable {J : Json} {W W' : World} {lab : Label} {c : ConnId} {job job' : Job} {l : Option Section}
  {x : SocketId}

def Cleared (W : World) (x : SocketId) : Prop := W.server.handlersRun x ≠ 0 ∨
    ∃ c k reason, k.cleared = true ∧ W.DoesFor c (.tear k x reason)

theorem Shape.cleared (h : Shape W) (hx : W.Cleared x) : W.cleared x = true := by
  rcases hx with hx | ⟨c, k, reason, hk, hd⟩
  · simp [World.cleared, hx]
  · obtain ⟨m, hm⟩ := h.doesFor_owns hd
    obtain ⟨s, hs, hec, -⟩ := origin_eq_some.mp hm
    rcases hd with hd | ⟨rest, r, hd⟩
    · simp [World.cleared, hs, hec, hd, Job.cleared, hk]
    · have hany : W.tasks.any (fun t => t.job.cleared x) = true := by
        rw [List.any_eq_true]
        exact ⟨_, hd, by simp [Task.job, Job.cleared, hk]⟩
      simp [World.cleared, hany]

section

variable (ht : Turn J W W' lab c job l job')

include ht

theorem Turn.effects :
    W'.server.effects = W.server.effects ++ (l.elim [] Section.effect) := by
  rw [ht.server]
  cases l with
  | none => exact (List.append_nil _).symm
  | some l => exact effects_run l

theorem Turn.handlersRun (h : W'.server.handlersRun x ≠ 0) :
    W.server.handlersRun x ≠ 0 ∨ ∃ reason, job = .tear .handlers x reason := by
  obtain ⟨fresh, hnext, -⟩ := ht.next
  rw [Server.handlersRun, ht.effects, List.countP_append] at h
  cases hnext with
  | @handlers y reason =>
    by_cases hy : y = x
    · exact .inr ⟨reason, by rw [hy]⟩
    · simp only [Option.elim_some, Section.effect, List.countP_singleton, Effect.ends, hy, decide_false,
        Bool.false_eq_true, if_false, Nat.add_zero] at h
      exact .inl h
  | handle e hx he =>
    refine .inl ?_
    cases e with
    | disconnected y reason => exact absurd rfl (he y reason)
    | dispatch | invoke => exact h
  | _ => exact .inl h

theorem Turn.cleared (h : W'.Cleared x) :
    W.Cleared x ∨ l = some (.clearAcks x) := by
  obtain ⟨fresh, hnext, -⟩ := ht.next
  have hdid := ht.resumes.doesFor
  rcases h with h | ⟨d, k, reason, hk, hd⟩
  · rcases ht.handlersRun h with h | ⟨reason, rfl⟩
    · exact .inl (.inl h)
    · exact .inl (.inr ⟨c, .handlers, reason, rfl, hdid⟩)
  · rcases ht.doesFor hd with hd | ⟨rfl, rfl⟩
    · exact .inl (.inr ⟨d, k, reason, hk, hd⟩)
    · cases hnext with
      | clearAcks => exact .inr rfl
      | notify => exact .inl (.inr ⟨d, .notify, reason, rfl, hdid⟩)
      | handlers => exact .inl (.inr ⟨d, .handlers, reason, rfl, hdid⟩)
      | find | take | leave | unmark => cases hk

end

theorem Quiet.cleared (hq : Quiet W W' lab) (h : W'.Cleared x) : W.Cleared x := by
  rcases h with h | ⟨d, k, reason, hk, hd⟩
  · rw [Server.handlersRun, hq.effects] at h
    exact .inl h
  · refine .inr ⟨d, k, reason, hk, hq.doesFor_of ?_ hd⟩
    rintro rfl
    cases hk

/-- A socket whose callbacks were cleared has none. -/
def NoAcks (W : World) : Prop := ∀ x s, W.server.heap x = some s → W.Cleared x → s.acks = ∅

theorem NoAcks.quiet (h : NoAcks W) (hq : Quiet W W' lab) : NoAcks W' := by
  intro x s hs hx
  rw [hq.heap] at hs
  exact h x s hs (hq.cleared hx)

theorem NoAcks.turn (h : NoAcks W) (ht : Turn J W W' lab c job l job') : NoAcks W' := by
  intro x s hs hx
  obtain ⟨fresh, hnext, -⟩ := ht.next
  rw [ht.server] at hs
  cases l with
  | none =>
    rcases ht.cleared hx with hx | hl
    · exact h x s hs hx
    · cases hl
  | some l =>
    have hl : ∀ ackId, l ≠ .registerAck x ackId := by
      rintro ackId rfl
      cases hnext
    rcases ht.cleared hx with hx | hl
    · rcases acks_run hl hs with hs | ⟨s₀, hs₀, hsub⟩
      · exact hs
      · rw [h x s₀ hs₀ hx] at hsub
        exact Finset.subset_empty.mp hsub
    · obtain rfl := Option.some.inj hl
      rcases heap_modifySocket x _ hs with ⟨hne, -⟩ | ⟨-, s₀, -, rfl⟩
      · exact absurd rfl hne
      · rfl

theorem handlersRun_run {l₁ : Section} (hl : l₁.effect = []) (x : SocketId) :
    (W.server.run J l₁).handlersRun x = W.server.handlersRun x := by
  rw [Server.handlersRun, effects_run, hl, List.append_nil]
  rfl

/-- A section that is no part of a job, and gives no callback to a socket whose
callbacks were cleared. -/
theorem NoAcks.run {l₁ : Section} (h : NoAcks W) (hl : l₁.effect = [])
    (hreg : ∀ x ackId, l₁ = .registerAck x ackId → ¬ W.Cleared x) :
    NoAcks { W with server := W.server.run J l₁ } := by
  intro x s hs hx
  have hx₀ : W.Cleared x := by
    rcases hx with hx | hx
    · exact .inl (handlersRun_run hl x ▸ hx)
    · exact .inr hx
  rcases acks_run (fun ackId he => hreg x ackId he hx₀) hs with hs | ⟨s₀, hs₀, hsub⟩
  · exact hs
  · rw [h x s₀ hs₀ hx₀] at hsub
    exact Finset.subset_empty.mp hsub

end World

namespace Dispatcher

variable {J : Json} {D D' : Dispatcher} {W' : World} {lab : Label} {c : ConnId} {hooks handlers : ℕ} {i : ℕ}

/-- Everything a step of the server can be for what is started. -/
inductive ServerStep (J : Json) (D : Dispatcher) (lab : Label) (hooks handlers : ℕ) : Dispatcher → Prop
  | quiet {V : World} (hq : World.Quiet D.world V lab) :
      ServerStep J D lab hooks handlers { D with world := V }
  | turn {V : World} {d : ConnId} {job job' : Job} {l : Option Section}
      (ht : World.Turn J D.world V lab d job l job') (hl : l.elim [] Section.effect = []) :
      ServerStep J D lab hooks handlers { D with world := V }
  | handle {V : World} {d : ConnId} {pkt : Packet} {e : Effect} {fresh : SocketId}
      (ht : World.Turn J D.world V lab d (.process pkt) (some (.perform e)) .idle)
      (hx : D.world.server.attached d pkt.nsp = some e.socket)
      (he : ∀ x reason, e ≠ .disconnected x reason)
      (hevent : ∀ x name args ackId, e = .dispatch x name args ackId → pkt.type = .event)
      (hlab : lab = .process d fresh) :
      ServerStep J D lab hooks handlers (record lab hooks handlers { D with world := V } e)
  | handlers {V : World} {d : ConnId} {x : SocketId} {reason : String}
      (ht : World.Turn J D.world V lab d (.tear .handlers x reason)
        (some (.perform (.disconnected x reason))) (.tear .detach x reason)) :
      ServerStep J D lab hooks handlers
        { D with world := V, calls := D.calls ++ [.disconnect x reason] }

theorem step_server (h : World.Shape D.world) (hfresh : D.world.Fresh lab)
    (hs : D.step J (.world lab hooks handlers) = some D') : ServerStep J D lab hooks handlers D' := by
  simp only [step] at hs
  split_ifs at hs
  obtain ⟨W', hW', rfl⟩ := Option.map_eq_some_iff.mp hs
  rcases World.step_cases h hfresh hW' with hq | ⟨c, job, l, job', ht⟩
  · rw [hq.effects, List.drop_length]
    exact .quiet hq
  · rw [ht.effects, List.drop_left]
    by_cases hl : l.elim [] Section.effect = []
    · rw [hl]
      exact .turn ht hl
    · obtain ⟨fresh, hnext, -⟩ := ht.next
      cases hnext with
      | handle e hx he hevent =>
        obtain ⟨fresh', hlab⟩ : ∃ fresh', lab = .process c fresh' := by
          have hr := ht.resumes
          cases lab with
          | process d fresh' =>
            obtain ⟨rfl, -⟩ := hr
            exact ⟨fresh', rfl⟩
          | task i order =>
            obtain ⟨rest, reason, hi⟩ := hr
            exact (h.loops _ _ _ _ (List.mem_of_getElem? hi)).2.1.elim
          | onEngineConnect | onEngineData | onEngineClose | disconnect | pop => exact hr.elim
        exact .handle ht hx he hevent hlab
      | handlers => exact .handlers ht
      | _ => exact absurd rfl hl

/-- After the disconnect handlers of a socket were called, no event handler, hook or
callback is started for it. -/
def NoneAfterDisconnect (D : Dispatcher) : Prop :=
  D.calls.Pairwise fun a b => ∀ x reason, a = .disconnect x reason → ¬ b.Starts x

/-- The socket an event is routed to has not had its disconnect handlers called, and
they are not called while a `handleEvent` that has found the socket has something left to
start for it, or `invoke` has a callback of the socket in hand. -/
def JobCareful (D : Dispatcher) (c : ConnId) : Job → Prop
  | .process pkt => pkt.type = .event →
    ∀ x, D.world.server.attached c pkt.nsp = some x → D.world.server.handlersRun x = 0
  | .tear .handlers x _ => (∀ e ∈ D.starting c, e.socket ≠ x) ∧ ∀ e ∈ D.taken, e.socket ≠ x
  | _ => True

/-- `EmitWithAck` does not give a socket a callback when its callbacks were cleared. -/
def Careful (D : Dispatcher) : Move → Prop
  | .world (.process c _) _ _ => D.JobCareful c (D.world.procs c)
  | .world (.task i _) _ _ =>
    match D.world.tasks[i]? with
    | some (.loop c job _ _) => D.JobCareful c job
    | _ => True
  | .emit i _ =>
    match D.emissions[i]? with
    | some (.register x _ _ _) => D.world.cleared x = false
    | _ => True
  | _ => True

theorem Careful.job {job : Job} (h : D.Careful (.world lab hooks handlers))
    (hr : D.world.Resumes c job lab) : D.JobCareful c job := by
  cases lab with
  | process d fresh =>
    obtain ⟨rfl, hjob⟩ := hr
    exact hjob ▸ h
  | task i order =>
    obtain ⟨rest, reason, hi⟩ := hr
    rwa [Careful, hi] at h
  | onEngineConnect | onEngineData | onEngineClose | disconnect | pop => exact hr.elim

structure Silent (D : Dispatcher) : Prop where
  shape : World.Shape D.world
  noAcks : D.world.NoAcks
  owned : ∀ c, ∀ e ∈ D.starting c, e.Starts e.socket ∧ D.world.server.Owns c e.socket
  alive : ∀ c, ∀ e ∈ D.starting c, D.world.server.handlersRun e.socket = 0
  taken : ∀ e ∈ D.taken, e.Starts e.socket ∧ D.world.server.handlersRun e.socket = 0
  called : ∀ x reason, .disconnect x reason ∈ D.calls → D.world.server.handlersRun x ≠ 0
  ordered : D.NoneAfterDisconnect

theorem Silent.world (h : Silent D) (hshape : World.Shape W') (hacks : W'.NoAcks)
    (ho : ∀ x o, D.world.server.origin x = some o → W'.server.origin x = some o)
    (hrun : ∀ x, W'.server.handlersRun x = D.world.server.handlersRun x) :
    Silent { D with world := W' } where
  shape := hshape
  noAcks := hacks
  owned c e he := (h.owned c e he).imp_right fun hown => hown.imp fun _ hm => ho _ _ hm
  alive c e he := (hrun _).trans (h.alive c e he)
  taken e he := (h.taken e he).imp_right (hrun _).trans
  called x reason hx := by
    rw [hrun]
    exact h.called x reason hx
  ordered := h.ordered

theorem Silent.section {l : Section} (h : Silent D) (hok : D.world.server.SectionOk l)
    (hl : l.effect = []) (hreg : ∀ x ackId, l = .registerAck x ackId → ¬ D.world.Cleared x) :
    Silent { D with world := { D.world with server := D.world.server.run J l } } :=
  h.world (h.shape.run hok) (h.noAcks.run hl hreg) (fun _ _ ho => origin_run hok ho)
    (World.handlersRun_run hl)

theorem handlersRun_perform_of_ne {S : Server} {e : Effect} {x : SocketId} (he : e.ends x = false) :
    (S.perform e).handlersRun x = S.handlersRun x := by
  rw [handlersRun_perform, he]
  rfl

section

variable (h : Silent D)

include h

theorem Silent.handle {V : World} {pkt : Packet} {e : Effect} {fresh : SocketId}
    (ht : World.Turn J D.world V lab c (.process pkt) (some (.perform e)) .idle)
    (hx : D.world.server.attached c pkt.nsp = some e.socket)
    (he : ∀ x reason, e ≠ .disconnected x reason)
    (hevent : ∀ x name args ackId, e = .dispatch x name args ackId → pkt.type = .event)
    (hlab : lab = .process c fresh) (hcare : D.JobCareful c (.process pkt)) :
    Silent (record lab hooks handlers { D with world := V } e) := by
  have ho : ∀ x o, D.world.server.origin x = some o → V.server.origin x = some o := fun x o =>
    ht.origin h.shape
  have hrun (x : SocketId) : V.server.handlersRun x = D.world.server.handlersRun x := by
    rw [ht.server]
    refine handlersRun_perform_of_ne ?_
    cases e with
    | disconnected y reason => exact absurd rfl (he y reason)
    | dispatch | invoke => rfl
  have hbase := h.world (h.shape.turn ht) (h.noAcks.turn ht) ho hrun
  cases e with
  | disconnected y reason => exact absurd rfl (he y reason)
  | invoke id ackId data =>
    exact { hbase with }
  | dispatch id name args ackId =>
    subst hlab
    have hsocket {e : Called} (he : e ∈ List.replicate hooks (.onAny id name args) ++
        List.replicate handlers (.handler id name args)) : e.socket = id ∧ e.Starts id := by
      rcases List.mem_append.mp he with he | he
      · rw [List.eq_of_mem_replicate he]
        exact ⟨rfl, rfl⟩
      · rw [List.eq_of_mem_replicate he]
        exact ⟨rfl, rfl⟩
    refine { hbase with owned := fun d e he => ?_, alive := fun d e he => ?_ }
    · simp only [record] at he ⊢
      by_cases hd : d = c
      · subst hd
        rw [Function.update_self] at he
        rw [(hsocket he).1]
        exact ⟨(hsocket he).2, _, ho _ _ (h.shape.attributed.home _ _ _ hx)⟩
      · rw [Function.update_of_ne hd] at he
        exact hbase.owned d e he
    · simp only [record] at he ⊢
      by_cases hd : d = c
      · subst hd
        rw [Function.update_self] at he
        rw [(hsocket he).1, hrun]
        exact hcare (hevent _ _ _ _ rfl) id hx
      · rw [Function.update_of_ne hd] at he
        exact hbase.alive d e he

theorem Silent.farewell {V : World} {x : SocketId} {reason : String}
    (ht : World.Turn J D.world V lab c (.tear .handlers x reason)
      (some (.perform (.disconnected x reason))) (.tear .detach x reason))
    (hcare : D.JobCareful c (.tear .handlers x reason)) :
    Silent { D with world := V, calls := D.calls ++ [.disconnect x reason] } := by
  have hrun (y : SocketId) : V.server.handlersRun y =
      D.world.server.handlersRun y + if x = y then 1 else 0 := by
    rw [ht.server]
    refine (handlersRun_perform _).trans ?_
    simp [Effect.ends]
  refine ⟨h.shape.turn ht, h.noAcks.turn ht, fun d e he => ?_, fun d e he => ?_, fun e he => ?_,
    fun y r hy => ?_, ?_⟩
  · exact (h.owned d e he).imp_right fun hown => hown.imp fun _ hm => ht.origin h.shape hm
  · rw [hrun, if_neg, h.alive d e he]
    intro hx
    obtain ⟨-, m, hm⟩ := h.owned d e he
    obtain ⟨m', hm'⟩ : D.world.server.Owns c x := ht.jobOf h.shape
    rw [← hx] at hm
    obtain ⟨rfl, -⟩ := World.owner_unique hm hm'
    exact hcare.1 e he hx.symm
  · rw [hrun, if_neg (hcare.2 e he).symm]
    exact h.taken e he
  · rw [hrun]
    rcases List.mem_append.mp hy with hy | hy
    · have := h.called y r hy
      omega
    · obtain ⟨rfl, -⟩ := Called.disconnect.inj (List.mem_singleton.mp hy)
      rw [if_pos rfl]
      exact Nat.succ_ne_zero _
  · refine List.pairwise_append.mpr ⟨h.ordered, List.pairwise_singleton .., fun a _ b hb => ?_⟩
    rw [List.mem_singleton.mp hb]
    exact fun _ _ _ => id

theorem Silent.append {e : Called} (he : D.world.server.handlersRun e.socket = 0)
    (hstart : e.Starts e.socket) : Silent { D with calls := D.calls ++ [e] } := by
  have hsocket {x : SocketId} (hx : e.Starts x) : e.socket = x := by
    cases e with
    | onAny | handler | callback => exact hx
    | disconnect => exact hx.elim
  refine { h with called := fun x reason hx => ?_, ordered := ?_ }
  · rcases List.mem_append.mp hx with hx | hx
    · exact h.called x reason hx
    · rw [← List.mem_singleton.mp hx] at hstart
      exact hstart.elim
  · refine List.pairwise_append.mpr ⟨h.ordered, List.pairwise_singleton .., fun a ha b hb => ?_⟩
    rw [List.mem_singleton.mp hb]
    rintro x reason rfl hx
    exact h.called x reason ha (hsocket hx ▸ he)

theorem Silent.step_start (hs : D.step J (.start c) = some D') : Silent D' := by
  simp only [step] at hs
  cases hc : D.starting c with
  | nil => simp [hc] at hs
  | cons e rest =>
    simp only [hc, Option.some.injEq] at hs
    subst hs
    have hmem : e ∈ D.starting c := by simp [hc]
    have hsub {d : ConnId} {e : Called} (he : e ∈ Function.update D.starting c rest d) :
        e ∈ D.starting d := by
      by_cases hd : d = c
      · subst hd
        rw [Function.update_self] at he
        rw [hc]
        exact List.mem_cons_of_mem _ he
      · rwa [Function.update_of_ne hd] at he
    exact { h.append (h.alive c e hmem) (h.owned c e hmem).1 with
      owned := fun d e he => h.owned d e (hsub he)
      alive := fun d e he => h.alive d e (hsub he) }

/-- A callback that is there was not cleared, so the handlers were not called. -/
theorem Silent.step_invoke (hs : D.step J (.invoke i) = some D') : Silent D' := by
  simp only [step, Option.map_eq_some_iff] at hs
  obtain ⟨⟨id, ackId, data⟩, -, rfl⟩ := hs
  have hbase : Silent { D with invoking := D.invoking.eraseIdx i } := { h with }
  simp only
  split_ifs with hack
  · simp only [hasAck, Option.any_eq_true, decide_eq_true_eq] at hack
    obtain ⟨s, hs, hmem⟩ := hack
    have hzero : D.world.server.handlersRun id = 0 := by
      by_contra hne
      rw [h.noAcks id s hs (.inl hne)] at hmem
      exact Finset.notMem_empty _ hmem
    have htake := hbase.section (J := J) (l := .takeAck id ackId) trivial rfl nofun
    refine { htake with taken := fun e he => ?_ }
    rcases List.mem_append.mp he with he | he
    · exact htake.taken e he
    · rw [List.mem_singleton.mp he]
      exact ⟨rfl, hzero⟩
  · exact hbase

theorem Silent.step_call (hs : D.step J (.call i) = some D') : Silent D' := by
  obtain ⟨e, hi, rfl⟩ := Option.map_eq_some_iff.mp hs
  obtain ⟨hstart, hzero⟩ := h.taken e (List.mem_of_getElem? hi)
  exact { h.append hzero hstart with
    taken := fun e he => h.taken e (List.mem_of_mem_eraseIdx he) }

theorem Silent.step_emit {ackId : ℤ} (hcare : D.Careful (.emit i ackId))
    (hs : D.step J (.emit i ackId) = some D') : Silent D' := by
  simp only [step, Option.map_eq_some_iff] at hs
  obtain ⟨e, hi, rfl⟩ := hs
  simp only [Careful, hi] at hcare
  have hset (e : Emission) : Silent { D with emissions := D.emissions.set i e } := { h with }
  cases e with
  | check | done => exact hset _
  | register id ackId event args =>
    refine (hset _).section (J := J) (l := .registerAck id ackId) trivial rfl fun x a he hx => ?_
    obtain ⟨rfl, -⟩ := Section.registerAck.inj he
    exact absurd ((h.shape.cleared hx).symm.trans hcare) (by decide)
  | send id ackId event args =>
    simp only [emitNext]
    cases D.world.server.heap id with
    | none => exact hset _
    | some s => exact (hset _).section (J := J) (l := .send s.ec _) trivial rfl nofun

theorem Silent.step {m : Move} (hfresh : D.Fresh m) (hcare : D.Careful m)
    (hs : D.step J m = some D') : Silent D' := by
  cases m with
  | world lab hooks handlers =>
    cases step_server h.shape hfresh hs with
    | quiet hq =>
      refine h.world (h.shape.quiet hq) (h.noAcks.quiet hq) (fun x o ho => by rwa [hq.origin]) fun x => ?_
      rw [handlersRun, hq.effects]
      rfl
    | turn ht hl =>
      refine h.world (h.shape.turn ht) (h.noAcks.turn ht) (fun x o => ht.origin h.shape) fun x => ?_
      rw [handlersRun, ht.effects, hl, List.append_nil]
      rfl
    | handle ht hx he hevent hlab => exact h.handle ht hx he hevent hlab (hcare.job ht.resumes)
    | handlers ht => exact h.farewell ht (hcare.job ht.resumes)
  | start c => exact h.step_start hs
  | invoke i => exact h.step_invoke hs
  | call i => exact h.step_call hs
  | emitWithAck id event args =>
    rw [← Option.some.inj hs]
    exact { h with }
  | emit i ackId => exact h.step_emit hcare hs

end

structure Initial (D : Dispatcher) : Prop where
  world : World.Initial D.world
  effects : D.world.server.effects = []
  starting : ∀ c, D.starting c = []
  invoking : D.invoking = []
  taken : D.taken = []
  emissions : D.emissions = []
  calls : D.calls = []

theorem Initial.silent (h : Initial D) : Silent D where
  shape := h.world.shape
  noAcks x s hs := by
    rw [h.world.heap] at hs
    cases hs
  owned c e he := by simp [h.starting] at he
  alive c e he := by simp [h.starting] at he
  taken e he := by simp [h.taken] at he
  called x reason hx := by simp [h.calls] at hx
  ordered := by
    rw [NoneAfterDisconnect, h.calls]
    exact .nil

/-- In every run in which an event finds no socket whose disconnect handlers were
called, these are not called in the middle of a `handleEvent` or of an `invoke` for the
socket, and no callback is registered after the callbacks were cleared. -/
theorem careful_none_after_disconnect {D₀ : Dispatcher} {ms : List Move} (h₀ : Initial D₀)
    (hrun : Run (step J) (fun D m => D.Fresh m ∧ D.Careful m) D₀ ms D) : D.NoneAfterDisconnect :=
  (hrun.invariant Silent h₀.silent fun _ _ _ h hok hs => h.step hok.1 hok.2 hs).ordered

section NonVacuity

open NonVacuity World

instance (D : Dispatcher) : ∀ m, Decidable (D.Fresh m)
  | .world l _ _ => inferInstanceAs (Decidable (D.world.Fresh l))
  | .start _ | .invoke _ | .call _ | .emitWithAck .. | .emit .. => isTrue trivial

instance (D : Dispatcher) (c : ConnId) (job : Job) : Decidable (D.JobCareful c job) := by
  unfold JobCareful
  split <;> infer_instance

instance (D : Dispatcher) (m : Move) : Decidable (D.Careful m) := by
  unfold Careful
  split
  · infer_instance
  · split <;> infer_instance
  · split <;> infer_instance
  · infer_instance

instance (x : SocketId) : ∀ e : Called, Decidable (e.Starts x)
  | .onAny y .. | .handler y .. | .callback y .. => inferInstanceAs (Decidable (y = x))
  | .disconnect .. => isFalse not_false

instance (b : Called) : ∀ a : Called, Decidable (∀ x reason, a = .disconnect x reason → ¬ b.Starts x)
  | .disconnect x reason => decidable_of_iff (¬ b.Starts x) ⟨fun h y r he => by
      obtain ⟨rfl, -⟩ := Called.disconnect.inj he
      exact h, fun h => h x reason rfl⟩
  | .onAny .. | .handler .. | .callback .. => isTrue nofun

instance (D : Dispatcher) : Decidable D.NoneAfterDisconnect :=
  inferInstanceAs (Decidable (List.Pairwise _ _))

def serve (ls : List Label) : List Move := ls.map fun l => .world l 1 1

def eventText : InPacket := ⟨[50, 91, 34, 97, 34, 93], false⟩

def entrance : List Move := serve ([Label.onEngineConnect 0 0] ++ arrive 0 [1])

def ackText : InPacket := ⟨[51, 55, 91, 93], false⟩

def arrival (i : ℕ) (text : InPacket) : List Move :=
  serve [.onEngineData 0 9 text, .task i [], .pop 0, .process 0 [9]]

def foyer : Dispatcher := { world := hall }

theorem foyer_initial : Initial foyer := ⟨hall_initial, rfl, fun _ => rfl, rfl, rfl, rfl, rfl⟩

/-- An event and an acknowledgement before the application disconnects the socket, and
an event after that. -/
def afterwards : List Move := entrance ++ arrival 1 eventText ++ [Move.start 0, .start 0] ++
    [.emitWithAck [1] [97] [], .emit 0 7, .emit 0 7, .emit 0 7] ++ arrival 2 ackText ++
    [.invoke 0, .call 0] ++
    serve ([Label.disconnect [1]] ++ List.replicate 7 (Label.task 3 [])) ++ arrival 4 eventText

theorem afterwards_runs : (exec (step textJson) (fun D m => D.Fresh m ∧ D.Careful m) foyer
    afterwards).isSome = true := by decide +kernel

theorem careful_none_after_disconnect_afterwards :
    ((exec (step textJson) (fun D m => D.Fresh m ∧ D.Careful m) foyer afterwards).get
      afterwards_runs).NoneAfterDisconnect :=
  careful_none_after_disconnect foyer_initial (run_of_isSome afterwards_runs)

/-- The event arrives when the handlers have been called and the entry is still there. -/
def meanwhile : List Move :=
  entrance ++ serve ([Label.disconnect [1]] ++ List.replicate 6 (Label.task 1 [])) ++ arrival 2 eventText ++
    [Move.start 0]

theorem meanwhile_runs : (exec (step textJson) Fresh foyer meanwhile).isSome = true := by
  decide +kernel

/-- A hook is started for a socket that was said to be gone. -/
theorem hook_after_disconnect : ¬ ∀ (J : Json) (D₀ D : Dispatcher) (ms : List Move), J.Lawful →
    Initial D₀ → Run (step J) Fresh D₀ ms D → D.NoneAfterDisconnect := by
  intro h
  have hnone := h textJson foyer _ meanwhile textJson_lawful foyer_initial (run_of_isSome meanwhile_runs)
  exact absurd hnone (by decide +kernel)

end NonVacuity

end Dispatcher

end Gosocketio.Server

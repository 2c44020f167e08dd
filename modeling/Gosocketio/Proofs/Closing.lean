import Gosocketio.Proofs.Successor

/-! What is left of an Engine.IO connection after `onEngineClose`. The callback takes
the sockets out of the connection while the processing loop may still be inside
`handleConnect`, or have a CONNECT in its queue; and a callback that comes late
makes the connection anew. -/

namespace Gosocketio.Server

variable {S : Server} {J : Json} {c d : ConnId} {fresh x : SocketId} {n m : Bytes} {job job' : Job}
  {l : Option Section}

section

variable (h : Next S c fresh job l job')

include h

theorem Next.kept_socket (hx : x ∈ S.sockets n) :
    x ∈ (S.perhaps J l).sockets n ∨ l = some (.unregister n x) := by
  have hun {m : Bytes} {y : SocketId} : x ∈ (S.unregister m y).sockets n ∨
      some (Section.unregister m y) = some (.unregister n x) := by
    by_cases hmy : n = m ∧ x = y
    · exact .inr (by rw [hmy.1, hmy.2])
    · left
      rw [sockets_unregister]
      split_ifs with hn
      · exact Finset.mem_erase.mpr ⟨fun hxy => hmy ⟨hn, hxy⟩, hx⟩
      · exact hx
  cases h with
  | register =>
    left
    change x ∈ (S.register _ _).sockets n
    rw [sockets_register]
    split_ifs
    · exact Finset.mem_insert_of_mem hx
    · exact hx
  | unregister | take => exact hun
  | join => exact .inl ((sockets_join ..).symm ▸ hx)
  | withdraw | leave => exact .inl ((sockets_leave ..).symm ▸ hx)
  | _ => exact .inl hx

theorem Next.new_entry
    (hx : (S.perhaps J l).attached d n = some x) :
    S.attached d n = some x ∨ l = some (.attach d n x) := by
  have hde {e : ConnId} {m : Bytes} (hx : (S.detach e m).attached d n = some x) :
      S.attached d n = some x := by
    rw [attached_detach] at hx
    split_ifs at hx
    exact hx
  have hsend {e : ConnId} {p : Packet} (hx : (S.perhaps J (some (.send e p))).attached d n = some x) :
      S.attached d n = some x := by
    change (S.sendPacket J e p).attached d n = some x at hx
    rwa [(same_sendPacket J e p).attached] at hx
  cases h with
  | @attach y nsp =>
    change (S.attach c nsp y).attached d n = some x at hx
    rw [attached_attach] at hx
    split_ifs at hx with hd
    · exact .inr (by rw [hd.1, hd.2, Option.some.inj hx])
    · exact .inl hx
  | unhook | detach => exact .inl (hde hx)
  | answer | reply | error | notify => exact .inl (hsend hx)
  | _ => exact .inl hx

theorem Next.has (hx : ((S.perhaps J l).adapter m).Has x) :
    ((S.adapter m).Has x ∧ l ≠ some (.leave m x)) ∨ l = some (.join m x) := by
  have hleave {n : Bytes} {y : SocketId} (hx : ((S.leave n y).adapter m).Has x) :
      (S.adapter m).Has x ∧ some (Section.leave n y) ≠ some (.leave m x) := by
    rw [adapter_leave] at hx
    split_ifs at hx with hn
    · rw [Adapter.has_removeSocket] at hx
      refine ⟨hx.2, fun he => ?_⟩
      injection he with he
      injection he with _ hy
      exact hx.1 hy.symm
    · refine ⟨hx, fun he => ?_⟩
      injection he with he
      injection he with hm
      exact hn hm.symm
  cases h with
  | @join y nsp =>
    change ((S.join _ y).adapter m).Has x at hx
    rw [adapter_join] at hx
    split_ifs at hx with hm
    · rcases (Adapter.has_addSocket ..).mp hx with rfl | hx
      · exact .inr (by rw [hm.1])
      · exact .inl ⟨hx, nofun⟩
    · exact .inl ⟨hx, nofun⟩
  | withdraw | leave => exact .inl (hleave hx)
  | register => exact .inl ⟨adapter_register S .. ▸ hx, nofun⟩
  | unregister | take => exact .inl ⟨adapter_unregister S .. ▸ hx, nofun⟩
  | _ => exact .inl ⟨hx, nofun⟩

end

theorem connected_setConnected {id : SocketId} {b : Bool}
    (h : (S.setConnected id b).connected x = true) :
    (x = id ∧ b = true) ∨ x ≠ id ∧ S.connected x = true := by
  unfold setConnected modifySocket connected at h
  by_cases hx : x = id
  · subst hx
    left
    cases hs : S.heap x with
    | none => simp [hs] at h
    | some s => exact ⟨rfl, by simpa [hs] using h⟩
  · right
    exact ⟨hx, by simpa [hx, connected] using h⟩

theorem connected_clearAcks {id : SocketId} : (S.clearAcks id).connected x = S.connected x := by
  unfold clearAcks modifySocket connected
  by_cases hx : x = id
  · subst hx
    cases S.heap x <;> simp
  · simp [hx]

theorem connected_newSocket {name : Bytes} {id : SocketId}
    (h : (S.newSocket id name c).connected x = true) : S.connected x = true := by
  unfold newSocket connected at h
  by_cases hx : x = id
  · subst hx
    simp at h
  · simpa [hx, connected] using h

theorem Next.flag (h : Next S c fresh job l job') (hx : (S.perhaps J l).connected x = true) :
    (S.connected x = true ∧ l ≠ some (.setConnected x false)) ∨ l = some (.setConnected x true) := by
  have hunmark {y : SocketId} (hx : (S.setConnected y false).connected x = true) :
      S.connected x = true ∧ some (Section.setConnected y false) ≠ some (.setConnected x false) := by
    rcases connected_setConnected hx with ⟨-, hb⟩ | ⟨hne, hx⟩
    · cases hb
    · refine ⟨hx, fun he => ?_⟩
      injection he with he
      injection he with hy
      exact hne hy.symm
  cases h with
  | @mark y =>
    rcases connected_setConnected hx with ⟨rfl, -⟩ | ⟨-, hx⟩
    · exact .inr rfl
    · exact .inl ⟨hx, nofun⟩
  | demote | unmark => exact .inl (hunmark hx)
  | create | bar => exact .inl ⟨connected_newSocket hx, nofun⟩
  | clearAcks => exact .inl ⟨connected_clearAcks.symm.trans hx, nofun⟩
  | _ => exact .inl ⟨hx, nofun⟩

theorem Next.engines (h : Next S c fresh job l job') : (S.perhaps J l).engines = S.engines := by
  cases h <;> rfl

namespace World

open Runs

variable {W W' : World} {lab : Label} {es : EngineId}

/-- The callbacks and the processing loops; nothing else disconnects sockets. -/
def Callback : Label → Prop
  | .disconnect _ => False
  | _ => True

/-- No callback finds the Engine.IO socket already closed, and no socket is accepted
after its connection was emptied. -/
def Punctual (W : World) : Label → Prop
  | .onEngineConnect es _ | .onEngineData es _ _ => W.closed es = false
  | .process c _ =>
    match W.procs c with
    | .enter .decide id nsp =>
      (W.server.nsps (namespaceName nsp)).bind (fun ns => runConnect ns id) = none →
        W.emptied c = false
    | _ => True
  | _ => True

/-- The connections of an Engine.IO socket, before and after it is closed. -/
structure Books (W : World) : Prop where
  live : ∀ e, W.closed e = true → W.server.engines e = none
  known : ∀ e c, W.es c = some e → W.server.engines e = some c ∨ W.closed e = true
  closing : ∀ e c, W.es c = some e → W.closed e = true →
    (∃ reason, .close c reason ∈ W.tasks) ∨ (∃ reason, .empty c reason ∈ W.tasks) ∨
      W.emptied c = true
  late : ∀ c job rest reason, .loop c job rest reason ∈ W.tasks → W.emptied c = true

section Books

section

variable (h : Books W)

include h

theorem Books.connFor (hfresh : W.es c = none)
    (hopen : W.closed es = false) : Books (W.connFor es c).1 := by
  unfold World.connFor
  cases hes : W.server.engines es with
  | some d => exact h
  | none =>
    have hnone (d : ConnId) : W.es d ≠ some es := by
      intro hd
      rcases h.known es d hd with hd | hd
      · rw [hes] at hd
        cases hd
      · rw [hopen] at hd
        cases hd
    refine ⟨fun e he => ?_, fun e d hd => ?_, fun e d hd he => ?_, h.late⟩
    · have hne : e ≠ es := by
        rintro rfl
        rw [hopen] at he
        cases he
      exact (Function.update_of_ne hne _ _).trans (h.live e he)
    · by_cases hdc : d = c
      · subst hdc
        obtain rfl : es = e := by simpa using hd
        exact .inl (Function.update_self _ _ _)
      · have hd' : W.es d = some e := by simpa [hdc] using hd
        have hne : e ≠ es := by
          rintro rfl
          exact hnone d hd'
        refine (h.known e d hd').imp_left fun hd => ?_
        exact (Function.update_of_ne hne _ _).trans hd
    · by_cases hdc : d = c
      · subst hdc
        obtain rfl : es = e := by simpa using hd
        rw [hopen] at he
        cases he
      · exact h.closing e d (by simpa [hdc] using hd) he

theorem Books.spawn {t : Task} (ht : ∀ c job rest reason, t ≠ .loop c job rest reason) :
    Books { W with tasks := W.tasks ++ [t] } := by
  refine ⟨h.live, h.known, fun e c hc he => ?_, fun c job rest reason hmem => ?_⟩
  · rcases h.closing e c hc he with ⟨r, hr⟩ | ⟨r, hr⟩ | hr
    · exact .inl ⟨r, List.mem_append_left _ hr⟩
    · exact .inr (.inl ⟨r, List.mem_append_left _ hr⟩)
    · exact .inr (.inr hr)
  · rcases List.mem_append.mp hmem with hmem | hmem
    · exact h.late c job rest reason hmem
    · exact absurd (List.mem_singleton.mp hmem).symm (ht c job rest reason)

/-- The callback marks the Engine.IO socket closed and, if there is a connection,
goes on with it. -/
theorem Books.onEngineClose {reason : String}
    (hs : W.step J (.onEngineClose es reason) = some W') : Books W' := by
  simp only [World.step, Option.some.injEq] at hs
  subst hs
  have hclosed {e : EngineId} (hne : e ≠ es) : Function.update W.closed es true e = W.closed e :=
    Function.update_of_ne hne _ _
  cases hes : W.server.engines es with
  | none =>
    refine ⟨fun e he => ?_, fun e d hd => ?_, fun e d hd he => ?_, h.late⟩
    · by_cases hee : e = es
      · exact hee ▸ hes
      · exact h.live e ((hclosed hee).symm.trans he)
    · by_cases hee : e = es
      · exact .inr (by rw [hee]; exact Function.update_self ..)
      · exact (h.known e d hd).imp_right fun he => (hclosed hee).trans he
    · by_cases hee : e = es
      · subst hee
        rcases h.known e d hd with hd' | he'
        · rw [hes] at hd'
          cases hd'
        · exact h.closing e d hd he'
      · exact h.closing e d hd ((hclosed hee).symm.trans he)
  | some c =>
    refine ⟨fun e he => ?_, fun e d hd => ?_, fun e d hd he => ?_, fun d job rest r hmem => ?_⟩
    · by_cases hee : e = es
      · subst hee
        exact Function.update_self ..
      · exact (Function.update_of_ne hee _ _).trans (h.live e ((hclosed hee).symm.trans he))
    · by_cases hee : e = es
      · exact .inr (by rw [hee]; exact Function.update_self ..)
      · exact (h.known e d hd).imp (fun hd => (Function.update_of_ne hee _ _).trans hd)
          fun he => (hclosed hee).trans he
    · by_cases hee : e = es
      · subst hee
        rcases h.known e d hd with hd' | he'
        · obtain rfl := Option.some.inj (hes.symm.trans hd')
          exact .inl ⟨_, List.mem_append_right _ (List.mem_singleton_self _)⟩
        · rw [h.live e he'] at hes
          cases hes
      · rcases h.closing e d hd ((hclosed hee).symm.trans he) with ⟨r, hr⟩ | ⟨r, hr⟩ | hr
        · exact .inl ⟨r, List.mem_append_left _ hr⟩
        · exact .inr (.inl ⟨r, List.mem_append_left _ hr⟩)
        · exact .inr (.inr hr)
    · rcases List.mem_append.mp hmem with hmem | hmem
      · exact h.late d job rest r hmem
      · cases List.mem_singleton.mp hmem

/-- A task is replaced by what is left of it; what `onEngineClose` has to do for a
connection is not forgotten. -/
theorem Books.replace {i : ℕ} {t u : Task} {S : Server} {emptied : ConnId → Bool}
    (hi : W.tasks[i]? = some t) (hengines : S.engines = W.server.engines)
    (hemptied : ∀ c, W.emptied c = true → emptied c = true)
    (hclose : ∀ c reason, t = .close c reason → u = .empty c reason)
    (hempty : ∀ c reason, t = .empty c reason → emptied c = true)
    (hloop : ∀ c job rest reason, u = .loop c job rest reason → emptied c = true) :
    Books { W with server := S, emptied := emptied, tasks := W.tasks.set i u } := by
  refine ⟨fun e he => ?_, fun e d hd => ?_, fun e d hd he => ?_, fun d job rest r hmem => ?_⟩
  · rw [hengines]
    exact h.live e he
  · rw [hengines]
    exact h.known e d hd
  · rcases h.closing e d hd he with ⟨r, hr⟩ | ⟨r, hr⟩ | hr
    · by_cases heq : Task.close d r = t
      · obtain rfl := hclose d r heq.symm
        exact .inr (.inl ⟨r, Pool.mem_set_self hi⟩)
      · exact .inl ⟨r, Pool.mem_set_of_ne hi hr heq⟩
    · by_cases heq : Task.empty d r = t
      · exact .inr (.inr (hempty d r heq.symm))
      · exact .inr (.inl ⟨r, Pool.mem_set_of_ne hi hr heq⟩)
    · exact .inr (.inr (hemptied d hr))
  · rcases List.mem_or_eq_of_mem_set hmem with hmem | hmem
    · exact hemptied d (h.late d job rest r hmem)
    · exact hloop d job rest r hmem.symm

theorem Books.task {i : ℕ} {order : List SocketId} {t : Task}
    (hi : W.tasks[i]? = some t) (hs : W.runTask J i order t = some W') : Books W' := by
  cases t with
  | data c p =>
    obtain rfl := Option.some.inj hs
    exact h.replace hi rfl (fun _ he => he) (by simp) (by simp) (by simp)
  | close c reason =>
    obtain rfl := Option.some.inj hs
    refine h.replace hi rfl (fun _ he => he) (fun d r heq => ?_) (by simp) (by simp)
    injection heq with hd hr
    rw [hd, hr]
  | empty c reason =>
    simp only [runTask, Option.ite_none_right_eq_some, Option.some.injEq] at hs
    obtain ⟨-, rfl⟩ := hs
    refine h.replace hi rfl (fun d he => ?_) (by simp) (fun d r heq => ?_) fun d job rest r heq => ?_
    · by_cases hd : d = c
      · rw [hd, Function.update_self]
      · rwa [Function.update_of_ne hd]
    · injection heq with hd
      rw [← hd, Function.update_self]
    · injection heq with hd
      rw [← hd, Function.update_self]
  | loop c job rest reason =>
    have hlate := h.late c job rest reason (List.mem_of_getElem? hi)
    have hgoes (S : Server) (hS : S.engines = W.server.engines) (job' : Job)
        (rest' : List SocketId) :
        Books { W with server := S, tasks := W.tasks.set i (.loop c job' rest' reason) } := by
      refine h.replace hi hS (fun _ he => he) (by simp) (by simp) fun d k r r' heq => ?_
      injection heq with hd
      exact hd ▸ hlate
    have hnext := (next_spec W.server c [] job).engines (J := J)
    cases job with
    | idle =>
      cases rest with
      | nil => exact Option.some.inj hs ▸ hgoes _ hnext _ _
      | cons x rest => exact Option.some.inj hs ▸ hgoes _ rfl _ _
    | process | enter | refuse | tear => exact Option.some.inj hs ▸ hgoes _ hnext _ _
  | done => cases hs

theorem Books.step (hfresh : W.Fresh lab) (hlab : Callback lab) (hp : W.Punctual lab)
    (hs : W.step J lab = some W') : Books W' := by
  cases lab with
  | onEngineConnect es c => exact Option.some.inj hs ▸ h.connFor hfresh hp
  | onEngineData es c p =>
    rw [← Option.some.inj hs]
    exact (h.connFor hfresh hp).spawn nofun
  | onEngineClose es reason => exact h.onEngineClose hs
  | disconnect id => exact hlab.elim
  | pop c =>
    simp only [World.step] at hs
    split at hs
    · exact Option.some.inj hs ▸ { h with }
    · cases hs
  | process c fresh =>
    have hnext := (next_spec W.server c fresh (W.procs c)).engines (J := J)
    rw [← Option.some.inj hs]
    refine ⟨fun e he => ?_, fun e d hd => ?_, h.closing, h.late⟩
    · exact (congrFun hnext e).trans (h.live e he)
    · exact (h.known e d hd).imp_left fun hd => (congrFun hnext e).trans hd
  | task i order =>
    obtain ⟨t, hi, hs⟩ := Option.bind_eq_some_iff.mp hs
    exact h.task hi hs

end

end Books

/-- `handleConnect` has registered the socket, and will accept it or take it back. -/
def Handling (W : World) (c : ConnId) (x : SocketId) (n : Bytes) : Prop :=
  (∃ k, k ≠ .register ∧ k ≠ .reply ∧ W.procs c = .enter k x n) ∨
    ∃ msg, W.procs c = .refuse .unregister x n msg

/-- `handleConnect` has written the entry, and will accept the socket or delete the
entry. -/
def Hooked (W : World) (c : ConnId) (x : SocketId) (n : Bytes) : Prop :=
  W.procs c = .enter .mark x n ∨ W.procs c = .enter .decide x n ∨
    ∃ k msg, (k = .unregister ∨ k = .leave ∨ k = .detach) ∧ W.procs c = .refuse k x n msg

/-- What remains of the sockets of a connection that was emptied is in the hands of
a goroutine that will remove it. -/
structure Doomed (W : World) : Prop extends Tidy W, Books W where
  apart : ∀ c k x n, W.procs c = .enter k x n → k = .register ∨ k = .join ∨ k = .attach →
    ¬ W.Named c x ∧ W.server.attached c n ≠ some x
  inside : ∀ c k x n, W.procs c = .enter k x n →
    k = .join ∨ k = .attach ∨ (k = .mark ∨ k = .decide) ∧ W.emptied c = false →
    x ∈ W.server.sockets n
  leaving : ∀ c x n, W.emptied c = true → W.server.origin x = some (c, n) →
    x ∈ W.server.sockets n → W.Handling c x n ∨ W.Due c x
  hooked : ∀ c n x, W.emptied c = true → W.server.attached c n = some x → W.Hooked c x n
  adapted : ∀ n x, (W.server.adapter n).Has x → ∃ c, W.server.origin x = some (c, n) ∧
    (x ∈ W.server.sockets n ∨ (∃ msg, W.procs c = .refuse .leave x n msg) ∨
      ∃ reason, W.DoesFor c (.tear .leave x reason))
  flagged : ∀ x, W.server.connected x = true → ∃ c n, W.server.origin x = some (c, n) ∧
    (x ∈ W.server.sockets n ∨ W.procs c = .enter .decide x n ∨
      (∃ k msg, k ≠ .reply ∧ W.procs c = .refuse k x n msg) ∨
      ∃ k reason, (k = .leave ∨ k = .unmark) ∧ W.DoesFor c (.tear k x reason))

theorem Doomed.quiet (h : Doomed W) (hq : Quiet W W' lab) (hlab : Callback lab) (hb : Books W') :
    Doomed W' := by
  have hhooked {c : ConnId} {x : SocketId} {n : Bytes} (hx : W.Hooked c x n) : W'.Hooked c x n := by
    rcases hx with hp | hp | ⟨k, msg, hk, hp⟩
    · exact .inl (hq.proc_kept hp nofun)
    · exact .inr (.inl (hq.proc_kept hp nofun))
    · exact .inr (.inr ⟨k, msg, hk, hq.proc_kept hp nofun⟩)
  refine { h.toTidy.quiet hq, hb with
    apart := fun c k x n hp hk => ?_, inside := fun c k x n hp hk => ?_
    leaving := fun c x n he ho hx => ?_, hooked := fun c n x he hx => ?_
    adapted := fun n x hx => ?_, flagged := fun x hx => ?_ }
  · obtain ⟨hnamed, hne⟩ := h.apart c k x n (hq.proc_of hp nofun nofun) hk
    refine ⟨fun hx => ?_, fun hx => hne (hq.entry c n x hx).1⟩
    rcases hq.named c x hx with hx | ⟨m, hm⟩ | rfl
    · exact hnamed hx
    · have hof := h.procs c
      rw [hq.proc_of hp nofun nofun] at hof
      obtain ⟨-, rfl⟩ := owner_unique (h.attributed.home c m x hm) hof.1
      exact hne hm
    · exact hlab
  · rw [hq.sockets]
    refine h.inside c k x n (hq.proc_of hp nofun nofun) (hk.imp_right fun hk => hk.imp_right fun hk => ?_)
    exact ⟨hk.1, hq.emptied c hk.2⟩
  · rw [hq.origin] at ho
    rw [hq.sockets] at hx
    have hhandling (hx : W.Handling c x n) : W'.Handling c x n := by
      rcases hx with ⟨k, hk, hk', hp⟩ | ⟨msg, hp⟩
      · exact .inl ⟨k, hk, hk', hq.proc_kept hp nofun⟩
      · exact .inr ⟨msg, hq.proc_kept hp nofun⟩
    rcases hq.taken c he with he | hdue
    · exact (h.leaving c x n he ho hx).imp hhandling (hq.due c x)
    · -- the connection is being emptied: what is registered is in it or being entered
      cases he₀ : W.emptied c with
      | true => exact (h.leaving c x n he₀ ho hx).imp hhandling (hq.due c x)
      | false =>
        rcases h.held c x n he₀ ho hx with (hp | hp | ⟨msg, hp⟩) | hx
        · exact .inl (.inl ⟨.join, nofun, nofun, hq.proc_kept hp nofun⟩)
        · exact .inl (.inl ⟨.attach, nofun, nofun, hq.proc_kept hp nofun⟩)
        · exact .inl (.inr ⟨msg, hq.proc_kept hp nofun⟩)
        · exact .inr (hdue n x hx)
  · obtain ⟨hx, hee⟩ := hq.entry c n x hx
    exact hhooked (h.hooked c n x (hee.symm.trans he) hx)
  · rw [hq.adapter] at hx
    rw [hq.sockets, hq.origin]
    obtain ⟨c, ho, hx⟩ := h.adapted n x hx
    refine ⟨c, ho, hx.imp_right fun hx => hx.imp ?_ ?_⟩
    · exact fun ⟨msg, hp⟩ => ⟨msg, hq.proc_kept hp nofun⟩
    · exact fun ⟨reason, hd⟩ => ⟨reason, hq.tears c _ x reason nofun hd⟩
  · rw [hq.connected] at hx
    rw [hq.sockets, hq.origin]
    obtain ⟨c, n, ho, hx⟩ := h.flagged x hx
    refine ⟨c, n, ho, hx.imp_right fun hx => hx.imp (fun hp => hq.proc_kept hp nofun) fun hx => hx.imp ?_ ?_⟩
    · exact fun ⟨k, msg, hk, hp⟩ => ⟨k, msg, hk, hq.proc_kept hp nofun⟩
    · rintro ⟨k, reason, hk, hd⟩
      refine ⟨k, reason, hk, hq.tears c k x reason ?_ hd⟩
      rcases hk with rfl | rfl <;> exact nofun

section Turn

theorem Punctual.accepted (hp : W.Punctual lab) (h : Shape W)
    (ht : Turn J W W' lab c (.enter .decide x n) l (.enter .reply x n)) : W.emptied c = false := by
  obtain ⟨fresh, hnext, -⟩ := ht.next
  have hr := ht.resumes
  cases lab with
  | process d fresh =>
    obtain ⟨rfl, hproc⟩ := hr
    rw [Punctual, hproc] at hp
    cases hnext with
    | accept hok => exact hp hok
  | task i order =>
    obtain ⟨rest, reason, hi⟩ := hr
    exact (h.loops c _ rest reason (List.mem_of_getElem? hi)).2.1.elim
  | _ => exact hr.elim

theorem Turn.named (ht : Turn J W W' lab c job l job') (h : Shape W) (hx : W'.Named d x) :
    W.Named d x := by
  obtain ⟨fresh, hnext, -⟩ := ht.next
  obtain ⟨k, rest, reason, hmem, hx⟩ := hx
  rcases ht.tasks _ hmem with hmem | ⟨rest', reason', heq, hold⟩
  · exact ⟨k, rest, reason, hmem, hx⟩
  · injection heq with hd hk hrest
    subst hd hk hrest
    refine ⟨job, rest, reason', hold, hx.imp_right fun ⟨j, r, hj⟩ => ?_⟩
    subst hj
    have htears := (h.loops _ job rest reason' hold).2.1
    cases hnext with
    | find => exact htears.elim
    | _ => exact ⟨_, _, rfl⟩

theorem Turn.unregistered (ht : Turn J W W' lab c job l job') (hx : x ∈ W.server.sockets n) :
    x ∈ W'.server.sockets n ∨
      (∃ msg, W.procs c = .refuse .unregister x n msg ∧ W'.procs c = .refuse .leave x n msg) ∨
      ∃ reason, job = .tear .check x reason ∧ W'.DoesFor c (.tear .leave x reason) ∧
        ∃ s, W.server.heap x = some s ∧ s.nsp = n := by
  obtain ⟨fresh, hnext, -⟩ := ht.next
  rcases hnext.kept_socket (J := J) hx with hx | rfl
  · exact .inl (ht.server ▸ hx)
  · have hdoes := ht.does
    cases hnext with
    | @unregister _ _ msg =>
      rcases ht.procs with ⟨hproc, hproc'⟩ | ⟨htears, -⟩
      · exact .inr (.inl ⟨msg, hproc, by rw [hproc', Function.update_self]⟩)
      · exact htears.elim
    | @take _ reason s hs => exact .inr (.inr ⟨reason, rfl, hdoes, s, hs, rfl⟩)

section

variable (h : Doomed W)

include h

section

variable (ht : Turn J W W' lab c job l job')

include ht

theorem Doomed.turn_apart {k : Entry}
    (hp : W'.procs d = .enter k x n) (hk : k = .register ∨ k = .join ∨ k = .attach) :
    ¬ W'.Named d x ∧ W'.server.attached d n ≠ some x := by
  obtain ⟨fresh, hnext, hfresh⟩ := ht.next
  suffices hold : ¬ W.Named d x ∧ W.server.attached d n ≠ some x ∧ l ≠ some (.attach d n x) by
    refine ⟨fun hx => hold.1 (ht.named h.toShape hx), fun hx => ?_⟩
    rw [ht.server] at hx
    rcases hnext.new_entry hx with hx | hx
    · exact hold.2.1 hx
    · exact hold.2.2 hx
  rcases ht.proc_cases d with ⟨rfl, hproc, hp'⟩ | ⟨hp', hd⟩
  · obtain rfl : job' = .enter k x n := hp'.symm.trans hp
    cases hnext with
    | create =>
      have hnew := origin_eq_none.mpr (hfresh ⟨_, rfl⟩)
      refine ⟨fun ⟨j, rest, reason, hmem, hx⟩ => ?_, fun hx => ?_, nofun⟩
      · obtain ⟨hjob, -, hrest⟩ := h.loops d j rest reason hmem
        obtain ⟨m, hm⟩ : W.server.Owns d x := by
          rcases hx with hx | ⟨k, r, rfl⟩
          · exact hrest x hx
          · exact hjob
        rw [hnew] at hm
        cases hm
      · rw [h.attributed.home d _ x hx] at hnew
        cases hnew
    | register | join =>
      obtain ⟨hnamed, hne⟩ := h.apart d _ x n hproc (by simp)
      exact ⟨hnamed, hne, nofun⟩
    | attach | mark | accept => simp at hk
  · rw [hp'] at hp
    obtain ⟨hnamed, hne⟩ := h.apart d k x n hp hk
    refine ⟨hnamed, hne, ?_⟩
    rintro rfl
    -- the loop that writes the entry is the one that is said to stay where it is
    cases hnext with
    | attach => exact hd rfl

theorem Doomed.turn_inside {k : Entry} (hp : W'.procs d = .enter k x n)
    (hk : k = .join ∨ k = .attach ∨ (k = .mark ∨ k = .decide) ∧ W'.emptied d = false) :
    x ∈ W'.server.sockets n := by
  obtain ⟨fresh, hnext, -⟩ := ht.next
  rcases ht.proc_cases d with ⟨rfl, hproc, hp'⟩ | ⟨hp', hd⟩
  · obtain rfl : job' = .enter k x n := hp'.symm.trans hp
    have hof := h.procs d
    rw [hproc] at hof
    have hstill (hx : x ∈ W.server.sockets n) (hl : l ≠ some (.unregister n x)) :
        x ∈ W'.server.sockets n := by
      rw [ht.server]
      exact (hnext.kept_socket hx).resolve_right hl
    cases hnext with
    | register =>
      rw [ht.server]
      change x ∈ (W.server.register (namespaceName n) x).sockets n
      rw [namespaceName_of_ne hof.2.1, sockets_register, if_pos ⟨rfl, hof.2.2⟩]
      exact Finset.mem_insert_self ..
    | join => exact hstill (h.inside d _ x n hproc (.inl rfl)) nofun
    | attach => exact hstill (h.inside d _ x n hproc (.inr (.inl rfl))) nofun
    | mark =>
      have he : W.emptied d = false := by
        rw [← ht.emptied]
        simpa using hk
      exact hstill (h.inside d _ x n hproc (.inr (.inr ⟨.inl rfl, he⟩))) nofun
    | create | accept => simp at hk
  · rw [hp'] at hp
    rw [ht.emptied] at hk
    have hof : JobOf W.server d (.enter k x n) := hp ▸ h.procs d
    rcases ht.unregistered (h.inside d k x n hp hk) with hx | ⟨msg, hproc, -⟩ | ⟨reason, rfl, -, -⟩
    · exact hx
    · have hof' : JobOf W.server c (.refuse .unregister x n msg) := hproc ▸ h.procs c
      obtain ⟨rfl, -⟩ := owner_unique hof.1 hof'
      cases hp.symm.trans hproc
    · -- a teardown of the socket is that of `onEngineClose`
      obtain ⟨m, hm⟩ := ht.jobOf h.toShape
      obtain ⟨rfl, -⟩ := owner_unique hof.1 hm
      rcases ht.resumes.doesFor with hproc | ⟨rest, r, hmem⟩
      · cases hp.symm.trans hproc
      · rcases hk with rfl | rfl | ⟨-, he⟩
        · exact absurd ⟨_, rest, r, hmem, .inr ⟨_, _, rfl⟩⟩ (h.apart d _ x n hp (by simp)).1
        · exact absurd ⟨_, rest, r, hmem, .inr ⟨_, _, rfl⟩⟩ (h.apart d _ x n hp (by simp)).1
        · rw [h.late d _ rest r hmem] at he
          cases he

theorem Doomed.turn_leaving
    (hp : W.Punctual lab) (he : W'.emptied d = true) (ho : W'.server.origin x = some (d, n))
    (hx : x ∈ W'.server.sockets n) : W'.Handling d x n ∨ W'.Due d x := by
  obtain ⟨fresh, hnext, -⟩ := ht.next
  rw [ht.emptied] at he
  rcases ht.registered h.toShape hx with hx₀ | ⟨rfl, hproc⟩
  · obtain ⟨e, he₀⟩ := h.consistent n x hx₀
    obtain ⟨rfl, -⟩ := owner_unique (ht.origin h.toShape he₀) ho
    rcases h.leaving e x n he he₀ hx₀ with hhand | ⟨k, rest, reason, hmem, hk⟩
    · rcases ht.proc_cases e with ⟨rfl, hproc, hp'⟩ | ⟨hp', -⟩
      · rcases hhand with ⟨k, hreg, hrep, hk⟩ | ⟨msg, hk⟩
        · obtain rfl := hproc.symm.trans hk
          have hof := ht.jobOf h.toShape
          cases hnext with
          | register => exact absurd rfl hreg
          | reply => exact absurd rfl hrep
          | accept =>
            rw [hp.accepted h.toShape ht] at he
            cases he
          | reject msg =>
            rw [namespaceName_of_ne hof.2.1] at hp'
            exact .inl (.inr ⟨msg, hp'⟩)
          | join => exact .inl (.inl ⟨.attach, nofun, nofun, hp'⟩)
          | attach => exact .inl (.inl ⟨.mark, nofun, nofun, hp'⟩)
          | mark => exact .inl (.inl ⟨.decide, nofun, nofun, hp'⟩)
        · obtain rfl := hproc.symm.trans hk
          cases hnext with
          | unregister =>
            rw [ht.server] at hx
            exact absurd hx (notMem_unregister _ _ _)
      · rw [Handling, hp']
        exact .inl hhand
    · -- the loop of `onEngineClose` finds the socket registered and takes it
      rcases ht.kept _ hmem with hmem | ⟨rest', reason', heq, hmem'⟩
      · exact .inr ⟨k, rest, reason, hmem, hk⟩
      · injection heq with hd hkj hrest
        subst hd hkj hrest
        rcases hk with hk | ⟨r, rfl⟩
        · exact .inr ⟨job', rest, reason', hmem', .inl hk⟩
        · cases hnext with
          | missing hs =>
            rw [origin_eq_none.mpr hs] at he₀
            cases he₀
          | absent hs habs =>
            obtain ⟨-, rfl⟩ := owner_unique (origin_eq_some.mpr ⟨_, hs, rfl, rfl⟩) he₀
            exact absurd hx₀ habs
          | take hs =>
            obtain ⟨-, rfl⟩ := owner_unique (origin_eq_some.mpr ⟨_, hs, rfl, rfl⟩) he₀
            rw [ht.server] at hx
            exact absurd hx (notMem_unregister _ _ _)
  · have hof := h.procs c
    rw [hproc] at hof
    obtain ⟨rfl, -⟩ := owner_unique (ht.origin h.toShape hof.1) ho
    cases hnext with
    | register =>
      rcases ht.procs with ⟨-, hprocs⟩ | ⟨htears, -⟩
      · exact .inl (.inl ⟨.join, nofun, nofun, by rw [hprocs, Function.update_self]⟩)
      · exact htears.elim

theorem Doomed.turn_hooked
    (hp : W.Punctual lab) (he : W'.emptied d = true) (hx : W'.server.attached d n = some x) :
    W'.Hooked d x n := by
  obtain ⟨fresh, hnext, -⟩ := ht.next
  rw [ht.emptied] at he
  have hx' := hx
  rw [ht.server] at hx'
  rcases hnext.new_entry hx' with hx₀ | rfl
  · have hhook := h.hooked d n x he hx₀
    rcases ht.proc_cases d with ⟨rfl, hproc, hp'⟩ | ⟨hp', -⟩
    · have hof := ht.jobOf h.toShape
      rcases hhook with hk | hk | ⟨k, msg, hk', hk⟩
      · obtain rfl := hproc.symm.trans hk
        cases hnext with
        | mark => exact .inr (.inl hp')
      · obtain rfl := hproc.symm.trans hk
        cases hnext with
        | accept =>
          rw [hp.accepted h.toShape ht] at he
          cases he
        | reject msg =>
          rw [namespaceName_of_ne hof.2.1] at hp'
          exact .inr (.inr ⟨_, msg, .inl rfl, hp'⟩)
      · obtain rfl := hproc.symm.trans hk
        cases hnext with
        | unregister => exact .inr (.inr ⟨_, msg, .inr (.inl rfl), hp'⟩)
        | withdraw => exact .inr (.inr ⟨_, msg, .inr (.inr rfl), hp'⟩)
        | unhook =>
          have hgone : (W.server.detach d n).attached d n = none := by simp
          cases hgone.symm.trans hx'
        | demote | error => simp at hk'
    · rw [Hooked, hp']
      exact hhook
  · cases hnext with
    | attach =>
      rcases ht.procs with ⟨-, hprocs⟩ | ⟨htears, -⟩
      · exact .inl (by rw [hprocs, Function.update_self])
      · exact htears.elim

theorem Doomed.turn_registered
    (ho : W.server.origin x = some (d, n)) (hx : x ∈ W.server.sockets n) :
    x ∈ W'.server.sockets n ∨ (∃ msg, W'.procs d = .refuse .leave x n msg) ∨
      ∃ reason, W'.DoesFor d (.tear .leave x reason) := by
  rcases ht.unregistered hx with hx | ⟨msg, hproc, hproc'⟩ | ⟨reason, rfl, hdoes, -⟩
  · exact .inl hx
  · have hof : JobOf W.server c (.refuse .unregister x n msg) := hproc ▸ h.procs c
    obtain ⟨rfl, -⟩ := owner_unique ho hof
    exact .inr (.inl ⟨msg, hproc'⟩)
  · obtain ⟨m, hm⟩ := ht.jobOf h.toShape
    obtain ⟨rfl, -⟩ := owner_unique ho hm
    exact .inr (.inr ⟨reason, hdoes⟩)

theorem Doomed.turn_adapted
    (hx : (W'.server.adapter n).Has x) : ∃ d, W'.server.origin x = some (d, n) ∧
      (x ∈ W'.server.sockets n ∨ (∃ msg, W'.procs d = .refuse .leave x n msg) ∨
        ∃ reason, W'.DoesFor d (.tear .leave x reason)) := by
  obtain ⟨fresh, hnext, -⟩ := ht.next
  rw [ht.server] at hx
  rcases hnext.has hx with ⟨hx, hl⟩ | rfl
  · obtain ⟨d, ho, hcase⟩ := h.adapted n x hx
    refine ⟨d, ht.origin h.toShape ho, ?_⟩
    rcases hcase with hx | ⟨msg, hproc⟩ | ⟨reason, hdoes⟩
    · exact h.turn_registered ht ho hx
    · rcases ht.proc_cases d with ⟨rfl, hproc', -⟩ | ⟨hp', -⟩
      · obtain rfl := hproc'.symm.trans hproc
        cases hnext with
        | withdraw => exact absurd rfl hl
      · exact .inr (.inl ⟨msg, hp'.trans hproc⟩)
    · rcases ht.doesFor_kept hdoes with hdoes | ⟨rfl, rfl⟩
      · exact .inr (.inr ⟨reason, hdoes⟩)
      · cases hnext with
        | missing hs =>
          rw [origin_eq_none.mpr hs] at ho
          cases ho
        | leave hs =>
          obtain ⟨-, rfl⟩ := owner_unique (origin_eq_some.mpr ⟨_, hs, rfl, rfl⟩) ho
          exact absurd rfl hl
  · cases hnext with
    | @join _ nsp =>
      have hof := ht.jobOf h.toShape
      have hproc : W.procs c = .enter .join x nsp := by
        rcases ht.procs with ⟨hproc, -⟩ | ⟨htears, -⟩
        · exact hproc
        · exact htears.elim
      rw [namespaceName_of_ne hof.2.1]
      exact ⟨c, ht.origin h.toShape hof.1,
        h.turn_registered ht hof.1 (h.inside c _ x nsp hproc (.inl rfl))⟩

theorem Doomed.turn_flagged (hp : W.Punctual lab) (hx : W'.server.connected x = true) :
    ∃ d n, W'.server.origin x = some (d, n) ∧
      (x ∈ W'.server.sockets n ∨ W'.procs d = .enter .decide x n ∨
        (∃ k msg, k ≠ .reply ∧ W'.procs d = .refuse k x n msg) ∨
        ∃ k reason, (k = .leave ∨ k = .unmark) ∧ W'.DoesFor d (.tear k x reason)) := by
  obtain ⟨fresh, hnext, -⟩ := ht.next
  have hregistered {d : ConnId} {n : Bytes} (ho : W.server.origin x = some (d, n))
      (hx : x ∈ W.server.sockets n) : x ∈ W'.server.sockets n ∨ W'.procs d = .enter .decide x n ∨
        (∃ k msg, k ≠ .reply ∧ W'.procs d = .refuse k x n msg) ∨
        ∃ k reason, (k = .leave ∨ k = .unmark) ∧ W'.DoesFor d (.tear k x reason) := by
    rcases h.turn_registered ht ho hx with hx | ⟨msg, hproc⟩ | ⟨reason, hdoes⟩
    · exact .inl hx
    · exact .inr (.inr (.inl ⟨.leave, msg, nofun, hproc⟩))
    · exact .inr (.inr (.inr ⟨.leave, reason, .inl rfl, hdoes⟩))
  rw [ht.server] at hx
  rcases hnext.flag hx with ⟨hx, hl⟩ | rfl
  · obtain ⟨d, n, ho, hcase⟩ := h.flagged x hx
    refine ⟨d, n, ht.origin h.toShape ho, ?_⟩
    rcases hcase with hx | hproc | ⟨k, msg, hk, hproc⟩ | ⟨k, reason, hk, hdoes⟩
    · exact hregistered ho hx
    · rcases ht.proc_cases d with ⟨rfl, hproc', hp'⟩ | ⟨hp', -⟩
      · obtain rfl := hproc'.symm.trans hproc
        have hof := ht.jobOf h.toShape
        cases hnext with
        | accept =>
          have he := hp.accepted h.toShape ht
          exact hregistered ho (h.inside d _ x n hproc (.inr (.inr ⟨.inr rfl, he⟩)))
        | reject msg =>
          rw [namespaceName_of_ne hof.2.1] at hp'
          exact .inr (.inr (.inl ⟨.unregister, msg, nofun, hp'⟩))
      · exact .inr (.inl (hp'.trans hproc))
    · rcases ht.proc_cases d with ⟨rfl, hproc', hp'⟩ | ⟨hp', -⟩
      · obtain rfl := hproc'.symm.trans hproc
        cases hnext with
        | unregister => exact .inr (.inr (.inl ⟨.leave, msg, nofun, hp'⟩))
        | withdraw => exact .inr (.inr (.inl ⟨.detach, msg, nofun, hp'⟩))
        | unhook => exact .inr (.inr (.inl ⟨.unmark, msg, nofun, hp'⟩))
        | demote => exact absurd rfl hl
        | error => exact absurd rfl hk
      · exact .inr (.inr (.inl ⟨k, msg, hk, hp'.trans hproc⟩))
    · rcases ht.doesFor_kept hdoes with hdoes | ⟨rfl, rfl⟩
      · exact .inr (.inr (.inr ⟨k, reason, hk, hdoes⟩))
      · have hdoes' := ht.does
        cases hnext with
        | missing hs =>
          rw [origin_eq_none.mpr hs] at ho
          cases ho
        | leave => exact .inr (.inr (.inr ⟨.unmark, reason, .inr rfl, hdoes'⟩))
        | unmark => exact absurd rfl hl
        | _ => simp at hk
  · cases hnext with
    | @mark _ nsp =>
      have hof := ht.jobOf h.toShape
      refine ⟨c, nsp, ht.origin h.toShape hof.1, .inr (.inl ?_)⟩
      rcases ht.procs with ⟨-, hprocs⟩ | ⟨htears, -⟩
      · rw [hprocs, Function.update_self]
      · exact htears.elim

theorem Doomed.turn
    (hord : JobOrderly W.server c job) (hp : W.Punctual lab) (hb : Books W') : Doomed W' :=
  { h.toTidy.turn ht hord, hb with
    apart := fun _ _ _ _ hk hk' => h.turn_apart ht hk hk'
    inside := fun _ _ _ _ hk hk' => h.turn_inside ht hk hk'
    leaving := fun _ _ _ he ho hx => h.turn_leaving ht hp he ho hx
    hooked := fun _ _ _ he hx => h.turn_hooked ht hp he hx
    adapted := fun _ _ hx => h.turn_adapted ht hx
    flagged := fun _ hx => h.turn_flagged ht hp hx }

end

end

end Turn

theorem Doomed.step (h : Doomed W) (hfresh : W.Fresh lab) (hlab : Callback lab)
    (hord : W.Orderly lab) (hp : W.Punctual lab) (hs : W.step J lab = some W') : Doomed W' := by
  have hb : Books W' := h.toBooks.step hfresh hlab hp hs
  rcases step_cases h.toShape hfresh hs with hq | ⟨c, job, l, job', ht⟩
  · exact h.quiet hq hlab hb
  · exact h.turn ht (hord.job ht.resumes) hp hb

theorem Initial.doomed (h : Initial W) : Doomed W := by
  have hidle {c : ConnId} {job : Job} (hp : W.procs c = job) (hjob : job ≠ .idle) : False :=
    hjob (hp.symm.trans (h.idle c))
  refine { h.tidy with
    live := fun e he => ?_, known := fun e c hc => ?_, closing := fun e c hc => ?_
    late := fun c job rest reason hmem => ?_
    apart := fun _ _ _ _ hp => (hidle hp nofun).elim
    inside := fun _ _ _ _ hp => (hidle hp nofun).elim
    leaving := fun c x n he => ?_, hooked := fun c n x he => ?_
    adapted := fun n x hx => ?_, flagged := fun x hx => ?_ }
  · exact h.engines e
  · rw [h.es] at hc
    cases hc
  · rw [h.es] at hc
    cases hc
  · rw [h.tasks] at hmem
    cases hmem
  · rw [h.emptied] at he
    cases he
  · rw [h.emptied] at he
    cases he
  · cases hn : W.server.nsps n with
    | none =>
      rw [Server.adapter, hn] at hx
      simp [Adapter.Has, Adapter.members] at hx
    | some ns =>
      rw [Server.adapter, hn] at hx
      exact absurd hx (h.adapter n ns x hn)
  · rw [connected, h.heap] at hx
    cases hx

/-- `onEngineClose` has returned for the Engine.IO socket, and its connections have
nothing to process. -/
structure Closed (W : World) (es : EngineId) : Prop where
  called : W.closed es = true
  returned : ∀ c, W.es c = some es → ∀ t ∈ W.tasks, (∀ reason, t ≠ .close c reason) ∧
    (∀ reason, t ≠ .empty c reason) ∧
    ∀ job rest reason, t = .loop c job rest reason → job = .idle ∧ rest = []
  queue : ∀ c, W.es c = some es → (W.server.conns c).items = []
  idle : ∀ c, W.es c = some es → W.procs c = .idle

/-- Nothing in the tables refers to a socket of the Engine.IO socket. -/
structure Forgotten (W : World) (es : EngineId) : Prop where
  engines : W.server.engines es = none
  sockets : ∀ c x, W.es c = some es → W.server.Owns c x → ∀ n, x ∉ W.server.sockets n
  adapter : ∀ c x, W.es c = some es → W.server.Owns c x → ∀ n, ¬ (W.server.adapter n).Has x
  attached : ∀ c x, W.es c = some es → W.server.Owns c x → ∀ d n, W.server.attached d n ≠ some x
  connected : ∀ c x, W.es c = some es → W.server.Owns c x → W.server.connected x = false

theorem Doomed.forgotten (h : Doomed W) (hes : Closed W es) : Forgotten W es := by
  have hemptied (c : ConnId) (hc : W.es c = some es) : W.emptied c = true := by
    rcases h.closing es c hc hes.called with ⟨r, hr⟩ | ⟨r, hr⟩ | he
    · exact absurd rfl ((hes.returned c hc _ hr).1 r)
    · exact absurd rfl ((hes.returned c hc _ hr).2.1 r)
    · exact he
  have hproc {c : ConnId} {job : Job} (hc : W.es c = some es) (hp : W.procs c = job)
      (hjob : job ≠ .idle) : False := hjob (hp.symm.trans (hes.idle c hc))
  have hdoes {c : ConnId} {job : Job} (hc : W.es c = some es) (hd : W.DoesFor c job)
      (hjob : job ≠ .idle) : False := by
    rcases hd with hp | ⟨rest, reason, hmem⟩
    · exact hproc hc hp hjob
    · exact hjob ((hes.returned c hc _ hmem).2.2 job rest reason rfl).1
  have hsockets (c : ConnId) (x : SocketId) (n : Bytes) (hc : W.es c = some es)
      (ho : W.server.origin x = some (c, n)) : x ∉ W.server.sockets n := by
    intro hx
    rcases h.leaving c x n (hemptied c hc) ho hx with (⟨k, -, -, hp⟩ | ⟨msg, hp⟩) | hdue
    · exact hproc hc hp nofun
    · exact hproc hc hp nofun
    · obtain ⟨job, rest, reason, hmem, hx⟩ := hdue
      obtain ⟨rfl, rfl⟩ := (hes.returned c hc _ hmem).2.2 job rest reason rfl
      rcases hx with hx | ⟨r, hx⟩ <;> cases hx
  refine ⟨h.live es hes.called, fun c x hc ⟨m, hm⟩ n hx => ?_, fun c x hc ⟨m, hm⟩ n hx => ?_,
    fun c x hc ⟨m, hm⟩ d n hx => ?_, fun c x hc ⟨m, hm⟩ => ?_⟩
  · obtain ⟨d, hd⟩ := h.consistent n x hx
    obtain ⟨rfl, rfl⟩ := owner_unique hm hd
    exact hsockets c x m hc hm hx
  · obtain ⟨d, hd, hcase⟩ := h.adapted n x hx
    obtain ⟨rfl, rfl⟩ := owner_unique hm hd
    rcases hcase with hx | ⟨msg, hp⟩ | ⟨reason, hd⟩
    · exact hsockets c x m hc hm hx
    · exact hproc hc hp nofun
    · exact hdoes hc hd nofun
  · obtain ⟨rfl, rfl⟩ := owner_unique hm (h.attributed.home d n x hx)
    rcases h.hooked c m x (hemptied c hc) hx with hp | hp | ⟨k, msg, -, hp⟩ <;> exact hproc hc hp nofun
  · by_contra hx
    obtain ⟨d, n, hd, hcase⟩ := h.flagged x (by simpa using hx)
    obtain ⟨rfl, rfl⟩ := owner_unique hm hd
    rcases hcase with hx | hp | ⟨k, msg, -, hp⟩ | ⟨k, reason, -, hd⟩
    · exact hsockets c x m hc hm hx
    · exact hproc hc hp nofun
    · exact hproc hc hp nofun
    · exact hdoes hc hd nofun

/-- In every run of the callbacks and the processing loops in which no callback
comes after `onEngineClose`, no socket is accepted after its connection was
emptied, and entries are written and deleted in order, nothing survives the close. -/
theorem punctual_close {W₀ : World} {ls : List Label} (h₀ : Initial W₀) (hrun : Run (World.step J)
      (fun W l => (W.Fresh l ∧ Callback l) ∧ W.Orderly l ∧ W.Punctual l) W₀ ls W)
    {es : EngineId} (hes : Closed W es) : Forgotten W es :=
  (hrun.invariant Doomed h₀.doomed fun _ _ _ h hok hs =>
    h.step hok.1.1 hok.1.2 hok.2.1 hok.2.2 hs).forgotten hes

section NonVacuity

open NonVacuity

def hangUp : List Label := [Label.onEngineConnect 0 0] ++ arrive 0 [1] ++
    [Label.onEngineClose 0 "transport close", .task 1 [], .task 1 [[1]]] ++ List.replicate 7 (Label.task 1 [])

instance : ∀ l, Decidable (Callback l)
  | .disconnect _ => isFalse id
  | .onEngineConnect .. | .onEngineData .. | .onEngineClose .. | .pop _ | .process .. | .task .. =>
    isTrue trivial

instance (W : World) (l : Label) : Decidable (W.Punctual l) := by
  rcases l with _ | _ <;> dsimp only [Punctual] <;> try infer_instance
  rcases W.procs _ with _ | _ | ⟨_ | _, _, _⟩ | _ <;> infer_instance

theorem hangUp_runs : (exec (World.step textJson)
    (fun W l => (W.Fresh l ∧ Callback l) ∧ W.Orderly l ∧ W.Punctual l) hall hangUp).isSome = true := by
  decide +kernel

def hungUp : World := (exec (World.step textJson)
  (fun W l => (W.Fresh l ∧ Callback l) ∧ W.Orderly l ∧ W.Punctual l) hall hangUp).get hangUp_runs

theorem closed_of_single (hes : W.es = Function.update (fun _ => none) 0 (some 0))
    (hcalled : W.closed 0 = true) (htasks : ∃ c reason, W.tasks = [.done, .loop c .idle [] reason])
    (hitems : (W.server.conns 0).items = []) (hidle : W.procs 0 = .idle) : Closed W 0 := by
  have hsingle (c : ConnId) (hc : W.es c = some 0) : c = 0 := by
    by_contra hne
    rw [hes, Function.update_of_ne hne] at hc
    cases hc
  obtain ⟨d, r, htasks⟩ := htasks
  refine ⟨hcalled, fun c _ t ht => ?_, fun c hc => hsingle c hc ▸ hitems,
    fun c hc => hsingle c hc ▸ hidle⟩
  rw [htasks] at ht
  rcases List.mem_pair.mp ht with rfl | rfl
  · exact ⟨nofun, nofun, nofun⟩
  · refine ⟨nofun, nofun, fun job rest reason heq => ?_⟩
    injection heq with _ hjob hrest
    exact ⟨hjob.symm, hrest.symm⟩

/-- The socket is gone from the tables and not connected. -/
theorem punctual_close_hangUp : hungUp.server.engines 0 = none ∧
    [1] ∉ hungUp.server.sockets defaultNamespace ∧ hungUp.server.connected [1] = false := by
  have hgone : Forgotten hungUp 0 := punctual_close hall_initial (run_of_isSome hangUp_runs)
    (closed_of_single rfl rfl ⟨0, _, rfl⟩ rfl rfl)
  have howns : hungUp.server.Owns 0 [1] := ⟨defaultNamespace, by decide +kernel⟩
  exact ⟨hgone.engines, hgone.sockets 0 [1] rfl howns _, hgone.connected 0 [1] rfl howns⟩

/-- The Engine.IO socket is closed while a CONNECT is in the queue. -/
def stillQueued : List Label :=
  [Label.onEngineConnect 0 0, .onEngineData 0 9 connectText, .task 0 [],
    .onEngineClose 0 "transport close", .task 1 [], .task 1 [], .pop 0, .process 0 [1]] ++
    List.replicate 6 (Label.process 0 [9])

theorem stillQueued_runs : (exec (World.step textJson) (fun W l => W.Fresh l ∧ Callback l) hall
    stillQueued).isSome = true := by decide +kernel

/-- The socket of the CONNECT stays registered for good. -/
theorem socket_survives_close : ¬ ∀ (J : Json) (W₀ W : World) (ls : List Label) (es : EngineId),
    J.Lawful → Initial W₀ → Run (World.step J) (fun W l => W.Fresh l ∧ Callback l) W₀ ls W →
    Closed W es → Forgotten W es := by
  intro h
  have hgone := h textJson hall _ stillQueued 0 textJson_lawful hall_initial
    (run_of_isSome stillQueued_runs) (closed_of_single rfl rfl ⟨0, _, rfl⟩ rfl rfl)
  exact hgone.sockets 0 [1] rfl ⟨defaultNamespace, by decide +kernel⟩ defaultNamespace
    (by decide +kernel)

end NonVacuity

end World

end Gosocketio.Server

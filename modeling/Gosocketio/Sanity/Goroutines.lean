import Gosocketio.Lib.Pool
import Gosocketio.Proofs.Sections
import Gosocketio.Spec.Goroutines

/-! What the goroutines of the server do in one step, and that a goroutine which is
not interrupted does what the handlers say. -/

namespace Gosocketio.Server

variable {s : Socket}

section Alone

variable (J : Json) (S : Server) (c : ConnId) (fresh id : SocketId)

/-- A job that goes on for `n` steps while nothing else runs. -/
def alone : ℕ → Server → Job → Server
  | 0, S, _ => S
  | n + 1, S, job => alone n (S.perhaps J (S.next c fresh job).1) (S.next c fresh job).2

@[simp] theorem alone_idle (n : ℕ) : alone J c fresh n S .idle = S := by
  induction n with
  | zero => rfl
  | succ n ih => exact ih

theorem alone_refuse (name msg : Bytes) (n : ℕ) :
    alone J c fresh (n + 5) S (.refuse .unregister id name msg) = S.rejectConnect J c id name msg :=
  alone_idle J _ c fresh n

/-- The sections of `handleConnect`, not interrupted, do what the handler of the one-step model does
once it has made the socket. -/
theorem alone_enter (nsp : Bytes) (ns : Namespace) (hns : S.nsps (namespaceName nsp) = some ns) :
    alone J c fresh 10 S (.enter .register id nsp) =
      let S := ((S.addSocket (namespaceName nsp) id).attach c nsp id).setConnected id true
      match runConnect ns id with
      | some err => S.rejectConnect J c id (namespaceName nsp) err
      | none => S.sendPacket J c (connectReply nsp id) := by
  have hnsps : ((((S.register (namespaceName nsp) id).join (namespaceName nsp) id).attach c nsp
      id).setConnected id true).nsps (namespaceName nsp) = some { ns with
        sockets := insert id ns.sockets, adapter := ns.adapter.addSocket id } := by
    simp [register, join, attach, setConnected, modifyConn, modifySocket, nsps_modifyNsp, hns]
  iterate 4
    rw [alone]
    simp only [next, enterNext, perhaps, Option.elim_some, run]
  rw [alone]
  simp only [next, enterNext, perhaps, Option.elim_none, hnsps, Option.bind_some, addSocket,
    runConnect]
  cases ns.connect.findSome? fun h => h id with
  | some err => exact alone_refuse J _ c fresh id _ err 0
  | none => exact alone_idle J _ c fresh 4

variable {S id} in
theorem alone_tear_succ (hs : S.heap id = some s) (k : Teardown) (reason : String)
    (n : ℕ) : alone J c fresh (n + 1) S (.tear k id reason) =
    alone J c fresh n (S.perhaps J (S.tearNext s id reason k).1) (S.tearNext s id reason k).2 := by
  rw [alone, next, hs]
  rfl

variable {S id} in
theorem alone_tear_handlers (hs : S.heap id = some s) (reason : String) (n : ℕ) :
    alone J c fresh (n + 2) S (.tear .handlers id reason) =
    (S.perform (.disconnected id reason)).detach s.ec s.nsp := by
  have hdetach : (S.perform (.disconnected id reason)).heap id = some s := hs
  rw [alone_tear_succ J c fresh hs]
  exact (alone_tear_succ J c fresh hdetach .detach reason n).trans (alone_idle J _ c fresh n)

variable {S id} in
theorem alone_tear_clearAcks (hs : S.heap id = some s) (reason : String) (n : ℕ) :
    alone J c fresh (n + 4) S (.tear .clearAcks id reason) =
    let S := S.clearAcks id
      let S := if reason = "server namespace disconnect" then
        S.sendPacket J s.ec { type := .disconnect, nsp := s.nsp } else S
      (S.perform (.disconnected id reason)).detach s.ec s.nsp := by
  have hlast : (S.clearAcks id).heap id = some { s with acks := ∅ } := by
    simp [clearAcks, modifySocket, hs]
  rw [alone_tear_succ J c fresh hs]
  simp only [tearNext, perhaps, Option.elim_some, run]
  by_cases hreason : reason = "server namespace disconnect"
  · simp only [if_pos hreason]
    have hsent : ((S.clearAcks id).sendPacket J s.ec { type := .disconnect, nsp := s.nsp }).heap id =
      some { s with acks := ∅ } := hlast
    rw [alone_tear_succ J c fresh hlast]
    exact alone_tear_handlers J c fresh hsent reason n
  · simp only [if_neg hreason]
    exact alone_tear_handlers J c fresh hlast reason (n + 1)

/-- So do those of `disconnectSocket`. -/
theorem alone_tear (reason : String) (n : ℕ) :
    alone J c fresh (n + 7) S (.tear .check id reason) = S.disconnectSocket J id reason := by
  unfold disconnectSocket
  cases hs : S.heap id with
  | none =>
    have hnext : S.next c fresh (.tear .check id reason) = (none, .idle) := by simp [next, hs]
    rw [alone, hnext]
    exact alone_idle J S c fresh (n + 6)
  | some s =>
    simp only
    rw [alone_tear_succ J c fresh hs, tearNext]
    cases hns : S.nsps s.nsp with
    | none => exact alone_idle J S c fresh (n + 6)
    | some ns =>
      simp only [Option.any_some, decide_eq_true_eq]
      by_cases hmem : id ∈ ns.sockets
      · have hleave : (S.unregister s.nsp id).heap id = some s := hs
        have hunmark : ((S.unregister s.nsp id).leave s.nsp id).heap id = some s := hs
        have hclear : (((S.unregister s.nsp id).leave s.nsp id).setConnected id false).heap id =
            some { s with connected := false } := by
          simp [setConnected, modifySocket, hunmark]
        rw [if_pos hmem, if_neg (not_not.mpr hmem)]
        refine (alone_tear_succ J c fresh hleave .leave reason (n + 5)).trans ?_
        refine (alone_tear_succ J c fresh hunmark .unmark reason (n + 4)).trans ?_
        exact alone_tear_clearAcks J c fresh hclear reason n
      · rw [if_neg hmem, if_pos hmem]
        exact alone_idle J S c fresh (n + 6)

end Alone

section Inversion

/-- Everything a job can do next. -/
inductive Next (S : Server) (c : ConnId) (fresh : SocketId) : Job → Option Section → Job → Prop
  | rest : Next S c fresh .idle none .idle
  | answer {pkt} (ht : pkt.type = .connect) :
      Next S c fresh (.process pkt) (some (.send c (connectError pkt.nsp invalidNamespace))) .idle
  | handle {pkt} (e : Effect) (hx : S.attached c pkt.nsp = some e.socket)
      (he : ∀ x reason, e ≠ .disconnected x reason)
      (hevent : ∀ x name args ackId, e = .dispatch x name args ackId → pkt.type = .event)
      (hack : ∀ x ackId data, e = .invoke x ackId data → pkt.type = .ack ∧ ackId = pkt.id) :
      Next S c fresh (.process pkt) (some (.perform e)) .idle
  | ignore {pkt} : Next S c fresh (.process pkt) none .idle
  | create {pkt} (hknown : S.known (namespaceName pkt.nsp) = true) :
      Next S c fresh (.process pkt) (some (.newSocket fresh (namespaceName pkt.nsp) c))
        (.enter .register fresh pkt.nsp)
  | bar {pkt} (msg : Bytes) :
      Next S c fresh (.process pkt) (some (.newSocket fresh (namespaceName pkt.nsp) c))
        (.refuse .unregister fresh (namespaceName pkt.nsp) msg)
  | find {pkt} (x : SocketId) (hx : S.attached c pkt.nsp = some x) :
      Next S c fresh (.process pkt) none (.tear .check x "client namespace disconnect")
  | register {id nsp} : Next S c fresh (.enter .register id nsp)
      (some (.register (namespaceName nsp) id)) (.enter .join id nsp)
  | join {id nsp} : Next S c fresh (.enter .join id nsp)
      (some (.join (namespaceName nsp) id)) (.enter .attach id nsp)
  | attach {id nsp} : Next S c fresh (.enter .attach id nsp)
      (some (.attach c nsp id)) (.enter .mark id nsp)
  | mark {id nsp} : Next S c fresh (.enter .mark id nsp)
      (some (.setConnected id true)) (.enter .decide id nsp)
  | accept {id nsp}
      (hok : (S.nsps (namespaceName nsp)).bind (fun ns => runConnect ns id) = none) :
      Next S c fresh (.enter .decide id nsp) none (.enter .reply id nsp)
  | reject {id nsp} (msg : Bytes) : Next S c fresh (.enter .decide id nsp) none
      (.refuse .unregister id (namespaceName nsp) msg)
  | reply {id nsp} : Next S c fresh (.enter .reply id nsp) (some (.send c (connectReply nsp id))) .idle
  | unregister {id name msg} : Next S c fresh (.refuse .unregister id name msg)
      (some (.unregister name id)) (.refuse .leave id name msg)
  | withdraw {id name msg} : Next S c fresh (.refuse .leave id name msg)
      (some (.leave name id)) (.refuse .detach id name msg)
  | unhook {id name msg} : Next S c fresh (.refuse .detach id name msg)
      (some (.detach c name)) (.refuse .unmark id name msg)
  | demote {id name msg} : Next S c fresh (.refuse .unmark id name msg)
      (some (.setConnected id false)) (.refuse .reply id name msg)
  | error {id name msg} : Next S c fresh (.refuse .reply id name msg)
      (some (.send c (connectError name msg))) .idle
  | missing {k id reason} (hs : S.heap id = none) : Next S c fresh (.tear k id reason) none .idle
  | absent {id reason s} (hs : S.heap id = some s) (hmem : id ∉ S.sockets s.nsp) :
      Next S c fresh (.tear .check id reason) none .idle
  | take {id reason s} (hs : S.heap id = some s) (hmem : id ∈ S.sockets s.nsp) :
      Next S c fresh (.tear .check id reason) (some (.unregister s.nsp id)) (.tear .leave id reason)
  | leave {id reason s} (hs : S.heap id = some s) :
      Next S c fresh (.tear .leave id reason) (some (.leave s.nsp id)) (.tear .unmark id reason)
  | unmark {id reason} : Next S c fresh (.tear .unmark id reason) (some (.setConnected id false))
        (.tear .clearAcks id reason)
  | clearAcks {id reason} (k : Teardown) (hk : k = .notify ∨ k = .handlers) :
      Next S c fresh (.tear .clearAcks id reason) (some (.clearAcks id)) (.tear k id reason)
  | notify {id reason s} (hs : S.heap id = some s) : Next S c fresh (.tear .notify id reason)
      (some (.send s.ec { type := .disconnect, nsp := s.nsp })) (.tear .handlers id reason)
  | handlers {id reason} :
      Next S c fresh (.tear .handlers id reason) (some (.perform (.disconnected id reason)))
        (.tear .detach id reason)
  | detach {id reason s} (hs : S.heap id = some s) :
      Next S c fresh (.tear .detach id reason) (some (.detach s.ec s.nsp)) .idle

variable (S : Server) (c : ConnId) (fresh : SocketId)

theorem any_mem_sockets (name : Bytes) (id : SocketId) :
    (S.nsps name).any (fun n => decide (id ∈ n.sockets)) = true ↔ id ∈ S.sockets name := by
  unfold sockets
  cases S.nsps name <;> simp

theorem next_start (pkt : Packet) :
    Next S c fresh (.process pkt) (S.start c pkt fresh).1 (S.start c pkt fresh).2 := by
  unfold start
  cases htype : pkt.type with
  | connect =>
    cases hns : S.namespaceLookup pkt.nsp with
    | none => exact .answer htype
    | some ns =>
      simp only
      cases runMiddlewares ns fresh (connectData pkt.data) with
      | some err => exact .bar err
      | none => exact .create (by rw [known]; exact congrArg Option.isSome hns)
  | disconnect =>
    cases hx : (S.conns c).sockets.lookup pkt.nsp with
    | none => exact .ignore
    | some x => exact .find x hx
  | event =>
    simp only
    split
    · rename_i x name args hx _
      exact .handle _ hx (by simp) (fun _ _ _ _ _ => htype) (by simp)
    · exact .ignore
  | ack =>
    simp only
    split
    · exact .ignore
    · rename_i x hx
      exact .handle _ hx (by simp) (by simp) (by simp [htype])
  | connectError | binaryEvent | binaryAck => exact .ignore

theorem next_tear {id : SocketId} (hs : S.heap id = some s) (k : Teardown) (reason : String) :
    Next S c fresh (.tear k id reason) (S.tearNext s id reason k).1 (S.tearNext s id reason k).2 := by
  cases k with
  | check =>
    rw [tearNext]
    split_ifs with hmem
    · exact .take hs ((S.any_mem_sockets _ _).mp hmem)
    · exact .absent hs fun h => hmem ((S.any_mem_sockets _ _).mpr h)
  | leave => exact .leave hs
  | unmark => exact .unmark
  | clearAcks => exact .clearAcks _ (by split_ifs <;> simp)
  | notify => exact .notify hs
  | handlers => exact .handlers
  | detach => exact .detach hs

theorem next_spec (job : Job) : Next S c fresh job (S.next c fresh job).1 (S.next c fresh job).2 := by
  cases job with
  | idle => exact .rest
  | process pkt => exact next_start S c fresh pkt
  | enter k id nsp =>
    cases k with
    | register => exact .register
    | join => exact .join
    | attach => exact .attach
    | mark => exact .mark
    | decide =>
      rw [next, enterNext]
      cases hok : (S.nsps (namespaceName nsp)).bind fun ns => runConnect ns id with
      | some err => exact .reject err
      | none => exact .accept hok
    | reply => exact .reply
  | refuse k id name msg =>
    cases k with
    | unregister => exact .unregister
    | leave => exact .withdraw
    | detach => exact .unhook
    | unmark => exact .demote
    | reply => exact .error
  | tear k id reason =>
    rw [next]
    cases hs : S.heap id with
    | none => exact .missing hs
    | some s => exact next_tear S c fresh hs k reason

end Inversion

def Task.weight (f : Job → ℕ) : Task → ℕ
  | .loop _ job _ _ => f job
  | _ => 0

namespace World

variable {J : Json} {W W' : World} {lab : Label} {x : SocketId}

/-- The processing loop of the connection, or another goroutine that works for it,
is at this point. -/
def DoesFor (W : World) (c : ConnId) (job : Job) : Prop :=
  W.procs c = job ∨ ∃ rest reason, Task.loop c job rest reason ∈ W.tasks

/-- Which goroutine a label lets go on, and where it is. -/
def Resumes (W : World) (c : ConnId) (job : Job) : Label → Prop
  | .process d _ => d = c ∧ W.procs c = job
  | .task i _ => ∃ rest reason, W.tasks[i]? = some (.loop c job rest reason)
  | _ => False

/-- What the goroutines other than the processing loops amount to, when a job counts
for `f` of it. -/
def tally (f : Job → ℕ) (W : World) : ℕ := (W.tasks.map (Task.weight f)).sum

/-- The goroutines other than the processing loops only disconnect sockets. -/
def Tears : Job → Prop
  | .idle | .tear .. => True
  | _ => False

/-- One goroutine goes on with its job. -/
structure Turn (J : Json) (W W' : World) (lab : Label) (c : ConnId) (job : Job)
    (l : Option Section) (job' : Job) : Prop where
  resumes : W.Resumes c job lab
  next : ∃ fresh, Next W.server c fresh job l job' ∧
    ((∃ pkt, job = .process pkt) → W.server.heap fresh = none)
  server : W'.server = W.server.perhaps J l
  procs : W.procs c = job ∧ W'.procs = Function.update W.procs c job' ∨
    Tears job ∧ W'.procs = W.procs
  tasks : ∀ t ∈ W'.tasks, t ∈ W.tasks ∨
    ∃ rest reason, t = .loop c job' rest reason ∧ .loop c job rest reason ∈ W.tasks
  kept : ∀ t ∈ W.tasks, t ∈ W'.tasks ∨
    ∃ rest reason, t = .loop c job rest reason ∧ .loop c job' rest reason ∈ W'.tasks
  does : W'.DoesFor c job'
  tally : ∀ f, (W.procs c = job ∧ W'.procs = Function.update W.procs c job' ∧ tally f W' = tally f W) ∨
    (W'.procs = W.procs ∧ tally f W' + f job = tally f W + f job')
  es : W'.es = W.es
  closed : W'.closed = W.closed
  emptied : W'.emptied = W.emptied
  accepted : W'.accepted = W.accepted ∪ acceptance job job'

theorem Resumes.doesFor {c : ConnId} {job : Job} (h : W.Resumes c job lab) : W.DoesFor c job := by
  cases lab with
  | process d fresh => exact .inl h.2
  | task i order =>
    obtain ⟨rest, reason, h⟩ := h
    exact .inr ⟨rest, reason, List.mem_of_getElem? h⟩
  | _ => exact h.elim

/-- What may stand at the different points of a goroutine that works for `c`: it
has to do with sockets of `c` only. -/
def JobOf (S : Server) (c : ConnId) : Job → Prop
  | .idle => True
  | .process pkt => pkt.nsp ≠ []
  | .enter _ x nsp => S.origin x = some (c, nsp) ∧ nsp ≠ [] ∧ S.known nsp = true
  | .refuse _ x name _ => S.origin x = some (c, name)
  | .tear _ x _ => S.Owns c x

structure Shape (W : World) : Prop where
  attributed : Attributed W.server
  consistent : ∀ n, Consistent W.server n
  procs : ∀ c, JobOf W.server c (W.procs c)
  loops : ∀ c job rest reason, Task.loop c job rest reason ∈ W.tasks →
    JobOf W.server c job ∧ Tears job ∧ ∀ x ∈ rest, W.server.Owns c x

/-- `onEngineClose` has yet to disconnect the socket. -/
def Due (W : World) (c : ConnId) (x : SocketId) : Prop :=
  ∃ job rest reason, Task.loop c job rest reason ∈ W.tasks ∧
    (x ∈ rest ∨ ∃ r, job = .tear .check x r)

/-- A goroutine other than the processing loop has to do with the socket. -/
def Named (W : World) (c : ConnId) (x : SocketId) : Prop :=
  ∃ job rest reason, Task.loop c job rest reason ∈ W.tasks ∧ (x ∈ rest ∨ ∃ k r, job = .tear k x r)

/-- A step in which no goroutine goes on with its job: callbacks begin, packets are
queued and taken up, connections are emptied. -/
structure Quiet (W W' : World) (lab : Label) : Prop where
  heap : W'.server.heap = W.server.heap
  origin : W'.server.origin = W.server.origin
  known : ∀ n, W'.server.known n = W.server.known n
  sockets : W'.server.sockets = W.server.sockets
  adapter : W'.server.adapter = W.server.adapter
  connected : W'.server.connected = W.server.connected
  attributed : Attributed W'.server
  attached : ∀ c n, W'.emptied c = false → W'.server.attached c n = W.server.attached c n
  entry : ∀ c n x, W'.server.attached c n = some x →
    W.server.attached c n = some x ∧ W'.emptied c = W.emptied c
  emptied : ∀ c, W'.emptied c = false → W.emptied c = false
  taken : ∀ c, W'.emptied c = true → W.emptied c = true ∨
    ∀ n x, W.server.attached c n = some x → W'.Due c x
  procs : ∀ c, W'.procs c = W.procs c ∨ W.procs c = .idle ∧
    ((W'.procs c = .idle) ∨ ∃ pkt, W'.procs c = .process pkt ∧ pkt.nsp ≠ [])
  loops : ∀ c job rest reason, Task.loop c job rest reason ∈ W'.tasks →
    Task.loop c job rest reason ∈ W.tasks ∨
      ((job = .idle ∨ ∃ x, job = .tear .check x reason ∧ W.server.Owns c x) ∧
        ∀ x ∈ rest, W.server.Owns c x)
  due : ∀ c x, W.Due c x → W'.Due c x
  named : ∀ c x, W'.Named c x → W.Named c x ∨ (∃ n, W.server.attached c n = some x) ∨
    lab = .disconnect x
  tears : ∀ c k x reason, k ≠ .check → W.DoesFor c (.tear k x reason) →
    W'.DoesFor c (.tear k x reason)
  tally : ∀ f : Job → ℕ, f .idle = 0 → (∀ x reason, f (.tear .check x reason) = 0) →
    tally f W' = tally f W
  effects : W'.server.effects = W.server.effects
  accepted : W'.accepted = W.accepted

theorem Quiet.refl (h : Shape W) (lab : Label) : Quiet W W lab where
  heap := rfl
  origin := rfl
  known _ := rfl
  sockets := rfl
  adapter := rfl
  connected := rfl
  attributed := h.attributed
  attached _ _ _ := rfl
  entry _ _ _ hx := ⟨hx, rfl⟩
  emptied _ he := he
  taken _ he := .inl he
  procs _ := .inl rfl
  loops _ _ _ _ hmem := .inl hmem
  due _ _ hx := hx
  named _ _ hx := .inl hx
  tears _ _ _ _ _ hd := hd
  tally _ _ _ := rfl
  effects := rfl
  accepted := rfl

theorem Quiet.proc_of (h : Quiet W W' lab) {c : ConnId} {job : Job} (hp : W'.procs c = job)
    (hjob : ∀ pkt, job ≠ .process pkt) (hidle : job ≠ .idle) : W.procs c = job := by
  rcases h.procs c with hc | ⟨-, hc | ⟨pkt, hc, -⟩⟩
  · rw [← hc, hp]
  · exact absurd (hp.symm.trans hc) hidle
  · exact absurd (hp.symm.trans hc) (hjob pkt)

theorem Quiet.proc_kept (h : Quiet W W' lab) {c : ConnId} {job : Job} (hp : W.procs c = job)
    (hidle : job ≠ .idle) : W'.procs c = job := by
  rcases h.procs c with hc | ⟨hc, -⟩
  · rw [hc, hp]
  · exact absurd (hp.symm.trans hc) hidle

theorem Quiet.doesFor_of (h : Quiet W W' lab) {c : ConnId} {k : Teardown} {reason : String}
    (hk : k ≠ .check) (hd : W'.DoesFor c (.tear k x reason)) : W.DoesFor c (.tear k x reason) := by
  rcases hd with hd | ⟨rest, r, hd⟩
  · exact .inl (h.proc_of hd (by simp) (by simp))
  · rcases h.loops _ _ _ _ hd with hd | ⟨hd | ⟨y, hd, -⟩, -⟩
    · exact .inr ⟨rest, r, hd⟩
    · cases hd
    · injection hd with hk'
      exact absurd hk' hk

theorem quiet_connFor (h : Shape W) (es : EngineId) (c : ConnId) :
    Quiet W (W.connFor es c).1 lab := by
  unfold connFor
  split
  · exact .refl h lab
  · exact { Quiet.refl h lab with attributed := ⟨h.attributed.home, h.attributed.recon⟩ }

theorem Quiet.spawn (h : Quiet W W' lab) {t : Task} (ht : ∀ c job rest reason,
    t = .loop c job rest reason → (∃ x, job = .tear .check x reason ∧ W.server.Owns c x ∧
      lab = .disconnect x) ∧ rest = []) :
    Quiet W { W' with tasks := W'.tasks ++ [t] } lab :=
  have hkept {c : ConnId} {job : Job} {rest : List SocketId} {reason : String}
      (hmem : Task.loop c job rest reason ∈ W'.tasks) : Task.loop c job rest reason ∈ W'.tasks ++ [t] :=
    List.mem_append_left _ hmem
  { h with
    loops := fun c job rest reason hmem => by
      rcases List.mem_append.mp hmem with hmem | hmem
      · exact h.loops c job rest reason hmem
      · obtain ⟨⟨x, hjob, hx, -⟩, hrest⟩ := ht c job rest reason (List.mem_singleton.mp hmem).symm
        exact .inr ⟨.inr ⟨x, hjob, hx⟩, by simp [hrest]⟩
    taken := fun c he => (h.taken c he).imp_right fun hdue n x hx => by
      obtain ⟨job, rest, reason, hmem, hx⟩ := hdue n x hx
      exact ⟨job, rest, reason, hkept hmem, hx⟩
    due := fun c x hx => by
      obtain ⟨job, rest, reason, hmem, hx⟩ := h.due c x hx
      exact ⟨job, rest, reason, hkept hmem, hx⟩
    named := fun c x ⟨job, rest, reason, hmem, hx⟩ => by
      rcases List.mem_append.mp hmem with hmem | hmem
      · exact h.named c x ⟨job, rest, reason, hmem, hx⟩
      · obtain ⟨⟨y, rfl, -, hlab⟩, rfl⟩ := ht c job rest reason (List.mem_singleton.mp hmem).symm
        rcases hx with hx | ⟨k, r, hx⟩
        · cases hx
        · injection hx with hk hxy
          exact .inr (.inr (hxy ▸ hlab))
    tears := fun c k x reason hk hd =>
      (h.tears c k x reason hk hd).imp_right fun ⟨rest, r, hmem⟩ => ⟨rest, r, hkept hmem⟩
    tally := fun f hidle hcheck => by
      have hweight : t.weight f = 0 := by
        cases t with
        | loop c job rest reason =>
          obtain ⟨⟨x, rfl, -⟩, -⟩ := ht c job rest reason rfl
          exact hcheck x reason
        | data | close | empty | done => rfl
      rw [← h.tally f hidle hcheck]
      simp [World.tally, hweight] }

theorem quiet_onEngineClose (h : Shape W) {es : EngineId} {reason : String}
    (hs : W.step J (.onEngineClose es reason) = some W') : Quiet W W' lab := by
  simp only [step, Option.some.injEq] at hs
  subst hs
  cases W.server.engines es with
  | none => exact { Quiet.refl h lab with }
  | some c =>
    have hquiet : Quiet W
        { W with server := W.server.remove es, closed := Function.update W.closed es true } lab :=
      { Quiet.refl h lab with attributed := ⟨h.attributed.home, h.attributed.recon⟩ }
    exact hquiet.spawn (by simp)

theorem quiet_disconnect (h : Shape W) {id : SocketId} (hs : W.step J (.disconnect id) = some W') :
    Quiet W W' (.disconnect id) := by
  simp only [step, Option.map_eq_some_iff] at hs
  obtain ⟨s, hheap, rfl⟩ := hs
  refine (Quiet.refl h _).spawn fun c job rest reason ht => ?_
  injection ht with hc hjob hrest hreason
  subst hc hjob hrest hreason
  exact ⟨⟨id, rfl, ⟨s.nsp, origin_eq_some.mpr ⟨s, hheap, rfl, rfl⟩⟩, rfl⟩, rfl⟩

theorem quiet_pop (h : Shape W) {c : ConnId} (hs : W.step J (.pop c) = some W') : Quiet W W' lab := by
  simp only [step] at hs
  split at hs
  · rename_i p ps hidle hitems
    rw [Option.some.injEq] at hs
    subst hs
    have hpop : Attributed (W.server.pop c) := h.attributed.run (l := .pop c) (J := J) trivial
    have hattached (d : ConnId) (n : Bytes) :
        ((W.server.pop c).reconstruct J c p).attached d n = W.server.attached d n :=
      (attached_reconstruct p).trans attached_pop
    have hprocs (d : ConnId) (job : Job) : Function.update W.procs c job d = W.procs d ∨
        d = c ∧ W.procs d = .idle ∧ Function.update W.procs c job d = job := by
      by_cases hd : d = c
      · subst hd
        exact .inr ⟨rfl, hidle, Function.update_self ..⟩
      · exact .inl (Function.update_of_ne hd _ _)
    refine { Quiet.refl h lab with
      attributed := hpop.reconstruct p
      attached := fun d n _ => hattached d n
      entry := fun d n x hx => ⟨(hattached d n).symm.trans hx, rfl⟩
      procs := fun d => ?_
      tears := fun d k x reason hk hd => ?_ }
    · refine (hprocs d _).imp_right fun ⟨hdc, hidle, hd⟩ => ⟨hidle, ?_⟩
      subst hdc
      simp only [hd]
      cases hp : (Gosocketio.handleIn J (W.server.conns d).recon p).2 with
      | none => exact .inl rfl
      | some pkt =>
        exact .inr ⟨pkt, rfl, ne_nil_of_head (nsp_head_of_handleIn (h.attributed.recon d) hp)⟩
    · refine hd.imp_left fun hd => ?_
      rcases hprocs d _ with hp | ⟨-, hidle, -⟩
      · exact hp.trans hd
      · rw [hidle] at hd
        cases hd
  · cases hs

/-- A goroutine of another kind goes on, or the loop of `onEngineClose` takes up the
next socket. -/
theorem Quiet.replace (h : Quiet W W' lab) {i : ℕ} {t u : Task} (hi : W'.tasks[i]? = some t)
    (hdone : ∀ c job rest reason, t = .loop c job rest reason → job = .idle ∧
      ∃ x xs, rest = x :: xs ∧ u = .loop c (.tear .check x reason) xs reason ∧
        ∀ y ∈ x :: xs, W.server.Owns c y)
    (hnew : ∀ c job rest reason, u = .loop c job rest reason →
      (∃ x, job = .tear .check x reason ∧ t = .loop c .idle (x :: rest) reason) ∨
        job = .idle ∧ ∀ x ∈ rest, ∃ n, W.server.attached c n = some x ∧ W.server.Owns c x) :
    Quiet W { W' with tasks := W'.tasks.set i u } lab := by
  have hmem := List.mem_of_getElem? hi
  -- what is due stays due when a loop takes up its next socket
  have hkeep {c : ConnId} {x : SocketId} (hx : W'.Due c x) :
      Due { W' with tasks := W'.tasks.set i u } c x := by
    obtain ⟨job, rest, reason, hmem', hx⟩ := hx
    by_cases heq : Task.loop c job rest reason = t
    · obtain ⟨rfl, y, ys, rfl, rfl, -⟩ := hdone c job rest reason heq.symm
      refine ⟨_, ys, reason, Pool.mem_set_self hi, ?_⟩
      rcases hx with hx | ⟨r, hx⟩
      · rcases List.mem_cons.mp hx with rfl | hx
        · exact .inr ⟨reason, rfl⟩
        · exact .inl hx
      · cases hx
    · exact ⟨job, rest, reason, Pool.mem_set_of_ne hi hmem' heq, hx⟩
  refine { h with
    loops := fun c job rest reason hmem' => ?_
    taken := fun c he => (h.taken c he).imp_right fun hdue n x hx => hkeep (hdue n x hx)
    due := fun c x hx => hkeep (h.due c x hx)
    named := fun c x ⟨job, rest, reason, hmem', hx⟩ => ?_
    tears := fun c k x reason hk hd => (h.tears c k x reason hk hd).imp_right ?_
    tally := fun f hidle hcheck => ?_ }
  · rcases List.mem_or_eq_of_mem_set hmem' with hmem' | hmem'
    · exact h.loops c job rest reason hmem'
    · rcases hnew c job rest reason hmem'.symm with ⟨x, rfl, rfl⟩ | ⟨rfl, hrest⟩
      · obtain ⟨-, y, ys, hxs, -, howns⟩ := hdone c _ _ reason rfl
        obtain ⟨rfl, rfl⟩ := List.cons.inj hxs
        exact .inr ⟨.inr ⟨x, rfl, howns x List.mem_cons_self⟩,
          fun y hy => howns y (List.mem_cons_of_mem x hy)⟩
      · exact .inr ⟨.inl rfl, fun x hx => (hrest x hx).elim fun _ hn => hn.2⟩
  · rcases List.mem_or_eq_of_mem_set hmem' with hmem' | hmem'
    · exact h.named c x ⟨job, rest, reason, hmem', hx⟩
    · rcases hnew c job rest reason hmem'.symm with ⟨y, rfl, rfl⟩ | ⟨rfl, hrest⟩
      · refine h.named c x ⟨.idle, y :: rest, reason, hmem, .inl ?_⟩
        rcases hx with hx | ⟨k, r, hx⟩
        · exact List.mem_cons_of_mem y hx
        · injection hx with _ hxy
          rw [hxy]
          exact List.mem_cons_self
      · rcases hx with hx | ⟨k, r, hx⟩
        · exact .inr (.inl ((hrest x hx).imp fun _ hn => hn.1))
        · cases hx
  · rintro ⟨rest, r, hmem'⟩
    refine ⟨rest, r, Pool.mem_set_of_ne hi hmem' fun heq => ?_⟩
    cases (hdone _ _ _ _ heq.symm).1
  · have ht : t.weight f = 0 := by
      cases t with
      | loop c job rest reason =>
        obtain ⟨rfl, -⟩ := hdone c job rest reason rfl
        exact hidle
      | data | close | empty | done => rfl
    have hu : u.weight f = 0 := by
      cases u with
      | loop c job rest reason =>
        rcases hnew c job rest reason rfl with ⟨x, rfl, -⟩ | ⟨rfl, -⟩
        · exact hcheck x reason
        · exact hidle
      | data | close | empty | done => rfl
    have hsum := Pool.sum_map_set (Task.weight f) (u := u) hi
    rw [ht, hu] at hsum
    rw [← h.tally f hidle hcheck]
    exact hsum

theorem quiet_empty (h : Shape W) {i : ℕ} {c : ConnId} {reason : String} {order : List SocketId}
    (hi : W.tasks[i]? = some (.empty c reason))
    (horder : order.Perm ((W.server.conns c).sockets.entries.map Sigma.snd)) :
    Quiet W { W with
      server := W.server.clearSockets c
      emptied := Function.update W.emptied c true
      tasks := W.tasks.set i (.loop c .idle order reason) } lab := by
  have hemptied (d : ConnId) (hd : Function.update W.emptied c true d = false) : d ≠ c := by
    rintro rfl
    rw [Function.update_self] at hd
    cases hd
  have hquiet : Quiet W { W with tasks := W.tasks.set i (.loop c .idle order reason) } lab := by
    refine (Quiet.refl h lab).replace hi (by simp) fun d job rest r ht => .inr ?_
    injection ht with hd hjob hrest
    subst hd hjob hrest
    refine ⟨rfl, fun x hx => ?_⟩
    obtain ⟨⟨n, y⟩, hmem, rfl⟩ := List.mem_map.mp (horder.mem_iff.mp hx)
    have hy : W.server.attached c n = some y := AList.mem_lookup_iff.mpr hmem
    exact ⟨n, hy, n, h.attributed.home c n y hy⟩
  exact { hquiet with
    attributed := h.attributed.clearSockets
    attached := fun d n hd => attached_clearSockets.trans (if_neg (hemptied d hd))
    entry := fun d n x hx => by
      rw [attached_clearSockets] at hx
      split_ifs at hx with hd
      exact ⟨hx, Function.update_of_ne hd _ _⟩
    emptied := fun d hd => (Function.update_of_ne (hemptied d hd) true W.emptied).symm.trans hd
    taken := fun d he => by
      by_cases hd : d = c
      · subst hd
        refine .inr fun n x hx => ⟨.idle, order, reason, Pool.mem_set_self hi, .inl ?_⟩
        exact horder.mem_iff.mpr (List.mem_map.mpr ⟨⟨n, x⟩, AList.mem_lookup_iff.mp hx, rfl⟩)
      · exact .inl ((Function.update_of_ne hd true W.emptied).symm.trans he) }

theorem turn_loop {i : ℕ} {c : ConnId} {job : Job} {rest order : List SocketId} {reason : String}
    (hi : W.tasks[i]? = some (.loop c job rest reason)) (htears : Tears job) :
    Turn J W { W with
        server := W.server.perhaps J (W.server.next c [] job).1
        tasks := W.tasks.set i (.loop c (W.server.next c [] job).2 rest reason) }
      (.task i order) c job (W.server.next c [] job).1 (W.server.next c [] job).2 where
  resumes := ⟨rest, reason, hi⟩
  next := ⟨[], next_spec _ c [] job, fun ⟨pkt, hpkt⟩ => by rw [hpkt] at htears; exact htears.elim⟩
  server := rfl
  procs := .inr ⟨htears, rfl⟩
  tasks t ht := by
    rcases List.mem_or_eq_of_mem_set ht with ht | ht
    · exact .inl ht
    · exact .inr ⟨rest, reason, ht, List.mem_of_getElem? hi⟩
  kept t ht := by
    by_cases heq : t = .loop c job rest reason
    · exact .inr ⟨rest, reason, heq, Pool.mem_set_self hi⟩
    · exact .inl (Pool.mem_set_of_ne hi ht heq)
  does := .inr ⟨rest, reason, Pool.mem_set_self hi⟩
  tally f := .inr ⟨rfl, Pool.sum_map_set (Task.weight f) hi⟩
  es := rfl
  closed := rfl
  emptied := rfl
  accepted := by
    cases job with
    | idle | tear => simp [acceptance]
    | process | enter | refuse => exact htears.elim

theorem turn_process {c : ConnId} {fresh : SocketId}
    (hfresh : (∃ pkt, W.procs c = .process pkt) → W.server.heap fresh = none) :
    Turn J W { W with
        server := W.server.perhaps J (W.server.next c fresh (W.procs c)).1
        procs := Function.update W.procs c (W.server.next c fresh (W.procs c)).2
        accepted := W.accepted ∪ acceptance (W.procs c) (W.server.next c fresh (W.procs c)).2 }
      (.process c fresh) c (W.procs c) (W.server.next c fresh (W.procs c)).1
      (W.server.next c fresh (W.procs c)).2 where
  resumes := ⟨rfl, rfl⟩
  next := ⟨fresh, next_spec _ c fresh _, hfresh⟩
  server := rfl
  procs := .inl ⟨rfl, rfl⟩
  tasks _ ht := .inl ht
  kept _ ht := .inl ht
  does := .inl (Function.update_self ..)
  tally _ := .inl ⟨rfl, rfl, rfl⟩
  es := rfl
  closed := rfl
  emptied := rfl
  accepted := rfl

/-- Everything a step of the world can be. -/
theorem step_cases (h : Shape W) (hfresh : W.Fresh lab) (hs : W.step J lab = some W') :
    Quiet W W' lab ∨ ∃ c job l job', Turn J W W' lab c job l job' := by
  cases lab with
  | onEngineConnect es c => exact .inl (Option.some.inj hs ▸ quiet_connFor h es c)
  | onEngineData es c p =>
    rw [← Option.some.inj hs]
    exact .inl ((quiet_connFor h es c).spawn (by simp))
  | onEngineClose es reason => exact .inl (quiet_onEngineClose h hs)
  | disconnect id => exact .inl (quiet_disconnect h hs)
  | pop c => exact .inl (quiet_pop h hs)
  | process c fresh =>
    rw [← Option.some.inj hs]
    exact .inr ⟨c, W.procs c, _, _, turn_process fun _ => hfresh⟩
  | task i order =>
    simp only [step, Option.bind_eq_some_iff] at hs
    obtain ⟨t, hi, hs⟩ := hs
    have hmem := List.mem_of_getElem? hi
    cases t with
    | data c p =>
      have hquiet : Quiet W { W with server := W.server.push c p } (.task i order) :=
        { Quiet.refl h _ with
          attributed := h.attributed.run (l := .push c p) (J := J) trivial
          attached := fun _ _ _ => attached_push p
          entry := fun _ _ _ hx => ⟨(attached_push p).symm.trans hx, rfl⟩ }
      rw [← Option.some.inj hs]
      exact .inl (hquiet.replace hi (by simp) (by simp))
    | close c reason =>
      have hquiet : Quiet W { W with server := W.server.closeQueue c } (.task i order) :=
        { Quiet.refl h _ with
          attributed := h.attributed.run (l := .closeQueue c) (J := J) trivial
          attached := fun _ _ _ => attached_closeQueue
          entry := fun _ _ _ hx => ⟨attached_closeQueue.symm.trans hx, rfl⟩ }
      rw [← Option.some.inj hs]
      exact .inl (hquiet.replace hi (by simp) (by simp))
    | empty c reason =>
      simp only [runTask, Option.ite_none_right_eq_some, Option.some.injEq] at hs
      obtain ⟨horder, rfl⟩ := hs
      exact .inl (quiet_empty h hi horder)
    | loop c job rest reason =>
      obtain ⟨hjob, htears, hrest⟩ := h.loops c job rest reason hmem
      cases job with
      | idle =>
        cases rest with
        | nil =>
          rw [← Option.some.inj hs]
          exact .inr ⟨c, .idle, _, _, turn_loop hi trivial⟩
        | cons x rest =>
          rw [← Option.some.inj hs]
          refine .inl ((Quiet.refl h _).replace hi (fun d job rest' r ht => ?_) fun d job rest' r ht => ?_)
          · injection ht with hd hjob hrest' hreason
            subst hd hjob hrest' hreason
            exact ⟨rfl, x, rest, rfl, rfl, hrest⟩
          · injection ht with hd hjob hrest' hreason
            subst hd hjob hrest' hreason
            exact .inl ⟨x, rfl, rfl⟩
      | tear k x r =>
        rw [← Option.some.inj hs]
        exact .inr ⟨c, .tear k x r, _, _, turn_loop hi trivial⟩
      | process | enter | refuse => exact htears.elim
    | done => cases hs

section Shape

variable {S S' : Server} {c : ConnId} {fresh : SocketId} {job job' : Job} {l : Option Section}

theorem JobOf.mono (h : JobOf S c job) (ho : ∀ x o, S.origin x = some o → S'.origin x = some o)
    (hk : ∀ n, S'.known n = S.known n) : JobOf S' c job := by
  cases job with
  | idle => trivial
  | process pkt => exact h
  | enter k x nsp => exact ⟨ho _ _ h.1, h.2.1, (hk nsp).trans h.2.2⟩
  | refuse k x name msg => exact ho _ _ h
  | tear k x reason => exact h.imp fun m hm => ho _ _ hm

theorem namespaceName_of_ne {nsp : Bytes} (h : nsp ≠ []) : namespaceName nsp = nsp := if_neg h

theorem sectionOk_of_next (h : Next S c fresh job l job') (hj : JobOf S c job)
    (hfresh : (∃ pkt, job = .process pkt) → S.heap fresh = none) :
    ∀ l', l = some l' → S.SectionOk l' := by
  rintro l' rfl
  cases h with
  | create | bar => exact hfresh ⟨_, rfl⟩
  | register =>
    obtain ⟨s, hs, -, hnsp⟩ := origin_eq_some.mp hj.1
    exact ⟨s, hs, hnsp.trans (namespaceName_of_ne hj.2.1).symm⟩
  | attach => exact origin_eq_some.mp hj.1
  | _ => trivial

theorem origin_perhaps {o : ConnId × Bytes} (hok : ∀ l', l = some l' → S.SectionOk l')
    (hx : S.origin x = some o) : (S.perhaps J l).origin x = some o := by
  cases l with
  | none => exact hx
  | some l => exact origin_run (hok l rfl) hx

theorem known_perhaps (n : Bytes) : (S.perhaps J l).known n = S.known n := by
  cases l with
  | none => rfl
  | some l => exact known_run

theorem jobOf_next (h : Next S c fresh job l job') (hj : JobOf S c job) (ha : Attributed S)
    (hfresh : (∃ pkt, job = .process pkt) → S.heap fresh = none) :
    JobOf (S.perhaps J l) c job' := by
  have ho : ∀ x o, S.origin x = some o → (S.perhaps J l).origin x = some o := fun x o =>
    origin_perhaps (sectionOk_of_next h hj hfresh)
  cases h with
  | @create pkt hknown =>
    rw [namespaceName_of_ne hj] at hknown ⊢
    exact ⟨by simp [perhaps, run], hj, hknown⟩
  | @bar pkt msg =>
    change (S.newSocket fresh (namespaceName pkt.nsp) c).origin fresh = _
    simp
  | find x hx => exact ⟨_, ha.home c _ x hx⟩
  | register | join | attach | mark | accept =>
    exact ⟨ho _ _ hj.1, hj.2.1, (known_perhaps _).trans hj.2.2⟩
  | reject => exact (namespaceName_of_ne hj.2.1).symm ▸ hj.1
  | unregister | withdraw | unhook | demote => exact ho _ _ hj
  | take | leave | unmark | clearAcks | notify | handlers => exact hj.imp fun m hm => ho _ _ hm
  | _ => trivial

section

variable (ht : Turn J W W' lab c job l job')

include ht

/-- The loop of another connection stays where it is, and so does that of `c` if it
is another goroutine that goes on. -/
theorem Turn.proc_cases (d : ConnId) : (d = c ∧ W.procs c = job ∧ W'.procs d = job') ∨
      (W'.procs d = W.procs d ∧ (d = c → Tears job)) := by
  rcases ht.procs with ⟨hjob, hprocs⟩ | ⟨htears, hprocs⟩
  · rw [hprocs]
    by_cases hd : d = c
    · subst hd
      exact .inl ⟨rfl, hjob, Function.update_self _ _ _⟩
    · exact .inr ⟨Function.update_of_ne hd _ _, fun he => absurd he hd⟩
  · exact .inr ⟨congrFun hprocs d, fun _ => htears⟩

theorem Turn.jobOf (h : Shape W) : JobOf W.server c job := by
  rcases ht.resumes.doesFor with hj | ⟨rest, reason, hj⟩
  · exact hj ▸ h.procs c
  · exact (h.loops c job rest reason hj).1

theorem Turn.sectionOk (h : Shape W) : ∀ l', l = some l' → W.server.SectionOk l' := by
  obtain ⟨fresh, hnext, hfresh⟩ := ht.next
  exact sectionOk_of_next hnext (ht.jobOf h) hfresh

theorem Turn.origin (h : Shape W)
    {o : ConnId × Bytes} (hx : W.server.origin x = some o) : W'.server.origin x = some o := by
  rw [ht.server]
  exact origin_perhaps (ht.sectionOk h) hx

end

theorem Shape.run {l : Section} (h : Shape W) (hok : W.server.SectionOk l) :
    Shape { W with server := W.server.run J l } where
  attributed := h.attributed.run hok
  consistent := consistent_run h.consistent hok
  procs d := (h.procs d).mono (fun _ _ ho => origin_run hok ho) fun _ => known_run
  loops d job rest reason hmem := by
    obtain ⟨hjob, htears, hrest⟩ := h.loops d job rest reason hmem
    exact ⟨hjob.mono (fun _ _ ho => origin_run hok ho) fun _ => known_run, htears,
      fun x hx => (hrest x hx).imp fun _ hm => origin_run hok hm⟩

theorem Shape.turn (h : Shape W) (ht : Turn J W W' lab c job l job') : Shape W' := by
  obtain ⟨fresh, hnext, hfresh⟩ := ht.next
  have hok := ht.sectionOk h
  have ho : ∀ x o, W.server.origin x = some o → W'.server.origin x = some o := fun x o hx =>
    ht.origin h hx
  have hknown (n : Bytes) : W'.server.known n = W.server.known n := by rw [ht.server, known_perhaps]
  have hj' : JobOf W'.server c job' := ht.server ▸ jobOf_next hnext (ht.jobOf h) h.attributed hfresh
  refine ⟨?_, fun n => ?_, fun d => ?_, fun d k rest reason hmem => ?_⟩
  · rw [ht.server]
    cases l with
    | none => exact h.attributed
    | some l => exact h.attributed.run (hok l rfl)
  · rw [ht.server]
    cases l with
    | none => exact h.consistent n
    | some l => exact consistent_run h.consistent (hok l rfl) n
  · rcases ht.proc_cases d with ⟨rfl, -, hd⟩ | ⟨hd, -⟩
    · exact hd ▸ hj'
    · exact hd ▸ (h.procs d).mono ho hknown
  · rcases ht.tasks _ hmem with hmem | ⟨rest, reason, heq, hmem⟩
    · obtain ⟨hk, htears, hrest⟩ := h.loops d k rest reason hmem
      exact ⟨hk.mono ho hknown, htears, fun x hx => (hrest x hx).imp fun m hm => ho _ _ hm⟩
    · injection heq with hd hk hrest' hreason
      subst hd hk hrest' hreason
      obtain ⟨-, htears, hrest⟩ := h.loops d job _ _ hmem
      refine ⟨hj', ?_, fun x hx => (hrest x hx).imp fun m hm => ho _ _ hm⟩
      cases hnext <;> trivial

section

variable (ht : Turn J W W' lab c job l job')

include ht

theorem Turn.doesFor {d : ConnId} {k : Job}
    (hk : W'.DoesFor d k) : W.DoesFor d k ∨ d = c ∧ k = job' := by
  rcases hk with hk | ⟨rest, reason, hk⟩
  · rcases ht.proc_cases d with ⟨hd, -, hd'⟩ | ⟨hd, -⟩
    · exact .inr ⟨hd, hk ▸ hd'⟩
    · exact .inl (.inl (hd ▸ hk))
  · rcases ht.tasks _ hk with hk | ⟨rest', reason', heq, -⟩
    · exact .inl (.inr ⟨rest, reason, hk⟩)
    · injection heq with hd hjob
      exact .inr ⟨hd, hjob⟩

theorem Turn.doesFor_kept {d : ConnId} {k : Job}
    (hk : W.DoesFor d k) : W'.DoesFor d k ∨ d = c ∧ k = job := by
  rcases hk with hk | ⟨rest, reason, hk⟩
  · rcases ht.proc_cases d with ⟨hd, hd', -⟩ | ⟨hd, -⟩
    · exact .inr ⟨hd, hk.symm.trans (hd ▸ hd')⟩
    · exact .inl (.inl (hd.trans hk))
  · rcases ht.kept _ hk with hk | ⟨rest', reason', heq, -⟩
    · exact .inl (.inr ⟨rest, reason, hk⟩)
    · injection heq with hd hjob
      exact .inr ⟨hd, hjob⟩

/-- A socket enters a namespace only in `handleConnect`. -/
theorem Turn.registered (h : Shape W) {n : Bytes}
    (hx : x ∈ W'.server.sockets n) :
    x ∈ W.server.sockets n ∨ job = .enter .register x n ∧ W.procs c = .enter .register x n := by
  obtain ⟨fresh, hnext, -⟩ := ht.next
  rw [ht.server] at hx
  cases l with
  | none => exact .inl hx
  | some l =>
    rcases mem_sockets_run hx with hx | rfl
    · exact .inl hx
    · refine .inr ?_
      cases hnext with
      | @register _ nsp =>
        rw [namespaceName_of_ne (ht.jobOf h).2.1]
        rcases ht.procs with ⟨hproc, -⟩ | ⟨htears, -⟩
        · exact ⟨rfl, hproc⟩
        · exact htears.elim

end

theorem Shape.quiet (h : Shape W) (hq : Quiet W W' lab) : Shape W' := by
  have ho : ∀ x o, W.server.origin x = some o → W'.server.origin x = some o := fun x o hx => by
    rw [hq.origin, hx]
  have howns {d : ConnId} {x : SocketId} (hx : W.server.Owns d x) : W'.server.Owns d x :=
    hx.imp fun m hm => ho _ _ hm
  refine ⟨hq.attributed, fun n x hx => ?_, fun d => ?_, fun d k rest reason hmem => ?_⟩
  · rw [hq.sockets] at hx
    rw [hq.origin]
    exact h.consistent n x hx
  · rcases hq.procs d with hd | ⟨-, hd | ⟨pkt, hd, hpkt⟩⟩
    · exact hd ▸ (h.procs d).mono ho hq.known
    · rw [hd]
      trivial
    · exact hd ▸ hpkt
  · rcases hq.loops d k rest reason hmem with hmem | ⟨rfl | ⟨x, rfl, hx⟩, hrest⟩
    · obtain ⟨hk, htears, hrest⟩ := h.loops d k rest reason hmem
      exact ⟨hk.mono ho hq.known, htears, fun x hx => howns (hrest x hx)⟩
    · exact ⟨trivial, trivial, fun x hx => howns (hrest x hx)⟩
    · exact ⟨howns hx, trivial, fun x hx => howns (hrest x hx)⟩

theorem Shape.step (h : Shape W) (hfresh : W.Fresh lab) (hs : W.step J lab = some W') : Shape W' := by
  rcases step_cases h hfresh hs with hq | ⟨c, job, l, job', ht⟩
  · exact h.quiet hq
  · exact h.turn ht

theorem Initial.shape (h : Initial W) : Shape W where
  attributed := attributed_of_unused h.conns
  consistent := consistent_of_empty h.sockets
  procs c := by
    rw [h.idle]
    trivial
  loops c job rest reason hmem := by simp [h.tasks] at hmem

end Shape

end World

end Gosocketio.Server

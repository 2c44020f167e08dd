import Gosocketio.Proofs.Attachment

/-! The `OnDisconnect` handlers of the Socket.IO client are called by whoever takes a namespace
away: the server, the application, `Close`, or the end of the Engine.IO session. Two sections take
one away and call nobody: `connectNsp`, which starts over, and `handleConnectError`. -/

namespace Gosocketio

variable {order : List Bytes}

/-- A call of the `OnDisconnect` handlers of a namespace. -/
def Handler.isDisconnect (nsp : Bytes) : Handler → Bool
  | .disconnect n _ => n == nsp
  | _ => false

/-- `DisconnectNamespace` has taken the namespace away and is yet to call the handlers. -/
def Task.fires (nsp : Bytes) : Task → ℕ
  | .sendPacket pkt true => if pkt.nsp = nsp then 1 else 0
  | _ => 0

namespace SioClient

variable (C : SioClient) (n nsp : Bytes)

/-- How often the `OnDisconnect` handlers of a namespace have been called. -/
def notices : ℕ := C.started.countP (Handler.isDisconnect n)

theorem notices_start (hs : List Handler) :
    (C.start hs).notices n = C.notices n + hs.countP (Handler.isDisconnect n) :=
  List.countP_append

@[simp] theorem notices_modifyNsp (f : NsClient → NsClient) : (C.modifyNsp nsp f).notices n = C.notices n := by
  rw [notices, started_modifyNsp, notices]

theorem countP_isDisconnect (order : List Bytes) (reason : String) :
    (order.map fun nsp => Handler.disconnect nsp reason).countP (Handler.isDisconnect n) = order.count n := by
  rw [List.countP_map, List.count]
  rfl

theorem notices_handleConnect (pkt : Packet) : (C.handleConnect pkt).notices n = C.notices n := by
  unfold handleConnect
  split
  · exact notices_start C n _
  · rw [notices_start]
    exact notices_modifyNsp (C.abandon pkt.nsp) n pkt.nsp _

theorem notices_handleConnectError (pkt : Packet) : (C.handleConnectError pkt).notices n = C.notices n := by
  unfold handleConnectError
  simp only [notices_start, notices_modifyNsp]
  split <;> rfl

theorem connected_modifyNsp (f : NsClient → NsClient) (hne : n ≠ nsp) :
    (C.modifyNsp nsp f).Connected n = C.Connected n := by
  rw [Connected, lookup_modifyNsp, if_neg hne, Connected]

theorem connected_handleConnect (pkt : Packet) (h : C.Connected n = true) :
    (C.handleConnect pkt).Connected n = true := by
  unfold handleConnect
  split
  · exact h
  · change ((C.abandon pkt.nsp).modifyNsp pkt.nsp _).Connected n = true
    by_cases hn : n = pkt.nsp
    · rw [Connected] at h ⊢
      rw [lookup_modifyNsp, if_pos hn]
      change ((C.nsps.lookup n).map _).any _ = true
      cases hnc : C.nsps.lookup n with
      | none =>
        rw [hnc] at h
        cases h
      | some nc => rfl
    · rwa [connected_modifyNsp _ _ _ _ hn]

theorem connected_leave : (C.leave nsp).Connected n = if n = nsp then false else C.Connected n := by
  split_ifs with h
  · rw [not_connected_iff, held_leave, if_pos h]
  · exact connected_modifyNsp C n nsp _ h

theorem connected_await (data : Value) (ch : ChanId) :
    (C.await nsp data ch).Connected n = if n = nsp then false else C.Connected n := by
  have hheld := held_await C n nsp data ch
  split_ifs with h
  · rw [if_pos h] at hheld
    exact (not_connected_iff _ n).mpr hheld
  · rw [await, Connected, AList.lookup_insert_ne h, Connected]

theorem connected_handleConnectError (pkt : Packet) :
    (C.handleConnectError pkt).Connected n = if n = pkt.nsp then false else C.Connected n := by
  unfold handleConnectError
  split
  · exact connected_leave C n pkt.nsp
  · exact connected_leave _ n pkt.nsp

theorem nodup_connectedNsps : C.connectedNsps.Nodup :=
  List.Nodup.sublist (List.filter_sublist.map Sigma.fst) C.nsps.nodupKeys

theorem mem_connectedNsps : n ∈ C.connectedNsps ↔ C.Connected n = true := by
  rw [connectedNsps, List.mem_map, Connected]
  constructor
  · rintro ⟨⟨n, nc⟩, he, rfl⟩
    obtain ⟨hmem, hconn⟩ := List.mem_filter.mp he
    rw [AList.mem_lookup_iff.mpr hmem]
    exact hconn
  · intro h
    cases hnc : C.nsps.lookup n with
    | none =>
      rw [hnc] at h
      cases h
    | some nc =>
      rw [hnc] at h
      exact ⟨⟨n, nc⟩, List.mem_filter.mpr ⟨AList.mem_lookup_iff.mp hnc, h⟩, rfl⟩

theorem count_connectedNsps (h : order.Perm C.connectedNsps) :
    order.count n = (C.Connected n).toNat := by
  rw [h.count_eq]
  cases hconn : C.Connected n with
  | false =>
    refine List.count_eq_zero_of_not_mem fun hmem => ?_
    rw [mem_connectedNsps, hconn] at hmem
    cases hmem
  | true => exact List.count_eq_one_of_mem C.nodup_connectedNsps ((C.mem_connectedNsps n).mpr hconn)

end SioClient

namespace Reconnect

open Runs Pool

variable {o : ReconnectOptions} {s s' : Reconnect} {a : Act} {acts : List Act}

/-- How often the `OnDisconnect` handlers of a namespace have been called, or are about to be. -/
def onDisconnects (s : Reconnect) (nsp : Bytes) : ℕ :=
  s.client.notices nsp + (s.tasks.map (Task.fires nsp)).sum

def disconnects (s s' : Reconnect) (nsp : Bytes) : Bool :=
  s.client.Connected nsp && !s'.client.Connected nsp

/-- Neither `connectNsp` begins nor a CONNECT_ERROR is processed for a namespace that is connected. -/
def Announced (s : Reconnect) : Act → Prop
  | .turn i _ => ∀ k nsp data, s.tasks[i]? = some (.connectNsp k (.begin nsp data)) →
      s.client.Connected nsp = false
  | .receive => ∀ pkt ∈ s.inbound.head?, pkt.type = .connectError → s.client.Connected pkt.nsp = false
  | _ => True

/-- The handlers of the namespaces that are taken away are called, once each, and no others. -/
def Settles (s s' : Reconnect) : Prop :=
  ∀ nsp, s'.onDisconnects nsp = s.onDisconnects nsp + (disconnects s s' nsp).toNat

section Settles

variable {i : ℕ} {t u : Task}

theorem sum_fires_set (hi : s.tasks[i]? = some t) (htu : ∀ n, t.fires n = u.fires n)
    (n : Bytes) : ((s.tasks.set i u).map (Task.fires n)).sum = (s.tasks.map (Task.fires n)).sum := by
  obtain ⟨r, ht, hu⟩ := exists_sum_map_set (Task.fires n) hi u
  rw [ht, hu, htu n]

theorem settles_quiet (hnotices : ∀ n, s'.client.notices n = s.client.notices n)
    (hconn : ∀ n, s.client.Connected n = true → s'.client.Connected n = true)
    (hfires : ∀ n, (s'.tasks.map (Task.fires n)).sum = (s.tasks.map (Task.fires n)).sum) :
    Settles s s' := by
  intro n
  have hfalse : disconnects s s' n = false := by
    rw [disconnects]
    cases h : s.client.Connected n with
    | false => rfl
    | true => rw [hconn n h]; rfl
  rw [onDisconnects, hnotices, hfires, hfalse]
  rfl

theorem settles_goto (hi : s.tasks[i]? = some t) (htasks : s'.tasks = s.tasks.set i u)
    (htu : ∀ n, t.fires n = u.fires n) (hnsps : s'.client.nsps = s.client.nsps)
    (hnotices : ∀ n, s'.client.notices n = s.client.notices n) : Settles s s' := by
  refine settles_quiet hnotices (fun n h => ?_) fun n => ?_
  · rwa [SioClient.Connected, hnsps]
  · rw [htasks, sum_fires_set hi htu]

theorem settles_all (hi : s.tasks[i]? = some t)
    (htasks : s'.tasks = s.tasks.set i u) (htu : ∀ n, t.fires n = u.fires n)
    (hperm : order.Perm s.client.connectedNsps)
    (hnotices : ∀ n, s'.client.notices n = s.client.notices n + order.count n)
    (hheld : ∀ n, s'.client.held n = none) : Settles s s' := by
  intro n
  have hgone : s'.client.Connected n = false := (SioClient.not_connected_iff _ n).mpr (hheld n)
  rw [onDisconnects, hnotices, htasks, sum_fires_set hi htu, onDisconnects, disconnects, hgone,
    SioClient.count_connectedNsps _ n hperm, Bool.not_false, Bool.and_true]
  omega

theorem settles_one {nsp : Bytes}
    (hconn : ∀ n, s'.client.Connected n = if n = nsp then false else s.client.Connected n)
    (hcount : ∀ n, s'.onDisconnects n = s.onDisconnects n + if n = nsp then (s.client.Connected nsp).toNat else 0) :
    Settles s s' := by
  intro n
  rw [hcount, disconnects, hconn]
  split_ifs with h
  · rw [h, Bool.not_false, Bool.and_true]
  · rw [Bool.and_not_self]
    rfl

theorem settles_spawn {ts : List Task} (hts : ∀ t ∈ ts, ∀ n, t.fires n = 0)
    (htasks : s'.tasks = s.tasks ++ ts) (hclient : s'.client = s.client) : Settles s s' := by
  refine settles_quiet (fun n => by rw [hclient]) (fun n h => by rwa [hclient]) fun n => ?_
  have hzero : (ts.map (Task.fires n)).sum = 0 := by
    rw [List.sum_eq_zero_iff, List.forall_mem_map]
    exact fun t ht => hts t ht n
  rw [htasks, List.map_append, List.sum_append, hzero, add_zero]

theorem fires_returned (k : Caller) (r : Option ConnectError) (n : Bytes) : (k.returned r).fires n = 0 := by
  cases k <;> cases r <;> rfl

theorem settles_sendPacket {pkt : Packet} {fire : Bool} {handed : List (DialId × Packet)}
    (hi : s.tasks[i]? = some (.sendPacket pkt fire)) : Settles s { s with
      client := s.client.start (if fire then [.disconnect pkt.nsp "io client disconnect"] else [])
      handed
      tasks := s.tasks.set i .done } := by
  cases fire with
  | false =>
    refine settles_goto hi rfl (fun _ => rfl) rfl fun n => ?_
    exact SioClient.notices_start s.client n []
  | true =>
    intro n
    obtain ⟨r, hold, hnew⟩ := exists_sum_map_set (Task.fires n) hi .done
    have hnotices := SioClient.notices_start s.client n [.disconnect pkt.nsp "io client disconnect"]
    have hone : [Handler.disconnect pkt.nsp "io client disconnect"].countP (Handler.isDisconnect n) =
        (Task.sendPacket pkt true).fires n := by
      rw [List.countP_singleton, Handler.isDisconnect, Task.fires]
      simp only [beq_iff_eq]
    have hzero : Task.done.fires n = 0 := rfl
    have hkept : (s.client.Connected n && !s.client.Connected n).toNat = 0 := by
      rw [Bool.and_not_self]
      rfl
    change (s.client.start _).notices n + ((s.tasks.set i .done).map (Task.fires n)).sum =
      s.client.notices n + (s.tasks.map (Task.fires n)).sum + (s.client.Connected n && !s.client.Connected n).toNat
    rw [hkept, hold, hnew, hzero, if_pos rfl, hnotices, hone]
    omega

theorem settles_calm {C : SioClient} {calls : ChanId} {handed : List (DialId × Packet)} (h : s.Announced a)
    (hi : s.tasks[i]? = some t) (hcalm : Calm s i a t u C calls) :
    Settles s { s with client := C, calls, handed, tasks := s.tasks.set i u } := by
  cases hcalm with
  | @begin order k nsp data =>
    refine settles_one (SioClient.connected_await s.client · nsp data s.calls) fun n => ?_
    rw [h k nsp data hi, Bool.toNat_false, ite_self]
    have hfires := sum_fires_set (u := .connectNsp k (.send nsp data s.calls)) hi (fun _ => rfl) n
    exact congrArg (s.client.notices n + ·) hfires
  | wait | timeout => exact settles_goto hi rfl (fun n => (fires_returned _ _ n).symm) rfl fun _ => rfl
  | @dialFails a k =>
    refine settles_goto hi rfl (fun _ => ?_) rfl fun _ => rfl
    cases k <;> rfl
  | sendPacket => exact settles_sendPacket hi
  | @giveUp a L =>
    refine settles_goto hi rfl (fun _ => rfl) rfl fun n => ?_
    change (s.client.start _).notices n = _
    have hnone : (L.nsps.map fun nsp => Handler.connectError nsp reconnectionFailed).countP
        (Handler.isDisconnect n) = 0 := by
      rw [List.countP_map]
      exact List.countP_eq_zero.mpr fun _ _ => Bool.false_ne_true
    rw [SioClient.notices_start, hnone, add_zero]
  | _ => exact settles_goto hi rfl (fun _ => rfl) rfl fun _ => rfl

theorem settles_disconnectNamespace (nsp : Bytes) : Settles s { s with
      client := s.client.leave nsp
      tasks := s.tasks ++ [.sendPacket { type := .disconnect, nsp } (s.client.Connected nsp)] } := by
  refine settles_one (SioClient.connected_leave s.client · nsp) fun n => ?_
  have hfires : (Task.sendPacket { type := .disconnect, nsp } (s.client.Connected nsp)).fires n =
      if n = nsp then (s.client.Connected nsp).toNat else 0 := by
    cases s.client.Connected nsp with
    | false => rw [Bool.toNat_false, ite_self]; rfl
    | true =>
      rw [Task.fires, Bool.toNat_true]
      simp only [eq_comm]
  change (s.client.leave nsp).notices n + ((s.tasks ++ [_]).map (Task.fires n)).sum = _
  rw [List.map_append, List.sum_append, List.map_singleton, List.sum_singleton, hfires, SioClient.leave,
    SioClient.notices_modifyNsp, ← add_assoc]
  rfl

theorem settles_receives {pkt : Packet} {inbound : List Packet} {C : SioClient}
    (herror : pkt.type = .connectError → s.client.Connected pkt.nsp = false)
    (hC : Receives s.client pkt C) : Settles s { s with inbound, client := C } := by
  cases hC with
  | connectError htype =>
    refine settles_one (SioClient.connected_handleConnectError s.client · pkt) fun n => ?_
    rw [herror htype, Bool.toNat_false, ite_self]
    exact congrArg (· + _) (SioClient.notices_handleConnectError s.client n pkt)
  | disconnect =>
    refine settles_one (SioClient.connected_leave s.client · pkt.nsp) fun n => ?_
    have hnotices : (s.client.handleDisconnect pkt).notices n =
        s.client.notices n + if n = pkt.nsp then (s.client.Connected pkt.nsp).toNat else 0 := by
      rw [SioClient.handleDisconnect, SioClient.notices_start, SioClient.leave, SioClient.notices_modifyNsp]
      cases s.client.Connected pkt.nsp with
      | false => rw [Bool.toNat_false, ite_self]; rfl
      | true =>
        rw [if_pos rfl, List.countP_singleton, Handler.isDisconnect, Bool.toNat_true]
        simp only [beq_iff_eq, eq_comm (a := n)]
    change (s.client.handleDisconnect pkt).notices n + (s.tasks.map (Task.fires n)).sum =
      s.client.notices n + (s.tasks.map (Task.fires n)).sum + _
    omega
  | other => exact settles_quiet (fun _ => rfl) (fun _ h => h) fun _ => rfl

theorem settles_of_announced (h : s.Announced a) (hs : s.step o a = some s') : Settles s s' := by
  cases step_does hs with
  | calm hi hcalm => exact settles_calm h hi hcalm
  | @store i order k e o hi =>
    refine settles_goto hi rfl (fun _ => ?_) rfl fun _ => rfl
    cases k <;> rfl
  | @close i order u hi hclosed hperm hu =>
    refine settles_all hi rfl (fun _ => ?_) hperm (fun n => ?_) (SioClient.held_close s.client · order)
    · rcases hu with ⟨-, rfl⟩ | ⟨e, -, rfl⟩ <;> rfl
    · rw [← SioClient.countP_isDisconnect n order "io client disconnect"]
      exact SioClient.notices_start _ n _
  | cleanup hi hu =>
    refine settles_goto hi rfl (fun _ => ?_) rfl fun _ => rfl
    rcases hu with ⟨-, rfl⟩ | ⟨e, -, rfl⟩ <;> rfl
  | @onEngineClosed i order d u hi hperm hu =>
    refine settles_all hi rfl (fun _ => ?_) hperm (fun n => ?_)
      (SioClient.held_onEngineClosed s.client · d order)
    · rcases hu with rfl | rfl <;> rfl
    · obtain ⟨chans, hC⟩ := SioClient.onEngineClosed_eq s.client d order
      rw [hC, ← SioClient.countP_isDisconnect n order (mapClientDisconnectReason d)]
      exact List.countP_append
  | push => exact settles_quiet (fun _ => rfl) (fun _ h => h) fun _ => rfl
  | drop hg hopen hts =>
    refine settles_spawn (fun t ht n => ?_) rfl rfl
    rcases hts with rfl | rfl
    · cases ht
    · rw [List.mem_singleton.mp ht]
      rfl
  | @handleConnect pkt inbound hin =>
    exact settles_quiet (SioClient.notices_handleConnect s.client · pkt)
      (SioClient.connected_handleConnect s.client · pkt) fun _ => rfl
  | receive hin hC => exact settles_receives (h _ (by rw [hin]; rfl)) hC
  | call hopened hcall =>
    cases hcall with
    | disconnectNamespace => exact settles_disconnectNamespace _
    | _ => exact settles_spawn (List.forall_mem_singleton.mpr fun _ => rfl) rfl rfl
  | dialed hi | onData hi | onClose hi | stop hi | closeAgain hi | closeEngine hi | closeDropped hi
    | setClosed hi | stopLoop hi | reconnect hi =>
    exact settles_goto hi rfl (fun _ => rfl) rfl fun _ => rfl

theorem not_settles_silent {nsp : Bytes} (hconn : s.client.Connected nsp = true)
    (hgone : s'.client.Connected nsp = false) (hcount : s'.onDisconnects nsp = s.onDisconnects nsp) :
    ¬ Settles s s' := by
  intro h
  have hone := h nsp
  rw [hcount, disconnects, hconn, hgone] at hone
  exact absurd hone (Nat.succ_ne_self _).symm

theorem not_settles (h : ¬ s.Announced a) (hs : s.step o a = some s') : ¬ Settles s s' := by
  cases a with
  | turn i order =>
    simp only [Announced, not_forall, Bool.not_eq_false] at h
    obtain ⟨k, nsp, data, hi, hconn⟩ := h
    rw [step, hi] at hs
    cases hs
    refine not_settles_silent hconn ((SioClient.connected_await ..).trans (if_pos rfl)) ?_
    exact congrArg (s.client.notices nsp + ·)
      (sum_fires_set (u := .connectNsp k (.send nsp data s.calls)) hi (fun _ => rfl) nsp)
  | receive =>
    simp only [Announced, not_forall, Bool.not_eq_false] at h
    obtain ⟨pkt, hpkt, htype, hconn⟩ := h
    obtain ⟨inbound, hin⟩ : ∃ inbound, s.inbound = pkt :: inbound := List.head?_eq_some_iff.mp hpkt
    rw [step, hin] at hs
    split_ifs at hs
    cases hs
    rw [process, htype]
    refine not_settles_silent hconn ((SioClient.connected_handleConnectError ..).trans (if_pos rfl)) ?_
    exact congrArg (· + _) (SioClient.notices_handleConnectError s.client pkt.nsp pkt)
  | _ => exact absurd trivial h

end Settles

/-- In every run of a client, whatever it dials, loses and dials again, the `OnDisconnect` handlers
of a namespace are called once for each time that the namespace ceases to be connected, if and only
if `connectNsp` never begins for a connected namespace and no CONNECT_ERROR arrives for one. -/
theorem onDisconnect_exact_iff (h : Run (Reconnect.step o) always initial acts s) :
    (∀ acts₁ a s₁ s₂, acts₁ ++ [a] <+: acts → Run (Reconnect.step o) always initial acts₁ s₁ →
        s₁.step o a = some s₂ → Settles s₁ s₂) ↔
      Run (Reconnect.step o) (fun s a => always s a ∧ s.Announced a) initial acts s :=
  h.steps_iff (fun _ => True) (fun s _ s' => Settles s s') Announced trivial
    (fun _ _ _ _ _ hann hs => ⟨trivial, settles_of_announced hann hs⟩)
    fun _ _ _ _ _ hann hs => not_settles hann hs

section NonVacuity

/-- The connection fails, the namespace is connected again over a second engine, and the
application disconnects it. -/
def regainedAndLeft : List Act :=
  open₀ ++ lose 0 1 [defaultNamespace] ++ redial 1 ++ [Act.turn 1 []] ++
    exchange 1 1 (accepted defaultNamespace) ++ [Act.turn 1 [], .turn 1 [], .disconnectNamespace defaultNamespace,
      .turn 2 []]

theorem regainedAndLeft_runs : (exec (Reconnect.step {}) always initial regainedAndLeft).isSome = true := by
  decide +kernel

theorem onDisconnect_exact_iff_regained : ∃ s, Run (Reconnect.step {}) always initial regainedAndLeft s ∧
    s.onDisconnects defaultNamespace = 2 ∧
    ((∀ acts₁ a s₁ s₂, acts₁ ++ [a] <+: regainedAndLeft → Run (Reconnect.step {}) always initial acts₁ s₁ →
        s₁.step {} a = some s₂ → Settles s₁ s₂) ↔
      Run (Reconnect.step {}) (fun s a => always s a ∧ s.Announced a) initial regainedAndLeft s) :=
  ⟨_, run_of_isSome regainedAndLeft_runs, by decide +kernel,
    onDisconnect_exact_iff (run_of_isSome regainedAndLeft_runs)⟩

end NonVacuity

end Reconnect

end Gosocketio

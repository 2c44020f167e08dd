import Gosocketio.Sanity.Exchange

/-! Acknowledgements and the events that asked for them. The ids of a socket are
counted by its own table, so an id stands for one event of the socket until the
counter comes round; an Ack carries the id but not the socket, and is given to the
socket that the namespace has at that moment. -/

namespace Gosocketio

def Emit.ackId (e : Emit) : Option ℤ := match e.pc with
  | .next => none
  | .register id | .send id | .done id => some id

theorem Emit.ackId_register {e : Emit} {id : ℤ} (h : e.pc = .register id) : e.ackId = some id := by
  simp [Emit.ackId, h]

theorem Emit.ackId_send {e : Emit} {id : ℤ} (h : e.pc = .send id) : e.ackId = some id := by
  simp [Emit.ackId, h]

namespace Exchange

open Runs NonVacuity
open Server (Job)

variable {J : Json} {c : ConnId} {s s' : Exchange} {k k' : ℕ} {x : SocketId} {id : ℤ}

/-- The `k`-th call of `EmitWithAck` is on the socket and has got the id. -/
def Called (s : Exchange) (k : ℕ) (x : SocketId) (id : ℤ) : Prop :=
  ∃ e, s.emits[k]? = some e ∧ e.id = x ∧ e.ackId = some id

/-- An id that belongs to the call a packet or a goroutine has to do with. -/
def Answers (s : Exchange) (o : Option ℕ) (id : ℤ) : Prop := ∃ k x, o = some k ∧ s.Called k x id

/-- A callback was called with the results of the handlers for its own event. -/
def Matched (s : Exchange) : Prop := ∀ v ∈ s.invoked, v.answers = some v.callback

instance (s : Exchange) : Decidable s.Matched :=
  inferInstanceAs (Decidable (∀ v ∈ s.invoked, v.answers = some v.callback))

def emitter (s : Exchange) (o : Option ℕ) : Option SocketId :=
  o.bind fun k => s.emits[k]?.map Emit.id

/-- An Ack is processed while the namespace has the socket that emitted the event on the
connection, or none, and `next` gives a call an id that no earlier call on the socket
has got. -/
def Prompt (c : ConnId) (s : Exchange) : Act → Prop
  | .process _ =>
    match s.loop with
    | .process pkt => pkt.type = .ack → ∀ x ∈ s.server.attached c pkt.nsp, s.emitter s.origin = some x
    | _ => True
  | .emit k => ∀ e ∈ s.emits[k]?, e.pc = .next →
      ∀ e' ∈ s.emits, e'.id = e.id → e'.ackId ≠ some (s.tables e.id).next.1
  | _ => True

/-- The tables: an id was given to one call on the socket, and the callback under it is
that of the call. -/
structure Ledger (s : Exchange) : Prop where
  unique : ∀ k k' x id, s.Called k x id → s.Called k' x id → k = k'
  cbs : ∀ x id k, (s.tables x).cbs id = some (some k) → s.Called k x id

/-- Whatever is under way carries the id of the event it comes from. -/
structure Traced (s : Exchange) : Prop where
  toClient : ∀ m ∈ s.toClient, m.pkt.type = .event → s.Answers m.origin m.pkt.id
  handling : ∀ m ∈ s.handling, s.Answers m.origin m.pkt.id
  toServer : ∀ m ∈ s.toServer, m.pkt.type = .ack → s.Answers m.origin m.pkt.id
  loop : ∀ pkt, s.loop = .process pkt → pkt.type = .ack → s.Answers s.origin pkt.id
  tears : ∀ job ∈ s.tears, ∀ pkt, job ≠ .process pkt
  invokes : ∀ v ∈ s.invokes, ∃ k, v.origin = some k ∧ s.Called k v.id v.ackId

theorem Called.id_eq {e : Emit} (h : s.Called k x id) (he : s.emits[k]? = some e) :
    e.id = x ∧ e.ackId = some id := by
  obtain ⟨e', he', hx, hid⟩ := h
  rw [he, Option.some.injEq] at he'
  rw [he']
  exact ⟨hx, hid⟩

def Grows (s s' : Exchange) : Prop := ∀ k x id, s.Called k x id → s'.Called k x id

theorem Answers.mono {o : Option ℕ} (hg : Grows s s') (h : s.Answers o id) : s'.Answers o id := by
  obtain ⟨k, x, ho, hc⟩ := h
  exact ⟨k, x, ho, hg k x id hc⟩

section Emitting

variable {e : Emit} {u : Emit}

theorem called_set (he : s.emits[k]? = some e) (hs : s'.emits = s.emits.set k u)
    (k' : ℕ) : s'.Called k' x id ↔ if k' = k then u.id = x ∧ u.ackId = some id else s.Called k' x id := by
  unfold Called
  rw [hs]
  obtain ⟨hlt, -⟩ := List.getElem?_eq_some_iff.mp he
  split_ifs with hk
  · subst hk
    simp [List.getElem?_set_self hlt]
  · rw [List.getElem?_set_ne (Ne.symm hk)]

theorem called_set_iff (he : s.emits[k]? = some e) (hs : s'.emits = s.emits.set k u)
    (hid : u.id = e.id) (hack : u.ackId = e.ackId) (k' : ℕ) : s'.Called k' x id ↔ s.Called k' x id := by
  rw [called_set he hs]
  split_ifs with hk
  · subst hk
    rw [hid, hack, Called, he]
    simp
  · rfl

theorem Ledger.next (h : Ledger s) (he : s.emits[k]? = some e) (hpc : e.pc = .next)
    (hs : s'.emits = s.emits.set k { e with pc := .register id })
    (hfresh : ∀ e' ∈ s.emits, e'.id = e.id → e'.ackId ≠ some id)
    (hcbs : ∀ x, (s'.tables x).cbs = (s.tables x).cbs) : Ledger s' ∧ Grows s s' := by
  have hnone : e.ackId = none := by simp [Emit.ackId, hpc]
  have hgrows : Grows s s' := by
    intro k' x id hc
    rw [called_set he hs]
    split_ifs with hk
    · subst hk
      rw [(hc.id_eq he).2] at hnone
      cases hnone
    · exact hc
  have hnot (k' : ℕ) : ¬ s.Called k' e.id id := by
    rintro ⟨e', he', hx, hid⟩
    exact hfresh e' (List.mem_of_getElem? he') hx hid
  have hcases {k' : ℕ} {x : SocketId} {id' : ℤ} (hc : s'.Called k' x id') :
      k' = k ∧ x = e.id ∧ id' = id ∨ s.Called k' x id' := by
    rw [called_set he hs] at hc
    split_ifs at hc with hk
    · exact .inl ⟨hk, hc.1.symm, (Option.some.inj hc.2).symm⟩
    · exact .inr hc
  refine ⟨⟨fun k₁ k₂ x id' h₁ h₂ => ?_, fun x id' k' hk' => ?_⟩, hgrows⟩
  · rcases hcases h₁ with ⟨rfl, rfl, rfl⟩ | h₁'
    · exact (hcases h₂).elim (fun h₂ => h₂.1.symm) fun h₂ => absurd h₂ (hnot k₂)
    · rcases hcases h₂ with ⟨rfl, rfl, rfl⟩ | h₂'
      · exact absurd h₁' (hnot k₁)
      · exact h.unique k₁ k₂ x id' h₁' h₂'
  · rw [hcbs] at hk'
    exact hgrows k' x id' (h.cbs x id' k' hk')

theorem Ledger.of_called (h : Ledger s) (hcalled : ∀ k x id, s'.Called k x id ↔ s.Called k x id)
    (hcbs : ∀ x id k, (s'.tables x).cbs id = some (some k) →
      (s.tables x).cbs id = some (some k) ∨ s.Called k x id) : Ledger s' ∧ Grows s s' := by
  refine ⟨⟨fun k₁ k₂ x id h₁ h₂ => ?_, fun x id k hk => ?_⟩, fun k x id hc => (hcalled k x id).mpr hc⟩
  · exact h.unique k₁ k₂ x id ((hcalled k₁ x id).mp h₁) ((hcalled k₂ x id).mp h₂)
  · rw [hcalled]
    exact (hcbs x id k hk).elim (h.cbs x id k) fun hk => hk

theorem Ledger.advance (h : Ledger s) (he : s.emits[k]? = some e)
    (hs : s'.emits = s.emits.set k u) (hid : u.id = e.id) (hack : u.ackId = e.ackId)
    (hcbs : ∀ x id k, (s'.tables x).cbs id = some (some k) →
    (s.tables x).cbs id = some (some k) ∨ s.Called k x id) : Ledger s' ∧ Grows s s' :=
  h.of_called (fun k' _ _ => called_set_iff he hs hid hack k') hcbs

theorem called_append (hu : u.ackId = none) (hs : s'.emits = s.emits ++ [u]) :
    s'.Called k x id ↔ s.Called k x id := by
  unfold Called
  rw [hs]
  constructor
  · rintro ⟨e, he, hx, hid⟩
    rw [List.getElem?_append] at he
    split_ifs at he
    · exact ⟨e, he, hx, hid⟩
    · obtain rfl := List.mem_singleton.mp (List.mem_of_getElem? he)
      rw [hu] at hid
      cases hid
  · rintro ⟨e, he, hx, hid⟩
    obtain ⟨hlt, -⟩ := List.getElem?_eq_some_iff.mp he
    exact ⟨e, by rw [List.getElem?_append_left hlt, he], hx, hid⟩

theorem cbs_register {x : SocketId} {k' : ℕ} {b : ℤ} (he : s.emits[k]? = some e)
    (hack : e.ackId = some id)
    (h : (Function.update s.tables e.id ((s.tables e.id).register id (some k)) x).cbs b = some (some k')) :
    (s.tables x).cbs b = some (some k') ∨ s.Called k' x b := by
  by_cases hx : x = e.id
  · subst hx
    rw [Function.update_self] at h
    change Function.update (s.tables e.id).cbs id (some (some k)) b = some (some k') at h
    by_cases hb : b = id
    · subst hb
      rw [Function.update_self, Option.some.injEq, Option.some.injEq] at h
      exact .inr (h ▸ ⟨e, he, rfl, hack⟩)
    · rw [Function.update_of_ne hb] at h
      exact .inl h
  · rw [Function.update_of_ne hx] at h
    exact .inl h

theorem cbs_next (x y : SocketId) :
    (Function.update s.tables y (s.tables y).next.2 x).cbs = (s.tables x).cbs := by
  by_cases hx : x = y
  · rw [hx, Function.update_self]
    rfl
  · rw [Function.update_of_ne hx]

theorem Ledger.step {a : Act} (h : Ledger s) (ha : s.Prompt c a) (hs : s.step J c a = some s') :
    Ledger s' ∧ Grows s s' := by
  -- most steps leave the calls and the tables as they are
  have hsame (he : s'.emits = s.emits) (htables : s'.tables = s.tables) : Ledger s' ∧ Grows s s' :=
    h.of_called (fun k x id => by unfold Called; rw [he]) fun x id k hk => .inl (htables ▸ hk)
  cases step_does hs with
  | emitWithAck name args =>
    exact h.of_called (fun _ _ _ => called_append rfl rfl) fun _ _ _ hk => .inl hk
  | number he hpc => exact h.next he hpc rfl (ha _ he hpc) fun x => cbs_next x _
  | register he hpc =>
    have hack := Emit.ackId_register hpc
    exact h.advance he rfl rfl hack.symm fun _ _ _ hk => cbs_register he hack hk
  | send he hpc => exact h.advance he rfl rfl (Emit.ackId_send hpc).symm fun _ _ _ hk => .inl hk
  | _ => exact hsame rfl rfl

end Emitting

section Tracing

theorem Traced.keep (h : Traced s) (hg : Grows s s')
    (htc : ∀ m ∈ s'.toClient, m ∈ s.toClient ∨ (m.pkt.type = .event → s'.Answers m.origin m.pkt.id))
    (hh : ∀ m ∈ s'.handling, m ∈ s.handling ∨ s'.Answers m.origin m.pkt.id)
    (hts : ∀ m ∈ s'.toServer, m ∈ s.toServer ∨ (m.pkt.type = .ack → s'.Answers m.origin m.pkt.id))
    (hl : s'.loop = s.loop ∧ s'.origin = s.origin ∨
      ∀ pkt, s'.loop = .process pkt → pkt.type = .ack → s'.Answers s'.origin pkt.id)
    (ht : ∀ job ∈ s'.tears, job ∈ s.tears ∨ ∀ pkt, job ≠ .process pkt)
    (hi : ∀ v ∈ s'.invokes, v ∈ s.invokes ∨ ∃ k, v.origin = some k ∧ s.Called k v.id v.ackId) :
    Traced s' where
  toClient m hm htype := (htc m hm).elim (fun hm => (h.toClient m hm htype).mono hg) fun hm => hm htype
  handling m hm := (hh m hm).elim (fun hm => (h.handling m hm).mono hg) fun hm => hm
  toServer m hm htype := (hts m hm).elim (fun hm => (h.toServer m hm htype).mono hg) fun hm => hm htype
  loop pkt hp htype := by
    rcases hl with ⟨hloop, horigin⟩ | hl
    · rw [horigin]
      exact (h.loop pkt (hloop ▸ hp) htype).mono hg
    · exact hl pkt hp htype
  tears job hj := (ht job hj).elim (h.tears job) fun hj => hj
  invokes v hv := by
    obtain ⟨k, ho, hc⟩ := (hi v hv).elim (h.invokes v) fun hv => hv
    exact ⟨k, ho, hg k v.id v.ackId hc⟩

theorem Traced.invoke {fresh : SocketId} {v : Invoke} (h : Traced s) (ha : s.Prompt c (.process fresh))
    (hv : v ∈ spawned s.origin (s.server.next c fresh s.loop).1) :
    ∃ k, v.origin = some k ∧ s.Called k v.id v.ackId := by
  obtain ⟨hl, horigin⟩ := mem_spawned.mp hv
  obtain ⟨pkt, hp, htype, hid, hx⟩ := Server.next_invoke hl
  obtain ⟨k, x, ho, e, he, rfl, hack⟩ := h.loop pkt hp htype
  simp only [Prompt, hp] at ha
  have hemit := ha htype v.id hx
  rw [emitter, ho, Option.bind_some, he, Option.map_some, Option.some.injEq] at hemit
  exact ⟨k, horigin.trans ho, e, he, hemit, hid ▸ hack⟩

theorem sent_ne_event {o : Option ℕ} {fresh : SocketId} {job : Job} {m : Message}
    (hm : m ∈ sent c o (s.server.next c fresh job).1) : m.pkt.type ≠ .event := by
  obtain ⟨hl, -⟩ := mem_sent.mp hm
  rcases Server.next_send hl with ⟨_, -, -, -, hp⟩ | ⟨_, _, -, -, hp⟩ | ⟨_, _, _, -, -, hp⟩ |
    ⟨_, _, _, -, -, -, hp⟩ <;> simp [hp, Server.connectError, Server.connectReply]

theorem Traced.step {a : Act} (h : Traced s) (ha : s.Prompt c a) (hg : Grows s s')
    (hs : s.step J c a = some s') : Traced s' := by
  cases step_does hs with
  | @pop m rest hloop hq =>
    have hm : m ∈ s.toServer := by simp [hq]
    refine h.keep hg (fun _ hm => .inl hm) (fun _ hm => .inl hm) (fun _ hm => .inl (by simp [hq, hm]))
      (.inr fun pkt hp htype => ?_) (fun _ hj => .inl hj) fun _ hv => .inl hv
    cases hp
    exact (h.toServer m hm htype).mono hg
  | process fresh =>
    refine h.keep hg (fun m hm => ?_) (fun _ hm => .inl hm) (fun _ hm => .inl hm)
      (.inr fun pkt hp => absurd hp (Server.next_ne_process pkt)) (fun _ hj => .inl hj) fun v hv => ?_
    · exact (List.mem_append.mp hm).imp_right fun hm htype => absurd htype (sent_ne_event hm)
    · exact (List.mem_append.mp hv).imp_right (h.invoke ha)
  | @tear i job hjob =>
    have hmem : job ∈ s.tears := List.mem_of_getElem? hjob
    refine h.keep hg (fun m hm => ?_) (fun _ hm => .inl hm) (fun _ hm => .inl hm) (.inl ⟨rfl, rfl⟩)
      (fun u hu => ?_) fun v hv => (List.mem_append.mp hv).imp_right fun hv => ?_
    · exact (List.mem_append.mp hm).imp_right fun hm htype => absurd htype (sent_ne_event hm)
    · rcases List.mem_or_eq_of_mem_set hu with hu | rfl
      · exact .inl hu
      · exact .inr fun pkt => Server.next_ne_process pkt
    · obtain ⟨pkt, hp, -⟩ := Server.next_invoke (mem_spawned.mp hv).1
      exact absurd hp (h.tears job hmem pkt)
  | disconnect hx =>
    refine h.keep hg (fun _ hm => .inl hm) (fun _ hm => .inl hm) (fun _ hm => .inl hm) (.inl ⟨rfl, rfl⟩)
      (fun u hu => (List.mem_append.mp hu).imp_right fun hu pkt => ?_) fun _ hv => .inl hv
    rw [List.mem_singleton.mp hu]
    nofun
  | @send k e id y he hpc =>
    refine h.keep hg (fun m hm => ?_) (fun _ hm => .inl hm) (fun _ hm => .inl hm) (.inl ⟨rfl, rfl⟩)
      (fun _ hj => .inl hj) fun _ hv => .inl hv
    refine (List.mem_append.mp hm).imp_right fun hm _ => ?_
    obtain ⟨hpkt, ho⟩ := mem_sent_event hm
    rw [hpkt]
    exact ⟨k, e.id, ho, hg k e.id id ⟨e, he, rfl, Emit.ackId_send hpc⟩⟩
  | callback hv hk | miss hv hk =>
    exact h.keep hg (fun _ hm => .inl hm) (fun _ hm => .inl hm) (fun _ hm => .inl hm) (.inl ⟨rfl, rfl⟩)
      (fun _ hj => .inl hj) fun _ hv => .inl (List.mem_of_mem_eraseIdx hv)
  | @handleEvent m rest hq htype =>
    have hm : m ∈ s.toClient := by simp [hq]
    refine h.keep hg (fun _ hm => .inl (by simp [hq, hm])) (fun m' hm' => ?_) (fun _ hm => .inl hm)
      (.inl ⟨rfl, rfl⟩) (fun _ hj => .inl hj) fun _ hv => .inl hv
    refine (List.mem_append.mp hm').imp_right fun hm' => ?_
    rw [List.mem_singleton.mp hm']
    exact (h.toClient m hm htype).mono hg
  | handleConnect hq htype | handleConnectError hq htype | handleDisconnect hq htype
  | ignore hq _ _ _ =>
    exact h.keep hg (fun _ hm => .inl (by simp [hq, hm])) (fun _ hm => .inl hm) (fun _ hm => .inl hm)
      (.inl ⟨rfl, rfl⟩) (fun _ hj => .inl hj) fun _ hv => .inl hv
  | @respond i m results hm =>
    refine h.keep hg (fun _ hm => .inl hm) (fun _ hm => .inl (List.mem_of_mem_eraseIdx hm))
      (fun m' hm' => (List.mem_append.mp hm').imp_right fun hm' _ => ?_) (.inl ⟨rfl, rfl⟩)
      (fun _ hj => .inl hj) fun _ hv => .inl hv
    rw [List.mem_singleton.mp hm']
    exact (h.handling m (List.mem_of_getElem? hm)).mono hg
  | sendConnect ht | sendDisconnect ht =>
    refine h.keep hg (fun _ hm => .inl hm) (fun _ hm => .inl hm)
      (fun m hm => (List.mem_append.mp hm).imp_right fun hm htype => ?_) (.inl ⟨rfl, rfl⟩)
      (fun _ hj => .inl hj) fun _ hv => .inl hv
    rw [List.mem_singleton.mp hm] at htype
    cases htype
  | _ =>
    exact h.keep hg (fun _ hm => .inl hm) (fun _ hm => .inl hm) (fun _ hm => .inl hm) (.inl ⟨rfl, rfl⟩)
      (fun _ hj => .inl hj) fun _ hv => .inl hv

end Tracing

section Matching

/-- What holds as long as every Ack finds its socket. -/
structure Kept (s : Exchange) : Prop where
  ledger : Ledger s
  traced : Traced s
  matched : Matched s

theorem kept_initial (h : Initial s) : Kept s := by
  have hnone {k : ℕ} {x : SocketId} {id : ℤ} : ¬ s.Called k x id := by
    rintro ⟨e, he, -⟩
    rw [h.fresh] at he
    simp at he
  refine ⟨⟨fun k k' x id hc => absurd hc hnone, fun x id k hk => ?_⟩, ?_, ?_⟩
  · rw [h.fresh] at hk
    cases hk
  · rw [h.fresh]
    exact ⟨by simp, by simp, by simp, fun pkt hp => (by cases hp), by simp, by simp⟩
  · rw [h.fresh]
    intro v hv
    simp at hv

variable {a : Act}

/-- The callback under the id of an Ack is that of the event the Ack answers. -/
theorem Kept.callback_eq {v : Invoke} {o : ℕ} (h : Kept s) (hv : v ∈ s.invokes)
    (hk : s.callback v.id v.ackId = some o) : v.origin = some o := by
  obtain ⟨k, horigin, hcalled⟩ := h.traced.invokes v hv
  have hreg : s.Called o v.id v.ackId := by
    unfold callback at hk
    split_ifs at hk
    exact h.ledger.cbs v.id v.ackId o (Option.join_eq_some_iff.mp hk)
  rw [horigin, h.ledger.unique k o v.id v.ackId hcalled hreg]

theorem Kept.step (h : Kept s) (ha : s.Prompt c a) (hs : s.step J c a = some s') : Kept s' := by
  obtain ⟨hledger, hgrows⟩ := h.ledger.step ha hs
  refine ⟨hledger, h.traced.step ha hgrows hs, ?_⟩
  cases step_does hs with
  | @callback i v k hv hk =>
    intro w hw
    rcases List.mem_append.mp hw with hw | hw
    · exact h.matched w hw
    · rw [List.mem_singleton.mp hw]
      exact h.callback_eq (List.mem_of_getElem? hv) hk
  | _ => exact h.matched

def quiet : Exchange :=
  { server := { nsps := fun n => if n = defaultNamespace then some {} else none } }

theorem quiet_initial : Initial quiet where
  sockets name ns h := by
    simp only [quiet] at h
    split_ifs at h
    rw [← Option.some.inj h]
  heap _ := rfl
  conns _ := rfl
  fresh := rfl

/-- The client connects the default namespace as its task `i` and gets socket `id`. -/
def join (i : ℕ) (id : SocketId) : List Act :=
  [Act.connectNsp defaultNamespace .null, .task i, .pop, .process id] ++
    List.replicate 6 (Act.process []) ++ [Act.receive]

def part (i : ℕ) : List Act :=
  [Act.disconnectNamespace defaultNamespace, .task i, .pop] ++ List.replicate 7 (Act.process [])

/-- An event is emitted to the socket as call `k` and reaches the client. -/
def ask (k : ℕ) (id : SocketId) : List Act :=
  [.emitWithAck id [101] [], .emit k, .emit k, .emit k, .receive]

/-- The handlers for the first event under way finish, and the Ack is processed. -/
def answer : List Act := [.respond 0 [.bool true], .pop, .process [], .invoke 0]

instance (c : ConnId) (s : Exchange) (a : Act) : Decidable (s.Prompt c a) := by
  rcases a with _ | _ <;> dsimp only [Prompt] <;> try infer_instance
  rcases s.loop with _ | _ <;> infer_instance

/-- The handlers finish when the client has left the namespace and joined it again. -/
def late : List Act := join 0 [1] ++ ask 0 [1] ++ part 1 ++ join 2 [2] ++ ask 1 [2] ++ answer

theorem late_runs : (exec (Exchange.step textJson 0) Fresh quiet late).isSome = true := by
  decide +kernel

end Matching

end Exchange

end Gosocketio

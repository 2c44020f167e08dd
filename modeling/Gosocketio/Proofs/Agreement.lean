import Gosocketio.Proofs.Acknowledgements
import Gosocketio.Proofs.Successor
import Gosocketio.Sanity.SioClient

/-! The client and the server agree on the socket of a namespace. A reply to CONNECT
does not say which CONNECT it answers, so a late one can complete a later call. The
proof follows what the client will be on a namespace once everything that is under
way to it has arrived. -/

namespace Gosocketio.Exchange

open Runs Server

/-- The client on a namespace: the id under which it is connected, and the call that
waits. -/
@[ext] structure View where
  held : Option SocketId
  awaited : Option ChanId

namespace View

/-- What a message does to it. A reply that does not answer the call which waits
leaves nothing to rely on. -/
def take (n : Bytes) (v : View) (m : Message) : View := if m.pkt.nsp ≠ n then v else
  match m.pkt.type with
  | .connect =>
    match v.awaited with
    | none => v
    | some ch => ⟨if m.origin = some ch then stringField sidKey m.pkt.data else none, none⟩
  | .connectError => ⟨none, none⟩
  | .disconnect => { v with held := none }
  | _ => v

/-- The packets for a namespace that change whether it is connected. -/
def Relevant (n : Bytes) (m : Message) : Prop :=
  m.pkt.nsp = n ∧ (m.pkt.type = .connect ∨ m.pkt.type = .connectError ∨ m.pkt.type = .disconnect)

instance (n : Bytes) (m : Message) : Decidable (Relevant n m) := inferInstanceAs (Decidable (_ ∧ _))

variable {n : Bytes} {v : View} {m : Message} {ms : List Message}

theorem take_of_not_relevant (h : ¬ Relevant n m) : v.take n m = v := by
  unfold take
  split_ifs with hn
  · rfl
  · rw [not_not] at hn
    cases ht : m.pkt.type with
    | connect => exact absurd ⟨hn, .inl ht⟩ h
    | connectError => exact absurd ⟨hn, .inr (.inl ht)⟩ h
    | disconnect => exact absurd ⟨hn, .inr (.inr ht)⟩ h
    | _ => rfl

theorem take_connectError (hn : m.pkt.nsp = n) (ht : m.pkt.type = .connectError) :
    v.take n m = ⟨none, none⟩ := by
  simp [take, hn, ht]

theorem take_disconnect (hn : m.pkt.nsp = n) (ht : m.pkt.type = .disconnect) :
    v.take n m = { v with held := none } := by
  simp [take, hn, ht]

theorem awaited_of_take {ch : ChanId} (h : (v.take n m).awaited = some ch) :
    v.awaited = some ch := by
  unfold take at h
  split_ifs at h with hn
  · exact h
  · split at h
    · split at h
      · exact h
      · cases h
    · cases h
    · exact h
    · exact h

theorem held_of_take {x : SocketId} (h : (v.take n m).held = some x) :
    v.take n m = v ∨ ∃ ch, v.awaited = some ch ∧ m.origin = some ch ∧ m.pkt.nsp = n ∧
      m.pkt.type = .connect ∧ stringField sidKey m.pkt.data = some x := by
  unfold take at h ⊢
  split_ifs at h ⊢ with hn
  · exact .inl rfl
  · rw [not_not] at hn
    cases ht : m.pkt.type with
    | connect =>
      simp only [ht] at h ⊢
      cases hch : v.awaited with
      | none => exact .inl rfl
      | some ch =>
        simp only [hch] at h
        split_ifs at h with ho
        exact .inr ⟨ch, rfl, ho, hn, trivial, h⟩
    | connectError | disconnect => simp [ht] at h
    | _ => exact .inl rfl

theorem awaited_of_foldl {ch : ChanId} (h : (ms.foldl (take n) v).awaited = some ch) :
    v.awaited = some ch := by
  induction ms generalizing v with
  | nil => exact h
  | cons m ms ih => exact awaited_of_take (ih h)

/-- Who will be connected is so already, or the reply is on its way. -/
theorem held_of_foldl {x : SocketId} (h : (ms.foldl (take n) v).held = some x) :
    v.held = some x ∨ ∃ ch, v.awaited = some ch ∧ ∃ m ∈ ms, m.pkt.type = .connect ∧
      m.origin = some ch := by
  induction ms generalizing v with
  | nil => exact .inl h
  | cons m ms ih =>
    rcases ih h with hx | ⟨ch, hch, m', hm', ht, ho⟩
    · rcases held_of_take hx with heq | ⟨ch, hch, ho, -, ht, -⟩
      · rw [heq] at hx
        exact .inl hx
      · exact .inr ⟨ch, hch, m, by simp, ht, ho⟩
    · exact .inr ⟨ch, awaited_of_take hch, m', by simp [hm'], ht, ho⟩

theorem foldl_none : ms.foldl (take n) ⟨none, none⟩ = ⟨none, none⟩ := by
  have htake (m : Message) : take n ⟨none, none⟩ m = ⟨none, none⟩ := by
    unfold take
    split_ifs
    · rfl
    · split <;> rfl
  induction ms with
  | nil => rfl
  | cons m ms ih => rw [List.foldl_cons, htake, ih]

theorem foldl_of_not_relevant (h : ∀ m ∈ ms, ¬ Relevant n m) : ms.foldl (take n) v = v := by
  induction ms generalizing v with
  | nil => rfl
  | cons m ms ih =>
    rw [List.foldl_cons, take_of_not_relevant (h m (by simp))]
    exact ih fun m' hm' => h m' (by simp [hm'])

end View

variable {J : Json} {c : ConnId} {s s' : Exchange} {n : Bytes} {a : Act}

def view (s : Exchange) (n : Bytes) : View := ⟨s.client.held n, s.client.awaited n⟩

/-- The client on the namespace when everything on the link to it has arrived. -/
def future (s : Exchange) (n : Bytes) : View := s.toClient.foldl (View.take n) (s.view n)

/-- No CONNECT, reply or DISCONNECT for the namespace is under way. -/
def Quiescent (s : Exchange) (n : Bytes) : Prop :=
  (∀ m ∈ s.toServer, m.pkt.nsp = n → m.pkt.type ≠ .connect ∧ m.pkt.type ≠ .disconnect) ∧
    ∀ m ∈ s.toClient, ¬ View.Relevant n m

/-- While nothing is under way, the id that a connected client has for a namespace is
that of the socket to which the server routes its events. -/
def Agreed (c : ConnId) (s : Exchange) : Prop :=
  ∀ n, s.client.Connected n = true → s.Quiescent n → s.server.attached c n = some (s.client.ID n)

/-- The socket whose CONNECT the processing loop has not answered yet. -/
def entering : Job → Option SocketId
  | .enter _ id _ => some id
  | _ => none

/-- The client takes a reply only for the CONNECT it answers; a CONNECT or DISCONNECT
is sent while the namespace is not connected and no other call waits for it; a socket
is not disconnected by the server before the reply to its CONNECT is sent, and an
entry is deleted by the teardown of its own socket only. -/
def Proper (c : ConnId) (s : Exchange) : Act → Prop
  | .receive => ∀ m ∈ s.toClient.head?, m.pkt.type = .connect →
      ∀ ch ∈ s.client.awaited m.pkt.nsp, m.origin = some ch
  | .task i =>
    match s.tasks[i]? with
    | some (.connect nsp _) =>
      s.client.Connected nsp = false ∧ ∀ ch ∈ s.client.awaited nsp, ch = i
    | some (.disconnect nsp _) =>
      s.client.Connected (namespaceName nsp) = false ∧ s.client.awaited (namespaceName nsp) = none
    | _ => True
  | .disconnect id => entering s.loop ≠ some id
  | .tear i => ∀ job ∈ s.tears[i]?, World.JobOrderly s.server c job
  | _ => True

section Wiring

variable {S : Server} {l : Option Section} {fresh x : SocketId} {job : Job}

/-- The sockets and jobs of the server are those of the connection. -/
structure Wired (c : ConnId) (s : Exchange) : Prop where
  attributed : Attributed s.server
  named : ∀ x d m, s.server.origin x = some (d, m) → d = c ∧ m ≠ []
  loop : World.JobOf s.server c s.loop
  tears : ∀ job ∈ s.tears, job = .idle ∨ ∃ k x, job = .tear k x "server namespace disconnect" ∧
    ∃ o, s.server.origin x = some o

theorem namespaceName_ne_nil (nsp : Bytes) : namespaceName nsp ≠ [] := by
  unfold namespaceName
  split_ifs with hnsp
  · simp [defaultNamespace]
  · exact hnsp

theorem Wired.run {l : Section} (h : Wired c s) (hok : s.server.SectionOk l)
    (hl : ∀ x name d, l ≠ .newSocket x name d) (hserver : s'.server = s.server.run J l)
    (hloop : s'.loop = s.loop) (htears : s'.tears = s.tears) : Wired c s' := by
  have ho (x : SocketId) : s'.server.origin x = s.server.origin x := by
    rw [hserver, origin_run_of_ne (hl x)]
  refine ⟨hserver ▸ h.attributed.run hok, fun x d m hx => h.named x d m (ho x ▸ hx), ?_, ?_⟩
  · rw [hloop]
    exact h.loop.mono (fun x o hx => (ho x).trans hx) fun n => by rw [hserver, known_run]
  · rw [htears]
    intro job hj
    refine (h.tears job hj).imp_right fun ⟨k, x, hk, o, hx⟩ => ⟨k, x, hk, o, (ho x).trans hx⟩

theorem Wired.turn (h : Wired c s) (hjob : World.JobOf s.server c job)
    (hfresh : (∃ pkt, job = .process pkt) → s.server.heap fresh = none) (o : Option ℕ) :
    Attributed (s.turn J c o fresh job).server ∧
      (∀ x d m, (s.turn J c o fresh job).server.origin x = some (d, m) → d = c ∧ m ≠ []) ∧
      (∀ x o', s.server.origin x = some o' → (s.turn J c o fresh job).server.origin x = some o') ∧
      World.JobOf (s.turn J c o fresh job).server c (s.server.next c fresh job).2 := by
  have hnext := next_spec s.server c fresh job
  have hok := World.sectionOk_of_next hnext hjob hfresh
  have hserver : (s.turn J c o fresh job).server = s.server.perhaps J (s.server.next c fresh job).1 := rfl
  rw [hserver]
  refine ⟨?_, fun x d m hx => ?_, fun x o => World.origin_perhaps hok,
    World.jobOf_next hnext hjob h.attributed hfresh⟩
  · cases hl : (s.server.next c fresh job).1 with
    | none => exact h.attributed
    | some l => exact h.attributed.run (hok l hl)
  · cases hl : (s.server.next c fresh job).1 with
    | none =>
      rw [hl] at hx
      exact h.named x d m hx
    | some l =>
      rw [hl] at hx
      rcases origin_of_run hx with hx | ⟨name, e, rfl, ho⟩
      · exact h.named x d m hx
      · obtain ⟨rfl, rfl⟩ := Prod.mk.inj ho
        generalize (s.server.next c fresh job).2 = job' at hnext
        rw [hl] at hnext
        cases hnext with
        | create | bar => exact ⟨rfl, namespaceName_ne_nil _⟩

theorem Wired.step (h : Wired c s) (hp : ∀ m ∈ s.toServer, m.pkt.nsp ≠ []) (hfresh : s.Fresh a)
    (hs : s.step J c a = some s') : Wired c s' := by
  have hsame (hserver : s'.server = s.server) (hloop : s'.loop = s.loop) (htears : s'.tears = s.tears) :
      Wired c s' := by
    refine ⟨hserver ▸ h.attributed, ?_, ?_, ?_⟩
    · rw [hserver]
      exact h.named
    · rw [hserver, hloop]
      exact h.loop
    · rw [hserver, htears]
      exact h.tears
  cases step_does hs with
  | @pop m rest hloop hq => exact { h with loop := hp m (by simp [hq]) }
  | process fresh =>
    obtain ⟨hattr, hnamed, ho, hjob⟩ := h.turn (J := J) h.loop (fun _ => hfresh) s.origin
    refine ⟨hattr, hnamed, hjob, fun job hj => ?_⟩
    exact (h.tears job hj).imp_right fun ⟨k, x, hk, o, hx⟩ => ⟨k, x, hk, o, ho x o hx⟩
  | @tear i job hi =>
    have hmem := List.mem_of_getElem? hi
    have hjob : World.JobOf s.server c job := by
      rcases h.tears job hmem with rfl | ⟨k, x, rfl, ⟨d, m⟩, hx⟩
      · trivial
      · exact ⟨m, (h.named x d m hx).1 ▸ hx⟩
    have hnotpacket : ¬ ∃ pkt, job = .process pkt := by
      rintro ⟨pkt, rfl⟩
      rcases h.tears _ hmem with hk | ⟨k, x, hk, -⟩ <;> cases hk
    obtain ⟨hattr, hnamed, ho, -⟩ := h.turn (J := J) hjob (fun hpkt => absurd hpkt hnotpacket) none
    refine ⟨hattr, hnamed, h.loop.mono ho fun n => World.known_perhaps n, fun u hu => ?_⟩
    rcases List.mem_or_eq_of_mem_set hu with hu | rfl
    · exact (h.tears u hu).imp_right fun ⟨k, x, hk, o, hx⟩ => ⟨k, x, hk, o, ho x o hx⟩
    · have hnext := next_spec s.server c [] job
      generalize (s.server.next c [] job).1 = l at hnext
      rcases h.tears job hmem with rfl | ⟨k, x, rfl, o, hx⟩
      · exact .inl rfl
      · cases hj : (s.server.next c [] (.tear k x "server namespace disconnect")).2 with
        | idle => exact .inl rfl
        | tear k' y r =>
          rw [hj] at hnext
          cases hnext <;> exact .inr ⟨_, _, rfl, o, ho x o hx⟩
        | process | enter | refuse =>
          rw [hj] at hnext
          cases hnext
  | @disconnect id x hx =>
    refine { h with tears := fun job hj => ?_ }
    rcases List.mem_append.mp hj with hj | hj
    · exact h.tears job hj
    · rw [List.mem_singleton.mp hj]
      exact .inr ⟨.check, id, rfl, _, origin_eq_some.mpr ⟨x, hx, rfl, rfl⟩⟩
  | register => exact h.run (J := J) (l := .registerAck _ _) trivial nofun rfl rfl rfl
  | send => exact h.run (J := J) (l := .send _ _) trivial nofun rfl rfl rfl
  | callback => exact h.run (J := J) (l := .takeAck _ _) trivial nofun rfl rfl rfl
  | _ => exact hsame rfl rfl rfl

/-- The packets under way name a namespace, and replies to CONNECT carry an id. -/
structure Labelled (s : Exchange) : Prop where
  waits : s.client.Waits
  toServer : ∀ m ∈ s.toServer, m.pkt.nsp ≠ []
  toClient : ∀ m ∈ s.toClient, (m.pkt.type = .event → m.pkt.nsp ≠ []) ∧
    (m.pkt.type = .connect → ∃ x, stringField sidKey m.pkt.data = some x)
  handling : ∀ m ∈ s.handling, m.pkt.nsp ≠ []
  tasks : ∀ nsp data, .connect nsp data ∈ s.tasks → nsp ≠ []

theorem labelled_sent {o : Option ℕ} {m : Message} (hm : m ∈ sent c o (S.next c fresh job).1) :
    (m.pkt.type = .event → m.pkt.nsp ≠ []) ∧
      (m.pkt.type = .connect → ∃ x, stringField sidKey m.pkt.data = some x) := by
  obtain ⟨hl, -⟩ := mem_sent.mp hm
  rcases next_send hl with ⟨_, -, -, -, hp⟩ | ⟨id, nsp, -, -, hp⟩ | ⟨_, _, _, -, -, hp⟩ |
    ⟨_, _, _, -, -, -, hp⟩ <;> rw [hp]
  · exact ⟨nofun, nofun⟩
  · exact ⟨nofun, fun _ => ⟨id, rfl⟩⟩
  · exact ⟨nofun, nofun⟩
  · exact ⟨nofun, nofun⟩

theorem Labelled.step (h : Labelled s) (hw : Wired c s) (hs : s.step J c a = some s') : Labelled s' := by
  have hset (i : ℕ) (t : ClientTask) (ht : ∀ nsp data, t ≠ .connect nsp data) :
      ∀ nsp data, .connect nsp data ∈ s.tasks.set i t → nsp ≠ [] := by
    intro nsp data hmem
    rcases List.mem_or_eq_of_mem_set hmem with hmem | hmem
    · exact h.tasks nsp data hmem
    · exact absurd hmem.symm (ht nsp data)
  cases step_does hs with
  | pop hloop hq => exact { h with toServer := fun m hm => h.toServer m (by simp [hq, hm]) }
  | process | tear =>
    refine { h with toClient := fun m hm => ?_ }
    exact (List.mem_append.mp hm).elim (h.toClient m) labelled_sent
  | @send k e id y he hpc hy =>
    refine { h with toClient := fun m hm => (List.mem_append.mp hm).elim (h.toClient m) fun hm => ?_ }
    rw [(mem_sent_event hm).1]
    exact ⟨fun _ => (hw.named _ _ _ (origin_eq_some.mpr ⟨y, hy, rfl, rfl⟩)).2, nofun⟩
  | @handleConnect m rest hq ht =>
    exact { h with
      waits := h.waits.handleConnect m.pkt
      toClient := fun m' hm' => h.toClient m' (by simp [hq, hm']) }
  | @handleConnectError m rest hq ht =>
    exact { h with
      waits := h.waits.handleConnectError m.pkt
      toClient := fun m' hm' => h.toClient m' (by simp [hq, hm']) }
  | @handleDisconnect m rest hq ht =>
    exact { h with
      waits := h.waits.leave
      toClient := fun m' hm' => h.toClient m' (by simp [hq, hm']) }
  | @handleEvent m rest hq ht =>
    refine { h with
      toClient := fun m' hm' => h.toClient m' (by simp [hq, hm'])
      handling := fun m' hm' => (List.mem_append.mp hm').elim (h.handling m') fun hm' => ?_ }
    rw [List.mem_singleton.mp hm']
    exact (h.toClient m (by simp [hq])).1 ht
  | ignore hq => exact { h with toClient := fun m' hm' => h.toClient m' (by simp [hq, hm']) }
  | @respond i m results hm =>
    refine { h with
      toServer := fun m' hm' => (List.mem_append.mp hm').elim (h.toServer m') fun hm' => ?_
      handling := fun m' hm' => h.handling m' (List.mem_of_mem_eraseIdx hm') }
    rw [List.mem_singleton.mp hm']
    exact h.handling m (List.mem_of_getElem? hm)
  | connectNsp data hn =>
    refine { h with
      waits := h.waits.await data _
      tasks := fun nsp' data' hmem => (List.mem_append.mp hmem).elim (h.tasks nsp' data') fun hmem => ?_ }
    cases List.mem_singleton.mp hmem
    exact hn
  | disconnectNamespace nsp =>
    refine { h with
      waits := h.waits.leave
      tasks := fun nsp' data' hmem => (List.mem_append.mp hmem).elim (h.tasks nsp' data') fun hmem => ?_ }
    cases List.mem_singleton.mp hmem
  | @sendConnect i nsp data ht =>
    refine { h with
      toServer := fun m hm => (List.mem_append.mp hm).elim (h.toServer m) fun hm => ?_
      tasks := hset i _ nofun }
    rw [List.mem_singleton.mp hm]
    exact h.tasks nsp data (List.mem_of_getElem? ht)
  | @sendDisconnect i nsp fire ht =>
    refine { h with
      waits := h.waits
      toServer := fun m hm => (List.mem_append.mp hm).elim (h.toServer m) fun hm => ?_
      tasks := hset i _ nofun }
    rw [List.mem_singleton.mp hm]
    exact namespaceName_ne_nil nsp
  | @timeout i nsp ht => exact { h with waits := h.waits.abandon, tasks := hset i _ nofun }
  | wake ht => exact { h with tasks := hset _ _ nofun }
  | _ => exact { h with }

end Wiring

section Tagging

variable {S : Server} {fresh x : SocketId} {job : Job} {i : ℕ}

def Issued (s : Exchange) (i : ℕ) : Prop :=
  ∃ t, s.tasks[i]? = some t ∧ ∀ nsp data, t ≠ .connect nsp data

/-- The loop is at a CONNECT that may still be accepted. -/
def Connects : Job → Prop
  | .process pkt => pkt.type = .connect
  | .enter .. => True
  | _ => False

/-- A CONNECT or a reply to it comes from a call that has sent it. -/
structure Tagged (s : Exchange) : Prop where
  toServer : ∀ m ∈ s.toServer, m.pkt.type = .connect → ∃ i, m.origin = some i ∧ s.Issued i
  loop : Connects s.loop → ∃ i, s.origin = some i ∧ s.Issued i
  toClient : ∀ m ∈ s.toClient, m.pkt.type = .connect → ∃ i, m.origin = some i ∧ s.Issued i

theorem Issued.of_append {t : ClientTask} (h : s.Issued i) (ht : s'.tasks = s.tasks ++ [t]) :
    s'.Issued i := by
  obtain ⟨u, hu, hne⟩ := h
  obtain ⟨hlt, -⟩ := List.getElem?_eq_some_iff.mp hu
  exact ⟨u, by rw [ht, List.getElem?_append_left hlt, hu], hne⟩

theorem Issued.of_set {t : ClientTask} {j : ℕ} (h : s.Issued i) (ht : s'.tasks = s.tasks.set j t)
    (hne : ∀ nsp data, t ≠ .connect nsp data) : s'.Issued i := by
  obtain ⟨u, hu, hne'⟩ := h
  obtain ⟨hlt, -⟩ := List.getElem?_eq_some_iff.mp hu
  by_cases hij : j = i
  · subst hij
    exact ⟨t, by rw [ht, List.getElem?_set_self hlt], hne⟩
  · exact ⟨u, by rw [ht, List.getElem?_set_ne hij, hu], hne'⟩

theorem Issued.step (h : s.Issued i) (hs : s.step J c a = some s') : s'.Issued i := by
  cases step_does hs with
  | connectNsp | disconnectNamespace => exact h.of_append rfl
  | sendConnect | wake | sendDisconnect | timeout => exact h.of_set rfl nofun
  | _ => exact h

theorem connects_next (h : Connects (S.next c fresh job).2) : Connects job := by
  cases job with
  | process pkt =>
    rcases next_process S c fresh pkt with ⟨ht, -⟩ | ⟨-, -, hj | ⟨x, -, hj⟩⟩ | ⟨hj, -⟩
    · exact ht
    · rw [hj] at h
      exact h.elim
    · rw [hj] at h
      exact h.elim
    · rw [hj] at h
      exact h.elim
  | enter => trivial
  | idle => exact h
  | refuse k id name msg => cases k <;> exact h
  | tear k id reason =>
    have hnext := next_spec S c fresh (.tear k id reason)
    generalize (S.next c fresh (.tear k id reason)).1 = l at hnext
    cases hj : (S.next c fresh (.tear k id reason)).2 with
    | process | enter =>
      rw [hj] at hnext
      cases hnext
    | idle | refuse | tear =>
      rw [hj] at h
      exact h.elim

theorem enter_of_sent {d : ConnId} {p : Packet} (h : (S.next c fresh job).1 = some (.send d p))
    (ht : p.type = .connect) : ∃ id nsp, job = .enter .reply id nsp := by
  rcases next_send h with ⟨_, -, -, -, hp⟩ | ⟨id, nsp, hj, -, -⟩ | ⟨_, _, _, -, -, hp⟩ |
    ⟨_, _, _, -, -, -, hp⟩
  · rw [hp] at ht
    cases ht
  · exact ⟨id, nsp, hj⟩
  · rw [hp] at ht
    cases ht
  · rw [hp] at ht
    cases ht

theorem Tagged.step (h : Tagged s) (hw : Wired c s) (hs : s.step J c a = some s') : Tagged s' := by
  have hkeep {o : Option ℕ} (ho : ∃ i, o = some i ∧ s.Issued i) : ∃ i, o = some i ∧ s'.Issued i := by
    obtain ⟨i, ho, hi⟩ := ho
    exact ⟨i, ho, hi.step hs⟩
  have build (hts : ∀ m ∈ s'.toServer, m ∈ s.toServer ∨
        (m.pkt.type = .connect → ∃ i, m.origin = some i ∧ s'.Issued i))
      (htc : ∀ m ∈ s'.toClient, m ∈ s.toClient ∨ m.pkt.type ≠ .connect)
      (hl : s'.loop = s.loop) (ho : s'.origin = s.origin) : Tagged s' := by
    refine ⟨fun m hm ht => ?_, fun hc => ?_, fun m hm ht => ?_⟩
    · exact (hts m hm).elim (fun hm => hkeep (h.toServer m hm ht)) fun hm => hm ht
    · rw [ho]
      exact hkeep (h.loop (hl ▸ hc))
    · exact (htc m hm).elim (fun hm => hkeep (h.toClient m hm ht)) fun hm => absurd ht hm
  cases step_does hs with
  | @pop m rest hloop hq =>
    refine ⟨fun m hm ht => hkeep (h.toServer m (by simp [hq, hm]) ht), fun hc => ?_, fun m hm ht =>
      hkeep (h.toClient m hm ht)⟩
    exact hkeep (h.toServer m (by simp [hq]) hc)
  | process fresh =>
    refine ⟨fun m hm ht => hkeep (h.toServer m hm ht), fun hc => hkeep (h.loop (connects_next hc)),
      fun m hm ht => hkeep ?_⟩
    rcases List.mem_append.mp hm with hm | hm
    · exact h.toClient m hm ht
    · obtain ⟨hl, ho⟩ := mem_sent.mp hm
      obtain ⟨id, nsp, hj⟩ := enter_of_sent hl ht
      rw [ho]
      exact h.loop (by rw [hj]; trivial)
  | @tear i job hi =>
    refine build (fun m hm => .inl hm) (fun m hm => ?_) rfl rfl
    refine (List.mem_append.mp hm).imp_right fun hm ht => ?_
    obtain ⟨hl, -⟩ := mem_sent.mp hm
    obtain ⟨id, nsp, rfl⟩ := enter_of_sent hl ht
    rcases hw.tears _ (List.mem_of_getElem? hi) with hj | ⟨k, x, hj, -⟩ <;> cases hj
  | send =>
    refine build (fun m hm => .inl hm) (fun m hm => ?_) rfl rfl
    refine (List.mem_append.mp hm).imp_right fun hm => ?_
    rw [(mem_sent_event hm).1]
    nofun
  | handleConnect hq | handleConnectError hq | handleDisconnect hq | handleEvent hq | ignore hq =>
    exact build (fun m hm => .inl hm) (fun m hm => .inl (by simp [hq, hm])) rfl rfl
  | respond results hm | sendDisconnect ht =>
    refine build (fun m hm => (List.mem_append.mp hm).imp_right fun hm ht => ?_) (fun m hm => .inl hm) rfl rfl
    rw [List.mem_singleton.mp hm] at ht
    cases ht
  | @sendConnect i nsp data ht =>
    refine build (fun m hm => (List.mem_append.mp hm).imp_right fun hm _ => ?_) (fun m hm => .inl hm) rfl rfl
    rw [List.mem_singleton.mp hm]
    obtain ⟨hlt, -⟩ := List.getElem?_eq_some_iff.mp ht
    exact ⟨i, rfl, .wait nsp, List.getElem?_set_self hlt, nofun⟩
  | _ => exact build (fun m hm => .inl hm) (fun m hm => .inl hm) rfl rfl

end Tagging

section Jobs

variable {S : Server} {fresh x : SocketId} {job : Job}

/-- The packets by which the client joins and leaves a namespace. -/
def Concerns (n : Bytes) (pkt : Packet) : Prop :=
  pkt.nsp = n ∧ (pkt.type = .connect ∨ pkt.type = .disconnect)

/-- The job has to do with the socket of the namespace. -/
def Busy (S : Server) (c : ConnId) (n : Bytes) : Job → Prop
  | .idle => False
  | .process pkt => Concerns n pkt
  | .enter _ _ nsp => nsp = n
  | .refuse _ _ name _ => name = n
  | .tear _ x _ => S.origin x = some (c, n)

theorem attached_next (hn : ¬ Busy S c n job) :
    (S.perhaps J (S.next c fresh job).1).attached c n = S.attached c n := by
  have hnext := next_spec S c fresh job
  generalize (S.next c fresh job).2 = job' at hnext
  cases hl : (S.next c fresh job).1 with
  | none => rfl
  | some l =>
    rw [hl] at hnext
    rcases attached_run (S := S) (J := J) (c := c) (n := n) (l := l) with ha | ⟨y, rfl⟩ | rfl | rfl
    · exact ha
    · cases hnext with
      | attach => exact absurd rfl hn
    · cases hnext with
      | unhook => exact absurd rfl hn
      | @detach y reason s hs => exact absurd (origin_eq_some.mpr ⟨s, hs, rfl, rfl⟩) hn
    · cases hnext

theorem not_relevant_sent {o : Option ℕ} {m : Message} (hn : ¬ Busy S c n job)
    (hm : m ∈ sent c o (S.next c fresh job).1) : ¬ View.Relevant n m := by
  rintro ⟨hnsp, -⟩
  obtain ⟨hl, -⟩ := mem_sent.mp hm
  rcases next_send hl with ⟨pkt, rfl, ht, -, hp⟩ | ⟨id, nsp, rfl, -, hp⟩ | ⟨id, name, msg, rfl, -, hp⟩ |
    ⟨id, reason, y, rfl, hy, hc, hp⟩ <;> rw [hp] at hnsp
  · exact hn ⟨hnsp, .inl ht⟩
  · exact hn hnsp
  · exact hn hnsp
  · exact hn (origin_eq_some.mpr ⟨y, hy, hc.symm, hnsp⟩)

theorem not_busy_next (hjob : World.JobOf S c job) (ha : Attributed S)
    (hfresh : (∃ pkt, job = .process pkt) → S.heap fresh = none) (hn : ¬ Busy S c n job) :
    ¬ Busy (S.perhaps J (S.next c fresh job).1) c n (S.next c fresh job).2 := by
  have hnext := next_spec S c fresh job
  have horigin (x : SocketId) (hx : job ≠ .idle) (htear : ∀ pkt, job ≠ .process pkt) :
      (S.perhaps J (S.next c fresh job).1).origin x = S.origin x := by
    cases hl : (S.next c fresh job).1 with
    | none => rfl
    | some l =>
      refine origin_run_of_ne fun name d hd => ?_
      generalize (S.next c fresh job).2 = job' at hnext
      rw [hl, hd] at hnext
      cases hnext <;> exact htear _ rfl
  cases job with
  | process pkt =>
    rcases next_process S c fresh pkt with ⟨ht, hj | ⟨-, hj | ⟨msg, hj⟩⟩⟩ | ⟨ht, hl, hj | ⟨x, hx, hj⟩⟩ |
      ⟨hj, -⟩ <;> intro hb
    · rw [hj] at hb
      exact hb
    · rw [hj] at hb
      exact hn ⟨hb, .inl ht⟩
    · rw [hj] at hb
      exact hn ⟨(World.namespaceName_of_ne hjob).symm.trans hb, .inl ht⟩
    · rw [hj] at hb
      exact hb
    · rw [hj, hl] at hb
      have hhome := ha.home c pkt.nsp x hx
      have hbusy : S.origin x = some (c, n) := hb
      rw [hhome, Option.some.injEq, Prod.mk.injEq] at hbusy
      exact hn ⟨hbusy.2, .inr ht⟩
    · rw [hj] at hb
      exact hb
  | idle => exact fun hb => hb
  | enter k id nsp =>
    generalize (S.next c fresh (.enter k id nsp)).2 = job' at hnext ⊢
    generalize (S.next c fresh (.enter k id nsp)).1 = l at hnext ⊢
    cases hnext with
    | reject => exact fun hb => hn ((World.namespaceName_of_ne hjob.2.1).symm.trans hb)
    | reply => exact fun hb => hb
    | register | join | attach | mark | accept => exact hn
  | refuse k id name msg =>
    generalize (S.next c fresh (.refuse k id name msg)).2 = job' at hnext ⊢
    generalize (S.next c fresh (.refuse k id name msg)).1 = l at hnext ⊢
    cases hnext with
    | error => exact fun hb => hb
    | unregister | withdraw | unhook | demote => exact hn
  | tear k id reason =>
    have ho := horigin id nofun nofun
    generalize (S.next c fresh (.tear k id reason)).2 = job' at hnext ⊢
    generalize (S.next c fresh (.tear k id reason)).1 = l at hnext ho ⊢
    cases hnext with
    | missing | absent | detach => exact fun hb => hb
    | _ => exact fun hb => hn (ho.symm.trans hb)

end Jobs

section Steps

/-- Neither the link to the server nor its loop has anything for the namespace. -/
structure Settled (c : ConnId) (s : Exchange) (n : Bytes) : Prop where
  toServer : ∀ m ∈ s.toServer, ¬ Concerns n m.pkt
  loop : ¬ Busy s.server c n s.loop

/-- What the client will be on the namespace, and what the server has for it: a socket
it will be connected under is the one the server has; behind the CONNECT of the call
that will wait nothing follows; a socket entered and not answered is in the table,
and one that has been taken leave of is not held. -/
structure Agrees (c : ConnId) (s : Exchange) (n : Bytes) : Prop where
  held : ∀ x, (s.future n).held = some x → Settled c s n ∧ s.server.attached c n = some x
  sent : ∀ ch, (s.future n).awaited = some ch → s.toServer.Pairwise fun m m' =>
    m.pkt.type = .connect → m.pkt.nsp = n → m.origin = some ch → ¬ Concerns n m'.pkt
  loop : ∀ ch, (s.future n).awaited = some ch → s.origin = some ch → Connects s.loop →
    Busy s.server c n s.loop → ∀ m ∈ s.toServer, ¬ Concerns n m.pkt
  entered : ∀ k id, s.loop = .enter k id n → k = .mark ∨ k = .decide ∨ k = .reply →
    s.server.attached c n = some id
  gone : ∀ k x r, .tear k x r ∈ s.tears → k = .handlers ∨ k = .detach →
    s.server.origin x = some (c, n) → (s.future n).held ≠ some x

/-- A socket is not disconnected by the server before its CONNECT is answered. -/
def Apart (s : Exchange) : Prop := ∀ id, entering s.loop = some id → ∀ k r, .tear k id r ∉ s.tears

theorem future_append {ms : List Message} (hc : s'.client = s.client) (ht : s'.toClient = s.toClient ++ ms) :
    s'.future n = ms.foldl (View.take n) (s.future n) := by
  rw [future, ht, List.foldl_append, view, hc]
  rfl

/-- A step in which the loop stays where it is, and the client will not be more than it
was going to be. -/
theorem Agrees.keep (h : Agrees c s n)
    (hheld : ∀ x, (s'.future n).held = some x → (s.future n).held = some x)
    (hawaited : ∀ ch, (s'.future n).awaited = some ch → (s.future n).awaited = some ch)
    (hts : s'.future n = ⟨none, none⟩ ∨
      ∃ ms, s'.toServer = s.toServer ++ ms ∧ ∀ m ∈ ms, ¬ Concerns n m.pkt)
    (hloop : s'.loop = s.loop) (ho : s'.origin = s.origin)
    (hgone : ∀ k x r, .tear k x r ∈ s'.tears → k = .handlers ∨ k = .detach →
      s.server.origin x = some (c, n) → (s'.future n).held = some x →
      ∃ k' r', .tear k' x r' ∈ s.tears ∧ (k' = .handlers ∨ k' = .detach))
    (hattached : ∀ x, s.server.attached c n = some x →
      (s.future n).held = some x ∨ entering s.loop = some x → s'.server.attached c n = some x)
    (horigin : ∀ x, s'.server.origin x = s.server.origin x) : Agrees c s' n := by
  have hbusy : Busy s'.server c n s'.loop ↔ Busy s.server c n s.loop := by
    rw [hloop]
    cases s.loop <;> simp only [Busy, horigin]
  have hentered (k : Entry) (id : SocketId) (hl : s'.loop = .enter k id n)
      (hk : k = .mark ∨ k = .decide ∨ k = .reply) : s'.server.attached c n = some id := by
    rw [hloop] at hl
    exact hattached id (h.entered k id hl hk) (.inr (by rw [hl]; rfl))
  rcases hts with hnone | ⟨ms, hts, hms⟩
  · refine ⟨fun x hx => ?_, fun ch hch => ?_, fun ch hch => ?_, hentered, fun k x r hmem hk hx hheld' => ?_⟩
    · rw [hnone] at hx
      cases hx
    · rw [hnone] at hch
      cases hch
    · rw [hnone] at hch
      cases hch
    · rw [hnone] at hheld'
      cases hheld'
  · have hconcerns (hs : ∀ m ∈ s.toServer, ¬ Concerns n m.pkt) : ∀ m ∈ s'.toServer, ¬ Concerns n m.pkt := by
      intro m hm
      rw [hts] at hm
      exact (List.mem_append.mp hm).elim (hs m) (hms m)
    refine ⟨fun x hx => ?_, fun ch hch => ?_, fun ch hch hch' hcon hb => ?_, hentered,
      fun k x r hmem hk hx hheld' => ?_⟩
    · obtain ⟨hsettled, ha⟩ := h.held x (hheld x hx)
      exact ⟨⟨hconcerns hsettled.toServer, fun hb => hsettled.loop (hbusy.mp hb)⟩,
        hattached x ha (.inl (hheld x hx))⟩
    · rw [hts, List.pairwise_append]
      refine ⟨h.sent ch (hawaited ch hch), ?_, fun m _ m' hm' _ _ _ => hms m' hm'⟩
      exact List.pairwise_of_forall_mem_list fun m _ m' hm' _ _ _ => hms m' hm'
    · exact hconcerns (h.loop ch (hawaited ch hch) (ho ▸ hch') (hloop ▸ hcon) (hbusy.mp hb))
    · have hx' := horigin x ▸ hx
      obtain ⟨k', r', hmem', hk'⟩ := hgone k x r hmem hk hx' hheld'
      exact h.gone k' x r' hmem' hk' hx' (hheld x hheld')

theorem Agrees.same {ms : List Message} (h : Agrees c s n) (hf : s'.future n = s.future n)
    (hts : s'.toServer = s.toServer ++ ms) (hms : ∀ m ∈ ms, ¬ Concerns n m.pkt)
    (hloop : s'.loop = s.loop) (ho : s'.origin = s.origin) (htears : s'.tears = s.tears)
    (hattached : s'.server.attached c n = s.server.attached c n)
    (horigin : ∀ x, s'.server.origin x = s.server.origin x) : Agrees c s' n :=
  h.keep (fun _ hx => hf ▸ hx) (fun _ hch => hf ▸ hch) (.inr ⟨ms, hts, hms⟩) hloop ho
    (fun k _ r hmem hk _ _ => ⟨k, r, htears ▸ hmem, hk⟩) (fun _ ha _ => hattached.trans ha) horigin

theorem Agrees.blank (h : Agrees c s n) (hf : s'.future n = ⟨none, none⟩) (hloop : s'.loop = s.loop)
    (ho : s'.origin = s.origin) (hserver : s'.server = s.server) : Agrees c s' n :=
  h.keep (fun _ hx => by rw [hf] at hx; cases hx) (fun _ hch => by rw [hf] at hch; cases hch) (.inl hf)
    hloop ho (fun _ _ _ _ _ _ hx => by rw [hf] at hx; cases hx) (fun _ ha _ => hserver ▸ ha)
    fun _ => by rw [hserver]

theorem Agrees.pop {m : Message} {rest : List Message} (h : Agrees c s n) (hq : s.toServer = m :: rest) :
    Agrees c { s with loop := .process m.pkt, origin := m.origin, toServer := rest } n := by
  refine ⟨fun x hx => ?_, fun ch hch => ?_, fun ch hch ho hcon hb m' hm' => ?_, nofun, h.gone⟩
  · obtain ⟨hsettled, hx⟩ := h.held x hx
    exact ⟨⟨fun m' hm' => hsettled.toServer m' (by simp [hq, hm']), hsettled.toServer m (by simp [hq])⟩, hx⟩
  · have hsent := h.sent ch hch
    rw [hq, List.pairwise_cons] at hsent
    exact hsent.2
  · have hsent := h.sent ch hch
    rw [hq, List.pairwise_cons] at hsent
    exact hsent.1 m' hm' hcon hb.1 ho

variable {fresh : SocketId} {job : Job}

theorem Agrees.process_of_not_busy (h : Agrees c s n) (hw : Wired c s)
    (hfresh : s.server.heap fresh = none) (hn : ¬ Busy s.server c n s.loop) :
    Agrees c { s.turn J c s.origin fresh s.loop with loop := (s.server.next c fresh s.loop).2 } n := by
  set s' : Exchange := { s.turn J c s.origin fresh s.loop with loop := (s.server.next c fresh s.loop).2 }
  have happend : s'.future n = (Exchange.sent c s.origin (s.server.next c fresh s.loop).1).foldl
      (View.take n) (s.future n) := future_append rfl rfl
  have hfuture : s'.future n = s.future n :=
    happend.trans (View.foldl_of_not_relevant fun m hm => not_relevant_sent hn hm)
  have hn' : ¬ Busy s'.server c n s'.loop :=
    not_busy_next hw.loop hw.attributed (fun _ => hfresh) hn
  have hattached : s'.server.attached c n = s.server.attached c n := attached_next hn
  refine ⟨fun x hx => ?_, fun ch hch => ?_, fun ch _ _ _ hb => absurd hb hn', fun k id hl hk => ?_,
    fun k x r hmem hk hx => ?_⟩
  · obtain ⟨hsettled, hx⟩ := h.held x (hfuture ▸ hx)
    exact ⟨⟨hsettled.toServer, hn'⟩, hattached.trans hx⟩
  · exact h.sent ch (hfuture ▸ hch)
  · exact absurd (by rw [hl]; rfl) hn'
  · rw [hfuture]
    refine h.gone k x r hmem hk ?_
    -- a socket that is being disconnected was there before the step
    rcases hw.tears _ hmem with hj | ⟨_, _, hj, o, ho⟩
    · cases hj
    · cases hj
      obtain ⟨-, -, hmono, -⟩ := hw.turn (J := J) hw.loop (fun _ => hfresh) s.origin
      rw [ho, ← hmono x o ho]
      exact hx

theorem entered_next {k : Entry} {id : SocketId} {S : Server}
    (hj : (S.next c fresh job).2 = .enter k id n) (hk : k = .mark ∨ k = .decide ∨ k = .reply)
    (h : ∀ k', job = .enter k' id n → k' = .mark ∨ k' = .decide ∨ k' = .reply →
      S.attached c n = some id) :
    (S.perhaps J (S.next c fresh job).1).attached c n = some id := by
  have hnext := next_spec S c fresh job
  rw [hj] at hnext
  generalize (S.next c fresh job).1 = l at hnext ⊢
  cases hnext with
  | create | register | join => simp at hk
  | attach => exact (attached_attach S n id c c n).trans (if_pos ⟨rfl, rfl⟩)
  | mark => exact h .mark rfl (.inl rfl)
  | accept => exact h .decide rfl (.inr (.inl rfl))

/-- The loop goes on with the namespace. Before the reply to its CONNECT the client
will not be connected. -/
theorem Agrees.process_of_busy (h : Agrees c s n) (hapart : s.Apart)
    (hn : Busy s.server c n s.loop) :
    Agrees c { s.turn J c s.origin fresh s.loop with loop := (s.server.next c fresh s.loop).2 } n := by
  set s' : Exchange := { s.turn J c s.origin fresh s.loop with loop := (s.server.next c fresh s.loop).2 }
  have happend : s'.future n = (Exchange.sent c s.origin (s.server.next c fresh s.loop).1).foldl
      (View.take n) (s.future n) := future_append rfl rfl
  have hheld (x : SocketId) : (s.future n).held ≠ some x := fun hx => (h.held x hx).1.loop hn
  have hawaited (ch : ChanId) (hch : (s'.future n).awaited = some ch) : (s.future n).awaited = some ch := by
    rw [happend] at hch
    exact View.awaited_of_foldl hch
  have hreply (x : SocketId) (hx : (s'.future n).held = some x) : s.loop = .enter .reply x n ∧
      ∃ ch, (s.future n).awaited = some ch ∧ s.origin = some ch := by
    rw [happend] at hx
    rcases View.held_of_foldl hx with hx' | ⟨ch, hch, m, hm, ht, ho⟩
    · exact absurd hx' (hheld x)
    · obtain ⟨hl, horigin⟩ := mem_sent.mp hm
      obtain ⟨id, nsp, hj⟩ := enter_of_sent hl ht
      have hnsp : nsp = n := by
        rw [hj] at hn
        exact hn
      subst hnsp
      simp only [hj, next, enterNext, Exchange.sent, if_true, List.foldl_cons, List.foldl_nil] at hx
      rcases View.held_of_take hx with heq | ⟨_, -, -, -, -, hsid⟩
      · rw [heq] at hx
        exact absurd hx (hheld x)
      · obtain rfl : id = x := Option.some.inj hsid
        exact ⟨hj, ch, hch, horigin.symm.trans ho⟩
  refine ⟨fun x hx => ?_, fun ch hch => h.sent ch (hawaited ch hch), fun ch hch ho hcon _ => ?_,
    fun k id hl hk => ?_, fun k x r hmem hk hx hheld' => ?_⟩
  · obtain ⟨hj, ch, hch, ho⟩ := hreply x hx
    have hcon : Connects s.loop := by rw [hj]; trivial
    have hentered := h.entered .reply x hj (.inr (.inr rfl))
    refine ⟨⟨h.loop ch hch ho hcon hn, ?_⟩, ?_⟩
    · simp only [s', hj, next, enterNext]
      exact fun hb => hb
    · simp only [s', Exchange.turn, hj, next, enterNext, perhaps, Option.elim_some]
      exact (attached_send _).trans hentered
  · exact h.loop ch (hawaited ch hch) ho (connects_next hcon) hn
  · exact entered_next hl hk fun k' hk' => h.entered k' id hk'
  · obtain ⟨hj, -⟩ := hreply x hheld'
    exact hapart x (by rw [hj]; rfl) k r hmem

theorem notify_of_next {S : Server} {k k' : Teardown} {x x' : SocketId} {y : Socket} {r : String}
    (hy : S.heap x = some y)
    (hj : (S.next c fresh (.tear k x "server namespace disconnect")).2 = .tear k' x' r)
    (hk' : k' = .handlers ∨ k' = .detach) :
    x' = x ∧ (k = .handlers ∨ (S.next c fresh (.tear k x "server namespace disconnect")).1 =
      some (.send y.ec { type := .disconnect, nsp := y.nsp })) := by
  have hnext := next_spec S c fresh (.tear k x "server namespace disconnect")
  rw [hj] at hnext
  generalize (S.next c fresh (.tear k x "server namespace disconnect")).1 = l at hnext ⊢
  cases hnext with
  | notify hs =>
    obtain rfl := Option.some.inj (hs.symm.trans hy)
    exact ⟨rfl, .inr rfl⟩
  | handlers => exact ⟨rfl, .inl rfl⟩
  | clearAcks k hk =>
    simp only [next, hy, Option.elim_some, tearNext, if_true] at hj
    cases hj
    simp at hk'
  | _ => simp at hk'

section

variable (h : Agrees c s n)

include h

theorem Agrees.tear {i : ℕ} (hw : Wired c s) (hapart : s.Apart)
    (hi : s.tears[i]? = some job) (hord : World.JobOrderly s.server c job) :
    Agrees c { s.turn J c none [] job with tears := s.tears.set i (s.server.next c [] job).2 } n := by
  set s' : Exchange := { s.turn J c none [] job with tears := s.tears.set i (s.server.next c [] job).2 }
  have hmem := List.mem_of_getElem? hi
  have hnext := next_spec s.server c [] job
  have hserver : s'.server = s.server.perhaps J (s.server.next c [] job).1 := rfl
  have happend : s'.future n = (Exchange.sent c none (s.server.next c [] job).1).foldl
      (View.take n) (s.future n) := future_append rfl rfl
  have hnotpacket (pkt : Packet) : job ≠ .process pkt := by
    rintro rfl
    rcases hw.tears _ hmem with hj | ⟨k, x, hj, -⟩ <;> cases hj
  have hheld (x : SocketId) (hx : (s'.future n).held = some x) : (s.future n).held = some x := by
    rw [happend] at hx
    rcases View.held_of_foldl hx with hx | ⟨ch, -, m, hm, ht, -⟩
    · exact hx
    · obtain ⟨id, nsp, rfl⟩ := enter_of_sent (mem_sent.mp hm).1 ht
      rcases hw.tears _ hmem with hj | ⟨k, x, hj, -⟩ <;> cases hj
  refine h.keep hheld (fun ch hch => ?_) (.inr ⟨[], (List.append_nil _).symm, nofun⟩) rfl rfl
    (fun k x r hk hlate hx hx' => ?_) (fun x ha hx => ?_) fun x => ?_
  · rw [happend] at hch
    exact View.awaited_of_foldl hch
  · rcases List.mem_or_eq_of_mem_set hk with hk | hk
    · exact ⟨k, r, hk, hlate⟩
    · rcases hw.tears job hmem with rfl | ⟨k₀, x₀, rfl, o, ho⟩
      · cases hk
      · obtain ⟨y, hy, -⟩ := origin_eq_some.mp ho
        obtain ⟨rfl, rfl | hl⟩ := notify_of_next hy hk.symm hlate
        · exact ⟨.handlers, _, hmem, .inl rfl⟩
        · -- the DISCONNECT is on its way
          obtain ⟨y', hy', hec, hnsp⟩ := origin_eq_some.mp hx
          obtain rfl : y = y' := Option.some.inj (hy.symm.trans hy')
          rw [happend, hl, Exchange.sent, if_pos hec, List.foldl_cons, List.foldl_nil,
            View.take_disconnect hnsp rfl] at hx'
          cases hx'
  · rw [hserver]
    cases hl : (s.server.next c [] job).1 with
    | none => exact ha
    | some l =>
      generalize (s.server.next c [] job).2 = job' at hnext
      rw [hl] at hnext
      rcases attached_run (S := s.server) (J := J) (c := c) (n := n) (l := l) with ha' | ⟨y, rfl⟩ | rfl | rfl
      · exact ha'.trans ha
      · cases hnext with
        | attach => rcases hw.tears _ hmem with hj | ⟨k, x, hj, -⟩ <;> cases hj
      · cases hnext with
        | unhook => rcases hw.tears _ hmem with hj | ⟨k, x, hj, -⟩ <;> cases hj
        | @detach x₀ reason y hy =>
          rw [World.JobOrderly, hy] at hord
          obtain rfl : x = x₀ := by
            rcases hord with hord | hord
            · cases ha.symm.trans hord
            · exact Option.some.inj (ha.symm.trans hord)
          rcases hx with hx | hx
          · exact absurd hx (h.gone _ x _ hmem (.inr rfl) (origin_eq_some.mpr ⟨y, hy, rfl, rfl⟩))
          · exact absurd hmem (hapart x hx _ _)
      · cases hnext
  · rw [hserver]
    cases hl : (s.server.next c [] job).1 with
    | none => rfl
    | some l =>
      refine origin_run_of_ne fun name d hd => ?_
      generalize (s.server.next c [] job).2 = job' at hnext
      rw [hl, hd] at hnext
      cases hnext <;> exact hnotpacket _ rfl

theorem Agrees.unissued {ms : List Message} (ht : Tagged s)
    (hheld : ∀ x, (s'.future n).held ≠ some x)
    (hawaited : ∀ ch, (s'.future n).awaited = some ch → ¬ s.Issued ch)
    (hts : s'.toServer = s.toServer ++ ms) (hms : ms.length ≤ 1) (hloop : s'.loop = s.loop)
    (ho : s'.origin = s.origin) (hserver : s'.server = s.server) : Agrees c s' n := by
  refine ⟨fun x hx => absurd hx (hheld x), fun ch hch => ?_, fun ch hch ho' hcon => ?_, fun k id hl hk => ?_,
    fun _ x _ _ _ _ => hheld x⟩
  · have hold : ∀ m ∈ s.toServer, m.pkt.type = .connect → m.origin ≠ some ch := by
      intro m hm htype hm'
      obtain ⟨i, hi, hissued⟩ := ht.toServer m hm htype
      obtain rfl : ch = i := Option.some.inj (hm'.symm.trans hi)
      exact hawaited ch hch hissued
    rw [hts, List.pairwise_append]
    refine ⟨?_, ?_, fun m hm _ _ htype _ hm' => absurd hm' (hold m hm htype)⟩
    · exact List.pairwise_of_forall_mem_list fun m hm _ _ htype _ hm' => absurd hm' (hold m hm htype)
    · match ms, hms with
      | [], _ => exact List.Pairwise.nil
      | [_], _ => exact List.pairwise_singleton ..
  · obtain ⟨i, hi, hissued⟩ := ht.loop (hloop ▸ hcon)
    rw [ho] at ho'
    obtain rfl : ch = i := Option.some.inj (ho'.symm.trans hi)
    exact absurd hissued (hawaited ch hch)
  · rw [hserver]
    exact h.entered k id (hloop ▸ hl) hk

theorem Agrees.connectNsp (ht : Tagged s) (nsp : Bytes) (data : Value) : Agrees c { s with
      client := s.client.await nsp data s.tasks.length
      tasks := s.tasks ++ [.connect nsp data] } n := by
  set s' : Exchange := { s with
    client := s.client.await nsp data s.tasks.length
    tasks := s.tasks ++ [.connect nsp data] }
  have hnew : ¬ s.Issued s.tasks.length := by
    rintro ⟨t, ht, -⟩
    simp at ht
  by_cases hn : n = nsp
  · have hview : s'.view n = ⟨none, some s.tasks.length⟩ := by
      simp [view, s', hn]
    have hts : s'.toServer = s.toServer ++ [] := (List.append_nil _).symm
    refine h.unissued ht (fun x hx => ?_) (fun ch hch => ?_) hts (Nat.zero_le _) rfl rfl rfl
    · rw [future, hview] at hx
      rcases View.held_of_foldl hx with hx | ⟨ch, hch, m, hm, htype, ho⟩
      · cases hx
      · cases hch
        obtain ⟨i, hi, hissued⟩ := ht.toClient m hm htype
        obtain rfl : s.tasks.length = i := Option.some.inj (ho.symm.trans hi)
        exact hnew hissued
    · rw [future, hview] at hch
      cases View.awaited_of_foldl hch
      exact hnew
  · have hfuture : s'.future n = s.future n := by simp [future, view, s', hn]
    exact h.same hfuture (List.append_nil _).symm nofun rfl rfl rfl rfl fun _ => rfl

theorem Agrees.sendConnect {i : ℕ} {nsp : Bytes} {data : Value} (ht : Tagged s)
    (hi : s.tasks[i]? = some (.connect nsp data)) (hconn : s.client.Connected nsp = false)
    (hch : ∀ ch ∈ s.client.awaited nsp, ch = i) :
    Agrees c { s with
      toServer := s.toServer ++ [{ pkt := { type := .connect, nsp, data }, origin := some i }]
      tasks := s.tasks.set i (.wait nsp) } n := by
  have hnew : ¬ s.Issued i := by
    rintro ⟨t, ht, hne⟩
    rw [hi, Option.some.injEq] at ht
    exact hne nsp data ht.symm
  by_cases hn : n = nsp
  · subst hn
    refine h.unissued ht (fun x hx => ?_) (fun ch hch' => ?_) rfl (by simp) rfl rfl rfl
    · rcases View.held_of_foldl hx with hx | ⟨ch, hch', m, hm, htype, ho⟩
      · exact absurd hx (by simp [view, (s.client.not_connected_iff n).mp hconn])
      · obtain rfl := hch ch hch'
        obtain ⟨j, hj, hissued⟩ := ht.toClient m hm htype
        obtain rfl : ch = j := Option.some.inj (ho.symm.trans hj)
        exact hnew hissued
    · rw [hch ch (View.awaited_of_foldl hch')]
      exact hnew
  · refine h.same rfl rfl (fun m hm hcon => ?_) rfl rfl rfl rfl fun _ => rfl
    rw [List.mem_singleton.mp hm] at hcon
    exact hn hcon.1.symm

theorem Agrees.sendDisconnect {i : ℕ} {nsp : Bytes} (hs : List Handler)
    (hconn : s.client.Connected (namespaceName nsp) = false)
    (hch : s.client.awaited (namespaceName nsp) = none) :
    Agrees c { s with
      toServer := s.toServer ++ [{ pkt := { type := .disconnect, nsp := namespaceName nsp } }]
      client := s.client.start hs
      tasks := s.tasks.set i .done } n := by
  by_cases hn : n = namespaceName nsp
  · subst hn
    refine h.blank ?_ rfl rfl rfl
    have hview : s.view (namespaceName nsp) = ⟨none, none⟩ := by
      rw [view, (s.client.not_connected_iff _).mp hconn, hch]
    change s.toClient.foldl (View.take _) (s.view (namespaceName nsp)) = _
    rw [hview]
    exact View.foldl_none
  · refine h.same rfl rfl (fun m hm hcon => ?_) rfl rfl rfl rfl fun _ => rfl
    rw [List.mem_singleton.mp hm] at hcon
    exact hn hcon.1.symm

theorem Agrees.retreat {C : SioClient} {ts : List ClientTask} (hw : s.client.Waits)
    (hC : C.held n = s.client.held n ∧ C.awaited n = s.client.awaited n ∨
      C.held n = none ∧ C.awaited n = s.client.awaited n ∨
      C.held n = s.client.held n ∧ C.awaited n = none) :
    Agrees c { s with client := C, tasks := ts } n := by
  have hsame (hheld : C.held n = s.client.held n) (hawaited : C.awaited n = s.client.awaited n) :
      Agrees c { s with client := C, tasks := ts } n := by
    refine h.same ?_ (List.append_nil _).symm nofun rfl rfl rfl rfl fun _ => rfl
    simp only [future, view, hheld, hawaited]
  have hblank (hheld : C.held n = none) (hawaited : C.awaited n = none) :
      Agrees c { s with client := C, tasks := ts } n := by
    refine h.blank ?_ rfl rfl rfl
    simp only [future, view, hheld, hawaited]
    exact View.foldl_none
  cases hch : s.client.awaited n with
  | none =>
    rw [hch] at hC
    rcases hC with ⟨hheld, hawaited⟩ | ⟨hheld, hawaited⟩ | ⟨hheld, hawaited⟩
    · exact hsame hheld (hawaited.trans hch.symm)
    · exact hblank hheld hawaited
    · exact hsame hheld (hawaited.trans hch.symm)
  | some ch =>
    have hnone := hw.held hch
    rw [hch, hnone] at hC
    rcases hC with ⟨hheld, hawaited⟩ | ⟨hheld, hawaited⟩ | ⟨hheld, hawaited⟩
    · exact hsame (hheld.trans hnone.symm) (hawaited.trans hch.symm)
    · exact hsame (hheld.trans hnone.symm) (hawaited.trans hch.symm)
    · exact hblank hheld hawaited

theorem Agrees.receive {m : Message} {rest : List Message} {C : SioClient}
    (hq : s.toClient = m :: rest)
    (hC : (⟨C.held n, C.awaited n⟩ : View) = (s.view n).take n m) (hs : List Message) :
    Agrees c { s with toClient := rest, client := C, handling := hs } n := by
  refine h.same ?_ (List.append_nil _).symm nofun rfl rfl rfl rfl fun _ => rfl
  rw [future, future, hq, List.foldl_cons, ← hC]
  rfl

end

theorem view_handleConnect {m : Message} (hw : s.client.Waits) (ht : m.pkt.type = .connect)
    (hm : ∃ x, stringField sidKey m.pkt.data = some x)
    (ho : ∀ ch ∈ s.client.awaited m.pkt.nsp, m.origin = some ch) :
    (⟨(s.client.handleConnect m.pkt).held n, (s.client.handleConnect m.pkt).awaited n⟩ : View) =
      (s.view n).take n m := by
  obtain ⟨x, hx⟩ := hm
  rw [SioClient.awaited_handleConnect]
  by_cases hn : m.pkt.nsp = n
  · subst hn
    cases hch : s.client.awaited m.pkt.nsp with
    | none =>
      rw [SioClient.held_handleConnect_of_none _ _ _ hch]
      simp [View.take, ht, view, hch]
    | some ch =>
      rw [hw.held_handleConnect m.pkt hch hx, if_pos rfl, if_pos rfl]
      simp [View.take, ht, view, hch, ho ch hch, hx]
  · rw [View.take_of_not_relevant fun hr => hn hr.1, if_neg (Ne.symm hn)]
    cases hch : s.client.awaited m.pkt.nsp with
    | none => rw [SioClient.held_handleConnect_of_none _ _ _ hch, view]
    | some ch => rw [hw.held_handleConnect m.pkt hch hx, if_neg (Ne.symm hn), view]

/-- Everything that holds while all steps are proper. -/
structure Coherent (c : ConnId) (s : Exchange) : Prop where
  wired : Wired c s
  labelled : Labelled s
  tagged : Tagged s
  apart : s.Apart
  agrees : ∀ n, Agrees c s n

theorem Agrees.step (h : Coherent c s) (hfresh : s.Fresh a) (hp : s.Proper c a)
    (hs : s.step J c a = some s') (n : Bytes) : Agrees c s' n := by
  have hn := h.agrees n
  -- steps that touch neither the links nor the entries
  have hsame (hf : s'.future n = s.future n) (hts : s'.toServer = s.toServer) (hloop : s'.loop = s.loop)
      (ho : s'.origin = s.origin) (htears : s'.tears = s.tears) (hserver : s'.server = s.server) :
      Agrees c s' n :=
    hn.same hf (hts.trans (List.append_nil _).symm) nofun hloop ho htears (by rw [hserver])
      fun _ => by rw [hserver]
  cases step_does hs with
  | pop hloop hq => exact hn.pop hq
  | process fresh =>
    by_cases hb : Busy s.server c n s.loop
    · exact hn.process_of_busy h.apart hb
    · exact hn.process_of_not_busy h.wired hfresh hb
  | disconnect hx =>
    refine hn.keep (fun _ hx => hx) (fun _ hch => hch) (.inr ⟨[], (List.append_nil _).symm, nofun⟩) rfl rfl
      (fun k x r hmem hk _ _ => ?_) (fun _ ha _ => ha) fun _ => rfl
    rcases List.mem_append.mp hmem with hmem | hmem
    · exact ⟨k, r, hmem, hk⟩
    · cases List.mem_singleton.mp hmem
      simp at hk
  | tear hi => exact hn.tear h.wired h.apart hi (hp _ hi)
  | register =>
    exact hn.same rfl (List.append_nil _).symm nofun rfl rfl rfl rfl fun x =>
      origin_run_of_ne (J := J) (l := .registerAck _ _) nofun
  | send =>
    refine hn.same ?_ (List.append_nil _).symm nofun rfl rfl rfl (attached_send _) fun x =>
      origin_run_of_ne (J := J) (l := .send _ _) nofun
    refine Eq.trans (future_append (s := s) rfl rfl) (View.foldl_of_not_relevant fun m hm hr => ?_)
    rw [View.Relevant, (mem_sent_event hm).1] at hr
    simp [event] at hr
  | callback =>
    exact hn.same rfl (List.append_nil _).symm nofun rfl rfl rfl rfl fun x =>
      origin_run_of_ne (J := J) (l := .takeAck _ _) nofun
  | @handleConnect m rest hq ht =>
    refine hn.receive hq (view_handleConnect h.labelled.waits ht ?_ ?_) s.handling
    · exact (h.labelled.toClient m (by simp [hq])).2 ht
    · exact hp m (by simp [hq]) ht
  | @handleConnectError m rest hq ht =>
    refine hn.receive hq ?_ s.handling
    rw [SioClient.held_handleConnectError, SioClient.awaited_handleConnectError]
    by_cases hnsp : m.pkt.nsp = n
    · rw [View.take_connectError hnsp ht, if_pos hnsp.symm, if_pos hnsp.symm]
    · rw [View.take_of_not_relevant fun hr => hnsp hr.1, if_neg (Ne.symm hnsp), if_neg (Ne.symm hnsp), view]
  | @handleDisconnect m rest hq ht =>
    refine hn.receive hq ?_ s.handling
    rw [SioClient.held_handleDisconnect, SioClient.awaited_handleDisconnect]
    by_cases hnsp : m.pkt.nsp = n
    · rw [View.take_disconnect hnsp ht, if_pos hnsp.symm, view]
    · rw [View.take_of_not_relevant fun hr => hnsp hr.1, if_neg (Ne.symm hnsp), view]
  | @handleEvent m rest hq ht =>
    refine hn.receive (C := s.client) hq ?_ (s.handling ++ [m])
    rw [View.take_of_not_relevant fun ⟨_, hr⟩ => by simp [ht] at hr, view]
  | @ignore m rest hq hc he hd =>
    refine hn.receive (C := s.client) hq ?_ s.handling
    rw [View.take_of_not_relevant fun ⟨_, hr⟩ => by simp [hc, he, hd] at hr, view]
  | respond results hm =>
    refine hn.same rfl rfl (fun m hm hcon => ?_) rfl rfl rfl rfl fun _ => rfl
    rw [List.mem_singleton.mp hm] at hcon
    simp [Concerns, ack] at hcon
  | @connectNsp nsp data hne => exact hn.connectNsp h.tagged nsp data
  | disconnectNamespace nsp =>
    refine hn.retreat h.labelled.waits ?_
    rw [SioClient.held_leave, SioClient.awaited_leave]
    split_ifs
    · exact .inr (.inl ⟨rfl, rfl⟩)
    · exact .inl ⟨rfl, rfl⟩
  | sendConnect ht =>
    simp only [Proper, ht] at hp
    exact hn.sendConnect h.tagged ht hp.1 hp.2
  | sendDisconnect ht =>
    simp only [Proper, ht] at hp
    exact hn.sendDisconnect _ hp.1 hp.2
  | @timeout i nsp ht =>
    refine hn.retreat h.labelled.waits ?_
    rw [SioClient.held_abandon, SioClient.awaited_abandon]
    split_ifs
    · exact .inr (.inr ⟨rfl, rfl⟩)
    · exact .inl ⟨rfl, rfl⟩
  | emitWithAck | number | miss | wake => exact hsame rfl rfl rfl rfl rfl rfl

theorem entering_next {S : Server} {id : SocketId} (h : entering (S.next c fresh job).2 = some id) :
    entering job = some id ∨ (∃ pkt, job = .process pkt) ∧ id = fresh := by
  have hnext := next_spec S c fresh job
  generalize (S.next c fresh job).1 = l at hnext
  generalize (S.next c fresh job).2 = job' at hnext h
  cases hnext with
  | create => exact .inr ⟨⟨_, rfl⟩, (Option.some.inj h).symm⟩
  | register | join | attach | mark | accept => exact .inl h
  | _ => cases h

theorem Apart.step (h : Coherent c s) (hfresh : s.Fresh a) (hp : s.Proper c a)
    (hs : s.step J c a = some s') : s'.Apart := by
  have hsame (hloop : s'.loop = s.loop) (htears : s'.tears = s.tears) : s'.Apart := by
    unfold Apart
    rw [hloop, htears]
    exact h.apart
  cases step_does hs with
  | pop => exact nofun
  | process fresh =>
    intro id hid k r hmem
    rcases entering_next hid with hid | ⟨-, rfl⟩
    · exact h.apart id hid k r hmem
    · rcases h.wired.tears _ hmem with hj | ⟨_, _, hj, o, ho⟩
      · cases hj
      · cases hj
        obtain ⟨y, hy, -⟩ := origin_eq_some.mp ho
        rw [hfresh] at hy
        cases hy
  | disconnect hx =>
    intro id hid k r hmem
    rcases List.mem_append.mp hmem with hmem | hmem
    · exact h.apart id hid k r hmem
    · cases List.mem_singleton.mp hmem
      exact hp hid
  | @tear i job hi =>
    intro id hid k r hmem
    rcases List.mem_or_eq_of_mem_set hmem with hmem | hmem
    · exact h.apart id hid k r hmem
    · have hjob := List.mem_of_getElem? hi
      rcases h.wired.tears _ hjob with rfl | ⟨k₀, x, rfl, -⟩
      · cases hmem
      · have hnext := next_spec s.server c [] (.tear k₀ x "server namespace disconnect")
        rw [← hmem] at hnext
        generalize (s.server.next c [] (.tear k₀ x "server namespace disconnect")).1 = l at hnext
        cases hnext <;> exact h.apart _ hid _ _ hjob
  | _ => exact hsame rfl rfl

theorem Coherent.step (h : Coherent c s) (hfresh : s.Fresh a) (hp : s.Proper c a)
    (hs : s.step J c a = some s') : Coherent c s' where
  wired := h.wired.step h.labelled.toServer hfresh hs
  labelled := h.labelled.step h.wired hs
  tagged := h.tagged.step h.wired hs
  apart := Apart.step h hfresh hp hs
  agrees := Agrees.step h hfresh hp hs

theorem coherent_initial (h : Initial s) : Coherent c s := by
  have horigin (x : SocketId) : s.server.origin x = none := origin_eq_none.mpr (h.heap x)
  have hattributed : Attributed s.server := attributed_of_unused h.conns
  have hfuture (n : Bytes) : s.future n = ⟨none, none⟩ := by
    rw [h.fresh]
    rfl
  refine ⟨⟨hattributed, fun x d m hx => ?_, ?_, ?_⟩, ?_, ?_, ?_, fun n => ?_⟩
  · rw [horigin] at hx
    cases hx
  · rw [h.fresh]
    trivial
  · rw [h.fresh]
    nofun
  · rw [h.fresh]
    exact ⟨nofun, nofun, nofun, nofun, nofun⟩
  · rw [h.fresh]
    exact ⟨nofun, nofun, nofun⟩
  · rw [h.fresh]
    exact nofun
  · refine ⟨fun x hx => ?_, fun ch hch => ?_, fun ch hch => ?_, fun k id hl => ?_, fun k x r hmem => ?_⟩
    · rw [hfuture] at hx
      cases hx
    · rw [hfuture] at hch
      cases hch
    · rw [hfuture] at hch
      cases hch
    · rw [h.fresh] at hl
      cases hl
    · rw [h.fresh] at hmem
      cases hmem

theorem Coherent.agreed (h : Coherent c s) : s.Agreed c := by
  intro n hconn hquiet
  obtain ⟨x, hx⟩ := (s.client.connected_iff n).mp hconn
  have hfuture : s.future n = s.view n := View.foldl_of_not_relevant hquiet.2
  have hid : some (s.client.ID n) = some x := by
    rw [← hx, SioClient.held_eq, if_pos hconn]
  rw [hid]
  exact ((h.agrees n).held x (by rw [hfuture]; exact hx)).2

/-- In a run of proper steps, the client and the server agree on the socket of every
connected namespace for which nothing is under way. -/
theorem proper_agreed {s₀ : Exchange} {acts : List Act} (h₀ : Initial s₀)
    (hrun : Run (Exchange.step J c) (fun s a => s.Fresh a ∧ s.Proper c a) s₀ acts s) : s.Agreed c :=
  Coherent.agreed (hrun.invariant (Coherent c) (coherent_initial h₀)
    fun _ _ _ h hok hs => h.step hok.1 hok.2 hs)

end Steps

section NonVacuity

open NonVacuity

instance (c : ConnId) (s : Exchange) (a : Act) : Decidable (s.Proper c a) := by
  rcases a with _ | _ <;> dsimp only [Proper] <;> try infer_instance
  rcases s.tasks[_]? with _ | (_ | _) <;> infer_instance

def dial (i : ℕ) (id : SocketId) : List Act :=
  [Act.connectNsp defaultNamespace .null, .task i, .pop, .process id] ++ List.replicate 6 (Act.process [])

/-- The first call times out; its reply comes before the second call. -/
def patient : List Act := dial 0 [1] ++ [Act.timeout 0, .receive] ++ dial 1 [2] ++ [Act.receive]

theorem patient_runs : (exec (Exchange.step textJson 0) (fun s a => s.Fresh a ∧ s.Proper 0 a) quiet
    patient).isSome = true := by
  decide +kernel

theorem proper_agreed_patient :
    ((exec (Exchange.step textJson 0) (fun s a => s.Fresh a ∧ s.Proper 0 a) quiet
      patient).get patient_runs).server.attached 0 defaultNamespace = some [2] :=
  proper_agreed quiet_initial (run_of_isSome patient_runs) defaultNamespace (by decide +kernel)
    ⟨by decide +kernel, by decide +kernel⟩

/-- The reply to the first call comes when the second one waits. -/
def hasty : List Act :=
  dial 0 [1] ++ [Act.timeout 0, .connectNsp defaultNamespace .null, .task 1, .receive, .pop, .process [2]] ++
    List.replicate 6 (Act.process []) ++ [Act.receive]

theorem hasty_runs : (exec (Exchange.step textJson 0) Fresh quiet hasty).isSome = true := by
  decide +kernel

theorem late_reply_completes_retry : ¬ ∀ (J : Json) (c : ConnId) (s₀ s : Exchange) (acts : List Act),
    Initial s₀ → Run (Exchange.step J c) Fresh s₀ acts s → s.Agreed c := by
  intro h
  have hagreed := h textJson 0 quiet _ hasty quiet_initial (run_of_isSome hasty_runs) defaultNamespace
    (by decide +kernel) ⟨by decide +kernel, by decide +kernel⟩
  exact absurd hagreed (by decide +kernel)

end NonVacuity

end Gosocketio.Exchange

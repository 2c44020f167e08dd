import Gosocketio.Sanity.Goroutines
import Gosocketio.Spec.Exchange

/-! What the goroutines of the server put on the link to a client, and when they
start a goroutine for an acknowledgement. -/

namespace Gosocketio

namespace Server

variable {S : Server} {c d : ConnId} {fresh x : SocketId} {job : Job}

/-- The packets that jobs send: replies to a CONNECT, and the DISCONNECT of
`disconnectSocket`. -/
theorem next_send {p : Packet} (h : (S.next c fresh job).1 = some (.send d p)) :
    (∃ pkt, job = .process pkt ∧ pkt.type = .connect ∧ d = c ∧
        p = connectError pkt.nsp invalidNamespace) ∨
      (∃ id nsp, job = .enter .reply id nsp ∧ d = c ∧ p = connectReply nsp id) ∨
      (∃ id name msg, job = .refuse .reply id name msg ∧ d = c ∧ p = connectError name msg) ∨
      ∃ id reason s, job = .tear .notify id reason ∧ S.heap id = some s ∧ d = s.ec ∧
        p = { type := .disconnect, nsp := s.nsp } := by
  have hnext := next_spec S c fresh job
  rw [h] at hnext
  generalize (S.next c fresh job).2 = job' at hnext
  cases hnext with
  | answer ht => exact .inl ⟨_, rfl, ht, rfl, rfl⟩
  | reply => exact .inr (.inl ⟨_, _, rfl, rfl, rfl⟩)
  | error => exact .inr (.inr (.inl ⟨_, _, _, rfl, rfl, rfl⟩))
  | notify hs => exact .inr (.inr (.inr ⟨_, _, _, rfl, hs, rfl, rfl⟩))

/-- Only the packet of an acknowledgement leads to `acks.invoke`, on the socket that
its namespace has on the connection at that moment. -/
theorem next_invoke {ackId : ℤ} {data : List Value}
    (h : (S.next c fresh job).1 = some (.perform (.invoke x ackId data))) :
    ∃ pkt, job = .process pkt ∧ pkt.type = .ack ∧ ackId = pkt.id ∧ S.attached c pkt.nsp = some x := by
  have hnext := next_spec S c fresh job
  rw [h] at hnext
  generalize (S.next c fresh job).2 = job' at hnext
  cases hnext with
  | handle e hx he hevent hack => exact ⟨_, rfl, (hack _ _ _ rfl).1, (hack _ _ _ rfl).2, hx⟩

theorem next_process (S : Server) (c : ConnId) (fresh : SocketId) (pkt : Packet) :
    (pkt.type = .connect ∧
      (S.next c fresh (.process pkt) = (some (.send c (connectError pkt.nsp invalidNamespace)), .idle) ∨
        (S.next c fresh (.process pkt)).1 = some (.newSocket fresh (namespaceName pkt.nsp) c) ∧
          ((S.next c fresh (.process pkt)).2 = .enter .register fresh pkt.nsp ∨
            ∃ msg, (S.next c fresh (.process pkt)).2 =
              .refuse .unregister fresh (namespaceName pkt.nsp) msg))) ∨
      (pkt.type = .disconnect ∧ (S.next c fresh (.process pkt)).1 = none ∧
        ((S.next c fresh (.process pkt)).2 = .idle ∨ ∃ x, S.attached c pkt.nsp = some x ∧
          (S.next c fresh (.process pkt)).2 = .tear .check x "client namespace disconnect")) ∨
      (S.next c fresh (.process pkt)).2 = .idle ∧ ((S.next c fresh (.process pkt)).1 = none ∨
        ∃ e, (S.next c fresh (.process pkt)).1 = some (.perform e)) := by
  simp only [next, start]
  cases ht : pkt.type with
  | connect =>
    refine .inl ⟨rfl, ?_⟩
    cases S.namespaceLookup pkt.nsp with
    | none => exact .inl rfl
    | some ns =>
      refine .inr ⟨rfl, ?_⟩
      simp only
      cases runMiddlewares ns fresh (connectData pkt.data) with
      | none => exact .inl rfl
      | some msg => exact .inr ⟨msg, rfl⟩
  | disconnect =>
    refine .inr (.inl ⟨rfl, rfl, ?_⟩)
    cases hx : (S.conns c).sockets.lookup pkt.nsp with
    | none => exact .inl rfl
    | some x => exact .inr ⟨x, hx, rfl⟩
  | event =>
    refine .inr (.inr ?_)
    simp only
    split
    · exact ⟨rfl, .inr ⟨_, rfl⟩⟩
    · exact ⟨rfl, .inl rfl⟩
  | ack =>
    refine .inr (.inr ?_)
    simp only
    split
    · exact ⟨rfl, .inl rfl⟩
    · exact ⟨rfl, .inr ⟨_, rfl⟩⟩
  | _ => exact .inr (.inr ⟨rfl, .inl rfl⟩)

theorem next_ne_process (pkt : Packet) : (S.next c fresh job).2 ≠ .process pkt := by
  intro h
  have hnext := next_spec S c fresh job
  rw [h] at hnext
  generalize (S.next c fresh job).1 = l at hnext
  cases hnext

end Server

namespace Exchange

open Server (Job)

variable {c : ConnId} {o : Option ℕ} {l : Option Server.Section} {m : Message}

theorem mem_sent : m ∈ sent c o l ↔ l = some (.send c m.pkt) ∧ m.origin = o := by
  obtain ⟨pkt, origin⟩ := m
  cases l with
  | none => simp [sent]
  | some l =>
    cases l with
    | send d p =>
      simp only [sent]
      split_ifs with hd
      · subst hd
        simp only [List.mem_singleton, Message.mk.injEq, Option.some.injEq, Server.Section.send.injEq,
          true_and]
        constructor
        · rintro ⟨rfl, rfl⟩
          exact ⟨rfl, rfl⟩
        · rintro ⟨rfl, rfl⟩
          exact ⟨rfl, rfl⟩
      · simp [hd]
    | _ => simp [sent]

theorem mem_spawned {v : Invoke} :
    v ∈ spawned o l ↔ l = some (.perform (.invoke v.id v.ackId v.data)) ∧ v.origin = o := by
  obtain ⟨id, ackId, data, origin⟩ := v
  cases l with
  | none => simp [spawned]
  | some l =>
    cases l with
    | perform e =>
      cases e with
      | invoke x a xs =>
        simp only [spawned, List.mem_singleton, Invoke.mk.injEq, Option.some.injEq,
          Server.Section.perform.injEq, Effect.invoke.injEq]
        constructor
        · rintro ⟨rfl, rfl, rfl, rfl⟩
          exact ⟨⟨rfl, rfl, rfl⟩, rfl⟩
        · rintro ⟨⟨rfl, rfl, rfl⟩, rfl⟩
          exact ⟨rfl, rfl, rfl, rfl⟩
      | _ => simp [spawned]
    | _ => simp [spawned]

section Inversion

variable (J : Json) (c : ConnId) (s : Exchange)

/-- Everything a step can do. -/
inductive Does : Act → Exchange → Prop
  | pop {m rest} (hloop : s.loop = .idle) (hq : s.toServer = m :: rest) :
      Does .pop { s with loop := .process m.pkt, origin := m.origin, toServer := rest }
  | process (fresh : SocketId) : Does (.process fresh)
        { s.turn J c s.origin fresh s.loop with loop := (s.server.next c fresh s.loop).2 }
  | disconnect {id x} (hx : s.server.heap id = some x) : Does (.disconnect id)
        { s with tears := s.tears ++ [.tear .check id "server namespace disconnect"] }
  | tear {i job} (hjob : s.tears[i]? = some job) :
      Does (.tear i) { s.turn J c none [] job with tears := s.tears.set i (s.server.next c [] job).2 }
  | emitWithAck {id} (name : Bytes) (args : List Value)
      (hx : (s.server.heap id).any Socket.connected = true) :
      Does (.emitWithAck id name args) { s with emits := s.emits ++ [{ id, data := .str name :: args }] }
  | number {k e} (he : s.emits[k]? = some e) (hpc : e.pc = .next) : Does (.emit k) { s with
        tables := Function.update s.tables e.id (s.tables e.id).next.2
        emits := s.emits.set k { e with pc := .register (s.tables e.id).next.1 } }
  | register {k e id} (he : s.emits[k]? = some e) (hpc : e.pc = .register id) :
      Does (.emit k) { s with
        server := s.server.run J (.registerAck e.id id)
        tables := Function.update s.tables e.id ((s.tables e.id).register id (some k))
        emits := s.emits.set k { e with pc := .send id } }
  | send {k e id x} (he : s.emits[k]? = some e) (hpc : e.pc = .send id)
      (hx : s.server.heap e.id = some x) :
      Does (.emit k) { s with
        server := s.server.run J (.send x.ec (event x id e.data))
        toClient := s.toClient ++ sent c (some k) (some (.send x.ec (event x id e.data)))
        emits := s.emits.set k { e with pc := .done id } }
  | callback {i v k} (hv : s.invokes[i]? = some v) (hk : s.callback v.id v.ackId = some k) :
      Does (.invoke i) { s with
        server := s.server.run J (.takeAck v.id v.ackId)
        invoked := s.invoked ++ [{ callback := k, answers := v.origin, data := v.data }]
        invokes := s.invokes.eraseIdx i }
  | miss {i v} (hv : s.invokes[i]? = some v) (hk : s.callback v.id v.ackId = none) :
      Does (.invoke i) { s with invokes := s.invokes.eraseIdx i }
  | handleConnect {m rest} (hq : s.toClient = m :: rest) (ht : m.pkt.type = .connect) :
      Does .receive { s with toClient := rest, client := s.client.handleConnect m.pkt }
  | handleConnectError {m rest} (hq : s.toClient = m :: rest) (ht : m.pkt.type = .connectError) :
      Does .receive { s with toClient := rest, client := s.client.handleConnectError m.pkt }
  | handleDisconnect {m rest} (hq : s.toClient = m :: rest) (ht : m.pkt.type = .disconnect) :
      Does .receive { s with toClient := rest, client := s.client.handleDisconnect m.pkt }
  | handleEvent {m rest} (hq : s.toClient = m :: rest) (ht : m.pkt.type = .event) :
      Does .receive { s with toClient := rest, handling := s.handling ++ [m] }
  | ignore {m rest} (hq : s.toClient = m :: rest) (hc : m.pkt.type ≠ .connect)
      (he : m.pkt.type ≠ .connectError) (hd : m.pkt.type ≠ .disconnect) :
      Does .receive { s with toClient := rest }
  | respond {i m} (results : List Value) (hm : s.handling[i]? = some m) : Does (.respond i results)
        { s with handling := s.handling.eraseIdx i, toServer := s.toServer ++ [ack m results] }
  | connectNsp {nsp} (data : Value) (hn : nsp ≠ []) : Does (.connectNsp nsp data) { s with
        client := s.client.await nsp data s.tasks.length
        tasks := s.tasks ++ [.connect nsp data] }
  | disconnectNamespace (nsp : Bytes) : Does (.disconnectNamespace nsp) { s with
        client := s.client.leave nsp
        tasks := s.tasks ++ [.disconnect nsp (s.client.Connected nsp)] }
  | sendConnect {i nsp data} (ht : s.tasks[i]? = some (.connect nsp data)) : Does (.task i) { s with
        toServer := s.toServer ++ [{ pkt := { type := .connect, nsp, data }, origin := some i }]
        tasks := s.tasks.set i (.wait nsp) }
  | wake {i nsp} (ht : s.tasks[i]? = some (.wait nsp)) (hch : (s.client.chans i).isSome = true) :
      Does (.task i) { s with tasks := s.tasks.set i .done }
  | sendDisconnect {i nsp fire} (ht : s.tasks[i]? = some (.disconnect nsp fire)) :
      Does (.task i) { s with
        toServer := s.toServer ++
          [{ pkt := { type := .disconnect, nsp := Server.namespaceName nsp } }]
        client := s.client.start (if fire then [.disconnect nsp "io client disconnect"] else [])
        tasks := s.tasks.set i .done }
  | timeout {i nsp} (ht : s.tasks[i]? = some (.wait nsp)) :
      Does (.timeout i) { s with client := s.client.abandon nsp, tasks := s.tasks.set i .done }

variable {J c s} {s' : Exchange}

theorem does_receive {rest : List Message} (hq : s.toClient = m :: rest) :
    Does J c s .receive ({ s with toClient := rest }.clientProcess m) := by
  unfold clientProcess
  cases ht : m.pkt.type with
  | connect => exact .handleConnect hq ht
  | connectError => exact .handleConnectError hq ht
  | disconnect => exact .handleDisconnect hq ht
  | event =>
    have hignore : Does J c s .receive { s with toClient := rest } :=
      .ignore hq (by simp [ht]) (by simp [ht]) (by simp [ht])
    simp only
    split
    · split_ifs
      · exact .handleEvent hq ht
      · exact hignore
    · exact hignore
  | _ => exact .ignore hq (by simp [ht]) (by simp [ht]) (by simp [ht])

theorem does_invoke {i : ℕ} {v : Invoke} (hv : s.invokes[i]? = some v) :
    Does J c s (.invoke i) { s.runCallback v with invokes := s.invokes.eraseIdx i } := by
  unfold runCallback
  cases hk : s.callback v.id v.ackId with
  | none => exact .miss hv hk
  | some k => exact .callback hv hk

theorem does_emit {k : ℕ} {e : Emit} (he : s.emits[k]? = some e)
    (h : s.emitNext J c k e = some s') : Does J c s (.emit k) s' := by
  unfold emitNext at h
  cases hpc : e.pc with
  | next =>
    simp only [hpc, Option.some.injEq] at h
    exact h ▸ .number he hpc
  | register id =>
    simp only [hpc, Option.some.injEq] at h
    exact h ▸ .register he hpc
  | send id =>
    simp only [hpc, Option.map_eq_some_iff] at h
    obtain ⟨x, hx, rfl⟩ := h
    exact .send he hpc hx
  | done id => simp [hpc] at h

theorem mem_sent_event {k : ℕ} {x : Socket} {id : ℤ} {data : List Value}
    (hm : m ∈ sent c (some k) (some (.send x.ec (event x id data)))) :
    m.pkt = event x id data ∧ m.origin = some k := by
  obtain ⟨hl, ho⟩ := mem_sent.mp hm
  simp only [Option.some.injEq, Server.Section.send.injEq] at hl
  exact ⟨hl.2.symm, ho⟩

theorem step_does {a : Act} (h : s.step J c a = some s') : Does J c s a s' := by
  cases a with
  | pop =>
    simp only [step] at h
    split at h <;> cases h
    exact .pop ‹_› ‹_›
  | process fresh =>
    cases h
    exact .process fresh
  | disconnect id =>
    obtain ⟨x, hx, rfl⟩ := Option.map_eq_some_iff.mp h
    exact .disconnect hx
  | tear i =>
    obtain ⟨job, hjob, rfl⟩ := Option.map_eq_some_iff.mp h
    exact .tear hjob
  | emitWithAck id name args =>
    simp only [step] at h
    split_ifs at h with hx
    cases h
    exact .emitWithAck name args hx
  | emit k =>
    obtain ⟨e, he, h⟩ := Option.bind_eq_some_iff.mp h
    exact does_emit he h
  | invoke i =>
    obtain ⟨v, hv, rfl⟩ := Option.map_eq_some_iff.mp h
    exact does_invoke hv
  | receive =>
    simp only [step] at h
    split at h <;> cases h
    exact does_receive ‹_›
  | respond i results =>
    obtain ⟨m, hm, rfl⟩ := Option.map_eq_some_iff.mp h
    exact .respond results hm
  | connectNsp nsp data =>
    simp only [step] at h
    split_ifs at h with hn
    cases h
    exact .connectNsp data hn
  | disconnectNamespace nsp =>
    cases h
    exact .disconnectNamespace nsp
  | task i =>
    obtain ⟨t, ht, h⟩ := Option.bind_eq_some_iff.mp h
    cases t with
    | connect nsp data =>
      cases h
      exact .sendConnect ht
    | wait nsp =>
      simp only [taskNext] at h
      split_ifs at h with hch
      cases h
      exact .wake ht hch
    | disconnect nsp fire =>
      cases h
      exact .sendDisconnect ht
    | done => cases h
  | timeout i =>
    simp only [step] at h
    split at h <;> cases h
    exact .timeout ‹_›

end Inversion

end Exchange

end Gosocketio

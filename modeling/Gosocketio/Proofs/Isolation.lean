import Gosocketio.Proofs.Broadcast

/-! A frame of one connection leaves the other connections alone: their entries and
reconstructors, the registrations, flags and pending acknowledgements of their
sockets; and no handler runs for them. -/

namespace Gosocketio.Adapter

variable (a : Adapter) {id x : SocketId} (room : Bytes)

/-- `x` is an id of both adapters or of neither, and in the same rooms. -/
def SameFor (x : SocketId) (a b : Adapter) : Prop :=
  (x ∈ b.ids ↔ x ∈ a.ids) ∧ ∀ room, x ∈ b.members room ↔ x ∈ a.members room

theorem SameFor.refl (x : SocketId) (a : Adapter) : SameFor x a a := ⟨Iff.rfl, fun _ => Iff.rfl⟩

theorem SameFor.trans {a b c : Adapter} (h : SameFor x a b) (h' : SameFor x b c) : SameFor x a c :=
  ⟨h'.1.trans h.1, fun room => (h'.2 room).trans (h.2 room)⟩

theorem sameFor_addToRoom (hx : x ≠ id) : SameFor x a (a.addToRoom room id) := by
  refine ⟨Iff.rfl, fun r => ?_⟩
  rw [members_addToRoom]
  split_ifs with h
  · simp [h, hx]
  · rfl

theorem sameFor_addSocket (hx : x ≠ id) : SameFor x a (a.addSocket id) :=
  ⟨by simp [hx], (a.sameFor_addToRoom id hx).2⟩

theorem sameFor_removeSocket (hx : x ≠ id) : SameFor x a (a.removeSocket id) :=
  ⟨by simp [hx], fun r => by simp [hx]⟩

theorem sameFor_removeFromRoom (hx : x ≠ id) : SameFor x a (a.removeFromRoom room id) := by
  refine ⟨?_, fun r => ?_⟩
  · unfold removeFromRoom
    split <;> rfl
  · rw [members_removeFromRoom]
    split_ifs with h
    · simp [h, hx]
    · rfl

end Gosocketio.Adapter

namespace Gosocketio.Server

open Runs

variable {S S' S'' : Server} {J : Json} {c d : ConnId} {id x : SocketId} {name : Bytes}

/-- `S'` differs from `S` only in what belongs to the connection `c`. -/
structure OnlyBy (c : ConnId) (S S' : Server) : Prop where
  origin : ∀ x o, S.origin x = some o → S'.origin x = some o
  created : ∀ d x, d ≠ c → S'.Owns d x → S.Owns d x
  conns : ∀ d, d ≠ c → S'.conns d = S.conns d
  heap : ∀ d x, d ≠ c → S.Owns d x → S'.heap x = S.heap x
  sockets : ∀ d x, d ≠ c → S.Owns d x → ∀ n, (x ∈ S'.sockets n ↔ x ∈ S.sockets n)
  adapter : ∀ d x, d ≠ c → S.Owns d x → ∀ n, Adapter.SameFor x (S.adapter n) (S'.adapter n)
  effects : ∃ new, S'.effects = S.effects ++ new ∧ ∀ e ∈ new, S'.Owns c e.socket

theorem OnlyBy.owns (h : OnlyBy c S S') (hx : S.Owns d x) : S'.Owns d x :=
  hx.imp fun m hm => h.origin x (d, m) hm

theorem OnlyBy.trans (h : OnlyBy c S S') (h' : OnlyBy c S' S'') : OnlyBy c S S'' where
  origin x o hx := h'.origin x o (h.origin x o hx)
  created d x hd hx := h.created d x hd (h'.created d x hd hx)
  conns d hd := (h'.conns d hd).trans (h.conns d hd)
  heap d x hd hx := (h'.heap d x hd (h.owns hx)).trans (h.heap d x hd hx)
  sockets d x hd hx n := (h'.sockets d x hd (h.owns hx) n).trans (h.sockets d x hd hx n)
  adapter d x hd hx n := (h.adapter d x hd hx n).trans (h'.adapter d x hd (h.owns hx) n)
  effects := by
    obtain ⟨new, he, hnew⟩ := h.effects
    obtain ⟨new', he', hnew'⟩ := h'.effects
    refine ⟨new ++ new', by rw [he', he, List.append_assoc], fun e hmem => ?_⟩
    rcases List.mem_append.mp hmem with hmem | hmem
    · exact h'.owns (hnew e hmem)
    · exact hnew' e hmem

theorem ne_of_owns (hd : d ≠ c) (hx : S.Owns d x) (hid : S.Owns c id) : x ≠ id := by
  rintro rfl
  obtain ⟨m, hm⟩ := hx
  obtain ⟨m', hm'⟩ := hid
  rw [hm, Option.some.injEq, Prod.mk.injEq] at hm'
  exact hd hm'.1

theorem OnlyBy.refl (c : ConnId) (S : Server) : OnlyBy c S S :=
  ⟨fun _ _ h => h, fun _ _ _ h => h, fun _ _ => rfl, fun _ _ _ _ => rfl, fun _ _ _ _ _ => Iff.rfl,
    fun _ x _ _ _ => .refl x _, [], by simp, by simp⟩

theorem onlyBy_of_conns (hconns : ∀ d, d ≠ c → S'.conns d = S.conns d) (hheap : S'.heap = S.heap)
    (hnsps : S'.nsps = S.nsps) (heffects : S'.effects = S.effects) : OnlyBy c S S' := by
  have hsockets := sockets_congr hnsps
  have hadapter := adapter_congr hnsps
  have horigin (x : SocketId) : S'.origin x = S.origin x := by
    rw [Server.origin, hheap]
    rfl
  refine ⟨fun x o hx => ?_, fun d x _ hx => ?_, hconns, fun _ x _ _ => congrFun hheap x, fun _ x _ _ n => ?_,
    fun _ x _ _ n => ?_, [], ?_, by simp⟩
  · rw [horigin, hx]
  · rwa [Owns, horigin] at hx
  · rw [hsockets]
  · rw [hadapter]
    exact .refl x _
  · rw [heffects, List.append_nil]

theorem onlyBy_perform {e : Effect} (he : S.Owns c e.socket) : OnlyBy c S (S.perform e) :=
  { OnlyBy.refl c S with
    effects := ⟨[e], rfl, fun e' he' => by rw [List.mem_singleton.mp he']; exact he⟩ }

theorem onlyBy_modifySocket {f : Socket → Socket} (ho : S.Owns c id)
    (hf : ∀ s, (f s).ec = s.ec ∧ (f s).nsp = s.nsp) : OnlyBy c S (S.modifySocket id f) :=
  { OnlyBy.refl c S with
    origin := fun x o hx => by rw [origin_modifySocket S id x f hf, hx]
    created := fun _ x _ hx => by rwa [Owns, origin_modifySocket S id x f hf] at hx
    heap := fun _ _ hd hx => Function.update_of_ne (ne_of_owns hd hx ho) _ _
    effects := ⟨[], (List.append_nil _).symm, nofun⟩ }

theorem onlyBy_newSocket (hid : S.heap id = none) : OnlyBy c S (S.newSocket id name c) :=
  { OnlyBy.refl c S with
    origin := fun _ _ hx => origin_newSocket_of_some hid hx
    created := fun d x hd hx => by
      rw [Owns, origin_newSocket] at hx
      split_ifs at hx
      · obtain ⟨m, hm⟩ := hx
        exact absurd (Prod.mk.inj (Option.some.inj hm)).1.symm hd
      · exact hx
    heap := fun _ x _ hx => by
      refine Function.update_of_ne ?_ _ _
      rintro rfl
      obtain ⟨m, hm⟩ := hx
      rw [origin_eq_none.mpr hid] at hm
      cases hm
    effects := ⟨[], (List.append_nil _).symm, nofun⟩ }

theorem onlyBy_modifyNsp {f : Namespace → Namespace} (ho : S.Owns c id)
    (hs : ∀ x ns, x ≠ id → (x ∈ (f ns).sockets ↔ x ∈ ns.sockets))
    (ha : ∀ x ns, x ≠ id → Adapter.SameFor x ns.adapter (f ns).adapter) :
    OnlyBy c S (S.modifyNsp name f) := by
  refine { OnlyBy.refl c S with sockets := fun d x hd hx n => ?_, adapter := fun d x hd hx n => ?_ }
  · unfold Server.sockets
    rw [nsps_modifyNsp]
    split_ifs
    · cases S.nsps n with
      | none => rfl
      | some ns => exact hs x ns (ne_of_owns hd hx ho)
    · rfl
  · unfold Server.adapter
    rw [nsps_modifyNsp]
    split_ifs
    · cases S.nsps n with
      | none => exact .refl x _
      | some ns => exact ha x ns (ne_of_owns hd hx ho)
    · exact .refl x _

theorem onlyBy_modifyAdapter {f : Adapter → Adapter} (ho : S.Owns c id)
    (ha : ∀ x a, x ≠ id → Adapter.SameFor x a (f a)) :
    OnlyBy c S (S.modifyNsp name fun n => { n with adapter := f n.adapter }) :=
  onlyBy_modifyNsp ho (fun _ _ _ => Iff.rfl) fun x ns hx => ha x ns.adapter hx

theorem onlyBy_run {l : Section} (hl : By c S l) : OnlyBy c S (S.run J l) := by
  obtain ⟨hok, hof⟩ := hl
  cases l with
  | newSocket id name d =>
    obtain rfl : d = c := hof
    exact onlyBy_newSocket hok
  | register | unregister =>
    exact onlyBy_modifyNsp hof (fun x ns hx => by simp [hx]) fun x ns _ => .refl x _
  | join name id => exact onlyBy_modifyAdapter hof fun x a hx => a.sameFor_addSocket hx
  | leave name id => exact onlyBy_modifyAdapter hof fun x a hx => a.sameFor_removeSocket hx
  | setConnected | registerAck | takeAck | clearAcks => exact onlyBy_modifySocket hof fun _ => ⟨rfl, rfl⟩
  | attach d | detach d | push d | pop d | reconstruct d | send d | closeQueue d | clearSockets d =>
    obtain rfl : d = c := hof
    exact onlyBy_of_conns (fun _ hd => Function.update_of_ne hd _ _) rfl rfl rfl
  | perform e => exact onlyBy_perform hof
  | joinRoom id room =>
    simp only [Server.run, joinRoom]
    cases S.heap id with
    | none => exact OnlyBy.refl c S
    | some s => exact onlyBy_modifyAdapter hof fun x a hx => a.sameFor_addToRoom room hx
  | leaveRoom id room =>
    simp only [Server.run, leaveRoom]
    cases S.heap id with
    | none => exact OnlyBy.refl c S
    | some s => exact onlyBy_modifyAdapter hof fun x a hx => a.sameFor_removeFromRoom room hx
  | enter | remove | reader => exact absurd hof id

theorem onlyBy_of_reaches (h : Reaches (step J) (By c) S S') : OnlyBy c S S' :=
  h.invariant (OnlyBy c S) (OnlyBy.refl c S) fun _ _ _ hI hl hs =>
    Option.some.inj hs ▸ hI.trans (onlyBy_run hl)

/-- A frame that comes in on one connection, in whatever state the sections of calls
in progress have left the server, leaves every other connection alone. -/
theorem handleIn_isolated (hS : Interleaved J S) (p : InPacket) (id : SocketId)
    (hid : S.heap id = none) (hd : d ≠ c) :
    (S.handleIn J c p id).recon d = S.recon d ∧
    ((S.handleIn J c p id).conns d).sockets = (S.conns d).sockets ∧
    (∀ x, (S.handleIn J c p id).Owns d x ↔ S.Owns d x) ∧
    (∀ x, S.Owns d x → (∀ n, (x ∈ (S.handleIn J c p id).sockets n ↔ x ∈ S.sockets n) ∧
        (x ∈ ((S.handleIn J c p id).adapter n).ids ↔ x ∈ (S.adapter n).ids) ∧
        ∀ room, x ∈ ((S.handleIn J c p id).adapter n).members room ↔
          x ∈ (S.adapter n).members room) ∧
      ((S.handleIn J c p id).heap x).map Socket.connected = (S.heap x).map Socket.connected ∧
      ((S.handleIn J c p id).heap x).map Socket.acks = (S.heap x).map Socket.acks) ∧
    ∃ new, (S.handleIn J c p id).effects = S.effects ++ new ∧
      ∀ e ∈ new, ¬ (S.handleIn J c p id).Owns d e.socket := by
  have h : OnlyBy c S (S.handleIn J c p id) := onlyBy_of_reaches (handleIn_by J hS.attributed hid)
  obtain ⟨new, heffects, hnew⟩ := h.effects
  refine ⟨?_, ?_, fun x => ⟨h.created d x hd, h.owns⟩, fun x hx => ⟨fun n => ?_, ?_, ?_⟩, new,
    heffects, fun e he hown => ?_⟩
  · rw [Server.recon, h.conns d hd]
    rfl
  · rw [h.conns d hd]
  · exact ⟨h.sockets d x hd hx n, h.adapter d x hd hx n⟩
  · rw [h.heap d x hd hx]
  · rw [h.heap d x hd hx]
  · exact ne_of_owns hd hown (hnew e he) rfl

open NonVacuity in
/-- Two connections are in the default namespace, and one sends a DISCONNECT. -/
theorem handleIn_isolated_disconnect :
    [1] ∉ ((arrived 3).handleIn textJson 0 disconnectText [3]).sockets defaultNamespace ∧
    [2] ∈ ((arrived 3).handleIn textJson 0 disconnectText [3]).sockets defaultNamespace := by
  have h := handleIn_isolated (d := 1) (c := 0) arrived_three_reachable.interleaved
    disconnectText [3] (by decide +kernel) (by decide)
  have howns : (arrived 3).Owns 1 [2] := ⟨defaultNamespace, by decide +kernel⟩
  exact ⟨by decide +kernel, ((h.2.2.2.1 [2] howns).1 defaultNamespace).1.mpr (by decide +kernel)⟩

end Gosocketio.Server

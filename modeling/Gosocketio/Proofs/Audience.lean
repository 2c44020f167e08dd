import Gosocketio.Proofs.Isolation

/-! A broadcast reaches exactly its audience. The ids of the targets come from the
adapter, the sockets behind them from the namespace, and `Emit` asks whether the socket
is connected. Who is in a room is told by the calls so far. -/

namespace Gosocketio.Server

open Runs Adapter

section Moves

variable {S S' S'' : Server} {J : Json} {c : ConnId} {id x : SocketId} {name n : Bytes}

/-- Sockets leave, and nothing changes for those that stay. -/
structure Departs (S S' : Server) : Prop where
  stays : ∀ n x, x ∈ S'.sockets n → x ∈ S.sockets n ∧ SameFor x (S.adapter n) (S'.adapter n)
  has : ∀ n x, (S'.adapter n).Has x → (S.adapter n).Has x
  origin : ∀ x o, S.origin x = some o → S'.origin x = some o

/-- A socket enters its namespace and is in no room but its own. -/
structure Arrives (S S' : Server) (name : Bytes) (id : SocketId) : Prop where
  stays : ∀ n x, x ∈ S'.sockets n →
    x ∈ S.sockets n ∧ SameFor x (S.adapter n) (S'.adapter n) ∨ n = name ∧ x = id
  new : id ∉ S.sockets name
  ids : id ∈ (S'.adapter name).ids
  members : ∀ room, id ∈ (S'.adapter name).members room ↔ room = id
  has : ∀ n x, (S'.adapter n).Has x → (S.adapter n).Has x ∨ n = name ∧ x = id
  origin : ∀ x o, S.origin x = some o → S'.origin x = some o
  created : ∃ c, S'.origin id = some (c, name)

theorem Departs.trans (h : Departs S S') (h' : Departs S' S'') : Departs S S'' where
  stays n x hx := by
    obtain ⟨hx, hsame⟩ := h'.stays n x hx
    obtain ⟨hx, hsame'⟩ := h.stays n x hx
    exact ⟨hx, hsame'.trans hsame⟩
  has n x hx := h.has n x (h'.has n x hx)
  origin x o ho := h'.origin x o (h.origin x o ho)

theorem departs_of_nsps (hnsps : S'.nsps = S.nsps)
    (ho : ∀ x o, S.origin x = some o → S'.origin x = some o) : Departs S S' := by
  have hsockets := sockets_congr hnsps
  have hadapter := adapter_congr hnsps
  refine ⟨fun n x hx => ?_, fun n x hx => ?_, ho⟩
  · rw [hsockets] at hx
    rw [hadapter]
    exact ⟨hx, .refl x _⟩
  · rwa [hadapter] at hx

theorem Departs.refl (S : Server) : Departs S S := departs_of_nsps rfl fun _ _ h => h

theorem Same.departs (h : Same S S') : Departs S S' :=
  departs_of_nsps h.nsps fun x o ho => by rwa [h.origin]

theorem Dropped.departs (h : Dropped S S' c name id) : Departs S S' where
  stays n x hx := by
    rw [h.sockets] at hx
    rw [h.adapter]
    split_ifs at hx ⊢ with hn
    · obtain ⟨hne, hx⟩ := Finset.mem_erase.mp hx
      exact ⟨hx, sameFor_removeSocket _ hne⟩
    · exact ⟨hx, .refl x _⟩
  has n x hx := by
    rw [h.adapter] at hx
    split_ifs at hx
    · exact ((has_removeSocket ..).mp hx).2
    · exact hx
  origin x o ho := by rwa [h.origin]

theorem Arrives.same (h : Arrives S S' name id) (hs : Same S' S'') : Arrives S S'' name id where
  stays n x hx := by
    rw [hs.sockets] at hx
    rw [hs.adapter]
    exact h.stays n x hx
  new := h.new
  ids := by
    rw [hs.adapter]
    exact h.ids
  members room := by
    rw [hs.adapter]
    exact h.members room
  has n x hx := by
    rw [hs.adapter] at hx
    exact h.has n x hx
  origin x o ho := by
    rw [hs.origin]
    exact h.origin x o ho
  created := by
    rw [hs.origin]
    exact h.created

theorem Arrives.drop (h : Arrives S S' name id) (hd : Dropped S' S'' c name id) : Departs S S'' where
  stays n x hx := by
    obtain ⟨hx', hsame'⟩ := hd.departs.stays n x hx
    rcases h.stays n x hx' with ⟨hx₀, hsame⟩ | ⟨rfl, rfl⟩
    · exact ⟨hx₀, hsame.trans hsame'⟩
    · rw [hd.sockets, if_pos rfl] at hx
      exact absurd rfl (Finset.mem_erase.mp hx).1
  has n x hx := by
    rcases h.has n x (hd.departs.has n x hx) with hx₀ | ⟨rfl, rfl⟩
    · exact hx₀
    · rw [hd.adapter, if_pos rfl] at hx
      exact absurd rfl ((has_removeSocket ..).mp hx).1
  origin x o ho := hd.departs.origin x o (h.origin x o ho)

theorem departs_disconnectSocket (S : Server) (id : SocketId) (reason : String) :
    Departs S (S.disconnectSocket J id reason) := by
  cases ho : S.origin id with
  | none =>
    rw [disconnectSocket, origin_eq_none.mp ho]
    exact .refl S
  | some o =>
    obtain ⟨c, name⟩ := o
    by_cases hid : id ∈ S.sockets name
    · exact (dropped_disconnectSocket J c name id reason ho hid).departs
    · rw [disconnectSocket_of_notMem J c name id reason ho hid]
      exact .refl S

theorem departs_disconnects (reason : String) (order : List SocketId) (S : Server) :
    Departs S (order.foldl (fun S id => S.disconnectSocket J id reason) S) := by
  induction order generalizing S with
  | nil => exact .refl S
  | cons id order ih => exact (departs_disconnectSocket S id reason).trans (ih _)

theorem departs_onEngineClose (S : Server) (es : EngineId) (reason : String) (order : List SocketId) :
    Departs S (S.onEngineClose J es reason order) := by
  unfold onEngineClose
  cases S.engines es with
  | none => exact .refl S
  | some c =>
    refine Departs.trans ?_ (departs_disconnects _ order _)
    exact departs_of_nsps rfl fun _ _ ho => ho

theorem departs_newSocket (hid : S.heap id = none) : Departs S (S.newSocket id name c) :=
  departs_of_nsps rfl fun _ _ ho => origin_newSocket_of_some hid ho

theorem arrives_addSocket (nsp : Bytes) (hid : S.heap id = none) (hnew : id ∉ S.sockets name)
    (hhas : ¬ (S.adapter name).Has id) (hknown : S.known name = true) :
    Arrives S (((S.newSocket id name c).addSocket name id).attach c nsp id) name id := by
  set S' := ((S.newSocket id name c).addSocket name id).attach c nsp id
  have hsockets (n : Bytes) : S'.sockets n =
      if n = name then insert id (S.sockets n) else S.sockets n := by
    change (((S.newSocket id name c).register name id).join name id).sockets n = _
    rw [sockets_join, sockets_register]
    by_cases hn : n = name
    · subst hn
      rw [if_pos ⟨rfl, hknown⟩, if_pos rfl]
      rfl
    · rw [if_neg fun hc => hn hc.1, if_neg hn]
      rfl
  have hadapter (n : Bytes) : S'.adapter n =
      if n = name then (S.adapter n).addSocket id else S.adapter n := by
    change (((S.newSocket id name c).register name id).join name id).adapter n = _
    rw [adapter_join, adapter_register, known_register]
    by_cases hn : n = name
    · subst hn
      rw [if_pos ⟨rfl, hknown⟩, if_pos rfl]
      rfl
    · rw [if_neg fun hc => hn hc.1, if_neg hn]
      rfl
  refine ⟨fun n x hx => ?_, hnew, ?_, fun room => ?_, fun n x hx => ?_,
    fun x o ho => origin_newSocket_of_some hid ho, c, ?_⟩
  · rw [hsockets] at hx
    rw [hadapter]
    split_ifs at hx ⊢ with hn
    · by_cases hx' : x = id
      · exact .inr ⟨hn, hx'⟩
      · exact .inl ⟨Finset.mem_of_mem_insert_of_ne hx hx', sameFor_addSocket _ hx'⟩
    · exact .inl ⟨hx, .refl x _⟩
  · rw [hadapter, if_pos rfl]
    exact Finset.mem_insert_self id _
  · have hno : id ∉ (S.adapter name).members room := fun hmem => hhas (.inr ⟨room, hmem⟩)
    rw [hadapter, if_pos rfl]
    change id ∈ ((S.adapter name).addToRoom id id).members room ↔ _
    rw [members_addToRoom]
    split_ifs with hr
    · exact iff_of_true (Finset.mem_insert_self id _) hr
    · exact iff_of_false hno hr
  · rw [hadapter] at hx
    split_ifs at hx with hn
    · rcases (has_addSocket ..).mp hx with hx | hx
      · exact .inr ⟨hn, hx⟩
      · exact .inl hx
    · exact .inl hx
  · exact (origin_newSocket ..).trans (if_pos rfl)

/-- What a call other than `JoinRoom` and `LeaveRoom` can do to the namespaces. -/
def Turns (S S' : Server) : Prop := Departs S S' ∨ ∃ name id, Arrives S S' name id

theorem turns_handleConnect {pkt : Packet} (hid : S.heap id = none) (hnew : ∀ n, id ∉ S.sockets n)
    (hhas : ∀ n, ¬ (S.adapter n).Has id) : Turns S (S.handleConnect J c pkt id) := by
  unfold handleConnect namespaceLookup
  set name := namespaceName pkt.nsp
  cases hns : S.nsps name with
  | none => exact .inl (same_sendPacket J c _).departs
  | some ns =>
    have hknown : S.known name = true := by rw [known, hns]; rfl
    simp only
    cases runMiddlewares ns id (connectData pkt.data) with
    | some err => exact .inl ((departs_newSocket hid).trans (dropped_rejectConnect J c name id err).departs)
    | none =>
      have harr := (arrives_addSocket (c := c) pkt.nsp hid (hnew name) (hhas name) hknown).same
        (same_setConnected id true)
      cases runConnect ns id with
      | some err => exact .inl (harr.drop (dropped_rejectConnect J c name id err))
      | none => exact .inr ⟨name, id, harr.same (same_sendPacket J c _)⟩

theorem Departs.turns (h : Departs S S') : Turns S S' := .inl h

theorem turns_process {pkt : Packet} (hid : S.heap id = none) (hnew : ∀ n, id ∉ S.sockets n)
    (hhas : ∀ n, ¬ (S.adapter n).Has id) : Turns S (S.process J c pkt id) := by
  unfold process
  cases pkt.type with
  | connect => exact turns_handleConnect hid hnew hhas
  | disconnect =>
    refine Departs.turns ?_
    simp only [handleDisconnect]
    split
    · exact .refl S
    · exact departs_disconnectSocket S _ _
  | event =>
    refine Departs.turns ?_
    simp only [handleEvent]
    split
    · exact (same_perform _).departs
    · exact .refl S
  | ack =>
    refine Departs.turns ?_
    simp only [handleAck]
    split
    · exact .refl S
    · exact (same_perform _).departs
  | connectError | binaryEvent | binaryAck => exact Departs.turns (.refl S)

theorem turns_handleIn {p : InPacket} (hid : S.heap id = none) (hnew : ∀ n, id ∉ S.sockets n)
    (hhas : ∀ n, ¬ (S.adapter n).Has id) : Turns S (S.handleIn J c p id) := by
  unfold handleIn
  generalize Gosocketio.handleIn J (S.conns c).recon p = r
  obtain ⟨recon, pkt⟩ := r
  cases pkt with
  | none => exact Departs.turns (departs_of_nsps rfl fun _ _ ho => ho)
  | some pkt =>
    -- the reconstructor is no part of what `Turns` speaks of
    have h : Turns (S.modifyConn c fun ec => { ec with recon })
        ((S.modifyConn c fun ec => { ec with recon }).process J c pkt id) :=
      turns_process hid hnew hhas
    rcases h with h | ⟨name, id, h⟩
    · exact .inl { h with }
    · exact .inr ⟨name, id, h.stays, h.new, h.ids, h.members, h.has, h.origin, h.created⟩

end Moves

section Rooms

variable {S S' : Server} {J : Json} {id x : SocketId} {name n room : Bytes}

theorem known_of_mem (hx : x ∈ S.sockets n) : S.known n = true := by
  unfold sockets at hx
  unfold known
  cases hn : S.nsps n with
  | none => simp [hn] at hx
  | some ns => rfl

/-- The socket `id` changes its rooms by `f`, which does nothing to another socket. -/
structure Moves (S S' : Server) (id : SocketId) (f : Adapter → Adapter) : Prop where
  sockets : ∀ n, S'.sockets n = S.sockets n
  heap : S'.heap = S.heap
  other : ∀ n x, x ≠ id → SameFor x (S.adapter n) (S'.adapter n)
  own : ∀ n, Consistent S n → id ∈ S.sockets n → S'.adapter n = f (S.adapter n)
  has : ∀ n x, (S'.adapter n).Has x → (S.adapter n).Has x ∨ x = id ∧ S.heap id ≠ none

theorem moves_modifyAdapter {f : Adapter → Adapter} (hf : ∀ x a, x ≠ id → SameFor x a (f a)) :
    Moves S ((S.heap id).elim S fun s => S.modifyNsp s.nsp fun n => { n with adapter := f n.adapter })
      id f := by
  cases hs : S.heap id with
  | none =>
    refine ⟨fun _ => rfl, rfl, fun n x _ => .refl x _, fun n hc hid => ?_, fun n x hx => .inl hx⟩
    obtain ⟨c, ho⟩ := hc id hid
    rw [origin_eq_none.mpr hs] at ho
    cases ho
  | some s =>
    simp only [Option.elim_some]
    refine ⟨fun n => sockets_modifyAdapter f, rfl, fun n x hx => ?_, fun n hc hid => ?_, fun n x hx => ?_⟩
    · rw [adapter_modifyAdapter]
      split_ifs
      · exact hf x _ hx
      · exact .refl x _
    · obtain ⟨c, ho⟩ := hc id hid
      obtain ⟨s', hs', -, hnsp⟩ := origin_eq_some.mp ho
      obtain rfl : s = s' := Option.some.inj (hs.symm.trans hs')
      rw [adapter_modifyAdapter, if_pos ⟨hnsp.symm, known_of_mem hid⟩]
    · by_cases hne : x = id
      · exact .inr ⟨hne, by rw [hs]; nofun⟩
      · rw [adapter_modifyAdapter] at hx
        split_ifs at hx
        · obtain ⟨hids, hmembers⟩ := hf x (S.adapter n) hne
          rcases hx with hx | ⟨room, hx⟩
          · exact .inl (.inl (hids.mp hx))
          · exact .inl (.inr ⟨room, (hmembers room).mp hx⟩)
        · exact .inl hx

theorem moves_joinRoom (S : Server) (id : SocketId) (room : Bytes) :
    Moves S (S.joinRoom id room) id (·.addToRoom room id) :=
  moves_modifyAdapter fun _ a hx => a.sameFor_addToRoom room hx

theorem moves_leaveRoom (S : Server) (id : SocketId) (room : Bytes) :
    Moves S (S.leaveRoom id room) id (·.removeFromRoom room id) :=
  moves_modifyAdapter fun _ a hx => a.sameFor_removeFromRoom room hx

end Rooms

section Deliveries

variable (J : Json) (name event : Bytes) (S : Server)

theorem deliver_cases (id : SocketId) (args : List Value) :
    S.deliver J name event id args = (S, []) ∨ ∃ s pkt, S.heap id = some s ∧
      S.deliver J name event id args =
        (S.sendPacket J s.ec pkt, (Gosocketio.sendPacket J pkt S.readers).1) := by
  unfold deliver emit
  cases S.nsps name with
  | none => exact .inl rfl
  | some ns =>
    cases S.heap id with
    | none => exact .inl (ite_self _)
    | some s =>
      simp only
      split_ifs
      · exact .inr ⟨s, _, rfl, rfl⟩
      · exact .inl rfl
      · exact .inl rfl

theorem deliver_tables (id : SocketId) (args : List Value) :
    (S.deliver J name event id args).1.nsps = S.nsps ∧
    (S.deliver J name event id args).1.heap = S.heap := by
  rcases deliver_cases J name event S id args with h | ⟨s, pkt, -, h⟩ <;> rw [h] <;> exact ⟨rfl, rfl⟩

theorem broadcast_tables (targets : List (SocketId × List Value)) :
    (S.broadcast J name event targets).1.nsps = S.nsps ∧
    (S.broadcast J name event targets).1.heap = S.heap := by
  induction targets generalizing S with
  | nil => exact ⟨rfl, rfl⟩
  | cons t targets ih =>
    obtain ⟨id, args⟩ := t
    obtain ⟨hnsps, hheap⟩ := deliver_tables J name event S id args
    obtain ⟨hnsps', hheap'⟩ := ih (S.deliver J name event id args).1
    exact ⟨hnsps'.trans hnsps, hheap'.trans hheap⟩

theorem live_broadcast (targets : List (SocketId × List Value)) :
    (S.broadcast J name event targets).1.Live name = S.Live name := by
  obtain ⟨hnsps, hheap⟩ := broadcast_tables J name event S targets
  funext x
  rw [Live, Live, hnsps, hheap]

theorem broadcast_append (pre targets : List (SocketId × List Value)) :
    (S.broadcast J name event (pre ++ targets)).2 = (S.broadcast J name event pre).2 ++
      ((S.broadcast J name event pre).1.broadcast J name event targets).2 := by
  induction pre generalizing S with
  | nil => rfl
  | cons t pre ih => exact congrArg _ (ih (S.deliver J name event t.1 t.2).1)

theorem broadcast_fst (targets : List (SocketId × List Value)) :
    (S.broadcast J name event targets).2.map Prod.fst = targets.map Prod.fst := by
  induction targets generalizing S with
  | nil => rfl
  | cons t targets ih => exact congrArg _ (ih (S.deliver J name event t.1 t.2).1)

theorem out_deliver (id : SocketId) (args : List Value) (c : ConnId) :
    ((S.deliver J name event id args).1.conns c).out = (S.conns c).out ++
      if (S.heap id).any (fun s => s.ec = c) then (S.deliver J name event id args).2 else [] := by
  rcases deliver_cases J name event S id args with h | ⟨s, pkt, hs, h⟩
  · rw [h, ite_self, List.append_nil]
  · rw [h, hs, Option.any_some]
    by_cases hc : c = s.ec
    · rw [if_pos (decide_eq_true hc.symm), hc]
      simp only [Server.sendPacket, modifyConn, Function.update_self]
    · rw [if_neg (mt of_decide_eq_true (Ne.symm hc)), List.append_nil]
      simp only [Server.sendPacket, modifyConn, Function.update_of_ne hc]

theorem out_broadcast (targets : List (SocketId × List Value)) (c : ConnId) :
    ((S.broadcast J name event targets).1.conns c).out = (S.conns c).out ++
      ((S.broadcast J name event targets).2.filter fun t =>
        (S.heap t.1).any fun s => s.ec = c).flatMap Prod.snd := by
  induction targets generalizing S with
  | nil => exact (List.append_nil _).symm
  | cons t targets ih =>
    obtain ⟨id, args⟩ := t
    have hheap := (deliver_tables J name event S id args).2
    have htail := ih (S.deliver J name event id args).1
    rw [hheap, out_deliver, List.append_assoc] at htail
    refine htail.trans (congrArg _ ?_)
    simp only [broadcast, List.filter_cons]
    split_ifs <;> rfl

theorem live_iff (id : SocketId) :
    S.Live name id = true ↔ id ∈ S.sockets name ∧ (S.heap id).any Socket.connected = true := by
  unfold Live sockets
  cases S.nsps name with
  | none | some => simp

end Deliveries

/-- A server, and who is in which room of a namespace by the calls so far: a socket
enters the room named after its id with the namespace, and the others with `JoinRoom`. -/
structure Roll where
  server : Server
  member : Bytes → Bytes → SocketId → Prop

namespace Roll

/-- Those who are still there are in the rooms they were in, and the others have just
come in. -/
def carry (R : Roll) (S' : Server) (n room : Bytes) (id : SocketId) : Prop :=
  id ∈ S'.sockets n ∧ if id ∈ R.server.sockets n then R.member n room id else room = id

def enroll (R : Roll) (S' : Server) : Call → Bytes → Bytes → SocketId → Prop
  | .joinRoom x r => fun n room id =>
    id ∈ S'.sockets n ∧ ((x = id ∧ r = room) ∨ R.member n room id)
  | .leaveRoom x r => fun n room id =>
    id ∈ S'.sockets n ∧ ¬ (x = id ∧ r = room) ∧ R.member n room id
  | _ => R.carry S'

def step (J : Json) (R : Roll) (l : Call) : Option Roll :=
  (R.server.call J l).map fun S' => ⟨S', R.enroll S' l⟩

structure Blank (R : Roll) : Prop where
  sockets : ∀ n, R.server.sockets n = ∅
  adapter : ∀ n, R.server.adapter n = {}

/-- What keeps the adapters and the calls in agreement on the registered sockets. -/
structure Agrees (R : Roll) : Prop where
  home : ∀ n, Consistent R.server n
  bound : ∀ n x, (R.server.adapter n).Has x → R.server.heap x ≠ none
  ids : ∀ n x, x ∈ R.server.sockets n → x ∈ (R.server.adapter n).ids
  members : ∀ n x room, x ∈ R.server.sockets n →
    (x ∈ (R.server.adapter n).members room ↔ R.member n room x)

variable {R R' : Roll} {S' : Server} {J : Json} {l : Call} {id : SocketId} {room : Bytes}

theorem heap_ne_none {S S' : Server} {x : SocketId} (ho : ∀ x o, S.origin x = some o → S'.origin x = some o)
    (hx : S.heap x ≠ none) : S'.heap x ≠ none := by
  rw [ne_eq, ← origin_eq_none] at hx ⊢
  obtain ⟨o, hx⟩ := Option.ne_none_iff_exists'.mp hx
  rw [ho x o hx]
  nofun

theorem Agrees.departs (h : Agrees R) (hd : Departs R.server S') : Agrees ⟨S', R.carry S'⟩ where
  home n x hx := by
    obtain ⟨c, hc⟩ := h.home n x (hd.stays n x hx).1
    exact ⟨c, hd.origin x _ hc⟩
  bound n x hx := heap_ne_none hd.origin (h.bound n x (hd.has n x hx))
  ids n x hx := by
    obtain ⟨hx₀, hsame⟩ := hd.stays n x hx
    exact hsame.1.mpr (h.ids n x hx₀)
  members n x room hx := by
    obtain ⟨hx₀, hsame⟩ := hd.stays n x hx
    refine Iff.trans ?_ (and_iff_right hx).symm
    rw [if_pos hx₀]
    exact (hsame.2 room).trans (h.members n x room hx₀)

theorem Agrees.arrives {name : Bytes} (h : Agrees R) (ha : Arrives R.server S' name id) :
    Agrees ⟨S', R.carry S'⟩ where
  home n x hx := by
    rcases ha.stays n x hx with ⟨hx₀, -⟩ | ⟨rfl, rfl⟩
    · obtain ⟨c, hc⟩ := h.home n x hx₀
      exact ⟨c, ha.origin x _ hc⟩
    · exact ha.created
  bound n x hx := by
    rcases ha.has n x hx with hx | ⟨rfl, rfl⟩
    · exact heap_ne_none ha.origin (h.bound n x hx)
    · obtain ⟨c, hc⟩ := ha.created
      rw [ne_eq, ← origin_eq_none, hc]
      nofun
  ids n x hx := by
    rcases ha.stays n x hx with ⟨hx₀, hsame⟩ | ⟨rfl, rfl⟩
    · exact hsame.1.mpr (h.ids n x hx₀)
    · exact ha.ids
  members n x room hx := by
    refine Iff.trans ?_ (and_iff_right hx).symm
    rcases ha.stays n x hx with ⟨hx₀, hsame⟩ | ⟨rfl, rfl⟩
    · rw [if_pos hx₀]
      exact (hsame.2 room).trans (h.members n x room hx₀)
    · rw [if_neg ha.new]
      exact ha.members room

theorem Agrees.turns (h : Agrees R) (ht : Turns R.server S') : Agrees ⟨S', R.carry S'⟩ := by
  rcases ht with hd | ⟨name, id, ha⟩
  · exact h.departs hd
  · exact h.arrives ha

theorem Agrees.moves {f : Adapter → Adapter} (h : Agrees R) (hm : Moves R.server S' id f)
    (hids : ∀ a : Adapter, (f a).ids = a.ids)
    (hother : ∀ n room x, x ≠ id → (R.enroll S' l n room x ↔ x ∈ S'.sockets n ∧ R.member n room x))
    (hown : ∀ n room, id ∈ S'.sockets n →
      (id ∈ (f (R.server.adapter n)).members room ↔ R.enroll S' l n room id)) :
    Agrees ⟨S', R.enroll S' l⟩ where
  home n x hx := by
    rw [hm.sockets] at hx
    obtain ⟨c, hc⟩ := h.home n x hx
    exact ⟨c, by rwa [Server.origin, hm.heap]⟩
  bound n x hx := by
    simp only [hm.heap]
    rcases hm.has n x hx with hx | ⟨rfl, hx⟩
    · exact h.bound n x hx
    · exact hx
  ids n x hx := by
    simp only [hm.sockets] at hx
    by_cases hne : x = id
    · subst hne
      rw [hm.own n (h.home n) hx, hids]
      exact h.ids n x hx
    · exact (hm.other n x hne).1.mpr (h.ids n x hx)
  members n x room hx := by
    have hx₀ := hx
    simp only [hm.sockets] at hx₀
    by_cases hne : x = id
    · subst hne
      rw [hm.own n (h.home n) hx₀]
      exact hown n room hx
    · refine Iff.trans ?_ ((hother n room x hne).trans (and_iff_right hx)).symm
      exact ((hm.other n x hne).2 room).trans (h.members n x room hx₀)

theorem Agrees.step (h : Agrees R) (hok : R.server.CallOk l) (hs : R.step J l = some R') : Agrees R' := by
  obtain ⟨S', hS', rfl⟩ := Option.map_eq_some_iff.mp hs
  cases l with
  | data c p id =>
    obtain rfl := Option.some.inj hS'
    refine h.turns (turns_handleIn hok (fun n hx => ?_) fun n hx => h.bound n id hx hok)
    obtain ⟨c, hc⟩ := h.home n id hx
    rw [origin_eq_none.mpr hok] at hc
    cases hc
  | close es reason order =>
    obtain rfl := Option.some.inj hS'
    exact h.departs (departs_onEngineClose _ es reason order)
  | disconnect id =>
    obtain rfl := Option.some.inj hS'
    exact h.departs (departs_disconnectSocket _ id _)
  | reader i r =>
    obtain rfl := Option.some.inj hS'
    exact h.departs (departs_of_nsps rfl fun _ _ ho => ho)
  | broadcast name event targets =>
    obtain rfl := Option.some.inj hS'
    obtain ⟨hnsps, hheap⟩ := broadcast_tables J name event R.server targets
    refine h.departs (departs_of_nsps hnsps fun x o ho => ?_)
    rwa [Server.origin, hheap]
  | joinRoom id room =>
    obtain rfl := Option.some.inj hS'
    have hm := moves_joinRoom R.server id room
    refine h.moves hm (fun _ => rfl) (fun n r x hx => ?_) fun n r hid => ?_
    · simp [enroll, Ne.symm hx]
    · rw [hm.sockets] at hid
      simp only [enroll, hm.sockets, hid, true_and, members_addToRoom]
      rw [← h.members n id r hid]
      split_ifs with hr
      · simp [hr]
      · simp [Ne.symm hr]
  | leaveRoom id room =>
    obtain rfl := Option.some.inj hS'
    have hm := moves_leaveRoom R.server id room
    refine h.moves hm (fun a => ?_) (fun n r x hx => ?_) fun n r hid => ?_
    · unfold removeFromRoom
      split <;> rfl
    · simp [enroll, Ne.symm hx]
    · rw [hm.sockets] at hid
      simp only [enroll, hm.sockets, hid, true_and, members_removeFromRoom]
      rw [← h.members n id r hid]
      split_ifs with hr
      · simp [hr]
      · simp [Ne.symm hr]

theorem Blank.agrees (h : Blank R) : Agrees R where
  home n x hx := by simp [h.sockets] at hx
  bound n x hx := by simp [h.adapter, Has, Adapter.members] at hx
  ids n x hx := by simp [h.sockets] at hx
  members n x room hx := by simp [h.sockets] at hx

end Roll

/-- Whom a chain of calls leaves out. -/
def Chain.Excludes : Chain → SocketId → Prop
  | .namespaceTo _ _, _ => False
  | .socketTo id _, x => x = id
  | .socketToExcept id _ ids, x => x = id ∨ x ∈ ids
  | .except b ids, x => b.Excludes x ∨ x ∈ ids

def Chain.room : Chain → Bytes
  | .namespaceTo _ room | .socketTo _ room | .socketToExcept _ room _ => room
  | .except b _ => b.room

/-- The namespace in which a chain of calls broadcasts; a socket has to exist. -/
def Chain.scope (S : Server) : Chain → Option Bytes
  | .namespaceTo name _ => some name
  | .socketTo id _ | .socketToExcept id _ _ => (S.heap id).map Socket.nsp
  | .except b _ => b.scope S

namespace Api

def Excludes : Api → SocketId → Prop
  | .namespaceEmit _, _ | .broadcastToNamespace _, _ | .broadcastToRoom _ _, _ => False
  | .operatorEmit b, x => b.Excludes x
  | .socketBroadcast id, x | .socketBroadcastToRoom id _, x => x = id
  | .toExcept _ _ except, x => x ∈ except

def room : Api → Bytes
  | .namespaceEmit _ | .socketBroadcast _ | .broadcastToNamespace _ => []
  | .operatorEmit b => b.room
  | .socketBroadcastToRoom _ room | .broadcastToRoom _ room | .toExcept _ room _ => room

/-- The namespace in which a call broadcasts, if it does: the server's calls do nothing
for a namespace that is not registered. -/
def scope (S : Server) : Api → Option Bytes
  | .namespaceEmit name => some name
  | .operatorEmit b => b.scope S
  | .socketBroadcast id | .socketBroadcastToRoom id _ => (S.heap id).map Socket.nsp
  | .broadcastToNamespace nsp | .broadcastToRoom nsp _ | .toExcept nsp _ _ =>
    if S.known (namespaceName nsp) then some (namespaceName nsp) else none

end Api

section Requests

variable {S : Server} {n : Bytes}

theorem operator_spec (S : Server) (b : Chain) :
    (S.operator b).map BroadcastOperator.ns = b.scope S ∧
    ∀ o, S.operator b = some o → o.room = b.room ∧ ∀ x, x ∈ o.except ↔ b.Excludes x := by
  induction b with
  | namespaceTo name room =>
    refine ⟨rfl, fun o ho => ?_⟩
    obtain rfl := Option.some.inj ho
    exact ⟨rfl, fun x => List.mem_nil_iff x⟩
  | socketTo id room =>
    refine ⟨Option.map_map .., fun o ho => ?_⟩
    obtain ⟨s, -, rfl⟩ := Option.map_eq_some_iff.mp ho
    exact ⟨rfl, fun x => List.mem_singleton⟩
  | socketToExcept id room except =>
    refine ⟨Option.map_map .., fun o ho => ?_⟩
    obtain ⟨s, -, rfl⟩ := Option.map_eq_some_iff.mp ho
    exact ⟨rfl, fun x => List.mem_cons⟩
  | except b ids ih =>
    refine ⟨(Option.map_map ..).trans ih.1, fun o ho => ?_⟩
    obtain ⟨o', ho', rfl⟩ := Option.map_eq_some_iff.mp ho
    obtain ⟨hroom, hexcept⟩ := ih.2 o' ho'
    refine ⟨hroom, fun x => List.mem_append.trans ?_⟩
    rw [hexcept]
    rfl

theorem scope_lookup (nsp : Bytes) (f : Namespace → BroadcastOperator)
    (hf : ∀ ns, (f ns).ns = namespaceName nsp) :
    ((S.namespaceLookup nsp).map f).map BroadcastOperator.ns =
      if S.known (namespaceName nsp) then some (namespaceName nsp) else none := by
  unfold namespaceLookup known
  cases S.nsps (namespaceName nsp) with
  | none => rfl
  | some ns => exact congrArg some (hf ns)

theorem request_spec (S : Server) (api : Api) :
    (S.request api).map BroadcastOperator.ns = api.scope S ∧
    ∀ b, S.request api = some b → b.room = api.room ∧ ∀ x, x ∈ b.except ↔ api.Excludes x := by
  cases api with
  | namespaceEmit name =>
    refine ⟨rfl, fun b hb => ?_⟩
    obtain rfl := Option.some.inj hb
    exact ⟨rfl, fun x => List.mem_nil_iff x⟩
  | operatorEmit b => exact operator_spec S b
  | socketBroadcast id | socketBroadcastToRoom id room =>
    refine ⟨Option.map_map .., fun b hb => ?_⟩
    obtain ⟨s, -, rfl⟩ := Option.map_eq_some_iff.mp hb
    exact ⟨rfl, fun x => List.mem_singleton⟩
  | broadcastToNamespace nsp | broadcastToRoom nsp room =>
    refine ⟨scope_lookup nsp _ fun _ => rfl, fun b hb => ?_⟩
    obtain ⟨ns, -, rfl⟩ := Option.map_eq_some_iff.mp hb
    exact ⟨rfl, fun x => List.mem_nil_iff x⟩
  | toExcept nsp room except =>
    refine ⟨scope_lookup nsp _ fun _ => rfl, fun b hb => ?_⟩
    obtain ⟨ns, -, rfl⟩ := Option.map_eq_some_iff.mp hb
    exact ⟨rfl, fun x => Iff.rfl⟩

end Requests

/-- `x` is registered, connected, in the room if there is one, and not left out. -/
structure Roll.Addressed (R : Roll) (n : Bytes) (api : Api) (x : SocketId) : Prop where
  registered : x ∈ R.server.sockets n
  connected : (R.server.heap x).any Socket.connected = true
  member : api.room ≠ [] → R.member n api.room x
  included : ¬ api.Excludes x

theorem Roll.Agrees.mem_delivered {R : Roll} (h : R.Agrees) {n : Bytes} {b : BroadcastOperator}
    {order : List SocketId} (horder : Lists order ((R.server.adapter n).audience b.room)) {x : SocketId}
    (hx : x ∈ R.server.sockets n) :
    x ∈ delivered b.except order ↔ (b.room ≠ [] → R.member n b.room x) ∧ x ∉ b.except := by
  rw [(delivered_spec b.except horder).2]
  unfold audience
  split_ifs with hroom
  · rw [h.members n x b.room hx]
    simp [hroom]
  · simp [h.ids n x hx, hroom]

/-- `broadcast` emits to the socket once: the event with the arguments listed for it, and
with the readers as the targets before it have left them. -/
def EmitsOnce (J : Json) (S : Server) (n event : Bytes) (targets : List (SocketId × List Value))
    (x : SocketId) : Prop :=
  ∃ pre args post, targets = pre ++ (x, args) :: post ∧
    (S.broadcast J n event targets).2.filter (fun t => t.1 = x) =
      [(x, (Gosocketio.sendPacket J (eventPacket n event args) (S.broadcast J n event pre).1.readers).1)]

theorem emitsOnce_of_live {J : Json} {S : Server} {n event : Bytes}
    {targets : List (SocketId × List Value)} {x : SocketId} (hc : Consistent S n)
    (hnodup : (targets.map Prod.fst).Nodup) (hx : x ∈ targets.map Prod.fst)
    (hlive : S.Live n x = true) : EmitsOnce J S n event targets x := by
  obtain ⟨⟨y, args⟩, ht, hy⟩ := List.mem_map.mp hx
  obtain rfl : y = x := hy
  obtain ⟨pre, post, rfl⟩ := List.append_of_mem ht
  refine ⟨pre, args, post, rfl, ?_⟩
  obtain ⟨hnsps, hheap⟩ := broadcast_tables J n event S pre
  have hc' : Consistent (S.broadcast J n event pre).1 n := by
    intro z hz
    rw [Server.sockets, hnsps] at hz
    rw [Server.origin, hheap]
    exact hc z hz
  obtain ⟨s, -, hd⟩ := deliver_of_live J n event args hc' ((live_broadcast ..).symm ▸ hlive)
  -- the ids are distinct, so no other entry is the socket's
  have hother (T : Server) {ts : List (SocketId × List Value)} (hts : y ∉ ts.map Prod.fst) :
      (T.broadcast J n event ts).2.filter (fun t => t.1 = y) = [] := by
    refine List.filter_eq_nil_iff.mpr fun t ht htx => hts ?_
    rw [← broadcast_fst J n event T, ← of_decide_eq_true htx]
    exact List.mem_map_of_mem ht
  rw [List.map_append, List.map_cons, List.nodup_append, List.nodup_cons] at hnodup
  obtain ⟨-, ⟨hpost, -⟩, hdisj⟩ := hnodup
  rw [broadcast_append, List.filter_append, hother S fun hpre => hdisj y hpre y (.head _) rfl, broadcast,
    List.filter_cons, if_pos (decide_eq_true rfl), hother _ hpost, hd]
  rfl

theorem nothing_of_not_live {J : Json} {S : Server} {n event : Bytes}
    {targets : List (SocketId × List Value)} {x : SocketId} {messages : List InPacket}
    (hlive : S.Live n x = false) (h : (x, messages) ∈ (S.broadcast J n event targets).2) :
    messages = [] := by
  induction targets generalizing S with
  | nil => cases h
  | cons t targets ih =>
    obtain ⟨id, args⟩ := t
    rcases List.mem_cons.mp h with heq | h
    · obtain ⟨rfl, hm⟩ := Prod.mk.inj heq
      exact hm.trans (congrArg Prod.snd (deliver_of_not_live J n event args hlive))
    · have hstep := live_broadcast J n event S [(id, args)]
      exact ih ((congrFun hstep x).trans hlive) h

/-- In every state that calls lead to, and for every order in which the adapter goes
through its sets. -/
theorem broadcast_reaches_audience (J : Json) {R₀ R : Roll} {ls : List Call} (h₀ : R₀.Blank)
    (hrun : Run (Roll.step J) (fun R l => R.server.CallOk l) R₀ ls R) (api : Api) (event : Bytes) :
    match api.scope R.server with
    | none => R.server.request api = none
    | some n => ∃ b, R.server.request api = some b ∧ b.ns = n ∧
      ∀ order targets, Lists order ((R.server.adapter n).audience b.room) →
        targets.map Prod.fst = delivered b.except order →
        (∀ x, (R.Addressed n api x → EmitsOnce J R.server n event targets x) ∧
          (¬ R.Addressed n api x →
            ∀ messages, (x, messages) ∈ (R.server.broadcast J n event targets).2 → messages = [])) ∧
        ∀ c, ((R.server.broadcast J n event targets).1.conns c).out = (R.server.conns c).out ++
          ((R.server.broadcast J n event targets).2.filter fun t =>
            (R.server.heap t.1).any fun s => s.ec = c).flatMap Prod.snd := by
  have h : R.Agrees := hrun.invariant Roll.Agrees h₀.agrees fun _ _ _ h hok hs => h.step hok hs
  obtain ⟨hscope, hspec⟩ := request_spec R.server api
  rw [← hscope]
  cases hb : R.server.request api with
  | none => rfl
  | some b =>
    refine ⟨b, rfl, rfl, fun order targets horder htargets => ⟨fun x => ?_, fun c => out_broadcast ..⟩⟩
    obtain ⟨hroom, hexcept⟩ := hspec b hb
    constructor
    · rintro ⟨hreg, hconn, hin, hout⟩
      refine emitsOnce_of_live (h.home b.ns) ?_ ?_ ((live_iff ..).mpr ⟨hreg, hconn⟩)
      · rw [htargets]
        exact (delivered_spec b.except horder).1
      · rw [htargets]
        exact (h.mem_delivered horder hreg).mpr ⟨hroom ▸ hin, mt (hexcept x).mp hout⟩
    · intro hnot messages hm
      refine nothing_of_not_live (Bool.eq_false_iff.mpr fun hlive => hnot ?_) hm
      obtain ⟨hreg, hconn⟩ := (live_iff ..).mp hlive
      have hx : x ∈ delivered b.except order := by
        rw [← htargets, ← broadcast_fst J b.ns event R.server]
        exact List.mem_map_of_mem hm
      obtain ⟨hin, hout⟩ := (h.mem_delivered horder hreg).mp hx
      exact ⟨hreg, hconn, hroom ▸ hin, mt (hexcept x).mpr hout⟩

section NonVacuity

open NonVacuity

/-- Two sockets enter the default namespace, and the second joins a room. -/
def roomCalls : List Call := [.data 0 connectText [1], .data 1 connectText [2], .joinRoom [2] [114]]

def roomRoll (k : ℕ) : Roll :=
  (roomCalls.take k).foldl (fun R l => (R.step textJson l).getD R) ⟨lobby, fun _ _ _ => False⟩

theorem roomRoll_run : Run (Roll.step textJson) (fun R l => R.server.CallOk l) (roomRoll 0) roomCalls
    (roomRoll 3) :=
  .cons (by decide +kernel) rfl (.cons (by decide +kernel) rfl (.cons trivial rfl .nil))

theorem roomRoll_blank : (roomRoll 0).Blank := by
  refine ⟨fun n => ?_, fun n => ?_⟩
  · change lobby.sockets n = ∅
    unfold lobby sockets
    simp only
    split_ifs <;> rfl
  · change lobby.adapter n = {}
    unfold lobby adapter
    simp only
    split_ifs <;> rfl

/-- The first socket broadcasts to the room of the second. -/
theorem broadcast_reaches_audience_room :
    EmitsOnce textJson (roomRoll 3).server defaultNamespace [104, 105] [([2], [])] [2] := by
  obtain ⟨b, hb, -, h⟩ := broadcast_reaches_audience textJson roomRoll_blank roomRoll_run
    (.socketBroadcastToRoom [1] [114]) [104, 105]
  obtain rfl := Option.some.inj hb
  refine ((h [[2]] [([2], [])] (by decide +kernel) (by decide +kernel)).1 [2]).1 ⟨?_, ?_, ?_, ?_⟩
  · decide +kernel
  · decide +kernel
  · exact fun _ => ⟨by decide +kernel, .inl ⟨rfl, rfl⟩⟩
  · exact fun hex => absurd (show [2] = ([1] : SocketId) from hex) (by decide)

end NonVacuity

end Gosocketio.Server

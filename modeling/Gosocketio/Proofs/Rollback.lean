import Gosocketio.Proofs.Membership
import Gosocketio.Proofs.Sections
import Gosocketio.Spec.Goroutines

/-! What a refused CONNECT leaves behind. `rejectConnect` takes the new socket out of the
namespace by its id, but out of the connection by the name of the namespace. -/

namespace Gosocketio.Adapter

variable {a b : Adapter} {id : SocketId} {M : Membership}

def membership (a : Adapter) : Membership := ⟨{x | x ∈ a.ids}, {p | p.2 ∈ a.members p.1}⟩

theorem NoEmptyRoom.represents (h : a.NoEmptyRoom) : a.Represents a.membership :=
  ⟨fun _ => Iff.rfl, fun _ _ => Iff.rfl, h⟩

/-- Without empty rooms, an adapter is determined by who is in which room. -/
theorem Represents.unique (ha : a.Represents M) (hb : b.Represents M) : a = b := by
  have hids : a.ids = b.ids := by
    ext x
    rw [ha.ids, hb.ids]
  have hrooms : a.rooms = b.rooms := by
    funext room
    have hmembers : a.members room = b.members room := by
      ext x
      rw [ha.members, hb.members]
    unfold Adapter.members at hmembers
    cases hroom : a.rooms room with
    | none =>
      cases hroom' : b.rooms room with
      | none => rfl
      | some m =>
        rw [hroom, hroom'] at hmembers
        exact absurd hmembers.symm (hb.noEmptyRoom room m hroom').ne_empty
    | some m =>
      rw [hroom] at hmembers
      cases hroom' : b.rooms room with
      | none =>
        rw [hroom'] at hmembers
        exact absurd hmembers (ha.noEmptyRoom room m hroom).ne_empty
      | some m' =>
        rw [hroom'] at hmembers
        exact congrArg some hmembers
  cases a
  cases b
  simp only at hids hrooms
  rw [hids, hrooms]

theorem removeSocket_of_not_has (h : ¬ a.Has id) (hne : a.NoEmptyRoom) : a.removeSocket id = a := by
  have hM : a.membership.removeSocket id = a.membership := by
    refine congrArg₂ Membership.mk ?_ ?_
    · exact Set.sdiff_singleton_eq_self fun hid => h (.inl hid)
    · refine Set.sep_eq_self_iff_mem_true.mpr ?_
      rintro ⟨room, x⟩ hx rfl
      exact h (.inr ⟨room, hx⟩)
  have hrep : (a.removeSocket id).Represents (a.membership.removeSocket id) := hne.represents.removeSocket
  rw [hM] at hrep
  exact hrep.unique hne.represents

/-- `RemoveSocket` undoes `AddSocket`. -/
theorem removeSocket_addSocket (h : ¬ a.Has id) (hne : a.NoEmptyRoom) :
    (a.addSocket id).removeSocket id = a := by
  have hM : (a.membership.addSocket id).removeSocket id = a.membership.removeSocket id := by
    refine congrArg₂ Membership.mk ?_ ?_
    · ext x
      simp only [Membership.addSocket, Set.mem_sdiff, Set.mem_insert_iff, Set.mem_singleton_iff]
      tauto
    · ext ⟨room, x⟩
      simp only [Membership.addSocket, Set.mem_ofPred_eq, Set.mem_insert_iff, Prod.mk.injEq]
      tauto
  have hrep : ((a.addSocket id).removeSocket id).Represents _ := hne.represents.addSocket.removeSocket
  rw [hM] at hrep
  rw [hrep.unique hne.represents.removeSocket]
  exact removeSocket_of_not_has h hne

theorem has_addToRoom {room : Bytes} {x : SocketId} (h : (a.addToRoom room id).Has x) : x = id ∨ a.Has x := by
  rcases h with hx | ⟨r, hx⟩
  · exact .inr (.inl hx)
  · rw [members_addToRoom] at hx
    split_ifs at hx
    · exact (Finset.mem_insert.mp hx).imp_right fun hx => .inr ⟨room, hx⟩
    · exact .inr (.inr ⟨r, hx⟩)

theorem has_removeFromRoom {room : Bytes} {x : SocketId} (h : (a.removeFromRoom room id).Has x) : a.Has x := by
  rcases h with hx | ⟨r, hx⟩
  · refine .inl ?_
    unfold removeFromRoom at hx
    split at hx <;> exact hx
  · rw [members_removeFromRoom] at hx
    split_ifs at hx
    · exact .inr ⟨room, Finset.mem_of_mem_erase hx⟩
    · exact .inr ⟨r, hx⟩

end Gosocketio.Adapter

namespace Gosocketio.Server

open Runs

variable {S S' : Server} {J : Json} {c : ConnId} {id x : SocketId} {name n msg : Bytes} {pkt : Packet}

/-- A socket enters an adapter after it is created. -/
def Genuine (S : Server) (l : Section) : Prop :=
  S.SectionOk l ∧ ∀ name id, l = .join name id → S.heap id ≠ none

/-- A state that sections, in any interleaving, lead to from a server without sockets
and rooms. -/
def Populated (J : Json) (S : Server) : Prop :=
  ∃ S₀ ls, (∀ name ns, S₀.nsps name = some ns → ns.sockets = ∅ ∧ ns.adapter = {}) ∧
    (∀ c, S₀.conns c = {}) ∧ Run (step J) Genuine S₀ ls S

theorem adapter_modifyAdapter_or (f : Adapter → Adapter) :
    (S.modifyNsp name fun n => { n with adapter := f n.adapter }).adapter n = S.adapter n ∨
      (S.modifyNsp name fun n => { n with adapter := f n.adapter }).adapter n = f (S.adapter n) := by
  rw [adapter_modifyAdapter]
  split_ifs
  · exact .inr rfl
  · exact .inl rfl

theorem adapter_run {l : Section} : (S.run J l).adapter n = S.adapter n ∨
    (∃ name id, l = .join name id ∧ (S.run J l).adapter n = (S.adapter n).addSocket id) ∨
    (∃ id, (S.run J l).adapter n = (S.adapter n).removeSocket id) ∨
    (∃ room id, S.heap id ≠ none ∧ (S.run J l).adapter n = (S.adapter n).addToRoom room id) ∨
    ∃ room id, (S.run J l).adapter n = (S.adapter n).removeFromRoom room id := by
  cases l with
  | join name id =>
    exact (adapter_modifyAdapter_or fun a => a.addSocket id).imp_right fun h => .inl ⟨name, id, rfl, h⟩
  | leave name id =>
    exact (adapter_modifyAdapter_or fun a => a.removeSocket id).imp_right fun h => .inr (.inl ⟨id, h⟩)
  | joinRoom id room =>
    simp only [Server.run, joinRoom]
    cases hs : S.heap id with
    | none => exact .inl rfl
    | some s =>
      refine (adapter_modifyAdapter_or fun a => a.addToRoom room id).imp_right fun h => ?_
      exact .inr (.inr (.inl ⟨room, id, by rw [hs]; exact (by simp), h⟩))
  | leaveRoom id room =>
    simp only [Server.run, leaveRoom]
    cases S.heap id with
    | none => exact .inl rfl
    | some s =>
      exact (adapter_modifyAdapter_or fun a => a.removeFromRoom room id).imp_right
        fun h => .inr (.inr (.inr ⟨room, id, h⟩))
  | register name id => exact .inl (adapter_register ..)
  | unregister name id => exact .inl (adapter_unregister ..)
  | _ => exact .inl rfl

theorem noEmptyRoom_run {l : Section} (h : (S.adapter n).NoEmptyRoom) :
    ((S.run J l).adapter n).NoEmptyRoom := by
  have hrep := h.represents
  rcases adapter_run (J := J) (l := l) (n := n) with heq | ⟨name, id, rfl, heq⟩ | ⟨id, heq⟩ | ⟨room, id, hid, heq⟩ | ⟨room, id, heq⟩
  all_goals rw [heq]
  · exact h
  · exact hrep.addSocket.noEmptyRoom
  · exact hrep.removeSocket.noEmptyRoom
  · exact (hrep.addToRoom room id).noEmptyRoom
  · exact hrep.removeFromRoom.noEmptyRoom

/-- Only sockets that were created are anywhere. -/
structure Accounted (S : Server) : Prop where
  sockets : ∀ n, Consistent S n
  attributed : Attributed S
  adapter : ∀ n x, (S.adapter n).Has x → S.origin x ≠ none
  rooms : ∀ n, (S.adapter n).NoEmptyRoom

theorem Accounted.run {l : Section} (h : Accounted S) (hok : S.Genuine l) : Accounted (S.run J l) := by
  have horigin {x : SocketId} (hx : S.origin x ≠ none) : (S.run J l).origin x ≠ none := by
    obtain ⟨o, ho⟩ := Option.ne_none_iff_exists'.mp hx
    rw [origin_run hok.1 ho]
    exact nofun
  refine ⟨consistent_run h.sockets hok.1, h.attributed.run hok.1, fun n x hx => ?_,
    fun n => noEmptyRoom_run (h.rooms n)⟩
  rcases adapter_run (J := J) (l := l) (n := n) with heq | ⟨name, id, rfl, heq⟩ | ⟨id, heq⟩ | ⟨room, id, hid, heq⟩ | ⟨room, id, heq⟩
  all_goals rw [heq] at hx
  · exact horigin (h.adapter n x hx)
  · rcases (Adapter.has_addSocket ..).mp hx with rfl | hx
    · exact horigin fun hnone => hok.2 _ _ rfl (origin_eq_none.mp hnone)
    · exact horigin (h.adapter n x hx)
  · exact horigin (h.adapter n x ((Adapter.has_removeSocket ..).mp hx).2)
  · rcases Adapter.has_addToRoom hx with rfl | hx
    · exact horigin fun hnone => hid (origin_eq_none.mp hnone)
    · exact horigin (h.adapter n x hx)
  · exact horigin (h.adapter n x (Adapter.has_removeFromRoom hx))

theorem Populated.accounted (h : Populated J S) : Accounted S := by
  obtain ⟨S₀, ls, hnsps, hconns, hrun⟩ := h
  have hadapter (n : Bytes) : S₀.adapter n = {} := by
    unfold Server.adapter
    cases hn : S₀.nsps n with
    | none => rfl
    | some ns => exact (hnsps n ns hn).2
  refine hrun.invariant Accounted ⟨consistent_of_empty fun name ns h => (hnsps name ns h).1,
    attributed_of_unused hconns, fun n x hx => ?_, fun n => ?_⟩ ?_
  · rw [hadapter] at hx
    simp [Adapter.Has, Adapter.members] at hx
  · rw [hadapter]
    simp [Adapter.NoEmptyRoom]
  · exact fun _ _ _ h hok hs => Option.some.inj hs ▸ h.run hok

/-- The handling of the packet ends in `rejectConnect` with this message. -/
def Rejects (S : Server) (pkt : Packet) (id : SocketId) (msg : Bytes) : Prop :=
  ∃ ns, S.namespaceLookup pkt.nsp = some ns ∧
    (runMiddlewares ns id (connectData pkt.data) = some msg ∨
      runMiddlewares ns id (connectData pkt.data) = none ∧ runConnect ns id = some msg)

def barred (S : Server) (pkt : Packet) (id : SocketId) : Bool :=
  (S.namespaceLookup pkt.nsp).any fun ns => (runMiddlewares ns id (connectData pkt.data)).isSome

/-- Nothing is changed for the sockets that were there. Nothing is sent but one packet. -/
structure Unaffected (J : Json) (S S' : Server) (c : ConnId) (answer : Packet) : Prop where
  sockets : ∀ n, S'.sockets n = S.sockets n
  adapter : ∀ n, S'.adapter n = S.adapter n
  attached : ∀ d n, S'.attached d n = S.attached d n
  heap : ∀ x s, S.heap x = some s → S'.heap x = some s
  effects : S'.effects = S.effects
  out : ∀ d, (S'.conns d).out = (S.conns d).out ++ if d = c then [⟨encode J answer, false⟩] else []

theorem out_sendConnectError (S : Server) (c d : ConnId) (nsp msg : Bytes) :
    ((S.sendConnectError J c nsp msg).conns d).out =
      (S.conns d).out ++ if d = c then [⟨encode J (connectError nsp msg), false⟩] else [] := by
  have hplain : Gosocketio.sendPacket J (connectError nsp msg) S.readers =
      ([⟨encode J (connectError nsp msg), false⟩], S.readers) := by
    rw [Gosocketio.sendPacket, if_neg]
    simp [connectError, hasBinary, hasBinaryEntries]
  change ((S.modifyConn c fun ec => { ec with out := ec.out ++
    (Gosocketio.sendPacket J (connectError nsp msg) S.readers).1 }).conns d).out = _
  rw [hplain, modifyConn]
  by_cases hd : d = c
  · subst hd
    simp
  · simp [hd]

/-- A change that concerns only one socket, and says nothing to anybody. -/
structure Silent (S S' : Server) (id : SocketId) : Prop where
  heap : ∀ x, x ≠ id → S'.heap x = S.heap x
  effects : S'.effects = S.effects
  out : ∀ d, (S'.conns d).out = (S.conns d).out

theorem Silent.trans {S'' : Server} (h : Silent S S' id) (h' : Silent S' S'' id) : Silent S S'' id :=
  ⟨fun x hx => (h'.heap x hx).trans (h.heap x hx), h'.effects.trans h.effects,
    fun d => (h'.out d).trans (h.out d)⟩

theorem silent_modifyConn (f : EngineConn → EngineConn) (hf : ∀ ec, (f ec).out = ec.out) (id : SocketId) :
    Silent S (S.modifyConn c f) id := by
  refine ⟨fun _ _ => rfl, rfl, fun d => ?_⟩
  unfold modifyConn
  by_cases hd : d = c
  · subst hd
    simp [hf]
  · simp [hd]

theorem silent_modifySocket (f : Socket → Socket) : Silent S (S.modifySocket id f) id :=
  ⟨fun _ hx => Function.update_of_ne hx _ _, rfl, fun _ => rfl⟩

theorem silent_newSocket : Silent S (S.newSocket id name c) id :=
  ⟨fun _ hx => Function.update_of_ne hx _ _, rfl, fun _ => rfl⟩

theorem silent_modifyNsp (f : Namespace → Namespace) (id : SocketId) : Silent S (S.modifyNsp name f) id :=
  ⟨fun _ _ => rfl, rfl, fun _ => rfl⟩

theorem rejectConnect_says (h : Silent S S' id) (c : ConnId) (name msg : Bytes) :
    (∀ x, x ≠ id → (S'.rejectConnect J c id name msg).heap x = S.heap x) ∧
      (S'.rejectConnect J c id name msg).effects = S.effects ∧
      ∀ d, ((S'.rejectConnect J c id name msg).conns d).out =
        (S.conns d).out ++ if d = c then [⟨encode J (connectError name msg), false⟩] else [] := by
  have hsilent : Silent S (((S'.removeSocket name id).detach c name).setConnected id false) id :=
    ((h.trans ((silent_modifyNsp _ id).trans (silent_modifyNsp _ id))).trans
      (silent_modifyConn (fun ec => { ec with sockets := ec.sockets.erase name }) (fun _ => rfl) id)).trans
      (silent_modifySocket _)
  refine ⟨fun x hx => hsilent.heap x hx, hsilent.effects, fun d => ?_⟩
  rw [rejectConnect, out_sendConnectError, hsilent.out]

/-- The two places from which `handleConnect` calls `rejectConnect`. -/
theorem handleConnect_rejects (c : ConnId) (h : S.Rejects pkt id msg) :
    S.known (namespaceName pkt.nsp) = true ∧
      (S.barred pkt id = true ∧ S.handleConnect J c pkt id =
          (S.newSocket id (namespaceName pkt.nsp) c).rejectConnect J c id (namespaceName pkt.nsp) msg ∨
        S.barred pkt id = false ∧ S.handleConnect J c pkt id =
          ((((S.newSocket id (namespaceName pkt.nsp) c).addSocket (namespaceName pkt.nsp) id).attach c
            pkt.nsp id).setConnected id true).rejectConnect J c id (namespaceName pkt.nsp) msg) := by
  obtain ⟨ns, hns, hmsg⟩ := h
  refine ⟨by rw [known, show S.nsps (namespaceName pkt.nsp) = some ns from hns]; rfl, ?_⟩
  rcases hmsg with hbar | ⟨hpass, hrefuse⟩
  · refine .inl ⟨by simp [barred, hns, hbar], ?_⟩
    simp only [handleConnect, hns, hbar]
  · refine .inr ⟨by simp [barred, hns, hpass], ?_⟩
    simp only [handleConnect, hns, hpass, hrefuse]

/-- What a refused CONNECT does to the tables. -/
theorem Accounted.rejected (h : Accounted S) (hid : S.heap id = none) (hrej : S.Rejects pkt id msg) (c : ConnId) :
    (∀ n, (S.handleConnect J c pkt id).sockets n = S.sockets n) ∧
      (∀ n, (S.handleConnect J c pkt id).adapter n = S.adapter n) ∧
      ∀ d n, (S.handleConnect J c pkt id).attached d n =
        if d = c ∧ n = namespaceName pkt.nsp then none
        else if d = c ∧ n = pkt.nsp ∧ S.barred pkt id = false then some id else S.attached d n := by
  have hfresh (n : Bytes) : id ∉ S.sockets n := by
    intro hmem
    obtain ⟨d, hd⟩ := h.sockets n id hmem
    rw [origin_eq_none.mpr hid] at hd
    cases hd
  have hhas (n : Bytes) : ¬ (S.adapter n).Has id := fun hx => h.adapter n id hx (origin_eq_none.mpr hid)
  obtain ⟨hknown, ⟨hbar, heq⟩ | ⟨hpass, heq⟩⟩ := handleConnect_rejects (J := J) c hrej
  · have hdrop := dropped_rejectConnect (S := S.newSocket id (namespaceName pkt.nsp) c) J c
      (namespaceName pkt.nsp) id msg
    rw [heq]
    refine ⟨fun n => ?_, fun n => ?_, fun d n => ?_⟩
    · rw [hdrop.sockets]
      change (if n = _ then (S.sockets n).erase id else S.sockets n) = _
      rw [Finset.erase_eq_of_notMem (hfresh n), ite_self]
    · rw [hdrop.adapter]
      change (if n = _ then (S.adapter n).removeSocket id else S.adapter n) = _
      rw [Adapter.removeSocket_of_not_has (hhas n) (h.rooms n), ite_self]
    · rw [hdrop.attached]
      simp only [hbar, Bool.true_eq_false, and_false, if_false]
      rfl
  · have hdrop := dropped_rejectConnect (S := (((S.newSocket id (namespaceName pkt.nsp) c).addSocket
      (namespaceName pkt.nsp) id).attach c pkt.nsp id).setConnected id true) J c (namespaceName pkt.nsp) id msg
    rw [heq]
    refine ⟨fun n => ?_, fun n => ?_, fun d n => ?_⟩
    · rw [hdrop.sockets, (same_setConnected id true).sockets]
      change (if n = _ then (((S.newSocket id _ c).addSocket _ id).sockets n).erase id
        else ((S.newSocket id _ c).addSocket _ id).sockets n) = _
      rw [addSocket, sockets_join, sockets_register]
      change (if n = _ then (if n = _ ∧ S.known n then insert id (S.sockets n) else S.sockets n).erase id
        else if n = _ ∧ S.known n then insert id (S.sockets n) else S.sockets n) = _
      by_cases hn : n = namespaceName pkt.nsp
      · subst hn
        simp [hknown, Finset.erase_insert (hfresh _)]
      · simp [hn]
    · rw [hdrop.adapter, (same_setConnected id true).adapter]
      change (if n = _ then (((S.newSocket id _ c).addSocket _ id).adapter n).removeSocket id
        else ((S.newSocket id _ c).addSocket _ id).adapter n) = _
      rw [addSocket, adapter_join, known_register, adapter_register]
      change (if n = _ then (if n = _ ∧ S.known n then (S.adapter n).addSocket id else S.adapter n).removeSocket id
        else if n = _ ∧ S.known n then (S.adapter n).addSocket id else S.adapter n) = _
      by_cases hn : n = namespaceName pkt.nsp
      · subst hn
        simp [hknown, Adapter.removeSocket_addSocket (hhas _) (h.rooms _)]
      · simp [hn]
    · rw [hdrop.attached, (same_setConnected id true).attached, attached_attach]
      simp only [hpass, and_true]
      rfl

/-- A refused CONNECT changes nothing else exactly when the connection has no socket in the
namespace. A namespace without a name stands for the default one, which is left by its
name; no packet that was decoded has one. -/
theorem rejected_connect_unaffected_iff (hS : Populated J S) (hid : S.heap id = none)
    (hrej : S.Rejects pkt id msg) :
    Unaffected J S (S.handleConnect J c pkt id) c (connectError (namespaceName pkt.nsp) msg) ↔
      S.attached c (namespaceName pkt.nsp) = none ∧ (pkt.nsp ≠ [] ∨ S.barred pkt id = true) := by
  have h := hS.accounted
  obtain ⟨hsockets, hadapter, hattached⟩ := h.rejected (J := J) hid hrej c
  constructor
  · intro hsame
    refine ⟨?_, ?_⟩
    · rw [← hsame.attached, hattached, if_pos ⟨rfl, rfl⟩]
    · by_contra hnot
      rw [not_or, not_not, Bool.not_eq_true] at hnot
      have hleft : S.attached c pkt.nsp = some id := by
        rw [← hsame.attached, hattached, if_neg, if_pos ⟨rfl, rfl, hnot.2⟩]
        rw [hnot.1]
        exact fun hname => absurd hname.2 (by decide)
      have horigin := h.attributed.home c pkt.nsp id hleft
      rw [origin_eq_none.mpr hid] at horigin
      cases horigin
  · rintro ⟨hnone, hnsp⟩
    have hsaid : (∀ x, x ≠ id → (S.handleConnect J c pkt id).heap x = S.heap x) ∧
        (S.handleConnect J c pkt id).effects = S.effects ∧
        ∀ d, ((S.handleConnect J c pkt id).conns d).out = (S.conns d).out ++
          if d = c then [⟨encode J (connectError (namespaceName pkt.nsp) msg), false⟩] else [] := by
      obtain ⟨-, ⟨-, heq⟩ | ⟨-, heq⟩⟩ := handleConnect_rejects (J := J) c hrej
      · rw [heq]
        exact rejectConnect_says silent_newSocket c _ msg
      · rw [heq]
        refine rejectConnect_says ?_ c _ msg
        exact ((silent_newSocket.trans ((silent_modifyNsp _ id).trans (silent_modifyNsp _ id))).trans
          (silent_modifyConn (fun ec => { ec with sockets := ec.sockets.insert pkt.nsp id }) (fun _ => rfl)
            id)).trans (silent_modifySocket _)
    refine ⟨hsockets, hadapter, fun d n => ?_, fun x s hx => ?_, hsaid.2.1, hsaid.2.2⟩
    · rw [hattached]
      split_ifs with hname hnew
      · rw [hname.1, hname.2, hnone]
      · -- the entry that was made is the one that was deleted
        obtain ⟨rfl, rfl, hpass⟩ := hnew
        rcases hnsp with hne | hbar
        · exact absurd ⟨rfl, (if_neg hne).symm⟩ hname
        · cases hpass.symm.trans hbar
      · rfl
    · rw [hsaid.1 x, hx]
      rintro rfl
      cases hid.symm.trans hx

section NonVacuity

open NonVacuity

/-- A namespace whose connect handler refuses the socket `[2]`, with the text `no`. -/
def picky : Server :=
  { nsps := fun n => if n = defaultNamespace then
      some { connect := [fun id => if id = [2] then some [110, 111] else none] } else none }

/-- What `handleConnect` does with the socket `[1]` of a connection. -/
def admitting (c : ConnId) : List Section :=
  [.newSocket [1] defaultNamespace c, .register defaultNamespace [1], .join defaultNamespace [1],
    .attach c defaultNamespace [1], .setConnected [1] true]

/-- The socket `[1]` of the connection `c` is connected. -/
def occupied (c : ConnId) : Server := (admitting c).foldl (fun S l => S.run textJson l) picky

theorem occupied_populated (c : ConnId) : Populated textJson (occupied c) := by
  refine ⟨picky, admitting c, fun name ns hns => ?_, fun _ => rfl, ?_⟩
  · simp only [picky] at hns
    split_ifs at hns
    rw [← Option.some.inj hns]
    exact ⟨rfl, rfl⟩
  · refine .cons ⟨rfl, nofun⟩ rfl (.cons ⟨⟨_, rfl, rfl⟩, nofun⟩ rfl (.cons ⟨trivial, ?_⟩ rfl
      (.cons ⟨⟨_, rfl, rfl, rfl⟩, nofun⟩ rfl (.cons ⟨trivial, nofun⟩ rfl .nil))))
    rintro name id ⟨⟩
    exact nofun

def connectPacket : Packet := { type := .connect }

theorem occupied_rejects (c : ConnId) : (occupied c).Rejects connectPacket [2] [110, 111] :=
  ⟨_, rfl, .inr ⟨rfl, rfl⟩⟩

/-- The socket of another connection is left alone. -/
theorem rejected_connect_unaffected_elsewhere :
    Unaffected textJson (occupied 1) ((occupied 1).handleConnect textJson 0 connectPacket [2]) 0
      (connectError defaultNamespace [110, 111]) :=
  (rejected_connect_unaffected_iff (occupied_populated 1) (by decide +kernel) (occupied_rejects 1)).mpr
    ⟨by decide +kernel, .inl (by decide)⟩

/-- The connection forgets the socket that it has in the namespace. -/
theorem rejected_connect_forgets : ¬ ∀ (J : Json) (S : Server) (c : ConnId) (pkt : Packet) (id : SocketId)
    (msg : Bytes), J.Lawful → Populated J S → S.heap id = none → S.Rejects pkt id msg →
    Unaffected J S (S.handleConnect J c pkt id) c (connectError (namespaceName pkt.nsp) msg) := by
  intro h
  have hsame := h textJson (occupied 0) 0 connectPacket [2] [110, 111] textJson_lawful (occupied_populated 0)
    (by decide +kernel) (occupied_rejects 0)
  have hattached := hsame.attached 0 defaultNamespace
  exact absurd hattached (by decide +kernel)

end NonVacuity

end Gosocketio.Server

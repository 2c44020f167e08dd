import Gosocketio.Proofs.Connections
import Gosocketio.Spec.Sections

/-! Every call on the server is a sequence of critical sections, and those of a
frame are all sections of the connection the frame came in on. -/

namespace Gosocketio.Server

open Runs

variable {S S' : Server} {J : Json} {c d : ConnId} {id x : SocketId} {name n nsp : Bytes} {l : Section}
  {o : ConnId × Bytes}

theorem origin_eq_some : S.origin id = some (c, name) ↔
    ∃ s, S.heap id = some s ∧ s.ec = c ∧ s.nsp = name := by
  simp [origin]

theorem origin_eq_none : S.origin id = none ↔ S.heap id = none := Option.map_eq_none_iff

theorem attached_modifyConn (f : EngineConn → EngineConn) (hf : ∀ ec, (f ec).sockets = ec.sockets) :
    (S.modifyConn c f).attached d n = S.attached d n := by
  unfold modifyConn attached
  by_cases hd : d = c
  · subst hd
    simp [hf]
  · simp [hd]

theorem recon_modifyConn (f : EngineConn → EngineConn) (hf : ∀ ec, (f ec).recon = ec.recon) :
    (S.modifyConn c f).recon d = S.recon d := by
  unfold modifyConn recon
  by_cases hd : d = c
  · subst hd
    simp [hf]
  · simp [hd]

theorem origin_newSocket_of_some (hid : S.heap id = none)
    (hx : S.origin x = some o) : (S.newSocket id name c).origin x = some o := by
  have hne : x ≠ id := by
    rintro rfl
    rw [origin_eq_none.mpr hid] at hx
    cases hx
  rw [origin_newSocket, if_neg hne, hx]

theorem origin_run_of_ne (hl : ∀ name d, l ≠ .newSocket x name d) :
    (S.run J l).origin x = S.origin x := by
  have hsocket (id : SocketId) (f : Socket → Socket)
      (hf : ∀ s, (f s).ec = s.ec ∧ (f s).nsp = s.nsp) : (S.modifySocket id f).origin x = S.origin x :=
    origin_modifySocket S id x f hf
  cases l with
  | newSocket id name c =>
    have hne : x ≠ id := fun h => hl name c (by rw [h])
    exact (origin_newSocket ..).trans (if_neg hne)
  | setConnected id v | registerAck id ackId | takeAck id ackId | clearAcks id => exact hsocket id _ fun _ => ⟨rfl, rfl⟩
  | joinRoom id room =>
    simp only [Server.run, joinRoom]
    cases S.heap id <;> rfl
  | leaveRoom id room =>
    simp only [Server.run, leaveRoom]
    cases S.heap id <;> rfl
  | _ => rfl

theorem origin_run (hok : S.SectionOk l)
    (hx : S.origin x = some o) : (S.run J l).origin x = some o := by
  rw [origin_run_of_ne, hx]
  rintro name d rfl
  rw [origin_eq_none.mpr hok] at hx
  cases hx

theorem origin_of_run (h : (S.run J l).origin x = some o) :
    S.origin x = some o ∨ ∃ name d, l = .newSocket x name d ∧ o = (d, name) := by
  by_cases hl : ∃ name d, l = .newSocket x name d
  · obtain ⟨name, d, rfl⟩ := hl
    refine .inr ⟨name, d, rfl, ?_⟩
    have hnew : (S.newSocket x name d).origin x = some o := h
    rw [origin_newSocket, if_pos rfl] at hnew
    exact (Option.some.inj hnew).symm
  · rw [origin_run_of_ne fun name d hnew => hl ⟨name, d, hnew⟩] at h
    exact .inl h

theorem sockets_modifyAdapter (f : Adapter → Adapter) :
    (S.modifyNsp name fun n => { n with adapter := f n.adapter }).sockets n = S.sockets n := by
  unfold sockets
  rw [nsps_modifyNsp]
  split_ifs
  · cases S.nsps n <;> rfl
  · rfl

theorem known_run : (S.run J l).known n = S.known n := by
  cases l with
  | register name id => exact known_register ..
  | unregister name id => exact known_unregister ..
  | join name id => exact known_join ..
  | leave name id => exact known_leave ..
  | joinRoom id room =>
    simp only [Server.run, joinRoom]
    cases S.heap id with
    | none => rfl
    | some s => exact known_modifyNsp ..
  | leaveRoom id room =>
    simp only [Server.run, leaveRoom]
    cases S.heap id with
    | none => rfl
    | some s => exact known_modifyNsp ..
  | _ => rfl

theorem sockets_run (hreg : ∀ id, l ≠ .register n id) (hun : ∀ id, l ≠ .unregister n id) :
    (S.run J l).sockets n = S.sockets n := by
  cases l with
  | register name id =>
    exact (sockets_register ..).trans (if_neg fun hn => hreg id (by rw [hn.1]))
  | unregister name id =>
    exact (sockets_unregister ..).trans (if_neg fun hn => hun id (by rw [hn]))
  | join name id => exact sockets_join ..
  | leave name id => exact sockets_leave ..
  | joinRoom id room =>
    simp only [Server.run, joinRoom]
    cases S.heap id with
    | none => rfl
    | some s => exact sockets_modifyAdapter (·.addToRoom room id)
  | leaveRoom id room =>
    simp only [Server.run, leaveRoom]
    cases S.heap id with
    | none => rfl
    | some s => exact sockets_modifyAdapter (·.removeFromRoom room id)
  | _ => rfl

theorem mem_sockets_run (hx : x ∈ (S.run J l).sockets n) : x ∈ S.sockets n ∨ l = .register n x := by
  by_cases hreg : ∃ id, l = .register n id
  · obtain ⟨id, rfl⟩ := hreg
    rw [show (S.run J (.register n id)).sockets n = _ from sockets_register ..] at hx
    split_ifs at hx
    · rcases Finset.mem_insert.mp hx with rfl | hx
      · exact .inr rfl
      · exact .inl hx
    · exact .inl hx
  · by_cases hun : ∃ id, l = .unregister n id
    · obtain ⟨id, rfl⟩ := hun
      rw [show (S.run J (.unregister n id)).sockets n = _ from sockets_unregister .., if_pos rfl] at hx
      exact .inl (Finset.mem_of_mem_erase hx)
    · rw [sockets_run (not_exists.mp hreg) (not_exists.mp hun)] at hx
      exact .inl hx

theorem notMem_sockets_run (hx : x ∈ S.sockets n) (hx' : x ∉ (S.run J l).sockets n) :
    l = .unregister n x := by
  by_cases hreg : ∃ id, l = .register n id
  · obtain ⟨id, rfl⟩ := hreg
    rw [show (S.run J (.register n id)).sockets n = _ from sockets_register ..] at hx'
    split_ifs at hx'
    · exact absurd (Finset.mem_insert_of_mem hx) hx'
    · exact absurd hx hx'
  · by_cases hun : ∃ id, l = .unregister n id
    · obtain ⟨id, rfl⟩ := hun
      rw [show (S.run J (.unregister n id)).sockets n = _ from sockets_unregister .., if_pos rfl] at hx'
      by_contra hne
      exact hx' (Finset.mem_erase.mpr ⟨fun h => hne (by rw [h]), hx⟩)
    · rw [sockets_run (not_exists.mp hreg) (not_exists.mp hun)] at hx'
      exact absurd hx hx'

/-- A socket in a namespace was created for it. -/
def Consistent (S : Server) (name : Bytes) : Prop :=
  ∀ id ∈ S.sockets name, ∃ c, S.origin id = some (c, name)

theorem consistent_of_empty (h : ∀ name ns, S.nsps name = some ns → ns.sockets = ∅) (n : Bytes) :
    Consistent S n := by
  intro x hx
  unfold sockets at hx
  cases hn : S.nsps n with
  | none => simp [hn] at hx
  | some ns => simp [hn, h n ns hn] at hx

theorem consistent_run (h : ∀ n, Consistent S n) (hok : S.SectionOk l) (n : Bytes) :
    Consistent (S.run J l) n := by
  intro x hx
  rcases mem_sockets_run hx with hx | rfl
  · obtain ⟨c, hc⟩ := h n x hx
    exact ⟨c, origin_run hok hc⟩
  · obtain ⟨s, hs, hnsp⟩ := hok
    exact ⟨s.ec, origin_eq_some.mpr ⟨s, hs, rfl, hnsp⟩⟩

/-- A connection refers to sockets that were created for it, under their namespace. -/
structure Attributed (S : Server) : Prop where
  home : ∀ c n id, S.attached c n = some id → S.origin id = some (c, n)
  recon : ∀ c, ReconOk (S.recon c)

theorem Attributed.of_eq (h : Attributed S) (ha : ∀ c n, S'.attached c n = S.attached c n)
    (hr : ∀ c, S'.recon c = S.recon c) (ho : ∀ x o, S.origin x = some o → S'.origin x = some o) :
    Attributed S' where
  home c n id hx := ho _ _ (h.home c n id (by rw [← ha, hx]))
  recon c := hr c ▸ h.recon c

theorem Attributed.modifyConn (h : Attributed S) (f : EngineConn → EngineConn)
    (hs : ∀ ec, (f ec).sockets = ec.sockets) (hr : ∀ ec, (f ec).recon = ec.recon) :
    Attributed (S.modifyConn c f) :=
  h.of_eq (fun _ _ => attached_modifyConn f hs) (fun _ => recon_modifyConn f hr) fun _ _ hx => hx

theorem Attributed.attach (h : Attributed S) (ho : S.origin id = some (c, nsp)) :
    Attributed (S.attach c nsp id) := by
  refine ⟨fun d n x hx => ?_, fun d => ?_⟩
  · change S.origin x = _
    rw [attached_attach] at hx
    split_ifs at hx with hd
    · rw [← Option.some.inj hx, ho, hd.1, hd.2]
    · exact h.home d n x hx
  · rw [recon_attach]
    exact h.recon d

theorem Attributed.detach (h : Attributed S) : Attributed (S.detach c nsp) := by
  refine ⟨fun d n x hx => ?_, fun d => ?_⟩
  · rw [attached_detach] at hx
    split_ifs at hx
    exact h.home d n x hx
  · rw [recon_detach]
    exact h.recon d

theorem attached_clearSockets : (S.clearSockets c).attached d n =
    if d = c then none else S.attached d n := by
  unfold clearSockets Server.modifyConn attached
  by_cases hd : d = c
  · subst hd
    simp
  · simp [hd]

theorem recon_clearSockets : (S.clearSockets c).recon d = S.recon d :=
  recon_modifyConn _ (by intro; rfl)

theorem attached_reconstruct (p : InPacket) : (S.reconstruct J c p).attached d n = S.attached d n :=
  attached_modifyConn _ (by intro; rfl)

theorem attached_pop : (S.pop c).attached d n = S.attached d n :=
  attached_modifyConn _ (by intro; rfl)

theorem attached_closeQueue : (S.closeQueue c).attached d n = S.attached d n :=
  attached_modifyConn _ (by intro; rfl)

theorem attached_push (p : InPacket) : (S.push c p).attached d n = S.attached d n :=
  attached_modifyConn _ (by intro ec; split <;> rfl)

theorem Attributed.clearSockets (h : Attributed S) : Attributed (S.clearSockets c) := by
  refine ⟨fun d n x hx => ?_, fun d => ?_⟩
  · rw [attached_clearSockets] at hx
    split_ifs at hx
    exact h.home d n x hx
  · rw [recon_clearSockets]
    exact h.recon d

theorem Attributed.reconstruct (h : Attributed S) (p : InPacket) :
    Attributed (S.reconstruct J c p) := by
  refine ⟨fun d n x hx => ?_, fun d => ?_⟩
  · rw [attached_reconstruct] at hx
    exact h.home d n x hx
  · by_cases hd : d = c
    · subst hd
      simpa [Server.reconstruct, Server.modifyConn, Server.recon] using
        reconOk_handleIn (J := J) (m := p) (h.recon d)
    · simpa [Server.reconstruct, Server.modifyConn, Server.recon, hd] using h.recon d

theorem Attributed.run (h : Attributed S) (hok : S.SectionOk l) : Attributed (S.run J l) := by
  have hkept : ∀ x o, S.origin x = some o → (S.run J l).origin x = some o := fun x o hx =>
    origin_run hok hx
  cases l with
  | attach c nsp id => exact h.attach (origin_eq_some.mpr hok)
  | detach c nsp => exact h.detach
  | push c p =>
    change (S.push c p).Attributed
    refine h.modifyConn _ ?_ ?_ <;> intro ec <;> split <;> rfl
  | pop c =>
    change (S.pop c).Attributed
    refine h.modifyConn _ ?_ ?_ <;> intro ec <;> rfl
  | reconstruct c p => exact h.reconstruct p
  | send c pkt =>
    have hs := same_sendPacket (S := S) J c pkt
    exact h.of_eq (fun c n => congrFun (congrFun hs.attached c) n) (congrFun hs.recon) hkept
  | closeQueue c =>
    change (S.closeQueue c).Attributed
    refine h.modifyConn _ ?_ ?_ <;> intro ec <;> rfl
  | clearSockets c => exact h.clearSockets
  | joinRoom id room =>
    simp only [Server.run, joinRoom]
    cases S.heap id <;> exact ⟨h.home, h.recon⟩
  | leaveRoom id room =>
    simp only [Server.run, leaveRoom]
    cases S.heap id <;> exact ⟨h.home, h.recon⟩
  | _ =>
    exact h.of_eq (fun _ _ => rfl) (fun _ => rfl) hkept

theorem attached_send (pkt : Packet) : (S.run J (.send d pkt)).attached c n = S.attached c n :=
  congrFun (congrFun (same_sendPacket J d pkt).attached c) n

/-- An entry of a connection changes only if it is written or deleted, or the table is
emptied. -/
theorem attached_run :
    (S.run J l).attached c n = S.attached c n ∨ (∃ y, l = .attach c n y) ∨ l = .detach c n ∨
    l = .clearSockets c := by
  cases l with
  | attach d m y =>
    by_cases hd : c = d ∧ n = m
    · exact .inr (.inl ⟨y, by rw [hd.1, hd.2]⟩)
    · exact .inl ((attached_attach S n y d c m).trans (if_neg hd))
  | detach d m =>
    by_cases hd : c = d ∧ n = m
    · exact .inr (.inr (.inl (by rw [hd.1, hd.2])))
    · exact .inl ((attached_detach S n d c m).trans (if_neg hd))
  | clearSockets d =>
    by_cases hd : c = d
    · exact .inr (.inr (.inr (by rw [hd])))
    · exact .inl (attached_clearSockets.trans (if_neg hd))
  | push d p => exact .inl (attached_push p)
  | pop d => exact .inl attached_pop
  | reconstruct d p => exact .inl (attached_reconstruct p)
  | send d pkt => exact .inl (attached_send pkt)
  | closeQueue d => exact .inl attached_closeQueue
  | joinRoom id room =>
    simp only [Server.run, joinRoom]
    cases S.heap id <;> exact .inl rfl
  | leaveRoom id room =>
    simp only [Server.run, leaveRoom]
    cases S.heap id <;> exact .inl rfl
  | _ => exact .inl rfl

section Decompose

/-- A section that touches only what belongs to the connection: its own entries and
the sockets created for it. -/
def Section.Of (c : ConnId) (S : Server) : Section → Prop
  | .newSocket _ _ d | .attach d _ _ | .detach d _ | .push d _ | .pop d | .reconstruct d _
  | .send d _ | .closeQueue d | .clearSockets d => d = c
  | .register _ id | .unregister _ id | .join _ id | .leave _ id | .setConnected id _
  | .registerAck id _ | .takeAck id _ | .clearAcks id | .joinRoom id _ | .leaveRoom id _ =>
    S.Owns c id
  | .perform e => S.Owns c e.socket
  | .enter .. | .remove _ | .reader .. => False

def By (c : ConnId) (S : Server) (l : Section) : Prop := S.SectionOk l ∧ l.Of c S

theorem owns_setConnected {b : Bool} (h : S.Owns c id) : (S.setConnected x b).Owns c id := by
  rwa [Owns, origin_setConnected]

theorem owns_clearAcks (h : S.Owns c id) : (S.clearAcks x).Owns c id := by
  rwa [Owns, origin_clearAcks]

variable (J) in
theorem disconnectSocket_by (ho : S.Owns c id) (reason : String) :
    Reaches (step J) (By c) S (S.disconnectSocket J id reason) := by
  obtain ⟨name, ho'⟩ := ho
  obtain ⟨s, hs, rfl, rfl⟩ := origin_eq_some.mp ho'
  have ho : S.Owns s.ec id := ⟨_, ho'⟩
  have hflag : ((S.unregister s.nsp id).leave s.nsp id).Owns s.ec id := ho
  have hclear := owns_setConnected (x := id) (b := false) hflag
  have hsent := owns_clearAcks (x := id) hclear
  have hgone : Reaches (step J) (By s.ec) S
      ((((S.unregister s.nsp id).leave s.nsp id).setConnected id false).clearAcks id) :=
    (((Reaches.one (.unregister s.nsp id) ⟨trivial, ho⟩ rfl).then
      (.leave s.nsp id) ⟨trivial, ho⟩ rfl).then
      (.setConnected id false) ⟨trivial, hflag⟩ rfl).then
      (.clearAcks id) ⟨trivial, hclear⟩ rfl
  unfold disconnectSocket
  simp only [hs]
  split
  · exact .refl S
  rename_i ns hns
  by_cases hmem : id ∉ ns.sockets
  · rw [if_pos hmem]
    exact .refl S
  rw [if_neg hmem]
  split_ifs
  · exact ((hgone.then (.send s.ec _) ⟨trivial, rfl⟩ rfl).then
      (.perform (.disconnected id reason)) ⟨trivial, hsent⟩ rfl).then (.detach s.ec s.nsp) ⟨trivial, rfl⟩ rfl
  · exact (hgone.then (.perform (.disconnected id reason)) ⟨trivial, hsent⟩ rfl).then
      (.detach s.ec s.nsp) ⟨trivial, rfl⟩ rfl

variable (J) in
theorem rejectConnect_by (ho : S.Owns c id) (msg : Bytes) :
    Reaches (step J) (By c) S (S.rejectConnect J c id name msg) :=
  ((((Reaches.one (.unregister name id) ⟨trivial, ho⟩ rfl).then
    (.leave name id) ⟨trivial, ho⟩ rfl).then
    (.detach c name) ⟨trivial, rfl⟩ rfl).then
    (.setConnected id false) ⟨trivial, ho⟩ rfl).then
    (.send c _) ⟨trivial, rfl⟩ rfl

variable (J) in
theorem handleConnect_by {pkt : Packet} (hid : S.heap id = none) (hnsp : pkt.nsp ≠ []) :
    Reaches (step J) (By c) S (S.handleConnect J c pkt id) := by
  have hname : namespaceName pkt.nsp = pkt.nsp := if_neg hnsp
  have hnew : Reaches (step J) (By c) S (S.newSocket id pkt.nsp c) :=
    .one (.newSocket id pkt.nsp c) ⟨hid, rfl⟩ rfl
  have ho : (S.newSocket id pkt.nsp c).origin id = some (c, pkt.nsp) := by
    rw [origin_newSocket, if_pos rfl]
  obtain ⟨s, hs, hec, hsnsp⟩ := origin_eq_some.mp ho
  unfold handleConnect
  simp only [namespaceLookup, hname]
  split
  · exact .one (.send c _) ⟨trivial, rfl⟩ rfl
  rename_i ns hns
  split
  · exact hnew.trans (rejectConnect_by J ⟨_, ho⟩ _)
  have hin : Reaches (step J) (By c) S
      ((((S.newSocket id pkt.nsp c).addSocket pkt.nsp id).attach c pkt.nsp id).setConnected id true) :=
    (((hnew.then (.register pkt.nsp id) ⟨⟨s, hs, hsnsp⟩, ⟨_, ho⟩⟩ rfl).then
      (.join pkt.nsp id) ⟨trivial, ⟨_, ho⟩⟩ rfl).then
      (.attach c pkt.nsp id) ⟨⟨s, hs, hec, hsnsp⟩, rfl⟩ rfl).then
      (.setConnected id true) ⟨trivial, ⟨_, ho⟩⟩ rfl
  split
  · refine hin.trans (rejectConnect_by J (owns_setConnected ?_) _)
    exact ⟨_, ho⟩
  · exact hin.then (.send c { type := .connect, nsp := pkt.nsp, data := .obj [(sidKey, .str id)] })
      ⟨trivial, rfl⟩ rfl

variable (J) in
theorem handleIn_by {p : InPacket} (h : Attributed S) (hid : S.heap id = none) :
    Reaches (step J) (By c) S (S.handleIn J c p id) := by
  have hrec : Reaches (step J) (By c) S (S.reconstruct J c p) :=
    .one (.reconstruct c p) ⟨trivial, rfl⟩ rfl
  have hhome : ∀ n id, (S.reconstruct J c p).attached c n = some id →
      (S.reconstruct J c p).Owns c id := fun n id hx => ⟨n, (h.reconstruct p).home c n id hx⟩
  unfold handleIn
  simp only
  split
  · exact hrec
  · rename_i pkt hp
    refine hrec.trans ?_
    unfold process
    split
    · exact handleConnect_by J hid (ne_nil_of_head (nsp_head_of_handleIn (h.recon c) hp))
    · unfold handleDisconnect
      split
      · exact .refl _
      · rename_i x hx
        exact disconnectSocket_by J (hhome _ x hx) _
    · unfold handleEvent
      split
      · rename_i x name args hx _
        exact .one (.perform (.dispatch x name args pkt.id)) ⟨trivial, hhome _ x hx⟩ rfl
      · exact .refl _
    · unfold handleAck
      split
      · exact .refl _
      · rename_i x hx
        exact .one (.perform (.invoke x pkt.id _)) ⟨trivial, hhome _ x hx⟩ rfl
    · exact .refl _

variable (S J) in
theorem disconnectSocket_reaches (id : SocketId) (reason : String) :
    Reaches (step J) SectionOk S (S.disconnectSocket J id reason) := by
  cases hs : S.heap id with
  | none =>
    rw [disconnectSocket, hs]
    exact .refl S
  | some s =>
    have ho : S.Owns s.ec id := ⟨s.nsp, origin_eq_some.mpr ⟨s, hs, rfl, rfl⟩⟩
    exact (disconnectSocket_by J ho reason).mono fun _ _ => And.left

theorem modifyConn_modifyConn (f g : EngineConn → EngineConn) :
    (S.modifyConn c f).modifyConn c g = S.modifyConn c fun ec => g (f ec) := by
  simp [modifyConn]

variable (S J) in
theorem onEngineClose_reaches (es : EngineId) (reason : String) (order : List SocketId) :
    Reaches (step J) SectionOk S (S.onEngineClose J es reason order) := by
  unfold onEngineClose
  split
  · exact .refl S
  · rename_i c _
    have hsnap : Reaches (step J) SectionOk S (((S.remove es).closeQueue c).clearSockets c) :=
      ((Reaches.one (.remove es) trivial rfl).then (.closeQueue c) trivial rfl).then
        (.clearSockets c) trivial rfl
    rw [clearSockets, closeQueue, modifyConn_modifyConn] at hsnap
    exact List.foldlRecOn order _ hsnap fun T hT x _ => hT.trans (disconnectSocket_reaches T J x _)

variable (J) in
theorem broadcast_reaches (name event : Bytes) (targets : List (SocketId × List Value)) :
    Reaches (step J) SectionOk S (S.broadcast J name event targets).1 := by
  induction targets generalizing S with
  | nil => exact .refl S
  | cons t targets ih =>
    refine .trans ?_ ih
    simp only [emit]
    split
    · exact .refl S
    · split_ifs
      · split
        · exact .refl S
        · split_ifs
          · exact .one (.send _ _) trivial rfl
          · exact .refl S
      · exact .refl S

theorem call_reaches {l : Call} (h : Attributed S) (hok : S.CallOk l) (hs : S.call J l = some S') :
    Reaches (step J) SectionOk S S' := by
  cases l with
  | data c p id =>
    rw [← Option.some.inj hs]
    exact (handleIn_by J h hok).mono fun _ _ => And.left
  | close es reason order => exact Option.some.inj hs ▸ onEngineClose_reaches S J es reason order
  | disconnect id => exact Option.some.inj hs ▸ disconnectSocket_reaches S J id _
  | joinRoom id room => exact .one (.joinRoom id room) trivial hs
  | leaveRoom id room => exact .one (.leaveRoom id room) trivial hs
  | reader i r => exact .one (.reader i r) trivial hs
  | broadcast name event targets => exact Option.some.inj hs ▸ broadcast_reaches J name event targets

theorem attributed_of_unused (hconns : ∀ c, S.conns c = {}) : Attributed S := by
  refine ⟨fun c n id hx => ?_, fun c => ?_⟩
  · simp [attached, hconns] at hx
  · rw [Server.recon, hconns]
    simp [ReconOk]

theorem Interleaved.attributed (h : Interleaved J S) : Attributed S := by
  obtain ⟨S₀, ls, -, hconns, hrun⟩ := h
  exact hrun.invariant Attributed (attributed_of_unused hconns)
    fun _ _ _ h hok hs => Option.some.inj hs ▸ h.run hok

theorem Interleaved.reaches (h : Interleaved J S) (hr : Reaches (step J) SectionOk S S') :
    Interleaved J S' := by
  obtain ⟨S₀, ls, hnsps, hconns, hrun⟩ := h
  obtain ⟨ms, hr⟩ := hr
  exact ⟨S₀, ls ++ ms, hnsps, hconns, hrun.append hr⟩

/-- What whole calls lead to, their sections lead to. -/
theorem Reachable.interleaved (h : Reachable J S) : Interleaved J S := by
  obtain ⟨S₀, ls, hnsps, hconns, hrun⟩ := h
  exact hrun.invariant (Interleaved J) ⟨S₀, [], hnsps, hconns, .nil⟩
    fun _ _ _ h hok hs => h.reaches (call_reaches h.attributed hok hs)

end Decompose

end Gosocketio.Server

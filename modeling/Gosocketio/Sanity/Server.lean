import Gosocketio.Spec.Server

/-! The tables of the server as seen by the proofs, and what each critical
section does to them. -/

namespace Gosocketio.Server

section Views

variable (S : Server)

def known (name : Bytes) : Bool := (S.nsps name).isSome

/-- The ids registered in a namespace. -/
def sockets (name : Bytes) : Finset SocketId := (S.nsps name).elim ∅ Namespace.sockets

def adapter (name : Bytes) : Adapter := (S.nsps name).elim {} Namespace.adapter

/-- `ec.sockets[nsp]`. -/
def attached (c : ConnId) (nsp : Bytes) : Option SocketId := (S.conns c).sockets.lookup nsp

/-- The connection and the namespace a socket was created for. -/
def origin (id : SocketId) : Option (ConnId × Bytes) := (S.heap id).map fun s => (s.ec, s.nsp)

def connected (id : SocketId) : Bool := (S.heap id).elim false Socket.connected

def recon (c : ConnId) : Option Reconstructor := (S.conns c).recon

end Views

section Sections

variable (S : Server) (name n : Bytes) (id x : SocketId) (c d : ConnId) (nsp : Bytes) (b : Bool)

theorem nsps_modifyNsp (f : Namespace → Namespace) :
    (S.modifyNsp name f).nsps n = if n = name then (S.nsps n).map f else S.nsps n := by
  unfold modifyNsp
  by_cases h : n = name
  · subst h
    simp
  · simp [h]

@[simp] theorem known_modifyNsp (f : Namespace → Namespace) :
    (S.modifyNsp name f).known n = S.known n := by
  rw [known, nsps_modifyNsp]
  split_ifs <;> simp [known]

@[simp] theorem sockets_register : (S.register name id).sockets n =
    if n = name ∧ S.known n then insert id (S.sockets n) else S.sockets n := by
  unfold sockets register known
  rw [nsps_modifyNsp]
  generalize S.nsps n = o
  by_cases hn : n = name <;> cases o <;> simp [hn]

@[simp] theorem sockets_unregister : (S.unregister name id).sockets n =
    if n = name then (S.sockets n).erase id else S.sockets n := by
  unfold sockets unregister
  rw [nsps_modifyNsp]
  generalize S.nsps n = o
  by_cases hn : n = name <;> cases o <;> simp [hn]

@[simp] theorem sockets_join : (S.join name id).sockets n = S.sockets n := by
  unfold sockets join
  rw [nsps_modifyNsp]
  generalize S.nsps n = o
  by_cases hn : n = name <;> cases o <;> simp [hn]

@[simp] theorem sockets_leave : (S.leave name id).sockets n = S.sockets n := by
  unfold sockets leave
  rw [nsps_modifyNsp]
  generalize S.nsps n = o
  by_cases hn : n = name <;> cases o <;> simp [hn]

@[simp] theorem adapter_register : (S.register name id).adapter n = S.adapter n := by
  unfold adapter register
  rw [nsps_modifyNsp]
  generalize S.nsps n = o
  by_cases hn : n = name <;> cases o <;> simp [hn]

@[simp] theorem adapter_unregister : (S.unregister name id).adapter n = S.adapter n := by
  unfold adapter unregister
  rw [nsps_modifyNsp]
  generalize S.nsps n = o
  by_cases hn : n = name <;> cases o <;> simp [hn]

theorem adapter_modifyAdapter (f : Adapter → Adapter) :
    (S.modifyNsp name fun n => { n with adapter := f n.adapter }).adapter n =
      if n = name ∧ S.known n then f (S.adapter n) else S.adapter n := by
  unfold adapter known
  rw [nsps_modifyNsp]
  generalize S.nsps n = o
  by_cases hn : n = name <;> cases o <;> simp [hn]

@[simp] theorem adapter_join : (S.join name id).adapter n =
    if n = name ∧ S.known n then (S.adapter n).addSocket id else S.adapter n :=
  adapter_modifyAdapter S name n fun a => a.addSocket id

@[simp] theorem adapter_leave : (S.leave name id).adapter n =
    if n = name then (S.adapter n).removeSocket id else S.adapter n := by
  unfold adapter leave
  rw [nsps_modifyNsp]
  generalize S.nsps n = o
  by_cases hn : n = name <;> cases o <;> simp [hn, Adapter.removeSocket]

@[simp] theorem known_register : (S.register name id).known n = S.known n := known_modifyNsp ..
@[simp] theorem known_unregister : (S.unregister name id).known n = S.known n := known_modifyNsp ..
@[simp] theorem known_join : (S.join name id).known n = S.known n := known_modifyNsp ..
@[simp] theorem known_leave : (S.leave name id).known n = S.known n := known_modifyNsp ..

@[simp] theorem attached_attach : (S.attach c nsp id).attached d n =
    if d = c ∧ n = nsp then some id else S.attached d n := by
  unfold attach modifyConn attached
  by_cases hd : d = c
  · subst hd
    by_cases hn : n = nsp
    · subst hn
      simp
    · simp [hn, AList.lookup_insert_ne hn]
  · simp [hd]

@[simp] theorem attached_detach : (S.detach c nsp).attached d n =
    if d = c ∧ n = nsp then none else S.attached d n := by
  unfold detach modifyConn attached
  by_cases hd : d = c
  · subst hd
    by_cases hn : n = nsp
    · subst hn
      simp
    · simp [hn, AList.lookup_erase_ne hn]
  · simp [hd]

@[simp] theorem recon_attach : (S.attach c nsp id).recon d = S.recon d := by
  unfold attach modifyConn recon
  by_cases hd : d = c
  · subst hd
    simp
  · simp [hd]

@[simp] theorem recon_detach : (S.detach c nsp).recon d = S.recon d := by
  unfold detach modifyConn recon
  by_cases hd : d = c
  · subst hd
    simp
  · simp [hd]

@[simp] theorem origin_modifySocket (f : Socket → Socket)
    (hf : ∀ s, (f s).ec = s.ec ∧ (f s).nsp = s.nsp) :
    (S.modifySocket id f).origin x = S.origin x := by
  unfold modifySocket origin
  by_cases h : x = id
  · subst h
    cases S.heap x with
    | none => simp
    | some s => simp [hf s]
  · simp [h]

@[simp] theorem origin_setConnected : (S.setConnected id b).origin x = S.origin x :=
  origin_modifySocket S id x _ fun _ => ⟨rfl, rfl⟩

@[simp] theorem origin_clearAcks : (S.clearAcks id).origin x = S.origin x :=
  origin_modifySocket S id x _ fun _ => ⟨rfl, rfl⟩

@[simp] theorem origin_newSocket : (S.newSocket id name c).origin x =
    if x = id then some (c, name) else S.origin x := by
  unfold newSocket origin
  by_cases h : x = id
  · subst h
    simp
  · simp [h]

end Sections

/-- Two states that agree on every table but the connected flags, the pending
acknowledgements, the queues and the messages sent. -/
structure Same (S S' : Server) : Prop where
  nsps : S'.nsps = S.nsps
  attached : S'.attached = S.attached
  recon : S'.recon = S.recon
  origin : S'.origin = S.origin

section Same

variable {S S' S'' : Server} (J : Json) (c : ConnId) (id : SocketId) (b : Bool)

theorem sockets_congr (h : S'.nsps = S.nsps) (n : Bytes) : S'.sockets n = S.sockets n := by
  rw [sockets, h, sockets]

theorem adapter_congr (h : S'.nsps = S.nsps) (n : Bytes) : S'.adapter n = S.adapter n := by
  rw [adapter, h, adapter]

theorem Same.trans (h : Same S S') (h' : Same S' S'') : Same S S'' :=
  ⟨h'.nsps.trans h.nsps, h'.attached.trans h.attached, h'.recon.trans h.recon,
    h'.origin.trans h.origin⟩

theorem same_setConnected : Same S (S.setConnected id b) :=
  ⟨rfl, rfl, rfl, funext fun x => origin_setConnected S id x b⟩

theorem same_clearAcks : Same S (S.clearAcks id) :=
  ⟨rfl, rfl, rfl, funext fun x => origin_clearAcks S id x⟩

theorem same_perform (e : Effect) : Same S (S.perform e) := ⟨rfl, rfl, rfl, rfl⟩

theorem same_sendPacket (pkt : Packet) : Same S (S.sendPacket J c pkt) := by
  refine ⟨rfl, ?_, ?_, rfl⟩
  · funext d n
    unfold sendPacket modifyConn attached
    by_cases hd : d = c
    · subst hd
      simp
    · simp [hd]
  · funext d
    unfold sendPacket modifyConn recon
    by_cases hd : d = c
    · subst hd
      simp
    · simp [hd]

variable (h : Same S S') (n : Bytes)

include h

theorem Same.known : S'.known n = S.known n := by rw [Server.known, h.nsps]; rfl
theorem Same.sockets : S'.sockets n = S.sockets n := sockets_congr h.nsps n
theorem Same.adapter : S'.adapter n = S.adapter n := adapter_congr h.nsps n

end Same

/-- `S'` is `S` without the socket `id` of namespace `name`, whose connection no
longer has a socket there. -/
structure Dropped (S S' : Server) (c : ConnId) (name : Bytes) (id : SocketId) : Prop where
  known : ∀ n, S'.known n = S.known n
  sockets : ∀ n, S'.sockets n = if n = name then (S.sockets n).erase id else S.sockets n
  adapter : ∀ n, S'.adapter n = if n = name then (S.adapter n).removeSocket id else S.adapter n
  attached : ∀ d n, S'.attached d n = if d = c ∧ n = name then none else S.attached d n
  recon : S'.recon = S.recon
  origin : S'.origin = S.origin

section Dropped

variable {S S' : Server} (J : Json) (c : ConnId) (name : Bytes) (id : SocketId)

variable {c name id} in
theorem Dropped.same_right {S'' : Server} (h : Dropped S S' c name id) (h' : Same S' S'') :
    Dropped S S'' c name id where
  known n := (h'.known n).trans (h.known n)
  sockets n := (h'.sockets n).trans (h.sockets n)
  adapter n := (h'.adapter n).trans (h.adapter n)
  attached d n := by rw [h'.attached]; exact h.attached d n
  recon := h'.recon.trans h.recon
  origin := h'.origin.trans h.origin

variable {c name id} in
theorem Dropped.same_left {S₀ : Server} (h : Dropped S S' c name id) (h' : Same S₀ S) :
    Dropped S₀ S' c name id where
  known n := (h.known n).trans (h'.known n)
  sockets n := by rw [h.sockets, h'.sockets]
  adapter n := by rw [h.adapter, h'.adapter]
  attached d n := by rw [h.attached, h'.attached]
  recon := h.recon.trans h'.recon
  origin := h.origin.trans h'.origin

theorem dropped_detach (h : Same (S.removeSocket name id) S') :
    Dropped S (S'.detach c name) c name id where
  known n := by
    change S'.known n = _
    rw [h.known, removeSocket]
    simp
  sockets n := by
    change S'.sockets n = _
    rw [h.sockets, removeSocket]
    simp
  adapter n := by
    change S'.adapter n = _
    rw [h.adapter, removeSocket]
    simp
  attached d n := by
    rw [attached_detach, h.attached]
    rfl
  recon := by
    funext d
    rw [recon_detach, h.recon]
    rfl
  origin := h.origin

theorem dropped_rejectConnect (msg : Bytes) :
    Dropped S (S.rejectConnect J c id name msg) c name id := by
  apply (dropped_detach c name id ⟨rfl, rfl, rfl, rfl⟩).same_right
  rw [rejectConnect, sendConnectError]
  exact (same_setConnected id false).trans (same_sendPacket J c _)

theorem disconnectSocket_of_notMem (reason : String) (ho : S.origin id = some (c, name))
    (hid : id ∉ S.sockets name) : S.disconnectSocket J id reason = S := by
  unfold disconnectSocket
  split
  · rfl
  · rename_i s hs
    split
    · rfl
    · rename_i ns hns
      simp only [origin, hs, Option.map_some, Option.some.injEq, Prod.mk.injEq] at ho
      rw [← ho.2, sockets, hns] at hid
      exact if_pos hid

theorem dropped_disconnectSocket (reason : String) (ho : S.origin id = some (c, name))
    (hid : id ∈ S.sockets name) : Dropped S (S.disconnectSocket J id reason) c name id := by
  obtain ⟨s, hs, hec⟩ := Option.map_eq_some_iff.mp ho
  obtain ⟨rfl, rfl⟩ := Prod.mk.inj hec
  obtain ⟨ns, hns⟩ : ∃ ns, S.nsps s.nsp = some ns := by
    rw [← Option.isSome_iff_exists]
    by_contra hnone
    rw [Option.not_isSome_iff_eq_none] at hnone
    simp [sockets, hnone] at hid
  have hmem : id ∈ ns.sockets := by simpa [sockets, hns] using hid
  unfold disconnectSocket
  simp only [hs, hns, not_true_eq_false, hmem, if_false]
  apply dropped_detach
  have hflags : Same (S.removeSocket s.nsp id)
      (((S.removeSocket s.nsp id).setConnected id false).clearAcks id) :=
    (same_setConnected id false).trans (same_clearAcks id)
  split_ifs
  · exact (hflags.trans (same_sendPacket J _ _)).trans (same_perform _)
  · exact hflags.trans (same_perform _)

end Dropped

end Gosocketio.Server

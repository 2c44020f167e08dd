import Gosocketio.Proofs.NonVacuityJson
import Gosocketio.Sanity.Packet
import Gosocketio.Sanity.Server

/-! The sockets of one Engine.IO connection. While the connection sends no CONNECT
for a namespace in which it has a socket, the three tables that know the sockets
agree; the first such CONNECT breaks the agreement for good. -/

namespace Gosocketio.Server

open Runs

def Owns (S : Server) (c : ConnId) (id : SocketId) : Prop := ∃ m, S.origin id = some (c, m)

/-- In every namespace the sockets of the connection that are registered are at
most one, it is the one the connection refers to, and its id is in the adapter. -/
structure OneLive (S : Server) (c : ConnId) : Prop where
  live : ∀ n id, (id ∈ S.sockets n ∧ S.Owns c id) ↔ S.attached c n = some id
  member : ∀ n id, S.attached c n = some id → id ∈ (S.adapter n).ids

/-- What keeps it so: a socket is attached under the namespace it was created
for, the adapters hold no other id of the connection, and every id in use belongs
to a socket that was created. -/
structure Inv (S : Server) (c : ConnId) : Prop extends OneLive S c where
  home : ∀ n id, S.attached c n = some id → S.origin id = some (c, n)
  strays : ∀ n id, S.Owns c id → (S.adapter n).Has id → id ∈ S.sockets n
  bound : ∀ n id, id ∈ S.sockets n ∨ (S.adapter n).Has id → S.origin id ≠ none
  recon : ReconOk (S.recon c)

section Preserve

variable {S S' : Server} {c : ConnId} {id : SocketId} {name : Bytes}

theorem Inv.same (h : Inv S c) (hs : Same S S') : Inv S' c := by
  have howns (x : SocketId) : S'.Owns c x ↔ S.Owns c x := by rw [Owns, Owns, hs.origin]
  refine ⟨⟨fun n x => ?_, fun n x hx => ?_⟩, fun n x hx => ?_, fun n x ho hx => ?_, fun n x hx => ?_, ?_⟩
  · rw [hs.sockets, howns, hs.attached]
    exact h.live n x
  · rw [hs.attached] at hx
    rw [hs.adapter]
    exact h.member n x hx
  · rw [hs.attached] at hx
    rw [hs.origin]
    exact h.home n x hx
  · rw [howns] at ho
    rw [hs.adapter] at hx
    rw [hs.sockets]
    exact h.strays n x ho hx
  · rw [hs.sockets, hs.adapter] at hx
    rw [hs.origin]
    exact h.bound n x hx
  · rw [hs.recon]
    exact h.recon

theorem Inv.unused (h : Inv S c) (hid : S.origin id = none) (n : Bytes) :
    id ∉ S.sockets n ∧ ¬ (S.adapter n).Has id ∧ S.attached c n ≠ some id :=
  ⟨fun hx => h.bound n id (.inl hx) hid, fun hx => h.bound n id (.inr hx) hid,
    fun hx => by rw [h.home n id hx] at hid; cases hid⟩

theorem Inv.new (h : Inv S c) (hid : S.origin id = none) : Inv (S.newSocket id name c) c := by
  have horigin (x : SocketId) (hx : x ≠ id) : (S.newSocket id name c).origin x = S.origin x := by
    rw [origin_newSocket, if_neg hx]
  have howns (x : SocketId) (hx : x ≠ id) : (S.newSocket id name c).Owns c x ↔ S.Owns c x := by
    rw [Owns, Owns, horigin x hx]
  have hunused := h.unused hid
  refine ⟨⟨fun n x => ?_, h.member⟩, fun n x hx => ?_, fun n x ho hx => ?_, fun n x hx => ?_, h.recon⟩
  · change (x ∈ S.sockets n ∧ _) ↔ S.attached c n = some x
    by_cases hx : x = id
    · subst hx
      exact iff_of_false (fun hc => (hunused n).1 hc.1) (hunused n).2.2
    · rw [howns x hx]
      exact h.live n x
  · have hne : x ≠ id := fun he => (hunused n).2.2 (he ▸ hx)
    rw [horigin x hne]
    exact h.home n x hx
  · have hne : x ≠ id := fun he => (hunused n).2.1 (he ▸ hx)
    rw [howns x hne] at ho
    exact h.strays n x ho hx
  · have hne : x ≠ id := by
      rintro rfl
      rcases hx with hx | hx
      · exact (hunused n).1 hx
      · exact (hunused n).2.1 hx
    rw [horigin x hne]
    exact h.bound n x hx

theorem Inv.add (h : Inv S c) (hfree : S.attached c name = none) (hknown : S.known name = true)
    (ho : S.origin id = some (c, name))
    (hid : ∀ n, id ∉ S.sockets n ∧ ¬ (S.adapter n).Has id) :
    Inv ((S.addSocket name id).attach c name id) c := by
  have hsockets (n : Bytes) : ((S.addSocket name id).attach c name id).sockets n =
      if n = name then insert id (S.sockets n) else S.sockets n := by
    change ((S.register name id).join name id).sockets n = _
    by_cases hn : n = name <;> simp [hn, hknown]
  have hadapter (n : Bytes) : ((S.addSocket name id).attach c name id).adapter n =
      if n = name then (S.adapter n).addSocket id else S.adapter n := by
    change ((S.register name id).join name id).adapter n = _
    by_cases hn : n = name <;> simp [hn, hknown]
  have hattached (n : Bytes) : ((S.addSocket name id).attach c name id).attached c n =
      if n = name then some id else S.attached c n := by
    rw [attached_attach]
    simp only [true_and]
    rfl
  refine ⟨⟨fun n x => ?_, fun n x hx => ?_⟩, fun n x hx => ?_, fun n x hown hx => ?_,
    fun n x hx => ?_, ?_⟩
  · change (_ ∧ S.Owns c x) ↔ _
    rw [hsockets, hattached]
    by_cases hn : n = name
    · subst hn
      simp only [if_true, Finset.mem_insert, Option.some.injEq]
      constructor
      · rintro ⟨rfl | hx, hown⟩
        · rfl
        · rw [(h.live n x).mp ⟨hx, hown⟩] at hfree
          cases hfree
      · rintro rfl
        exact ⟨.inl rfl, n, ho⟩
    · simp only [if_neg hn]
      exact h.live n x
  · rw [hattached] at hx
    rw [hadapter]
    split_ifs at hx ⊢ with hn
    · rw [← Option.some.inj hx]
      exact Finset.mem_insert_self id _
    · exact h.member n x hx
  · change S.origin x = _
    rw [hattached] at hx
    split_ifs at hx with hn
    · rw [← Option.some.inj hx, hn]
      exact ho
    · exact h.home n x hx
  · rw [hadapter] at hx
    rw [hsockets]
    split_ifs at hx ⊢ with hn
    · rcases (Adapter.has_addSocket _ _ _).mp hx with rfl | hx
      · exact Finset.mem_insert_self x _
      · exact Finset.mem_insert_of_mem (h.strays n x hown hx)
    · exact h.strays n x hown hx
  · change S.origin x ≠ none
    rw [hsockets, hadapter] at hx
    by_cases hxid : x = id
    · rw [hxid, ho]
      exact nofun
    · apply h.bound n x
      split_ifs at hx with hn
      · simpa [hxid] using hx
      · exact hx
  · rw [recon_attach]
    exact h.recon

/-- A socket is dropped that is the connection's socket in its namespace, if the
connection has one there. -/
theorem Inv.drop (h : Inv S c) (hd : Dropped S S' c name id)
    (hid : S.attached c name = some id ∨ S.attached c name = none) : Inv S' c := by
  have howns (x : SocketId) : S'.Owns c x ↔ S.Owns c x := by rw [Owns, Owns, hd.origin]
  refine ⟨⟨fun n x => ?_, fun n x hx => ?_⟩, fun n x hx => ?_, fun n x ho hx => ?_,
    fun n x hx => ?_, ?_⟩
  · rw [hd.sockets, howns, hd.attached]
    by_cases hn : n = name
    · subst hn
      simp only [if_true, true_and, reduceCtorEq, iff_false, Finset.mem_erase, not_and]
      rintro ⟨hne, hx⟩ hown
      have hlive := (h.live n x).mp ⟨hx, hown⟩
      rcases hid with hid | hid
      · rw [hid] at hlive
        exact hne (Option.some.inj hlive).symm
      · rw [hid] at hlive
        cases hlive
    · simp only [hn, and_false, if_false]
      exact h.live n x
  · rw [hd.attached] at hx
    split_ifs at hx with hn
    have hn' : n ≠ name := fun he => hn ⟨rfl, he⟩
    rw [hd.adapter, if_neg hn']
    exact h.member n x hx
  · rw [hd.attached] at hx
    split_ifs at hx with hn
    rw [hd.origin]
    exact h.home n x hx
  · rw [howns] at ho
    rw [hd.adapter] at hx
    rw [hd.sockets]
    split_ifs at hx ⊢ with hn
    · rw [Adapter.has_removeSocket] at hx
      exact Finset.mem_erase.mpr ⟨hx.1, h.strays n x ho hx.2⟩
    · exact h.strays n x ho hx
  · rw [hd.origin]
    apply h.bound n x
    rw [hd.sockets, hd.adapter] at hx
    split_ifs at hx
    · rw [Finset.mem_erase, Adapter.has_removeSocket] at hx
      exact hx.imp And.right And.right
    · exact hx
  · rw [hd.recon]
    exact h.recon

end Preserve

section Steps

variable {S : Server} (J : Json) {c : ConnId} {id : SocketId} {pkt : Packet}

variable (S c id) in
/-- How `handleConnect` ends: the namespace is unknown, a middleware refuses, a
connect handler refuses, or the socket is accepted. -/
theorem handleConnect_cases (hnsp : pkt.nsp ≠ []) :
    (S.known pkt.nsp = false ∧ Same S (S.handleConnect J c pkt id)) ∨
    (S.known pkt.nsp = true ∧
      let S₁ := S.newSocket id pkt.nsp c
      let S₂ := (S₁.addSocket pkt.nsp id).attach c pkt.nsp id
      Dropped S₁ (S.handleConnect J c pkt id) c pkt.nsp id ∨
      Dropped S₂ (S.handleConnect J c pkt id) c pkt.nsp id ∨
      Same S₂ (S.handleConnect J c pkt id)) := by
  have hname : namespaceName pkt.nsp = pkt.nsp := if_neg hnsp
  unfold handleConnect
  simp only [namespaceLookup, hname]
  cases hns : S.nsps pkt.nsp with
  | none =>
    exact .inl ⟨by rw [known, hns]; rfl, same_sendPacket J c _⟩
  | some ns =>
    refine .inr ⟨by rw [known, hns]; rfl, ?_⟩
    simp only
    cases runMiddlewares ns id (connectData pkt.data) with
    | some err => exact .inl (dropped_rejectConnect J c pkt.nsp id err)
    | none =>
      have hflag := same_setConnected (S := ((S.newSocket id pkt.nsp c).addSocket pkt.nsp id).attach c
        pkt.nsp id) id true
      cases runConnect ns id with
      | some err =>
        exact .inr (.inl ((dropped_rejectConnect J c pkt.nsp id err).same_left hflag))
      | none => exact .inr (.inr (hflag.trans (same_sendPacket J c _)))

/-- The packet that a message completes is a CONNECT for a namespace in which the
connection has a socket. -/
def Repeats (S : Server) (c : ConnId) (p : InPacket) : Bool :=
  match (Gosocketio.handleIn J (S.recon c) p).2 with
  | some pkt => pkt.type = .connect && (S.attached c pkt.nsp).isSome
  | none => false

theorem handleConnect_inv (h : Inv S c) (hid : S.origin id = none) (hnsp : pkt.nsp ≠ [])
    (hfree : S.attached c pkt.nsp = none) : Inv (S.handleConnect J c pkt id) c := by
  have hnew : Inv (S.newSocket id pkt.nsp c) c := h.new hid
  rcases handleConnect_cases S J c id hnsp with ⟨-, hs⟩ | ⟨hknown, hcases⟩
  · exact h.same hs
  · have hadd : Inv (((S.newSocket id pkt.nsp c).addSocket pkt.nsp id).attach c pkt.nsp id) c := by
      apply hnew.add hfree hknown
      · rw [origin_newSocket, if_pos rfl]
      · exact fun n => ⟨(h.unused hid n).1, (h.unused hid n).2.1⟩
    rcases hcases with hd | hd | hs
    · exact hnew.drop hd (.inr hfree)
    · refine hadd.drop hd (.inl ?_)
      rw [attached_attach]
      exact if_pos ⟨rfl, rfl⟩
    · exact hadd.same hs

theorem handleDisconnect_inv (h : Inv S c) : Inv (S.handleDisconnect J c pkt) c := by
  unfold handleDisconnect
  split
  · exact h
  · rename_i id hid
    have hmem := ((h.live pkt.nsp id).mpr hid).1
    exact h.drop (dropped_disconnectSocket J c pkt.nsp id _ (h.home _ _ hid) hmem) (.inl hid)

theorem process_inv (h : Inv S c) (hid : S.origin id = none) (hnsp : pkt.nsp ≠ [])
    (hfree : pkt.type = .connect → S.attached c pkt.nsp = none) : Inv (S.process J c pkt id) c := by
  unfold process
  split
  · rename_i htype
    exact handleConnect_inv J h hid hnsp (hfree htype)
  · exact handleDisconnect_inv J h
  · unfold handleEvent
    split
    · exact h.same (same_perform _)
    · exact h
  · unfold handleAck
    split
    · exact h
    · exact h.same (same_perform _)
  · exact h

/-- A repeated CONNECT leaves the first socket registered, and the connection
without a reference to it. -/
theorem handleConnect_breaks (h : Inv S c) (hid : S.origin id = none) (hnsp : pkt.nsp ≠ [])
    {old : SocketId} (hold : S.attached c pkt.nsp = some old) :
    ¬ OneLive (S.handleConnect J c pkt id) c := by
  obtain ⟨hmem, howns⟩ := (h.live _ _).mpr hold
  have hne : old ≠ id := by
    rintro rfl
    exact (h.unused hid pkt.nsp).2.2 hold
  have hknown : S.known pkt.nsp = true := by
    cases hns : S.nsps pkt.nsp with
    | none => simp [sockets, hns] at hmem
    | some ns => rw [known, hns]; rfl
  have hown : (S.newSocket id pkt.nsp c).Owns c old := by
    rw [Owns, origin_newSocket, if_neg hne]
    exact howns
  have hmem₂ : old ∈ (((S.newSocket id pkt.nsp c).addSocket pkt.nsp id).attach c pkt.nsp id).sockets
      pkt.nsp := by
    change old ∈ (((S.newSocket id pkt.nsp c).register pkt.nsp id).join pkt.nsp id).sockets pkt.nsp
    rw [sockets_join, sockets_register]
    split_ifs
    · exact Finset.mem_insert_of_mem hmem
    · exact hmem
  intro hlive
  -- in each outcome `old` is registered and not attached
  have key : old ∈ (S.handleConnect J c pkt id).sockets pkt.nsp ∧
      (S.handleConnect J c pkt id).Owns c old ∧
      (S.handleConnect J c pkt id).attached c pkt.nsp ≠ some old := by
    rcases handleConnect_cases S J c id hnsp with
      ⟨hun, -⟩ | ⟨-, hd | hd | hs⟩
    · rw [hknown] at hun
      cases hun
    · rw [hd.sockets, if_pos rfl, hd.attached, if_pos ⟨rfl, rfl⟩, Owns, hd.origin]
      exact ⟨Finset.mem_erase.mpr ⟨hne, hmem⟩, hown, by simp⟩
    · rw [hd.sockets, if_pos rfl, hd.attached, if_pos ⟨rfl, rfl⟩, Owns, hd.origin]
      exact ⟨Finset.mem_erase.mpr ⟨hne, hmem₂⟩, hown, by simp⟩
    · rw [hs.sockets, hs.attached, attached_attach, if_pos ⟨rfl, rfl⟩, Owns, hs.origin]
      exact ⟨hmem₂, hown, fun he => hne (Option.some.inj he).symm⟩
  exact key.2.2 ((hlive.live _ _).mp ⟨key.1, key.2.1⟩)

theorem Inv.setRecon (h : Inv S c) {r : Option Reconstructor} (hr : ReconOk r) :
    Inv (S.modifyConn c fun ec => { ec with recon := r }) c := by
  have hattached (n : Bytes) :
      (S.modifyConn c fun ec => { ec with recon := r }).attached c n = S.attached c n := by
    simp [modifyConn, attached]
  refine ⟨⟨fun n x => ?_, fun n x hx => ?_⟩, fun n x hx => ?_, h.strays, h.bound, ?_⟩
  · rw [hattached]
    exact h.live n x
  · rw [hattached] at hx
    exact h.member n x hx
  · rw [hattached] at hx
    exact h.home n x hx
  · simpa [modifyConn, Server.recon] using hr

theorem attached_setRecon (S : Server) (c : ConnId) (r : Option Reconstructor) (n : Bytes) :
    (S.modifyConn c fun ec => { ec with recon := r }).attached c n = S.attached c n := by
  simp [modifyConn, attached]

theorem ne_nil_of_head {b : Bytes} {x : UInt8} (h : b.head? = some x) : b ≠ [] := by
  rintro rfl
  cases h

theorem handleIn_inv {p : InPacket} (h : Inv S c) (hid : S.origin id = none)
    (hrep : Repeats J S c p = false) : Inv (S.handleIn J c p id) c := by
  have hrec := h.setRecon (reconOk_handleIn (J := J) (m := p) h.recon)
  unfold handleIn
  simp only
  split
  · exact hrec
  · rename_i pkt hp
    have hnsp := ne_nil_of_head (nsp_head_of_handleIn h.recon hp)
    apply process_inv J hrec hid hnsp
    intro htype
    rw [attached_setRecon]
    rw [Repeats, recon, hp] at hrep
    simpa [htype] using hrep

theorem handleIn_breaks {p : InPacket} (h : Inv S c) (hid : S.origin id = none)
    (hrep : Repeats J S c p = true) : ¬ OneLive (S.handleIn J c p id) c := by
  have hrec := h.setRecon (reconOk_handleIn (J := J) (m := p) h.recon)
  unfold Repeats at hrep
  split at hrep
  · rename_i pkt hp
    simp only [Bool.and_eq_true, decide_eq_true_eq] at hrep
    obtain ⟨old, hold⟩ := Option.isSome_iff_exists.mp hrep.2
    have hnsp := ne_nil_of_head (nsp_head_of_handleIn h.recon hp)
    rw [recon] at hp
    unfold handleIn
    simp only [hp, process, hrep.1]
    apply handleConnect_breaks J hrec hid hnsp
    rw [attached_setRecon]
    exact hold
  · cases hrep

end Steps

section Close

variable {S : Server} (J : Json) {c : ConnId}

/-- Disconnecting sockets one by one, of which every registered socket of the
connection is one, leaves none of them in a namespace or an adapter. -/
theorem disconnect_all (reason : String) (order : List SocketId)
    (hhome : ∀ n id, S.Owns c id → id ∈ S.sockets n → S.origin id = some (c, n))
    (hstrays : ∀ n id, S.Owns c id → (S.adapter n).Has id → id ∈ S.sockets n)
    (hall : ∀ n id, S.Owns c id → id ∈ S.sockets n → id ∈ order) :
    ∀ n id, S.Owns c id →
      id ∉ (order.foldl (fun S id => S.disconnectSocket J id reason) S).sockets n ∧
      ¬ ((order.foldl (fun S id => S.disconnectSocket J id reason) S).adapter n).Has id := by
  induction order generalizing S with
  | nil =>
    intro n id ho
    have hreg : id ∉ S.sockets n := fun hx => by simpa using hall n id ho hx
    exact ⟨hreg, fun hx => hreg (hstrays n id ho hx)⟩
  | cons x order ih =>
    rw [List.foldl_cons]
    by_cases hx : ∃ d m, S.origin x = some (d, m) ∧ x ∈ S.sockets m
    · obtain ⟨d, m, hox, hmem⟩ := hx
      have hd := dropped_disconnectSocket J d m x reason hox hmem
      have howns (id : SocketId) : (S.disconnectSocket J x reason).Owns c id ↔ S.Owns c id := by
        rw [Owns, Owns, hd.origin]
      have hsub (n : Bytes) (id : SocketId) (h : id ∈ (S.disconnectSocket J x reason).sockets n) :
          id ∈ S.sockets n ∧ (n = m → id ≠ x) := by
        rw [hd.sockets] at h
        split_ifs at h with hn
        · exact ⟨Finset.mem_of_mem_erase h, fun _ => Finset.ne_of_mem_erase h⟩
        · exact ⟨h, fun he => absurd he hn⟩
      intro n id ho
      rw [← howns] at ho
      refine ih ?_ ?_ ?_ n id ho
      · intro n id ho h
        rw [hd.origin]
        exact hhome n id ((howns id).mp ho) (hsub n id h).1
      · intro n id ho h
        rw [hd.adapter] at h
        rw [hd.sockets]
        split_ifs at h ⊢ with hn
        · rw [Adapter.has_removeSocket] at h
          exact Finset.mem_erase.mpr ⟨h.1, hstrays n id ((howns id).mp ho) h.2⟩
        · exact hstrays n id ((howns id).mp ho) h
      · intro n id ho h
        have hin := hall n id ((howns id).mp ho) (hsub n id h).1
        rcases List.mem_cons.mp hin with rfl | hin
        · -- `x` itself is no longer registered in its namespace
          have hhome' := hhome n id ((howns id).mp ho) (hsub n id h).1
          rw [hox, Option.some.injEq, Prod.mk.injEq] at hhome'
          exact absurd rfl ((hsub n id h).2 hhome'.2.symm)
        · exact hin
    · have hsame : S.disconnectSocket J x reason = S := by
        cases hox : S.origin x with
        | none =>
          rw [origin, Option.map_eq_none_iff] at hox
          rw [disconnectSocket, hox]
        | some dm =>
          apply disconnectSocket_of_notMem J dm.1 dm.2 x reason hox
          exact fun hmem => hx ⟨dm.1, dm.2, hox, hmem⟩
      rw [hsame]
      apply ih hhome hstrays
      intro n id ho h
      rcases List.mem_cons.mp (hall n id ho h) with rfl | hin
      · exact absurd ⟨c, n, hhome n id ho h, h⟩ hx
      · exact hin

/-- Closing the connection leaves none of its sockets in a namespace or an
adapter, in whatever order the sockets are visited. -/
def ClosesClean (S : Server) (c : ConnId) : Prop :=
  ∀ (es : EngineId) (reason : String) (order : List SocketId), S.engines es = some c →
    order.Perm ((S.conns c).sockets.entries.map Sigma.snd) → ∀ n id, S.Owns c id →
      id ∉ (S.onEngineClose J es reason order).sockets n ∧
      ¬ ((S.onEngineClose J es reason order).adapter n).Has id

theorem Inv.closesClean (h : Inv S c) : ClosesClean J S c := by
  intro es reason order hes horder n id ho
  have hclose : S.onEngineClose J es reason order =
      order.foldl (fun S id => S.disconnectSocket J id (mapDisconnectReason reason))
        (({ S with engines := Function.update S.engines es none } : Server).modifyConn c
          fun ec => { ec with closed := true, sockets := ∅ }) := by
    rw [onEngineClose, hes]
  rw [hclose]
  refine disconnect_all (c := c) J _ order ?_ ?_ ?_ n id ?_
  · exact fun n id ho hx => h.home n id ((h.live n id).mp ⟨hx, ho⟩)
  · exact h.strays
  · intro n id ho hx
    rw [horder.mem_iff, List.mem_map]
    exact ⟨⟨n, id⟩, AList.mem_lookup_iff.mp ((h.live n id).mp ⟨hx, ho⟩), rfl⟩
  · exact ho

end Close

section Runs

variable (J : Json) (c : ConnId)

/-- The processing of one message; with it comes the id that `nextSocketID` would
return. -/
def frameStep (S : Server) (l : InPacket × SocketId) : Option Server :=
  some (S.handleIn J c l.1 l.2)

/-- The random id is not one that is already in use. -/
def FreshId (S : Server) (l : InPacket × SocketId) : Prop := S.origin l.2 = none

instance (S : Server) (l : InPacket × SocketId) : Decidable (FreshId S l) :=
  inferInstanceAs (Decidable (S.origin l.2 = none))

/-- A connection that has not been used, in a server whose tables hold only
sockets that were created. -/
structure Unused (S : Server) : Prop where
  owns : ∀ id, ¬ S.Owns c id
  attached : ∀ n, S.attached c n = none
  recon : S.recon c = none
  bound : ∀ n id, id ∈ S.sockets n ∨ (S.adapter n).Has id → S.origin id ≠ none

variable {J c} {S₀ S : Server} {ls : List (InPacket × SocketId)}

theorem Unused.inv (h : Unused c S₀) : Inv S₀ c := by
  refine ⟨⟨fun n id => ?_, fun n id hx => ?_⟩, fun n id hx => ?_, fun n id ho => absurd ho (h.owns id),
    h.bound, ?_⟩
  · rw [h.attached]
    exact iff_of_false (fun hx => h.owns id hx.2) nofun
  · rw [h.attached] at hx
    cases hx
  · rw [h.attached] at hx
    cases hx
  · rw [h.recon]
    exact nofun

/-- The tables agree after every message, and a close at that point is clean,
exactly if no message completes a CONNECT for a namespace in which the connection
already has a socket. -/
theorem one_live_exact (h₀ : Unused c S₀) (hrun : Run (frameStep J c) FreshId S₀ ls S) :
    (∀ ls₁ S₁, ls₁ <+: ls → Run (frameStep J c) FreshId S₀ ls₁ S₁ →
        OneLive S₁ c ∧ ClosesClean J S₁ c) ↔
      Run (frameStep J c) (fun S l => FreshId S l ∧ Repeats J S c l.1 = false) S₀ ls S := by
  apply hrun.exact_iff (Inv · c) (fun S => OneLive S c ∧ ClosesClean J S c)
    (fun S l => Repeats J S c l.1 = false) h₀.inv
  · exact fun S h => ⟨h.toOneLive, h.closesClean J⟩
  · intro S l S' h hfresh hrep hs
    rw [← Option.some.inj hs]
    exact handleIn_inv J h hfresh hrep
  · intro S l S' h hfresh hrep hs hone
    rw [← Option.some.inj hs] at hone
    exact handleIn_breaks J h hfresh (by simpa using hrep) hone.1

end Runs

section NonVacuity

open NonVacuity

def lobby : Server :=
  { nsps := fun n => if n = defaultNamespace then some {} else none
    engines := fun es => if es = 0 then some 0 else none }

theorem lobby_unused : Unused 0 lobby := by
  have hsockets (n : Bytes) : lobby.sockets n = ∅ := by
    simp only [sockets, lobby]
    split_ifs <;> rfl
  have hadapter (n : Bytes) : lobby.adapter n = {} := by
    simp only [adapter, lobby]
    split_ifs <;> rfl
  refine ⟨fun id => by simp [Owns, origin, lobby], fun n => rfl, rfl, fun n id hx => ?_⟩
  rw [hsockets, hadapter] at hx
  simp [Adapter.Has, Adapter.members] at hx

def connectText : InPacket := ⟨[48], false⟩
def disconnectText : InPacket := ⟨[49], false⟩

/-- A client that leaves the namespace before it connects to it again. -/
def reconnect : List (InPacket × SocketId) :=
  [(connectText, [1]), (disconnectText, [2]), (connectText, [3])]

def handleAll (S : Server) (ls : List (InPacket × SocketId)) : Server :=
  ls.foldl (fun S l => S.handleIn textJson 0 l.1 l.2) S

theorem reconnect_run : Run (frameStep textJson 0)
    (fun S l => FreshId S l ∧ Repeats textJson S 0 l.1 = false) lobby reconnect
    (handleAll lobby reconnect) :=
  .cons (by decide +kernel) rfl (.cons (by decide +kernel) rfl (.cons (by decide +kernel) rfl .nil))

theorem one_live_exact_reconnect :
    OneLive (handleAll lobby reconnect) 0 ∧ ClosesClean textJson (handleAll lobby reconnect) 0 :=
  (one_live_exact lobby_unused (reconnect_run.mono fun _ _ h => h.1)).mpr reconnect_run _ _
    (List.prefix_refl _) (reconnect_run.mono fun _ _ h => h.1)

/-- Two CONNECTs in a row: the first socket stays registered, and the connection
refers to the second. -/
theorem one_live_broken : ¬ ∀ (J : Json) (c : ConnId) (S₀ S : Server)
    (ls : List (InPacket × SocketId)), J.Lawful → Unused c S₀ →
    Run (frameStep J c) FreshId S₀ ls S → OneLive S c := by
  intro h
  have hlive := h textJson 0 lobby (handleAll lobby [(connectText, [1]), (connectText, [2])])
    [(connectText, [1]), (connectText, [2])] textJson_lawful lobby_unused
    (.cons (by decide +kernel) rfl (.cons (by decide +kernel) rfl .nil))
  have hfirst := (hlive.live defaultNamespace [1]).mp
    ⟨by decide +kernel, defaultNamespace, by decide +kernel⟩
  exact absurd hfirst (by decide +kernel)

end NonVacuity

end Gosocketio.Server

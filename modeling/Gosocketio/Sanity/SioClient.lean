import Gosocketio.Spec.SioClient

/-! What each section of the Socket.IO client does to the namespaces and to the calls
that wait. -/

namespace Gosocketio.SioClient

variable (C : SioClient) (n nsp : Bytes) {ch : ChanId}

/-- The id under which the namespace is connected. -/
def held : Option SocketId :=
  (C.nsps.lookup n).bind fun nc => if nc.connected then some nc.sid else none

/-- The channel of the call that waits for the namespace. -/
def awaited : Option ChanId := C.connecting.lookup n

theorem held_eq : C.held n = if C.Connected n then some (C.ID n) else none := by
  unfold held Connected ID
  cases C.nsps.lookup n <;> simp

theorem connected_iff : C.Connected n = true ↔ ∃ x, C.held n = some x := by
  rw [held_eq]
  split_ifs with h <;> simp [h]

theorem not_connected_iff : C.Connected n = false ↔ C.held n = none := by
  rw [held_eq]
  split_ifs with h <;> simp [h]

theorem lookup_modifyNsp (f : NsClient → NsClient) :
    (C.modifyNsp nsp f).nsps.lookup n = if n = nsp then (C.nsps.lookup n).map f else C.nsps.lookup n := by
  unfold modifyNsp
  cases hnc : C.nsps.lookup nsp with
  | none =>
    split_ifs with hn
    · rw [hn, hnc]
      rfl
    · rfl
  | some nc =>
    split_ifs with hn
    · subst hn
      simp [hnc]
    · exact AList.lookup_insert_ne hn

@[simp] theorem connecting_modifyNsp (f : NsClient → NsClient) :
    (C.modifyNsp nsp f).connecting = C.connecting := by
  unfold modifyNsp
  split <;> rfl

@[simp] theorem engine_modifyNsp (f : NsClient → NsClient) :
    (C.modifyNsp nsp f).engine = C.engine := by
  unfold modifyNsp
  split <;> rfl

@[simp] theorem closed_modifyNsp (f : NsClient → NsClient) :
    (C.modifyNsp nsp f).closed = C.closed := by
  unfold modifyNsp
  split <;> rfl

@[simp] theorem started_modifyNsp (f : NsClient → NsClient) :
    (C.modifyNsp nsp f).started = C.started := by
  unfold modifyNsp
  split <;> rfl

@[simp] theorem held_start (hs : List Handler) : (C.start hs).held n = C.held n := rfl
@[simp] theorem awaited_start (hs : List Handler) : (C.start hs).awaited n = C.awaited n := rfl
@[simp] theorem held_abandon : (C.abandon nsp).held n = C.held n := rfl

@[simp] theorem awaited_abandon :
    (C.abandon nsp).awaited n = if n = nsp then none else C.awaited n := by
  split_ifs with hn
  · subst hn
    exact AList.lookup_erase ..
  · exact AList.lookup_erase_ne hn

@[simp] theorem held_await (data : Value) (ch : ChanId) :
    (C.await nsp data ch).held n = if n = nsp then none else C.held n := by
  unfold await held
  split_ifs with hn
  · subst hn
    simp
  · simp [AList.lookup_insert_ne hn]

@[simp] theorem awaited_await (data : Value) (ch : ChanId) :
    (C.await nsp data ch).awaited n = if n = nsp then some ch else C.awaited n := by
  unfold await awaited
  split_ifs with hn
  · subst hn
    simp
  · simp [AList.lookup_insert_ne hn]

@[simp] theorem held_leave : (C.leave nsp).held n = if n = nsp then none else C.held n := by
  unfold leave held
  rw [lookup_modifyNsp]
  split_ifs with hn
  · cases C.nsps.lookup n <;> simp
  · rfl

@[simp] theorem awaited_leave : (C.leave nsp).awaited n = C.awaited n := by simp [leave, awaited]

@[simp] theorem held_handleDisconnect (pkt : Packet) :
    (C.handleDisconnect pkt).held n = if n = pkt.nsp then none else C.held n :=
  held_leave C n pkt.nsp

@[simp] theorem awaited_handleDisconnect (pkt : Packet) :
    (C.handleDisconnect pkt).awaited n = C.awaited n :=
  awaited_leave C n pkt.nsp

@[simp] theorem held_handleConnectError (pkt : Packet) :
    (C.handleConnectError pkt).held n = if n = pkt.nsp then none else C.held n := by
  have hleave (D : SioClient) (hD : D.nsps = C.nsps) :
      (D.leave pkt.nsp).held n = if n = pkt.nsp then none else C.held n := by
    rw [held_leave, held, hD]
    rfl
  unfold handleConnectError
  cases C.connecting.lookup pkt.nsp with
  | none => exact hleave C rfl
  | some ch => exact hleave _ rfl

@[simp] theorem awaited_handleConnectError (pkt : Packet) :
    (C.handleConnectError pkt).awaited n = if n = pkt.nsp then none else C.awaited n := by
  unfold handleConnectError
  cases hch : C.connecting.lookup pkt.nsp with
  | none =>
    refine (awaited_leave C n pkt.nsp).trans ?_
    split_ifs with hn
    · rw [hn]
      exact hch
    · rfl
  | some ch => exact (awaited_leave _ n pkt.nsp).trans (awaited_abandon C n pkt.nsp)

@[simp] theorem awaited_handleConnect (pkt : Packet) :
    (C.handleConnect pkt).awaited n = if n = pkt.nsp then none else C.awaited n := by
  unfold handleConnect
  cases hch : C.connecting.lookup pkt.nsp with
  | none =>
    split_ifs with hn
    · rw [hn]
      exact hch
    · rfl
  | some ch =>
    rw [← awaited_abandon]
    exact congrArg (AList.lookup n) (connecting_modifyNsp ..)

theorem held_handleConnect_of_none (pkt : Packet) (h : C.awaited pkt.nsp = none) :
    (C.handleConnect pkt).held n = C.held n := by
  have hch : C.connecting.lookup pkt.nsp = none := h
  simp only [handleConnect, hch]
  rfl

/-- A call that waits has made an entry for its namespace, which is not connected. -/
def Waits : Prop := ∀ n ch, C.awaited n = some ch → ∃ nc, C.nsps.lookup n = some nc ∧ nc.connected = false

variable {C n nsp}

section

variable (h : C.Waits)

include h

theorem Waits.held (hch : C.awaited n = some ch) : C.held n = none := by
  obtain ⟨nc, hnc, hconn⟩ := h n ch hch
  simp [SioClient.held, hnc, hconn]

theorem Waits.held_handleConnect (pkt : Packet) {x : Bytes}
    (hch : C.awaited pkt.nsp = some ch) (hx : stringField Server.sidKey pkt.data = some x) :
    (C.handleConnect pkt).held n = if n = pkt.nsp then some x else C.held n := by
  obtain ⟨nc, hnc, -⟩ := h pkt.nsp ch hch
  have hlookup : C.connecting.lookup pkt.nsp = some ch := hch
  simp only [handleConnect, hlookup, hx, Option.getD_some, held_start]
  change ((C.abandon pkt.nsp).modifyNsp pkt.nsp _).held n = _
  rw [SioClient.held, lookup_modifyNsp]
  split_ifs with hn
  · subst hn
    have hnc' : (C.abandon pkt.nsp).nsps.lookup pkt.nsp = some nc := hnc
    simp [hnc']
  · rfl

theorem Waits.mono {D : SioClient} (hch : ∀ n ch, D.awaited n = some ch → C.awaited n = some ch)
    (hnc : ∀ n nc, C.nsps.lookup n = some nc → nc.connected = false →
      ∃ nc', D.nsps.lookup n = some nc' ∧ nc'.connected = false) : D.Waits := by
  intro n ch hn
  obtain ⟨nc, hlookup, hconn⟩ := h n ch (hch n ch hn)
  exact hnc n nc hlookup hconn

theorem Waits.await (data : Value) (ch : ChanId) : (C.await nsp data ch).Waits := by
  intro n ch' hch
  rw [awaited_await] at hch
  by_cases hn : n = nsp
  · subst hn
    exact ⟨_, AList.lookup_insert _, rfl⟩
  · rw [if_neg hn] at hch
    obtain ⟨nc, hnc, hconn⟩ := h n ch' hch
    exact ⟨nc, (AList.lookup_insert_ne hn).trans hnc, hconn⟩

theorem Waits.abandon : (C.abandon nsp).Waits := by
  refine h.mono (fun n ch hch => ?_) fun n nc hnc hconn => ⟨nc, hnc, hconn⟩
  rw [awaited_abandon] at hch
  split_ifs at hch
  exact hch

theorem Waits.leave : (C.leave nsp).Waits := by
  refine h.mono (fun n ch hch => ?_) fun n nc hnc hconn => ?_
  · rwa [awaited_leave] at hch
  · rw [SioClient.leave, lookup_modifyNsp, hnc]
    split_ifs
    · exact ⟨_, rfl, rfl⟩
    · exact ⟨nc, rfl, hconn⟩

theorem Waits.handleConnectError (pkt : Packet) : (C.handleConnectError pkt).Waits := by
  unfold SioClient.handleConnectError
  cases C.connecting.lookup pkt.nsp with
  | none => exact h.leave
  | some ch =>
    have hsent (e : Failure) : ((C.abandon pkt.nsp).send ch (some e)).Waits := h.abandon
    exact (hsent _).leave

theorem Waits.handleConnect (pkt : Packet) : (C.handleConnect pkt).Waits := by
  intro n ch hch
  rw [awaited_handleConnect] at hch
  split_ifs at hch with hn
  obtain ⟨nc, hnc, hconn⟩ := h n ch hch
  refine ⟨nc, ?_, hconn⟩
  unfold SioClient.handleConnect
  cases C.connecting.lookup pkt.nsp with
  | none => exact hnc
  | some ch' => exact (lookup_modifyNsp (C.abandon pkt.nsp) n pkt.nsp _).trans ((if_neg hn).trans hnc)

end

section Engine

variable (C n)

@[simp] theorem held_leaveAll : C.leaveAll.held n = none := by
  have hlookup : C.leaveAll.nsps.lookup n =
      (C.nsps.lookup n).map fun nc => { nc with connected := false } := by
    let f (_ : Bytes) (nc : NsClient) : NsClient := { nc with connected := false }
    exact List.dlookup_map₂ (l := C.nsps.entries) (f := f) n
  rw [held, hlookup]
  cases C.nsps.lookup n <;> rfl

@[simp] theorem held_close (order : List Bytes) : (C.close order).held n = none := held_leaveAll C n

theorem connectedNsps_eq_nil : C.connectedNsps = [] ↔ ∀ n, C.Connected n = false := by
  rw [connectedNsps, List.map_eq_nil_iff, List.filter_eq_nil_iff]
  constructor
  · intro h n
    rw [Connected]
    cases hlookup : C.nsps.lookup n with
    | none => rfl
    | some nc => exact Bool.eq_false_of_not_eq_true (h ⟨n, nc⟩ (AList.mem_lookup_iff.mp hlookup))
  · rintro h ⟨n, nc⟩ he hconn
    have hlookup : C.nsps.lookup n = some nc := AList.mem_lookup_iff.mpr he
    have hn := h n
    rw [Connected, hlookup] at hn
    exact Bool.false_ne_true (hn.symm.trans hconn)

theorem foldl_send (es : List (Sigma fun _ : Bytes => ChanId)) (r : Option Failure) :
    ∃ chans, es.foldl (fun C e => C.send e.2 r) C = { C with chans } := by
  induction es generalizing C with
  | nil => exact ⟨C.chans, rfl⟩
  | cons e es ih => exact ih (C.send e.2 r)

theorem onEngineClosed_eq (d : Drop) (order : List Bytes) : ∃ chans, C.onEngineClosed d order =
      { C.leaveAll with
        connecting := ∅
        engine := none
        chans
        started := C.started ++ order.map fun nsp => .disconnect nsp (mapClientDisconnectReason d) } := by
  obtain ⟨chans, hC⟩ := foldl_send C C.connecting.entries d.err
  refine ⟨chans, ?_⟩
  rw [onEngineClosed, hC]
  rfl

@[simp] theorem held_onEngineClosed (d : Drop) (order : List Bytes) :
    (C.onEngineClosed d order).held n = none := by
  obtain ⟨chans, hC⟩ := onEngineClosed_eq C d order
  rw [hC]
  exact held_leaveAll C n

@[simp] theorem engine_onEngineClosed (d : Drop) (order : List Bytes) :
    (C.onEngineClosed d order).engine = none := by
  obtain ⟨chans, hC⟩ := onEngineClosed_eq C d order
  rw [hC]

@[simp] theorem closed_onEngineClosed (d : Drop) (order : List Bytes) :
    (C.onEngineClosed d order).closed = C.closed := by
  obtain ⟨chans, hC⟩ := onEngineClosed_eq C d order
  rw [hC]
  rfl

@[simp] theorem engine_handleConnect (pkt : Packet) : (C.handleConnect pkt).engine = C.engine := by
  unfold handleConnect
  split
  · rfl
  · exact engine_modifyNsp ..

@[simp] theorem closed_handleConnect (pkt : Packet) : (C.handleConnect pkt).closed = C.closed := by
  unfold handleConnect
  split
  · rfl
  · exact closed_modifyNsp ..

theorem connected_of_held {D : SioClient} {p : Prop} [Decidable p]
    (h : D.held n = if p then none else C.held n) (hconn : D.Connected n = true) :
    C.Connected n = true := by
  rw [connected_iff] at hconn ⊢
  obtain ⟨x, hx⟩ := hconn
  rw [h] at hx
  split_ifs at hx
  exact ⟨x, hx⟩

theorem not_connected_of_held (h : C.held n = none) : ¬ C.Connected n = true := by
  rw [connected_iff, h]
  rintro ⟨x, hx⟩
  cases hx

end Engine

section Fades

/-- The calls of `OnConnect` handlers. -/
def connects (C : SioClient) : List Handler := C.started.filter Handler.isConnect

/-- A section that leaves the engine alone and connects nothing. -/
structure Fades (C D : SioClient) : Prop where
  engine : D.engine = C.engine
  closed : D.closed = C.closed
  connected : ∀ n, D.Connected n = true → C.Connected n = true
  connects : D.connects = C.connects

variable {D E : SioClient}

theorem Fades.refl (C : SioClient) : C.Fades C := ⟨rfl, rfl, fun _ h => h, rfl⟩

theorem Fades.start (C : SioClient) {hs : List Handler} (h : ∀ x ∈ hs, x.isConnect = false) : C.Fades (C.start hs) := by
  refine ⟨rfl, rfl, fun _ h => h, ?_⟩
  have hnil : hs.filter Handler.isConnect = [] :=
    List.filter_eq_nil_iff.mpr fun x hx => by simp [h x hx]
  refine (List.filter_append ..).trans ?_
  rw [hnil, List.append_nil]
  rfl

theorem Fades.trans (h : C.Fades D) (h' : D.Fades E) : C.Fades E :=
  ⟨h'.engine.trans h.engine, h'.closed.trans h.closed, fun n hn => h.connected n (h'.connected n hn),
    h'.connects.trans h.connects⟩

theorem Fades.await (C : SioClient) (nsp : Bytes) (data : Value) (ch : ChanId) : C.Fades (C.await nsp data ch) :=
  ⟨rfl, rfl, fun n => connected_of_held C n (held_await ..), rfl⟩

theorem Fades.abandon (C : SioClient) (nsp : Bytes) : C.Fades (C.abandon nsp) := ⟨rfl, rfl, fun _ h => h, rfl⟩

theorem Fades.send (C : SioClient) (ch : ChanId) (r : Option Failure) : C.Fades (C.send ch r) :=
  ⟨rfl, rfl, fun _ h => h, rfl⟩

theorem Fades.leave (C : SioClient) (nsp : Bytes) : C.Fades (C.leave nsp) := by
  refine ⟨engine_modifyNsp .., closed_modifyNsp .., fun n => connected_of_held C n (held_leave ..), ?_⟩
  exact congrArg (List.filter Handler.isConnect) (started_modifyNsp ..)

theorem Fades.handleDisconnect (C : SioClient) (pkt : Packet) : C.Fades (C.handleDisconnect pkt) := by
  refine (Fades.leave C pkt.nsp).trans (Fades.start _ fun x hx => ?_)
  split_ifs at hx with hconn
  · rw [List.mem_singleton.mp hx]
    rfl
  · cases hx

theorem Fades.handleConnectError (C : SioClient) (pkt : Packet) : C.Fades (C.handleConnectError pkt) := by
  have hstart (D : SioClient) (msg : Bytes) :
      D.Fades ((D.leave pkt.nsp).start [.connectError pkt.nsp msg]) := by
    refine (Fades.leave D pkt.nsp).trans (Fades.start _ fun x hx => ?_)
    rw [List.mem_singleton.mp hx]
    rfl
  unfold SioClient.handleConnectError
  cases C.connecting.lookup pkt.nsp with
  | none => exact hstart C _
  | some ch => exact ((Fades.abandon C pkt.nsp).trans (Fades.send _ ch _)).trans (hstart _ _)

end Fades

section Withdraws

variable {C D : SioClient}

/-- A section after which no further call waits, and in which nobody is told that a
namespace is connected. -/
structure Withdraws (C D : SioClient) : Prop where
  awaited : ∀ n ch, D.awaited n = some ch → C.awaited n = some ch
  waits : C.Waits → D.Waits
  told : ∀ ch r, D.chans ch = some r → C.chans ch = some r ∨ r ≠ none ∧ ∃ n, C.awaited n = some ch

theorem Withdraws.refl (C : SioClient) : C.Withdraws C := ⟨fun _ _ h => h, id, fun _ _ h => .inl h⟩

theorem Withdraws.of_eq (hnsps : D.nsps = C.nsps) (hconn : D.connecting = C.connecting)
    (hchans : D.chans = C.chans) : C.Withdraws D := by
  refine ⟨fun n ch h => ?_, fun h n ch hch => ?_, fun ch r h => .inl (by rw [← hchans]; exact h)⟩
  · rwa [SioClient.awaited, hconn] at h
  · rw [SioClient.awaited, hconn] at hch
    rw [hnsps]
    exact h n ch hch

theorem Withdraws.trans {E : SioClient} (h : C.Withdraws D) (h' : D.Withdraws E) : C.Withdraws E := by
  refine ⟨fun n ch hn => h.awaited n ch (h'.awaited n ch hn), fun hC => h'.waits (h.waits hC), fun ch r hr => ?_⟩
  rcases h'.told ch r hr with hr | ⟨hne, n, hn⟩
  · exact h.told ch r hr
  · exact .inr ⟨hne, n, h.awaited n ch hn⟩

theorem Withdraws.abandon (C : SioClient) (nsp : Bytes) : C.Withdraws (C.abandon nsp) := by
  refine ⟨fun n ch hn => ?_, Waits.abandon, fun _ _ h => .inl h⟩
  rw [awaited_abandon] at hn
  split_ifs at hn
  exact hn

theorem chans_modifyNsp (C : SioClient) (nsp : Bytes) (f : NsClient → NsClient) :
    (C.modifyNsp nsp f).chans = C.chans := by
  unfold modifyNsp
  split <;> rfl

theorem Withdraws.leave (C : SioClient) (nsp : Bytes) : C.Withdraws (C.leave nsp) := by
  refine ⟨fun n ch hn => ?_, Waits.leave, fun ch r hr => .inl ?_⟩
  · rwa [awaited_leave] at hn
  · rwa [SioClient.leave, chans_modifyNsp] at hr

theorem Withdraws.handleDisconnect (C : SioClient) (pkt : Packet) : C.Withdraws (C.handleDisconnect pkt) :=
  (Withdraws.leave C pkt.nsp).trans (.of_eq rfl rfl rfl)

theorem Withdraws.handleConnectError (C : SioClient) (pkt : Packet) : C.Withdraws (C.handleConnectError pkt) := by
  refine ⟨fun n ch hn => ?_, fun h => h.handleConnectError pkt, fun ch r hr => ?_⟩
  · rw [awaited_handleConnectError] at hn
    split_ifs at hn
    exact hn
  · simp only [SioClient.handleConnectError] at hr
    cases hch : C.connecting.lookup pkt.nsp with
    | none =>
      simp only [hch, start, chans_modifyNsp] at hr
      exact .inl hr
    | some ch' =>
      simp only [hch, start, chans_modifyNsp, send] at hr
      by_cases heq : ch = ch'
      · subst heq
        rw [Function.update_self] at hr
        refine .inr ⟨?_, pkt.nsp, hch⟩
        rw [← Option.some.inj hr]
        exact nofun
      · rw [Function.update_of_ne heq] at hr
        exact .inl hr

theorem lookup_leaveAll (C : SioClient) (n : Bytes) :
    C.leaveAll.nsps.lookup n = (C.nsps.lookup n).map fun nc => { nc with connected := false } := by
  let f (_ : Bytes) (nc : NsClient) : NsClient := { nc with connected := false }
  exact List.dlookup_map₂ (l := C.nsps.entries) (f := f) n

theorem Withdraws.close (C : SioClient) (order : List Bytes) : C.Withdraws (C.close order) := by
  refine ⟨fun _ _ h => h, fun h => h.mono (fun _ _ h => h) fun n nc hnc _ => ?_, fun _ _ h => .inl h⟩
  refine ⟨{ nc with connected := false }, ?_, rfl⟩
  change C.leaveAll.nsps.lookup n = _
  rw [lookup_leaveAll, hnc]
  rfl

/-- Who is told what when the engine closes. -/
theorem chans_foldl_send (C : SioClient) (es : List (Sigma fun _ : Bytes => ChanId)) (x : Option Failure)
    {r : Option Failure} (h : (es.foldl (fun C e => C.send e.2 x) C).chans ch = some r) :
    C.chans ch = some r ∨ r = x ∧ ∃ e ∈ es, e.2 = ch := by
  induction es generalizing C with
  | nil => exact .inl h
  | cons e es ih =>
    rcases ih _ h with hr | ⟨rfl, e', he', hch⟩
    · change Function.update C.chans e.2 (some x) ch = some r at hr
      by_cases heq : ch = e.2
      · subst heq
        rw [Function.update_self] at hr
        exact .inr ⟨(Option.some.inj hr).symm, e, List.mem_cons_self, rfl⟩
      · rw [Function.update_of_ne heq] at hr
        exact .inl hr
    · exact .inr ⟨rfl, e', List.mem_cons_of_mem _ he', hch⟩

theorem told_onEngineClosed (C : SioClient) (d : Drop) (order : List Bytes) {r : Option Failure}
    (h : (C.onEngineClosed d order).chans ch = some r) :
    C.chans ch = some r ∨ r = d.err ∧ ∃ n, C.awaited n = some ch := by
  refine (chans_foldl_send C C.connecting.entries d.err h).imp_right ?_
  rintro ⟨hr, ⟨n, ch'⟩, he, rfl⟩
  exact ⟨hr, n, AList.mem_lookup_iff.mpr he⟩

theorem told_handleConnect (C : SioClient) (pkt : Packet) {r : Option Failure}
    (h : (C.handleConnect pkt).chans ch = some r) :
    C.chans ch = some r ∨ r = none ∧ C.awaited pkt.nsp = some ch := by
  simp only [SioClient.handleConnect] at h
  cases hch : C.connecting.lookup pkt.nsp with
  | none =>
    simp only [hch] at h
    exact .inl h
  | some ch' =>
    simp only [hch, start, send, chans_modifyNsp] at h
    by_cases heq : ch = ch'
    · subst heq
      rw [Function.update_self] at h
      exact .inr ⟨(Option.some.inj h).symm, hch⟩
    · rw [Function.update_of_ne heq] at h
      exact .inl h

/-- A Connect packet connects its namespace exactly if a call waits. -/
theorem Waits.connected_handleConnect (h : C.Waits) (pkt : Packet) (n : Bytes) :
    (C.handleConnect pkt).Connected n =
      if n = pkt.nsp ∧ (C.awaited pkt.nsp).isSome then true else C.Connected n := by
  simp only [SioClient.handleConnect]
  cases hch : C.connecting.lookup pkt.nsp with
  | none => simp [SioClient.awaited, hch, start, SioClient.Connected]
  | some ch =>
    obtain ⟨nc, hnc, -⟩ := h pkt.nsp ch hch
    simp only [SioClient.awaited, hch, Option.isSome_some, and_true, start, send, SioClient.Connected]
    rw [lookup_modifyNsp]
    split_ifs with hn
    · subst hn
      rw [show (C.abandon pkt.nsp).nsps = C.nsps from rfl, hnc]
      rfl
    · rfl

end Withdraws

end Gosocketio.SioClient

import Gosocketio.Proofs.PostOverlap

/-! What the client sends while it upgrades to a websocket. `pause` waits for the
POSTs that are counted in `sendInflight`, but a batch that `flushSends` has taken
is not counted before `Send` is called: its POST may reach the server after the
switch, and `verify` then turns it away. -/

namespace Gosocketio.Client

open Runs Transport Outbox

variable {p : Packet}

def IsOutgoing (p : Packet) : Prop := ∃ o : Outgoing, o.packet = p

def payloadOf (f : Bytes × Bool) : Option Packet := match decodePacket f.1 f.2 with
  | .ok p => if p.type = .message ∨ p.type = .pong then some p else none
  | .error _ => none

theorem decodePacket_frame_of_outgoing (h : IsOutgoing p) :
    decodePacket (frame p).1 (frame p).2 = .ok p := by
  obtain ⟨o, rfl⟩ := h
  cases o with
  | message data binary => cases binary <;> rfl
  | pong data => rfl

theorem payloadOf_frame (h : IsOutgoing p) : payloadOf (frame p) = some p := by
  rw [payloadOf, decodePacket_frame_of_outgoing h]
  obtain ⟨o, rfl⟩ := h
  cases o <;> rfl

def Pc.packets : Pc → List Packet
  | .send _ buf | .posted buf | .verified buf | .writing buf => buf.map Item.value
  | .serving pkts => pkts
  | _ => []

/-- Nothing is on its way: no goroutine is in a call, no frame is unread, and the
upgrade has not begun or is over. -/
def Session.Quiet (s : Session) : Prop :=
  (∀ g ∈ s.goroutines, g.pc = .idle) ∧ s.frames = [] ∧ (s.phase = .off ∨ s.phase = .finished)

/-- The payload of a POST that `onDataRequest` is about to read fits `maxBufferSize`
and decodes to the packets it was made of; and the limit is not such that nothing is read. -/
def Pc.Fits (limit : ℕ) : Pc → Prop
  | .verified buf => limit + 1 < 2 ^ 63 ∧ (encodePayload (buf.map Item.value)).length ≤ limit ∧
      decodePayloadWithLimit (encodePayload (buf.map Item.value)) limit = (buf.map Item.value, none)
  | _ => True

instance (limit : ℕ) (pc : Pc) : Decidable (pc.Fits limit) := by
  unfold Pc.Fits
  split <;> infer_instance

/-- The server checks a POST before it has switched to the websocket, and serves it
while it serves no other. -/
def Pc.TakenUp (s : Session) : Pc → Prop
  | .posted _ => s.transport = .polling
  | .verified _ => s.dataReq = false
  | _ => True

instance (s : Session) (pc : Pc) : Decidable (pc.TakenUp s) := by
  unfold Pc.TakenUp
  split <;> infer_instance

def PayloadFits (limit : ℕ) (s : Session) : Act → Prop
  | .go i => ∀ g ∈ s.goroutines[i]?, g.pc.Fits limit
  | _ => True

def TakenUp (s : Session) : Act → Prop
  | .go i => ∀ g ∈ s.goroutines[i]?, g.pc.TakenUp s
  | _ => True

instance (limit : ℕ) (s : Session) : ∀ a, Decidable (PayloadFits limit s a)
  | .go i => inferInstanceAs (Decidable (∀ g ∈ s.goroutines[i]?, g.pc.Fits limit))
  | .upgrade | .fail | .abort | .discard | .recv => isTrue trivial

instance (s : Session) : ∀ a, Decidable (TakenUp s a)
  | .go i => inferInstanceAs (Decidable (∀ g ∈ s.goroutines[i]?, g.pc.TakenUp s))
  | .upgrade | .fail | .abort | .discard | .recv => isTrue trivial

/-- The packets that are in nobody's hands. -/
def Session.settled (s : Session) : Multiset Packet :=
  (s.received : Multiset Packet) + s.refused + (s.writeBuffer.map Item.value : List Packet) +
    (s.frames.filterMap payloadOf : List Packet)

def Session.inHands (s : Session) : Multiset Packet :=
  (s.goroutines.map fun g => (g.pc.packets : Multiset Packet)).sum

/-- Everything that was accepted, wherever it is now. -/
def Session.everywhere (s : Session) : Multiset Packet := s.settled + s.inHands

/-- A batch is never empty. -/
def Pc.Loaded : Pc → Prop
  | .send _ buf | .posted buf | .verified buf => buf ≠ []
  | _ => True

def DataFrames (fs : List (Bytes × Bool)) : Prop := ∀ f ∈ fs, ∃ p, IsOutgoing p ∧ f = frame p

/-- The frames: data comes after the packet that confirms the upgrade, and is read
by the socket only after the switch. -/
structure Wire (s : Session) : Prop where
  early : s.phase ∈ [Phase.off, .raised, .paused, .dialed] → s.frames = [] ∧ s.ponged = false
  probing : s.phase = .probing → s.frames = [] ∨ s.frames = [frame probePacket] ∧ s.ponged = false
  unconfirmed : s.tport = .polling → s.phase ≠ .confirmed →
    s.transport = .polling ∧ (s.frames = [] ∨ s.frames = [frame probePacket])
  confirmed : s.tport = .websocket ∨ s.phase = .confirmed → s.transport = .polling →
    ∃ fs, s.frames = frame upgradePacket :: fs ∧ DataFrames fs
  websocket : s.transport = .websocket → DataFrames s.frames
  switched : s.tport = .websocket → s.phase = .switched ∨ s.phase = .finished
  onWebsocket : ∀ g ∈ s.goroutines, g.pc.onPolling = false → s.tport = .websocket

section Steps

variable {limit : ℕ} {s s' : Session} {a : Act} {i : ℕ} {g : Goroutine} {pc pc' : Pc}

theorem DataFrames.snoc {fs : List (Bytes × Bool)} (h : DataFrames fs)
    (hp : IsOutgoing p) : DataFrames (fs ++ [frame p]) := by
  intro f hf
  rcases List.mem_append.mp hf with hf | hf
  · exact h f hf
  · exact ⟨p, hp, List.mem_singleton.mp hf⟩

/-- A goroutine in the middle of a call leaves the upgrade alone, and writes frames
only with the websocket. -/
theorem advance_wire (h : s.advance limit pc = some (s', pc')) :
    s'.goroutines = s.goroutines ∧ s'.phase = s.phase ∧ s'.tport = s.tport ∧
    s'.transport = s.transport ∧ s'.ponged = s.ponged ∧ s'.upgrading = s.upgrading ∧
    (pc'.onPolling = false → pc.onPolling = false ∨ s.tport = .websocket) ∧
    (s'.frames = s.frames ∨ ∃ x buf, pc = .writing (x :: buf) ∧ s'.frames = s.frames ++ [frame x.value]) := by
  cases pc with
  | idle => cases h
  | flush =>
    simp only [Session.advance] at h
    split_ifs at h <;> cases h
    · exact ⟨rfl, rfl, rfl, rfl, rfl, rfl, Bool.noConfusion, .inl rfl⟩
    · refine ⟨rfl, rfl, rfl, rfl, rfl, rfl, fun hpc => .inr ?_, .inl rfl⟩
      cases htport : s.tport with
      | polling => rw [htport] at hpc; cases hpc
      | websocket => rfl
  | send t buf =>
    cases t with
    | polling => cases h; exact ⟨rfl, rfl, rfl, rfl, rfl, rfl, Bool.noConfusion, .inl rfl⟩
    | websocket => cases h; exact ⟨rfl, rfl, rfl, rfl, rfl, rfl, fun _ => .inl rfl, .inl rfl⟩
  | posted buf =>
    simp only [Session.advance] at h
    split_ifs at h <;> cases h <;> exact ⟨rfl, rfl, rfl, rfl, rfl, rfl, Bool.noConfusion, .inl rfl⟩
  | verified buf =>
    simp only [Session.advance] at h
    split_ifs at h
    · cases h
      exact ⟨rfl, rfl, rfl, rfl, rfl, rfl, Bool.noConfusion, .inl rfl⟩
    · rcases Session.serve_cases limit { s with dataReq := true } buf with
        ⟨pkts, hs⟩ | ⟨errors, pc, rfl | rfl, hs⟩ <;>
      · rw [hs] at h
        cases h
        exact ⟨rfl, rfl, rfl, rfl, rfl, rfl, Bool.noConfusion, .inl rfl⟩
  | serving pkts => cases pkts <;> cases h <;> exact ⟨rfl, rfl, rfl, rfl, rfl, rfl, Bool.noConfusion, .inl rfl⟩
  | erring | failed => cases h; exact ⟨rfl, rfl, rfl, rfl, rfl, rfl, Bool.noConfusion, .inl rfl⟩
  | answered code =>
    cases h
    refine ⟨rfl, rfl, rfl, rfl, rfl, rfl, fun hpc => ?_, .inl rfl⟩
    split_ifs at hpc <;> cases hpc
  | writing buf =>
    cases buf with
    | nil => cases h; exact ⟨rfl, rfl, rfl, rfl, rfl, rfl, Bool.noConfusion, .inl rfl⟩
    | cons x buf =>
      cases h
      exact ⟨rfl, rfl, rfl, rfl, rfl, rfl, fun _ => .inl rfl, .inr ⟨x, buf, rfl, rfl⟩⟩

theorem Wire.same (h : Wire s) (hphase : s'.phase = s.phase) (htport : s'.tport = s.tport)
    (htransport : s'.transport = s.transport) (hponged : s'.ponged = s.ponged)
    (hframes : s'.frames = s.frames)
    (hgs : ∀ g ∈ s'.goroutines, g.pc.onPolling = false → s.tport = .websocket) : Wire s' := by
  refine ⟨?_, ?_, ?_, ?_, ?_, ?_, ?_⟩
  · rw [hphase, hframes, hponged]
    exact h.early
  · rw [hphase, hframes, hponged]
    exact h.probing
  · rw [htport, hphase, htransport, hframes]
    exact h.unconfirmed
  · rw [htport, hphase, htransport, hframes]
    exact h.confirmed
  · rw [htransport, hframes]
    exact h.websocket
  · rw [htport, hphase]
    exact h.switched
  · rw [htport]
    exact hgs

theorem Wire.go (h : Wire s) (hout : ∀ g ∈ s.goroutines, ∀ p ∈ g.pc.packets, IsOutgoing p)
    (hs : s.go limit i = some s') : Wire s' := by
  rcases Session.go_cases hs with ⟨o, todo, count, hg, rfl⟩ | ⟨g, s₁, pc, hg, hadv, rfl⟩
  · exact h.same rfl rfl rfl rfl rfl (Pool.forall_set h.onWebsocket nofun)
  · obtain ⟨hgs, hphase, htport, htransport, hponged, -, hpc, hframes⟩ := advance_wire hadv
    have hmem := List.mem_of_getElem? hg
    have hon : ∀ g' ∈ (s₁.setGoroutine i { g with pc }).goroutines, g'.pc.onPolling = false →
        s.tport = .websocket := by
      refine Pool.forall_set (by rw [hgs]; exact h.onWebsocket) fun hoff => ?_
      rcases hpc hoff with hoff | hws
      · exact h.onWebsocket g hmem hoff
      · exact hws
    rcases hframes with hframes | ⟨x, buf, hwriting, hframes⟩
    · exact h.same hphase htport htransport hponged hframes hon
    · -- a frame is written, so the client has switched
      have hx : IsOutgoing x.value := by
        apply hout g hmem
        rw [hwriting]
        exact List.mem_cons_self
      have hws : s.tport = .websocket := h.onWebsocket g hmem (by rw [hwriting]; rfl)
      have hafter := h.switched hws
      have hsnoc (ht : s.transport = .polling) :
          ∃ fs, s₁.frames = frame upgradePacket :: fs ∧ DataFrames fs := by
        obtain ⟨fs, hfs, hdata⟩ := h.confirmed (.inl hws) ht
        exact ⟨fs ++ [frame x.value], by rw [hframes, hfs]; rfl, hdata.snoc hx⟩
      refine ⟨fun he => ?_, fun he => ?_, fun ht => ?_, fun _ ht => hsnoc (htransport ▸ ht),
        fun ht => ?_, fun _ => ?_, fun g' hg' hoff => ?_⟩
      · change s₁.phase ∈ _ at he
        rw [hphase] at he
        rcases hafter with hafter | hafter <;> simp [hafter] at he
      · change s₁.phase = _ at he
        rw [hphase] at he
        rcases hafter with hafter | hafter <;> simp [hafter] at he
      · exact absurd ((htport.trans hws).symm.trans ht) nofun
      · change DataFrames s₁.frames
        rw [hframes]
        exact (h.websocket (htransport ▸ ht)).snoc hx
      · change s₁.phase = _ ∨ s₁.phase = _
        rw [hphase]
        exact hafter
      · exact htport.trans (hon g' hg' hoff)

theorem polling_of_ne (h : s.tport ≠ .websocket) : s.tport = .polling := by
  cases ht : s.tport with
  | polling => rfl
  | websocket => exact absurd ht h

theorem Wire.tport_polling (h : Wire s) (h₁ : s.phase ≠ .switched) (h₂ : s.phase ≠ .finished) :
    s.tport = .polling :=
  polling_of_ne fun ht => absurd (h.switched ht) (not_or.mpr ⟨h₁, h₂⟩)

theorem wire_of_polling (htport : s.tport = .polling) (htransport : s.transport = .polling)
    (hphase : s.phase ≠ .confirmed) (hon : ∀ g ∈ s.goroutines, g.pc.onPolling = false → False)
    (hframes : s.frames = [] ∧ (s.phase ∈ [Phase.off, .raised, .paused, .dialed] → s.ponged = false) ∨
      s.frames = [frame probePacket] ∧ s.ponged = false ∧
        s.phase ∉ [Phase.off, .raised, .paused, .dialed]) : Wire s := by
  refine ⟨fun he => ?_, fun _ => ?_, fun _ _ => ⟨htransport, ?_⟩, ?_, ?_, ?_, ?_⟩
  · rcases hframes with ⟨hf, hp⟩ | ⟨-, -, hne⟩
    · exact ⟨hf, hp he⟩
    · exact absurd he hne
  · exact hframes.imp And.left fun hf => ⟨hf.1, hf.2.1⟩
  · exact hframes.imp And.left And.left
  · rintro (hws | hc)
    · rw [htport] at hws
      cases hws
    · exact absurd hc hphase
  · intro hws
    rw [htransport] at hws
    cases hws
  · intro hws
    rw [htport] at hws
    cases hws
  · exact fun g hg hoff => (hon g hg hoff).elim

section

variable (h : Wire s)

include h

theorem Wire.noneOnWebsocket (htport : s.tport = .polling) :
    ∀ g ∈ s.goroutines, g.pc.onPolling = false → False := by
  intro g hg hoff
  rw [h.onWebsocket g hg hoff] at htport
  cases htport

theorem Wire.upgrade (hs : s.upgrade = some s') : Wire s' := by
  have hflush (hf : s.flushUpgrade = some s') (hphase : s.phase = .switched ∨ s.phase = .failed) :
      Wire s' := by
    obtain ⟨g, -, -, rfl⟩ := Session.flushUpgrade_eq hf
    have hon := Pool.forall_set (i := 0) (u := { g with pc := .flush }) h.onWebsocket nofun
    refine ⟨nofun, nofun, fun ht _ => h.unconfirmed ht ?_,
      fun hc => h.confirmed (.inl (hc.resolve_right nofun)), h.websocket, fun _ => .inr rfl, hon⟩
    rcases hphase with hp | hp <;> simp [hp]
  unfold Session.upgrade at hs
  split at hs
  case h_1 hp | h_2 hp | h_3 hp =>
    try split_ifs at hs
    cases hs
    obtain ⟨hf, hn⟩ := h.early (by simp [hp])
    have htport := h.tport_polling (by simp [hp]) (by simp [hp])
    have ht := (h.unconfirmed htport (by simp [hp])).1
    exact wire_of_polling htport ht nofun (h.noneOnWebsocket htport) (.inl ⟨hf, fun _ => hn⟩)
  case h_4 hp =>
    split_ifs at hs
    cases hs
    obtain ⟨hf, hn⟩ := h.early (by simp [hp])
    have htport := h.tport_polling (by simp [hp]) (by simp [hp])
    have ht := (h.unconfirmed htport (by simp [hp])).1
    refine wire_of_polling htport ht nofun (h.noneOnWebsocket htport) (.inr ⟨?_, hn, by simp⟩)
    simp [hf]
  case h_5 hp =>
    split_ifs at hs with hc
    cases hs
    have hf : s.frames = [] := (h.probing hp).resolve_right fun hf => by simp [hc.1] at hf
    have htport := h.tport_polling (by simp [hp]) (by simp [hp])
    have ht := (h.unconfirmed htport (by simp [hp])).1
    have hnew : ∃ fs, s.frames ++ [frame upgradePacket] = frame upgradePacket :: fs ∧ DataFrames fs :=
      ⟨[], by rw [hf]; rfl, nofun⟩
    refine ⟨nofun, nofun, fun _ hne => absurd rfl hne, fun _ _ => hnew, fun hws => ?_, fun hws => ?_,
      fun g hg hoff => (h.noneOnWebsocket htport g hg hoff).elim⟩
    · exact absurd (ht.symm.trans hws) nofun
    · exact absurd (htport.symm.trans hws) nofun
  case h_6 hp =>
    cases hs
    exact ⟨nofun, nofun, nofun, fun _ => h.confirmed (.inr hp), h.websocket, fun _ => .inl rfl,
      fun _ _ _ => rfl⟩
  case h_7 hp => exact hflush hs (.inl hp)
  case h_8 hp => exact hflush hs (.inr hp)
  case h_9 => cases hs

theorem Wire.fail (hs : s.fail = some s') : Wire s' := by
  have hfailed (h₁ : s.phase ≠ .switched) (h₂ : s.phase ≠ .finished) (h₃ : s.phase ≠ .confirmed) :
      Wire { s with upgrading := false, phase := .failed } := by
    have htport := h.tport_polling h₁ h₂
    refine ⟨nofun, nofun, fun ht _ => h.unconfirmed ht h₃, fun hc => ?_, h.websocket, fun hws => ?_,
      h.onWebsocket⟩
    · exact absurd (htport.symm.trans (hc.resolve_right nofun)) nofun
    · exact absurd (htport.symm.trans hws) nofun
  unfold Session.fail at hs
  split at hs
  case h_1 hp | h_2 hp | h_3 hp =>
    cases hs
    exact hfailed (by simp [hp]) (by simp [hp]) (by simp [hp])
  case h_4 => cases hs

theorem Wire.abort (hs : s.abort = some s') : Wire s' := by
  have haborted (ht : s.transport = .polling) (htport : s.tport = .polling)
      (hphase : s.phase ≠ .confirmed) : Wire s.onAbort :=
    wire_of_polling htport ht hphase (h.noneOnWebsocket htport) (.inl ⟨rfl, fun he => (h.early he).2⟩)
  unfold Session.abort at hs
  split at hs
  case h_1 hp | h_2 hp | h_3 hp | h_4 hp =>
    split_ifs at hs with hc
    cases hs
    exact haborted hc.1 hc.2 (by simp [hp])
  case h_5 => cases hs

theorem Wire.discard (hs : s.discard = some s') : Wire s' := by
  unfold Session.discard at hs
  split_ifs at hs
  cases hs
  exact h.same rfl rfl rfl rfl rfl h.onWebsocket

theorem Wire.recv_cases (hs : s.recv = some s') :
    (s.transport = .polling ∧ s.frames = [frame probePacket] ∧
      s' = { s with frames := [], ponged := true }) ∨
    (∃ fs, s.transport = .polling ∧ s.frames = frame upgradePacket :: fs ∧ DataFrames fs ∧
      s' = { s with frames := fs, transport := .websocket, serverUpgrading := false }) ∨
    ∃ p fs, s.transport = .websocket ∧ IsOutgoing p ∧ s.frames = frame p :: fs ∧
      s' = { s with frames := fs, received := s.received ++ [p] } := by
  unfold Session.recv at hs
  split at hs
  · cases hs
  · rename_i data binary fs hfs
    split_ifs at hs
    cases ht : s.transport with
    | polling =>
      have hpolling : s.frames = [] ∨ s.frames = [frame probePacket] ∨
          ∃ fs, s.frames = frame upgradePacket :: fs ∧ DataFrames fs := by
        by_cases hc : s.tport = .websocket ∨ s.phase = .confirmed
        · exact .inr (.inr (h.confirmed hc ht))
        · rw [not_or] at hc
          exact (h.unconfirmed (polling_of_ne hc.1) hc.2).2.imp_right .inl
      rcases hpolling with hf | hf | ⟨fs', hf, hdata⟩
      · rw [hfs] at hf
        cases hf
      · rw [hfs] at hf
        cases hf
        refine .inl ⟨rfl, hfs, ?_⟩
        rw [← Option.some.inj hs]
        simp only [Session.onFrame, ht]
        rfl
      · rw [hfs] at hf
        cases hf
        refine .inr (.inl ⟨fs, rfl, hfs, hdata, ?_⟩)
        rw [← Option.some.inj hs]
        simp only [Session.onFrame, ht]
        rfl
    | websocket =>
      obtain ⟨p, hp, hframe⟩ := h.websocket ht (data, binary) (by simp [hfs])
      refine .inr (.inr ⟨p, fs, rfl, hp, by rw [hfs, hframe], ?_⟩)
      rw [← Option.some.inj hs]
      have hdec := decodePacket_frame_of_outgoing hp
      rw [← hframe] at hdec
      simp only [hdec, Session.onFrame, ht, if_true]

theorem Wire.recv (hs : s.recv = some s') : Wire s' := by
  rcases h.recv_cases hs with ⟨ht, hf, rfl⟩ | ⟨fs, ht, hf, hdata, rfl⟩ | ⟨p, fs, ht, hp, hf, rfl⟩
  · -- the probe is not there any more once the upgrade is confirmed
    have hnot : ¬ (s.tport = .websocket ∨ s.phase = .confirmed) := by
      intro hc
      obtain ⟨fs, hfs, -⟩ := h.confirmed hc ht
      rw [hf] at hfs
      cases hfs
    rw [not_or] at hnot
    have htport := polling_of_ne hnot.1
    refine wire_of_polling htport ht hnot.2 (h.noneOnWebsocket htport) (.inl ⟨rfl, fun he => ?_⟩)
    rw [(h.early he).1] at hf
    cases hf
  · refine ⟨fun he => ?_, fun he => ?_, fun htp hne => ?_, fun _ => nofun, fun _ => hdata, h.switched,
      h.onWebsocket⟩
    · rw [(h.early he).1] at hf
      cases hf
    · rcases h.probing he with hf' | ⟨hf', -⟩ <;> · rw [hf'] at hf; cases hf
    · rcases (h.unconfirmed htp hne).2 with hf' | hf' <;> · rw [hf'] at hf; cases hf
  · have hpolling (hp : s.transport = .polling) : False := by
      rw [ht] at hp
      cases hp
    have hdata := h.websocket ht
    rw [hf] at hdata
    have hphase (h₁ : s.phase ≠ .switched) (h₂ : s.phase ≠ .finished) (h₃ : s.phase ≠ .confirmed) :
        False := hpolling (h.unconfirmed (h.tport_polling h₁ h₂) h₃).1
    refine ⟨fun he => ?_, fun he => ?_, fun htp hne => (hpolling (h.unconfirmed htp hne).1).elim,
      fun _ hp => (hpolling hp).elim, fun _ f hf => hdata f (List.mem_cons_of_mem _ hf), h.switched,
      h.onWebsocket⟩
    · refine (hphase ?_ ?_ ?_).elim <;> · intro hp; simp [hp] at he
    · refine (hphase ?_ ?_ ?_).elim <;> simp [show s.phase = .probing from he]

end

theorem settled_advance (hfits : pc.Fits limit) (hout : ∀ p ∈ pc.packets, IsOutgoing p)
    (h : s.advance limit pc = some (s', pc')) :
    s'.settled + (pc'.packets : Multiset Packet) = s.settled + (pc.packets : Multiset Packet) := by
  cases pc with
  | idle => cases h
  | flush =>
    simp only [Session.advance] at h
    split_ifs at h <;> cases h
    · rfl
    · simp only [Session.settled, Pc.packets, List.map_nil, Multiset.coe_nil]
      abel
  | send t buf => cases t <;> cases h <;> rfl
  | posted buf =>
    simp only [Session.advance] at h
    split_ifs at h <;> cases h
    · rfl
    · simp only [Session.settled, Pc.packets, ← Multiset.coe_add, Multiset.coe_nil]
      abel
  | verified buf =>
    simp only [Session.advance] at h
    split_ifs at h
    · cases h
      simp only [Session.settled, Pc.packets, ← Multiset.coe_add, Multiset.coe_nil]
      abel
    · simp only [Session.serve, Session.readAll, if_pos hfits.1, if_neg (not_lt.mpr hfits.2.1), hfits.2.2] at h
      cases h
      rfl
  | serving pkts =>
    cases pkts <;> cases h
    · rfl
    · simp only [Session.settled, Pc.packets, ← Multiset.coe_add, ← Multiset.cons_coe,
        ← Multiset.singleton_add, Multiset.coe_nil]
      abel
  | erring | failed => cases h; rfl
  | answered code => cases h; split_ifs <;> rfl
  | writing buf =>
    cases buf with
    | nil => cases h; rfl
    | cons x buf =>
      cases h
      have hx : payloadOf (frame x.value) = some x.value := payloadOf_frame (hout _ List.mem_cons_self)
      simp only [Session.settled, Pc.packets, List.filterMap_append, List.filterMap_cons, hx,
        List.filterMap_nil, List.map_cons, ← Multiset.coe_add, ← Multiset.cons_coe,
        ← Multiset.singleton_add, Multiset.coe_nil]
      abel

theorem refused_advance (hfits : pc.Fits limit) (hloaded : pc.Loaded)
    (h : s.advance limit pc = some (s', pc')) :
    pc'.Loaded ∧ ∃ ps, s'.refused = s.refused ++ ps ∧ (ps = [] ↔ pc.TakenUp s) := by
  cases pc with
  | idle => cases h
  | flush =>
    simp only [Session.advance] at h
    split_ifs at h with hbuf <;> cases h
    · exact ⟨trivial, [], by simp, iff_of_true rfl trivial⟩
    · exact ⟨(not_or.mp hbuf).2, [], by simp, iff_of_true rfl trivial⟩
  | send t buf => cases t <;> cases h <;> exact ⟨by trivial, [], by simp, iff_of_true rfl trivial⟩
  | posted buf =>
    simp only [Session.advance] at h
    split_ifs at h with ht <;> cases h
    · exact ⟨hloaded, [], by simp, iff_of_true rfl ht⟩
    · exact ⟨trivial, _, rfl, iff_of_false (fun he => hloaded (List.map_eq_nil_iff.mp he)) ht⟩
  | verified buf =>
    simp only [Session.advance] at h
    split_ifs at h with hd
    · cases h
      refine ⟨trivial, _, rfl, iff_of_false (fun he => hloaded (List.map_eq_nil_iff.mp he)) ?_⟩
      simp [Pc.TakenUp, hd]
    · simp only [Session.serve, Session.readAll, if_pos hfits.1, if_neg (not_lt.mpr hfits.2.1), hfits.2.2] at h
      cases h
      exact ⟨trivial, [], by simp, iff_of_true rfl (by simpa [Pc.TakenUp] using hd)⟩
  | serving pkts | writing pkts => cases pkts <;> cases h <;> exact ⟨trivial, [], by simp, iff_of_true rfl trivial⟩
  | erring | failed => cases h; exact ⟨trivial, [], by simp, iff_of_true rfl trivial⟩
  | answered code =>
    cases h
    refine ⟨?_, [], by simp, iff_of_true rfl trivial⟩
    split_ifs <;> trivial

theorem flush_advance (h : s.advance limit pc = some (s', pc')) :
    s'.writeBuffer = [] ∨ s'.writeBuffer = s.writeBuffer ∧ (pc = .flush → s.upgrading = true) := by
  by_cases hpc : pc = .flush
  · subst hpc
    simp only [Session.advance] at h
    split_ifs at h with hbuf <;> cases h
    · rcases hbuf with hup | hbuf
      · exact .inr ⟨rfl, fun _ => hup⟩
      · exact .inl hbuf
    · exact .inl rfl
  · rcases (Session.advance_box h).2.2 with ⟨-, -, hbuf, -⟩ | ⟨-, hbuf, -⟩ | ⟨-, -, hbuf, -⟩
    · exact .inl hbuf
    · exact .inr ⟨hbuf, fun hf => absurd hf hpc⟩
    · exact .inr ⟨hbuf, fun hf => absurd hf hpc⟩

end Steps

def upgradePhases : List Phase := [.raised, .paused, .dialed, .probing, .confirmed]

/-- What holds in every run. A packet in the buffer is going to be flushed, by a
goroutine that has appended one or by the upgrade. -/
structure Accounted (s : Session) : Prop where
  wire : Wire s
  conserved : s.everywhere = (s.accepted.map Item.value : List Packet)
  outgoing : ∀ x ∈ s.accepted, IsOutgoing x.value
  loaded : ∀ g ∈ s.goroutines, g.pc.Loaded
  upgrading : s.upgrading = true → s.phase ∈ upgradePhases
  flushed : s.writeBuffer ≠ [] → (∃ g ∈ s.goroutines, g.pc = .flush) ∨ s.phase ∈ upgradePhases ∨
    s.phase = .switched ∨ s.phase = .failed

section Run

variable {limit : ℕ} {s s' : Session} {a : Act} {i : ℕ}

theorem Accounted.packets (h : Accounted s) : ∀ g ∈ s.goroutines, ∀ p ∈ g.pc.packets, IsOutgoing p := by
  intro g hg p hp
  obtain ⟨j, hj⟩ := List.mem_iff_getElem?.mp hg
  have hmem : p ∈ s.everywhere := Multiset.mem_add.mpr (.inr (Pool.mem_sum_map.mpr ⟨j, g, hj, hp⟩))
  rw [h.conserved, Multiset.mem_coe] at hmem
  obtain ⟨x, hx, rfl⟩ := List.mem_map.mp hmem
  exact h.outgoing x hx

theorem inHands_set {g g' : Goroutine} (hg : s.goroutines[i]? = some g)
    (hgs : s'.goroutines = s.goroutines) :
    (s'.setGoroutine i g').inHands + (g.pc.packets : Multiset Packet) =
      s.inHands + (g'.pc.packets : Multiset Packet) := by
  rw [Session.inHands, Session.setGoroutine, hgs]
  exact Pool.sum_map_set (fun g : Goroutine => (g.pc.packets : Multiset Packet)) hg

theorem Accounted.go (h : Accounted s) (hfits : PayloadFits limit s (.go i))
    (hs : s.go limit i = some s') : Accounted s' := by
  have hwire := h.wire.go h.packets hs
  rcases Session.go_cases hs with ⟨o, todo, count, hg, rfl⟩ | ⟨g, s₁, pc, hg, hadv, rfl⟩
  · refine ⟨hwire, ?_, ?_, Pool.forall_set h.loaded trivial, h.upgrading, fun _ => .inl ?_⟩
    · have hset : ((s.append ⟨i, count, o.packet⟩).setGoroutine i ⟨todo, count + 1, .flush⟩).inHands +
          (0 : Multiset Packet) = s.inHands + 0 := inHands_set hg rfl
      have hcons := h.conserved
      rw [Session.everywhere, add_right_cancel hset]
      simp only [Session.everywhere, Session.settled, Session.setGoroutine, Session.append,
        List.map_append, List.map_cons, List.map_nil, ← Multiset.coe_add] at hcons ⊢
      rw [← hcons]
      abel
    · intro x hx
      rcases List.mem_append.mp hx with hx | hx
      · exact h.outgoing x hx
      · rw [List.mem_singleton.mp hx]
        exact ⟨o, rfl⟩
    · exact ⟨_, List.mem_set (List.getElem?_eq_some_iff.mp hg).1 _, rfl⟩
  · have hmem := List.mem_of_getElem? hg
    obtain ⟨hgs, hphase, -, -, -, hup, -⟩ := advance_wire hadv
    have hacc := (Session.advance_box hadv).2.1
    have hf : g.pc.Fits limit := hfits g hg
    have hloaded := (refused_advance hf (h.loaded g hmem) hadv).1
    refine ⟨hwire, ?_, ?_, ?_, ?_, fun hbuf => ?_⟩
    · have hset : (s₁.setGoroutine i { g with pc }).inHands + _ = _ := inHands_set hg hgs
      have hsettled := settled_advance hf (h.packets g hmem) hadv
      change s₁.settled + (s₁.setGoroutine i { g with pc }).inHands =
        (s₁.accepted.map Item.value : List Packet)
      rw [hacc, ← h.conserved]
      apply add_right_cancel (b := (g.pc.packets : Multiset Packet))
      rw [add_assoc, hset, add_comm s.inHands, ← add_assoc, hsettled, Session.everywhere]
      abel
    · change ∀ x ∈ s₁.accepted, _
      rw [hacc]
      exact h.outgoing
    · refine Pool.forall_set ?_ hloaded
      rw [hgs]
      exact h.loaded
    · change s₁.upgrading = true → s₁.phase ∈ _
      rw [hup, hphase]
      exact h.upgrading
    · change s₁.writeBuffer ≠ [] at hbuf
      change _ ∨ s₁.phase ∈ _ ∨ s₁.phase = _ ∨ s₁.phase = _
      rw [hphase]
      rcases flush_advance hadv with hnil | ⟨hsame, hflush⟩
      · exact absurd hnil hbuf
      · rw [hsame] at hbuf
        rcases h.flushed hbuf with ⟨g₀, hg₀, hpc₀⟩ | hlate
        · obtain ⟨j, hj⟩ := List.mem_iff_getElem?.mp hg₀
          by_cases hji : j = i
          · subst hji
            rw [hg, Option.some.injEq] at hj
            exact .inr (.inl (h.upgrading (hflush (by rw [hj]; exact hpc₀))))
          · refine .inl ⟨g₀, List.mem_of_getElem? (i := j) ?_, hpc₀⟩
            rw [Session.setGoroutine, hgs, List.getElem?_set_ne (Ne.symm hji)]
            exact hj
        · exact .inr hlate

theorem Accounted.move (h : Accounted s) (hwire : Wire s') (hsettled : s'.settled = s.settled)
    (hgs : s'.goroutines = s.goroutines) (hacc : s'.accepted = s.accepted)
    (hup : s'.upgrading = true → s'.phase ∈ upgradePhases)
    (hflushed : s'.writeBuffer = s.writeBuffer ∧ (s.phase ∈ upgradePhases ∨ s.phase = .switched ∨
      s.phase = .failed → s'.phase ∈ upgradePhases ∨ s'.phase = .switched ∨ s'.phase = .failed)) :
    Accounted s' := by
  refine ⟨hwire, ?_, ?_, ?_, hup, fun hbuf => ?_⟩
  · rw [Session.everywhere, Session.inHands, hsettled, hgs, hacc]
    exact h.conserved
  · rw [hacc]
    exact h.outgoing
  · rw [hgs]
    exact h.loaded
  · rw [hflushed.1] at hbuf
    rw [hgs]
    exact (h.flushed hbuf).imp_right hflushed.2

theorem settled_frames (p : Packet) (hp : payloadOf (frame p) = none) (phase : Phase) :
    ({ s with frames := s.frames ++ [frame p], phase } : Session).settled = s.settled := by
  simp [Session.settled, hp]

section

variable (h : Accounted s)

include h

theorem Accounted.flushUpgrade (hwire : Wire s')
    (hup : s.phase ∉ upgradePhases) (hs : s.flushUpgrade = some s') : Accounted s' := by
  obtain ⟨g, hg, hpc, rfl⟩ := Session.flushUpgrade_eq hs
  have hset : (({ s with phase := .finished } : Session).setGoroutine 0 { g with pc := .flush }).inHands +
      (g.pc.packets : Multiset Packet) = s.inHands + 0 := inHands_set hg rfl
  rw [hpc] at hset
  refine ⟨hwire, ?_, h.outgoing, Pool.forall_set h.loaded trivial, fun hu => absurd (h.upgrading hu) hup,
    fun _ => .inl ?_⟩
  · rw [Session.everywhere, add_right_cancel hset]
    exact h.conserved
  · exact ⟨_, List.mem_set (List.getElem?_eq_some_iff.mp hg).1 _, rfl⟩

theorem Accounted.upgrade (hs : s.upgrade = some s') : Accounted s' := by
  have hwire := h.wire.upgrade hs
  unfold Session.upgrade at hs
  split at hs
  case h_1 hp =>
    cases hs
    exact h.move hwire rfl rfl rfl (by simp [upgradePhases]) ⟨rfl, by simp [upgradePhases]⟩
  case h_2 hp =>
    split_ifs at hs
    cases hs
    exact h.move hwire rfl rfl rfl (by simp [upgradePhases]) ⟨rfl, by simp [upgradePhases]⟩
  case h_3 hp =>
    cases hs
    exact h.move hwire rfl rfl rfl (by simp [upgradePhases]) ⟨rfl, by simp [upgradePhases]⟩
  case h_4 hp =>
    split_ifs at hs
    cases hs
    exact h.move hwire (settled_frames _ rfl _) rfl rfl (by simp [upgradePhases])
      ⟨rfl, by simp [upgradePhases]⟩
  case h_5 hp =>
    split_ifs at hs
    cases hs
    exact h.move hwire (settled_frames _ rfl _) rfl rfl (by simp [upgradePhases])
      ⟨rfl, by simp [upgradePhases]⟩
  case h_6 hp =>
    cases hs
    exact h.move hwire rfl rfl rfl nofun ⟨rfl, by simp⟩
  case h_7 hp => exact h.flushUpgrade hwire (by simp [hp, upgradePhases]) hs
  case h_8 hp => exact h.flushUpgrade hwire (by simp [hp, upgradePhases]) hs
  case h_9 => cases hs

theorem Accounted.fail (hs : s.fail = some s') : Accounted s' := by
  have hwire := h.wire.fail hs
  unfold Session.fail at hs
  split at hs
  case h_1 | h_2 | h_3 =>
    cases hs
    exact h.move hwire rfl rfl rfl nofun ⟨rfl, by simp⟩
  case h_4 => cases hs

theorem Accounted.abort (hs : s.abort = some s') : Accounted s' := by
  have hwire := h.wire.abort hs
  have haborted (htport : s.tport = .polling) (hphase : s.phase ≠ .confirmed) :
      s.onAbort.settled = s.settled := by
    rcases (h.wire.unconfirmed htport hphase).2 with hf | hf
    · simp [Session.settled, Session.onAbort, hf]
    · have hprobe : payloadOf (frame probePacket) = none := rfl
      simp [Session.settled, Session.onAbort, hf, hprobe]
  unfold Session.abort at hs
  split at hs
  case h_1 hp | h_2 hp | h_3 hp | h_4 hp =>
    split_ifs at hs with hc
    cases hs
    exact h.move hwire (haborted hc.2 (by simp [hp])) rfl rfl h.upgrading ⟨rfl, id⟩
  case h_5 => cases hs

theorem Accounted.discard (hs : s.discard = some s') : Accounted s' := by
  have hwire := h.wire.discard hs
  unfold Session.discard at hs
  split_ifs at hs
  cases hs
  exact h.move hwire rfl rfl rfl h.upgrading ⟨rfl, id⟩

theorem Accounted.recv (hs : s.recv = some s') : Accounted s' := by
  have hwire := h.wire.recv hs
  rcases h.wire.recv_cases hs with ⟨-, hf, rfl⟩ | ⟨fs, -, hf, -, rfl⟩ | ⟨p, fs, -, hp, hf, rfl⟩
  · have hprobe : payloadOf (frame probePacket) = none := rfl
    exact h.move hwire (by simp [Session.settled, hf, hprobe]) rfl rfl h.upgrading ⟨rfl, id⟩
  · have hup : payloadOf (frame upgradePacket) = none := rfl
    exact h.move hwire (by simp [Session.settled, hf, hup]) rfl rfl h.upgrading ⟨rfl, id⟩
  · refine h.move hwire ?_ rfl rfl h.upgrading ⟨rfl, id⟩
    simp only [Session.settled, hf, List.filterMap_cons, payloadOf_frame hp, ← Multiset.coe_add,
      ← Multiset.cons_coe, ← Multiset.singleton_add, Multiset.coe_nil]
    abel

theorem accounted_step (hfits : PayloadFits limit s a)
    (hs : s.step limit a = some s') : Accounted s' := by
  obtain ⟨-, hact⟩ := Session.act_of_step hs
  cases a with
  | go i => exact h.go hfits hact
  | upgrade => exact h.upgrade hact
  | fail => exact h.fail hact
  | abort => exact h.abort hact
  | discard => exact h.discard hact
  | recv => exact h.recv hact

theorem refused_step (hfits : PayloadFits limit s a) (hs : s.step limit a = some s') :
    ∃ ps, s'.refused = s.refused ++ ps ∧ (ps = [] ↔ TakenUp s a) := by
  obtain ⟨-, hact⟩ := Session.act_of_step hs
  by_cases ha : ∃ i, a = .go i
  · obtain ⟨i, rfl⟩ := ha
    rcases Session.go_cases hact with ⟨o, todo, count, hg, rfl⟩ | ⟨g, s₁, pc, hg, hadv, rfl⟩
    · refine ⟨[], (List.append_nil _).symm, iff_of_true rfl fun g hg' => ?_⟩
      rw [hg, Option.mem_some_iff] at hg'
      rw [← hg']
      trivial
    · obtain ⟨-, ps, hps, hiff⟩ := refused_advance (hfits g hg) (h.loaded g (List.mem_of_getElem? hg)) hadv
      refine ⟨ps, hps, hiff.trans ⟨fun ht g' hg' => ?_, fun ht => ht g hg⟩⟩
      rw [hg, Option.mem_some_iff] at hg'
      rw [← hg']
      exact ht
  · refine ⟨[], ?_, iff_of_true rfl ?_⟩
    · rw [List.append_nil, (Session.act_same (fun i hi => ha ⟨i, hi⟩) hact).2]
    · cases a with
      | go i => exact absurd ⟨i, rfl⟩ ha
      | _ => trivial

end

variable {calls : List (List Outgoing)} {ls : List Act}

theorem init_idle : ∀ g ∈ (Session.init .polling calls).goroutines, g.pc = .idle := by
  intro g hg
  simp only [Session.init, List.mem_cons, List.mem_map] at hg
  rcases hg with rfl | ⟨c, -, rfl⟩ <;> rfl

theorem inHands_of_idle (h : ∀ g ∈ s.goroutines, g.pc = .idle) : s.inHands = 0 := by
  apply List.sum_eq_zero
  intro m hm
  obtain ⟨g, hg, rfl⟩ := List.mem_map.mp hm
  rw [h g hg]
  rfl

theorem accounted_init (calls : List (List Outgoing)) : Accounted (.init .polling calls) := by
  refine ⟨?_, ?_, nofun, fun g hg => ?_, nofun, fun hbuf => absurd rfl hbuf⟩
  · refine wire_of_polling rfl rfl nofun (fun g hg hoff => ?_) (.inl ⟨rfl, fun _ => rfl⟩)
    rw [init_idle g hg] at hoff
    cases hoff
  · rw [Session.everywhere, inHands_of_idle init_idle]
    rfl
  · rw [init_idle g hg]
    trivial

section

variable (hrun : Run (Session.step limit) (PayloadFits limit) (.init .polling calls) ls s)

include hrun

theorem accounted_run :
    Accounted s :=
  hrun.invariant Accounted (accounted_init calls) fun _ _ _ h hfits hs => accounted_step h hfits hs

theorem refused_iff :
    s.refused = [] ↔ Run (Session.step limit) (fun s a => PayloadFits limit s a ∧ TakenUp s a)
      (.init .polling calls) ls s := by
  induction hrun with
  | nil => exact iff_of_true rfl .nil
  | snoc hrun hfits hs ih =>
    obtain ⟨ps, hps, hiff⟩ := refused_step (accounted_run hrun) hfits hs
    rw [hps, List.append_eq_nil_iff, ih, hiff]
    constructor
    · exact fun h => .snoc h.1 ⟨hfits, h.2⟩ hs
    · intro h
      obtain ⟨t, hgood, hok, -⟩ := h.last
      rw [hrun.det hgood]
      exact ⟨hgood, hok.2⟩

end

/-- When everything has come to rest, the packets that reached the socket are those
that were accepted, each of them once, exactly if the server took up every POST
before its switch and while it served no other. -/
theorem delivery_exact
    (hrun : Run (Session.step limit) (PayloadFits limit) (.init .polling calls) ls s)
    (hquiet : s.Quiet) :
    s.received.Perm (s.accepted.map Item.value) ↔
      Run (Session.step limit) (fun s a => PayloadFits limit s a ∧ TakenUp s a)
        (.init .polling calls) ls s := by
  have hacc := accounted_run hrun
  obtain ⟨hidle, hframes, hphase⟩ := hquiet
  have hbuf : s.writeBuffer = [] := by
    by_contra hne
    rcases hacc.flushed hne with ⟨g, hg, hpc⟩ | hlate
    · rw [hidle g hg] at hpc
      cases hpc
    · rcases hphase with hp | hp <;> simp [hp, upgradePhases] at hlate
  have hsum : (s.received : Multiset Packet) + s.refused = (s.accepted.map Item.value : List Packet) := by
    rw [← hacc.conserved, Session.everywhere, inHands_of_idle hidle]
    simp [Session.settled, hbuf, hframes]
  rw [← refused_iff hrun, ← Multiset.coe_eq_coe, ← hsum, left_eq_add, Multiset.coe_eq_zero]

end Run

section NonVacuity

instance (s : Session) : Decidable s.Quiet := inferInstanceAs (Decidable (_ ∧ _ ∧ _))

/-- The handshake from the pause to the switch, and the flush that follows it. -/
def handshake : List Act :=
  [.upgrade, .upgrade, .upgrade, .recv, .upgrade, .recv, .discard, .upgrade, .upgrade, .go 0]

/-- One message is posted before the upgrade and one is sent during it. -/
def aroundUpgrade : List Act :=
  List.replicate 8 (Act.go 1) ++ [Act.upgrade, .go 1, .go 1] ++ handshake ++ [Act.go 0, .go 0, .go 0, .recv]

def twoMessages : Session := .init .polling [[.message [1] false, .message [2] true]]

theorem aroundUpgrade_runs : (exec (Session.step 100) (fun s a => PayloadFits 100 s a ∧ TakenUp s a)
    twoMessages aroundUpgrade).isSome = true := by
  decide +kernel

theorem delivery_exact_around_upgrade :
    let s := (exec (Session.step 100) (fun s a => PayloadFits 100 s a ∧ TakenUp s a)
      twoMessages aroundUpgrade).get aroundUpgrade_runs
    s.received.Perm (s.accepted.map Item.value) :=
  (delivery_exact ((run_of_isSome aroundUpgrade_runs).mono fun _ _ h => h.1) (by decide +kernel)).mpr
    (run_of_isSome aroundUpgrade_runs)

/-- The batch is taken before the upgrade begins and posted after the switch. -/
def acrossUpgrade : List Act :=
  [Act.go 1, .go 1, .upgrade] ++ handshake ++ [Act.go 1, .go 1, .go 1, .go 1]

theorem acrossUpgrade_runs : (exec (Session.step 100) (PayloadFits 100)
    (.init .polling [[.message [1] false]]) acrossUpgrade).isSome = true := by
  decide +kernel

/-- A message gets lost, although nobody closes the session. -/
theorem delivery_broken : ¬ ∀ (limit : ℕ) (calls : List (List Outgoing)) (ls : List Act) (s : Session),
    Run (Session.step limit) (PayloadFits limit) (.init .polling calls) ls s → s.Quiet →
      s.closed = false → s.received.Perm (s.accepted.map Item.value) := by
  intro h
  have hperm := h 100 _ acrossUpgrade _ (run_of_isSome acrossUpgrade_runs) (by decide +kernel)
    (by decide +kernel)
  exact absurd hperm.length_eq (by decide +kernel)

end NonVacuity

end Gosocketio.Client

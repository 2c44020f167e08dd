import Gosocketio.Lib.Parcel
import Gosocketio.Proofs.Routing

/-! The messages between `writeBuffer` and the wire. The switch to a websocket lets
callers flush to it at once, while messages sent before may still lie in the polling
transport, in the hands of a poll request or in the hands of `onUpgrade`. As long as
no flush overtakes them, they stay in line. -/

namespace Gosocketio.EngineSocket

open Transport Parcel

namespace Socket

variable {s s' : Socket} {i k : ℕ} {g g' : Goroutine} {a : Attempt} {phase : Phase}

/-- No message waits for a poll, in the polling transport or with the request that
has taken it over. -/
def Clear (s : Socket) : Prop :=
  messages s.sendBuffer = [] ∧ ∀ g ∈ s.goroutines, messages g.buffered = []

end Socket

def Pc.framesOf (j : ℕ) : Pc → List Packet
  | .sending (.websocket k) buf => if k = j then buf else []
  | _ => []

namespace Socket

variable {s s' : Socket} {i k : ℕ} {g g' : Goroutine} {a : Attempt} {phase : Phase} {buf : List Packet}
  {j : ℕ}

/-- `onUpgrade` closes the polling transport only when no message waits for a poll,
and a websocket it replaces only when no message is being sent over it. -/
def CarefulUpgrade (s : Socket) : Phase → Prop
  | .requeued => s.Clear
  | .switched (.websocket j) => ∀ g ∈ s.goroutines, messages (g.pc.framesOf j) = []
  | _ => True

/-- A flush takes messages only while no earlier message waits for a poll or to be
put back, and `onUpgrade` is careful with what it closes. -/
def Careful (s : Socket) : Act → Prop
  | .go i => (s.goroutines[i]?).map Goroutine.pc = some .flush → s.takes = true →
      messages s.writeBuffer ≠ [] → s.Clear ∧ ∀ a ∈ s.attempts, messages a.phase.packets = []
  | .onUpgrade k => ∀ a ∈ s.attempt k, s.CarefulUpgrade a.phase
  | _ => True

instance (s : Socket) : Decidable s.Clear := inferInstanceAs (Decidable (_ ∧ _))

instance (s : Socket) (phase : Phase) : Decidable (s.CarefulUpgrade phase) := by
  unfold CarefulUpgrade
  split <;> infer_instance

instance (s : Socket) (a : Act) : Decidable (s.Careful a) := by
  unfold Careful
  split <;> infer_instance

/-- The messages that are on their way are in line, and nothing waits for a poll
once a frame has gone out or the polling transport is closed. -/
structure InTransit (s : Socket) : Prop where
  inLine : InLine s.content (s.polled ++ s.framed) (messages s.writeBuffer) s.accepted
  framed : s.framed ≠ [] → s.transport ≠ .polling ∧ ∀ ℓ, (∀ i, ℓ ≠ .frames i) → s.content ℓ = []
  closed : s.closed = true → ∀ i, s.content (.handler i) = []

theorem InTransit.congr (h : InTransit s) (hc : s'.content = s.content)
    (hp : s'.polled = s.polled) (hf : s'.framed = s.framed)
    (hw : messages s'.writeBuffer = messages s.writeBuffer) (ha : s'.accepted = s.accepted)
    (ht : s.transport ≠ .polling → s'.transport ≠ .polling) (hcl : s'.closed = s.closed) :
    InTransit s' where
  inLine := by
    rw [hc, hp, hf, hw, ha]
    exact h.inLine
  framed hne := by
    rw [hf] at hne
    rw [hc]
    exact ⟨ht (h.framed hne).1, (h.framed hne).2⟩
  closed hclosed := by
    rw [hc]
    exact h.closed (hcl ▸ hclosed)

theorem InTransit.pollingSend (h : InTransit s) {a : Loc}
    (ha : s.content a = messages buf) (hclosed : s.closed = true → messages buf = [])
    (hne : a ≠ .buffer) (hframes : ∀ i, a ≠ .frames i)
    (hempty : ((s.pollingSend buf).setGoroutine i g').content a = [])
    (hother : ∀ ℓ, ℓ ≠ a → ℓ ≠ .buffer →
    ((s.pollingSend buf).setGoroutine i g').content ℓ = s.content ℓ) :
    InTransit ((s.pollingSend buf).setGoroutine i g') := by
  have hframed : s.framed ≠ [] → messages buf = [] := fun hf => by
    rw [← ha]
    exact (h.framed hf).2 a hframes
  rcases pollingSend_cases s buf with ⟨hcl, he⟩ | ⟨hcl, he⟩ | ⟨hcl, -, he⟩
  · rw [he] at hempty hother ⊢
    refine h.congr (funext fun ℓ => ?_) rfl rfl rfl rfl id rfl
    by_cases hℓa : ℓ = a
    · rw [hℓa, hempty, ha, hclosed hcl]
    by_cases hℓb : ℓ = .buffer
    · rw [hℓb]
      rfl
    exact hother ℓ hℓa hℓb
  · rw [he] at hempty hother ⊢
    set t := Socket.setGoroutine { s with writable := false, pending := false,
                                          polled := s.polled ++ messages buf } i g'
    have hsame (ℓ : Loc) (hℓa : ℓ ≠ a) : t.content ℓ = s.content ℓ := by
      by_cases hℓb : ℓ = .buffer
      · rw [hℓb]
        rfl
      · exact hother ℓ hℓa hℓb
    refine ⟨?_, fun hf => ⟨(h.framed hf).1, fun ℓ hℓ => ?_⟩, fun hcl' => ?_⟩
    · have hpop : s.content a = messages buf ++ t.content a := by
        rw [hempty, ha, List.append_nil]
      have hpolled : s.polled ++ messages buf ++ s.framed = s.polled ++ s.framed ++ messages buf := by
        by_cases hf : s.framed = []
        · rw [hf, List.append_nil, List.append_nil]
        · rw [hframed hf, List.append_nil, List.append_nil]
      exact hpolled ▸ h.inLine.emit hpop hsame
    · by_cases hℓa : ℓ = a
      · rw [hℓa, hempty]
      · rw [hsame ℓ hℓa]
        exact (h.framed hf).2 ℓ hℓ
    · exact absurd (hcl.symm.trans hcl') nofun
  · rw [he] at hempty hother ⊢
    set t := Socket.setGoroutine { s with writable := false, sendBuffer := s.sendBuffer ++ buf } i g'
    have hbuffer : t.content .buffer = s.content .buffer ++ s.content a := by
      rw [ha]
      exact messages_append ..
    refine ⟨h.inLine.move hne hempty hbuffer hother, fun hf => ⟨(h.framed hf).1, fun ℓ hℓ => ?_⟩,
      fun hcl' => ?_⟩
    · by_cases hℓa : ℓ = a
      · rw [hℓa, hempty]
      by_cases hℓb : ℓ = .buffer
      · rw [hℓb, hbuffer, ha, hframed hf, List.append_nil]
        exact (h.framed hf).2 .buffer fun _ => nofun
      · rw [hother ℓ hℓa hℓb]
        exact (h.framed hf).2 ℓ hℓ
    · exact absurd (hcl.symm.trans hcl') nofun

/-- Nothing is sent over a websocket that has been closed. -/
def NoneLost (s : Socket) : Prop :=
  ∀ j, s.isClosed j = true → ∀ g ∈ s.goroutines, ∀ buf, g.pc = .sending (.websocket j) buf →
    messages buf = []

theorem content_eq_nil_of_clear (h : s.Clear) (i : ℕ) : s.content (.handler i) = [] := by
  cases hi : s.goroutines[i]? with
  | none => simp only [content, hi, Option.elim]
  | some g =>
    rw [content_handler hi]
    exact h.2 g (List.mem_of_getElem? hi)

/-- When no flush is in progress and the flush is careful, all places are empty. -/
theorem content_eq_nil (hR : Routed s) (hs : s.sending = false) (hclear : s.Clear)
    (hdrained : ∀ a ∈ s.attempts, messages a.phase.packets = []) (ℓ : Loc) : s.content ℓ = [] := by
  have hidle {i : ℕ} {g : Goroutine} (hi : s.goroutines[i]? = some g) : g.pc.active = false :=
    hR.idle_of_not_sending hs g (List.mem_of_getElem? hi)
  cases ℓ with
  | buffer => exact hclear.1
  | handler i => exact content_eq_nil_of_clear hclear i
  | batch i =>
    cases hi : s.goroutines[i]? with
    | none => simp only [content, hi, Option.elim]
    | some g => rw [content_batch hi, batch_of_not_active (hidle hi), messages_nil]
  | frames i =>
    cases hi : s.goroutines[i]? with
    | none => simp only [content, hi, Option.elim]
    | some g => rw [content_frames hi, frames_of_not_active (hidle hi), messages_nil]
  | drained k =>
    cases hk : s.attempt k with
    | none => simp only [content, hk, Option.elim]
    | some a =>
      rw [content_drained hk]
      exact hdrained a (List.mem_of_getElem? hk)

section

variable (h : InTransit s)

include h

theorem InTransit.take (hi : s.goroutines[i]? = some g)
    (hempty : ∀ ℓ, s.content ℓ = []) :
    InTransit ({ s with writeBuffer := [], sending := true }.setGoroutine i
      { g with pc := .sending s.transport s.writeBuffer }) := by
  set t := Socket.setGoroutine { s with writeBuffer := [], sending := true } i
    { g with pc := .sending s.transport s.writeBuffer } with ht
  have hit : t.goroutines[i]? = some { g with pc := .sending s.transport s.writeBuffer } :=
    setGoroutine_get hi
  have hhandler : t.content (.handler i) = [] := by
    rw [content_handler hit, ← content_handler hi, hempty]
  cases htr : s.transport with
  | polling =>
    have hother (ℓ : Loc) (hℓ : ℓ ≠ .batch i) : t.content ℓ = [] := by
      by_cases hℓh : ℓ = .handler i
      · rw [hℓh, hhandler]
      by_cases hℓf : ℓ = .frames i
      · rw [hℓf, content_frames hit, htr]
        rfl
      · rw [ht, content_setGoroutine_ne hℓh hℓ hℓf]
        exact hempty ℓ
    refine ⟨h.inLine.take hempty ?_ hother, fun hf => ?_, fun _ j => hother _ nofun⟩
    · rw [content_batch hit, htr]
      rfl
    · exact absurd htr (h.framed hf).1
  | websocket j =>
    have hother (ℓ : Loc) (hℓ : ℓ ≠ .frames i) : t.content ℓ = [] := by
      by_cases hℓh : ℓ = .handler i
      · rw [hℓh, hhandler]
      by_cases hℓb : ℓ = .batch i
      · rw [hℓb, content_batch hit, htr]
        rfl
      · rw [ht, content_setGoroutine_ne hℓh hℓb hℓ]
        exact hempty ℓ
    refine ⟨h.inLine.take hempty ?_ hother, fun hf => ⟨(h.framed hf).1, fun ℓ hℓ => hother ℓ (hℓ i)⟩,
      fun _ j => hother _ nofun⟩
    rw [content_frames hit, htr]
    rfl

theorem InTransit.frame (ht : s.transport ≠ .polling)
    (hi : s.goroutines[i]? = some g) {p : Packet}
    (hpc : g.pc = .sending (.websocket k) (p :: buf)) :
    InTransit ({ s with framed := s.framed ++ messages [p] }.setGoroutine i
      { g with pc := .sending (.websocket k) buf }) := by
  set t := Socket.setGoroutine { s with framed := s.framed ++ messages [p] } i
    { g with pc := .sending (.websocket k) buf } with ht'
  have hit : t.goroutines[i]? = some { g with pc := .sending (.websocket k) buf } :=
    setGoroutine_get hi
  have hold : s.content (.frames i) = messages [p] ++ messages buf := by
    rw [content_frames hi, hpc]
    exact messages_cons p buf
  have hpop : s.content (.frames i) = messages [p] ++ t.content (.frames i) := by
    rw [hold, content_frames hit]
    rfl
  have hother (ℓ : Loc) (hℓ : ℓ ≠ .frames i) : t.content ℓ = s.content ℓ := by
    by_cases hℓh : ℓ = .handler i
    · rw [hℓh, content_handler hit, content_handler hi]
    by_cases hℓb : ℓ = .batch i
    · rw [hℓb, content_batch hit, content_batch hi, hpc]
      rfl
    · rw [ht', content_setGoroutine_ne hℓh hℓb hℓ]
      rfl
  refine ⟨?_, fun hf => ⟨ht, fun ℓ hℓ => ?_⟩, fun hcl j => ?_⟩
  · have hline := h.inLine.emit hpop hother
    rw [List.append_assoc] at hline
    exact hline
  · rw [hother ℓ (hℓ i)]
    by_cases hp : messages [p] = []
    · rw [ht', Socket.setGoroutine, hp, List.append_nil] at hf
      exact (h.framed hf).2 ℓ hℓ
    · -- the batch is not empty, so it is all that is on its way
      refine h.inLine.sole (a := .frames i) ?_ ℓ (hℓ i)
      rw [hold]
      exact fun hnil => hp (List.append_eq_nil_iff.mp hnil).1
  · rw [hother (.handler j) nofun]
    exact h.closed hcl j

theorem InTransit.setGoroutine (hi : s.goroutines[i]? = some g)
    (hh : messages g'.buffered = messages g.buffered)
    (hb : messages g'.pc.batch = messages g.pc.batch)
    (hf : messages g'.pc.frames = messages g.pc.frames) : InTransit (s.setGoroutine i g') :=
  h.congr (content_setGoroutine hi hh hb hf) rfl rfl rfl rfl id rfl

theorem InTransit.pollingSend_noop : InTransit (s.pollingSend [noopPacket]) := by
  rcases pollingSend_cases s [noopPacket] with ⟨-, he⟩ | ⟨-, he⟩ | ⟨-, -, he⟩
  · rw [he]
    exact h
  · rw [he]
    exact h.congr rfl (List.append_nil _) rfl rfl rfl id rfl
  · rw [he]
    refine h.congr (funext fun ℓ => ?_) rfl rfl rfl rfl id rfl
    cases ℓ with
    | buffer => simp only [content, messages_append, messages_noop, List.append_nil]
    | handler | batch | frames | drained => rfl

theorem InTransit.advance (hR : Routed s) (hL : NoneLost s)
    (hcareful : Careful s (.go i)) (hi : s.goroutines[i]? = some g) {s₁ : Socket} {pc : Pc}
    (hadv : s.advance g.pc = some (s₁, pc)) : InTransit (s₁.setGoroutine i { g with pc }) := by
  have hmem : g ∈ s.goroutines := List.mem_of_getElem? hi
  have hm := moves_of_advance hadv
  generalize hpc : g.pc = pc₀ at hm
  have hquiet {s₂ : Socket} {pc' : Pc} (h₂ : InTransit s₂) (hg₂ : s₂.goroutines = s.goroutines)
      (hb : messages pc'.batch = messages pc₀.batch)
      (hf : messages pc'.frames = messages pc₀.frames) :
      InTransit (s₂.setGoroutine i { g with pc := pc' }) := by
    rw [← hg₂] at hi
    rw [← hpc] at hb hf
    exact h₂.setGoroutine hi rfl hb hf
  cases hm with
  | appended | noopWebsocket =>
    refine hquiet h rfl ?_ ?_ <;> split_ifs <;> rfl
  | take htakes =>
    by_cases hm : messages s.writeBuffer = []
    · refine hquiet (h.congr rfl rfl rfl hm.symm rfl id rfl) rfl ?_ ?_
      · cases s.transport with
        | polling => exact hm
        | websocket => rfl
      · cases s.transport with
        | polling => rfl
        | websocket => exact hm
    · obtain ⟨hclear, hdrained⟩ := hcareful (by rw [hi, Option.map_some, hpc]) htakes hm
      exact h.take hi (content_eq_nil hR (takes_iff.mp htakes).1 hclear hdrained)
  | skip | written | tick => exact hquiet h rfl rfl rfl
  | respond buf =>
    have hget : (s.pollingSend buf).goroutines[i]? = some g := by rw [pollingSend_goroutines, hi]
    have hit : ((s.pollingSend buf).setGoroutine i { g with pc := .sent }).goroutines[i]? =
        some { g with pc := .sent } := setGoroutine_get hget
    refine h.pollingSend (a := .batch i) ?_ (fun hcl => ?_) nofun (fun _ => nofun) ?_ fun ℓ hℓ hℓb => ?_
    · rw [content_batch hi, hpc]
      rfl
    · exact absurd hpc (hR.onPolling (.inl hcl) g hmem buf)
    · rw [content_batch hit]
      rfl
    · by_cases hℓh : ℓ = .handler i
      · rw [hℓh, content_handler hit, content_handler hi]
      by_cases hℓf : ℓ = .frames i
      · rw [hℓf, content_frames hit, content_frames hi, hpc]
        rfl
      · rw [content_setGoroutine_ne hℓh hℓ hℓf]
        exact content_pollingSend_ne hℓb buf
  | frame => exact h.frame (hR.onWebsocket g hmem _ _ hpc) hi hpc
  | lose hclosed =>
    refine hquiet (h.congr rfl rfl rfl rfl rfl id rfl) rfl rfl ?_
    exact (hL _ hclosed g hmem _ hpc).symm
  | sent | noopLost =>
    refine hquiet (h.congr rfl rfl rfl rfl rfl id rfl) rfl ?_ ?_ <;> split_ifs <;> rfl
  | noopPolling => exact hquiet h.pollingSend_noop (pollingSend_goroutines _) rfl rfl

end

theorem isClosed_iff : s.isClosed j = true ↔ ∃ b, s.attempt j = some b ∧ b.closed = true := by
  rw [isClosed]
  cases s.attempt j with
  | none | some => simp

section

variable (h : NoneLost s)

include h

theorem NoneLost.congr (hg : s'.goroutines = s.goroutines)
    (hc : ∀ j, s'.isClosed j = true → s.isClosed j = true) : NoneLost s' := by
  intro j hj
  rw [hg]
  exact h j (hc j hj)

theorem NoneLost.setGoroutine
    (hg : ∀ j buf, s.isClosed j = true → g'.pc = .sending (.websocket j) buf → messages buf = []) :
    NoneLost (s.setGoroutine i g') :=
  fun j hj => Pool.forall_set (h j hj) fun buf => hg j buf hj

theorem NoneLost.spawn (hg : g.pc.active = false) : NoneLost (s.spawn g) := by
  intro j hj x hx buf hpc
  rcases List.mem_append.mp hx with hx | hx
  · exact h j hj x hx buf hpc
  · rw [List.mem_singleton.mp hx] at hpc
    rw [hpc] at hg
    exact absurd hg nofun

theorem NoneLost.setPhase (hk : s.attempt k = some a) (phase : Phase) :
    NoneLost (s.setPhase k phase) := by
  refine h.congr rfl fun j hj => ?_
  obtain ⟨b, hb, hbc⟩ := isClosed_iff.mp hj
  rcases attempt_setPhase_cases hk hb with ⟨rfl, rfl⟩ | ⟨-, hb⟩
  · exact isClosed_iff.mpr ⟨a, hk, hbc⟩
  · exact isClosed_iff.mpr ⟨b, hb, hbc⟩

theorem NoneLost.closeWebsocket
    (hj : ∀ g ∈ s.goroutines, messages (g.pc.framesOf j) = []) : NoneLost (s.closeWebsocket j) := by
  intro m hm
  by_cases hjm : j = m
  · subst hjm
    intro g hg buf hpc
    have hnil := hj g hg
    rw [hpc, Pc.framesOf, if_pos rfl] at hnil
    exact hnil
  · obtain ⟨b, hb, hbc⟩ := isClosed_iff.mp hm
    rw [attempt_closeWebsocket] at hb
    obtain ⟨b', hb', rfl⟩ := Option.map_eq_some_iff.mp hb
    rw [if_neg hjm] at hbc
    exact h m (isClosed_iff.mpr ⟨b', hb', hbc⟩)

theorem NoneLost.begin (b : Bool) :
    NoneLost { s with upgrading := b, attempts := s.attempts ++ [{}] } := by
  refine h.congr rfl fun j hj => ?_
  obtain ⟨c, hc, hcc⟩ := isClosed_iff.mp hj
  rcases attempt_begin hc with hc | rfl
  · exact isClosed_iff.mpr ⟨c, hc, hcc⟩
  · exact absurd hcc nofun

end

theorem Routed.not_isClosed (hR : Routed s) (hj : s.transport = .websocket j) :
    s.isClosed j ≠ true := by
  intro hcl
  obtain ⟨b, hb, -, hopen⟩ := hR.current.inUse j hj
  obtain ⟨b', hb', hclosed⟩ := isClosed_iff.mp hcl
  rw [hb, Option.some.injEq] at hb'
  rw [← hb', hopen] at hclosed
  exact absurd hclosed nofun

theorem NoneLost.advance (h : NoneLost s) (hR : Routed s) (hi : s.goroutines[i]? = some g)
    {s₁ : Socket} {pc : Pc} (hadv : s.advance g.pc = some (s₁, pc)) :
    NoneLost (s₁.setGoroutine i { g with pc }) := by
  have hm := moves_of_advance hadv
  obtain ⟨hg, ha, -⟩ := hm.same
  have hclosed (j : ℕ) : s₁.isClosed j = s.isClosed j := by rw [isClosed, attempt, ha, isClosed, attempt]
  refine (h.congr hg fun j => by rw [hclosed]; exact id).setGoroutine fun j buf hj hpc => ?_
  rw [hclosed] at hj
  rcases hm.of_sending hpc with ⟨-, ht⟩ | ⟨p, hpc⟩
  · exact absurd hj (hR.not_isClosed ht.symm)
  · have hnil := h j hj g (List.mem_of_getElem? hi) _ hpc
    rw [messages_cons] at hnil
    exact (List.append_eq_nil_iff.mp hnil).2

theorem NoneLost.step (h : NoneLost s) (hR : Routed s) {l : Act} (hcareful : Careful s l)
    (hs : s.step l = some s') : NoneLost s' := by
  cases step_does hs with
  | @resend i g hi hpc =>
    have hg : NoneLost (s.pollingSend g.buffered) := by
      refine h.congr (by simp) fun j hj => ?_
      rw [isClosed, attempt, pollingSend_attempts] at hj
      exact hj
    refine hg.setGoroutine fun j buf hj hpc' => ?_
    rw [show g.pc = .sending (.websocket j) buf from hpc'] at hpc
    exact absurd hpc (by simp)
  | append hi hpc => exact NoneLost.setGoroutine (h.congr rfl fun j hj => hj) (by simp)
  | advance hi hadv => exact h.advance hR hi hadv
  | pollClosed | poll => exact NoneLost.spawn (h.congr rfl fun j hj => hj) rfl
  | cancel | onProbe => exact h.congr rfl fun j hj => hj
  | tick => exact h.spawn rfl
  | maybeUpgrade => exact h.begin true
  | @replace k a j hk hphase =>
    have hover := hcareful a hk
    rw [hphase] at hover
    obtain ⟨b, hb, -⟩ := exists_attempt_closeWebsocket j hk
    exact (h.closeWebsocket hover).setPhase hb _
  | switch hk | waitSent hk | drain hk | requeue hk | close hk =>
    exact NoneLost.setPhase (h.congr rfl fun j hj => hj) hk _
  | finish hk | onAbort hk =>
    exact NoneLost.spawn (NoneLost.setPhase (h.congr rfl fun j hj => hj) hk _) rfl

theorem InTransit.resend (h : InTransit s) (hi : s.goroutines[i]? = some g) :
    InTransit ((s.pollingSend g.buffered).setGoroutine i { g with buffered := [] }) := by
  have hget : (s.pollingSend g.buffered).goroutines[i]? = some g := by
    rw [pollingSend_goroutines, hi]
  have hit : ((s.pollingSend g.buffered).setGoroutine i { g with buffered := [] }).goroutines[i]? =
      some { g with buffered := [] } := setGoroutine_get hget
  refine h.pollingSend (a := .handler i) (content_handler hi) (fun hcl => ?_) nofun (fun _ => nofun)
    (content_handler hit) fun ℓ hℓ hℓb => ?_
  · rw [← content_handler hi]
    exact h.closed hcl i
  · by_cases hℓbatch : ℓ = .batch i
    · rw [hℓbatch, content_batch hit, content_batch hi]
    by_cases hℓf : ℓ = .frames i
    · rw [hℓf, content_frames hit, content_frames hi]
    · rw [content_setGoroutine_ne hℓ hℓbatch hℓf]
      exact content_pollingSend_ne hℓb g.buffered

theorem InTransit.append (h : InTransit s) (hi : s.goroutines[i]? = some g) (hpc : g.pc = .idle)
    {p : Packet} {todo : List Packet} {t : Tport} :
    InTransit ({ s with writeBuffer := s.writeBuffer ++ [p],
                        accepted := s.accepted ++ messages [p] }.setGoroutine i
                { g with todo, pc := .appended t }) := by
  have happended : InTransit { s with writeBuffer := s.writeBuffer ++ [p],
                                      accepted := s.accepted ++ messages [p] } := by
    refine ⟨?_, h.framed, h.closed⟩
    rw [messages_append]
    exact h.inLine.enqueue
  refine happended.setGoroutine hi rfl ?_ ?_
  · rw [hpc]
    rfl
  · rw [hpc]
    rfl

theorem content_begin (b : Bool) :
    { s with upgrading := b, attempts := s.attempts ++ [{}] : Socket }.content = s.content := by
  funext ℓ
  cases ℓ with
  | buffer | handler | batch | frames => rfl
  | drained k =>
    simp only [content, attempt]
    rcases Nat.lt_trichotomy k s.attempts.length with hlt | rfl | hgt
    · rw [List.getElem?_append_left hlt]
    · rw [List.getElem?_concat_length, List.getElem?_eq_none (le_refl _)]
      rfl
    · rw [List.getElem?_eq_none (by rw [List.length_append]; exact hgt),
        List.getElem?_eq_none hgt.le]

theorem content_closeWebsocket (j : ℕ) : (s.closeWebsocket j).content = s.content := by
  funext ℓ
  cases ℓ with
  | buffer | handler | batch | frames => rfl
  | drained k =>
    rw [content, attempt_closeWebsocket, content]
    cases s.attempt k with
    | none => rfl
    | some a =>
      split_ifs <;> rfl

section

variable (h : InTransit s)

include h

theorem InTransit.spawn (hh : g.buffered = []) (hg : g.pc.active = false) : InTransit (s.spawn g) :=
  h.congr (content_spawn hh (batch_of_not_active hg) (frames_of_not_active hg)) rfl rfl rfl rfl id rfl

theorem InTransit.setPhase {old : Phase} (hk : s.attempt k = some a) (hold : a.phase = old)
    (hp : old.packets = phase.packets) : InTransit (s.setPhase k phase) :=
  h.congr (content_setPhase hk (hold ▸ hp)) rfl rfl rfl rfl id rfl

theorem InTransit.takeOver {ℓ : Loc} {t : Socket} (hℓ : Loc.buffer ≠ ℓ)
    (hframes : ∀ i, ℓ ≠ .frames i) (hbuffer : t.content .buffer = [])
    (hto : t.content ℓ = s.content ℓ ++ s.content .buffer)
    (hother : ∀ m, m ≠ .buffer → m ≠ ℓ → t.content m = s.content m)
    (hp : t.polled = s.polled) (hf : t.framed = s.framed) (hw : t.writeBuffer = s.writeBuffer)
    (ha : t.accepted = s.accepted) (ht : t.transport = s.transport)
    (hcl : t.closed = true → ∀ i, t.content (.handler i) = []) : InTransit t where
  inLine := by
    rw [hp, hf, hw, ha]
    exact h.inLine.move hℓ hbuffer hto hother
  framed hne := by
    rw [hf] at hne
    obtain ⟨htr, hnil⟩ := h.framed hne
    refine ⟨by rw [ht]; exact htr, fun m hm => ?_⟩
    by_cases hmb : m = .buffer
    · rw [hmb, hbuffer]
    by_cases hmℓ : m = ℓ
    · rw [hmℓ, hto, hnil ℓ hframes, hnil .buffer fun _ => nofun, List.append_nil]
    · rw [hother m hmb hmℓ, hnil m hm]
  closed := hcl

theorem InTransit.poll (hclosed : s.closed = false) :
    InTransit ({ s with pending := true, writable := true, sendBuffer := [] }.spawn
      { buffered := s.sendBuffer, pc := .flush }) := by
  refine h.takeOver (ℓ := .handler s.goroutines.length) nofun (fun _ => nofun) rfl ?_
    (fun m hmb hmℓ => ?_) rfl rfl rfl rfl rfl fun hcl => ?_
  · rw [content_handler_length]
    exact content_spawn_handler
  · refine (content_spawn_ne (s := { s with pending := true, writable := true, sendBuffer := [] })
      (g := { buffered := s.sendBuffer, pc := .flush }) rfl rfl hmℓ).trans ?_
    cases m with
    | buffer => exact absurd rfl hmb
    | handler | batch | frames | drained => rfl
  · exact absurd (hclosed.symm.trans hcl) nofun

theorem InTransit.drain (hk : s.attempt k = some a) (hphase : a.phase = .waited) :
    InTransit ({ s with sendBuffer := [] }.setPhase k (.drained s.sendBuffer)) := by
  have hother (m : Loc) (hmb : m ≠ .buffer) (hmk : m ≠ .drained k) :
      ({ s with sendBuffer := [] }.setPhase k (.drained s.sendBuffer)).content m = s.content m := by
    rw [content_setPhase_ne hmk]
    cases m with
    | buffer => exact absurd rfl hmb
    | handler | batch | frames | drained => rfl
  refine h.takeOver (ℓ := .drained k) nofun (fun _ => nofun) rfl ?_ hother rfl rfl rfl rfl rfl
    fun hcl i => ?_
  · rw [content_drained hk, hphase]
    exact content_drained (attempt_setPhase (s := { s with sendBuffer := [] }) hk)
  · rw [hother (.handler i) nofun nofun]
    exact h.closed hcl i

theorem InTransit.requeue (hk : s.attempt k = some a) (hphase : a.phase = .drained buf) :
    InTransit ({ s with writeBuffer := buf ++ s.writeBuffer }.setPhase k .requeued) := by
  set t := Socket.setPhase { s with writeBuffer := buf ++ s.writeBuffer } k .requeued with ht
  have hdrained : s.content (.drained k) = messages buf := by rw [content_drained hk, hphase]; rfl
  have hempty : t.content (.drained k) = [] :=
    content_drained (attempt_setPhase (s := { s with writeBuffer := buf ++ s.writeBuffer }) hk)
  have hother (m : Loc) (hm : m ≠ .drained k) : t.content m = s.content m := by
    rw [ht, content_setPhase_ne hm]
    rfl
  refine ⟨?_, fun hf => ⟨(h.framed hf).1, fun m hm => ?_⟩, fun hcl i => ?_⟩
  · have hline := h.inLine.putBack hempty hother
    rw [hdrained, ← messages_append] at hline
    exact hline
  · by_cases hmk : m = .drained k
    · rw [hmk, hempty]
    · rw [hother m hmk]
      exact (h.framed hf).2 m hm
  · rw [hother (.handler i) nofun]
    exact h.closed hcl i

theorem InTransit.close (hclear : s.Clear) :
    InTransit { s with closed := true, pending := false, writable := false, sendBuffer := [] } := by
  have hsame : { s with closed := true, pending := false, writable := false,
                        sendBuffer := [] : Socket }.content = s.content := by
    funext ℓ
    cases ℓ with
    | buffer => exact hclear.1.symm
    | handler | batch | frames | drained => rfl
  refine ⟨by rw [hsame]; exact h.inLine, by rw [hsame]; exact h.framed, fun _ i => ?_⟩
  exact content_eq_nil_of_clear hclear i

theorem InTransit.step (hR : Routed s) (hL : NoneLost s) {l : Act}
    (hcareful : Careful s l) (hs : s.step l = some s') : InTransit s' := by
  cases step_does hs with
  | resend hi hpc => exact h.resend hi
  | append hi hpc => exact h.append hi hpc
  | advance hi hadv => exact h.advance hR hL hcareful hi hadv
  | pollClosed => exact InTransit.spawn (h.congr rfl rfl rfl rfl rfl id rfl) rfl rfl
  | poll hclosed => exact h.poll hclosed
  | cancel | onProbe => exact h.congr rfl rfl rfl rfl rfl id rfl
  | tick => exact h.spawn rfl rfl
  | maybeUpgrade => exact h.congr (content_begin true) rfl rfl rfl rfl id rfl
  | switch hk hphase =>
    exact InTransit.setPhase (h.congr rfl rfl rfl rfl rfl (fun _ => nofun) rfl) hk hphase rfl
  | @replace k a j hk hphase =>
    obtain ⟨b, hb, hsame⟩ := exists_attempt_closeWebsocket j hk
    exact InTransit.setPhase (h.congr (content_closeWebsocket j) rfl rfl rfl rfl id rfl) hb
      (hsame.trans hphase) rfl
  | waitSent hk hphase => exact h.setPhase hk hphase rfl
  | drain hk hphase => exact h.drain hk hphase
  | requeue hk hphase => exact h.requeue hk hphase
  | @close k a hk hphase =>
    have hclear := hcareful a hk
    rw [hphase] at hclear
    exact (h.close hclear).setPhase hk hphase rfl
  | finish hk hphase => exact InTransit.spawn (h.setPhase hk hphase rfl) rfl rfl
  | @onAbort k a hk hphase =>
    have haborted : InTransit ({ s with upgrading := false }.setPhase k .aborted) := by
      rcases hphase with hphase | hphase <;>
        exact InTransit.setPhase (h.congr rfl rfl rfl rfl rfl id rfl) hk hphase rfl
    exact haborted.spawn rfl rfl

end

end Socket

end Gosocketio.EngineSocket

import Gosocketio.Lib.Pool
import Gosocketio.Spec.EngineSocket

/-! What the steps of the server's socket do to its places: which packets lie where,
and which parts of the state a step leaves alone. -/

namespace Gosocketio.EngineSocket

open Transport

@[simp] theorem messages_nil : messages [] = [] := rfl

@[simp] theorem messages_noop : messages [noopPacket] = [] := rfl

@[simp] theorem messages_append (xs ys : List Packet) :
    messages (xs ++ ys) = messages xs ++ messages ys := List.filter_append ..

theorem messages_cons (p : Packet) (xs : List Packet) :
    messages (p :: xs) = messages [p] ++ messages xs := messages_append [p] xs

/-- The batch in the `Send` of the polling transport. -/
def Pc.batch : Pc → List Packet
  | .sending .polling buf => buf
  | _ => []

/-- What is left of the batch in the `Send` of a websocket. -/
def Pc.frames : Pc → List Packet
  | .sending (.websocket _) buf => buf
  | _ => []

/-- The packets an attempt has drained and not yet put back. -/
def Phase.packets : Phase → List Packet
  | .drained buf => buf
  | _ => []

/-- The places where a packet may lie between `writeBuffer` and the wire. -/
inductive Loc where
  | buffer
  | handler (i : ℕ)
  | batch (i : ℕ)
  | frames (i : ℕ)
  | drained (k : ℕ)

namespace Socket

variable {s s' : Socket} {i : ℕ} {g g' : Goroutine} {ℓ : Loc} {s₁ : Socket} {pc pc' : Pc}

def content (s : Socket) : Loc → List Packet
  | .buffer => messages s.sendBuffer
  | .handler i => (s.goroutines[i]?).elim [] fun g => messages g.buffered
  | .batch i => (s.goroutines[i]?).elim [] fun g => messages g.pc.batch
  | .frames i => (s.goroutines[i]?).elim [] fun g => messages g.pc.frames
  | .drained k => (s.attempt k).elim [] fun a => messages a.phase.packets

theorem takes_iff : s.takes = true ↔
    s.sending = false ∧ s.upgrading = false ∧ s.writeBuffer ≠ [] ∧
      s.isWritable s.transport = true := by
  simp only [takes, Bool.and_eq_true, Bool.not_eq_true', decide_eq_true_eq, and_assoc]

theorem pollingSend_cases (s : Socket) (pkts : List Packet) :
    (s.closed = true ∧ s.pollingSend pkts = s) ∨
    (s.closed = false ∧ s.pollingSend pkts =
      { s with writable := false, pending := false, polled := s.polled ++ messages pkts }) ∨
    (s.closed = false ∧ s.pending = false ∧ s.pollingSend pkts =
      { s with writable := false, sendBuffer := s.sendBuffer ++ pkts }) := by
  rw [pollingSend]
  split_ifs with hc hp
  · exact .inl ⟨hc, rfl⟩
  · exact .inr (.inl ⟨Bool.eq_false_of_not_eq_true hc, rfl⟩)
  · exact .inr (.inr ⟨Bool.eq_false_of_not_eq_true hc, Bool.eq_false_of_not_eq_true hp, rfl⟩)

@[simp] theorem pollingSend_goroutines (pkts : List Packet) : (s.pollingSend pkts).goroutines = s.goroutines := by
  rw [pollingSend]; split_ifs <;> rfl

@[simp] theorem pollingSend_attempts (pkts : List Packet) : (s.pollingSend pkts).attempts = s.attempts := by
  rw [pollingSend]; split_ifs <;> rfl

@[simp] theorem pollingSend_transport (pkts : List Packet) : (s.pollingSend pkts).transport = s.transport := by
  rw [pollingSend]; split_ifs <;> rfl

@[simp] theorem pollingSend_closed (pkts : List Packet) : (s.pollingSend pkts).closed = s.closed := by
  rw [pollingSend]; split_ifs <;> rfl

@[simp] theorem pollingSend_sending (pkts : List Packet) : (s.pollingSend pkts).sending = s.sending := by
  rw [pollingSend]; split_ifs <;> rfl

@[simp] theorem pollingSend_upgrading (pkts : List Packet) : (s.pollingSend pkts).upgrading = s.upgrading := by
  rw [pollingSend]; split_ifs <;> rfl

@[simp] theorem pollingSend_writeBuffer (pkts : List Packet) : (s.pollingSend pkts).writeBuffer = s.writeBuffer := by
  rw [pollingSend]; split_ifs <;> rfl

@[simp] theorem pollingSend_accepted (pkts : List Packet) : (s.pollingSend pkts).accepted = s.accepted := by
  rw [pollingSend]; split_ifs <;> rfl

@[simp] theorem pollingSend_framed (pkts : List Packet) : (s.pollingSend pkts).framed = s.framed := by
  rw [pollingSend]; split_ifs <;> rfl

theorem setGoroutine_get (hi : s.goroutines[i]? = some g) :
    (s.setGoroutine i g').goroutines[i]? = some g' := by
  obtain ⟨hlt, -⟩ := List.getElem?_eq_some_iff.mp hi
  exact List.getElem?_set_self hlt

theorem setGoroutine_get_ne {j : ℕ} (hne : i ≠ j) :
    (s.setGoroutine i g').goroutines[j]? = s.goroutines[j]? := List.getElem?_set_ne hne

theorem content_setGoroutine_ne (hh : ℓ ≠ .handler i) (hb : ℓ ≠ .batch i)
    (hf : ℓ ≠ .frames i) : (s.setGoroutine i g').content ℓ = s.content ℓ := by
  cases ℓ with
  | buffer | drained => rfl
  | handler j =>
    have hne : i ≠ j := fun h => hh (by rw [h])
    simp only [content, setGoroutine_get_ne hne]
  | batch j =>
    have hne : i ≠ j := fun h => hb (by rw [h])
    simp only [content, setGoroutine_get_ne hne]
  | frames j =>
    have hne : i ≠ j := fun h => hf (by rw [h])
    simp only [content, setGoroutine_get_ne hne]

theorem content_pollingSend_ne (hℓ : ℓ ≠ .buffer) (pkts : List Packet) :
    (s.pollingSend pkts).content ℓ = s.content ℓ := by
  cases ℓ with
  | buffer => exact absurd rfl hℓ
  | handler | batch | frames | drained => simp [content, attempt]

section

variable (hi : s.goroutines[i]? = some g)

include hi

theorem content_handler :
    s.content (.handler i) = messages g.buffered := by simp only [content, hi, Option.elim]

theorem content_batch :
    s.content (.batch i) = messages g.pc.batch := by simp only [content, hi, Option.elim]

theorem content_frames :
    s.content (.frames i) = messages g.pc.frames := by simp only [content, hi, Option.elim]

theorem content_setGoroutine
    (hh : messages g'.buffered = messages g.buffered)
    (hb : messages g'.pc.batch = messages g.pc.batch)
    (hf : messages g'.pc.frames = messages g.pc.frames) :
    (s.setGoroutine i g').content = s.content := by
  have hi' : (s.setGoroutine i g').goroutines[i]? = some g' := setGoroutine_get hi
  funext ℓ
  by_cases hℓh : ℓ = .handler i
  · rw [hℓh, content_handler hi', content_handler hi, hh]
  by_cases hℓb : ℓ = .batch i
  · rw [hℓb, content_batch hi', content_batch hi, hb]
  by_cases hℓf : ℓ = .frames i
  · rw [hℓf, content_frames hi', content_frames hi, hf]
  exact content_setGoroutine_ne hℓh hℓb hℓf

end

theorem content_spawn_ne (hb : g.pc.batch = []) (hf : g.pc.frames = [])
    (hℓ : ℓ ≠ .handler s.goroutines.length) : (s.spawn g).content ℓ = s.content ℓ := by
  have hget (j : ℕ) (f : Goroutine → List Packet) (hj : j = s.goroutines.length → f g = []) :
      ((s.goroutines ++ [g])[j]?).elim [] f = (s.goroutines[j]?).elim [] f := by
    rcases Nat.lt_trichotomy j s.goroutines.length with hlt | rfl | hgt
    · rw [List.getElem?_append_left hlt]
    · rw [List.getElem?_concat_length, List.getElem?_eq_none (le_refl _)]
      exact hj rfl
    · rw [List.getElem?_eq_none (by rw [List.length_append]; exact hgt), List.getElem?_eq_none hgt.le]
  cases ℓ with
  | buffer | drained => rfl
  | handler j => exact hget j _ fun hj => absurd (by rw [hj]) hℓ
  | batch j => exact hget j _ fun _ => by rw [hb, messages_nil]
  | frames j => exact hget j _ fun _ => by rw [hf, messages_nil]

theorem content_spawn_handler :
    (s.spawn g).content (.handler s.goroutines.length) = messages g.buffered := by
  simp only [content, spawn, List.getElem?_concat_length, Option.elim]

theorem content_handler_length : s.content (.handler s.goroutines.length) = [] := by
  simp only [content, List.getElem?_eq_none (le_refl _), Option.elim]

theorem content_spawn (hh : g.buffered = []) (hb : g.pc.batch = []) (hf : g.pc.frames = []) :
    (s.spawn g).content = s.content := by
  funext ℓ
  by_cases hℓ : ℓ = .handler s.goroutines.length
  · rw [hℓ, content_spawn_handler, hh, content_handler_length, messages_nil]
  · exact content_spawn_ne hb hf hℓ

section Attempts

variable {k : ℕ} {a : Attempt} {phase : Phase}

theorem attempt_setPhase (hk : s.attempt k = some a) :
    (s.setPhase k phase).attempt k = some { a with phase } := by
  simp only [attempt, setPhase, List.getElem?_modify_eq] at hk ⊢
  rw [hk]
  rfl

theorem attempt_setPhase_ne {j : ℕ} (hne : k ≠ j) :
    (s.setPhase k phase).attempt j = s.attempt j := by
  simp only [attempt, setPhase, List.getElem?_modify_ne _ _ hne]

theorem content_setPhase_ne (hℓ : ℓ ≠ .drained k) :
    (s.setPhase k phase).content ℓ = s.content ℓ := by
  cases ℓ with
  | buffer | handler | batch | frames => rfl
  | drained j =>
    have hne : k ≠ j := fun h => hℓ (by rw [h])
    simp only [content, attempt_setPhase_ne hne]

theorem content_drained (hk : s.attempt k = some a) :
    s.content (.drained k) = messages a.phase.packets := by simp only [content, hk, Option.elim]

theorem content_setPhase (hk : s.attempt k = some a) (h : a.phase.packets = phase.packets) :
    (s.setPhase k phase).content = s.content := by
  funext ℓ
  by_cases hℓ : ℓ = .drained k
  · rw [hℓ, content_drained (attempt_setPhase hk), content_drained hk, h]
  · exact content_setPhase_ne hℓ

end Attempts

/-- The steps of a goroutine in the middle of a call, one by one. -/
inductive Moves (s : Socket) : Pc → Socket → Pc → Prop
  | appended (t : Tport) : Moves s (.appended t) s (if s.isWritable t then .flush else .idle)
  | take (h : s.takes = true) :
    Moves s .flush { s with writeBuffer := [], sending := true } (.sending s.transport s.writeBuffer)
  | skip (h : s.takes = false) : Moves s .flush s .idle
  | respond (buf : List Packet) : Moves s (.sending .polling buf) (s.pollingSend buf) .sent
  | frame {k : ℕ} {p : Packet} {buf : List Packet} (h : s.isClosed k = false) :
    Moves s (.sending (.websocket k) (p :: buf)) { s with framed := s.framed ++ messages [p] }
      (.sending (.websocket k) buf)
  | lose {k : ℕ} {p : Packet} {buf : List Packet} (h : s.isClosed k = true) :
    Moves s (.sending (.websocket k) (p :: buf)) (s.writeFailed k) .sent
  | written (k : ℕ) : Moves s (.sending (.websocket k) []) s .sent
  | sent : Moves s .sent { s with sending := false }
      (if s.writeBuffer ≠ [] ∧ s.isWritable s.transport = true then .flush else .idle)
  | tick : Moves s .tick s (.noop s.transport)
  | noopPolling : Moves s (.noop .polling) (s.pollingSend [noopPacket]) .idle
  | noopLost {k : ℕ} (h : s.isClosed k = true) :
    Moves s (.noop (.websocket k)) (s.writeFailed k) (if s.isBound k then .idle else .flush)
  | noopWebsocket {k : ℕ} (h : s.isClosed k = false) :
    Moves s (.noop (.websocket k)) s (if s.isBound k then .flush else .idle)

theorem moves_of_advance (h : s.advance pc = some (s₁, pc')) :
    Moves s pc s₁ pc' := by
  cases pc with
  | idle => exact absurd h nofun
  | appended t =>
    cases Option.some.inj h
    exact .appended t
  | flush =>
    rw [advance] at h
    split_ifs at h with htakes <;> cases Option.some.inj h
    · exact .take htakes
    · exact .skip (Bool.eq_false_of_not_eq_true htakes)
  | sending t buf =>
    cases t with
    | polling =>
      cases Option.some.inj h
      exact .respond buf
    | websocket k =>
      cases buf with
      | nil =>
        cases Option.some.inj h
        exact .written k
      | cons p buf =>
        rw [advance] at h
        split_ifs at h with hclosed <;> cases Option.some.inj h
        · exact .lose hclosed
        · exact .frame (Bool.eq_false_of_not_eq_true hclosed)
  | sent =>
    cases Option.some.inj h
    exact .sent
  | tick =>
    cases Option.some.inj h
    exact .tick
  | noop t =>
    cases t with
    | polling =>
      cases Option.some.inj h
      exact .noopPolling
    | websocket k =>
      rw [advance] at h
      by_cases hclosed : s.isClosed k = true
      · rw [if_pos hclosed] at h
        cases Option.some.inj h
        exact .noopLost hclosed
      · rw [if_neg hclosed] at h
        cases Option.some.inj h
        exact .noopWebsocket (Bool.eq_false_of_not_eq_true hclosed)

/-- What the steps of a call leave alone. -/
theorem Moves.same (h : Moves s pc s₁ pc') :
    s₁.goroutines = s.goroutines ∧ s₁.attempts = s.attempts ∧ s₁.transport = s.transport ∧
    s₁.closed = s.closed ∧ s₁.accepted = s.accepted := by
  cases h <;> simp [writeFailed]

/-- A goroutine that is sending has just taken its batch, or was sending before. -/
theorem Moves.of_sending {t : Tport} {buf : List Packet}
    (h : Moves s pc s₁ pc') (hpc : pc' = .sending t buf) :
    (pc = .flush ∧ t = s.transport) ∨ ∃ p, pc = .sending t (p :: buf) := by
  cases h with
  | take =>
    cases hpc
    exact .inl ⟨rfl, rfl⟩
  | frame =>
    cases hpc
    exact .inr ⟨_, rfl⟩
  | appended | sent | noopLost | noopWebsocket => split_ifs at hpc
  | _ => cases hpc

/-- Everything a step can do. A goroutine sends what its poll has taken over, appends the next
packet, or goes on with the call it is in. -/
inductive Does (s : Socket) : Act → Socket → Prop
  | resend {i : ℕ} {g : Goroutine} (hi : s.goroutines[i]? = some g) (hpc : g.pc = .idle) :
    Does s (.go i) ((s.pollingSend g.buffered).setGoroutine i { g with buffered := [] })
  | append {i : ℕ} {g : Goroutine} {p todo} (hi : s.goroutines[i]? = some g) (hpc : g.pc = .idle) :
    Does s (.go i) ({ s with writeBuffer := s.writeBuffer ++ [p],
                             accepted := s.accepted ++ messages [p] }.setGoroutine i
      { g with todo, pc := .appended s.transport })
  | advance {i : ℕ} {g : Goroutine} {s₁ : Socket} {pc : Pc} (hi : s.goroutines[i]? = some g)
      (hadv : s.advance g.pc = some (s₁, pc)) : Does s (.go i) (s₁.setGoroutine i { g with pc })
  | pollClosed (hclosed : s.closed = true) :
    Does s .poll ({ s with pending := true, writable := true }.spawn { pc := .flush })
  | poll (hclosed : s.closed = false) :
    Does s .poll ({ s with pending := true, writable := true, sendBuffer := [] }.spawn
      { buffered := s.sendBuffer, pc := .flush })
  | cancel : Does s .cancel { s with pending := false, writable := false }
  | tick : Does s .tick (s.spawn { pc := .tick })
  | maybeUpgrade : Does s .maybeUpgrade { s with upgrading := true, attempts := s.attempts ++ [{}] }
  | onProbe {k} : Does s (.onProbe k) { s with ticking := true }
  | switch {k a} (hk : s.attempt k = some a) (hphase : a.phase = .probing) :
    Does s (.onUpgrade k) ({ s with upgrading := false, upgraded := true,
                                    transport := .websocket k }.setPhase k (.switched s.transport))
  | replace {k a j} (hk : s.attempt k = some a) (hphase : a.phase = .switched (.websocket j)) :
    Does s (.onUpgrade k) ((s.closeWebsocket j).setPhase k .closing)
  | waitSent {k a} (hk : s.attempt k = some a) (hphase : a.phase = .switched .polling)
      (hsend : s.sending = false) : Does s (.onUpgrade k) (s.setPhase k .waited)
  | drain {k a} (hk : s.attempt k = some a) (hphase : a.phase = .waited) :
    Does s (.onUpgrade k) ({ s with sendBuffer := [] }.setPhase k (.drained s.sendBuffer))
  | requeue {k a buf} (hk : s.attempt k = some a) (hphase : a.phase = .drained buf) :
    Does s (.onUpgrade k) ({ s with writeBuffer := buf ++ s.writeBuffer }.setPhase k .requeued)
  | close {k a} (hk : s.attempt k = some a) (hphase : a.phase = .requeued) :
    Does s (.onUpgrade k) ({ s with closed := true, pending := false, writable := false,
                                    sendBuffer := [] }.setPhase k .closing)
  | finish {k a} (hk : s.attempt k = some a) (hphase : a.phase = .closing) :
    Does s (.onUpgrade k) ((s.setPhase k .done).spawn { pc := .flush })
  | onAbort {k a} (hk : s.attempt k = some a) (hphase : a.phase = .probing ∨ a.phase = .aborted) :
    Does s (.onAbort k) (({ s with upgrading := false }.setPhase k .aborted).spawn { pc := .flush })

theorem step_does {l : Act} (h : s.step l = some s') : Does s l s' := by
  cases l with
  | go i =>
    rw [step, go] at h
    split at h
    case h_1 => cases h
    case h_2 hi =>
      cases Option.some.inj h
      exact .resend hi rfl
    case h_3 hi =>
      cases Option.some.inj h
      exact .append hi rfl
    case h_4 hi =>
      obtain ⟨⟨s₁, pc⟩, hadv, rfl⟩ := Option.map_eq_some_iff.mp h
      exact .advance hi hadv
  | poll =>
    rw [step, Socket.poll] at h
    split_ifs at h with hp hc <;> cases Option.some.inj h
    · exact .pollClosed hc
    · exact .poll (Bool.eq_false_of_not_eq_true hc)
  | cancel | tick | maybeUpgrade =>
    simp only [step, Socket.cancel, Socket.tick, Socket.maybeUpgrade] at h
    split_ifs at h
    cases Option.some.inj h
    constructor
  | onProbe k =>
    rw [step, Socket.onProbe] at h
    split at h <;> cases h
    exact .onProbe
  | onUpgrade k =>
    rw [step, onUpgrade] at h
    split at h
    case h_8 => cases h
    case h_3 hp =>
      obtain ⟨a, hk, hphase⟩ := Option.map_eq_some_iff.mp hp
      split_ifs at h with hsend
      cases Option.some.inj h
      exact .waitSent hk hphase (Bool.eq_false_of_not_eq_true hsend)
    all_goals
      obtain ⟨a, hk, hphase⟩ := Option.map_eq_some_iff.mp ‹_›
      cases Option.some.inj h
    · exact .switch hk hphase
    · exact .replace hk hphase
    · exact .drain hk hphase
    · exact .requeue hk hphase
    · exact .close hk hphase
    · exact .finish hk hphase
  | onAbort k =>
    rw [step, Socket.onAbort] at h
    split at h
    case h_3 => cases h
    all_goals
      obtain ⟨a, hk, hphase⟩ := Option.map_eq_some_iff.mp ‹_›
      cases Option.some.inj h
    · exact .onAbort hk (.inl hphase)
    · exact .onAbort hk (.inr hphase)

end Socket

end Gosocketio.EngineSocket

import Gosocketio.Proofs.InTransit

/-! What the server has sent once the session is at rest, before or after an upgrade:
in a careful run, every message it has accepted, in order. Without care a message
sent over the websocket overtakes one that `onUpgrade` is about to put back. -/

namespace Gosocketio.EngineSocket

open Runs Transport Parcel

variable {l : Act}

def Phase.busy : Phase → Bool
  | .probing | .aborted | .done => false
  | _ => true

namespace Socket

variable {s s' : Socket} {i k : ℕ} {g g' : Goroutine} {a : Attempt} {phase : Phase}

/-- Nothing is in progress, and the transport in use is writable. -/
def AtRest (s : Socket) : Prop := (∀ g ∈ s.goroutines, g.pc = .idle ∧ g.buffered = []) ∧
    (∀ a ∈ s.attempts, a.phase.busy = false) ∧ s.upgrading = false ∧ s.isWritable s.transport = true

instance (s : Socket) : Decidable s.AtRest := inferInstanceAs (Decidable (_ ∧ _))

/-- The polling transport is writable only while a poll is pending, and then nothing
waits in it. -/
structure Polls (s : Socket) : Prop where
  writable : s.writable = true → s.pending = true
  pending : s.pending = true → s.sendBuffer = []
  closed : s.closed = true → s.sendBuffer = []

theorem Polls.congr (h : Polls s) (hw : s'.writable = s.writable) (hp : s'.pending = s.pending)
    (hb : s'.sendBuffer = s.sendBuffer) (hc : s'.closed = s.closed) : Polls s' := by
  obtain ⟨h₁, h₂, h₃⟩ := h
  rw [← hw, ← hp] at h₁
  rw [← hp, ← hb] at h₂
  rw [← hc, ← hb] at h₃
  exact ⟨h₁, h₂, h₃⟩

theorem Polls.pollingSend (h : Polls s) (pkts : List Packet) : Polls (s.pollingSend pkts) := by
  rcases pollingSend_cases s pkts with ⟨-, he⟩ | ⟨-, he⟩ | ⟨hcl, hp, he⟩
  · rw [he]
    exact h
  · rw [he]
    exact ⟨nofun, nofun, h.closed⟩
  · rw [he]
    exact ⟨nofun, fun hp' => absurd (hp.symm.trans hp') nofun,
      fun hcl' => absurd (hcl.symm.trans hcl') nofun⟩

theorem Polls.step (h : Polls s) (hs : s.step l = some s') : Polls s' := by
  cases step_does hs with
  | @resend i g => exact (h.pollingSend g.buffered).congr rfl rfl rfl rfl
  | @advance i g s₁ pc hi hadv =>
    have hm := moves_of_advance hadv
    generalize g.pc = pc₀ at hm
    suffices hs₁ : Polls s₁ from hs₁.congr rfl rfl rfl rfl
    cases hm with
    | respond | noopPolling => exact h.pollingSend _
    | _ => exact h.congr rfl rfl rfl rfl
  | pollClosed hclosed => exact ⟨fun _ => rfl, fun _ => h.closed hclosed, h.closed⟩
  | poll => exact ⟨fun _ => rfl, fun _ => rfl, fun _ => rfl⟩
  | cancel => exact ⟨nofun, nofun, h.closed⟩
  | drain => exact ⟨h.writable, fun _ => rfl, fun _ => rfl⟩
  | close => exact ⟨nofun, nofun, fun _ => rfl⟩
  | _ => exact h.congr rfl rfl rfl rfl

end Socket

/-- The goroutine is going to flush: a caller that has seen the transport in use
finds it writable if it is. -/
def Pc.covers (t : Tport) : Pc → Bool
  | .appended t' => t' = t
  | .flush | .sending _ _ | .sent => true
  | _ => false

namespace Socket

variable {s s' : Socket} {i k : ℕ} {g g' : Goroutine} {a : Attempt} {phase : Phase}

/-- Whatever is in `writeBuffer` will be flushed: after the upgrade in progress, by
the next poll, or by a goroutine. -/
def Awake (s : Socket) : Prop :=
  s.writeBuffer ≠ [] → s.upgrading = true ∨ s.isWritable s.transport = false ∨
    (∃ g ∈ s.goroutines, g.pc.covers s.transport = true) ∨ ∃ k a, s.attempt k = some a ∧ a.phase.busy = true

theorem Awake.of_mem (hg : g ∈ s.goroutines) (hc : g.pc.covers s.transport = true) : Awake s :=
  fun _ => .inr (.inr (.inl ⟨g, hg, hc⟩))

theorem Awake.of_busy (hk : s.attempt k = some a) (hb : a.phase.busy = true) : Awake s :=
  fun _ => .inr (.inr (.inr ⟨k, a, hk, hb⟩))

theorem Awake.congr (h : Awake s)
    (hg : ∀ g ∈ s.goroutines, g.pc.covers s.transport = true → g ∈ s'.goroutines)
    (hw : s'.writeBuffer = s.writeBuffer) (hu : s'.upgrading = s.upgrading)
    (ht : s'.transport = s.transport) (ha : s'.attempts = s.attempts)
    (hwr : s.writable = false → s'.writable = false) : Awake s' := by
  intro hne
  rw [hw] at hne
  rcases h hne with hup | hwritable | ⟨g, hmem, hc⟩ | ⟨k, a, hk, hb⟩
  · exact .inl (by rw [hu, hup])
  · refine .inr (.inl ?_)
    rw [ht]
    cases htr : s.transport with
    | polling =>
      rw [htr] at hwritable
      exact hwr hwritable
    | websocket j =>
      rw [htr] at hwritable
      exact absurd hwritable nofun
  · exact .inr (.inr (.inl ⟨g, hg g hmem hc, by rw [ht, hc]⟩))
  · exact .inr (.inr (.inr ⟨k, a, by rw [attempt, ha]; exact hk, hb⟩))

theorem Awake.setGoroutine (h : Awake s) (hi : s.goroutines[i]? = some g)
    (hg : g.pc.covers s.transport = false) (hg' : s'.goroutines = s.goroutines)
    (hw : s'.writeBuffer = s.writeBuffer) (hu : s'.upgrading = s.upgrading)
    (ht : s'.transport = s.transport) (ha : s'.attempts = s.attempts)
    (hwr : s.writable = false → s'.writable = false) : Awake (s'.setGoroutine i g') := by
  refine h.congr (fun x hx hc => ?_) hw hu ht ha hwr
  rw [← hg'] at hi hx
  refine Pool.mem_set_of_ne hi hx fun hxg => ?_
  rw [hxg, hg] at hc
  exact absurd hc nofun

theorem pollingSend_writable (pkts : List Packet) (h : s.writable = false) :
    (s.pollingSend pkts).writable = false := by
  rcases pollingSend_cases s pkts with ⟨-, he⟩ | ⟨-, he⟩ | ⟨-, -, he⟩
  · rw [he, h]
  · rw [he]
  · rw [he]

theorem Routed.exists_active (hR : Routed s) (hs : s.sending = true) :
    ∃ g ∈ s.goroutines, g.pc.active = true := by
  by_contra hnone
  push Not at hnone
  have hsum : (s.goroutines.map fun g => g.pc.active.toNat).sum = 0 := by
    refine List.sum_eq_zero fun n hn => ?_
    obtain ⟨g, hg, rfl⟩ := List.mem_map.mp hn
    rw [Bool.eq_false_of_not_eq_true (hnone g hg)]
    rfl
  rw [hR.active, hs] at hsum
  exact absurd hsum nofun

theorem covers_of_active {pc : Pc} (t : Tport) (h : pc.active = true) : pc.covers t = true := by
  cases pc with
  | sending | sent => rfl
  | _ => exact absurd h nofun

theorem Awake.advance (h : Awake s) (hR : Routed s) (hi : s.goroutines[i]? = some g) {s₁ : Socket}
    {pc : Pc} (hadv : s.advance g.pc = some (s₁, pc)) : Awake (s₁.setGoroutine i { g with pc }) := by
  have hm := moves_of_advance hadv
  have hget : s₁.goroutines[i]? = some g := by rw [hm.same.1, hi]
  have hcovers (hc : pc.covers s₁.transport = true) : Awake (s₁.setGoroutine i { g with pc }) :=
    Awake.of_mem (Pool.mem_set_self hget) hc
  generalize hpc : g.pc = pc₀ at hm
  cases hm with
  | appended t =>
    by_cases hw : s.isWritable t = true
    · exact hcovers (by rw [if_pos hw]; rfl)
    by_cases ht : t = s.transport
    · exact fun _ => .inr (.inl (ht ▸ Bool.eq_false_of_not_eq_true hw))
    · exact h.setGoroutine hi (by rw [hpc]; exact decide_eq_false ht) rfl rfl rfl rfl rfl id
  | take => exact fun hne => absurd rfl hne
  | skip hskip =>
    intro hne
    by_cases hs : s.sending = true
    · -- the goroutine that has set `sending` looks again when it clears it
      obtain ⟨x, hx, hact⟩ := hR.exists_active hs
      have hxg : x ≠ g := by
        rintro rfl
        rw [hpc] at hact
        exact absurd hact nofun
      exact .inr (.inr (.inl ⟨x, Pool.mem_set_of_ne hi hx hxg, covers_of_active _ hact⟩))
    by_cases hu : s.upgrading = true
    · exact .inl hu
    · refine .inr (.inl (Bool.eq_false_of_not_eq_true fun hw => ?_))
      rw [takes_iff.mpr ⟨Bool.eq_false_of_not_eq_true hs, Bool.eq_false_of_not_eq_true hu, hne, hw⟩]
        at hskip
      exact absurd hskip nofun
  | respond | frame | lose | written => exact hcovers rfl
  | sent =>
    by_cases hre : s.writeBuffer ≠ [] ∧ s.isWritable s.transport = true
    · exact hcovers (by rw [if_pos hre]; rfl)
    · exact fun hne => .inr (.inl (Bool.eq_false_of_not_eq_true fun hw => hre ⟨hne, hw⟩))
  | tick => exact h.setGoroutine hi (by rw [hpc]; rfl) rfl rfl rfl rfl rfl id
  | noopPolling =>
    exact h.setGoroutine hi (by rw [hpc]; rfl) (pollingSend_goroutines _) (pollingSend_writeBuffer _)
      (pollingSend_upgrading _) (pollingSend_transport _) (pollingSend_attempts _)
      (pollingSend_writable _)
  | @noopLost k =>
    by_cases hb : s.isBound k = true
    · refine h.setGoroutine hi (by rw [hpc]; rfl) rfl rfl ?_ rfl rfl id
      rw [writeFailed, hb, Bool.and_true]
    · exact hcovers (by rw [if_neg hb]; rfl)
  | @noopWebsocket k =>
    by_cases hb : s.isBound k = true
    · exact hcovers (by rw [if_pos hb]; rfl)
    · exact h.setGoroutine hi (by rw [hpc]; rfl) rfl rfl rfl rfl rfl id

theorem Awake.step (h : Awake s) (hR : Routed s) (hs : s.step l = some s') : Awake s' := by
  have hspawn {t : Socket} {buffered : List Packet} : Awake (t.spawn { buffered, pc := .flush }) :=
    Awake.of_mem (List.mem_append_right _ (List.mem_singleton_self _)) rfl
  cases step_does hs with
  | resend hi hpc =>
    exact h.setGoroutine hi (by rw [hpc]; rfl) (pollingSend_goroutines _) (pollingSend_writeBuffer _)
      (pollingSend_upgrading _) (pollingSend_transport _) (pollingSend_attempts _)
      (pollingSend_writable _)
  | append hi => exact Awake.of_mem (Pool.mem_set_self hi) (decide_eq_true rfl)
  | advance hi hadv => exact h.advance hR hi hadv
  | cancel => exact h.congr (fun g hg _ => hg) rfl rfl rfl rfl fun _ => rfl
  | tick => exact h.congr (fun g hg _ => List.mem_append_left _ hg) rfl rfl rfl rfl id
  | maybeUpgrade => exact fun _ => .inl rfl
  | onProbe => exact h.congr (fun g hg _ => hg) rfl rfl rfl rfl id
  | @replace k a j hk hphase =>
    obtain ⟨b, hb, -⟩ := exists_attempt_closeWebsocket j hk
    exact Awake.of_busy (attempt_setPhase hb) rfl
  | switch hk | waitSent hk | drain hk | requeue hk | close hk =>
    exact Awake.of_busy (attempt_setPhase hk) rfl
  | pollClosed | poll | finish | onAbort => exact hspawn

/-- When nothing is in progress, a message can only wait for a poll. -/
theorem content_eq_nil_of_idle (hg : ∀ g ∈ s.goroutines, g.pc = .idle ∧ g.buffered = [])
    (ha : ∀ a ∈ s.attempts, a.phase.busy = false) {ℓ : Loc} (hℓ : ℓ ≠ .buffer) :
    s.content ℓ = [] := by
  have hgoroutine (i : ℕ) (f : Goroutine → List Packet)
      (hf : ∀ g, g.pc = .idle ∧ g.buffered = [] → f g = []) : (s.goroutines[i]?).elim [] f = [] := by
    cases hi : s.goroutines[i]? with
    | none => rfl
    | some g => exact hf g (hg g (List.mem_of_getElem? hi))
  cases ℓ with
  | buffer => exact absurd rfl hℓ
  | handler i => exact hgoroutine i _ fun g hidle => by rw [hidle.2, messages_nil]
  | batch i | frames i =>
    refine hgoroutine i _ fun g hidle => ?_
    rw [hidle.1]
    rfl
  | drained k =>
    cases hk : s.attempt k with
    | none => simp only [content, hk, Option.elim]
    | some a =>
      have hbusy := ha a (List.mem_of_getElem? hk)
      rw [content_drained hk]
      cases hphase : a.phase with
      | drained buf =>
        rw [hphase] at hbusy
        exact Bool.noConfusion hbusy
      | _ => rfl

structure Inv (s : Socket) : Prop where
  routed : Routed s
  noneLost : NoneLost s
  inTransit : InTransit s
  polls : Polls s
  awake : Awake s

theorem Inv.init (calls : List (List Packet)) : Inv (Socket.init calls) := by
  have hidle : ∀ g ∈ (Socket.init calls).goroutines, g.pc = .idle ∧ g.buffered = [] := by
    intro g hg
    obtain ⟨todo, -, rfl⟩ := List.mem_map.mp hg
    exact ⟨rfl, rfl⟩
  have hnot {g : Goroutine} (hg : g ∈ (Socket.init calls).goroutines) (t : Tport)
      (buf : List Packet) : g.pc ≠ .sending t buf := by
    rw [(hidle g hg).1]
    exact nofun
  have hempty (ℓ : Loc) : (Socket.init calls).content ℓ = [] := by
    by_cases hℓ : ℓ = .buffer
    · rw [hℓ]
      rfl
    · exact content_eq_nil_of_idle hidle nofun hℓ
  have hactive : ((Socket.init calls).goroutines.map fun g => g.pc.active.toNat).sum = 0 := by
    refine List.sum_eq_zero fun n hn => ?_
    obtain ⟨g, hg, rfl⟩ := List.mem_map.mp hn
    rw [(hidle g hg).1]
    rfl
  refine ⟨⟨⟨nofun, nofun, nofun⟩, hactive, fun _ => ⟨rfl, nofun⟩, ?_, ?_, fun h => absurd rfl h⟩, ?_,
    ⟨⟨.buffer, fun ℓ _ => hempty ℓ, rfl⟩, fun h => absurd rfl h, nofun⟩, ⟨nofun, nofun, nofun⟩,
    fun h => absurd rfl h⟩
  · exact fun g hg j buf hpc => absurd hpc (hnot hg _ _)
  · exact fun _ g hg buf => hnot hg _ _
  · exact fun j _ g hg buf hpc => absurd hpc (hnot hg _ _)

theorem Inv.step (h : Inv s) (hcareful : Careful s l) (hs : s.step l = some s') : Inv s' where
  routed := h.routed.step hs
  noneLost := h.noneLost.step h.routed hcareful hs
  inTransit := h.inTransit.step h.routed h.noneLost hcareful hs
  polls := h.polls.step hs
  awake := h.awake.step h.routed hs

theorem Phase.busy_of_handing {phase : Phase} (h : phase.handing = true) : phase.busy = true := by
  cases phase with
  | probing | aborted | closing | done => exact absurd h nofun
  | switched | waited | drained | requeued => rfl

theorem Inv.complete (h : Inv s) (hrest : s.AtRest) : s.polled ++ s.framed = s.accepted := by
  obtain ⟨hidle, hbusy, hup, hwritable⟩ := hrest
  have hsendBuffer : s.sendBuffer = [] := by
    by_cases ht : s.transport = .polling
    · rw [ht] at hwritable
      exact h.polls.pending (h.polls.writable hwritable)
    · rcases h.routed.handing ht with hcl | ⟨k, a, hk, hh⟩
      · exact h.polls.closed hcl
      · have := hbusy a (List.mem_of_getElem? hk)
        rw [Phase.busy_of_handing hh] at this
        exact absurd this (by simp)
  have hempty (ℓ : Loc) : s.content ℓ = [] := by
    by_cases hℓ : ℓ = .buffer
    · rw [hℓ, content, hsendBuffer, messages_nil]
    · exact content_eq_nil_of_idle hidle hbusy hℓ
  have hwriteBuffer : s.writeBuffer = [] := by
    by_contra hne
    rcases h.awake hne with hu | hw | ⟨g, hg, hc⟩ | ⟨k, a, hk, hb⟩
    · exact absurd (hup.symm.trans hu) (by simp)
    · exact absurd (hwritable.symm.trans hw) (by simp)
    · rw [(hidle g hg).1] at hc
      exact Bool.noConfusion hc
    · exact absurd ((hbusy a (List.mem_of_getElem? hk)).symm.trans hb) (by simp)
  have hline := h.inTransit.inLine
  rw [hwriteBuffer, messages_nil] at hline
  exact hline.complete hempty

/-- In every careful run, what has been handed to the wire is a beginning of what
has been accepted, and at rest it is all of it, in order and without duplicates. -/
theorem careful_delivery (calls : List (List Packet)) (ls : List Act) (s : Socket)
    (hrun : Run Socket.step Careful (Socket.init calls) ls s) :
    s.polled ++ s.framed <+: s.accepted ∧ (s.AtRest → s.polled ++ s.framed = s.accepted) := by
  have hinv : Inv s := hrun.invariant Inv (Inv.init calls) fun _ _ _ h hok hs => h.step hok hs
  exact ⟨hinv.inTransit.inLine.isPrefix, hinv.complete⟩

end Socket

def first : Packet := { type := .message, data := [49] }
def second : Packet := { type := .message, data := [50] }

/-- The first message goes out in the response to a poll; the second is sent while
the upgrade is in progress, and goes out over the websocket. -/
def carefulTrace : List Act :=
  [Act.poll, .go 2, .go 0, .go 0, .go 0, .go 0, .go 0, .maybeUpgrade, .go 1, .go 1, .onProbe 0, .poll,
    .go 3, .tick, .go 4, .go 4] ++ List.replicate 6 (Act.onUpgrade 0) ++ List.replicate 4 (Act.go 5)

theorem careful_delivery_around_upgrade :
    let s := (exec Socket.step Socket.Careful (Socket.init [[first], [second]]) carefulTrace).get
      (by decide +kernel)
    s.AtRest ∧ s.accepted = [first, second] ∧ s.polled ++ s.framed = s.accepted := by
  refine ⟨by decide +kernel, by decide +kernel, ?_⟩
  exact (Socket.careful_delivery _ _ _ (run_of_isSome _)).2 (by decide +kernel)

/-- Goroutine 0 takes the first message for the polling transport; a tick of the
upgrade uses up the poll, so that the message waits for the next one; after the
switch goroutine 1 sends the second over the websocket before `onUpgrade` has put
the first back. -/
def overtakingTrace : List Act :=
  [Act.poll, .go 2, .go 0, .go 0, .go 0, .maybeUpgrade, .onProbe 0, .tick, .go 3, .go 3, .go 0, .go 0,
    .onUpgrade 0] ++ List.replicate 6 (Act.go 1) ++ List.replicate 5 (Act.onUpgrade 0) ++
    List.replicate 4 (Act.go 4)

theorem delivery_out_of_order :
    ∃ s, Run Socket.step always (Socket.init [[first], [second]]) overtakingTrace s ∧ s.AtRest ∧
      s.accepted = [first, second] ∧ s.polled ++ s.framed = [second, first] :=
  ⟨_, run_of_isSome (by decide +kernel), by decide +kernel, by decide +kernel, by decide +kernel⟩

end Gosocketio.EngineSocket

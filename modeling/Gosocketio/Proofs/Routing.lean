import Gosocketio.Sanity.EngineSocket

/-! Which transport the server's socket sends over, in any run: one flush sends at a
time, a batch goes out over the transport that was in use when it was taken, and
once `onUpgrade` has waited for the flush in progress no batch is on its way to the
polling transport any more. -/

namespace Gosocketio.EngineSocket

open Transport

variable {j : ℕ} {pc : Pc}

def Phase.confirmed : Phase → Bool
  | .probing | .aborted => false
  | _ => true

def Phase.handing : Phase → Bool
  | .switched .polling | .waited | .drained _ | .requeued => true
  | _ => false

/-- `onUpgrade` has seen that no flush from before the switch is in progress. -/
def Phase.quiesced : Phase → Bool
  | .waited | .drained _ | .requeued => true
  | _ => false

namespace Socket

variable {s s' : Socket} {i k : ℕ} {g g' : Goroutine} {a : Attempt} {phase : Phase}

/-- The websocket in use belongs to a confirmed attempt and is open; one that has
been replaced never comes back. -/
structure Current (s : Socket) : Prop where
  inUse : ∀ j, s.transport = .websocket j →
    ∃ b, s.attempt j = some b ∧ b.phase.confirmed = true ∧ b.closed = false
  replaced : ∀ k a j, s.attempt k = some a → a.phase = .switched (.websocket j) →
    s.transport ≠ .websocket j ∧ ∃ b, s.attempt j = some b ∧ b.phase.confirmed = true
  closed : ∀ k a, s.attempt k = some a → a.closed = true → a.phase.confirmed = true

theorem Current.congr (h : Current s) (ha : s'.attempts = s.attempts)
    (ht : s'.transport = s.transport) : Current s' := by
  have hattempt (j : ℕ) : s'.attempt j = s.attempt j := by rw [attempt, ha, attempt]
  obtain ⟨hin, hrep, hcl⟩ := h
  simp only [← hattempt, ← ht] at hin hrep hcl
  exact ⟨hin, hrep, hcl⟩

theorem attempt_setPhase_cases {b : Attempt} (hk : s.attempt k = some a)
    (hb : (s.setPhase k phase).attempt j = some b) :
    (j = k ∧ b = { a with phase }) ∨ (j ≠ k ∧ s.attempt j = some b) := by
  by_cases hjk : k = j
  · subst hjk
    rw [attempt_setPhase hk, Option.some.injEq] at hb
    exact .inl ⟨rfl, hb.symm⟩
  · rw [attempt_setPhase_ne hjk] at hb
    exact .inr ⟨Ne.symm hjk, hb⟩

theorem confirmed_setPhase (hk : s.attempt k = some a)
    (hconf : a.phase.confirmed = true → phase.confirmed = true) {b : Attempt}
    (hb : s.attempt j = some b) (hbc : b.phase.confirmed = true) :
    ∃ b', (s.setPhase k phase).attempt j = some b' ∧ b'.phase.confirmed = true ∧
    b'.closed = b.closed := by
  by_cases hjk : k = j
  · subst hjk
    rw [hk, Option.some.injEq] at hb
    subst hb
    exact ⟨_, attempt_setPhase hk, hconf hbc, rfl⟩
  · exact ⟨b, by rw [attempt_setPhase_ne hjk, hb], hbc, rfl⟩

theorem Current.setPhase (h : Current s) (hk : s.attempt k = some a)
    (hconf : a.phase.confirmed = true → phase.confirmed = true)
    (hphase : ∀ j, phase ≠ .switched (.websocket j)) : Current (s.setPhase k phase) where
  inUse j ht := by
    obtain ⟨b, hb, hbc, hopen⟩ := h.inUse j ht
    obtain ⟨b', hb', hbc', hcl⟩ := confirmed_setPhase hk hconf hb hbc
    exact ⟨b', hb', hbc', by rw [hcl, hopen]⟩
  replaced m c j hm hc := by
    rcases attempt_setPhase_cases hk hm with ⟨rfl, rfl⟩ | ⟨-, hm⟩
    · exact absurd hc (hphase j)
    · obtain ⟨ht, b, hb, hbc⟩ := h.replaced m c j hm hc
      obtain ⟨b', hb', hbc', -⟩ := confirmed_setPhase hk hconf hb hbc
      exact ⟨ht, b', hb', hbc'⟩
  closed m c hm hc := by
    rcases attempt_setPhase_cases hk hm with ⟨rfl, rfl⟩ | ⟨-, hm⟩
    · exact hconf (h.closed _ _ hk hc)
    · exact h.closed m c hm hc

/-- The switch: the websocket of an attempt that was not confirmed is new. -/
theorem Current.confirm (h : Current s) (hk : s.attempt k = some a) (hprobing : a.phase = .probing)
    (b₁ b₂ : Bool) :
    Current ({ s with upgrading := b₁, upgraded := b₂, transport := .websocket k }.setPhase k
      (.switched s.transport)) := by
  set t : Socket := { s with upgrading := b₁, upgraded := b₂, transport := .websocket k } with ht
  have hkt : t.attempt k = some a := hk
  have hnot : a.phase.confirmed ≠ true := by rw [hprobing]; exact nofun
  have hconf : a.phase.confirmed = true → (Phase.switched s.transport).confirmed = true := fun _ => rfl
  refine ⟨fun j hj => ?_, fun m c j hm hc => ?_, fun m c hm hc => ?_⟩
  · obtain rfl : k = j := by simpa [ht, Socket.setPhase] using hj
    refine ⟨_, attempt_setPhase hkt, rfl, ?_⟩
    by_contra hcl
    exact hnot (h.closed _ _ hk (Bool.eq_true_of_not_eq_false hcl))
  · have hne {b : Attempt} (hb : s.attempt j = some b) (hbc : b.phase.confirmed = true) : k ≠ j := by
      rintro rfl
      rw [hk, Option.some.injEq] at hb
      exact hnot (hb ▸ hbc)
    have hold : ∃ b, s.attempt j = some b ∧ b.phase.confirmed = true := by
      rcases attempt_setPhase_cases hkt hm with ⟨rfl, rfl⟩ | ⟨-, hm⟩
      · obtain ⟨b, hb, hbc, -⟩ := h.inUse j (by simpa using hc)
        exact ⟨b, hb, hbc⟩
      · exact (h.replaced m c j hm hc).2
    obtain ⟨b, hb, hbc⟩ := hold
    obtain ⟨b', hb', hbc', -⟩ := confirmed_setPhase (s := t) hkt hconf hb hbc
    refine ⟨fun hj => hne hb hbc ?_, b', hb', hbc'⟩
    simpa [ht, Socket.setPhase] using hj
  · rcases attempt_setPhase_cases hkt hm with ⟨rfl, rfl⟩ | ⟨-, hm⟩
    · rfl
    · exact h.closed m c hm hc

theorem attempt_closeWebsocket (j m : ℕ) : (s.closeWebsocket j).attempt m =
      (s.attempt m).map fun b => if j = m then { b with closed := true } else b := by
  simp only [attempt, closeWebsocket, List.getElem?_modify]
  rfl

theorem exists_attempt_closeWebsocket (j : ℕ) (hk : s.attempt k = some a) :
    ∃ b, (s.closeWebsocket j).attempt k = some b ∧ b.phase = a.phase := by
  refine ⟨if j = k then { a with closed := true } else a, ?_, ?_⟩
  · rw [attempt_closeWebsocket, hk, Option.map_some]
  · split_ifs <;> rfl

theorem Current.closeWebsocket (h : Current s) (hj : s.transport ≠ .websocket j)
    (hconf : ∃ b, s.attempt j = some b ∧ b.phase.confirmed = true) :
    Current (s.closeWebsocket j) := by
  have hconfirmed {m : ℕ} (hm : ∃ b, s.attempt m = some b ∧ b.phase.confirmed = true) :
      ∃ b, (s.closeWebsocket j).attempt m = some b ∧ b.phase.confirmed = true := by
    obtain ⟨b, hb, hbc⟩ := hm
    refine ⟨_, by rw [attempt_closeWebsocket, hb, Option.map_some], ?_⟩
    split_ifs <;> exact hbc
  refine ⟨fun m hm => ?_, fun m c n hm hc => ?_, fun m c hm hc => ?_⟩
  · obtain ⟨b, hb, hbc, hopen⟩ := h.inUse m hm
    have hne : j ≠ m := fun hjm => hj (hjm ▸ hm)
    exact ⟨b, by rw [attempt_closeWebsocket, hb, Option.map_some, if_neg hne], hbc, hopen⟩
  · rw [attempt_closeWebsocket] at hm
    obtain ⟨b, hb, rfl⟩ := Option.map_eq_some_iff.mp hm
    have hphase : b.phase = .switched (.websocket n) := by split_ifs at hc <;> exact hc
    obtain ⟨ht, hn⟩ := h.replaced m b n hb hphase
    exact ⟨ht, hconfirmed hn⟩
  · rw [attempt_closeWebsocket] at hm
    obtain ⟨b, hb, rfl⟩ := Option.map_eq_some_iff.mp hm
    split_ifs at hc ⊢ with hjm
    · obtain ⟨b', hb', hbc⟩ := hconf
      rw [hjm, hb, Option.some.injEq] at hb'
      exact hb' ▸ hbc
    · exact h.closed m b hb hc

theorem attempt_begin {c : Attempt} (hc : (s.attempts ++ [({} : Attempt)])[j]? = some c) :
    s.attempt j = some c ∨ c = {} := by
  rcases Nat.lt_or_ge j s.attempts.length with hlt | hge
  · rw [List.getElem?_append_left hlt] at hc
    exact .inl hc
  · rw [List.getElem?_append_right hge] at hc
    exact .inr (List.mem_singleton.mp (List.mem_of_getElem? hc))

theorem attempt_begin_of_some {c : Attempt} (hc : s.attempt j = some c) :
    (s.attempts ++ [({} : Attempt)])[j]? = some c := by
  obtain ⟨hlt, -⟩ := List.getElem?_eq_some_iff.mp hc
  rw [List.getElem?_append_left hlt]
  exact hc

theorem Current.begin (h : Current s) (b : Bool) :
    Current { s with upgrading := b, attempts := s.attempts ++ [{}] } where
  inUse j hj := by
    obtain ⟨c, hc, hcc⟩ := h.inUse j hj
    exact ⟨c, attempt_begin_of_some hc, hcc⟩
  replaced m c j hm hc := by
    rcases attempt_begin hm with hm | rfl
    · obtain ⟨ht, b, hb, hbc⟩ := h.replaced m c j hm hc
      exact ⟨ht, b, attempt_begin_of_some hb, hbc⟩
    · exact absurd hc nofun
  closed m c hm hc := by
    rcases attempt_begin hm with hm | rfl
    · exact h.closed m c hm hc
    · exact absurd hc nofun

end Socket

/-- The goroutine has taken a batch and has yet to clear `sending`. -/
def Pc.active : Pc → Bool
  | .sending _ _ | .sent => true
  | _ => false

theorem batch_of_not_active (h : pc.active = false) : pc.batch = [] := by
  cases pc with
  | sending t buf => exact absurd h nofun
  | _ => rfl

theorem frames_of_not_active (h : pc.active = false) : pc.frames = [] := by
  cases pc with
  | sending t buf => exact absurd h nofun
  | _ => rfl

namespace Socket

variable {s s' : Socket} {i k : ℕ} {g g' : Goroutine} {a : Attempt} {phase : Phase}

/-- One flush at a time sends a batch, and it sends it over the transport that was
in use when it took it. -/
structure Routed (s : Socket) : Prop where
  current : Current s
  active : (s.goroutines.map fun g => g.pc.active.toNat).sum = s.sending.toNat
  polling : s.transport = .polling →
    s.closed = false ∧ ∀ k a, s.attempt k = some a → a.phase.confirmed = false
  onWebsocket : ∀ g ∈ s.goroutines, ∀ j buf, g.pc = .sending (.websocket j) buf →
    s.transport ≠ .polling
  onPolling : (s.closed = true ∨ ∃ k a, s.attempt k = some a ∧ a.phase.quiesced = true) →
    ∀ g ∈ s.goroutines, ∀ buf, g.pc ≠ .sending .polling buf
  handing : s.transport ≠ .polling →
    s.closed = true ∨ ∃ k a, s.attempt k = some a ∧ a.phase.handing = true

section

variable (h : Routed s)

include h

theorem Routed.congr (hg : s'.goroutines = s.goroutines)
    (ha : s'.attempts = s.attempts) (ht : s'.transport = s.transport) (hc : s'.closed = s.closed)
    (hs : s'.sending = s.sending) : Routed s' := by
  have hattempt (j : ℕ) : s'.attempt j = s.attempt j := by rw [attempt, ha, attempt]
  obtain ⟨hcur, hact, hpoll, hws, hon, hhand⟩ := h
  simp only [← hattempt, ← hg, ← ht, ← hc, ← hs] at hact hpoll hws hon hhand
  exact ⟨hcur.congr ha ht, hact, hpoll, hws, hon, hhand⟩

/-- Before the switch, and so before `onUpgrade` does anything, a flush may take a
batch for the polling transport. -/
theorem Routed.not_quiesced (ht : s.transport = .polling) :
    ¬ (s.closed = true ∨ ∃ k a, s.attempt k = some a ∧ a.phase.quiesced = true) := by
  obtain ⟨hclosed, hconf⟩ := h.polling ht
  rintro (hcl | ⟨k, a, hk, hq⟩)
  · rw [hclosed] at hcl
    exact absurd hcl nofun
  · have := hconf k a hk
    cases hphase : a.phase <;> rw [hphase] at this hq <;> simp_all [Phase.confirmed, Phase.quiesced]

theorem Routed.move (hi : s.goroutines[i]? = some g)
    (hg : s'.goroutines = s.goroutines.set i g') (ha : s'.attempts = s.attempts)
    (ht : s'.transport = s.transport) (hc : s'.closed = s.closed)
    (hactive : g'.pc.active.toNat + s.sending.toNat = g.pc.active.toNat + s'.sending.toNat)
    (hsend : ∀ t buf, g'.pc = .sending t buf → (∃ buf', g.pc = .sending t buf') ∨ t = s.transport) :
    Routed s' := by
  have hattempt (j : ℕ) : s'.attempt j = s.attempt j := by rw [attempt, ha, attempt]
  have hmem : g ∈ s.goroutines := List.mem_of_getElem? hi
  refine ⟨h.current.congr ha ht, ?_, ?_, ?_, ?_, ?_⟩
  · have hsum := Pool.sum_map_set (u := g') (fun g : Goroutine => g.pc.active.toNat) hi
    have hact := h.active
    rw [hg]
    omega
  · simpa only [hattempt, ht, hc] using h.polling
  · rw [hg, ht]
    refine Pool.forall_set h.onWebsocket fun j buf hpc => ?_
    rcases hsend _ _ hpc with ⟨buf', hpc'⟩ | hj
    · exact h.onWebsocket g hmem j buf' hpc'
    · rw [← hj]
      simp
  · simp only [hattempt, hc, hg]
    intro hq
    refine Pool.forall_set (h.onPolling hq) fun buf hpc => ?_
    rcases hsend _ _ hpc with ⟨buf', hpc'⟩ | hj
    · exact h.onPolling hq g hmem buf' hpc'
    · exact h.not_quiesced hj.symm hq
  · simpa only [hattempt, ht, hc] using h.handing

theorem Routed.spawn (hg : g.pc.active = false) : Routed (s.spawn g) := by
  have hnot (t : Tport) (buf : List Packet) : g.pc ≠ .sending t buf := by
    intro hpc
    rw [hpc] at hg
    exact absurd hg nofun
  have hmem {P : Goroutine → Prop} (hall : ∀ x ∈ s.goroutines, P x) (hP : P g) :
      ∀ x ∈ (s.spawn g).goroutines, P x := by
    intro x hx
    rcases List.mem_append.mp hx with hx | hx
    · exact hall x hx
    · rw [List.mem_singleton.mp hx]
      exact hP
  refine ⟨h.current.congr rfl rfl, ?_, h.polling, ?_, fun hq => ?_, h.handing⟩
  · simp only [Socket.spawn, List.map_append, List.sum_append, List.map_cons, List.map_nil, hg]
    exact h.active
  · exact hmem h.onWebsocket fun j buf hpc => absurd hpc (hnot _ _)
  · exact hmem (h.onPolling hq) fun buf => hnot _ _

theorem Routed.idle_of_not_sending (hs : s.sending = false) :
    ∀ g ∈ s.goroutines, g.pc.active = false := by
  intro g hg
  have hle := List.le_sum_of_mem (List.mem_map_of_mem (f := fun g : Goroutine => g.pc.active.toNat) hg)
  rw [h.active, hs] at hle
  cases hact : g.pc.active with
  | false => rfl
  | true => simp [hact] at hle

theorem Routed.setPhase {old : Phase} (hk : s.attempt k = some a) (hold : a.phase = old)
    (hconf : phase.confirmed = old.confirmed) (hswitched : ∀ j, phase ≠ .switched (.websocket j))
    (hquiesced : phase.quiesced = true → old.quiesced = true ∨ s.sending = false)
    (hhanding : old.handing = true → phase.handing = true ∨ s.closed = true) :
    Routed (s.setPhase k phase) := by
  subst hold
  refine ⟨h.current.setPhase hk (fun hc => by rw [hconf, hc]) hswitched, h.active, ?_,
    h.onWebsocket, ?_, ?_⟩
  · intro ht
    refine ⟨(h.polling ht).1, fun m b hm => ?_⟩
    rcases attempt_setPhase_cases hk hm with ⟨rfl, rfl⟩ | ⟨-, hm⟩
    · rw [hconf]
      exact (h.polling ht).2 _ _ hk
    · exact (h.polling ht).2 m b hm
  · rintro (hcl | ⟨m, b, hm, hq⟩)
    · exact h.onPolling (.inl hcl)
    · rcases attempt_setPhase_cases hk hm with ⟨rfl, rfl⟩ | ⟨-, hm⟩
      · rcases hquiesced hq with hq | hs
        · exact h.onPolling (.inr ⟨_, _, hk, hq⟩)
        · intro g hg buf hpc
          have := h.idle_of_not_sending hs g hg
          rw [hpc] at this
          exact absurd this nofun
      · exact h.onPolling (.inr ⟨m, b, hm, hq⟩)
  · intro ht
    rcases h.handing ht with hcl | ⟨m, b, hm, hb⟩
    · exact .inl hcl
    · by_cases hmk : k = m
      · subst hmk
        rw [hk, Option.some.injEq] at hm
        subst hm
        rcases hhanding hb with hph | hcl
        · exact .inr ⟨_, _, attempt_setPhase hk, hph⟩
        · exact .inl hcl
      · exact .inr ⟨m, b, by rw [attempt_setPhase_ne hmk, hm], hb⟩

theorem Routed.confirm (hk : s.attempt k = some a) (hprobing : a.phase = .probing) (b₁ b₂ : Bool) :
    Routed ({ s with upgrading := b₁, upgraded := b₂, transport := .websocket k }.setPhase k
      (.switched s.transport)) := by
  set t : Socket := { s with upgrading := b₁, upgraded := b₂, transport := .websocket k }
  have hkt : t.attempt k = some a := hk
  refine ⟨h.current.confirm hk hprobing b₁ b₂, h.active, nofun, fun _ _ _ _ _ => nofun, ?_, ?_⟩
  · rintro (hcl | ⟨m, b, hm, hq⟩)
    · exact h.onPolling (.inl hcl)
    · rcases attempt_setPhase_cases hkt hm with ⟨rfl, rfl⟩ | ⟨-, hm⟩
      · cases hq
      · exact h.onPolling (.inr ⟨m, b, hm, hq⟩)
  · intro _
    by_cases ht : s.transport = .polling
    · exact .inr ⟨k, _, attempt_setPhase hkt, by rw [ht]; rfl⟩
    · rcases h.handing ht with hcl | ⟨m, b, hm, hb⟩
      · exact .inl hcl
      · have hne : k ≠ m := by
          rintro rfl
          rw [hk, Option.some.injEq] at hm
          rw [← hm, hprobing] at hb
          exact absurd hb nofun
        exact .inr ⟨m, b, by rw [attempt_setPhase_ne hne]; exact hm, hb⟩

theorem Routed.closeWebsocket (hj : s.transport ≠ .websocket j)
    (hconf : ∃ b, s.attempt j = some b ∧ b.phase.confirmed = true) :
    Routed (s.closeWebsocket j) := by
  -- closing a websocket changes no attempt's phase
  have hback {m : ℕ} {c : Attempt} (hm : (s.closeWebsocket j).attempt m = some c) :
      ∃ b, s.attempt m = some b ∧ b.phase = c.phase := by
    rw [attempt_closeWebsocket] at hm
    obtain ⟨b, hb, rfl⟩ := Option.map_eq_some_iff.mp hm
    exact ⟨b, hb, by split_ifs <;> rfl⟩
  refine ⟨h.current.closeWebsocket hj hconf, h.active, ?_, h.onWebsocket, ?_, ?_⟩
  · intro ht
    refine ⟨(h.polling ht).1, fun m c hm => ?_⟩
    obtain ⟨b, hb, hphase⟩ := hback hm
    rw [← hphase]
    exact (h.polling ht).2 m b hb
  · rintro (hcl | ⟨m, c, hm, hq⟩)
    · exact h.onPolling (.inl hcl)
    · obtain ⟨b, hb, hphase⟩ := hback hm
      exact h.onPolling (.inr ⟨m, b, hb, by rw [hphase, hq]⟩)
  · intro ht
    rcases h.handing ht with hcl | ⟨m, b, hm, hb⟩
    · exact .inl hcl
    · refine .inr ⟨m, _, by rw [attempt_closeWebsocket, hm, Option.map_some], ?_⟩
      split_ifs <;> exact hb

theorem Routed.begin (b : Bool) :
    Routed { s with upgrading := b, attempts := s.attempts ++ [{}] } := by
  refine ⟨h.current.begin b, h.active, ?_, h.onWebsocket, ?_, ?_⟩
  · intro ht
    refine ⟨(h.polling ht).1, fun m c hm => ?_⟩
    rcases attempt_begin hm with hm | rfl
    · exact (h.polling ht).2 m c hm
    · rfl
  · rintro (hcl | ⟨m, c, hm, hq⟩)
    · exact h.onPolling (.inl hcl)
    · rcases attempt_begin hm with hm | rfl
      · exact h.onPolling (.inr ⟨m, c, hm, hq⟩)
      · cases hq
  · intro ht
    rcases h.handing ht with hcl | ⟨m, c, hm, hc⟩
    · exact .inl hcl
    · exact .inr ⟨m, c, attempt_begin_of_some hm, hc⟩

theorem Routed.close (hk : s.attempt k = some a) (hq : a.phase.quiesced = true)
    (buf : List Packet) :
    Routed { s with closed := true, pending := false, writable := false, sendBuffer := buf } := by
  refine ⟨h.current.congr rfl rfl, h.active, fun ht => ?_, h.onWebsocket, fun _ => ?_,
    fun _ => .inl rfl⟩
  · exact absurd (.inr ⟨k, a, hk, hq⟩) (h.not_quiesced ht)
  · exact h.onPolling (.inr ⟨k, a, hk, hq⟩)

theorem Routed.pollingSend (pkts : List Packet) : Routed (s.pollingSend pkts) := by
  apply h.congr <;> simp

theorem Routed.sending_of_active (hi : s.goroutines[i]? = some g)
    (hact : g.pc.active = true) : s.sending = true := by
  by_contra hs
  have := h.idle_of_not_sending (Bool.eq_false_of_not_eq_true hs) g (List.mem_of_getElem? hi)
  rw [hact] at this
  exact absurd this nofun

end

theorem Moves.active {pc pc' : Pc} {s₁ : Socket} (h : Moves s pc s₁ pc')
    (hs : pc.active = true → s.sending = true) :
    pc'.active.toNat + s.sending.toNat = pc.active.toNat + s₁.sending.toNat := by
  cases h with
  | take htakes =>
    rw [(takes_iff.mp htakes).1]
    rfl
  | sent =>
    rw [hs rfl]
    split_ifs <;> rfl
  | appended | noopWebsocket | noopLost => split_ifs <;> rfl
  | respond | noopPolling =>
    rw [pollingSend_sending]
    rfl
  | skip | frame | lose | written | tick => rfl

theorem Routed.advance (h : Routed s) (hi : s.goroutines[i]? = some g) {s₁ : Socket}
    (hadv : s.advance g.pc = some (s₁, pc)) : Routed (s₁.setGoroutine i { g with pc }) := by
  have hm := moves_of_advance hadv
  obtain ⟨hg, ha, ht, hc, -⟩ := hm.same
  have hset : (s₁.setGoroutine i { g with pc }).goroutines = s.goroutines.set i { g with pc } := by
    rw [← hg]
    rfl
  refine h.move hi hset ha ht hc (hm.active (h.sending_of_active hi)) fun t buf hpc => ?_
  rcases hm.of_sending hpc with ⟨-, ht⟩ | ⟨p, hpc⟩
  · exact .inr ht
  · exact .inl ⟨_, hpc⟩

theorem Routed.step (h : Routed s) {l : Act} (hs : s.step l = some s') : Routed s' := by
  cases step_does hs with
  | @resend i g hi hpc =>
    refine (h.pollingSend g.buffered).move (g := g) ?_ rfl rfl rfl rfl rfl fun t buf ht => .inl ⟨buf, ht⟩
    rw [pollingSend_goroutines, hi]
  | append hi hpc =>
    refine h.move hi rfl rfl rfl rfl ?_ nofun
    rw [hpc]
    rfl
  | advance hi hadv => exact h.advance hi hadv
  | pollClosed | poll => exact Routed.spawn (h.congr rfl rfl rfl rfl rfl) rfl
  | cancel | onProbe => exact h.congr rfl rfl rfl rfl rfl
  | tick => exact h.spawn rfl
  | maybeUpgrade => exact h.begin true
  | switch hk hphase => exact h.confirm hk hphase _ _
  | @replace k a j hk hphase =>
    obtain ⟨ht, hj⟩ := h.current.replaced k a j hk hphase
    obtain ⟨b, hb, hsame⟩ := exists_attempt_closeWebsocket j hk
    exact (h.closeWebsocket ht hj).setPhase hb (hsame.trans hphase) rfl nofun nofun nofun
  | waitSent hk hphase hsend => exact h.setPhase hk hphase rfl nofun (fun _ => .inr hsend) fun _ => .inl rfl
  | drain hk hphase | requeue hk hphase =>
    exact Routed.setPhase (h.congr rfl rfl rfl rfl rfl) hk hphase rfl nofun (fun _ => .inl rfl)
      fun _ => .inl rfl
  | close hk hphase =>
    exact (h.close hk (by rw [hphase]; rfl) []).setPhase hk hphase rfl nofun nofun fun _ => .inr rfl
  | finish hk hphase => exact Routed.spawn (h.setPhase hk hphase rfl nofun nofun nofun) rfl
  | @onAbort k a hk hphase =>
    have hR : Routed { s with upgrading := false } := h.congr rfl rfl rfl rfl rfl
    have haborted : Routed ({ s with upgrading := false }.setPhase k .aborted) := by
      rcases hphase with hphase | hphase <;> exact hR.setPhase hk hphase rfl nofun nofun nofun
    exact haborted.spawn rfl

end Socket

end Gosocketio.EngineSocket

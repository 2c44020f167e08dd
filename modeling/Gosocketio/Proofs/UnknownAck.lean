import Gosocketio.Sanity.Requests

/-! What the server acknowledges when the handlers of an event have nothing to say. The
goroutine that acknowledges takes a list without results for an event without handlers. -/

namespace Gosocketio.Requests

open Runs

variable {side : Side} {T V : Type} [DecidableEq T] {J : Json} {unmarshal : GoType T → Bytes → Option V}
  {s s' : Requests side T} {a : Act side T} {i : ℕ} {r r' : Request side T}

theorem Sound.keeps_payload (h : Sound J unmarshal s) (hs : s.step J unmarshal a = some s') {data : List Value}
    (hi : s.requests[i]? = some r) (hack : r.ack = .send data ∨ r.ack = .sent data) :
    ∃ r', s'.requests[i]? = some r' ∧ (r'.ack = .send data ∨ r'.ack = .sent data) := by
  have hidle : r.ack ≠ .idle := by
    rcases hack with hack | hack <;> rw [hack] <;> nofun
  have hp := h.placed i r hi
  cases step_does hs with
  | config ha hreq hloop hout => exact ⟨r, by rw [hreq, hi], hack⟩
  | accept hloop =>
    refine ⟨r, ?_, hack⟩
    rw [List.getElem?_append_left (List.getElem?_eq_some_iff.mp hi).1, hi]
  | @move _ k x x' loop out hk hm =>
    by_cases hki : k = i
    · subst hki
      obtain rfl : r = x := Option.some.inj (hi.symm.trans hk)
      refine ⟨x', List.getElem?_set_self (List.getElem?_eq_some_iff.mp hk).1, ?_⟩
      cases hm with
      | handlersFor | start => exact hack
      | started hloop hge => exact absurd (hp.start hloop) hidle
      | handler hrun => cases hrun <;> exact hack
      | wait hw hwg => rcases hack with hack | hack <;> cases hack.symm.trans hw
      | choose hc => rcases hack with hack | hack <;> cases hack.symm.trans hc
      | send hsend =>
        rcases hack with hack | hack
        · cases hack.symm.trans hsend
          exact .inr rfl
        · cases hack.symm.trans hsend
    · exact ⟨r, by rw [List.getElem?_set_ne hki, hi], hack⟩

/-- What the goroutine has chosen is what it sends, whatever happens in between. -/
theorem sent_of_choose {s s₁ s₂ : Requests .server T} {r r₂ : Request .server T} {later : List (Act .server T)}
    {data : List Value} (h : Sound J unmarshal s) (hi : s.requests[i]? = some r) (hchoose : r.ack = .choose)
    (hs : s.step J unmarshal (.ack i) = some s₁) (hlater : Run (Requests.step J unmarshal) always s₁ later s₂)
    (hi₂ : s₂.requests[i]? = some r₂) (hsent : r₂.ack = .sent data) :
    data = Side.payload .server (s.unknownAck r.pkt.nsp) r.results := by
  have hs₁ : ∃ r₁, s₁.requests[i]? = some r₁ ∧
      r₁.ack = .send (Side.payload .server (s.unknownAck r.pkt.nsp) r.results) := by
    rw [Requests.step, hi, Option.bind_some, ackNext, hchoose] at hs
    obtain rfl := Option.some.inj hs
    exact ⟨_, List.getElem?_set_self (List.getElem?_eq_some_iff.mp hi).1, rfl⟩
  obtain ⟨r₁, hi₁, hack₁⟩ := hs₁
  have hkeep := hlater.invariant
    (fun t => Sound J unmarshal t ∧ ∃ r', t.requests[i]? = some r' ∧
      (r'.ack = .send (Side.payload .server (s.unknownAck r.pkt.nsp) r.results) ∨
        r'.ack = .sent (Side.payload .server (s.unknownAck r.pkt.nsp) r.results)))
    ⟨h.step hs, r₁, hi₁, .inl hack₁⟩ fun t a t' ht _ hstep => ?_
  · obtain ⟨-, r', hi', hack'⟩ := hkeep
    obtain rfl : r₂ = r' := Option.some.inj (hi₂.symm.trans hi')
    rw [hsent] at hack'
    rcases hack' with hack' | hack'
    · cases hack'
    · exact AckStage.sent.inj hack'
  · obtain ⟨ht, x, hx, hack⟩ := ht
    exact ⟨ht.step hstep, ht.keeps_payload hstep hx hack⟩

/-- The goroutine of the server that acknowledges chooses what to send when the handlers
have finished. It is `unknownAck` for an event without handlers and the results of the
handlers for any other, exactly if the event has no handlers, or a handler returned
something, or `unknownAck` is empty. -/
theorem unknownAck_only_without_handlers_iff {s s₁ s₂ : Requests .server T} {r r₂ : Request .server T}
    {acts later : List (Act .server T)} {data : List Value}
    (hrun : Run (Requests.step J unmarshal) always {} acts s) (hi : s.requests[i]? = some r)
    (hchoose : r.ack = .choose) (hs : s.step J unmarshal (.ack i) = some s₁)
    (hlater : Run (Requests.step J unmarshal) always s₁ later s₂) (hi₂ : s₂.requests[i]? = some r₂)
    (hsent : r₂.ack = .sent data) :
    r.Finished ∧
    (((r.handlers = [] → data = s.unknownAck r.pkt.nsp) ∧ (r.handlers ≠ [] → r.Concatenates data)) ↔
      r.handlers = [] ∨ (∃ b ∈ r.blocks, b ≠ []) ∨ s.unknownAck r.pkt.nsp = []) := by
  have h := sound_of_run hrun
  have hr := h.requests r (List.mem_of_getElem? hi)
  have hfin : r.Finished :=
    ⟨(hr.asked (by rw [hchoose]; simp)).2, hr.finished (hr.waited (by rw [hchoose]; simp) (by rw [hchoose]; simp))⟩
  have hdata := sent_of_choose h hi hchoose hs hlater hi₂ hsent
  have hempty (hnil : r.results = []) : data = s.unknownAck r.pkt.nsp := by
    rw [hdata, hnil]
    rfl
  have hfull (hne : r.results ≠ []) : data = r.results := by
    rw [hdata, Request.payload_of_ne_nil hne]
  refine ⟨hfin, ?_, fun hcond => ⟨fun hnone => ?_, fun hsome => ?_⟩⟩
  · rintro ⟨-, hconc⟩
    by_cases hh : r.handlers = []
    · exact .inl hh
    · by_cases hb : ∃ b ∈ r.blocks, b ≠ []
      · exact .inr (.inl hb)
      · have hnil {d : List Value} (hd : r.Concatenates d) : d = [] := by
          by_contra hne
          exact hb (hd.ne_nil_iff.mp hne)
        exact .inr (.inr ((hempty (hnil hr.results)).symm.trans (hnil (hconc hh))))
  · refine hempty ?_
    by_contra hne
    obtain ⟨b, hb, -⟩ := hr.results.ne_nil_iff.mp hne
    have hg : r.goroutines = [] := List.length_eq_zero_iff.mp (by rw [hfin.1, hnone, List.length_nil])
    rw [Request.blocks, hg] at hb
    exact Multiset.notMem_zero b hb
  · by_cases hne : r.results = []
    · rcases hcond with hnone | hb | hu
      · exact absurd hnone hsome
      · exact absurd hne (hr.results.ne_nil_iff.mpr hb)
      · rw [hempty hne, hu, ← hne]
        exact hr.results
    · rw [hfull hne]
      exact hr.results

section NonVacuity

/-- `unknownAck` is `[true]`, and the two handlers return. -/
def configured : List (Act .server Empty) := .setUnknownEventAck defaultNamespace [.bool true] :: asked

def oneResult : List (Act .server Empty) :=
  [.handler 0 1 [.value (.bool false)], .handler 0 0 [], .handler 0 1 [], .handler 0 0 [], .handler 0 0 [],
    .handler 0 1 [], .ack 0]

def noResult : List (Act .server Empty) :=
  [.handler 0 1 [], .handler 0 0 [], .handler 0 1 [], .handler 0 0 [], .handler 0 0 [], .handler 0 1 [], .ack 0]

theorem oneResult_runs :
    (exec (Requests.step json₀ unmarshal₀) always {} (configured ++ oneResult)).isSome = true := by
  decide +kernel

theorem noResult_runs :
    (exec (Requests.step json₀ unmarshal₀) always {} (configured ++ noResult)).isSome = true := by
  decide +kernel

/-- The states in which the payload is chosen, and those after it was sent. -/
def choosesResult : Requests .server Empty :=
  (exec (Requests.step json₀ unmarshal₀) always {} (configured ++ oneResult)).get oneResult_runs

def choosesNone : Requests .server Empty :=
  (exec (Requests.step json₀ unmarshal₀) always {} (configured ++ noResult)).get noResult_runs

theorem choosesResult_steps : (choosesResult.step json₀ unmarshal₀ (.ack 0)).isSome = true := by decide +kernel

theorem choosesNone_steps : (choosesNone.step json₀ unmarshal₀ (.ack 0)).isSome = true := by decide +kernel

theorem choosesResult_sends : (exec (Requests.step json₀ unmarshal₀) always
    ((choosesResult.step json₀ unmarshal₀ (.ack 0)).get choosesResult_steps) [.ack 0]).isSome = true := by
  decide +kernel

theorem choosesNone_sends : (exec (Requests.step json₀ unmarshal₀) always
    ((choosesNone.step json₀ unmarshal₀ (.ack 0)).get choosesNone_steps) [.ack 0]).isSome = true := by
  decide +kernel

def withResult : Request .server Empty := choosesResult.requests.get ⟨0, by decide +kernel⟩

theorem unknownAck_only_without_handlers_iff_result : withResult.Concatenates [.bool false] :=
  ((unknownAck_only_without_handlers_iff (run_of_isSome oneResult_runs) (r := withResult) rfl rfl
    (Option.some_get choosesResult_steps).symm (run_of_isSome choosesResult_sends) rfl rfl).2.mpr
    (.inr (.inl ⟨[.bool false], by decide +kernel, by decide⟩))).2 (by decide +kernel)

def withoutResult : Request .server Empty := choosesNone.requests.get ⟨0, by decide +kernel⟩

/-- The handlers are there and return nothing: the peer is told `[true]`, as if there
were none. -/
theorem void_handlers_look_unknown : ¬ ∀ (T V : Type) [DecidableEq T] (J : Json)
    (unmarshal : GoType T → Bytes → Option V) (s s₁ s₂ : Requests .server T) (r r₂ : Request .server T)
    (acts later : List (Act .server T)) (i : ℕ) (data : List Value),
    Run (Requests.step J unmarshal) always {} acts s → s.requests[i]? = some r → r.ack = .choose →
    s.step J unmarshal (.ack i) = some s₁ → Run (Requests.step J unmarshal) always s₁ later s₂ →
    s₂.requests[i]? = some r₂ → r₂.ack = .sent data →
    (r.handlers = [] → data = s.unknownAck r.pkt.nsp) ∧ (r.handlers ≠ [] → r.Concatenates data) := by
  intro h
  have hconc := (h Empty Empty json₀ unmarshal₀ choosesNone _ _ withoutResult _ (configured ++ noResult) [.ack 0] 0 [.bool true]
    (run_of_isSome noResult_runs) rfl rfl (Option.some_get choosesNone_steps).symm
    (run_of_isSome choosesNone_sends) rfl rfl).2 (by decide +kernel)
  obtain ⟨b, hb, hne⟩ := hconc.ne_nil_iff.mp (by decide)
  have hall : ∀ b ∈ withoutResult.blocks, b = [] := by decide +kernel
  exact hne (hall b hb)

end NonVacuity

end Gosocketio.Requests

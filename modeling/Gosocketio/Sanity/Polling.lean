import Gosocketio.Spec.Polling

/-! What the sections of the polling transport do to the pending poll, and what one
step of a goroutine leaves alone. -/

namespace Gosocketio

open Transport

namespace Polling

variable {p p' : Polling} {pkts : List Packet} {n : PollId}

/-- The four fields that describe the pending poll belong to one poll. -/
structure Aligned (p : Polling) : Prop where
  req : p.req = p.res
  pollDone : p.pollDone = p.res
  writable : p.writable = p.res.isSome

/-- `Send` drops the packets, buffers them, or takes the response of the pending poll. -/
theorem send_cases (p : Polling) (pkts : List Packet) :
    (p.closed = true ∧ p.send pkts = (p, none)) ∨
    ∃ pkts', pkts' = (if p.pendingClose then pkts ++ [{ type := .close }] else pkts) ∧ p.closed = false ∧
      ((p.res = none ∧
        p.send pkts = ({ p with writable := false, sendBuffer := p.sendBuffer ++ pkts' }, none)) ∨
      ∃ n, p.res = some n ∧
        p.send pkts = ({ p with writable := false, req := none, res := none, pollDone := none },
          some { res := n, done := p.pollDone, pkts := pkts', pendingClose := p.pendingClose })) := by
  cases hc : p.closed with
  | true => exact .inl ⟨rfl, by rw [send, if_pos hc]⟩
  | false =>
    refine .inr ⟨_, rfl, rfl, ?_⟩
    cases hres : p.res with
    | none => exact .inl ⟨rfl, by simp [send, hc, hres]⟩
    | some n => exact .inr ⟨n, rfl, by simp [send, hc, hres]⟩

namespace Aligned

theorem onPollRequest (n : PollId) : Aligned (p.onPollRequest n).1 := by
  simp only [Polling.onPollRequest]
  split_ifs <;> exact ⟨rfl, rfl, rfl⟩

theorem send (h : Aligned p) (pkts : List Packet) : Aligned (p.send pkts).1 := by
  rcases send_cases p pkts with ⟨-, heq⟩ | ⟨_, -, -, ⟨hres, heq⟩ | ⟨m, -, heq⟩⟩
  · rw [heq]
    exact h
  · rw [heq]
    exact ⟨h.req, h.pollDone, by rw [hres]; rfl⟩
  · rw [heq]
    exact ⟨rfl, rfl, rfl⟩

theorem closeLocked (h : Aligned p) : Aligned p.closeLocked.1 := by
  unfold Polling.closeLocked
  split_ifs
  · exact h
  · exact ⟨rfl, rfl, rfl⟩

end Aligned

namespace State

variable {s s' s₁ : State} {op : Op} {ops : List Op} {i : ℕ}

theorem sends_fst_p (s : State) (pkts : List Packet) : (s.sends pkts).1.p = (s.p.send pkts).1 := by
  unfold sends
  split <;> simp_all

theorem sends_keeps (s : State) (pkts : List Packet) :
    (s.sends pkts).1.goroutines = s.goroutines ∧ (s.sends pkts).1.polls = s.polls ∧
      (s.sends pkts).1.log = s.log ∧ (s.sends pkts).1.given = s.given := by
  unfold sends
  split <;> exact ⟨rfl, rfl, rfl, rfl⟩

theorem run_keeps (h : s.run op = some (s₁, ops)) :
    s₁.goroutines = s.goroutines ∧ s₁.polls = s.polls := by
  cases op with
  | send pkts | resend pkts =>
    simp only [run, Option.some.injEq, Prod.ext_iff] at h
    rw [← h.1]
    exact ⟨(sends_keeps _ pkts).1, (sends_keeps _ pkts).2.1⟩
  | await n | watch n | close =>
    simp only [run] at h
    split_ifs at h <;> (cases h; exact ⟨rfl, rfl⟩)
  | _ =>
    cases h
    exact ⟨rfl, rfl⟩

theorem run_aligned (h : s.run op = some (s₁, ops)) (hs : Aligned s.p) : Aligned s₁.p := by
  cases op with
  | send pkts | resend pkts =>
    simp only [run, Option.some.injEq, Prod.ext_iff] at h
    rw [← h.1, sends_fst_p]
    exact hs.send pkts
  | notifyClose =>
    cases h
    exact hs.closeLocked
  | close =>
    simp only [run] at h
    split_ifs at h <;> (cases h; exact { hs with })
  | await n | watch n =>
    simp only [run] at h
    split_ifs at h
    cases h
    exact hs
  | _ =>
    cases h
    exact hs

/-- Everything a step can do. A call of `Send` or `Close` and the close timer start a
goroutine of their own. -/
inductive Does (s : State) : Act → State → Prop
  | poll : Does s .poll s.poll
  | call {a : Act} {op : Op} (r : Bool)
      (h : (∃ pkts, a = .send pkts ∧ op = .send pkts) ∨ (a = .close ∧ op = .close) ∨
        (a = .timer ∧ op = .notifyClose)) :
      Does s a ({ s with p := { s.p with running := r } }.spawn [op])
  | discard : Does s .discard { s with p := s.p.discard }
  | abort {i : ℕ} {n : PollId} {rest : List Op} (hi : s.goroutines[i]? = some (.watch n :: rest))
      (hreq : s.p.req = some n) :
      Does s (.cancel i)
        { s with p := { s.p with req := none, res := none, pollDone := none, writable := false }
                 goroutines := s.goroutines.set i (.closeDone n :: rest) }
  | stale {i : ℕ} {n : PollId} {rest : List Op} (hi : s.goroutines[i]? = some (.watch n :: rest)) :
      Does s (.cancel i) { s with goroutines := s.goroutines.set i rest }
  | nested {i : ℕ} {pkts : List Packet} {rest : List Op} (hi : s.goroutines[i]? = some (.ready :: rest)) :
      Does s (.nested i pkts)
        { s with goroutines := s.goroutines.set i (.send pkts :: .ready :: rest) }
  | run {i : ℕ} {op : Op} {rest ops : List Op} {s₁ : State}
      (hi : s.goroutines[i]? = some (op :: rest)) (hrun : s.run op = some (s₁, ops)) :
      Does s (.go i) { s₁ with goroutines := s₁.goroutines.set i (ops ++ rest) }

theorem step_does {a : Act} (h : s.step a = some s') : Does s a s' := by
  cases a with
  | poll =>
    cases h
    exact .poll
  | send pkts =>
    cases h
    exact .call s.p.running (.inl ⟨pkts, rfl, rfl⟩)
  | close =>
    cases h
    exact .call s.p.running (.inr (.inl ⟨rfl, rfl⟩))
  | discard =>
    cases h
    exact .discard
  | timer =>
    simp only [step] at h
    split_ifs at h
    cases h
    exact .call false (.inr (.inr ⟨rfl, rfl⟩))
  | cancel i =>
    simp only [step] at h
    split at h
    · rename_i n rest hi
      unfold Polling.abort at h
      split at h
      · rename_i p hp
        split_ifs at hp with hreq
        cases hp
        cases h
        exact .abort hi hreq
      · cases h
        exact .stale hi
    · cases h
  | nested i pkts =>
    simp only [step] at h
    split at h
    · rename_i rest hi
      cases h
      exact .nested hi
    · cases h
  | go i =>
    simp only [step] at h
    split at h
    · rename_i op rest hi
      obtain ⟨⟨s₁, ops⟩, hrun, rfl⟩ := Option.map_eq_some_iff.mp h
      exact .run hi hrun
    · cases h

theorem poll_cases (s : State) :
    (s.p.req ≠ none ∧ s.poll = { s with polls := s.polls + 1 }.spawn [.badRequest s.polls]) ∨
    ∃ p buffered, s.p.req = none ∧ s.p.onPollRequest s.polls = (p, buffered) ∧
      s.poll = ({ s with polls := s.polls + 1, p }.spawn [.watch s.polls]).spawn
        [.ready, if buffered ≠ [] then .resend buffered else .checkPending, .await s.polls] := by
  by_cases hreq : s.p.req = none
  · refine .inr ⟨(s.p.onPollRequest s.polls).1, (s.p.onPollRequest s.polls).2, hreq, rfl, ?_⟩
    simp [poll, hreq]
  · exact .inl ⟨hreq, by simp [poll, hreq]⟩

end State

end Polling

end Gosocketio

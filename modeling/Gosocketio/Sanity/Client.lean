import Gosocketio.Spec.Client

/-! What a step of a client session does, as seen by the proofs. -/

namespace Gosocketio.Client

open Outbox Transport

variable {limit : ℕ} {s s' : Session} {i : ℕ} {a : Act}

/-- The batch a goroutine has taken and not yet given to a transport. -/
def Pc.held : Pc → List Item
  | .send _ buf => buf
  | _ => []

/-- The write buffer and the goroutines that work on it. -/
def Session.box (s : Session) : Box Packet :=
  { threads := s.goroutines.map fun g => { count := g.count, held := g.pc.held }
    buffer := s.writeBuffer
    accepted := s.accepted
    sent := s.sent }

namespace Session

theorem go_cases (h : s.go limit i = some s') :
    (∃ o todo count, s.goroutines[i]? = some { todo := o :: todo, count, pc := .idle } ∧
      s' = (s.append ⟨i, count, o.packet⟩).setGoroutine i { todo, count := count + 1, pc := .flush }) ∨
    ∃ g s₁ pc, s.goroutines[i]? = some g ∧ s.advance limit g.pc = some (s₁, pc) ∧
      s' = s₁.setGoroutine i { g with pc } := by
  unfold go at h
  split at h
  · cases h
  · rename_i o todo count hg
    exact .inl ⟨o, todo, count, hg, (Option.some.inj h).symm⟩
  · rename_i g _ hg
    obtain ⟨⟨s₁, pc⟩, hadv, heq⟩ := Option.map_eq_some_iff.mp h
    exact .inr ⟨g, s₁, pc, hg, hadv, heq.symm⟩

theorem flushUpgrade_eq (h : s.flushUpgrade = some s') :
    ∃ g, s.goroutines[0]? = some g ∧ g.pc = .idle ∧
      s' = { s with phase := .finished }.setGoroutine 0 { g with pc := .flush } := by
  unfold flushUpgrade at h
  split at h
  · rename_i todo count hg
    exact ⟨_, hg, rfl, (Option.some.inj h).symm⟩
  · cases h

theorem act_of_step (h : s.step limit a = some s') : s.closed = false ∧ s.act limit a = some s' := by
  unfold step at h
  split_ifs at h with hc
  exact ⟨by simpa using hc, h⟩

theorem box_setGoroutine (s : Session) (i : ℕ) (g : Goroutine) : (s.setGoroutine i g).box =
      { s.box with threads := s.box.threads.set i { count := g.count, held := g.pc.held } } := by
  simp only [box, setGoroutine, List.map_set]

theorem threads_getElem {g : Goroutine} (h : s.goroutines[i]? = some g) :
    s.box.threads[i]? = some { count := g.count, held := g.pc.held } := by
  simp only [box, List.getElem?_map, h, Option.map_some]

theorem serve_cases (limit : ℕ) (s : Session) (buf : List Item) :
    (∃ pkts, s.serve limit buf = (s, .serving pkts)) ∨
    ∃ errors pc, (pc = .answered 413 ∨ pc = .erring) ∧ s.serve limit buf = ({ s with
        dataReq := false, refused := s.refused ++ buf.map Outbox.Item.value, errors }, pc) := by
  simp only [serve]
  split_ifs
  · exact .inr ⟨s.errors, _, .inl rfl, rfl⟩
  · split
    · exact .inr ⟨_, _, .inr rfl, rfl⟩
    · exact .inl ⟨_, rfl⟩

theorem advance_box {pc pc' : Pc} (h : s.advance limit pc = some (s', pc')) :
    s'.goroutines = s.goroutines ∧ s'.accepted = s.accepted ∧
    ((pc.held = [] ∧ pc'.held = s.writeBuffer ∧ s'.writeBuffer = [] ∧ s'.sent = s.sent) ∨
      (pc'.held = [] ∧ s'.writeBuffer = s.writeBuffer ∧ s'.sent = s.sent ++ [pc.held]) ∨
      (pc.held = [] ∧ pc'.held = [] ∧ s'.writeBuffer = s.writeBuffer ∧ s'.sent = s.sent)) := by
  cases pc with
  | idle => cases h
  | flush =>
    simp only [advance] at h
    split_ifs at h <;> cases h
    · exact ⟨rfl, rfl, .inr (.inr ⟨rfl, rfl, rfl, rfl⟩)⟩
    · exact ⟨rfl, rfl, .inl ⟨rfl, rfl, rfl, rfl⟩⟩
  | send t buf => cases t <;> cases h <;> exact ⟨rfl, rfl, .inr (.inl ⟨rfl, rfl, rfl⟩)⟩
  | posted buf =>
    simp only [advance] at h
    split_ifs at h <;> cases h <;> exact ⟨rfl, rfl, .inr (.inr ⟨rfl, rfl, rfl, rfl⟩)⟩
  | verified buf =>
    simp only [advance] at h
    split_ifs at h
    · cases h
      exact ⟨rfl, rfl, .inr (.inr ⟨rfl, rfl, rfl, rfl⟩)⟩
    · rcases serve_cases limit { s with dataReq := true } buf with
        ⟨pkts, hs⟩ | ⟨errors, pc, rfl | rfl, hs⟩ <;>
      · rw [hs] at h
        cases h
        exact ⟨rfl, rfl, .inr (.inr ⟨rfl, rfl, rfl, rfl⟩)⟩
  | serving pkts | writing pkts => cases pkts <;> cases h <;> exact ⟨rfl, rfl, .inr (.inr ⟨rfl, rfl, rfl, rfl⟩)⟩
  | erring | failed => cases h; exact ⟨rfl, rfl, .inr (.inr ⟨rfl, rfl, rfl, rfl⟩)⟩
  | answered code =>
    cases h
    refine ⟨rfl, rfl, .inr (.inr ⟨rfl, ?_, rfl, rfl⟩)⟩
    split_ifs <;> rfl

/-- The upgrade and the frames leave the buffer and the batches alone, and refuse nothing. -/
theorem act_same (ha : ∀ i, a ≠ .go i) (h : s.act limit a = some s') : s'.box = s.box ∧ s'.refused = s.refused := by
  have hflush (h : s.flushUpgrade = some s') : s'.box = s.box ∧ s'.refused = s.refused := by
    obtain ⟨g, hg, hpc, rfl⟩ := flushUpgrade_eq h
    have hthread := threads_getElem hg
    rw [hpc] at hthread
    refine ⟨?_, rfl⟩
    change (s.setGoroutine 0 { g with pc := .flush }).box = _
    rw [box_setGoroutine]
    simp only [Pc.held] at hthread ⊢
    rw [Pool.set_self hthread]
  cases a with
  | go i => exact absurd rfl (ha i)
  | upgrade =>
    simp only [act, upgrade] at h
    split at h
    case h_7 => exact hflush h
    case h_8 => exact hflush h
    all_goals
      first
      | cases h; exact ⟨rfl, rfl⟩
      | split_ifs at h; cases h; exact ⟨rfl, rfl⟩
      | cases h
  | fail =>
    simp only [act, fail] at h
    split at h <;> cases h <;> exact ⟨rfl, rfl⟩
  | abort =>
    simp only [act, abort] at h
    split at h
    all_goals
      first
      | split_ifs at h; cases h; exact ⟨rfl, rfl⟩
      | cases h
  | discard =>
    simp only [act, discard] at h
    split_ifs at h
    cases h
    exact ⟨rfl, rfl⟩
  | recv =>
    simp only [act, recv] at h
    split at h
    · cases h
    · split_ifs at h
      cases h
      unfold onFrame
      split <;> split_ifs <;> exact ⟨rfl, rfl⟩

end Session

end Gosocketio.Client

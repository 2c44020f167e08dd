import Gosocketio.Spec.Dial

/-! When `Dial` returns. Whoever opens the client, or closes it with an error, goes on to complete
the handshake; a Close packet does not. -/

namespace Gosocketio.Dial

open Runs Stacks Pool

variable {E : Type} {c c' : Client E} {w w' : State E} {i : ℕ} {op : Op E} {ops bs : List (Op E)}

/-- The outcome of the handshake is what happened to the client. -/
def Client.Backs (c : Client E) : Option E → Prop
  | none => c.opened = true
  | some e => c.closedBy = some (some e)

def Op.Backed (c : Client E) : Op E → Prop
  | .complete err => c.Backs err
  | _ => True

def Op.completes : Op E → ℕ
  | .complete _ => 1
  | _ => 0

/-- Nobody completes the handshake without a reason, and whoever has a reason does. -/
structure Kept (w : State E) : Prop where
  held : ∀ err, w.shared.handshakeDone = some err ∨ w.shared.dial = .returned err → w.shared.Backs err
  once : w.shared.dial = .waiting → w.shared.handshakeDone.isSome = w.shared.handshakeOnce
  backed : Every (Op.Backed w.shared) w.tasks
  due : ∀ err, w.shared.Backs err → w.shared.handshakeOnce = false → 0 < load Op.completes w.tasks

theorem kept_initial : Kept (initial : State E) where
  held := by simp [initial]
  once _ := rfl
  backed := every_nil
  due err h := by cases err <;> cases h

theorem Op.Backed.mono (h : ∀ err, c.Backs err → c'.Backs err) (op : Op E) (hop : op.Backed c) : op.Backed c' := by
  cases op with
  | complete err => exact h err hop
  | handleOpen | closeWithError => trivial

section

variable (h : Kept w)

include h

/-- A section that leaves the handshake alone. What becomes a reason to complete it is followed by
a section that does. -/
theorem Kept.next (hi : w.tasks[i]? = some (op :: ops)) (hop : op.completes = 0)
    (hdone : c'.handshakeDone = w.shared.handshakeDone) (honce : c'.handshakeOnce = w.shared.handshakeOnce)
    (hdial : c'.dial = w.shared.dial) (hgrows : ∀ err, w.shared.Backs err → c'.Backs err)
    (hbs : ∀ b ∈ bs, b.Backed c')
    (hdue : ∀ err, c'.Backs err → w.shared.Backs err ∨ 0 < (bs.map Op.completes).sum) :
    Kept ⟨c', w.tasks.set i (bs ++ ops) ++ []⟩ where
  held err hheld := by
    rw [hdone, hdial] at hheld
    exact hgrows err (h.held err hheld)
  once := by
    rw [hdone, honce, hdial]
    exact h.once
  backed := by
    rw [List.append_nil]
    exact (h.backed.mono (Op.Backed.mono hgrows)).set hi hbs
  due err hbacks hfirst := by
    obtain ⟨r, hold, hnew⟩ := exists_load_go Op.completes hi bs []
    rw [hnew, load_nil]
    rcases hdue err hbacks with hbefore | hpos
    · have hpos := h.due err hbefore (honce.symm.trans hfirst)
      omega
    · omega

theorem Kept.complete {err : Option E} (hi : w.tasks[i]? = some (.complete err :: ops)) :
    Kept ⟨if w.shared.handshakeOnce then w.shared else
      { w.shared with handshakeOnce := true, handshakeDone := some err }, w.tasks.set i ([] ++ ops) ++ []⟩ := by
  have hbacks : w.shared.Backs err := h.backed.head hi
  rw [List.append_nil]
  split_ifs with honce
  · refine ⟨h.held, h.once, h.backed.set hi (by simp), fun err _ hfirst => ?_⟩
    exact absurd (honce.symm.trans hfirst) (by simp)
  · refine ⟨?_, fun _ => rfl, ?_, fun _ _ hfirst => by cases hfirst⟩
    · rintro err' (hdone | hdial)
      · obtain rfl : err = err' := Option.some.inj hdone
        cases err <;> exact hbacks
      · have hbefore := h.held err' (.inr hdial)
        cases err' <;> exact hbefore
    · refine (h.backed.mono (Op.Backed.mono fun err herr => ?_)).set hi (by simp)
      cases err <;> exact herr

theorem Kept.go {new : List (List (Op E))} (hi : w.tasks[i]? = some (op :: ops))
    (hrun : run w.shared op = some (c', bs, new)) : Kept ⟨c', w.tasks.set i (bs ++ ops) ++ new⟩ := by
  cases op with
  | complete err =>
    cases hrun
    exact h.complete hi
  | handleOpen err =>
    cases err with
    | some e =>
      cases hrun
      exact h.next hi rfl rfl rfl rfl (fun _ => id) (by simp [Op.Backed]) fun _ => .inl
    | none =>
      cases hrun
      refine h.next hi rfl rfl rfl rfl (fun err herr => ?_) (by simp [Op.Backed, Client.Backs]) fun err herr => ?_
      · cases err with
        | none => rfl
        | some e => exact herr
      · exact .inr (by simp [Op.completes])
  | closeWithError err =>
    rw [run] at hrun
    split_ifs at hrun with hclosed <;> cases hrun
    · exact h.next hi rfl rfl rfl rfl (fun _ => id) (by simp) fun _ => .inl
    · refine h.next hi rfl rfl rfl rfl (fun err' herr => ?_) (by simp [Op.Backed, Client.Backs]) fun err' herr => ?_
      · cases err' with
        | none => exact herr
        | some e => exact absurd (by rw [show w.shared.closedBy = _ from herr]; rfl) hclosed
      · cases err' with
        | none => exact .inl herr
        | some e =>
          obtain rfl : err = some e := Option.some.inj herr
          exact .inr (by simp [Op.completes])

theorem Kept.notice (hop : op.starts = true) : Kept { w with tasks := w.tasks ++ [[op]] } := by
  refine ⟨h.held, h.once, ?_, fun err hbacks hfirst => ?_⟩
  · rw [every_append, every_cons, List.forall_mem_singleton]
    refine ⟨h.backed, ?_, every_nil⟩
    cases op with
    | complete => cases hop
    | handleOpen | closeWithError => trivial
  · rw [load_append]
    exact Nat.add_pos_left (h.due err hbacks hfirst) _

theorem Kept.dial (hbacks : ∀ err, c'.Backs err ↔ w.shared.Backs err)
    (honce : c'.handshakeOnce = w.shared.handshakeOnce)
    (hheld : ∀ err, c'.handshakeDone = some err ∨ c'.dial = .returned err →
      w.shared.handshakeDone = some err ∨ w.shared.dial = .returned err)
    (hwaiting : c'.dial = .waiting → c'.handshakeDone.isSome = c'.handshakeOnce) : Kept { w with shared := c' } where
  held err hout := (hbacks err).mpr (h.held err (hheld err hout))
  once := hwaiting
  backed := h.backed.mono (Op.Backed.mono fun err => (hbacks err).mpr)
  due err herr hfirst := h.due err ((hbacks err).mp herr) (honce.symm.trans hfirst)

theorem Kept.step {a : Act E} (hs : step w a = some w') : Kept w' := by
  cases a with
  | notice op =>
    rw [Dial.step] at hs
    split_ifs at hs with hop
    cases hs
    exact h.notice hop
  | go i =>
    obtain ⟨op, ops, c', bs, new, hi, hrun, rfl⟩ := go_eq_some hs
    exact h.go hi hrun
  | receive =>
    rw [Dial.step] at hs
    split at hs
    · rename_i err hdial hdone
      cases hs
      refine h.dial (fun err => ?_) rfl (fun err' hout => ?_) fun hwaiting => by cases hwaiting
      · cases err <;> rfl
      · rcases hout with hout | hout
        · cases hout
        · cases hout
          exact .inl hdone
    · cases hs
  | cancel =>
    rw [Dial.step] at hs
    split at hs
    · cases hs
      refine h.dial (fun err => ?_) rfl (fun err' hout => ?_) fun hwaiting => by cases hwaiting
      · cases err with
        | none => rfl
        | some e => cases hclosed : w.shared.closedBy <;> simp [Client.Backs, hclosed]
      · rcases hout with hout | hout
        · exact .inl hout
        · cases hout
    · cases hs

end

/-- In every run of the client's goroutines: once they have nothing left to do, a `Dial` that
waits can return without its context exactly if an Open packet was parsed or the client was closed
with an error. It returns a client only if an Open packet was parsed, and an error only if that
error has closed the client. After a mere Close packet it waits for its context. -/
theorem dial_returns_iff {ls : List (Act E)} (h : Run step always initial ls w) :
    (w.shared.dial = .waiting → (∀ ops ∈ w.tasks, ops = []) → ((step w .receive).isSome = true ↔
      w.shared.opened = true ∨ ∃ e, w.shared.closedBy = some (some e))) ∧
      ∀ err, w.shared.dial = .returned err → w.shared.Backs err := by
  have hkept : Kept w := h.invariant Kept kept_initial fun _ _ _ hI _ hs => hI.step hs
  refine ⟨fun hdial hquiet => ?_, fun err hdial => hkept.held err (.inr hdial)⟩
  have hready : (step w .receive).isSome = w.shared.handshakeDone.isSome := by
    rw [step, hdial]
    cases w.shared.handshakeDone <;> rfl
  have hreason : (w.shared.opened = true ∨ ∃ e, w.shared.closedBy = some (some e)) ↔
      ∃ err, w.shared.Backs err := (Option.exists (p := w.shared.Backs)).symm
  rw [hready, hreason]
  constructor
  · intro hsome
    obtain ⟨err, herr⟩ := Option.isSome_iff_exists.mp hsome
    exact ⟨err, hkept.held err (.inl herr)⟩
  · rintro ⟨err, hbacks⟩
    rw [hkept.once hdial]
    by_contra hfirst
    have hpos := hkept.due err hbacks (by simpa using hfirst)
    rw [load_eq_zero fun ops hops => by simp [hquiet ops hops]] at hpos
    exact lt_irrefl 0 hpos

theorem closePacket_isSome : (exec step always initial
    [.notice (.closeWithError (none : Option ℕ)), .go 0]).isSome = true := by
  decide +kernel

theorem dial_returns_iff_closePacket : ∃ w : State ℕ,
    Run step always initial [.notice (.closeWithError none), .go 0] w ∧ (step w .receive).isSome = false := by
  refine ⟨_, run_of_isSome closePacket_isSome, ?_⟩
  have hiff := (dial_returns_iff (run_of_isSome closePacket_isSome)).1 (by decide +kernel) (by decide +kernel)
  rw [Bool.eq_false_iff, ne_eq, hiff]
  rintro (hopened | ⟨e, hclosed⟩)
  · cases hopened
  · cases hclosed

end Gosocketio.Dial

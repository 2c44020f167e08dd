import Gosocketio.Sanity.Client

/-! The order in which the client's transport gets the packets of one goroutine.
`flushSends` takes the buffer under the lock and calls `Send` outside of it, so a
batch can be overtaken on the way. -/

namespace Gosocketio.Client

open Outbox Runs

def Session.inHand (s : Session) (i : ℕ) : List Item := (s.goroutines[i]?).elim [] fun g => g.pc.held

/-- A goroutine gives its batch to the transport while no other goroutine has a
batch in hand with an earlier packet of a goroutine that has one in this batch. -/
def HandsInOrder (s : Session) : Act → Prop
  | .go i => ∀ j < s.goroutines.length, j ≠ i →
      ∀ y ∈ s.inHand j, ∀ x ∈ s.inHand i, y.sender = x.sender → ¬ y.seq < x.seq
  | _ => True

instance (s : Session) (a : Act) : Decidable (HandsInOrder s a) := by
  unfold HandsInOrder
  split <;> infer_instance

section Steps

variable {limit : ℕ} {s s' : Session} {a : Act} {i : ℕ} {g : Goroutine}

theorem inHand_eq (hg : s.goroutines[i]? = some g) : s.inHand i = g.pc.held := by
  rw [Session.inHand, hg]
  rfl

theorem handsInOrder_iff (hg : s.goroutines[i]? = some g) :
    HandsInOrder s (.go i) ↔ s.box.Clear i g.pc.held := by
  simp only [HandsInOrder, Box.Clear, inHand_eq hg]
  constructor
  · intro h j u hj hu
    rw [Session.box, List.getElem?_map] at hu
    obtain ⟨g', hg', rfl⟩ := Option.map_eq_some_iff.mp hu
    have hlt := (List.getElem?_eq_some_iff.mp hg').1
    simpa only [inHand_eq hg'] using h j hlt hj
  · intro h j hlt hj
    have hg' := List.getElem?_eq_getElem hlt
    rw [inHand_eq hg']
    exact h j _ hj (Session.threads_getElem hg')

theorem box_go (h : s.go limit i = some s') : ∃ g, s.goroutines[i]? = some g ∧
    let t : Thread Transport.Packet := { count := g.count, held := g.pc.held }
    ((t.held = [] ∧ (s'.box = s.box ∨ (∃ v, s'.box = s.box.append i t v) ∨ s'.box = s.box.detach i t)) ∨
      s'.box = s.box.hand i t) := by
  rcases Session.go_cases h with ⟨o, todo, count, hg, rfl⟩ | ⟨g, s₁, pc, hg, hadv, rfl⟩
  · refine ⟨_, hg, .inl ⟨rfl, .inr (.inl ⟨o.packet, ?_⟩)⟩⟩
    rw [Session.box_setGoroutine]
    rfl
  · obtain ⟨hgs, hacc, hcases⟩ := Session.advance_box hadv
    refine ⟨g, hg, ?_⟩
    rw [Session.box_setGoroutine]
    rcases hcases with ⟨hpc, hpc', hbuf, hsent⟩ | ⟨hpc', hbuf, hsent⟩ | ⟨hpc, hpc', hbuf, hsent⟩
    · refine .inl ⟨hpc, .inr (.inr ?_)⟩
      simp only [Session.box, Box.detach, hgs, hacc, hbuf, hsent, hpc']
    · refine .inr ?_
      simp only [Session.box, Box.hand, hgs, hacc, hbuf, hsent, hpc']
    · refine .inl ⟨hpc, .inl ?_⟩
      have hthread := Session.threads_getElem hg
      rw [hpc] at hthread
      simp only [Session.box, hgs, hacc, hbuf, hsent, hpc'] at hthread ⊢
      rw [Pool.set_self hthread]

/-- What is kept as long as no batch overtakes another. -/
structure Ordered (s : Session) : Prop where
  inv : Outbox.Inv s.box
  inOrder : InOrder s.sent

theorem ordered_step (h : Ordered s) (hgood : HandsInOrder s a) (hs : s.step limit a = some s') :
    Ordered s' := by
  have hin : InOrder s.box.sent := h.inOrder
  suffices hbox : Outbox.Inv s'.box ∧ InOrder s'.box.sent from ⟨hbox.1, hbox.2⟩
  obtain ⟨-, hact⟩ := Session.act_of_step hs
  by_cases ha : ∃ i, a = .go i
  · obtain ⟨i, rfl⟩ := ha
    obtain ⟨g, hg, hcases⟩ := box_go hact
    have ht := Session.threads_getElem hg
    rcases hcases with ⟨hheld, heq | ⟨v, heq⟩ | heq⟩ | heq
    · exact heq ▸ ⟨h.inv, hin⟩
    · exact heq ▸ ⟨h.inv.append ht v, hin⟩
    · exact heq ▸ ⟨h.inv.detach ht hheld, hin⟩
    · exact heq ▸ ⟨h.inv.hand ht, inOrder_hand h.inv hin ht ((handsInOrder_iff hg).mp hgood)⟩
  · rw [(Session.act_same (fun i hi => ha ⟨i, hi⟩) hact).1]
    exact ⟨h.inv, hin⟩

theorem not_inOrder_step (h : Ordered s) (hbad : ¬ HandsInOrder s a)
    (hs : s.step limit a = some s') : ¬ InOrder s'.sent := by
  cases a with
  | go i =>
    obtain ⟨g, hg, hcases⟩ := box_go (Session.act_of_step hs).2
    rw [handsInOrder_iff hg] at hbad
    rcases hcases with ⟨hheld, -⟩ | heq
    · rw [show g.pc.held = [] from hheld] at hbad
      exact absurd (fun j u _ _ y _ x hx => absurd hx (List.not_mem_nil)) hbad
    · change ¬ InOrder s'.box.sent
      rw [heq]
      exact not_inOrder_hand h.inv (Session.threads_getElem hg) hbad
  | _ => exact absurd trivial hbad

end Steps

theorem ordered_init (tport : TransportName) (calls : List (List Outgoing)) :
    Ordered (.init tport calls) := by
  have hbox : (Session.init tport calls).box =
      { threads := List.replicate (calls.length + 1) {} } := by
    simp only [Session.init, Session.box, List.map_cons, List.map_map]
    congr 1
    congr 1
    exact List.map_eq_replicate_iff.mpr fun _ _ => rfl
  refine ⟨hbox ▸ Outbox.Inv.init _, ?_⟩
  intro pre x post heq
  simp [Session.init] at heq

/-- The transport gets the packets of every goroutine in the order in which it
sent them, throughout a run, exactly if no batch overtakes one with an earlier
packet of the same goroutine. -/
theorem send_order_exact {limit : ℕ} {tport : TransportName} {calls : List (List Outgoing)}
    {ls : List Act} {s : Session} (hrun : Run (Session.step limit) always (.init tport calls) ls s) :
    (∀ ls₁ s₁, ls₁ <+: ls → Run (Session.step limit) always (.init tport calls) ls₁ s₁ →
        InOrder s₁.sent) ↔
      Run (Session.step limit) HandsInOrder (.init tport calls) ls s := by
  rw [hrun.exact_iff Ordered (fun s => InOrder s.sent) HandsInOrder (ordered_init tport calls)
    (fun s h => h.inOrder) (fun s a s' h _ hgood hs => ordered_step h hgood hs)
    (fun s a s' h _ hbad hs => not_inOrder_step h hbad hs)]
  exact ⟨fun h => h.mono fun _ _ hok => hok.2, fun h => h.mono fun _ _ hok => ⟨trivial, hok⟩⟩

section NonVacuity

def twoSenders : Session := .init .websocket [[.message [1] false, .message [2] false], [.message [3] false]]

/-- The second goroutine takes its own message and the first one of the other
goroutine; the transport gets neither until the end of the run. -/
def overtake : List Act := [.go 1, .go 2, .go 2, .go 1, .go 1, .go 1, .go 1]

def inTurn : List Act :=
  [.go 1, .go 1, .go 1, .go 1, .go 1, .go 1, .go 1, .go 1, .go 1, .go 1, .go 2, .go 2, .go 2]

theorem overtake_runs : (exec (Session.step 100) always twoSenders overtake).isSome = true := by
  decide +kernel

theorem inTurn_runs : (exec (Session.step 100) HandsInOrder twoSenders inTurn).isSome = true := by
  decide +kernel

theorem send_order_exact_in_turn :
    InOrder ((exec (Session.step 100) HandsInOrder twoSenders inTurn).get inTurn_runs).sent :=
  (send_order_exact (run_of_isSome inTurn_runs).unconditional).mpr (run_of_isSome inTurn_runs) _ _
    (List.prefix_refl _) (run_of_isSome inTurn_runs).unconditional

/-- The second message of a goroutine gets to the transport while the first one is
in the hands of another goroutine. -/
theorem send_order_broken : ¬ ∀ (limit : ℕ) (tport : TransportName) (calls : List (List Outgoing))
    (ls : List Act) (s : Session), Act.upgrade ∉ ls →
    Run (Session.step limit) always (.init tport calls) ls s → InOrder s.sent := by
  intro h
  have hrun := run_of_isSome overtake_runs
  have hin := h 100 .websocket _ overtake _ (by decide) hrun
  have hsent : ((exec (Session.step 100) always twoSenders overtake).get overtake_runs).sent =
      [[⟨1, 1, { type := .message, data := [2] }⟩]] := by decide +kernel
  rw [hsent] at hin
  obtain ⟨y, hy, -⟩ := hin [] _ [] rfl 0 Nat.zero_lt_one
  cases hy

end NonVacuity

end Gosocketio.Client

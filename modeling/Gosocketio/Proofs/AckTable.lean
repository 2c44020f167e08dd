import Gosocketio.Lib.Runs
import Gosocketio.Spec.AckTable
import Mathlib.Data.List.Basic
import Mathlib.Data.List.Nodup
import Mathlib.Data.List.Range

/-! One table of acknowledgements and any number of goroutines. A callback leaves the table with
the call of `invoke` that takes it, and no other call can have it after that; the ids are counted
up, so a late acknowledgement cannot meet a newer callback. -/

namespace Gosocketio.AckTable

section Take

variable {C : Type} {id : ℤ}

theorem take_fst {t : AckTable C} {c : C} : (t.take id).1 = some c ↔ t.cbs id = some (some c) := by
  unfold take
  split <;> simp_all

theorem seq_take (t : AckTable C) (id : ℤ) : (t.take id).2.2.seq = t.seq := by
  unfold take
  split <;> rfl

theorem cbs_take (t : AckTable C) (id : ℤ) : (t.take id).2.2.cbs = Function.update t.cbs id none := by
  unfold take
  split
  · rfl
  · rename_i h
    rw [← h, Function.update_eq_self]

theorem take_ok (t : AckTable C) (id : ℤ) : (t.take id).2.1 = true ↔ (t.take id).2.2.cbs ≠ t.cbs := by
  rw [cbs_take, ne_eq, Function.update_eq_self_iff, eq_comm]
  unfold take
  split <;> simp_all

end Take

namespace Shared

open Runs

variable {A : Type} {s s' : Shared A} {a : Act A} {ls : List (Act A)}

theorem step_cases (h : s.step a = some s') :
    (a = .next ∧ s' = { s with table := s.table.next.2, issued := s.issued ++ [s.table.next.1] }) ∨
    (∃ id isNil, a = .register id isNil ∧ id ∈ s.issued ∧ s' = { s with
        table := s.table.register id (if isNil then none else some s.registered.length)
        registered := s.registered ++ [id] }) ∨
    (∃ id args, a = .invoke id args ∧ s' = { s with
        table := (s.table.take id).2.2
        invocations := s.invocations ++ [⟨id, args, (s.table.take id).2.1, (s.table.take id).1, false⟩] }) ∨
    (∃ k inv n, a = .call k ∧ s.invocations[k]? = some inv ∧ inv.cb = some n ∧ inv.called = false ∧
      s' = { s with
        invocations := s.invocations.set k { inv with called := true }
        calls := s.calls ++ [(n, inv.args)] }) ∨
    (∃ id, a = .remove id ∧ s' = { s with table := s.table.remove id }) ∨
    (a = .clear ∧ s' = { s with table := s.table.clear }) := by
  cases a with
  | next => exact .inl ⟨rfl, (Option.some.inj h).symm⟩
  | register id isNil =>
    simp only [step, Option.ite_none_right_eq_some, Option.some.injEq] at h
    exact .inr (.inl ⟨id, isNil, rfl, h.1, h.2.symm⟩)
  | invoke id args => exact .inr (.inr (.inl ⟨id, args, rfl, (Option.some.inj h).symm⟩))
  | call k =>
    simp only [step] at h
    split at h <;> try cases h
    rename_i inv hk
    split at h <;> try cases h
    rename_i n hcb
    simp only [Option.ite_none_left_eq_some, Bool.not_eq_true, Option.some.injEq] at h
    exact .inr (.inr (.inr (.inl ⟨k, inv, n, rfl, hk, hcb, h.1, h.2.symm⟩)))
  | remove id => exact .inr (.inr (.inr (.inr (.inl ⟨id, rfl, (Option.some.inj h).symm⟩))))
  | clear => exact .inr (.inr (.inr (.inr (.inr ⟨rfl, (Option.some.inj h).symm⟩))))

section Issued

/-- Before the counter wraps around, the ids are `1, 2, 3, …`. -/
structure Counted (s : Shared A) : Prop where
  seq : s.table.seq = s.issued.length
  issued : s.issued = (List.range' 1 s.issued.length).map fun n : ℕ => (n : ℤ)

theorem next_fst {t : AckTable ℕ} {n : ℕ} (h : t.seq = n) (hn : n + 1 < 2 ^ 63) :
    t.next.1 = (n + 1 : ℕ) := by
  simp only [next, h]
  rw [Int.bmod_eq_of_le (by omega) (by omega)]
  rfl

theorem issued_prefix_step (h : s.step a = some s') : s.issued <+: s'.issued := by
  obtain ⟨-, rfl⟩ | ⟨_, _, -, -, rfl⟩ | ⟨_, _, -, rfl⟩ | ⟨_, _, _, -, -, -, -, rfl⟩ | ⟨_, -, rfl⟩ | ⟨-, rfl⟩ :=
    step_cases h
  · exact List.prefix_append _ _
  all_goals exact List.prefix_refl _

theorem Counted.step (hs : s.Counted) (h : s.step a = some s') (hfew : s'.issued.length < 2 ^ 63) :
    s'.Counted := by
  obtain ⟨hseq, hissued⟩ := hs
  obtain ⟨-, rfl⟩ | ⟨_, _, -, -, rfl⟩ | ⟨id, _, -, rfl⟩ | ⟨_, _, _, -, -, -, -, rfl⟩ | ⟨_, -, rfl⟩ | ⟨-, rfl⟩ :=
    step_cases h
  · have hid := next_fst hseq (by simpa using hfew)
    refine ⟨by simpa [next] using hid, ?_⟩
    simp only [List.length_append, List.length_singleton, List.range'_concat, List.map_append,
      List.map_singleton, ← hissued]
    rw [hid, Nat.one_mul, Nat.add_comm]
  · exact ⟨hseq, hissued⟩
  · exact ⟨(seq_take s.table id).trans hseq, hissued⟩
  · exact ⟨hseq, hissued⟩
  · exact ⟨hseq, hissued⟩
  · exact ⟨hseq, hissued⟩

theorem counted (h : Run step always {} ls s) (hfew : s.issued.length < 2 ^ 63) : s.Counted := by
  induction h with
  | nil => exact ⟨rfl, rfl⟩
  | snoc _ _ hs ih => exact (ih ((issued_prefix_step hs).length_le.trans_lt hfew)).step hs hfew

theorem Counted.nodup (h : s.Counted) : s.issued.Nodup := by
  rw [h.issued]
  exact (List.nodup_range' (n := s.issued.length)).map fun _ _ => Int.ofNat.inj

theorem Counted.pos (h : s.Counted) {id : ℤ} (hid : id ∈ s.issued) : 0 < id := by
  rw [h.issued, List.mem_map] at hid
  obtain ⟨n, hn, rfl⟩ := hid
  have := (List.mem_range'_1.mp hn).1
  omega

end Issued

section Callbacks

/-- The table has callback `n`, under some id. -/
def Holds (s : Shared A) (n : ℕ) : Prop := ∃ id, s.table.cbs id = some (some n)

/-- The `k`-th call of `invoke` has taken callback `n`; it was called with `id` and `args`. -/
def Took (s : Shared A) (k n : ℕ) (id : ℤ) (args : A) : Prop :=
  ∃ inv, s.invocations[k]? = some inv ∧ inv.cb = some n ∧ inv.id = id ∧ inv.args = args

variable {id : ℤ} {k n : ℕ} {args : A}

theorem cbs_update_none {cbs : ℤ → Option (Option ℕ)} {j : ℤ}
    (h : Function.update cbs j none id = some (some n)) : id ≠ j ∧ cbs id = some (some n) := by
  rw [Function.update_apply] at h
  split_ifs at h with hj
  exact ⟨hj, h⟩

/-- A callback in the table was there before the act, which did not take it out, or the act has
just registered it. -/
theorem cbs_step (h : s.step a = some s') (hn : s'.table.cbs id = some (some n)) :
    (s.table.cbs id = some (some n) ∧ (∀ args, a ≠ .invoke id args) ∧ a ≠ .remove id ∧ a ≠ .clear) ∨
      (n = s.registered.length ∧ s'.registered = s.registered ++ [id]) := by
  obtain ⟨rfl, rfl⟩ | ⟨j, isNil, rfl, -, rfl⟩ | ⟨j, _, rfl, rfl⟩ | ⟨_, _, _, rfl, -, -, -, rfl⟩ |
    ⟨j, rfl, rfl⟩ | ⟨rfl, rfl⟩ := step_cases h
  · exact .inl ⟨hn, by simp⟩
  · simp only [register, Function.update_apply] at hn
    split_ifs at hn with hj hnil
    · simp at hn
    · exact .inr ⟨by simpa using hn.symm, by rw [hj]⟩
    · exact .inl ⟨hn, by simp⟩
  · simp only [cbs_take] at hn
    obtain ⟨hj, hn⟩ := cbs_update_none hn
    exact .inl ⟨hn, by simpa using Ne.symm hj⟩
  · exact .inl ⟨hn, by simp⟩
  · obtain ⟨hj, hn⟩ := cbs_update_none hn
    exact .inl ⟨hn, by simpa using Ne.symm hj⟩
  · cases hn

theorem registered_prefix_step (h : s.step a = some s') : s.registered <+: s'.registered := by
  obtain ⟨-, rfl⟩ | ⟨_, _, -, -, rfl⟩ | ⟨_, _, -, rfl⟩ | ⟨_, _, _, -, -, -, -, rfl⟩ | ⟨_, -, rfl⟩ | ⟨-, rfl⟩ :=
    step_cases h
  case inr.inl => exact List.prefix_append _ _
  all_goals exact List.prefix_refl _

theorem registered_step (h : s.step a = some s') (hn : s.registered[n]? = some id) :
    s'.registered[n]? = some id := by
  obtain ⟨more, hmore⟩ := registered_prefix_step h
  rw [← hmore, List.getElem?_append_left (List.getElem?_eq_some_iff.mp hn).1, hn]

/-- A callback that was registered and is not in the table. -/
def Gone (s : Shared A) (n : ℕ) : Prop := n < s.registered.length ∧ ¬ s.Holds n

theorem Gone.step (hn : s.Gone n) (h : s.step a = some s') : s'.Gone n := by
  refine ⟨hn.1.trans_le (registered_prefix_step h).length_le, ?_⟩
  rintro ⟨id, hid⟩
  rcases cbs_step h hid with ⟨hid, -⟩ | ⟨rfl, -⟩
  · exact hn.2 ⟨id, hid⟩
  · exact lt_irrefl _ hn.1

theorem invocations_step (h : s.step a = some s') :
    (s'.calls = s.calls ∧ s.invocations <+: s'.invocations) ∨
      ∃ k inv n, s.invocations[k]? = some inv ∧ inv.cb = some n ∧ inv.called = false ∧
        s'.invocations = s.invocations.set k { inv with called := true } ∧
        s'.calls = s.calls ++ [(n, inv.args)] := by
  obtain ⟨-, rfl⟩ | ⟨_, _, -, -, rfl⟩ | ⟨_, _, -, rfl⟩ | ⟨k, inv, n, -, hk, hcb, hnot, rfl⟩ | ⟨_, -, rfl⟩ |
    ⟨-, rfl⟩ := step_cases h
  case inr.inr.inl => exact .inl ⟨rfl, List.prefix_append _ _⟩
  case inr.inr.inr.inl => exact .inr ⟨k, inv, n, hk, hcb, hnot, rfl, rfl⟩
  all_goals exact .inl ⟨rfl, List.prefix_refl _⟩

/-- A call of `invoke` that has a callback had it before the act, or the act is its critical
section and the callback was in the table under its id. -/
theorem took_step (h : s.step a = some s') (hk : s'.Took k n id args) : s.Took k n id args ∨
      (k = s.invocations.length ∧ a = .invoke id args ∧ s.table.cbs id = some (some n)) := by
  obtain ⟨inv, hk, hcb, rfl, rfl⟩ := hk
  obtain ⟨-, rfl⟩ | ⟨_, _, -, -, rfl⟩ | ⟨_, _, rfl, rfl⟩ | ⟨j, inv', m, -, hj, hm, -, rfl⟩ | ⟨_, -, rfl⟩ |
    ⟨-, rfl⟩ := step_cases h
  case inr.inr.inl =>
    rw [List.getElem?_append] at hk
    split_ifs at hk with hlt
    · exact .inl ⟨inv, hk, hcb, rfl, rfl⟩
    · rw [List.getElem?_singleton] at hk
      split_ifs at hk with hzero
      obtain rfl := Option.some.inj hk
      exact .inr ⟨by omega, rfl, take_fst.mp hcb⟩
  case inr.inr.inr.inl =>
    rw [List.getElem?_set] at hk
    split_ifs at hk with hjk hlt
    · obtain rfl := Option.some.inj hk
      exact .inl ⟨inv', hjk ▸ hj, hcb, rfl, rfl⟩
    · exact .inl ⟨inv, hk, hcb, rfl, rfl⟩
  all_goals exact .inl ⟨inv, hk, hcb, rfl, rfl⟩

/-- Each callback is in the table under the id it was registered with, or with the one call of
`invoke` that took it from there. -/
structure Placed (s : Shared A) : Prop where
  stored : ∀ id n, s.table.cbs id = some (some n) → s.registered[n]? = some id
  taken : ∀ k n id args, s.Took k n id args → s.registered[n]? = some id ∧ ¬ s.Holds n
  once : ∀ j k n id id' args args', s.Took j n id args → s.Took k n id' args' → j = k

/-- The id of a registered callback that an act takes out of the table, if the callback is
there. -/
def Act.Drops (id : ℤ) (a : Act A) : Prop := (∃ args, a = .invoke id args) ∨ a = .remove id ∨ a = .clear

theorem Placed.gone (hs : s.Placed) (h : s.step a = some s') (hn : s.registered[n]? = some id)
    (hdrop : a.Drops id) : s'.Gone n := by
  have hlt := (List.getElem?_eq_some_iff.mp hn).1
  refine ⟨hlt.trans_le (registered_prefix_step h).length_le, ?_⟩
  rintro ⟨j, hj⟩
  rcases cbs_step h hj with ⟨hj, hinvoke, hremove, hclear⟩ | ⟨rfl, -⟩
  · obtain rfl := Option.some.inj (hn.symm.trans (hs.stored j n hj))
    rcases hdrop with ⟨args, rfl⟩ | rfl | rfl
    · exact hinvoke args rfl
    · exact hremove rfl
    · exact hclear rfl
  · exact lt_irrefl _ hlt

theorem Placed.step (hs : s.Placed) (h : s.step a = some s') : s'.Placed := by
  refine ⟨fun id n hn => ?_, fun k n id args hk => ?_, fun j k n id id' args args' hj hk => ?_⟩
  · rcases cbs_step h hn with ⟨hn, -⟩ | ⟨rfl, hreg⟩
    · exact registered_step h (hs.stored id n hn)
    · rw [hreg, List.getElem?_concat_length]
  · rcases took_step h hk with hk | ⟨-, rfl, hn⟩
    · obtain ⟨hn, hgone⟩ := hs.taken k n id args hk
      exact ⟨registered_step h hn, (Gone.step ⟨(List.getElem?_eq_some_iff.mp hn).1, hgone⟩ h).2⟩
    · have hreg := hs.stored id n hn
      exact ⟨registered_step h hreg, (hs.gone h hreg (.inl ⟨args, rfl⟩)).2⟩
  · rcases took_step h hj with hj | ⟨rfl, -, hn⟩ <;> rcases took_step h hk with hk | ⟨rfl, -, hn'⟩
    · exact hs.once j k n id id' args args' hj hk
    · exact absurd ⟨id', hn'⟩ (hs.taken j n id args hj).2
    · exact absurd ⟨id, hn⟩ (hs.taken k n id' args' hk).2
    · rfl

theorem placed (h : Run step always {} ls s) : s.Placed := by
  refine h.invariant Placed ⟨fun id n hn => ?_, fun k n id args hk => ?_, fun j k n id id' args args' hj => ?_⟩
    fun _ _ _ hs _ h => hs.step h
  · cases hn
  · obtain ⟨inv, hinv, -⟩ := hk
    cases hinv
  · obtain ⟨inv, hinv, -⟩ := hj
    cases hinv

end Callbacks

section Calls

/-- Each call of a callback was made by a call of `invoke` that had taken it, and which does not
call it again. -/
structure Called (s : Shared A) : Prop where
  made : ∀ c ∈ s.calls, ∃ (k : ℕ) (inv : Invocation ℕ A),
    s.invocations[k]? = some inv ∧ inv.cb = some c.1 ∧ inv.args = c.2 ∧ inv.called = true
  nodup : (s.calls.map Prod.fst).Nodup

theorem Called.step (hs : s.Called) (hplaced : s.Placed) (h : s.step a = some s') : s'.Called := by
  rcases invocations_step h with ⟨hcalls, more, hmore⟩ | ⟨k, inv, n, hk, hcb, hnot, hinvs, hcalls⟩
  · refine ⟨fun c hc => ?_, hcalls ▸ hs.nodup⟩
    obtain ⟨k, inv, hk, hinv⟩ := hs.made c (hcalls ▸ hc)
    exact ⟨k, inv, by rw [← hmore, List.getElem?_append_left (List.getElem?_eq_some_iff.mp hk).1, hk], hinv⟩
  · have hlt := (List.getElem?_eq_some_iff.mp hk).1
    refine ⟨fun c hc => ?_, ?_⟩
    · rw [hcalls, List.mem_append, List.mem_singleton] at hc
      rw [hinvs]
      rcases hc with hc | rfl
      · obtain ⟨j, inv', hj, hcb', hargs, hcalled⟩ := hs.made c hc
        have hne : k ≠ j := by
          rintro rfl
          rw [Option.some.inj (hk.symm.trans hj), hcalled] at hnot
          cases hnot
        exact ⟨j, inv', by rw [List.getElem?_set_ne hne, hj], hcb', hargs, hcalled⟩
      · exact ⟨k, { inv with called := true }, List.getElem?_set_self hlt, hcb, rfl, rfl⟩
    · rw [hcalls, List.map_append, List.map_singleton, List.nodup_append]
      refine ⟨hs.nodup, List.nodup_singleton n, fun m hm m' hm' => ?_⟩
      rintro rfl
      -- the callback was called before, so the same call of `invoke` made that call too
      obtain rfl := List.mem_singleton.mp hm'
      obtain ⟨c, hc, rfl⟩ := List.mem_map.mp hm
      obtain ⟨j, inv', hj, hcb', -, hcalled⟩ := hs.made c hc
      obtain rfl := hplaced.once j k c.1 _ _ _ _ ⟨inv', hj, hcb', rfl, rfl⟩ ⟨inv, hk, hcb, rfl, rfl⟩
      rw [Option.some.inj (hk.symm.trans hj), hcalled] at hnot
      cases hnot

theorem called (h : Run step always {} ls s) : s.Called := by
  induction h with
  | nil => exact ⟨fun c hc => absurd hc List.not_mem_nil, List.nodup_nil⟩
  | snoc hrun _ hs ih => exact ih.step (placed hrun) hs

end Calls

section Stale

variable {s₁ : Shared A} {n : ℕ}

theorem Gone.lt_of_took (hgone : s₁.Gone n) (h : Reaches Shared.step always s₁ s) {k : ℕ} {id : ℤ} {args : A}
    (hk : s.Took k n id args) : k < s₁.invocations.length := by
  have hkeep := h.invariant
    (fun t => t.Gone n ∧ ∀ k id args, t.Took k n id args → k < s₁.invocations.length)
    ⟨hgone, fun k _ _ ⟨_, hinv, _⟩ => (List.getElem?_eq_some_iff.mp hinv).1⟩
    fun t a t' ht _ hstep => ⟨ht.1.step hstep, fun k id args hk => ?_⟩
  · exact hkeep.2 k id args hk
  · rcases took_step hstep hk with hk | ⟨-, -, hn⟩
    · exact ht.2 k id args hk
    · exact absurd ⟨id, hn⟩ ht.1.2

theorem issued_prefix (h : Reaches Shared.step always s₁ s) : s₁.issued <+: s.issued :=
  h.invariant (fun t => s₁.issued <+: t.issued) (List.prefix_refl _) fun _ _ _ ht _ hstep =>
    ht.trans (issued_prefix_step hstep)

end Stale

/-- However the goroutines interleave, with fewer than `2 ^ 63` calls of `next`: the ids are
distinct and positive; a callback is called at most once, by a call of `invoke` with its own id
and with the arguments of that call, and not by one that enters its critical section after a
`remove` of its id or a `clear` that found it registered; `invoke` returns true exactly if it
changes the map; and an acknowledgement of an id issued before a `clear` does not reach a callback
whose id was issued after it. -/
theorem callbacks_at_most_once (h : Run step always {} ls s) (hfew : s.issued.length < 2 ^ 63) :
    (s.issued.Nodup ∧ ∀ id ∈ s.issued, 0 < id) ∧
    (s.calls.map Prod.fst).Nodup ∧
    (∀ n args, (n, args) ∈ s.calls → ∃ k id, s.Took k n id args ∧ s.registered[n]? = some id) ∧
    (∀ ls₁ a s₁ n id, ls₁ ++ [a] <+: ls → Run step always {} ls₁ s₁ → s₁.registered[n]? = some id →
      a = .remove id ∨ a = .clear → ∀ k id' args, s.Took k n id' args → k < s₁.invocations.length) ∧
    (∀ ls₁ s₁ s₂ id args, ls₁ ++ [Act.invoke id args] <+: ls → Run step always {} ls₁ s₁ →
      s₁.step (.invoke id args) = some s₂ →
      ∃ inv, s₂.invocations = s₁.invocations ++ [inv] ∧ inv.id = id ∧ inv.args = args ∧
        (inv.ok = true ↔ s₂.table.cbs ≠ s₁.table.cbs)) ∧
    (∀ ls₁ s₁, ls₁ ++ [Act.clear] <+: ls → Run step always {} ls₁ s₁ → ∀ k n id args, s.Took k n id args →
      id ∈ s₁.issued → ∀ id' ∈ s.issued.drop s₁.issued.length, s.registered[n]? ≠ some id') := by
  have hcounted := counted h hfew
  have hplaced := placed h
  refine ⟨⟨hcounted.nodup, fun id => hcounted.pos⟩, (called h).nodup, fun n args hcall => ?_,
    fun ls₁ a s₁ n id hpre hrun hn ha k id' args hk => ?_, fun ls₁ s₁ s₂ id args hpre hrun hstep => ?_,
    fun ls₁ s₁ hpre hrun k n id args hk hid id' hid' hn => ?_⟩
  · obtain ⟨k, inv, hk, hcb, rfl, -⟩ := (called h).made _ hcall
    have htook : s.Took k n inv.id inv.args := ⟨inv, hk, hcb, rfl, rfl⟩
    exact ⟨k, inv.id, htook, (hplaced.taken k n _ _ htook).1⟩
  · obtain ⟨s₂, hrun₂⟩ := h.take hpre
    obtain ⟨t, hrun', -, hstep⟩ := hrun₂.last
    obtain rfl := hrun.det hrun'
    have hgone : s₂.Gone n := (placed hrun).gone hstep hn (.inr ha)
    have hinvs : s₂.invocations = s₁.invocations := by
      rcases ha with rfl | rfl <;> rw [← Option.some.inj hstep]
    exact hinvs ▸ hgone.lt_of_took (h.reaches hpre hrun₂) hk
  · obtain rfl := Option.some.inj hstep
    exact ⟨_, rfl, rfl, rfl, take_ok s₁.table id⟩
  · obtain rfl : id = id' := Option.some.inj ((hplaced.taken k n id args hk).1.symm.trans hn)
    obtain ⟨later, hlater⟩ := issued_prefix (h.reaches ((List.prefix_append ls₁ [.clear]).trans hpre) hrun)
    have hnodup := hcounted.nodup
    rw [← hlater] at hnodup hid'
    rw [List.drop_left] at hid'
    exact (List.nodup_append.mp hnodup).2.2 id hid id hid' rfl

/-- A peer that acknowledges an event twice and once more after the table was cleared. -/
def replayed : List (Act ℕ) :=
  [.next, .register 1 false, .invoke 1 7, .invoke 1 8, .call 0, .clear, .next, .register 2 false, .invoke 1 9]

theorem callbacks_at_most_once_replayed : ∃ s, Run step always {} replayed s ∧
    s.issued.Nodup ∧ s.calls = [(0, 7)] ∧ s.invocations.map (·.ok) = [true, false, false] := by
  have hrun : Run step always {} replayed _ := run_of_isSome (by decide)
  exact ⟨_, hrun, (callbacks_at_most_once hrun (by decide)).1.1, by decide, by decide⟩

end Shared

end Gosocketio.AckTable

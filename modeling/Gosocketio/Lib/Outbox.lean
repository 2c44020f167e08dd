import Gosocketio.Lib.Pool
import Mathlib.Data.List.Pairwise
import Mathlib.Data.Multiset.OrderedMonoid
import Mathlib.Tactic.ByContra
import Mathlib.Tactic.SplitIfs

/-! A buffer that several threads append to. A thread may take the whole buffer
away, and hand it over later. What one thread appended is handed over in order
exactly if nobody hands over a batch while another thread holds a batch with an
earlier item of the same thread. -/

namespace Outbox

/-- A value with the thread that appended it and the number of values that thread
had appended before. -/
structure Item (α : Type*) where
  sender : ℕ
  seq : ℕ
  value : α
  deriving DecidableEq, Repr

/-- The number of items a thread has appended, and the batch it has taken. -/
structure Thread (α : Type*) where
  count : ℕ := 0
  held : List (Item α) := []

structure Box (α : Type*) where
  threads : List (Thread α)
  buffer : List (Item α) := []
  accepted : List (Item α) := []
  sent : List (List (Item α)) := []

variable {α : Type*} {b : Box α} {i : ℕ} {t : Thread α}

/-- The order in which a thread appended two items, if they are both its own. -/
def Before (x y : Item α) : Prop := x.sender = y.sender → x.seq < y.seq

/-- Every item that was handed over comes after all earlier items of its thread. -/
def InOrder (sent : List (List (Item α))) : Prop := ∀ pre x post, sent.flatten = pre ++ x :: post →
    ∀ k < x.seq, ∃ y ∈ pre, y.sender = x.sender ∧ y.seq = k

namespace Box

def append (b : Box α) (i : ℕ) (t : Thread α) (v : α) : Box α := { b with
    threads := b.threads.set i { t with count := t.count + 1 }
    buffer := b.buffer ++ [⟨i, t.count, v⟩]
    accepted := b.accepted ++ [⟨i, t.count, v⟩] }

def detach (b : Box α) (i : ℕ) (t : Thread α) : Box α :=
  { b with threads := b.threads.set i { t with held := b.buffer }, buffer := [] }

def hand (b : Box α) (i : ℕ) (t : Thread α) : Box α :=
  { b with threads := b.threads.set i { t with held := [] }, sent := b.sent ++ [t.held] }

/-- The number of items thread `a` has appended. -/
def count (b : Box α) (a : ℕ) : ℕ := (b.threads[a]?).elim 0 Thread.count

/-- The items in the hands of the threads. -/
def held (b : Box α) : Multiset (Item α) :=
  (b.threads.map fun t => (t.held : Multiset (Item α))).sum

/-- No other thread holds an earlier item of a thread that has an item in this batch. -/
def Clear (b : Box α) (i : ℕ) (batch : List (Item α)) : Prop :=
  ∀ j u, j ≠ i → b.threads[j]? = some u → ∀ y ∈ u.held, ∀ x ∈ batch,
    y.sender = x.sender → ¬ y.seq < x.seq

theorem count_set (h : b.threads[i]? = some t) (u : Thread α) (a : ℕ) :
    ((b.threads.set i u)[a]?).elim 0 Thread.count = if a = i then u.count else b.count a := by
  have hlt : i < b.threads.length := (List.getElem?_eq_some_iff.mp h).1
  rw [List.getElem?_set]
  by_cases ha : a = i
  · subst ha
    simp [hlt]
  · rw [if_neg (Ne.symm ha), if_neg ha]
    rfl

end Box

/-- What holds of a box that threads work on: every item is handed over, in one
pair of hands, or in the buffer, and what is in the buffer was appended last. -/
structure Inv (b : Box α) : Prop where
  conserved : ∃ front, b.accepted = front ++ b.buffer ∧
    (b.sent.flatten : Multiset (Item α)) + b.held = (front : Multiset (Item α))
  batches : ∀ t ∈ b.threads, t.held.Sublist b.accepted
  ordered : b.accepted.Pairwise Before
  complete : ∀ a k, (∃ x ∈ b.accepted, x.sender = a ∧ x.seq = k) ↔ k < b.count a

theorem Inv.init (n : ℕ) : Inv ({ threads := List.replicate n {} } : Box α) := by
  refine ⟨⟨[], rfl, ?_⟩, fun t ht => ?_, List.Pairwise.nil, fun a k => ?_⟩
  · simp [Box.held]
  · rw [List.eq_of_mem_replicate ht]
  · have hzero : ({ threads := List.replicate n {} } : Box α).count a = 0 := by
      rw [Box.count, List.getElem?_replicate]
      split_ifs <;> rfl
    simp [hzero]

theorem Inv.append (h : Inv b) (ht : b.threads[i]? = some t) (v : α) : Inv (b.append i t v) := by
  obtain ⟨front, hfront, hsum⟩ := h.conserved
  have hcount : b.count i = t.count := by rw [Box.count, ht]; rfl
  refine ⟨⟨front, ?_, ?_⟩, ?_, ?_, fun a k => ?_⟩
  · simp only [Box.append, hfront, List.append_assoc]
  · rw [← hsum]
    have hset := Pool.sum_map_set (u := { t with count := t.count + 1 })
      (fun t => (t.held : Multiset (Item α))) ht
    exact congrArg _ (add_right_cancel hset)
  · refine Pool.forall_set (fun u hu => ?_) ?_
    · exact (h.batches u hu).trans (List.sublist_append_left _ _)
    · exact (h.batches t (List.mem_of_getElem? ht)).trans (List.sublist_append_left _ _)
  · refine List.pairwise_append.mpr ⟨h.ordered, List.pairwise_singleton _ _, fun x hx y hy => ?_⟩
    obtain rfl := List.mem_singleton.mp hy
    intro hsender
    rw [← hcount]
    exact (h.complete i x.seq).mp ⟨x, hx, hsender, rfl⟩
  · rw [Box.count, Box.append, Box.count_set ht]
    simp only [List.mem_append, List.mem_singleton, or_and_right, exists_or, exists_eq_left,
      h.complete]
    split_ifs with ha
    · subst ha
      omega
    · exact or_iff_left fun hne => ha hne.1.symm

theorem Inv.detach (h : Inv b) (ht : b.threads[i]? = some t) (hheld : t.held = []) :
    Inv (b.detach i t) := by
  obtain ⟨front, hfront, hsum⟩ := h.conserved
  refine ⟨⟨b.accepted, by simp [Box.detach], ?_⟩, ?_, h.ordered, fun a k => ?_⟩
  · have hset := Pool.sum_map_set (u := { t with held := b.buffer })
      (fun t => (t.held : Multiset (Item α))) ht
    rw [hheld, Multiset.coe_nil, add_zero] at hset
    rw [hfront, ← Multiset.coe_add, ← hsum, add_assoc]
    exact congrArg _ hset
  · refine Pool.forall_set h.batches ?_
    change b.buffer.Sublist b.accepted
    rw [hfront]
    exact List.sublist_append_right _ _
  · rw [Box.count, Box.detach, Box.count_set ht, h.complete a k]
    split_ifs with ha
    · subst ha
      rw [Box.count, ht]
      rfl
    · rfl

theorem Inv.hand (h : Inv b) (ht : b.threads[i]? = some t) : Inv (b.hand i t) := by
  obtain ⟨front, hfront, hsum⟩ := h.conserved
  refine ⟨⟨front, hfront, ?_⟩, ?_, h.ordered, fun a k => ?_⟩
  · have hset := Pool.sum_map_set (u := { t with held := [] })
      (fun t => (t.held : Multiset (Item α))) ht
    rw [Multiset.coe_nil, add_zero] at hset
    rw [← hsum, Box.hand, List.flatten_append, ← Multiset.coe_add, add_assoc]
    simp only [List.flatten_singleton]
    rw [add_comm (t.held : Multiset (Item α))]
    exact congrArg _ hset
  · exact Pool.forall_set h.batches (List.nil_sublist _)
  · rw [Box.count, Box.hand, Box.count_set ht, h.complete a k]
    split_ifs with ha
    · subst ha
      rw [Box.count, ht]
      rfl
    · rfl

theorem Inv.mem_accepted (h : Inv b) {x : Item α} (hx : x ∈ b.sent.flatten ∨ x ∈ b.held) :
    x ∈ b.accepted := by
  obtain ⟨front, hfront, hsum⟩ := h.conserved
  have hx : x ∈ (b.sent.flatten : Multiset (Item α)) + b.held := Multiset.mem_add.mpr hx
  rw [hsum, Multiset.mem_coe] at hx
  rw [hfront]
  exact List.mem_append_left _ hx

theorem Inv.earlier (h : Inv b) {x : Item α} (hx : x ∈ b.held) {k : ℕ} (hk : k < x.seq) :
    ∃ y, y.sender = x.sender ∧ y.seq = k ∧ (y ∈ b.sent.flatten ∨ y ∈ b.held) := by
  obtain ⟨front, hfront, hsum⟩ := h.conserved
  have hxacc := h.mem_accepted (.inr hx)
  have hcount : x.seq < b.count x.sender := (h.complete _ _).mp ⟨x, hxacc, rfl, rfl⟩
  obtain ⟨y, hy, hsender, hseq⟩ := (h.complete x.sender k).mpr (hk.trans hcount)
  have hxfront : x ∈ front := by
    rw [← Multiset.mem_coe, ← hsum]
    exact Multiset.mem_add.mpr (.inr hx)
  refine ⟨y, hsender, hseq, ?_⟩
  have hord := h.ordered
  rw [hfront] at hy hord
  rcases List.mem_append.mp hy with hy | hy
  · rw [← Multiset.mem_coe, ← hsum] at hy
    exact Multiset.mem_add.mp hy
  · have := (List.pairwise_append.mp hord).2.2 x hxfront y hy hsender.symm
    omega

theorem append_eq_append_cons {β : Type*} {l m pre post : List β} {x : β}
    (h : l ++ m = pre ++ x :: post) :
    (∃ c, pre = l ++ c ∧ m = c ++ x :: post) ∨ ∃ c, l = pre ++ x :: c := by
  rcases List.append_eq_append_iff.mp h with hc | ⟨c, hl, hrest⟩
  · exact .inl hc
  · cases c with
    | nil => exact .inl ⟨[], by simpa using hl.symm, hrest.symm⟩
    | cons z c =>
      obtain ⟨rfl, -⟩ := List.cons.inj hrest
      exact .inr ⟨c, hl⟩

theorem inOrder_hand (h : Inv b) (ho : InOrder b.sent) (ht : b.threads[i]? = some t)
    (hclear : b.Clear i t.held) : InOrder (b.hand i t).sent := by
  intro pre x post heq k hk
  rw [Box.hand, List.flatten_append, List.flatten_singleton] at heq
  rcases append_eq_append_cons heq with ⟨c, hpre, hheld⟩ | ⟨c, hsent⟩
  · have hx : x ∈ t.held := by simp [hheld]
    obtain ⟨y, hsender, hseq, hy⟩ := h.earlier (Pool.mem_sum_map.mpr ⟨i, t, ht, hx⟩) hk
    refine ⟨y, ?_, hsender, hseq⟩
    rw [hpre]
    rcases hy with hy | hy
    · exact List.mem_append_left _ hy
    · obtain ⟨j, u, hu, hy⟩ := Pool.mem_sum_map.mp hy
      by_cases hji : j = i
      · -- in the same batch, where the earlier item comes first
        subst hji
        rw [ht, Option.some.injEq] at hu
        subst hu
        have hord := h.ordered.sublist (h.batches t (List.mem_of_getElem? ht))
        rw [hheld] at hy hord
        rcases List.mem_append.mp hy with hy | hy
        · exact List.mem_append_right _ hy
        · rcases List.mem_cons.mp hy with rfl | hy
          · omega
          · have := (List.pairwise_cons.mp (List.pairwise_append.mp hord).2.1).1 y hy hsender.symm
            omega
      · exact absurd (hseq ▸ hk) (hclear j u hji hu y hy x hx hsender)
  · exact ho pre x c hsent k hk

theorem Inv.nodup (h : Inv b) : ((b.sent.flatten : Multiset (Item α)) + b.held).Nodup := by
  obtain ⟨front, hfront, hsum⟩ := h.conserved
  have hnodup : b.accepted.Nodup := h.ordered.imp fun hxy heq => absurd (hxy (by rw [heq])) (by simp [heq])
  rw [hsum, Multiset.coe_nodup]
  rw [hfront] at hnodup
  exact (List.nodup_append.mp hnodup).1

theorem Inv.eq_of_key (h : Inv b) {x y : Item α} (hx : x ∈ b.accepted) (hy : y ∈ b.accepted)
    (hsender : x.sender = y.sender) (hseq : x.seq = y.seq) : x = y := by
  by_contra hne
  have hkeys : b.accepted.Pairwise fun x y => x.sender = y.sender → x.seq ≠ y.seq :=
    h.ordered.imp fun hxy hs => (hxy hs).ne
  have hsymm : Std.Symm fun x y : Item α => x.sender = y.sender → x.seq ≠ y.seq :=
    ⟨fun _ _ hxy hs he => hxy hs.symm he.symm⟩
  exact hkeys.forall hx hy hne hsender hseq

theorem not_inOrder_hand (h : Inv b) (ht : b.threads[i]? = some t) (hbad : ¬ b.Clear i t.held) :
    ¬ InOrder (b.hand i t).sent := by
  intro ho
  unfold Box.Clear at hbad
  push Not at hbad
  obtain ⟨j, u, hji, hu, y, hy, x, hx, hsender, hseq⟩ := hbad
  obtain ⟨c, post, hheld⟩ := List.append_of_mem hx
  have hyheld : y ∈ b.held := Pool.mem_sum_map.mpr ⟨j, u, hu, hy⟩
  obtain ⟨z, hz, hzsender, hzseq⟩ := ho (b.sent.flatten ++ c) x post
    (by simp [Box.hand, hheld]) y.seq hseq
  have hz : z ∈ b.sent.flatten ∨ z ∈ t.held := by
    rcases List.mem_append.mp hz with hz | hz
    · exact .inl hz
    · exact .inr (by simp [hheld, hz])
  -- the item handed over and the one still in hand are the same
  have hzacc : z ∈ b.accepted := h.mem_accepted
    (hz.imp_right fun hz => Pool.mem_sum_map.mpr ⟨i, t, ht, hz⟩)
  obtain rfl : z = y := h.eq_of_key hzacc (h.mem_accepted (.inr hyheld))
    (hzsender.trans hsender.symm) hzseq
  have hnodup := Multiset.nodup_add.mp h.nodup
  rcases hz with hz | hz
  · exact Multiset.disjoint_left.mp hnodup.2.2 hz hyheld
  · have hle := Pool.add_le_sum (fun t => (t.held : Multiset (Item α))) ht hu hji.symm
    exact Multiset.disjoint_left.mp (Multiset.nodup_add.mp (Multiset.nodup_of_le hle hnodup.2.1)).2.2 hz hy

end Outbox

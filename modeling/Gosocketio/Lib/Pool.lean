import Mathlib.Algebra.BigOperators.Group.List.Basic
import Mathlib.Algebra.Order.BigOperators.Group.List
import Mathlib.Algebra.Order.Group.Multiset
import Mathlib.Tactic.Abel

/-! A pool of threads, kept as a list; a step of thread `i` replaces its state
with `List.set`. The lemmas say how a sum, a count or a bound over the pool
changes when one thread moves. -/

namespace Pool

variable {T : Type*} {ts : List T} {t u : T} {i : ℕ}

theorem forall_set {P : T → Prop} (h : ∀ x ∈ ts, P x) (hu : P u) : ∀ x ∈ ts.set i u, P x := by
  intro x hx
  rcases List.mem_or_eq_of_mem_set hx with hx | rfl
  · exact h x hx
  · exact hu

theorem set_self (h : ts[i]? = some t) : ts.set i t = ts := by
  obtain ⟨hi, rfl⟩ := List.getElem?_eq_some_iff.mp h
  exact List.set_getElem_self hi

theorem mem_set_of_ne {x : T} (h : ts[i]? = some t) (hx : x ∈ ts) (hne : x ≠ t) :
    x ∈ ts.set i u := by
  obtain ⟨j, hj⟩ := List.mem_iff_getElem?.mp hx
  have hij : i ≠ j := by
    rintro rfl
    rw [h, Option.some.injEq] at hj
    exact hne hj.symm
  refine List.mem_of_getElem? (i := j) ?_
  rw [List.getElem?_set_ne hij, hj]

theorem mem_set_self (h : ts[i]? = some t) : u ∈ ts.set i u := by
  obtain ⟨hlt, -⟩ := List.getElem?_eq_some_iff.mp h
  exact List.mem_of_getElem? (List.getElem?_set_self hlt)

/-- What the other threads contribute stays when one thread moves. -/
theorem exists_sum_map_set {M : Type*} [AddCommMonoid M] (f : T → M) (h : ts[i]? = some t) (u : T) :
    ∃ r, (ts.map f).sum = r + f t ∧ ((ts.set i u).map f).sum = r + f u := by
  induction ts generalizing i with
  | nil => simp at h
  | cons x xs ih =>
    cases i with
    | zero =>
      rw [List.getElem?_cons_zero, Option.some.injEq] at h
      refine ⟨(xs.map f).sum, ?_, ?_⟩
      · rw [List.map_cons, List.sum_cons, h, add_comm]
      · rw [List.set_cons_zero, List.map_cons, List.sum_cons, add_comm]
    | succ i =>
      obtain ⟨r, ht, hu⟩ := ih h
      refine ⟨f x + r, ?_, ?_⟩
      · rw [List.map_cons, List.sum_cons, ht, add_assoc]
      · rw [List.set_cons_succ, List.map_cons, List.sum_cons, hu, add_assoc]

theorem sum_map_set {M : Type*} [AddCommMonoid M] (f : T → M) (h : ts[i]? = some t) :
    ((ts.set i u).map f).sum + f t = (ts.map f).sum + f u := by
  obtain ⟨r, ht, hu⟩ := exists_sum_map_set f h u
  rw [ht, hu, add_right_comm]

section Stacks

variable {A M : Type*} [AddCommMonoid M] {ts : List (List A)} {a : A} {as bs : List A}

/-- What the threads have before them, when each thread is the list of what it has yet to do. -/
def load (f : A → M) (ts : List (List A)) : M := (ts.map fun as => (as.map f).sum).sum

@[simp] theorem load_nil (f : A → M) : load f [] = 0 := rfl

theorem load_append (f : A → M) (ts us : List (List A)) : load f (ts ++ us) = load f ts + load f us := by
  rw [load, List.map_append, List.sum_append, load, load]

@[simp] theorem load_singleton (f : A → M) (as : List A) : load f [as] = (as.map f).sum := by
  simp [load]

/-- A thread does the first thing it has before it, and has the things `bs` before the rest then. -/
theorem exists_load_set (f : A → M) (h : ts[i]? = some (a :: as)) (bs : List A) :
    ∃ r, load f ts = r + f a ∧ load f (ts.set i (bs ++ as)) = r + (bs.map f).sum := by
  obtain ⟨r, hold, hnew⟩ := exists_sum_map_set (fun as => (as.map f).sum) h (bs ++ as)
  refine ⟨r + (as.map f).sum, ?_, ?_⟩
  · rw [load, hold, List.map_cons, List.sum_cons]
    abel
  · rw [load, hnew, List.map_append, List.sum_append]
    abel

end Stacks

theorem mem_sum_map {β : Type*} {x : β} {f : T → Multiset β} :
    x ∈ (ts.map f).sum ↔ ∃ (j : ℕ) (u : T), ts[j]? = some u ∧ x ∈ f u := by
  induction ts with
  | nil => simp
  | cons y ts ih =>
    rw [List.map_cons, List.sum_cons, Multiset.mem_add, ih]
    constructor
    · rintro (hy | ⟨j, u, hj, hu⟩)
      · exact ⟨0, y, rfl, hy⟩
      · exact ⟨j + 1, u, hj, hu⟩
    · rintro ⟨j, u, hj, hu⟩
      cases j with
      | zero =>
        rw [List.getElem?_cons_zero, Option.some.injEq] at hj
        exact .inl (hj ▸ hu)
      | succ j => exact .inr ⟨j, u, hj, hu⟩

theorem mem_load {A β : Type*} {x : β} {f : A → Multiset β} {ts : List (List A)} :
    x ∈ load f ts ↔ ∃ as ∈ ts, ∃ a ∈ as, x ∈ f a := by
  simp only [load, mem_sum_map]
  constructor
  · rintro ⟨j, as, hj, k, a, hk, hx⟩
    exact ⟨as, List.mem_of_getElem? hj, a, List.mem_of_getElem? hk, hx⟩
  · rintro ⟨as, has, a, ha, hx⟩
    obtain ⟨j, hj⟩ := List.mem_iff_getElem?.mp has
    obtain ⟨k, hk⟩ := List.mem_iff_getElem?.mp ha
    exact ⟨j, as, hj, k, a, hk, hx⟩

/-- What two threads contribute is part of the sum. -/
theorem add_le_sum {M : Type*} [AddCommMonoid M] [PartialOrder M] [IsOrderedAddMonoid M]
    [CanonicallyOrderedAdd M] (f : T → M) {j : ℕ} (hi : ts[i]? = some t) (hj : ts[j]? = some u)
    (hne : i ≠ j) : f t + f u ≤ (ts.map f).sum := by
  have hsum {xs : List T} {x : T} {k : ℕ} (h : xs[k]? = some x) : f x ≤ (xs.map f).sum :=
    List.le_sum_of_mem (List.mem_map_of_mem (List.mem_of_getElem? h))
  induction ts generalizing i j with
  | nil => simp at hi
  | cons x xs ih =>
    cases i with
    | zero =>
      cases j with
      | zero => exact absurd rfl hne
      | succ j =>
        rw [List.getElem?_cons_zero, Option.some.injEq] at hi
        rw [List.getElem?_cons_succ] at hj
        rw [hi]
        exact add_le_add_right (hsum hj) _
    | succ i =>
      rw [List.getElem?_cons_succ] at hi
      cases j with
      | zero =>
        rw [List.getElem?_cons_zero, Option.some.injEq] at hj
        rw [hj, add_comm]
        exact add_le_add_right (hsum hi) _
      | succ j =>
        exact le_add_left (ih hi hj fun h => hne (by rw [h]))

section Attributed

variable {O : Type*} {left : T → List O} {calls : List (List O)} {done : List (ℕ × O)}

/-- What one thread has done, in its order. -/
def own (i : ℕ) (done : List (ℕ × O)) : List O := (done.filter (·.1 = i)).map Prod.snd

theorem own_append (done done' : List (ℕ × O)) : own i (done ++ done') = own i done ++ own i done' := by
  rw [own, List.filter_append, List.map_append, own, own]

@[simp] theorem own_map (i j : ℕ) (os : List O) : own j (os.map (i, ·)) = if i = j then os else [] := by
  induction os with
  | nil => simp [own]
  | cons o os ih =>
    rw [List.map_cons, ← List.singleton_append, own_append, ih]
    by_cases h : i = j <;> simp [own, h]

/-- Thread `i` was started for call `i`, and what it has done, followed by what it has left to do,
is what the call is for. -/
structure Attributed (left : T → List O) (calls : List (List O)) (done : List (ℕ × O)) (ts : List T) : Prop where
  length : ts.length = calls.length
  each : ∀ i, own i done ++ (ts[i]?).elim [] left = (calls[i]?).getD []

theorem attributed_nil (left : T → List O) : Attributed left [] [] [] := ⟨rfl, fun _ => rfl⟩

section

variable (h : Attributed left calls done ts)

include h

theorem Attributed.start (t : T) : Attributed left (calls ++ [left t]) done (ts ++ [t]) := by
  refine ⟨by simp [h.length], fun i => ?_⟩
  have heach := h.each i
  rcases lt_trichotomy i ts.length with hi | rfl | hi
  · rw [List.getElem?_append_left hi, List.getElem?_append_left (h.length ▸ hi), heach]
  · -- nothing was done for a call that had not been made
    rw [List.getElem?_eq_none le_rfl, h.length, List.getElem?_eq_none le_rfl] at heach
    rw [List.getElem?_concat_length, h.length, List.getElem?_concat_length]
    simpa using heach
  · rw [List.getElem?_eq_none (by rw [List.length_append]; exact hi),
      List.getElem?_eq_none (by rw [List.length_append, ← h.length]; exact hi)]
    rwa [List.getElem?_eq_none hi.le, List.getElem?_eq_none (h.length ▸ hi.le)] at heach

theorem Attributed.set (hi : ts[i]? = some t) (os : List O)
    (hleft : left t = os ++ left u) : Attributed left calls (done ++ os.map (i, ·)) (ts.set i u) := by
  refine ⟨by rw [List.length_set, h.length], fun j => ?_⟩
  rw [← h.each j, own_append, own_map]
  split_ifs with hij
  · subst hij
    obtain ⟨hlt, -⟩ := List.getElem?_eq_some_iff.mp hi
    rw [List.getElem?_set_self hlt, hi, Option.elim_some, Option.elim_some, hleft, List.append_assoc]
  · rw [List.getElem?_set_ne hij, List.append_nil]

theorem Attributed.set_same (hi : ts[i]? = some t) (hleft : left t = left u) :
    Attributed left calls done (ts.set i u) := by
  simpa using h.set hi [] hleft

theorem Attributed.map (f : T → T) (hf : ∀ t, left (f t) = left t) :
    Attributed left calls done (ts.map f) := by
  refine ⟨by rw [List.length_map, h.length], fun i => ?_⟩
  rw [← h.each i, List.getElem?_map]
  cases ts[i]? with
  | none => rfl
  | some t => exact congrArg (own i done ++ ·) (hf t)

end

end Attributed

section Count

variable {p : T → Bool}

theorem countP_set_le (h : ts[i]? = some t) (hu : p u = true → p t = true) :
    (ts.set i u).countP p ≤ ts.countP p := by
  induction ts generalizing i with
  | nil => simp at h
  | cons x xs ih =>
    cases i with
    | zero =>
      rw [List.getElem?_cons_zero, Option.some.injEq] at h
      subst h
      rw [List.set_cons_zero, List.countP_cons, List.countP_cons]
      cases hp : p u with
      | false => simp
      | true => simp [hu hp]
    | succ i =>
      rw [List.set_cons_succ, List.countP_cons, List.countP_cons]
      exact Nat.add_le_add_right (ih h) _

/-- At most one thread counts exactly if two that count are at one place. -/
theorem countP_le_one_iff : ts.countP p ≤ 1 ↔
    ∀ (i j : ℕ) (t u : T), ts[i]? = some t → ts[j]? = some u → p t = true → p u = true → i = j := by
  induction ts with
  | nil => simp
  | cons x xs ih =>
    rw [List.countP_cons]
    cases hx : p x with
    | false =>
      simp only [Bool.false_eq_true, if_false, Nat.add_zero]
      rw [ih]
      constructor
      · intro h i j t u hi hj ht hu
        cases i with
        | zero =>
          rw [List.getElem?_cons_zero, Option.some.injEq] at hi
          rw [← hi, hx] at ht
          cases ht
        | succ i =>
          cases j with
          | zero =>
            rw [List.getElem?_cons_zero, Option.some.injEq] at hj
            rw [← hj, hx] at hu
            cases hu
          | succ j => exact congrArg (· + 1) (h i j t u hi hj ht hu)
      · intro h i j t u hi hj ht hu
        exact Nat.succ.inj (h (i + 1) (j + 1) t u hi hj ht hu)
    | true =>
      have hnone : xs.countP p + (if true = true then 1 else 0) ≤ 1 ↔ ∀ y ∈ xs, ¬ p y = true := by
        rw [if_pos rfl, ← List.countP_eq_zero]
        omega
      rw [hnone]
      constructor
      · intro h i j t u hi hj ht hu
        have hzero {k : ℕ} {y : T} (hk : (x :: xs)[k]? = some y) (hy : p y = true) : k = 0 := by
          cases k with
          | zero => rfl
          | succ k => exact absurd hy (h y (List.mem_of_getElem? hk))
        rw [hzero hi ht, hzero hj hu]
      · intro h y hy hpy
        obtain ⟨k, hk⟩ := List.mem_iff_getElem?.mp hy
        exact Nat.succ_ne_zero k (h (k + 1) 0 y x hk rfl hpy hx)

end Count

end Pool

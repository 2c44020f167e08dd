import Gosocketio.Lib.Pool

/-! Threads that share a state. A thread is the stack of what it has yet to do; doing the
topmost thing changes the shared state, may put further things on the stack, and may
start threads. -/

namespace Stacks

open Pool

/-- The shared state and the stacks. -/
structure Threads (S A : Type*) where
  shared : S
  tasks : List (List A)
  deriving DecidableEq, Repr

variable {S A : Type*} {run : S → A → Option (S × List A × List (List A))} {w w' : Threads S A} {i : ℕ}

/-- Thread `i` does the topmost thing of its stack. -/
def go (run : S → A → Option (S × List A × List (List A))) (w : Threads S A) (i : ℕ) :
    Option (Threads S A) :=
  match w.tasks[i]? with
  | some (a :: as) => (run w.shared a).map fun (s, bs, new) => ⟨s, w.tasks.set i (bs ++ as) ++ new⟩
  | _ => none

theorem go_eq_some (h : go run w i = some w') : ∃ a as s bs new,
    w.tasks[i]? = some (a :: as) ∧ run w.shared a = some (s, bs, new) ∧
      w' = ⟨s, w.tasks.set i (bs ++ as) ++ new⟩ := by
  unfold go at h
  split at h
  · rename_i a as hi
    obtain ⟨⟨s, bs, new⟩, hrun, rfl⟩ := Option.map_eq_some_iff.mp h
    exact ⟨a, as, s, bs, new, hi, hrun, rfl⟩
  · cases h

/-- A thread that can do the topmost thing of its stack does it, and goes on with the rest. -/
theorem exists_go {a : A} {as bs : List A} {s : S} {new : List (List A)} (hi : w.tasks[i]? = some (a :: as))
    (hrun : run w.shared a = some (s, bs, new)) :
    ∃ w', go run w i = some w' ∧ w'.shared = s ∧ w'.tasks[i]? = some (bs ++ as) := by
  obtain ⟨hlt, -⟩ := List.getElem?_eq_some_iff.mp hi
  refine ⟨⟨s, w.tasks.set i (bs ++ as) ++ new⟩, ?_, rfl, ?_⟩
  · simp only [go, hi, hrun, Option.map_some]
  · rw [List.getElem?_append_left (by rwa [List.length_set]), List.getElem?_set_self hlt]

theorem run_inj {s s' : S} {as as' : List A} {new new' : List (List A)}
    (h : some (s, as, new) = some (s', as', new')) : s = s' ∧ as = as' ∧ new = new' := by
  cases h
  exact ⟨rfl, rfl, rfl⟩

/-- Everything on the stacks is of one kind. -/
def Every (P : A → Prop) (ts : List (List A)) : Prop := ∀ as ∈ ts, ∀ a ∈ as, P a

section Every

variable {P Q : A → Prop} {ts us : List (List A)} {a : A} {as bs : List A}

instance [DecidablePred P] : Decidable (Every P ts) := inferInstanceAs (Decidable (∀ as ∈ ts, ∀ a ∈ as, P a))

@[simp] theorem every_nil : Every P ([] : List (List A)) := nofun

@[simp] theorem every_cons : Every P (as :: ts) ↔ (∀ a ∈ as, P a) ∧ Every P ts := List.forall_mem_cons

@[simp] theorem every_append : Every P (ts ++ us) ↔ Every P ts ∧ Every P us := List.forall_mem_append

theorem Every.mono (h : Every P ts) (himp : ∀ a, P a → Q a) : Every Q ts :=
  fun as has a ha => himp a (h as has a ha)

theorem Every.head (h : Every P ts) (hi : ts[i]? = some (a :: as)) : P a :=
  h _ (List.mem_of_getElem? hi) a List.mem_cons_self

theorem Every.set (h : Every P ts) (hi : ts[i]? = some (a :: as)) (hbs : ∀ b ∈ bs, P b) :
    Every P (ts.set i (bs ++ as)) := by
  refine forall_set h (List.forall_mem_append.mpr ⟨hbs, ?_⟩)
  exact fun b hb => h _ (List.mem_of_getElem? hi) b (List.mem_cons_of_mem a hb)

theorem Every.push {t : List A} (hi : ts[i]? = some t) (h : Every P (ts.set i as)) (hbs : ∀ b ∈ bs, P b) :
    Every P (ts.set i (bs ++ as)) := by
  rw [← List.set_set as]
  exact forall_set h (List.forall_mem_append.mpr ⟨hbs, h as (mem_set_self hi)⟩)

/-- What a thread does next. -/
def next? (ts : List (List A)) (i : ℕ) : Option A := (ts[i]?).bind List.head?

theorem next?_eq_some (hi : ts[i]? = some (a :: as)) : next? ts i = some a := by
  rw [next?, hi]
  rfl

end Every

section Followed

variable {P : A → Prop} {a b : A} {as bs : List A} {ts : List (List A)}

/-- Whatever is of one kind has a `b` below it on the stack. -/
def Followed (P : A → Prop) (b : A) : List A → Prop
  | [] => True
  | a :: as => (P a → b ∈ as) ∧ Followed P b as

theorem Followed.append (hbs : Followed P b bs) (has : Followed P b as) : Followed P b (bs ++ as) := by
  induction bs with
  | nil => exact has
  | cons c bs ih => exact ⟨fun hc => List.mem_append_left _ (hbs.1 hc), ih hbs.2⟩

theorem Followed.of_mem (hb : b ∈ as) (has : Followed P b as) : Followed P b (bs ++ as) := by
  induction bs with
  | nil => exact has
  | cons c bs ih => exact ⟨fun _ => List.mem_append_right _ hb, ih⟩

theorem Followed.of_forall_not (h : ∀ a ∈ as, ¬ P a) : Followed P b as := by
  induction as with
  | nil => trivial
  | cons a as ih =>
    rw [List.forall_mem_cons] at h
    exact ⟨fun ha => absurd ha h.1, ih h.2⟩

theorem Followed.mem (h : Followed P b as) (ha : a ∈ as) (hP : P a) : b ∈ as := by
  induction as with
  | nil => cases ha
  | cons c as ih =>
    rcases List.mem_cons.mp ha with rfl | ha
    · exact List.mem_cons_of_mem _ (h.1 hP)
    · exact List.mem_cons_of_mem _ (ih h.2 ha)

end Followed

section Guarded

variable {need gives need' gives' : A → Prop} {P Q : Prop} {as bs : List A}

/-- Whatever needs something has one above it on the stack that gives it, unless `P`. -/
def Guarded (need gives : A → Prop) : Prop → List A → Prop
  | _, [] => True
  | P, a :: as => (need a → P) ∧ Guarded need gives (P ∨ gives a) as

theorem Guarded.mono (h : Guarded need gives P as) (hP : P → Q) (hneed : ∀ a ∈ as, need' a → need a)
    (hgives : ∀ a ∈ as, gives a → gives' a) : Guarded need' gives' Q as := by
  induction as generalizing P Q with
  | nil => trivial
  | cons a as ih =>
    rw [List.forall_mem_cons] at hneed hgives
    exact ⟨fun ha => hP (h.1 (hneed.1 ha)), ih h.2 (Or.imp hP hgives.1) hneed.2 hgives.2⟩

theorem Guarded.of_forall (h : ∀ a ∈ as, need a → P) : Guarded need gives P as := by
  induction as generalizing P with
  | nil => trivial
  | cons a as ih =>
    rw [List.forall_mem_cons] at h
    exact ⟨h.1, ih fun b hb hneed => .inl (h.2 b hb hneed)⟩

theorem Guarded.of_forall_not (h : ∀ a ∈ as, ¬ need a) : Guarded need gives P as :=
  .of_forall fun a ha hneed => absurd hneed (h a ha)

theorem Guarded.append (hbs : Guarded need gives P bs) (has : Guarded need gives (P ∨ ∃ b ∈ bs, gives b) as) :
    Guarded need gives P (bs ++ as) := by
  induction bs generalizing P with
  | nil => exact has.mono (fun h => h.elim id nofun) (fun _ _ => id) fun _ _ => id
  | cons b bs ih =>
    refine ⟨hbs.1, ih hbs.2 (has.mono ?_ (fun _ _ => id) fun _ _ => id)⟩
    rintro (hP | ⟨c, hc, hgives⟩)
    · exact .inl (.inl hP)
    · rcases List.mem_cons.mp hc with rfl | hc
      · exact .inl (.inr hgives)
      · exact .inr ⟨c, hc, hgives⟩

end Guarded

section Load

variable {M : Type*} [AddCommMonoid M] {ts new : List (List A)} {a : A} {as : List A}

/-- A thread has done its topmost thing, -/
theorem load_pop (f : A → M) (hi : ts[i]? = some (a :: as)) : load f ts = load f (ts.set i as) + f a := by
  obtain ⟨r, hold, hnew⟩ := exists_sum_map_set (fun as => (as.map f).sum) hi as
  rw [load, hold, load, hnew, List.map_cons, List.sum_cons]
  abel

/-- and has more to do before the rest. -/
theorem load_go (f : A → M) (hi : ts[i]? = some (a :: as)) (bs : List A) (new : List (List A)) :
    load f (ts.set i (bs ++ as) ++ new) = load f (ts.set i as) + (bs.map f).sum + load f new := by
  obtain ⟨hlt, -⟩ := List.getElem?_eq_some_iff.mp hi
  have hset : (ts.set i as)[i]? = some as := List.getElem?_set_self hlt
  obtain ⟨r, hold, hnew⟩ := exists_sum_map_set (fun as => (as.map f).sum) hset (bs ++ as)
  change load f (ts.set i as) = _ at hold
  change load f ((ts.set i as).set i (bs ++ as)) = _ at hnew
  rw [List.set_set] at hnew
  rw [load_append, hnew, hold, List.map_append, List.sum_append]
  abel

/-- How the load changes when a thread does one thing. -/
theorem exists_load_go (f : A → M) (hi : ts[i]? = some (a :: as)) (bs : List A)
    (new : List (List A)) :
    ∃ r, load f ts = r + f a ∧
      load f (ts.set i (bs ++ as) ++ new) = r + (bs.map f).sum + load f new :=
  ⟨load f (ts.set i as), load_pop f hi, load_go f hi bs new⟩

theorem load_eq_zero {f : A → M} (h : Every (fun a => f a = 0) ts) : load f ts = 0 := by
  refine List.sum_eq_zero (List.forall_mem_map.mpr fun as has => ?_)
  exact List.sum_eq_zero (List.forall_mem_map.mpr (h as has))

theorem every_of_load_eq_zero {B : Type*} {f : A → Multiset B} (h : load f ts = 0) :
    Every (fun a => f a = 0) ts := by
  refine fun as has a ha => Multiset.eq_zero_of_forall_notMem fun x hx => ?_
  have hmem : x ∈ load f ts := mem_load.mpr ⟨as, has, a, ha, hx⟩
  rw [h] at hmem
  exact Multiset.notMem_zero x hmem

theorem le_load [PartialOrder M] [IsOrderedAddMonoid M] [CanonicallyOrderedAdd M] (f : A → M)
    (has : as ∈ ts) (ha : a ∈ as) : f a ≤ load f ts :=
  calc f a ≤ (as.map f).sum := List.le_sum_of_mem (List.mem_map_of_mem ha)
    _ ≤ load f ts := List.le_sum_of_mem (List.mem_map_of_mem (f := fun as => (as.map f).sum) has)

end Load

end Stacks

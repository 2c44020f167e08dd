import Gosocketio.Lib.Pool
import Gosocketio.Lib.Runs
import Mathlib.Data.ENat.Basic

/-! Critical sections of one mutex with one condition variable. A section goes through, or it
waits until another thread notifies it and then tests its condition again. Any number of
threads call sections at any time, and which of those that wait a signal wakes is not known. -/

namespace CondVar

open Pool Runs

variable {n : Notify}

/-- What a thread does about those that wait once it has released the mutex. -/
inductive Notify where
  | nothing
  | signal
  | broadcast
  deriving DecidableEq, Repr

/-- Where a thread is: before a section, waiting in it, behind it, or done. -/
inductive Thread (A : Type*) where
  | enter (a : A)
  | asleep (a : A)
  | notify (n : Notify)
  | done
  deriving DecidableEq, Repr

/-- What comes of a section that goes through. -/
structure Outcome (S : Type*) where
  shared : S
  after : Notify := .nothing
  deriving DecidableEq, Repr

structure State (S A : Type*) where
  shared : S
  threads : List (Thread A) := []
  deriving DecidableEq, Repr

/-- `w` is the thread that a signal wakes, if there is one. -/
inductive Act (A : Type*) where
  | call (a : A)
  | enter (i : ℕ)
  | notify (i w : ℕ)
  deriving DecidableEq, Repr

variable {S A : Type*}

def Thread.isAsleep : Thread A → Bool
  | .asleep _ => true
  | _ => false

def Thread.wake : Thread A → Thread A
  | .asleep a => .enter a
  | t => t

def Act.isCall : Act A → Bool
  | .call _ => true
  | _ => false

def Notify.wakeUp (w : ℕ) (ts : List (Thread A)) : Notify → Option (List (Thread A))
  | .nothing => some ts
  | .signal =>
    if ts.any Thread.isAsleep then
      match ts[w]? with
      | some (.asleep a) => some (ts.set w (.enter a))
      | _ => none
    else some ts
  | .broadcast => some (ts.map Thread.wake)

/-- `run` gives nothing for a section that waits. -/
def step (run : S → A → Option (Outcome S)) (m : State S A) : Act A → Option (State S A)
  | .call a => some { m with threads := m.threads ++ [.enter a] }
  | .enter i =>
    match m.threads[i]? with
    | some (.enter a) =>
      match run m.shared a with
      | none => some { m with threads := m.threads.set i (.asleep a) }
      | some o => some ⟨o.shared, m.threads.set i (.notify o.after)⟩
    | _ => none
  | .notify i w =>
    match m.threads[i]? with
    | some (.notify n) => (n.wakeUp w (m.threads.set i .done)).map ({ m with threads := · })
    | _ => none

section Inversion

variable {run : S → A → Option (Outcome S)} {m m' : State S A} {l : Act A}

/-- What a step can be. -/
inductive Move (run : S → A → Option (Outcome S)) (m : State S A) : Act A → State S A → Prop
  | call (a : A) : Move run m (.call a) { m with threads := m.threads ++ [.enter a] }
  | sleep {i a} : m.threads[i]? = some (.enter a) → run m.shared a = none →
      Move run m (.enter i) { m with threads := m.threads.set i (.asleep a) }
  | leave {i a o} : m.threads[i]? = some (.enter a) → run m.shared a = some o →
      Move run m (.enter i) ⟨o.shared, m.threads.set i (.notify o.after)⟩
  | notify {i n w ts} : m.threads[i]? = some (.notify n) → n.wakeUp w (m.threads.set i .done) = some ts →
      Move run m (.notify i w) { m with threads := ts }

theorem move_of_step (h : step run m l = some m') : Move run m l m' := by
  cases l with
  | call a =>
    cases h
    exact .call a
  | enter i =>
    rw [step] at h
    split at h
    · rename_i a hi
      split at h <;> cases h
      · exact .sleep hi ‹_›
      · exact .leave hi ‹_›
    · cases h
  | notify i w =>
    rw [step] at h
    split at h
    · obtain ⟨ts, hts, rfl⟩ := Option.map_eq_some_iff.mp h
      exact .notify ‹_› hts
    · cases h

/-- What a notification can do: one that waits is woken, or all are, or nothing happens; and
nothing happens to a signal only if none waits. -/
theorem wakeUp_cases {w : ℕ} {ts ts' : List (Thread A)} (h : n.wakeUp w ts = some ts') :
    (n = .signal ∧ ∃ a, ts[w]? = some (.asleep a) ∧ ts' = ts.set w (.enter a)) ∨
    (n = .signal ∧ (∀ t ∈ ts, t.isAsleep = false) ∧ ts' = ts) ∨
    (n = .nothing ∧ ts' = ts) ∨ (n = .broadcast ∧ ts' = ts.map Thread.wake) := by
  cases n with
  | nothing => exact .inr (.inr (.inl ⟨rfl, (Option.some.inj h).symm⟩))
  | broadcast => exact .inr (.inr (.inr ⟨rfl, (Option.some.inj h).symm⟩))
  | signal =>
    simp only [Notify.wakeUp] at h
    split at h
    · split at h
      · exact .inl ⟨rfl, _, ‹_›, (Option.some.inj h).symm⟩
      · cases h
    · rename_i hany
      refine .inr (.inl ⟨rfl, ?_, (Option.some.inj h).symm⟩)
      simpa using hany

theorem exists_step (run : S → A → Option (Outcome S)) {t : Thread A} (ht : t ∈ m.threads)
    (hawake : t.isAsleep = false) (hdone : t ≠ .done) :
    ∃ l, l.isCall = false ∧ (step run m l).isSome = true := by
  obtain ⟨i, hi⟩ := List.mem_iff_getElem?.mp ht
  cases t with
  | asleep a => simp [Thread.isAsleep] at hawake
  | done => exact absurd rfl hdone
  | enter a =>
    refine ⟨.enter i, rfl, ?_⟩
    simp only [step, hi]
    split <;> rfl
  | notify n =>
    cases n with
    | nothing | broadcast => exact ⟨.notify i 0, rfl, by simp [step, hi, Notify.wakeUp]⟩
    | signal =>
      by_cases hany : (m.threads.set i .done).any Thread.isAsleep = true
      · -- the signal wakes one of those that wait
        obtain ⟨u, hu, hasleep⟩ := List.any_eq_true.mp hany
        obtain ⟨w, hw⟩ := List.mem_iff_getElem?.mp hu
        cases u with
        | asleep a => exact ⟨.notify i w, rfl, by simp [step, hi, Notify.wakeUp, hany, hw]⟩
        | enter | notify | done => simp [Thread.isAsleep] at hasleep
      · exact ⟨.notify i 0, rfl, by simp [step, hi, Notify.wakeUp, hany]⟩

/-- No thread can go on. -/
def Stuck (run : S → A → Option (Outcome S)) (m : State S A) : Prop :=
  ∀ l : Act A, l.isCall = false → step run m l = none

theorem stuck_iff : Stuck run m ↔ ∀ t ∈ m.threads, t.isAsleep = true ∨ t = .done := by
  constructor
  · intro h t ht
    by_contra hne
    rw [not_or, Bool.not_eq_true] at hne
    obtain ⟨l, hl, hsome⟩ := exists_step run ht hne.1 hne.2
    rw [h l hl] at hsome
    cases hsome
  · intro h l hl
    by_contra hne
    obtain ⟨m', hs⟩ := Option.ne_none_iff_exists'.mp hne
    cases move_of_step hs with
    | call => cases hl
    | sleep hi | leave hi | notify hi =>
      rcases h _ (List.mem_of_getElem? hi) with hasleep | hdone
      · cases hasleep
      · cases hdone

end Inversion

section Completed

variable {run : S → A → Option (Outcome S)} {m m' : State S A} {l : Act A} {ls : List (Act A)}

def Act.called : Act A → Option A
  | .call a => some a
  | _ => none

/-- The section that a thread has not gone through yet. -/
def Thread.left : Thread A → List A
  | .enter a | .asleep a => [a]
  | _ => []

/-- The thread and the section that goes through in a step. -/
def completes (run : S → A → Option (Outcome S)) (m : State S A) : Act A → List (ℕ × A)
  | .enter i =>
    match m.threads[i]? with
    | some (.enter a) => if (run m.shared a).isSome then [(i, a)] else []
    | _ => []
  | .call _ | .notify _ _ => []

/-- The sections that go through in a run, in the order in which they do. -/
def completed (run : S → A → Option (Outcome S)) : State S A → List (Act A) → List (ℕ × A) :=
  observed (step run) (completes run)

theorem attributed_wakeUp {calls : List (List A)} {done : List (ℕ × A)} {ts ts' : List (Thread A)}
    (h : Attributed Thread.left calls done ts) {w : ℕ} (hts : n.wakeUp w ts = some ts') :
    Attributed Thread.left calls done ts' := by
  rcases wakeUp_cases hts with ⟨-, a, hw, rfl⟩ | ⟨-, -, rfl⟩ | ⟨-, rfl⟩ | ⟨-, rfl⟩
  · exact h.set_same hw rfl
  · exact h
  · exact h
  · refine h.map Thread.wake fun t => ?_
    cases t <;> rfl

/-- Every call is of one section, and goes through it once or has it still before it. -/
theorem attributed_of_run {s : S} (h : Run (step run) always ⟨s, []⟩ ls m) :
    Attributed Thread.left ((ls.filterMap Act.called).map ([·])) (completed run ⟨s, []⟩ ls) m.threads := by
  refine h.observing (fun ls done m =>
    Attributed Thread.left ((ls.filterMap Act.called).map ([·])) done m.threads) (attributed_nil _) ?_
  intro ls done m l m' hI _ hs
  rw [List.filterMap_append, List.map_append]
  cases move_of_step hs with
  | call a =>
    rw [completes, List.append_nil]
    exact hI.start (.enter a)
  | @sleep i a hi hrun =>
    have hnone : completes run m (.enter i) = [] := by simp [completes, hi, hrun]
    rw [hnone, List.append_nil]
    exact (List.append_nil _).symm ▸ hI.set_same hi rfl
  | @leave i a o hi hrun =>
    have hsome : completes run m (.enter i) = [a].map (i, ·) := by simp [completes, hi, hrun]
    rw [hsome]
    exact (List.append_nil _).symm ▸ hI.set hi [a] rfl
  | notify hi hts =>
    rw [completes, List.append_nil]
    exact (List.append_nil _).symm ▸ attributed_wakeUp (hI.set_same hi (u := .done) rfl) hts

/-- The sections that went through, one after another, lead to the same shared state. -/
theorem sequential (h : Run (step run) always m ls m') :
    Run (fun s a => (run s a).map Outcome.shared) always m.shared ((completed run m ls).map Prod.snd)
      m'.shared := by
  refine h.observing (fun _ done m' => Run (fun s a => (run s a).map Outcome.shared) always m.shared
    (done.map Prod.snd) m'.shared) .nil ?_
  intro ls done m l m' hI _ hs
  cases move_of_step hs with
  | call | notify => simpa [completes] using hI
  | sleep hi hrun => simpa [completes, hi, hrun] using hI
  | leave hi hrun =>
    have hsnoc := hI.snoc trivial (congrArg (Option.map Outcome.shared) hrun)
    simpa [completes, hi, hrun] using hsnoc

end Completed

@[simp] theorem isAsleep_wake (t : Thread A) : t.wake.isAsleep = false := by
  cases t <;> rfl

theorem isAsleep_of_mem_map_wake {ts : List (Thread A)} {t : Thread A} (h : t ∈ ts.map Thread.wake) :
    t.isAsleep = false := by
  obtain ⟨u, -, rfl⟩ := List.mem_map.mp h
  exact isAsleep_wake u

section Wakeups

variable {run : S → A → Option (Outcome S)} {waits : A → Bool} {avail : S → ℕ∞} {m m' : State S A}
  {ls : List (Act A)} {i : ℕ}

/-- How many of those that wait a notification gets going. -/
def Notify.worth : Notify → ℕ∞
  | .nothing => 0
  | .signal => 1
  | .broadcast => ⊤

/-- How many could go on because of this thread: itself, or those it is about to notify. -/
def credit (waits : A → Bool) : Thread A → ℕ∞
  | .enter a => if waits a then 1 else 0
  | .notify n => n.worth
  | _ => 0

/-- `avail` is how many waiting sections could go through, one after another. A section waits
only if there is nothing for it, and one that makes more available notifies as many. -/
structure Accounts (run : S → A → Option (Outcome S)) (waits : A → Bool) (avail : S → ℕ∞) : Prop where
  sleeps : ∀ s a, run s a = none → waits a = true ∧ avail s = 0
  leaves : ∀ s a o, run s a = some o →
    avail o.shared + (if waits a then 1 else 0) ≤ avail s + o.after.worth
  quiet : ∀ s a o, run s a = some o → waits a = true → o.after = .nothing

/-- While anyone waits, what is available is spoken for. -/
structure Spoken (waits : A → Bool) (avail : S → ℕ∞) (m : State S A) : Prop where
  sleepers : ∀ a, Thread.asleep a ∈ m.threads → waits a = true
  enough : (∃ t ∈ m.threads, t.isAsleep = true) → avail m.shared ≤ (m.threads.map (credit waits)).sum

theorem Spoken.of_awake (h : ∀ t ∈ m.threads, t.isAsleep = false) : Spoken waits avail m where
  sleepers a ha := by simpa [Thread.isAsleep] using h _ ha
  enough hex := by
    obtain ⟨t, ht, hasleep⟩ := hex
    rw [h t ht] at hasleep
    cases hasleep

theorem Spoken.call (h : Spoken waits avail m) (a : A) :
    Spoken waits avail { m with threads := m.threads ++ [.enter a] } where
  sleepers b hb := by
    rcases List.mem_append.mp hb with hb | hb
    · exact h.sleepers b hb
    · simp at hb
  enough hex := by
    obtain ⟨t, ht, hasleep⟩ := hex
    rcases List.mem_append.mp ht with ht | ht
    · rw [List.map_append, List.sum_append]
      exact le_add_right (h.enough ⟨t, ht, hasleep⟩)
    · rw [List.mem_singleton.mp ht] at hasleep
      cases hasleep

theorem Spoken.sleep (h : Spoken waits avail m) (hacc : Accounts run waits avail) {a : A}
    (hrun : run m.shared a = none) :
    Spoken waits avail { m with threads := m.threads.set i (.asleep a) } where
  sleepers b hb := by
    rcases List.mem_or_eq_of_mem_set hb with hb | hb
    · exact h.sleepers b hb
    · cases hb
      exact (hacc.sleeps _ _ hrun).1
  enough _ := by
    rw [(hacc.sleeps _ _ hrun).2]
    exact zero_le

theorem exists_asleep_of_set {ts : List (Thread A)} {u : Thread A} (hu : u.isAsleep = false)
    (h : ∃ t ∈ ts.set i u, t.isAsleep = true) : ∃ t ∈ ts, t.isAsleep = true := by
  obtain ⟨t, ht, hasleep⟩ := h
  rcases List.mem_or_eq_of_mem_set ht with ht | rfl
  · exact ⟨t, ht, hasleep⟩
  · rw [hu] at hasleep
    cases hasleep

theorem Spoken.leave (h : Spoken waits avail m) {a : A} {o : Outcome S}
    (hi : m.threads[i]? = some (.enter a))
    (hle : avail o.shared + (if waits a then 1 else 0) ≤ avail m.shared + o.after.worth) :
    Spoken waits avail ⟨o.shared, m.threads.set i (.notify o.after)⟩ where
  sleepers b hb := by
    rcases List.mem_or_eq_of_mem_set hb with hb | hb
    · exact h.sleepers b hb
    · cases hb
  enough hex := by
    obtain ⟨r, hold, hnew⟩ := exists_sum_map_set (credit waits) hi (.notify o.after)
    have hspoken := h.enough (exists_asleep_of_set rfl hex)
    rw [hold] at hspoken
    rw [hnew]
    -- what the section took for itself is cancelled on both sides
    have hcancel : avail o.shared + (if waits a then 1 else 0) ≤
        r + o.after.worth + (if waits a then 1 else 0) :=
      calc avail o.shared + (if waits a then 1 else 0)
        _ ≤ avail m.shared + o.after.worth := hle
        _ ≤ r + (if waits a then 1 else 0) + o.after.worth := by gcongr; exact hspoken
        _ = r + o.after.worth + (if waits a then 1 else 0) := add_right_comm _ _ _
    have hfinite : (if waits a then 1 else 0 : ℕ∞) ≠ ⊤ := by split <;> simp
    exact (ENat.add_le_add_iff_right hfinite).mp hcancel

theorem Spoken.notify (h : Spoken waits avail m) {i w : ℕ} {ts : List (Thread A)}
    (hi : m.threads[i]? = some (.notify n)) (hts : n.wakeUp w (m.threads.set i .done) = some ts) :
    Spoken waits avail { m with threads := ts } := by
  have hsleepers : ∀ a, Thread.asleep a ∈ m.threads.set i .done → waits a = true := by
    intro a ha
    rcases List.mem_or_eq_of_mem_set ha with ha | ha
    · exact h.sleepers a ha
    · cases ha
  obtain ⟨r, hold, hdone⟩ := exists_sum_map_set (credit waits) hi .done
  rcases wakeUp_cases hts with ⟨rfl, a, hw, rfl⟩ | ⟨rfl, hawake, rfl⟩ | ⟨rfl, rfl⟩ | ⟨rfl, rfl⟩
  · -- the thread that is woken is worth what the signal was
    obtain ⟨r', hset, hnew⟩ := exists_sum_map_set (credit waits) hw (.enter a)
    have hwaits : waits a = true := hsleepers a (List.mem_of_getElem? hw)
    refine ⟨fun b hb => ?_, fun hex => ?_⟩
    · rcases List.mem_or_eq_of_mem_set hb with hb | hb
      · exact hsleepers b hb
      · cases hb
    · have hspoken := h.enough (exists_asleep_of_set rfl (exists_asleep_of_set rfl hex))
      rw [hnew]
      rw [hold] at hspoken
      rw [hdone] at hset
      simp only [credit, Notify.worth, hwaits, if_true, add_zero] at hspoken hset ⊢
      rwa [← hset]
  · exact .of_awake hawake
  · refine ⟨hsleepers, fun hex => ?_⟩
    have hspoken := h.enough (exists_asleep_of_set rfl hex)
    rwa [hdone, ← show credit waits (Thread.notify Notify.nothing : Thread A) = credit waits .done from rfl, ← hold]
  · exact .of_awake fun t ht => isAsleep_of_mem_map_wake ht

section

variable (hacc : Accounts run waits avail)

include hacc

theorem Spoken.step {l : Act A} (h : Spoken waits avail m)
    (hstep : CondVar.step run m l = some m') : Spoken waits avail m' := by
  cases move_of_step hstep with
  | call a => exact h.call a
  | sleep _ hrun => exact h.sleep hacc hrun
  | leave hi hrun => exact h.leave hi (hacc.leaves _ _ _ hrun)
  | notify hi hts => exact h.notify hi hts

theorem spoken_of_run {s : S}
    (h : Run (step run) always ⟨s, []⟩ ls m) : Spoken waits avail m :=
  h.invariant (Spoken waits avail) (.of_awake (by simp)) fun _ _ _ hI _ hs => hI.step hacc hs

/-- No wakeup is lost: when no thread can go on and one waits, there is nothing for it. -/
theorem avail_eq_zero_of_stuck {s : S}
    (h : Run (step run) always ⟨s, []⟩ ls m) (hstuck : Stuck run m) {t : Thread A} (ht : t ∈ m.threads)
    (hasleep : t.isAsleep = true) : avail m.shared = 0 := by
  have hzero : (m.threads.map (credit waits)).sum = 0 := by
    refine List.sum_eq_zero (List.forall_mem_map.mpr fun u hu => ?_)
    rcases stuck_iff.mp hstuck u hu with hu | rfl
    · cases u with
      | asleep | done => rfl
      | enter | notify => cases hu
    · rfl
  have hle := (spoken_of_run hacc h).enough ⟨t, ht, hasleep⟩
  rw [hzero] at hle
  exact le_antisymm hle zero_le

end

end Wakeups

section Termination

variable {run : S → A → Option (Outcome S)} {waits : A → Bool} {avail : S → ℕ∞} {m m' : State S A}
  {ls : List (Act A)}

/-- How much a thread can still do when there are `n` threads. Those that a notification wakes
test their condition once more each. -/
def weight (waits : A → Bool) (n : ℕ) : Thread A → ℕ
  | .enter a => if waits a then 2 else 2 * n + 4
  | .notify .nothing => 1
  | .notify .signal => 3
  | .notify .broadcast => 2 * n + 1
  | _ => 0

def potential (waits : A → Bool) (m : State S A) : ℕ :=
  (m.threads.map (weight waits m.threads.length)).sum

theorem weight_wake_le (hsleep : ∀ a, Thread.asleep a ∈ m.threads → waits a = true) (n : ℕ) {t : Thread A}
    (ht : t ∈ m.threads) : weight waits n t.wake ≤ weight waits n t + 2 := by
  cases t with
  | asleep a => simp [Thread.wake, weight, hsleep a ht]
  | enter | notify | done => exact Nat.le_add_right _ _

theorem sum_weight_wake_le {ts : List (Thread A)} (n : ℕ) (hsleep : ∀ a, Thread.asleep a ∈ ts → waits a = true) :
    ((ts.map Thread.wake).map (weight waits n)).sum ≤ (ts.map (weight waits n)).sum + 2 * ts.length := by
  induction ts with
  | nil => simp
  | cons t ts ih =>
    have hrest := ih fun a ha => hsleep a (List.mem_cons_of_mem t ha)
    have ht := weight_wake_le (m := ⟨(), t :: ts⟩) hsleep n List.mem_cons_self
    simp only [List.map_cons, List.sum_cons, List.length_cons]
    omega

theorem weight_notify_le (waits : A → Bool) (n : ℕ) (k : Notify) : weight waits n (.notify k) ≤ 2 * n + 3 := by
  cases k with
  | nothing | signal | broadcast =>
    simp only [weight]
    omega

theorem potential_lt {l : Act A} (hacc : Accounts run waits avail) (hspoken : Spoken waits avail m)
    (hl : l.isCall = false) (hstep : step run m l = some m') : potential waits m' < potential waits m := by
  have hset (i : ℕ) (u : Thread A) (hu : u.isAsleep = false) (a : A) (ha : Thread.asleep a ∈ m.threads.set i u) :
      waits a = true := by
    rcases List.mem_or_eq_of_mem_set ha with ha | rfl
    · exact hspoken.sleepers a ha
    · cases hu
  cases move_of_step hstep with
  | call a => cases hl
  | @sleep i a hi hrun =>
    obtain ⟨r, hold, hnew⟩ := exists_sum_map_set (weight waits m.threads.length) hi (.asleep a)
    simp only [potential, List.length_set, hold, hnew, weight, (hacc.sleeps _ _ hrun).1, if_true]
    omega
  | @leave i a o hi hrun =>
    obtain ⟨r, hold, hnew⟩ := exists_sum_map_set (weight waits m.threads.length) hi (.notify o.after)
    by_cases hwaits : waits a = true
    · simp only [hacc.quiet _ _ _ hrun hwaits] at hnew ⊢
      simp only [potential, List.length_set, hold, hnew, weight, hwaits, if_true]
      omega
    · have hbound := weight_notify_le waits m.threads.length o.after
      simp only [potential, hold, weight, hwaits, if_false, Bool.false_eq_true]
      rw [List.length_set, hnew]
      omega
  | @notify i n w ts hi hts =>
    obtain ⟨r, hold, hdone⟩ := exists_sum_map_set (weight waits m.threads.length) hi .done
    rcases wakeUp_cases hts with ⟨rfl, a, hw, rfl⟩ | ⟨rfl, -, rfl⟩ | ⟨rfl, rfl⟩ | ⟨rfl, rfl⟩
    · obtain ⟨r', hold', hnew⟩ := exists_sum_map_set (weight waits m.threads.length) hw (.enter a)
      have hwaits : waits a = true := hset i .done rfl a (List.mem_of_getElem? hw)
      rw [hdone] at hold'
      simp only [potential, List.length_set, hold, hnew, weight, hwaits, if_true] at hold' ⊢
      omega
    · simp only [potential, List.length_set, hold, hdone, weight]
      omega
    · simp only [potential, List.length_set, hold, hdone, weight]
      omega
    · have hwake := sum_weight_wake_le m.threads.length (hset i .done rfl)
      simp only [potential, List.length_map, List.length_set, hold, hdone, weight] at hwake ⊢
      omega

/-- Without new calls the threads come to rest: a run can only be so long. -/
theorem length_le_potential (hacc : Accounts run waits avail) (hspoken : Spoken waits avail m)
    (h : Run (step run) (fun _ l => l.isCall = false) m ls m') :
    ls.length + potential waits m' ≤ potential waits m := by
  suffices hboth : Spoken waits avail m' ∧ ls.length + potential waits m' ≤ potential waits m from hboth.2
  induction h with
  | nil => exact ⟨hspoken, by simp⟩
  | snoc _ hcall hs ih =>
    refine ⟨ih.1.step hacc hs, ?_⟩
    have hlt := potential_lt hacc ih.1 hcall hs
    rw [List.length_append, List.length_singleton]
    omega

end Termination

end CondVar

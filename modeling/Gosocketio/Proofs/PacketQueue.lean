import Gosocketio.Spec.PacketQueue

/-! The queue between the read loop and the processing loop of a connection. Whoever calls its
methods, and in whatever order they get the mutex: what is popped is what was pushed before
`close`, in that order, and no call of `pop` sleeps while there is something for it. -/

namespace Gosocketio.PacketQueue

open CondVar Runs

section Order

variable {q : PacketQueue} {op : Op} {o : CondVar.Outcome PacketQueue} {taken : List InPacket} {n : ℕ}

/-- `taken` are the packets popped so far; after them `n` calls were not ok. -/
structure Ordered (q : PacketQueue) (taken : List InPacket) (n : ℕ) : Prop where
  popped : q.popped = taken.map some ++ List.replicate n none
  fifo : taken ++ q.items = q.accepted
  ended : 0 < n → q.closed = true ∧ q.items = []

theorem ordered_initial : Ordered {} [] 0 where
  popped := rfl
  fifo := rfl
  ended h := absurd h (lt_irrefl 0)

section

variable (h : Ordered q taken n)

include h

theorem Ordered.push (p : InPacket) (hopen : q.closed = false) :
    Ordered { q with items := q.items ++ [p], accepted := q.accepted ++ [p] } taken n where
  popped := h.popped
  fifo := by
    rw [← List.append_assoc, h.fifo]
  ended hn := by
    rw [(h.ended hn).1] at hopen
    cases hopen

theorem Ordered.take {p : InPacket} {items : List InPacket} (hitems : q.items = p :: items) :
    Ordered { q with items, popped := q.popped ++ [some p] } (taken ++ [p]) 0 where
  popped := by
    -- no call was refused before, so the packet comes right after the others
    have hn : n = 0 := by
      by_contra hn
      rw [(h.ended (Nat.pos_of_ne_zero hn)).2] at hitems
      cases hitems
    rw [h.popped, hn]
    simp
  fifo := by
    rw [← h.fifo, hitems, List.append_assoc, List.singleton_append]
  ended hn := absurd hn (lt_irrefl 0)

theorem Ordered.refuse (hclosed : q.closed = true) (hitems : q.items = []) :
    Ordered { q with popped := q.popped ++ [none] } taken (n + 1) where
  popped := by
    rw [h.popped, List.append_assoc, ← List.replicate_succ']
  fifo := h.fifo
  ended _ := ⟨hclosed, hitems⟩

theorem Ordered.close : Ordered { q with closed := true } taken n :=
  ⟨h.popped, h.fifo, fun hn => ⟨rfl, (h.ended hn).2⟩⟩

theorem Ordered.run (hrun : PacketQueue.run q op = some o) :
    ∃ taken' n', Ordered o.shared taken' n' := by
  cases op with
  | push p =>
    cases hrun
    refine ⟨taken, n, ?_⟩
    cases hclosed : q.closed with
    | true => simpa using h
    | false => simpa [hclosed] using h.push p hclosed
  | close =>
    cases hrun
    exact ⟨taken, n, h.close⟩
  | pop =>
    rw [PacketQueue.run] at hrun
    split at hrun
    · split_ifs at hrun with hclosed
      cases hrun
      exact ⟨taken, n + 1, h.refuse hclosed ‹_›⟩
    · cases hrun
      exact ⟨_, 0, h.take ‹_›⟩

end

end Order

section Server

variable {J : Json} {c : ConnId} {q : PacketQueue} {op : Op} {o : CondVar.Outcome PacketQueue} {S : Server}

def Shown (c : ConnId) (S : Server) (q : PacketQueue) : Prop :=
  (S.conns c).items = q.items ∧ (S.conns c).closed = q.closed

theorem Shown.run (h : Shown c S q) (hrun : PacketQueue.run q op = some o) :
    Shown c (S.run J (op.sectionOf c)) o.shared := by
  obtain ⟨hitems, hclosed⟩ := h
  cases op with
  | push p =>
    cases hrun
    cases hq : q.closed with
    | true | false => simp [Shown, Op.sectionOf, Server.run, Server.push, Server.modifyConn, hclosed, hitems, hq]
  | close =>
    cases hrun
    simp [Shown, Op.sectionOf, Server.run, Server.closeQueue, Server.modifyConn, hitems]
  | pop =>
    rw [PacketQueue.run] at hrun
    split at hrun
    · rename_i hq
      split_ifs at hrun
      cases hrun
      simp [Shown, Op.sectionOf, Server.run, Server.pop, Server.modifyConn, hitems, hclosed, hq]
    · rename_i p items hq
      cases hrun
      simp [Shown, Op.sectionOf, Server.run, Server.pop, Server.modifyConn, hitems, hclosed, hq]

end Server

section Sequential

/-- The methods called one after another. -/
def atomic (q : PacketQueue) (op : Op) : Option PacketQueue := (run q op).map Outcome.shared

variable {q q' : PacketQueue} {op : Op} {ops : List Op}

theorem exists_of_atomic (h : atomic q op = some q') : ∃ o, run q op = some o ∧ o.shared = q' :=
  Option.map_eq_some_iff.mp h

theorem ordered_of_ops (h : Run atomic always {} ops q) : ∃ taken n, Ordered q taken n := by
  refine h.invariant (fun q => ∃ taken n, Ordered q taken n) ⟨[], 0, ordered_initial⟩ ?_
  rintro q op q' ⟨taken, n, hI⟩ - hs
  obtain ⟨o, hrun, rfl⟩ := exists_of_atomic hs
  exact hI.run hrun

theorem shown_of_ops (J : Json) {c : ConnId} {S : Server} (hS : S.conns c = {})
    (h : Run atomic always {} ops q) :
    ∃ S', Run (Server.step J) always S (ops.map (Op.sectionOf c)) S' ∧ Shown c S' q := by
  induction h with
  | nil => exact ⟨S, .nil, by rw [Shown, hS]; exact ⟨rfl, rfl⟩⟩
  | snoc _ _ hs ih =>
    obtain ⟨S', hrun', hshown⟩ := ih
    obtain ⟨o, hrun, rfl⟩ := exists_of_atomic hs
    rw [List.map_append]
    exact ⟨_, hrun'.snoc trivial rfl, hshown.run hrun⟩

theorem closed_iff_of_ops (h : Run atomic always {} ops q) : q.closed = true ↔ .close ∈ ops := by
  induction h with
  | nil => simp
  | @snoc ops q op q' _ _ hs ih =>
    obtain ⟨o, hrun, rfl⟩ := exists_of_atomic hs
    rw [List.mem_append, ← ih]
    cases op with
    | push p =>
      cases hrun
      cases hq : q.closed with
      | true | false => simp [hq]
    | close =>
      cases hrun
      simp
    | pop =>
      rw [run] at hrun
      split at hrun
      · split_ifs at hrun with hq
        cases hrun
        simp [hq]
      · cases hrun
        simp

theorem accepted_of_run {o : CondVar.Outcome PacketQueue} (h : run q op = some o) :
    o.shared.accepted = q.accepted ++ if q.closed = true then [] else op.packet.toList := by
  cases op with
  | push p =>
    cases h
    cases hq : q.closed with
    | true | false => simp [Op.packet]
  | close =>
    cases h
    simp [Op.packet]
  | pop =>
    rw [run] at h
    split at h
    · split_ifs at h
      cases h
      simp [Op.packet]
    · cases h
      simp [Op.packet]

theorem takeWhile_concat (ops : List Op) (op : Op) : (ops ++ [op]).takeWhile (· ≠ .close) =
    ops.takeWhile (· ≠ .close) ++ if .close ∈ ops then [] else [op].takeWhile (· ≠ .close) := by
  induction ops with
  | nil => rfl
  | cons o ops ih =>
    by_cases ho : o = .close
    · simp [ho]
    · simp only [List.cons_append, List.takeWhile_cons_of_pos, ho, ne_eq, not_false_eq_true, decide_true, ih,
        List.mem_cons, Ne.symm ho, false_or]

theorem accepted_of_ops (h : Run atomic always {} ops q) :
    q.accepted = (ops.takeWhile (· ≠ .close)).filterMap Op.packet := by
  induction h with
  | nil => rfl
  | @snoc ops q op q' hops _ hs ih =>
    obtain ⟨o, hrun, rfl⟩ := exists_of_atomic hs
    rw [accepted_of_run hrun, ih, takeWhile_concat, List.filterMap_append, if_congr (closed_iff_of_ops hops) rfl rfl]
    congr 1
    split_ifs
    · rfl
    · cases op <;> rfl

theorem length_popped_of_ops (h : Run atomic always {} ops q) : q.popped.length = ops.count .pop := by
  induction h with
  | nil => rfl
  | @snoc ops q op q' _ _ hs ih =>
    obtain ⟨o, hrun, rfl⟩ := exists_of_atomic hs
    rw [List.count_append, ← ih]
    cases op with
    | push p =>
      cases hrun
      split_ifs <;> rfl
    | close =>
      cases hrun
      rfl
    | pop =>
      rw [run] at hrun
      split at hrun
      · split_ifs at hrun
        cases hrun
        simp
      · cases hrun
        simp

end Sequential

variable {m : State} {ls : List (Act Op)}

/-- The methods that have returned or are about to, in the order in which they had the mutex, each
with the number of its call. -/
def history (ls : List (Act Op)) : List (ℕ × Op) := completed run initial ls

/-- Whoever calls `push`, `pop` and `close`, and however they interleave: there is one order of the
methods such that each call is in it once, when it has been through its section, and a connection
of the server's model that does the same methods in that order has the same list and flag. The
packets accepted are those pushed before the first `close` of that order; the packets popped,
followed by those in the queue, are the packets accepted; and a call of `pop` that is not ok finds
the queue closed and empty, and none after it is ok. -/
theorem packetQueue_fifo (J : Json) (c : ConnId) (S : Server) (hS : S.conns c = {})
    (h : Run step always initial ls m) :
    Pool.Attributed Thread.left ((ls.filterMap Act.called).map ([·])) (history ls) m.threads ∧
      (∃ S', Run (Server.step J) always S ((history ls).map fun e => e.2.sectionOf c) S' ∧
        (S'.conns c).items = m.shared.items ∧ (S'.conns c).closed = m.shared.closed) ∧
      m.shared.accepted = (((history ls).map Prod.snd).takeWhile (· ≠ .close)).filterMap Op.packet ∧
      m.shared.popped.length = ((history ls).map Prod.snd).count .pop ∧
      ∃ (taken : List InPacket) (n : ℕ), m.shared.popped = taken.map some ++ List.replicate n none ∧
        taken ++ m.shared.items = m.shared.accepted ∧
        (0 < n → m.shared.closed = true ∧ m.shared.items = []) := by
  have hops : Run atomic always {} ((history ls).map Prod.snd) m.shared := sequential h
  obtain ⟨taken, n, hordered⟩ := ordered_of_ops hops
  obtain ⟨S', hrun, hitems, hclosed⟩ := shown_of_ops J hS hops
  rw [List.map_map] at hrun
  exact ⟨attributed_of_run h, ⟨S', hrun, hitems, hclosed⟩, accepted_of_ops hops, length_popped_of_ops hops,
    taken, n, hordered.popped, hordered.fifo, hordered.ended⟩

/-- How many calls of `pop` could return: all of them once the queue is closed. -/
def avail (q : PacketQueue) : ℕ∞ := if q.closed then ⊤ else q.items.length

theorem accounts : Accounts run Op.waits avail where
  sleeps q op hrun := by
    cases op with
    | push | close => cases hrun
    | pop =>
      rw [run] at hrun
      split at hrun
      · rename_i hitems
        split_ifs at hrun with hclosed
        exact ⟨rfl, by simp [avail, hclosed, hitems]⟩
      · cases hrun
  leaves q op o hrun := by
    cases op with
    | push p =>
      cases hrun
      by_cases hclosed : q.closed = true
      · simp [avail, hclosed, Op.waits]
      · simp [avail, hclosed, Op.waits, Notify.worth]
    | close =>
      cases hrun
      simp [Notify.worth]
    | pop =>
      rw [run] at hrun
      split at hrun
      · split_ifs at hrun with hclosed
        cases hrun
        simp [avail, hclosed]
      · rename_i p items hitems
        cases hrun
        by_cases hclosed : q.closed = true
        · simp [avail, hclosed]
        · simp [avail, hclosed, hitems, Op.waits, Notify.worth]
  quiet q op o hrun hwaits := by
    cases op with
    | push | close => cases hwaits
    | pop =>
      rw [run] at hrun
      split at hrun
      · split_ifs at hrun
        cases hrun
        rfl
      · cases hrun
        rfl

/-- No wakeup is lost, with any number of goroutines on either side of the queue. When no new
calls are made, the goroutines come to rest after a bounded number of steps; and when none of
them can go on, every call has returned but calls of `pop` on a queue that is open and empty. -/
theorem packetQueue_wakes (h : Run step always initial ls m) :
    (∃ n, ∀ ls' m', Run step (fun _ l => l.isCall = false) m ls' m' → ls'.length ≤ n) ∧
      (Stuck run m → ∀ t ∈ m.threads, t = .done ∨
        t = .asleep .pop ∧ m.shared.items = [] ∧ m.shared.closed = false) := by
  have hspoken := spoken_of_run accounts h
  constructor
  · refine ⟨potential Op.waits m, fun ls' m' h' => ?_⟩
    have hle := length_le_potential accounts hspoken h'
    omega
  · intro hstuck t ht
    rcases stuck_iff.mp hstuck t ht with hasleep | hdone
    · cases t with
      | enter | notify | done => cases hasleep
      | asleep op =>
        have hpop : op = .pop := by
          have hwaits := hspoken.sleepers op ht
          cases op with
          | pop => rfl
          | push | close => cases hwaits
        have hzero := avail_eq_zero_of_stuck accounts h hstuck ht hasleep
        rw [avail] at hzero
        cases hclosed : m.shared.closed with
        | true => simp [hclosed] at hzero
        | false => exact .inr ⟨by rw [hpop], by simpa [hclosed] using hzero, rfl⟩
    · exact .inl hdone

section NonVacuity

/-- Two goroutines wait; one packet is pushed, and then the queue is closed. -/
def handover : List (Act Op) :=
  [.call .pop, .enter 0, .call .pop, .enter 1, .call (.push ⟨[52], false⟩), .enter 2, .notify 2 1,
    .call .close, .enter 3, .notify 3 0, .enter 0, .enter 1, .notify 0 0, .notify 1 0]

theorem handover_isSome : (exec step always initial handover).isSome = true := by decide +kernel

/-- The signal is for the second goroutine, but the first has the mutex before it. -/
theorem packetQueue_fifo_handover : ∃ m, Run step always initial handover m ∧
    history handover = [(2, .push ⟨[52], false⟩), (3, .close), (0, .pop), (1, .pop)] ∧
    m.shared.accepted = [⟨[52], false⟩] ∧
    (∃ (taken : List InPacket) (n : ℕ), m.shared.popped = taken.map some ++ List.replicate n none ∧
      taken ++ m.shared.items = m.shared.accepted ∧
      (0 < n → m.shared.closed = true ∧ m.shared.items = [])) := by
  have hfifo := packetQueue_fifo ⟨fun _ => none, fun _ => none⟩ 0 { nsps := fun _ => none } rfl
    (run_of_isSome handover_isSome)
  exact ⟨_, run_of_isSome handover_isSome, by decide +kernel, hfifo.2.2.1.trans (by decide +kernel), hfifo.2.2.2.2⟩

/-- Two goroutines wait, and there is one packet for them. -/
def oneServed : List (Act Op) :=
  [.call .pop, .enter 0, .call .pop, .enter 1, .call (.push ⟨[52], false⟩), .enter 2, .notify 2 1, .enter 1,
    .notify 1 0]

theorem oneServed_isSome : (exec step always initial oneServed).isSome = true := by decide +kernel

theorem packetQueue_wakes_oneServed : ∃ m, Run step always initial oneServed m ∧ Stuck run m ∧
    Thread.asleep .pop ∈ m.threads ∧
    (∃ n, ∀ ls' m', Run step (fun _ l => l.isCall = false) m ls' m' → ls'.length ≤ n) ∧
    m.shared.items = [] ∧ m.shared.closed = false := by
  have hthreads : ((exec step always initial oneServed).get oneServed_isSome).threads =
      [.asleep .pop, .done, .done] := by decide +kernel
  have hstuck : Stuck run ((exec step always initial oneServed).get oneServed_isSome) := by
    rw [stuck_iff, hthreads]
    decide
  have hasleep : Thread.asleep .pop ∈ ((exec step always initial oneServed).get oneServed_isSome).threads := by
    rw [hthreads]
    exact List.mem_cons_self
  obtain ⟨hbound, hrest⟩ := packetQueue_wakes (run_of_isSome oneServed_isSome)
  rcases hrest hstuck _ hasleep with hdone | ⟨-, hitems, hclosed⟩
  · cases hdone
  · exact ⟨_, run_of_isSome oneServed_isSome, hstuck, hasleep, hbound, hitems, hclosed⟩

end NonVacuity

end Gosocketio.PacketQueue

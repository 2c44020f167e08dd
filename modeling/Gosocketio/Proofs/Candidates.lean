import Gosocketio.Sanity.Heartbeat
import Gosocketio.Sanity.ReadLoops

/-! What the events of an upgrade candidate do to the session once one of them has settled the
upgrade. `onAbort` closes the candidate, whose read loop then reports that it is closed to the
same handler: `onAbort` runs again, clears `upgrading` again and arms one more timer. -/

namespace Gosocketio.Engine.Heartbeat

open Transport Stacks Runs Pool
open EngineSocket (Tport)

variable {w w' : State} {a : Act} {n : Notice}

/-- The upgrade, the transport and the heartbeat timers are as they were. -/
structure Inert (h h' : Heart) : Prop where
  upgrading : h'.session.upgrading = h.session.upgrading
  transport : h'.session.transport = h.session.transport
  clocks : h'.clocks = h.clocks

/-- `upgrading` is set exactly while one candidate is undecided. -/
def Flagged (h : Heart) : Prop :=
  h.undecided = [] ∧ h.session.upgrading = false ∨ ∃ k, h.undecided = [k] ∧ h.session.upgrading = true

/-- What a step does for an event of a candidate that came after its first terminal event
changes nothing, and `upgrading` is right after every step. -/
structure ActsOnce (w : State) (a : Act) (w' : State) : Prop where
  later : ∀ i c j k n, a = .go i c → next? w.tasks i = some j → j.source = some (k, n + 1) →
    Inert w.shared w'.shared
  flagged : Flagged w'.shared

/-- What is done for a later event finds that there is nothing left to change, and a candidate
that asks for the upgrade finds the session not closed. -/
def Spent (h : Heart) : Job → Prop
  | ⟨.session .abort, some (_, _ + 1)⟩ => h.session.upgrading = false ∧ h.session.readyState ≠ .opened
  | ⟨.session (.switch k), some (_, _ + 1)⟩ =>
    h.session.readyState = .closed ∨ h.session.upgrading = false ∧ h.session.transport = some (.websocket k)
  | ⟨.resume, some (_, _ + 1)⟩ => h.session.readyState ≠ .opened
  | ⟨.session (.switch _), some (_, 0)⟩ => h.session.readyState ≠ .closed
  | _ => True

def Orderly (w : State) : Act → Prop
  | .go i _ => ∀ j ∈ next? w.tasks i, Spent w.shared j
  | _ => True

section Sources

def Direct : Duty → Prop
  | .session op =>
    match op with
    | .register | .attach _ | .setOpen | .onConnect | .closeSocket | .maybeUpgrade _ | .pingHandler
    | .pingTimeoutHandler | .sendPacket _ | .closeWithReason _ | .onPacket _ | .onErrorFrom _
    | .onCloseFrom _ => True
    | _ => False
  | .schedulePing | .armTimeout _ => True
  | .resume => False

def Ends : Duty → Prop
  | .session .abort | .session (.switch _) => True
  | _ => False

structure Sourced (j : Job) : Prop where
  direct : Direct j.duty → j.source = none
  ends : Ends j.duty → j.source ≠ none

variable {h : Heart} {s' : Session} {c : Choice} {op : Op} {ops : List Op} {new : List (List Op)}
  {source : Option (ℕ × ℕ)}

theorem Sourced.children (hj : Sourced ⟨.session op, source⟩)
    (hrun : h.session.run c op = some (s', ops, new)) :
    ∀ op' ∈ ops, Sourced ⟨.session op', h.sourceOf source op op'⟩ := by
  intro op' hop'
  have hcause := (Session.run_cause hrun).1 op' hop'
  constructor
  · intro hdirect
    cases op' with
    | onPacket | onErrorFrom | onCloseFrom => rfl
    | register | attach | setOpen | onConnect | closeSocket | maybeUpgrade | pingHandler
    | pingTimeoutHandler => exact hcause.elim
    | sendPacket p =>
      obtain ⟨rfl, -⟩ := hcause
      exact hj.direct trivial
    | closeWithReason reason =>
      cases reason with
      | pingTimeout =>
        obtain rfl := hcause
        exact hj.direct trivial
      | _ => rcases hcause with ⟨_, rfl⟩ | ⟨_, rfl⟩ | ⟨_, rfl⟩ <;> exact hj.direct trivial
    | _ => exact hdirect.elim
  · intro hends
    cases op' with
    | abort =>
      obtain ⟨k, n, -, rfl⟩ := hcause
      exact Option.some_ne_none _
    | switch k =>
      obtain ⟨-, p, rfl⟩ := hcause
      exact Option.some_ne_none _
    | _ => exact hends.elim

def decides : Job → Multiset ℕ
  | ⟨.session .abort, some (k, 0)⟩ | ⟨.session (.switch _), some (k, 0)⟩ => {k}
  | _ => 0

structure Plain (j : Job) : Prop where
  decides : decides j = 0
  handler : ∀ k, j.duty ≠ .session (.setHandler k .upgradeHandler)
  sourced : Sourced j

theorem plain_children (hj : Sourced ⟨.session op, source⟩)
    (hrun : h.session.run c op = some (s', ops, new)) (hnotify : ∀ k n, op ≠ .notify k n)
    (hupgrade : ∀ k, op ≠ .maybeUpgrade k) :
    ∀ op' ∈ ops, Plain ⟨.session op', h.sourceOf source op op'⟩ := by
  intro op' hop'
  have hcause := (Session.run_cause hrun).1 op' hop'
  refine ⟨?_, ?_, hj.children hrun op' hop'⟩
  · cases op' with
    | abort =>
      obtain ⟨k, n, -, heq⟩ := hcause
      exact absurd heq (hnotify k n)
    | switch k =>
      obtain ⟨-, p, heq⟩ := hcause
      exact absurd heq (hnotify k _)
    | _ => rfl
  · rintro k heq
    obtain rfl := Duty.session.inj heq
    exact hupgrade k hcause

theorem plain_after (hj : Sourced ⟨.session op, source⟩) : ∀ d ∈ h.after op, Plain ⟨d, source⟩ := by
  unfold Heart.after
  split
  · split
    · exact List.forall_mem_singleton.mpr ⟨rfl, nofun, fun _ => hj.direct trivial, nofun⟩
    · exact nofun
  · split
    · exact nofun
    · exact List.forall_mem_singleton.mpr ⟨rfl, by simp, False.elim, False.elim⟩
  · exact nofun

theorem plain_fork {P : Op → Prop} (hnew : Every P new) (hP : ∀ op, P op → Plain ⟨.session op, none⟩) :
    Every Plain (new.map Heart.fork) := by
  refine List.forall_mem_map.mpr fun ops hops => ?_
  exact List.forall_mem_map.mpr fun op hop => hP op (hnew ops hops op hop)

theorem plain_loop (hop : Session.Loop op) : Plain ⟨.session op, none⟩ := by
  cases op with
  | read | ticker => exact ⟨rfl, nofun, fun _ => rfl, nofun⟩
  | _ => exact hop.elim

theorem plain_entry {s : Session} (hop : s.Entry e op) : Plain ⟨.session op, none⟩ := by
  cases op with
  | sendPacket | flush | closeSocket | onErrorFrom | onPacket | pingHandler | pingTimeoutHandler | close
  | polling | maybeUpgrade => exact ⟨rfl, nofun, fun _ => rfl, nofun⟩
  | _ => exact hop.elim

end Sources

section Settled

/-- A candidate that is to get its handler is undecided if it has reported no terminal event. -/
structure Fits (h : Heart) (j : Job) : Prop where
  handler : ∀ k, j.duty = .session (.setHandler k .upgradeHandler) → k ∉ h.terminals → k ∈ h.undecided
  sourced : Sourced j

/-- A candidate that has its handler is undecided if it has reported no terminal event. At most
one goroutine is about to decide an undecided candidate, and none a decided one. -/
structure Settled (w : State) : Prop where
  flagged : Flagged w.shared
  pending : load decides w.tasks ≤ (w.shared.undecided : Multiset ℕ)
  reported : ∀ k ∈ load decides w.tasks, k ∈ w.shared.terminals
  fresh : ∀ k, w.shared.session.handler k = some .upgradeHandler → k ∉ w.shared.terminals →
    k ∈ w.shared.undecided
  fits : Every (Fits w.shared) w.tasks

variable {h : Heart} {i : ℕ} {j : Job} {rest js : List Job} {ts new : List (List Job)}

theorem Plain.fits (hj : Plain j) (h : Heart) : Fits h j := ⟨fun k heq => absurd heq (hj.handler k), hj.sourced⟩

theorem load_plain (hts : Every Plain ts) : load decides ts = 0 :=
  load_eq_zero (hts.mono fun _ hj => hj.decides)

theorem sum_plain (hjs : ∀ j ∈ js, Plain j) : (js.map decides).sum = 0 :=
  List.sum_eq_zero (List.forall_mem_map.mpr fun j hj => (hjs j hj).decides)

/-- The candidates are where they were; one that gets its handler is undecided if it has
reported no terminal event. -/
structure Same (h h' : Heart) : Prop where
  undecided : h'.undecided = h.undecided
  terminals : h'.terminals = h.terminals
  upgrading : h'.session.upgrading = h.session.upgrading
  handler : ∀ k, h'.session.handler k = some .upgradeHandler → k ∉ h.terminals →
    h.session.handler k = some .upgradeHandler ∨ k ∈ h.undecided

section

variable (hw : Settled w)

include hw

theorem Settled.same (hsame : Same w.shared h) (hle : load decides ts ≤ load decides w.tasks)
    (hts : Every (Fits w.shared) ts) : Settled ⟨h, ts⟩ := by
  refine ⟨?_, ?_, ?_, ?_, hts.mono fun j hj => ⟨?_, hj.sourced⟩⟩
  · unfold Flagged
    rw [hsame.undecided, hsame.upgrading]
    exact hw.flagged
  · rw [hsame.undecided]
    exact hle.trans hw.pending
  · rw [hsame.terminals]
    exact fun k hk => hw.reported k (Multiset.mem_of_le hle hk)
  · intro k hk
    rw [hsame.terminals, hsame.undecided]
    exact fun hnot => (hsame.handler k hk hnot).elim (hw.fresh k · hnot) id
  · rw [hsame.terminals, hsame.undecided]
    exact hj.handler

theorem Settled.start (hsame : Same w.shared h) (hnew : Every Plain new) :
    Settled ⟨h, w.tasks ++ new⟩ := by
  refine hw.same hsame ?_ (every_append.mpr ⟨hw.fits, hnew.mono fun j hj => hj.fits _⟩)
  rw [load_append, load_plain hnew, add_zero]

theorem Settled.go_on (hi : w.tasks[i]? = some (j :: rest)) (hsame : Same w.shared h)
    (hjs : ∀ j ∈ js, Plain j) (hnew : Every Plain new) :
    Settled ⟨h, w.tasks.set i (js ++ rest) ++ new⟩ := by
  refine hw.same hsame ?_ (every_append.mpr
    ⟨hw.fits.set hi fun j hj => (hjs j hj).fits _, hnew.mono fun j hj => hj.fits _⟩)
  obtain ⟨r, hold, hload⟩ := exists_load_go decides hi js new
  rw [hload, hold, sum_plain hjs, load_plain hnew, add_zero, add_zero]
  exact Multiset.le_add_right _ _

theorem Settled.arm (hi : w.tasks[i]? = some (j :: rest)) (hsame : Same w.shared h) :
    Settled ⟨h, w.tasks.set i rest⟩ := by
  have hgo := hw.go_on hi hsame (List.forall_mem_nil _) every_nil
  rw [List.append_nil] at hgo
  exact hgo

/-- The candidate that a goroutine is about to decide is the undecided one, and no other
goroutine is about to decide one. -/
theorem Settled.deciding {k : ℕ} {r : Multiset ℕ} (hload : load decides w.tasks = r + {k}) :
    r = 0 ∧ w.shared.undecided = [k] ∧ w.shared.session.upgrading = true ∧ k ∈ w.shared.terminals := by
  have hk : k ∈ load decides w.tasks := by
    rw [hload]
    exact Multiset.mem_add.mpr (.inr (Multiset.mem_singleton_self k))
  have hmem := Multiset.mem_of_le hw.pending hk
  rcases hw.flagged with ⟨hnone, -⟩ | ⟨k', hone, hup⟩
  · rw [hnone] at hmem
    cases hmem
  · rw [hone] at hmem
    obtain rfl := List.mem_singleton.mp hmem
    refine ⟨?_, hone, hup, hw.reported k hk⟩
    have hle := hw.pending
    rw [hload, hone] at hle
    exact Multiset.le_zero.mp ((Multiset.add_le_add_iff_right (s := r) (t := 0) (u := {k})).mp (by simpa using hle))

section

variable (hi : w.tasks[i]? = some (j :: rest))

include hi

theorem Settled.decide {k : ℕ}
    (hj : decides j = {k}) (hundecided : h.undecided = w.shared.undecided.filter (· ≠ k))
    (hterminals : h.terminals = w.shared.terminals) (hup : h.session.upgrading = false)
    (hhandler : ∀ k, h.session.handler k = w.shared.session.handler k)
    (hjs : ∀ j ∈ js, Plain j) (hnew : Every Plain new) :
    Settled ⟨h, w.tasks.set i (js ++ rest) ++ new⟩ := by
  obtain ⟨r, hold, hload⟩ := exists_load_go decides hi js new
  rw [hj] at hold
  obtain ⟨rfl, hone, -, hk⟩ := hw.deciding hold
  have hnone : h.undecided = [] := by
    rw [hundecided, hone]
    simp
  rw [sum_plain hjs, load_plain hnew, add_zero, add_zero] at hload
  -- whoever is undecided by the old state is `k`, which has reported
  have hno : ∀ k', (k' ∉ w.shared.terminals → k' ∈ w.shared.undecided) → k' ∈ w.shared.terminals := by
    intro k' hk'
    by_contra hnot
    have hmem := hk' hnot
    rw [hone, List.mem_singleton] at hmem
    exact hnot (hmem ▸ hk)
  refine ⟨.inl ⟨hnone, hup⟩, ?_, ?_, ?_, ?_⟩
  · rw [hload]
    exact Multiset.zero_le _
  · rw [hload]
    exact fun k hk => absurd hk (Multiset.notMem_zero k)
  · intro k' hh hnot
    rw [hhandler] at hh
    rw [hterminals] at hnot
    exact absurd (hno k' (hw.fresh k' hh)) hnot
  · refine every_append.mpr ⟨?_, hnew.mono fun j hj => hj.fits _⟩
    refine Every.set (hw.fits.mono fun j hj => ⟨fun k' heq hnot => ?_, hj.sourced⟩) hi
      fun j hj => (hjs j hj).fits _
    rw [hterminals] at hnot
    exact absurd (hno k' (hj.handler k' heq)) hnot

theorem Settled.begin {k : ℕ}
    (hidle : w.shared.session.upgrading = false) (hundecided : h.undecided = w.shared.undecided ++ [k])
    (hterminals : h.terminals = w.shared.terminals) (hup : h.session.upgrading = true)
    (hhandler : ∀ k, h.session.handler k = w.shared.session.handler k)
    (hjs : (js.map decides).sum = 0) (hfits : ∀ j ∈ js, Fits h j) (hnew : Every Plain new) :
    Settled ⟨h, w.tasks.set i (js ++ rest) ++ new⟩ := by
  have hnone : w.shared.undecided = [] := by
    rcases hw.flagged with ⟨hnone, -⟩ | ⟨k', -, hbusy⟩
    · exact hnone
    · rw [hidle] at hbusy
      cases hbusy
  have hpending : load decides w.tasks = 0 := by
    have hle := hw.pending
    rw [hnone] at hle
    exact Multiset.le_zero.mp hle
  obtain ⟨r, hold, hload⟩ := exists_load_go decides hi js new
  obtain rfl : r = 0 := by
    refine Multiset.le_zero.mp ?_
    rw [← hpending, hold]
    exact Multiset.le_add_right _ _
  rw [hjs, load_plain hnew, add_zero, add_zero] at hload
  rw [hnone, List.nil_append] at hundecided
  refine ⟨.inr ⟨k, hundecided, hup⟩, ?_, ?_, ?_, ?_⟩
  · rw [hload]
    exact Multiset.zero_le _
  · rw [hload]
    exact fun k hk => absurd hk (Multiset.notMem_zero k)
  · intro k' hh hnot
    rw [hhandler] at hh
    rw [hterminals] at hnot
    have hmem := hw.fresh k' hh hnot
    rw [hnone] at hmem
    cases hmem
  · refine every_append.mpr ⟨?_, hnew.mono fun j hj => hj.fits _⟩
    refine Every.set (hw.fits.mono fun j hj => ⟨fun k' heq hnot => ?_, hj.sourced⟩) hi hfits
    rw [hterminals] at hnot
    have hmem := hj.handler k' heq hnot
    rw [hnone] at hmem
    cases hmem

theorem Settled.report {k : ℕ}
    (hk : w.shared.session.handler k = some .upgradeHandler)
    (hundecided : h.undecided = w.shared.undecided) (hterminals : h.terminals = w.shared.terminals ++ [k])
    (hsession : h.session = w.shared.session)
    (hjs : (js.map decides).sum = if k ∈ w.shared.terminals then 0 else {k})
    (hplain : ∀ j ∈ js, (∀ k, j.duty ≠ .session (.setHandler k .upgradeHandler)) ∧ Sourced j) :
    Settled ⟨h, w.tasks.set i (js ++ rest)⟩ := by
  obtain ⟨r, hold, hload⟩ := exists_load_set decides hi js
  have hr : r ≤ load decides w.tasks := by
    rw [hold]
    exact Multiset.le_add_right _ _
  have hpending : load decides (w.tasks.set i (js ++ rest)) ≤ (w.shared.undecided : Multiset ℕ) ∧
      ∀ k' ∈ load decides (w.tasks.set i (js ++ rest)), k' ∈ w.shared.terminals ++ [k] := by
    rw [hload, hjs]
    split_ifs with hmem
    · rw [add_zero]
      refine ⟨hr.trans hw.pending, fun k' hk' => List.mem_append_left _ ?_⟩
      exact hw.reported k' (Multiset.mem_of_le hr hk')
    · -- the first one: the candidate is the undecided one, and nothing was pending
      have hund := hw.fresh k hk hmem
      obtain ⟨k', hone, -⟩ | ⟨hnone, -⟩ := hw.flagged.symm
      · rw [hone] at hund
        obtain rfl := List.mem_singleton.mp hund
        have hle := hr.trans hw.pending
        rw [hone] at hle
        have hkr : k ∉ r := fun hkr => hmem (hw.reported k (Multiset.mem_of_le hr hkr))
        obtain rfl : r = 0 := by
          rcases Multiset.le_singleton.mp hle with rfl | rfl
          · rfl
          · exact absurd (Multiset.mem_singleton_self k) hkr
        rw [zero_add, hone]
        refine ⟨le_rfl, fun k' hk' => ?_⟩
        exact List.mem_append_right _ (List.mem_singleton.mpr (Multiset.mem_singleton.mp hk'))
      · rw [hnone] at hund
        cases hund
  have hless : ∀ k', (k' ∉ w.shared.terminals → k' ∈ w.shared.undecided) → k' ∉ h.terminals →
      k' ∈ h.undecided := by
    intro k' himp hnot
    rw [hterminals] at hnot
    rw [hundecided]
    exact himp fun hmem => hnot (List.mem_append_left _ hmem)
  refine ⟨?_, ?_, ?_, ?_, ?_⟩
  · unfold Flagged
    rw [hundecided, hsession]
    exact hw.flagged
  · rw [hundecided]
    exact hpending.1
  · rw [hterminals]
    exact hpending.2
  · intro k' hh
    rw [hsession] at hh
    exact hless k' (hw.fresh k' hh)
  · refine Every.set (hw.fits.mono fun j hj => ⟨fun k' heq => ?_, hj.sourced⟩) hi fun j hj => ?_
    · exact hless k' (hj.handler k' heq)
    · exact ⟨fun k' heq => absurd heq ((hplain j hj).1 k'), (hplain j hj).2⟩

end

end

end Settled

section Steps

variable {h : Heart} {s' : Session} {c : Choice} {op : Op} {ops : List Op} {new : List (List Op)}
  {source : Option (ℕ × ℕ)} {i k : ℕ} {rest : List Job}

theorem plain_jobs (hj : Sourced ⟨.session op, source⟩) (hrun : h.session.run c op = some (s', ops, new))
    (hnotify : ∀ k n, op ≠ .notify k n) (hupgrade : ∀ k, op ≠ .maybeUpgrade k) :
    ∀ j ∈ h.jobs source op ops, Plain j := by
  refine List.forall_mem_append.mpr ⟨List.forall_mem_map.mpr ?_, List.forall_mem_map.mpr (plain_after hj)⟩
  exact plain_children hj hrun hnotify hupgrade

theorem plain_new (hrun : h.session.run c op = some (s', ops, new)) : Every Plain (new.map Heart.fork) :=
  plain_fork (Session.run_cause hrun).2 fun _ hop => plain_loop hop.2

theorem same_of_run (hrun : h.session.run c op = some (s', ops, new)) (habort : op ≠ .abort)
    (hswitch : ∀ k, op ≠ .switch k) (hupgrade : ∀ k, op ≠ .maybeUpgrade k) (hnotify : ∀ k n, op ≠ .notify k n)
    (hset : ∀ k g, op ≠ .setHandler k g) (source : Option (ℕ × ℕ)) :
    Same h (h.next source op s') := by
  have hframe := Session.run_frame hrun
  have hbeats := h.beat_beats source op
  refine ⟨?_, ?_, ?_, ?_⟩
  · rcases hbeats.undecided with heq | heq | ⟨k, heq⟩ | ⟨k, heq⟩
    · exact heq
    · exact absurd heq habort
    · exact absurd heq (hswitch k)
    · exact absurd heq (hupgrade k)
  · rcases hbeats.terminals with heq | ⟨k, n, heq⟩
    · exact heq
    · exact absurd heq (hnotify k n)
  · rcases hframe.upgrading with heq | heq | ⟨k, heq⟩ | ⟨k, heq⟩
    · exact heq
    · exact absurd heq habort
    · exact absurd heq (hswitch k)
    · exact absurd heq (hupgrade k)
  · intro k hk _
    rw [← Session.run_handler hrun k (hset k)]
    exact .inl hk

theorem Settled.maybeUpgrade (hw : Settled w) (hi : w.tasks[i]? = some (⟨.session (.maybeUpgrade k), source⟩ :: rest))
    (hrun : w.shared.session.run c (.maybeUpgrade k) = some (s', ops, new)) :
    Settled (turn w i source (.maybeUpgrade k) s' ops rest new) := by
  have hnew := plain_new hrun
  have hhandler k := Session.run_handler hrun k (by simp)
  simp only [Session.run] at hrun
  split_ifs at hrun with hrefuse <;> obtain ⟨rfl, rfl, rfl⟩ := run_inj hrun
  · refine hw.go_on hi ⟨?_, ?_, rfl, fun k hk _ => .inl hk⟩ ?_ hnew
    · simp only [Heart.next, Heart.beat, if_pos hrefuse]
    · simp only [Heart.next, Heart.beat, if_pos hrefuse]
    · exact List.forall_mem_singleton.mpr ⟨rfl, by simp, False.elim, False.elim⟩
  · have hidle : w.shared.session.upgrading = false := Bool.eq_false_of_not_eq_true fun hup => hrefuse (.inl hup)
    have hundecided : (w.shared.beat source (.maybeUpgrade k)).undecided = w.shared.undecided ++ [k] := by
      simp only [Heart.beat, if_neg hrefuse]
    refine hw.begin hi hidle hundecided ?_ rfl hhandler rfl ?_ hnew
    · simp only [Heart.next, Heart.beat, if_neg hrefuse]
      rfl
    · refine List.forall_mem_singleton.mpr ⟨fun k' heq _ => ?_, False.elim, False.elim⟩
      obtain ⟨rfl, -⟩ := Op.setHandler.inj (Duty.session.inj heq)
      exact hundecided ▸ List.mem_append_right _ (List.mem_singleton_self _)

/-- What the first terminal event of a candidate leaves decides it, what later ones leave does
not. -/
theorem decides_count (d : Duty) (hd : d = .session .abort ∨ d = .session (.switch k)) (ks : List ℕ) :
    decides ⟨d, some (k, ks.count k)⟩ = if k ∈ ks then 0 else {k} := by
  split_ifs with hk
  · obtain ⟨n, hn⟩ := Nat.exists_eq_succ_of_ne_zero (List.count_pos_iff.mpr hk).ne'
    rw [hn]
    rcases hd with rfl | rfl <;> rfl
  · rw [List.count_eq_zero.mpr hk]
    rcases hd with rfl | rfl <;> rfl

theorem notify_passes {s : Session} (hrun : s.run c (.notify k n) = some (s', ops, new))
    (hterm : ¬(s.handler k = some .upgradeHandler ∧ ¬n.probe)) :
    s' = s ∧ ∀ op ∈ ops, ¬Ends (.session op) := by
  simp only [Session.run] at hrun
  split at hrun <;> obtain ⟨rfl, rfl, -⟩ := run_inj hrun
  · exact ⟨rfl, List.forall_mem_nil _⟩
  · rename_i hk
    have hprobe : n.probe = true := by
      by_contra hprobe
      exact hterm ⟨hk, hprobe⟩
    rw [Session.upgradeHandler_probe k hprobe]
    exact ⟨rfl, List.forall_mem_cons.mpr ⟨id, List.forall_mem_singleton.mpr id⟩⟩
  · refine ⟨rfl, ?_⟩
    cases n <;> exact List.forall_mem_singleton.mpr id

theorem Settled.notify (hw : Settled w)
    (hi : w.tasks[i]? = some (⟨.session (.notify k n), source⟩ :: rest))
    (hrun : w.shared.session.run c (.notify k n) = some (s', ops, new)) :
    Settled (turn w i source (.notify k n) s' ops rest new) := by
  have hsourced := (hw.fits.head hi).sourced.children hrun
  have hset : ∀ op' ∈ ops, ∀ k', op' ≠ .setHandler k' .upgradeHandler := by
    rintro op' hop' k' rfl
    cases (Session.run_cause hrun).1 _ hop'
  by_cases hterm : w.shared.session.handler k = some .upgradeHandler ∧ ¬n.probe
  · simp only [Session.run, hterm.1] at hrun
    obtain ⟨rfl, rfl, rfl⟩ := run_inj hrun
    rw [turn, List.map_nil, List.append_nil]
    refine hw.report hi hterm.1 ?_ ?_ rfl ?_ ?_
    · simp only [Heart.next, Heart.beat, if_pos hterm]
    · simp only [Heart.next, Heart.beat, if_pos hterm]
    · rcases Session.upgradeHandler_terminal k (Bool.eq_false_of_not_eq_true hterm.2) with heq | heq
      · rw [heq]
        exact (zero_add _).trans ((add_zero _).trans (decides_count _ (.inr rfl) _))
      · rw [heq]
        refine (zero_add _).trans ((zero_add _).trans ((add_zero _).trans ?_))
        exact decides_count _ (.inl rfl) _
    · refine List.forall_mem_append.mpr ⟨List.forall_mem_map.mpr fun op' hop' => ?_, List.forall_mem_nil _⟩
      exact ⟨fun k' heq => hset op' hop' k' (Duty.session.inj heq), hsourced op' hop'⟩
  · have hnew := plain_new hrun
    obtain ⟨rfl, hops⟩ := notify_passes hrun hterm
    refine hw.go_on hi ⟨?_, ?_, rfl, fun k hk _ => .inl hk⟩ ?_ hnew
    · simp only [Heart.next, Heart.beat, if_neg hterm]
    · simp only [Heart.next, Heart.beat, if_neg hterm]
    · refine List.forall_mem_append.mpr ⟨List.forall_mem_map.mpr fun op' hop' => ?_, List.forall_mem_nil _⟩
      refine ⟨?_, fun k' heq => hset op' hop' k' (Duty.session.inj heq), hsourced op' hop'⟩
      have hends := hops op' hop'
      cases op' with
      | abort | switch => exact absurd trivial hends
      | _ => rfl

theorem handler_of_setHandler {s : Session} {k k' : ℕ} {g : Handler}
    (hk : (s.modifyWebsocket k fun w => { w with handler := some g }).handler k' = some .upgradeHandler) :
    k' = k ∧ g = .upgradeHandler ∨ s.handler k' = some .upgradeHandler := by
  rw [Session.handler, Session.getElem?_modifyWebsocket] at hk
  rw [Session.handler]
  cases hw : s.websockets[k']? with
  | none =>
    rw [hw] at hk
    cases hk
  | some w =>
    rw [hw] at hk
    split_ifs at hk with heq
    · exact .inl ⟨heq.symm, Option.some.inj hk⟩
    · exact .inr hk

section Settles

variable (hw : Settled w)

include hw

theorem Settled.setHandler {g : Handler} (hi : w.tasks[i]? = some (⟨.session (.setHandler k g), source⟩ :: rest))
    (hrun : w.shared.session.run c (.setHandler k g) = some (s', ops, new)) :
    Settled (turn w i source (.setHandler k g) s' ops rest new) := by
  have hfits := hw.fits.head hi
  have hnew := plain_new hrun
  have hjs := plain_jobs hfits.sourced hrun (by simp) (by simp)
  obtain ⟨rfl, -⟩ := run_inj hrun
  refine hw.go_on hi ⟨rfl, rfl, rfl, fun k' hk' hnot => ?_⟩ hjs hnew
  rcases handler_of_setHandler hk' with ⟨rfl, rfl⟩ | hk'
  · exact .inr (hfits.handler k' rfl hnot)
  · exact .inl hk'

theorem Settled.abort (hi : w.tasks[i]? = some (⟨.session .abort, source⟩ :: rest))
    (hrun : w.shared.session.run c .abort = some (s', ops, new)) (hspent : Spent w.shared ⟨.session .abort, source⟩) :
    Settled (turn w i source .abort s' ops rest new) := by
  have hfits := hw.fits.head hi
  have hnew := plain_new hrun
  have hjs := plain_jobs hfits.sourced hrun (by simp) (by simp)
  obtain ⟨rfl, -⟩ := run_inj hrun
  rcases source with _ | ⟨k, _ | n⟩
  · exact absurd rfl (hfits.sourced.ends trivial)
  · refine hw.decide hi rfl ?_ ?_ rfl (fun _ => rfl) hjs hnew
    · exact Heart.undecided_restart _
    · exact Heart.terminals_restart _
  · refine hw.go_on hi ⟨?_, ?_, hspent.1.symm, fun k hk _ => .inl hk⟩ hjs hnew
    · exact Heart.undecided_restart _
    · exact Heart.terminals_restart _

theorem Settled.switch (hi : w.tasks[i]? = some (⟨.session (.switch k), source⟩ :: rest))
    (hrun : w.shared.session.run c (.switch k) = some (s', ops, new))
    (hspent : Spent w.shared ⟨.session (.switch k), source⟩) :
    Settled (turn w i source (.switch k) s' ops rest new) := by
  have hfits := hw.fits.head hi
  have hnew := plain_new hrun
  have hjs := plain_jobs hfits.sourced hrun (by simp) (by simp)
  have hhandler k := Session.run_handler hrun k (by simp)
  simp only [Session.run] at hrun
  rcases source with _ | ⟨k', _ | n⟩
  · exact absurd rfl (hfits.sourced.ends trivial)
  · rw [if_neg (show ¬w.shared.session.readyState = .closed from hspent)] at hrun
    obtain ⟨rfl, -⟩ := run_inj hrun
    exact hw.decide hi rfl rfl rfl rfl hhandler hjs hnew
  · refine hw.go_on hi ⟨rfl, rfl, ?_, fun k hk _ => .inl ((hhandler k).symm.trans hk)⟩ hjs hnew
    split_ifs at hrun with hclosed <;> obtain ⟨rfl, -⟩ := run_inj hrun
    · rfl
    · exact (hspent.resolve_left hclosed).1.symm

theorem Settled.session (hi : w.tasks[i]? = some (⟨.session op, source⟩ :: rest))
    (hrun : w.shared.session.run c op = some (s', ops, new)) (hspent : Spent w.shared ⟨.session op, source⟩) :
    Settled (turn w i source op s' ops rest new) := by
  by_cases hnotify : ∃ k n, op = .notify k n
  · obtain ⟨k, n, rfl⟩ := hnotify
    exact hw.notify hi hrun
  by_cases hupgrade : ∃ k, op = .maybeUpgrade k
  · obtain ⟨k, rfl⟩ := hupgrade
    exact hw.maybeUpgrade hi hrun
  by_cases hset : ∃ k g, op = .setHandler k g
  · obtain ⟨k, g, rfl⟩ := hset
    exact hw.setHandler hi hrun
  by_cases habort : op = .abort
  · subst habort
    exact hw.abort hi hrun hspent
  by_cases hswitch : ∃ k, op = .switch k
  · obtain ⟨k, rfl⟩ := hswitch
    exact hw.switch hi hrun hspent
  push Not at hnotify hupgrade hset hswitch
  exact hw.go_on hi (same_of_run hrun habort hswitch hupgrade hnotify hset source)
    (plain_jobs (hw.fits.head hi).sourced hrun hnotify hupgrade) (plain_new hrun)

end Settles

theorem Settled.step (hw : Settled w) (hok : Orderly w a) (hs : step w a = some w') : Settled w' := by
  cases step_does hs with
  | session hi hrun => exact hw.session hi hrun (hok _ (next?_eq_some hi))
  | schedulePing hi | armTimeout hi => exact hw.arm hi ⟨rfl, rfl, rfl, fun k hk _ => .inl hk⟩
  | resume hi =>
    refine hw.arm hi ⟨Heart.undecided_restart _, Heart.terminals_restart _, ?_, fun k hk _ => .inl ?_⟩
    · rw [Heart.session_restart]
    · rw [Heart.session_restart] at hk
      exact hk
  | event _ _ he =>
    refine hw.start ⟨rfl, rfl, ?_, fun k hk _ => .inl ?_⟩
      (plain_fork (Session.occurs_entry he) fun _ hop => plain_entry hop)
    · exact (Session.occurs_outside he).upgrading
    · exact (Session.occurs_handler he k).symm.trans hk
  | @fire i alarm hi =>
    refine hw.start ⟨rfl, rfl, rfl, fun k hk _ => .inl hk⟩ (every_cons.mpr ⟨?_, every_nil⟩)
    cases alarm <;> exact List.forall_mem_singleton.mpr ⟨rfl, nofun, fun _ => rfl, nofun⟩

/-- What is done for a later event changes nothing, given that there is nothing to change. -/
theorem inert_of_spent {n : ℕ} {j : Job} (hw : Settled w) (hok : Orderly w (.go i c))
    (hs : step w (.go i c) = some w') (hj : next? w.tasks i = some j) (hsource : j.source = some (k, n + 1)) :
    Inert w.shared w'.shared := by
  have hspent := hok j hj
  cases step_does hs with
  | @session _ _ op source _ s ops new hi hrun =>
    obtain rfl := Option.some.inj (hj.symm.trans (next?_eq_some hi))
    obtain rfl : source = some (k, n + 1) := hsource
    have hdirect : ¬Direct (.session op) := fun hd => Option.some_ne_none _ ((hw.fits.head hi).sourced.direct hd)
    have hframe := Session.run_frame hrun
    refine ⟨?_, ?_, ?_⟩
    · rcases hframe.upgrading with heq | rfl | ⟨k, rfl⟩ | ⟨k, rfl⟩
      · exact heq
      · obtain ⟨rfl, -⟩ := run_inj hrun
        exact hspent.1.symm
      · simp only [Session.run] at hrun
        split_ifs at hrun with hclosed <;> obtain ⟨rfl, -⟩ := run_inj hrun
        · rfl
        · exact (hspent.resolve_left hclosed).1.symm
      · exact absurd trivial hdirect
    · rcases hframe.transport with heq | ⟨t, rfl⟩ | ⟨k, rfl⟩
      · exact heq
      · exact absurd trivial hdirect
      · simp only [Session.run] at hrun
        split_ifs at hrun with hclosed <;> obtain ⟨rfl, -⟩ := run_inj hrun
        · rfl
        · exact (hspent.resolve_left hclosed).2.symm
    · rcases (w.shared.beat_beats (some (k, n + 1)) op).clocks with
        heq | ⟨p, rfl⟩ | rfl | ⟨r, rfl⟩ | ⟨k, rfl⟩ | rfl
      · exact heq
      · exact absurd trivial hdirect
      · exact absurd trivial hdirect
      · exact absurd trivial hdirect
      · exact absurd trivial hdirect
      · change w.shared.restart.clocks = _
        rw [Heart.restart, if_neg hspent.2]
  | schedulePing hi | armTimeout hi =>
    obtain rfl := Option.some.inj (hj.symm.trans (next?_eq_some hi))
    exact absurd ((hw.fits.head hi).sourced.direct trivial) (hsource ▸ Option.some_ne_none _)
  | @resume _ _ source _ hi =>
    obtain rfl := Option.some.inj (hj.symm.trans (next?_eq_some hi))
    obtain rfl : source = some (k, n + 1) := hsource
    rw [Heart.restart, if_neg hspent]
    exact ⟨rfl, rfl, rfl⟩

end Steps

theorem settled_opened (direct : Bool) : Settled (opened direct) := by
  have hload : load decides (opened direct).tasks = 0 := by
    cases direct <;> rfl
  refine ⟨.inl ⟨rfl, rfl⟩, ?_, ?_, fun k hk => ?_, ?_⟩
  · rw [hload]
    exact Multiset.zero_le _
  · rw [hload]
    exact fun k hk => absurd hk (Multiset.notMem_zero k)
  · -- the websocket of the handshake has the other handler
    cases direct with
    | false => cases hk
    | true => cases k <;> cases hk
  · refine every_cons.mpr ⟨List.forall_mem_singleton.mpr ⟨nofun, fun _ => rfl, nofun⟩, ?_⟩
    cases direct with
    | false => exact every_nil
    | true => exact every_cons.mpr ⟨List.forall_mem_singleton.mpr ⟨nofun, nofun, nofun⟩, every_nil⟩

section Watched

/-- The session is no longer open, and no upgrade is going on. -/
def Over (s : Session) : Prop := s.readyState ≠ .opened ∧ s.upgrading = false

/-- The read loop of a candidate goes on, or reports its end. -/
def Reports (k : ℕ) (op : Op) : Prop := op = .read k ∨ op = .notify k .close

/-- After it, the handler of the candidate is the other one, or the session is over. -/
def Settles (k : ℕ) (s : Session) (op : Op) : Prop :=
  op = .switch k ∨ op = .setHandler k .transportBinding ∨ op = .abort ∧ s.readyState ≠ .opened

/-- What is done for a later event is done when the session is over. -/
def Late (s : Session) (j : Job) : Prop :=
  ∀ k n, j.source = some (k, n + 1) → Over s ∧ j.duty ≠ .resume ∧ ∀ k', j.duty ≠ .session (.switch k')

/-- A candidate that has reported a terminal event reports nothing more to its `upgradeHandler`,
unless the session is over then. -/
structure Watched (w : State) : Prop where
  looped : ∀ k, State.Looped k (sessionOf w)
  unopened : Every (· ≠ .setOpen) (sessionOf w).tasks
  known : ∀ k ∈ w.shared.terminals, w.shared.session.handler k ≠ none
  guarded : ∀ k ∈ w.shared.terminals, w.shared.session.handler k = some .upgradeHandler →
    ∀ as ∈ (sessionOf w).tasks,
      Guarded (Reports k) (Settles k w.shared.session) (Over w.shared.session) as
  late : Every (Late w.shared.session) w.tasks

variable {s s' : Session} {c : Choice} {op op' : Op} {rest ops : List Op} {new : List (List Op)} {i k : ℕ}

theorem unopened_run (hrun : s.run c op = some (s', ops, new)) (hop : op ≠ .setOpen)
    (hs : s.readyState ≠ .opened) : s'.readyState ≠ .opened := by
  rcases (Session.run_frame hrun).readyState with heq | heq | rfl | ⟨r, rfl⟩
  · rw [heq]
    exact hs
  · exact absurd heq hop
  · simp only [Session.run, if_pos hs] at hrun
    obtain ⟨rfl, -⟩ := run_inj hrun
    exact hs
  · simp only [Session.run] at hrun
    split_ifs at hrun <;> obtain ⟨rfl, -⟩ := run_inj hrun
    · exact hs
    · simp

theorem Over.run (h : Over s) (hrun : s.run c op = some (s', ops, new)) (hop : op ≠ .setOpen) : Over s' := by
  refine ⟨unopened_run hrun hop h.1, ?_⟩
  rcases (Session.run_frame hrun).upgrading with heq | rfl | ⟨k, rfl⟩ | ⟨k, rfl⟩
  · exact heq.trans h.2
  · obtain ⟨rfl, -⟩ := run_inj hrun
    rfl
  · simp only [Session.run] at hrun
    split_ifs at hrun <;> obtain ⟨rfl, -⟩ := run_inj hrun
    · exact h.2
    · rfl
  · simp only [Session.run, if_pos (Or.inr (Or.inr h.1))] at hrun
    obtain ⟨rfl, -⟩ := run_inj hrun
    exact h.2

theorem Settles.run (h : Settles k s op') (hrun : s.run c op = some (s', ops, new)) (hop : op ≠ .setOpen) :
    Settles k s' op' :=
  h.imp_right (Or.imp_right (And.imp_right (unopened_run hrun hop)))

theorem reports_cause (hrun : s.run c op = some (s', ops, new)) (hop' : op' ∈ ops) (h : Reports k op') :
    op = .read k := by
  have hcause := (Session.run_cause hrun).1 op' hop'
  rcases h with rfl | rfl
  · rcases hcause with heq | ⟨-, g, rfl⟩
    · exact heq
    · obtain ⟨-, rfl, -⟩ := run_inj hrun
      cases hop'
  · exact hcause

theorem guarded_go (h : Guarded (Reports k) (Settles k s) (Over s) (op :: rest))
    (hrun : s.run c op = some (s', ops, new)) (hop : op ≠ .setOpen)
    (hk : s'.handler k = some .upgradeHandler) (hswitch : op = .switch k → s.readyState ≠ .closed) :
    Guarded (Reports k) (Settles k s') (Over s') (ops ++ rest) := by
  refine Guarded.append (.of_forall fun op' hop' hreports => ?_)
    (h.2.mono ?_ (fun _ _ => id) fun op' _ hs => hs.run hrun hop)
  · have heq := reports_cause hrun hop' hreports
    exact (h.1 (.inl heq)).run hrun hop
  · rintro (hover | rfl | rfl | ⟨rfl, hclosing⟩)
    · exact .inl (hover.run hrun hop)
    · simp only [Session.run, if_neg (hswitch rfl)] at hrun
      obtain ⟨-, rfl, -⟩ := run_inj hrun
      exact .inr ⟨.setHandler k .transportBinding, by simp [Session.afterSwitch], .inr (.inl rfl)⟩
    · -- the candidate has its other handler now
      obtain ⟨rfl, -⟩ := run_inj hrun
      rcases handler_of_setHandler hk with ⟨-, hg⟩ | hold
      · cases hg
      · rw [Session.handler_setHandler (Session.lt_of_handler (by simp [hold]))] at hk
        cases hk
    · obtain ⟨rfl, -⟩ := run_inj hrun
      exact .inl ⟨hclosing, rfl⟩

theorem settles_upgradeHandler (hn : ¬n.probe)
    (h : (∃ p, n = .packet p ∧ p.type = .upgrade) ∨ s.readyState ≠ .opened) :
    ∃ op ∈ Session.upgradeHandler k n, Settles k s op := by
  rcases h with ⟨p, rfl, hup⟩ | hclosing
  · have hprobe : ¬(p.type = .ping ∧ p.data = [112, 114, 111, 98, 101]) := fun hp => hn (decide_eq_true hp)
    rw [Session.upgradeHandler, if_neg hprobe, if_pos hup]
    exact ⟨.switch k, by simp, .inl rfl⟩
  · rcases Session.upgradeHandler_terminal k (Bool.eq_false_of_not_eq_true hn) with heq | heq <;> rw [heq]
    · exact ⟨.switch k, by simp, .inl rfl⟩
    · exact ⟨.abort, by simp, .inr (.inr ⟨rfl, hclosing⟩)⟩

theorem Reports.loops (h : Reports k op) : op.loops k = 1 := by
  rcases h with rfl | rfl <;> exact if_pos rfl

/-- The first terminal event of a candidate. Its read loop has ended, or goes on when the
candidate has its other handler or the session is over. -/
theorem guarded_first {v : Engine.State} (h : State.Looped k v)
    (hi : v.tasks[i]? = some (.notify k n :: rest)) (hn : ¬n.probe)
    (hok : n = .close ∨ .read k ∈ rest ∧
    ((∃ p, n = .packet p ∧ p.type = .upgrade) ∨ v.shared.readyState ≠ .opened)) :
    ∀ as ∈ v.tasks.set i (Session.upgradeHandler k n ++ rest),
    Guarded (Reports k) (Settles k v.shared) (Over v.shared) as := by
  have hops : ∀ op ∈ Session.upgradeHandler k n, ¬Reports k op := by
    rcases Session.upgradeHandler_terminal k (Bool.eq_false_of_not_eq_true hn) with heq | heq <;> rw [heq] <;>
      simp [Reports]
  obtain ⟨op, hop, hloops⟩ : ∃ op ∈ .notify k n :: rest, op.loops k ≠ 0 := by
    rcases hok with rfl | ⟨hread, -⟩
    · exact ⟨_, List.mem_cons_self, by simp [Op.loops]⟩
    · exact ⟨_, List.mem_cons_of_mem _ hread, by simp [Op.loops]⟩
  have halone := h.alone hi hop hloops
  rw [← List.set_set (a := [])]
  refine forall_set (fun as has => .of_forall_not fun op' hop' hreports => ?_) ?_
  · cases hreports.loops.symm.trans (halone as has op' hop')
  · refine Guarded.append (.of_forall_not hops) ?_
    rcases hok with rfl | ⟨-, hok⟩
    · refine .of_forall_not fun op' hop' hreports => ?_
      have honce := h.once
      have hle := le_load (Op.loops k) (mem_set_self hi (u := rest)) hop'
      rw [hreports.loops] at hle
      rw [load_pop _ hi, show Op.loops k (.notify k .close) = 1 from if_pos rfl] at honce
      omega
    · exact .of_forall fun _ _ _ => .inr (settles_upgradeHandler hn hok)

/-- What is delivered to the `upgradeHandler` of a candidate: first, an Upgrade packet or the
end of its read loop, and anything else only when the session is no longer open; then, the end
of its read loop. An Upgrade packet finds the session not closed. -/
def Heeds (h : Heart) : List Job → Prop
  | ⟨.session (.notify k (.packet p)), _⟩ :: _ => h.session.handler k = some .upgradeHandler →
    k ∉ h.terminals ∧
      ((Notice.packet p).probe = true ∨ p.type = .upgrade ∨ h.session.readyState ≠ .opened)
  | ⟨.session (.notify k .error), _⟩ :: rest => h.session.handler k = some .upgradeHandler →
    k ∉ h.terminals ∧ h.session.readyState ≠ .opened ∧ ∃ j ∈ rest, j.duty = .session (.read k)
  | ⟨.session (.switch _), _⟩ :: _ => h.session.readyState ≠ .closed
  | _ => True

def Behaved (w : State) : Act → Prop
  | .go i _ => ∀ js ∈ w.tasks[i]?, Heeds w.shared js
  | _ => True

theorem Watched.orderly (hw : Watched w) {a : Act} (hok : Behaved w a) : Orderly w a := by
  cases a with
  | event | fire => trivial
  | go i c =>
    intro j hj
    obtain ⟨js, hi, hhead⟩ := Option.bind_eq_some_iff.mp hj
    obtain ⟨rest, rfl⟩ := List.head?_eq_some_iff.mp hhead
    have hlate := hw.late.head hi
    have hheeds := hok _ hi
    obtain ⟨duty, source⟩ := j
    cases duty with
    | schedulePing | armTimeout => trivial
    | resume =>
      rcases source with _ | ⟨k, _ | n⟩
      · trivial
      · trivial
      · exact absurd rfl (hlate k n rfl).2.1
    | session op =>
      cases op with
      | abort =>
        rcases source with _ | ⟨k, _ | n⟩
        · trivial
        · trivial
        · exact (hlate k n rfl).1.symm
      | switch k' =>
        rcases source with _ | ⟨k, _ | n⟩
        · trivial
        · exact hheeds
        · exact absurd rfl ((hlate k n rfl).2.2 k')
      | _ => trivial

theorem handler_run (hrun : s.run c op = some (s', ops, new)) (hk : s.handler k ≠ none) :
    s'.handler k ≠ none := by
  by_cases hset : ∃ g, op = .setHandler k g
  · obtain ⟨g, rfl⟩ := hset
    obtain ⟨rfl, -⟩ := run_inj hrun
    rw [Session.handler_setHandler (Session.lt_of_handler hk)]
    exact nofun
  · rw [Session.run_handler hrun k fun g heq => hset ⟨g, heq⟩]
    exact hk

theorem mem_terminals {h : Heart} {source : Option (ℕ × ℕ)} (hk : k ∈ (h.beat source op).terminals) :
    k ∈ h.terminals ∨ ∃ n, op = .notify k n ∧ h.session.handler k = some .upgradeHandler ∧ ¬n.probe := by
  rcases (h.beat_beats source op).terminals with heq | ⟨j, n, rfl⟩
  · rw [heq] at hk
    exact .inl hk
  · simp only [Heart.beat] at hk
    split_ifs at hk with hterm
    · refine (List.mem_append.mp hk).imp_right fun hmem => ?_
      obtain rfl := List.mem_singleton.mp hmem
      exact ⟨n, rfl, hterm⟩
    · exact .inl hk

section Go

variable {source : Option (ℕ × ℕ)} {js : List Job}

section

variable (hw : Watched w)

include hw

theorem Watched.guarded_old (hi : w.tasks[i]? = some (⟨.session op, source⟩ :: js))
    (hok : Heeds w.shared (⟨.session op, source⟩ :: js))
    (hrun : w.shared.session.run c op = some (s', ops, new)) (hmem : k ∈ w.shared.terminals)
    (hk : s'.handler k = some .upgradeHandler) :
    ∀ as ∈ (sessionOf w).tasks.set i (ops ++ js.filterMap opOf) ++ new,
      Guarded (Reports k) (Settles k s') (Over s') as := by
  have hi' := getElem?_sessionOf hi
  have hop := hw.unopened.head hi'
  have hold : w.shared.session.handler k = some .upgradeHandler := by
    by_cases hset : ∃ g, op = .setHandler k g
    · obtain ⟨g, rfl⟩ := hset
      obtain ⟨rfl, -⟩ := run_inj hrun
      rcases handler_of_setHandler hk with ⟨-, rfl⟩ | hold
      · exact absurd (((hw.looped k).kept.head hi').starting (.inr rfl)) (hw.known k hmem)
      · exact hold
    · rw [← Session.run_handler hrun k fun g heq => hset ⟨g, heq⟩]
      exact hk
  have hguarded := hw.guarded k hmem hold
  refine List.forall_mem_append.mpr ⟨forall_set (fun as has => ?_) ?_, fun as has => ?_⟩
  · exact (hguarded as has).mono (fun hover => hover.run hrun hop) (fun _ _ => id)
      fun _ _ hs => hs.run hrun hop
  · refine guarded_go (hguarded _ (List.mem_of_getElem? hi')) hrun hop hk ?_
    rintro rfl
    exact hok
  · -- a loop is started for a websocket without a handler only
    refine .of_forall_not fun op' hop' hreports => ?_
    obtain ⟨hcause, hloop⟩ := (Session.run_cause hrun).2 as has op' hop'
    rcases hreports with rfl | rfl
    · rcases hcause with rfl | ⟨hnone, -⟩
      · cases c <;> simp only [Session.run] at hrun <;> first
          | (split_ifs at hrun; obtain ⟨-, -, rfl⟩ := run_inj hrun; cases has)
          | cases hrun
      · exact hw.known k hmem hnone
    · exact hloop

theorem Watched.guarded_new
    (hi : w.tasks[i]? = some (⟨.session (.notify k n), source⟩ :: js))
    (hok : Heeds w.shared (⟨.session (.notify k n), source⟩ :: js))
    (hrun : w.shared.session.run c (.notify k n) = some (s', ops, new))
    (hk : w.shared.session.handler k = some .upgradeHandler) (hn : ¬n.probe) :
    ∀ as ∈ (sessionOf w).tasks.set i (ops ++ js.filterMap opOf) ++ new,
    Guarded (Reports k) (Settles k s') (Over s') as := by
  have hi' := getElem?_sessionOf hi
  simp only [Session.run, hk] at hrun
  obtain ⟨rfl, rfl, rfl⟩ := run_inj hrun
  rw [List.append_nil]
  refine guarded_first (hw.looped k) hi' hn ?_
  cases n with
  | close => exact .inl rfl
  | packet p =>
    refine .inr ⟨((hw.looped k).followed _ (List.mem_of_getElem? hi')).1 (by simp [Op.turns]), ?_⟩
    obtain ⟨-, hprobe | hup | hclosing⟩ := hok hk
    · exact absurd hprobe hn
    · exact .inl ⟨p, rfl, hup⟩
    · exact .inr hclosing
  | error =>
    obtain ⟨-, hclosing, j, hj, hread⟩ := hok hk
    refine .inr ⟨List.mem_filterMap.mpr ⟨j, hj, ?_⟩, .inr hclosing⟩
    rw [opOf, hread]

theorem Watched.late_notify {m : Notice} {j n : ℕ}
    (hi : w.tasks[i]? = some (⟨.session (.notify j m), source⟩ :: js))
    (hok : Heeds w.shared (⟨.session (.notify j m), source⟩ :: js))
    (hrun : w.shared.session.run c (.notify j m) = some (s', ops, new)) (hop' : op' ∈ ops)
    (hsource : w.shared.sourceOf source (.notify j m) op' = some (k, n + 1)) :
    Over s' ∧ ∀ k', op' ≠ .switch k' := by
  simp only [Session.run] at hrun
  split at hrun <;> obtain ⟨rfl, rfl, -⟩ := run_inj hrun
  · cases hop'
  · rename_i hk
    have hmem : j ∈ w.shared.terminals := by
      unfold Heart.sourceOf at hsource
      split at hsource
      · cases hsource
      · cases hsource
      · cases hsource
      · rename_i heq
        obtain ⟨rfl, -⟩ := Op.notify.inj heq
        refine List.count_pos_iff.mp ?_
        rw [(Prod.mk.inj (Option.some.inj hsource)).2]
        exact Nat.succ_pos n
      · rename_i hnot
        exact absurd rfl (hnot j m)
    cases m with
    | packet | error => exact absurd hmem (hok hk).1
    | close =>
      refine ⟨(hw.guarded j hmem hk _ (List.mem_of_getElem? (getElem?_sessionOf hi))).1 (.inr rfl), ?_⟩
      rintro k' rfl
      simp [Session.upgradeHandler] at hop'
  · cases m <;> obtain rfl := List.mem_singleton.mp hop' <;> cases hsource

theorem Watched.late_jobs (hi : w.tasks[i]? = some (⟨.session op, source⟩ :: js))
    (hok : Heeds w.shared (⟨.session op, source⟩ :: js))
    (hrun : w.shared.session.run c op = some (s', ops, new)) :
    ∀ j ∈ w.shared.jobs source op ops, Late s' j := by
  have hop := hw.unopened.head (getElem?_sessionOf hi)
  have hlate := hw.late.head hi
  refine List.forall_mem_append.mpr ⟨List.forall_mem_map.mpr fun op' hop' k n hsource => ?_,
    List.forall_mem_map.mpr fun d hd k n hsource => ?_⟩
  · by_cases hnotify : ∃ j m, op = .notify j m
    · obtain ⟨j, m, rfl⟩ := hnotify
      obtain ⟨hover, hswitch⟩ := hw.late_notify hi hok hrun hop' hsource
      exact ⟨hover, nofun, fun k' heq => hswitch k' (Duty.session.inj heq)⟩
    · push Not at hnotify
      have hparent : source = some (k, n + 1) := by
        unfold Heart.sourceOf at hsource
        split at hsource
        · cases hsource
        · cases hsource
        · cases hsource
        · exact absurd rfl (hnotify _ _)
        · exact hsource
      refine ⟨(hlate k n hparent).1.run hrun hop, nofun, fun k' heq => ?_⟩
      obtain rfl := Duty.session.inj heq
      obtain ⟨-, p, heq⟩ := (Session.run_cause hrun).1 _ hop'
      exact hnotify _ _ heq
  · obtain ⟨hover, -, hswitch⟩ := hlate k n hsource
    unfold Heart.after at hd
    split at hd
    · split at hd
      · obtain rfl := List.mem_singleton.mp hd
        exact ⟨hover.run hrun hop, nofun, nofun⟩
      · cases hd
    · exact absurd rfl (hswitch _)
    · cases hd

theorem Watched.session (hi : w.tasks[i]? = some (⟨.session op, source⟩ :: js))
    (hok : Heeds w.shared (⟨.session op, source⟩ :: js))
    (hrun : w.shared.session.run c op = some (s', ops, new)) :
    Watched (turn w i source op s' ops js new) := by
  have hi' := getElem?_sessionOf hi
  have hop := hw.unopened.head hi'
  have hcause := Session.run_cause hrun
  refine ⟨fun k => ?_, ?_, fun k hk => ?_, fun k hmem hk => ?_, every_append.mpr ⟨?_, ?_⟩⟩
  · rw [sessionOf_go]
    exact (hw.looped k).go hi' hrun
  · rw [sessionOf_go]
    refine every_append.mpr ⟨hw.unopened.set hi' fun op' hop' => ?_, hcause.2.mono fun op' hop' => ?_⟩
    · rintro rfl
      exact hcause.1 _ hop'
    · rintro rfl
      exact hop'.1
  · refine handler_run hrun ?_
    rcases mem_terminals hk with hk | ⟨n, rfl, hk, -⟩
    · exact hw.known k hk
    · rw [hk]
      exact nofun
  · rw [sessionOf_go]
    rcases mem_terminals hmem with hmem | ⟨n, rfl, hk, hn⟩
    · exact hw.guarded_old hi hok hrun hmem hk
    · exact hw.guarded_new hi hok hrun hk hn
  · refine Every.set (hw.late.mono fun j hj k n hsource => ?_) hi (hw.late_jobs hi hok hrun)
    exact (hj k n hsource).imp_left fun hover => hover.run hrun hop
  · exact List.forall_mem_map.mpr fun ops _ => List.forall_mem_map.mpr fun _ _ _ _ => nofun

end

end Go

theorem Watched.arm {h : Heart} {j : Job} {js : List Job} (hw : Watched w) (hi : w.tasks[i]? = some (j :: js))
    (hj : opOf j = none) (hs : h.session = w.shared.session) (hterminals : h.terminals = w.shared.terminals) :
    Watched ⟨h, w.tasks.set i js⟩ := by
  obtain ⟨hlooped, hunopened, hknown, hguarded, hlate⟩ := hw
  have hsame := sessionOf_set hi hj hs
  refine ⟨?_, ?_, ?_, ?_, ?_⟩
  · rw [hsame]
    exact hlooped
  · rw [hsame]
    exact hunopened
  · rw [hterminals, hs]
    exact hknown
  · rw [hsame, hterminals, hs]
    exact hguarded
  · change Every (Late h.session) _
    rw [hs]
    exact hlate.set hi (List.forall_mem_nil _)

theorem Watched.start {h : Heart} {e : Event} (hw : Watched w)
    (he : w.shared.session.occurs e = some (h.session, new)) (hterminals : h.terminals = w.shared.terminals) :
    Watched ⟨h, w.tasks ++ new.map Heart.fork⟩ := by
  obtain ⟨hlooped, hunopened, hknown, hguarded, hlate⟩ := hw
  have hsame : sessionOf ⟨h, w.tasks ++ new.map Heart.fork⟩ = ⟨h.session, (sessionOf w).tasks ++ new⟩ := by
    simp only [sessionOf, List.map_append, filterMap_opOf_fork]
  have hentry := Session.occurs_entry he
  have hhandler := Session.occurs_handler he
  have hout := Session.occurs_outside he
  refine ⟨fun k => ?_, ?_, ?_, fun k hmem hk => ?_, every_append.mpr ⟨?_, ?_⟩⟩
  · rw [hsame]
    exact (hlooped k).event he
  · rw [hsame]
    refine every_append.mpr ⟨hunopened, hentry.mono fun op hop => ?_⟩
    rintro rfl
    exact hop
  · rw [hterminals]
    exact fun k hk => (hhandler k).symm ▸ hknown k hk
  · rw [hterminals] at hmem
    rw [hsame]
    unfold Settles Over
    rw [hout.readyState, hout.upgrading]
    refine List.forall_mem_append.mpr ⟨hguarded k hmem ((hhandler k).symm.trans hk), fun as has => ?_⟩
    refine .of_forall_not fun op hop hreports => ?_
    rcases hreports with rfl | rfl <;> exact hentry as has _ hop
  · change Every (Late h.session) _
    unfold Late Over
    rw [hout.readyState, hout.upgrading]
    exact hlate
  · exact List.forall_mem_map.mpr fun ops _ => List.forall_mem_map.mpr fun _ _ _ _ => by simp

theorem Watched.step (hw : Watched w) (hok : Behaved w a) (hs : step w a = some w') : Watched w' := by
  cases step_does hs with
  | session hi hrun => exact hw.session hi (hok _ hi) hrun
  | schedulePing hi | armTimeout hi => exact hw.arm hi rfl rfl rfl
  | resume hi => exact hw.arm hi rfl w.shared.session_restart w.shared.terminals_restart
  | event _ _ he => exact hw.start he rfl
  | @fire i alarm hi =>
    have hstart (e : Event) (he : w.shared.session.occurs e = some (w.shared.session, [[alarm.op]])) :=
      hw.start (h := { w.shared.stop (some i) with
        late := w.shared.late || alarm.overdue w.shared.answered }) he rfl
    cases alarm with
    | pingHandler => exact hstart .pingInterval rfl
    | pingTimeoutHandler ping => exact hstart .pingTimeout rfl

theorem watched_opened (direct : Bool) : Watched (opened direct) := by
  have hsame : sessionOf (opened direct) =
      ⟨(Engine.State.opened direct).shared, [] :: (Engine.State.opened direct).tasks⟩ := by
    cases direct <;> rfl
  refine ⟨fun k => ?_, ?_, List.forall_mem_nil _, fun k hk => (List.not_mem_nil hk).elim, ?_⟩
  · rw [hsame]
    have hload (f : Op → ℕ) : load f ([] :: (Engine.State.opened direct).tasks) =
        load f (Engine.State.opened direct).tasks := by
      simp [load]
    obtain ⟨honce, hturn, hfresh, hkept, hfollowed⟩ := State.looped_opened k direct
    refine ⟨?_, ?_, ?_, every_cons.mpr ⟨List.forall_mem_nil _, hkept⟩,
      List.forall_mem_cons.mpr ⟨trivial, hfollowed⟩⟩
    · rw [hload]
      exact honce
    · rw [hload]
      exact hturn
    · rw [hload]
      exact hfresh
  · rw [hsame]
    refine every_cons.mpr ⟨List.forall_mem_nil _, ?_⟩
    cases direct with
    | false => exact every_nil
    | true => exact every_cons.mpr ⟨List.forall_mem_singleton.mpr (by simp), every_nil⟩
  · refine every_cons.mpr ⟨List.forall_mem_singleton.mpr (by intro k n hnone; cases hnone), ?_⟩
    exact List.forall_mem_map.mpr fun ops _ => List.forall_mem_map.mpr fun _ _ _ _ => by simp

end Watched

/-- A candidate acts on the session once, in every step of a run in which the candidates
behave. -/
theorem candidate_acts_once {direct : Bool} {ls : List Act} (h : Run step Behaved (opened direct) ls w)
    (ha : Behaved w a) (hs : step w a = some w') : ActsOnce w a w' := by
  have hw : Settled w ∧ Watched w :=
    h.invariant (fun w => Settled w ∧ Watched w) ⟨settled_opened direct, watched_opened direct⟩
      fun _ _ _ hw hok hs => ⟨hw.1.step (hw.2.orderly hok) hs, hw.2.step hok hs⟩
  have hok := hw.2.orderly ha
  refine ⟨?_, (hw.1.step hok hs).flagged⟩
  rintro i c j k n rfl hj hsource
  exact inert_of_spent hw.1 hok hs hj hsource

section NonVacuity

instance (h : Heart) (js : List Job) : Decidable (Heeds h js) := by
  unfold Heeds
  split <;> infer_instance

instance (w : State) : ∀ a, Decidable (Behaved w a)
  | .go i _ => inferInstanceAs (Decidable (∀ js ∈ w.tasks[i]?, Heeds w.shared js))
  | .event _ | .fire _ => isTrue trivial


def attempt : List Act := [.go 0 .next, .event .upgrade, .go 1 .next, .go 1 .next]

def gets (p : Packet) (steps : ℕ) : List Act := .go 2 (.receive p) :: List.replicate steps (.go 2 .next)

/-- `Close` is called. The candidate sends a message, which aborts the upgrade and closes it, and
its read loop reports that it is closed. -/
def lateClose : List Act :=
  attempt ++ [Act.event .close, .go 3 .next] ++ gets { type := .message } 6 ++ [Act.go 2 .fail] ++
    List.replicate 3 (Act.go 2 .next)

theorem lateClose_runs : (exec step Behaved (opened false) lateClose).isSome = true := by decide +kernel

def closing : State := (exec step Behaved (opened false) lateClose).get lateClose_runs

theorem closing_goes_on : (step closing (.go 2 .next)).isSome = true := by decide +kernel

/-- The next step is done for the second terminal event of the candidate. -/
theorem candidate_acts_once_late_close :
    next? closing.tasks 2 = some ⟨.session .abort, some (0, 1)⟩ ∧
      ActsOnce closing (.go 2 .next) ((step closing (.go 2 .next)).get closing_goes_on) :=
  ⟨by decide +kernel, candidate_acts_once (run_of_isSome lateClose_runs) (by decide +kernel)
    (Option.some_get closing_goes_on).symm⟩

/-- A candidate sends a message instead, which aborts the upgrade and closes it. Another one is
accepted. Then the read loop of the first reports that it is closed. -/
def relapse : List Act :=
  attempt ++ gets { type := .message } 6 ++ [Act.event .upgrade, .go 3 .next, .go 2 .fail] ++
    List.replicate 3 (Act.go 2 .next)

theorem relapse_runs : (exec step always (opened false) relapse).isSome = true := by decide +kernel

def relapsed : State := (exec step always (opened false) relapse).get relapse_runs

theorem relapse_goes_on : (step relapsed (.go 2 .next)).isSome = true := by decide +kernel

def aborted : State := (step relapsed (.go 2 .next)).get relapse_goes_on

/-- The next step, done for the second terminal event of the first candidate, clears `upgrading`
while the second candidate is undecided. -/
theorem late_close_aborts_again : ¬ ∀ (direct : Bool) (ls : List Act) (a : Act) (w w' : State),
    Run step always (opened direct) ls w → step w a = some w' → ActsOnce w a w' := by
  intro h
  have honce := h false relapse (.go 2 .next) relapsed aborted (run_of_isSome relapse_runs)
    (Option.some_get relapse_goes_on).symm
  have hnext : next? relapsed.tasks 2 = some ⟨.session .abort, some (0, 1)⟩ := by decide +kernel
  have hinert := honce.later 2 .next _ 0 0 rfl hnext rfl
  have hcleared : aborted.shared.session.upgrading ≠ relapsed.shared.session.upgrading := by decide +kernel
  exact hcleared hinert.upgrading

end NonVacuity

end Gosocketio.Engine.Heartbeat

import Gosocketio.Sanity.Session

/-! A websocket of a session has at most one read loop, and the packets it reads are handled
one after another. So no Upgrade packet of a websocket is left to be confirmed once the
websocket is the transport. -/

namespace Gosocketio.Engine

open Transport Stacks Runs Pool
open EngineSocket (Tport)

namespace Op

/-- Websocket `k` is to get its first handler, or is read, or its loop reports the end. -/
def loops (k : ℕ) : Op → ℕ
  | .maybeUpgrade j | .setHandler j .upgradeHandler | .read j | .notify j .close => if j = k then 1 else 0
  | _ => 0

/-- A packet was read from websocket `k` that may make it the transport. -/
def turns (k : ℕ) : Op → ℕ
  | .notify j (.packet _) | .switch j | .setHandler j .transportBinding => if j = k then 1 else 0
  | _ => 0

end Op

namespace State

variable {w w' : State} {a : Act} {k : ℕ}

structure Kept (k : ℕ) (s : Session) (op : Op) : Prop where
  attach : ∀ t, op ≠ .attach t
  starting : op = .maybeUpgrade k ∨ op = .setHandler k .upgradeHandler → s.handler k = none
  reading : op = .read k → s.handler k ≠ none
  switching : op = .switch k → s.handler k = some .upgradeHandler

structure Looped (k : ℕ) (w : State) : Prop where
  once : load (Op.loops k) w.tasks ≤ 1
  turn : load (Op.turns k) w.tasks ≤ 1
  fresh : w.shared.websockets.length ≤ k → load (Op.loops k) w.tasks = 0
  kept : Every (Kept k w.shared) w.tasks
  followed : ∀ as ∈ w.tasks, Followed (fun op => op.turns k ≠ 0) (.read k) as

section Go

variable {s s' : Session} {i : ℕ} {c : Choice} {op : Op} {rest ops : List Op} {new : List (List Op)} {j : ℕ}

theorem loops_eq_zero {op' : Op} (hcause : s.Cause op op') (hupgrade : ∀ k, op ≠ .maybeUpgrade k)
    (hset : ∀ k g, op ≠ .setHandler k g) (hread : ∀ k, op ≠ .read k) (k : ℕ) : op'.loops k = 0 := by
  cases op' with
  | maybeUpgrade => exact hcause.elim
  | setHandler j g =>
    cases g with
    | upgradeHandler => exact absurd hcause (hupgrade j)
    | transportBinding => rfl
  | read j =>
    rcases hcause with heq | ⟨-, g, heq⟩
    · exact absurd heq (hread j)
    · exact absurd heq (hset j g)
  | notify j n =>
    cases n with
    | close => exact absurd hcause (hread j)
    | packet | error => rfl
  | _ => rfl

theorem sum_loops_maybeUpgrade (hrun : s.run c (.maybeUpgrade j) = some (s', ops, new)) :
    (ops.map (Op.loops k)).sum + load (Op.loops k) new ≤ Op.loops k (.maybeUpgrade j) := by
  simp only [Session.run] at hrun
  split_ifs at hrun <;> obtain ⟨-, rfl, rfl⟩ := run_inj hrun
  · exact Nat.zero_le _
  · exact le_rfl

theorem sum_loops_setHandler {g : Handler} (hrun : s.run c (.setHandler j g) = some (s', ops, new))
    (hbound : j = k → g = .transportBinding → s.handler k ≠ none) :
    (ops.map (Op.loops k)).sum + load (Op.loops k) new ≤ Op.loops k (.setHandler j g) := by
  obtain ⟨-, rfl, rfl⟩ := run_inj hrun
  split_ifs with hnone
  · cases g with
    | upgradeHandler => simp [Op.loops]
    | transportBinding =>
      have hj : j ≠ k := by
        rintro rfl
        exact hbound rfl rfl hnone
      simp [Op.loops, hj]
  · exact Nat.zero_le _

theorem sum_loops_read (hrun : s.run c (.read j) = some (s', ops, new)) :
    (ops.map (Op.loops k)).sum + load (Op.loops k) new ≤ Op.loops k (.read j) := by
  cases c with
  | receive | garbled =>
    simp only [Session.run] at hrun
    split_ifs at hrun
    obtain ⟨-, rfl, rfl⟩ := run_inj hrun
    simp [Op.loops]
  | fail =>
    simp only [Session.run] at hrun
    split_ifs at hrun
    obtain ⟨-, rfl, rfl⟩ := run_inj hrun
    exact le_rfl
  | _ => cases hrun

theorem sum_loops (hrun : s.run c op = some (s', ops, new))
    (hbound : op = .setHandler k .transportBinding → s.handler k ≠ none) :
    (ops.map (Op.loops k)).sum + load (Op.loops k) new ≤ op.loops k := by
  by_cases hupgrade : ∃ j, op = .maybeUpgrade j
  · obtain ⟨j, rfl⟩ := hupgrade
    exact sum_loops_maybeUpgrade hrun
  by_cases hset : ∃ j g, op = .setHandler j g
  · obtain ⟨j, g, rfl⟩ := hset
    exact sum_loops_setHandler hrun fun hj hg => hbound (by rw [hj, hg])
  by_cases hread : ∃ j, op = .read j
  · obtain ⟨j, rfl⟩ := hread
    exact sum_loops_read hrun
  -- nothing else starts a loop
  push Not at hupgrade hset hread
  obtain ⟨hops, hnew⟩ := Session.run_cause hrun
  have hsum : (ops.map (Op.loops k)).sum = 0 := by
    refine List.sum_eq_zero (List.forall_mem_map.mpr fun op' hop' => ?_)
    exact loops_eq_zero (hops op' hop') hupgrade hset hread k
  have hload : load (Op.loops k) new = 0 :=
    load_eq_zero (hnew.mono fun op' hop' => loops_eq_zero hop'.1 hupgrade hset hread k)
  rw [hsum, hload]
  exact Nat.zero_le _

theorem turns_eq_zero {op' : Op} (hcause : s.Cause op op') (hattach : ∀ t, op ≠ .attach t)
    (hread : ∀ k, op ≠ .read k) (hnotify : ∀ k p, op ≠ .notify k (.packet p)) (hswitch : ∀ k, op ≠ .switch k)
    (k : ℕ) : op'.turns k = 0 := by
  cases op' with
  | notify j n =>
    cases n with
    | packet p => exact absurd hcause (hread j)
    | error | close => rfl
  | switch j =>
    obtain ⟨-, p, heq⟩ := hcause
    exact absurd heq (hnotify j p)
  | setHandler j g =>
    cases g with
    | upgradeHandler => rfl
    | transportBinding =>
      rcases hcause with heq | heq
      · exact absurd heq (hattach _)
      · exact absurd heq (hswitch j)
  | _ => rfl

theorem turns_loop (hop : Session.Loop op) (k : ℕ) : op.turns k = 0 := by
  cases op with
  | read | ticker => rfl
  | _ => exact hop.elim

theorem sum_turns_switch (hrun : s.run c (.switch j) = some (s', ops, new)) :
    (ops.map (Op.turns k)).sum ≤ Op.turns k (.switch j) := by
  simp only [Session.run] at hrun
  split_ifs at hrun <;> obtain ⟨-, rfl, -⟩ := run_inj hrun
  · exact Nat.zero_le _
  · unfold Session.afterSwitch
    split <;> simp [Op.turns]

theorem sum_turns_notify {p : Packet} (hrun : s.run c (.notify j (.packet p)) = some (s', ops, new)) :
    (ops.map (Op.turns k)).sum ≤ Op.turns k (.notify j (.packet p)) := by
  simp only [Session.run] at hrun
  split at hrun <;> obtain ⟨-, rfl, -⟩ := run_inj hrun
  · exact Nat.zero_le _
  · simp only [Session.upgradeHandler]
    split_ifs <;> simp [Op.turns]
  · exact Nat.zero_le _

/-- Other than a read loop, an operation leaves no more of these than it is itself. -/
theorem sum_turns (hrun : s.run c op = some (s', ops, new)) (hattach : ∀ t, op ≠ .attach t)
    (hread : ∀ j, op ≠ .read j) : (ops.map (Op.turns k)).sum ≤ op.turns k := by
  by_cases hswitch : ∃ j, op = .switch j
  · obtain ⟨j, rfl⟩ := hswitch
    exact sum_turns_switch hrun
  by_cases hnotify : ∃ j p, op = .notify j (.packet p)
  · obtain ⟨j, p, rfl⟩ := hnotify
    exact sum_turns_notify hrun
  push Not at hswitch hnotify
  have hsum : (ops.map (Op.turns k)).sum = 0 := by
    refine List.sum_eq_zero (List.forall_mem_map.mpr fun op' hop' => ?_)
    exact turns_eq_zero ((Session.run_cause hrun).1 op' hop') hattach hread hnotify hswitch k
  rw [hsum]
  exact Nat.zero_le _

section

variable (h : Looped k w)

include h

/-- While its read loop waits for a packet, nothing is done for an earlier one. -/
theorem Looped.turns_pop (hi : w.tasks[i]? = some (.read k :: rest)) :
    load (Op.turns k) (w.tasks.set i rest) = 0 := by
  have hfollowed : ∀ as ∈ w.tasks.set i rest, Followed (fun op => op.turns k ≠ 0) (.read k) as :=
    forall_set h.followed (h.followed _ (List.mem_of_getElem? hi)).2
  refine load_eq_zero fun as has op hop => ?_
  by_contra hturn
  -- its stack would have a read loop below it, besides this one
  have hread := (hfollowed as has).mem hop hturn
  have hle := le_load (Op.loops k) has hread
  have honce := h.once
  rw [load_pop _ hi] at honce
  simp only [Op.loops, if_pos] at hle honce
  omega

theorem Looped.alone {as : List Op} (hi : w.tasks[i]? = some as) (hop : op ∈ as)
    (hloops : op.loops k ≠ 0) : Every (fun op => op.loops k = 0) (w.tasks.set i []) := by
  obtain ⟨r, hold, hnew⟩ := exists_sum_map_set (fun as => (as.map (Op.loops k)).sum) hi []
  have honce := h.once
  have hle : op.loops k ≤ (as.map (Op.loops k)).sum := List.le_sum_of_mem (List.mem_map_of_mem hop)
  change load (Op.loops k) w.tasks = _ at hold
  change load (Op.loops k) (w.tasks.set i []) = r + 0 at hnew
  intro bs hbs op' hop'
  have hle' := le_load (Op.loops k) hbs hop'
  omega

section

variable (hi : w.tasks[i]? = some (op :: rest))

include hi

theorem Looped.bound (hturn : op.turns k ≠ 0) : w.shared.handler k ≠ none := by
  have hread := (h.followed _ (List.mem_of_getElem? hi)).1 hturn
  exact (h.kept _ (List.mem_of_getElem? hi) _ (List.mem_cons_of_mem op hread)).reading rfl

theorem Looped.followed_go (hrun : w.shared.run c op = some (s', ops, new)) :
    Followed (fun op => op.turns k ≠ 0) (.read k) (ops ++ rest) := by
  obtain ⟨hhead, hrest⟩ := h.followed _ (List.mem_of_getElem? hi)
  have hkept := h.kept.head hi
  by_cases hturn : op.turns k = 0
  · by_cases hread : ∃ j, op = .read j
    · obtain ⟨j, rfl⟩ := hread
      cases c with
      | receive p =>
        simp only [Session.run] at hrun
        split_ifs at hrun
        obtain ⟨-, rfl, -⟩ := run_inj hrun
        refine ⟨fun hturn => ?_, fun hturn => absurd rfl hturn, hrest⟩
        -- the packet is handled before the loop goes on
        simp only [Op.turns] at hturn
        split_ifs at hturn with hj
        · exact hj ▸ List.mem_cons_self
        · exact absurd rfl hturn
      | garbled =>
        simp only [Session.run] at hrun
        split_ifs at hrun
        obtain ⟨-, rfl, -⟩ := run_inj hrun
        exact ⟨fun hturn => absurd rfl hturn, fun hturn => absurd rfl hturn, hrest⟩
      | fail =>
        simp only [Session.run] at hrun
        split_ifs at hrun
        obtain ⟨-, rfl, -⟩ := run_inj hrun
        exact ⟨fun hturn => absurd rfl hturn, hrest⟩
      | _ => cases hrun
    · have hsum := sum_turns (k := k) hrun hkept.attach fun j heq => hread ⟨j, heq⟩
      rw [hturn] at hsum
      refine Followed.append (Followed.of_forall_not fun op' hop' hne => hne ?_) hrest
      exact List.sum_eq_zero_iff.mp (Nat.le_zero.mp hsum) _ (List.mem_map_of_mem hop')
  · exact Followed.of_mem (hhead hturn) hrest

theorem Looped.turn_go (hrun : w.shared.run c op = some (s', ops, new)) :
    load (Op.turns k) (w.tasks.set i (ops ++ rest) ++ new) ≤ 1 := by
  have hnew : load (Op.turns k) new = 0 :=
    load_eq_zero ((Session.run_cause hrun).2.mono fun op' hop' => turns_loop hop'.2 k)
  rw [load_go _ hi, hnew, add_zero]
  have hone := h.turn
  rw [load_pop _ hi] at hone
  by_cases hread : ∃ j, op = .read j
  · obtain ⟨j, rfl⟩ := hread
    have hsum : (ops.map (Op.turns k)).sum ≤ if j = k then 1 else 0 := by
      cases c with
      | receive | garbled | fail =>
        simp only [Session.run] at hrun
        split_ifs at hrun
        obtain ⟨-, rfl, -⟩ := run_inj hrun
        simp [Op.turns]
      | _ => cases hrun
    split_ifs at hsum with hj
    · subst hj
      rw [h.turns_pop hi]
      omega
    · omega
  · have hsum := sum_turns (k := k) hrun (h.kept.head hi).attach fun j heq => hread ⟨j, heq⟩
    omega

theorem Looped.lt_length (hop : op.loops k ≠ 0) : k < w.shared.websockets.length := by
  by_contra hlt
  have hzero := h.fresh (not_lt.mp hlt)
  rw [load_pop _ hi] at hzero
  omega

theorem Looped.kept_pop
    (hrun : w.shared.run c op = some (s', ops, new)) : Every (Kept k s') (w.tasks.set i rest) := by
  have hpop : Every (Kept k w.shared) (w.tasks.set i rest) := h.kept.set hi (List.forall_mem_nil _)
  by_cases hset : ∃ g, op = .setHandler k g
  · obtain ⟨g, rfl⟩ := hset
    obtain ⟨rfl, -⟩ := run_inj hrun
    have honce := h.once
    have hturn := h.turn
    rw [load_pop _ hi] at honce hturn
    cases g with
    | upgradeHandler =>
      have hlt := h.lt_length hi (by simp [Op.loops])
      refine fun as has op' hop' => ⟨(hpop as has op' hop').attach, fun hstart => ?_, fun _ => ?_, fun _ => ?_⟩
      · -- two handlers to start with
        have hle := le_load (Op.loops k) has hop'
        rcases hstart with rfl | rfl <;> simp only [Op.loops, if_pos] at hle honce <;> omega
      · rw [Session.handler_setHandler hlt]
        exact nofun
      · exact Session.handler_setHandler hlt _
    | transportBinding =>
      have hbound := h.bound hi (by simp [Op.turns])
      have hlt := Session.lt_of_handler hbound
      refine fun as has op' hop' => ⟨(hpop as has op' hop').attach, fun hstart => ?_, fun _ => ?_, ?_⟩
      · exact absurd ((hpop as has op' hop').starting hstart) hbound
      · rw [Session.handler_setHandler hlt]
        exact nofun
      · -- two packets at once
        rintro rfl
        have hle := le_load (Op.turns k) has hop'
        simp only [Op.turns, if_pos] at hle hturn
        omega
  · have hhandler := Session.run_handler hrun k fun g heq => hset ⟨g, heq⟩
    refine hpop.mono fun op' hop' => ⟨hop'.attach, ?_, ?_, ?_⟩
    · rw [hhandler]
      exact hop'.starting
    · rw [hhandler]
      exact hop'.reading
    · rw [hhandler]
      exact hop'.switching

theorem Looped.go (hrun : w.shared.run c op = some (s', ops, new)) :
    Looped k ⟨s', w.tasks.set i (ops ++ rest) ++ new⟩ := by
  have hloops : load (Op.loops k) (w.tasks.set i (ops ++ rest) ++ new) ≤ load (Op.loops k) w.tasks := by
    have hsum := sum_loops (k := k) hrun fun heq => h.bound hi (by simp [heq, Op.turns])
    rw [load_go _ hi, load_pop _ hi]
    omega
  refine ⟨hloops.trans h.once, h.turn_go hi hrun, fun hk => ?_, every_append.mpr ⟨?_, ?_⟩, ?_⟩
  · rw [Session.run_length hrun] at hk
    exact Nat.le_zero.mp (hloops.trans (h.fresh hk).le)
  · refine (h.kept_pop hi hrun).push hi fun op' hop' => ?_
    have hcause := (Session.run_cause hrun).1 op' hop'
    refine ⟨?_, ?_, ?_, ?_⟩
    · rintro t rfl
      exact hcause
    · rintro (rfl | rfl)
      · exact hcause.elim
      · obtain rfl := hcause
        rw [Session.run_handler hrun k nofun]
        exact (h.kept.head hi).starting (.inl rfl)
    · rintro rfl
      rcases hcause with rfl | ⟨hnone, g, rfl⟩
      · rw [Session.run_handler hrun k nofun]
        exact (h.kept.head hi).reading rfl
      · obtain ⟨-, rfl, -⟩ := run_inj hrun
        cases hop'
    · rintro rfl
      obtain ⟨hk, p, rfl⟩ := hcause
      rw [Session.run_handler hrun k nofun]
      exact hk
  · refine fun as has op' hop' => ?_
    obtain ⟨hcause, hloop⟩ := (Session.run_cause hrun).2 as has op' hop'
    refine ⟨?_, ?_, ?_, ?_⟩
    · rintro t rfl
      exact hcause
    · rintro (rfl | rfl) <;> exact hloop.elim
    · rintro rfl
      rcases hcause with rfl | ⟨hnone, g, rfl⟩
      · rw [Session.run_handler hrun k nofun]
        exact (h.kept.head hi).reading rfl
      · cases g with
        | transportBinding => exact absurd hnone (h.bound hi (by simp [Op.turns]))
        | upgradeHandler =>
          obtain ⟨rfl, -⟩ := run_inj hrun
          rw [Session.handler_setHandler (h.lt_length hi (by simp [Op.loops]))]
          exact nofun
    · rintro rfl
      exact hloop.elim
  · refine List.forall_mem_append.mpr ⟨forall_set h.followed (h.followed_go hi hrun), fun as has => ?_⟩
    refine Followed.of_forall_not fun op' hop' hne => hne ?_
    exact turns_loop ((Session.run_cause hrun).2 as has op' hop').2 k

end

end

end Go

section Event

variable {s' : Session} {e : Event} {new : List (List Op)}

theorem Kept.of_entry {s : Session} {op : Op} (hop : s.Entry e op) (hupgrade : op ≠ .maybeUpgrade k) :
    Kept k s' op := by
  refine ⟨?_, ?_, ?_, ?_⟩
  · rintro t rfl
    exact hop
  · rintro (rfl | rfl)
    · exact absurd rfl hupgrade
    · exact hop.elim
  · rintro rfl
    exact hop.elim
  · rintro rfl
    exact hop.elim

theorem turns_entry {s : Session} {op : Op} (hop : s.Entry e op) : op.turns k = 0 := by
  cases op with
  | notify | switch | setHandler => exact hop.elim
  | _ => rfl

theorem loops_entry {s : Session} {op : Op} (hop : s.Entry e op) (hupgrade : op ≠ .maybeUpgrade k) :
    op.loops k = 0 := by
  cases op with
  | maybeUpgrade j =>
    rw [Op.loops, if_neg]
    rintro rfl
    exact hupgrade rfl
  | setHandler | read | notify => exact hop.elim
  | _ => rfl

theorem Looped.event (h : Looped k w) (he : w.shared.occurs e = some (s', new)) : Looped k ⟨s', w.tasks ++ new⟩ := by
  have hentry := Session.occurs_entry he
  have hhandler := Session.occurs_handler he k
  have hturns : load (Op.turns k) new = 0 := load_eq_zero (hentry.mono fun op hop => turns_entry hop)
  have hkept : Every (Kept k s') w.tasks := h.kept.mono fun op hop => by
    refine ⟨hop.attach, ?_, ?_, ?_⟩
    · rw [hhandler]
      exact hop.starting
    · rw [hhandler]
      exact hop.reading
    · rw [hhandler]
      exact hop.switching
  have hfollowed : ∀ as ∈ w.tasks ++ new, Followed (fun op => op.turns k ≠ 0) (.read k) as := by
    refine List.forall_mem_append.mpr ⟨h.followed, fun as has => ?_⟩
    exact Followed.of_forall_not fun op hop hne => hne (turns_entry (hentry as has op hop))
  have hturn : load (Op.turns k) (w.tasks ++ new) ≤ 1 := by
    rw [load_append, hturns]
    exact h.turn
  by_cases hup : e = .upgrade
  · subst hup
    obtain ⟨rfl, rfl⟩ := Prod.mk.inj (Option.some.inj he)
    have hload : load (Op.loops k) [[Op.maybeUpgrade w.shared.websockets.length]] =
        if w.shared.websockets.length = k then 1 else 0 := by
      simp [Op.loops]
    refine ⟨?_, hturn, fun hk => ?_, every_append.mpr ⟨hkept, ?_⟩, hfollowed⟩
    · rw [load_append, hload]
      split_ifs with hk
      · rw [h.fresh hk.le]
      · exact h.once
    · rw [List.length_append, List.length_singleton] at hk
      rw [load_append, hload, h.fresh (by omega), if_neg (by omega)]
    · refine every_cons.mpr ⟨List.forall_mem_singleton.mpr ⟨nofun, fun hstart => ?_, nofun, nofun⟩, every_nil⟩
      rcases hstart with heq | heq
      · obtain rfl := Op.maybeUpgrade.inj heq
        rw [hhandler]
        by_contra hne
        exact lt_irrefl _ (Session.lt_of_handler hne)
      · cases heq
  · have hnone : Every (· ≠ .maybeUpgrade k) new := hentry.mono fun op hop heq => by
      subst heq
      exact hup hop.1
    have hload : load (Op.loops k) new = 0 :=
      load_eq_zero fun as has op hop => loops_entry (hentry as has op hop) (hnone as has op hop)
    refine ⟨?_, hturn, fun hk => ?_, every_append.mpr ⟨hkept, fun as has op hop => ?_⟩, hfollowed⟩
    · rw [load_append, hload]
      exact h.once
    · rw [Session.occurs_length he hup] at hk
      rw [load_append, hload, h.fresh hk]
    · exact .of_entry (hentry as has op hop) (hnone as has op hop)

end Event

theorem looped_opened (k : ℕ) (direct : Bool) : Looped k (opened direct) := by
  cases direct with
  | false => exact ⟨Nat.zero_le _, Nat.zero_le _, fun _ => rfl, every_nil, nofun⟩
  | true =>
    have hload : load (Op.loops k) (opened true).tasks = if 0 = k then 1 else 0 := by
      simp [opened, Op.loops]
    refine ⟨?_, Nat.zero_le _, fun hk => ?_, every_cons.mpr ⟨?_, every_nil⟩, ?_⟩
    · rw [hload]
      split_ifs <;> omega
    · change 1 ≤ k at hk
      rw [hload, if_neg (by omega)]
    · refine List.forall_mem_singleton.mpr ⟨nofun, nofun, fun heq => ?_, nofun⟩
      obtain rfl := Op.read.inj heq
      exact nofun
    · exact List.forall_mem_singleton.mpr ⟨fun hne => absurd rfl hne, trivial⟩

theorem Looped.step (h : Looped k w) (hs : w.step a = some w') : Looped k w' := by
  cases step_does hs with
  | go hi hrun => exact h.go hi hrun
  | event he => exact h.event he

end State

end Gosocketio.Engine

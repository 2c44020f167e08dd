import Gosocketio.Sanity.ReadLoops

/-! Sessions that are closed during an upgrade. `Close` closes the transport it finds; if the
upgrade is confirmed after that, the session goes on with a websocket that nobody closes. And
the end of a transport is ignored while an upgrade is under way, also when it is not confirmed
in the end. -/

namespace Gosocketio.Engine

open Transport Stacks Runs Pool
open EngineSocket (Tport)

/-- A step of `MaybeUpgrade`, `onUpgrade` or `onAbort`. -/
def Op.upgrades : Op → Bool
  | .maybeUpgrade _ | .setHandler _ _ | .stopUpgrade _ | .switch _ | .waitSent | .drain | .requeue _
  | .abort => true
  | _ => false

namespace State

variable {w w' : State} {a : Act}

def Gone (s : Session) : Prop := s.readyState = .closed ∧ s.registered = false

/-- When `Close` has returned and no upgrade is under way, the transport is asked to close, and
once its end was reported the session is gone. -/
def NotStranded (w : State) : Prop :=
  w.shared.returned = true → w.shared.upgrading = false → Every (fun op => op.upgrades = false) w.tasks →
    ∃ t, w.shared.transport = some t ∧ t ∈ w.shared.asked ∧ (t ∈ w.shared.ended → Gone w.shared)

/-- No upgrade is confirmed while the session is closing. The end of its transport does not come
during an upgrade, nor while another goroutine has closed the session and not removed it yet. -/
def Heeded (s : Session) : Op → Prop
  | .switch _ => s.readyState ≠ .closing
  | .onCloseFrom t => s.transport = some t → s.upgrading = true → Gone s
  | .closeWithReason .transportClose => s.readyState = .closed → s.registered = false
  | _ => True

def Undisturbed (w : State) : Act → Prop
  | .go i _ => ∀ op ∈ next? w.tasks i, Heeded w.shared op
  | _ => True

section Attended

def Asked (s : Session) : Prop := ∃ t, s.transport = some t ∧ t ∈ s.asked

def Asks (s : Session) (op : Op) : Prop := op = .closeTransport ∨ ∃ t, op = .close t ∧ s.transport = some t

def Reports (s : Session) (op : Op) : Prop := ∃ t, op = .delivered t ∧ s.transport = some t

def Ends (s : Session) (op : Op) : Prop :=
  op = .closeWithReason .transportClose ∨ op = .unregister ∧ s.readyState = .closed

/-- What holds of an operation that is left to be done. -/
structure Allowed (s : Session) (op : Op) : Prop where
  root : op ≠ .setOpen ∧ op ≠ .register ∧ ∀ t, op ≠ .attach t
  closing : op = .closeReturned → s.readyState = .closing ∨ s.readyState = .closed
  bound : ∀ k, op = .onCloseFrom (.websocket k) ∨ op = .delivered (.websocket k) →
    s.handler k = some .transportBinding

structure Attended (w : State) : Prop where
  attached : w.shared.transport ≠ none
  closing : w.shared.returned = true → w.shared.readyState = .closing ∨ w.shared.readyState = .closed
  returned : w.shared.returned = true → Asked w.shared
  bound : ∀ k, .websocket k ∈ w.shared.ended → w.shared.handler k = some .transportBinding
  ended : ∀ t ∈ w.shared.ended, w.shared.transport = some t → Gone w.shared
  allowed : Every (Allowed w.shared) w.tasks
  asks : ∀ as ∈ w.tasks, Guarded (· = .closeReturned) (Asks w.shared) (Asked w.shared) as
  ends : ∀ as ∈ w.tasks, Guarded (Reports w.shared) (Ends w.shared) (Gone w.shared) as

/-- What every step keeps but the one that changes the transport. -/
structure Steady (s s' : Session) : Prop where
  transport : s'.transport = s.transport
  asked : s.asked ⊆ s'.asked
  closed : s.readyState = .closed → s'.readyState = .closed
  closing : s.readyState = .closing ∨ s.readyState = .closed → s'.readyState = .closing ∨ s'.readyState = .closed
  registered : s.registered = false → s'.registered = false
  handler : ∀ k, s.handler k = some .transportBinding → s'.handler k = some .transportBinding

variable {s s' : Session} {op : Op}

section

variable (h : Steady s s')

include h

theorem Steady.asked_mono (hs : Asked s) : Asked s' := by
  obtain ⟨t, ht, hmem⟩ := hs
  exact ⟨t, h.transport.trans ht, h.asked hmem⟩

theorem Steady.gone_mono (hs : Gone s) : Gone s' := ⟨h.closed hs.1, h.registered hs.2⟩

theorem Steady.allowed_mono (hop : Allowed s op) : Allowed s' op :=
  ⟨hop.root, fun heq => h.closing (hop.closing heq), fun k heq => h.handler k (hop.bound k heq)⟩

theorem Steady.asks_mono (hop : Asks s op) : Asks s' op := by
  refine hop.imp_right ?_
  rintro ⟨t, rfl, ht⟩
  exact ⟨t, rfl, h.transport.trans ht⟩

theorem Steady.reports_iff : Reports s' op ↔ Reports s op := by
  simp only [Reports, h.transport]

theorem Steady.ends_mono (hop : Ends s op) : Ends s' op :=
  hop.imp_right fun hop => ⟨hop.1, h.closed hop.2⟩

end

variable {i : ℕ} {c : Choice} {rest ops : List Op} {new : List (List Op)}

theorem Allowed.of_loop (hop : Session.Loop op) : Allowed s op := by
  cases op with
  | read | ticker => exact ⟨⟨nofun, nofun, nofun⟩, nofun, nofun⟩
  | _ => exact hop.elim

theorem not_reports_of_loop (hop : Session.Loop op) : op ≠ .closeReturned ∧ ¬Reports s op := by
  cases op with
  | read | ticker => exact ⟨nofun, nofun⟩
  | _ => exact hop.elim

theorem Attended.go_on (h : Attended w) (hi : w.tasks[i]? = some (op :: rest)) (hst : Steady w.shared s')
    (hreturned : s'.returned = true →
      (s'.readyState = .closing ∨ s'.readyState = .closed) ∧ Asked s')
    (hended : ∀ t ∈ s'.ended, t ∈ w.shared.ended ∨
      (∀ k, t = .websocket k → s'.handler k = some .transportBinding) ∧ (s'.transport = some t → Gone s'))
    (hallowed : ∀ op' ∈ ops, Allowed s' op')
    (hasks : Guarded (· = .closeReturned) (Asks s') (Asked s') ops)
    (hasked : Asks w.shared op → Asked s' ∨ ∃ op' ∈ ops, Asks s' op')
    (hends : Guarded (Reports s') (Ends s') (Gone s') ops)
    (hgone : Ends w.shared op → Gone s' ∨ ∃ op' ∈ ops, Ends s' op') (hnew : Every Session.Loop new) :
    Attended ⟨s', w.tasks.set i (ops ++ rest) ++ new⟩ := by
  have hmem := List.mem_of_getElem? hi
  refine ⟨?_, fun hret => (hreturned hret).1, fun hret => (hreturned hret).2, fun k hk => ?_, fun t ht htr => ?_,
    every_append.mpr ⟨?_, hnew.mono fun op hop => .of_loop hop⟩, ?_, ?_⟩
  · rw [hst.transport]
    exact h.attached
  · rcases hended _ hk with hk | ⟨hk, -⟩
    · exact hst.handler k (h.bound k hk)
    · exact hk k rfl
  · rcases hended t ht with ht | ⟨-, hgone⟩
    · exact hst.gone_mono (h.ended t ht (hst.transport ▸ htr))
    · exact hgone htr
  · exact (h.allowed.mono fun op hop => hst.allowed_mono hop).set hi hallowed
  · refine List.forall_mem_append.mpr ⟨forall_set (fun as has => ?_) ?_, fun as has => ?_⟩
    · exact (h.asks as has).mono hst.asked_mono (fun _ _ => id) fun _ _ => hst.asks_mono
    · refine hasks.append ((h.asks _ hmem).2.mono ?_ (fun _ _ => id) fun _ _ => hst.asks_mono)
      exact fun hor => hor.elim (fun hs => .inl (hst.asked_mono hs)) hasked
    · exact .of_forall_not fun op hop => (not_reports_of_loop (s := s') (hnew as has op hop)).1
  · refine List.forall_mem_append.mpr ⟨forall_set (fun as has => ?_) ?_, fun as has => ?_⟩
    · exact (h.ends as has).mono hst.gone_mono (fun _ _ => hst.reports_iff.mp) fun _ _ => hst.ends_mono
    · refine hends.append ((h.ends _ hmem).2.mono ?_ (fun _ _ => hst.reports_iff.mp) fun _ _ => hst.ends_mono)
      exact fun hor => hor.elim (fun hs => .inl (hst.gone_mono hs)) hgone
    · exact .of_forall_not fun op hop => (not_reports_of_loop (hnew as has op hop)).2

end Attended

section Steps

variable {s s' : Session} {op : Op} {i : ℕ} {c : Choice} {rest ops : List Op} {new : List (List Op)}

theorem mem_asked_close {t : Tport} (hrun : s.run c (.close t) = some (s', ops, new)) :
    s'.asked = s.asked ++ [t] := by
  cases t with
  | polling =>
    obtain ⟨⟨s₁, ops₁⟩, ho, heq⟩ := Option.map_eq_some_iff.mp hrun
    obtain ⟨rfl, -⟩ := Prod.mk.inj heq
    obtain ⟨polling, os, -, rfl, -⟩ := Session.onPolling_eq_some ho
    rfl
  | websocket k =>
    simp only [Session.run] at hrun
    split_ifs at hrun <;> obtain ⟨rfl, -⟩ := Stacks.run_inj hrun <;> rfl

section

variable (hrun : s.run c op = some (s', ops, new))

include hrun

theorem steady_run (hop : Allowed s op) (hswitch : ∀ k, op ≠ .switch k)
    (hset : ∀ k, op = .setHandler k .upgradeHandler → s.handler k = none) : Steady s s' := by
  have hframe := Session.run_frame hrun
  obtain ⟨hopen, hregister, hattach⟩ := hop.root
  refine ⟨?_, ?_, Session.run_closed hrun hopen, ?_, ?_, fun k hk => ?_⟩
  · rcases hframe.transport with heq | ⟨t, heq⟩ | ⟨k, heq⟩
    · exact heq
    · exact absurd heq (hattach t)
    · exact absurd heq (hswitch k)
  · rcases hframe.asked with heq | ⟨t, rfl⟩
    · rw [heq]
      exact List.Subset.refl _
    · rw [mem_asked_close hrun]
      exact List.subset_append_left _ _
  · rcases hframe.readyState with heq | heq | rfl | ⟨r, rfl⟩
    · rw [heq]
      exact id
    · exact absurd heq hopen
    · simp only [Session.run] at hrun
      split_ifs at hrun <;> obtain ⟨rfl, -⟩ := Stacks.run_inj hrun
      · exact id
      · exact fun _ => .inl rfl
    · simp only [Session.run] at hrun
      split_ifs at hrun <;> obtain ⟨rfl, -⟩ := Stacks.run_inj hrun
      · exact id
      · exact fun _ => .inr rfl
  · rcases hframe.registered with heq | heq | rfl
    · exact heq.trans
    · exact absurd heq hregister
    · obtain ⟨rfl, -⟩ := Stacks.run_inj hrun
      exact fun _ => rfl
  · by_cases hset' : ∃ g, op = .setHandler k g
    · obtain ⟨g, rfl⟩ := hset'
      have hne : s.handler k ≠ none := by
        rw [hk]
        exact Option.some_ne_none _
      cases g with
      | upgradeHandler => exact absurd (hset k rfl) hne
      | transportBinding =>
        obtain ⟨rfl, -⟩ := Stacks.run_inj hrun
        exact Session.handler_setHandler (Session.lt_of_handler hne) _
    · rw [Session.run_handler hrun k fun g heq => hset' ⟨g, heq⟩]
      exact hk

theorem allowed_children (hop : Allowed s op) (hst : Steady s s') :
    ∀ op' ∈ ops, Allowed s' op' := by
  intro op' hop'
  have hcause := (Session.run_cause hrun).1 op' hop'
  refine ⟨⟨?_, ?_, ?_⟩, ?_, ?_⟩
  · rintro rfl
    exact hcause
  · rintro rfl
    exact hcause
  · rintro t rfl
    exact hcause
  · rintro rfl
    obtain ⟨rfl, hopen⟩ := hcause
    simp only [Session.run, hopen] at hrun
    obtain ⟨rfl, -⟩ := Stacks.run_inj hrun
    exact .inl rfl
  · rintro k (rfl | rfl)
    · exact hst.handler k hcause.2
    · obtain rfl := hcause
      exact hst.handler k (hop.bound k (.inl rfl))

theorem asks_run : Guarded (· = .closeReturned) (Asks s') (Asked s') ops := by
  by_cases hclose : op = .closeSocket
  · subst hclose
    simp only [Session.run] at hrun
    split_ifs at hrun <;> obtain ⟨rfl, rfl, rfl⟩ := Stacks.run_inj hrun
    · trivial
    · simp [Guarded, Asks]
  · refine .of_forall_not ?_
    rintro op' hop' rfl
    exact hclose ((Session.run_cause hrun).1 _ hop').1

end

theorem asked_run (hattached : s.transport ≠ none) (hrun : s.run c op = some (s', ops, new)) (hst : Steady s s')
    (hop : Asks s op) : Asked s' ∨ ∃ op' ∈ ops, Asks s' op' := by
  rcases hop with rfl | ⟨t, rfl, ht⟩
  · obtain ⟨t, ht⟩ := Option.ne_none_iff_exists'.mp hattached
    obtain ⟨rfl, rfl, -⟩ := Stacks.run_inj hrun
    refine .inr ⟨.close t, ?_, .inr ⟨t, rfl, ht⟩⟩
    rw [ht]
    exact List.mem_singleton_self _
  · refine .inl ⟨t, hst.transport.trans ht, ?_⟩
    rw [mem_asked_close hrun]
    exact List.mem_append_right _ (List.mem_singleton_self t)

theorem ends_run (hrun : s.run c op = some (s', ops, new)) (hok : Heeded s op) :
    Guarded (Reports s') (Ends s') (Gone s') ops := by
  by_cases hreport : ∃ t, op = .onCloseFrom t
  · obtain ⟨t, rfl⟩ := hreport
    obtain ⟨rfl, rfl, -⟩ := Stacks.run_inj hrun
    by_cases hheeds : s.heeds t = true
    · simp [Guarded, hheeds, Reports, Ends]
    · rw [if_neg hheeds]
      refine ⟨?_, trivial⟩
      rintro ⟨t', heq, ht⟩
      obtain rfl := Op.delivered.inj heq
      refine hok ht (Bool.eq_true_of_not_eq_false fun hup => hheeds ?_)
      simp [Session.heeds, ht, hup]
  · refine .of_forall_not ?_
    rintro op' hop' ⟨t, rfl, -⟩
    exact hreport ⟨t, (Session.run_cause hrun).1 _ hop'⟩

theorem gone_run (hrun : s.run c op = some (s', ops, new)) (hok : Heeded s op) (hop : Ends s op) :
    Gone s' ∨ ∃ op' ∈ ops, Ends s' op' := by
  rcases hop with rfl | ⟨rfl, hclosed⟩
  · simp only [Session.run] at hrun
    split_ifs at hrun with hclosed <;> obtain ⟨rfl, rfl, -⟩ := Stacks.run_inj hrun
    · exact .inl ⟨hclosed, hok hclosed⟩
    · exact .inr ⟨.unregister, List.mem_append_right _ List.mem_cons_self, .inr ⟨rfl, rfl⟩⟩
  · obtain ⟨rfl, -⟩ := Stacks.run_inj hrun
    exact .inl ⟨hclosed, rfl⟩

section

variable (h : Attended w)

include h

section

variable (hi : w.tasks[i]? = some (op :: rest))

include hi

section

variable (hrun : w.shared.run c op = some (s', ops, new))

include hrun

theorem Attended.returned_run (hst : Steady w.shared s') (hret : s'.returned = true) :
    (s'.readyState = .closing ∨ s'.readyState = .closed) ∧ Asked s' := by
  rcases (Session.run_frame hrun).returned with heq | rfl
  · rw [heq] at hret
    exact ⟨hst.closing (h.closing hret), hst.asked_mono (h.returned hret)⟩
  · exact ⟨hst.closing ((h.allowed.head hi).closing rfl),
      hst.asked_mono ((h.asks _ (List.mem_of_getElem? hi)).1 rfl)⟩

theorem Attended.ended_run : ∀ t ∈ s'.ended, t ∈ w.shared.ended ∨
      (∀ k, t = .websocket k → s'.handler k = some .transportBinding) ∧ (s'.transport = some t → Gone s') := by
  intro t ht
  rcases (Session.run_frame hrun).ended with heq | ⟨t', rfl⟩
  · exact .inl (heq ▸ ht)
  · obtain ⟨rfl, -⟩ := Stacks.run_inj hrun
    rcases List.mem_append.mp ht with ht | ht
    · exact .inl ht
    · obtain rfl := List.mem_singleton.mp ht
      refine .inr ⟨?_, fun htr => ?_⟩
      · rintro k rfl
        exact (h.allowed.head hi).bound k (.inr rfl)
      · exact (h.ends _ (List.mem_of_getElem? hi)).1 ⟨t, rfl, htr⟩

theorem Attended.of_steady (hst : Steady w.shared s') (hok : Heeded w.shared op) :
    Attended ⟨s', w.tasks.set i (ops ++ rest) ++ new⟩ := by
  have hnew : Every Session.Loop new := (Session.run_cause hrun).2.mono fun _ h => h.2
  exact h.go_on hi hst (h.returned_run hi hrun hst) (h.ended_run hi hrun)
    (allowed_children hrun (h.allowed.head hi) hst) (asks_run hrun) (asked_run h.attached hrun hst)
    (ends_run hrun hok) (gone_run hrun hok) hnew

end

end

/-- The transport changes only while nobody has closed the session, and to a websocket whose end
was never reported. -/
theorem Attended.switch {k : ℕ} (hl : Looped k w) (hi : w.tasks[i]? = some (.switch k :: rest))
    (hrun : w.shared.run c (.switch k) = some (s', ops, new)) (hok : w.shared.readyState ≠ .closing) :
    Attended ⟨s', w.tasks.set i (ops ++ rest) ++ new⟩ := by
  by_cases hclosed : w.shared.readyState = .closed
  · -- the websocket is closed, and the session stays as it is
    refine h.of_steady hi hrun ?_ hok
    rw [Session.run, if_pos hclosed] at hrun
    obtain ⟨rfl, -⟩ := Stacks.run_inj hrun
    exact ⟨rfl, List.Subset.refl _, id, id, id, fun _ => id⟩
  have hcause := (Session.run_cause hrun).1
  rw [Session.run, if_neg hclosed] at hrun
  obtain ⟨rfl, rfl, rfl⟩ := Stacks.run_inj hrun
  have hopen : ¬(w.shared.readyState = .closing ∨ w.shared.readyState = .closed) := not_or.mpr ⟨hok, hclosed⟩
  have hunbound : w.shared.handler k ≠ some .transportBinding := by
    rw [(hl.kept.head hi).switching rfl]
    simp
  have hallowed : Every (Allowed w.shared) (w.tasks.set i (Session.afterSwitch k w.shared.transport ++ rest)) := by
    refine h.allowed.set hi fun op' hop' => ⟨⟨?_, ?_, ?_⟩, ?_, ?_⟩
    · rintro rfl
      exact hcause _ hop'
    · rintro rfl
      exact hcause _ hop'
    · rintro t rfl
      exact hcause _ hop'
    · rintro rfl
      cases (hcause _ hop').1
    · rintro k' (rfl | rfl)
      · cases (hcause _ hop').1
      · cases hcause _ hop'
  refine ⟨Option.some_ne_none _, fun hret => h.closing hret, fun hret => absurd (h.closing hret) hopen, h.bound, ?_,
    every_append.mpr ⟨hallowed.mono fun op hop => { hop with }, every_nil⟩, ?_, ?_⟩
  · rintro t ht htr
    obtain rfl := Option.some.inj htr
    exact absurd (h.bound k ht) hunbound
  · rw [List.append_nil]
    refine fun as has => .of_forall_not fun op hop heq => hopen ?_
    exact (hallowed as has op hop).closing heq
  · rw [List.append_nil]
    refine fun as has => .of_forall_not ?_
    rintro op hop ⟨t, rfl, htr⟩
    obtain rfl := Option.some.inj htr
    exact hunbound ((hallowed as has _ hop).bound k (.inr rfl))

theorem Attended.go (hl : ∀ k, Looped k w) (hi : w.tasks[i]? = some (op :: rest))
    (hrun : w.shared.run c op = some (s', ops, new)) (hok : Heeded w.shared op) :
    Attended ⟨s', w.tasks.set i (ops ++ rest) ++ new⟩ := by
  by_cases hswitch : ∃ k, op = .switch k
  · obtain ⟨k, rfl⟩ := hswitch
    exact h.switch (hl k) hi hrun hok
  · have hst : Steady w.shared s' := steady_run hrun (h.allowed.head hi) (fun k heq => hswitch ⟨k, heq⟩)
      fun k heq => ((hl k).kept.head hi).starting (.inr heq)
    exact h.of_steady hi hrun hst hok

end

theorem Allowed.of_entry (hop : s.Entry e op) : Allowed s' op := by
  refine ⟨⟨?_, ?_, ?_⟩, ?_, ?_⟩
  · rintro rfl
    exact hop
  · rintro rfl
    exact hop
  · rintro t rfl
    exact hop
  · rintro rfl
    exact hop.elim
  · rintro k (rfl | rfl) <;> exact hop.elim

theorem Attended.event {e : Event} (h : Attended w) (he : w.shared.occurs e = some (s', new)) :
    Attended ⟨s', w.tasks ++ new⟩ := by
  have hentry := Session.occurs_entry he
  have hout := Session.occurs_outside he
  have hst : Steady w.shared s' := by
    refine ⟨hout.transport, ?_, hout.readyState.trans, ?_, hout.registered.trans, fun k hk => ?_⟩
    · rw [hout.asked]
      exact List.Subset.refl _
    · rw [hout.readyState]
      exact id
    · rw [Session.occurs_handler he]
      exact hk
  refine ⟨?_, fun hret => hst.closing (h.closing (hout.returned ▸ hret)),
    fun hret => hst.asked_mono (h.returned (hout.returned ▸ hret)), fun k hk => hst.handler k (h.bound k (hout.ended ▸ hk)),
    fun t ht htr => hst.gone_mono (h.ended t (hout.ended ▸ ht) (hst.transport ▸ htr)),
    every_append.mpr ⟨h.allowed.mono fun op hop => hst.allowed_mono hop, hentry.mono fun op hop => .of_entry hop⟩, ?_, ?_⟩
  · rw [hout.transport]
    exact h.attached
  · refine List.forall_mem_append.mpr ⟨fun as has => ?_, fun as has => .of_forall_not ?_⟩
    · exact (h.asks as has).mono hst.asked_mono (fun _ _ => id) fun _ _ => hst.asks_mono
    · rintro op hop rfl
      exact hentry as has _ hop
  · refine List.forall_mem_append.mpr ⟨fun as has => ?_, fun as has => .of_forall_not ?_⟩
    · exact (h.ends as has).mono hst.gone_mono (fun _ _ => hst.reports_iff.mp) fun _ _ => hst.ends_mono
    · rintro op hop ⟨t, rfl, -⟩
      exact hentry as has _ hop

end Steps

theorem attended_opened (direct : Bool) : Attended (opened direct) := by
  cases direct with
  | false => exact ⟨nofun, nofun, nofun, nofun, nofun, every_nil, nofun, nofun⟩
  | true =>
    refine ⟨nofun, nofun, nofun, nofun, nofun, every_cons.mpr ⟨?_, every_nil⟩, ?_, ?_⟩
    · exact List.forall_mem_singleton.mpr ⟨⟨nofun, nofun, nofun⟩, nofun, nofun⟩
    · exact List.forall_mem_singleton.mpr ⟨nofun, trivial⟩
    · exact List.forall_mem_singleton.mpr ⟨nofun, trivial⟩

/-- A session that is closed while no upgrade interferes is not stranded. -/
theorem closing_not_stranded {direct : Bool} {ls : List Act} (hrun : Run step Undisturbed (opened direct) ls w) :
    NotStranded w := by
  have hattended : Attended w ∧ ∀ k, Looped k w := by
    refine hrun.invariant (fun w => Attended w ∧ ∀ k, Looped k w)
      ⟨attended_opened direct, fun k => looped_opened k direct⟩ fun w a w' hw hok hs => ?_
    refine ⟨?_, fun k => (hw.2 k).step hs⟩
    cases step_does hs with
    | go hi hrun => exact hw.1.go hw.2 hi hrun (hok _ (next?_eq_some hi))
    | event he => exact hw.1.event he
  intro hreturned _ _
  obtain ⟨t, ht, hasked⟩ := hattended.1.returned hreturned
  exact ⟨t, ht, hasked, fun hended => hattended.1.ended t hended ht⟩

section NonVacuity

instance (s : Session) : Decidable (Gone s) := by
  unfold Gone
  infer_instance

instance (s : Session) (op : Op) : Decidable (Heeded s op) := by
  unfold Heeded
  split <;> infer_instance

instance (w : State) : ∀ a, Decidable (Undisturbed w a)
  | .go i _ => inferInstanceAs (Decidable (∀ op ∈ next? w.tasks i, Heeded w.shared op))
  | .event _ => isTrue trivial

/-- A websocket session is closed; the read loop then fails and reports the end of the transport. -/
def quiet : List Act :=
  Act.event .close :: List.replicate 6 (Act.go 1 .next) ++ Act.go 0 .fail :: List.replicate 8 (Act.go 0 .next)

theorem quiet_runs : (exec step Undisturbed (opened true) quiet).isSome = true := by decide +kernel

def settled : State := (exec step Undisturbed (opened true) quiet).get quiet_runs

theorem closing_not_stranded_quiet : settled.shared.returned = true ∧ .websocket 0 ∈ settled.shared.ended ∧
    Gone settled.shared := by
  have hended : .websocket 0 ∈ settled.shared.ended := by decide +kernel
  have htransport : settled.shared.transport = some (.websocket 0) := by decide +kernel
  have hreturned : settled.shared.returned = true := by decide +kernel
  refine ⟨hreturned, hended, ?_⟩
  have hrun : Run step Undisturbed (opened true) quiet settled := run_of_isSome quiet_runs
  obtain ⟨t, ht, -, hgone⟩ := closing_not_stranded hrun hreturned (by decide +kernel) (by decide +kernel)
  obtain rfl := Option.some.inj (ht.symm.trans htransport)
  exact hgone hended

/-- `Close` runs while the upgrade waits for its last packet. It closes the polling transport,
and then the packet makes the websocket the transport. -/
def crossing : List Act :=
  [Act.event .upgrade, .go 0 .next, .go 0 .next, .event .close] ++ List.replicate 5 (Act.go 2 .next) ++
    Act.go 1 (.receive { type := .upgrade }) :: List.replicate 12 (Act.go 1 .next)

theorem crossing_runs : (exec step always (opened false) crossing).isSome = true := by decide +kernel

def crossed : State := (exec step always (opened false) crossing).get crossing_runs

theorem closed_upgrade_strands : ¬ ∀ (direct : Bool) (ls : List Act) (w : State),
    Run step always (opened direct) ls w → NotStranded w := by
  intro h
  have htransport : crossed.shared.transport = some (.websocket 0) := by decide +kernel
  have hasked : .websocket 0 ∉ crossed.shared.asked := by decide +kernel
  obtain ⟨t, ht, hmem, -⟩ := h false crossing crossed (run_of_isSome crossing_runs) (by decide +kernel)
    (by decide +kernel) (by decide +kernel)
  obtain rfl := Option.some.inj (ht.symm.trans htransport)
  exact hasked hmem

end NonVacuity

end State

end Gosocketio.Engine

import Gosocketio.Proofs.Wakeup

/-! `Close` on an open session. It calls `flush` and then `Close` of the transport, and in
between and at both places it finds what other goroutines have left. What it finds there is
told by the order of the steps: whether another `flush` is sending when `Close` flushes, and
whether a poll comes before the close is put off, or a handler of an earlier one is late. -/

namespace Gosocketio.Engine

open Transport Stacks Pool Runs
open EngineSocket (Tport)

namespace Session

variable {direct : Bool} {s s' : Session} {op : Op} {ops : List Op} {new : List (List Op)} {c : Choice}

/-- A response with a close packet was written, a websocket was closed, or the session is
closed. -/
def Issued (s : Session) : Prop :=
  (∃ n pkts, .wrote n (some pkts) ∈ s.polling.log ∧ ∃ p ∈ pkts, p.type = .close) ∨
    (∃ w ∈ s.websockets, w.closed = true ∨ w.gone = true) ∨ s.readyState = .closed

/-- When the close is issued, everything is written that had been appended when `Close` set
the state. -/
def Flushed (direct : Bool) (s : Session) : Prop :=
  ∀ pkts, s.owed = some pkts → s.Issued → pkts <+: s.written direct

/-- Nothing is appended after `Close`. -/
def Owes (s : Session) : Prop := s.readyState = .opened ∨
    (s.readyState = .closing ∨ s.readyState = .closed) ∧ s.owed = some s.accepted

theorem Calm.not_issued {closing : Bool} (h : s.Calm closing) : ¬ s.Issued := by
  rintro (⟨n, pkts, hmem, p, hp, hclose⟩ | ⟨w, hw, hclosed | hgone⟩ | hclosed)
  · rw [← h.log n pkts hmem] at hp
    simp [payload, hclose] at hp
  · cases (h.websockets w hw).1.symm.trans hclosed
  · cases (h.websockets w hw).2.symm.trans hgone
  · rcases h.readyState with hopen | ⟨-, hclosing⟩
    · cases hopen.symm.trans hclosed
    · cases hclosing.symm.trans hclosed

theorem Moves.accepted (hm : Moves direct s op s' ops)
    (hs : s.readyState = .closing ∨ s.readyState = .closed) : s'.accepted = s.accepted := by
  cases hm with
  | quiet _ _ hsame | pass _ _ _ _ hsame => exact hsame.accepted
  | append p hopen => exact absurd hs (not_or.mpr hopen)
  | check | skip | take | finish => rfl
  | write _ _ _ _ _ _ _ _ hsame => exact hsame.2.2.1

theorem Moves.uncarried (hm : Moves direct s op s' ops) (hop : op.carried = 0)
    (hs : s.readyState = .closing ∨ s.readyState = .closed) (hempty : s.writeBuffer = []) :
    s'.writeBuffer = [] ∧ ∀ op ∈ ops, op.carried = 0 := by
  cases hm with
  | quiet _ _ hsame hops => exact ⟨hsame.writeBuffer.trans hempty, fun op hop => (hops op hop).carried⟩
  | append p hopen => exact absurd hs (not_or.mpr hopen)
  | check =>
    refine ⟨hempty, ?_⟩
    split_ifs
    · exact List.forall_mem_singleton.mpr rfl
    · exact nofun
  | skip => exact ⟨hempty, nofun⟩
  | take _ hne => exact absurd hempty hne
  | @pass buf _ _ hne =>
    rw [show Op.carried (.send (State.first direct) buf) = {buf} from bag_of_ne hne] at hop
    exact absurd hop (Multiset.singleton_ne_zero _)
  | write ys zs hne _ hcarried =>
    rw [hcarried, bag_of_ne hne] at hop
    exact absurd hop (Multiset.singleton_ne_zero _)
  | finish hops =>
    refine ⟨hempty, ?_⟩
    rcases hops with rfl | rfl
    · exact nofun
    · exact List.forall_mem_singleton.mpr rfl

theorem closed_run (hlocal : op.Local direct) (hs : s.readyState = .closing ∨ s.readyState = .closed)
    (hrun : s.run c op = some (s', ops, new)) :
    (s'.readyState = .closing ∨ s'.readyState = .closed) ∧ s'.owed = s.owed := by
  have hframe := run_frame hrun
  have hclose (h : op = .closeSocket) : s' = s := by
    subst h
    have hne : s.readyState ≠ .opened := by
      rcases hs with hs | hs <;> rw [hs] <;> exact nofun
    simp only [run, if_pos hne] at hrun
    exact (Prod.mk.inj (Option.some.inj hrun)).1.symm
  have howed : s'.owed = s.owed := by
    rcases hframe.owed with hsame | hop
    · exact hsame
    · rw [hclose hop]
  refine ⟨?_, howed⟩
  rcases hframe.readyState with hsame | rfl | hop | ⟨reason, rfl⟩
  · rw [hsame]
    exact hs
  · exact hlocal.elim
  · rw [hclose hop]
    exact hs
  · simp only [run] at hrun
    split_ifs at hrun with hclosed <;> obtain ⟨rfl, -⟩ := run_inj hrun
    · exact hs
    · exact .inr rfl

theorem Owes.run (h : s.Owes) (hlocal : op.Local direct)
    (hreason : ∀ reason, op = .closeWithReason reason → s.readyState ≠ .opened)
    (hm : Moves direct s op s' ops) (hrun : s.run c op = some (s', ops, new)) : s'.Owes := by
  rcases h with hopen | ⟨hclosing, howed⟩
  · rcases (run_frame hrun).readyState with hsame | rfl | rfl | ⟨reason, rfl⟩
    · exact .inl (hsame.trans hopen)
    · exact hlocal.elim
    · simp only [Session.run, hopen, ne_eq, not_true_eq_false, if_false] at hrun
      obtain ⟨rfl, -⟩ := run_inj hrun
      exact .inr ⟨.inl rfl, rfl⟩
    · exact absurd hopen (hreason reason rfl)
  · obtain ⟨hclosing', howed'⟩ := closed_run hlocal hclosing hrun
    exact .inr ⟨hclosing', by rw [howed', howed, hm.accepted hclosing]⟩

/-- No `flush` is sending, and none can take anything. -/
def Still (direct : Bool) (s : Session) : Prop :=
  s.sending = false ∧ (s.writeBuffer = [] ∨ s.isWritable (State.first direct) = false)

theorem Moves.still (hm : Moves direct s op s' ops) (hs : s.readyState = .closing) (h : s.Still direct) :
    s'.Still direct := by
  obtain ⟨hsending, hrest⟩ := h
  have hsame {s₀ : Session} (h : Same direct s₀ s') (hb : s₀.writeBuffer = s.writeBuffer)
      (hw : s₀.isWritable (State.first direct) = s.isWritable (State.first direct)) :
      s'.writeBuffer = [] ∨ s'.isWritable (State.first direct) = false := by
    refine hrest.imp (fun he => h.writeBuffer.trans (hb.trans he)) fun hnot => ?_
    refine Bool.eq_false_iff.mpr fun hw' => ?_
    cases hnot.symm.trans (hw.symm.trans (h.writable hw'))
  cases hm with
  | quiet _ _ h | pass _ _ _ _ h => exact ⟨h.sending.trans hsending, hsame h rfl rfl⟩
  | append p hopen => exact absurd hs hopen.1
  | check | skip => exact ⟨hsending, hrest⟩
  | take _ hne hwritable => exact (hrest.elim hne fun hnot => by cases hnot.symm.trans hwritable).elim
  | write _ _ _ _ _ _ _ _ h =>
    exact ⟨h.2.1.trans hsending, hrest.imp h.1.trans h.2.2.2.2.trans⟩
  | finish => exact ⟨rfl, hrest⟩

theorem Moves.sending (hm : Moves direct s op s' ops) (h : s.sending = false) :
    s'.writeBuffer = [] ∨ s'.sending = false := by
  cases hm with
  | quiet _ _ hsame | pass _ _ _ _ hsame => exact .inr (hsame.sending.trans h)
  | append | check | skip => exact .inr h
  | take => exact .inl rfl
  | write _ _ _ _ _ _ _ _ hsame => exact .inr (hsame.2.1.trans h)
  | finish => exact .inr rfl

/-- A `flush` that takes nothing while no other is sending finds nothing that it could take. -/
theorem Moves.flushed (hm : Moves direct s .flush s' ops) (hclosing : s.readyState = .closing)
    (hsending : s.sending = false) :
    (s' = s ∧ ops = [] ∧ s'.Still direct) ∨
      s'.writeBuffer = [] ∧ ∃ buf, ops = [.send (State.first direct) buf, .sent] := by
  cases hm with
  | quiet _ hwakes | write _ _ _ _ _ _ hwakes => cases hwakes
  | skip hskip =>
    refine .inl ⟨rfl, rfl, hsending, ?_⟩
    rcases hskip with hclosed | hbusy | hskip
    · cases hclosing.symm.trans hclosed
    · cases hsending.symm.trans hbusy
    · exact hskip
  | take => exact .inr ⟨rfl, _, rfl⟩

end Session

namespace State

open Session

variable {direct : Bool} {w w' : State} {a : Act} {i : ℕ} {op : Op} {rest : List Op}

/-- Messages, calls of `flush` and `Close`, and polls that do not overlap; no transport fails
and no timer expires. -/
def Peaceful (w : State) : Act → Prop
  | .go _ c => c = .next ∨ c = .fail
  | .event .close => True
  | .event e => Serves w (.event e)

/-- `Close` flushes while no `flush` is sending; no poll arrives before `Close` of the polling
transport has been through its section, and by then the handlers of earlier polls have looked
for a deferred close; a handler that finds one looks for it while no `flush` is sending. -/
def Unobstructed (w : State) : Act → Prop
  | .go i _ => ∀ t ∈ w.tasks[i]?,
      (t.take 2 = [.flush, .closeTransport] → w.shared.sending = false) ∧
      (t.head? = some (.close .polling) → w.shared.polling.p.discarded = false →
        Every (· ≠ .polling .checkPending) w.tasks) ∧
      (t.head? = some (.polling .checkPending) → w.shared.polling.p.pendingClose = true →
        w.shared.sending = false)
  | .event .poll => ∀ t ∈ w.tasks, t.head? ≠ some .closeTransport ∧
      (t.head? = some (.close .polling) → w.shared.polling.p.discarded = true)
  | .event _ => True

/-- Where the goroutine of `Close` is and what it has found, and what the handler of a poll
finds when it looks for a deferred close. -/
structure Attends (direct : Bool) (s : Session) (t : List Op) : Prop where
  socket : .closeSocket ∈ t → t = [.closeSocket]
  transport : .closeTransport ∈ t → t = [.closeTransport, .closeReturned] ∧ s.Still direct ∨
    t = [.flush, .closeTransport, .closeReturned] ∨
    ∃ pre, .closeTransport ∉ pre ∧ t = pre ++ [.sent, .closeTransport, .closeReturned] ∧ s.writeBuffer = []
  close : ∀ tp, .close tp ∈ t → t = [.close tp, .closeReturned] ∧ s.Still direct
  pending : s.polling.p.pendingClose = true → .polling .checkPending ∈ t →
    s.writeBuffer = [] ∨ t.head? = some .flush ∧ s.sending = false ∧ s.polling.p.writable = true

structure Tended (direct : Bool) (w : State) : Prop where
  each : ∀ t ∈ w.tasks, Attends direct w.shared t
  deferred : w.shared.polling.p.pendingClose = true → w.shared.writeBuffer = [] ∨ w.shared.sending = false

section Tended

variable {s' : Session} {ops : List Op} {new : List (List Op)} {c : Choice} {t : List Op}

theorem Attends.other (h : Attends direct w.shared t) (hdue : ∀ op ∈ t, op.Due w.shared)
    (hm : Moves direct w.shared op s' ops)
    (hpending : s'.polling.p.pendingClose = true → .polling .checkPending ∈ t →
      s'.writeBuffer = [] ∨ t.head? = some .flush ∧ s'.sending = false ∧ s'.polling.p.writable = true) :
    Attends direct s' t where
  socket := h.socket
  transport hmem := by
    have hclosing : w.shared.readyState = .closing := hdue _ hmem
    rcases h.transport hmem with ⟨ht, hstill⟩ | ht | ⟨pre, hpre, ht, hempty⟩
    · exact .inl ⟨ht, hm.still hclosing hstill⟩
    · exact .inr (.inl ht)
    · exact .inr (.inr ⟨pre, hpre, ht, hm.empty hclosing hempty⟩)
  close tp hmem := (h.close tp hmem).imp_right (hm.still (hdue _ hmem))
  pending := hpending

theorem Ready.pending {P : Prop} (hr : Ready direct true w) (hi : w.tasks[i]? = some (op :: rest))
    (hm : Moves direct w.shared op s' ops) (hspares : w.shared.Spares op s')
    (hpending : w.shared.polling.p.pendingClose = true)
    (h : w.shared.writeBuffer = [] ∨ P ∧ w.shared.sending = false ∧ w.shared.polling.p.writable = true) :
    s'.writeBuffer = [] ∨ P ∧ s'.sending = false ∧ s'.polling.p.writable = true := by
  rcases h with hempty | ⟨hP, hsending, hwritable⟩
  · exact .inl (hm.empty (hr.calm.pendingClose hpending) hempty)
  · refine (hm.sending hsending).imp_right fun hsending' => ⟨hP, hsending', ?_⟩
    rcases hspares with ⟨hsame, -⟩ | ⟨-, -, hnot⟩ | ⟨buf, rfl, -⟩
    · exact hsame.trans hwritable
    · cases hnot.symm.trans hwritable
    · -- who sends has something to send, and `sending` is set
      have hload := (hr.path.idle hsending).1
      obtain ⟨r, hold, -⟩ := exists_load_go Op.held hi [] []
      rw [hold, show Op.held (.send .polling buf) = {buf} from bag_of_ne (hr.ops.head hi).1.2.1] at hload
      exact absurd (congrArg Multiset.card hload) (by simp)

theorem Attends.own (h : Attends direct w.shared (op :: rest)) (hr : Ready direct true w)
    (hi : w.tasks[i]? = some (op :: rest))
    (hflush : (op :: rest).take 2 = [.flush, .closeTransport] → w.shared.sending = false)
    (hm : Moves direct w.shared op s' ops) (hspares : w.shared.Spares op s')
    (hrun : w.shared.run c op = some (s', ops, new)) : Attends direct s' (ops ++ rest) := by
  obtain ⟨-, hserving, -⟩ := hr.ops.head hi
  have hcause := (run_cause hrun).1
  have hclose (tp : Tport) (hmem : .close tp ∈ ops) : op = .closeTransport := by
    rcases hcause _ hmem with heq | ⟨_, rfl⟩ | ⟨_, rfl⟩ | ⟨_, rfl⟩ | ⟨_, _, rfl⟩
    · exact heq
    all_goals exact hserving.elim
  have hdue (op' : Op) (hop' : op' ∈ rest) : op'.Due w.shared :=
    (hr.ops _ (List.mem_of_getElem? hi) op' (List.mem_cons_of_mem _ hop')).2.2
  refine ⟨?_, ?_, ?_, ?_⟩
  · intro hmem
    rcases List.mem_append.mp hmem with hmem | hmem
    · exact (hcause _ hmem).elim
    · rw [(List.cons.inj (h.socket (List.mem_cons_of_mem _ hmem))).2] at hmem
      cases hmem
  · intro hmem
    rcases List.mem_append.mp hmem with hmem | hmem
    · obtain ⟨rfl, hopen⟩ := hcause _ hmem
      obtain rfl : rest = [] := (List.cons.inj (h.socket List.mem_cons_self)).2
      simp only [run, hopen, ne_eq, not_true_eq_false, if_false] at hrun
      obtain ⟨-, rfl, -⟩ := run_inj hrun
      exact .inr (.inl rfl)
    · have hclosing : w.shared.readyState = .closing := hdue _ hmem
      rcases h.transport (List.mem_cons_of_mem _ hmem) with ⟨ht, -⟩ | ht | ⟨pre, hpre, ht, hempty⟩
      · rw [(List.cons.inj ht).2] at hmem
        simp at hmem
      · obtain ⟨rfl, rfl⟩ := List.cons.inj ht
        rcases hm.flushed hclosing (hflush rfl) with ⟨-, rfl, hstill⟩ | ⟨hempty, buf, rfl⟩
        · exact .inl ⟨rfl, hstill⟩
        · exact .inr (.inr ⟨[.send (first direct) buf], by simp, rfl, hempty⟩)
      · cases pre with
        | nil =>
          obtain ⟨rfl, rfl⟩ := List.cons.inj ht
          cases hm with
          | quiet hop => cases hop.sendings
          | write _ _ _ _ _ hsendings => cases hsendings
          | finish hops =>
            rcases hops with rfl | rfl
            · exact .inl ⟨rfl, rfl, .inl hempty⟩
            · exact .inr (.inl rfl)
        | cons op' pre =>
          obtain ⟨rfl, rfl⟩ := List.cons.inj ht
          refine .inr (.inr ⟨ops ++ pre, ?_, (List.append_assoc ..).symm, hm.empty hclosing hempty⟩)
          rw [List.mem_append, not_or]
          refine ⟨fun hops => ?_, fun hmem => hpre (List.mem_cons_of_mem _ hmem)⟩
          obtain ⟨rfl, -⟩ := hcause _ hops
          have hnil := (List.cons.inj (h.socket List.mem_cons_self)).2
          simp at hnil
  · intro tp hmem
    rcases List.mem_append.mp hmem with hmem | hmem
    · obtain rfl := hclose tp hmem
      rcases h.transport List.mem_cons_self with ⟨ht, hstill⟩ | ht | ⟨pre, hpre, ht, -⟩
      · obtain rfl := (List.cons.inj ht).2
        obtain ⟨rfl, rfl, -⟩ := run_inj hrun
        rw [hr.fixed.transport] at hmem ⊢
        obtain rfl : tp = first direct := by simpa using hmem
        exact ⟨rfl, hstill⟩
      · cases (List.cons.inj ht).1
      · cases pre with
        | nil => cases (List.cons.inj ht).1
        | cons op' pre =>
          rw [← (List.cons.inj ht).1] at hpre
          exact absurd List.mem_cons_self hpre
    · rw [(List.cons.inj (h.close tp (List.mem_cons_of_mem _ hmem)).1).2] at hmem
      simp at hmem
  · intro hpending hmem
    rcases List.mem_append.mp hmem with hmem | hmem
    · exact (hcause _ hmem).elim
    · have hold : w.shared.polling.p.pendingClose = true := by
        rcases hspares with ⟨-, hsame⟩ | ⟨rfl, -⟩ | ⟨_, -, hsame⟩
        · exact hsame.symm.trans hpending
        · rw [(List.cons.inj (h.close .polling List.mem_cons_self).1).2] at hmem
          simp at hmem
        · exact hsame.symm.trans hpending
      have hclosing := hr.calm.pendingClose hold
      rcases h.pending hold (List.mem_cons_of_mem _ hmem) with hempty | ⟨hhead, hsending, hwritable⟩
      · exact .inl (hm.empty hclosing hempty)
      · obtain rfl : op = .flush := Option.some.inj hhead
        rcases hm.flushed hclosing hsending with ⟨rfl, -, -, hstill⟩ | ⟨hempty, -⟩
        · refine .inl (hstill.resolve_right ?_)
          cases direct with
          | false => exact fun hnot => by cases hnot.symm.trans hwritable
          | true => exact fun hnot => Bool.noConfusion (show true = false from hnot)
        · exact .inl hempty

theorem Tended.go (h : Tended direct w) (hr : Ready direct true w)
    (hi : w.tasks[i]? = some (op :: rest)) (hissues : op.issues w.shared = false)
    (hwrite : ∀ r, op = .polling (.write r) → r.pendingClose = false) (hc : c = .next ∨ c = .fail)
    (hok : Unobstructed w (.go i c)) (hrun : w.shared.run c op = some (s', ops, new)) :
    Tended direct ⟨s', w.tasks.set i (ops ++ rest) ++ new⟩ := by
  obtain ⟨hlocal, hserving, hdue⟩ := hr.ops.head hi
  obtain ⟨rfl, -, -, hm⟩ := run_keeps hr.fixed hlocal (hr.fit hi) hc hrun
  obtain ⟨-, hspares, -⟩ := serving_run hr.calm hserving hdue hlocal (hr.fit hi) hissues hwrite hc hrun
  obtain ⟨hflush, hclose, -⟩ := hok _ (Option.mem_def.mpr hi)
  have hi' := List.mem_of_getElem? hi
  rw [List.append_nil]
  refine ⟨fun t ht => ?_, fun hpending => ?_⟩
  · rcases List.mem_or_eq_of_mem_set ht with ht | rfl
    · refine (h.each t ht).other (fun op' hop' => (hr.ops t ht op' hop').2.2) hm fun hpending hmem => ?_
      have hold : w.shared.polling.p.pendingClose = true := by
        rcases hspares with ⟨-, hsame⟩ | ⟨rfl, -⟩ | ⟨_, -, hsame⟩
        · exact hsame.symm.trans hpending
        · exact absurd rfl (hclose rfl hr.calm.discarded t ht _ hmem)
        · exact hsame.symm.trans hpending
      exact hr.pending hi hm hspares hold ((h.each t ht).pending hold hmem)
    · exact (h.each _ hi').own hr hi hflush hm hspares hrun
  · have hold : w.shared.writeBuffer = [] ∧ w.shared.readyState = .closing ∨ w.shared.sending = false := by
      rcases hspares with ⟨-, hsame⟩ | ⟨rfl, -⟩ | ⟨_, -, hsame⟩
      · have hpending := hsame.symm.trans hpending
        exact (h.deferred hpending).imp_left fun hempty => ⟨hempty, hr.calm.pendingClose hpending⟩
      · exact .inr ((h.each _ hi').close .polling List.mem_cons_self).2.1
      · have hpending := hsame.symm.trans hpending
        exact (h.deferred hpending).imp_left fun hempty => ⟨hempty, hr.calm.pendingClose hpending⟩
    rcases hold with ⟨hempty, hclosing⟩ | hsending
    · exact .inl (hm.empty hclosing hempty)
    · exact hm.sending hsending

theorem Attends.fresh {s : Session} (hsocket : .closeSocket ∈ t → t = [.closeSocket])
    (ht : ∀ op ∈ t, op ≠ .closeTransport ∧ (∀ tp, op ≠ .close tp) ∧ op ≠ .polling .checkPending) :
    Attends direct s t where
  socket := hsocket
  transport hmem := absurd rfl (ht _ hmem).1
  close tp hmem := absurd rfl ((ht _ hmem).2.1 tp)
  pending _ hmem := absurd rfl (ht _ hmem).2.2

section

variable (h : Tended direct w)

include h

theorem Tended.call
    (ht : op ≠ .closeTransport ∧ (∀ tp, op ≠ .close tp) ∧ op ≠ .polling .checkPending) :
    Tended direct ⟨w.shared, w.tasks ++ [[op]]⟩ := by
  refine ⟨List.forall_mem_append.mpr ⟨h.each, List.forall_mem_singleton.mpr ?_⟩, h.deferred⟩
  refine .fresh (fun hmem => ?_) (List.forall_mem_singleton.mpr ht)
  rw [List.mem_singleton.mp hmem]

theorem Tended.poll (hr : Ready direct true w)
    (hreq : w.shared.polling.p.req = none) (hp : w.shared.pollingTport = true)
    (hok : Unobstructed w (.event .poll)) :
    Tended direct ⟨w.shared.poll.1, w.tasks ++ w.shared.poll.2⟩ := by
  obtain rfl : direct = false := by simpa [hr.fixed.pollingTport] using hp
  rw [hr.poll_eq hreq]
  refine ⟨List.forall_mem_append.mpr ⟨fun t ht => ?_, ?_⟩, h.deferred⟩
  · obtain ⟨hsocket, htransport, hclose, hpending⟩ := h.each t ht
    obtain ⟨hnot, hdiscarded⟩ := hok t ht
    refine ⟨hsocket, fun hmem => ?_, fun tp hmem => ?_, fun hold hmem => ?_⟩
    · rcases htransport hmem with ⟨rfl, -⟩ | hrest
      · exact absurd rfl hnot
      · exact .inr hrest
    · obtain ⟨rfl, -⟩ := hclose tp hmem
      obtain rfl : tp = .polling := (hr.ops _ ht _ hmem).1
      cases hr.calm.discarded.symm.trans (hdiscarded rfl)
    · exact (hpending hold hmem).imp_right fun hhead => ⟨hhead.1, hhead.2.1, rfl⟩
  · refine List.forall_mem_cons.mpr ⟨.fresh (by simp) (by simp), List.forall_mem_singleton.mpr ?_⟩
    refine ⟨by simp, by simp, by simp, fun hold _ => ?_⟩
    exact (h.deferred hold).imp_right fun hsending => ⟨rfl, hsending, rfl⟩

theorem Tended.occurs {e : Event} (hr : Ready direct true w)
    (hpeace : Peaceful w (.event e)) (hok : Unobstructed w (.event e))
    (hstep : w.step (.event e) = some w') : Tended direct w' := by
  cases step_does hstep with
  | @event e s new he =>
    cases e with
    | message | flush | pingInterval | close =>
      obtain ⟨rfl, rfl⟩ := Prod.mk.inj (Option.some.inj he)
      exact h.call (by simp)
    | poll =>
      simp only [Session.occurs] at he
      split_ifs at he with hp
      have hpoll := h.poll hr hpeace hp hok
      rw [Option.some.inj he] at hpoll
      exact hpoll
    | _ => exact hpeace.elim

/-- Who goes on to issue the close finds nothing left to write. -/
theorem Tended.drained (hr : Ready direct true w)
    (hi : w.tasks[i]? = some (op :: rest)) (hok : Unobstructed w (.go i c))
    (hissues : op.issues w.shared = true) :
    w.shared.writeBuffer = [] ∧ Every (fun op => op.carried = 0) w.tasks := by
  have hown := h.each _ (List.mem_of_getElem? hi)
  obtain ⟨-, -, hcheck⟩ := hok _ (Option.mem_def.mpr hi)
  have hidle (hsending : w.shared.sending = false) : Every (fun op => op.carried = 0) w.tasks :=
    every_of_load_eq_zero (hr.path.idle hsending).2
  cases op with
  | close tp =>
    obtain ⟨-, hsending, hrest⟩ := hown.close tp List.mem_cons_self
    refine ⟨hrest.resolve_right fun hnot => ?_, hidle hsending⟩
    obtain rfl : tp = first direct := (hr.ops.head hi).1
    cases direct with
    | false =>
      have hwritable := (Bool.and_eq_true_iff.mp hissues).2
      cases hnot.symm.trans hwritable
    | true => cases hnot
  | polling o =>
    cases o with
    | checkPending =>
      rw [Op.issues, Bool.and_eq_true] at hissues
      refine ⟨?_, hidle (hcheck rfl hissues.1)⟩
      rcases hown.pending hissues.1 List.mem_cons_self with hempty | ⟨hhead, -⟩
      · exact hempty
      · cases hhead
    | _ => cases hissues
  | _ => cases hissues

end

theorem Tended.init (direct : Bool) : Tended direct (opened direct) := by
  cases direct with
  | false => exact ⟨List.forall_mem_nil _, nofun⟩
  | true => exact ⟨List.forall_mem_singleton.mpr (.fresh (by simp) (by simp)), nofun⟩

end Tended

/-- Everything is written that ever will be. -/
structure Emptied (direct : Bool) (w : State) : Prop where
  fixed : Fixed direct w.shared
  ops : Every (Op.Local direct) w.tasks
  path : Path direct w.shared w.tasks
  readyState : w.shared.readyState = .closing ∨ w.shared.readyState = .closed
  writeBuffer : w.shared.writeBuffer = []
  carried : Every (fun op => op.carried = 0) w.tasks

section

variable (h : Emptied direct w)

include h

theorem Emptied.fit (hi : w.tasks[i]? = some (op :: rest)) : w.shared.Fit op := by
  have hlocal := h.ops.head hi
  have hcarried := h.carried.head hi
  cases op with
  | send t buf =>
    rw [show Op.carried (.send t buf) = {buf} from bag_of_ne hlocal.2.1] at hcarried
    exact absurd hcarried (Multiset.singleton_ne_zero _)
  | frames k pkts =>
    cases pkts with
    | nil => trivial
    | cons p pkts =>
      exact absurd hcarried (Multiset.singleton_ne_zero _)
  | _ => trivial

theorem Emptied.go {s' : Session} {ops : List Op} {new : List (List Op)} {c : Choice} (hi : w.tasks[i]? = some (op :: rest)) (hc : c = .next ∨ c = .fail)
    (hrun : w.shared.run c op = some (s', ops, new)) :
    Emptied direct ⟨s', w.tasks.set i (ops ++ rest) ++ new⟩ := by
  obtain ⟨rfl, hfixed, hlocals, hmoves⟩ := run_keeps h.fixed (h.ops.head hi) (h.fit hi) hc hrun
  obtain ⟨hempty, hcarried⟩ := hmoves.uncarried (h.carried.head hi) h.readyState h.writeBuffer
  rw [List.append_nil]
  refine ⟨hfixed, h.ops.set hi hlocals, ?_, (closed_run (h.ops.head hi) h.readyState hrun).1, hempty,
    h.carried.set hi hcarried⟩
  have hpath := h.path.go hi hmoves every_nil
  rw [List.append_nil] at hpath
  exact hpath

theorem Emptied.event {s' : Session} {new : List (List Op)} (hfixed : Fixed direct s')
    (hsame : s'.sending = w.shared.sending ∧ s'.writeBuffer = w.shared.writeBuffer ∧
      s'.accepted = w.shared.accepted ∧ s'.batches = w.shared.batches ∧
      s'.written direct = w.shared.written direct)
    (hready : s'.readyState = w.shared.readyState)
    (hnew : Every (fun op => op.Local direct ∧ op.Neutral) new) :
    Emptied direct ⟨s', w.tasks ++ new⟩ := by
  obtain ⟨hsending, hbuffer, haccepted, hbatches, hwritten⟩ := hsame
  refine ⟨hfixed, every_append.mpr ⟨h.ops, hnew.mono fun _ hop => hop.1⟩,
    h.path.event hsending hbuffer haccepted hbatches hwritten (hnew.mono fun _ hop => hop.2), ?_,
    hbuffer.trans h.writeBuffer, every_append.mpr ⟨h.carried, hnew.mono fun _ hop => hop.2.carried⟩⟩
  rw [hready]
  exact h.readyState

theorem Emptied.poll (hreq : w.shared.polling.p.req = none) (hp : w.shared.pollingTport = true) :
    Emptied direct ⟨w.shared.poll.1, w.tasks ++ w.shared.poll.2⟩ := by
  obtain rfl : direct = false := by simpa [h.fixed.pollingTport] using hp
  have hs := h.fixed
  simp only [Session.poll, hreq, ne_eq, not_true_eq_false, if_false, Polling.onPollRequest]
  split_ifs with htake hempty hempty
  · simp only [Bool.and_eq_true, decide_eq_true_eq] at htake
    exact absurd hempty htake.2
  · refine h.event { hs with sendBuffer := rfl }
      ⟨rfl, rfl, rfl, rfl, rfl⟩ rfl ?_
    simp [Op.Local, LocalPolling, hs.sendBuffer, Op.neutral_iff, Op.held, Op.carried, Op.sendings]
  · refine h.event { hs with }
      ⟨rfl, rfl, rfl, rfl, rfl⟩ rfl ?_
    simp [Op.Local, LocalPolling, Op.neutral_iff, Op.held, Op.carried, Op.sendings]
  · exact absurd rfl hempty

theorem Emptied.occurs {e : Event} (hpeace : Peaceful w (.event e))
    (hstep : w.step (.event e) = some w') : Emptied direct w' := by
  cases step_does hstep with
  | @event e s new he =>
    have hcall (new : List (List Op)) (hnew : Every (fun op => op.Local direct ∧ op.Neutral) new) :
        Emptied direct ⟨w.shared, w.tasks ++ new⟩ :=
      h.event h.fixed ⟨rfl, rfl, rfl, rfl, rfl⟩ rfl hnew
    cases e with
    | message data binary =>
      obtain ⟨rfl, rfl⟩ := Prod.mk.inj (Option.some.inj he)
      refine hcall _ ?_
      simp [Op.Local, payload, Op.neutral_iff, Op.held, Op.carried, Op.sendings]
    | flush | pingInterval | close =>
      obtain ⟨rfl, rfl⟩ := Prod.mk.inj (Option.some.inj he)
      refine hcall _ ?_
      simp [Op.Local, Op.neutral_iff, Op.held, Op.carried, Op.sendings]
    | poll =>
      simp only [Session.occurs] at he
      split_ifs at he with hp
      have hpoll := h.poll hpeace hp
      rw [Option.some.inj he] at hpoll
      exact hpoll
    | _ => exact hpeace.elim

end

/-- Up to the step that goes on to issue the close, nobody has begun to; from then on there is
nothing left to write. -/
def Phase (direct : Bool) (w : State) : Prop :=
  w.shared.Owes ∧ (Ready direct true w ∧ Tended direct w ∨ Emptied direct w)

theorem Ready.emptied (h : Ready direct true w) (hi : w.tasks[i]? = some (op :: rest))
    (hissues : op.issues w.shared = true) (hbuffer : w.shared.writeBuffer = [])
    (hcarried : Every (fun op => op.carried = 0) w.tasks) : Emptied direct w := by
  refine ⟨h.fixed, h.ops.mono fun _ hop => hop.1, h.path, .inl ?_, hbuffer, hcarried⟩
  have hdue := (h.ops.head hi).2.2
  cases op with
  | close t => exact hdue
  | polling o =>
    cases o with
    | checkPending =>
      refine h.calm.pendingClose ?_
      rw [Op.issues, Bool.and_eq_true] at hissues
      exact hissues.1
    | _ => cases hissues
  | _ => cases hissues

/-- The response with the last packets and the deferred close packet is written. -/
theorem Ready.written {s' : Session} {ops : List Op} {new : List (List Op)} {c : Choice}
    {r : Polling.Response} (h : Ready direct true w) (hi : w.tasks[i]? = some (.polling (.write r) :: rest))
    (hpending : r.pendingClose = true) (hc : c = .next ∨ c = .fail)
    (hrun : w.shared.run c (.polling (.write r)) = some (s', ops, new)) :
    Emptied direct ⟨s', w.tasks.set i (ops ++ rest) ++ new⟩ := by
  obtain ⟨hlocal, hserving, hdue⟩ := h.ops.head hi
  obtain ⟨hclosing, hempty⟩ := hdue hpending
  have hpay := (hserving.1 hpending).2
  obtain ⟨rfl, hfixed, hlocals, hmoves⟩ := run_keeps h.fixed hlocal (h.fit hi) hc hrun
  refine ⟨hfixed, ?_, h.path.go hi hmoves every_nil, .inl (closing_run hserving hrun hclosing),
    hmoves.empty hclosing hempty, every_of_load_eq_zero ?_⟩
  · rw [List.append_nil]
    exact Every.set (h.ops.mono fun _ hop => hop.1) hi hlocals
  · obtain ⟨l, hold, hnew⟩ := exists_load_go Op.carried hi ops []
    have hpath := h.path.written
    rw [hold, show Op.carried (.polling (.write r)) = bag (payload r.pkts ++ []) by
      rw [List.append_nil]; rfl] at hpath
    have hl : l = 0 := (hpath.pass (by simpa using hpay)).1
    have hops : (ops.map Op.carried).sum = 0 := by
      obtain ⟨⟨s₁, ops₁⟩, hpoll, heq⟩ : ∃ x, w.shared.onPolling (.write r) = some x ∧
          (x.1, x.2, []) = (s', ops, []) := Option.map_eq_some_iff.mp hrun
      obtain ⟨rfl, rfl⟩ : s₁ = s' ∧ ops₁ = ops := by simpa using heq
      obtain ⟨st, os, hst, rfl, rfl⟩ := onPolling_eq_some hpoll
      obtain ⟨rfl, rfl⟩ := Prod.mk.inj (Option.some.inj hst)
      refine List.sum_eq_zero (List.forall_mem_map.mpr ?_)
      simp only [reduceCtorEq, false_and, if_false, List.append_nil]
      refine List.forall_mem_map.mpr (List.forall_mem_append.mpr ⟨?_, ?_⟩)
      · exact List.forall_mem_map.mpr fun _ _ => rfl
      · rw [if_pos hpending]
        exact List.forall_mem_singleton.mpr rfl
    exact hnew.trans (by rw [hl, hops]; rfl)

theorem Phase.step (h : Phase direct w) (hpeace : Peaceful w a) (hok : Unobstructed w a)
    (hstep : w.step a = some w') : Phase direct w' := by
  obtain ⟨howes, hphase⟩ := h
  cases step_does hstep with
  | @event e s new he =>
    refine ⟨?_, hphase.imp (fun hr => ⟨?_, hr.2.occurs hr.1 hpeace hok hstep⟩) fun hm =>
      hm.occurs hpeace hstep⟩
    · obtain ⟨hready, howed, haccepted⟩ := occurs_outside he
      rw [Owes, hready, howed, haccepted]
      exact howes
    · cases e with
      | close =>
        obtain ⟨rfl, rfl⟩ := Prod.mk.inj (Option.some.inj he)
        refine hr.1.call ?_
        simp [Op.Local, Op.Serving, Op.Due, Op.neutral_iff, Op.held, Op.carried, Op.sendings]
      | _ => exact hr.1.sends (by exact hpeace) hstep
  | @go i c op rest ops s new hi hrun =>
    have hemptied (hm : Emptied direct w) : Phase direct ⟨s, w.tasks.set i (ops ++ rest) ++ new⟩ := by
      obtain ⟨-, -, -, hmoves⟩ := run_keeps hm.fixed (hm.ops.head hi) (hm.fit hi) hpeace hrun
      refine ⟨howes.run (hm.ops.head hi) ?_ hmoves hrun, .inr (hm.go hi hpeace hrun)⟩
      intro _ _
      rcases hm.readyState with hclosing | hclosing <;> rw [hclosing] <;> simp
    rcases hphase with ⟨hr, ha⟩ | hm
    · cases hissues : op.issues w.shared with
      | true =>
        obtain ⟨hbuffer, hcarried⟩ := ha.drained hr hi hok hissues
        exact hemptied (hr.emptied hi hissues hbuffer hcarried)
      | false =>
        obtain ⟨hlocal, hserving, -⟩ := hr.ops.head hi
        obtain ⟨-, -, -, hmoves⟩ := run_keeps hr.fixed hlocal (hr.fit hi) hpeace hrun
        refine ⟨howes.run hlocal ?_ hmoves hrun, ?_⟩
        · rintro _ rfl
          exact hserving.elim
        · by_cases hlast : ∃ r, op = .polling (.write r) ∧ r.pendingClose = true
          · obtain ⟨r, rfl, hpending⟩ := hlast
            exact .inr (hr.written hi hpending hpeace hrun)
          · have hwrite (r : Polling.Response) (hop : op = .polling (.write r)) : r.pendingClose = false :=
              Bool.eq_false_iff.mpr fun hpending => hlast ⟨r, hop, hpending⟩
            exact .inl ⟨hr.go hi hissues hwrite hpeace hrun, ha.go hr hi hissues hwrite hpeace hok hrun⟩
    · exact hemptied hm

/-- In every run in which nothing comes in between, `Close` writes what was appended before it
issues the close. -/
theorem undisturbed_close_flushes {acts : List Act}
    (h : Run step (fun w a => Peaceful w a ∧ Unobstructed w a) (opened direct) acts w) :
    w.shared.Flushed direct := by
  have hphase : Phase direct w := by
    refine h.invariant (Phase direct) ⟨.inl rfl, .inl ⟨.init direct true, .init direct⟩⟩ ?_
    exact fun _ _ _ hp hok hstep => hp.step hok.1 hok.2 hstep
  obtain ⟨howes, ⟨hr, -⟩ | hm⟩ := hphase
  · exact fun pkts _ hissued => absurd hissued hr.calm.not_issued
  · intro pkts howed _
    obtain ⟨xs, hxs, hwritten⟩ := hm.path.written
    rw [load_eq_zero hm.carried] at hxs
    obtain rfl : xs = [] := by
      by_contra hne
      rw [bag_of_ne hne] at hxs
      exact Multiset.singleton_ne_zero _ hxs.symm
    rw [hm.writeBuffer, List.append_nil, List.append_nil] at hwritten
    rcases howes with hopen | ⟨-, hall⟩
    · rcases hm.readyState with hclosing | hclosing <;> cases hopen.symm.trans hclosing
    · obtain rfl : pkts = w.shared.accepted := Option.some.inj (howed.symm.trans hall)
      exact ⟨[], by rw [List.append_nil, hwritten]⟩

section NonVacuity

instance (w : State) (a : Act) : Decidable (Peaceful w a) := by
  rcases a with _ | (_ | _) <;> unfold Peaceful <;> infer_instance

instance (w : State) (a : Act) : Decidable (Unobstructed w a) := by
  rcases a with _ | (_ | _) <;> unfold Unobstructed <;> infer_instance

/-- A message is appended and `Close` is called while no poll is pending. -/
def closeUnread : List Act :=
  [.event (.message [1] false), .go 0 .next, .go 0 .next, .event .close, .go 1 .next, .go 1 .next,
    .go 1 .next]

/-- The close is put off; the next poll gets the message and the close packet. -/
def deferred : List Act :=
  closeUnread ++ [Act.go 1 .next, .event .poll, .go 3 .next, .go 3 .next, .go 3 .next]

theorem deferred_runs :
    (exec step (fun w a => Peaceful w a ∧ Unobstructed w a) (opened false) deferred).isSome = true := by
  decide +kernel

def afterDeferred : State :=
  (exec step (fun w a => Peaceful w a ∧ Unobstructed w a) (opened false) deferred).get deferred_runs

theorem undisturbed_close_flushes_deferred : afterDeferred.shared.Issued ∧
      [{ type := .message, data := [1] }] <+: afterDeferred.shared.written false := by
  have hissued : afterDeferred.shared.Issued :=
    .inl ⟨0, [{ type := .message, data := [1] }, { type := .close }], by decide +kernel, { type := .close },
      by decide, rfl⟩
  exact ⟨hissued, undisturbed_close_flushes (run_of_isSome deferred_runs) _ (by decide +kernel) hissued⟩

/-- A poll arrives between the `flush` and the `Close` of the transport. -/
def intercepted : List Act := closeUnread ++ [Act.event .poll, .go 1 .next, .go 1 .next, .go 1 .next]

theorem intercepted_runs : (exec step Peaceful (opened false) intercepted).isSome = true := by
  decide +kernel

/-- The response is the close packet; the message is lost. -/
theorem close_overtakes_message :
    ¬ ∀ (direct : Bool) (acts : List Act) (w : State), Run step Peaceful (opened direct) acts w →
      w.shared.Flushed direct := by
  intro h
  have hflushed := h false intercepted _ (run_of_isSome intercepted_runs)
  have hprefix := hflushed [{ type := .message, data := [1] }] (by decide +kernel)
    (.inl ⟨0, [{ type := .close }], by decide +kernel, { type := .close }, by decide, rfl⟩)
  exact absurd hprefix (by decide +kernel)

end NonVacuity

end State

end Gosocketio.Engine

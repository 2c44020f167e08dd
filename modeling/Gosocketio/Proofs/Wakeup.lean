import Gosocketio.Proofs.WritePath

/-! The hand-off between `sendPacket`, `flush` and the transport of an open session. Whoever
finds `sending` set leaves the packets to the `flush` that set it, and that one looks again
before it ends. -/

namespace Gosocketio.Engine

open Transport Stacks Pool Runs
open EngineSocket (Tport)

variable {buf : List Packet}

/-- The operations of a session that sends and, if `closing`, is told to close; nobody has
begun to close the transport yet. -/
def Op.Serving (closing : Bool) : Op → Prop
  | .sendPacket _ | .appended _ | .flush | .send _ _ | .sent | .frames _ _ | .read _ | .pingHandler => True
  | .polling (.write r) =>
    (r.pendingClose = true → closing = true ∧ payload r.pkts ≠ []) ∧
      (r.pendingClose = false → payload r.pkts = r.pkts)
  | .polling (.closeDone _) | .polling .checkPending | .polling (.await _) | .polling (.watch _) => True
  | .close _ | .closeSocket | .closeTransport | .closeReturned => closing = true
  | _ => False

/-- The transport is told to close by `Close` only, and a `flush` that will send the deferred
close packet has taken everything. -/
def Op.Due (s : Session) : Op → Prop
  | .close _ | .closeTransport => s.readyState = .closing
  | .send .polling _ => s.polling.p.pendingClose = true → s.writeBuffer = []
  | .polling (.write r) => r.pendingClose = true → s.readyState = .closing ∧ s.writeBuffer = []
  | _ => True

/-- The operation is about to close the transport, or to send what does. -/
def Op.issues (s : Session) : Op → Bool
  | .close .polling => !s.polling.p.closed && !s.polling.p.discarded && s.polling.p.writable
  | .close (.websocket k) => !(s.websockets[k]?).elim true Websocket.closed
  | .polling .checkPending => s.polling.p.pendingClose && !s.polling.p.closed
  | _ => false

/-- In `sendPacket` after the packet was appended, or in `flush`; a poll whose `OnReady` has
yet to run has a `flush` before it. -/
def Op.inside : Op → Bool
  | .appended _ | .flush | .sent => true
  | _ => false

namespace Session

variable {direct : Bool} {s s' : Session} {op : Op} {ops : List Op} {new : List (List Op)} {c : Choice}

/-- Nobody has begun to close the transport. -/
structure Calm (closing : Bool) (s : Session) : Prop where
  readyState : s.readyState = .opened ∨ closing = true ∧ s.readyState = .closing
  aligned : s.polling.p.Aligned
  closed : s.polling.p.closed = false
  discarded : s.polling.p.discarded = false
  pendingClose : s.polling.p.pendingClose = true → s.readyState = .closing
  sendBuffer : s.polling.p.sendBuffer = []
  websockets : ∀ w ∈ s.websockets, w.closed = false ∧ w.gone = false
  log : ∀ n pkts, .wrote n (some pkts) ∈ s.polling.log → payload pkts = pkts

theorem Calm.gone {closing : Bool} (h : s.Calm closing) (k : ℕ) : s.gone k = false := by
  rw [Session.gone]
  cases hk : s.websockets[k]? with
  | none => rfl
  | some w => exact (h.websockets w (List.mem_of_getElem? hk)).2

/-- What a step does to the polling transport while nobody has begun to close it. -/
def Spares (s : Session) (op : Op) (s' : Session) : Prop :=
  (s'.polling.p.writable = s.polling.p.writable ∧ s'.polling.p.pendingClose = s.polling.p.pendingClose) ∨
  (op = .close .polling ∧ s'.polling.p.writable = false ∧ s.polling.p.writable = false) ∨
  ∃ buf, op = .send .polling buf ∧ s'.polling.p.pendingClose = s.polling.p.pendingClose

/-- An operation is done, and nobody has begun to close the transport yet. -/
def Served (closing : Bool) (s : Session) (op : Op) (s' : Session) (ops : List Op) : Prop :=
  s'.Calm closing ∧ s.Spares op s' ∧ ∀ op' ∈ ops, op'.Serving closing ∧ op'.Due s'

theorem spares_of_eq (hp : s'.polling.p = s.polling.p) : s.Spares op s' := .inl ⟨by rw [hp], by rw [hp]⟩

theorem forall_flush {closing : Bool} (P : Prop) [Decidable P] :
    ∀ op' ∈ (if P then [Op.flush] else []), op'.Serving closing ∧ op'.Due s' := by
  split_ifs
  · exact List.forall_mem_singleton.mpr ⟨trivial, trivial⟩
  · exact List.forall_mem_nil _

section Served

variable {closing : Bool} (hs : s.Calm closing)

include hs

theorem Calm.same (hr : s'.readyState = s.readyState) (hp : s'.polling.p = s.polling.p)
    (hw : s'.websockets = s.websockets)
    (hlog : ∀ n pkts, .wrote n (some pkts) ∈ s'.polling.log → payload pkts = pkts) : s'.Calm closing := by
  obtain ⟨h₁, h₂, h₃, h₄, h₅, h₆, h₇, -⟩ := hs
  exact ⟨by rw [hr]; exact h₁, by rw [hp]; exact h₂, by rw [hp]; exact h₃, by rw [hp]; exact h₄,
    by rw [hp, hr]; exact h₅, by rw [hp]; exact h₆, by rw [hw]; exact h₇, hlog⟩

theorem Calm.serve (hr : s'.readyState = s.readyState) (hp : s'.polling = s.polling)
    (hw : s'.websockets = s.websockets) (hops : ∀ op' ∈ ops, op'.Serving closing ∧ op'.Due s') :
    Served closing s op s' ops :=
  ⟨hs.same hr (by rw [hp]) hw (by rw [hp]; exact hs.log), spares_of_eq (by rw [hp]), hops⟩

theorem served_flush (hrun : s.run c .flush = some (s', ops, new)) : Served closing s .flush s' ops := by
  simp only [run] at hrun
  split at hrun
  · obtain ⟨rfl, rfl, -⟩ := run_inj hrun
    exact hs.serve rfl rfl rfl (List.forall_mem_nil _)
  · rename_i t _
    split_ifs at hrun <;> obtain ⟨rfl, rfl, -⟩ := run_inj hrun
    · exact hs.serve rfl rfl rfl (List.forall_mem_nil _)
    · refine hs.serve rfl rfl rfl (List.forall_mem_cons.mpr ⟨⟨trivial, ?_⟩,
        List.forall_mem_singleton.mpr ⟨trivial, trivial⟩⟩)
      cases t with
      | polling => exact fun _ => rfl
      | websocket k => trivial

theorem served_send_polling (hdue : (Op.send .polling buf).Due s)
    (hlocal : (Op.send .polling buf).Local direct) (hfit : s.Fit (.send .polling buf))
    (htransmit : ({ s with batches := s.batches ++ [buf] }).transmit .polling buf = some (s', ops)) :
    Served closing s (.send .polling buf) s' ops := by
  obtain ⟨-, n, hres⟩ := hfit
  obtain ⟨st, os, hst, rfl, rfl⟩ := onPolling_eq_some htransmit
  obtain ⟨hst, hos⟩ := Prod.mk.inj (Option.some.inj hst)
  rcases Polling.send_cases s.polling.p buf with ⟨hc, -⟩ | ⟨pkts, hpkts, -, ⟨hnone, -⟩ | ⟨m, -, heq⟩⟩
  · cases hs.closed.symm.trans hc
  · cases hres.symm.trans hnone
  · simp only [heq] at hst hos
    subst hst hos
    refine ⟨{ hs with aligned := ⟨rfl, rfl, rfl⟩ }, .inr (.inr ⟨buf, rfl, rfl⟩), List.forall_mem_singleton.mpr ⟨⟨?_, ?_⟩, ?_⟩⟩
    · intro hpending
      refine ⟨?_, ?_⟩
      · rcases hs.readyState with hopen | hclosing
        · cases hopen.symm.trans (hs.pendingClose hpending)
        · exact hclosing.1
      · change payload pkts ≠ []
        rw [hpkts, payload_closing, hlocal.2.2]
        exact hlocal.2.1
    · intro hpending
      change s.polling.p.pendingClose = false at hpending
      rw [hpkts, hpending]
      exact hlocal.2.2
    · exact fun hpending => ⟨hs.pendingClose hpending, hdue hpending⟩

theorem served_send {t : Tport} (hdue : (Op.send t buf).Due s)
    (hlocal : (Op.send t buf).Local direct) (hfit : s.Fit (.send t buf))
    (hrun : s.run c (.send t buf) = some (s', ops, new)) : Served closing s (.send t buf) s' ops := by
  obtain ⟨⟨s₁, ops₁⟩, htransmit, heq⟩ := Option.map_eq_some_iff.mp hrun
  obtain ⟨rfl, rfl, -⟩ := run_inj (congrArg some heq)
  cases t with
  | polling => exact served_send_polling hs hdue hlocal hfit htransmit
  | websocket k =>
    obtain ⟨rfl, rfl⟩ : _ = s₁ ∧ _ = ops₁ := by simpa [transmit] using htransmit
    refine hs.serve rfl rfl rfl ?_
    split_ifs
    · exact List.forall_mem_nil _
    · exact List.forall_mem_singleton.mpr ⟨trivial, trivial⟩

theorem served_frames {k : ℕ} {pkts : List Packet} (hrun : s.run c (.frames k pkts) = some (s', ops, new)) :
    Served closing s (.frames k pkts) s' ops := by
  cases pkts with
  | nil =>
    obtain ⟨rfl, rfl, -⟩ := run_inj hrun
    exact hs.serve rfl rfl rfl (forall_flush _)
  | cons p pkts =>
    simp only [run, hs.gone k, Bool.false_eq_true, if_false] at hrun
    obtain ⟨rfl, rfl, -⟩ := run_inj hrun
    exact hs.serve rfl rfl rfl (List.forall_mem_singleton.mpr ⟨trivial, trivial⟩)

theorem served_closeSocket (hclosing : closing = true) (hrun : s.run c .closeSocket = some (s', ops, new)) :
    Served closing s .closeSocket s' ops := by
  simp only [run] at hrun
  split_ifs at hrun <;> obtain ⟨rfl, rfl, -⟩ := run_inj hrun
  · exact hs.serve rfl rfl rfl (List.forall_mem_nil _)
  · refine ⟨{ hs with readyState := .inr ⟨hclosing, rfl⟩, pendingClose := fun _ => rfl }, spares_of_eq rfl, ?_⟩
    exact List.forall_mem_cons.mpr ⟨⟨trivial, trivial⟩, List.forall_mem_cons.mpr ⟨⟨hclosing, rfl⟩,
      List.forall_mem_singleton.mpr ⟨hclosing, trivial⟩⟩⟩

theorem served_close {t : Tport} (hdue : (Op.close t).Due s) (hissues : (Op.close t).issues s = false)
    (hrun : s.run c (.close t) = some (s', ops, new)) : Served closing s (.close t) s' ops := by
  cases t with
  | polling =>
    -- nobody has closed or discarded the transport and no poll is pending: the close is put off
    obtain ⟨⟨s₁, ops₁⟩, hclose, heq⟩ := Option.map_eq_some_iff.mp hrun
    obtain ⟨rfl, rfl, -⟩ := run_inj (congrArg some heq)
    obtain ⟨st, os, hst, rfl, rfl⟩ := onPolling_eq_some hclose
    have hnot : s.polling.p.writable = false := by
      simpa [Op.issues, hs.closed, hs.discarded] using hissues
    simp only [Polling.State.run, hs.closed, hs.discarded, hnot, Bool.false_eq_true, if_false,
      Option.some.injEq, Prod.mk.injEq] at hst
    obtain ⟨rfl, rfl⟩ := hst
    exact ⟨{ hs with aligned := ⟨hs.aligned.req, hs.aligned.pollDone, hs.aligned.writable⟩, pendingClose := fun _ => hdue },
      .inr (.inl ⟨rfl, hnot, hnot⟩), List.forall_mem_nil _⟩
  | websocket k =>
    have hclosed : (s.websockets[k]?).elim true Websocket.closed = true := by
      simpa [Op.issues] using hissues
    simp only [run, hclosed, if_true] at hrun
    obtain ⟨rfl, rfl, -⟩ := run_inj hrun
    exact hs.serve rfl rfl rfl (List.forall_mem_nil _)

theorem Calm.log_append {e : Polling.Event} (he : ∀ n pkts, e = .wrote n (some pkts) → payload pkts = pkts) :
    ∀ n pkts, .wrote n (some pkts) ∈ s.polling.log ++ [e] → payload pkts = pkts := by
  intro n pkts hmem
  rcases List.mem_append.mp hmem with hmem | hmem
  · exact hs.log n pkts hmem
  · exact he n pkts (List.mem_singleton.mp hmem).symm

theorem served_pollHandler {o : Polling.Op} (h : s.onPolling o = some (s', ops))
    (hp : ∀ st os, s.polling.run o = some (st, os) → st.p = s.polling.p ∧ o ≠ .notifyClose ∧
      (∀ n pkts, .wrote n (some pkts) ∈ st.log → payload pkts = pkts) ∧
      ∀ o' ∈ os, (Op.polling o').Serving closing ∧ ∀ r, o' ≠ .write r) :
    Served closing s (.polling o) s' ops := by
  obtain ⟨st, os, hst, rfl, rfl⟩ := onPolling_eq_some h
  obtain ⟨hsp, hne, hlog, hos⟩ := hp st os hst
  refine ⟨hs.same rfl hsp rfl hlog, spares_of_eq hsp, ?_⟩
  simp only [hne, false_and, if_false, List.append_nil]
  refine List.forall_mem_map.mpr fun o' ho' => ⟨(hos o' ho').1, ?_⟩
  cases o' with
  | write r => exact absurd rfl ((hos _ ho').2 r)
  | _ => trivial

theorem served_polling {o : Polling.Op} (hop : (Op.polling o).Serving closing) (hissues : (Op.polling o).issues s = false)
    (hwrite : ∀ r, o = .write r → r.pendingClose = false) (hc : c = .next ∨ c = .fail)
    (hrun : s.run c (.polling o) = some (s', ops, new)) : Served closing s (.polling o) s' ops := by
  obtain ⟨hpoll, -⟩ := (run_polling hrun).resolve_left (by rcases hc with rfl | rfl <;> simp)
  refine served_pollHandler hs hpoll fun st os hst => ?_
  cases o with
  | write r =>
    obtain ⟨rfl, rfl⟩ := Prod.mk.inj (Option.some.inj hst)
    refine ⟨rfl, by simp, hs.log_append ?_, ?_⟩
    · rintro n pkts ⟨⟩
      exact hop.2 (hwrite r rfl)
    · rw [Polling.Response.rest, hwrite r rfl]
      simp [Op.Serving]
  | closeDone n =>
    obtain ⟨rfl, rfl⟩ := Prod.mk.inj (Option.some.inj hst)
    exact ⟨rfl, by simp, hs.log_append (by simp), List.forall_mem_nil _⟩
  | checkPending =>
    obtain ⟨rfl, rfl⟩ := Prod.mk.inj (Option.some.inj hst)
    refine ⟨rfl, by simp, hs.log, ?_⟩
    rw [show (s.polling.p.pendingClose && !s.polling.p.closed) = false from hissues]
    exact List.forall_mem_nil _
  | await n =>
    simp only [Polling.State.run] at hst
    split_ifs at hst
    obtain ⟨rfl, rfl⟩ := Prod.mk.inj (Option.some.inj hst)
    exact ⟨rfl, by simp, hs.log_append (by simp), List.forall_mem_nil _⟩
  | watch n =>
    simp only [Polling.State.run] at hst
    split_ifs at hst
    obtain ⟨rfl, rfl⟩ := Prod.mk.inj (Option.some.inj hst)
    exact ⟨rfl, by simp, hs.log, List.forall_mem_nil _⟩
  | _ => exact hop.elim

theorem serving_run (hop : op.Serving closing) (hdue : op.Due s)
    (hlocal : op.Local direct) (hfit : s.Fit op) (hissues : op.issues s = false)
    (hwrite : ∀ r, op = .polling (.write r) → r.pendingClose = false)
    (hc : c = .next ∨ c = .fail) (hrun : s.run c op = some (s', ops, new)) : Served closing s op s' ops := by
  cases op with
  | sendPacket | pingHandler =>
    simp only [run] at hrun
    split_ifs at hrun <;> obtain ⟨rfl, rfl, -⟩ := run_inj hrun
    · exact hs.serve rfl rfl rfl (List.forall_mem_nil _)
    · exact hs.serve rfl rfl rfl (List.forall_mem_singleton.mpr ⟨trivial, trivial⟩)
  | appended | sent =>
    obtain ⟨rfl, rfl, -⟩ := run_inj hrun
    exact hs.serve rfl rfl rfl (forall_flush _)
  | flush => exact served_flush hs hrun
  | send t buf => exact served_send hs hdue hlocal hfit hrun
  | frames k pkts => exact served_frames hs hrun
  | closeSocket => exact served_closeSocket hs hop hrun
  | closeTransport =>
    obtain ⟨rfl, rfl, -⟩ := run_inj hrun
    exact hs.serve rfl rfl rfl (List.forall_mem_map.mpr fun t _ => ⟨hop, hdue⟩)
  | closeReturned =>
    obtain ⟨rfl, rfl, -⟩ := run_inj hrun
    exact hs.serve rfl rfl rfl (List.forall_mem_nil _)
  | close t => exact served_close hs hdue hissues hrun
  | polling o => exact served_polling hs hop hissues (fun r hr => hwrite r (by rw [hr])) hc hrun
  | read k =>
    rcases hc with rfl | rfl
    · cases hrun
    · simp [run, hs.gone k] at hrun
  | _ => exact hop.elim

end Served

theorem closing_run {closing : Bool} (hop : op.Serving closing) (hrun : s.run c op = some (s', ops, new))
    (hs : s.readyState = .closing) : s'.readyState = .closing := by
  rcases (run_frame hrun).readyState with hsame | rfl | rfl | ⟨reason, rfl⟩
  · exact hsame.trans hs
  · exact hop.elim
  · simp only [run, hs] at hrun
    obtain ⟨rfl, -⟩ := run_inj hrun
    exact hs
  · exact hop.elim

theorem Moves.empty (hm : Moves direct s op s' ops) (hs : s.readyState = .closing) (hempty : s.writeBuffer = []) :
    s'.writeBuffer = [] := by
  cases hm with
  | quiet _ _ hsame | pass _ _ _ _ hsame => exact hsame.writeBuffer.trans hempty
  | append p hopen => exact absurd hs hopen.1
  | check | skip | finish => exact hempty
  | take => rfl
  | write _ _ _ _ _ _ _ _ hsame => exact hsame.1.trans hempty

end Session

namespace State

open Session

variable {direct : Bool} {w w' : State} {a : Act} {i : ℕ} {op : Op} {rest : List Op}

/-- Calls of `sendPacket` and `flush`, and polls that do not overlap. -/
def Serves (w : State) : Act → Prop
  | .go _ c => c = .next
  | .event (.message _ _) | .event .flush | .event .pingInterval => True
  | .event .poll => w.shared.polling.p.req = none
  | .event _ => False

/-- What holds in every state of a session that sends, before anyone begins to close the
transport. -/
structure Ready (direct closing : Bool) (w : State) : Prop where
  fixed : Fixed direct w.shared
  calm : w.shared.Calm closing
  ops : Every (fun op => op.Local direct ∧ op.Serving closing ∧ op.Due w.shared) w.tasks
  path : Path direct w.shared w.tasks
  woken : Woken direct w.shared w.tasks
  slot : load Op.held w.tasks ≠ 0 → w.shared.isWritable (first direct) = true

variable {closing : Bool}

theorem Ready.writable (h : Ready false closing w) {as : List Op} (has : as ∈ w.tasks)
    (hsend : .send .polling buf ∈ as) : w.shared.polling.p.writable = true := by
  have hne : buf ≠ [] := (h.ops as has _ hsend).1.2.1
  have hmem : buf ∈ load Op.held w.tasks := by
    refine mem_load.mpr ⟨as, has, _, hsend, ?_⟩
    rw [show Op.held (.send .polling buf) = {buf} from bag_of_ne hne]
    exact Multiset.mem_singleton_self buf
  refine h.slot fun hzero => ?_
  rw [hzero] at hmem
  exact Multiset.notMem_zero buf hmem

section

variable (h : Ready direct closing w)

include h

theorem Ready.fit (hi : w.tasks[i]? = some (op :: rest)) : w.shared.Fit op := by
  have hlocal := (h.ops.head hi).1
  cases op with
  | send t buf =>
    cases t with
    | polling =>
      refine ⟨h.calm.closed, ?_⟩
      obtain rfl : direct = false := by
        cases direct with
        | false => rfl
        | true => cases hlocal.1
      have hwritable := h.writable (List.mem_of_getElem? hi) List.mem_cons_self
      rw [h.calm.aligned.writable] at hwritable
      exact Option.isSome_iff_exists.mp hwritable
    | websocket k => trivial
  | frames k pkts =>
    cases pkts with
    | nil => trivial
    | cons p pkts => exact h.calm.gone k
  | _ => trivial

theorem Ready.due {s' : Session} {ops : List Op} {new : List (List Op)} {c : Choice} (hserving : op.Serving closing)
    (hrun : w.shared.run c op = some (s', ops, new)) (hmoves : Moves direct w.shared op s' ops)
    (hspares : w.shared.Spares op s') {as : List Op} {op' : Op} (has : as ∈ w.tasks) (hop' : op' ∈ as) :
    op'.Due s' := by
  obtain ⟨hlocal', -, hdue⟩ := h.ops as has op' hop'
  have hclosing (hc : w.shared.readyState = .closing) : s'.readyState = .closing :=
    closing_run hserving hrun hc
  cases op' with
  | close | closeTransport => exact hclosing hdue
  | send t buf =>
    cases t with
    | polling =>
      obtain rfl : direct = false := by
        cases direct with
        | false => rfl
        | true => cases hlocal'.1
      intro hpending
      have hold : w.shared.polling.p.pendingClose = true := by
        rcases hspares with ⟨-, hsame⟩ | ⟨-, -, hnot⟩ | ⟨_, -, hsame⟩
        · exact hsame.symm.trans hpending
        · -- a `flush` holds packets, so a poll is pending
          cases hnot.symm.trans (h.writable has hop')
        · exact hsame.symm.trans hpending
      exact hmoves.empty (h.calm.pendingClose hold) (hdue hold)
    | websocket k => trivial
  | polling o =>
    cases o with
    | write r =>
      intro hpending
      obtain ⟨hc, hempty⟩ := hdue hpending
      exact ⟨hclosing hc, hmoves.empty hc hempty⟩
    | _ => trivial
  | _ => trivial

theorem Ready.go {s' : Session} {ops : List Op} {new : List (List Op)} {c : Choice} (hi : w.tasks[i]? = some (op :: rest)) (hissues : op.issues w.shared = false)
    (hwrite : ∀ r, op = .polling (.write r) → r.pendingClose = false) (hc : c = .next ∨ c = .fail)
    (hrun : w.shared.run c op = some (s', ops, new)) :
    Ready direct closing ⟨s', w.tasks.set i (ops ++ rest) ++ new⟩ := by
  obtain ⟨hlocal, hserving, hdue⟩ := h.ops.head hi
  obtain ⟨rfl, hfixed, hlocals, hmoves⟩ := run_keeps h.fixed hlocal (h.fit hi) hc hrun
  obtain ⟨hcalm, hspares, hservings⟩ :=
    serving_run h.calm hserving hdue hlocal (h.fit hi) hissues hwrite hc hrun
  refine ⟨hfixed, hcalm, ?_, h.path.go hi hmoves every_nil, ?_, ?_⟩
  · rw [List.append_nil]
    have hothers : Every (fun op => op.Local direct ∧ op.Serving closing ∧ op.Due s') w.tasks :=
      fun as has op' hop' => ⟨(h.ops as has op' hop').1, (h.ops as has op' hop').2.1,
        h.due hserving hrun hmoves hspares has hop'⟩
    exact hothers.set hi fun op hop => ⟨hlocals op hop, hservings op hop⟩
  · refine h.woken.go ?_ hi hmoves
    rcases h.calm.readyState with hopen | ⟨-, hclosing⟩
    · rw [hopen]
      exact nofun
    · rw [hclosing]
      exact nofun
  · obtain ⟨r, hold, hnew⟩ := exists_load_go Op.held hi ops []
    intro hheld
    rw [hnew, load_nil, add_zero] at hheld
    rcases hmoves.held with ⟨hop, hzero⟩ | hwritable | ⟨buf, rfl, hne, hzero⟩
    · have hw : w.shared.isWritable (first direct) = true := by
        refine h.slot ?_
        rw [hold, hop]
        rw [hzero] at hheld
        exact hheld
      cases direct with
      | false =>
        rcases hspares with ⟨hsame, -⟩ | ⟨-, -, hnot⟩ | ⟨buf, rfl, -⟩
        · exact hsame.trans hw
        · cases hnot.symm.trans hw
        · rw [show Op.held (.send .polling buf) = {buf} from bag_of_ne hlocal.2.1] at hop
          exact absurd hop (Multiset.singleton_ne_zero _)
      | true => rfl
    · exact hwritable
    · -- the `flush` that held the packets was the only one
      rw [hzero, add_zero] at hheld
      have hpassed := h.path.passed
      rw [hold, show Op.held (.send (first direct) buf) = bag (buf ++ []) by rw [List.append_nil]; rfl]
        at hpassed
      exact absurd (hpassed.pass (by simpa using hne)).1 hheld

theorem Ready.event {s' : Session} {new : List (List Op)}
    (hfixed : Fixed direct s') (hcalm : s'.Calm closing)
    (hsame : s'.sending = w.shared.sending ∧ s'.writeBuffer = w.shared.writeBuffer ∧
      s'.accepted = w.shared.accepted ∧ s'.batches = w.shared.batches ∧
      s'.written direct = w.shared.written direct)
    (hstill : s'.readyState = w.shared.readyState ∧
      s'.polling.p.pendingClose = w.shared.polling.p.pendingClose)
    (hnew : Every (fun op => op.Local direct ∧ (op.Serving closing ∧ op.Due s') ∧ op.Neutral) new)
    (hwritable : (s'.isWritable (first direct) = w.shared.isWritable (first direct)) ∨
      (s'.isWritable (first direct) = true ∧ 0 < load Op.wakes new)) :
    Ready direct closing ⟨s', w.tasks ++ new⟩ := by
  obtain ⟨hsending, hbuffer, haccepted, hbatches, hwritten⟩ := hsame
  have hneutral : Every Op.Neutral new := hnew.mono fun _ hop => hop.2.2
  refine ⟨hfixed, hcalm, ?_, h.path.event hsending hbuffer haccepted hbatches hwritten hneutral, ?_, ?_⟩
  · refine every_append.mpr ⟨h.ops.mono fun op hop => ⟨hop.1, hop.2.1, ?_⟩,
      hnew.mono fun _ hop => ⟨hop.1, hop.2.1⟩⟩
    have hdue := hop.2.2
    unfold Op.Due at hdue ⊢
    rw [hstill.1, hstill.2, hbuffer]
    exact hdue
  · intro hw hne
    rw [load_append]
    rcases hwritable with heq | ⟨-, hpos⟩
    · change s'.writeBuffer ≠ [] at hne
      rw [hbuffer] at hne
      refine (h.woken (heq ▸ hw) hne).imp (fun hs => hsending.trans hs) fun hpos => ?_
      omega
    · exact .inr (by omega)
  · intro hheld
    rw [load_append, (load_neutral hneutral).1, add_zero] at hheld
    rcases hwritable with heq | ⟨hw, -⟩
    · exact heq.trans (h.slot hheld)
    · exact hw

theorem Ready.poll_eq (hreq : w.shared.polling.p.req = none) :
    w.shared.poll = ({ w.shared with polling := { w.shared.polling with
        polls := w.shared.polling.polls + 1
        p := { w.shared.polling.p with
          req := some w.shared.polling.polls, res := some w.shared.polling.polls, writable := true
          pollDone := some w.shared.polling.polls } } },
      [[.polling (.watch w.shared.polling.polls)],
        [.flush, .polling .checkPending, .polling (.await w.shared.polling.polls)]]) := by
  simp [Session.poll, hreq, Polling.onPollRequest, h.calm.sendBuffer]

theorem Ready.poll (hreq : w.shared.polling.p.req = none) (hp : w.shared.pollingTport = true) :
    Ready direct closing ⟨w.shared.poll.1, w.tasks ++ w.shared.poll.2⟩ := by
  obtain rfl : direct = false := by simpa [h.fixed.pollingTport] using hp
  rw [h.poll_eq hreq]
  obtain ⟨hs, hc⟩ := And.intro h.fixed h.calm
  refine h.event { hs with }
    { hc with aligned := ⟨rfl, rfl, rfl⟩ } ⟨rfl, rfl, rfl, rfl, rfl⟩ ⟨rfl, rfl⟩ ?_ (.inr ⟨rfl, Nat.zero_lt_one⟩)
  simp [Op.Local, LocalPolling, Op.Serving, Op.Due, Op.neutral_iff, Op.held, Op.carried, Op.sendings]

theorem Ready.call {new : List (List Op)}
    (hnew : Every (fun op => op.Local direct ∧ (op.Serving closing ∧ op.Due w.shared) ∧ op.Neutral) new) :
    Ready direct closing ⟨w.shared, w.tasks ++ new⟩ :=
  h.event h.fixed h.calm ⟨rfl, rfl, rfl, rfl, rfl⟩ ⟨rfl, rfl⟩ hnew (.inl rfl)

theorem Ready.sends {e : Event} (hserves : Serves w (.event e))
    (hstep : w.step (.event e) = some w') : Ready direct closing w' := by
  cases step_does hstep with
  | @event e s new he =>
    cases e with
    | message data binary =>
      obtain ⟨rfl, rfl⟩ := Prod.mk.inj (Option.some.inj he)
      refine h.call ?_
      simp [Op.Local, payload, Op.Serving, Op.Due, Op.neutral_iff, Op.held, Op.carried, Op.sendings]
    | flush | pingInterval =>
      obtain ⟨rfl, rfl⟩ := Prod.mk.inj (Option.some.inj he)
      refine h.call ?_
      simp [Op.Local, Op.Serving, Op.Due, Op.neutral_iff, Op.held, Op.carried, Op.sendings]
    | poll =>
      simp only [occurs] at he
      split_ifs at he with hp
      have hpoll := h.poll hserves hp
      rw [Option.some.inj he] at hpoll
      exact hpoll
    | _ =>
      exact hserves.elim

end

theorem Ready.step (h : Ready direct false w) (hserves : Serves w a) (hstep : w.step a = some w') :
    Ready direct false w' := by
  cases a with
  | event e => exact h.sends hserves hstep
  | go i c =>
    obtain rfl : c = .next := hserves
    cases step_does hstep with
    | @go i c op rest ops s new hi hrun =>
      obtain ⟨-, hserving, -⟩ := h.ops.head hi
      refine h.go hi ?_ ?_ (.inl rfl) hrun
      · have hpending : w.shared.polling.p.pendingClose = false := by
          by_contra hne
          have hclosing := h.calm.pendingClose (Bool.eq_true_of_not_eq_false hne)
          rcases h.calm.readyState with hopen | ⟨hfalse, -⟩
          · cases hopen.symm.trans hclosing
          · cases hfalse
        cases op with
        | close t => cases hserving
        | polling o =>
          cases o with
          | checkPending => simp [Op.issues, hpending]
          | _ => rfl
        | _ => rfl
      · rintro r rfl
        by_contra hpending
        cases (hserving.1 (Bool.eq_true_of_not_eq_false hpending)).1

theorem Ready.init (direct closing : Bool) : Ready direct closing (opened direct) := by
  cases direct with
  | false =>
    refine ⟨⟨rfl, rfl, rfl, nofun, rfl, rfl⟩, ⟨.inl rfl, ⟨rfl, rfl, rfl⟩, rfl, rfl, nofun, rfl, nofun, nofun⟩,
      every_nil, ⟨rfl, nofun, ⟨[], rfl, rfl⟩, ⟨[], rfl, rfl⟩⟩, nofun, fun h => absurd rfl h⟩
  | true =>
    refine ⟨⟨rfl, rfl, rfl, ?_, rfl, rfl⟩, ⟨.inl rfl, ⟨rfl, rfl, rfl⟩, rfl, rfl, nofun, rfl, ?_, nofun⟩, ?_,
      ⟨rfl, ?_, ⟨[], rfl, rfl⟩, ⟨[], rfl, rfl⟩⟩, fun _ hne => absurd rfl hne, fun _ => rfl⟩
    · intro k
      cases k <;> simp [opened, handler]
    · exact List.forall_mem_singleton.mpr ⟨rfl, rfl⟩
    · exact every_cons.mpr ⟨List.forall_mem_singleton.mpr ⟨trivial, trivial, trivial⟩, every_nil⟩
    · exact List.forall_mem_singleton.mpr ⟨fun h => absurd rfl h, trivial⟩

/-- The write path of an open session. What was passed to `Send` is the first part of what was
appended, in that order; a `flush` is alone between the section in which it takes packets and
the one in which it looks again; and when nobody is in `sendPacket` or `flush`, nothing waits
that could be sent. -/
theorem write_path_no_lost_wakeup {acts : List Act} (h : Run step Serves (opened direct) acts w) :
    w.shared.batches.flatten <+: w.shared.accepted ∧
    load Op.sendings w.tasks ≤ 1 ∧
    (Every (fun op => op.inside = false) w.tasks →
      w.shared.writeBuffer = [] ∨ w.shared.isWritable (first direct) = false) := by
  have hr : Ready direct false w :=
    h.invariant (Ready direct false) (.init direct false) fun _ _ _ hr hserves hstep => hr.step hserves hstep
  refine ⟨?_, ?_, ?_⟩
  · obtain ⟨xs, -, heq⟩ := hr.path.passed
    exact ⟨xs ++ w.shared.writeBuffer, by rw [← List.append_assoc]; exact heq⟩
  · rw [hr.path.single]
    split_ifs <;> omega
  · intro hquiet
    have hwakes : load Op.wakes w.tasks = 0 := by
      refine load_eq_zero (hquiet.mono fun op hop => ?_)
      cases op <;> first | rfl | cases hop
    have hsending : w.shared.sending = false := by
      have hnone : load Op.sendings w.tasks = 0 := by
        refine load_eq_zero (hquiet.mono fun op hop => ?_)
        cases op <;> first | rfl | cases hop
      rw [hr.path.single] at hnone
      split_ifs at hnone with hs
      exact Bool.eq_false_iff.mpr hs
    by_contra hneither
    rw [not_or, Bool.not_eq_false] at hneither
    rcases hr.woken hneither.2 hneither.1 with hs | hpos
    · rw [hsending] at hs
      cases hs
    · omega

section NonVacuity

instance (w : State) (a : Act) : Decidable (Serves w a) := by
  unfold Serves
  split <;> infer_instance

/-- A message is appended before a poll arrives, another one while the first is being sent. -/
def relay : List Act :=
  [.event (.message [1] false), .go 0 .next, .go 0 .next, .event .poll, .go 2 .next,
    .event (.message [2] false), .go 3 .next, .go 3 .next, .go 2 .next, .go 3 .next, .go 2 .next,
    .go 2 .next, .go 2 .next, .go 2 .next, .go 2 .next, .go 1 .next]

theorem relay_runs : (exec step Serves (opened false) relay).isSome = true := by decide +kernel

def relayed : State := (exec step Serves (opened false) relay).get relay_runs

theorem write_path_no_lost_wakeup_relay :
    relayed.shared.batches = [[{ type := .message, data := [1] }]] ∧
    relayed.shared.writeBuffer = [{ type := .message, data := [2] }] ∧
    (relayed.shared.writeBuffer = [] ∨ relayed.shared.isWritable (first false) = false) := by
  refine ⟨by decide +kernel, by decide +kernel, ?_⟩
  refine (write_path_no_lost_wakeup (run_of_isSome relay_runs)).2.2 ?_
  change ∀ as ∈ relayed.tasks, ∀ op ∈ as, op.inside = false
  decide +kernel

end NonVacuity

end State

end Gosocketio.Engine

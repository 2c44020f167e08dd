import Gosocketio.Sanity.Polling
import Gosocketio.Spec.Session

/-! What a step of a session does: one goroutine does the next thing it has before it, or
an event starts goroutines. -/

namespace Gosocketio.Engine

open Transport Stacks
open EngineSocket (Tport)

namespace State

variable {w w' : State} {a : Act}

inductive Does (w : State) : Act → State → Prop
  | go {i : ℕ} {c : Choice} {op : Op} {rest ops : List Op} {s : Session} {new : List (List Op)}
      (hi : w.tasks[i]? = some (op :: rest)) (hrun : w.shared.run c op = some (s, ops, new)) :
      Does w (.go i c) ⟨s, w.tasks.set i (ops ++ rest) ++ new⟩
  | event {e : Event} {s : Session} {new : List (List Op)} (he : w.shared.occurs e = some (s, new)) :
      Does w (.event e) ⟨s, w.tasks ++ new⟩

theorem step_does (h : w.step a = some w') : Does w a w' := by
  cases a with
  | go i c =>
    change Stacks.go (fun s => s.run c) w i = some w' at h
    obtain ⟨op, rest, s, ops, new, hi, hrun, rfl⟩ := go_eq_some h
    exact .go hi hrun
  | event e =>
    obtain ⟨⟨s, new⟩, he, rfl⟩ := Option.map_eq_some_iff.mp h
    exact .event he

end State

namespace Session

variable {s s' : Session} {ops : List Op} {e : Event} {o : Polling.Op} {k : ℕ}

theorem onPolling_eq_some {op : Polling.Op} (h : s.onPolling op = some (s', ops)) :
    ∃ polling ops', s.polling.run op = some (polling, ops') ∧ s' = { s with polling } ∧
      ops = ops'.map .polling ++
        if op = .notifyClose ∧ s.polling.p.closed = false then [.onCloseFrom .polling] else [] := by
  obtain ⟨⟨polling, ops'⟩, hrun, heq⟩ := Option.map_eq_some_iff.mp h
  obtain ⟨rfl, rfl⟩ := Prod.mk.inj heq
  exact ⟨polling, ops', hrun, rfl, rfl⟩

theorem run_polling {c : Choice} {new : List (List Op)} (h : s.run c (.polling o) = some (s', ops, new)) :
    (∃ n, o = .watch n ∧ c = .cancel) ∨ s.onPolling o = some (s', ops) ∧ new = [] := by
  by_cases hcancel : ∃ n, o = .watch n ∧ c = .cancel
  · exact .inl hcancel
  · obtain ⟨x, ho, heq⟩ : ∃ x, s.onPolling o = some x ∧ (x.1, x.2, []) = (s', ops, new) := by
      cases o <;> try exact Option.map_eq_some_iff.mp h
      cases c <;> first | exact Option.map_eq_some_iff.mp h | exact absurd ⟨_, rfl, rfl⟩ hcancel
    cases heq
    exact .inr ⟨ho, rfl⟩

theorem getElem?_modifyWebsocket (s : Session) (k j : ℕ) (f : Websocket → Websocket) :
    (s.modifyWebsocket k f).websockets[j]? =
      (s.websockets[j]?).map fun w => if k = j then f w else w := by
  rw [modifyWebsocket, List.getElem?_modify]
  by_cases h : k = j <;> simp [h]

theorem handler_modifyWebsocket {f : Websocket → Websocket}
    (hf : ∀ w, (f w).handler = w.handler) (j : ℕ) : (s.modifyWebsocket k f).handler j = s.handler j := by
  rw [handler, handler, getElem?_modifyWebsocket]
  cases s.websockets[j]? with
  | none => rfl
  | some w =>
    split_ifs
    · exact hf w
    · rfl

theorem handler_setHandler (hk : k < s.websockets.length) (g : Handler) :
    (s.modifyWebsocket k fun w => { w with handler := some g }).handler k = some g := by
  rw [handler, getElem?_modifyWebsocket, List.getElem?_eq_getElem hk]
  simp

theorem lt_of_handler (hk : s.handler k ≠ none) : k < s.websockets.length := by
  by_contra hlt
  rw [handler, List.getElem?_eq_none (not_lt.mp hlt)] at hk
  exact hk rfl

/-- Which operations change what: the state of the session, its transport, and what is
recorded of them. -/
structure Frame (s : Session) (op : Op) (s' : Session) : Prop where
  readyState : s'.readyState = s.readyState ∨ op = .setOpen ∨ op = .closeSocket ∨ ∃ r, op = .closeWithReason r
  owed : s'.owed = s.owed ∨ op = .closeSocket
  registered : s'.registered = s.registered ∨ op = .register ∨ op = .unregister
  hooks : s'.hooks = s.hooks ∨ op = .onConnect ∨ ∃ r, op = .onClose r
  transport : s'.transport = s.transport ∨ (∃ t, op = .attach t) ∨ ∃ k, op = .switch k
  upgrading : s'.upgrading = s.upgrading ∨ op = .abort ∨ (∃ k, op = .switch k) ∨ ∃ k, op = .maybeUpgrade k
  asked : s'.asked = s.asked ∨ ∃ t, op = .close t
  ended : s'.ended = s.ended ∨ ∃ t, op = .delivered t
  returned : s'.returned = s.returned ∨ op = .closeReturned
  websockets : s'.websockets = s.websockets ∨ (∃ k, op = .close (.websocket k)) ∨ (∃ k, op = .connClose k) ∨
    (∃ k h, op = .setHandler k h) ∨ (∃ k, op = .maybeUpgrade k) ∨ ∃ k, op = .stopUpgrade k

section Frame

variable {c : Choice} {op : Op} {new : List (List Op)}

theorem Frame.refl (s : Session) (op : Op) : Frame s op s :=
  ⟨.inl rfl, .inl rfl, .inl rfl, .inl rfl, .inl rfl, .inl rfl, .inl rfl, .inl rfl, .inl rfl, .inl rfl⟩

theorem onPolling_frame (h : s.onPolling o = some (s', ops)) (op : Op) : Frame s op s' := by
  obtain ⟨polling, os, -, rfl, -⟩ := onPolling_eq_some h
  exact ⟨.inl rfl, .inl rfl, .inl rfl, .inl rfl, .inl rfl, .inl rfl, .inl rfl, .inl rfl, .inl rfl, .inl rfl⟩

theorem transmit_frame {t : Tport} {pkts : List Packet} (h : s.transmit t pkts = some (s', ops)) (op : Op) :
    Frame s op s' := by
  cases t with
  | polling => exact onPolling_frame h op
  | websocket k =>
    obtain ⟨rfl, -⟩ := Prod.mk.inj (Option.some.inj h)
    exact .refl s op

section

variable (h : s.run c op = some (s', ops, new))

include h

/-- An operation that only reads the state of the session and its transport. -/
theorem run_frame : Frame s op s' := by
  cases op with
  | sendPacket | closeSocket | closeWithReason | pingHandler | maybeUpgrade | switch | waitSent =>
    simp only [run] at h
    split_ifs at h <;> obtain ⟨rfl, -⟩ := run_inj h <;>
      constructor <;> first | exact .inl rfl | simp
  | flush =>
    simp only [run] at h
    split at h
    · obtain ⟨rfl, -⟩ := run_inj h
      exact .refl s _
    · split_ifs at h <;> obtain ⟨rfl, -⟩ := run_inj h <;> constructor <;> exact .inl rfl
  | send t buf =>
    obtain ⟨⟨s₁, ops₁⟩, ht, heq⟩ := Option.map_eq_some_iff.mp h
    obtain ⟨rfl, -⟩ := Prod.mk.inj heq
    obtain ⟨h₁, h₂, h₃, h₄, h₅, h₆, h₇, h₈, h₉, h₁₀⟩ := transmit_frame ht (.send t buf)
    exact ⟨h₁, h₂, h₃, h₄, h₅, h₆, h₇, h₈, h₉, h₁₀⟩
  | transmit t pkts =>
    obtain ⟨⟨s₁, ops₁⟩, ht, heq⟩ := Option.map_eq_some_iff.mp h
    obtain ⟨rfl, -⟩ := Prod.mk.inj heq
    exact transmit_frame ht _
  | frames k pkts =>
    cases pkts with
    | nil =>
      obtain ⟨rfl, -⟩ := run_inj h
      exact .refl s _
    | cons p pkts =>
      simp only [run] at h
      split_ifs at h <;> obtain ⟨rfl, -⟩ := run_inj h <;> constructor <;> exact .inl rfl
  | polling o =>
    rcases run_polling h with ⟨n, rfl, rfl⟩ | ⟨ho, -⟩
    · simp only [run] at h
      split at h <;> obtain ⟨rfl, -⟩ := run_inj h <;> constructor <;> exact .inl rfl
    · exact onPolling_frame ho _
  | close t =>
    cases t with
    | polling =>
      obtain ⟨⟨s₁, ops₁⟩, ho, heq⟩ := Option.map_eq_some_iff.mp h
      obtain ⟨rfl, -⟩ := Prod.mk.inj heq
      obtain ⟨h₁, h₂, h₃, h₄, h₅, h₆, -, h₈, h₉, h₁₀⟩ := onPolling_frame ho (.close .polling)
      exact ⟨h₁, h₂, h₃, h₄, h₅, h₆, .inr ⟨_, rfl⟩, h₈, h₉, h₁₀⟩
    | websocket k =>
      simp only [run] at h
      split_ifs at h <;> obtain ⟨rfl, -⟩ := run_inj h <;>
        constructor <;> first | exact .inl rfl | simp
  | discard t =>
    cases t <;> obtain ⟨rfl, -⟩ := run_inj h <;> constructor <;> exact .inl rfl
  | read k =>
    cases c <;> simp only [run] at h <;> first
      | (split_ifs at h; obtain ⟨rfl, -⟩ := run_inj h; exact .refl s _)
      | cases h
  | ticker k =>
    simp only [run] at h
    split at h
    · obtain ⟨rfl, -⟩ := run_inj h
      exact .refl s _
    · split_ifs at h
      obtain ⟨rfl, -⟩ := run_inj h
      exact .refl s _
  | notify k n =>
    simp only [run] at h
    split at h <;> obtain ⟨rfl, -⟩ := run_inj h <;> exact .refl s _
  | onPacket p =>
    simp only [run] at h
    split_ifs at h
    · obtain ⟨rfl, -⟩ := run_inj h
      exact .refl s _
    · split at h <;> obtain ⟨rfl, -⟩ := run_inj h <;> exact .refl s _
  | _ =>
    obtain ⟨rfl, -⟩ := run_inj h
    constructor <;> first | exact .inl rfl | simp

/-- Only `open` opens a closed session. -/
theorem run_closed (hop : op ≠ .setOpen)
    (hclosed : s.readyState = .closed) : s'.readyState = .closed := by
  rcases (run_frame h).readyState with heq | heq | rfl | ⟨r, rfl⟩
  · exact heq.trans hclosed
  · exact absurd heq hop
  · have hnot : s.readyState ≠ .opened := by
      rw [hclosed]
      exact nofun
    simp only [run, if_pos hnot] at h
    obtain ⟨rfl, -⟩ := run_inj h
    exact hclosed
  · simp only [run, if_pos hclosed] at h
    obtain ⟨rfl, -⟩ := run_inj h
    exact hclosed

/-- A websocket is changed in place, and only `SetHandler` changes who gets its events. -/
theorem run_websockets : s'.websockets = s.websockets ∨
    ∃ j f, s'.websockets = (s.modifyWebsocket j f).websockets ∧
      ((∀ w, (f w).handler = w.handler) ∨ ∃ g, op = .setHandler j g) := by
  rcases (run_frame h).websockets with heq | ⟨j, rfl⟩ | ⟨j, rfl⟩ | ⟨j, g, rfl⟩ | ⟨j, rfl⟩ | ⟨j, rfl⟩
  · exact .inl heq
  · simp only [run] at h
    split_ifs at h <;> obtain ⟨rfl, -⟩ := run_inj h
    · exact .inl rfl
    · exact .inr ⟨j, _, rfl, .inl fun _ => rfl⟩
  · obtain ⟨rfl, -⟩ := run_inj h
    exact .inr ⟨j, _, rfl, .inl fun _ => rfl⟩
  · obtain ⟨rfl, -⟩ := run_inj h
    exact .inr ⟨j, _, rfl, .inr ⟨g, rfl⟩⟩
  · simp only [run] at h
    split_ifs at h <;> obtain ⟨rfl, -⟩ := run_inj h
    · exact .inl rfl
    · exact .inr ⟨j, _, rfl, .inl fun _ => rfl⟩
  · obtain ⟨rfl, -⟩ := run_inj h
    exact .inr ⟨j, _, rfl, .inl fun _ => rfl⟩

theorem run_handler (k : ℕ) (hop : ∀ g, op ≠ .setHandler k g) : s'.handler k = s.handler k := by
  rcases run_websockets h with heq | ⟨j, f, heq, hf | ⟨g, rfl⟩⟩
  · rw [handler, heq, handler]
  · rw [handler, heq]
    exact handler_modifyWebsocket hf k
  · have hjk : j ≠ k := by
      rintro rfl
      exact hop g rfl
    rw [handler, heq, getElem?_modifyWebsocket, handler]
    simp [hjk]

theorem run_length : s'.websockets.length = s.websockets.length := by
  rcases run_websockets h with heq | ⟨j, f, heq, -⟩
  · rw [heq]
  · rw [heq]
    exact List.length_modify ..

end

/-- What happens outside changes the transports only. -/
structure Outside (s s' : Session) : Prop where
  readyState : s'.readyState = s.readyState
  owed : s'.owed = s.owed
  accepted : s'.accepted = s.accepted
  registered : s'.registered = s.registered
  hooks : s'.hooks = s.hooks
  transport : s'.transport = s.transport
  upgrading : s'.upgrading = s.upgrading
  asked : s'.asked = s.asked
  ended : s'.ended = s.ended
  returned : s'.returned = s.returned

section

variable (h : s.occurs e = some (s', new))

include h

theorem occurs_outside : Outside s s' := by
  cases e with
  | post | postError | closeTimer | upgradeTimeout =>
    simp only [occurs] at h
    split_ifs at h
    obtain ⟨rfl, -⟩ := Prod.mk.inj (Option.some.inj h)
    exact ⟨rfl, rfl, rfl, rfl, rfl, rfl, rfl, rfl, rfl, rfl⟩
  | poll =>
    simp only [occurs] at h
    split_ifs at h
    have hpoll : Outside s s.poll.1 := by
      unfold poll
      dsimp only
      split_ifs <;> exact ⟨rfl, rfl, rfl, rfl, rfl, rfl, rfl, rfl, rfl, rfl⟩
    rw [Option.some.inj h] at hpoll
    exact hpoll
  | _ =>
    obtain ⟨rfl, -⟩ := Prod.mk.inj (Option.some.inj h)
    exact ⟨rfl, rfl, rfl, rfl, rfl, rfl, rfl, rfl, rfl, rfl⟩

theorem occurs_websockets (he : e ≠ .upgrade) : s'.websockets = s.websockets ∨
    ∃ j f, s' = s.modifyWebsocket j f ∧ ∀ w, (f w).handler = w.handler := by
  cases e with
  | upgrade => exact absurd rfl he
  | post | postError | closeTimer =>
    simp only [occurs] at h
    split_ifs at h
    obtain ⟨rfl, -⟩ := Prod.mk.inj (Option.some.inj h)
    exact .inl rfl
  | poll =>
    simp only [occurs] at h
    split_ifs at h
    have hpoll : s.poll.1.websockets = s.websockets := by
      unfold poll
      dsimp only
      split_ifs <;> rfl
    rw [Option.some.inj h] at hpoll
    exact .inl hpoll
  | upgradeTimeout j =>
    simp only [occurs] at h
    split_ifs at h
    obtain ⟨rfl, -⟩ := Prod.mk.inj (Option.some.inj h)
    exact .inr ⟨j, _, rfl, fun _ => rfl⟩
  | lose j =>
    obtain ⟨rfl, -⟩ := Prod.mk.inj (Option.some.inj h)
    exact .inr ⟨j, _, rfl, fun _ => rfl⟩
  | _ =>
    obtain ⟨rfl, -⟩ := Prod.mk.inj (Option.some.inj h)
    exact .inl rfl

theorem occurs_handler (k : ℕ) : s'.handler k = s.handler k := by
  by_cases he : e = .upgrade
  · subst he
    obtain ⟨rfl, -⟩ := Prod.mk.inj (Option.some.inj h)
    rw [handler, handler, List.getElem?_append]
    split_ifs with hk
    · rfl
    · -- the new websocket has no handler yet
      rw [List.getElem?_eq_none (not_lt.mp hk), List.getElem?_singleton]
      split_ifs <;> rfl
  · rcases occurs_websockets h he with heq | ⟨j, f, rfl, hf⟩
    · rw [handler, heq, handler]
    · exact handler_modifyWebsocket hf k

theorem occurs_length (he : e ≠ .upgrade) : s'.websockets.length = s.websockets.length := by
  rcases occurs_websockets h he with heq | ⟨j, f, rfl, -⟩
  · rw [heq]
  · exact List.length_modify ..

end

end Frame

section Cause

variable {c : Choice} {op : Op} {new : List (List Op)}

/-- What a goroutine that the session starts has before it. -/
def Loop : Op → Prop
  | .read _ | .ticker _ => True
  | _ => False

/-- What `op` is and finds, when it leaves `op'` to be done. -/
def Cause (s : Session) (op : Op) : Op → Prop
  | .register | .attach _ | .setOpen | .onConnect | .closeSocket | .maybeUpgrade _ | .pingHandler
  | .pingTimeoutHandler | .polling .checkPending => False
  | .sendPacket p => op = .pingHandler ∧ p = { type := .ping }
  | .closeTransport | .closeReturned => op = .closeSocket ∧ s.readyState = .opened
  | .close _ => op = .closeTransport ∨ (∃ reason, op = .closeWithReason reason) ∨
    (∃ k, op = .maybeUpgrade k) ∨ (∃ k, op = .switch k) ∨ ∃ k n, op = .notify k n
  | .unregister | .onClose _ => ∃ reason, op = .closeWithReason reason ∧ s.readyState ≠ .closed
  | .delivered t => op = .onCloseFrom t
  | .onCloseFrom (.websocket k) => op = .notify k .close ∧ s.handler k = some .transportBinding
  | .setHandler k .upgradeHandler => op = .maybeUpgrade k
  | .setHandler k .transportBinding => op = .attach (.websocket k) ∨ op = .switch k
  | .read k => op = .read k ∨ s.handler k = none ∧ ∃ h, op = .setHandler k h
  | .notify k (.packet _) | .notify k .close => op = .read k
  | .switch k => s.handler k = some .upgradeHandler ∧ ∃ p, op = .notify k (.packet p)
  | .abort => ∃ k n, s.handler k = some .upgradeHandler ∧ op = .notify k n
  | .closeWithReason .pingTimeout => op = .pingTimeoutHandler
  | .closeWithReason _ => (∃ p, op = .onPacket p) ∨ (∃ t, op = .onErrorFrom t) ∨ ∃ t, op = .onCloseFrom t
  | _ => True

theorem checkPending_notMem {s s' : Polling.State} {os : List Polling.Op}
    (h : s.run o = some (s', os)) : Polling.Op.checkPending ∉ os := by
  intro hmem
  cases o with
  | send | resend =>
    obtain ⟨-, rfl⟩ := Prod.mk.inj (Option.some.inj h)
    split at hmem <;> simp at hmem
  | close | await | watch =>
    simp only [Polling.State.run] at h
    split_ifs at h <;> obtain ⟨-, rfl⟩ := Prod.mk.inj (Option.some.inj h) <;> simp at hmem
  | _ =>
    obtain ⟨-, rfl⟩ := Prod.mk.inj (Option.some.inj h)
    simp [Polling.Response.rest] at hmem

theorem onPolling_cause (h : s.onPolling o = some (s', ops)) (op : Op) :
    ∀ op' ∈ ops, s.Cause op op' := by
  obtain ⟨st, os, hst, -, rfl⟩ := onPolling_eq_some h
  refine List.forall_mem_append.mpr ⟨List.forall_mem_map.mpr fun o' ho' => ?_, ?_⟩
  · cases o' with
    | checkPending => exact checkPending_notMem hst ho'
    | _ => trivial
  · split_ifs
    · exact List.forall_mem_singleton.mpr trivial
    · exact nofun

theorem transmit_cause {t : Tport} {pkts : List Packet} (h : s.transmit t pkts = some (s', ops)) (op : Op) :
    ∀ op' ∈ ops, s.Cause op op' := by
  cases t with
  | polling => exact onPolling_cause h op
  | websocket k =>
    obtain ⟨-, rfl⟩ := Prod.mk.inj (Option.some.inj h)
    split_ifs
    · exact nofun
    · exact List.forall_mem_singleton.mpr trivial

theorem forall_mem_ite {Q : Op → Prop} {P : Prop} [Decidable P] {a : Op} (ha : Q a) :
    ∀ op' ∈ (if P then [a] else []), Q op' := by
  split_ifs
  · exact List.forall_mem_singleton.mpr ha
  · exact List.forall_mem_nil _

theorem forall_mem_pair {Q : Op → Prop} {a b : Op} (ha : Q a) (hb : Q b) : ∀ op' ∈ [a, b], Q op' :=
  List.forall_mem_cons.mpr ⟨ha, List.forall_mem_singleton.mpr hb⟩

theorem run_cause (h : s.run c op = some (s', ops, new)) :
    (∀ op' ∈ ops, s.Cause op op') ∧ Every (fun op' => s.Cause op op' ∧ Loop op') new := by
  have hlast {s₁ : Session} {ops₁ : List Op} (h : some (s₁, ops₁, []) = some (s', ops, new))
      (hops : ∀ op' ∈ ops₁, s.Cause op op') :
      (∀ op' ∈ ops, s.Cause op op') ∧ Every (fun op' => s.Cause op op' ∧ Loop op') new := by
    obtain ⟨-, rfl, rfl⟩ := run_inj h
    exact ⟨hops, every_nil⟩
  have hnone {s₁ : Session} (h : some (s₁, [], []) = some (s', ops, new)) := hlast h (List.forall_mem_nil _)
  have hone {s₁ : Session} {op₁ : Op} (h : some (s₁, [op₁], []) = some (s', ops, new))
      (hop : s.Cause op op₁) := hlast h (List.forall_mem_singleton.mpr hop)
  cases op with
  | appended | sent | pollingWritable => exact hlast h (forall_mem_ite trivial)
  | onErrorFrom t => exact hlast h (forall_mem_ite (.inr (.inl ⟨t, rfl⟩)))
  | pingTimeoutHandler =>
    refine hlast h ?_
    split_ifs
    · exact List.forall_mem_nil _
    · exact List.forall_mem_singleton.mpr rfl
  | drain =>
    refine hlast h ?_
    split_ifs
    · exact List.forall_mem_nil _
    · exact List.forall_mem_singleton.mpr trivial
  | onCloseFrom t =>
    refine hlast h (List.forall_mem_append.mpr ⟨?_, List.forall_mem_singleton.mpr rfl⟩)
    exact forall_mem_ite (.inr (.inr ⟨t, rfl⟩))
  | closeTransport =>
    refine hlast h ?_
    exact List.forall_mem_map.mpr fun _ _ => .inl rfl
  | pollingNoop =>
    refine hlast h ?_
    exact List.forall_mem_map.mpr fun _ _ => trivial
  | attach t =>
    refine hlast h ?_
    cases t with
    | polling => exact List.forall_mem_nil _
    | websocket k => exact List.forall_mem_singleton.mpr (.inl rfl)
  | discard t =>
    cases t <;> exact hnone h
  | sendPacket p =>
    simp only [run] at h
    split_ifs at h
    · exact hnone h
    · exact hone h trivial
  | pingHandler =>
    simp only [run] at h
    split_ifs at h
    · exact hnone h
    · exact hone h ⟨rfl, rfl⟩
  | maybeUpgrade k =>
    simp only [run] at h
    split_ifs at h
    · exact hone h (.inr (.inr (.inl ⟨k, rfl⟩)))
    · exact hone h rfl
  | waitSent =>
    simp only [run] at h
    split_ifs at h
    exact hnone h
  | closeSocket =>
    simp only [run] at h
    split_ifs at h with hopen
    · exact hnone h
    · have hcause : Op.closeSocket = .closeSocket ∧ s.readyState = .opened := ⟨rfl, not_not.mp hopen⟩
      exact hlast h (List.forall_mem_cons.mpr ⟨trivial, forall_mem_pair hcause hcause⟩)
  | closeWithReason reason =>
    simp only [run] at h
    split_ifs at h with hclosed
    · exact hnone h
    · refine hlast h (List.forall_mem_append.mpr ⟨?_, ?_⟩)
      · exact List.forall_mem_flatMap.mpr fun t _ => forall_mem_pair trivial (.inr (.inl ⟨reason, rfl⟩))
      · exact forall_mem_pair ⟨reason, rfl, hclosed⟩ ⟨reason, rfl, hclosed⟩
  | switch k =>
    simp only [run] at h
    split_ifs at h <;> refine hlast h ?_
    · exact List.forall_mem_singleton.mpr (.inr (.inr (.inr (.inl ⟨k, rfl⟩))))
    · unfold afterSwitch
      split <;> simp [Cause]
  | startTicker k =>
    obtain ⟨-, rfl, rfl⟩ := run_inj h
    simp [Cause, Loop]
  | setHandler k h' =>
    obtain ⟨-, rfl, rfl⟩ := run_inj h
    split_ifs with hnone <;> simp [Cause, Loop, hnone]
  | flush =>
    simp only [run] at h
    split at h
    · exact hnone h
    · split_ifs at h
      · exact hnone h
      · exact hlast h (forall_mem_pair trivial trivial)
  | send t pkts | transmit t pkts =>
    obtain ⟨⟨s₁, ops₁⟩, ht, heq⟩ := Option.map_eq_some_iff.mp h
    exact hlast (congrArg some heq) (transmit_cause ht _)
  | frames k pkts =>
    cases pkts with
    | nil => exact hlast h (forall_mem_ite trivial)
    | cons p pkts =>
      simp only [run] at h
      split_ifs at h <;> exact hone h trivial
  | polling o =>
    rcases run_polling h with ⟨n, rfl, rfl⟩ | ⟨ho, rfl⟩
    · simp only [run] at h
      split at h
      · exact hlast h (forall_mem_pair trivial trivial)
      · exact hnone h
    · exact ⟨onPolling_cause ho _, every_nil⟩
  | close t =>
    cases t with
    | polling =>
      obtain ⟨⟨s₁, ops₁⟩, ho, heq⟩ := Option.map_eq_some_iff.mp h
      exact hlast (congrArg some heq) (onPolling_cause ho _)
    | websocket k =>
      simp only [run] at h
      split_ifs at h
      · exact hnone h
      · exact hone h trivial
  | read k =>
    cases c with
    | receive p =>
      simp only [run] at h
      split_ifs at h
      exact hlast h (forall_mem_pair rfl (.inl rfl))
    | garbled =>
      simp only [run] at h
      split_ifs at h
      exact hlast h (forall_mem_pair trivial (.inl rfl))
    | fail =>
      simp only [run] at h
      split_ifs at h
      exact hone h rfl
    | _ => cases h
  | ticker k =>
    simp only [run] at h
    split at h
    · exact hlast h (forall_mem_pair trivial trivial)
    · split_ifs at h
      exact hnone h
  | notify k n =>
    simp only [run] at h
    split at h
    · exact hnone h
    · rename_i hk
      refine hlast h ?_
      cases n with
      | packet p =>
        unfold upgradeHandler
        dsimp only
        split_ifs <;> simp [Cause, hk]
      | error | close => simp [upgradeHandler, Cause, hk]
    · rename_i hk
      refine hlast h ?_
      cases n <;> simp [transportBinding, Cause, hk]
  | onPacket p =>
    simp only [run] at h
    split_ifs at h
    · exact hnone h
    · have hcause : (∃ p', Op.onPacket p = .onPacket p') ∨ (∃ t, Op.onPacket p = .onErrorFrom t) ∨
          ∃ t, Op.onPacket p = .onCloseFrom t := .inl ⟨p, rfl⟩
      split at h
      · exact hone h hcause
      · exact hone h hcause
      · exact hnone h
  | _ => exact hnone h

/-- What an event starts. -/
def Entry (s : Session) (e : Event) : Op → Prop
  | .sendPacket _ | .flush | .closeSocket | .onErrorFrom _ | .onPacket _ | .pingHandler
  | .close (.websocket _) => True
  | .pingTimeoutHandler => e = .pingTimeout
  | .polling o => ∀ r, o ≠ .write r
  | .maybeUpgrade k => e = .upgrade ∧ k = s.websockets.length
  | _ => False

theorem occurs_entry (h : s.occurs e = some (s', new)) : Every (s.Entry e) new := by
  cases e with
  | post pkts =>
    simp only [occurs] at h
    split_ifs at h
    obtain ⟨-, rfl⟩ := Prod.mk.inj (Option.some.inj h)
    exact every_cons.mpr ⟨List.forall_mem_map.mpr fun _ _ => trivial, every_nil⟩
  | postError | closeTimer | upgradeTimeout =>
    simp only [occurs] at h
    split_ifs at h
    obtain ⟨-, rfl⟩ := Prod.mk.inj (Option.some.inj h)
    simp [Entry]
  | poll =>
    simp only [occurs] at h
    split_ifs at h
    have hpoll : Every (s.Entry .poll) s.poll.2 := by
      unfold poll
      dsimp only
      split_ifs <;> simp [Entry]
    rw [Option.some.inj h] at hpoll
    exact hpoll
  | _ =>
    obtain ⟨-, rfl⟩ := Prod.mk.inj (Option.some.inj h)
    simp [Entry]

end Cause

end Session

end Gosocketio.Engine

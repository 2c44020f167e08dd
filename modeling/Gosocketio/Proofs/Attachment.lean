import Gosocketio.Lib.Pool
import Gosocketio.Sanity.Reconnect

/-! A namespace is connected only while the client has an engine. The sections that
take the engine away, `Close` and `onEngineClosed`, disconnect every namespace with it,
but the cleanup of a failed attempt does not, and a reply that comes when the engine is
gone still completes a call that waits. -/

namespace Gosocketio

open Runs SioClient

def Task.attempts : Task → Bool
  | .dialEngine (.attempt _) _ | .connectNsp (.attempt ..) _ => true
  | .loop _ (.attempt _) | .loop _ .cleanup | .loop _ (.closeEngine _) => true
  | _ => false

/-- It has not stored its engine yet, or has failed and not cleaned up. -/
def Task.redials : Task → Bool
  | .dialEngine (.attempt _) _ | .loop _ .cleanup => true
  | _ => false

def Task.cleansUp : Task → Bool
  | .loop _ .cleanup => true
  | _ => false

theorem Task.attempts_of_redials {t : Task} (h : t.redials = true) : t.attempts = true := by
  unfold redials at h
  split at h
  · rfl
  · rfl
  · cases h

namespace Reconnect

variable {o : ReconnectOptions} {s s' : Reconnect} {a : Act} {t u : Task} {i : ℕ}

/-- A namespace is connected only while there is an engine, or while an attempt is
about to store or to drop one. -/
def Attached (s : Reconnect) : Prop :=
  (∃ t ∈ s.tasks, t.redials = true) ∨ ∀ n, s.client.Connected n = true → s.client.engine ≠ none

/-- A reply completes a call that waits only while there is an engine or an attempt is
about to store one; a failed attempt cleans up only while no namespace is connected or
another attempt is about to store an engine. -/
def Careful (s : Reconnect) : Act → Prop
  | .receive => ∀ pkt ∈ s.inbound.head?, pkt.type = .connect →
      s.client.awaited pkt.nsp = none ∨ s.client.engine ≠ none ∨ ∃ t ∈ s.tasks, t.redials = true
  | .turn i _ => s.tasks[i]?.any Task.cleansUp = true →
      s.client.connectedNsps = [] ∨ ∃ t ∈ s.tasks.eraseIdx i, t.redials = true
  | _ => True

theorem Attached.mono (h : Attached s) (hengine : s'.client.engine = s.client.engine)
    (hconn : ∀ n, s'.client.Connected n = true → s.client.Connected n = true)
    (htasks : ∀ t ∈ s.tasks, t.redials = true → ∃ u ∈ s'.tasks, u.redials = true) : Attached s' := by
  rcases h with ⟨t, ht, hredials⟩ | h
  · exact .inl (htasks t ht hredials)
  · refine .inr fun n hn => ?_
    rw [hengine]
    exact h n (hconn n hn)

theorem Attached.of_held (h : ∀ n, s.client.held n = none) : Attached s :=
  .inr fun n hn => absurd hn (not_connected_of_held s.client n (h n))

theorem redials_set {ts : List Task} (hi : ts[i]? = some t)
    (hu : t.redials = true → u.redials = true) :
    ∀ x ∈ ts, x.redials = true → ∃ y ∈ ts.set i u, y.redials = true := by
  intro x hx hredials
  by_cases hxt : x = t
  · exact ⟨u, Pool.mem_set_self hi, hu (hxt ▸ hredials)⟩
  · exact ⟨x, Pool.mem_set_of_ne hi hx hxt, hredials⟩

theorem redials_append {ts us : List Task} :
    ∀ x ∈ ts, x.redials = true → ∃ y ∈ ts ++ us, y.redials = true :=
  fun x hx h => ⟨x, List.mem_append_left _ hx, h⟩

theorem redials_dialEngine {k : Dialer} {st st' : DialStage}
    (h : (Task.dialEngine k st).redials = true) : (Task.dialEngine k st').redials = true := by
  cases k with
  | dial => cases h
  | attempt L => rfl

theorem redials_of_calm (h : Calm s i a t u C n) (ht : t.redials = true) : u.redials = true := by
  cases h with
  | @dialFails a k =>
    cases k with
    | dial => cases ht
    | attempt L => rfl
  | _ => cases ht

theorem Attached.move (h : Attached s) (hi : s.tasks[i]? = some t)
    (htasks : s'.tasks = s.tasks.set i u) (hengine : s'.client.engine = s.client.engine)
    (hconn : ∀ n, s'.client.Connected n = s.client.Connected n)
    (hu : t.redials = true → u.redials = true) : Attached s' := by
  refine h.mono hengine (fun n hn => hconn n ▸ hn) ?_
  rw [htasks]
  exact redials_set hi hu

theorem Attached.handleConnect {pkt : Packet} (h : Attached s)
    (hcareful : s.client.awaited pkt.nsp = none ∨ s.client.engine ≠ none ∨
      ∃ t ∈ s.tasks, t.redials = true)
    (hC : s'.client = s.client.handleConnect pkt) (htasks : s'.tasks = s.tasks) : Attached s' := by
  have hengine : s'.client.engine = s.client.engine := by rw [hC, engine_handleConnect]
  rcases hcareful with hnone | hsome | hredials
  · refine h.mono hengine (fun n hn => ?_) fun t ht hredials => ⟨t, htasks ▸ ht, hredials⟩
    rw [hC] at hn
    rw [connected_iff] at hn ⊢
    rwa [held_handleConnect_of_none _ _ _ hnone] at hn
  · exact .inr fun n _ => hengine ▸ hsome
  · exact .inl (htasks ▸ hredials)

theorem Attached.cleanup {u : Task}
    (hcareful : s.client.connectedNsps = [] ∨ ∃ t ∈ s.tasks.eraseIdx i, t.redials = true)
    (hconn : ∀ n, s'.client.Connected n = s.client.Connected n)
    (htasks : s'.tasks = s.tasks.set i u) : Attached s' := by
  rcases hcareful with hnone | ⟨t, ht, hredials⟩
  · refine .inr fun n hn => ?_
    rw [hconn, (connectedNsps_eq_nil _).mp hnone n] at hn
    cases hn
  · obtain ⟨j, hj, hlookup⟩ := List.mem_eraseIdx_iff_getElem?.mp ht
    refine .inl ⟨t, ?_, hredials⟩
    rw [htasks]
    exact List.mem_of_getElem? ((List.getElem?_set_ne hj.symm).trans hlookup)

theorem Attached.step (h : Attached s) (hcareful : s.Careful a) (hs : s.step o a = some s') :
    Attached s' := by
  cases step_does hs with
  | calm hi hcalm =>
    exact h.mono hcalm.fades.engine hcalm.fades.connected (redials_set hi (redials_of_calm hcalm))
  | dialed hi | onData hi | onClose hi => exact h.move hi rfl rfl (fun _ => rfl) redials_dialEngine
  | store o hi => exact .inr fun n _ => Option.some_ne_none _
  | stop hi | closeAgain hi hclosed | closeEngine hi | closeDropped hi => exact h.move hi rfl rfl (fun _ => rfl) nofun
  | close hi hclosed hperm hu => exact .of_held fun n => held_close ..
  | cleanup hi hu => exact .cleanup (hcareful (by rw [hi]; rfl)) (fun _ => rfl) rfl
  | setClosed hi | stopLoop hi | reconnect hi hnsps hclosed => exact h.move hi rfl rfl (fun _ => rfl) nofun
  | onEngineClosed hi hperm hu => exact .of_held fun n => held_onEngineClosed ..
  | push => exact h
  | drop hg hopen hts => exact h.mono rfl (fun _ hn => hn) redials_append
  | @handleConnect pkt inbound hin htype hproc =>
    exact h.handleConnect (hcareful pkt (by rw [hin]; rfl) htype) rfl rfl
  | receive hin hC => exact h.mono hC.fades.engine hC.fades.connected fun t ht hredials => ⟨t, ht, hredials⟩
  | call hopened hcall => exact h.mono hcall.fades.engine hcall.fades.connected redials_append

/-- In a run of careful steps, whenever no attempt is executing, a connected namespace
means that there is an engine, and so a packet sent on it is handed to that engine. -/
theorem careful_attached {acts : List Act} (hrun : Run (Reconnect.step o) Careful initial acts s)
    (hidle : ∀ t ∈ s.tasks, t.attempts = false) (nsp : Bytes) (hconn : s.client.Connected nsp = true) :
    ∃ e, s.client.engine = some e ∧ ∀ pkt, (s.sendPacket pkt).handed = s.handed ++ [(e, pkt)] := by
  have h₀ : Attached initial := .inr nofun
  rcases hrun.invariant Attached h₀ fun _ _ _ h hok hs => h.step hok hs with ⟨t, ht, hredials⟩ | h
  · have := hidle t ht
    rw [Task.attempts_of_redials hredials] at this
    cases this
  · obtain ⟨e, he⟩ := Option.ne_none_iff_exists'.mp (h nsp hconn)
    refine ⟨e, he, fun pkt => ?_⟩
    rw [sendPacket, he]

section NonVacuity

instance (s : Reconnect) (a : Act) : Decidable (s.Careful a) := by
  unfold Careful
  split <;> infer_instance

/-- The connection fails and the namespace is connected again over a second engine. -/
def recovers : List Act := open₀ ++ lose 0 1 [defaultNamespace] ++ redial 1 ++ [Act.turn 1 []] ++
    exchange 1 1 (accepted defaultNamespace) ++ [Act.turn 1 [], .turn 1 []]

theorem recovers_runs : (exec (Reconnect.step {}) Careful initial recovers).isSome = true := by
  decide +kernel

theorem careful_attached_recovers :
    ∃ e, ((exec (Reconnect.step {}) Careful initial recovers).get recovers_runs).client.engine = some e ∧
      ∀ pkt, (((exec (Reconnect.step {}) Careful initial recovers).get recovers_runs).sendPacket pkt).handed =
        ((exec (Reconnect.step {}) Careful initial recovers).get recovers_runs).handed ++ [(e, pkt)] :=
  careful_attached (run_of_isSome recovers_runs) (by decide +kernel) defaultNamespace (by decide +kernel)

def nspA : Bytes := [47, 97]

/-- Two namespaces are connected when the connection fails. The attempt connects the
default one, the other is refused, and the attempt cleans up. -/
def halfway : List Act :=
  open₀ ++ [Act.connectNamespace nspA .null] ++ exchange 1 0 (accepted nspA) ++
    lose 0 2 [defaultNamespace, nspA] ++ redial 2 ++ [Act.turn 2 []] ++
    exchange 2 1 (accepted defaultNamespace) ++ [Act.turn 2 []] ++ exchange 2 1 (refused nspA) ++
    [Act.turn 2 [], .turn 2 []]

theorem halfway_runs : (exec (Reconnect.step {}) always initial halfway).isSome = true := by
  decide +kernel

theorem cleanup_leaves_connected : ¬ ∀ (o : ReconnectOptions) (s : Reconnect) (acts : List Act),
    Run (Reconnect.step o) always initial acts s → (∀ t ∈ s.tasks, t.attempts = false) →
      ∀ nsp, s.client.Connected nsp = true → s.client.engine ≠ none := by
  intro h
  exact h {} _ halfway (run_of_isSome halfway_runs) (by decide +kernel) defaultNamespace
    (by decide +kernel) (by decide +kernel)

end NonVacuity

end Reconnect

end Gosocketio

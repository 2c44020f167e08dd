import Gosocketio.Lib.Pool
import Gosocketio.Sanity.Reconnect

/-! At most one reconnection loop runs and at most one engine is open. Only a loop
dials again, and before it does the engine it had is closed; but each callback of an
engine that drops can start a loop, whatever loop or engine there is by then, and takes
`c.engine` away, whichever engine it is. -/

namespace Gosocketio

open Runs SioClient

def Task.loops : Task → Bool
  | .dialEngine (.attempt _) _ | .connectNsp (.attempt ..) _ | .loop .. => true
  | _ => false

/-- A loop, or `Dial` before it has stored its engine. -/
def Task.dials : Task → Bool
  | .dialEngine .dial _ => true
  | t => t.loops

def Task.holds : Task → Option DialId
  | .dialEngine _ (.onClose e) | .dialEngine _ (.store e) => some e
  | .loop _ (.closeEngine e) | .close (.closeEngine e) => some e
  | _ => none

def Task.reports : Task → Bool
  | .onEngineClosed _ => true
  | _ => false

theorem Task.dials_of_loops {t : Task} (h : t.loops = true) : t.dials = true := by
  unfold dials
  split
  · rfl
  · exact h

namespace Reconnect

variable {o : ReconnectOptions} {s s' : Reconnect} {a : Act} {t u : Task} {e : DialId} {i : ℕ}

def Live (s : Reconnect) (e : DialId) : Prop := s.engines[e]?.any Engine.live = true

def Down (s : Reconnect) : Prop := ∀ e ∈ s.client.engine, ¬ s.Live e

def starts (s : Reconnect) : Task → Bool
  | .reconnect nsps => nsps ≠ [] && !s.client.closed
  | _ => false

/-- A loop is started only while no other one is running and `c.engine` is nil or closed,
and `onEngineClosed` runs only while `c.engine` is nil or closed. -/
def Orderly (s : Reconnect) : Act → Prop
  | .turn i _ =>
    (s.tasks[i]?.any s.starts = true → (∀ t ∈ s.tasks, t.loops = false) ∧ s.Down) ∧
    (s.tasks[i]?.any Task.reports = true → s.Down)
  | _ => True

/-- Before `Dial` has stored its engine, no namespace is connected or to be connected
again. -/
structure Opening (s : Reconnect) : Prop where
  processing : s.processing = false
  connected : ∀ n, s.client.Connected n = false
  reconnect : ∀ nsps, .reconnect nsps ∈ s.tasks → nsps = []

/-- What holds while a goroutine is where it is. -/
def Fits (s : Reconnect) : Task → Prop
  | .dialEngine k stage =>
    (k = .dial → s.Opening) ∧ match stage with
      | .dial | .onData _ => ∀ e, ¬ s.Live e
      | .onClose e | .store e => ∀ e', s.Live e' → e' = e
  | .loop _ .check => (∀ e, ¬ s.Live e) ∨ s.reconnectStop = true
  | .loop _ .sleep => ∀ e, ¬ s.Live e
  | .loop _ (.closeEngine _) => s.client.engine = none
  | .close .close | .close (.closeEngine _) => s.reconnectStop = true
  | _ => True

structure Single (s : Reconnect) : Prop where
  one : s.tasks.countP Task.dials ≤ 1
  unique : ∀ e e', s.Live e → s.Live e' → e = e'
  located : ∀ e, s.Live e → s.client.engine = some e ∨ ∃ t ∈ s.tasks, t.holds = some e
  fits : ∀ t ∈ s.tasks, s.Fits t

theorem Fits.mono (h : s.Fits t) (hlive : ∀ e, s'.Live e → s.Live e)
    (hstop : s.reconnectStop = true → s'.reconnectStop = true)
    (hengine : s.client.engine = none → s'.client.engine = none) (hopening : s.Opening → s'.Opening) :
    s'.Fits t := by
  unfold Fits at h ⊢
  split at h
  · refine ⟨fun hk => hopening (h.1 hk), ?_⟩
    split at h <;> exact fun e he => h.2 e (hlive e he)
  · rcases h with h | h
    · exact .inl fun e he => h e (hlive e he)
    · exact .inr (hstop h)
  · exact fun e he => h e (hlive e he)
  · exact hengine h
  · exact hstop h
  · exact hstop h
  · trivial

theorem Fits.of_not_dials (h : s.Fits t) (ht : t.dials = false)
    (hstop : s.reconnectStop = true → s'.reconnectStop = true) : s'.Fits t := by
  cases t with
  | dialEngine k stage => cases k <;> cases ht
  | loop L stage => cases ht
  | close stage => cases stage <;> first | exact hstop h | trivial
  | _ => trivial

theorem Opening.mono (h : s.Opening) (hproc : s'.processing = s.processing)
    (hconn : ∀ n, s'.client.Connected n = true → s.client.Connected n = true)
    (htasks : ∀ nsps, .reconnect nsps ∈ s'.tasks → nsps = [] ∨ .reconnect nsps ∈ s.tasks) :
    s'.Opening where
  processing := hproc.trans h.processing
  connected n := by
    refine Bool.eq_false_of_not_eq_true fun hn => ?_
    exact Bool.false_ne_true ((h.connected n).symm.trans (hconn n hn))
  reconnect nsps hmem := (htasks nsps hmem).elim id (h.reconnect nsps)

section

variable (h : Single s)

include h

theorem Single.eq_of_dials (hi : s.tasks[i]? = some t) (ht : t.dials = true) {j : ℕ}
    (hj : s.tasks[j]? = some u) (hu : u.dials = true) : i = j :=
  Pool.countP_le_one_iff.mp h.one i j t u hi hj ht hu

theorem Single.not_dials (hi : s.tasks[i]? = some t) (ht : t.dials = true)
    {x : Task} (hx : x ∈ s.tasks.set i u) : x = u ∨ x ∈ s.tasks ∧ x.dials = false := by
  obtain ⟨j, hj⟩ := List.mem_iff_getElem?.mp hx
  by_cases hij : i = j
  · subst hij
    rw [List.getElem?_set_self (List.getElem?_eq_some_iff.mp hi).1, Option.some.injEq] at hj
    exact .inl hj.symm
  · rw [List.getElem?_set_ne hij] at hj
    refine .inr ⟨List.mem_of_getElem? hj, Bool.eq_false_of_not_eq_true fun hx => ?_⟩
    exact hij (h.eq_of_dials hi ht hj hx)

/-- A goroutine that does not dial and holds an engine is a call of `Close`. -/
theorem Single.stop_of_holds (hx : t ∈ s.tasks) (ht : t.dials = false)
    (hholds : t.holds = some e) : s.reconnectStop = true := by
  have hfits := h.fits t hx
  cases t with
  | dialEngine k stage => cases k <;> cases ht
  | loop L stage => cases ht
  | close stage =>
    cases stage with
    | closeEngine e => exact hfits
    | _ => cases hholds
  | _ => cases hholds

/-- While a goroutine that dials holds nothing, an engine that is open and not that of
the client is about to be closed by `Close`. -/
theorem Single.stop_of_live (hi : s.tasks[i]? = some t) (ht : t.dials = true)
    (hholds : t.holds ≠ some e) (hengine : s.client.engine ≠ some e) (hlive : s.Live e) :
    s.reconnectStop = true := by
  rcases h.located e hlive with he | ⟨x, hx, he⟩
  · exact absurd he hengine
  · refine h.stop_of_holds hx (Bool.eq_false_of_not_eq_true fun hdials => ?_) he
    obtain ⟨j, hj⟩ := List.mem_iff_getElem?.mp hx
    obtain rfl := h.eq_of_dials hi ht hj hdials
    rw [hi, Option.some.injEq] at hj
    exact hholds (hj ▸ he)

theorem Single.move (hi : s.tasks[i]? = some t) (htasks : s'.tasks = s.tasks.set i u)
    (hlive : ∀ e, s'.Live e → s.Live e)
    (hstop : s.reconnectStop = true → s'.reconnectStop = true)
    (hengine : s.client.engine = none → s'.client.engine = none) (hopening : s.Opening → s'.Opening)
    (hone : s'.tasks.countP Task.dials ≤ 1)
    (hlocated : ∀ e, s'.Live e → s.client.engine = some e ∨ t.holds = some e →
      s'.client.engine = some e ∨ u.holds = some e)
    (hfits : s'.Fits u) : Single s' where
  one := hone
  unique e e' he he' := h.unique e e' (hlive e he) (hlive e' he')
  located e he := by
    have hu : u ∈ s'.tasks := by
      rw [htasks]
      exact Pool.mem_set_self hi
    have hfrom (hor : s.client.engine = some e ∨ t.holds = some e) :
        s'.client.engine = some e ∨ ∃ t ∈ s'.tasks, t.holds = some e :=
      (hlocated e he hor).imp id fun hholds => ⟨u, hu, hholds⟩
    rcases h.located e (hlive e he) with hc | ⟨x, hx, hholds⟩
    · exact hfrom (.inl hc)
    · by_cases hxt : x = t
      · exact hfrom (.inr (hxt ▸ hholds))
      · refine .inr ⟨x, ?_, hholds⟩
        rw [htasks]
        exact Pool.mem_set_of_ne hi hx hxt
  fits x hx := by
    rw [htasks] at hx
    rcases List.mem_or_eq_of_mem_set hx with hx | rfl
    · exact (h.fits x hx).mono hlive hstop hengine hopening
    · exact hfits

theorem Single.add {us : List Task} (htasks : s'.tasks = s.tasks ++ us)
    (hus : ∀ u ∈ us, u.dials = false ∧ s'.Fits u) (hlive : ∀ e, s'.Live e → s.Live e)
    (hstop : s'.reconnectStop = s.reconnectStop) (hengine : s'.client.engine = s.client.engine)
    (hopening : s.Opening → s'.Opening) : Single s' where
  one := by
    have hzero : us.countP Task.dials = 0 :=
      List.countP_eq_zero.mpr fun u hu => by simp [(hus u hu).1]
    rw [htasks, List.countP_append, hzero]
    exact h.one
  unique e e' he he' := h.unique e e' (hlive e he) (hlive e' he')
  located e he := by
    rw [hengine, htasks]
    exact (h.located e (hlive e he)).imp id fun ⟨x, hx, hholds⟩ =>
      ⟨x, List.mem_append_left _ hx, hholds⟩
  fits x hx := by
    rw [htasks] at hx
    rcases List.mem_append.mp hx with hx | hx
    · exact (h.fits x hx).mono hlive (fun h => hstop.trans h) (fun h => hengine.trans h) hopening
    · exact (hus x hx).2

end

section Engines

variable {e' : DialId}

theorem live_of_modify {f : Engine → Engine}
    (h : ({ s with engines := s.engines.modify e f } : Reconnect).Live e') :
    e' ≠ e ∧ s.Live e' ∨ e' = e ∧ ∃ g, s.engines[e]? = some g ∧ (f g).live = true := by
  rw [Live, List.getElem?_modify] at h
  by_cases he : e = e'
  · subst he
    refine .inr ⟨rfl, ?_⟩
    cases hg : s.engines[e]? with
    | none => simp [hg] at h
    | some g => exact ⟨g, rfl, by simpa [hg] using h⟩
  · refine .inl ⟨fun h => he h.symm, ?_⟩
    simpa [Live, he] using h

theorem live_of_closeEngine (h : (s.closeEngine e).Live e') : e' ≠ e ∧ s.Live e' := by
  rcases live_of_modify h with h | ⟨-, g, -, hg⟩
  · exact h
  · simp [Engine.live] at hg

theorem live_of_onClose (h : ({ s with
    engines := s.engines.modify e fun g => { g with onClose := true } } : Reconnect).Live e') : s.Live e' := by
  rcases live_of_modify h with h | ⟨rfl, g, hg, hlive⟩
  · exact h.2
  · rw [Live, hg]
    exact hlive

theorem live_of_append
    (h : ({ s with engines := s.engines ++ [({} : Engine)] } : Reconnect).Live e') : s.Live e' := by
  rw [Live, List.getElem?_append] at h
  split_ifs at h with hlt
  · exact h
  · cases hk : e' - s.engines.length with
    | zero => simp [hk, Engine.live] at h
    | succ k => simp [hk] at h

end Engines

section Calm

theorem dials_of_calm (h : Calm s i a t u C n) (hu : u.dials = true) : t.dials = true := by
  cases h with
  | @wait a k nsp ch r =>
    cases k with
    | attempt L rest => rfl
    | dial => cases r <;> cases hu
    | app => cases hu
  | @timeout a k =>
    cases k with
    | attempt L rest => rfl
    | dial | app => cases hu
  | @dialFails a k => cases k <;> rfl
  | sendPacket | ignored => cases hu
  | @begin order k | @send a k => cases k <;> exact hu
  | _ => rfl

theorem holds_of_calm (h : Calm s i a t u C n) : t.holds = none := by
  cases h <;> rfl

theorem fits_of_calm (h : Calm s i a t u C n) (ht : s.Fits t) : s.Fits u := by
  cases h with
  | @wait a k nsp ch r => cases k <;> cases r <;> trivial
  | @timeout a k | @dialFails a k => cases k <;> trivial
  | again hstop =>
    rcases ht with ht | ht
    · exact ht
    · rw [hstop] at ht
      cases ht
  | wake => exact ⟨nofun, ht⟩
  | _ => trivial

theorem dials_of_call (h : Call C t D) : t.dials = false := by
  cases h <;> rfl

theorem fits_of_call (h : Call C t D) : s.Fits t := by
  cases h <;> trivial

end Calm

section Step

theorem Single.one_set (h : Single s) (hi : s.tasks[i]? = some t)
    (hu : u.dials = true → t.dials = true) : (s.tasks.set i u).countP Task.dials ≤ 1 :=
  (Pool.countP_set_le hi hu).trans h.one

theorem Opening.set (h : s.Opening) (hproc : s'.processing = s.processing)
    (hconn : ∀ n, s'.client.Connected n = true → s.client.Connected n = true)
    (htasks : s'.tasks = s.tasks.set i u) (hu : ∀ nsps, u = .reconnect nsps → nsps = []) : s'.Opening := by
  refine h.mono hproc hconn fun nsps hmem => ?_
  rw [htasks] at hmem
  rcases List.mem_or_eq_of_mem_set hmem with hmem | hmem
  · exact .inr hmem
  · exact .inl (hu nsps hmem.symm)

theorem reconnect_of_calm {nsps : List Bytes} (h : Calm s i a t u C n) : u ≠ .reconnect nsps := by
  cases h with
  | @wait a k nsp ch r => cases k <;> cases r <;> nofun
  | @timeout a k | @dialFails a k => cases k <;> nofun
  | _ => nofun

section

variable (h : Single s)

include h

theorem Single.calm {C : SioClient} {calls : ChanId} {handed : List (DialId × Packet)}
    (hi : s.tasks[i]? = some t) (hcalm : Calm s i a t u C calls) :
    Single { s with client := C, calls, handed, tasks := s.tasks.set i u } := by
  have hC := hcalm.fades
  have hfits := fits_of_calm hcalm (h.fits t (List.mem_of_getElem? hi))
  have hopening (ho : s.Opening) :
      Opening { s with client := C, calls, handed, tasks := s.tasks.set i u } :=
    ho.set rfl hC.connected rfl fun nsps hu => absurd hu (reconnect_of_calm hcalm)
  refine h.move hi rfl (fun _ he => he) (fun h => h) (fun h => hC.engine.trans h) hopening
    (h.one_set hi (dials_of_calm hcalm)) (fun e _ hor => ?_) ?_
  · rw [holds_of_calm hcalm] at hor
    exact .inl (hC.engine.trans (hor.resolve_right nofun))
  · exact hfits.mono (fun _ he => he) (fun h => h) (fun h => hC.engine.trans h) hopening

theorem Single.onData {k : Dialer} (hi : s.tasks[i]? = some (.dialEngine k (.onData e))) :
    Single { s with
      engines := s.engines.modify e fun g => { g with onData := true }
      tasks := s.tasks.set i (.dialEngine k (.onClose e)) } := by
  set s' : Reconnect := { s with
    engines := s.engines.modify e fun g => { g with onData := true }
    tasks := s.tasks.set i (.dialEngine k (.onClose e)) }
  have hdials {stage : DialStage} : (Task.dialEngine k stage).dials = true := by cases k <;> rfl
  obtain ⟨hopening, hnone⟩ := h.fits _ (List.mem_of_getElem? hi)
  have hlive : ∀ e', s'.Live e' → e' = e := by
    intro e' he'
    rcases live_of_modify he' with he' | he'
    · exact absurd he'.2 (hnone e')
    · exact he'.1
  refine ⟨h.one_set hi fun _ => hdials, fun e₁ e₂ h₁ h₂ => (hlive e₁ h₁).trans (hlive e₂ h₂).symm,
    fun e' he' => .inr ⟨_, Pool.mem_set_self hi, congrArg some (hlive e' he').symm⟩, fun x hx => ?_⟩
  rcases h.not_dials hi hdials hx with rfl | ⟨hx, hx'⟩
  · exact ⟨fun hk => (hopening hk).set rfl (fun _ hn => hn) rfl nofun, hlive⟩
  · exact (h.fits x hx).of_not_dials hx' fun h => h

theorem Single.store {k : Dialer} (hi : s.tasks[i]? = some (.dialEngine k (.store e))) :
    Single { s with
      client := s.client.store e
      processing := true
      tasks := s.tasks.set i (k.dialed o) } := by
  have hdials : (Task.dialEngine k (.store e)).dials = true := by cases k <;> rfl
  obtain ⟨-, hlive⟩ := h.fits _ (List.mem_of_getElem? hi)
  refine ⟨h.one_set hi fun _ => hdials, h.unique, fun e' he' => .inl (congrArg some (hlive e' he').symm),
    fun x hx => ?_⟩
  rcases h.not_dials hi hdials hx with rfl | ⟨hx, hx'⟩
  · cases k <;> trivial
  · exact (h.fits x hx).of_not_dials hx' fun h => h

theorem Single.dialed {k : Dialer} (hi : s.tasks[i]? = some (.dialEngine k .dial)) : Single { s with
      engines := s.engines ++ [({} : Engine)]
      tasks := s.tasks.set i (.dialEngine k (.onData s.engines.length)) } := by
  obtain ⟨hopening, hnone⟩ := h.fits _ (List.mem_of_getElem? hi)
  refine h.move hi rfl (fun _ => live_of_append) (fun h => h) (fun h => h)
    (fun ho => ho.set rfl (fun _ hn => hn) rfl nofun) (h.one_set hi fun _ => by cases k <;> rfl)
    (fun e _ hor => .inl (hor.resolve_right nofun)) ?_
  exact ⟨fun hk => (hopening hk).set rfl (fun _ hn => hn) rfl nofun, fun e he => hnone e (live_of_append he)⟩

theorem Single.onClose {k : Dialer} (hi : s.tasks[i]? = some (.dialEngine k (.onClose e))) :
    Single { s with
      engines := s.engines.modify e fun g => { g with onClose := true }
      tasks := s.tasks.set i (.dialEngine k (.store e)) } := by
  obtain ⟨hopening, hlive⟩ := h.fits _ (List.mem_of_getElem? hi)
  refine h.move hi rfl (fun _ => live_of_onClose) (fun h => h) (fun h => h)
    (fun ho => ho.set rfl (fun _ hn => hn) rfl nofun) (h.one_set hi fun _ => by cases k <;> rfl)
    (fun e _ hor => hor) ?_
  exact ⟨fun hk => (hopening hk).set rfl (fun _ hn => hn) rfl nofun, fun e' he' => hlive e' (live_of_onClose he')⟩

theorem Single.close {order : List Bytes} (hi : s.tasks[i]? = some (.close .close))
    (hu : s.client.engine = none ∧ u = .close .returned ∨
      ∃ e, s.client.engine = some e ∧ u = .close (.closeEngine e)) :
    Single { s with client := s.client.close order, tasks := s.tasks.set i u } := by
  have hstop : s.reconnectStop = true := h.fits _ (List.mem_of_getElem? hi)
  have hdials : u.dials = true → (Task.close .close).dials = true := by
    rcases hu with ⟨-, rfl⟩ | ⟨e, -, rfl⟩ <;> exact id
  refine h.move hi rfl (fun _ he => he) (fun h => h) (fun _ => rfl)
    (fun ho => ho.set rfl (fun n hn => ?_) rfl fun nsps => ?_) (h.one_set hi hdials) (fun e _ hor => ?_) ?_
  · exact absurd hn (not_connected_of_held _ n (held_close ..))
  · rcases hu with ⟨-, rfl⟩ | ⟨e, -, rfl⟩ <;> nofun
  · have he := hor.resolve_right nofun
    rcases hu with ⟨hnone, -⟩ | ⟨e', he', rfl⟩
    · rw [hnone] at he
      cases he
    · exact .inr (he'.symm.trans he)
  · rcases hu with ⟨-, rfl⟩ | ⟨e, -, rfl⟩
    · trivial
    · exact hstop

theorem Single.closeEngine (hi : s.tasks[i]? = some t) (ht : t.holds = some e)
    (hone : u.dials = true → t.dials = true) (hu : ∀ nsps, u ≠ .reconnect nsps)
    (hfits : ({ s.closeEngine e with tasks := s.tasks.set i u } : Reconnect).Fits u) :
    Single { s.closeEngine e with tasks := s.tasks.set i u } := by
  refine h.move hi rfl (fun _ he => (live_of_closeEngine he).2) (fun h => h) (fun h => h)
    (fun ho => ho.set rfl (fun _ hn => hn) rfl fun nsps hu' => absurd hu' (hu nsps))
    (h.one_set hi hone) (fun e' he' hor => ?_) hfits
  refine .inl (hor.resolve_right fun hholds => ?_)
  exact (live_of_closeEngine he').1 (Option.some.inj (hholds.symm.trans ht))

/-- A failed attempt takes the engine away and is about to close it. If there is none,
every engine is closed unless `Close` is about to do that. -/
theorem Single.cleanup {L : ReconnectLoop} (hi : s.tasks[i]? = some (.loop L .cleanup))
    (hu : s.client.engine = none ∧ u = .loop L .check ∨
      ∃ e, s.client.engine = some e ∧ u = .loop L (.closeEngine e)) :
    Single { s with client := s.client.dropEngine, tasks := s.tasks.set i u } := by
  refine h.move hi rfl (fun _ he => he) (fun h => h) (fun _ => rfl)
    (fun ho => ho.set rfl (fun _ hn => hn) rfl fun nsps => ?_) (h.one_set hi fun _ => rfl)
    (fun e _ hor => ?_) ?_
  · rcases hu with ⟨-, rfl⟩ | ⟨e, -, rfl⟩ <;> nofun
  · have he := hor.resolve_right nofun
    rcases hu with ⟨hnone, -⟩ | ⟨e', he', rfl⟩
    · rw [hnone] at he
      cases he
    · exact .inr (he'.symm.trans he)
  · rcases hu with ⟨hnone, rfl⟩ | ⟨e, -, rfl⟩
    · by_cases hlive : ∃ e, s.Live e
      · obtain ⟨e, he⟩ := hlive
        exact .inr (h.stop_of_live hi rfl nofun (by rw [hnone]; nofun) he)
      · exact .inl fun e he => hlive ⟨e, he⟩
    · rfl

theorem Single.closeDropped {L : ReconnectLoop}
    (hi : s.tasks[i]? = some (.loop L (.closeEngine e))) :
    Single { s.closeEngine e with tasks := s.tasks.set i (.loop L .check) } := by
  have hnone : s.client.engine = none := h.fits _ (List.mem_of_getElem? hi)
  refine h.closeEngine hi rfl (fun _ => rfl) nofun ?_
  by_cases hlive : ∃ e', (s.closeEngine e).Live e'
  · obtain ⟨e', he'⟩ := hlive
    obtain ⟨hne, he'⟩ := live_of_closeEngine he'
    exact .inr (h.stop_of_live hi rfl (fun he => hne (Option.some.inj he).symm) (by rw [hnone]; nofun) he')
  · exact .inl fun e he => hlive ⟨e, he⟩

theorem Single.onEngineClosed {d : Drop} {order : List Bytes}
    (hi : s.tasks[i]? = some (.onEngineClosed d)) (hdown : s.Down)
    (hperm : order.Perm s.client.connectedNsps) (hu : u = .done ∨ u = .reconnect order) :
    Single { s with client := s.client.onEngineClosed d order, tasks := s.tasks.set i u } := by
  have hdials : u.dials = false := by rcases hu with rfl | rfl <;> rfl
  refine h.move hi rfl (fun _ he => he) (fun h => h) (fun _ => engine_onEngineClosed ..)
    (fun ho => ho.set rfl (fun n hn => ?_) rfl fun nsps hnsps => ?_) (h.one_set hi ?_) (fun e he hor => ?_) ?_
  · exact absurd hn (not_connected_of_held _ n (held_onEngineClosed ..))
  · rcases hu with rfl | rfl
    · cases hnsps
    · obtain rfl : order = nsps := by injection hnsps
      rw [(connectedNsps_eq_nil _).mpr ho.connected] at hperm
      exact hperm.eq_nil
  · rw [hdials]
    nofun
  · exact absurd he (hdown e (hor.resolve_right nofun))
  · rcases hu with rfl | rfl <;> trivial

theorem Single.reconnect {nsps : List Bytes} (hi : s.tasks[i]? = some (.reconnect nsps))
    (hnsps : nsps ≠ []) (hloops : ∀ t ∈ s.tasks, t.loops = false) (hdown : s.Down) :
    Single { s with tasks := s.tasks.set i (.loop { nsps } .check) } := by
  have hdials : ∀ t ∈ s.tasks, t.dials = false := by
    intro t ht
    unfold Task.dials
    split
    · exact absurd (((h.fits _ ht).1 rfl).reconnect nsps (List.mem_of_getElem? hi)) hnsps
    · exact hloops t ht
  have hone : (s.tasks.set i (.loop { nsps } .check)).countP Task.dials ≤ 1 := by
    rw [Pool.countP_le_one_iff]
    intro j k t u hj hk ht hu
    have hplace {j : ℕ} {t : Task} (hj : (s.tasks.set i (.loop { nsps } .check))[j]? = some t)
        (ht : t.dials = true) : i = j := by
      by_contra hij
      rw [List.getElem?_set_ne hij] at hj
      rw [hdials t (List.mem_of_getElem? hj)] at ht
      cases ht
    exact (hplace hj ht).symm.trans (hplace hk hu)
  refine h.move hi rfl (fun _ he => he) (fun h => h) (fun h => h)
    (fun ho => ho.set rfl (fun _ hn => hn) rfl nofun) hone
    (fun e _ hor => .inl (hor.resolve_right nofun)) ?_
  by_cases hlive : ∃ e, s.Live e
  · obtain ⟨e, he⟩ := hlive
    rcases h.located e he with hengine | ⟨t, ht, hholds⟩
    · exact absurd he (hdown e hengine)
    · exact .inr (h.stop_of_holds ht (hdials t ht) hholds)
  · exact .inl fun e he => hlive ⟨e, he⟩

theorem Single.plain (hi : s.tasks[i]? = some t) (htasks : s'.tasks = s.tasks.set i u)
    (hengines : s'.engines = s.engines) (hproc : s'.processing = s.processing)
    (hengine : s'.client.engine = s.client.engine)
    (hconn : ∀ n, s'.client.Connected n = true → s.client.Connected n = true)
    (hstop : s.reconnectStop = true → s'.reconnectStop = true) (ht : t.holds = none)
    (hdials : u.dials = true → t.dials = true) (hu : ∀ nsps, u ≠ .reconnect nsps) (hfits : s'.Fits u) :
    Single s' := by
  refine h.move hi htasks (fun e he => ?_) hstop (fun h => hengine.trans h)
    (fun ho => ho.set hproc hconn htasks fun nsps hu' => absurd hu' (hu nsps)) ?_ (fun e _ hor => ?_) hfits
  · rwa [Live, hengines] at he
  · rw [htasks]
    exact h.one_set hi hdials
  · rw [ht] at hor
    exact .inl (hengine.trans (hor.resolve_right nofun))

theorem Single.step (horderly : s.Orderly a) (hs : s.step o a = some s') : Single s' := by
  cases step_does hs with
  | calm hi hcalm => exact h.calm hi hcalm
  | dialed hi => exact h.dialed hi
  | onData hi => exact h.onData hi
  | onClose hi => exact h.onClose hi
  | store o hi => exact h.store hi
  | stop hi => exact h.plain hi rfl rfl rfl rfl (fun _ hn => hn) (fun _ => rfl) rfl nofun nofun rfl
  | closeAgain hi hclosed =>
    exact h.plain hi rfl rfl rfl rfl (fun _ hn => hn) (fun h => h) rfl nofun nofun trivial
  | close hi hclosed hperm hu => exact h.close hi hu
  | closeEngine hi => exact h.closeEngine hi rfl nofun nofun trivial
  | cleanup hi hu => exact h.cleanup hi hu
  | closeDropped hi => exact h.closeDropped hi
  | setClosed hi =>
    exact h.plain hi rfl rfl rfl rfl (fun _ hn => hn) (fun h => h) rfl (fun _ => rfl) nofun trivial
  | stopLoop hi =>
    exact h.plain hi rfl rfl rfl rfl (fun _ hn => hn) (fun _ => rfl) rfl nofun nofun trivial
  | onEngineClosed hi hperm hu => exact h.onEngineClosed hi (horderly.2 (by rw [hi]; rfl)) hperm hu
  | reconnect hi hnsps hclosed =>
    obtain ⟨hloops, hdown⟩ := horderly.1 (by rw [hi]; simp [starts, hnsps, hclosed])
    exact h.reconnect hi hnsps hloops hdown
  | push => exact h.add (List.append_nil _).symm nofun (fun _ he => he) rfl rfl fun ho => { ho with }
  | drop hg hopen hts =>
    refine h.add rfl (fun u hu => ?_) (fun _ he => (live_of_closeEngine he).2) rfl rfl fun ho => ?_
    · rcases hts with rfl | rfl
      · cases hu
      · rw [List.mem_singleton.mp hu]
        exact ⟨rfl, trivial⟩
    · refine ho.mono rfl (fun _ hn => hn) fun nsps hmem => ?_
      rcases List.mem_append.mp hmem with hmem | hmem
      · exact .inr hmem
      · rcases hts with rfl | rfl
        · cases hmem
        · cases List.mem_singleton.mp hmem
  | handleConnect hin htype hproc =>
    refine h.add (List.append_nil _).symm nofun (fun _ he => he) rfl (engine_handleConnect ..) fun ho => ?_
    rw [ho.processing] at hproc
    cases hproc
  | receive hin hC =>
    exact h.add (List.append_nil _).symm nofun (fun _ he => he) rfl hC.fades.engine fun ho =>
      ho.mono rfl hC.fades.connected fun _ hmem => .inr hmem
  | call hopened hcall =>
    refine h.add rfl (fun u hu => ?_) (fun _ he => he) rfl hcall.fades.engine fun ho => ?_
    · rw [List.mem_singleton.mp hu]
      exact ⟨dials_of_call hcall, fits_of_call hcall⟩
    · refine ho.mono rfl hcall.fades.connected fun nsps hmem => ?_
      rcases List.mem_append.mp hmem with hmem | hmem
      · exact .inr hmem
      · cases List.mem_singleton.mp hmem
        cases hcall

end

end Step

theorem single_initial : Single initial where
  one := by decide
  unique _ _ he := by cases he
  located _ he := by cases he
  fits t ht := by
    rw [List.mem_singleton.mp ht]
    refine ⟨fun _ => ⟨rfl, fun _ => rfl, fun nsps hmem => ?_⟩, fun e he => ?_⟩
    · cases List.mem_singleton.mp hmem
    · cases he

/-- In a run of orderly steps, at most one reconnection loop runs and at most one engine
whose callbacks feed the client is open. -/
theorem orderly_single {acts : List Act} (hrun : Run (Reconnect.step o) Orderly initial acts s) :
    s.tasks.countP Task.loops ≤ 1 ∧ s.engines.countP Engine.live ≤ 1 := by
  have h := hrun.invariant Single single_initial fun _ _ _ h hok hs => h.step hok hs
  constructor
  · exact (List.countP_mono_left fun t _ => Task.dials_of_loops).trans h.one
  · rw [Pool.countP_le_one_iff]
    intro e e' g g' hg hg' hlive hlive'
    exact h.unique e e' (by rw [Live, hg]; exact hlive) (by rw [Live, hg']; exact hlive')

section NonVacuity

instance (s : Reconnect) (e : DialId) : Decidable (s.Live e) :=
  inferInstanceAs (Decidable (s.engines[e]?.any Engine.live = true))

instance (s : Reconnect) : Decidable s.Down :=
  inferInstanceAs (Decidable (∀ e ∈ s.client.engine, ¬ s.Live e))

instance (s : Reconnect) (a : Act) : Decidable (s.Orderly a) := by
  rcases a with _ | _ <;> unfold Orderly <;> infer_instance

/-- The connection fails twice, the second time after the namespace is connected again. -/
def twice : List Act := open₀ ++ lose 0 1 [defaultNamespace] ++ redial 1 ++ [Act.turn 1 []] ++
    exchange 1 1 (accepted defaultNamespace) ++ [Act.turn 1 [], .turn 1 []] ++
    lose 1 2 [defaultNamespace] ++ redial 2

theorem twice_runs : (exec (Reconnect.step {}) Orderly initial twice).isSome = true := by
  decide +kernel

theorem orderly_single_twice :
    ((exec (Reconnect.step {}) Orderly initial twice).get twice_runs).tasks.countP Task.loops ≤ 1 ∧
      ((exec (Reconnect.step {}) Orderly initial twice).get twice_runs).engines.countP Engine.live ≤ 1 :=
  orderly_single (run_of_isSome twice_runs)

/-- The second time, the attempt has connected one of two namespaces: its loop tries
again, and the callback starts another one. Both dial. -/
def midway : List Act :=
  open₀ ++ [Act.connectNamespace [47, 97] .null] ++ exchange 1 0 (accepted [47, 97]) ++
    lose 0 2 [defaultNamespace, [47, 97]] ++ redial 2 ++ [Act.turn 2 []] ++
    exchange 2 1 (accepted defaultNamespace) ++ [Act.turn 2 [], .turn 2 [], .turn 2 []] ++
    lose 1 3 [defaultNamespace] ++ [Act.turn 2 [], .turn 2 [], .turn 2 [], .turn 2 []] ++ redial 2 ++
    redial 3

theorem midway_runs : (exec (Reconnect.step {}) always initial midway).isSome = true := by
  decide +kernel

theorem second_loop_started : ¬ ∀ (o : ReconnectOptions) (s : Reconnect) (acts : List Act),
    o.reconnection = true → Run (Reconnect.step o) always initial acts s →
      s.tasks.countP Task.loops ≤ 1 ∧ s.engines.countP Engine.live ≤ 1 := by
  intro h
  exact absurd (h {} _ midway rfl (run_of_isSome midway_runs)).1 (by decide +kernel)

/-- Both loops have stored an engine that is open. -/
example : ((exec (Reconnect.step {}) always initial midway).get midway_runs).engines.countP Engine.live = 2 := by
  decide +kernel

end NonVacuity

end Reconnect

end Gosocketio

import Gosocketio.Lib.Pool
import Gosocketio.Lib.Runs
import Gosocketio.Spec.Requests

/-! What holds of the events of a connection at any time. The goroutines of an event's
handlers count themselves out of a `WaitGroup` after they have appended what the handler
returned, so that the goroutine that acknowledges finds every result there. -/

namespace Gosocketio

open Runs Pool

variable {side : Side} {T V : Type} [DecidableEq T] {J : Json} {unmarshal : GoType T → Bytes → Option V}

namespace HandlerStage

/-- The goroutine counts in the `WaitGroup`. -/
def counts : HandlerStage → ℕ
  | .done _ => 0
  | _ => 1

/-- What the goroutine has appended. -/
def block : HandlerStage → Multiset (List Value)
  | .finish (some res) | .done (some res) => {res}
  | _ => 0

/-- The goroutine knows what came of the call. -/
def Agrees (o : Outcome T V) : HandlerStage → Prop
  | .invoke => True
  | .onError | .finish none | .done none => o = .mismatch
  | .append _ | .finish (some _) | .done (some _) => ∃ ins rest, o = .called ins rest

theorem eq_done_of_counts {g : HandlerStage} (h : g.counts = 0) : ∃ result, g = .done result := by
  cases g with
  | done result => exact ⟨result, rfl⟩
  | _ => cases h

end HandlerStage

namespace Request

variable {r r' : Request side T} {j : ℕ} {outs : List Returned}

/-- What the handlers that did not mismatch have returned, each as one block. -/
def blocks (r : Request side T) : Multiset (List Value) := (r.goroutines.map HandlerStage.block).sum

/-- The Ack packets that were sent for the event. -/
def acks (r : Request side T) : Multiset Packet := match r.ack with
  | .sent data => {r.response data}
  | _ => 0

/-- Every handler was started and has finished. -/
def Finished (r : Request side T) : Prop :=
  r.goroutines.length = r.handlers.length ∧ ∀ g ∈ r.goroutines, ∃ result, g = .done result

/-- The blocks, one after another in some order. -/
def Concatenates (r : Request side T) (data : List Value) : Prop :=
  ∃ l : List (List Value), (l : Multiset (List Value)) = r.blocks ∧ data = l.flatten

/-- One goroutine of a handler moves. -/
inductive Runs (J : Json) (unmarshal : GoType T → Bytes → Option V) (r : Request side T) (j : ℕ) :
    Request side T → Prop
  | mismatch {h} (hj : r.goroutines[j]? = some .invoke) (hh : r.handlers[j]? = some h)
      (ho : side.invoke J unmarshal h r.args = .mismatch) :
      Runs J unmarshal r j { r with goroutines := r.goroutines.set j .onError }
  | called {h ins rest} (res : List Value) (hj : r.goroutines[j]? = some .invoke) (hh : r.handlers[j]? = some h)
      (ho : side.invoke J unmarshal h r.args = .called ins rest) :
      Runs J unmarshal r j { r with goroutines := r.goroutines.set j (.append res) }
  | onError (hj : r.goroutines[j]? = some .onError) :
      Runs J unmarshal r j { r with goroutines := r.goroutines.set j (.finish none) }
  | append {res} (hj : r.goroutines[j]? = some (.append res)) : Runs J unmarshal r j
        { r with goroutines := r.goroutines.set j (.finish (some res)), results := r.results ++ res }
  | finish {result} (hj : r.goroutines[j]? = some (.finish result)) :
      Runs J unmarshal r j { r with goroutines := r.goroutines.set j (.done result), wg := r.wg - 1 }

theorem handlerNext_runs (h : r.handlerNext J unmarshal j outs = some r') : Runs J unmarshal r j r' := by
  unfold handlerNext at h
  split at h
  · split at h
    · cases h
    · obtain rfl := Option.some.inj h
      exact .mismatch ‹_› ‹_› ‹_›
    · obtain rfl := Option.some.inj h
      exact .called _ ‹_› ‹_› ‹_›
  · obtain rfl := Option.some.inj h
    exact .onError ‹_›
  · obtain rfl := Option.some.inj h
    exact .append ‹_›
  · obtain rfl := Option.some.inj h
    exact .finish ‹_›
  · cases h

/-- What holds of an event at any time: the `WaitGroup` counts the goroutines that have
not finished, `results` has the blocks appended so far, and there is a goroutine that
acknowledges only if the packet has an id and once every handler was started. -/
structure Sound (J : Json) (unmarshal : GoType T → Bytes → Option V) (r : Request side T) : Prop where
  wg : r.wg = (r.goroutines.map HandlerStage.counts).sum
  results : r.Concatenates r.results
  agrees : ∀ (j : ℕ) g, r.goroutines[j]? = some g →
    ∃ h, r.handlers[j]? = some h ∧ g.Agrees (side.invoke J unmarshal h r.args)
  asked : r.ack ≠ .idle → 0 ≤ r.pkt.id ∧ r.goroutines.length = r.handlers.length
  waited : r.ack ≠ .idle → r.ack ≠ .wait → r.wg = 0
  payload : ∀ data, r.ack = .send data ∨ r.ack = .sent data → r.results ≠ [] → data = r.results

theorem sound_new (pkt : Packet) (name : Bytes) (args : List Value) :
    Sound J unmarshal ({ pkt, name, args } : Request side T) := by
  refine ⟨rfl, ⟨[], rfl, rfl⟩, nofun, fun h => absurd rfl h, fun h => absurd rfl h, ?_⟩
  rintro data (h | h) <;> cases h

section

variable (h : Sound J unmarshal r)

include h

theorem counts_le_wg {g : HandlerStage} (hj : r.goroutines[j]? = some g) : g.counts ≤ r.wg := by
  rw [h.wg]
  exact List.le_sum_of_mem (List.mem_map_of_mem (List.mem_of_getElem? hj))

theorem Sound.set {t : HandlerStage} (u : HandlerStage) (new : List (List Value))
    (hj : r.goroutines[j]? = some t) (ht : t.counts = 1) (hblock : u.block = t.block + (new : Multiset _))
    (hagrees : ∀ h, r.handlers[j]? = some h → t.Agrees (side.invoke J unmarshal h r.args) →
      u.Agrees (side.invoke J unmarshal h r.args))
    {wg : ℕ} (hwg : wg + 1 = r.wg + u.counts) :
    Sound J unmarshal
      { r with goroutines := r.goroutines.set j u, results := r.results ++ new.flatten, wg := wg } := by
  have hpos : 0 < r.wg := by
    have := counts_le_wg h hj
    omega
  obtain ⟨n, hold, hnew⟩ := exists_sum_map_set HandlerStage.counts hj u
  obtain ⟨B, hbold, hbnew⟩ := exists_sum_map_set HandlerStage.block hj u
  have hsum := h.wg
  obtain ⟨l, hl, hflat⟩ := h.results
  have hwaiting : r.ack = .idle ∨ r.ack = .wait := by
    by_contra! hne
    exact absurd (h.waited hne.1 hne.2) hpos.ne'
  refine ⟨?_, ⟨l ++ new, ?_, ?_⟩, fun k g hk => ?_, fun hack => ?_, fun h₁ h₂ => ?_, ?_⟩
  · dsimp only
    omega
  · rw [← Multiset.coe_add, hl, blocks, blocks, hbold, hbnew, hblock, add_assoc]
  · rw [List.flatten_append, ← hflat]
  · dsimp only at hk ⊢
    rw [List.getElem?_set] at hk
    split_ifs at hk with hjk
    · obtain rfl := Option.some.inj hk
      subst hjk
      obtain ⟨x, hx, hagree⟩ := h.agrees j t hj
      exact ⟨x, hx, hagrees x hx hagree⟩
    · exact h.agrees k g hk
  · obtain ⟨hid, hlen⟩ := h.asked hack
    exact ⟨hid, by rw [List.length_set, hlen]⟩
  · exact absurd hwaiting (by rintro (h | h) <;> contradiction)
  · rintro data (hack | hack) <;> rcases hwaiting with hw | hw <;> cases hack.symm.trans hw

theorem Sound.runs (hr : Runs J unmarshal r j r') : Sound J unmarshal r' := by
  have hnil {gs : List HandlerStage} {wg : ℕ} (hs : Sound J unmarshal
      { r with goroutines := gs, results := r.results ++ ([] : List (List Value)).flatten, wg }) :
      Sound J unmarshal { r with goroutines := gs, wg } := by
    rwa [List.flatten_nil, List.append_nil] at hs
  cases hr with
  | @mismatch x hj hh ho =>
    refine hnil (h.set .onError [] hj rfl rfl (fun y hy _ => ?_) rfl)
    obtain rfl := Option.some.inj (hh.symm.trans hy)
    exact ho
  | @called x ins rest res hj hh ho =>
    refine hnil (h.set (.append res) [] hj rfl rfl (fun y hy _ => ?_) rfl)
    obtain rfl := Option.some.inj (hh.symm.trans hy)
    exact ⟨ins, rest, ho⟩
  | onError hj => exact hnil (h.set (.finish none) [] hj rfl rfl (fun _ _ ho => ho) rfl)
  | @append res hj =>
    have hs := h.set (.finish (some res)) [res] hj rfl rfl (fun _ _ ho => ho) rfl
    rwa [List.flatten_singleton] at hs
  | @finish result hj =>
    have hpos := counts_le_wg h hj
    refine hnil (h.set (.done result) [] hj rfl ?_ (fun _ _ ho => ?_) (Nat.sub_add_cancel hpos))
    · cases result with
      | none | some => rfl
    · cases result with
      | none | some => exact ho

theorem Sound.length_le : r.goroutines.length ≤ r.handlers.length := by
  by_contra hlt
  rw [not_le] at hlt
  obtain ⟨x, hx, -⟩ := h.agrees _ _ (List.getElem?_eq_getElem hlt)
  rw [List.getElem?_eq_none le_rfl] at hx
  cases hx

theorem Sound.handlersFor (hg : r.goroutines = []) (hack : r.ack = .idle)
    (hs : List (side.Handler T)) : Sound J unmarshal { r with handlers := hs } := by
  refine { h with agrees := fun j g hj => ?_, asked := fun hne => absurd hack hne }
  rw [hg] at hj
  cases hj

theorem Sound.start (hack : r.ack = .idle) (hlt : r.goroutines.length < r.handlers.length) :
    Sound J unmarshal { r with goroutines := r.goroutines ++ [.invoke], wg := r.wg + 1 } := by
  refine ⟨?_, ?_, fun j g hj => ?_, fun hne => absurd hack hne, fun hne => absurd hack hne, h.payload⟩
  · rw [List.map_append, List.sum_append, ← h.wg]
    rfl
  · obtain ⟨l, hl, hflat⟩ := h.results
    refine ⟨l, ?_, hflat⟩
    rw [hl, blocks, blocks, List.map_append, List.sum_append]
    exact (add_zero _).symm
  · dsimp only at hj ⊢
    by_cases hj' : j < r.goroutines.length
    · rw [List.getElem?_append_left hj'] at hj
      exact h.agrees j g hj
    · rw [List.getElem?_append_right (not_lt.mp hj')] at hj
      obtain ⟨hlt', -⟩ := List.getElem?_eq_some_iff.mp hj
      obtain rfl : j = r.goroutines.length := by
        rw [List.length_singleton] at hlt'
        omega
      rw [List.mem_singleton.mp (List.mem_of_getElem? hj)]
      exact ⟨_, List.getElem?_eq_getElem hlt, trivial⟩

theorem Sound.started (hge : ¬ r.goroutines.length < r.handlers.length) :
    Sound J unmarshal { r with ack := if 0 ≤ r.pkt.id then .wait else .idle } := by
  refine ⟨h.wg, h.results, h.agrees, fun hne => ?_, fun h₁ h₂ => ?_, ?_⟩
  · dsimp only at hne
    split_ifs at hne with hid
    · exact ⟨hid, le_antisymm h.length_le (not_lt.mp hge)⟩
    · exact absurd rfl hne
  · dsimp only at h₁ h₂
    split_ifs at h₁ h₂
    · exact absurd rfl h₂
    · exact absurd rfl h₁
  · rintro data (hack | hack)
    · dsimp only at hack
      split_ifs at hack
    · dsimp only at hack
      split_ifs at hack

theorem Sound.acknowledge {ack : AckStage} (hack : r.ack ≠ .idle) (hwg : r.wg = 0)
    (hdata : ∀ data, ack = .send data ∨ ack = .sent data → r.results ≠ [] → data = r.results) :
    Sound J unmarshal { r with ack := ack } :=
  ⟨h.wg, h.results, h.agrees, fun _ => h.asked hack, fun _ _ => hwg, hdata⟩

end

variable (J unmarshal) in
/-- An Ack with the payload `data` answers the event: it was asked for, every handler has
finished, and the results of those that did not mismatch are there, if there are any. -/
structure Answered (r : Request side T) (data : List Value) : Prop where
  asked : 0 ≤ r.pkt.id
  finished : r.Finished
  results : ∀ (j : ℕ) h result, r.handlers[j]? = some h → r.goroutines[j]? = some (.done result) →
    (result = none ↔ side.invoke J unmarshal h r.args = .mismatch)
  blocks : (∃ b ∈ r.blocks, b ≠ []) → r.Concatenates data

omit [DecidableEq T] in
theorem Concatenates.ne_nil_iff {data : List Value} (h : r.Concatenates data) : data ≠ [] ↔ ∃ b ∈ r.blocks, b ≠ [] := by
  obtain ⟨l, hl, rfl⟩ := h
  rw [← hl, ne_eq, List.flatten_eq_nil_iff]
  push Not
  simp only [Multiset.mem_coe]

theorem Sound.finished (h : Sound J unmarshal r) (hwg : r.wg = 0) : ∀ g ∈ r.goroutines, ∃ result, g = .done result := by
  rw [h.wg, List.sum_eq_zero_iff, List.forall_mem_map] at hwg
  exact fun g hg => HandlerStage.eq_done_of_counts (hwg g hg)

theorem Sound.answered (h : Sound J unmarshal r) {data : List Value} (hsent : r.ack = .sent data) :
    Answered J unmarshal r data := by
  obtain ⟨hid, hlen⟩ := h.asked (by rw [hsent]; nofun)
  have hwg := h.waited (by rw [hsent]; nofun) (by rw [hsent]; nofun)
  refine ⟨hid, ⟨hlen, h.finished hwg⟩, fun j x result hx hj => ?_, fun hb => ?_⟩
  · obtain ⟨y, hy, hagree⟩ := h.agrees j _ hj
    obtain rfl : x = y := Option.some.inj (hx.symm.trans hy)
    cases result with
    | none => exact ⟨fun _ => hagree, fun _ => rfl⟩
    | some res =>
      obtain ⟨ins, rest, ho⟩ := hagree
      refine ⟨nofun, fun hmis => ?_⟩
      cases hmis.symm.trans ho
  · rw [h.payload data (.inr hsent) (h.results.ne_nil_iff.mpr hb)]
    exact h.results

theorem payload_of_ne_nil {unknownAck results : List Value} (h : results ≠ []) :
    side.payload unknownAck results = results := by
  cases side with
  | client => rfl
  | server =>
    refine if_neg ?_
    rwa [List.isEmpty_iff]

end Request

namespace Requests

/-- One event moves: what comes of it, of the loop, and of what was sent. -/
inductive Moves (J : Json) (unmarshal : GoType T → Bytes → Option V) (s : Requests side T) (i : ℕ)
    (r : Request side T) : Request side T → EventLoop → List Packet → Prop
  | handlersFor (hloop : s.loop = .handlersFor i) :
      Moves J unmarshal s i r { r with handlers := s.handlers r.pkt.nsp r.name } (.start i) s.out
  | start (hloop : s.loop = .start i) (hlt : r.goroutines.length < r.handlers.length) :
      Moves J unmarshal s i r { r with goroutines := r.goroutines ++ [.invoke], wg := r.wg + 1 } s.loop s.out
  | started (hloop : s.loop = .start i) (hge : ¬ r.goroutines.length < r.handlers.length) :
      Moves J unmarshal s i r { r with ack := if 0 ≤ r.pkt.id then .wait else .idle } .idle s.out
  | handler {j r'} (hr : r.Runs J unmarshal j r') : Moves J unmarshal s i r r' s.loop s.out
  | wait (hack : r.ack = .wait) (hwg : r.wg = 0) :
      Moves J unmarshal s i r { r with ack := .choose } s.loop s.out
  | choose (hack : r.ack = .choose) :
      Moves J unmarshal s i r { r with ack := .send (side.payload (s.unknownAck r.pkt.nsp) r.results) }
        s.loop s.out
  | send {data} (hack : r.ack = .send data) :
      Moves J unmarshal s i r { r with ack := .sent data } s.loop (s.out ++ [r.response data])

/-- The steps that the application or the peer has no part in. -/
def Act.internal : Act side T → Bool
  | .dispatch | .handler .. | .ack _ => true
  | _ => false

inductive Does (J : Json) (unmarshal : GoType T → Bytes → Option V) (s : Requests side T) :
    Act side T → Requests side T → Prop
  | config {a s'} (ha : Act.internal a = false) (hreq : s'.requests = s.requests) (hloop : s'.loop = s.loop)
      (hout : s'.out = s.out) : Does J unmarshal s a s'
  | accept {pkt name args} (hloop : s.loop = .idle) (hdata : pkt.data = .arr (.str name :: args)) :
      Does J unmarshal s (.receive pkt)
        { s with requests := s.requests ++ [{ pkt, name, args }], loop := .handlersFor s.requests.length }
  | move {a i r r' loop out} (hi : s.requests[i]? = some r) (hm : Moves J unmarshal s i r r' loop out) :
      Does J unmarshal s a { s with requests := s.requests.set i r', loop, out }

variable {s s' : Requests side T} {a : Act side T} {i : ℕ} {r r' : Request side T}

theorem step_does (h : s.step J unmarshal a = some s') : Does J unmarshal s a s' := by
  cases a with
  | receive pkt =>
    rw [step] at h
    split at h
    · obtain rfl := Option.some.inj h
      split_ifs
      · exact .accept ‹_› ‹_›
      · exact .config rfl rfl rfl rfl
    · obtain rfl := Option.some.inj h
      exact .config rfl rfl rfl rfl
    · cases h
  | dispatch =>
    rw [step] at h
    split at h
    · cases h
    · obtain ⟨r, hr, rfl⟩ := Option.map_eq_some_iff.mp h
      exact .move hr (.handlersFor ‹_›)
    · rename_i i hloop
      obtain ⟨r, hr, rfl⟩ := Option.map_eq_some_iff.mp h
      by_cases hlt : r.goroutines.length < r.handlers.length
      · rw [dispatchNext, if_pos hlt]
        exact .move hr (.start hloop hlt)
      · rw [dispatchNext, if_neg hlt]
        exact .move hr (.started hloop hlt)
  | handler i j outs =>
    obtain ⟨r, hr, h⟩ := Option.bind_eq_some_iff.mp h
    obtain ⟨r', hr', rfl⟩ := Option.map_eq_some_iff.mp h
    exact .move hr (.handler (Request.handlerNext_runs hr'))
  | ack i =>
    obtain ⟨r, hr, h⟩ := Option.bind_eq_some_iff.mp h
    unfold ackNext at h
    split at h
    · cases h
    · cases h
    · split_ifs at h with hwg
      obtain rfl := Option.some.inj h
      exact .move hr (.wait ‹_› hwg)
    · obtain rfl := Option.some.inj h
      exact .move hr (.choose ‹_›)
    · obtain rfl := Option.some.inj h
      exact .move hr (.send ‹_›)
  | onEvent | setUnknownEventAck | attach | detach =>
    obtain rfl := Option.some.inj h
    exact .config rfl rfl rfl rfl

section Placed

omit [DecidableEq T]

/-- How far the event at `i` is, as far as the loop of the connection is concerned. -/
structure Placed (loop : EventLoop) (i : ℕ) (r : Request side T) : Prop where
  handlersFor : loop = .handlersFor i → r.goroutines = [] ∧ r.ack = .idle
  start : loop = .start i → r.ack = .idle
  dispatched : r.ack = .idle → 0 ≤ r.pkt.id → loop = .handlersFor i ∨ loop = .start i

theorem Placed.other {loop loop' : EventLoop} {k : ℕ} (h : Placed loop k r) (hne : k ≠ i)
    (hloop : loop = .idle ∨ loop = .handlersFor i ∨ loop = .start i)
    (hloop' : loop' = .idle ∨ loop' = .handlersFor i ∨ loop' = .start i) : Placed loop' k r := by
  have hnot : ¬ (loop = .handlersFor k ∨ loop = .start k) := by
    rintro (rfl | rfl) <;> simp [hne] at hloop
  refine ⟨?_, ?_, fun hack hid => absurd (h.dispatched hack hid) hnot⟩
  · rintro rfl
    simp [hne] at hloop'
  · rintro rfl
    simp [hne] at hloop'

end Placed

/-- What holds of the events of a connection in every run. -/
structure Sound (J : Json) (unmarshal : GoType T → Bytes → Option V) (s : Requests side T) : Prop where
  requests : ∀ r ∈ s.requests, r.Sound J unmarshal
  placed : ∀ (i : ℕ) r, s.requests[i]? = some r → Placed s.loop i r
  loop : ∀ i, s.loop = .handlersFor i ∨ s.loop = .start i → i < s.requests.length
  out : (s.out : Multiset Packet) = (s.requests.map Request.acks).sum

theorem sound_empty : Sound J unmarshal ({} : Requests side T) := by
  refine ⟨nofun, nofun, fun i h => ?_, rfl⟩
  rcases h with h | h <;> cases h

/-- One event moves, and the loop with it if it dispatches this event. -/
theorem Sound.move (h : Sound J unmarshal s) {loop : EventLoop} {out : List Packet}
    (hi : s.requests[i]? = some r) (hr : r'.Sound J unmarshal) (hplaced : Placed loop i r')
    (hloop : loop = s.loop ∨ (s.loop = .handlersFor i ∨ s.loop = .start i) ∧ (loop = .idle ∨ loop = .start i))
    (hout : (out : Multiset Packet) + r.acks = (s.out : Multiset Packet) + r'.acks) :
    Sound J unmarshal { s with requests := s.requests.set i r', loop := loop, out := out } := by
  have hlt : i < s.requests.length := (List.getElem?_eq_some_iff.mp hi).1
  refine ⟨forall_set h.requests hr, fun k x hk => ?_, fun k hk => ?_, ?_⟩
  · dsimp only at hk ⊢
    rw [List.getElem?_set] at hk
    split_ifs at hk with hik
    · obtain rfl := Option.some.inj hk
      exact hik ▸ hplaced
    · rcases hloop with rfl | ⟨hold, hnew⟩
      · exact h.placed k x hk
      · exact (h.placed k x hk).other (Ne.symm hik) (.inr hold) (hnew.imp_right .inr)
  · rw [List.length_set]
    rcases hloop with rfl | ⟨-, rfl | rfl⟩
    · exact h.loop k hk
    · rcases hk with hk | hk <;> cases hk
    · rcases hk with hk | hk
      · cases hk
      · cases hk
        exact hlt
  · have hsum := sum_map_set (u := r') Request.acks hi
    rw [← h.out, ← hout] at hsum
    exact (add_right_cancel hsum).symm

theorem Sound.moves (h : Sound J unmarshal s) {loop : EventLoop} {out : List Packet}
    (hi : s.requests[i]? = some r) (hm : Moves J unmarshal s i r r' loop out) :
    Sound J unmarshal { s with requests := s.requests.set i r', loop, out } := by
  have hr := h.requests r (List.mem_of_getElem? hi)
  have hp := h.placed i r hi
  -- the goroutine that acknowledges has been started, so the loop is done with the event
  have hack {ack : AckStage} (hne : r.ack ≠ .idle) (hne' : ack ≠ .idle) :
      Placed s.loop i { r with ack } :=
    ⟨fun hl => absurd (hp.handlersFor hl).2 hne, fun hl => absurd (hp.start hl) hne, fun he => absurd he hne'⟩
  cases hm with
  | handlersFor hloop =>
    obtain ⟨hg, hidle⟩ := hp.handlersFor hloop
    exact h.move hi (hr.handlersFor hg hidle _) ⟨nofun, fun _ => hidle, fun _ _ => .inr rfl⟩
      (.inr ⟨.inl hloop, .inr rfl⟩) rfl
  | start hloop hlt =>
    have hidle := hp.start hloop
    refine h.move hi (hr.start hidle hlt) ⟨fun hl => ?_, fun _ => hidle, hp.dispatched⟩ (.inl rfl) rfl
    cases hl.symm.trans hloop
  | started hloop hge =>
    have hidle := hp.start hloop
    refine h.move hi (hr.started hge) ⟨nofun, nofun, fun he hid => ?_⟩ (.inr ⟨.inr hloop, .inl rfl⟩) ?_
    · dsimp only at he hid
      rw [if_pos hid] at he
      cases he
    · unfold Request.acks
      rw [hidle]
      split_ifs <;> rfl
  | handler hrun =>
    obtain ⟨hack', hpkt, hlen⟩ : r'.ack = r.ack ∧ r'.pkt = r.pkt ∧ r'.goroutines.length = r.goroutines.length := by
      cases hrun <;> exact ⟨rfl, rfl, List.length_set⟩
    refine h.move hi (hr.runs hrun) ⟨fun hl => ?_, fun hl => ?_, ?_⟩ (.inl rfl) ?_
    · obtain ⟨hg, hidle⟩ := hp.handlersFor hl
      rw [hg] at hlen
      exact ⟨List.length_eq_zero_iff.mp hlen, hack'.trans hidle⟩
    · exact hack'.trans (hp.start hl)
    · rw [hack', hpkt]
      exact hp.dispatched
    · unfold Request.acks Request.response
      rw [hack', hpkt]
  | wait hw hwg =>
    refine h.move hi (hr.acknowledge (by rw [hw]; nofun) hwg ?_) (hack (by rw [hw]; nofun) nofun) (.inl rfl) ?_
    · rintro data (hd | hd) <;> cases hd
    · unfold Request.acks
      rw [hw]
  | choose hc =>
    have hwg := hr.waited (by rw [hc]; nofun) (by rw [hc]; nofun)
    refine h.move hi (hr.acknowledge (by rw [hc]; nofun) hwg ?_) (hack (by rw [hc]; nofun) nofun) (.inl rfl) ?_
    · rintro data (hd | hd) hne
      · cases hd
        exact Request.payload_of_ne_nil hne
      · cases hd
    · unfold Request.acks
      rw [hc]
  | @send data hs =>
    have hwg := hr.waited (by rw [hs]; nofun) (by rw [hs]; nofun)
    refine h.move hi (hr.acknowledge (by rw [hs]; nofun) hwg ?_) (hack (by rw [hs]; nofun) nofun) (.inl rfl) ?_
    · rintro data' (hd | hd)
      · cases hd
      · cases hd
        exact hr.payload data (.inl hs)
    · unfold Request.acks
      rw [hs]
      rw [← Multiset.coe_add, add_zero]
      rfl

theorem Sound.step (h : Sound J unmarshal s) (hs : s.step J unmarshal a = some s') : Sound J unmarshal s' := by
  cases step_does hs with
  | config ha hreq hloop hout =>
    exact ⟨by rw [hreq]; exact h.requests, by rw [hreq, hloop]; exact h.placed,
      by rw [hreq, hloop]; exact h.loop, by rw [hreq, hout]; exact h.out⟩
  | @accept pkt name args hloop =>
    refine ⟨List.forall_mem_append.mpr ⟨h.requests, List.forall_mem_singleton.mpr (Request.sound_new ..)⟩,
      fun k x hk => ?_, fun k hk => ?_, ?_⟩
    · dsimp only at hk ⊢
      by_cases hlt : k < s.requests.length
      · rw [List.getElem?_append_left hlt] at hk
        exact (h.placed k x hk).other hlt.ne (.inl hloop) (.inr (.inl rfl))
      · rw [List.getElem?_append_right (not_lt.mp hlt)] at hk
        obtain ⟨hlt', -⟩ := List.getElem?_eq_some_iff.mp hk
        obtain rfl : k = s.requests.length := by
          rw [List.length_singleton] at hlt'
          omega
        rw [List.mem_singleton.mp (List.mem_of_getElem? hk)]
        exact ⟨fun _ => ⟨rfl, rfl⟩, nofun, fun _ _ => .inl rfl⟩
    · rw [List.length_append, List.length_singleton]
      rcases hk with hk | hk
      · cases hk
        exact Nat.lt_succ_self _
      · cases hk
    · rw [List.map_append, List.sum_append, ← h.out]
      exact (add_zero _).symm
  | move hi hm => exact h.moves hi hm

theorem sound_of_run {acts : List (Act side T)}
    (hrun : Run (Requests.step J unmarshal) always ({} : Requests side T) acts s) : Sound J unmarshal s :=
  hrun.invariant (Sound J unmarshal) sound_empty fun _ _ _ h _ hs => h.step hs

section Traces

/-- No other types, and nothing that can be marshalled. -/
def json₀ : Json := ⟨fun _ => none, fun _ => none⟩

def unmarshal₀ : GoType Empty → Bytes → Option Empty := fun _ _ => none

/-- The socket is there, and an event with id 7 comes in for which two handlers
`func(s *Socket)` are registered. -/
def asked : List (Act .server Empty) :=
  [.attach defaultNamespace, .onEvent defaultNamespace [101] [.socket], .onEvent defaultNamespace [101] [.socket],
    .receive { type := .event, id := 7, data := .arr [.str [101]] }, .dispatch, .dispatch, .dispatch, .dispatch]

end Traces

end Requests

end Gosocketio

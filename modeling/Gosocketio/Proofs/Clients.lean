import Gosocketio.Sanity.Session
import Gosocketio.Spec.Clients

/-! The sessions of a server and the map by which requests find them. The map agrees with the
sessions as long as no two live ones have the same id; when they do, it loses one of them. -/

namespace Gosocketio.Engine

open Runs Stacks

namespace State

variable {w w' : State} {a : Act}

theorem registered_step (h : w.step a = some w') :
    (Clients.nextOp w a = some .register ∧ w'.shared.registered = true) ∨
      (Clients.nextOp w a = some .unregister ∧ w'.shared.registered = false) ∨
      (Clients.nextOp w a ≠ some .register ∧ Clients.nextOp w a ≠ some .unregister ∧
        w'.shared.registered = w.shared.registered) := by
  cases step_does h with
  | @go i c op rest ops s new hi hrun =>
    have hnext : Clients.nextOp w (.go i c) = some op := next?_eq_some hi
    rw [hnext]
    by_cases hregister : op = .register
    · subst hregister
      obtain ⟨rfl, -⟩ := run_inj hrun
      exact .inl ⟨rfl, rfl⟩
    · by_cases hunregister : op = .unregister
      · subst hunregister
        obtain ⟨rfl, -⟩ := run_inj hrun
        exact .inr (.inl ⟨rfl, rfl⟩)
      · refine .inr (.inr ⟨by simpa using hregister, by simpa using hunregister, ?_⟩)
        rcases (Session.run_frame hrun).registered with h | h | h
        · exact h
        · exact absurd h hregister
        · exact absurd h hunregister
  | event he => exact .inr (.inr ⟨by simp [Clients.nextOp], by simp [Clients.nextOp], (Session.occurs_outside he).registered⟩)

end State

namespace Clients

variable {s s' : Clients} {l : Act} {ls : List Act}

def Agrees (s : Clients) : Prop :=
  ∀ id k, s.clients.lookup id = some k ↔ ∃ c, s.sessions[k]? = some c ∧ c.id = id ∧ s.isLive k = true

theorem Agrees.count (h : Agrees s) : s.ClientsCount = ((List.range s.sessions.length).filter s.isLive).length := by
  have hmem : ∀ e ∈ s.clients.entries, ∃ c, s.sessions[e.2]? = some c ∧ c.id = e.1 ∧ s.isLive e.2 = true :=
    fun e he => (h e.1 e.2).mp (AList.mem_lookup_iff.mpr he)
  have hnodup : (s.clients.entries.map Sigma.snd).Nodup := by
    refine (List.Nodup.of_map Sigma.fst s.clients.nodupKeys).map_on ?_
    intro e he e' he' heq
    obtain ⟨c, hc, hid, -⟩ := hmem e he
    obtain ⟨c', hc', hid', -⟩ := hmem e' he'
    rw [heq, hc', Option.some.injEq] at hc
    exact Sigma.ext (by rw [← hid, ← hid', hc]) (by rw [heq])
  have hperm : (s.clients.entries.map Sigma.snd).Perm ((List.range s.sessions.length).filter s.isLive) := by
    refine (List.perm_ext_iff_of_nodup hnodup (List.nodup_range.filter _)).mpr fun k => ?_
    rw [List.mem_map, List.mem_filter, List.mem_range]
    constructor
    · rintro ⟨e, he, rfl⟩
      obtain ⟨c, hc, -, hlive⟩ := hmem e he
      exact ⟨(List.getElem?_eq_some_iff.mp hc).1, hlive⟩
    · rintro ⟨hlt, hlive⟩
      obtain ⟨c, hc⟩ : ∃ c, s.sessions[k]? = some c := ⟨_, List.getElem?_eq_getElem hlt⟩
      exact ⟨⟨c.id, k⟩, AList.mem_lookup_iff.mp ((h c.id k).mpr ⟨c, hc, rfl, hlive⟩), rfl⟩
  rw [ClientsCount, ← hperm.length_eq, List.length_map]

section Moved

variable {k j : ℕ} {c : Client} {state : State} {clients : AList (fun _ : String => ℕ)} {id : String}

def moved (s : Clients) (k : ℕ) (c : Client) (state : State) (clients : AList (fun _ : String => ℕ)) : Clients :=
  { clients, sessions := s.sessions.set k { c with state } }

theorem sessions_moved (hk : s.sessions[k]? = some c) :
    (s.moved k c state clients).sessions[k]? = some { c with state } := by
  obtain ⟨hlt, -⟩ := List.getElem?_eq_some_iff.mp hk
  exact List.getElem?_set_self hlt

theorem isLive_moved (hk : s.sessions[k]? = some c) :
    (s.moved k c state clients).isLive k = state.shared.registered := by
  rw [isLive, sessions_moved hk]
  rfl

theorem sessions_moved_ne (hne : k ≠ j) : (s.moved k c state clients).sessions[j]? = s.sessions[j]? :=
  List.getElem?_set_ne hne

theorem isLive_moved_ne (hne : k ≠ j) : (s.moved k c state clients).isLive j = s.isLive j := by
  rw [isLive, sessions_moved_ne hne, isLive]

def Serves (s : Clients) (id : String) (k : ℕ) : Prop :=
  ∃ c, s.sessions[k]? = some c ∧ c.id = id ∧ s.isLive k = true

theorem serves_moved_ne (hne : k ≠ j) : (s.moved k c state clients).Serves id j ↔ s.Serves id j := by
  rw [Serves, sessions_moved_ne hne, isLive_moved_ne hne, Serves]

theorem serves_moved (hk : s.sessions[k]? = some c) :
    (s.moved k c state clients).Serves id k ↔ c.id = id ∧ state.shared.registered = true := by
  rw [Serves, sessions_moved hk, isLive_moved hk]
  simp

theorem serves_self (hk : s.sessions[k]? = some c) :
    s.Serves id k ↔ c.id = id ∧ c.state.shared.registered = true := by
  rw [Serves, isLive, hk]
  simp

theorem serves_moved_of_id (hk : s.sessions[k]? = some c) (hid : id ≠ c.id) :
    (s.moved k c state clients).Serves id j ↔ s.Serves id j := by
  by_cases hj : k = j
  · subst hj
    rw [serves_moved hk, serves_self hk]
    exact iff_of_false (fun h => hid h.1.symm) fun h => hid h.1.symm
  · exact serves_moved_ne hj

end Moved

inductive Move (s : Clients) : Act → Clients → Prop
  | createSocket (id : String) (direct : Bool) (data : Bytes) :
      Move s (.createSocket id direct data)
        { s with sessions := s.sessions ++ [⟨id, State.created direct data⟩] }
  | session {k : ℕ} {a : Engine.Act} {c : Client} {state : State} :
      s.sessions[k]? = some c → c.state.step a = some state →
      Move s (.session k a) (s.moved k c state (s.enroll k c.id (nextOp c.state a)))

theorem move_of_step (h : s.step l = some s') : Move s l s' := by
  cases l with
  | createSocket id direct data =>
    cases h
    exact .createSocket id direct data
  | session k a =>
    rw [step] at h
    split at h
    · cases h
    · obtain ⟨state, hstep, rfl⟩ := Option.map_eq_some_iff.mp h
      exact .session ‹_› hstep

theorem Agrees.createSocket (h : Agrees s) (id : String) (direct : Bool) (data : Bytes) :
    Agrees { s with sessions := s.sessions ++ [⟨id, State.created direct data⟩] } := by
  intro id' k
  rw [h id' k, isLive, isLive, List.getElem?_append]
  split_ifs with hlt
  · rfl
  · rw [List.getElem?_eq_none (not_lt.mp hlt), List.getElem?_singleton]
    split_ifs
    · simp [State.created]
    · rfl

theorem Agrees.session (h : Agrees s) {k : ℕ} {a : Engine.Act} {c : Client} {state : State}
    (hk : s.sessions[k]? = some c) (hstep : c.state.step a = some state) (hdistinct : s.Distinct (.session k a)) :
    Agrees (s.moved k c state (s.enroll k c.id (nextOp c.state a))) := by
  intro id j
  change (s.enroll k c.id (nextOp c.state a)).lookup id = some j ↔ Serves _ id j
  have hold : s.clients.lookup id = some j ↔ s.Serves id j := h id j
  rcases State.registered_step hstep with ⟨hop, hreg⟩ | ⟨hop, hreg⟩ | ⟨hregister, hunregister, hreg⟩
  · have halone := hdistinct c hk (.inl hop)
    rw [hop, enroll]
    by_cases hid : id = c.id
    · subst hid
      rw [AList.lookup_insert, Option.some.injEq]
      constructor
      · rintro rfl
        exact (serves_moved hk).mpr ⟨rfl, hreg⟩
      · intro hserves
        by_contra hne
        obtain ⟨d, hd, hdid, hlive⟩ := (serves_moved_ne hne).mp hserves
        exact hne (halone j d hd hdid hlive).symm
    · rw [AList.lookup_insert_ne hid, hold, serves_moved_of_id hk hid]
  · have halone := hdistinct c hk (.inr hop)
    rw [hop, enroll]
    by_cases hid : id = c.id
    · subst hid
      rw [AList.lookup_erase]
      constructor
      · intro hnone
        cases hnone
      · intro hserves
        by_cases hj : k = j
        · subst hj
          rw [serves_moved hk, hreg] at hserves
          cases hserves.2
        · obtain ⟨d, hd, hdid, hlive⟩ := (serves_moved_ne hj).mp hserves
          exact absurd (halone j d hd hdid hlive).symm hj
    · rw [AList.lookup_erase_ne hid, hold, serves_moved_of_id hk hid]
  · have hsame : s.enroll k c.id (nextOp c.state a) = s.clients := by
      unfold enroll
      split
      · exact absurd ‹_› hregister
      · exact absurd ‹_› hunregister
      · rfl
    rw [hsame, hold]
    by_cases hj : k = j
    · subst hj
      rw [serves_moved hk, serves_self hk, hreg]
    · exact (serves_moved_ne hj).symm

theorem Agrees.step (h : Agrees s) (hdistinct : s.Distinct l) (hs : s.step l = some s') : Agrees s' := by
  cases move_of_step hs with
  | createSocket id direct data => exact h.createSocket id direct data
  | session hk hstep => exact h.session hk hstep hdistinct

/-- Two live sessions with one id: the map has room for one of them. -/
theorem not_agrees (hbad : ¬ s.Distinct l) (hs : s.step l = some s') : ¬ Agrees s' := by
  cases move_of_step hs with
  | createSocket => exact absurd trivial hbad
  | @session k a c state hk hstep =>
    simp only [Distinct, not_forall] at hbad
    obtain ⟨c', hk', hop, j, d, hd, hid, hlive, hne⟩ := hbad
    obtain rfl : c' = c := Option.some.inj (hk'.symm.trans hk)
    intro hagrees
    have hserves : (s.moved k c' state (s.enroll k c'.id (nextOp c'.state a))).Serves c'.id j :=
      (serves_moved_ne (Ne.symm hne)).mpr ⟨d, hd, hid, hlive⟩
    have hlookup : (s.enroll k c'.id (nextOp c'.state a)).lookup c'.id = some j := (hagrees c'.id j).mpr hserves
    rcases hop with hop | hop
    · rw [hop, enroll, AList.lookup_insert, Option.some.injEq] at hlookup
      exact hne hlookup.symm
    · rw [hop, enroll, AList.lookup_erase] at hlookup
      cases hlookup

theorem agrees_initial : Agrees {} := by
  intro id k
  simp [AList.lookup_empty]

/-- In a run of any sessions, interleaved in any way, `clients` finds every live session by its id
and nothing else, and `ClientsCount` is the number of live sessions, in every state, if and only
if no session is registered or removed while another live one has the same id. -/
theorem clients_exact_iff (h : Run step always {} ls s) :
    (∀ ls₁ s₁, ls₁ <+: ls → Run step always {} ls₁ s₁ → Exact s₁) ↔
      Run step (fun s l => always s l ∧ s.Distinct l) {} ls s := by
  refine h.exact_iff Agrees Exact Distinct agrees_initial (fun s hI => ⟨hI, hI.count⟩) ?_ ?_
  · intro s l s' hI _ hdistinct hs
    exact hI.step hdistinct hs
  · intro s l s' _ _ hbad hs hexact
    exact not_agrees hbad hs hexact.lookup

section NonVacuity

def arrivals : List Act :=
  [.createSocket "a" true [], .session 0 (.go 0 .next), .createSocket "b" false [], .session 0 (.go 0 .next),
    .session 1 (.go 0 .next)]

theorem arrivals_isSome : (exec step always {} arrivals).isSome = true := by decide +kernel

theorem clients_exact_iff_arrivals : ∃ s, Run step always {} arrivals s ∧
      ((∀ ls₁ s₁, ls₁ <+: arrivals → Run step always {} ls₁ s₁ → Exact s₁) ↔
        Run step (fun s l => always s l ∧ s.Distinct l) {} arrivals s) :=
  ⟨_, run_of_isSome arrivals_isSome, clients_exact_iff (run_of_isSome arrivals_isSome)⟩

end NonVacuity

end Clients

end Gosocketio.Engine

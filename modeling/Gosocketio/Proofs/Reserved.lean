import Gosocketio.Proofs.Decoding
import Gosocketio.Sanity.Requests
import Gosocketio.Spec.Inbound

/-! Reserved events. Their names are refused when a header is decoded, and nothing that happens
to a packet after that gives it another name. -/

namespace Gosocketio

open Runs

variable {side : Side} {T V : Type} [DecidableEq T] {J : Json} {unmarshal : GoType T → Bytes → Option V}

theorem not_reserved_of_decode {data : Bytes} {p : Packet} (h : decode J data = .ok p) :
    p.Names fun name => isReservedEvent name = false := by
  intro ht name hname
  obtain ⟨i, -, -, -, hdata⟩ := decode_ok h
  rcases decodeData_ok hdata with hnull | ⟨-, hvalid⟩
  · rw [hnull] at hname
    cases hname
  · exact not_reserved_of_validatePayload ht hvalid hname

omit [DecidableEq T] in
theorem Request.name_of_started {r : Request side T} {x : Started side T} (h : x ∈ r.started) : x.name = r.name := by
  rcases List.mem_append.mp h with h | h
  · split_ifs at h
    · obtain rfl := List.mem_singleton.mp h
      rfl
    · cases h
  · obtain ⟨f, -, rfl⟩ := List.mem_map.mp h
    rfl

namespace Requests

variable {s s' : Requests side T} {a : Act side T} {P : Bytes → Prop}

theorem Moves.name {i : ℕ} {r r' : Request side T} {loop : EventLoop} {out : List Packet}
    (h : Moves J unmarshal s i r r' loop out) : r'.name = r.name := by
  cases h with
  | handler hr => cases hr <;> rfl
  | _ => rfl

theorem names_step (h : ∀ r ∈ s.requests, P r.name)
    (hreceive : ∀ pkt, a = .receive pkt → ∀ name, eventName? pkt.data = some name → P name)
    (hs : s.step J unmarshal a = some s') : ∀ r ∈ s'.requests, P r.name := by
  cases step_does hs with
  | config ha hreq hloop hout =>
    rw [hreq]
    exact h
  | @accept pkt name args hloop hdata =>
    refine List.forall_mem_append.mpr ⟨h, List.forall_mem_singleton.mpr ?_⟩
    exact hreceive pkt rfl name (by rw [hdata]; rfl)
  | @move _ i r r' loop out hi hm =>
    refine fun q hq => (List.mem_or_eq_of_mem_set hq).elim (h q) ?_
    rintro rfl
    rw [hm.name]
    exact h r (List.mem_of_getElem? hi)

end Requests

namespace Inbound

variable {s s' : Inbound side T} {a : Act side T} {P : Bytes → Prop}

/-- `P` holds of the names of the events, also of the one that waits for its buffers. -/
structure Named (P : Bytes → Prop) (s : Inbound side T) : Prop where
  pending : ∀ rec, s.recon = some rec → rec.pkt.Names P
  requests : ∀ r ∈ s.events.requests, P r.name

omit [DecidableEq T] in
theorem named_empty : Named P ({} : Inbound side T) := by
  refine ⟨fun rec hrec => ?_, fun r hr => ?_⟩
  · cases hrec
  · cases hr

theorem Named.process {recon : Option Reconstructor} {out : Option Packet} (h : Named P s)
    (hrecon : ∀ rec, recon = some rec → rec.pkt.Names P) (hout : ∀ pkt, out = some pkt → pkt.Names P)
    (hs : s.process J unmarshal recon out = some s') : Named P s' := by
  cases out with
  | none =>
    obtain rfl := Option.some.inj hs
    exact ⟨hrecon, h.requests⟩
  | some pkt =>
    rw [Inbound.process] at hs
    split_ifs at hs with ht
    · obtain ⟨events, hevents, rfl⟩ := Option.map_eq_some_iff.mp hs
      refine ⟨hrecon, Requests.names_step h.requests ?_ hevents⟩
      rintro _ ⟨rfl⟩ name hname
      exact hout pkt rfl (by rw [ht]; rfl) name hname
    · obtain rfl := Option.some.inj hs
      exact ⟨hrecon, h.requests⟩

theorem Named.step (hP : ∀ data p, decode J data = .ok p → p.Names P) (h : Named P s)
    (hs : s.step J unmarshal a = some s') : Named P s' := by
  cases a with
  | frame m =>
    rw [Inbound.step] at hs
    split_ifs at hs
    obtain ⟨hpending, hout⟩ := names_handleIn (m := m) hP h.pending
    exact h.process hpending hout hs
  | event a =>
    cases a with
    | receive pkt => cases hs
    | _ =>
      simp only [Inbound.step] at hs
      obtain ⟨events, hevents, rfl⟩ := Option.map_eq_some_iff.mp hs
      refine ⟨h.pending, Requests.names_step h.requests (fun _ ha => ?_) hevents⟩
      cases ha

/-- Whatever messages a connection receives, no hook and no handler is started for an event with
a reserved name. -/
theorem reserved_never_started {acts : List (Act side T)} (hrun : Run (step J unmarshal) always {} acts s) :
    ∀ r ∈ s.events.requests, ∀ x ∈ r.started, x.name ∉ reservedEvents := by
  have hnamed : Named (fun name => isReservedEvent name = false) s := by
    refine hrun.invariant (Named fun name => isReservedEvent name = false) named_empty fun _ _ _ h _ hs => ?_
    exact h.step (fun _ _ hdec => not_reserved_of_decode hdec) hs
  intro r hr x hx hmem
  have hname := hnamed.requests r hr
  rw [← Request.name_of_started hx, isReservedEvent, List.contains_iff_mem.mpr hmem] at hname
  cases hname

section NonVacuity

open Requests (unmarshal₀)

def disconnectName : Bytes := [100, 105, 115, 99, 111, 110, 110, 101, 99, 116]

/-- The namespace has a socket and a handler for the reserved name. That event comes as a plain
one and as the header of one with a buffer, and then another one with a buffer. -/
def hostile : List (Act .server Empty) :=
  let forged : Value := .arr [.str disconnectName, .placeholder 0]
  let honest : Value := .arr [.str [97], .placeholder 0]
  [.event (.attach defaultNamespace), .event (.onEvent defaultNamespace disconnectName [.socket]),
    .event (.onEvent defaultNamespace [97] [.socket, .any]),
    .frame ⟨encode NonVacuity.textJson { type := .event, data := .arr [.str disconnectName] }, false⟩,
    .frame ⟨encode NonVacuity.textJson { type := .binaryEvent, data := forged, attachments := 1 }, false⟩,
    .frame ⟨[1], true⟩,
    .frame ⟨encode NonVacuity.textJson { type := .binaryEvent, data := honest, attachments := 1 }, false⟩,
    .frame ⟨[2], true⟩, .event .dispatch, .event .dispatch]

theorem hostile_runs : (exec (step NonVacuity.textJson unmarshal₀) always {} hostile).isSome = true := by
  decide +kernel

theorem reserved_never_started_hostile : ∃ s : Inbound .server Empty,
    s.events.requests.map (fun r => r.started.map Started.name) = [[[97], [97]]] ∧
      ∀ r ∈ s.events.requests, ∀ x ∈ r.started, x.name ∉ reservedEvents :=
  ⟨(exec (step NonVacuity.textJson unmarshal₀) always {} hostile).get hostile_runs, by decide +kernel,
    reserved_never_started (run_of_isSome hostile_runs)⟩

end NonVacuity

end Inbound

end Gosocketio

import Gosocketio.Sanity.Requests

/-! Every event that asks for an acknowledgement gets exactly one. -/

namespace Gosocketio.Requests

open Runs Pool

variable {side : Side} {T V : Type} [DecidableEq T] {J : Json} {unmarshal : GoType T → Bytes → Option V}
  {s s' : Requests side T} {a : Act side T} {i : ℕ} {r r' : Request side T} {out : List Packet}

section Progress

variable (J unmarshal) in
def Quiet (s : Requests side T) : Prop := ∀ a, Act.internal a = true → s.step J unmarshal a = none

theorem Quiet.counts (h : s.Quiet J unmarshal) (hi : s.requests[i]? = some r) {g : HandlerStage}
    (hg : g ∈ r.goroutines) (hne : g ≠ .invoke) : g.counts = 0 := by
  obtain ⟨j, hj⟩ := List.mem_iff_getElem?.mp hg
  have hnone := h (.handler i j []) rfl
  rw [Requests.step, hi, Option.bind_some, Option.map_eq_none_iff, Request.handlerNext, hj] at hnone
  cases g with
  | invoke => exact absurd rfl hne
  | onError | append | finish => cases hnone
  | done result => rfl

end Progress

section Work

end Work

section Received

/-- Which namespaces have a socket, and which events count: those with a name that, on the
server, find the socket of their namespace. -/
def listen : (Bytes → Bool) × List Packet → Act side T → (Bytes → Bool) × List Packet
  | (sockets, pkts), .receive pkt =>
    match pkt.data with
    | .arr (.str _ :: _) => (sockets, if side = .client || sockets pkt.nsp then pkts ++ [pkt] else pkts)
    | _ => (sockets, pkts)
  | (sockets, pkts), .attach nsp => (Function.update sockets nsp true, pkts)
  | (sockets, pkts), .detach nsp => (Function.update sockets nsp false, pkts)
  | known, _ => known

def received (acts : List (Act side T)) : List Packet := (acts.foldl listen (fun _ => false, [])).2

/-- The request is what the packet says, and its handlers are registered ones. -/
structure Genuine (s : Requests side T) (r : Request side T) : Prop where
  data : r.pkt.data = .arr (.str r.name :: r.args)
  handlers : r.handlers <+: s.handlers r.pkt.nsp r.name

theorem Moves.pkt {loop : EventLoop} (hm : Moves J unmarshal s i r r' loop out) :
    r'.pkt = r.pkt ∧ r'.name = r.name ∧ r'.args = r.args ∧
    (r'.handlers = r.handlers ∨ r'.handlers = s.handlers r.pkt.nsp r.name) := by
  cases hm with
  | handlersFor => exact ⟨rfl, rfl, rfl, .inr rfl⟩
  | start | started | wait | choose | send => exact ⟨rfl, rfl, rfl, .inl rfl⟩
  | handler hr => cases hr <;> exact ⟨rfl, rfl, rfl, .inl rfl⟩

end Received

section NonVacuity

def returned : List (Act .server Empty) :=
  [.handler 0 1 [.value (.bool true)], .handler 0 0 [.value (.bool false)], .handler 0 1 [], .handler 0 0 [],
    .handler 0 0 [], .handler 0 1 [], .ack 0, .ack 0, .ack 0]

end NonVacuity

end Gosocketio.Requests

import Gosocketio.Proofs.BodyGate

/-! POST requests for a session that has left polling. `handlePolling` would hand them to
the polling transport, which the session keeps, but `verify` comes first and asks for the
transport that is active. -/

namespace Gosocketio

open Strconv Transport

namespace Http

variable {o : Options} {now : ℕ → Server} {r : Request} {x : SocketRef} {p : PortRef} {body : Bytes}
  {pkts : List Packet}

/-- A polling POST for a session, with a body that can be decoded. -/
structure WellFormed (r : Request) (body : Bytes) (pkts : List Packet) : Prop where
  method : r.method = .post
  transport : r.transport = "polling"
  eio : r.eio = "4"
  sid : r.sid ≠ ""
  read : r.body = some body
  decoded : decodePayload body = (pkts, none)

/-- The session began on polling and stays registered: its active transport is the polling
transport or the websocket it was upgraded to. -/
structure Stays (now : ℕ → Server) (sid : String) (x : SocketRef) (p : PortRef) : Prop where
  registered : ∀ k, (now k).clients sid = some x
  retained : ∀ k, ((now k).sockets x).pollingTport = some p
  transport : ∀ k, ((now k).sockets x).transport = .polling p ∨ ((now k).sockets x).transport = .websocket

def port (now : ℕ → Server) (x : SocketRef) (p : PortRef) : DataPort :=
  match ((now 3).sockets x).transport with
  | .polling _ => (now 4).ports p
  | .websocket => (now 5).ports p

theorem handlePolling_of_verify (h : Stays now r.sid x p) (hsid : r.sid ≠ "") (hv : verify o now r false = none) :
    handlePolling o now r = servePolling (port now x p) r := by
  unfold handlePolling port
  rw [hv]
  rw [if_neg hsid, h.registered]
  dsimp only
  rcases h.transport 3 with ht | ht
  · rw [ht]
  · rw [ht, h.retained]

theorem verify_eq (h : Stays now r.sid x p) (hpolling : "polling" ∈ o.transports) (hr : WellFormed r body pkts) :
    verify o now r false =
      if ((now 1).sockets x).transport = .websocket then some .badRequest else none := by
  unfold verify
  rw [if_neg (not_not.mpr hr.eio), if_neg (not_not.mpr (by rw [hr.transport]; exact hpolling)), if_pos hr.sid,
    h.registered]
  dsimp only
  rcases h.transport 1 with ht | ht
  · rw [ht, hr.transport, if_neg (fun hne => hne.2 rfl), if_neg nofun]
  · rw [ht, hr.transport, if_pos (by decide), if_pos rfl]

/-- The polling transport takes the packets unless it has another POST, does not like the
content type, or has the one limit with which it reads nothing. -/
theorem onDataRequest_eq {q : DataPort} (hr : WellFormed r body pkts) (hfits : body.length ≤ q.maxBufferSize) :
    onDataRequest q r = .data 200 pkts none ↔
      q.dataReq = false ∧ r.isOctetStream = false ∧ (q.maxBufferSize < maxInt64 ∨ body = []) := by
  by_cases hadmitted : q.dataReq = false ∧ r.isOctetStream = false
  · have h : Admitted q r body := ⟨hadmitted.1, hadmitted.2, hr.read⟩
    rw [and_iff_right hadmitted.1, and_iff_right hadmitted.2, ← exact_iff (by omega) h, Exact,
      if_neg (not_lt.mpr hfits), hr.decoded]
    rfl
  · obtain ⟨err, herr⟩ := onDataRequest_not_admitted (p := q) (r := r) fun _ h => hadmitted ⟨h.idle, h.text⟩
    rw [herr]
    refine iff_of_false (fun h => ?_) fun h => hadmitted ⟨h.1, h.2.1⟩
    cases h

/-- A polling POST for a session that began on polling is delivered and answered with 200
exactly if the session was still on polling when `verify` looked, the polling transport
has no other POST, the content type is not that of a binary body, and the limit is not the
largest `int64`, with which no body is read. -/
theorem late_post_served_iff (h : Stays now r.sid x p) (hpolling : "polling" ∈ o.transports)
    (hr : WellFormed r body pkts) (hfits : body.length ≤ (port now x p).maxBufferSize) :
    serveHTTP o now r = .data 200 pkts none ↔
      ((now 1).sockets x).transport = .polling p ∧ (port now x p).dataReq = false ∧
        r.isOctetStream = false ∧ ((port now x p).maxBufferSize < maxInt64 ∨ body = []) := by
  rw [serveHTTP, if_pos hr.transport]
  have hv := verify_eq h hpolling hr
  rcases h.transport 1 with ht | ht
  · rw [ht, if_neg nofun] at hv
    rw [handlePolling_of_verify h hr.sid hv, servePolling, hr.method]
    dsimp only
    rw [onDataRequest_eq hr hfits, ht, and_iff_right rfl]
  · rw [ht, if_pos rfl] at hv
    rw [handlePolling, hv, ht]
    exact ⟨nofun, nofun⟩

section NonVacuity

def server (t : Tport) : Server where
  clients := fun sid => if sid = "x" then some 0 else none
  sockets := fun _ => { transport := t, pollingTport := some 0 }
  ports := fun _ => { maxBufferSize := 100 }

def hi : Request :=
  { method := .post, transport := "polling", eio := "4", sid := "x", body := some [52, 104, 105] }

def bothTransports : Options := { transports := ["polling", "websocket"] }

/-- The session leaves polling between `verify` and the second look. -/
def racing : ℕ → Server
  | 0 | 1 | 2 => server (.polling 0)
  | _ => server .websocket

theorem wellFormed_hi : WellFormed hi [52, 104, 105] [{ type := .message, data := [104, 105] }] :=
  ⟨rfl, rfl, rfl, by decide, rfl, by decide +kernel⟩

theorem stays_racing : Stays racing hi.sid 0 0 := by
  refine ⟨fun k => ?_, fun k => ?_, fun k => ?_⟩
  · unfold racing
    split <;> rfl
  · unfold racing
    split <;> rfl
  · unfold racing
    split
    · exact .inl rfl
    · exact .inl rfl
    · exact .inl rfl
    · exact .inr rfl

theorem late_post_served_iff_racing :
    serveHTTP bothTransports racing hi = .data 200 [{ type := .message, data := [104, 105] }] none :=
  (late_post_served_iff stays_racing (by decide) wellFormed_hi (by decide +kernel)).mpr
    ⟨rfl, rfl, by decide +kernel, .inl (by decide)⟩

/-- The upgrade is complete, and the POST comes in: `Bad request`. -/
theorem upgraded_session_refuses_post : ¬ ∀ (o : Options) (now : ℕ → Server) (r : Request) (x : SocketRef)
    (p : PortRef) (body : Bytes) (pkts : List Packet), "polling" ∈ o.transports → Stays now r.sid x p →
    (∀ k, ((now k).sockets x).transport = .websocket) → WellFormed r body pkts →
    body.length ≤ (port now x p).maxBufferSize → serveHTTP o now r = .data 200 pkts none := by
  intro h
  have hserved := h bothTransports (fun _ => server .websocket) hi 0 0 _ _ (by decide)
    ⟨fun _ => rfl, fun _ => rfl, fun _ => .inr rfl⟩ (fun _ => rfl) wellFormed_hi (by decide +kernel)
  revert hserved
  decide +kernel

end NonVacuity

end Http

end Gosocketio

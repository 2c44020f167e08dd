import Gosocketio.Proofs.BodyGate
import Gosocketio.Spec.Reports

/-! How a malformed packet is reported. A websocket hands the error of `DecodePacket` on as it is;
`DecodePayloadWithLimit` puts its own sentinel in the place of the one it found. -/

namespace Gosocketio

open Runs Transport

variable {r : Report} {data : Bytes}

section Errors

theorem toErr_is_transportInvalidPacket (e : PacketError) : e.toErr.is .transportInvalidPacket = true := by
  cases e <;> rfl

theorem wrapInvalidPacket_packet (e : PacketError) :
    wrapInvalidPacket e.toErr = .wrap .invalidPacket e.toErr := by
  rw [wrapInvalidPacket, if_pos (toErr_is_transportInvalidPacket e)]

/-- The error of a payload is not recognized, whatever packet error it is made of. -/
theorem wrapInvalidPacket_invalid (e : PacketError) :
    wrapInvalidPacket (PayloadError.invalid e).toErr = .wrap .invalidPayload e.toErr := rfl

end Errors

section Malformed

def Rejected (b : Bytes) : Prop := ∃ e, decodePacket b false = .error e

/-- A payload in which such a text comes after well-formed parts. -/
def Spoiled (body : Bytes) : Prop :=
  ∃ good pkts bad rest, parts body = good ++ bad :: rest ∧ Decodes good pkts ∧ Rejected bad

theorem Spoiled.decodePayload {body : Bytes} (h : Spoiled body) :
    ∃ e, (decodePayload body).2 = some (.invalid e) := by
  obtain ⟨good, pkts, bad, rest, hparts, hgood, e, hbad⟩ := h
  refine ⟨e, ?_⟩
  rw [decodePayload_eq, hparts, decodeEach_append hgood, decodeEach, hbad]

/-- A malformed packet is in what arrives; of a POST, in what the size gate lets pass. -/
def Arrival.Malformed : Arrival → Prop
  | .frame data => Rejected data
  | .post p r => ∃ body, Http.Admitted p r body ∧ (p.readAll body).length ≤ p.maxBufferSize ∧
      Spoiled (p.readAll body)
  | .payload body => Spoiled body
  | .other => False

theorem error_frame (h : Rejected data) :
    ∃ e : PacketError, (Arrival.frame data).error = some e.toErr := by
  obtain ⟨e, he⟩ := h
  exact ⟨e, by rw [Arrival.error, he]⟩

theorem error_of_not_frame {a : Arrival} (h : a.Malformed) (ha : ∀ data, a ≠ .frame data) :
    ∃ e, a.error = some (PayloadError.invalid e).toErr := by
  cases a with
  | frame data => exact absurd rfl (ha data)
  | post p r =>
    obtain ⟨body, hadmitted, hfits, hspoiled⟩ := h
    obtain ⟨e, he⟩ := hspoiled.decodePayload
    refine ⟨e, ?_⟩
    rw [Arrival.error, Http.onDataRequest_admitted hadmitted, if_neg (not_lt.mpr hfits)]
    revert he
    rcases decodePayload (p.readAll body) with ⟨pkts, err⟩
    rintro rfl
    rfl
  | payload body =>
    obtain ⟨e, he⟩ := Spoiled.decodePayload h
    refine ⟨e, ?_⟩
    change (decodePayload body).2.map PayloadError.toErr = _
    rw [he]
    rfl
  | other => exact h.elim

/-- What `onClose` gets is the error of what arrived, as `wrapInvalidPacket` leaves it. -/
def Report.Faithful (r : Report) : Prop :=
  r.arrival = .other ∨ r.err = r.arrival.error.map wrapInvalidPacket

theorem Report.Faithful.is_invalidPacket_iff (h : r.Faithful) (hm : r.arrival.Malformed) :
    r.is .invalidPacket = true ↔ ∃ data, r.arrival = .frame data := by
  have herr : r.err = r.arrival.error.map wrapInvalidPacket := by
    rcases h with h | h
    · rw [h] at hm
      exact hm.elim
    · exact h
  rw [Report.is, herr]
  constructor
  · intro his
    by_contra hframe
    obtain ⟨e, he⟩ := error_of_not_frame hm fun data hdata => hframe ⟨data, hdata⟩
    rw [he, Option.map_some, wrapInvalidPacket_invalid] at his
    simp [Err.is, Err.chain, Sentinel.chain] at his
  · rintro ⟨data, hdata⟩
    rw [hdata] at hm ⊢
    obtain ⟨e, he⟩ := error_frame hm
    rw [he, Option.map_some, wrapInvalidPacket_packet]
    rfl

end Malformed

/-- A session that was closed because of a malformed packet was closed with an error for which
`errors.Is` finds `engineio.ErrInvalidPacket`. -/
def ReportedAlike (closed : Option Report) : Prop :=
  ∀ r, closed = some r → r.arrival.Malformed → r.is .invalidPacket = true

/-- If the session was closed because of this, it is so exactly if it was a frame. -/
def ReportedByFrame (arrival : Arrival) (closed : Option Report) : Prop :=
  ∀ r, closed = some r → r.arrival = arrival →
    (r.is .invalidPacket = true ↔ ∃ data, arrival = .frame data)

/-- A report before `onErrorFrom`. -/
def Report.Genuine (r : Report) : Prop := r.arrival = .other ∨ r.err = r.arrival.error

theorem Report.Genuine.wrapped (h : r.Genuine) : r.wrapped.Faithful := by
  refine h.imp_right fun herr => ?_
  rw [Report.wrapped, herr]

theorem genuine_frame {e : PacketError} (h : decodePacket data false = .error e) :
    Report.Genuine ⟨.frame data, some e.toErr⟩ := by
  refine .inr ?_
  rw [Arrival.error, h]

namespace Engine.Reported

variable {R R' : Reported} {a : Act}

/-- Everything a step can do: it is a step of the session, and besides that nothing, or a goroutine
has an error to report, or it may come to `closeWithReason`. -/
theorem step_cases (hs : R.step a = some R') : ∃ b, R.state.step b = some R'.state ∧
    (R'.pending = R.pending ∧ R'.closed = R.closed ∨
      (∃ i r, r.Genuine ∧ R'.pending = Function.update R.pending i r ∧ R'.closed = R.closed) ∨
      ∃ i c, a = .go i c ∧ R'.closed = (R.closing i).or R.closed ∧
        R'.pending = (R.failure i).elim R.pending fun e => Function.update R.pending i { err := some e }) := by
  have hplain {b : Engine.Act} (h : (R.state.step b).map (fun state => { R with state }) = some R') :
      R.state.step b = some R'.state ∧ R'.pending = R.pending ∧ R'.closed = R.closed := by
    obtain ⟨state, hstate, rfl⟩ := Option.map_eq_some_iff.mp h
    exact ⟨hstate, rfl, rfl⟩
  have hact {b : Engine.Act} {i : ℕ} {r : Report} (h : R.act b i r = some R') :
      R.state.step b = some R'.state ∧ R'.pending = Function.update R.pending i r ∧ R'.closed = R.closed := by
    obtain ⟨state, hstate, rfl⟩ := Option.map_eq_some_iff.mp h
    exact ⟨hstate, rfl, rfl⟩
  cases a with
  | frame i data =>
    simp only [step, Option.ite_none_right_eq_some] at hs
    obtain ⟨-, hs⟩ := hs
    cases hd : decodePacket data false with
    | ok p =>
      rw [hd] at hs
      exact ⟨_, (hplain hs).1, .inl (hplain hs).2⟩
    | error e =>
      rw [hd] at hs
      exact ⟨_, (hact hs).1, .inr (.inl ⟨i, _, genuine_frame hd, (hact hs).2⟩)⟩
  | binary i data =>
    simp only [step, Option.ite_none_right_eq_some] at hs
    exact ⟨_, (hplain hs.2).1, .inl (hplain hs.2).2⟩
  | post p r =>
    simp only [step] at hs
    split at hs
    · rename_i status pkts e he
      have hgenuine : Report.Genuine ⟨.post p r, some e.toErr⟩ := by
        refine .inr ?_
        rw [Arrival.error, he]
        rfl
      exact ⟨_, (hact hs).1, .inr (.inl ⟨_, _, hgenuine, (hact hs).2⟩)⟩
    · exact ⟨_, (hplain hs).1, .inl (hplain hs).2⟩
    · cases hs
  | go i c =>
    simp only [step, Option.ite_none_right_eq_some] at hs
    obtain ⟨state, hstate, rfl⟩ := Option.map_eq_some_iff.mp hs.2
    exact ⟨_, hstate, .inr (.inr ⟨i, c, rfl, rfl, rfl⟩)⟩
  | event e =>
    simp only [step, Option.ite_none_right_eq_some] at hs
    obtain ⟨-, hs⟩ := hs
    split_ifs at hs
    · exact ⟨_, (hact hs).1, .inr (.inl ⟨_, _, .inl rfl, (hact hs).2⟩)⟩
    · exact ⟨_, (hplain hs).1, .inl (hplain hs).2⟩

/-- No report is confused with another. -/
structure Sincere (R : Reported) : Prop where
  pending : ∀ i, (R.pending i).Genuine
  closed : ∀ r, R.closed = some r → r.Faithful

theorem Sincere.closing {i : ℕ} (h : Sincere R) (hr : R.closing i = some r) : r.Faithful := by
  unfold Reported.closing at hr
  split at hr
  · split_ifs at hr
    rw [← Option.some.inj hr]
    split
    · exact (h.pending i).wrapped
    · exact .inl rfl
    · exact .inl rfl
    · exact .inl rfl
    · exact .inl rfl
  · cases hr

theorem Sincere.step (h : Sincere R) (hs : R.step a = some R') : Sincere R' := by
  have hupdate {i : ℕ} {r : Report} (hr : r.Genuine) (j : ℕ) : (Function.update R.pending i r j).Genuine := by
    by_cases hj : j = i
    · subst hj
      rwa [Function.update_self]
    · rw [Function.update_of_ne hj]
      exact h.pending j
  obtain ⟨b, -, ⟨hp, hc⟩ | ⟨i, r, hr, hp, hc⟩ | ⟨i, c, -, hc, hp⟩⟩ := step_cases hs
  · exact ⟨fun j => hp ▸ h.pending j, fun r hr => h.closed r (hc ▸ hr)⟩
  · exact ⟨fun j => hp ▸ hupdate hr j, fun r hr => h.closed r (hc ▸ hr)⟩
  · refine ⟨fun j => ?_, fun r hr => ?_⟩
    · rw [hp]
      cases R.failure i with
      | none => exact h.pending j
      | some e => exact hupdate (.inl rfl) j
    · rw [hc, Option.or_eq_some_iff] at hr
      rcases hr with hr | ⟨-, hr⟩
      · exact h.closing hr
      · exact h.closed r hr

theorem sincere_created (direct : Bool) (data : Bytes) : Sincere (created direct data) :=
  ⟨fun _ => .inl rfl, fun _ hr => by cases hr⟩

/-- The session listens to where the packet arrives: to the websocket of a read loop, or to the
polling transport. -/
def Attends (R : Reported) : Arrival → Prop
  | .frame _ => R.state.shared.readyState ≠ .closed ∧ ∃ (i k : ℕ) (rest : List Op),
      R.state.tasks[i]? = some (Op.read k :: rest) ∧ R.state.shared.gone k = false ∧
        R.state.shared.handler k = some .transportBinding ∧ R.state.shared.heeds (.websocket k) = true
  | .post .. => R.state.shared.readyState ≠ .closed ∧ R.state.shared.pollingTport = true ∧
      R.state.shared.heeds .polling = true
  | _ => False

section Closes

variable {i : ℕ} {op : Op} {ops bs : List Op} {s : Session} {new : List (List Op)}

theorem exists_step {w : State} {c : Choice} (hi : w.tasks[i]? = some (op :: ops))
    (hrun : w.shared.run c op = some (s, bs, new)) :
    ∃ w', w.step (.go i c) = some w' ∧ w'.shared = s ∧ w'.tasks[i]? = some (bs ++ ops) := by
  change ∃ w', Stacks.go (fun s => s.run c) w i = some w' ∧ _
  exact Stacks.exists_go hi hrun

theorem exists_go (hi : R.state.tasks[i]? = some (op :: ops))
    (hrun : R.state.shared.run .next op = some (s, bs, new)) :
    ∃ R', R.step (.go i .next) = some R' ∧ R'.state.shared = s ∧ R'.state.tasks[i]? = some (bs ++ ops) ∧
      R'.closed = (R.closing i).or R.closed ∧ (R.failure i = none → R'.pending = R.pending) := by
  obtain ⟨w, hstep, hshared, htasks⟩ := exists_step hi hrun
  let R₁ : Reported :=
    { state := w
      pending := (R.failure i).elim R.pending fun e => Function.update R.pending i { err := some e }
      closed := (R.closing i).or R.closed }
  refine ⟨R₁, ?_, hshared, htasks, rfl, fun hfail => ?_⟩
  · simp only [Reported.step, Choice.internal, if_true, hstep, Option.map_some, R₁]
  · simp only [R₁, hfail, Option.elim_none]

theorem onErrorFrom_closes {t : EngineSocket.Tport} (hi : R.state.tasks[i]? = some (.onErrorFrom t :: ops))
    (hopen : R.state.shared.readyState ≠ .closed) (hheeds : R.state.shared.heeds t = true) :
    ∃ acts R', Run step always R acts R' ∧ R'.closed = some (R.pending i).wrapped := by
  have herror : R.state.shared.run .next (.onErrorFrom t) =
      some (R.state.shared, [.closeWithReason .transportError], []) := by
    rw [Session.run, if_pos hheeds]
  obtain ⟨R₁, hs₁, hshared, htasks, -, hpending⟩ := exists_go hi herror
  have hfail : R.failure i = none := by rw [failure, Stacks.next?_eq_some hi]
  have hopen₁ : R₁.state.shared.readyState ≠ .closed := by rwa [hshared]
  obtain ⟨R₂, hs₂, -, -, hclosed, -⟩ := exists_go htasks (by rw [Session.run, if_neg hopen₁])
  refine ⟨_, R₂, .cons trivial hs₁ (.cons trivial hs₂ .nil), ?_⟩
  have hclosing : R₁.closing i = some (R₁.pending i).wrapped := by
    rw [closing, Stacks.next?_eq_some htasks]
    exact if_neg hopen₁
  rw [hclosed, hclosing, hpending hfail]
  rfl

end Closes

theorem frame_closes {e : PacketError} (h : R.Attends (.frame data))
    (he : decodePacket data false = .error e) :
    ∃ acts R', Run step always R acts R' ∧ R'.closed = some (Report.wrapped ⟨.frame data, some e.toErr⟩) := by
  obtain ⟨hopen, i, k, rest, hi, hgone, hhandler, hheeds⟩ := h
  -- the read loop reports to its handler
  have hread : R.state.shared.run .garbled (.read k) =
      some (R.state.shared, [.notify k .error, .read k], []) := by
    simp [Session.run, hgone]
  obtain ⟨w, hstep, hshared, htasks⟩ := exists_step hi hread
  let R₁ : Reported :=
    { R with state := w, pending := Function.update R.pending i ⟨.frame data, some e.toErr⟩ }
  have hs₁ : R.step (.frame i data) = some R₁ := by
    have hreads : R.reads i = true := by rw [reads, Stacks.next?_eq_some hi]
    rw [Reported.step, if_pos hreads, he]
    simp only [act, hstep, Option.map_some, R₁]
  -- the handler is the binding of the session
  have hnotify : R₁.state.shared.run .next (.notify k .error) =
      some (R.state.shared, [.onErrorFrom (.websocket k)], []) := by
    have hshared₁ : R₁.state.shared = R.state.shared := hshared
    rw [hshared₁, Session.run, hhandler]
    rfl
  obtain ⟨R₂, hs₂, hshared₂, htasks₂, -, hpending₂⟩ := exists_go htasks hnotify
  have hfail : R₁.failure i = none := by rw [failure, Stacks.next?_eq_some htasks]
  obtain ⟨acts, R', hrun, hclosed⟩ := onErrorFrom_closes htasks₂ (by rwa [hshared₂]) (by rwa [hshared₂])
  refine ⟨_, R', .cons trivial hs₁ (.cons trivial hs₂ hrun), ?_⟩
  rw [hclosed, hpending₂ hfail]
  simp only [R₁, Function.update_self]

theorem post_closes {p : Http.DataPort} {r : Http.Request} {status : ℕ} {pkts : List Packet}
    {e : Http.DataError} (h : R.Attends (.post p r)) (he : Http.onDataRequest p r = .data status pkts (some e)) :
    ∃ acts R', Run step always R acts R' ∧ R'.closed = some (Report.wrapped ⟨.post p r, some e.toErr⟩) := by
  obtain ⟨hopen, hpolling, hheeds⟩ := h
  let n := R.state.tasks.length
  let R₁ : Reported :=
    { R with
      state := ⟨R.state.shared, R.state.tasks ++ [[.onErrorFrom .polling]]⟩
      pending := Function.update R.pending n ⟨.post p r, some e.toErr⟩ }
  have hs₁ : R.step (.post p r) = some R₁ := by
    rw [Reported.step, he]
    simp only [act, State.step, Session.occurs, hpolling, if_true, Option.map_some, R₁, n]
  have htasks : R₁.state.tasks[n]? = some [.onErrorFrom .polling] := List.getElem?_concat_length
  obtain ⟨acts, R', hrun, hclosed⟩ := onErrorFrom_closes htasks hopen hheeds
  refine ⟨_, R', .cons trivial hs₁ hrun, ?_⟩
  rw [hclosed]
  simp only [R₁, Function.update_self]

theorem Attends.closes {arrival : Arrival} (h : R.Attends arrival) (hm : arrival.Malformed) :
    ∃ acts R', Run step always R acts R' ∧
      R'.closed = some ⟨arrival, arrival.error.map wrapInvalidPacket⟩ := by
  cases arrival with
  | frame data =>
    obtain ⟨e, he⟩ := hm
    rw [Arrival.error, he]
    exact frame_closes h he
  | post p r =>
    obtain ⟨e, he⟩ := error_of_not_frame hm (by simp)
    rw [he]
    simp only [Arrival.error] at he
    split at he
    · rename_i status pkts err hreq
      obtain ⟨err, rfl, herr⟩ := Option.map_eq_some_iff.mp he
      rw [← herr]
      exact post_closes h hreq
    · cases he
  | payload | other => exact h.elim

end Engine.Reported

namespace ClientRead.Reported

variable {R R' : Reported} {a : Act}

theorem step_cases (hs : R.step a = some R') : ∃ b, R.reader.step b = some R'.reader ∧
    (R'.closed = R.closed ∨ ∃ r, r.Faithful ∧ R'.closed = some r) := by
  have hact {b : ClientRead.Act} {r : Report} (hr : r.Faithful) (h : R.act b r = some R') :
      R.reader.step b = some R'.reader ∧ (R'.closed = R.closed ∨ ∃ r, r.Faithful ∧ R'.closed = some r) := by
    obtain ⟨reader, hreader, rfl⟩ := Option.map_eq_some_iff.mp h
    refine ⟨hreader, ?_⟩
    split_ifs
    · exact .inr ⟨r, hr, rfl⟩
    · exact .inl rfl
  cases a with
  | frame data =>
    simp only [step] at hs
    cases hd : decodePacket data false with
    | ok p =>
      rw [hd] at hs
      exact ⟨_, hact (.inl rfl) hs⟩
    | error e =>
      rw [hd] at hs
      exact ⟨_, hact (genuine_frame hd).wrapped hs⟩
  | binary data => exact ⟨_, hact (.inl rfl) hs⟩
  | payload body =>
    simp only [step] at hs
    split at hs
    · exact ⟨_, hact (.inl rfl) hs⟩
    · rename_i pkts e he
      have hgenuine : Report.Genuine ⟨.payload body, some e.toErr⟩ := by
        refine .inr ?_
        rw [Arrival.error, he]
        rfl
      exact ⟨_, hact hgenuine.wrapped hs⟩
  | other a =>
    simp only [step, Option.ite_none_right_eq_some] at hs
    exact ⟨_, hact (.inl rfl) hs.2⟩

theorem faithful_step (h : ∀ r, R.closed = some r → r.Faithful) (hs : R.step a = some R') :
    ∀ r, R'.closed = some r → r.Faithful := by
  intro r hr
  obtain ⟨b, -, hc | ⟨r', hr', hc⟩⟩ := step_cases hs
  · exact h r (hc ▸ hr)
  · rw [hc] at hr
    exact Option.some.inj hr ▸ hr'

def Attends (R : Reported) : Arrival → Prop
  | .frame _ => R.reader.closed = false ∧ R.reader.tport = .websocket ∧ R.reader.stage .websocket = .wait
  | .payload _ => R.reader.closed = false ∧ R.reader.tport = .polling ∧ R.reader.stage .polling = .wait
  | _ => False

theorem act_closes {s : Reader} {b : ClientRead.Act} {t : Client.TransportName}
    (hclosed : R.reader.closed = false) (ht : R.reader.tport = t) (hs : R.reader.step b = some s)
    (hreports : s.reports = (R.reader.errorFrom t).reports) :
    ∃ R', R.act b r = some R' ∧ R'.closed = some r := by
  have hlt : R.reader.reports < s.reports := by
    rw [hreports, Reader.errorFrom, if_pos ht, Reader.closeWithError, hclosed]
    exact Nat.lt_succ_self _
  refine ⟨{ reader := s, closed := some r }, ?_, rfl⟩
  simp only [act, hs, Option.map_some, if_pos hlt]

theorem Attends.closes {arrival : Arrival} (h : R.Attends arrival) (hm : arrival.Malformed) :
    ∃ acts R', Run step always R acts R' ∧
      R'.closed = some ⟨arrival, arrival.error.map wrapInvalidPacket⟩ := by
  cases arrival with
  | frame data =>
    obtain ⟨hclosed, ht, hwait⟩ := h
    obtain ⟨e, he⟩ := hm
    have hstep : R.reader.step .decodeFails = some (R.reader.errorFrom .websocket) := if_pos hwait
    obtain ⟨R', hact, hreport⟩ := act_closes hclosed ht hstep rfl
    refine ⟨[.frame data], R', .cons trivial ?_ .nil, hreport⟩
    rw [Arrival.error, he] at hact
    rw [step, he]
    exact hact
  | payload body =>
    obtain ⟨hclosed, ht, hwait⟩ := h
    obtain ⟨e, he⟩ := Spoiled.decodePayload hm
    have hstep : R.reader.step (.readFails .polling) =
        some ((R.reader.errorFrom .polling).goto .polling .ended) := if_pos hwait
    obtain ⟨R', hact, hreport⟩ := act_closes hclosed ht hstep rfl
    refine ⟨[.payload body], R', .cons trivial ?_ .nil, hreport⟩
    rw [Arrival.error] at hact
    rw [step]
    change (decodePayloadWithLimit body 0).2 = _ at he
    revert he hact
    rcases decodePayloadWithLimit body 0 with ⟨pkts, err⟩
    rintro hact rfl
    exact hact
  | post | other => exact h.elim

end ClientRead.Reported

/-- When a malformed packet closes a session, `errors.Is` finds `engineio.ErrInvalidPacket` in the
error exactly if the packet came in a frame, at the server and at the client; and a session that
listens to where it arrives is closed so. -/
theorem invalid_packet_reported_iff {arrival : Arrival} (hm : arrival.Malformed) :
    (∀ (direct : Bool) (data : Bytes) (acts : List Engine.Reported.Act) (R : Engine.Reported),
      Run Engine.Reported.step always (.created direct data) acts R → ReportedByFrame arrival R.closed) ∧
    (∀ (t : Client.TransportName) (acts : List ClientRead.Reported.Act) (R : ClientRead.Reported),
      Run ClientRead.Reported.step always (.dialed t) acts R → ReportedByFrame arrival R.closed) ∧
    (∀ R : Engine.Reported, R.Attends arrival → ∃ acts R', Run Engine.Reported.step always R acts R' ∧
      R'.closed = some ⟨arrival, arrival.error.map wrapInvalidPacket⟩) ∧
    (∀ R : ClientRead.Reported, R.Attends arrival → ∃ acts R', Run ClientRead.Reported.step always R acts R' ∧
      R'.closed = some ⟨arrival, arrival.error.map wrapInvalidPacket⟩) := by
  refine ⟨?_, ?_, fun R h => h.closes hm, fun R h => h.closes hm⟩
  · intro direct data acts R hrun r hr harrival
    subst harrival
    have hsincere := hrun.invariant Engine.Reported.Sincere (Engine.Reported.sincere_created direct data)
      fun _ _ _ h _ hs => h.step hs
    exact (hsincere.closed r hr).is_invalidPacket_iff hm
  · intro t acts R hrun r hr harrival
    subst harrival
    have hfaithful := hrun.invariant (fun R => ∀ r, R.closed = some r → r.Faithful)
      (fun _ hr => by cases hr) fun _ _ _ h _ hs => ClientRead.Reported.faithful_step h hs
    exact (hfaithful r hr).is_invalidPacket_iff hm

section NonVacuity

open Http

/-- A session is opened on a websocket, and gets a frame with a packet of the unknown type `x`. -/
def framed : List Engine.Reported.Act :=
  List.replicate 4 (.go 0 .next) ++ [.frame 1 [120]] ++ List.replicate 3 (.go 1 .next)

theorem framed_runs :
    (exec Engine.Reported.step always (.created true []) framed).isSome = true := by decide +kernel

theorem invalid_packet_reported_iff_framed :
    Report.is ⟨.frame [120], some (.wrap .invalidPacket (.unknownType 120))⟩ .invalidPacket = true := by
  have hm : (Arrival.frame [120]).Malformed := ⟨.unknownType 120, rfl⟩
  have hrun := run_of_isSome framed_runs
  exact ((invalid_packet_reported_iff hm).1 true [] framed _ hrun _ (by decide +kernel) rfl).mpr ⟨_, rfl⟩

/-- The message `a`, and then a packet of the unknown type `x`. -/
def spoiled : Bytes := [52, 97, separator, 120]

theorem spoiled_spoiled : Spoiled spoiled :=
  ⟨[[52, 97]], [⟨.message, [97], false⟩], [120], [], by decide, .cons rfl .nil, .unknownType 120, rfl⟩

def spoiledPost : Request :=
  { method := .post, transport := "polling", eio := "4", sid := "x", body := some spoiled }

theorem spoiledPost_malformed : (Arrival.post fiveBytes spoiledPost).Malformed := by
  refine ⟨spoiled, ⟨rfl, by decide +kernel, rfl⟩, by decide +kernel, ?_⟩
  exact spoiled_spoiled

/-- A polling session is opened, and gets the payload in a POST. -/
def posted : List Engine.Reported.Act :=
  List.replicate 3 (.go 0 .next) ++ [.post fiveBytes spoiledPost] ++ List.replicate 2 (.go 1 .next)

theorem posted_runs :
    (exec Engine.Reported.step always (.created false []) posted).isSome = true := by decide +kernel

/-- A client polls, and gets the payload. -/
def polled : List ClientRead.Reported.Act := [.other (.turn .polling false), .payload spoiled]

theorem polled_runs : (exec ClientRead.Reported.step always (.dialed .polling) polled).isSome = true := by
  decide +kernel

/-- On the polling transport the sentinel is lost, at the server and at the client. -/
theorem polling_loses_invalid_packet :
    (¬ ∀ (direct : Bool) (data : Bytes) (acts : List Engine.Reported.Act) (R : Engine.Reported),
      Run Engine.Reported.step always (.created direct data) acts R → ReportedAlike R.closed) ∧
    ¬ ∀ (t : Client.TransportName) (acts : List ClientRead.Reported.Act) (R : ClientRead.Reported),
      Run ClientRead.Reported.step always (.dialed t) acts R → ReportedAlike R.closed := by
  have hlost (arrival : Arrival) :
      Report.is ⟨arrival, some (.wrap .invalidPayload (.unknownType 120))⟩ .invalidPacket = false := rfl
  refine ⟨fun h => ?_, fun h => ?_⟩
  · have halike := h false [] posted _ (run_of_isSome posted_runs)
    have his := halike ⟨.post fiveBytes spoiledPost, some (.wrap .invalidPayload (.unknownType 120))⟩
      (by decide +kernel) spoiledPost_malformed
    exact Bool.false_ne_true ((hlost _).symm.trans his)
  · have halike := h .polling polled _ (run_of_isSome polled_runs)
    have his := halike ⟨.payload spoiled, some (.wrap .invalidPayload (.unknownType 120))⟩
      (by decide +kernel) spoiled_spoiled
    exact Bool.false_ne_true ((hlost _).symm.trans his)

end NonVacuity

end Gosocketio

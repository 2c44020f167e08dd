import Gosocketio.Proofs.PayloadLimit
import Gosocketio.Spec.Http

/-! The size gate of `onDataRequest`. It reads one byte more than the limit and looks whether it
got it; what passes is within the limit of the decoder as well. -/

namespace Gosocketio.Http

open Strconv Transport

variable {p : DataPort} {r : Request} {body : Bytes}

/-- The request comes to the gate: no other POST is active, the content type is not that of a
binary body, and the body can be read. -/
structure Admitted (p : DataPort) (r : Request) (body : Bytes) : Prop where
  idle : p.dataReq = false
  text : r.isOctetStream = false
  body : r.body = some body

instance : Decidable (Admitted p r body) :=
  decidable_of_iff (p.dataReq = false ∧ r.isOctetStream = false ∧ r.body = some body)
    ⟨fun h => ⟨h.1, h.2.1, h.2.2⟩, fun h => ⟨h.1, h.2, h.3⟩⟩

def delivery : List Packet × Option PayloadError → Handled
  | (_, some e) => .data 400 [] (some (.payload e))
  | (pkts, none) => .data 200 pkts none

section Read

theorem readAll_of_lt (h : p.maxBufferSize < maxInt64) (body : Bytes) :
    p.readAll body = body.take (p.maxBufferSize + 1).toNat := by
  have hrange := p.int64
  rw [DataPort.readAll, limitReader, Int.bmod_eq_of_le]
  · simp only [minInt64] at hrange
    omega
  · simp only [maxInt64] at h
    omega

theorem readAll_maxInt64 (h : p.maxBufferSize = maxInt64) (body : Bytes) : p.readAll body = [] := by
  rw [DataPort.readAll, h]
  rfl

/-- What is read tells whether the body is too long, and is all of it if it is not. -/
theorem readAll_exact (hmax : 0 ≤ p.maxBufferSize) (h : p.maxBufferSize < maxInt64) (body : Bytes) :
    (p.maxBufferSize < (p.readAll body).length ↔ p.maxBufferSize < body.length) ∧
      (body.length ≤ p.maxBufferSize → p.readAll body = body) := by
  rw [readAll_of_lt h, List.length_take]
  exact ⟨by omega, fun hle => List.take_of_length_le (by omega)⟩

end Read

theorem onDataRequest_admitted (h : Admitted p r body) : onDataRequest p r =
    if p.maxBufferSize < (p.readAll body).length then .data 413 [] none
    else delivery (decodePayload (p.readAll body)) := by
  rw [onDataRequest, h.idle, if_neg Bool.false_ne_true, h.text, if_neg Bool.false_ne_true, h.body]
  dsimp only
  split_ifs with hlong
  · rfl
  · rw [decodePayloadWithLimit_within (not_lt.mp hlong)]
    rcases decodePayload (p.readAll body) with ⟨pkts, _ | e⟩ <;> rfl

theorem onDataRequest_not_admitted (h : ∀ body, ¬ Admitted p r body) :
    ∃ err, onDataRequest p r = .data 400 [] (some err) := by
  unfold onDataRequest
  split_ifs with hidle htext
  · exact ⟨_, rfl⟩
  · exact ⟨_, rfl⟩
  · cases hbody : r.body with
    | none => exact ⟨_, rfl⟩
    | some body => exact absurd ⟨by simpa using hidle, by simpa using htext, hbody⟩ (h body)

/-- A payload within the limit is decoded as one without a limit: no part is dropped and none is
too large. So whatever `onDataRequest` has read and let pass is delivered as a whole. -/
theorem body_gate_inert {maxPayload : ℤ} {b : Bytes} (hfits : b.length ≤ maxPayload) :
    decodePayloadWithLimit b maxPayload = decodePayload b ∧
    (∀ size limit, (decodePayloadWithLimit b maxPayload).2 ≠ some (.tooLarge size limit)) ∧
    ((decodePayloadWithLimit b maxPayload).2 = none →
      Decodes (parts b) (decodePayloadWithLimit b maxPayload).1) ∧
    ∀ (p : DataPort) (r : Request) (body : Bytes), p.maxBufferSize = maxPayload → Admitted p r body →
      p.readAll body = b → onDataRequest p r = delivery (decodePayload b) := by
  have hcases := decodeEach_cases (parts b)
  rw [decodePayloadWithLimit_within hfits, decodePayload_eq]
  refine ⟨rfl, fun size limit hlarge => ?_, fun hnone => ?_, fun p r body hp hadmitted hread => ?_⟩
  · rcases hcases with ⟨hnone, -⟩ | ⟨e, herr⟩
    · cases hnone.symm.trans hlarge
    · cases herr.symm.trans hlarge
  · rcases hcases with ⟨-, hall⟩ | ⟨e, herr⟩
    · exact hall
    · cases herr.symm.trans hnone
  · rw [onDataRequest_admitted hadmitted, hread, hp, if_neg (not_lt.mpr hfits), decodePayload_eq]

def twoMessages : Request :=
  { method := .post, transport := "polling", eio := "4", sid := "x", body := some [52, 97, separator, 52, 98] }

def fiveBytes : DataPort := { maxBufferSize := 5 }

theorem twoMessages_admitted (p : DataPort) (h : p.dataReq = false) :
    Admitted p twoMessages [52, 97, separator, 52, 98] :=
  ⟨h, by decide +kernel, rfl⟩

theorem body_gate_inert_twoMessages :
    onDataRequest fiveBytes twoMessages = delivery (decodePayload [52, 97, separator, 52, 98]) := by
  have hfits : ([52, 97, separator, 52, 98] : Bytes).length ≤ fiveBytes.maxBufferSize := by decide
  exact (body_gate_inert hfits).2.2.2 fiveBytes twoMessages _ rfl (twoMessages_admitted fiveBytes rfl)
    (by decide +kernel)

/-- A body that is longer than the limit is answered with 413, any other is decoded as a whole. -/
def Exact (p : DataPort) (r : Request) (body : Bytes) : Prop := onDataRequest p r =
    if p.maxBufferSize < body.length then .data 413 [] none else delivery (decodePayload body)

theorem decodeEach_ne_nil {ps : List Bytes} (h : ps ≠ []) : decodeEach ps ≠ ([], none) := by
  cases ps with
  | nil => exact absurd rfl h
  | cons part ps =>
    rw [decodeEach]
    cases decodePacket part false <;> simp

theorem delivery_eq_empty : delivery (decodePayload body) = .data 200 [] none ↔ body = [] := by
  constructor
  · intro h
    by_contra hbody
    have hparts : parts body ≠ [] := by
      rw [parts, if_neg hbody]
      exact List.splitOn_ne_nil _ _
    refine decodeEach_ne_nil hparts ?_
    rw [← decodePayload_eq]
    revert h
    rcases decodePayload body with ⟨pkts, _ | e⟩ <;> simp [delivery]
  · rintro rfl
    rfl

/-- With the largest limit nothing is read, and every body looks like the empty one. -/
theorem exact_iff (hmax : 0 ≤ p.maxBufferSize) (h : Admitted p r body) :
    Exact p r body ↔ p.maxBufferSize < maxInt64 ∨ body = [] := by
  rw [Exact, onDataRequest_admitted h]
  rcases p.int64.2.lt_or_eq with hlt | htop
  · refine iff_of_true ?_ (.inl hlt)
    obtain ⟨hlong, hall⟩ := readAll_exact hmax hlt body
    by_cases hle : p.maxBufferSize < body.length
    · rw [if_pos (hlong.mpr hle), if_pos hle]
    · rw [if_neg (hlong.not.mpr hle), if_neg hle, hall (not_lt.mp hle)]
  · have hempty : ¬ p.maxBufferSize < ([] : Bytes).length := not_lt.mpr hmax
    rw [readAll_maxInt64 htop, if_neg hempty, or_iff_right (not_lt.mpr htop.ge), ← delivery_eq_empty]
    split_ifs with hlong
    · refine iff_of_false (fun h => ?_) fun h => ?_
      · cases h
      · rw [delivery_eq_empty.mp h] at hlong
        exact absurd hlong hempty
    · exact eq_comm

/-- The gate is exact for a limit whose successor is an `int64`. A request that does not come to
the gate is answered with 400. -/
theorem body_gate_exact_iff (hmax : 0 < p.maxBufferSize) :
    (∀ body, Admitted p r body → (Exact p r body ↔ p.maxBufferSize < maxInt64 ∨ body = [])) ∧
      ((∀ body, ¬ Admitted p r body) → ∃ err, onDataRequest p r = .data 400 [] (some err)) :=
  ⟨fun _ h => exact_iff hmax.le h, onDataRequest_not_admitted⟩

theorem body_gate_exact_iff_twoMessages : Exact fiveBytes twoMessages [52, 97, separator, 52, 98] :=
  ((body_gate_exact_iff (by decide)).1 _ (twoMessages_admitted fiveBytes rfl)).mpr (.inl (by decide))

def unlimited : DataPort := { maxBufferSize := maxInt64 }

/-- The two messages are answered with 200, and neither is delivered. -/
theorem largest_limit_discards : 0 < unlimited.maxBufferSize ∧
    Admitted unlimited twoMessages [52, 97, separator, 52, 98] ∧
    onDataRequest unlimited twoMessages = .data 200 [] none ∧
    decodePayload [52, 97, separator, 52, 98] =
      ([{ type := .message, data := [97] }, { type := .message, data := [98] }], none) := by
  refine ⟨by decide, twoMessages_admitted unlimited rfl, by decide +kernel, by decide +kernel⟩

end Gosocketio.Http

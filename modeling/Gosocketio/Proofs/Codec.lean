import Gosocketio.Proofs.NonVacuityJson

/-! The packet codec. `decode` keeps its cursor on the last byte consumed, so
each stage is read on a text cut in three: what is consumed, the field, and a
rest whose first byte cannot belong to the field. -/

namespace Gosocketio

open Strconv

section Cursor

variable (pre mid rest : Bytes)

theorem getElem?_cursor (i : ℕ) (hi : i + 1 = pre.length) : (pre ++ rest)[i + 1]? = rest.head? := by
  rw [hi, List.getElem?_append_right le_rfl, Nat.sub_self, List.head?_eq_getElem?]

theorem scan_cursor (stop : UInt8 → Bool) (hmid : ∀ c ∈ mid, stop c = false)
    (hrest : ∀ c, rest.head? = some c → stop c = true) :
    scan stop (pre ++ (mid ++ rest)) pre.length = (pre ++ mid).length := by
  have htake : (mid ++ rest).takeWhile (fun c => !stop c) = mid := by
    rw [List.takeWhile_append_of_pos (fun c hc => by simp [hmid c hc])]
    cases rest with
    | nil => simp
    | cons c rest => simp [hrest c rfl]
  rw [scan, List.drop_left, htake, List.length_append]

theorem slice_cursor : slice (pre ++ (mid ++ rest)) pre.length (pre ++ mid).length = mid := by
  rw [slice, ← List.append_assoc, List.take_left, List.drop_left]

end Cursor

theorem decodeAttachments_binary (t : PacketType) (n : ℤ) (rest : Bytes) (ht : t.isBinary = true)
    (h0 : 0 ≤ n) (hm : n ≤ maxInt64) :
    decodeAttachments t ([t.toByte] ++ (formatInt n ++ [45] ++ rest)) =
      .ok (n, ([t.toByte] ++ formatInt n).length) := by
  have hmid : ∀ c ∈ formatInt n, (c == 45) = false := by
    intro c hc
    rw [formatInt_of_nonneg n h0] at hc
    have hd := isDigit_of_mem_formatNat _ c hc
    rw [beq_eq_false_iff_ne]
    rintro rfl
    exact absurd hd (by decide)
  have hscan := scan_cursor [t.toByte] (formatInt n) ([45] ++ rest) (· == 45) hmid (by simp)
  have hslice := slice_cursor [t.toByte] (formatInt n) ([45] ++ rest)
  simp only [← List.append_assoc] at hscan hslice
  simp only [List.length_singleton] at hscan hslice
  simp only [decodeAttachments, ht, if_true, ← List.append_assoc, hscan, hslice,
    parseInt_formatInt n h0 hm]
  rw [if_neg (by simp), if_neg (not_lt.mpr h0)]

theorem decodeNsp_present (pre nsp rest : Bytes) (i : ℕ) (hi : i + 1 = pre.length)
    (hhead : nsp.head? = some 47) (hcomma : 44 ∉ nsp) :
    decodeNsp (pre ++ (nsp ++ ([44] ++ rest))) i = (nsp, (pre ++ nsp).length) := by
  have hmid : ∀ c ∈ nsp, (c == 44) = false := by
    intro c hc
    rw [beq_eq_false_iff_ne]
    rintro rfl
    exact hcomma hc
  have hcur : (pre ++ (nsp ++ ([44] ++ rest)))[i + 1]? = some 47 := by
    rw [getElem?_cursor pre _ i hi, List.head?_append, hhead]
    rfl
  unfold decodeNsp
  rw [if_pos hcur, hi]
  simp only [scan_cursor pre nsp ([44] ++ rest) (· == 44) hmid (by simp), slice_cursor]
  rw [if_pos (by simp)]

theorem decodeNsp_absent (pre rest : Bytes) (i : ℕ) (hi : i + 1 = pre.length)
    (hrest : rest.head? ≠ some 47) : decodeNsp (pre ++ rest) i = (defaultNamespace, i) := by
  rw [decodeNsp, getElem?_cursor pre rest i hi, if_neg hrest]

theorem decodeId_digits (pre ds rest : Bytes) (i : ℕ) (hi : i + 1 = pre.length) (hne : ds ≠ [])
    (hds : ∀ c ∈ ds, isDigit c = true) (hrest : ∀ c, rest.head? = some c → isDigit c = false) :
    decodeId (pre ++ (ds ++ rest)) i = ((parseInt ds).1, (pre ++ ds).length - 1) := by
  have hcur : ((pre ++ (ds ++ rest))[i + 1]?.any isDigit) = true := by
    rw [getElem?_cursor pre _ i hi]
    cases ds with
    | nil => exact absurd rfl hne
    | cons c cs => simpa using hds c List.mem_cons_self
  unfold decodeId
  rw [if_pos hcur, hi]
  simp only [scan_cursor pre ds rest (fun c => !isDigit c) (fun c hc => by simp [hds c hc])
      (fun c hc => by simp [hrest c hc]), slice_cursor]

theorem decodeId_present (pre rest : Bytes) (i : ℕ) (hi : i + 1 = pre.length) (z : ℤ)
    (h0 : 0 ≤ z) (hm : z ≤ maxInt64) (hrest : ∀ c, rest.head? = some c → isDigit c = false) :
    decodeId (pre ++ (formatInt z ++ rest)) i = (z, (pre ++ formatInt z).length - 1) := by
  have hnat := formatInt_of_nonneg z h0
  have hne : formatInt z ≠ [] := by
    rw [hnat]
    exact formatNat_ne_nil _
  have hdig : ∀ c ∈ formatInt z, isDigit c = true := by
    rw [hnat]
    exact isDigit_of_mem_formatNat _
  rw [decodeId_digits pre (formatInt z) rest i hi hne hdig hrest, parseInt_formatInt z h0 hm]

theorem decodeId_absent (pre rest : Bytes) (i : ℕ) (hi : i + 1 = pre.length)
    (hrest : ∀ c, rest.head? = some c → isDigit c = false) :
    decodeId (pre ++ rest) i = (-1, i) := by
  rw [decodeId, getElem?_cursor pre rest i hi]
  cases hh : rest.head? with
  | none => simp
  | some c => simp [hrest c hh]

/-- A namespace that the header of a packet can name. -/
structure Addressable (nsp : Bytes) : Prop where
  nsp_head : nsp.head? = some 47
  nsp_comma : 44 ∉ nsp

/-- The headers the codec is meant for: a namespace that starts with a slash and
has no comma in it, an id that is absent or a 64-bit integer, and an attachment
count on binary packets only. -/
structure Packet.HeaderOk (p : Packet) : Prop extends Addressable p.nsp where
  id_lo : -1 ≤ p.id
  id_hi : p.id ≤ maxInt64
  attachments_binary : p.type.isBinary = true → 0 ≤ p.attachments ∧ p.attachments ≤ maxInt64
  attachments_plain : p.type.isBinary = false → p.attachments = 0

/-- A payload whose text cannot be taken for a namespace or an id: none at all, or
a JSON string, array or object. -/
def Value.Framed (v : Value) : Prop :=
  v = .null ∨ (v.isJson = true ∧ (v.kind = .string ∨ v.kind = .array ∨ v.kind = .object))

/-- The error `decode` stops with at a payload; a missing payload is not checked. -/
def payloadError (t : PacketType) (v : Value) : Option DecodeError :=
  if v = .null then none else validatePayload t v

@[simp] theorem ofByte_toByte (t : PacketType) : PacketType.ofByte t.toByte = some t := by
  cases t <;> rfl

def dataText (J : Json) (v : Value) : Bytes := if v = .null then [] else (J.marshal v).getD []

theorem kind_of_validatePayload (t : PacketType) (v : Value) (hv : v ≠ .null)
    (h : validatePayload t v = none) : v.kind = .string ∨ v.kind = .array ∨ v.kind = .object := by
  cases t <;> cases v <;> simp_all [validatePayload, Value.kind]

theorem byte_of_kind (c : UInt8) (k : Kind) (h : kindOfByte c = some k)
    (hk : k = .string ∨ k = .array ∨ k = .object) : c = 34 ∨ c = 91 ∨ c = 123 := by
  unfold kindOfByte at h
  split_ifs at h <;> cases h <;> simp_all

theorem framed_of_validatePayload (t : PacketType) (v : Value)
    (h : v = .null ∨ (v.isJson = true ∧ validatePayload t v = none)) :
    v.Framed ∧ payloadError t v = none := by
  by_cases hv : v = .null
  · exact ⟨Or.inl hv, if_pos hv⟩
  · obtain ⟨hj, hval⟩ := h.resolve_left hv
    exact ⟨Or.inr ⟨hj, kind_of_validatePayload t v hv hval⟩, by rw [payloadError, if_neg hv, hval]⟩

/-- A payload that is left out, or whose text is read back as it and cannot be taken for a
namespace or an id. -/
def Json.Carries (J : Json) (v : Value) : Prop :=
  v = .null ∨ ((v.kind = .string ∨ v.kind = .array ∨ v.kind = .object) ∧
    ∃ b, J.marshal v = some b ∧ J.unmarshal b = some v ∧ b.head?.bind kindOfByte = some v.kind)

theorem Value.Framed.carried_of {J : Json} {v : Value} (h : v.Framed)
    (hread : v.isJson = true → ∃ b, J.marshal v = some b ∧ J.unmarshal b = some v)
    (hfirst : ∀ b, v.isJson = true → J.marshal v = some b → b.head?.bind kindOfByte = some v.kind) :
    J.Carries v := by
  refine h.imp_right ?_
  rintro ⟨hj, hkind⟩
  obtain ⟨b, hb, hu⟩ := hread hj
  exact ⟨hkind, b, hb, hu, hfirst b hj hb⟩

theorem Value.Framed.carried {J : Json} (hJ : J.Lawful) {v : Value} (h : v.Framed) : J.Carries v :=
  h.carried_of (hJ.roundTrip v) (hJ.firstByte v)

theorem Json.Lawful.bounded {J : Json} (hJ : J.Lawful) : J.Bounded :=
  ⟨fun v hv _ => hJ.roundTrip v hv, hJ.firstByte⟩

theorem Value.Framed.carried_of_nesting {J : Json} (hJ : J.Bounded) {v : Value} (h : v.Framed)
    (hn : v.nesting ≤ Json.maxNestingDepth) : J.Carries v :=
  h.carried_of (fun hj => hJ.roundTrip v hj hn) (hJ.firstByte v)

theorem dataText_head {J : Json} {v : Value} (h : J.Carries v) :
    ∀ c, (dataText J v).head? = some c → c ≠ 47 ∧ isDigit c = false := by
  intro c hc
  unfold dataText at hc
  split_ifs at hc with hv
  · simp at hc
  · obtain ⟨hkind, b, hb, -, hk⟩ := h.resolve_left hv
    rw [hb, Option.getD_some] at hc
    rw [hc, Option.bind_some] at hk
    rcases byte_of_kind c v.kind hk hkind with rfl | rfl | rfl <;> decide

theorem decodeData_dataText {J : Json} (t : PacketType) {v : Value} (h : J.Carries v)
    (pre : Bytes) (i : ℕ) (hi : i + 1 = pre.length) :
    decodeData J t (pre ++ dataText J v) i = (payloadError t v).elim (.ok v) .error := by
  unfold decodeData payloadError
  by_cases hv : v = .null
  · subst hv
    rw [if_neg (by simp [dataText, hi])]
    rfl
  · obtain ⟨-, b, hb, hu, hk⟩ := h.resolve_left hv
    have hne : b ≠ [] := by
      rintro rfl
      simp at hk
    have htext : dataText J v = b := by simp [dataText, hv, hb]
    rw [htext, if_pos (by rw [hi, List.length_append]; have := List.length_pos_iff.mpr hne; omega),
      hi, List.drop_left, hu, if_neg hv]
    simp only
    cases validatePayload t v <;> rfl

def attachmentsText (p : Packet) : Bytes :=
  if p.type.isBinary then formatInt p.attachments ++ [45] else []

def nspText (p : Packet) : Bytes :=
  if p.nsp ≠ [] ∧ p.nsp ≠ defaultNamespace then p.nsp ++ [44] else []

def idText (p : Packet) : Bytes := if 0 ≤ p.id then formatInt p.id else []

theorem encode_eq (J : Json) (p : Packet) :
    encode J p = [p.type.toByte] ++ attachmentsText p ++ nspText p ++ idText p ++ dataText J p.data :=
  rfl

theorem decodeAttachments_encode (p : Packet) (hp : p.HeaderOk) (rest : Bytes) :
    ∃ i, decodeAttachments p.type ([p.type.toByte] ++ attachmentsText p ++ rest) =
        .ok (p.attachments, i) ∧ i + 1 = ([p.type.toByte] ++ attachmentsText p).length := by
  unfold attachmentsText
  cases hb : p.type.isBinary with
  | true =>
    obtain ⟨h0, hm⟩ := hp.attachments_binary hb
    refine ⟨([p.type.toByte] ++ formatInt p.attachments).length, ?_, by simp⟩
    simpa only [if_true, List.append_assoc] using
      decodeAttachments_binary p.type p.attachments rest hb h0 hm
  | false =>
    refine ⟨0, ?_, by simp⟩
    simp [decodeAttachments, hb, hp.attachments_plain hb]

theorem decodeNsp_encode (p : Packet) (hp : p.HeaderOk) (pre rest : Bytes) (i : ℕ)
    (hi : i + 1 = pre.length) (hrest : rest.head? ≠ some 47) :
    ∃ k, decodeNsp (pre ++ nspText p ++ rest) i = (p.nsp, k) ∧
      k + 1 = (pre ++ nspText p).length := by
  have hne : p.nsp ≠ [] := by
    intro h
    have := hp.nsp_head
    simp [h] at this
  unfold nspText
  by_cases hd : p.nsp = defaultNamespace
  · refine ⟨i, ?_, by simpa [hd] using hi⟩
    simp only [hd, ne_eq, not_true_eq_false, and_false, if_false, List.append_nil]
    exact decodeNsp_absent pre rest i hi hrest
  · refine ⟨(pre ++ p.nsp).length, ?_, ?_⟩
    · rw [if_pos ⟨hne, hd⟩]
      simpa only [List.append_assoc] using
        decodeNsp_present pre p.nsp rest i hi hp.nsp_head hp.nsp_comma
    · rw [if_pos ⟨hne, hd⟩]
      simp
      omega

theorem decodeId_encode (p : Packet) (hp : p.HeaderOk) (pre rest : Bytes) (i : ℕ)
    (hi : i + 1 = pre.length) (hrest : ∀ c, rest.head? = some c → isDigit c = false) :
    ∃ k, decodeId (pre ++ idText p ++ rest) i = (p.id, k) ∧ k + 1 = (pre ++ idText p).length := by
  unfold idText
  by_cases h0 : 0 ≤ p.id
  · have hpos := List.length_pos_iff.mpr (formatNat_ne_nil p.id.natAbs)
    refine ⟨(pre ++ formatInt p.id).length - 1, ?_, ?_⟩
    · rw [if_pos h0]
      simpa only [List.append_assoc] using decodeId_present pre rest i hi p.id h0 hp.id_hi hrest
    · rw [if_pos h0, List.length_append, formatInt_of_nonneg _ h0]
      omega
  · have hid : p.id = -1 := by
      have := hp.id_lo
      omega
    refine ⟨i, ?_, by simpa [h0] using hi⟩
    rw [if_neg h0, List.append_nil, hid]
    exact decodeId_absent pre rest i hi hrest

/-- The id text cannot be taken for a namespace. -/
theorem idText_head (p : Packet) (rest : Bytes) (h : ∀ c, rest.head? = some c → c ≠ 47) :
    (idText p ++ rest).head? ≠ some 47 := by
  unfold idText
  split_ifs with h0
  · rw [formatInt_of_nonneg _ h0]
    cases hf : formatNat p.id.natAbs with
    | nil => exact absurd hf (formatNat_ne_nil _)
    | cons c cs =>
      have hd := isDigit_of_mem_formatNat p.id.natAbs c (by simp [hf])
      simp only [List.cons_append, List.head?_cons, ne_eq, Option.some.injEq]
      rintro rfl
      exact absurd hd (by decide)
  · intro hc
    exact h 47 (by simpa using hc) rfl

/-- Only the check of the payload stands between a packet and its text. -/
theorem decode_encode_of_carries {J : Json} (p : Packet) (hp : p.HeaderOk) (hd : J.Carries p.data) :
    decode J (encode J p) = (payloadError p.type p.data).elim (.ok p) .error := by
  have hhead := dataText_head hd
  obtain ⟨i, hatt, hi⟩ := decodeAttachments_encode p hp
    (nspText p ++ (idText p ++ dataText J p.data))
  obtain ⟨k, hnsp, hk⟩ := decodeNsp_encode p hp ([p.type.toByte] ++ attachmentsText p)
    (idText p ++ dataText J p.data) i hi (idText_head p _ fun c hc => (hhead c hc).1)
  obtain ⟨l, hid, hl⟩ := decodeId_encode p hp ([p.type.toByte] ++ attachmentsText p ++ nspText p)
    (dataText J p.data) k hk (fun c hc => (hhead c hc).2)
  have hdata := decodeData_dataText p.type hd
    ([p.type.toByte] ++ attachmentsText p ++ nspText p ++ idText p) l hl
  simp only [← List.append_assoc] at hatt hnsp
  rw [encode_eq]
  simp only [List.cons_append] at hatt hnsp hid hdata ⊢
  simp only [decode, ofByte_toByte, hatt, hnsp, hid, hdata]
  cases payloadError p.type p.data <;> rfl

theorem decode_encode (J : Json) (hJ : J.Lawful) (p : Packet) (hp : p.HeaderOk)
    (hd : p.data.Framed) :
    decode J (encode J p) = (payloadError p.type p.data).elim (.ok p) .error :=
  decode_encode_of_carries p hp (hd.carried hJ)

theorem decode_encode_packet {J : Json} (hJ : J.Lawful) (t : PacketType) (nsp : Bytes) (id : ℤ)
    (data : Value) (attachments : ℤ) (hnsp : nsp.head? = some 47 ∧ 44 ∉ nsp)
    (hid : -1 ≤ id ∧ id ≤ 2 ^ 63 - 1)
    (hatt : if t.isBinary then 0 ≤ attachments ∧ attachments ≤ 2 ^ 63 - 1 else attachments = 0)
    (hdata : data = .null ∨ (data.isJson = true ∧ validatePayload t data = none)) :
    decode J (encode J ⟨t, nsp, id, data, attachments⟩) = .ok ⟨t, nsp, id, data, attachments⟩ := by
  have hheader : Packet.HeaderOk ⟨t, nsp, id, data, attachments⟩ := by
    refine ⟨⟨hnsp.1, hnsp.2⟩, hid.1, hid.2, fun hb => ?_, fun hb => ?_⟩
    · rw [if_pos hb] at hatt
      exact hatt
    · rw [if_neg (by simpa using hb)] at hatt
      exact hatt
  obtain ⟨hframed, hvalid⟩ := framed_of_validatePayload t data hdata
  rw [decode_encode J hJ _ hheader hframed, hvalid]
  rfl

/-- Decoding the text of a packet gives the packet back, field by field. Maps in
the payload are listed in key order, the order a decoded map is listed in. -/
theorem packet_round_trip (J : Json) (hJ : J.Lawful) (t : PacketType) (nsp : Bytes) (id : ℤ)
    (data : Value) (attachments : ℤ)
    (hnsp : nsp = defaultNamespace ∨ (nsp.head? = some 47 ∧ 44 ∉ nsp))
    (hid : -1 ≤ id ∧ id ≤ 2 ^ 63 - 1)
    (hatt : if t.isBinary then 0 ≤ attachments ∧ attachments ≤ 2 ^ 63 - 1 else attachments = 0)
    (hdata : data = .null ∨ (data.isJson = true ∧ validatePayload t data = none)) :
    decode J (encode J ⟨t, nsp, id, data, attachments⟩) = .ok ⟨t, nsp, id, data, attachments⟩ := by
  have hnsp' : nsp.head? = some 47 ∧ 44 ∉ nsp := by
    rcases hnsp with rfl | h
    · exact ⟨rfl, by decide⟩
    · exact h
  exact decode_encode_packet hJ t nsp id data attachments hnsp' hid hatt hdata

/-- A binary event with one attachment and the id 7 in the namespace `/admin`, and
the text it is sent as. -/
theorem packet_round_trip_binary_event :
    encode NonVacuity.textJson ⟨.binaryEvent, [47, 97, 100, 109, 105, 110], 7,
        .arr [.str [101, 118], .obj [(Value.placeholderKey, .bool true), (Value.numKey, .number 0)]],
        1⟩ =
      [53, 49, 45, 47, 97, 100, 109, 105, 110, 44, 55, 91, 34, 101, 118, 34, 44, 123, 34, 95, 112,
        108, 97, 99, 101, 104, 111, 108, 100, 101, 114, 34, 58, 116, 114, 117, 101, 44, 34, 110, 117,
        109, 34, 58, 48, 125, 93] ∧
    decode NonVacuity.textJson (encode NonVacuity.textJson
        ⟨.binaryEvent, [47, 97, 100, 109, 105, 110], 7, .arr [.str [101, 118],
          .obj [(Value.placeholderKey, .bool true), (Value.numKey, .number 0)]], 1⟩) =
      .ok ⟨.binaryEvent, [47, 97, 100, 109, 105, 110], 7, .arr [.str [101, 118],
          .obj [(Value.placeholderKey, .bool true), (Value.numKey, .number 0)]], 1⟩ :=
  ⟨by decide, packet_round_trip _ NonVacuity.textJson_lawful _ _ _ _ _
    (Or.inr ⟨rfl, by decide⟩) (by decide) (by decide) (Or.inr ⟨by decide, by decide⟩)⟩

end Gosocketio

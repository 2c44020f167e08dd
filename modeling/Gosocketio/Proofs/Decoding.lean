import Gosocketio.Proofs.Codec
import Gosocketio.Sanity.Packet
import Gosocketio.Spec.Requests
import Gosocketio.Spec.Server
import Mathlib.Data.List.TakeWhile

/-! Packets as they come from the wire. Whatever `decode` accepts has a header that `encode`
writes without ambiguity, so the texts that are read as one packet differ only in ways that are
gone once it is written again: signs and zeros in numbers, an explicit `/`, a comma left out. -/

namespace Gosocketio

open Strconv

variable {J : Json} {i : ℕ} {p : Packet}

section Stages

variable {t : PacketType} {data : Bytes}

theorem slice_scan (stop : UInt8 → Bool) (data : Bytes) (j : ℕ) :
    slice data j (scan stop data j) = (data.drop j).takeWhile fun c => !stop c := by
  rw [slice, scan, List.drop_take, Nat.add_sub_cancel_left]
  exact (List.prefix_iff_eq_take.mp (List.takeWhile_prefix _)).symm

theorem decodeNsp_comma (data : Bytes) (i : ℕ) : 44 ∉ (decodeNsp data i).1 := by
  unfold decodeNsp
  split_ifs
  · simp only [slice_scan]
    intro hmem
    have hnot := List.mem_takeWhile_imp hmem
    simp at hnot
  · change 44 ∉ defaultNamespace
    decide

theorem decodeId_eq (data : Bytes) (i : ℕ) : (decodeId data i).1 = -1 ∨
    ∃ ds : Bytes, (decodeId data i).1 = min (natOfDigits ds : ℤ) maxInt64 := by
  unfold decodeId
  split_ifs with hcur
  · right
    have hne : (data.drop (i + 1)).takeWhile isDigit ≠ [] := by
      cases hget : data[i + 1]? with
      | none => simp [hget] at hcur
      | some c =>
        obtain ⟨hlt, hc⟩ := List.getElem?_eq_some_iff.mp hget
        have hdigit : isDigit c = true := by simpa [hget] using hcur
        rw [List.drop_eq_getElem_cons hlt, hc, List.takeWhile_cons_of_pos hdigit]
        exact List.cons_ne_nil _ _
    refine ⟨(data.drop (i + 1)).takeWhile isDigit, ?_⟩
    simp only [slice_scan, Bool.not_not]
    exact parseInt_digits _ hne fun c hc => List.mem_takeWhile_imp hc
  · exact .inl rfl

theorem decodeId_bounds (data : Bytes) (i : ℕ) :
    -1 ≤ (decodeId data i).1 ∧ (decodeId data i).1 ≤ maxInt64 := by
  have hmax : (0 : ℤ) ≤ maxInt64 := by decide
  obtain heq | ⟨ds, heq⟩ := decodeId_eq data i <;> omega

theorem decodeAttachments_bounds {n : ℤ}
    (h : decodeAttachments t data = .ok (n, i)) :
    if t.isBinary then 0 ≤ n ∧ n ≤ maxInt64 else n = 0 := by
  unfold decodeAttachments at h
  split_ifs at h ⊢ with hbin
  · simp only at h
    split_ifs at h
    split at h
    · rename_i m hm
      split_ifs at h with hneg
      obtain ⟨rfl, -⟩ := Prod.mk.inj (Except.ok.inj h)
      exact ⟨not_lt.mp hneg, le_maxInt64_of_parseInt hm⟩
    · cases h
  · exact (Prod.mk.inj (Except.ok.inj h)).1.symm

theorem decodeData_ok {v : Value}
    (h : decodeData J t data i = .ok v) :
    v = .null ∨ (∃ text, J.unmarshal text = some v) ∧ validatePayload t v = none := by
  unfold decodeData at h
  split_ifs at h
  · split at h
    · cases h
    · rename_i w hw
      split at h
      · cases h
      · rename_i hvalid
        obtain rfl := Except.ok.inj h
        exact .inr ⟨⟨_, hw⟩, hvalid⟩
  · exact .inl (Except.ok.inj h).symm

theorem decode_type {rest : Bytes}
    (h : decode J (t.toByte :: rest) = .ok p) : p.type = t := by
  unfold decode at h
  simp only [ofByte_toByte] at h
  split at h
  · cases h
  · split at h
    · cases h
    · obtain rfl := Except.ok.inj h
      rfl

theorem headerOk_of_decode (h : decode J data = .ok p) :
    p.HeaderOk := by
  obtain ⟨i, hatt, hnsp, hid, -⟩ := decode_ok h
  have hatts := decodeAttachments_bounds hatt
  refine ⟨⟨decode_nsp_head h, ?_⟩, ?_, ?_, fun hb => ?_, fun hb => ?_⟩
  · rw [hnsp]
    exact decodeNsp_comma data i
  · rw [hid]
    exact (decodeId_bounds _ _).1
  · rw [hid]
    exact (decodeId_bounds _ _).2
  · rwa [if_pos hb] at hatts
  · rwa [if_neg (by simp [hb])] at hatts

end Stages

section Stable

/-- A packet that was decoded is decoded again from its own text. -/
theorem decode_stable {J : Json} (hJ : J.Stable) (data : Bytes) (p : Packet) (h : decode J data = .ok p) :
    decode J (encode J p) = .ok p := by
  obtain ⟨i, -, -, -, hdata⟩ := decode_ok h
  have hvalid := decodeData_ok hdata
  have hcarried : J.Carries p.data := by
    by_cases hnull : p.data = .null
    · exact .inl hnull
    · obtain ⟨⟨text, htext⟩, hval⟩ := hvalid.resolve_left hnull
      obtain ⟨b, hb, hu⟩ := hJ.roundTrip text p.data htext
      exact .inr ⟨kind_of_validatePayload p.type p.data hnull hval, b, hb, hu, hJ.firstByte text p.data b htext hb⟩
  have hnone : payloadError p.type p.data = none := by
    unfold payloadError
    split_ifs with hnull
    · rfl
    · exact (hvalid.resolve_left hnull).2
  rw [decode_encode_of_carries p (headerOk_of_decode h) hcarried, hnone]
  rfl

/-- A binary event in `/admin`, with its count of attachments written `+01` and its id `007`. -/
def signedText : Bytes :=
  [53, 43, 48, 49, 45, 47, 97, 100, 109, 105, 110, 44, 48, 48, 55, 91, 34, 101, 118, 34, 44, 123, 34, 95, 112,
    108, 97, 99, 101, 104, 111, 108, 100, 101, 114, 34, 58, 116, 114, 117, 101, 44, 34, 110, 117, 109, 34, 58,
    48, 125, 93]

def signedPacket : Packet :=
  { type := .binaryEvent, nsp := [47, 97, 100, 109, 105, 110], id := 7, attachments := 1,
    data := .arr [.str [101, 118], .obj [(Value.placeholderKey, .bool true), (Value.numKey, .number 0)]] }

theorem decode_stable_signed : encode NonVacuity.strictJson signedPacket ≠ signedText ∧
    decode NonVacuity.strictJson (encode NonVacuity.strictJson signedPacket) = .ok signedPacket :=
  ⟨by decide +kernel, decode_stable NonVacuity.strictJson_stable signedText signedPacket (by decide +kernel)⟩

end Stable

section Ids

/-- The text `<type>[<attachments>-][<nsp>,]<digits><payload>` of a packet with an id. The digits
are all there are: a payload that goes on with one would be a number, which no packet has. -/
structure Numbered where
  type : PacketType
  attachments : Bytes := []
  nsp : Option Bytes := none
  digits : Bytes
  payload : Bytes
  dash : 45 ∉ attachments := by decide
  slash : ∀ nsp' ∈ nsp, nsp'.head? = some 47 ∧ 44 ∉ nsp' := by decide
  digits_ne : digits ≠ [] := by decide
  isDigit : ∀ c ∈ digits, isDigit c = true := by exact List.all_eq_true.mp rfl
  ends : ∀ c ∈ payload.head?, Strconv.isDigit c = false := by rintro _ ⟨⟩; rfl

namespace Numbered

variable (x : Numbered)

def number : ℕ := natOfDigits x.digits

def countText : Bytes := if x.type.isBinary then x.attachments ++ [45] else []

def nspText : Bytes := x.nsp.elim [] (· ++ [44])

def text : Bytes := [x.type.toByte] ++ x.countText ++ x.nspText ++ (x.digits ++ x.payload)

theorem decodeAttachments_text {n : ℤ} (h : decodeAttachments x.type x.text = .ok (n, i)) :
    i + 1 = ([x.type.toByte] ++ x.countText).length := by
  unfold decodeAttachments at h
  unfold countText
  split_ifs at h ⊢ with hbin
  · have hmid : ∀ c ∈ x.attachments, (c == 45) = false := by
      intro c hc
      rw [beq_eq_false_iff_ne]
      rintro rfl
      exact x.dash hc
    have htext : x.text = [x.type.toByte] ++ (x.attachments ++ ([45] ++ (x.nspText ++ (x.digits ++ x.payload)))) := by
      simp only [text, countText, if_pos hbin, List.append_assoc]
    have hscan : scan (· == 45) x.text 1 = ([x.type.toByte] ++ x.attachments).length := by
      rw [htext]
      exact scan_cursor [x.type.toByte] x.attachments _ (· == 45) hmid (by simp)
    rw [hscan] at h
    simp only at h
    split_ifs at h
    split at h
    · split_ifs at h
      obtain ⟨-, rfl⟩ := Prod.mk.inj (Except.ok.inj h)
      simp
    · cases h
  · obtain ⟨-, rfl⟩ := Prod.mk.inj (Except.ok.inj h)
    rfl

theorem decodeNsp_text (hi : i + 1 = ([x.type.toByte] ++ x.countText).length) :
    (decodeNsp x.text i).2 + 1 = ([x.type.toByte] ++ x.countText ++ x.nspText).length := by
  unfold text nspText
  cases hnsp : x.nsp with
  | none =>
    have hhead : (x.digits ++ x.payload).head? ≠ some 47 := by
      obtain ⟨c, cs, hds⟩ := List.exists_cons_of_ne_nil x.digits_ne
      have hc := x.isDigit c (by simp [hds])
      rw [hds, List.cons_append, List.head?_cons]
      rintro ⟨rfl⟩
      exact absurd hc (by decide)
    simp only [Option.elim_none, List.append_nil]
    rw [decodeNsp_absent _ _ i hi hhead]
    exact hi
  | some nsp =>
    obtain ⟨hslash, hcomma⟩ := x.slash nsp hnsp
    have hdec := decodeNsp_present ([x.type.toByte] ++ x.countText) nsp (x.digits ++ x.payload) i hi hslash hcomma
    simp only [Option.elim_some]
    simp only [List.append_assoc] at hdec ⊢
    rw [hdec]
    simp only [List.length_append, List.length_singleton]
    omega

theorem decode_id (h : decode J x.text = .ok p) :
    p.id = min (x.number : ℤ) maxInt64 := by
  have htype : p.type = x.type := decode_type h
  obtain ⟨i, hatt, -, hid, -⟩ := decode_ok h
  rw [htype] at hatt
  have hk := x.decodeNsp_text (x.decodeAttachments_text hatt)
  have hdec : decodeId x.text (decodeNsp x.text i).2 = _ :=
    decodeId_digits _ x.digits x.payload _ hk x.digits_ne x.isDigit fun c hc => x.ends c hc
  rw [hid, hdec]
  exact parseInt_digits x.digits x.digits_ne x.isDigit

end Numbered

variable {side : Side} {T : Type}

/-- An id arrives as the number that was written if and only if it is a 64-bit integer, and is
answered under it. Two ids that differ get the same answer only if both are too large. -/
theorem decoded_id_iff {J : Json} (x y : Numbered) {p q : Packet} (hp : decode J x.text = .ok p)
    (hq : decode J y.text = .ok q) :
    (p.id = x.number ↔ (x.number : ℤ) ≤ maxInt64) ∧
      ∀ (r r' : Request side T) (res res' : List Value), r.pkt = p → r'.pkt = q →
        ((r.response res).id = x.number ↔ (x.number : ℤ) ≤ maxInt64) ∧
        (x.number ≠ y.number → ((r.response res).id ≠ (r'.response res').id ↔
          ¬(maxInt64 ≤ (x.number : ℤ) ∧ maxInt64 ≤ (y.number : ℤ)))) := by
  have hx := x.decode_id hp
  have hy := y.decode_id hq
  have hfaithful : p.id = x.number ↔ (x.number : ℤ) ≤ maxInt64 := by
    rw [hx]
    exact min_eq_left_iff
  refine ⟨hfaithful, ?_⟩
  rintro r r' res res' rfl rfl
  refine ⟨hfaithful, fun hne => ?_⟩
  change r.pkt.id ≠ r'.pkt.id ↔ _
  rw [hx, hy]
  omega

def seven : Numbered := { type := .event, digits := [55], payload := [91, 34, 97, 34, 93] }

def eight : Numbered := { type := .event, digits := [56], payload := [91, 34, 97, 34, 93] }

def eventA (id : ℤ) : Packet := { type := .event, id, data := .arr [.str [97]] }

def requestA (id : ℤ) : Request .server Unit := { pkt := eventA id, name := [97], args := [] }

theorem decoded_id_iff_seven : (eventA 7).id = seven.number ∧
    ∀ res : List Value, ((requestA 7).response res).id ≠ ((requestA 8).response res).id := by
  have hseven : decode NonVacuity.textJson seven.text = .ok (eventA 7) := by decide +kernel
  have height : decode NonVacuity.textJson eight.text = .ok (eventA 8) := by decide +kernel
  obtain ⟨hfaithful, hresponse⟩ := @decoded_id_iff .server Unit _ seven eight _ _ hseven height
  refine ⟨hfaithful.mpr (by decide +kernel), fun res => ?_⟩
  exact ((hresponse (requestA 7) (requestA 8) res res rfl rfl).2 (by decide +kernel)).mpr (by decide +kernel)

/-- The text `218446744073709551616["a"]`: the id is `2 ^ 64`. -/
def hugeId : Numbered :=
  { type := .event
    digits := [49, 56, 52, 52, 54, 55, 52, 52, 48, 55, 51, 55, 48, 57, 53, 53, 49, 54, 49, 54]
    payload := [91, 34, 97, 34, 93] }

theorem huge_id_misread : ¬ ∀ (x : Numbered) (p : Packet), decode NonVacuity.textJson x.text = .ok p →
    p.id = x.number := by
  intro h
  have hid := h hugeId (eventA maxInt64) (by decide +kernel)
  exact absurd hid (by decide +kernel)

end Ids

section Namespaces

theorem registerNamespace_ok {S S' : Server} {nsp : Bytes} (h : S.registerNamespace nsp = .ok S') :
    nsp.head? = some 47 ∧ 1 < nsp.length ∧ (S'.namespaceLookup nsp).isSome := by
  unfold Server.registerNamespace at h
  split_ifs at h with hbad
  obtain ⟨hslash, hlen⟩ := not_or.mp hbad
  obtain ⟨rest, rfl⟩ := not_not.mp hslash
  refine ⟨rfl, not_le.mp hlen, ?_⟩
  obtain rfl := Except.ok.inj h
  unfold Server.namespaceFor
  split
  · rename_i ns hns
    rw [hns]
    rfl
  · simp [Server.namespaceLookup]

/-- A packet for a namespace that was registered arrives as it was sent if and only if the name
has no comma in it. Then it is looked up under the name it was registered with. -/
theorem registered_addressable_iff {J : Json} (hJ : J.Lawful) {S S' : Server} {nsp : Bytes}
    (hreg : S.registerNamespace nsp = .ok S') (t : PacketType) (id : ℤ) (data : Value) (attachments : ℤ)
    (hid : -1 ≤ id ∧ id ≤ 2 ^ 63 - 1)
    (hatt : if t.isBinary then 0 ≤ attachments ∧ attachments ≤ 2 ^ 63 - 1 else attachments = 0)
    (hdata : data = .null ∨ (data.isJson = true ∧ validatePayload t data = none)) :
    ((∃ q, decode J (encode J ⟨t, nsp, id, data, attachments⟩) = .ok q ∧ q.nsp = nsp ∧ q.id = id ∧
        q.data = data) ↔ 44 ∉ nsp) ∧
      (44 ∉ nsp → t.isBinary = false → ∀ recon,
        ∃ q, handleIn J recon ⟨encode J ⟨t, nsp, id, data, attachments⟩, false⟩ = (recon, some q) ∧
          q.nsp = nsp ∧ (S'.namespaceLookup q.nsp).isSome) := by
  obtain ⟨hslash, -, hfound⟩ := registerNamespace_ok hreg
  have hround (hcomma : 44 ∉ nsp) := decode_encode_packet hJ t nsp id data attachments ⟨hslash, hcomma⟩ hid hatt hdata
  refine ⟨⟨?_, fun hcomma => ⟨_, hround hcomma, rfl, rfl, rfl⟩⟩, fun hcomma hplain recon => ?_⟩
  · rintro ⟨q, hq, rfl, -⟩
    exact (headerOk_of_decode hq).nsp_comma
  · refine ⟨⟨t, nsp, id, data, attachments⟩, ?_, rfl, hfound⟩
    simp only [handleIn, hround hcomma, hplain, Bool.false_eq_true, if_false]

def bareServer : Server := { nsps := fun _ => none }

def chatNsp : Bytes := [47, 99, 104, 97, 116]

theorem registered_addressable_iff_chat : ∃ q, handleIn NonVacuity.textJson none
      ⟨encode NonVacuity.textJson ⟨.connect, chatNsp, -1, .obj [], 0⟩, false⟩ = (none, some q) ∧
    q.nsp = chatNsp ∧ ((bareServer.namespaceFor chatNsp).namespaceLookup q.nsp).isSome :=
  (registered_addressable_iff NonVacuity.textJson_lawful
    (rfl : bareServer.registerNamespace chatNsp = .ok (bareServer.namespaceFor chatNsp)) .connect (-1) (.obj []) 0
    (by decide) (by decide) (.inr ⟨by decide, by decide⟩)).2 (by decide) rfl none

def commaNsp : Bytes := [47, 97, 44, 98]

theorem comma_nsp_unreachable : ¬ ∀ (S S' : Server) (nsp : Bytes), S.registerNamespace nsp = .ok S' →
    ∃ q, decode NonVacuity.textJson (encode NonVacuity.textJson { type := .connect, nsp }) = .ok q ∧ q.nsp = nsp := by
  intro h
  obtain ⟨q, hq, -⟩ := h bareServer (bareServer.namespaceFor commaNsp) commaNsp rfl
  have hbad : decode NonVacuity.textJson (encode NonVacuity.textJson { type := .connect, nsp := commaNsp }) =
      .error .invalidPayload := by
    decide +kernel
  cases hbad.symm.trans hq

end Namespaces

end Gosocketio

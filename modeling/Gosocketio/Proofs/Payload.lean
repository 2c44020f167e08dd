import Gosocketio.Spec.Transport

/-! Polling payloads and single frames carry the same packets. A payload is cut
at every separator, so what has to be shown is that no encoded packet contains
one, and that every packet a payload decodes to can be encoded again. -/

namespace Gosocketio.Transport

/-- The packets the protocol sends: a text packet whose data has no separator in
it, or a binary message. -/
def Sendable (p : Packet) : Prop :=
  (p.isBinary = false ∧ separator ∉ p.data) ∨ (p.isBinary = true ∧ p.type = .message)

theorem separator_not_mem_base64 (bs : Bytes) : separator ∉ Base64.encode bs := by
  apply Base64.not_mem_encode bs separator (by decide)
  intro n hn
  interval_cases n <;> decide

theorem separator_not_mem_encodePacket (p : Packet) (h : Sendable p) :
    separator ∉ encodePacket p false := by
  unfold encodePacket
  rcases h with ⟨hb, hsep⟩ | ⟨hb, -⟩
  · simp only [hb, Bool.false_eq_true, if_false, List.mem_cons, not_or]
    exact ⟨(toByte_ne_separator p.type).symm, hsep⟩
  · simp only [hb, if_true, Bool.false_eq_true, if_false, List.mem_cons, not_or]
    exact ⟨by decide, separator_not_mem_base64 p.data⟩

theorem encodePacket_ne_nil (p : Packet) : encodePacket p false ≠ [] := by
  unfold encodePacket
  cases p.isBinary <;> simp

theorem decodePacket_text (t : PacketType) (data : Bytes) :
    decodePacket (t.toByte :: data) false = .ok { type := t, data } := by
  simp [decodePacket, toByte_ne_binaryMark]

/-- A packet survives the text form used by polling. -/
theorem decodePacket_encodePacket (p : Packet) (h : Sendable p) :
    decodePacket (encodePacket p false) false = .ok p := by
  obtain ⟨t, data, isBinary⟩ := p
  rcases h with ⟨hb, -⟩ | ⟨hb, ht⟩
  · obtain rfl : isBinary = false := hb
    exact decodePacket_text t data
  · obtain rfl : isBinary = true := hb
    obtain rfl : t = .message := ht
    simp [encodePacket, decodePacket, Base64.decode_encode]

/-- A packet survives the frame used by the websocket transport. -/
theorem decodePacket_frame (p : Packet) (h : Sendable p) :
    decodePacket (encodePacket p true) p.isBinary = .ok p := by
  obtain ⟨t, data, isBinary⟩ := p
  rcases h with ⟨hb, -⟩ | ⟨hb, ht⟩
  · obtain rfl : isBinary = false := hb
    exact decodePacket_text t data
  · obtain rfl : isBinary = true := hb
    obtain rfl : t = .message := ht
    rfl

theorem decodeParts_encoded (pkts : List Packet) (h : ∀ p ∈ pkts, Sendable p)
    (decoded : ℤ) (out : List Packet) :
    decodeParts 0 (pkts.map (encodePacket · false)) decoded out = (out ++ pkts, none) := by
  induction pkts generalizing decoded out with
  | nil => simp [decodeParts]
  | cons p pkts ih =>
    have hp := decodePacket_encodePacket p (h p (by simp))
    simp only [List.map_cons, decodeParts, lt_self_iff_false, false_and, if_false, hp]
    rw [ih (fun q hq => h q (by simp [hq]))]
    simp

theorem splitOn_encodePayload (pkts : List Packet) (hne : pkts ≠ []) (h : ∀ p ∈ pkts, Sendable p) :
    (encodePayload pkts).splitOn separator = pkts.map (encodePacket · false) := by
  apply List.splitOn_intercalate
  · intro l hl
    obtain ⟨p, hp, rfl⟩ := List.mem_map.mp hl
    exact separator_not_mem_encodePacket p (h p hp)
  · simpa using hne

theorem encodePayload_ne_nil (pkts : List Packet) (hne : pkts ≠ []) : encodePayload pkts ≠ [] := by
  cases pkts with
  | nil => exact absurd rfl hne
  | cons p pkts =>
    cases pkts with
    | nil => simpa [encodePayload] using encodePacket_ne_nil p
    | cons q pkts => simp [encodePayload, List.intercalate_cons_cons]

theorem decodePayload_encodePayload (pkts : List Packet) (h : ∀ p ∈ pkts, Sendable p) :
    decodePayload (encodePayload pkts) = (pkts, none) := by
  by_cases hne : pkts = []
  · subst hne
    rfl
  · rw [decodePayload, decodePayloadWithLimit, if_neg (encodePayload_ne_nil pkts hne),
      splitOn_encodePayload pkts hne h, decodeParts_encoded pkts h]
    simp

theorem mapM_decodePacket_frame (pkts : List Packet) (h : ∀ p ∈ pkts, Sendable p) :
    pkts.mapM (fun p => decodePacket (encodePacket p true) p.isBinary) = .ok pkts := by
  induction pkts with
  | nil => rfl
  | cons p pkts ih =>
    rw [List.mapM_cons, decodePacket_frame p (h p (by simp)), ih (fun q hq => h q (by simp [hq]))]
    rfl

theorem separator_not_mem_of_mem_splitOn (b part : Bytes) (h : part ∈ b.splitOn separator) :
    separator ∉ part := by
  induction b generalizing part with
  | nil =>
    simp only [List.splitOn_nil, List.mem_singleton] at h
    simp [h]
  | cons c b ih =>
    rw [List.splitOn_cons_eq_if_modifyHead] at h
    split_ifs at h with hc
    · rcases List.mem_cons.mp h with rfl | h
      · simp
      · exact ih part h
    · cases hs : b.splitOn separator with
      | nil => exact absurd hs (List.splitOn_ne_nil _ _)
      | cons p ps =>
        simp only [hs, List.modifyHead_cons, List.mem_cons] at h
        rcases h with rfl | h
        · have hp := ih p (by simp [hs])
          have hne : separator ≠ c := fun he => hc (by simp [he])
          simp [hne, hp]
        · exact ih part (by simp [hs, h])

theorem sendable_of_decodePacket (part : Bytes) (p : Packet) (hsep : separator ∉ part)
    (h : decodePacket part false = .ok p) : Sendable p := by
  cases part with
  | nil => simp [decodePacket] at h
  | cons c rest =>
    simp only [decodePacket, Bool.false_eq_true, if_false] at h
    split_ifs at h with hc
    · cases hd : Base64.decode rest with
      | none => simp [hd] at h
      | some data =>
        simp only [hd, Except.ok.injEq] at h
        subst h
        exact Or.inr ⟨rfl, rfl⟩
    · cases ht : PacketType.ofByte c with
      | none => simp [ht] at h
      | some t =>
        simp only [ht, Except.ok.injEq] at h
        subst h
        exact Or.inl ⟨rfl, fun hm => hsep (List.mem_cons_of_mem c hm)⟩

theorem sendable_of_decodeParts (parts : List Bytes) (hsep : ∀ part ∈ parts, separator ∉ part)
    (decoded : ℤ) (out pkts : List Packet) (hout : ∀ p ∈ out, Sendable p)
    (h : decodeParts 0 parts decoded out = (pkts, none)) : ∀ p ∈ pkts, Sendable p := by
  induction parts generalizing decoded out with
  | nil =>
    simp only [decodeParts, Prod.mk.injEq, and_true] at h
    subst h
    exact hout
  | cons part parts ih =>
    simp only [decodeParts, lt_self_iff_false, false_and, if_false] at h
    cases hp : decodePacket part false with
    | error e => simp [hp] at h
    | ok p =>
      simp only [hp] at h
      refine ih (fun q hq => hsep q (by simp [hq])) _ _ ?_ h
      intro q hq
      rcases List.mem_append.mp hq with hq | hq
      · exact hout q hq
      · rw [List.mem_singleton.mp hq]
        exact sendable_of_decodePacket part p (hsep part (by simp)) hp

theorem sendable_of_decodePayload (b : Bytes) (pkts : List Packet)
    (h : decodePayload b = (pkts, none)) : ∀ p ∈ pkts, Sendable p := by
  rw [decodePayload, decodePayloadWithLimit] at h
  split_ifs at h with hb
  · obtain rfl : [] = pkts := (Prod.mk.inj h).1
    simp
  · exact sendable_of_decodeParts _ (separator_not_mem_of_mem_splitOn b) 0 [] pkts (by simp) h

/-- A batch of packets goes through a polling payload unchanged, and through
single frames to the same list; and re-encoding what a payload decoded to,
however that payload spelled its base64, does not change the packets. -/
theorem payload_round_trip : (∀ pkts : List Packet, (∀ p ∈ pkts, Sendable p) →
      decodePayload (encodePayload pkts) = (pkts, none) ∧
      pkts.mapM (fun p => decodePacket (encodePacket p true) p.isBinary) = .ok pkts) ∧
    (∀ (b : Bytes) (pkts : List Packet), decodePayload b = (pkts, none) →
      decodePayload (encodePayload pkts) = (pkts, none)) := by
  refine ⟨fun pkts h => ⟨decodePayload_encodePayload pkts h, mapM_decodePacket_frame pkts h⟩, ?_⟩
  intro b pkts h
  exact decodePayload_encodePayload pkts (sendable_of_decodePayload b pkts h)

/-- A probe and a binary message, and a payload that spells the byte `1` with
leftover bits set and a line feed in the middle. -/
theorem payload_round_trip_probe :
    (decodePayload (encodePayload [⟨.ping, [112, 114], false⟩, ⟨.message, [0, 30, 255], true⟩]) =
        ([⟨.ping, [112, 114], false⟩, ⟨.message, [0, 30, 255], true⟩], none) ∧
      [(⟨.ping, [112, 114], false⟩ : Packet), ⟨.message, [0, 30, 255], true⟩].mapM
          (fun p => decodePacket (encodePacket p true) p.isBinary) =
        .ok [⟨.ping, [112, 114], false⟩, ⟨.message, [0, 30, 255], true⟩]) ∧
    decodePayload [98, 65, 10, 82, 61, 61] = ([⟨.message, [1], true⟩], none) ∧
    decodePayload (encodePayload [⟨.message, [1], true⟩]) = ([⟨.message, [1], true⟩], none) := by
  have hb : decodePayload [98, 65, 10, 82, 61, 61] = ([⟨.message, [1], true⟩], none) := by decide
  refine ⟨payload_round_trip.1 _ ?_, hb, payload_round_trip.2 _ _ hb⟩
  intro p hp
  simp only [List.mem_cons, List.not_mem_nil, or_false] at hp
  rcases hp with rfl | rfl
  · exact Or.inl ⟨rfl, by decide⟩
  · exact Or.inr ⟨rfl, rfl⟩

end Gosocketio.Transport

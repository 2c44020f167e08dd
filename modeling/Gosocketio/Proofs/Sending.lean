import Gosocketio.Proofs.Codec
import Gosocketio.Sanity.Binary
import Gosocketio.Spec.Framing

/-! What one packet becomes on its way: the messages it is sent as, and what the
receiver does with each of them. -/

namespace Gosocketio

open Strconv Value

/-- A payload made of JSON values and `[]byte` leaves. That many leaves are more than memory
can hold; beyond them a double no longer tells two placeholder numbers apart. -/
structure Value.Payload (v : Value) : Prop where
  payload : v.sorted.isPayload = true
  few : (v.leaves.filter isBytes).length ≤ 2 ^ 53

/-- What is the same for all packets an application sends. -/
structure Packet.Outgoing (p : Packet) : Prop extends Addressable p.nsp, Value.Payload p.data where
  id_lo : -1 ≤ p.id
  id_hi : p.id ≤ maxInt64
  plain : p.attachments = 0

/-- The packets an application sends: an event with its name and arguments, or
an acknowledgement. -/
structure Packet.Sendable (p : Packet) : Prop extends p.Outgoing where
  shape : (p.type = .event ∧ ∃ name args, p.data = .arr (.str name :: args)) ∨
    (p.type = .ack ∧ ∃ args, p.data = .arr args)

/-- What the framing asks of an event or an acknowledgement: the first element of
an event need not be its name. -/
structure Packet.Framable (p : Packet) : Prop extends p.Outgoing where
  type : p.type = .event ∨ p.type = .ack
  arr : ∃ xs, p.data = .arr xs

theorem Packet.Sendable.framable {p : Packet} (hp : p.Sendable) : p.Framable where
  toOutgoing := hp.toOutgoing
  type := hp.shape.imp And.left And.left
  arr := by
    obtain ⟨-, name, args, h⟩ | ⟨-, args, h⟩ := hp.shape <;> exact ⟨_, h⟩

/-- The payload passes the check of the parser. Only a reserved event name fails it. -/
def Packet.valid (p : Packet) : Bool := validatePayload p.type p.data = none

namespace Framing

section Payload

variable {p : Packet} (hp : p.Framable)

include hp

theorem leaf_cases : ∀ l ∈ p.data.leaves, l.jsonLeaf = true ∨ l.isBytes = true := by
  have h := hp.payload
  simp only [isPayload, Bool.and_eq_true, List.all_eq_true, Bool.or_eq_true] at h
  exact fun l hl => h.1 l ((mem_leaves_sorted _ l).mpr hl)

theorem isStored_leaf : ∀ l ∈ p.data.leaves, l.isStored = true := by
  intro l hl
  rcases leaf_cases hp l hl with h | h <;> cases l <;> simp_all [jsonLeaf, isBytes, isStored]

theorem keysOk : p.data.KeysOk := by
  have h := hp.payload
  rw [isPayload, Bool.and_eq_true] at h
  exact h.2

theorem slots_eq : p.data.slots = p.data.leaves.filter isBytes := by
  apply List.filter_congr
  intro l hl
  rcases leaf_cases hp l hl with h | h <;> cases l <;> simp_all [jsonLeaf, isBytes, isBinaryLeaf]

theorem few_slots : p.data.slots.length ≤ 2 ^ 53 := by
  rw [slots_eq hp]
  exact hp.few

theorem readLeaves_slots (readers : Readers) :
    readLeaves p.data.slots readers = (p.data.buffers, readers) := by
  have hall : ∀ l ∈ p.data.slots, l.isBytes = true := by
    intro l hl
    rw [slots_eq hp] at hl
    exact (List.mem_filter.mp hl).2
  exact readLeaves_bytes _ hall readers

theorem isPlaceholder_leaf : ∀ l ∈ p.data.leaves, l.isPlaceholder = false := by
  intro l hl
  rcases leaf_cases hp l hl with h | h <;> cases l <;> simp_all [jsonLeaf, isBytes, isPlaceholder]

end Payload

def headerOf (p : Packet) : Packet := if p.data.slots = [] then { p with data := p.data.sorted }
  else { p with type := plainToBinary p.type, data := (skeleton 0 p.data).image.sorted,
                attachments := p.data.slots.length }

/-- The header completed by the buffers of the packet. -/
def rebuilt (p : Packet) : Packet := if p.data.slots = [] then headerOf p
  else { headerOf p with type := p.type, data := reconstruct p.data.buffers (headerOf p).data }

def frame (b : Bytes) : InPacket := ⟨b, true⟩

def attachments (p : Packet) : List InPacket := p.data.buffers.map frame

theorem encode_congr (J : Json) (p : Packet) (d : Value) (hp : p.data ≠ .null) (hd : d ≠ .null)
    (h : J.marshal p.data = J.marshal d) : encode J p = encode J { p with data := d } := by
  simp only [encode, if_neg hp, if_neg hd, h]

section Send

variable {p : Packet} (hp : p.Framable)

include hp

theorem headerOf_data : (headerOf p).data = (skeleton 0 p.data).image.sorted := by
  unfold headerOf
  split_ifs with h
  · rw [skeleton_of_slots_nil p.data 0 h, image_of_not_placeholder _ (isPlaceholder_leaf hp)]
  · rfl

theorem isJson_header : (skeleton 0 p.data).image.sorted.isJson = true := by
  apply isJson_sorted
  · apply jsonLeaf_image_skeleton
    · intro l hl
      refine (leaf_cases hp l hl).imp id fun h => ?_
      cases l <;> simp_all [isBytes, isBinaryLeaf]
    · rw [zero_add]
      exact few_slots hp
  · exact keysOk_image_skeleton _ _ (keysOk hp)

theorem headerOf_framed : (headerOf p).data.Framed := by
  obtain ⟨xs, hxs⟩ := hp.arr
  have hjson := isJson_header hp
  rw [headerOf_data hp]
  refine Or.inr ⟨hjson, Or.inr (Or.inl ?_)⟩
  rw [hxs]
  rfl

theorem headerOf_headerOk : (headerOf p).HeaderOk := by
  have hfew := few_slots hp
  unfold headerOf
  split_ifs
  · refine ⟨hp.toAddressable, hp.id_lo, hp.id_hi, fun h => ?_, fun _ => hp.plain⟩
    rcases hp.type with ht | ht <;> simp [ht, PacketType.isBinary] at h
  · refine ⟨hp.toAddressable, hp.id_lo, hp.id_hi, fun _ => ⟨by simp, ?_⟩, fun h => ?_⟩
    · simp only [maxInt64]
      omega
    · rcases hp.type with ht | ht <;> simp [ht, plainToBinary, PacketType.isBinary] at h

theorem headerOf_error :
    payloadError (headerOf p).type (headerOf p).data = validatePayload p.type p.data := by
  obtain ⟨xs, hxs⟩ := hp.arr
  have hnull : (skeleton 0 p.data).image.sorted ≠ .null := by
    rw [hxs]
    exact nofun
  have htype : validatePayload (headerOf p).type (skeleton 0 p.data).image.sorted =
      validatePayload p.type (skeleton 0 p.data).image.sorted := by
    unfold headerOf
    split_ifs
    · rfl
    · rcases hp.type with ht | ht <;> rw [ht] <;> rfl
  rw [headerOf_data hp, payloadError, if_neg hnull, htype, hxs,
    validatePayload_skeleton _ _ _ (hp.type)]

variable {J : Json} (hc : J.Carries (headerOf p).data) (hW : J.WritesImage)

include hW in
/-- A packet goes out as one text message and its attachments. -/
theorem sendPacket_messages :
    (sendPacket J p noReaders).1 = ⟨encode J (headerOf p), false⟩ :: attachments p := by
  obtain ⟨xs, hxs⟩ := hp.arr
  have hmarshal : J.marshal (skeleton 0 p.data) = J.marshal (skeleton 0 p.data).image.sorted := by
    apply hW _ _ (isJson_header hp)
    rw [List.all_eq_true]
    exact smallPlaceholder_skeleton _ _ (isPlaceholder_leaf hp) (by have := few_slots hp; omega)
  have hnull : p.data ≠ .null ∧ skeleton 0 p.data ≠ .null ∧
      (skeleton 0 p.data).image.sorted ≠ .null := by
    rw [hxs]
    exact ⟨nofun, nofun, nofun⟩
  by_cases hs : p.data.slots = []
  · have hbin : ¬ hasBinary p.data = true := by
      rw [hasBinary_iff, not_not]
      exact hs
    have hheader : headerOf p = { p with data := (skeleton 0 p.data).image.sorted } := by
      rw [← headerOf_data hp, headerOf, if_pos hs]
    have hbufs : attachments p = [] := by rw [attachments, buffers, hs]; rfl
    rw [skeleton_of_slots_nil _ _ hs] at hmarshal hnull hheader
    rw [sendPacket, if_neg (fun h => hbin h.2), hbufs, hheader,
      encode_congr J p _ hnull.1 hnull.2.2 hmarshal]
  · have hread := readLeaves_slots hp noReaders
    have hdec := deconstruct_eq p.data { readers := noReaders } (fun _ => rfl)
    simp only [deconstructed, hread, List.length_nil, List.nil_append] at hdec
    rw [sendPacket, if_pos ⟨hnull.1, (hasBinary_iff _).mpr hs⟩, hdec, headerOf, if_neg hs]
    simp only [length_buffers]
    rw [encode_congr J ⟨plainToBinary p.type, p.nsp, p.id, skeleton 0 p.data, p.data.slots.length⟩ _
      hnull.2.1 hnull.2.2 hmarshal]
    rfl

include hc in
theorem decode_header : decode J (encode J (headerOf p)) =
    (validatePayload p.type p.data).elim (.ok (headerOf p)) .error := by
  rw [decode_encode_of_carries _ (headerOf_headerOk hp) hc, headerOf_error hp]

end Send

/-- A packet that the receiver can put together again: no map in a payload with
binary leaves is taken for a placeholder. -/
def Rebuildable (p : Packet) : Prop := hasBinary p.data = true → p.data.allMaps unmarked = true

section Rebuilt

variable {p : Packet} (hp : p.Framable)

include hp

theorem rebuilt_data : (rebuilt p).data.sorted = if p.data.slots = [] then p.data.sorted
    else (reconstruct p.data.buffers (skeleton 0 p.data).image).sorted := by
  unfold rebuilt
  split_ifs with hs
  · rw [headerOf, if_pos hs]
    exact sorted_of_ascending _ (keysOk hp)
  · simp only
    rw [headerOf_data hp, reconstruct_sorted _ _ (keysOk_image_skeleton _ _ (keysOk hp)),
      sorted_sorted]

theorem rebuilt_message (h : Rebuildable p) : (rebuilt p).message = p.message := by
  have hdata : (rebuilt p).data.sorted = p.data.sorted := by
    rw [rebuilt_data hp]
    split_ifs with hs
    · rfl
    · have := reconstruct_skeleton p.data (isStored_leaf hp) (h ((hasBinary_iff _).mpr hs)) [] []
        (by have := few_slots hp; simpa using this)
      simp only [List.nil_append, List.append_nil, List.length_nil] at this
      rw [this]
  unfold Packet.message
  rw [hdata]
  unfold rebuilt headerOf
  split_ifs <;> rfl

theorem rebuilt_nodes : (rebuilt p).data.sorted.nodes ≤ p.data.sorted.nodes := by
  rw [rebuilt_data hp]
  split_ifs
  · exact le_rfl
  · rw [nodes_sorted, nodes_sorted]
    exact (nodes_reconstruct_skeleton _ _ _).1

theorem rebuilt_nodes_lt (h : ¬ Rebuildable p) :
    (rebuilt p).data.sorted.nodes < p.data.sorted.nodes := by
  simp only [Rebuildable, Classical.not_imp, Bool.not_eq_true] at h
  rw [rebuilt_data hp, if_neg ((hasBinary_iff _).mp h.1), nodes_sorted, nodes_sorted]
  exact (nodes_reconstruct_skeleton _ _ _).2 h.2

end Rebuilt

section HandleIn

variable {J : Json} {p : Packet} (hc : J.Carries (headerOf p).data) (hp : p.Framable)
  (recon : Option Reconstructor)

include hc hp

theorem handleIn_plain (hv : p.valid = true) (hs : p.data.slots = []) :
    handleIn J recon ⟨encode J (headerOf p), false⟩ = (recon, some (rebuilt p)) := by
  have hdec := decode_header hp hc
  rw [Packet.valid, decide_eq_true_eq] at hv
  have htype : (headerOf p).type.isBinary = false := by
    rw [headerOf, if_pos hs]
    rcases hp.type with ht | ht <;> rw [ht] <;> rfl
  rw [hv] at hdec
  simp [handleIn, hdec, htype, rebuilt, hs]

theorem handleIn_header (hv : p.valid = true) (hs : p.data.slots ≠ []) :
    handleIn J recon ⟨encode J (headerOf p), false⟩ = (some { pkt := headerOf p }, none) := by
  have hdec := decode_header hp hc
  rw [Packet.valid, decide_eq_true_eq] at hv
  have htype : (headerOf p).type.isBinary = true := by
    rw [headerOf, if_neg hs]
    rcases hp.type with ht | ht <;> simp only [ht] <;> rfl
  have hatt : (headerOf p).attachments ≠ 0 := by
    rw [headerOf, if_neg hs]
    simpa using hs
  rw [hv] at hdec
  simp [handleIn, hdec, htype, hatt]

theorem handleIn_refused (hv : p.valid = false) :
    handleIn J recon ⟨encode J (headerOf p), false⟩ = (recon, none) := by
  have hdec := decode_header hp hc
  rw [Packet.valid, decide_eq_false_iff_not] at hv
  obtain ⟨e, he⟩ := Option.ne_none_iff_exists'.mp hv
  rw [he] at hdec
  simp [handleIn, hdec]

end HandleIn

section Feed

variable (J : Json) {p : Packet} (hp : p.Framable) {sent rest : List Bytes} {b : Bytes}
  (hb : p.data.buffers = sent ++ b :: rest)

include hb

theorem slots_ne_nil : p.data.slots ≠ [] := by
  intro h
  rw [buffers, h] at hb
  simp at hb

theorem headerOf_attachments : (headerOf p).attachments = p.data.buffers.length := by
  rw [headerOf, if_neg (slots_ne_nil hb), length_buffers]

theorem handleIn_buffer (hrest : rest ≠ []) :
    handleIn J (some { pkt := headerOf p, bufs := sent }) (frame b) =
      (some { pkt := headerOf p, bufs := sent ++ [b] }, none) := by
  have hlen : ((sent ++ [b]).length : ℤ) ≠ (headerOf p).attachments := by
    rw [headerOf_attachments hb, hb]
    have := List.length_pos_iff.mpr hrest
    simp only [List.length_append, List.length_cons, List.length_nil]
    omega
  exact if_pos hlen

include hp in
theorem handleIn_last (hrest : rest = []) :
    handleIn J (some { pkt := headerOf p, bufs := sent }) (frame b) = (none, some (rebuilt p)) := by
  subst hrest
  have hs := slots_ne_nil hb
  have htype : binaryToPlain (headerOf p).type = p.type := by
    rw [headerOf, if_neg hs]
    rcases hp.type with ht | ht <;> simp only [ht] <;> rfl
  simp only [frame, handleIn, if_true, feedBinary, ← hb, headerOf_attachments hb, ne_eq,
    not_true_eq_false, if_false, rebuilt, if_neg hs, htype]

end Feed

section Receive

variable {J : Json} {p : Packet} (hp : p.Framable) (r : Receiver)

include hp

theorem receive_plain (hJ : J.Lawful) (hv : p.valid = true) (hs : p.data.slots = []) :
    r.receive J ⟨encode J (headerOf p), false⟩ =
      { r with processed := r.processed ++ [rebuilt p] } := by
  rw [Receiver.receive, handleIn_plain ((headerOf_framed hp).carried hJ) hp _ hv hs]
  rfl

theorem receive_header (hJ : J.Lawful) (hv : p.valid = true) (hs : p.data.slots ≠ []) :
    r.receive J ⟨encode J (headerOf p), false⟩ = { r with recon := some { pkt := headerOf p } } := by
  rw [Receiver.receive, handleIn_header ((headerOf_framed hp).carried hJ) hp _ hv hs]
  simp

theorem receive_refused (hJ : J.Lawful) (hv : p.valid = false) :
    r.receive J ⟨encode J (headerOf p), false⟩ = r := by
  rw [Receiver.receive, handleIn_refused ((headerOf_framed hp).carried hJ) hp _ hv]
  simp

variable {sent rest : List Bytes} {b : Bytes} (hb : p.data.buffers = sent ++ b :: rest)
  (hr : r.recon = some { pkt := headerOf p, bufs := sent })

include hb hr

omit hp in
theorem receive_buffer (hrest : rest ≠ []) :
    r.receive J (frame b) = { r with recon := some { pkt := headerOf p, bufs := sent ++ [b] } } := by
  rw [Receiver.receive, hr, handleIn_buffer J hb hrest]
  simp

theorem receive_last (hrest : rest = []) :
    r.receive J (frame b) = { recon := none, processed := r.processed ++ [rebuilt p] } := by
  rw [Receiver.receive, hr, handleIn_last J hp hb hrest]
  rfl

end Receive

end Framing

end Gosocketio

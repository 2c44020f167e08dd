import Gosocketio.Proofs.Sending

/-! A stream of packets from one sender. Each packet is sent after the one before
it; packets without attachments may be slipped in anywhere, also between a header
and its attachments. The receiver gives every packet to `process` with the message
that completes it. -/

namespace Gosocketio

open Strconv Value

/-- What arrives of a packet. A negative id means that there is none, and the count
of attachments is a matter of framing. -/
def Packet.normal (p : Packet) : Packet :=
  { p with id := if 0 ≤ p.id then p.id else -1, attachments := 0 }

/-- An event or an acknowledgement with JSON values and `[]byte` leaves that the
parser accepts and in which no map looks like a placeholder. -/
structure Packet.Streamable (p : Packet) : Prop extends Addressable p.nsp, Value.Payload p.data where
  type : p.type = .event ∨ p.type = .ack
  arr : ∃ xs, p.data = .arr xs
  id_hi : p.id ≤ maxInt64
  valid : validatePayload p.type p.data = none
  unmarked : p.data.allMaps unmarked = true

structure Packet.Plain (q : Packet) : Prop extends Addressable q.nsp where
  type : q.type.isBinary = false
  id_hi : q.id ≤ maxInt64
  data : q.data = .null ∨ (q.data.sorted.isJson = true ∧ validatePayload q.type q.data = none)

namespace Framing

/-- `handleIn` on one message after another: the reconstructor at the end, and what
each of the messages gives to `process`. -/
def handleAll (J : Json) : Option Reconstructor → List InPacket →
    Option Reconstructor × List (Option Packet)
  | recon, [] => (recon, [])
  | recon, m :: ms =>
    let (recon, out) := handleIn J recon m
    let (recon, outs) := handleAll J recon ms
    (recon, out :: outs)

/-- A message of a packet, with what it is to give to `process`: nothing, or the
packet once the message is its last. -/
abbrev Cue := InPacket × Option Packet

def cues (p : Packet) : List InPacket → List Cue
  | [] => []
  | [m] => [(m, some p)]
  | m :: m' :: ms => (m, none) :: cues p (m' :: ms)

def script (J : Json) (p : Packet) : List Cue := cues p (sendPacket J p noReaders).1

/-- `Woven J cs qs zs`: the packets `qs`, in order, have been slipped into the
messages `cs`, which gives `zs`. -/
inductive Woven (J : Json) : List Cue → List Packet → List Cue → Prop
  | nil : Woven J [] [] []
  | keep {cs qs zs} (c : Cue) (h : Woven J cs qs zs) : Woven J (c :: cs) qs (c :: zs)
  | slip {cs qs zs} (q : Packet) (h : Woven J cs qs zs) : Woven J cs (q :: qs) (script J q ++ zs)

section Normal

theorem formatInt_normal (p : Packet) : (if 0 ≤ p.normal.id then formatInt p.normal.id else []) =
    if 0 ≤ p.id then formatInt p.id else [] := by
  by_cases h : 0 ≤ p.id
  · simp only [Packet.normal, if_pos h]
  · simp only [Packet.normal, if_neg h]
    rfl

theorem encode_normal (J : Json) {p : Packet} (ht : p.type.isBinary = false) :
    encode J p = encode J p.normal := by
  simp only [encode, formatInt_normal]
  simp only [Packet.normal, ht]
  rfl

theorem sendPacket_normal (J : Json) {p : Packet} (ht : p.type = .event ∨ p.type = .ack) :
    (sendPacket J p noReaders).1 = (sendPacket J p.normal noReaders).1 := by
  have hplain : p.type.isBinary = false := by rcases ht with ht | ht <;> rw [ht] <;> rfl
  have hheader (t : PacketType) (d : Value) (n : ℤ) :
      encode J { p with type := t, data := d, attachments := n } =
        encode J { p.normal with type := t, data := d, attachments := n } := by
    simp only [encode, formatInt_normal]
    rfl
  by_cases hb : p.data ≠ .null ∧ hasBinary p.data = true
  · have hb' : p.normal.data ≠ .null ∧ hasBinary p.normal.data = true := hb
    rcases hd : deconstruct p.data { readers := noReaders } with ⟨r, s⟩
    have hd' : deconstruct p.normal.data { readers := noReaders } = (r, s) := hd
    cases r with
    | error e => simp only [sendPacket, if_pos hb, if_pos hb', hd, hd']
    | ok data =>
      simp only [sendPacket, if_pos hb, if_pos hb', hd, hd', hheader]
      rfl
  · have hb' : ¬ (p.normal.data ≠ .null ∧ hasBinary p.normal.data = true) := hb
    rw [sendPacket, sendPacket, if_neg hb, if_neg hb', encode_normal J hplain]

end Normal

section Plain

theorem validatePayload_sorted (t : PacketType) (v : Value) :
    validatePayload t v.sorted = validatePayload t v := by
  cases v with
  | arr xs =>
    cases xs with
    | nil => rfl
    | cons x xs => cases t <;> cases x <;> rfl
  | _ => cases t <;> rfl

theorem sorted_eq_null {v : Value} : v.sorted = .null ↔ v = .null := by
  cases v <;> simp [sorted]

variable {q : Packet} (hq : q.Plain)

include hq

theorem plain_leaves : ∀ l ∈ q.data.leaves, l.jsonLeaf = true := by
  rcases hq.data with hnull | ⟨hjson, -⟩
  · rw [hnull]
    intro l hl
    rw [List.mem_singleton.mp hl]
    rfl
  · rw [isJson, Bool.and_eq_true, List.all_eq_true] at hjson
    exact fun l hl => hjson.1 l ((mem_leaves_sorted _ l).mpr hl)

theorem plain_slots : q.data.slots = [] := by
  rw [slots, List.filter_eq_nil_iff]
  intro l hl
  have := plain_leaves hq l hl
  cases l <;> simp_all [jsonLeaf, isBinaryLeaf]

theorem plain_headerOk : Packet.HeaderOk { q.normal with data := q.data.sorted } := by
  refine ⟨hq.toAddressable, ?_, ?_, fun h => ?_, fun _ => rfl⟩
  · simp only [Packet.normal]
    split_ifs <;> omega
  · simp only [Packet.normal]
    split_ifs
    · exact hq.id_hi
    · simp [maxInt64]
  · exact absurd (hq.type.symm.trans h) (by simp)

variable {J : Json} (hW : J.WritesImage)

include hW in
theorem plain_messages : (sendPacket J q noReaders).1 =
    [⟨encode J { q.normal with data := q.data.sorted }, false⟩] := by
  have hbin : ¬ (q.data ≠ .null ∧ hasBinary q.data = true) := fun h =>
    (hasBinary_iff _).mp h.2 (plain_slots hq)
  rw [sendPacket, if_neg hbin, encode_normal J hq.type]
  rcases hq.data with hnull | ⟨hjson, -⟩
  · have hdata : q.data.sorted = q.data := by rw [hnull]; rfl
    rw [hdata]
    rfl
  · have himage : q.data.image = q.data := image_of_not_placeholder _ fun l hl =>
      isPlaceholder_of_jsonLeaf l (plain_leaves hq l hl)
    have hsmall : q.data.leaves.all smallPlaceholder = true := by
      rw [List.all_eq_true]
      intro l hl
      have := plain_leaves hq l hl
      cases l <;> simp_all [jsonLeaf, smallPlaceholder]
    have hmarshal : J.marshal q.data = J.marshal q.data.sorted := by
      have := hW q.data hsmall (by rw [himage]; exact hjson)
      rwa [himage] at this
    by_cases hnull : q.data = .null
    · have hdata : q.data.sorted = q.data := by rw [hnull]; rfl
      rw [hdata]
      rfl
    · rw [encode_congr J q.normal q.data.sorted hnull (mt sorted_eq_null.mp hnull) hmarshal]

/-- A packet without attachments is processed when it arrives, whatever the
reconstructor is waiting for. -/
theorem handleIn_of_plain (hJ : J.Lawful) (recon : Option Reconstructor) :
    handleIn J recon ⟨encode J { q.normal with data := q.data.sorted }, false⟩ =
      (recon, some { q.normal with data := q.data.sorted }) := by
  have hdata : q.data.sorted = .null ∨
      (q.data.sorted.isJson = true ∧ validatePayload q.type q.data.sorted = none) := by
    rw [sorted_eq_null, validatePayload_sorted]
    exact hq.data
  obtain ⟨hframed, hnone⟩ := framed_of_validatePayload q.type _ hdata
  have hdec := decode_encode J hJ _ (plain_headerOk hq) hframed
  rw [show payloadError (Packet.type { q.normal with data := q.data.sorted }) q.data.sorted = none
    from hnone] at hdec
  have htype : PacketType.isBinary q.normal.type = false := hq.type
  simp [handleIn, hdec, htype]

end Plain

section Streamable

variable {p : Packet} (hp : p.Streamable)

include hp

theorem streamable_framable : p.normal.Framable where
  toAddressable := hp.toAddressable
  toPayload := hp.toPayload
  type := hp.type
  arr := hp.arr
  id_lo := by
    simp only [Packet.normal]
    split_ifs <;> omega
  id_hi := by
    simp only [Packet.normal]
    split_ifs
    · exact hp.id_hi
    · simp [maxInt64]
  plain := rfl

theorem streamable_messages {J : Json} (hW : J.WritesImage) :
    (sendPacket J p noReaders).1 = ⟨encode J (headerOf p.normal), false⟩ :: attachments p.normal := by
  rw [sendPacket_normal J hp.type, sendPacket_messages (streamable_framable hp) hW]

theorem streamable_valid : p.normal.valid = true := decide_eq_true hp.valid

theorem streamable_rebuilt : (rebuilt p.normal).message = p.normal.message :=
  rebuilt_message (streamable_framable hp) fun _ => hp.unmarked

end Streamable

section Run

variable {J : Json}

/-- What the receiver waits for is what the sender has left to send: the rest of
the packet in hand, and the packets behind it. -/
inductive Ready (J : Json) : Option Reconstructor → List Cue → Prop
  | idle {ps : List Packet} (hps : ∀ p ∈ ps, p.Streamable) : Ready J none (ps.flatMap (script J))
  | midway {ps : List Packet} {p : Packet} {sent rest : List Bytes} (hps : ∀ p ∈ ps, p.Streamable)
      (hp : p.Streamable) (hb : p.normal.data.buffers = sent ++ rest) (hne : rest ≠ []) :
      Ready J (some { pkt := headerOf p.normal, bufs := sent })
        (cues p (rest.map frame) ++ ps.flatMap (script J))

/-- What a message gives to `process` is what its cue says, map order apart. -/
def Agrees (out expected : Option Packet) : Prop :=
  out.map Packet.message = expected.map fun p => p.normal.message

theorem ready_nil {recon : Option Reconstructor} (h : Ready J recon []) : recon = none := by
  generalize hnil : ([] : List Cue) = cs at h
  cases h with
  | idle => rfl
  | @midway ps p sent rest _ _ _ hne =>
    obtain ⟨b, rest, rfl⟩ := List.exists_cons_of_ne_nil hne
    cases rest <;> exact absurd hnil nofun

variable (hJ : J.Lawful) (hW : J.WritesImage)

include hJ hW

theorem ready_script {ps : List Packet} {p : Packet} {c : Cue} {cs : List Cue}
    (hps : ∀ p ∈ ps, p.Streamable) (hp : p.Streamable)
    (hc : script J p ++ ps.flatMap (script J) = c :: cs) :
    Agrees (handleIn J none c.1).2 c.2 ∧ Ready J (handleIn J none c.1).1 cs := by
  have hf := streamable_framable hp
  rw [script, streamable_messages hp hW] at hc
  cases hbufs : p.normal.data.buffers with
  | nil =>
    have hs : p.normal.data.slots = [] := by simpa [buffers] using hbufs
    rw [attachments, hbufs] at hc
    obtain ⟨rfl, rfl⟩ := List.cons.inj hc
    rw [handleIn_plain ((headerOf_framed hf).carried hJ) hf _ (streamable_valid hp) hs]
    exact ⟨congrArg some (streamable_rebuilt hp), .idle hps⟩
  | cons b rest =>
    have hb : p.normal.data.buffers = [] ++ b :: rest := hbufs
    rw [attachments, hbufs] at hc
    obtain ⟨rfl, rfl⟩ := List.cons.inj hc
    rw [handleIn_header ((headerOf_framed hf).carried hJ) hf _ (streamable_valid hp) (slots_ne_nil hb)]
    exact ⟨rfl, .midway hps hp hb (by simp)⟩

theorem ready_step {recon : Option Reconstructor} {c : Cue} {cs : List Cue}
    (h : Ready J recon (c :: cs)) :
    Agrees (handleIn J recon c.1).2 c.2 ∧ Ready J (handleIn J recon c.1).1 cs := by
  generalize hall : c :: cs = all at h
  cases h with
  | @idle ps hps =>
    cases ps with
    | nil => exact absurd hall nofun
    | cons p ps =>
      exact ready_script hJ hW (fun q hq => hps q (List.mem_cons_of_mem p hq))
        (hps p List.mem_cons_self) hall.symm
  | @midway ps p sent rest hps hp hb hne =>
    cases rest with
    | nil => exact absurd rfl hne
    | cons b rest =>
      cases rest with
      | nil =>
        obtain ⟨rfl, rfl⟩ := List.cons.inj hall
        rw [handleIn_last J (streamable_framable hp) hb rfl]
        exact ⟨congrArg some (streamable_rebuilt hp), .idle hps⟩
      | cons b' rest =>
        obtain ⟨rfl, rfl⟩ := List.cons.inj hall
        have hb' : p.normal.data.buffers = (sent ++ [b]) ++ b' :: rest := by
          rw [hb, List.append_assoc]
          rfl
        rw [handleIn_buffer J hb nofun]
        exact ⟨rfl, .midway hps hp hb' nofun⟩

omit hJ in
theorem script_plain {q : Packet} (hq : q.Plain) :
    script J q = [(⟨encode J { q.normal with data := q.data.sorted }, false⟩, some q)] := by
  rw [script, plain_messages hq hW]
  rfl

/-- The receiver follows the script from any point of it. -/
theorem handleAll_woven {cs zs : List Cue} {qs : List Packet} (h : Woven J cs qs zs)
    (hqs : ∀ q ∈ qs, q.Plain) {recon : Option Reconstructor} (hr : Ready J recon cs) :
    (handleAll J recon (zs.map Prod.fst)).1 = none ∧
      List.Forall₂ Agrees (handleAll J recon (zs.map Prod.fst)).2 (zs.map Prod.snd) := by
  induction h generalizing recon with
  | nil => exact ⟨ready_nil hr, .nil⟩
  | keep c _ ih =>
    obtain ⟨hagrees, hready⟩ := ready_step hJ hW hr
    obtain ⟨hend, hrest⟩ := ih hqs hready
    exact ⟨hend, .cons hagrees hrest⟩
  | @slip cs qs zs q _ ih =>
    have hq := hqs q List.mem_cons_self
    obtain ⟨hend, hrest⟩ := ih (fun q' hq' => hqs q' (List.mem_cons_of_mem q hq')) hr
    have hin := handleIn_of_plain hq hJ recon
    have hmessage : Packet.message { q.normal with data := q.data.sorted } = q.normal.message := by
      simp only [Packet.message, sorted_sorted]
      rfl
    rw [script_plain hW hq]
    simp only [List.cons_append, List.nil_append, List.map_cons, handleAll, hin]
    exact ⟨hend, .cons (congrArg some hmessage) hrest⟩

omit hJ in
theorem filterMap_script {p : Packet} (hp : p.Streamable ∨ p.Plain) :
    (script J p).filterMap Prod.snd = [p] := by
  have hcues (m : InPacket) (ms : List InPacket) : (cues p (m :: ms)).filterMap Prod.snd = [p] := by
    induction ms generalizing m with
    | nil => rfl
    | cons m' ms ih => exact ih m'
  rcases hp with hp | hp
  · rw [script, streamable_messages hp hW]
    exact hcues _ _
  · rw [script, plain_messages hp hW]
    exact hcues _ _

omit hJ in
/-- The script of a stream names exactly the packets sent. -/
theorem filterMap_woven {cs zs : List Cue} {qs : List Packet} (h : Woven J cs qs zs)
    (hqs : ∀ q ∈ qs, q.Plain) :
    (zs.filterMap Prod.snd).Perm (cs.filterMap Prod.snd ++ qs) := by
  induction h with
  | nil => exact .nil
  | keep c _ ih =>
    have := ih hqs
    cases hc : c.2 with
    | none | some => simpa [hc] using this
  | @slip cs qs zs q _ ih =>
    have hrest := ih fun q' hq' => hqs q' (List.mem_cons_of_mem q hq')
    rw [List.filterMap_append, filterMap_script hW (.inr (hqs q List.mem_cons_self))]
    exact (hrest.cons q).trans List.perm_middle.symm

/-- Whatever packets without attachments are slipped into a stream, each message
gives to `process` what the script says: nothing, or the packet it completes. The
packets in the script are those sent, and nothing is left pending. -/
theorem stream_in_order (ps qs : List Packet) (zs : List Cue) (hps : ∀ p ∈ ps, p.Streamable)
    (hqs : ∀ q ∈ qs, q.Plain) (h : Woven J (ps.flatMap (script J)) qs zs) :
    (handleAll J none (zs.map Prod.fst)).1 = none ∧
      List.Forall₂ Agrees (handleAll J none (zs.map Prod.fst)).2 (zs.map Prod.snd) ∧
      (zs.filterMap Prod.snd).Perm (ps ++ qs) := by
  obtain ⟨hend, hagree⟩ := handleAll_woven hJ hW h hqs (.idle hps)
  have hsent : (ps.flatMap (script J)).filterMap Prod.snd = ps := by
    clear h hend hagree
    induction ps with
    | nil => rfl
    | cons p ps ih =>
      rw [List.flatMap_cons, List.filterMap_append, filterMap_script hW (.inl (hps p List.mem_cons_self)),
        ih fun q hq => hps q (List.mem_cons_of_mem p hq)]
      rfl
  exact ⟨hend, hagree, hsent ▸ filterMap_woven hW h hqs⟩

end Run

section NonVacuity

open NonVacuity

/-- An event with two buffers, one of them in a map. -/
def upload : Packet :=
  { type := .event, id := 7, data := .arr [.str [97], .bytes [1], .obj [([98], .bytes [2])]] }

def reply : Packet := { type := .ack, id := 3, data := .arr [.bool true] }

theorem upload_streamable : upload.Streamable where
  type := .inl rfl
  arr := ⟨_, rfl⟩
  nsp_head := rfl
  nsp_comma := by decide
  id_hi := by decide
  payload := by decide
  few := by decide
  valid := by decide
  unmarked := by decide

theorem reply_plain : reply.Plain where
  type := rfl
  nsp_head := rfl
  nsp_comma := by decide
  id_hi := by decide
  data := .inr ⟨by decide, by decide⟩

/-- The reply is slipped in between the header and the first buffer. -/
def slipped : List Cue := (⟨encode textJson (headerOf upload.normal), false⟩, none) ::
    (script textJson reply ++ [(frame [1], none), (frame [2], some upload)])

theorem slipped_woven : Woven textJson ([upload].flatMap (script textJson)) [reply] slipped := by
  exact .keep _ (.slip _ (.keep _ (.keep _ .nil)))

theorem stream_in_order_slipped : (handleAll textJson none (slipped.map Prod.fst)).1 = none ∧
      List.Forall₂ Agrees (handleAll textJson none (slipped.map Prod.fst)).2 (slipped.map Prod.snd) ∧
      (slipped.filterMap Prod.snd).Perm ([upload] ++ [reply]) :=
  stream_in_order textJson_lawful textJson_writesImage [upload] [reply] slipped
    (by simpa using upload_streamable) (by simpa using reply_plain) slipped_woven

/-- An event whose id is negative, but not -1. -/
def unnumbered : Packet := { type := .event, id := -2, data := .arr [.str [97]] }

theorem negative_id_not_kept : unnumbered.Streamable ∧
    ∃ p, handleAll textJson none ((script textJson unnumbered).map Prod.fst) = (none, [some p]) ∧
      p.id ≠ unnumbered.id := by
  have hplain : unnumbered.Plain := ⟨⟨rfl, by decide⟩, rfl, by decide, .inr ⟨by decide, by decide⟩⟩
  refine ⟨⟨⟨rfl, by decide⟩, ⟨by decide, by decide⟩, .inl rfl, ⟨_, rfl⟩, by decide, by decide, by decide⟩,
    { unnumbered.normal with data := unnumbered.data.sorted }, ?_, by decide⟩
  rw [script_plain textJson_writesImage hplain]
  simp only [List.map_cons, List.map_nil, handleAll, handleIn_of_plain hplain textJson_lawful none]

end NonVacuity

end Framing

end Gosocketio

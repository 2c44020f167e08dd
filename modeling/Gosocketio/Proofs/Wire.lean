import Gosocketio.Proofs.BodyGate
import Gosocketio.Proofs.Payload
import Gosocketio.Proofs.Stream
import Gosocketio.Spec.Wire

/-! The codec of the whole stack. A batch arrives as it was sent exactly if its carrier can tell
its packets apart; no carrier loses a packet without an error, so two batches cannot make up for
each other. On top of that the Socket.IO layer puts headers and attachments together again,
whatever the transports were and wherever the batches were cut. -/

namespace Gosocketio.Wire

open Strconv Transport

/-- The batches a carrier takes over unchanged: no text packet of a polling payload has the
separator in it, and the sizes are within the limits. -/
def Carrier.Carries (pkts : List Transport.Packet) : Carrier → Prop
  | .post port _ =>
    (port.dataReq = false ∧ (encodePayload pkts).length ≤ port.maxBufferSize) ∧ ∀ p ∈ pkts, Sendable p
  | .poll => ∀ p ∈ pkts, Sendable p
  | .websocket readLimit =>
    ∀ p ∈ pkts, (p.isBinary = true → p.type = .message) ∧ (encodePacket p true).length ≤ readLimit

instance : DecidablePred Sendable := fun p =>
  inferInstanceAs (Decidable ((p.isBinary = false ∧ separator ∉ p.data) ∨ (p.isBinary = true ∧ p.type = .message)))

instance (c : Carrier) (pkts : List Transport.Packet) : Decidable (c.Carries pkts) := by
  cases c with
  | post | poll | websocket =>
    unfold Carrier.Carries
    infer_instance

/-- With the largest limit a port reads nothing of a body. -/
def Carrier.Limited : Carrier → Prop
  | .post port _ => port.maxBufferSize < maxInt64
  | _ => True

section Payload

variable {pkts got : List Transport.Packet}

/-- A separator in a packet makes more parts of it, never fewer. -/
theorem length_le_parts (pkts : List Transport.Packet) :
    pkts.length ≤ (parts (encodePayload pkts)).length := by
  induction pkts with
  | nil => exact Nat.zero_le _
  | cons p pkts ih =>
    rw [parts, if_neg (encodePayload_ne_nil _ (List.cons_ne_nil p pkts))]
    cases pkts with
    | nil => exact List.length_pos_of_ne_nil (List.splitOn_ne_nil _ _)
    | cons q pkts =>
      rw [parts, if_neg (encodePayload_ne_nil _ (List.cons_ne_nil q pkts))] at ih
      have hcut : encodePayload (p :: q :: pkts) =
          encodePacket p false ++ separator :: encodePayload (q :: pkts) := by
        simp [encodePayload, List.intercalate_cons_cons]
      have hfirst := List.length_pos_of_ne_nil (List.splitOn_ne_nil separator (encodePacket p false))
      rw [hcut, List.splitOn_append_cons_self, List.length_append, List.length_cons]
      omega

theorem length_le_of_decodePayload (h : decodePayload (encodePayload pkts) = (got, none)) :
    pkts.length ≤ got.length := by
  have hparts := length_le_parts pkts
  rw [decodePayload_eq] at h
  rcases decodeEach_cases (parts (encodePayload pkts)) with ⟨-, hall⟩ | ⟨e, herr⟩
  · rw [h] at hall
    exact hparts.trans hall.length_eq.le
  · rw [h] at herr
    cases herr

theorem readPoll_eq {body : Bytes} : readPoll body = (got, true) ↔ decodePayload body = (got, none) := by
  unfold readPoll
  rcases decodePayload body with ⟨pkts, _ | e⟩ <;> simp

theorem readPoll_exact_iff : readPoll (encodePayload pkts) = (pkts, true) ↔ ∀ p ∈ pkts, Sendable p := by
  rw [readPoll_eq]
  exact ⟨sendable_of_decodePayload _ _, decodePayload_encodePayload pkts⟩

end Payload

section Frames

theorem decodePacket_frame_exact_iff (p : Transport.Packet) :
    decodePacket (encodePacket p true) p.isBinary = .ok p ↔ (p.isBinary = true → p.type = .message) := by
  obtain ⟨t, data, isBinary⟩ := p
  cases isBinary with
  | false =>
    refine iff_of_true (decodePacket_text t data) fun h => ?_
    cases h
  | true => simp [encodePacket, decodePacket, eq_comm]

theorem exists_decodePacket_frame (p : Transport.Packet) :
    ∃ q, decodePacket (encodePacket p true) p.isBinary = .ok q := by
  obtain ⟨t, data, isBinary⟩ := p
  cases isBinary with
  | false => exact ⟨_, decodePacket_text t data⟩
  | true => exact ⟨_, rfl⟩

theorem readFrames_cons (readLimit : ℕ) (p : Transport.Packet) (pkts : List Transport.Packet) :
    readFrames readLimit (p :: pkts) = ([], false) ∧ readLimit < (encodePacket p true).length ∨
      (encodePacket p true).length ≤ readLimit ∧
        ∃ q, decodePacket (encodePacket p true) p.isBinary = .ok q ∧ readFrames readLimit (p :: pkts) =
          (q :: (readFrames readLimit pkts).1, (readFrames readLimit pkts).2) := by
  obtain ⟨q, hq⟩ := exists_decodePacket_frame p
  by_cases hlong : readLimit < (encodePacket p true).length
  · exact .inl ⟨by rw [readFrames, if_pos hlong], hlong⟩
  · exact .inr ⟨not_lt.mp hlong, q, hq, by rw [readFrames, if_neg hlong, hq]⟩

variable {readLimit : ℕ}

theorem length_le_readFrames (pkts : List Transport.Packet) (h : (readFrames readLimit pkts).2 = true) :
    pkts.length ≤ (readFrames readLimit pkts).1.length := by
  induction pkts with
  | nil => exact Nat.zero_le _
  | cons p pkts ih =>
    rcases readFrames_cons readLimit p pkts with ⟨heq, -⟩ | ⟨-, q, -, heq⟩
    · rw [heq] at h
      cases h
    · rw [heq] at h ⊢
      exact Nat.succ_le_succ (ih h)

theorem readFrames_exact_iff (pkts : List Transport.Packet) :
    readFrames readLimit pkts = (pkts, true) ↔
      ∀ p ∈ pkts, (p.isBinary = true → p.type = .message) ∧ (encodePacket p true).length ≤ readLimit := by
  induction pkts with
  | nil => simp [readFrames]
  | cons p pkts ih =>
    rw [List.forall_mem_cons, ← ih, ← decodePacket_frame_exact_iff]
    rcases readFrames_cons readLimit p pkts with ⟨heq, hlong⟩ | ⟨hfits, q, hq, heq⟩
    · rw [heq]
      refine iff_of_false (fun h => ?_) fun h => absurd h.1.2 (not_le.mpr hlong)
      cases h
    · rw [heq, hq]
      simp [Prod.ext_iff, hfits, and_assoc]

end Frames

section Batch

variable {pkts : List Transport.Packet} {port : Http.DataPort} {sid : String}

/-- A POST is an answer to a poll behind a gate. -/
theorem carry_post (hmax : port.maxBufferSize < maxInt64) : (Carrier.post port sid).carry pkts =
    if port.dataReq = false ∧ (encodePayload pkts).length ≤ port.maxBufferSize then
      readPoll (encodePayload pkts)
    else ([], false) := by
  have htext : (postRequest sid pkts).isOctetStream = false := by
    show "application/octet-stream".toList.isPrefixOf "text/plain; charset=UTF-8".toList = false
    decide +kernel
  by_cases hidle : port.dataReq = false
  · have hadmitted : Http.Admitted port (postRequest sid pkts) (encodePayload pkts) := ⟨hidle, htext, rfl⟩
    by_cases hfits : (encodePayload pkts).length ≤ port.maxBufferSize
    · have hread := (Http.readAll_exact (by omega) hmax (encodePayload pkts)).2 hfits
      rw [if_pos ⟨hidle, hfits⟩, Carrier.carry, Http.onDataRequest_admitted hadmitted, hread,
        if_neg (not_lt.mpr hfits), readPoll]
      rcases decodePayload (encodePayload pkts) with ⟨got, _ | e⟩ <;> rfl
    · have hlong : port.maxBufferSize < (port.readAll (encodePayload pkts)).length := by
        by_cases hneg : 0 ≤ port.maxBufferSize
        · exact (Http.readAll_exact hneg hmax _).1.mpr (not_le.mp hfits)
        · omega
      rw [if_neg fun h => hfits h.2, Carrier.carry, Http.onDataRequest_admitted hadmitted, if_pos hlong]
      rfl
  · obtain ⟨err, herr⟩ := Http.onDataRequest_not_admitted (p := port) (r := postRequest sid pkts)
      fun body h => hidle h.idle
    rw [if_neg fun h => hidle h.1, Carrier.carry, herr]
    rfl

theorem length_le_carry {c : Carrier} (hc : c.Limited) (h : (c.carry pkts).2 = true) :
    pkts.length ≤ (c.carry pkts).1.length := by
  have hpoll (h : (readPoll (encodePayload pkts)).2 = true) :
      pkts.length ≤ (readPoll (encodePayload pkts)).1.length :=
    length_le_of_decodePayload (readPoll_eq.mp (Prod.ext rfl h))
  cases c with
  | post port sid =>
    rw [carry_post hc] at h ⊢
    split_ifs at h ⊢ with hgate
    exact hpoll h
  | poll => exact hpoll h
  | websocket readLimit => exact length_le_readFrames pkts h

theorem carry_exact_iff {c : Carrier} (hc : c.Limited) : c.carry pkts = (pkts, true) ↔ c.Carries pkts := by
  cases c with
  | post port sid =>
    rw [carry_post hc, Carrier.Carries, ← readPoll_exact_iff]
    split_ifs with hgate
    · exact (and_iff_right hgate).symm
    · refine iff_of_false (fun h => ?_) fun h => hgate h.1
      cases h
  | poll => exact readPoll_exact_iff
  | websocket readLimit => exact readFrames_exact_iff pkts

end Batch

section Session

variable {batches : List Batch}

theorem deliver_cons (c : Carrier) (pkts : List Transport.Packet) (rest : List Batch) :
    (c.carry pkts).2 = false ∧ (deliver ((c, pkts) :: rest)).2 = false ∨ (c.carry pkts).2 = true ∧
      deliver ((c, pkts) :: rest) = ((c.carry pkts).1 ++ (deliver rest).1, (deliver rest).2) := by
  rw [deliver]
  rcases c.carry pkts with ⟨got, _ | _⟩
  · exact .inl ⟨rfl, rfl⟩
  · exact .inr ⟨rfl, rfl⟩

section

variable (hlim : ∀ b ∈ batches, b.1.Limited)

include hlim

theorem length_le_deliver (h : (deliver batches).2 = true) :
    (batches.flatMap Prod.snd).length ≤ (deliver batches).1.length := by
  induction batches with
  | nil => exact Nat.zero_le _
  | cons b rest ih =>
    obtain ⟨hc, hrest⟩ := List.forall_mem_cons.mp hlim
    rcases deliver_cons b.1 b.2 rest with ⟨-, hbad⟩ | ⟨hok, heq⟩
    · exact absurd (hbad.symm.trans h) Bool.false_ne_true
    · rw [heq] at h ⊢
      rw [List.flatMap_cons, List.length_append, List.length_append]
      exact Nat.add_le_add (length_le_carry hc hok) (ih hrest h)

theorem deliver_of_carries
    (h : ∀ b ∈ batches, b.1.Carries b.2) :
    deliver batches = (batches.flatMap Prod.snd, true) := by
  induction batches with
  | nil => rfl
  | cons b rest ih =>
    obtain ⟨hc, hrest⟩ := List.forall_mem_cons.mp hlim
    obtain ⟨hb, hothers⟩ := List.forall_mem_cons.mp h
    rw [deliver, (carry_exact_iff hc).mpr hb, ih hrest hothers, List.flatMap_cons]

theorem carries_of_deliver
    (h : deliver batches = (batches.flatMap Prod.snd, true)) :
    ∀ b ∈ batches, b.1.Carries b.2 := by
  induction batches with
  | nil => simp
  | cons b rest ih =>
    obtain ⟨hc, hrest⟩ := List.forall_mem_cons.mp hlim
    rcases deliver_cons b.1 b.2 rest with ⟨-, hbad⟩ | ⟨hok, heq⟩
    · exact absurd (hbad.symm.trans (congrArg Prod.snd h)) Bool.false_ne_true
    · rw [List.flatMap_cons] at h
      obtain ⟨happ, hmore⟩ := Prod.mk.inj (heq.symm.trans h)
      -- both halves are at least as long as what was sent, and together they are as long
      have hfirst := length_le_carry hc hok
      have hlast := length_le_deliver hrest hmore
      have hlen := congrArg List.length happ
      rw [List.length_append, List.length_append] at hlen
      obtain ⟨hgot, hothers⟩ := List.append_inj happ (by omega)
      rw [List.forall_mem_cons, ← carry_exact_iff hc]
      exact ⟨Prod.ext hgot hok, ih hrest (Prod.ext hothers hmore)⟩

end

/-- Whatever carriers its batches take, a session hands over exactly the packets that were sent,
in order and without an error, if and only if each carrier can take its batch. -/
theorem deliver_exact_iff (batches : List Batch) (hlim : ∀ b ∈ batches, b.1.Limited) :
    deliver batches = (batches.flatMap Prod.snd, true) ↔ ∀ b ∈ batches, b.1.Carries b.2 :=
  ⟨carries_of_deliver hlim, deliver_of_carries hlim⟩

end Session

section Stack

open Framing

variable {J : Json}

theorem messages_of_open {side : Side} {pkts : List Transport.Packet}
    (h : ∀ p ∈ pkts, closes side p.type = false) : messages side pkts = pkts.filterMap onData := by
  rw [messages, List.takeWhile_eq_self_iff.mpr]
  intro p hp
  rw [h p hp]
  rfl

/-- What is slipped into a stream leaves the packets of the stream in their order. -/
theorem sublist_woven {cs zs : List Cue} {qs : List Packet} (h : Woven J cs qs zs) :
    (cs.filterMap Prod.snd).Sublist (zs.filterMap Prod.snd) := by
  induction h with
  | nil => exact .slnil
  | keep c _ ih =>
    cases hc : c.2 with
    | none | some => simpa [hc] using ih
  | slip q _ ih =>
    rw [List.filterMap_append]
    exact ih.trans (List.sublist_append_right _ _)

theorem processed_of_agrees {outs expected : List (Option Packet)} (h : List.Forall₂ Agrees outs expected) :
    (outs.filterMap id).map Packet.message = (expected.filterMap id).map fun p => p.normal.message := by
  induction h with
  | nil => rfl
  | @cons out want outs expected hone _ ih =>
    cases out with
    | none =>
      cases want with
      | none => exact ih
      | some p => cases hone
    | some q =>
      cases want with
      | none => cases hone
      | some p => exact congrArg₂ List.cons (Option.some.inj hone) ih

theorem filterMap_scripts (hW : J.WritesImage) {ps : List Packet} (hps : ∀ p ∈ ps, p.Streamable) :
    (ps.flatMap (script J)).filterMap Prod.snd = ps := by
  induction ps with
  | nil => rfl
  | cons p ps ih =>
    obtain ⟨hp, hrest⟩ := List.forall_mem_cons.mp hps
    rw [List.flatMap_cons, List.filterMap_append, filterMap_script hW (.inl hp), ih hrest]
    rfl

/-- A stream of Socket.IO packets goes through the whole stack. However its frames are cut into
batches, whichever transports take these, also in turn, and whatever packets of the engine stand
between them, each packet is given to `process` once, the packets of the stream in their order,
and at the end no attachment is missing. -/
theorem stack_in_order (hJ : J.Lawful) (hW : J.WritesImage) (side : Side) (ps qs : List Packet)
    (zs : List Cue) (batches : List Batch) (hps : ∀ p ∈ ps, p.Streamable)
    (hqs : ∀ q ∈ qs, q.Plain) (h : Woven J (ps.flatMap (script J)) qs zs)
    (hsent : (batches.flatMap Prod.snd).filterMap onData = zs.map Prod.fst)
    (hopen : ∀ b ∈ batches, ∀ p ∈ b.2, closes side p.type = false)
    (hlim : ∀ b ∈ batches, b.1.Limited) (hcarries : ∀ b ∈ batches, b.1.Carries b.2) :
    (handleAll J none (messages side (deliver batches).1)).1 = none ∧
      ∃ order, order.Perm (ps ++ qs) ∧ ps.Sublist order ∧
        ((handleAll J none (messages side (deliver batches).1)).2.filterMap id).map Packet.message =
          order.map fun p => p.normal.message := by
  have hstays : ∀ p ∈ batches.flatMap Prod.snd, closes side p.type = false := by
    intro p hp
    obtain ⟨b, hb, hpb⟩ := List.mem_flatMap.mp hp
    exact hopen b hb p hpb
  have hscripts := filterMap_scripts hW hps
  obtain ⟨hend, hagree⟩ := handleAll_woven hJ hW h hqs (.idle hps)
  rw [deliver_of_carries hlim hcarries, messages_of_open hstays, hsent]
  refine ⟨hend, zs.filterMap Prod.snd, ?_, ?_, ?_⟩
  · have hperm := filterMap_woven hW h hqs
    rwa [hscripts] at hperm
  · have hsub := sublist_woven h
    rwa [hscripts] at hsub
  · rw [processed_of_agrees hagree, List.filterMap_map]
    rfl

end Stack

section NonVacuity

open Framing NonVacuity

def engineMessage (m : InPacket) : Transport.Packet := { type := .message, data := m.data, isBinary := m.binary }

/-- An event with two buffers during an upgrade: the header and a reply come as the answer to a
poll, `noop` ends the polling, and the buffers are websocket frames with a ping between them. -/
def duringUpgrade : List Batch := [(.poll, (slipped.take 2).map fun c => engineMessage c.1),
   (.poll, [{ type := .noop, data := [] }]),
   (.websocket 32768,
    [engineMessage (Framing.frame [1]), { type := .ping, data := [] }, engineMessage (Framing.frame [2])])]

theorem duringUpgrade_limited : ∀ b ∈ duringUpgrade, b.1.Limited := by
  intro b hb
  simp only [duringUpgrade, List.mem_cons, List.not_mem_nil, or_false] at hb
  rcases hb with rfl | rfl | rfl <;> trivial

theorem duringUpgrade_carries : ∀ b ∈ duringUpgrade, b.1.Carries b.2 := by
  decide +kernel

theorem stack_in_order_duringUpgrade :
    (handleAll textJson none (messages .client (deliver duringUpgrade).1)).1 = none ∧
      ∃ order, order.Perm ([upload] ++ [reply]) ∧ [upload].Sublist order ∧
        ((handleAll textJson none (messages .client (deliver duringUpgrade).1)).2.filterMap id).map
            Packet.message =
          order.map fun p => p.normal.message :=
  stack_in_order textJson_lawful textJson_writesImage .client [upload] [reply] slipped duringUpgrade
    (by simpa using upload_streamable) (by simpa using reply_plain) slipped_woven (by decide +kernel)
    (by decide +kernel) duringUpgrade_limited duringUpgrade_carries

/-- A message with the separator in its data, posted with room to spare. -/
def cutInTwo : List Batch :=
  [(.post Http.fiveBytes "x", [{ type := .message, data := [97, separator, 98] }])]

/-- The event comes through the upgrade; a posted text with a separator in it does not. -/
theorem deliver_exact_iff_separator :
    deliver duringUpgrade = (duringUpgrade.flatMap Prod.snd, true) ∧
      deliver cutInTwo ≠ (cutInTwo.flatMap Prod.snd, true) := by
  have hlim : ∀ b ∈ cutInTwo, b.1.Limited := by
    intro b hb
    rw [List.mem_singleton.mp hb]
    exact (by decide : (5 : ℤ) < maxInt64)
  refine ⟨(deliver_exact_iff duringUpgrade duringUpgrade_limited).mpr duringUpgrade_carries, fun h => ?_⟩
  exact absurd ((deliver_exact_iff cutInTwo hlim).mp h) (by decide +kernel)

end NonVacuity

end Gosocketio.Wire

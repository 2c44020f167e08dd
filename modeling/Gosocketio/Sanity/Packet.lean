import Gosocketio.Spec.Framing

/-! What `decode` and `handleIn` can produce: a namespace that starts with a
slash, a reconstructor that holds a binary packet, and events whose name the parser
let pass. -/

namespace Gosocketio

theorem decode_ok {J : Json} {data : Bytes} {p : Packet} (h : decode J data = .ok p) :
    ∃ i, decodeAttachments p.type data = .ok (p.attachments, i) ∧
      p.nsp = (decodeNsp data i).1 ∧ p.id = (decodeId data (decodeNsp data i).2).1 ∧
      decodeData J p.type data (decodeId data (decodeNsp data i).2).2 = .ok p.data := by
  unfold decode at h
  split at h
  · cases h
  · split at h
    · cases h
    · split at h
      · cases h
      · rename_i t _ att i hatt
        simp only at h
        split at h
        · cases h
        · rename_i v hv
          rw [Except.ok.injEq] at h
          subst h
          exact ⟨i, hatt, rfl, rfl, hv⟩

theorem decodeNsp_head (data : Bytes) (i : ℕ) : (decodeNsp data i).1.head? = some 47 := by
  unfold decodeNsp
  split_ifs with h
  · -- the scan for the comma starts at the slash and passes it
    obtain ⟨hlt, hget⟩ := List.getElem?_eq_some_iff.mp h
    have hdrop : data.drop (i + 1) = 47 :: data.drop (i + 2) := by
      rw [List.drop_eq_getElem_cons hlt, hget]
    simp only [scan, slice, hdrop]
    rw [List.drop_take, hdrop]
    simp
  · rfl

theorem decode_nsp_head {J : Json} {data : Bytes} {p : Packet} (h : decode J data = .ok p) :
    p.nsp.head? = some 47 := by
  obtain ⟨i, -, hnsp, -⟩ := decode_ok h
  rw [hnsp]
  exact decodeNsp_head data i

variable {J : Json} {recon : Option Reconstructor} {m : InPacket}

/-- A pending reconstructor holds a binary packet. -/
def ReconOk (recon : Option Reconstructor) : Prop :=
  ∀ rec, recon = some rec → rec.pkt.type.isBinary = true ∧ rec.pkt.nsp.head? = some 47

theorem reconOk_handleIn (h : ReconOk recon) : ReconOk (handleIn J recon m).1 := by
  unfold handleIn
  split_ifs
  · cases recon with
    | none => exact nofun
    | some rec =>
      simp only [feedBinary]
      split_ifs
      · intro r hr
        rw [← Option.some.inj hr]
        exact h rec rfl
      · exact nofun
  · split
    · exact h
    · rename_i pkt hdec
      split_ifs with hbin
      · exact h
      · intro r hr
        rw [← Option.some.inj hr]
        exact ⟨hbin, decode_nsp_head hdec⟩
      · exact h

theorem nsp_head_of_handleIn (h : ReconOk recon) {pkt : Packet}
    (hp : (handleIn J recon m).2 = some pkt) : pkt.nsp.head? = some 47 := by
  unfold handleIn at hp
  split_ifs at hp
  · cases recon with
    | none => cases hp
    | some rec =>
      simp only [feedBinary] at hp
      split_ifs at hp
      · rw [← Option.some.inj hp]
        exact (h rec rfl).2
  · split at hp
    · cases hp
    · rename_i q hdec
      have hhead := decode_nsp_head hdec
      split_ifs at hp <;> rw [← Option.some.inj hp] <;> exact hhead

section Names

variable {name : Bytes} {v : Value}

/-- The name under which `handleEvent` dispatches a payload, if it does. -/
def eventName? : Value → Option Bytes
  | .arr (.str name :: _) => some name
  | _ => none

theorem eventName?_eq_some (h : eventName? v = some name) :
    ∃ args, v = .arr (.str name :: args) := by
  unfold eventName? at h
  split at h
  · rename_i args
    obtain rfl := Option.some.inj h
    exact ⟨args, rfl⟩
  · cases h

theorem placeholderBuffer_ne (kvs : List (Bytes × Value)) (bufs : List Bytes) :
    (∀ xs, placeholderBuffer kvs bufs ≠ .arr xs) ∧ ∀ s, placeholderBuffer kvs bufs ≠ .str s := by
  unfold placeholderBuffer
  split
  · simp only
    split_ifs <;> exact ⟨nofun, nofun⟩
  · exact ⟨nofun, nofun⟩

/-- Buffers go into the arguments of an event, never into its name. -/
theorem str_of_reconstruct {bufs : List Bytes} {x : Value} (h : reconstruct bufs x = .str name) :
    x = .str name := by
  cases x with
  | obj kvs =>
    rw [reconstruct] at h
    split_ifs at h
    exact absurd h ((placeholderBuffer_ne kvs bufs).2 name)
  | arr xs => rw [reconstruct] at h; cases h
  | _ => exact h

theorem eventName?_of_reconstruct {bufs : List Bytes}
    (h : eventName? (reconstruct bufs v) = some name) : eventName? v = some name := by
  obtain ⟨args, hv⟩ := eventName?_eq_some h
  cases v with
  | arr xs =>
    cases xs with
    | nil => cases Value.arr.inj hv
    | cons x xs =>
      rw [str_of_reconstruct (List.cons.inj (Value.arr.inj hv)).1]
      rfl
  | obj kvs =>
    rw [reconstruct] at hv
    split_ifs at hv
    exact absurd hv ((placeholderBuffer_ne kvs bufs).1 _)
  | _ => cases hv

theorem not_reserved_of_validatePayload {t : PacketType}
    (ht : binaryToPlain t = .event) (h : validatePayload t v = none) (hname : eventName? v = some name) :
    isReservedEvent name = false := by
  obtain ⟨args, rfl⟩ := eventName?_eq_some hname
  cases t <;> simp_all [validatePayload, binaryToPlain]

/-- `P` holds of the name of an event, also of one that waits for its buffers. -/
def Packet.Names (P : Bytes → Prop) (p : Packet) : Prop :=
  binaryToPlain p.type = .event → ∀ name, eventName? p.data = some name → P name

theorem binaryToPlain_idem (t : PacketType) : binaryToPlain (binaryToPlain t) = binaryToPlain t := by
  cases t <;> rfl

/-- What the parser sees to holds of every event given to `process`. -/
theorem names_handleIn {P : Bytes → Prop} (hP : ∀ data p, decode J data = .ok p → p.Names P)
    (h : ∀ rec, recon = some rec → rec.pkt.Names P) :
    (∀ rec, (handleIn J recon m).1 = some rec → rec.pkt.Names P) ∧
      ∀ pkt, (handleIn J recon m).2 = some pkt → pkt.Names P := by
  unfold handleIn
  split_ifs
  · cases recon with
    | none => exact ⟨nofun, nofun⟩
    | some rec =>
      simp only [feedBinary]
      split_ifs
      · refine ⟨fun r hr => ?_, nofun⟩
        obtain rfl := Option.some.inj hr
        exact h rec rfl
      · refine ⟨nofun, fun pkt hpkt ht name hname => ?_⟩
        obtain rfl := Option.some.inj hpkt
        exact h rec rfl ((binaryToPlain_idem _).symm.trans ht) name (eventName?_of_reconstruct hname)
  · split
    · exact ⟨h, nofun⟩
    · rename_i pkt hdec
      have hnames := hP _ pkt hdec
      split_ifs
      · refine ⟨h, fun q hq => ?_⟩
        obtain rfl := Option.some.inj hq
        exact fun ht => hnames ((binaryToPlain_idem _).symm.trans ht)
      · refine ⟨fun r hr => ?_, nofun⟩
        obtain rfl := Option.some.inj hr
        exact hnames
      · refine ⟨h, fun q hq => ?_⟩
        obtain rfl := Option.some.inj hq
        exact hnames

end Names

end Gosocketio

import Gosocketio.Proofs.Decoding

/-! The reconstructor. What it holds is told by the history of the frames alone: the last header
with attachments and the binary frames behind it, as long as they are fewer than it announces. -/

namespace Gosocketio

open Framing (Receiver)

variable {J : Json} {ms : List InPacket} {m : InPacket} {p : Packet} {bufs : List Bytes}
  {recon : Option Reconstructor}

section History

/-- The packet whose attachments follow a frame, if the frame is the header of one. -/
def InPacket.opens (J : Json) (m : InPacket) : Option Packet := if m.binary then none
  else
    match decode J m.data with
    | .ok p => if p.type.isBinary = true ∧ 1 ≤ p.attachments then some p else none
    | .error _ => none

def binaryData (ms : List InPacket) : List Bytes := (ms.filter InPacket.binary).map InPacket.data

/-- `p` is the last header among the frames, and `bufs` are the binary frames since. -/
def Since (J : Json) (ms : List InPacket) (p : Packet) (bufs : List Bytes) : Prop :=
  ∃ pre m post, ms = pre ++ m :: post ∧ m.opens J = some p ∧ (∀ x ∈ post, x.opens J = none) ∧
    bufs = binaryData post

theorem opens_binary (h : m.binary = true) : m.opens J = none := if_pos h

theorem opens_eq_some (h : m.opens J = some p) :
    m.binary = false ∧ decode J m.data = .ok p ∧ p.type.isBinary = true ∧ 1 ≤ p.attachments := by
  unfold InPacket.opens at h
  split_ifs at h with hm
  split at h
  · rename_i q hdec
    split_ifs at h with hq
    obtain rfl := Option.some.inj h
    exact ⟨by simpa using hm, hdec, hq⟩
  · cases h

theorem since_nil : ¬ Since J [] p bufs := by
  rintro ⟨pre, m, post, h, -⟩
  simp at h

theorem since_snoc : Since J (ms ++ [m]) p bufs ↔ m.opens J = some p ∧ bufs = [] ∨
      m.opens J = none ∧ ∃ bufs₀, Since J ms p bufs₀ ∧ bufs = bufs₀ ++ binaryData [m] := by
  constructor
  · rintro ⟨pre, x, post, hms, hx, hpost, rfl⟩
    rcases List.eq_nil_or_concat' post with rfl | ⟨post', y, rfl⟩
    · obtain ⟨-, hm⟩ := List.append_inj' hms rfl
      obtain rfl := List.singleton_inj.mp hm
      exact .inl ⟨hx, rfl⟩
    · rw [← List.cons_append, ← List.append_assoc] at hms
      obtain ⟨rfl, hm⟩ := List.append_inj' hms rfl
      obtain rfl := List.singleton_inj.mp hm
      refine .inr ⟨hpost m (by simp), binaryData post', ?_, ?_⟩
      · exact ⟨pre, x, post', rfl, hx, fun z hz => hpost z (by simp [hz]), rfl⟩
      · simp [binaryData]
  · rintro (⟨hm, rfl⟩ | ⟨hm, bufs₀, ⟨pre, x, post, rfl, hx, hpost, rfl⟩, rfl⟩)
    · exact ⟨ms, m, [], rfl, hm, List.forall_mem_nil _, rfl⟩
    · refine ⟨pre, x, post ++ [m], by simp, hx, ?_, by simp [binaryData]⟩
      exact List.forall_mem_append.mpr ⟨hpost, List.forall_mem_singleton.mpr hm⟩

theorem since_opens {q : Packet} (h : m.opens J = some q) : Since J (ms ++ [m]) p bufs ↔ q = p ∧ bufs = [] := by
  simp [since_snoc, h]

theorem since_text (h : m.opens J = none) (hm : m.binary = false) :
    Since J (ms ++ [m]) p bufs ↔ Since J ms p bufs := by
  simp [since_snoc, h, binaryData, hm]

theorem since_binary (hm : m.binary = true) :
    Since J (ms ++ [m]) p bufs ↔ ∃ bufs₀, Since J ms p bufs₀ ∧ bufs = bufs₀ ++ [m.data] := by
  simp [since_snoc, opens_binary hm, binaryData, hm]

theorem since_unique {p' : Packet} {bufs' : List Bytes} (h : Since J ms p bufs) (h' : Since J ms p' bufs') :
    p = p' ∧ bufs = bufs' := by
  induction ms using List.reverseRecOn generalizing bufs bufs' with
  | nil => exact absurd h since_nil
  | append_singleton ms m ih =>
    rcases since_snoc.mp h with ⟨hm, rfl⟩ | ⟨hm, bufs₀, h₀, rfl⟩
    · rcases since_snoc.mp h' with ⟨hm', rfl⟩ | ⟨hm', -⟩
      · exact ⟨Option.some.inj (hm.symm.trans hm'), rfl⟩
      · cases hm.symm.trans hm'
    · rcases since_snoc.mp h' with ⟨hm', -⟩ | ⟨-, bufs₁, h₁, rfl⟩
      · cases hm.symm.trans hm'
      · obtain ⟨rfl, rfl⟩ := ih h₀ h₁
        exact ⟨rfl, rfl⟩

end History

section Frames

theorem handleIn_opens (h : m.opens J = some p) : handleIn J recon m = (some { pkt := p }, none) := by
  obtain ⟨hm, hdec, hbin, hatt⟩ := opens_eq_some h
  have hne : p.attachments ≠ 0 := by omega
  simp [handleIn, hm, hdec, hbin, hne]

/-- Any other text frame leaves the reconstructor as it is, and a packet in it has no
attachments. -/
theorem handleIn_text (h : m.opens J = none) (hm : m.binary = false) :
    (handleIn J recon m).1 = recon ∧ ∀ pkt, (handleIn J recon m).2 = some pkt → pkt.attachments = 0 := by
  unfold handleIn
  unfold InPacket.opens at h
  rw [hm, if_neg Bool.false_ne_true] at h
  rw [hm, if_neg Bool.false_ne_true]
  cases hdec : decode J m.data with
  | error e => simp
  | ok p =>
    have hheader := headerOk_of_decode hdec
    rw [hdec] at h
    dsimp only at h ⊢
    split_ifs with hbin hzero
    · refine ⟨rfl, fun pkt hpkt => ?_⟩
      rw [← Option.some.inj hpkt]
      exact hzero
    · have hpos := (hheader.attachments_binary hbin).1
      rw [if_pos ⟨hbin, by omega⟩] at h
      cases h
    · refine ⟨rfl, fun pkt hpkt => ?_⟩
      rw [← Option.some.inj hpkt]
      exact hheader.attachments_plain (by simpa using hbin)

theorem handleIn_binary (hm : m.binary = true) : handleIn J recon m = feedBinary recon m.data := if_pos hm

/-- A binary packet with all its attachments, as it is given to `process`. -/
def Packet.withBuffers (p : Packet) (bufs : List Bytes) : Packet :=
  { p with data := reconstruct bufs p.data, type := binaryToPlain p.type }

theorem feedBinary_more {rec : Reconstructor} {data : Bytes}
    (h : (rec.bufs.length + 1 : ℤ) ≠ rec.pkt.attachments) :
    feedBinary (some rec) data = (some { rec with bufs := rec.bufs ++ [data] }, none) := by
  simp [feedBinary, h]

theorem feedBinary_last {rec : Reconstructor} {data : Bytes}
    (h : (rec.bufs.length + 1 : ℤ) = rec.pkt.attachments) :
    feedBinary (some rec) data = (none, some (rec.pkt.withBuffers (rec.bufs ++ [data]))) := by
  simp [feedBinary, h, Packet.withBuffers]

end Frames

def received (J : Json) (ms : List InPacket) : Receiver := ms.foldl (Receiver.receive J) {}

theorem recon_received_snoc : (received J (ms ++ [m])).recon = (handleIn J (received J ms).recon m).1 := by
  rw [received, List.foldl_append]
  rfl

/-- What the reconstructor holds is what the history says, while attachments are missing. -/
def Tracks (J : Json) (ms : List InPacket) (recon : Option Reconstructor) : Prop :=
  ∀ p bufs, recon = some { pkt := p, bufs } ↔ Since J ms p bufs ∧ (bufs.length : ℤ) < p.attachments

theorem Tracks.opens {q : Packet} (h : m.opens J = some q) : Tracks J (ms ++ [m]) (some { pkt := q }) := by
  intro p bufs
  have hatt := (opens_eq_some h).2.2.2
  rw [since_opens h]
  constructor
  · rintro ⟨⟩
    exact ⟨⟨rfl, rfl⟩, by rw [List.length_nil]; omega⟩
  · rintro ⟨⟨rfl, rfl⟩, -⟩
    rfl

theorem Tracks.binary (h : Tracks J ms recon) (hm : m.binary = true) :
    Tracks J (ms ++ [m]) (feedBinary recon m.data).1 := by
  intro p bufs
  have hlength (bufs₀ : List Bytes) : ((bufs₀ ++ [m.data]).length : ℤ) = bufs₀.length + 1 := by simp
  rw [since_binary hm]
  cases recon with
  | none =>
    refine iff_of_false (fun hnone => ?_) ?_
    · cases hnone
    · -- with one frame less, the packet would have been pending before
      rintro ⟨⟨bufs₀, hsince, rfl⟩, hlt⟩
      rw [hlength] at hlt
      have hpending := (h p bufs₀).mpr ⟨hsince, by omega⟩
      cases hpending
  | some rec =>
    obtain ⟨hsince, hlt⟩ := (h rec.pkt rec.bufs).mp rfl
    by_cases hlast : (rec.bufs.length + 1 : ℤ) = rec.pkt.attachments
    · rw [feedBinary_last hlast]
      refine iff_of_false (fun hnone => ?_) ?_
      · cases hnone
      · rintro ⟨⟨bufs₀, hsince₀, rfl⟩, hlt₀⟩
        obtain ⟨rfl, rfl⟩ := since_unique hsince hsince₀
        rw [hlength] at hlt₀
        omega
    · rw [feedBinary_more hlast]
      constructor
      · rintro ⟨⟩
        refine ⟨⟨rec.bufs, hsince, rfl⟩, ?_⟩
        rw [hlength]
        omega
      · rintro ⟨⟨bufs₀, hsince₀, rfl⟩, -⟩
        obtain ⟨rfl, rfl⟩ := since_unique hsince hsince₀
        rfl

theorem Tracks.handleIn (h : Tracks J ms recon) : Tracks J (ms ++ [m]) (handleIn J recon m).1 := by
  cases hopens : m.opens J with
  | some q =>
    rw [handleIn_opens hopens]
    exact .opens hopens
  | none =>
    cases hm : m.binary with
    | false =>
      intro p bufs
      rw [(handleIn_text hopens hm).1, since_text hopens hm]
      exact h p bufs
    | true =>
      rw [handleIn_binary hm]
      exact h.binary hm

/-- By induction on the frames, the last one first. -/
theorem tracks_received (J : Json) (ms : List InPacket) : Tracks J ms (received J ms).recon := by
  induction ms using List.reverseRecOn with
  | nil =>
    refine fun p bufs => iff_of_false (fun h => ?_) fun h => since_nil h.1
    cases h
  | append_singleton ms m ih =>
    rw [recon_received_snoc]
    exact ih.handleIn

/-- A packet with attachments is given to `process` with the last of them and not otherwise. -/
theorem completed_iff {pkt : Packet} :
    ((handleIn J (received J ms).recon m).2 = some pkt ∧ 1 ≤ pkt.attachments) ↔
      m.binary = true ∧ ∃ p bufs, Since J ms p bufs ∧ (bufs.length + 1 : ℤ) = p.attachments ∧
        pkt = p.withBuffers (bufs ++ [m.data]) := by
  constructor
  · rintro ⟨hpkt, hatt⟩
    cases hm : m.binary with
    | false =>
      cases hopens : m.opens J with
      | some q =>
        rw [handleIn_opens hopens] at hpkt
        cases hpkt
      | none =>
        have := (handleIn_text hopens hm).2 pkt hpkt
        omega
    | true =>
      rw [handleIn_binary hm] at hpkt
      cases hrecon : (received J ms).recon with
      | none =>
        rw [hrecon] at hpkt
        cases hpkt
      | some rec =>
        rw [hrecon] at hpkt
        by_cases hlast : (rec.bufs.length + 1 : ℤ) = rec.pkt.attachments
        · rw [feedBinary_last hlast] at hpkt
          exact ⟨rfl, rec.pkt, rec.bufs, ((tracks_received J ms rec.pkt rec.bufs).mp hrecon).1, hlast, (Option.some.inj hpkt).symm⟩
        · rw [feedBinary_more hlast] at hpkt
          cases hpkt
  · rintro ⟨hm, p, bufs, hsince, hlast, rfl⟩
    have hpending := (tracks_received J ms p bufs).mpr ⟨hsince, by omega⟩
    rw [handleIn_binary hm, hpending, feedBinary_last hlast]
    refine ⟨rfl, ?_⟩
    simp only [Packet.withBuffers]
    omega

/-- After any frames: the pending reconstructor holds a binary packet that waits for attachments,
with exactly the binary frames since its header; whatever frame comes next, a packet with
attachments is given to `process` exactly if that frame is the last one missing; and a text that
`Decode` refuses changes nothing. -/
theorem reconstructor_invariant (J : Json) (ms : List InPacket) :
    (∀ rec, (received J ms).recon = some rec → rec.pkt.type.isBinary = true ∧ 1 ≤ rec.pkt.attachments ∧
      (rec.bufs.length : ℤ) < rec.pkt.attachments ∧ Since J ms rec.pkt rec.bufs) ∧
    (∀ m pkt, ((handleIn J (received J ms).recon m).2 = some pkt ∧ 1 ≤ pkt.attachments) ↔
      m.binary = true ∧ ∃ p bufs, Since J ms p bufs ∧ (bufs.length + 1 : ℤ) = p.attachments ∧
        pkt = p.withBuffers (bufs ++ [m.data])) ∧
    ∀ m e, m.binary = false → decode J m.data = .error e →
      handleIn J (received J ms).recon m = ((received J ms).recon, none) := by
  refine ⟨fun rec hrec => ?_, fun m pkt => completed_iff, fun m e hm he => ?_⟩
  · obtain ⟨hsince, hlt⟩ := (tracks_received J ms rec.pkt rec.bufs).mp hrec
    obtain ⟨pre, m, post, -, hopens, -, -⟩ := id hsince
    obtain ⟨-, -, hbin, hatt⟩ := opens_eq_some hopens
    exact ⟨hbin, hatt, hlt, hsince⟩
  · simp [handleIn, hm, he]

/-- The header of a packet with two attachments, a text that is no packet, and the first of the
two. -/
def interrupted : List InPacket :=
  [⟨encode NonVacuity.textJson { type := .binaryEvent, data := .arr [.str [97], .placeholder 0], attachments := 2 },
      false⟩, ⟨[120], false⟩, ⟨[1], true⟩]

example : (received NonVacuity.textJson interrupted).recon.map Reconstructor.bufs = some [[1]] := by
  decide +kernel

end Gosocketio

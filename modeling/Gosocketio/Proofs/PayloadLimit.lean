import Gosocketio.Spec.Transport
import Mathlib.Data.List.TakeWhile

/-! Polling payloads under a limit. The loop of `DecodePayloadWithLimit` takes one part after the
other while they fit together and looks at no part behind the one it stops at. -/

namespace Gosocketio.Transport

/-- The parts of a payload. The empty one has none. -/
def parts (b : Bytes) : List Bytes := if b = [] then [] else b.splitOn separator

def total (ps : List Bytes) : ℤ := (ps.map fun part => (part.length : ℤ)).sum

@[simp] theorem total_nil : total [] = 0 := rfl

@[simp] theorem total_cons (part : Bytes) (ps : List Bytes) : total (part :: ps) = part.length + total ps := rfl

theorem total_append (ps qs : List Bytes) : total (ps ++ qs) = total ps + total qs := by
  simp [total]

theorem total_nonneg (ps : List Bytes) : 0 ≤ total ps := by
  induction ps with
  | nil => exact le_rfl
  | cons part ps ih =>
    rw [total_cons]
    omega

theorem total_le_of_prefix {ps qs : List Bytes} (h : ps <+: qs) : total ps ≤ total qs := by
  obtain ⟨rest, rfl⟩ := h
  have hrest := total_nonneg rest
  rw [total_append]
  omega

theorem length_le_total {ps : List Bytes} {part : Bytes} (h : part ∈ ps) : (part.length : ℤ) ≤ total ps := by
  obtain ⟨pre, rest, rfl⟩ := List.append_of_mem h
  have hpre := total_nonneg pre
  have hrest := total_nonneg rest
  rw [total_append, total_cons]
  omega

/-- Where the loop stops, with parts of size `decoded` taken and those in the list left. -/
inductive Stop (maxPayload decoded : ℤ) : List Bytes → Option PayloadError → Prop
  | all : Stop maxPayload decoded [] none
  | tooLarge {part : Bytes} {rest : List Bytes} (hsize : maxPayload < part.length) :
    Stop maxPayload decoded (part :: rest) (some (.tooLarge part.length maxPayload))
  | dropped {part : Bytes} {rest : List Bytes} (hsize : part.length ≤ maxPayload)
    (hfull : maxPayload < decoded + part.length) : Stop maxPayload decoded (part :: rest) none
  | invalid {part : Bytes} {rest : List Bytes} {e : PacketError} (hfits : decoded + part.length ≤ maxPayload)
    (hbad : decodePacket part false = .error e) : Stop maxPayload decoded (part :: rest) (some (.invalid e))

/-- What the parts decode to, one by one. -/
def Decodes (ps : List Bytes) (pkts : List Packet) : Prop :=
  List.Forall₂ (fun part p => decodePacket part false = .ok p) ps pkts

/-- The loop takes the parts up to one it stops at, and returns what they decode to. -/
theorem decodeParts_stops {maxPayload : ℤ} (hmax : 0 < maxPayload) (ps : List Bytes) {decoded : ℤ}
    (hdecoded : 0 ≤ decoded ∧ decoded ≤ maxPayload) (out : List Packet) :
    ∃ pre rest pkts stop, ps = pre ++ rest ∧ Decodes pre pkts ∧ decoded + total pre ≤ maxPayload ∧
      Stop maxPayload (decoded + total pre) rest stop ∧
      decodeParts maxPayload ps decoded out = (out ++ pkts, stop) := by
  induction ps generalizing decoded out with
  | nil =>
    refine ⟨[], [], [], none, rfl, .nil, ?_, .all, ?_⟩
    · rw [total_nil, add_zero]
      exact hdecoded.2
    · rw [decodeParts, List.append_nil]
  | cons part ps ih =>
    have hnil : decoded + total [] = decoded := by rw [total_nil, add_zero]
    by_cases hsize : maxPayload < part.length
    · refine ⟨[], part :: ps, [], _, rfl, .nil, hnil.trans_le hdecoded.2, .tooLarge hsize, ?_⟩
      rw [decodeParts, if_pos ⟨hmax, hsize⟩, List.append_nil]
    by_cases hfull : maxPayload < decoded + part.length
    · refine ⟨[], part :: ps, [], none, rfl, .nil, hnil.trans_le hdecoded.2, ?_, ?_⟩
      · rw [hnil]
        exact .dropped (not_lt.mp hsize) hfull
      · rw [decodeParts, if_neg fun h => hsize h.2, if_pos ⟨hmax, hfull⟩, List.append_nil]
    have hfits : decoded + part.length ≤ maxPayload := not_lt.mp hfull
    cases hp : decodePacket part false with
    | error e =>
      refine ⟨[], part :: ps, [], some (.invalid e), rfl, .nil, hnil.trans_le hdecoded.2, ?_, ?_⟩
      · rw [hnil]
        exact .invalid hfits hp
      · rw [decodeParts, if_neg fun h => hsize h.2, if_neg fun h => hfull h.2, hp, List.append_nil]
    | ok p =>
      have hnext : 0 ≤ decoded + part.length ∧ decoded + part.length ≤ maxPayload := ⟨by omega, hfits⟩
      obtain ⟨pre, rest, pkts, stop, hps, hpkts, htotal, hstop, hrun⟩ := ih hnext (out ++ [p])
      have hsum : decoded + total (part :: pre) = decoded + part.length + total pre := by
        rw [total_cons]
        omega
      refine ⟨part :: pre, rest, p :: pkts, stop, ?_, .cons hp hpkts, ?_, ?_, ?_⟩
      · rw [hps, List.cons_append]
      · rw [hsum]
        exact htotal
      · rw [hsum]
        exact hstop
      · rw [decodeParts, if_neg fun h => hsize h.2, if_neg fun h => hfull h.2, hp]
        simp only [if_pos hmax, hrun, List.append_assoc, List.singleton_append]

theorem decodePayloadWithLimit_eq (b : Bytes) (maxPayload : ℤ) :
    decodePayloadWithLimit b maxPayload = decodeParts maxPayload (parts b) 0 [] := by
  unfold decodePayloadWithLimit parts
  split_ifs <;> rfl

section Within

/-- The parts decoded one after the other, without a limit, up to the first that cannot be. -/
def decodeEach : List Bytes → List Packet × Option PayloadError
  | [] => ([], none)
  | part :: rest =>
    match decodePacket part false with
    | .error e => ([], some (.invalid e))
    | .ok p => (p :: (decodeEach rest).1, (decodeEach rest).2)

theorem decodeEach_append {pre : List Bytes} {pkts : List Packet} (h : Decodes pre pkts) (rest : List Bytes) :
    decodeEach (pre ++ rest) = (pkts ++ (decodeEach rest).1, (decodeEach rest).2) := by
  induction h with
  | nil => rfl
  | @cons part p pre pkts hp _ ih => rw [List.cons_append, decodeEach, hp, ih, List.cons_append]

theorem decodeEach_cases (ps : List Bytes) :
    (decodeEach ps).2 = none ∧ Decodes ps (decodeEach ps).1 ∨
      ∃ e, (decodeEach ps).2 = some (.invalid e) := by
  induction ps with
  | nil => exact .inl ⟨rfl, .nil⟩
  | cons part ps ih =>
    rw [decodeEach]
    cases hp : decodePacket part false with
    | error e => exact .inr ⟨e, rfl⟩
    | ok p =>
      rcases ih with ⟨hnone, hall⟩ | herr
      · exact .inl ⟨hnone, .cons hp hall⟩
      · exact .inr herr

/-- The limit is not felt if it is switched off, or if all parts fit together. -/
theorem decodeParts_inert {maxPayload : ℤ} (ps : List Bytes) {decoded : ℤ} (hdecoded : 0 ≤ decoded)
    (h : 0 < maxPayload → decoded + total ps ≤ maxPayload) (out : List Packet) :
    decodeParts maxPayload ps decoded out = (out ++ (decodeEach ps).1, (decodeEach ps).2) := by
  induction ps generalizing decoded out with
  | nil => rw [decodeParts, decodeEach, List.append_nil]
  | cons part ps ih =>
    have hps := total_nonneg ps
    rw [total_cons] at h
    have hsize : ¬ (0 < maxPayload ∧ maxPayload < part.length) := by omega
    have hfull : ¬ (0 < maxPayload ∧ maxPayload < decoded + part.length) := by omega
    rw [decodeParts, if_neg hsize, if_neg hfull, decodeEach]
    cases decodePacket part false with
    | error e => simp
    | ok p =>
      have hnext : 0 ≤ if 0 < maxPayload then decoded + (part.length : ℤ) else decoded := by
        split_ifs <;> omega
      have hrest : 0 < maxPayload →
          (if 0 < maxPayload then decoded + (part.length : ℤ) else decoded) + total ps ≤ maxPayload := by
        intro hmax
        omega
      simp only [ih hnext hrest, List.append_assoc, List.singleton_append]

theorem total_parts_le (b : Bytes) : total (parts b) ≤ b.length := by
  have hsplit (b : Bytes) : total (b.splitOn separator) ≤ b.length := by
    induction b with
    | nil => simp
    | cons c b ih =>
      rw [List.splitOn_cons_eq_if_modifyHead, List.length_cons]
      split_ifs
      · rw [total_cons, List.length_nil]
        omega
      · cases hs : b.splitOn separator with
        | nil => exact absurd hs (List.splitOn_ne_nil _ _)
        | cons part ps =>
          rw [hs, total_cons] at ih
          rw [List.modifyHead_cons, total_cons, List.length_cons]
          omega
  unfold parts
  split_ifs
  · simp
  · exact hsplit b

theorem decodePayloadWithLimit_unlimited (b : Bytes) {maxPayload : ℤ} (hmax : maxPayload ≤ 0) :
    decodePayloadWithLimit b maxPayload = decodeEach (parts b) := by
  rw [decodePayloadWithLimit_eq, decodeParts_inert _ le_rfl fun h => absurd h (not_lt.mpr hmax)]
  rfl

theorem decodePayload_eq (b : Bytes) : decodePayload b = decodeEach (parts b) :=
  decodePayloadWithLimit_unlimited b le_rfl

theorem decodePayloadWithLimit_within {b : Bytes} {maxPayload : ℤ} (h : b.length ≤ maxPayload) :
    decodePayloadWithLimit b maxPayload = decodePayload b := by
  have htotal := total_parts_le b
  rw [decodePayloadWithLimit_eq, decodePayload_eq, decodeParts_inert _ le_rfl fun _ => by omega]
  rfl

end Within

section Truncated

variable {maxPayload : ℤ}

/-- The longest part of the list, from its head, that is within the limit. -/
structure LongestFitting (maxPayload : ℤ) (ps pre : List Bytes) : Prop where
  isPrefix : pre <+: ps
  fits : total pre ≤ maxPayload
  longest : ∀ qs, qs <+: ps → total qs ≤ maxPayload → qs <+: pre

theorem longestFitting_self {ps : List Bytes} (h : total ps ≤ maxPayload) : LongestFitting maxPayload ps ps :=
  ⟨List.prefix_refl ps, h, fun _ hqs _ => hqs⟩

theorem longestFitting_of_full {pre rest : List Bytes} {part : Bytes} (h : total pre ≤ maxPayload)
    (hfull : maxPayload < total pre + part.length) : LongestFitting maxPayload (pre ++ part :: rest) pre where
  isPrefix := List.prefix_append pre _
  fits := h
  longest qs hqs hle := by
    have hnext : pre ++ [part] <+: pre ++ part :: rest := ⟨rest, by simp⟩
    rcases List.prefix_or_prefix_of_prefix hqs hnext with hshort | hlong
    · rcases List.prefix_concat_iff.mp (by simpa using hshort) with rfl | hpre
      · rw [total_append, total_cons, total_nil] at hle
        omega
      · exact hpre
    · have := total_le_of_prefix hlong
      rw [total_append, total_cons, total_nil] at this
      omega

/-- The part because of which the loop returns an error. -/
def Offends (maxPayload : ℤ) (part : Bytes) (err : PayloadError) : Prop :=
  (maxPayload < part.length ∧ err = .tooLarge part.length maxPayload) ∨
    ∃ e, decodePacket part false = .error e ∧ err = .invalid e

/-- Under a limit, a payload that is accepted gives the packets of the longest run of parts that is
within it, and one that is refused those of the parts before the offending one. Without a limit
all parts are decoded. -/
theorem truncation_keeps_longest (maxPayload : ℤ) (b : Bytes) : (0 < maxPayload →
      ((decodePayloadWithLimit b maxPayload).2 = none →
        ∃ pre, LongestFitting maxPayload (parts b) pre ∧ Decodes pre (decodePayloadWithLimit b maxPayload).1) ∧
      ∀ err, (decodePayloadWithLimit b maxPayload).2 = some err →
        ∃ pre part rest, parts b = pre ++ part :: rest ∧ total pre ≤ maxPayload ∧
          Decodes pre (decodePayloadWithLimit b maxPayload).1 ∧ Offends maxPayload part err) ∧
    (maxPayload ≤ 0 → decodePayloadWithLimit b maxPayload = decodeEach (parts b)) := by
  refine ⟨fun hmax => ?_, decodePayloadWithLimit_unlimited b⟩
  obtain ⟨pre, rest, pkts, stop, hparts, hdecodes, htotal, hstop, hrun⟩ :=
    decodeParts_stops hmax (parts b) ⟨le_rfl, hmax.le⟩ []
  rw [zero_add] at htotal hstop
  rw [List.nil_append] at hrun
  rw [decodePayloadWithLimit_eq, hrun, hparts]
  dsimp only
  cases hstop with
  | all =>
    refine ⟨fun _ => ⟨pre, ?_, hdecodes⟩, fun err herr => ?_⟩
    · rw [List.append_nil]
      exact longestFitting_self htotal
    · cases herr
  | @dropped part rest hsize hfull =>
    refine ⟨fun _ => ⟨pre, longestFitting_of_full htotal hfull, hdecodes⟩, fun err herr => ?_⟩
    cases herr
  | @tooLarge part rest hsize =>
    refine ⟨fun hnone => ?_, fun err herr => ?_⟩
    · cases hnone
    · obtain rfl := Option.some.inj herr
      exact ⟨pre, part, rest, rfl, htotal, hdecodes, .inl ⟨hsize, rfl⟩⟩
  | @invalid part rest e hfits hbad =>
    refine ⟨fun hnone => ?_, fun err herr => ?_⟩
    · cases hnone
    · obtain rfl := Option.some.inj herr
      exact ⟨pre, part, rest, rfl, htotal, hdecodes, .inr ⟨e, hbad, rfl⟩⟩

/-- Messages of 4, 4 and 2 bytes under a limit of 8 bytes: the third is left out. -/
theorem truncation_keeps_longest_threeMessages :
    ∃ pre, LongestFitting 8 [[52, 97, 98, 99], [52, 97, 98, 99], [52, 97]] pre ∧
      Decodes pre [{ type := .message, data := [97, 98, 99] }, { type := .message, data := [97, 98, 99] }] := by
  have hkept := ((truncation_keeps_longest 8
    [52, 97, 98, 99, separator, 52, 97, 98, 99, separator, 52, 97]).1 (by decide)).1 (by decide +kernel)
  exact hkept

end Truncated

section Oversized

variable {maxPayload : ℤ}

/-- The parts in front of the first one that is longer than the limit. -/
def beforeOversized (maxPayload : ℤ) (ps : List Bytes) : List Bytes :=
  ps.takeWhile fun part => (part.length : ℤ) ≤ maxPayload

theorem beforeOversized_append {pre : List Bytes} (h : total pre ≤ maxPayload) (rest : List Bytes) :
    beforeOversized maxPayload (pre ++ rest) = pre ++ beforeOversized maxPayload rest :=
  List.takeWhile_append_of_pos fun _ hpart => decide_eq_true ((length_le_total hpart).trans h)

/-- The error is returned if a part is too long and those before it fit together. -/
theorem tooLarge_iff (hmax : 0 < maxPayload) (ps : List Bytes)
    (hwf : ∀ part ∈ ps, (decodePacket part false).isOk = true) :
    (∃ size, (decodeParts maxPayload ps 0 []).2 = some (.tooLarge size maxPayload)) ↔
      (∃ part ∈ ps, maxPayload < part.length) ∧ total (beforeOversized maxPayload ps) ≤ maxPayload := by
  obtain ⟨pre, rest, pkts, stop, rfl, -, htotal, hstop, hrun⟩ :=
    decodeParts_stops hmax ps ⟨le_rfl, hmax.le⟩ []
  rw [zero_add] at htotal hstop
  rw [hrun, beforeOversized_append htotal]
  cases hstop with
  | all =>
    refine iff_of_false nofun ?_
    rintro ⟨⟨part, hpart, hsize⟩, -⟩
    rw [List.append_nil] at hpart
    exact absurd ((length_le_total hpart).trans htotal) (not_le.mpr hsize)
  | @tooLarge part rest hsize =>
    refine iff_of_true ⟨_, rfl⟩ ⟨⟨part, by simp, hsize⟩, ?_⟩
    have hhead : beforeOversized maxPayload (part :: rest) = [] :=
      List.takeWhile_cons_of_neg (by simpa using hsize)
    rw [hhead, List.append_nil]
    exact htotal
  | @dropped part rest hsize hfull =>
    refine iff_of_false nofun ?_
    rintro ⟨-, hle⟩
    have hhead : beforeOversized maxPayload (part :: rest) = part :: beforeOversized maxPayload rest :=
      List.takeWhile_cons_of_pos (by simpa using hsize)
    have hrest := total_nonneg (beforeOversized maxPayload rest)
    rw [hhead, total_append, total_cons] at hle
    omega
  | @invalid part rest e hfits hbad =>
    have hok := hwf part (by simp)
    rw [hbad] at hok
    cases hok

/-- A part that is too long is fatal wherever it stands if and only if the parts before the first
such part fit together. Otherwise the loop stops before it comes to it. -/
theorem oversized_fatal_iff (hmax : 0 < maxPayload) (b : Bytes)
    (hwf : ∀ part ∈ parts b, (decodePacket part false).isOk = true) :
    ((∃ size, (decodePayloadWithLimit b maxPayload).2 = some (.tooLarge size maxPayload)) ↔
        ∃ part ∈ parts b, maxPayload < part.length) ↔
      ((∃ part ∈ parts b, maxPayload < part.length) →
        total (beforeOversized maxPayload (parts b)) ≤ maxPayload) := by
  rw [decodePayloadWithLimit_eq, tooLarge_iff hmax (parts b) hwf]
  exact and_iff_left_iff_imp

/-- The messages `abc` and `abcdef`. -/
def longLast : Bytes := [52, 97, 98, 99, separator, 52, 97, 98, 99, 100, 101, 102]

theorem oversized_fatal_iff_longLast :
    (∃ size, (decodePayloadWithLimit longLast 5).2 = some (.tooLarge size 5)) ↔
      ∃ part ∈ parts longLast, (5 : ℤ) < part.length :=
  (oversized_fatal_iff (by decide) longLast (by decide +kernel)).mpr fun _ => by decide +kernel

/-- The messages `abc`, `abc` and `abcdef`. The first two do not fit together. -/
def longHidden : Bytes := [52, 97, 98, 99, separator, 52, 97, 98, 99, separator, 52, 97, 98, 99, 100, 101, 102]

theorem oversized_part_dropped : ¬ ∀ (maxPayload : ℤ) (b : Bytes), 0 < maxPayload →
    (∀ part ∈ parts b, (decodePacket part false).isOk = true) →
    ((∃ size, (decodePayloadWithLimit b maxPayload).2 = some (.tooLarge size maxPayload)) ↔
      ∃ part ∈ parts b, maxPayload < part.length) := by
  intro h
  obtain ⟨size, hsize⟩ := (h 5 longHidden (by decide) (by decide +kernel)).mpr (by decide +kernel)
  have hok : (decodePayloadWithLimit longHidden 5).2 = none := by decide +kernel
  cases hok.symm.trans hsize

end Oversized

end Gosocketio.Transport

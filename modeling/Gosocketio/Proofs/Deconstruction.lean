import Gosocketio.Proofs.Sending

/-! Binary payloads as a whole. The placeholders of a header stand for the binary leaves of the
payload, each for its own, and the messages behind the header are what those leaves hold; a
payload that cannot be read to the end is not sent at all. -/

namespace Gosocketio

namespace Value

section Fill

mutual
/-- The tree with the leaf `ls[k]` in the place of placeholder `k`. -/
def fill (ls : List Value) : Value → Value
  | .placeholder k => ls.getD k .null
  | .arr xs => .arr (fillList ls xs)
  | .obj kvs => .obj (fillEntries ls kvs)
  | v => v

def fillList (ls : List Value) : List Value → List Value
  | [] => []
  | x :: xs => fill ls x :: fillList ls xs

def fillEntries (ls : List Value) : List (Bytes × Value) → List (Bytes × Value)
  | [] => []
  | (k, x) :: kvs => (k, fill ls x) :: fillEntries ls kvs
end

@[simp] theorem fillList_eq (ls xs : List Value) : fillList ls xs = xs.map (fill ls) := by
  induction xs with
  | nil => rfl
  | cons x xs ih => rw [fillList, ih, List.map_cons]

@[simp] theorem fillEntries_eq (ls : List Value) (kvs : List (Bytes × Value)) :
    fillEntries ls kvs = kvs.map fun kv => (kv.1, fill ls kv.2) := by
  induction kvs with
  | nil => rfl
  | cons kv kvs ih => rw [fillEntries, ih, List.map_cons]

theorem fill_skeleton (v : Value) (hv : ∀ l ∈ v.leaves, l.isPlaceholder = false) (pre post : List Value) :
    (skeleton pre.length v).fill (pre ++ v.slots ++ post) = v := by
  induction v generalizing pre post with
  | placeholder n => simp [leaves, isPlaceholder] at hv
  | arr xs ih =>
    simp only [leaves, leavesList_eq, List.mem_flatMap, forall_exists_index, and_imp] at hv
    have hlist := skeletonList_inverse (g := fill) (fun _ => rfl) xs
      (fun x hx pre post _ => ih x hx (fun l hl => hv l x hx hl) pre post) pre post le_rfl
    rw [skeleton, fill, fillList_eq, slots_arr]
    exact congrArg _ hlist
  | obj kvs ih =>
    simp only [leaves, leavesEntries_eq, List.mem_flatMap, forall_exists_index, and_imp] at hv
    have hlist := skeletonEntries_inverse (g := fill) (fun _ => rfl) kvs
      (fun kv hkv pre post _ => ih kv hkv (fun l hl => hv l kv hkv hl) pre post) pre post le_rfl
    rw [skeleton, fill, fillEntries_eq, slots_obj]
    exact congrArg _ hlist
  | bytes | reader => simp [skeleton, fill]
  | _ => rfl

end Fill

section Numbers

def number? : Value → Option ℕ
  | .placeholder k => some k
  | _ => none

def numbers (v : Value) : List ℕ := v.leaves.filterMap number?

theorem numbers_arr (xs : List Value) : numbers (.arr xs) = xs.flatMap numbers := by
  rw [numbers, leaves, leavesList_eq, List.filterMap_flatMap]
  rfl

theorem numbers_obj (kvs : List (Bytes × Value)) : numbers (.obj kvs) = kvs.flatMap fun kv => kv.2.numbers := by
  rw [numbers, leaves, leavesEntries_eq, List.filterMap_flatMap]
  rfl

theorem numbers_skeletonList (xs : List Value)
    (ih : ∀ x ∈ xs, ∀ k, (skeleton k x).numbers = List.range' k x.slots.length) (k : ℕ) :
    (skeletonList k xs).flatMap numbers = List.range' k (xs.flatMap slots).length := by
  induction xs generalizing k with
  | nil => rfl
  | cons x xs ihl =>
    rw [skeletonList, List.flatMap_cons, ih x (by simp), ihl fun y hy => ih y (by simp [hy]),
      List.flatMap_cons, List.length_append, List.range'_append_1]

theorem numbers_skeleton (v : Value) (hv : ∀ l ∈ v.leaves, l.isPlaceholder = false) (k : ℕ) :
    (skeleton k v).numbers = List.range' k v.slots.length := by
  induction v generalizing k with
  | placeholder n => simp [leaves, isPlaceholder] at hv
  | arr xs ih =>
    simp only [leaves, leavesList_eq, List.mem_flatMap, forall_exists_index, and_imp] at hv
    rw [skeleton, numbers_arr, slots_arr]
    exact numbers_skeletonList xs (fun x hx => ih x hx fun l hl => hv l x hx hl) k
  | obj kvs ih =>
    simp only [leaves, leavesEntries_eq, List.mem_flatMap, forall_exists_index, and_imp] at hv
    rw [skeleton, numbers_obj, slots_obj, ← List.flatMap_map Prod.snd numbers, skeletonEntries_values,
      ← List.flatMap_map Prod.snd slots]
    refine numbers_skeletonList _ (List.forall_mem_map.mpr fun kv hkv => ?_) k
    exact ih kv hkv fun l hl => hv l kv hkv hl
  | _ => rfl

end Numbers

section Contents

/-- What a binary leaf holds once the leaves before it are read: a reader is empty when it was
read before. -/
def heldAfter (readers : Readers) (before : List Value) : Value → Bytes
  | .bytes b => b
  | .reader (some i) => if .reader (some i) ∈ before then [] else (readers i).content
  | _ => []

theorem heldAfter_readLeaf (readers : Readers) (l : Value) (before : List Value) (x : Value) :
    heldAfter (readLeaf readers l).2 before x = heldAfter readers (l :: before) x := by
  cases x with
  | reader r =>
    cases r with
    | none => rfl
    | some i =>
      simp only [heldAfter, List.mem_cons]
      by_cases hl : .reader (some i) = l
      · subst hl
        simp [readLeaf]
      · have hsame : (readLeaf readers l).2 i = readers i := by
          unfold readLeaf
          split
          · rfl
          · rename_i j
            have hij : i ≠ j := by
              rintro rfl
              exact hl rfl
            simp [hij]
          · rfl
        simp [hl, hsame]
  | _ => rfl

theorem getElem?_readLeaves (ls : List Value) (readers : Readers) {k : ℕ} {l : Value} (hk : ls[k]? = some l) :
    (readLeaves ls readers).1[k]? = some (heldAfter readers (ls.take k) l) := by
  induction ls generalizing readers k with
  | nil => cases hk
  | cons x ls ih =>
    cases k with
    | zero =>
      obtain rfl := Option.some.inj hk
      simp only [readLeaves, List.getElem?_cons_zero, List.take_zero]
      cases x with
      | reader r => cases r <;> simp [readLeaf, heldAfter]
      | _ => rfl
    | succ k =>
      have htail := ih (readLeaf readers x).2 hk
      rw [heldAfter_readLeaf] at htail
      exact htail

end Contents

end Value

open Value

/-- `deconstruct` is undone by `reconstruct`: whatever buffers there were before, and in whatever
order the maps are visited, the JSON image of the tree and the buffers give the value back. -/
theorem deconstruct_undone (v : Value) (hv : ∀ l ∈ v.leaves, l.isStored = true) (hm : v.allMaps unmarked = true)
    (bufs₀ : List Bytes) (readers : Readers) (hfew : bufs₀.length + (v.leaves.filter isBytes).length ≤ 2 ^ 53) :
    ∃ d bufs, deconstruct v ⟨readers, bufs₀⟩ = (.ok d, ⟨readers, bufs₀ ++ bufs⟩) ∧
      reconstruct (bufs₀ ++ bufs) d.image = v := by
  have hslots : v.slots = v.leaves.filter isBytes := by
    apply List.filter_congr
    intro l hl
    have hstored := hv l hl
    cases l <;> simp_all [isStored, isBytes, isBinaryLeaf]
  have hbytes : ∀ l ∈ v.slots, l.isBytes = true := by
    intro l hl
    rw [hslots] at hl
    exact (List.mem_filter.mp hl).2
  have hread : ∀ l ∈ v.slots, fails readers l = false := by
    intro l hl
    have hb := hbytes l hl
    cases l <;> simp_all [isBytes, fails]
  refine ⟨v.skeleton bufs₀.length, v.buffers, ?_, ?_⟩
  · rw [deconstruct_of_readable v _ hread, deconstructed, readLeaves_bytes v.slots hbytes]
    rfl
  · have hrebuilt := reconstruct_skeleton v hv hm bufs₀ [] (by rw [hslots]; exact hfew)
    rwa [List.append_nil] at hrebuilt

/-- A map that is visited out of key order, with a buffer on either side of a nested one. -/
def nested : Value :=
  .arr [.bytes [1], .obj [([98], .arr [.bytes [2], .null]), ([97], .number 0)], .str [255], .bytes []]

theorem deconstruct_undone_nested : ∃ d bufs,
    deconstruct nested ⟨Framing.noReaders, [[9]]⟩ = (.ok d, ⟨Framing.noReaders, [[9]] ++ bufs⟩) ∧
      reconstruct ([[9]] ++ bufs) d.image = nested :=
  deconstruct_undone nested (by decide) (by decide) [[9]] Framing.noReaders (by decide)

section Sent

variable {J : Json} {pkt : Packet} {readers : Readers}

theorem exists_fails_slots (v : Value) (readers : Readers) :
    (∃ l ∈ v.leaves, fails readers l = true) ↔ ∃ l ∈ v.slots, fails readers l = true := by
  simp only [slots, List.mem_filter]
  constructor
  · rintro ⟨l, hl, hf⟩
    refine ⟨l, ⟨hl, ?_⟩, hf⟩
    cases l <;> simp_all [fails, isBinaryLeaf]
  · rintro ⟨l, ⟨hl, -⟩, hf⟩
    exact ⟨l, hl, hf⟩

theorem slots_eq_nil_iff (v : Value) : v.slots = [] ↔ hasBinary v = false := by
  rw [← Bool.not_eq_true, hasBinary_iff, not_not]

/-- The packet that `sendPacket` encodes. -/
def writtenHeader (pkt : Packet) : Packet := if hasBinary pkt.data then
    { pkt with type := plainToBinary pkt.type, data := pkt.data.skeleton 0, attachments := pkt.data.slots.length }
  else pkt

theorem writtenHeader_data (pkt : Packet) : (writtenHeader pkt).data = pkt.data.skeleton 0 := by
  unfold writtenHeader
  split_ifs with hbin
  · rfl
  · exact (skeleton_of_slots_nil pkt.data 0 ((slots_eq_nil_iff _).mpr (by simpa using hbin))).symm

theorem ne_null_of_hasBinary {v : Value} (h : hasBinary v = true) : v ≠ .null := by
  rintro rfl
  cases h

theorem sendPacket_of_fails (h : ∃ l ∈ pkt.data.slots, fails readers l = true) :
    (sendPacket J pkt readers).1 = [] := by
  have hbin : hasBinary pkt.data = true := by
    rw [hasBinary_iff]
    obtain ⟨l, hl, -⟩ := h
    exact List.ne_nil_of_mem hl
  obtain ⟨e, he⟩ := deconstruct_error pkt.data { readers } h
  rcases hd : deconstruct pkt.data { readers } with ⟨r, s'⟩
  obtain rfl : r = .error e := by rw [← he, hd]
  simp only [sendPacket, if_pos (And.intro (ne_null_of_hasBinary hbin) hbin), hd]

theorem sendPacket_of_readable (h : ∀ l ∈ pkt.data.slots, fails readers l = false) :
    (sendPacket J pkt readers).1 =
      ⟨encode J (writtenHeader pkt), false⟩ :: (readLeaves pkt.data.slots readers).1.map (⟨·, true⟩) := by
  unfold writtenHeader
  split_ifs with hbin
  · have hdec := deconstruct_of_readable pkt.data { readers } h
    simp only [deconstructed, List.length_nil, List.nil_append] at hdec
    simp only [sendPacket, if_pos (And.intro (ne_null_of_hasBinary hbin) hbin), hdec, length_readLeaves]
  · have hslots : pkt.data.slots = [] := (slots_eq_nil_iff _).mpr (by simpa using hbin)
    simp [sendPacket, hbin, hslots, readLeaves]

/-- The header counts the binary leaves of the packet, each placeholder in its tree stands for
one of them, and the buffers are what the leaves hold. -/
structure Represents (readers : Readers) (pkt header : Packet) (bufs : List Bytes) : Prop where
  counted : bufs.length = (pkt.data.leaves.filter isBinaryLeaf).length
  attachments : 0 < bufs.length → header.attachments = bufs.length
  type : 0 < bufs.length → header.type = plainToBinary pkt.type
  once : header.data.numbers.Perm (List.range bufs.length)
  tree : header.data.fill (pkt.data.leaves.filter isBinaryLeaf) = pkt.data
  contents : ∀ k l, (pkt.data.leaves.filter isBinaryLeaf)[k]? = some l →
    bufs[k]? = some (heldAfter readers ((pkt.data.leaves.filter isBinaryLeaf).take k) l)

theorem represents_writtenHeader (hv : ∀ l ∈ pkt.data.leaves, l.isPlaceholder = false) :
    Represents readers pkt (writtenHeader pkt) (readLeaves pkt.data.slots readers).1 := by
  have hlen := length_readLeaves pkt.data.slots readers
  have hbin (h : 0 < (readLeaves pkt.data.slots readers).1.length) : hasBinary pkt.data = true := by
    rw [hasBinary_iff]
    rw [hlen] at h
    exact List.ne_nil_of_length_pos h
  refine ⟨hlen, fun h => ?_, fun h => ?_, ?_, ?_, fun k l hk => getElem?_readLeaves _ readers hk⟩
  · rw [writtenHeader, if_pos (hbin h), hlen]
  · rw [writtenHeader, if_pos (hbin h)]
  · rw [writtenHeader_data, numbers_skeleton pkt.data hv 0, hlen, List.range_eq_range']
  · rw [writtenHeader_data]
    have hfill := fill_skeleton pkt.data hv [] []
    rwa [List.nil_append, List.append_nil] at hfill

/-- One call of `sendPacket` hands over nothing, exactly if a reader fails, or else a header and
one message for each binary leaf. -/
theorem send_all_or_nothing (J : Json) (pkt : Packet) (hv : ∀ l ∈ pkt.data.leaves, l.isPlaceholder = false)
    (readers : Readers) :
    ((sendPacket J pkt readers).1 = [] ↔ ∃ l ∈ pkt.data.leaves, fails readers l = true) ∧
      ((sendPacket J pkt readers).1 ≠ [] → ∃ (header : Packet) (bufs : List Bytes),
        (sendPacket J pkt readers).1 = ⟨encode J header, false⟩ :: bufs.map (⟨·, true⟩) ∧
        (bufs.length = 0 ↔ hasBinary pkt.data = false) ∧ Represents readers pkt header bufs) := by
  rw [exists_fails_slots]
  by_cases hfails : ∃ l ∈ pkt.data.slots, fails readers l = true
  · have hsent : (sendPacket J pkt readers).1 = [] := sendPacket_of_fails hfails
    exact ⟨iff_of_true hsent hfails, fun hne => absurd hsent hne⟩
  · have hsent := sendPacket_of_readable (J := J) (by simpa using hfails)
    refine ⟨iff_of_false ?_ hfails, fun _ => ⟨_, _, hsent, ?_, represents_writtenHeader hv⟩⟩
    · rw [hsent]
      exact List.cons_ne_nil _ _
    · rw [length_readLeaves, List.length_eq_zero_iff, slots_eq_nil_iff]

/-- An event with a buffer, and a reader that occurs twice. -/
def mixed : Packet :=
  { type := .event, data := .arr [.str [97], .bytes [1], .obj [([98], .reader (some 0))], .reader (some 0)] }

theorem send_all_or_nothing_mixed :
    (sendPacket NonVacuity.textJson mixed fun _ => { content := [7], err := some "closed" }).1 = [] ∧
      ∃ (header : Packet) (bufs : List Bytes),
        (sendPacket NonVacuity.textJson mixed fun _ => { content := [7] }).1 =
          ⟨encode NonVacuity.textJson header, false⟩ :: bufs.map (⟨·, true⟩) ∧
        (bufs.length = 0 ↔ hasBinary mixed.data = false) ∧
        Represents (fun _ => { content := [7] }) mixed header bufs :=
  ⟨(send_all_or_nothing NonVacuity.textJson mixed (by decide) _).1.mpr (by decide),
    (send_all_or_nothing NonVacuity.textJson mixed (by decide) _).2 (by decide +kernel)⟩

end Sent

end Gosocketio

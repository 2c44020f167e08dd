import Gosocketio.Sanity.Value

/-! The exchange of binary leaves for placeholders. `deconstruct` is put in
closed form: it numbers the binary leaves in visiting order and reads them in
that order; `reconstruct` undoes it. -/

namespace Gosocketio

variable {kvs : List (Bytes × Value)} {xs : List Value} {v : Value} {k : ℕ}

namespace Value

/-- A leaf that travels as an attachment. -/
def isBinaryLeaf : Value → Bool
  | .bytes _ => true
  | .reader _ => true
  | _ => false

/-- What a `[]byte` leaf holds. -/
def content : Value → Bytes
  | .bytes b => b
  | _ => []

/-- The binary leaves below `v`, in visiting order. -/
def slots (v : Value) : List Value := v.leaves.filter isBinaryLeaf

@[simp] theorem slots_bytes (b : Bytes) : slots (.bytes b) = [.bytes b] := rfl
@[simp] theorem slots_reader (r : Option ReaderId) : slots (.reader r) = [.reader r] := rfl

@[simp] theorem slots_arr (xs : List Value) : slots (.arr xs) = xs.flatMap slots := by
  rw [slots, leaves, leavesList_eq, List.filter_flatMap]
  rfl

@[simp] theorem slots_obj (kvs : List (Bytes × Value)) :
    slots (.obj kvs) = kvs.flatMap fun kv => kv.2.slots := by
  rw [slots, leaves, leavesEntries_eq, List.filter_flatMap]
  rfl

mutual
/-- `v` with its binary leaves replaced by the placeholders from `k` on. -/
def skeleton : ℕ → Value → Value
  | k, .bytes _ => .placeholder k
  | k, .reader _ => .placeholder k
  | k, .arr xs => .arr (skeletonList k xs)
  | k, .obj kvs => .obj (skeletonEntries k kvs)
  | _, v => v

def skeletonList : ℕ → List Value → List Value
  | _, [] => []
  | k, x :: xs => skeleton k x :: skeletonList (k + x.slots.length) xs

def skeletonEntries : ℕ → List (Bytes × Value) → List (Bytes × Value)
  | _, [] => []
  | k, (key, x) :: kvs => (key, skeleton k x) :: skeletonEntries (k + x.slots.length) kvs
end

theorem mem_skeletonList {y : Value} (h : y ∈ skeletonList k xs) :
    ∃ x ∈ xs, ∃ j, y = skeleton j x ∧ j + x.slots.length ≤ k + (xs.flatMap slots).length := by
  induction xs generalizing k with
  | nil => simp [skeletonList] at h
  | cons x xs ih =>
    rw [List.flatMap_cons, List.length_append]
    rw [skeletonList, List.mem_cons] at h
    rcases h with rfl | h
    · exact ⟨x, by simp, k, rfl, by omega⟩
    · obtain ⟨z, hz, j, hj, hle⟩ := ih h
      exact ⟨z, by simp [hz], j, hj, by omega⟩

theorem mem_skeletonEntries {y : Bytes × Value} (h : y ∈ skeletonEntries k kvs) :
    ∃ kv ∈ kvs, ∃ j, y = (kv.1, skeleton j kv.2) ∧
    j + kv.2.slots.length ≤ k + (kvs.flatMap fun kv => kv.2.slots).length := by
  induction kvs generalizing k with
  | nil => simp [skeletonEntries] at h
  | cons x xs ih =>
    obtain ⟨key, x⟩ := x
    rw [List.flatMap_cons, List.length_append]
    rw [skeletonEntries, List.mem_cons] at h
    rcases h with rfl | h
    · exact ⟨(key, x), by simp, k, rfl, by simp only; omega⟩
    · obtain ⟨z, hz, j, hj, hle⟩ := ih h
      exact ⟨z, by simp [hz], j, hj, by simp only; omega⟩

theorem skeletonEntries_eq (k : ℕ) (kvs : List (Bytes × Value)) :
    skeletonEntries k kvs = (kvs.map Prod.fst).zip (skeletonList k (kvs.map Prod.snd)) := by
  induction kvs generalizing k with
  | nil => rfl
  | cons kv kvs ih => simp [skeletonEntries, skeletonList, ih]

theorem skeletonEntries_keys (k : ℕ) (kvs : List (Bytes × Value)) :
    (skeletonEntries k kvs).map Prod.fst = kvs.map Prod.fst := by
  induction kvs generalizing k with
  | nil => rfl
  | cons kv kvs ih =>
    rw [skeletonEntries, List.map_cons, List.map_cons, ih]

theorem skeletonEntries_values (k : ℕ) (kvs : List (Bytes × Value)) :
    (skeletonEntries k kvs).map Prod.snd = skeletonList k (kvs.map Prod.snd) := by
  induction kvs generalizing k with
  | nil => rfl
  | cons kv kvs ih => rw [skeletonEntries, List.map_cons, List.map_cons, skeletonList, ih]

theorem skeletonList_self (xs : List Value) (ih : ∀ x ∈ xs, ∀ k, skeleton k x = x) (k : ℕ) :
    skeletonList k xs = xs := by
  induction xs generalizing k with
  | nil => rfl
  | cons x xs ihl => rw [skeletonList, ih x (by simp), ihl fun y hy => ih y (by simp [hy])]

/-- A value without binary leaves is its own skeleton. -/
theorem skeleton_of_slots_nil (v : Value) (k : ℕ) (h : v.slots = []) : skeleton k v = v := by
  induction v generalizing k with
  | bytes | reader => simp at h
  | arr xs ih =>
    rw [slots_arr, List.flatMap_eq_nil_iff] at h
    rw [skeleton, skeletonList_self xs fun x hx k => ih x hx k (h x hx)]
  | obj kvs ih =>
    rw [slots_obj, List.flatMap_eq_nil_iff] at h
    rw [skeleton, skeletonEntries_eq, skeletonList_self, ← List.unzip_fst, ← List.unzip_snd, List.zip_unzip]
    exact List.forall_mem_map.mpr fun kv hkv k => ih kv hkv k (h kv hkv)
  | _ => rfl

end Value

open Value

section Deconstruct

theorem hasBinaryList_eq (xs : List Value) : hasBinaryList xs = xs.any hasBinary := by
  induction xs with
  | nil => rfl
  | cons x xs ih => rw [hasBinaryList, ih, List.any_cons]

theorem hasBinaryEntries_eq (kvs : List (Bytes × Value)) :
    hasBinaryEntries kvs = kvs.any fun kv => hasBinary kv.2 := by
  induction kvs with
  | nil => rfl
  | cons kv kvs ih => rw [hasBinaryEntries, ih, List.any_cons]

theorem hasBinary_iff (v : Value) : hasBinary v = true ↔ v.slots ≠ [] := by
  induction v with
  | arr xs ih =>
    simp only [hasBinary, hasBinaryList_eq, List.any_eq_true, slots_arr, ne_eq,
      List.flatMap_eq_nil_iff, not_forall, exists_prop]
    exact exists_congr fun x => and_congr_right fun hx => ih x hx
  | obj kvs ih =>
    simp only [hasBinary, hasBinaryEntries_eq, List.any_eq_true, slots_obj, ne_eq,
      List.flatMap_eq_nil_iff, not_forall, exists_prop]
    exact exists_congr fun kv => and_congr_right fun hkv => ih kv hkv
  | _ => simp [hasBinary, slots, leaves, isBinaryLeaf]

/-- Reading one binary leaf, for readers that do not fail. -/
def readLeaf (readers : Readers) : Value → Bytes × Readers
  | .bytes b => (b, readers)
  | .reader (some i) =>
    ((readers i).content, Function.update readers i { readers i with content := [] })
  | _ => ([], readers)

def readLeaves : List Value → Readers → List Bytes × Readers
  | [], readers => ([], readers)
  | l :: ls, readers =>
    let (b, readers) := readLeaf readers l
    let (bs, readers) := readLeaves ls readers
    (b :: bs, readers)

theorem readLeaves_append (ls ms : List Value) (readers : Readers) : readLeaves (ls ++ ms) readers =
      ((readLeaves ls readers).1 ++ (readLeaves ms (readLeaves ls readers).2).1,
        (readLeaves ms (readLeaves ls readers).2).2) := by
  induction ls generalizing readers with
  | nil => rfl
  | cons l ls ih => simp only [List.cons_append, readLeaves, ih]

@[simp] theorem length_readLeaves (ls : List Value) (readers : Readers) :
    (readLeaves ls readers).1.length = ls.length := by
  induction ls generalizing readers with
  | nil => rfl
  | cons l ls ih => simp only [readLeaves, List.length_cons, ih]

theorem readLeaves_bytes (ls : List Value) (h : ∀ l ∈ ls, l.isBytes = true) (readers : Readers) :
    readLeaves ls readers = (ls.map content, readers) := by
  induction ls with
  | nil => rfl
  | cons l ls ih =>
    rw [readLeaves, List.map_cons]
    cases l with
    | bytes b => simp only [readLeaf, content, ih fun l hl => h l (by simp [hl])]
    | _ => simp [isBytes] at h

theorem err_readLeaf (readers : Readers) (l : Value) (i : ReaderId) :
    ((readLeaf readers l).2 i).err = (readers i).err := by
  unfold readLeaf
  split
  · rfl
  · rename_i j
    by_cases hij : i = j
    · subst hij
      simp
    · simp [hij]
  · rfl

theorem err_readLeaves (ls : List Value) (readers : Readers) (i : ReaderId) :
    ((readLeaves ls readers).2 i).err = (readers i).err := by
  induction ls generalizing readers with
  | nil => rfl
  | cons l ls ih => exact (ih _).trans (err_readLeaf readers l i)

/-- No reader ends in an error. -/
def Reliable (readers : Readers) : Prop := ∀ i, (readers i).err = none

theorem reliable_readLeaves {readers : Readers} (h : Reliable readers) (ls : List Value) :
    Reliable (readLeaves ls readers).2 :=
  fun i => (err_readLeaves ls readers i).trans (h i)

/-- The leaf is a reader that ends in an error. -/
def fails (readers : Readers) : Value → Bool
  | .reader (some i) => (readers i).err.isSome
  | _ => false

theorem fails_of_reliable {readers : Readers} (h : Reliable readers) (l : Value) : fails readers l = false := by
  unfold fails
  split
  · rw [h]
    rfl
  · rfl

theorem fails_readLeaves (ls : List Value) (readers : Readers) (l : Value) :
    fails (readLeaves ls readers).2 l = fails readers l := by
  unfold fails
  split
  · rw [err_readLeaves]
  · rfl

/-- What `deconstruct` leaves behind: the value numbered from the buffers it
found, and the leaves read in order. -/
def deconstructed (v : Value) (s : Sink) : Except String Value × Sink :=
  (.ok (v.skeleton s.bufs.length),
    ⟨(readLeaves v.slots s.readers).2, s.bufs ++ (readLeaves v.slots s.readers).1⟩)

theorem deconstructList_eq (xs : List Value)
    (ih : ∀ x ∈ xs, ∀ s : Sink, (∀ l ∈ x.slots, fails s.readers l = false) →
      deconstruct x s = deconstructed x s)
    (s : Sink) (hs : ∀ l ∈ xs.flatMap slots, fails s.readers l = false) :
    deconstructList xs s = (.ok (skeletonList s.bufs.length xs),
      ⟨(readLeaves (xs.flatMap slots) s.readers).2,
        s.bufs ++ (readLeaves (xs.flatMap slots) s.readers).1⟩) := by
  induction xs generalizing s with
  | nil => simp [deconstructList, skeletonList, readLeaves]
  | cons x xs ihl =>
    obtain ⟨hx, hxs⟩ := List.forall_mem_append.mp (List.flatMap_cons ▸ hs)
    have htail := ihl (fun y hy => ih y (by simp [hy])) (deconstructed x s).2
      fun l hl => (fails_readLeaves _ _ l).trans (hxs l hl)
    simp only [deconstructList, ih x (by simp) s hx, deconstructed] at htail ⊢
    rw [htail]
    simp only [skeletonList, List.flatMap_cons, readLeaves_append, List.length_append,
      length_readLeaves, List.append_assoc]

/-- The values of a map are visited like those of a list. -/
theorem deconstructEntries_eq (kvs : List (Bytes × Value)) (s : Sink) :
    deconstructEntries kvs s = ((deconstructList (kvs.map Prod.snd) s).1.map (kvs.map Prod.fst).zip,
      (deconstructList (kvs.map Prod.snd) s).2) := by
  induction kvs generalizing s with
  | nil => rfl
  | cons kv kvs ih =>
    obtain ⟨k, x⟩ := kv
    simp only [deconstructEntries, List.map_cons, deconstructList]
    rcases deconstruct x s with ⟨_ | d, s₁⟩
    · rfl
    · simp only [ih]
      rcases deconstructList (kvs.map Prod.snd) s₁ with ⟨_ | out, s₂⟩ <;> rfl

theorem deconstruct_of_readable (v : Value) (s : Sink) (hs : ∀ l ∈ v.slots, fails s.readers l = false) :
    deconstruct v s = deconstructed v s := by
  induction v generalizing s with
  | arr xs ih =>
    rw [slots_arr] at hs
    simp only [deconstruct, deconstructList_eq xs ih s hs, deconstructed, skeleton, slots_arr]
  | obj kvs ih =>
    rw [slots_obj, ← List.flatMap_map Prod.snd] at hs
    have hlist := deconstructList_eq (kvs.map Prod.snd) (List.forall_mem_map.mpr ih) s hs
    simp only [deconstruct, deconstructEntries_eq, hlist, deconstructed, skeleton, skeletonEntries_eq,
      slots_obj, List.flatMap_map, Except.map]
  | reader r =>
    cases r with
    | none => rfl
    | some i =>
      have hi : (s.readers i).err = none := by simpa [fails] using hs
      simp [deconstruct, readAll, hi, deconstructed, readLeaves, readLeaf, skeleton]
  | bytes b => rfl
  | _ => simp [deconstruct, deconstructed, slots, leaves, isBinaryLeaf, readLeaves, skeleton]

theorem deconstruct_eq (v : Value) (s : Sink) (hs : Reliable s.readers) :
    deconstruct v s = deconstructed v s :=
  deconstruct_of_readable v s fun l _ => fails_of_reliable hs l

theorem deconstructList_error (xs : List Value)
    (ih : ∀ x ∈ xs, ∀ s : Sink, (∃ l ∈ x.slots, fails s.readers l = true) →
      ∃ e, (deconstruct x s).1 = .error e)
    (s : Sink) (hs : ∃ l ∈ xs.flatMap slots, fails s.readers l = true) :
    ∃ e, (deconstructList xs s).1 = .error e := by
  induction xs generalizing s with
  | nil => simp at hs
  | cons x xs ihl =>
    by_cases hx : ∃ l ∈ x.slots, fails s.readers l = true
    · obtain ⟨e, he⟩ := ih x (by simp) s hx
      rcases hd : deconstruct x s with ⟨r, s'⟩
      obtain rfl : r = .error e := by rw [← he, hd]
      exact ⟨e, by simp only [deconstructList, hd]⟩
    · -- the walk gets past `x`, and the readers still fail behind it
      have hok := deconstruct_of_readable x s (by simpa using hx)
      obtain ⟨l, hl, hfail⟩ := hs
      rw [List.flatMap_cons, List.mem_append] at hl
      obtain ⟨e, he⟩ := ihl (fun y hy => ih y (by simp [hy])) (deconstructed x s).2
        ⟨l, hl.resolve_left fun hl => hx ⟨l, hl, hfail⟩, (fails_readLeaves _ _ l).trans hfail⟩
      rcases hd : deconstructList xs (deconstructed x s).2 with ⟨r, s'⟩
      obtain rfl : r = .error e := by rw [← he, hd]
      simp only [deconstructed] at hd
      exact ⟨e, by simp only [deconstructList, hok, deconstructed, hd]⟩

/-- A reader that fails, wherever it stands, makes the whole walk fail. -/
theorem deconstruct_error (v : Value) (s : Sink) (hs : ∃ l ∈ v.slots, fails s.readers l = true) :
    ∃ e, (deconstruct v s).1 = .error e := by
  induction v generalizing s with
  | arr xs ih =>
    rw [slots_arr] at hs
    obtain ⟨e, he⟩ := deconstructList_error xs ih s hs
    rcases hd : deconstructList xs s with ⟨r, s'⟩
    obtain rfl : r = .error e := by rw [← he, hd]
    exact ⟨e, by simp only [deconstruct, hd]⟩
  | obj kvs ih =>
    rw [slots_obj, ← List.flatMap_map Prod.snd] at hs
    obtain ⟨e, he⟩ := deconstructList_error (kvs.map Prod.snd) (List.forall_mem_map.mpr ih) s hs
    exact ⟨e, by simp only [deconstruct, deconstructEntries_eq, he, Except.map]⟩
  | reader r =>
    cases r with
    | none => simp [fails] at hs
    | some i =>
      have hi : (s.readers i).err.isSome = true := by simpa [fails] using hs
      obtain ⟨e, he⟩ := Option.isSome_iff_exists.mp hi
      exact ⟨_, by simp only [deconstruct, readAll, he]; rfl⟩
  | _ => simp [slots, leaves, isBinaryLeaf, fails] at hs

end Deconstruct

namespace Value

section Sorted

theorem sortEntries_keys (kvs : List (Bytes × Value)) :
    (sortEntries kvs).map Prod.fst = (kvs.map Prod.fst).insertionSort (· ≤ ·) :=
  List.map_insertionSort _ _ _ _ fun _ _ _ _ => Iff.rfl

theorem sortEntries_map (f : Value → Value) (kvs : List (Bytes × Value)) :
    sortEntries (kvs.map fun kv => (kv.1, f kv.2)) =
      (sortEntries kvs).map fun kv => (kv.1, f kv.2) := by
  symm
  apply List.map_insertionSort
  exact fun _ _ _ _ => Iff.rfl

@[simp] theorem mem_sortEntries {kv : Bytes × Value} : kv ∈ sortEntries kvs ↔ kv ∈ kvs :=
  List.mem_insertionSort _

theorem sorted_sorted (v : Value) : v.sorted.sorted = v.sorted := by
  induction v with
  | arr xs ih =>
    simp only [sorted, sortedList_eq, List.map_map]
    exact congrArg _ (List.map_congr_left ih)
  | obj kvs ih =>
    simp only [sorted, sortedEntries_eq]
    rw [← sortEntries_map, sortEntries_idem, List.map_map]
    refine congrArg _ (congrArg _ (List.map_congr_left fun kv hkv => ?_))
    simp [ih kv hkv]
  | _ => rfl

theorem keysAscending_congr {kvs lws : List (Bytes × Value)}
    (h : kvs.map Prod.fst = lws.map Prod.fst) : keysAscending kvs = keysAscending lws := by
  have hall (l : List (Bytes × Value)) :
      (l.all fun kv => validUtf8 kv.1) = (l.map Prod.fst).all validUtf8 := by
    rw [List.all_map]
    rfl
  rw [keysAscending, keysAscending, hall, hall, h]

theorem keysAscending_sortEntries_map (f : Value → Value) (kvs : List (Bytes × Value)) :
    keysAscending (sortEntries (kvs.map fun kv => (kv.1, f kv.2))) =
      keysAscending (sortEntries kvs) := by
  rw [sortEntries_map]
  exact keysAscending_congr (by simp)

/-- Every map below `v` has distinct keys, each valid UTF-8. -/
def KeysOk (v : Value) : Prop := v.sorted.allMaps keysAscending = true

theorem keysOk_arr : KeysOk (.arr xs) ↔ ∀ x ∈ xs, KeysOk x := by
  simp [KeysOk, sorted, allMaps]

theorem keysOk_obj :
    KeysOk (.obj kvs) ↔ keysAscending (sortEntries kvs) = true ∧ ∀ kv ∈ kvs, KeysOk kv.2 := by
  simp only [KeysOk, sorted, sortedEntries_eq, allMaps, keysAscending_sortEntries_map,
    allMapsEntries_eq, Bool.and_eq_true, List.all_eq_true, mem_sortEntries, List.forall_mem_map]

theorem sortEntries_perm (kvs : List (Bytes × Value)) : (sortEntries kvs).Perm kvs :=
  List.perm_insertionSort _ kvs

theorem nodup_keys (h : keysAscending (sortEntries kvs) = true) : (kvs.map Prod.fst).Nodup := by
  simp only [keysAscending, Bool.and_eq_true, decide_eq_true_eq] at h
  have hnodup : ((sortEntries kvs).map Prod.fst).Nodup := by
    apply h.1.imp
    rintro a b hab rfl
    exact List.lt_irrefl a hab
  exact ((sortEntries_perm kvs).map Prod.fst).nodup_iff.mp hnodup

theorem find?_of_perm {kvs lws : List (Bytes × Value)} (h : kvs.Perm lws)
    (hn : (kvs.map Prod.fst).Nodup) (k : Bytes) :
    kvs.find? (fun kv => kv.1 = k) = lws.find? fun kv => kv.1 = k := by
  induction h with
  | nil => rfl
  | cons x _ ih =>
    rw [List.map_cons, List.nodup_cons] at hn
    rw [List.find?_cons, List.find?_cons, ih hn.2]
  | swap x y l =>
    by_cases hx : x.1 = k <;> by_cases hy : y.1 = k <;> simp_all
  | trans hp _ ih₁ ih₂ =>
    exact (ih₁ hn).trans (ih₂ ((hp.map Prod.fst).nodup_iff.mp hn))

theorem lookup_sortEntries (h : keysAscending (sortEntries kvs) = true) (k : Bytes) :
    lookup (sortEntries kvs) k = lookup kvs k := by
  rw [lookup, lookup, find?_of_perm (sortEntries_perm kvs).symm (nodup_keys h)]

theorem lookup_map (f : Value → Value) (hf : f .null = .null) (kvs : List (Bytes × Value))
    (k : Bytes) : lookup (kvs.map fun kv => (kv.1, f kv.2)) k = f (lookup kvs k) := by
  induction kvs with
  | nil => exact hf.symm
  | cons kv kvs ih =>
    unfold lookup at ih ⊢
    by_cases hk : kv.1 = k
    · simp [hk]
    · simp only [List.map_cons, List.find?_cons, hk, decide_false]
      exact ih

theorem sorted_eq_bool {b : Bool} : v.sorted = .bool b ↔ v = .bool b := by
  cases v <;> simp [sorted]

end Sorted

end Value

section Reconstruct

variable (bufs : List Bytes)

@[simp] theorem reconstructList_eq (xs : List Value) :
    reconstructList bufs xs = xs.map (reconstruct bufs) := by
  induction xs with
  | nil => rfl
  | cons x xs ih => rw [reconstructList, ih, List.map_cons]

@[simp] theorem reconstructEntries_eq (kvs : List (Bytes × Value)) :
    reconstructEntries bufs kvs = kvs.map fun kv => (kv.1, reconstruct bufs kv.2) := by
  induction kvs with
  | nil => rfl
  | cons kv kvs ih => rw [reconstructEntries, ih, List.map_cons]

theorem placeholderBuffer_sorted (kvs lws : List (Bytes × Value))
    (h : lookup lws numKey = (lookup kvs numKey).sorted) :
    placeholderBuffer lws bufs = (placeholderBuffer kvs bufs).sorted := by
  unfold placeholderBuffer
  rw [h]
  cases lookup kvs numKey <;> simp only [sorted]
  split_ifs <;> simp only [sorted]

/-- The order of the entries is no concern of `reconstruct`. -/
theorem reconstruct_sorted (v : Value) (hv : v.KeysOk) :
    reconstruct bufs v.sorted = (reconstruct bufs v).sorted := by
  induction v with
  | arr xs ih =>
    rw [keysOk_arr] at hv
    simp only [sorted, sortedList_eq, reconstruct, reconstructList_eq, List.map_map]
    exact congrArg _ (List.map_congr_left fun x hx => ih x hx (hv x hx))
  | obj kvs ih =>
    rw [keysOk_obj] at hv
    have hkeys : keysAscending (sortEntries (kvs.map fun kv => (kv.1, kv.2.sorted))) = true := by
      rw [keysAscending_sortEntries_map]
      exact hv.1
    have hlookup (k : Bytes) : lookup (sortEntries (kvs.map fun kv => (kv.1, kv.2.sorted))) k =
        (lookup kvs k).sorted := by
      rw [lookup_sortEntries hkeys, lookup_map sorted rfl]
    simp only [sorted, sortedEntries_eq, reconstruct, hlookup, sorted_eq_bool, reconstructEntries_eq]
    split_ifs with hp
    · exact placeholderBuffer_sorted bufs kvs _ (hlookup numKey)
    · simp only [sorted, sortedEntries_eq, List.map_map]
      rw [← sortEntries_map, List.map_map]
      exact congrArg _ (congrArg _ (List.map_congr_left fun kv hkv => by
        simp [ih kv hkv (hv.2 kv hkv)]))
  | _ => rfl

end Reconstruct

namespace Value

section Skeleton

/-- The map is not taken for a placeholder. -/
def unmarked (kvs : List (Bytes × Value)) : Bool := lookup kvs placeholderKey ≠ .bool true

theorem image_skeleton_eq_bool {b : Bool} : (skeleton k v).image = .bool b ↔ v = .bool b := by
  cases v <;> simp [skeleton, image]

theorem lookup_skeletonEntries (k : ℕ) (kvs : List (Bytes × Value)) (key : Bytes) (b : Bool) :
    lookup ((skeletonEntries k kvs).map fun kv => (kv.1, kv.2.image)) key = .bool b ↔
      lookup kvs key = .bool b := by
  induction kvs generalizing k with
  | nil => rfl
  | cons kv kvs ih =>
    obtain ⟨key', x⟩ := kv
    unfold lookup at ih ⊢
    by_cases hk : key' = key
    · simp [skeletonEntries, hk, image_skeleton_eq_bool]
    · simp only [skeletonEntries, List.map_cons, List.find?_cons, hk, decide_false]
      exact ih _

theorem mem_leaves_sorted (v : Value) (l : Value) : l ∈ v.sorted.leaves ↔ l ∈ v.leaves := by
  induction v with
  | arr xs ih =>
    simp only [sorted, sortedList_eq, leaves, leavesList_eq, List.flatMap_map, List.mem_flatMap]
    exact exists_congr fun x => and_congr_right fun hx => ih x hx
  | obj kvs ih =>
    simp only [sorted, sortedEntries_eq, leaves, leavesEntries_eq, List.mem_flatMap,
      mem_sortEntries, List.mem_map, exists_exists_and_eq_and]
    exact exists_congr fun kv => and_congr_right fun hkv => ih kv hkv
  | _ => rfl

theorem jsonLeaf_image_skeleton (v : Value) (k : ℕ)
    (hv : ∀ l ∈ v.leaves, l.jsonLeaf = true ∨ l.isBinaryLeaf = true)
    (hk : k + v.slots.length ≤ 2 ^ 53) : ∀ l ∈ (skeleton k v).image.leaves, l.jsonLeaf = true := by
  induction v generalizing k with
  | bytes | reader =>
    have hfin := Float64.isFinite_ofNat (n := k) (by simp at hk; omega)
    simp [skeleton, image, leaves, leavesEntries, jsonLeaf, hfin]
  | arr xs ih =>
    intro l hl
    simp only [skeleton, image, imageList_eq, leaves, leavesList_eq, List.mem_flatMap,
      List.mem_map, exists_exists_and_eq_and] at hl
    obtain ⟨y, hy, hl⟩ := hl
    obtain ⟨x, hx, j, rfl, hj⟩ := mem_skeletonList hy
    simp only [leaves, leavesList_eq, List.mem_flatMap] at hv
    rw [slots_arr] at hk
    exact ih x hx j (fun l hl => hv l ⟨x, hx, hl⟩) (by omega) l hl
  | obj kvs ih =>
    intro l hl
    simp only [skeleton, image, imageEntries_eq, leaves, leavesEntries_eq, List.mem_flatMap,
      List.mem_map, exists_exists_and_eq_and] at hl
    obtain ⟨y, hy, hl⟩ := hl
    obtain ⟨kv, hkv, j, rfl, hj⟩ := mem_skeletonEntries hy
    simp only [leaves, leavesEntries_eq, List.mem_flatMap] at hv
    rw [slots_obj] at hk
    exact ih kv hkv j (fun l hl => hv l ⟨kv, hkv, hl⟩) (by omega) l hl
  | placeholder n => simp [leaves, jsonLeaf, isBinaryLeaf] at hv
  | _ => simpa [skeleton, image, leaves, isBinaryLeaf] using hv

theorem smallPlaceholder_skeleton (v : Value) (k : ℕ)
    (hv : ∀ l ∈ v.leaves, l.isPlaceholder = false) (hk : k + v.slots.length ≤ 2 ^ 53) :
    ∀ l ∈ (skeleton k v).leaves, smallPlaceholder l = true := by
  induction v generalizing k with
  | bytes b =>
    simp only [slots_bytes, List.length_singleton] at hk
    simp [skeleton, leaves, smallPlaceholder]
    omega
  | reader r =>
    simp only [slots_reader, List.length_singleton] at hk
    simp [skeleton, leaves, smallPlaceholder]
    omega
  | placeholder n => simp [leaves, isPlaceholder] at hv
  | arr xs ih =>
    intro l hl
    simp only [skeleton, leaves, leavesList_eq, List.mem_flatMap] at hl
    obtain ⟨y, hy, hl⟩ := hl
    obtain ⟨x, hx, j, rfl, hj⟩ := mem_skeletonList hy
    simp only [leaves, leavesList_eq, List.mem_flatMap] at hv
    rw [slots_arr] at hk
    exact ih x hx j (fun l hl => hv l ⟨x, hx, hl⟩) (by omega) l hl
  | obj kvs ih =>
    intro l hl
    simp only [skeleton, leaves, leavesEntries_eq, List.mem_flatMap] at hl
    obtain ⟨y, hy, hl⟩ := hl
    obtain ⟨kv, hkv, j, rfl, hj⟩ := mem_skeletonEntries hy
    simp only [leaves, leavesEntries_eq, List.mem_flatMap] at hv
    rw [slots_obj] at hk
    exact ih kv hkv j (fun l hl => hv l ⟨kv, hkv, hl⟩) (by omega) l hl
  | _ => simp [skeleton, leaves, smallPlaceholder]

theorem keysOk_placeholder (n : ℕ) : KeysOk (image (.placeholder n)) := by
  rw [image, keysOk_obj]
  refine ⟨?_, by simp [KeysOk, sorted, allMaps]⟩
  -- only the keys matter
  rw [← keysAscending_sortEntries_map fun _ => .null]
  change keysAscending (sortEntries [(placeholderKey, .null), (numKey, .null)]) = true
  decide

theorem keysOk_image_skeleton (v : Value) (k : ℕ) (hv : v.KeysOk) : (skeleton k v).image.KeysOk := by
  induction v generalizing k with
  | bytes | reader => exact keysOk_placeholder k
  | placeholder n => exact keysOk_placeholder n
  | arr xs ih =>
    rw [keysOk_arr] at hv
    rw [skeleton, image, imageList_eq, keysOk_arr, List.forall_mem_map]
    intro y hy
    obtain ⟨x, hx, j, rfl, -⟩ := mem_skeletonList hy
    exact ih x hx j (hv x hx)
  | obj kvs ih =>
    rw [keysOk_obj] at hv
    rw [skeleton, image, imageEntries_eq, keysOk_obj, List.forall_mem_map]
    refine ⟨?_, ?_⟩
    · rw [keysAscending_sortEntries_map, ← hv.1]
      apply keysAscending_congr
      rw [sortEntries_keys, sortEntries_keys, skeletonEntries_keys]
    · intro y hy
      obtain ⟨kv, hkv, j, rfl, -⟩ := mem_skeletonEntries hy
      exact ih kv hkv j (hv.2 kv hkv)
  | _ => exact hv

theorem isJson_sorted (hl : ∀ l ∈ v.leaves, l.jsonLeaf = true) (hk : v.KeysOk) :
    v.sorted.isJson = true := by
  rw [isJson, Bool.and_eq_true, List.all_eq_true]
  exact ⟨fun l h => hl l ((mem_leaves_sorted v l).mp h), hk⟩

end Skeleton

section Rebuild

/-- The buffers a value without readers is sent with. -/
def buffers (v : Value) : List Bytes := v.slots.map content

@[simp] theorem length_buffers (v : Value) : v.buffers.length = v.slots.length := by
  rw [buffers, List.length_map]

theorem reconstruct_placeholder (bufs : List Bytes) (n : ℕ) (hn : n < 2 ^ 53) :
    reconstruct bufs (image (.placeholder n)) =
      if n < bufs.length then .bytes (bufs.getD n []) else .null := by
  have hmark : lookup [(placeholderKey, .bool true), (numKey, .number (Float64.ofNat n))]
      placeholderKey = .bool true := rfl
  have hnum : lookup [(placeholderKey, .bool true), (numKey, .number (Float64.ofNat n))]
      numKey = .number (Float64.ofNat n) := rfl
  rw [image, reconstruct, if_pos hmark, placeholderBuffer, hnum]
  simp only [Float64.toInt_ofNat hn]
  simp

section Inverse

variable {β : Type*} {g : List β → Value → Value} {part : Value → List β} {bound : ℕ}
    (hpart : ∀ x : Value, (part x).length = x.slots.length)

include hpart

/-- What puts every element back from its own part of a list puts all of them back. -/
theorem skeletonList_inverse (xs : List Value)
    (ih : ∀ x ∈ xs, ∀ pre post : List β, pre.length + x.slots.length ≤ bound →
      g (pre ++ part x ++ post) (skeleton pre.length x) = x)
    (pre post : List β) (hlen : pre.length + (xs.flatMap slots).length ≤ bound) :
    (skeletonList pre.length xs).map (g (pre ++ xs.flatMap part ++ post)) = xs := by
  induction xs generalizing pre with
  | nil => rfl
  | cons x xs ihl =>
    rw [List.flatMap_cons, List.length_append] at hlen
    have hx := ih x (by simp) pre (xs.flatMap part ++ post) (by omega)
    have hxs := ihl (fun y hy => ih y (by simp [hy])) (pre ++ part x)
      (by rw [List.length_append, hpart]; omega)
    rw [List.length_append, hpart] at hxs
    simp only [skeletonList, List.map_cons, List.flatMap_cons, List.append_assoc] at hx hxs ⊢
    rw [hx, hxs]

theorem skeletonEntries_inverse (kvs : List (Bytes × Value))
    (ih : ∀ kv ∈ kvs, ∀ pre post : List β, pre.length + kv.2.slots.length ≤ bound →
      g (pre ++ part kv.2 ++ post) (skeleton pre.length kv.2) = kv.2)
    (pre post : List β) (hlen : pre.length + (kvs.flatMap fun kv => kv.2.slots).length ≤ bound) :
    (skeletonEntries pre.length kvs).map (fun kv =>
      (kv.1, g (pre ++ (kvs.flatMap fun kv => part kv.2) ++ post) kv.2)) = kvs := by
  rw [← List.flatMap_map Prod.snd] at hlen ⊢
  rw [skeletonEntries_eq]
  refine (List.zip_map_right ..).symm.trans ?_
  rw [skeletonList_inverse hpart (kvs.map Prod.snd) (List.forall_mem_map.mpr ih) pre post hlen]
  rw [← List.unzip_fst, ← List.unzip_snd, List.zip_unzip]

end Inverse

/-- A leaf that is written to JSON as it is, or a `[]byte`. -/
def isStored : Value → Bool
  | .reader _ => false
  | .placeholder _ => false
  | _ => true

/-- The buffers go back to the leaves they were taken from. They may stand among
others: `pre` are those numbered before, `post` those after. -/
theorem reconstruct_skeleton (v : Value) (hv : ∀ l ∈ v.leaves, l.isStored = true)
    (hm : v.allMaps unmarked = true) (pre post : List Bytes) (hlen : pre.length + v.slots.length ≤ 2 ^ 53) :
    reconstruct (pre ++ v.buffers ++ post) (skeleton pre.length v).image = v := by
  induction v generalizing pre post with
  | bytes b =>
    rw [skeleton, reconstruct_placeholder _ _ (by simp at hlen; omega)]
    simp [buffers, content]
  | reader | placeholder => simp [leaves, isStored] at hv
  | arr xs ih =>
    simp only [leaves, leavesList_eq, List.mem_flatMap, forall_exists_index, and_imp] at hv
    simp only [allMaps, allMapsList_eq, List.all_eq_true] at hm
    rw [slots_arr] at hlen
    have hlist := skeletonList_inverse (g := fun bufs y => reconstruct bufs y.image) length_buffers xs
      (fun x hx => ih x hx (fun l hl => hv l x hx hl) (hm x hx)) pre post hlen
    have hbufs : buffers (.arr xs) = xs.flatMap buffers := by
      rw [buffers, slots_arr, List.map_flatMap]
      rfl
    rw [skeleton, image, imageList_eq, reconstruct, reconstructList_eq, hbufs, List.map_map]
    exact congrArg _ hlist
  | obj kvs ih =>
    simp only [leaves, leavesEntries_eq, List.mem_flatMap, forall_exists_index, and_imp] at hv
    simp only [allMaps, allMapsEntries_eq, Bool.and_eq_true, List.all_eq_true, unmarked,
      decide_eq_true_eq] at hm
    rw [slots_obj] at hlen
    have hlist := skeletonEntries_inverse (g := fun bufs y => reconstruct bufs y.image) length_buffers kvs
      (fun kv hkv => ih kv hkv (fun l hl => hv l kv hkv hl) (hm.2 kv hkv)) pre post hlen
    have hbufs : buffers (.obj kvs) = kvs.flatMap fun kv => kv.2.buffers := by
      rw [buffers, slots_obj, List.map_flatMap]
      rfl
    rw [skeleton, image, imageEntries_eq, reconstruct,
      if_neg ((lookup_skeletonEntries _ _ _ _).not.mpr hm.1), reconstructEntries_eq, hbufs, List.map_map]
    exact congrArg _ hlist
  | _ => rfl

end Rebuild

section Nodes

mutual
/-- The number of values in the tree. -/
def nodes : Value → ℕ
  | .arr xs => 1 + nodesList xs
  | .obj kvs => 1 + nodesEntries kvs
  | _ => 1

def nodesList : List Value → ℕ
  | [] => 0
  | x :: xs => nodes x + nodesList xs

def nodesEntries : List (Bytes × Value) → ℕ
  | [] => 0
  | (_, x) :: kvs => nodes x + nodesEntries kvs
end

@[simp] theorem nodesList_eq (xs : List Value) : nodesList xs = (xs.map nodes).sum := by
  induction xs with
  | nil => rfl
  | cons x xs ih => rw [nodesList, ih, List.map_cons, List.sum_cons]

@[simp] theorem nodesEntries_eq (kvs : List (Bytes × Value)) :
    nodesEntries kvs = (kvs.map fun kv => kv.2.nodes).sum := by
  induction kvs with
  | nil => rfl
  | cons kv kvs ih => rw [nodesEntries, ih, List.map_cons, List.sum_cons]

theorem nodes_pos (v : Value) : 0 < v.nodes := by
  cases v <;> simp [nodes]

theorem nodes_sorted (v : Value) : v.sorted.nodes = v.nodes := by
  induction v with
  | arr xs ih =>
    simp only [sorted, sortedList_eq, nodes, nodesList_eq, List.map_map]
    exact congrArg _ (congrArg _ (List.map_congr_left ih))
  | obj kvs ih =>
    simp only [sorted, sortedEntries_eq, nodes, nodesEntries_eq]
    rw [((sortEntries_perm _).map _).sum_eq, List.map_map]
    exact congrArg _ (congrArg _ (List.map_congr_left ih))
  | _ => rfl

theorem nestingList_le {d : ℕ} : nestingList xs ≤ d ↔ ∀ x ∈ xs, x.nesting ≤ d := by
  induction xs with
  | nil => simp [nestingList]
  | cons x xs ih => rw [nestingList, max_le_iff, ih, List.forall_mem_cons]

theorem nestingEntries_le {d : ℕ} : nestingEntries kvs ≤ d ↔ ∀ kv ∈ kvs, kv.2.nesting ≤ d := by
  induction kvs with
  | nil => simp [nestingEntries]
  | cons kv kvs ih => rw [nestingEntries, max_le_iff, ih, List.forall_mem_cons]

/-- A payload is not nested deeper when its binary leaves are taken out. -/
theorem nesting_skeleton (v : Value) (k : ℕ) : (skeleton k v).image.sorted.nesting ≤ v.nesting := by
  induction v generalizing k with
  | arr xs ih =>
    simp only [skeleton, image, imageList_eq, sorted, sortedList_eq, nesting, List.map_map]
    refine Nat.succ_le_succ (nestingList_le.mpr (List.forall_mem_map.mpr fun y hy => ?_))
    obtain ⟨x, hx, j, rfl, -⟩ := mem_skeletonList hy
    exact (ih x hx j).trans (nestingList_le.mp le_rfl x hx)
  | obj kvs ih =>
    simp only [skeleton, image, imageEntries_eq, sorted, sortedEntries_eq, nesting, List.map_map]
    refine Nat.succ_le_succ (nestingEntries_le.mpr fun y hy => ?_)
    obtain ⟨z, hz, rfl⟩ := List.mem_map.mp ((sortEntries_perm _).mem_iff.mp hy)
    obtain ⟨kv, hkv, j, rfl, -⟩ := mem_skeletonEntries hz
    exact (ih kv hkv j).trans (nestingEntries_le.mp le_rfl kv hkv)
  | _ => exact le_rfl

theorem nodes_placeholderBuffer (kvs : List (Bytes × Value)) (bufs : List Bytes) :
    (placeholderBuffer kvs bufs).nodes = 1 := by
  unfold placeholderBuffer
  split
  · simp only
    split_ifs <;> rfl
  · rfl

theorem nodes_of_marked (h : unmarked kvs = false) : 1 < (Value.obj kvs).nodes := by
  cases kvs with
  | nil => simp [unmarked, lookup] at h
  | cons kv kvs =>
    have := nodes_pos kv.2
    simp only [nodes, nodesEntries_eq, List.map_cons, List.sum_cons]
    omega

theorem reconstruct_placeholder_nodes (bufs : List Bytes) (n : ℕ) :
    (reconstruct bufs (image (.placeholder n))).nodes = 1 := by
  have hmark : lookup [(placeholderKey, .bool true), (numKey, .number (Float64.ofNat n))]
      placeholderKey = .bool true := rfl
  rw [image, reconstruct, if_pos hmark, nodes_placeholderBuffer]

/-- A pass that carries a number along a list and lets no element grow does not
make the sum grow, and makes it smaller when an element shrinks. -/
theorem sum_le_of_pass {α : Type*} (f : ℕ → α → ℕ) (g len : α → ℕ) (bad : α → Prop)
    (step : ℕ → List α → List ℕ) (hnil : ∀ k, step k [] = [])
    (hcons : ∀ k x xs, step k (x :: xs) = f k x :: step (k + len x) xs) (xs : List α)
    (ih : ∀ x ∈ xs, ∀ k, f k x ≤ g x ∧ (bad x → f k x < g x)) (k : ℕ) :
    (step k xs).sum ≤ (xs.map g).sum ∧ ((∃ x ∈ xs, bad x) → (step k xs).sum < (xs.map g).sum) := by
  induction xs generalizing k with
  | nil => simp [hnil]
  | cons x xs ihl =>
    have hx := ih x (by simp) k
    have hxs := ihl (fun y hy => ih y (by simp [hy])) (k + len x)
    rw [hcons, List.map_cons, List.sum_cons, List.sum_cons]
    refine ⟨by omega, ?_⟩
    rintro ⟨y, hy, hbad⟩
    rcases List.mem_cons.mp hy with rfl | hy
    · have := hx.2 hbad
      omega
    · have := hxs.2 ⟨y, hy, hbad⟩
      omega

/-- Rebuilding never adds to the tree, and a map that is taken for a placeholder
makes it smaller. -/
theorem nodes_reconstruct_skeleton (bufs : List Bytes) (v : Value) (k : ℕ) :
    (reconstruct bufs (skeleton k v).image).nodes ≤ v.nodes ∧
      (v.allMaps unmarked = false → (reconstruct bufs (skeleton k v).image).nodes < v.nodes) := by
  induction v generalizing k with
  | bytes | reader => exact ⟨(reconstruct_placeholder_nodes bufs k).le, by simp [allMaps]⟩
  | placeholder n => exact ⟨(reconstruct_placeholder_nodes bufs n).le, by simp [allMaps]⟩
  | arr xs ih =>
    have hsum := sum_le_of_pass (fun k x => (reconstruct bufs (skeleton k x).image).nodes) nodes
      (fun x => x.slots.length) (fun x => x.allMaps unmarked = false)
      (fun k xs => (skeletonList k xs).map fun y => (reconstruct bufs y.image).nodes)
      (fun _ => rfl) (fun _ _ _ => rfl) xs ih k
    simp only [skeleton, image, imageList_eq, reconstruct, reconstructList_eq, List.map_map, nodes,
      nodesList_eq, allMaps, allMapsList_eq, List.all_eq_false, Bool.not_eq_true]
    exact ⟨Nat.add_le_add_left hsum.1 1, fun h => Nat.add_lt_add_left (hsum.2 h) 1⟩
  | obj kvs ih =>
    by_cases hmark : unmarked kvs = false
    · have hlook : lookup kvs placeholderKey = .bool true := by simpa [unmarked] using hmark
      rw [skeleton, image, imageEntries_eq, reconstruct,
        if_pos ((lookup_skeletonEntries _ _ _ _).mpr hlook), nodes_placeholderBuffer]
      have := nodes_of_marked hmark
      exact ⟨this.le, fun _ => this⟩
    · have hlook : lookup kvs placeholderKey ≠ .bool true := by simpa [unmarked] using hmark
      have hsum := sum_le_of_pass (fun k (kv : Bytes × Value) =>
          (reconstruct bufs (skeleton k kv.2).image).nodes) (fun kv => kv.2.nodes)
        (fun kv => kv.2.slots.length) (fun kv => kv.2.allMaps unmarked = false)
        (fun k kvs => (skeletonEntries k kvs).map fun kv => (reconstruct bufs kv.2.image).nodes)
        (fun _ => rfl) (fun _ _ _ => rfl) kvs ih k
      rw [skeleton, image, imageEntries_eq, reconstruct,
        if_neg ((lookup_skeletonEntries _ _ _ _).not.mpr hlook)]
      simp only [reconstructEntries_eq, List.map_map, nodes, nodesEntries_eq, allMaps,
        allMapsEntries_eq, (Bool.not_eq_false _).mp hmark, Bool.true_and, List.all_eq_false,
        Bool.not_eq_true]
      exact ⟨Nat.add_le_add_left hsum.1 1, fun h => Nat.add_lt_add_left (hsum.2 h) 1⟩
  | _ => simp [skeleton, image, reconstruct, nodes, allMaps]

end Nodes

end Value

/-- The check of the payload sees the skeleton as it saw the value. -/
theorem validatePayload_skeleton (t : PacketType) (xs : List Value) (k : ℕ)
    (ht : t = .event ∨ t = .ack) :
    validatePayload t (skeleton k (.arr xs)).image.sorted = validatePayload t (.arr xs) := by
  cases xs with
  | nil => rcases ht with rfl | rfl <;> rfl
  | cons x xs =>
    rcases ht with rfl | rfl
    · cases x <;> simp [validatePayload, skeleton, skeletonList, image, imageList, sorted, sortedList]
    · rfl

end Gosocketio

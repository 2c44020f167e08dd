import Gosocketio.Spec.Packet

/-! Sorting the maps of a value and taking its JSON image commute with what the
packet code does to it, and leave JSON values listed in key order alone. -/

namespace Gosocketio.Value

/-- No placeholder stands below `v`. -/
def isPlaceholder : Value → Bool
  | .placeholder _ => true
  | _ => false

theorem image_of_not_placeholder (v : Value) (hv : ∀ l ∈ v.leaves, l.isPlaceholder = false) :
    v.image = v := by
  induction v with
  | placeholder n => simp [leaves, isPlaceholder] at hv
  | arr xs ih =>
    simp only [leaves, leavesList_eq, List.mem_flatMap, forall_exists_index, and_imp] at hv
    rw [image, imageList_eq, List.map_congr_left (fun x hx => ih x hx fun l hl => hv l x hx hl),
      List.map_id']
  | obj kvs ih =>
    simp only [leaves, leavesEntries_eq, List.mem_flatMap, forall_exists_index, and_imp] at hv
    have hmap : kvs.map (fun kv => (kv.1, kv.2.image)) = kvs.map fun kv => kv :=
      List.map_congr_left fun kv hkv => by rw [ih kv hkv fun l hl => hv l kv hkv hl]
    rw [image, imageEntries_eq, hmap, List.map_id']
  | _ => rfl

theorem sortEntries_of_pairwise (kvs : List (Bytes × Value))
    (h : (kvs.map Prod.fst).Pairwise (· < ·)) : sortEntries kvs = kvs := by
  apply List.Pairwise.insertionSort_eq
  rw [List.pairwise_map] at h
  exact h.imp fun hab => List.le_of_lt hab

theorem sorted_of_ascending (v : Value) (hv : v.allMaps keysAscending = true) : v.sorted = v := by
  induction v with
  | arr xs ih =>
    simp only [allMaps, allMapsList_eq, List.all_eq_true] at hv
    rw [sorted, sortedList_eq, List.map_congr_left (fun x hx => ih x hx (hv x hx)), List.map_id']
  | obj kvs ih =>
    simp only [allMaps, allMapsEntries_eq, Bool.and_eq_true, List.all_eq_true] at hv
    have hmap : kvs.map (fun kv => (kv.1, kv.2.sorted)) = kvs.map fun kv => kv :=
      List.map_congr_left fun kv hkv => by rw [ih kv hkv (hv.2 kv hkv)]
    have hkeys : (kvs.map Prod.fst).Pairwise (· < ·) := by
      have := hv.1
      simp only [keysAscending, Bool.and_eq_true, decide_eq_true_eq] at this
      exact this.1
    rw [sorted, sortedEntries_eq, hmap, List.map_id', sortEntries_of_pairwise kvs hkeys]
  | _ => rfl

theorem sortEntries_idem (kvs : List (Bytes × Value)) :
    sortEntries (sortEntries kvs) = sortEntries kvs := by
  exact (List.pairwise_insertionSort _ kvs).insertionSort_eq

theorem isPlaceholder_of_jsonLeaf (l : Value) (h : l.jsonLeaf = true) : l.isPlaceholder = false := by
  cases l <;> simp_all [jsonLeaf, isPlaceholder]

/-- JSON values are fixed by the trip through `json.Marshal`. -/
theorem image_of_isJson (v : Value) (h : v.isJson = true) : v.image = v := by
  simp only [isJson, Bool.and_eq_true, List.all_eq_true] at h
  exact image_of_not_placeholder v fun l hl => isPlaceholder_of_jsonLeaf l (h.1 l hl)

theorem sorted_of_isJson (v : Value) (h : v.isJson = true) : v.sorted = v := by
  simp only [isJson, Bool.and_eq_true] at h
  exact sorted_of_ascending v h.2

end Gosocketio.Value

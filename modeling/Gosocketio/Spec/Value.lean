import Gosocketio.Lib.Float64
import Gosocketio.Spec.Transport
import Mathlib.Data.List.Sort

/-! Payload values (`any` in `socketio/packet.go`): what `encoding/json` decodes
to, the binary leaves an emitter may add, and the placeholders that stand for
them on the wire. Values of other Go types are left out; the code passes them to
`json.Marshal` untouched and they come back as one of these. -/

namespace Gosocketio

abbrev ReaderId := ℕ

/-- A Go map has no order; `obj` lists its entries in the order in which the
next `range` over it visits them. Two values are the same Go value when they
agree after `Value.sorted`. `reader none` is a typed nil reader. -/
inductive Value where
  | null
  | bool (b : Bool)
  | number (x : Float64)
  | str (s : Bytes)
  | bytes (b : Bytes)
  | reader (r : Option ReaderId)
  | placeholder (num : ℕ)
  | arr (xs : List Value)
  | obj (kvs : List (Bytes × Value))

namespace Value

/-- Induction over the tree with one hypothesis for each element or entry. -/
@[elab_as_elim, induction_eliminator]
theorem induct {P : Value → Prop} (null : P .null) (bool : ∀ b, P (.bool b))
    (number : ∀ x, P (.number x)) (str : ∀ s, P (.str s)) (bytes : ∀ b, P (.bytes b))
    (reader : ∀ r, P (.reader r)) (placeholder : ∀ n, P (.placeholder n))
    (arr : ∀ xs, (∀ x ∈ xs, P x) → P (.arr xs))
    (obj : ∀ kvs, (∀ kv ∈ kvs, P kv.2) → P (.obj kvs)) (v : Value) : P v := by
  refine @Value.rec P (fun xs => ∀ x ∈ xs, P x) (fun kvs => ∀ kv ∈ kvs, P kv.2) (fun kv => P kv.2)
    null bool number str bytes reader placeholder arr obj ?_ ?_ ?_ ?_ ?_ v
  · simp
  · intro x xs hx hxs y hy
    rcases List.mem_cons.mp hy with rfl | hy
    · exact hx
    · exact hxs y hy
  · simp
  · intro kv kvs hkv hkvs y hy
    rcases List.mem_cons.mp hy with rfl | hy
    · exact hkv
    · exact hkvs y hy
  · intro k v hv
    exact hv

section DecidableEq

mutual
def beq : Value → Value → Bool
  | .null, .null => true
  | .bool a, .bool b => a == b
  | .number a, .number b => a == b
  | .str a, .str b => a == b
  | .bytes a, .bytes b => a == b
  | .reader a, .reader b => a == b
  | .placeholder a, .placeholder b => a == b
  | .arr xs, .arr ys => beqList xs ys
  | .obj xs, .obj ys => beqEntries xs ys
  | _, _ => false

def beqList : List Value → List Value → Bool
  | [], [] => true
  | x :: xs, y :: ys => beq x y && beqList xs ys
  | _, _ => false

def beqEntries : List (Bytes × Value) → List (Bytes × Value) → Bool
  | [], [] => true
  | (k, v) :: xs, (l, w) :: ys => k == l && beq v w && beqEntries xs ys
  | _, _ => false
end

theorem beqList_iff (xs : List Value) (ih : ∀ x ∈ xs, ∀ w, beq x w = true ↔ x = w) :
    ∀ ys, beqList xs ys = true ↔ xs = ys := by
  induction xs with
  | nil => intro ys; cases ys <;> simp [beqList]
  | cons x xs ihl =>
    intro ys
    cases ys with
    | nil => simp [beqList]
    | cons y ys =>
      simp only [beqList, Bool.and_eq_true, List.cons.injEq]
      rw [ih x (by simp), ihl (fun z hz => ih z (by simp [hz]))]

theorem beqEntries_iff (xs : List (Bytes × Value))
    (ih : ∀ kv ∈ xs, ∀ w, beq kv.2 w = true ↔ kv.2 = w) :
    ∀ ys, beqEntries xs ys = true ↔ xs = ys := by
  induction xs with
  | nil => intro ys; cases ys <;> simp [beqEntries]
  | cons x xs ihl =>
    intro ys
    obtain ⟨k, v⟩ := x
    cases ys with
    | nil => simp [beqEntries]
    | cons y ys =>
      obtain ⟨l, w⟩ := y
      simp only [beqEntries, Bool.and_eq_true, beq_iff_eq, List.cons.injEq, Prod.mk.injEq]
      rw [ih (k, v) (by simp), ihl (fun z hz => ih z (by simp [hz]))]

theorem beq_iff (v w : Value) : beq v w = true ↔ v = w := by
  induction v generalizing w with
  | arr xs ih => cases w <;> simp [beq, beqList_iff xs (fun x hx w => ih x hx w)]
  | obj kvs ih => cases w <;> simp [beq, beqEntries_iff kvs (fun kv hkv w => ih kv hkv w)]
  | _ => cases w <;> simp [beq]

instance : DecidableEq Value := fun v w => decidable_of_iff _ (beq_iff v w)

end DecidableEq

/-- The string keys of the placeholder marker, `_placeholder` and `num`. -/
def placeholderKey : Bytes := [95, 112, 108, 97, 99, 101, 104, 111, 108, 100, 101, 114]
def numKey : Bytes := [110, 117, 109]

/-- The map lookup `x[k]`; a missing key gives nil. -/
def lookup (kvs : List (Bytes × Value)) (k : Bytes) : Value :=
  ((kvs.find? fun kv => kv.1 = k).map Prod.snd).getD .null

/-- The entries of a map in ascending order of their keys, which is the order
`json.Marshal` writes them in. -/
def sortEntries (kvs : List (Bytes × Value)) : List (Bytes × Value) :=
  kvs.insertionSort fun a b => a.1 ≤ b.1

mutual
/-- The representative of a Go value whose maps are visited in key order. -/
def sorted : Value → Value
  | .arr xs => .arr (sortedList xs)
  | .obj kvs => .obj (sortEntries (sortedEntries kvs))
  | v => v

def sortedList : List Value → List Value
  | [] => []
  | v :: vs => v.sorted :: sortedList vs

def sortedEntries : List (Bytes × Value) → List (Bytes × Value)
  | [] => []
  | (k, v) :: kvs => (k, v.sorted) :: sortedEntries kvs
end

mutual
/-- What a value becomes on its way through JSON: a placeholder is written as
the object `{"_placeholder":true,"num":n}` and read back as a map. -/
def image : Value → Value
  | .placeholder n => .obj [(placeholderKey, .bool true), (numKey, .number (Float64.ofNat n))]
  | .arr xs => .arr (imageList xs)
  | .obj kvs => .obj (imageEntries kvs)
  | v => v

def imageList : List Value → List Value
  | [] => []
  | v :: vs => v.image :: imageList vs

def imageEntries : List (Bytes × Value) → List (Bytes × Value)
  | [] => []
  | (k, v) :: kvs => (k, v.image) :: imageEntries kvs
end

mutual
/-- The values below `v` that are neither arrays nor maps, in visiting order. -/
def leaves : Value → List Value
  | .arr xs => leavesList xs
  | .obj kvs => leavesEntries kvs
  | v => [v]

def leavesList : List Value → List Value
  | [] => []
  | v :: vs => v.leaves ++ leavesList vs

def leavesEntries : List (Bytes × Value) → List Value
  | [] => []
  | (_, v) :: kvs => v.leaves ++ leavesEntries kvs
end

mutual
/-- `p` holds of the entries of every map below `v`. -/
def allMaps (p : List (Bytes × Value) → Bool) : Value → Bool
  | .arr xs => allMapsList p xs
  | .obj kvs => p kvs && allMapsEntries p kvs
  | _ => true

def allMapsList (p : List (Bytes × Value) → Bool) : List Value → Bool
  | [] => true
  | v :: vs => v.allMaps p && allMapsList p vs

def allMapsEntries (p : List (Bytes × Value) → Bool) : List (Bytes × Value) → Bool
  | [] => true
  | (_, v) :: kvs => v.allMaps p && allMapsEntries p kvs
end

def isContinuation (c : UInt8) : Bool := 0x80 ≤ c && c ≤ 0xbf

/-- `utf8.Valid`: no overlong form, no surrogate, nothing above U+10FFFF. -/
def validUtf8 : Bytes → Bool
  | [] => true
  | a :: rest =>
    if a < 0x80 then validUtf8 rest
    else
      match rest with
      | [] => false
      | b :: rest =>
        if 0xc2 ≤ a && a ≤ 0xdf then isContinuation b && validUtf8 rest
        else
          match rest with
          | [] => false
          | c :: rest =>
            if 0xe0 ≤ a && a ≤ 0xef then
              isContinuation b && (a ≠ 0xe0 || 0xa0 ≤ b) && (a ≠ 0xed || b ≤ 0x9f) &&
                isContinuation c && validUtf8 rest
            else
              match rest with
              | [] => false
              | d :: rest =>
                0xf0 ≤ a && a ≤ 0xf4 && isContinuation b && (a ≠ 0xf0 || 0x90 ≤ b) &&
                  (a ≠ 0xf4 || b ≤ 0x8f) && isContinuation c && isContinuation d && validUtf8 rest

def jsonLeaf : Value → Bool
  | .null => true
  | .bool _ => true
  | .number x => x.isFinite
  | .str s => validUtf8 s
  | _ => false

def isBytes : Value → Bool
  | .bytes _ => true
  | _ => false

/-- Distinct keys in ascending order, each valid UTF-8: a map as `json.Unmarshal`
builds it, listed in key order. -/
def keysAscending (kvs : List (Bytes × Value)) : Bool :=
  decide ((kvs.map Prod.fst).Pairwise (· < ·)) && kvs.all fun kv => validUtf8 kv.1

def isJson (v : Value) : Bool := v.leaves.all jsonLeaf && v.allMaps keysAscending

/-- A JSON value that may also have `[]byte` leaves, listed in key order. -/
def isPayload (v : Value) : Bool :=
  v.leaves.all (fun l => jsonLeaf l || isBytes l) && v.allMaps keysAscending

/-! The list functions of the mutual blocks are maps and folds over the elements. -/

@[simp] theorem sortedList_eq (xs : List Value) : sortedList xs = xs.map sorted := by
  induction xs with
  | nil => rfl
  | cons x xs ih => rw [sortedList, ih, List.map_cons]

@[simp] theorem sortedEntries_eq (kvs : List (Bytes × Value)) :
    sortedEntries kvs = kvs.map fun kv => (kv.1, kv.2.sorted) := by
  induction kvs with
  | nil => rfl
  | cons kv kvs ih => rw [sortedEntries, ih, List.map_cons]

@[simp] theorem imageList_eq (xs : List Value) : imageList xs = xs.map image := by
  induction xs with
  | nil => rfl
  | cons x xs ih => rw [imageList, ih, List.map_cons]

@[simp] theorem imageEntries_eq (kvs : List (Bytes × Value)) :
    imageEntries kvs = kvs.map fun kv => (kv.1, kv.2.image) := by
  induction kvs with
  | nil => rfl
  | cons kv kvs ih => rw [imageEntries, ih, List.map_cons]

@[simp] theorem leavesList_eq (xs : List Value) : leavesList xs = xs.flatMap leaves := by
  induction xs with
  | nil => rfl
  | cons x xs ih => rw [leavesList, ih, List.flatMap_cons]

@[simp] theorem leavesEntries_eq (kvs : List (Bytes × Value)) :
    leavesEntries kvs = kvs.flatMap fun kv => kv.2.leaves := by
  induction kvs with
  | nil => rfl
  | cons kv kvs ih => rw [leavesEntries, ih, List.flatMap_cons]

@[simp] theorem allMapsList_eq (p : List (Bytes × Value) → Bool) (xs : List Value) :
    allMapsList p xs = xs.all (allMaps p) := by
  induction xs with
  | nil => rfl
  | cons x xs ih => rw [allMapsList, ih, List.all_cons]

@[simp] theorem allMapsEntries_eq (p : List (Bytes × Value) → Bool) (kvs : List (Bytes × Value)) :
    allMapsEntries p kvs = kvs.all fun kv => kv.2.allMaps p := by
  induction kvs with
  | nil => rfl
  | cons kv kvs ih => rw [allMapsEntries, ih, List.all_cons]

end Value
end Gosocketio

import Gosocketio.Spec.Transport
import Mathlib.Data.Finset.Card

/-! The in-memory adapter (`socketio/adapter.go`): the ids of a namespace and its
rooms. A Go set is a `Finset`; an iteration over one is a list of its elements in
some order. -/

namespace Gosocketio

abbrev SocketId := Bytes

/-- `memoryAdapter`. A room without members is deleted from the map. -/
structure Adapter where
  ids : Finset SocketId := ∅
  rooms : Bytes → Option (Finset SocketId) := fun _ => none

namespace Adapter

def members (a : Adapter) (room : Bytes) : Finset SocketId := (a.rooms room).getD ∅

def addToRoom (a : Adapter) (room : Bytes) (id : SocketId) : Adapter :=
  { a with rooms := Function.update a.rooms room (some (insert id (a.members room))) }

def addSocket (a : Adapter) (id : SocketId) : Adapter :=
  { a.addToRoom id id with ids := insert id a.ids }

def leave (id : SocketId) (m : Finset SocketId) : Option (Finset SocketId) :=
  if id ∈ m then (if m.erase id = ∅ then none else some (m.erase id)) else some m

def removeSocket (a : Adapter) (id : SocketId) : Adapter :=
  { ids := a.ids.erase id, rooms := fun room => (a.rooms room).bind (leave id) }

def removeFromRoom (a : Adapter) (room : Bytes) (id : SocketId) : Adapter :=
  match a.rooms room with
  | none => a
  | some m =>
    let left := if m.erase id = ∅ then none else some (m.erase id)
    { a with rooms := Function.update a.rooms room left }

/-- The set that `Broadcast` iterates over; the empty room stands for the namespace. -/
def audience (a : Adapter) (room : Bytes) : Finset SocketId :=
  if room ≠ [] then a.members room else a.ids

/-- The ids that `Broadcast` delivers to. -/
def targets (a : Adapter) (room : Bytes) (except : List SocketId) : Finset SocketId :=
  (a.audience room).filter (· ∉ except)

def removeIn (id : SocketId) (a : Adapter) (room : Bytes) : Adapter :=
  { a with rooms := Function.update a.rooms room ((a.rooms room).bind (leave id)) }

/-- `RemoveSocket` as it runs: `order` is the order in which the loop visits the rooms,
which it deletes as it goes. -/
def removeLoop (a : Adapter) (id : SocketId) (order : List Bytes) : Adapter :=
  order.foldl (removeIn id) { a with ids := a.ids.erase id }

/-- `order` is a possible order of an iteration over a set. -/
def Lists (order : List SocketId) (m : Finset SocketId) : Prop := order.Nodup ∧ order.toFinset = m

instance (order : List SocketId) (m : Finset SocketId) : Decidable (Lists order m) :=
  inferInstanceAs (Decidable (_ ∧ _))

def excepted (except : List SocketId) (id : SocketId) : Bool := except.any (· = id)

def delivered (except order : List SocketId) : List SocketId :=
  order.filter fun id => !excepted except id

def socketsCount (a : Adapter) : ℕ := a.ids.card

def Has (a : Adapter) (id : SocketId) : Prop := id ∈ a.ids ∨ ∃ room, id ∈ a.members room

variable (a : Adapter) (id x : SocketId) (room : Bytes)

@[simp] theorem ids_addSocket : (a.addSocket id).ids = insert id a.ids := rfl
@[simp] theorem ids_removeSocket : (a.removeSocket id).ids = a.ids.erase id := rfl

theorem members_addToRoom (room' : Bytes) :
    (a.addToRoom room id).members room' =
      if room' = room then insert id (a.members room) else a.members room' := by
  unfold addToRoom members
  by_cases h : room' = room
  · subst h
    simp
  · simp [h]

@[simp] theorem members_removeSocket : (a.removeSocket id).members room = (a.members room).erase id := by
  unfold removeSocket members
  simp only
  cases a.rooms room with
  | none => simp
  | some m =>
    simp only [Option.bind_some, Option.getD_some, leave]
    split_ifs with hid hempty
    · rw [hempty]
      rfl
    · rfl
    · rw [Finset.erase_eq_of_notMem hid]
      rfl

theorem members_removeFromRoom (room' : Bytes) :
    (a.removeFromRoom room id).members room' =
      if room' = room then (a.members room).erase id else a.members room' := by
  unfold removeFromRoom members
  cases hr : a.rooms room with
  | none =>
    split_ifs with h
    · rw [h, hr]
      rfl
    · rfl
  | some m =>
    by_cases h : room' = room
    · subst h
      by_cases he : m.erase id = ∅ <;> simp [he]
    · simp [h]

theorem leave_leave (m : Finset SocketId) : (leave id m).bind (leave id) = leave id m := by
  unfold leave
  split_ifs with hid hempty
  · rfl
  · simp
  · simp [hid]

theorem rooms_removeLoop (order : List Bytes) :
    (order.foldl (removeIn id) a).rooms room =
      if room ∈ order then (a.rooms room).bind (leave id) else a.rooms room := by
  induction order generalizing a with
  | nil => simp
  | cons r order ih =>
    rw [List.foldl_cons, ih]
    by_cases hr : room = r
    · subst hr
      have hidem : ((a.rooms room).bind (leave id)).bind (leave id) = (a.rooms room).bind (leave id) := by
        cases a.rooms room with
        | none => rfl
        | some m => exact leave_leave id m
      simp [removeIn, hidem]
    · simp [removeIn, hr]

theorem ids_removeIn (order : List Bytes) : (order.foldl (removeIn id) a).ids = a.ids := by
  induction order generalizing a with
  | nil => rfl
  | cons r order ih => exact ih (removeIn id a r)

theorem removeLoop_eq {order : List Bytes} (h : ∀ room, a.rooms room ≠ none → room ∈ order) :
    a.removeLoop id order = a.removeSocket id := by
  have hrooms : (a.removeLoop id order).rooms = (a.removeSocket id).rooms := by
    funext room
    rw [removeLoop, rooms_removeLoop]
    split_ifs with hmem
    · rfl
    · have hnone : a.rooms room = none := by
        by_contra hne
        exact hmem (h room hne)
      simp [removeSocket, hnone]
  calc a.removeLoop id order
      = ⟨(a.removeLoop id order).ids, (a.removeLoop id order).rooms⟩ := rfl
    _ = a.removeSocket id := by
      rw [hrooms, removeLoop, ids_removeIn]
      rfl

theorem excepted_iff (except : List SocketId) : excepted except x = true ↔ x ∈ except := by
  simp [excepted]

theorem delivered_spec (except : List SocketId) {order : List SocketId} {m : Finset SocketId} (h : Lists order m) :
    (delivered except order).Nodup ∧ ∀ x, x ∈ delivered except order ↔ x ∈ m ∧ x ∉ except := by
  refine ⟨h.1.filter _, fun x => ?_⟩
  rw [delivered, List.mem_filter, ← h.2, List.mem_toFinset, Bool.not_eq_true', ← Bool.not_eq_true,
    excepted_iff]

@[simp] theorem has_addSocket : (a.addSocket id).Has x ↔ x = id ∨ a.Has x := by
  have hmem : (∃ room, x ∈ (a.addSocket id).members room) ↔ x = id ∨ ∃ room, x ∈ a.members room := by
    change (∃ room, x ∈ (a.addToRoom id id).members room) ↔ _
    simp only [members_addToRoom]
    constructor
    · rintro ⟨r, hr⟩
      split_ifs at hr with h
      · rcases Finset.mem_insert.mp hr with hx | hx
        · exact .inl hx
        · exact .inr ⟨id, hx⟩
      · exact .inr ⟨r, hr⟩
    · rintro (rfl | ⟨r, hr⟩)
      · exact ⟨x, by simp⟩
      · refine ⟨r, ?_⟩
        split_ifs with h
        · subst h
          exact Finset.mem_insert_of_mem hr
        · exact hr
  unfold Has
  rw [hmem, ids_addSocket, Finset.mem_insert]
  tauto

@[simp] theorem has_removeSocket : (a.removeSocket id).Has x ↔ x ≠ id ∧ a.Has x := by
  simp only [Has, ids_removeSocket, members_removeSocket, Finset.mem_erase, exists_and_left]
  tauto

end Adapter
end Gosocketio

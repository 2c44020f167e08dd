import Gosocketio.Lib.Runs
import Gosocketio.Spec.Adapter
import Mathlib.Data.Set.Card

/-! The in-memory adapter refines a membership relation: a set of ids, and a set of
pairs of a room and an id. What the adapter keeps are maps of sets in which no room is
empty. -/

namespace Gosocketio

structure Membership where
  ids : Set SocketId := ∅
  rooms : Set (Bytes × SocketId) := ∅

namespace Membership

variable (M : Membership) (room : Bytes) (id : SocketId)

def addSocket : Membership := ⟨insert id M.ids, insert (id, id) M.rooms⟩

def removeSocket : Membership := ⟨M.ids \ {id}, {p | p ∈ M.rooms ∧ p.2 ≠ id}⟩

def addToRoom : Membership := { M with rooms := insert (room, id) M.rooms }

def removeFromRoom : Membership := { M with rooms := M.rooms \ {(room, id)} }

end Membership

/-- A call that changes an adapter; `order` is the order in which `RemoveSocket` goes
over the rooms. -/
inductive Operation where
  | addSocket (id : SocketId)
  | removeSocket (id : SocketId) (order : List Bytes)
  | addToRoom (room : Bytes) (id : SocketId)
  | removeFromRoom (room : Bytes) (id : SocketId)

def Membership.apply (M : Membership) : Operation → Membership
  | .addSocket id => M.addSocket id
  | .removeSocket id _ => M.removeSocket id
  | .addToRoom room id => M.addToRoom room id
  | .removeFromRoom room id => M.removeFromRoom room id

/-- What a history of calls amounts to. -/
def Membership.after (ops : List Operation) : Membership := ops.foldl Membership.apply {}

namespace Adapter

open Runs

variable {a b : Adapter} {M : Membership} {room : Bytes} {id x : SocketId}

def step (a : Adapter) : Operation → Option Adapter
  | .addSocket id => some (a.addSocket id)
  | .removeSocket id order => some (a.removeLoop id order)
  | .addToRoom room id => some (a.addToRoom room id)
  | .removeFromRoom room id => some (a.removeFromRoom room id)

/-- An iteration visits every room that is there. -/
def Visits (a : Adapter) : Operation → Prop
  | .removeSocket _ order => ∀ room, a.rooms room ≠ none → room ∈ order
  | _ => True

/-- No room is kept without members. -/
def NoEmptyRoom (a : Adapter) : Prop := ∀ room m, a.rooms room = some m → m.Nonempty

structure Represents (a : Adapter) (M : Membership) : Prop where
  ids : ∀ x, x ∈ a.ids ↔ x ∈ M.ids
  members : ∀ room x, x ∈ a.members room ↔ (room, x) ∈ M.rooms
  noEmptyRoom : a.NoEmptyRoom

theorem NoEmptyRoom.update (h : a.NoEmptyRoom) (left : Option (Finset SocketId))
    (hleft : ∀ m, left = some m → m.Nonempty) (ids : Finset SocketId) :
    NoEmptyRoom { ids, rooms := Function.update a.rooms room left } := by
  intro r m hm
  by_cases hr : r = room
  · subst hr
    exact hleft m (by simpa using hm)
  · exact h r m (by simpa [hr] using hm)

theorem Represents.addToRoom (h : a.Represents M) (room : Bytes) (id : SocketId) :
    (a.addToRoom room id).Represents (M.addToRoom room id) where
  ids := h.ids
  members r x := by
    rw [members_addToRoom]
    split_ifs with hr
    · subst hr
      simp [Membership.addToRoom, h.members]
    · simp [Membership.addToRoom, h.members, hr]
  noEmptyRoom := by
    refine h.noEmptyRoom.update _ (fun m hm => ?_) _
    rw [← Option.some.inj hm]
    exact ⟨id, Finset.mem_insert_self ..⟩

theorem Represents.addSocket (h : a.Represents M) : (a.addSocket id).Represents (M.addSocket id) where
  ids x := by
    rw [ids_addSocket, Finset.mem_insert, h.ids]
    rfl
  members := (h.addToRoom id id).members
  noEmptyRoom := (h.addToRoom id id).noEmptyRoom

theorem leave_nonempty {m m' : Finset SocketId} (hm : m.Nonempty) (h : leave id m = some m') : m'.Nonempty := by
  unfold leave at h
  split_ifs at h with hid hempty <;> rw [← Option.some.inj h]
  · exact Finset.nonempty_iff_ne_empty.mpr hempty
  · exact hm

theorem Represents.removeSocket (h : a.Represents M) : (a.removeSocket id).Represents (M.removeSocket id) where
  ids x := by
    rw [ids_removeSocket, Finset.mem_erase, h.ids, and_comm]
    rfl
  members room x := by
    rw [members_removeSocket, Finset.mem_erase, h.members, and_comm]
    rfl
  noEmptyRoom room m hm := by
    obtain ⟨m₀, hm₀, hleave⟩ := Option.bind_eq_some_iff.mp hm
    exact leave_nonempty (h.noEmptyRoom room m₀ hm₀) hleave

theorem Represents.removeFromRoom (h : a.Represents M) :
    (a.removeFromRoom room id).Represents (M.removeFromRoom room id) where
  ids x := by
    refine Iff.trans ?_ (h.ids x)
    rw [Adapter.removeFromRoom]
    split <;> rfl
  members r x := by
    rw [members_removeFromRoom]
    by_cases hr : r = room
    · subst hr
      simp [Membership.removeFromRoom, h.members, and_comm]
    · simp [Membership.removeFromRoom, h.members, hr]
  noEmptyRoom := by
    unfold Adapter.removeFromRoom
    cases hm : a.rooms room with
    | none => exact h.noEmptyRoom
    | some m =>
      refine h.noEmptyRoom.update _ (fun m' hm' => ?_) _
      split_ifs at hm' with hempty
      rw [← Option.some.inj hm']
      exact Finset.nonempty_iff_ne_empty.mpr hempty

theorem Represents.step {op : Operation} (h : a.Represents M) (hok : a.Visits op)
    (hs : a.step op = some b) : b.Represents (M.apply op) := by
  cases op with
  | addSocket id =>
    cases hs
    exact h.addSocket
  | removeSocket id order =>
    cases hs
    rw [removeLoop_eq a id hok]
    exact h.removeSocket
  | addToRoom room id =>
    cases hs
    exact h.addToRoom room id
  | removeFromRoom room id =>
    cases hs
    exact h.removeFromRoom

/-- An adapter represents the history of the calls that led to it. -/
theorem represents_of_run {ops : List Operation} (h : Run step Visits {} ops a) :
    a.Represents (Membership.after ops) := by
  induction h with
  | nil => exact ⟨fun x => by simp [Membership.after], fun room x => by simp [Membership.after, members],
      fun room m hm => by cases hm⟩
  | snoc _ hok hs ih =>
    rw [Membership.after, List.foldl_append]
    exact ih.step hok hs

/-- What the adapter shows of a history of calls: its two maps, the deliveries of a
broadcast, and the list and the number of the ids. -/
theorem adapter_refines_membership {ops : List Operation} (h : Run step Visits {} ops a) :
    (∀ x, x ∈ a.ids ↔ x ∈ (Membership.after ops).ids) ∧
    (∀ room x, x ∈ a.members room ↔ (room, x) ∈ (Membership.after ops).rooms) ∧
    (∀ room m, a.rooms room = some m → m.Nonempty) ∧
    (∀ room except order, room ≠ [] → Lists order (a.audience room) → (delivered except order).Nodup ∧
      ∀ x, x ∈ delivered except order ↔ (room, x) ∈ (Membership.after ops).rooms ∧ x ∉ except) ∧
    (∀ except order, Lists order (a.audience []) → (delivered except order).Nodup ∧
      ∀ x, x ∈ delivered except order ↔ x ∈ (Membership.after ops).ids ∧ x ∉ except) ∧
    (∀ order, Lists order a.ids → order.Nodup ∧ ∀ x, x ∈ order ↔ x ∈ (Membership.after ops).ids) ∧
    a.socketsCount = (Membership.after ops).ids.ncard := by
  have hrep := represents_of_run h
  refine ⟨hrep.ids, hrep.members, hrep.noEmptyRoom, fun room except order hroom horder => ?_,
    fun except order horder => ?_, fun order horder => ⟨horder.1, fun x => ?_⟩, ?_⟩
  · rw [audience, if_pos hroom] at horder
    obtain ⟨hnodup, hmem⟩ := delivered_spec except horder
    exact ⟨hnodup, fun x => by rw [hmem, hrep.members]⟩
  · rw [audience, if_neg (fun hne => hne rfl)] at horder
    obtain ⟨hnodup, hmem⟩ := delivered_spec except horder
    exact ⟨hnodup, fun x => by rw [hmem, hrep.ids]⟩
  · rw [← hrep.ids, ← horder.2, List.mem_toFinset]
  · have hids : (Membership.after ops).ids = ↑a.ids := Set.ext fun x => (hrep.ids x).symm
    rw [hids, Set.ncard_coe_finset]
    rfl

section NonVacuity

/-- Socket `[2]` is in the room named after `[1]`, and both are gone from it in the end. -/
def shared : List Operation :=
  [.addSocket [1], .addSocket [2], .addToRoom [1] [2], .removeSocket [2] [[1], [2]],
    .removeFromRoom [1] [1]]

def sharedRooms : Adapter := ((({} : Adapter).addSocket [1]).addSocket [2]).addToRoom [1] [2]

theorem sharedRooms_visits : sharedRooms.Visits (.removeSocket [2] [[1], [2]]) := by
  intro room hroom
  by_contra hmem
  rw [List.mem_cons, List.mem_singleton, not_or] at hmem
  simp [sharedRooms, addSocket, addToRoom, hmem.1, hmem.2] at hroom

theorem shared_run : Run step Visits {} shared
    ((sharedRooms.removeLoop [2] [[1], [2]]).removeFromRoom [1] [1]) := by
  refine .cons trivial rfl (.cons trivial rfl (.cons trivial rfl (.cons ?_ rfl (.cons trivial rfl .nil))))
  exact sharedRooms_visits

theorem adapter_refines_membership_shared :
    ((sharedRooms.removeLoop [2] [[1], [2]]).removeFromRoom [1] [1]).socketsCount =
      (Membership.after shared).ids.ncard :=
  (adapter_refines_membership shared_run).2.2.2.2.2.2

end NonVacuity

end Adapter

end Gosocketio

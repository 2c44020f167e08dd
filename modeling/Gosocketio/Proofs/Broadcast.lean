import Gosocketio.Proofs.Sections
import Gosocketio.Sanity.Binary

/-! Broadcasts of arguments with readers. Every target's `Emit` reads the readers
anew, so the first target gets their contents and the others get nothing. -/

namespace Gosocketio

open Value

section Slots

theorem slots_sorted_perm (v : Value) : v.sorted.slots.Perm v.slots := by
  induction v with
  | arr xs ih =>
    rw [sorted, sortedList_eq, slots_arr, slots_arr, List.flatMap_map]
    exact List.Perm.flatMap_left _ ih
  | obj kvs ih =>
    rw [sorted, sortedEntries_eq, slots_obj, slots_obj]
    refine ((sortEntries_perm _).flatMap_right _).trans ?_
    rw [List.flatMap_map]
    exact List.Perm.flatMap_left _ ih
  | _ => exact List.Perm.refl _

theorem slots_perm_of_sorted {v w : Value} (h : v.sorted = w.sorted) : v.slots.Perm w.slots :=
  (slots_sorted_perm v).symm.trans (h ▸ slots_sorted_perm w)

/-- What a binary leaf holds while the readers are as given. -/
def contentIn (readers : Readers) : Value → Bytes
  | .bytes b => b
  | .reader (some i) => (readers i).content
  | _ => []

def readerOf : Value → Option ReaderId
  | .reader r => r
  | _ => none

theorem content_readLeaf (readers : Readers) (l : Value) (i : ReaderId) :
    ((readLeaf readers l).2 i).content = if readerOf l = some i then [] else (readers i).content := by
  cases l with
  | reader r =>
    cases r with
    | none => rfl
    | some j =>
      by_cases hij : j = i
      · subst hij
        simp [readLeaf, readerOf]
      · simp [readLeaf, readerOf, hij, Ne.symm hij]
  | _ => rfl

/-- What is needed of the readers so that reading `ls` gives the contents they had
as `readers₀`: they still hold them, and none that holds something is read twice. -/
def Intact (readers₀ readers : Readers) (ls : List Value) : Prop :=
  ∀ i ∈ ls.filterMap readerOf, (readers i).content = (readers₀ i).content ∧
    ((readers₀ i).content ≠ [] → (ls.filterMap readerOf).count i ≤ 1)

theorem Intact.perm {readers₀ readers : Readers} {ls ms : List Value} (hp : ls.Perm ms)
    (h : Intact readers₀ readers ls) : Intact readers₀ readers ms := by
  intro i hi
  have hids := hp.filterMap readerOf
  rw [← hids.count_eq]
  exact h i (hids.mem_iff.mpr hi)

variable (readers₀ : Readers)

theorem intact_cons {readers : Readers} {i : ReaderId} {ls : List Value} :
    Intact readers₀ readers (.reader (some i) :: ls) ↔ (readers i).content = (readers₀ i).content ∧
        Intact readers₀ (readLeaf readers (.reader (some i))).2 ls := by
  have hids : (Value.reader (some i) :: ls).filterMap readerOf = i :: ls.filterMap readerOf := rfl
  have hother (j : ReaderId) (hj : j ≠ i) :
      ((readLeaf readers (.reader (some i))).2 j).content = (readers j).content := by
    rw [content_readLeaf]
    exact if_neg fun h => hj (Option.some.inj h).symm
  have hself : ((readLeaf readers (.reader (some i))).2 i).content = [] := by
    rw [content_readLeaf]
    exact if_pos rfl
  unfold Intact
  rw [hids]
  constructor
  · intro h
    refine ⟨(h i (by simp)).1, fun j hj => ?_⟩
    have hj' := h j (by simp [hj])
    by_cases hji : j = i
    · subst hji
      have hempty : (readers₀ j).content = [] := by
        by_contra hne
        have hcount := hj'.2 hne
        rw [List.count_cons_self] at hcount
        have := List.count_pos_iff.mpr hj
        omega
      exact ⟨by rw [hself, hempty], fun hne => absurd hempty hne⟩
    · rw [hother j hji]
      rw [List.count_cons_of_ne (Ne.symm hji)] at hj'
      exact hj'
  · rintro ⟨hi, h⟩ j hj
    by_cases hji : j = i
    · subst hji
      refine ⟨hi, fun hne => ?_⟩
      have hnot : j ∉ ls.filterMap readerOf := by
        intro hmem
        have := (h j hmem).1
        rw [hself] at this
        exact hne this.symm
      rw [List.count_cons_self, List.count_eq_zero_of_not_mem hnot]
    · have hj' := h j (by simpa [hji] using hj)
      rw [hother j hji] at hj'
      rw [List.count_cons_of_ne (Ne.symm hji)]
      exact hj'

theorem readLeaves_eq_iff (ls : List Value) (readers : Readers) :
    (readLeaves ls readers).1 = ls.map (contentIn readers₀) ↔ Intact readers₀ readers ls := by
  induction ls generalizing readers with
  | nil => simp [readLeaves, Intact]
  | cons l ls ih =>
    simp only [readLeaves, List.map_cons, List.cons.injEq, ih]
    cases l with
    | reader r =>
      cases r with
      | none => exact and_iff_right rfl
      | some i => exact (intact_cons readers₀).symm
    | _ => exact and_iff_right rfl

theorem readLeaves_short (ls : List Value) (readers : Readers)
    (h : ∀ i, (readers i).content = (readers₀ i).content ∨ (readers i).content = []) :
    List.Forall₂ (fun b l => b = contentIn readers₀ l ∨ b = []) (readLeaves ls readers).1 ls := by
  induction ls generalizing readers with
  | nil => exact .nil
  | cons l ls ih =>
    have hrest (i : ReaderId) : ((readLeaf readers l).2 i).content = (readers₀ i).content ∨
        ((readLeaf readers l).2 i).content = [] := by
      rw [content_readLeaf]
      split_ifs
      · exact .inr rfl
      · exact h i
    refine .cons ?_ (ih _ hrest)
    cases l with
    | reader r =>
      cases r with
      | none => exact .inl rfl
      | some i => exact h i
    | _ => exact .inl rfl

/-- Buffers that are as long in all as the contents are the contents. -/
theorem eq_of_total {bs : List Bytes} {ls : List Value}
    (h : List.Forall₂ (fun b l => b = contentIn readers₀ l ∨ b = []) bs ls)
    (htotal : (bs.map List.length).sum = (ls.map fun l => (contentIn readers₀ l).length).sum) :
    bs = ls.map (contentIn readers₀) := by
  have hle {bs : List Bytes} {ls : List Value}
      (h : List.Forall₂ (fun b l => b = contentIn readers₀ l ∨ b = []) bs ls) :
      (bs.map List.length).sum ≤ (ls.map fun l => (contentIn readers₀ l).length).sum := by
    induction h with
    | nil => exact le_rfl
    | cons hb _ ih =>
      simp only [List.map_cons, List.sum_cons]
      rcases hb with rfl | rfl
      · omega
      · simp only [List.length_nil]
        omega
  induction h with
  | nil => rfl
  | @cons b l bs ls hb hbs ih =>
    simp only [List.map_cons, List.sum_cons] at htotal ⊢
    have := hle hbs
    rcases hb with rfl | rfl
    · rw [ih (by omega)]
    · have hempty : (contentIn readers₀ l).length = 0 := by
        simp only [List.length_nil] at htotal
        omega
      rw [List.length_eq_zero_iff.mp hempty, ih (by simp only [List.length_nil] at htotal; omega)]

theorem content_readLeaves (ls : List Value) (readers : Readers) (i : ReaderId) :
    ((readLeaves ls readers).2 i).content =
      if i ∈ ls.filterMap readerOf then [] else (readers i).content := by
  induction ls generalizing readers with
  | nil => rfl
  | cons l ls ih =>
    simp only [readLeaves]
    rw [ih, content_readLeaf, List.filterMap_cons]
    cases readerOf l with
    | none => rfl
    | some j =>
      by_cases hij : j = i
      · subst hij
        simp
      · simp [hij, Ne.symm hij]

end Slots

namespace Server

section Snapshot

variable (readers : Readers)

theorem snapshotList_eq (xs : List Value) :
    snapshotList readers xs = xs.map (snapshot readers) := by
  induction xs with
  | nil => rfl
  | cons x xs ih => rw [snapshotList, ih, List.map_cons]

theorem snapshotEntries_eq (kvs : List (Bytes × Value)) :
    snapshotEntries readers kvs = kvs.map fun kv => (kv.1, snapshot readers kv.2) := by
  induction kvs with
  | nil => rfl
  | cons kv kvs ih => rw [snapshotEntries, ih, List.map_cons]

theorem slots_snapshot (v : Value) :
    (snapshot readers v).slots = v.slots.map fun l => .bytes (contentIn readers l) := by
  induction v with
  | reader r => cases r <;> rfl
  | arr xs ih =>
    rw [snapshot, snapshotList_eq, slots_arr, slots_arr, List.flatMap_map, List.map_flatMap]
    exact List.flatMap_congr ih
  | obj kvs ih =>
    rw [snapshot, snapshotEntries_eq, slots_obj, slots_obj, List.flatMap_map, List.map_flatMap]
    exact List.flatMap_congr ih
  | _ => rfl

theorem skeletonList_snapshot (xs : List Value)
    (ih : ∀ x ∈ xs, ∀ k, skeleton k (snapshot readers x) = skeleton k x) (k : ℕ) :
    skeletonList k (xs.map (snapshot readers)) = skeletonList k xs := by
  induction xs generalizing k with
  | nil => rfl
  | cons x xs ihl =>
    rw [List.map_cons, skeletonList, skeletonList, ih x (by simp), slots_snapshot,
      List.length_map, ihl fun y hy => ih y (by simp [hy])]

theorem skeleton_snapshot (v : Value) (k : ℕ) : skeleton k (snapshot readers v) = skeleton k v := by
  induction v generalizing k with
  | reader r => cases r <;> rfl
  | arr xs ih => rw [snapshot, snapshotList_eq, skeleton, skeleton, skeletonList_snapshot readers xs ih]
  | obj kvs ih =>
    have hlist := skeletonList_snapshot readers (kvs.map Prod.snd) (List.forall_mem_map.mpr ih) k
    rw [List.map_map] at hlist
    rw [snapshot, snapshotEntries_eq, skeleton, skeleton, skeletonEntries_eq, skeletonEntries_eq,
      List.map_map, List.map_map, ← hlist]
    rfl
  | _ => rfl

theorem snapshot_sorted (v : Value) : snapshot readers v.sorted = (snapshot readers v).sorted := by
  induction v with
  | reader r => cases r <;> rfl
  | arr xs ih =>
    simp only [sorted, sortedList_eq, snapshot, snapshotList_eq, List.map_map]
    exact congrArg _ (List.map_congr_left ih)
  | obj kvs ih =>
    simp only [sorted, sortedEntries_eq, snapshot, snapshotEntries_eq]
    rw [← sortEntries_map, List.map_map, List.map_map]
    exact congrArg _ (congrArg _ (List.map_congr_left fun kv hkv => by simp [ih kv hkv]))
  | _ => rfl

end Snapshot

section Wire

variable (J : Json)

/-- The messages of a packet whose binary leaves were read as `bufs`. -/
def wire (pkt : Packet) (bufs : List Bytes) : List InPacket :=
  if pkt.data.slots = [] then [⟨encode J pkt, false⟩]
  else ⟨encode J ⟨plainToBinary pkt.type, pkt.nsp, pkt.id, skeleton 0 pkt.data, bufs.length⟩, false⟩ ::
    bufs.map (⟨·, true⟩)

theorem sendPacket_wire (pkt : Packet) (readers : Readers) (hnull : pkt.data ≠ .null)
    (hr : Reliable readers) :
    Gosocketio.sendPacket J pkt readers =
      (wire J pkt (readLeaves pkt.data.slots readers).1, (readLeaves pkt.data.slots readers).2) := by
  unfold Gosocketio.sendPacket wire
  by_cases hs : pkt.data.slots = []
  · rw [if_neg fun h => (hasBinary_iff _).mp h.2 hs, if_pos hs, hs]
    rfl
  · have hdec := deconstruct_eq pkt.data { readers } hr
    simp only [deconstructed, List.length_nil, List.nil_append] at hdec
    rw [if_pos ⟨hnull, (hasBinary_iff _).mpr hs⟩, hdec, if_neg hs]

def binaryTotal (messages : List InPacket) : ℕ :=
  ((messages.filter InPacket.binary).map fun m => m.data.length).sum

theorem binaryTotal_wire (pkt : Packet) (bufs : List Bytes) (h : bufs.length = pkt.data.slots.length) :
    binaryTotal (wire J pkt bufs) = (bufs.map List.length).sum := by
  unfold wire binaryTotal
  split_ifs with hs
  · rw [hs, List.length_nil, List.length_eq_zero_iff] at h
    rw [h]
    rfl
  · have hfilter : (bufs.map fun b => (⟨b, true⟩ : InPacket)).filter InPacket.binary =
        bufs.map fun b => ⟨b, true⟩ :=
      List.filter_eq_self.mpr fun m hm => by obtain ⟨b, -, rfl⟩ := List.mem_map.mp hm; rfl
    rw [List.filter_cons_of_neg (by simp), hfilter, List.map_map]
    rfl

end Wire

section Payload

variable (J : Json) {readers₀ readers : Readers} (name event : Bytes) {args args' : List Value}

theorem slots_eventPacket (args : List Value) :
    (eventPacket name event args).data.slots = (Value.arr args).slots := by
  rfl

theorem emit_wire (args : List Value) (hr : Reliable readers) :
    Gosocketio.sendPacket J (eventPacket name event args) readers =
      (wire J (eventPacket name event args) (readLeaves (Value.arr args).slots readers).1,
        (readLeaves (Value.arr args).slots readers).2) := by
  rw [sendPacket_wire J _ _ (by simp [eventPacket]) hr, slots_eventPacket]

/-- Emitting the contents of the readers as `[]byte` values sends the messages that
emitting the readers sends when each of them gives its contents. -/
theorem wire_snapshot (args : List Value) (bufs : List Bytes) :
    wire J (eventPacket name event (snapshotList readers args)) bufs =
      wire J (eventPacket name event args) bufs := by
  have hdata : (eventPacket name event (snapshotList readers args)).data =
      snapshot readers (eventPacket name event args).data := rfl
  have hslots : (eventPacket name event (snapshotList readers args)).data.slots = [] ↔
      (eventPacket name event args).data.slots = [] := by
    rw [hdata, slots_snapshot, List.map_eq_nil_iff]
  unfold wire
  by_cases hs : (eventPacket name event args).data.slots = []
  · have hsame := skeleton_of_slots_nil _ 0 (hslots.mpr hs)
    rw [hdata, skeleton_snapshot, skeleton_of_slots_nil _ 0 hs, ← hdata] at hsame
    have hpkt : eventPacket name event (snapshotList readers args) = eventPacket name event args := by
      simp only [eventPacket, Packet.mk.injEq, true_and, and_true] at hsame ⊢
      exact hsame.symm
    rw [hpkt]
  · rw [if_neg (hslots.not.mpr hs), if_neg hs, hdata, skeleton_snapshot]
    rfl

/-- A target gets the payload of the initial contents exactly if the readers are
intact when it is served. -/
theorem samePayload_iff (h₀ : Reliable readers₀) (hr : Reliable readers)
    (hshort : ∀ i, (readers i).content = (readers₀ i).content ∨ (readers i).content = [])
    (hargs : (Value.arr args').sorted = (Value.arr args).sorted) :
    SamePayload J readers₀ name event args
        (Gosocketio.sendPacket J (eventPacket name event args') readers).1 ↔
      Intact readers₀ readers (Value.arr args').slots := by
  rw [← readLeaves_eq_iff, emit_wire J name event args' hr]
  have hlen (as : List Value) (r : Readers) : (readLeaves (Value.arr as).slots r).1.length =
      (eventPacket name event as).data.slots.length := by
    rw [length_readLeaves, slots_eventPacket]
  constructor
  · rintro ⟨ws, hsorted, hmsgs⟩
    -- the listing of the maps does not change the number of bytes sent
    have hperm : (Value.arr ws).slots.Perm
        ((Value.arr args').slots.map fun l => .bytes (contentIn readers₀ l)) := by
      rw [← slots_snapshot]
      apply slots_perm_of_sorted
      rw [hsorted, ← snapshot_sorted, ← snapshot_sorted, hargs]
    have hbytes : ∀ l ∈ (Value.arr ws).slots, l.isBytes = true := by
      intro l hl
      obtain ⟨x, -, rfl⟩ := List.mem_map.mp (hperm.mem_iff.mp hl)
      rfl
    apply eq_of_total readers₀ (readLeaves_short readers₀ _ _ hshort)
    have htotal := congrArg binaryTotal hmsgs
    rw [emit_wire J name event ws h₀, binaryTotal_wire J _ _ (hlen _ _),
      binaryTotal_wire J _ _ (hlen _ _), readLeaves_bytes _ hbytes, List.map_map,
      (hperm.map _).sum_eq, List.map_map] at htotal
    exact htotal
  · intro hread
    refine ⟨snapshotList readers₀ args', ?_, ?_⟩
    · change (snapshot readers₀ (.arr args')).sorted = _
      rw [← snapshot_sorted, ← snapshot_sorted, hargs]
    · have hslots : (Value.arr (snapshotList readers₀ args')).slots =
          (Value.arr args').slots.map fun l => .bytes (contentIn readers₀ l) :=
        slots_snapshot readers₀ (.arr args')
      have hbytes : ∀ l ∈ (Value.arr (snapshotList readers₀ args')).slots, l.isBytes = true := by
        intro l hl
        rw [hslots] at hl
        obtain ⟨x, -, rfl⟩ := List.mem_map.mp hl
        rfl
      rw [emit_wire J name event _ h₀, wire_snapshot, readLeaves_bytes _ hbytes, hslots, hread,
        List.map_map]
      rfl

end Payload

section Targets

variable (J : Json) (name event : Bytes)

variable {S : Server} {id : SocketId} (args : List Value)

theorem deliver_of_not_live (h : S.Live name id = false) :
    S.deliver J name event id args = (S, []) := by
  unfold Live at h
  unfold deliver emit
  cases hn : S.nsps name with
  | none => rfl
  | some n =>
    cases hs : S.heap id with
    | none => simp
    | some s => simp_all

theorem deliver_of_live (hc : Consistent S name) (h : S.Live name id = true) :
    ∃ s, S.heap id = some s ∧ S.deliver J name event id args =
      (S.sendPacket J s.ec (eventPacket name event args),
        (Gosocketio.sendPacket J (eventPacket name event args) S.readers).1) := by
  simp only [Live, Bool.and_eq_true, Option.any_eq_true, decide_eq_true_eq] at h
  obtain ⟨⟨n, hn, hmem⟩, s, hs, hconn⟩ := h
  obtain ⟨c, ho⟩ := hc id (by simpa [sockets, hn] using hmem)
  have hnsp : s.nsp = name := by
    simp only [origin, hs, Option.map_some, Option.some.injEq, Prod.mk.injEq] at ho
    exact ho.2
  refine ⟨s, hs, ?_⟩
  simp [deliver, hn, hmem, emit, hs, hconn, hnsp]

theorem readers_sendPacket (c : ConnId) (hr : Reliable S.readers) :
    (S.sendPacket J c (eventPacket name event args)).readers =
      (readLeaves (Value.arr args).slots S.readers).2 := by
  simp only [Server.sendPacket, emit_wire J name event args hr]

/-- What every live target of a broadcast gets. -/
def AllSame (readers₀ : Readers) (args : List Value) (S : Server)
    (targets : List (SocketId × List Value)) : Prop :=
  ∀ m ∈ (S.broadcast J name event targets).2, S.Live name m.1 = true →
    SamePayload J readers₀ name event args m.2

variable {name} (readers₀ : Readers) (as : List Value) (targets : List (SocketId × List Value))

theorem allSame_cons_of_not_live (h : S.Live name id = false) :
    AllSame J name event readers₀ args S ((id, as) :: targets) ↔
      AllSame J name event readers₀ args S targets := by
  unfold AllSame
  rw [broadcast, deliver_of_not_live J name event as h]
  simp [h]

theorem allSame_cons_of_live (hc : Consistent S name) (h : S.Live name id = true) :
    ∃ c, AllSame J name event readers₀ args S ((id, as) :: targets) ↔
      SamePayload J readers₀ name event args
        (Gosocketio.sendPacket J (eventPacket name event as) S.readers).1 ∧
      AllSame J name event readers₀ args (S.sendPacket J c (eventPacket name event as)) targets := by
  obtain ⟨s, -, hd⟩ := deliver_of_live J name event as hc h
  refine ⟨s.ec, ?_⟩
  unfold AllSame
  rw [broadcast, hd]
  simp only [List.mem_cons, forall_eq_or_imp, h, forall_const]
  rfl

def Drained (readers : Readers) (args : List Value) : Prop :=
  ∀ i ∈ (Value.arr args).slots.filterMap readerOf, (readers i).content = []

/-- A state in the middle of a broadcast: every reader holds what it held at the
start, or nothing. -/
structure Ready (readers₀ : Readers) (name : Bytes) (S : Server) : Prop where
  initial : Reliable readers₀
  reliable : Reliable S.readers
  consistent : Consistent S name
  short : ∀ i, (S.readers i).content = (readers₀ i).content ∨ (S.readers i).content = []

variable {readers₀ as targets args}

theorem Ready.send (h : Ready readers₀ name S) (c : ConnId) (as : List Value) :
    Ready readers₀ name (S.sendPacket J c (eventPacket name event as)) := by
  have hreaders := readers_sendPacket J name event as c h.reliable
  refine ⟨h.initial, ?_, h.consistent, fun i => ?_⟩
  · rw [hreaders]
    exact reliable_readLeaves h.reliable _
  · rw [hreaders, content_readLeaves]
    split_ifs
    · exact .inr rfl
    · exact h.short i

theorem drained_send (hr : Reliable S.readers) (c : ConnId)
    (hargs : (Value.arr as).sorted = (Value.arr args).sorted) :
    Drained (S.sendPacket J c (eventPacket name event as)).readers args := by
  intro i hi
  rw [readers_sendPacket J name event as c hr, content_readLeaves,
    if_pos (((slots_perm_of_sorted hargs).filterMap _).mem_iff.mpr hi)]

/-- Drained readers are intact if there was nothing in them to begin with. -/
theorem intact_iff_drained (h : Drained S.readers args)
    (hargs : (Value.arr as).sorted = (Value.arr args).sorted) :
    Intact readers₀ S.readers (Value.arr as).slots ↔ Drained readers₀ args := by
  have hperm := slots_perm_of_sorted hargs
  constructor
  · intro hintact i hi
    rw [← (hintact.perm hperm i hi).1]
    exact h i hi
  · intro h₀
    apply Intact.perm hperm.symm
    intro i hi
    exact ⟨(h i hi).trans (h₀ i hi).symm, fun hne => absurd (h₀ i hi) hne⟩

/-- Once the readers are drained, live targets are served right only if there was
nothing in them. -/
theorem allSame_of_drained (h : Ready readers₀ name S) (hdrained : Drained S.readers args)
    (hargs : ∀ t ∈ targets, (Value.arr t.2).sorted = (Value.arr args).sorted) :
    AllSame J name event readers₀ args S targets ↔
      Drained readers₀ args ∨ ∀ t ∈ targets, S.Live name t.1 = false := by
  induction targets generalizing S with
  | nil => simp [AllSame, broadcast]
  | cons t targets ih =>
    obtain ⟨id, as⟩ := t
    have has := hargs (id, as) (by simp)
    have hrest : ∀ t ∈ targets, (Value.arr t.2).sorted = (Value.arr args).sorted :=
      fun t ht => hargs t (by simp [ht])
    cases hlive : S.Live name id with
    | false =>
      rw [allSame_cons_of_not_live J event args readers₀ as targets hlive, ih h hdrained hrest]
      simp [hlive]
    | true =>
      obtain ⟨c, hcons⟩ := allSame_cons_of_live J event args readers₀ as targets h.consistent hlive
      rw [hcons, samePayload_iff J name event h.initial h.reliable h.short has,
        intact_iff_drained hdrained has,
        ih (h.send J event c as) (drained_send J event h.reliable c has) hrest]
      simp only [List.forall_mem_cons, hlive, Bool.true_eq_false, false_and, or_false]
      exact ⟨And.left, fun hd => ⟨hd, .inl hd⟩⟩

/-- No reader that holds something occurs twice in the arguments. -/
def ReadOnce (readers : Readers) (args : List Value) : Prop :=
  ∀ i, (readers i).content ≠ [] → ((Value.arr args).slots.filterMap readerOf).count i ≤ 1

theorem intact_iff_readOnce (hargs : (Value.arr as).sorted = (Value.arr args).sorted) :
    Intact S.readers S.readers (Value.arr as).slots ↔ ReadOnce S.readers args := by
  have hperm := slots_perm_of_sorted hargs
  constructor
  · intro hintact i hne
    by_cases hi : i ∈ (Value.arr args).slots.filterMap readerOf
    · exact (hintact.perm hperm i hi).2 hne
    · rw [List.count_eq_zero_of_not_mem hi]
      exact Nat.zero_le 1
  · intro honce
    apply Intact.perm hperm.symm
    exact fun i _ => ⟨rfl, honce i⟩

theorem allSame_iff (h : Ready S.readers name S)
    (hargs : ∀ t ∈ targets, (Value.arr t.2).sorted = (Value.arr args).sorted) :
    AllSame J name event S.readers args S targets ↔
      Drained S.readers args ∨ (targets.countP fun t => S.Live name t.1) = 0 ∨
        ((targets.countP fun t => S.Live name t.1) ≤ 1 ∧ ReadOnce S.readers args) := by
  induction targets with
  | nil => simp [AllSame, broadcast]
  | cons t targets ih =>
    obtain ⟨id, as⟩ := t
    have has := hargs (id, as) (by simp)
    have hrest : ∀ t ∈ targets, (Value.arr t.2).sorted = (Value.arr args).sorted :=
      fun t ht => hargs t (by simp [ht])
    cases hlive : S.Live name id with
    | false =>
      rw [allSame_cons_of_not_live J event args S.readers as targets hlive, ih hrest,
        List.countP_cons_of_neg (by simp [hlive])]
    | true =>
      obtain ⟨c, hcons⟩ := allSame_cons_of_live J event args S.readers as targets h.consistent hlive
      have hzero : (targets.countP fun t => S.Live name t.1) = 0 ↔
          ∀ t ∈ targets, S.Live name t.1 = false := by
        simp [List.countP_eq_zero]
      have honce : Drained S.readers args → ReadOnce S.readers args := by
        intro hd i hne
        rw [List.count_eq_zero_of_not_mem fun hi => hne (hd i hi)]
        exact Nat.zero_le 1
      rw [hcons, samePayload_iff J name event h.initial h.reliable h.short has,
        intact_iff_readOnce has,
        allSame_of_drained J event (h.send J event c as) (drained_send J event h.reliable c has) hrest,
        List.countP_cons_of_pos (by simp [hlive]), Nat.add_le_add_iff_right (n := 1), Nat.le_zero, hzero]
      constructor
      · rintro ⟨ho, hd | hz⟩
        · exact .inl hd
        · exact .inr (.inr ⟨hz, ho⟩)
      · rintro (hd | hz | ⟨hz, ho⟩)
        · exact ⟨honce hd, .inl hd⟩
        · cases hz
        · exact ⟨ho, .inr hz⟩

theorem readersOf_eq (v : Value) : readersOf v = v.slots.filterMap readerOf := by
  unfold readersOf slots
  rw [List.filterMap_filter]
  congr 1
  funext l
  cases l <;> rfl

end Targets

def liveTargets (S : Server) (name room : Bytes) (except : List SocketId) : Finset SocketId :=
  ((S.adapter name).targets room except).filter fun id => S.Live name id = true

theorem card_liveTargets {S : Server} {name room : Bytes} {except : List SocketId}
    {targets : List (SocketId × List Value)} (hnodup : (targets.map Prod.fst).Nodup)
    (htargets : (targets.map Prod.fst).toFinset = (S.adapter name).targets room except) :
    (S.liveTargets name room except).card = targets.countP fun t => S.Live name t.1 := by
  rw [liveTargets, ← htargets, ← List.toFinset_filter, List.toFinset_card_of_nodup (hnodup.filter _),
    ← List.countP_eq_length_filter, List.countP_map]
  simp [Function.comp_def]

/-- Every live target of a broadcast gets the packet and the buffers that emitting
the contents of the readers gives, exactly if the readers are empty, or there is
no such target, or there is one and no reader with something in it occurs twice. -/
theorem broadcast_exact (J : Json) {S : Server} {name : Bytes} (event room : Bytes)
    (except : List SocketId) {args : List Value} (targets : List (SocketId × List Value))
    (hreaders : Reliable S.readers) (hcons : Consistent S name)
    (hnodup : (targets.map Prod.fst).Nodup)
    (htargets : (targets.map Prod.fst).toFinset = (S.adapter name).targets room except)
    (hargs : ∀ t ∈ targets, (Value.arr t.2).sorted = (Value.arr args).sorted) :
    (∀ m ∈ (S.broadcast J name event targets).2, S.Live name m.1 = true →
        SamePayload J S.readers name event args m.2) ↔
      (∀ i ∈ readersOf (.arr args), (S.readers i).content = []) ∨
      (S.liveTargets name room except).card = 0 ∨
      ((S.liveTargets name room except).card ≤ 1 ∧
        ∀ i, (S.readers i).content ≠ [] → (readersOf (.arr args)).count i ≤ 1) := by
  rw [card_liveTargets hnodup htargets, readersOf_eq]
  exact allSame_iff J event ⟨hreaders, hreaders, hcons, fun _ => .inl rfl⟩ hargs

section Reach

variable {S : Server} {J : Json}

theorem Reachable.consistent (h : Reachable J S) (name : Bytes) : Consistent S name := by
  obtain ⟨S₀, ls, hnsps, -, hrun⟩ := h.interleaved
  exact hrun.invariant (∀ n, Consistent · n) (consistent_of_empty hnsps)
    (fun _ _ _ h hok hs => Option.some.inj hs ▸ consistent_run h hok) name

end Reach

section NonVacuity

open NonVacuity

/-- The first `k` of these calls: the application makes a reader that holds one
byte, and two connections enter the default namespace. -/
def arrivals (k : ℕ) : List Call :=
  [.reader 0 { content := [7] }, .data 0 connectText [1], .data 1 connectText [2]].take k

def arrived (k : ℕ) : Server := (arrivals k).foldl (fun S l => (S.call textJson l).getD S) lobby

theorem lobby_sockets (name : Bytes) (ns : Namespace) (h : lobby.nsps name = some ns) :
    ns.sockets = ∅ := by
  unfold lobby at h
  simp only at h
  split_ifs at h
  rw [← Option.some.inj h]

theorem reliable_of_update {readers : Readers}
    (h : readers = Function.update lobby.readers 0 { content := [7] }) : Reliable readers := by
  intro i
  rw [h]
  by_cases hi : i = 0
  · subst hi
    rfl
  · rw [Function.update_of_ne hi]
    rfl

theorem arrived_two_reachable : Reachable textJson (arrived 2) :=
  ⟨lobby, arrivals 2, lobby_sockets, fun _ => rfl,
    .cons trivial rfl (.cons (by decide +kernel) rfl .nil)⟩

theorem arrived_three_reachable : Reachable textJson (arrived 3) :=
  ⟨lobby, arrivals 3, lobby_sockets, fun _ => rfl,
    .cons trivial rfl (.cons (by decide +kernel) rfl (.cons (by decide +kernel) rfl .nil))⟩

/-- The reader is emitted to the one socket there is. -/
theorem broadcast_exact_one_target :
    SamePayload textJson (arrived 2).readers defaultNamespace [104, 105] [.reader (some 0)]
      ((arrived 2).deliver textJson defaultNamespace [104, 105] [1] [.reader (some 0)]).2 :=
  (broadcast_exact textJson [104, 105] [] [] [([1], [.reader (some 0)])]
    (reliable_of_update rfl) (arrived_two_reachable.consistent _) (by decide +kernel)
    (by decide +kernel) (by simp)).mpr
    (.inr (.inr ⟨by decide +kernel, fun i _ => List.count_le_length⟩))
    ([1], _) (List.mem_singleton_self _) (by decide +kernel)

/-- The reader is emitted to two sockets: the second gets an empty buffer. -/
theorem broadcast_drained : ¬ ∀ (J : Json) (S : Server) (name event room : Bytes)
    (except : List SocketId) (args : List Value) (targets : List (SocketId × List Value)),
    J.Lawful → Reachable J S → Reliable S.readers → (targets.map Prod.fst).Nodup →
    (targets.map Prod.fst).toFinset = (S.adapter name).targets room except →
    (∀ t ∈ targets, (Value.arr t.2).sorted = (Value.arr args).sorted) →
    ∀ m ∈ (S.broadcast J name event targets).2, S.Live name m.1 = true →
      SamePayload J S.readers name event args m.2 := by
  intro h
  have hreaders : Reliable (arrived 3).readers := reliable_of_update rfl
  have hsame := h textJson (arrived 3) defaultNamespace [104, 105] [] [] [.reader (some 0)]
    [([1], [.reader (some 0)]), ([2], [.reader (some 0)])] textJson_lawful arrived_three_reachable
    hreaders (by decide +kernel) (by decide +kernel) (by simp)
  have hready : Ready (arrived 3).readers defaultNamespace (arrived 3) :=
    ⟨hreaders, hreaders, arrived_three_reachable.consistent _, fun _ => .inl rfl⟩
  rcases (allSame_iff textJson [104, 105] hready (by simp)).mp hsame with hd | hz | ⟨hone, -⟩
  · exact absurd (hd 0 (by decide +kernel)) (by decide +kernel)
  · exact absurd hz (by decide +kernel)
  · exact absurd hone (by decide +kernel)

end NonVacuity

end Server

end Gosocketio

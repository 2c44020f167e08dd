import Gosocketio.Lib.Pool
import Gosocketio.Proofs.Sending

/-! Binary framing under concurrency. What a receiver makes of a connection is
read off its state once all messages on the way are handled, so handling a
message changes nothing. A run that keeps headers with attachments apart rebuilds
every packet; in any other run a header is overwritten and its packet is lost. -/

namespace Gosocketio.Framing

open Runs Value

variable {J : Json} {s s' : Link} {a : Act}

theorem step_cases (h : s.step J a = some s') :
    (∃ i p todo, a = .call i ∧ s.senders[i]? = some ⟨p :: todo, none⟩ ∧
      s' = { s with senders := s.senders.set i ⟨todo, inHand p (sendPacket J p noReaders).1⟩ }) ∨
    (∃ i todo p m rest, a = .send i ∧ s.senders[i]? = some ⟨todo, some (p, m :: rest)⟩ ∧
      s' = { s with senders := s.senders.set i ⟨todo, inHand p rest⟩, fifo := s.fifo ++ [m] }) ∨
    (∃ m fifo, a = .recv ∧ s.fifo = m :: fifo ∧
      s' = { s with fifo, receiver := s.receiver.receive J m }) := by
  cases a with
  | call i =>
    simp only [Link.step] at h
    split at h
    · rename_i p todo hi
      exact .inl ⟨i, p, todo, rfl, hi, (Option.some.inj h).symm⟩
    · cases h
  | send i =>
    simp only [Link.step] at h
    split at h
    · rename_i todo p m rest hi
      exact .inr (.inl ⟨i, todo, p, m, rest, rfl, hi, (Option.some.inj h).symm⟩)
    · cases h
  | recv =>
    simp only [Link.step] at h
    split at h
    · rename_i m fifo hf
      exact .inr (.inr ⟨m, fifo, rfl, hf, (Option.some.inj h).symm⟩)
    · cases h

def drained (J : Json) (s : Link) : Receiver := s.fifo.foldl (Receiver.receive J) s.receiver

theorem drained_send (senders : List Sender) (m : InPacket) :
    drained J { s with senders, fifo := s.fifo ++ [m] } = (drained J s).receive J m := by
  simp [drained, List.foldl_append]

theorem drained_recv {m : InPacket} {fifo : List InPacket} (h : s.fifo = m :: fifo) :
    drained J { s with fifo, receiver := s.receiver.receive J m } = drained J s := by
  rw [drained, drained, h, List.foldl_cons]

section Senders

/-- The goroutine's packets satisfy `P`, and the packet in hand is either not
begun or has only attachments left to send. -/
structure SenderOk (J : Json) (P : Packet → Prop) (sd : Sender) : Prop where
  todo : ∀ p ∈ sd.todo, P p
  current : ∀ p ms, sd.current = some (p, ms) → P p ∧
    (ms = ⟨encode J (headerOf p), false⟩ :: attachments p ∨
      ∃ sent rest, rest ≠ [] ∧ p.data.buffers = sent ++ rest ∧ ms = rest.map frame)

variable {P : Packet → Prop} (hP : ∀ p, P p → p.Sendable) (hW : J.WritesImage)

theorem SenderOk.imp {Q : Packet → Prop} {sd : Sender} (h : SenderOk J P sd)
    (himp : ∀ p, P p → Q p) : SenderOk J Q sd :=
  ⟨fun p hp => himp p (h.todo p hp), fun p ms hc => (h.current p ms hc).imp (himp p) id⟩

theorem inHand_attachments {p q : Packet} {ms : List InPacket} (rest : List Bytes)
    (h : inHand p (rest.map frame) = some (q, ms)) : q = p ∧ rest ≠ [] ∧ ms = rest.map frame := by
  rw [inHand] at h
  split_ifs at h with hnil
  simp only [Option.some.injEq, Prod.mk.injEq] at h
  exact ⟨h.1.symm, fun hr => hnil (by rw [hr]; rfl), h.2.symm⟩

include hP hW in
theorem senderOk_step (h : s.step J a = some s') (hs : ∀ sd ∈ s.senders, SenderOk J P sd) :
    ∀ sd ∈ s'.senders, SenderOk J P sd := by
  obtain ⟨i, p, todo, -, hi, rfl⟩ | ⟨i, todo, p, m, rest, -, hi, rfl⟩ | ⟨m, fifo, -, -, rfl⟩ :=
    step_cases h
  · have hsd := hs _ (List.mem_of_getElem? hi)
    refine Pool.forall_set hs ⟨fun q hq => hsd.todo q (by simp [hq]), ?_⟩
    intro q ms hq
    have hp := hsd.todo p (by simp)
    rw [sendPacket_messages (hP p hp).framable hW, inHand, if_neg (by simp)] at hq
    simp only [Option.some.injEq, Prod.mk.injEq] at hq
    obtain ⟨rfl, rfl⟩ := hq
    exact ⟨hp, .inl rfl⟩
  · have hsd := hs _ (List.mem_of_getElem? hi)
    refine Pool.forall_set hs ⟨hsd.todo, ?_⟩
    intro q ms hq
    obtain ⟨hp, hms | ⟨sent, left, -, hb, hms⟩⟩ := hsd.current p _ rfl
    · obtain ⟨-, rfl⟩ := List.cons.inj hms
      obtain ⟨rfl, hne, rfl⟩ := inHand_attachments _ hq
      exact ⟨hp, .inr ⟨[], _, hne, rfl, rfl⟩⟩
    · obtain _ | ⟨b, left⟩ := left
      · cases hms
      · obtain ⟨-, rfl⟩ := List.cons.inj hms
        obtain ⟨rfl, hne, rfl⟩ := inHand_attachments _ hq
        exact ⟨hp, .inr ⟨sent ++ [b], left, hne, by simp [hb], rfl⟩⟩
  · exact hs

theorem senderOk_init {progs : List (List Packet)} (h : ∀ p ∈ progs.flatten, P p) :
    ∀ sd ∈ (Link.init progs).senders, SenderOk J P sd := by
  intro sd hsd
  obtain ⟨ps, hps, rfl⟩ := List.mem_map.mp hsd
  exact ⟨fun p hp => h p (List.mem_flatten.mpr ⟨ps, hps, hp⟩), nofun⟩

end Senders

section Owner

/-- The reconstructor is empty and no goroutine is midway, or one goroutine is,
and the reconstructor holds its header and the buffers it has sent. -/
inductive Owner (senders : List Sender) : Option Reconstructor → Prop
  | free (hall : ∀ sd ∈ senders, sd.midway = false) : Owner senders none
  | held {i : ℕ} {todo : List Packet} {p : Packet} {sent rest : List Bytes}
      (hi : senders[i]? = some ⟨todo, some (p, rest.map frame)⟩) (hne : rest ≠ [])
      (hb : p.data.buffers = sent ++ rest)
      (hothers : ∀ j sd, j ≠ i → senders[j]? = some sd → sd.midway = false) :
      Owner senders (some { pkt := headerOf p, bufs := sent })

theorem midway_frames (todo : List Packet) (p : Packet) {rest : List Bytes} (h : rest ≠ []) :
    Sender.midway ⟨todo, some (p, rest.map frame)⟩ = true := by
  cases rest with
  | nil => exact absurd rfl h
  | cons b rest => rfl

variable {senders : List Sender} {recon : Option Reconstructor} {i : ℕ} {sd sd' : Sender}

theorem Owner.set (h : Owner senders recon) (hi : senders[i]? = some sd) (hsd : sd.midway = false)
    (hsd' : sd'.midway = false) : Owner (senders.set i sd') recon := by
  cases h with
  | free hall => exact .free (Pool.forall_set hall hsd')
  | @held k todo p sent rest hk hne hb hothers =>
    have hki : i ≠ k := by
      rintro rfl
      rw [hi, Option.some.injEq] at hk
      rw [hk, midway_frames todo p hne] at hsd
      cases hsd
    have hk' : (senders.set i sd')[k]? = some ⟨todo, some (p, rest.map frame)⟩ := by
      rw [List.getElem?_set_ne hki]
      exact hk
    apply Owner.held hk' hne hb
    intro j x hj hx
    by_cases hij : i = j
    · subst hij
      rw [List.getElem?_set_self (List.getElem?_eq_some_iff.mp hi).1, Option.some.injEq] at hx
      rw [← hx]
      exact hsd'
    · rw [List.getElem?_set_ne hij] at hx
      exact hothers j x hj hx

theorem Owner.take (h : ∀ x ∈ senders, x.midway = false) (hi : senders[i]? = some sd)
    (todo : List Packet) (p : Packet) (hp : p.data.buffers ≠ []) :
    Owner (senders.set i ⟨todo, some (p, p.data.buffers.map frame)⟩)
      (some { pkt := headerOf p }) := by
  apply Owner.held (List.getElem?_set_self (List.getElem?_eq_some_iff.mp hi).1) hp rfl
  intro j x hj hx
  rw [List.getElem?_set_ne (Ne.symm hj)] at hx
  exact h x (List.mem_of_getElem? hx)

/-- The goroutine that is midway is the one the reconstructor waits for. -/
theorem Owner.of_midway (h : Owner senders recon) (hi : senders[i]? = some sd)
    (hsd : sd.midway = true) :
    ∃ todo p sent rest, sd = ⟨todo, some (p, rest.map frame)⟩ ∧ rest ≠ [] ∧
      p.data.buffers = sent ++ rest ∧ recon = some { pkt := headerOf p, bufs := sent } ∧
      ∀ j x, j ≠ i → senders[j]? = some x → x.midway = false := by
  cases h with
  | free hall =>
    have := hall sd (List.mem_of_getElem? hi)
    rw [hsd] at this
    cases this
  | @held k todo p sent rest hk hne hb hothers =>
    have hik : i = k := by
      by_contra hik
      have := hothers i sd hik hi
      rw [hsd] at this
      cases this
    subst hik
    rw [hi, Option.some.injEq] at hk
    exact ⟨todo, p, sent, rest, hk, hne, hb, rfl, hothers⟩

theorem Owner.release (hothers : ∀ j x, j ≠ i → senders[j]? = some x → x.midway = false)
    (hsd' : sd'.midway = false) : Owner (senders.set i sd') none := by
  apply Owner.free
  intro x hx
  obtain ⟨j, hj⟩ := List.mem_iff_getElem?.mp hx
  by_cases hij : i = j
  · subst hij
    rw [List.getElem?_set, if_pos rfl] at hj
    split_ifs at hj
    rw [← Option.some.inj hj]
    exact hsd'
  · rw [List.getElem?_set_ne hij] at hj
    exact hothers j x (Ne.symm hij) hj

end Owner

section Clean

/-- The packets of a goroutine that are not completely sent. -/
def Sender.unfinished (sd : Sender) : List Packet := (sd.current.map Prod.fst).toList ++ sd.todo

/-- What the packets that are not completely sent will be rebuilt as. -/
def outstanding (senders : List Sender) : Multiset Packet :=
  (senders.map fun sd => (↑(sd.unfinished.map rebuilt) : Multiset Packet)).sum

/-- Sendable, and accepted by the receiver's parser. -/
def Good (p : Packet) : Prop := p.Sendable ∧ p.valid = true

/-- The invariant of the runs that keep headers with attachments apart. -/
structure Inv (J : Json) (all : List Packet) (s : Link) : Prop where
  senders : ∀ sd ∈ s.senders, SenderOk J Good sd
  owner : Owner s.senders (drained J s).recon
  account : (↑(drained J s).processed : Multiset Packet) + outstanding s.senders =
    ↑(all.map rebuilt)

variable {i : ℕ} {sd : Sender} {senders : List Sender}

theorem outstanding_set (hi : senders[i]? = some sd) (sd' : Sender) (x : Multiset Packet)
    (h : (↑(sd.unfinished.map rebuilt) : Multiset Packet) = x + ↑(sd'.unfinished.map rebuilt)) :
    x + outstanding (senders.set i sd') = outstanding senders := by
  have hsum := Pool.sum_map_set (u := sd')
    (fun sd => (↑(sd.unfinished.map rebuilt) : Multiset Packet)) hi
  rw [h] at hsum
  apply add_right_cancel (b := (↑(sd'.unfinished.map rebuilt) : Multiset Packet))
  rw [outstanding, outstanding, ← hsum]
  abel

variable {all : List Packet} (hJ : J.Lawful) (hW : J.WritesImage)

include hW in
theorem inv_call {p : Packet} {todo : List Packet} (hinv : Inv J all s)
    (hi : s.senders[i]? = some ⟨p :: todo, none⟩) :
    Owner (s.senders.set i ⟨todo, inHand p (sendPacket J p noReaders).1⟩) (drained J s).recon ∧
      outstanding (s.senders.set i ⟨todo, inHand p (sendPacket J p noReaders).1⟩) =
        outstanding s.senders := by
  have hp := (hinv.senders _ (List.mem_of_getElem? hi)).todo p (by simp)
  rw [sendPacket_messages hp.1.framable hW]
  refine ⟨hinv.owner.set hi rfl rfl, ?_⟩
  have hsame := outstanding_set hi
    ⟨todo, inHand p (⟨encode J (headerOf p), false⟩ :: attachments p)⟩ 0 (by rw [zero_add]; rfl)
  rwa [zero_add] at hsame

include hJ in
/-- A text message goes out: the packet is complete, or its header takes the
reconstructor, which is free if the run keeps headers apart. -/
theorem inv_header {p : Packet} {todo : List Packet} (hinv : Inv J all s)
    (hi : s.senders[i]? =
      some ⟨todo, some (p, ⟨encode J (headerOf p), false⟩ :: attachments p)⟩)
    (hok : s.Exclusive (.send i)) (hp : Good p) :
    Owner (s.senders.set i ⟨todo, inHand p (attachments p)⟩)
        ((drained J s).receive J ⟨encode J (headerOf p), false⟩).recon ∧
      (↑((drained J s).receive J ⟨encode J (headerOf p), false⟩).processed : Multiset Packet) +
          outstanding (s.senders.set i ⟨todo, inHand p (attachments p)⟩) =
        ↑(drained J s).processed + outstanding s.senders := by
  by_cases hs : p.data.slots = []
  · have hatt : attachments p = [] := by rw [attachments, buffers, hs]; rfl
    rw [receive_plain hp.1.framable _ hJ hp.2 hs, hatt]
    refine ⟨hinv.owner.set hi rfl rfl, ?_⟩
    rw [← outstanding_set hi ⟨todo, none⟩ {rebuilt p} rfl, ← add_assoc, ← Multiset.coe_singleton,
      Multiset.coe_add]
    rfl
  · have hbufs : p.data.buffers ≠ [] := by
      intro h
      exact hs (List.map_eq_nil_iff.mp h)
    have hopen : (s.senders[i]?.any Sender.opens) = true := by
      rw [hi, attachments]
      obtain ⟨b, bs, hb⟩ := List.exists_cons_of_ne_nil hbufs
      rw [hb]
      rfl
    have hcur : inHand p (attachments p) = some (p, p.data.buffers.map frame) := by
      rw [inHand, if_neg (by simpa [attachments] using hbufs)]
      rfl
    rw [receive_header hp.1.framable _ hJ hp.2 hs, hcur]
    refine ⟨Owner.take (hok hopen) hi todo p hbufs, ?_⟩
    have hsame := outstanding_set hi ⟨todo, some (p, p.data.buffers.map frame)⟩ 0
      (by rw [zero_add]; rfl)
    rw [zero_add] at hsame
    rw [hsame]

theorem inv_attachment {p : Packet} {todo : List Packet} {b : Bytes} {rest : List Bytes}
    (hinv : Inv J all s) (hi : s.senders[i]? = some ⟨todo, some (p, frame b :: rest.map frame)⟩)
    (hp : Good p) :
    Owner (s.senders.set i ⟨todo, inHand p (rest.map frame)⟩)
        ((drained J s).receive J (frame b)).recon ∧
      (↑((drained J s).receive J (frame b)).processed : Multiset Packet) +
          outstanding (s.senders.set i ⟨todo, inHand p (rest.map frame)⟩) =
        ↑(drained J s).processed + outstanding s.senders := by
  obtain ⟨todo', p', sent, left, heq, -, hb, hrec, hothers⟩ := hinv.owner.of_midway hi rfl
  have hinj : Function.Injective frame := fun x y h => congrArg InPacket.data h
  simp only [Sender.mk.injEq, Option.some.injEq, Prod.mk.injEq, ← List.map_cons] at heq
  obtain ⟨-, rfl, heq⟩ := heq
  obtain rfl := List.map_injective_iff.mpr hinj heq
  cases rest with
  | nil =>
    rw [receive_last hp.1.framable _ hb hrec rfl]
    refine ⟨Owner.release hothers rfl, ?_⟩
    rw [← outstanding_set hi ⟨todo, none⟩ {rebuilt p} rfl, ← add_assoc, ← Multiset.coe_singleton,
      Multiset.coe_add]
    rfl
  | cons c rest =>
    rw [receive_buffer _ hb hrec (by simp)]
    have hsame := outstanding_set hi ⟨todo, some (p, (c :: rest).map frame)⟩ 0
      (by rw [zero_add]; rfl)
    rw [zero_add] at hsame
    refine ⟨?_, congrArg _ hsame⟩
    apply Owner.held (List.getElem?_set_self (List.getElem?_eq_some_iff.mp hi).1) (by simp)
    · rw [hb]
      simp
    · intro j x hj hx
      rw [List.getElem?_set_ne (Ne.symm hj)] at hx
      exact hothers j x hj hx

include hJ hW in
theorem inv_step (hinv : Inv J all s) (hok : s.Exclusive a) (h : s.step J a = some s') :
    Inv J all s' := by
  have hsenders := senderOk_step (fun _ hp => hp.1) hW h hinv.senders
  obtain ⟨i, p, todo, rfl, hi, rfl⟩ | ⟨i, todo, p, m, rest, rfl, hi, rfl⟩ | ⟨m, fifo, rfl, hf, rfl⟩ :=
    step_cases h
  · obtain ⟨howner, hout⟩ := inv_call hW hinv hi
    exact ⟨hsenders, howner, by rw [← hinv.account]; exact congrArg _ hout⟩
  · obtain ⟨hp, hms | ⟨sent, left, -, hb, hms⟩⟩ :=
      (hinv.senders _ (List.mem_of_getElem? hi)).current p _ rfl
    · obtain ⟨rfl, rfl⟩ := List.cons.inj hms
      obtain ⟨howner, hacc⟩ := inv_header hJ hinv hi hok hp
      rw [← drained_send (s := s) (s.senders.set i ⟨todo, inHand p (attachments p)⟩)] at howner hacc
      exact ⟨hsenders, howner, hacc.trans hinv.account⟩
    · obtain _ | ⟨b, left⟩ := left
      · cases hms
      · obtain ⟨rfl, rfl⟩ := List.cons.inj hms
        obtain ⟨howner, hacc⟩ := inv_attachment hinv hi hp
        rw [← drained_send (s := s) (s.senders.set i ⟨todo, inHand p (left.map frame)⟩)]
          at howner hacc
        exact ⟨hsenders, howner, hacc.trans hinv.account⟩
  · have hd := drained_recv (J := J) hf
    exact ⟨hsenders, by rw [hd]; exact hinv.owner, by rw [hd]; exact hinv.account⟩

theorem outstanding_init (progs : List (List Packet)) :
    outstanding (Link.init progs).senders = ↑(progs.flatten.map rebuilt) := by
  induction progs with
  | nil => rfl
  | cons ps progs ih =>
    simp only [outstanding, Link.init, List.map_cons, List.sum_cons, List.flatten_cons,
      List.map_append, ← Multiset.coe_add] at ih ⊢
    rw [ih]
    rfl

theorem inv_init {progs : List (List Packet)} (h : ∀ p ∈ progs.flatten, Good p) :
    Inv J progs.flatten (Link.init progs) := by
  refine ⟨senderOk_init h, Owner.free ?_, ?_⟩
  · intro sd hsd
    obtain ⟨ps, -, rfl⟩ := List.mem_map.mp hsd
    rfl
  · rw [outstanding_init]
    exact zero_add _

theorem outstanding_done (h : s.Done) : outstanding s.senders = 0 := by
  apply List.sum_eq_zero
  intro x hx
  obtain ⟨sd, hsd, rfl⟩ := List.mem_map.mp hx
  rw [Sender.unfinished, (h.2 sd hsd).1, (h.2 sd hsd).2]
  rfl

theorem drained_done (h : s.Done) : drained J s = s.receiver := by
  rw [drained, h.1, List.foldl_nil]

/-- A run that keeps headers apart rebuilds every packet once. -/
theorem Inv.processed (hinv : Inv J all s) (h : s.Done) :
    s.receiver.processed.Perm (all.map rebuilt) := by
  have := hinv.account
  rw [outstanding_done h, add_zero, drained_done h] at this
  exact Multiset.coe_eq_coe.mp this

end Clean

section Lost

/-- What the receiver has delivered or may still deliver. -/
def Receiver.weight (r : Receiver) : ℕ := r.processed.length + if r.recon.isSome then 1 else 0

/-- The acceptable packets of a goroutine whose text message is not sent yet. -/
def Sender.unsent (sd : Sender) : ℕ :=
  sd.todo.countP Packet.valid +
    match sd.current with
    | some (p, m :: _) => if !m.binary && p.valid then 1 else 0
    | _ => 0

/-- The packets that can still be delivered. -/
def hope (J : Json) (s : Link) : ℕ := (drained J s).weight + (s.senders.map Sender.unsent).sum

variable (r : Receiver)

theorem weight_frame (b : Bytes) : (r.receive J (frame b)).weight ≤ r.weight := by
  obtain ⟨recon, processed⟩ := r
  cases recon with
  | none => simp [frame, Receiver.receive, Receiver.weight, handleIn, feedBinary]
  | some rec =>
    simp only [frame, Receiver.receive, Receiver.weight, handleIn, if_true, feedBinary]
    split_ifs <;> simp_all

theorem unsent_inHand (todo : List Packet) (p : Packet) (rest : List Bytes) :
    Sender.unsent ⟨todo, inHand p (rest.map frame)⟩ = todo.countP Packet.valid := by
  cases rest <;> rfl

variable {p : Packet} (hJ : J.Lawful) (hp : p.Sendable)

section Header

include hJ hp

theorem weight_header : (r.receive J ⟨encode J (headerOf p), false⟩).weight ≤
    r.weight + if p.valid then 1 else 0 := by
  cases hv : p.valid with
  | false => rw [receive_refused hp.framable r hJ hv]; simp
  | true =>
    by_cases hs : p.data.slots = []
    · rw [receive_plain hp.framable r hJ hv hs]
      simp only [Receiver.weight, List.length_append, List.length_singleton, if_true]
      omega
    · rw [receive_header hp.framable r hJ hv hs]
      simp [Receiver.weight]

theorem weight_overwrite (hv : p.valid = true) (hs : p.data.slots ≠ []) (hr : r.recon.isSome = true) :
    (r.receive J ⟨encode J (headerOf p), false⟩).weight = r.weight := by
  rw [receive_header hp.framable r hJ hv hs]
  simp [Receiver.weight, hr]

end Header

variable {i : ℕ} {todo : List Packet} {rest : List Bytes}

theorem hope_header (hi : s.senders[i]? =
      some ⟨todo, some (p, ⟨encode J (headerOf p), false⟩ :: attachments p)⟩) :
    hope J { s with senders := s.senders.set i ⟨todo, inHand p (attachments p)⟩,
                    fifo := s.fifo ++ [⟨encode J (headerOf p), false⟩] } +
        (drained J s).weight + (if p.valid then 1 else 0) =
      hope J s + ((drained J s).receive J ⟨encode J (headerOf p), false⟩).weight := by
  have hsum := Pool.sum_map_set (u := ⟨todo, inHand p (attachments p)⟩) Sender.unsent hi
  have hafter : Sender.unsent ⟨todo, inHand p (attachments p)⟩ = todo.countP Packet.valid :=
    unsent_inHand todo p p.data.buffers
  have hbefore : Sender.unsent ⟨todo, some (p, ⟨encode J (headerOf p), false⟩ :: attachments p)⟩ =
      todo.countP Packet.valid + if p.valid then 1 else 0 := by
    simp [Sender.unsent]
  simp only [hope, drained_send]
  omega

theorem hope_attachment {b : Bytes}
    (hi : s.senders[i]? = some ⟨todo, some (p, frame b :: rest.map frame)⟩) :
    hope J { s with senders := s.senders.set i ⟨todo, inHand p (rest.map frame)⟩,
                    fifo := s.fifo ++ [frame b] } ≤ hope J s := by
  have hsum := Pool.sum_map_set (u := ⟨todo, inHand p (rest.map frame)⟩) Sender.unsent hi
  have hbefore : Sender.unsent ⟨todo, some (p, frame b :: rest.map frame)⟩ =
      todo.countP Packet.valid := rfl
  have hweight := weight_frame (J := J) (drained J s) b
  rw [unsent_inHand, hbefore] at hsum
  simp only [hope, drained_send]
  omega

theorem hope_call (hW : J.WritesImage) (hp : p.Sendable)
    (hi : s.senders[i]? = some ⟨p :: todo, none⟩) :
    hope J { s with senders := s.senders.set i ⟨todo, inHand p (sendPacket J p noReaders).1⟩ } =
      hope J s := by
  rw [sendPacket_messages hp.framable hW]
  have hsum := Pool.sum_map_set
    (u := ⟨todo, inHand p (⟨encode J (headerOf p), false⟩ :: attachments p)⟩) Sender.unsent hi
  have hafter : Sender.unsent ⟨todo, inHand p (⟨encode J (headerOf p), false⟩ :: attachments p)⟩ =
      todo.countP Packet.valid + if p.valid then 1 else 0 := by
    simp [Sender.unsent, inHand]
  have hbefore : Sender.unsent ⟨p :: todo, none⟩ =
      todo.countP Packet.valid + if p.valid then 1 else 0 := by
    simp [Sender.unsent, List.countP_cons]
  rw [hafter, hbefore] at hsum
  unfold hope
  exact congrArg _ (Nat.add_right_cancel hsum)

include hJ in
theorem hope_step (hW : J.WritesImage) (hs : ∀ sd ∈ s.senders, SenderOk J Packet.Sendable sd)
    (h : s.step J a = some s') : hope J s' ≤ hope J s := by
  obtain ⟨i, p, todo, rfl, hi, rfl⟩ | ⟨i, todo, p, m, rest, rfl, hi, rfl⟩ | ⟨m, fifo, rfl, hf, rfl⟩ :=
    step_cases h
  · exact (hope_call hW ((hs _ (List.mem_of_getElem? hi)).todo p (by simp)) hi).le
  · obtain ⟨hp, hms | ⟨sent, left, -, hb, hms⟩⟩ := (hs _ (List.mem_of_getElem? hi)).current p _ rfl
    · obtain ⟨rfl, rfl⟩ := List.cons.inj hms
      have := hope_header hi
      have := weight_header (drained J s) hJ hp
      omega
    · obtain _ | ⟨b, left⟩ := left
      · cases hms
      · obtain ⟨rfl, rfl⟩ := List.cons.inj hms
        exact hope_attachment hi
  · rw [hope, drained_recv hf]
    exact le_rfl

include hJ in
/-- A header that goes out while another goroutine is midway costs a packet. -/
theorem hope_break {all : List Packet} (hinv : Inv J all s) (hok : ¬ s.Exclusive a)
    (h : s.step J a = some s') : hope J s' < hope J s := by
  obtain ⟨i, p, todo, rfl, hi, rfl⟩ | ⟨i, todo, p, m, rest, rfl, hi, rfl⟩ | ⟨m, fifo, rfl, hf, rfl⟩ :=
    step_cases h
  · exact absurd trivial hok
  · simp only [Link.Exclusive, Classical.not_imp, not_forall, Bool.not_eq_false] at hok
    obtain ⟨hopen, sd, hsd, hmid⟩ := hok
    obtain ⟨k, hk⟩ := List.mem_iff_getElem?.mp hsd
    obtain ⟨_, _, _, _, -, -, -, hrec, -⟩ := hinv.owner.of_midway hk hmid
    rw [hi] at hopen
    obtain ⟨hp, hms | ⟨sent, left, -, hb, hms⟩⟩ :=
      (hinv.senders _ (List.mem_of_getElem? hi)).current p _ rfl
    · obtain ⟨rfl, rfl⟩ := List.cons.inj hms
      have hs : p.data.slots ≠ [] := by
        intro hs
        rw [attachments, buffers, hs] at hopen
        cases hopen
      have hhope := hope_header hi
      rw [weight_overwrite _ hJ hp.1 hp.2 hs (by rw [hrec]; rfl), hp.2] at hhope
      simp only [if_true] at hhope
      omega
    · -- an attachment opens nothing
      obtain _ | ⟨b, _ | ⟨c, left⟩⟩ := left
      · cases hms
      · obtain ⟨rfl, rfl⟩ := List.cons.inj hms
        cases hopen
      · obtain ⟨rfl, rfl⟩ := List.cons.inj hms
        cases hopen
  · exact absurd trivial hok

theorem hope_init (progs : List (List Packet)) :
    hope J (Link.init progs) = progs.flatten.countP Packet.valid := by
  have hsum : ((Link.init progs).senders.map Sender.unsent).sum =
      progs.flatten.countP Packet.valid := by
    rw [List.countP_flatten, Link.init, List.map_map]
    rfl
  rw [hope, hsum]
  exact zero_add _

theorem processed_le_hope (h : s.Done) : s.receiver.processed.length ≤ hope J s := by
  rw [hope, drained_done h, Receiver.weight]
  omega

end Lost

section Exact

variable {progs : List (List Packet)} {ls : List Act} (hJ : J.Lawful) (hW : J.WritesImage)

include hJ hW

theorem processed_of_exclusive (hgood : ∀ p ∈ progs.flatten, Good p)
    (hrun : Run (Link.step J) Link.Exclusive (Link.init progs) ls s) (hdone : s.Done) :
    s.receiver.processed.Perm (progs.flatten.map rebuilt) :=
  (hrun.invariant (Inv J progs.flatten) (inv_init hgood)
    fun _ _ _ hinv hok h => inv_step hJ hW hinv hok h).processed hdone

theorem hope_le (hsend : ∀ p ∈ progs.flatten, p.Sendable)
    (hrun : Run (Link.step J) always (Link.init progs) ls s) :
    hope J s ≤ progs.flatten.countP Packet.valid := by
  have hinv := hrun.invariant
    (fun s => (∀ sd ∈ s.senders, SenderOk J Packet.Sendable sd) ∧
      hope J s ≤ progs.flatten.countP Packet.valid)
    ⟨senderOk_init hsend, (hope_init progs).le⟩
    fun _ _ _ hs _ h => ⟨senderOk_step (fun _ h => h) hW h hs.1, (hope_step hJ hW hs.1 h).trans hs.2⟩
  exact hinv.2

/-- A run that ends with as many packets as were sent keeps headers apart. -/
theorem exclusive_of_hope (hgood : ∀ p ∈ progs.flatten, Good p)
    (hrun : Run (Link.step J) always (Link.init progs) ls s)
    (hhope : progs.flatten.length ≤ hope J s) :
    Run (Link.step J) Link.Exclusive (Link.init progs) ls s := by
  refine (hrun.clean_or
    (fun s => Inv J progs.flatten s ∧ hope J s ≤ progs.flatten.length)
    (fun s => (∀ sd ∈ s.senders, SenderOk J Packet.Sendable sd) ∧ hope J s < progs.flatten.length)
    ⟨inv_init hgood, (hope_init progs).le.trans List.countP_le_length⟩ ?_ ?_ ?_).resolve_right
    fun h => absurd h.2 (not_lt.mpr hhope)
  · intro t l t' hinv hok h
    have hle := hope_step hJ hW (fun sd hsd => (hinv.1.senders sd hsd).imp fun _ hp => hp.1) h
    exact ⟨inv_step hJ hW hinv.1 hok h, hle.trans hinv.2⟩
  · intro t l t' hinv hok h
    have hsenders : ∀ sd ∈ t.senders, SenderOk J Packet.Sendable sd :=
      fun sd hsd => (hinv.1.senders sd hsd).imp fun _ hp => hp.1
    exact ⟨senderOk_step (fun _ hp => hp) hW h hsenders,
      (hope_break hJ hinv.1 hok h).trans_le hinv.2⟩
  · intro t l t' hinv h
    exact ⟨senderOk_step (fun _ hp => hp) hW h hinv.1, (hope_step hJ hW hinv.1 h).trans_lt hinv.2⟩

omit hJ hW in
/-- Packets that come out as they went in could all be rebuilt: a map taken for a
placeholder makes the payload smaller. -/
theorem rebuildable_of_perm {all : List Packet} (hsend : ∀ p ∈ all, p.Sendable)
    (h : ((all.map rebuilt).map Packet.message).Perm (all.map Packet.message)) :
    ∀ p ∈ all, Rebuildable p := by
  by_contra hbad
  push Not at hbad
  have hsum := (h.map fun m => m.2.2.2.nodes).sum_eq
  rw [List.map_map, List.map_map, List.map_map] at hsum
  apply hsum.not_lt
  apply List.sum_lt_sum
  · intro p hp
    exact rebuilt_nodes (hsend p hp).framable
  · obtain ⟨p, hp, hbad⟩ := hbad
    exact ⟨p, hp, rebuilt_nodes_lt (hsend p hp).framable hbad⟩

/-- Framing is atomic exactly in the runs that keep headers with attachments
apart, for packets the receiver accepts and can rebuild. -/
theorem framing_exact (hsend : ∀ p ∈ progs.flatten, p.Sendable)
    (hrun : Run (Link.step J) always (Link.init progs) ls s) (hdone : s.Done) :
    (s.receiver.processed.map Packet.message).Perm (progs.flatten.map Packet.message) ↔
      Run (Link.step J) Link.Exclusive (Link.init progs) ls s ∧
        ∀ p ∈ progs.flatten, p.valid = true ∧ Rebuildable p := by
  constructor
  · intro hperm
    have hlen := hperm.length_eq
    rw [List.length_map, List.length_map] at hlen
    have hhope : progs.flatten.length ≤ hope J s := hlen ▸ processed_le_hope hdone
    have hvalid : ∀ p ∈ progs.flatten, p.valid = true :=
      List.countP_eq_length.mp
        (le_antisymm List.countP_le_length (hhope.trans (hope_le hJ hW hsend hrun)))
    have hgood : ∀ p ∈ progs.flatten, Good p := fun p hp => ⟨hsend p hp, hvalid p hp⟩
    have hex := exclusive_of_hope hJ hW hgood hrun hhope
    have hproc := processed_of_exclusive hJ hW hgood hex hdone
    have hbuild := rebuildable_of_perm hsend ((hproc.map _).symm.trans hperm)
    exact ⟨hex, fun p hp => ⟨hvalid p hp, hbuild p hp⟩⟩
  · rintro ⟨hex, hall⟩
    have hproc := processed_of_exclusive hJ hW (fun p hp => ⟨hsend p hp, (hall p hp).1⟩) hex hdone
    have hmsg : (progs.flatten.map rebuilt).map Packet.message =
        progs.flatten.map Packet.message := by
      rw [List.map_map]
      exact List.map_congr_left fun p hp => rebuilt_message (hsend p hp).framable (hall p hp).2
    rw [← hmsg]
    exact hproc.map _

end Exact

section NonVacuity

open NonVacuity

def ping (name b : UInt8) : Packet := { type := .event, data := .arr [.str [name], .bytes [b]] }

theorem ping_sendable {name : UInt8} (b : UInt8) (h : validUtf8 [name] = true) :
    (ping name b).Sendable where
  shape := .inl ⟨rfl, _, _, rfl⟩
  nsp_head := rfl
  nsp_comma := by simp [ping, defaultNamespace]
  id_lo := le_rfl
  id_hi := by simp [ping, Strconv.maxInt64]
  plain := rfl
  payload := by
    simp [ping, sorted, sortedList, isPayload, leaves, leavesList, jsonLeaf, isBytes, allMaps, h]
  few := Nat.le_of_ble_eq_true rfl

theorem pings_sendable : ∀ p ∈ [[ping 97 1], [ping 98 2]].flatten, p.Sendable := by
  intro p hp
  have hcases : p = ping 97 1 ∨ p = ping 98 2 := by simpa using hp
  rcases hcases with rfl | rfl
  · exact ping_sendable 1 (by decide)
  · exact ping_sendable 2 (by decide)

/-- Both headers go out before the first attachment. -/
def overlap : List Act :=
  [.call 0, .call 1, .send 0, .send 1, .send 0, .send 1, .recv, .recv, .recv, .recv]

def overlapped : Link :=
  { senders := [⟨[], none⟩, ⟨[], none⟩]
    receiver := { processed := [{ ping 98 1 with attachments := 1 }] } }

theorem overlap_run : exec (Link.step textJson) always (Link.init [[ping 97 1], [ping 98 2]]) overlap =
    some overlapped := by
  decide +kernel

/-- Framing is not atomic: two events whose headers overlap do not both arrive. -/
theorem framing_not_atomic :
    ¬ ∀ (J : Json), J.Lawful → J.WritesImage → ∀ (progs : List (List Packet)) (ls : List Act) (s : Link),
      (∀ p ∈ progs.flatten, p.Sendable) → Run (Link.step J) always (Link.init progs) ls s → s.Done →
      (s.receiver.processed.map Packet.message).Perm (progs.flatten.map Packet.message) := by
  intro h
  have hperm := h textJson textJson_lawful textJson_writesImage [[ping 97 1], [ping 98 2]] overlap
    overlapped pings_sendable (run_of_exec overlap_run) (by decide)
  exact absurd hperm.length_eq (by decide)

/-- The second header waits for the attachment of the first packet. -/
def sequential : List Act :=
  [.call 0, .call 1, .send 0, .send 0, .recv, .send 1, .recv, .send 1, .recv, .recv]

def delivered : Link :=
  { senders := [⟨[], none⟩, ⟨[], none⟩]
    receiver := { processed := [{ ping 97 1 with attachments := 1 },
      { ping 98 2 with attachments := 1 }] } }

theorem sequential_run :
    exec (Link.step textJson) Link.Exclusive (Link.init [[ping 97 1], [ping 98 2]]) sequential =
      some delivered := by
  decide +kernel

theorem framing_exact_sequential :
    (delivered.receiver.processed.map Packet.message).Perm
      ([[ping 97 1], [ping 98 2]].flatten.map Packet.message) := by
  apply (framing_exact textJson_lawful textJson_writesImage pings_sendable
    (run_of_exec sequential_run).unconditional (by decide)).mpr
  refine ⟨run_of_exec sequential_run, ?_⟩
  simp [ping, Packet.valid, validatePayload, isReservedEvent, reservedEvents, Rebuildable, allMaps]

end NonVacuity

end Gosocketio.Framing

import Gosocketio.Proofs.AckTable
import Gosocketio.Proofs.Deconstruction
import Gosocketio.Proofs.Reserved
import Gosocketio.Proofs.Stream
import Gosocketio.Spec.Endpoint

/-! What `Emit` and `EmitWithAck` leave behind: the callback in the table, and the event that the
other side reads. -/

namespace Gosocketio.Endpoint

open Runs Value
open Server (eventPacket)

variable {side : Side} {C : Type} {J : Json} {e e₀ e' : Endpoint side C}
  {nsp event : Bytes} {args : List Value} {cb : C}

section Pending

/-- No reader in the arguments ends in an error. -/
def Readable (e : Endpoint side C) (args : List Value) : Prop :=
  ∀ l ∈ (Value.arr args).leaves, fails e.readers l = false

def Drops (e : Endpoint side C) (event : Bytes) (args : List Value) : Prop :=
  e.engine = true ∧ ∃ err, (deconstruct (.arr (.str event :: args)) { readers := e.readers }).1 = .error err

/-- The messages of an event with this id are among those handed to the engine. -/
def Handed (J : Json) (e : Endpoint side C) (id : ℤ) : Prop :=
  ∃ pkt readers pre post, pkt.type = .event ∧ pkt.id = id ∧ (sendPacket J pkt readers).1 ≠ [] ∧
    e.out = pre ++ (sendPacket J pkt readers).1 ++ post

theorem slots_event (event : Bytes) (args : List Value) :
    (Value.arr (.str event :: args)).slots = (Value.arr args).slots := by
  simp [slots, leaves, isBinaryLeaf]

theorem readable_iff (event : Bytes) :
    e.Readable args ↔ ∀ l ∈ (Value.arr (.str event :: args)).slots, fails e.readers l = false := by
  have h := (exists_fails_slots (.arr args) e.readers).not
  simp only [not_exists, not_and, Bool.not_eq_true] at h
  rw [slots_event, ← h, Readable]

theorem drops_iff : e.Drops event args ↔ e.engine = true ∧ ¬ e.Readable args := by
  refine and_congr_right fun _ => ?_
  rw [readable_iff event]
  constructor
  · rintro ⟨err, herr⟩ hread
    rw [deconstruct_of_readable _ _ hread] at herr
    cases herr
  · intro hfails
    exact deconstruct_error _ _ (by simpa using hfails)

@[simp] theorem acks_send (pkt : Packet) : (e.send J pkt).acks = e.acks := by
  unfold send
  split <;> rfl

theorem out_send (pkt : Packet) : e.out <+: (e.send J pkt).out := by
  unfold send
  split
  · exact List.prefix_append _ _
  · exact List.prefix_refl _

/-- The endpoint once it has registered a callback, and the event that it then sends. -/
def registered (e : Endpoint side C) (cb : C) : Endpoint side C :=
  { e with acks := e.acks.next.2.register e.acks.next.1 (some cb) }

def numbered (e : Endpoint side C) (nsp event : Bytes) (args : List Value) : Packet :=
  { eventPacket nsp event args with id := e.acks.next.1 }

theorem emitWithAck_eq (hconn : e.connected nsp = true) :
    (e.emitWithAck J nsp event (some cb) args).2 = (e.registered cb).send J (e.numbered nsp event args) := by
  simp only [emitWithAck, if_pos hconn]
  rfl

theorem acks_emitWithAck (hconn : e.connected nsp = true) :
    (e.emitWithAck J nsp event (some cb) args).2.acks.cbs =
      Function.update e.acks.cbs e.acks.next.1 (some (some cb)) := by
  rw [emitWithAck_eq hconn, acks_send]
  rfl

theorem Handed.mono {id : ℤ} (h : e.Handed J id) (hout : e.out <+: e'.out) : e'.Handed J id := by
  obtain ⟨pkt, readers, pre, post, htype, hid, hne, hsent⟩ := h
  obtain ⟨more, hmore⟩ := hout
  exact ⟨pkt, readers, pre, post ++ more, htype, hid, hne, by rw [← hmore, hsent, List.append_assoc _ post]⟩

/-- Every callback in the table waits for an event that was handed to the engine. -/
def AllHanded (J : Json) (e : Endpoint side C) : Prop := ∀ id, e.acks.cbs id ≠ none → e.Handed J id

/-- A step that keeps it: a call with a callback finds an engine and no reader that fails. -/
def Keeps (e : Endpoint side C) : Act C → Prop
  | .emitWithAck nsp _ (some _) args => e.connected nsp = true → e.engine = true ∧ e.Readable args
  | _ => True

theorem AllHanded.mono (h : e.AllHanded J) (hout : e.out <+: e'.out)
    (hcbs : ∀ id, e'.acks.cbs id ≠ none → e.acks.cbs id ≠ none) : e'.AllHanded J :=
  fun id hid => (h id (hcbs id hid)).mono hout

theorem handed_send (hengine : e.engine = true) (pkt : Packet) (htype : pkt.type = .event)
    (hread : ∀ l ∈ pkt.data.slots, fails e.readers l = false) : (e.send J pkt).Handed J pkt.id := by
  refine ⟨pkt, e.readers, e.out, [], htype, rfl, ?_, ?_⟩
  · rw [sendPacket_of_readable hread]
    exact List.cons_ne_nil _ _
  · rw [send, if_pos hengine, List.append_nil]

theorem AllHanded.emitWithAck (h : e.AllHanded J) {cb : Option C}
    (hkeeps : e.Keeps (.emitWithAck nsp event cb args)) :
    (e.emitWithAck J nsp event cb args).2.AllHanded J := by
  by_cases hconn : e.connected nsp = true
  · cases cb with
    | none =>
      simp only [Endpoint.emitWithAck, if_pos hconn]
      exact h.mono (out_send _) (by simp)
    | some cb =>
      obtain ⟨hengine, hread⟩ : (e.registered cb).engine = true ∧ e.Readable args := hkeeps hconn
      intro id hid
      rw [acks_emitWithAck hconn, Function.update_apply] at hid
      rw [emitWithAck_eq hconn]
      split_ifs at hid with hnew
      · subst hnew
        have hslots : ∀ l ∈ (e.numbered nsp event args).data.slots, fails (e.registered cb).readers l = false :=
          (readable_iff event).mp hread
        exact handed_send hengine (e.numbered nsp event args) rfl hslots
      · have hbefore : (e.registered cb).Handed J id := h id hid
        exact hbefore.mono (out_send _)
  · simp only [Endpoint.emitWithAck, if_neg hconn]
    exact h

theorem AllHanded.step {a : Act C} (h : e.AllHanded J) (hkeeps : e.Keeps a) (hs : e.step J a = some e') :
    e'.AllHanded J := by
  cases a with
  | emit nsp event args =>
    obtain rfl := Option.some.inj hs
    unfold emit
    split_ifs
    · exact h.mono (out_send _) (by simp)
    · exact h
  | emitWithAck nsp event cb args =>
    obtain rfl := Option.some.inj hs
    exact h.emitWithAck hkeeps
  | ack id =>
    obtain rfl := Option.some.inj hs
    refine h.mono (List.prefix_refl _) fun j hj => ?_
    simp only [AckTable.cbs_take, Function.update_apply] at hj
    split_ifs at hj
    · exact absurd rfl hj
    · exact hj
  | clear =>
    obtain rfl := Option.some.inj hs
    exact fun j hj => absurd rfl hj
  | connection connected engine =>
    simp only [Endpoint.step, Option.dite_none_right_eq_some] at hs
    obtain ⟨hengine, hs⟩ := hs
    obtain rfl := Option.some.inj hs
    exact h
  | reader i r =>
    obtain rfl := Option.some.inj hs
    exact h

/-- `EmitWithAck` on a connected endpoint leaves the table as it was if the event is dropped,
exactly if no reader in the arguments fails, so that it is not dropped: there is no other way, a
client without an engine and a counter that has come round to an id under which the same function
still waits apart. In a run in which every such call finds an engine and no reader fails, each
callback in the table waits for an event that was handed to the engine. -/
theorem dropped_emit_not_pending_iff (J : Json) (e₀ e : Endpoint side C) (nsp event : Bytes) (cb : C)
    (args : List Value) (hconn : e.connected nsp = true) :
    ((e.Drops event args → (e.emitWithAck J nsp event (some cb) args).2.acks.cbs = e.acks.cbs) ↔
      e.Readable args ∨ e.engine = false ∨ e.acks.cbs e.acks.next.1 = some (some cb)) ∧
    (∀ acts, e₀.acks.cbs = (fun _ => none) → Run (step J) Keeps e₀ acts e →
      ∀ id, e.acks.cbs id ≠ none → e.Handed J id) := by
  constructor
  · rw [drops_iff, acks_emitWithAck hconn, Function.update_eq_self_iff]
    cases e.engine
    · simp
    · by_cases hread : e.Readable args
      · simp [hread]
      · simp [hread, eq_comm]
  · intro acts h₀ hrun
    refine hrun.invariant (AllHanded J) (fun id hid => ?_) fun _ _ _ h hkeeps hs => h.step hkeeps hs
    rw [h₀] at hid
    exact absurd rfl hid

def failing : Endpoint .server Unit where
  connected := fun nsp => nsp = defaultNamespace
  readers := fun _ => { content := [7], err := some "closed" }

theorem dropped_emit_stays_pending :
    failing.connected defaultNamespace = true ∧ failing.Drops [97] [.reader (some 0)] ∧
      failing.acks.cbs 1 = none ∧
      (failing.emitWithAck NonVacuity.textJson defaultNamespace [97] (some ()) [.reader (some 0)]).2.out = [] ∧
      (failing.emitWithAck NonVacuity.textJson defaultNamespace [97] (some ()) [.reader (some 0)]).2.acks.cbs 1 =
        some (some ()) := by
  refine ⟨by decide, ⟨rfl, _, rfl⟩, rfl, by decide +kernel, by decide +kernel⟩

/-- The same socket with readers that can be read, after one call with a callback. -/
def reliable : Endpoint .server Unit := { failing with readers := fun _ => { content := [7] } }

theorem dropped_emit_not_pending_iff_reliable :
    ∃ e : Endpoint .server Unit, e.connected defaultNamespace = true ∧ e.acks.cbs 1 ≠ none ∧
      e.Handed NonVacuity.textJson 1 ∧
      (e.Drops [97] [.reader (some 0)] →
        (e.emitWithAck NonVacuity.textJson defaultNamespace [97] (some ()) [.reader (some 0)]).2.acks.cbs =
          e.acks.cbs) := by
  let a : Act Unit := .emitWithAck defaultNamespace [97] (some ()) [.reader (some 0)]
  let e := (reliable.emitWithAck NonVacuity.textJson defaultNamespace [97] (some ()) [.reader (some 0)]).2
  have hkeeps : reliable.Keeps a := fun _ => ⟨rfl, by unfold Readable; decide⟩
  have hrun : Run (step NonVacuity.textJson) Keeps reliable [a] e := .snoc .nil hkeeps rfl
  have hconn : e.connected defaultNamespace = true := by decide +kernel
  have hread : e.Readable [.reader (some 0)] := by unfold Readable; decide +kernel
  have hpending : e.acks.cbs 1 ≠ none := by decide +kernel
  obtain ⟨hiff, hhanded⟩ :=
    dropped_emit_not_pending_iff NonVacuity.textJson reliable e defaultNamespace [97] () [.reader (some 0)] hconn
  exact ⟨e, hconn, hpending, hhanded [a] rfl hrun 1 hpending, hiff.mpr (.inl hread)⟩

end Pending

section Read

open Framing

variable {p : Packet}

/-- What the parser sees to of the name of an event. -/
def Named (name : Bytes) : Prop := isReservedEvent name = false ∧ validUtf8 name = true

theorem named_of_decode (hS : J.Sound) {data : Bytes} (h : decode J data = .ok p) : p.Names Named := by
  intro ht name hname
  refine ⟨not_reserved_of_decode h ht name hname, ?_⟩
  obtain ⟨i, -, -, -, hdata⟩ := decode_ok h
  obtain ⟨xs, hp⟩ := eventName?_eq_some hname
  rcases decodeData_ok hdata with hnull | ⟨⟨text, hread⟩, -⟩
  · rw [hp] at hnull
    cases hnull
  · have hjson := hS text _ hread
    rw [hp, isJson, Bool.and_eq_true, List.all_eq_true] at hjson
    exact hjson.1 (.str name) (by simp [leaves])

theorem names_handleAll {P : Bytes → Prop} (hP : ∀ data p, decode J data = .ok p → p.Names P)
    (ms : List InPacket) {recon : Option Reconstructor} (h : ∀ rec, recon = some rec → rec.pkt.Names P) :
    ∀ pkt, some pkt ∈ (handleAll J recon ms).2 → pkt.Names P := by
  induction ms generalizing recon with
  | nil => exact fun pkt hpkt => absurd hpkt List.not_mem_nil
  | cons m ms ih =>
    obtain ⟨hrecon, hout⟩ := names_handleIn (m := m) hP h
    intro pkt hpkt
    rcases List.mem_cons.mp hpkt with hpkt | hpkt
    · exact hout pkt hpkt.symm
    · exact ih hrecon pkt hpkt

theorem eventName?_sorted (v : Value) : eventName? v.sorted = eventName? v := by
  cases v with
  | arr xs =>
    cases xs with
    | nil => rfl
    | cons x xs => cases x <;> simp [sorted, eventName?]
  | _ => simp [sorted, eventName?]

theorem named_of_message (hS : J.Sound) {ms : List InPacket}
    (h : ((handleAll J none ms).2.filterMap id).map Packet.message = [(eventPacket nsp event args).message]) :
    Named event := by
  obtain ⟨pkt, hpkt, hmessage⟩ := List.map_eq_singleton_iff.mp h
  have hmem : some pkt ∈ (handleAll J none ms).2 := by
    have : pkt ∈ (handleAll J none ms).2.filterMap id := by rw [hpkt]; exact List.mem_singleton_self pkt
    simpa using this
  simp only [Packet.message, Prod.mk.injEq] at hmessage
  obtain ⟨htype, -, -, hdata⟩ := hmessage
  refine names_handleAll (fun _ _ hdec => named_of_decode hS hdec) ms (by simp) pkt hmem ?_ event ?_
  · rw [htype]
    rfl
  · rw [← eventName?_sorted, hdata, eventName?_sorted]
    rfl

/-- What `Emit` takes: JSON values and `[]byte` leaves, no map that looks like a placeholder, and
no deeper nesting than `json.Unmarshal` reads. -/
structure Emittable (nsp : Bytes) (args : List Value) : Prop
    extends Addressable nsp, Value.Payload (.arr args) where
  unmarked : (Value.arr args).allMaps unmarked = true
  nesting : (Value.arr args).nesting ≤ Json.maxNestingDepth

theorem Emittable.framable (h : Emittable nsp args) (hname : Named event) :
    (eventPacket nsp event args).Framable where
  toAddressable := h.toAddressable
  payload := by
    have hstr : jsonLeaf (.str event) = true := hname.2
    simpa [eventPacket, isPayload, sorted, leaves, allMaps, hstr] using h.payload
  few := by simpa [eventPacket, leaves, isBytes] using h.few
  id_lo := le_rfl
  id_hi := by simp [eventPacket, Strconv.maxInt64]
  plain := rfl
  type := .inl rfl
  arr := ⟨_, rfl⟩

/-- Without a reader in the payload it does not matter what the readers hold. -/
theorem sendPacket_readers (hp : p.Framable) (readers : Readers) :
    (sendPacket J p readers).1 = (sendPacket J p noReaders).1 := by
  have hread (readers : Readers) : ∀ l ∈ p.data.slots, fails readers l = false := by
    intro l hl
    rw [slots_eq hp] at hl
    cases l <;> simp_all [isBytes, fails]
  rw [sendPacket_of_readable (hread readers), sendPacket_of_readable (hread noReaders), readLeaves_slots hp,
    readLeaves_slots hp]

theorem handleAll_attachments (hp : p.Framable) {sent rest : List Bytes}
    (hb : p.data.buffers = sent ++ rest) (hne : rest ≠ []) :
    (handleAll J (some { pkt := headerOf p, bufs := sent }) (rest.map frame)).2.filterMap id = [rebuilt p] := by
  induction rest generalizing sent with
  | nil => exact absurd rfl hne
  | cons b rest ih =>
    cases rest with
    | nil =>
      rw [List.map_cons, handleAll, handleIn_last J hp hb rfl]
      rfl
    | cons b' rest =>
      have hb' : p.data.buffers = (sent ++ [b]) ++ b' :: rest := by
        rw [hb, List.append_assoc]
        rfl
      rw [List.map_cons, handleAll, handleIn_buffer J hb (List.cons_ne_nil _ _)]
      exact ih hb' (List.cons_ne_nil _ _)

theorem handleAll_sendPacket (hp : p.Framable) (hc : J.Carries (headerOf p).data)
    (hW : J.WritesImage) (hv : p.valid = true) :
    (handleAll J none (sendPacket J p noReaders).1).2.filterMap id = [rebuilt p] := by
  rw [sendPacket_messages hp hW, handleAll]
  cases hbufs : p.data.buffers with
  | nil =>
    have hs : p.data.slots = [] := by simpa [buffers] using hbufs
    rw [handleIn_plain hc hp _ hv hs, attachments, hbufs]
    rfl
  | cons b rest =>
    have hb : p.data.buffers = [] ++ b :: rest := hbufs
    rw [handleIn_header hc hp _ hv (slots_ne_nil hb), attachments, hbufs]
    exact handleAll_attachments hp hb (List.cons_ne_nil _ _)

theorem event_read (hJ : J.Bounded) (hW : J.WritesImage) (h : Emittable nsp args) (hname : Named event)
    (readers : Readers) :
    ((handleAll J none (sendPacket J (eventPacket nsp event args) readers).1).2.filterMap id).map Packet.message =
      [(eventPacket nsp event args).message] := by
  have hp := h.framable hname
  have hvalid : (eventPacket nsp event args).valid = true :=
    decide_eq_true (by simp [eventPacket, validatePayload, hname.1])
  have hnesting : (headerOf (eventPacket nsp event args)).data.nesting ≤ Json.maxNestingDepth := by
    rw [headerOf_data hp]
    refine (nesting_skeleton _ _).trans (le_trans (le_of_eq ?_) h.nesting)
    simp [eventPacket, nesting, nestingList]
  have hc := (headerOf_framed hp).carried_of_nesting hJ hnesting
  have hunmarked : Rebuildable (eventPacket nsp event args) := fun _ => by
    simpa [eventPacket, allMaps] using h.unmarked
  rw [sendPacket_readers hp, handleAll_sendPacket hp hc hW hvalid, List.map_singleton,
    rebuilt_message hp hunmarked]

/-- `Emit` on a connected endpoint returns no error. The messages it hands over give the other side
the event, with the same name and arguments, exactly if there is an engine and the name is valid
UTF-8 and not reserved. -/
theorem emitted_event_read_iff (hJ : J.Bounded) (hW : J.WritesImage) (hS : J.Sound) (e : Endpoint side C)
    (nsp event : Bytes) (args : List Value) (hconn : e.connected nsp = true) (hargs : Emittable nsp args) :
    (e.emit J nsp event args).1 = none ∧
      (((handleAll J none ((e.emit J nsp event args).2.out.drop e.out.length)).2.filterMap id).map Packet.message =
          [(eventPacket nsp event args).message] ↔
        e.engine = true ∧ event ∉ reservedEvents ∧ validUtf8 event = true) := by
  have hreserved : event ∉ reservedEvents ↔ isReservedEvent event = false := by
    rw [isReservedEvent, ← Bool.not_eq_true, List.contains_iff_mem]
  rw [emit, if_pos hconn, hreserved]
  refine ⟨rfl, ?_⟩
  simp only [send]
  split_ifs with hengine
  · rw [List.drop_left]
    exact ⟨fun h => ⟨hengine, named_of_message hS h⟩, fun h => event_read hJ hW hargs h.2 e.readers⟩
  · rw [List.drop_length]
    refine iff_of_false (fun h => ?_) fun h => hengine h.1
    cases h

def connectName : Bytes := [99, 111, 110, 110, 101, 99, 116]

def client : Endpoint .client Unit where
  connected := fun nsp => nsp = defaultNamespace

theorem emitted_connect_refused : client.connected defaultNamespace = true ∧
    (client.emit NonVacuity.strictJson defaultNamespace connectName []).1 = none ∧
    (client.emit NonVacuity.strictJson defaultNamespace connectName []).2.out.map
      (fun m => decode NonVacuity.strictJson m.data) = [.error .reservedEventName] := by
  decide +kernel

theorem emittable_buffer : Emittable defaultNamespace [.bytes [1], .null] where
  nsp_head := rfl
  nsp_comma := by decide
  payload := by decide
  few := by decide
  unmarked := by decide
  nesting := by decide

theorem emitted_event_read_iff_buffer : ((handleAll NonVacuity.strictJson none
        ((client.emit NonVacuity.strictJson defaultNamespace [97] [.bytes [1], .null]).2.out.drop 0)).2.filterMap
      id).map Packet.message = [(eventPacket defaultNamespace [97] [.bytes [1], .null]).message] :=
  (emitted_event_read_iff NonVacuity.strictJson_lawful.bounded NonVacuity.strictJson_writesImage
    NonVacuity.strictJson_sound client defaultNamespace [97] [.bytes [1], .null] (by decide)
    emittable_buffer).2.mpr (by decide)

end Read

end Gosocketio.Endpoint

import Gosocketio.Sanity.Session

/-! The way of a packet from `sendPacket` to the wire, on a session that keeps its transport.
`flush` takes what is in `writeBuffer` and is the only one to send until it has cleared
`sending`; the packets on their way are with one goroutine at most. -/

namespace Gosocketio.Engine

open Transport Stacks Pool Runs
open EngineSocket (Tport)

def payload (pkts : List Packet) : List Packet := pkts.filter fun p => p.type ≠ .close ∧ p.type ≠ .noop

@[simp] theorem payload_nil : payload [] = [] := rfl

@[simp] theorem payload_append (pkts pkts' : List Packet) :
    payload (pkts ++ pkts') = payload pkts ++ payload pkts' := List.filter_append ..

@[simp] theorem payload_close : payload [{ type := .close }] = [] := rfl

@[simp] theorem payload_noop : payload [{ type := .noop }] = [] := rfl

theorem payload_closing (pkts : List Packet) (b : Bool) :
    payload (if b then pkts ++ [{ type := .close }] else pkts) = payload pkts := by
  cases b <;> simp

/-- One bag with the packets, none if there are none. -/
def bag (pkts : List Packet) : Multiset (List Packet) := if pkts = [] then 0 else {pkts}

@[simp] theorem bag_nil : bag [] = 0 := rfl

theorem bag_of_ne {pkts : List Packet} (h : pkts ≠ []) : bag pkts = {pkts} := if_neg h

def polled (log : List Polling.Event) : List Packet := log.flatMap fun
    | .wrote _ (some pkts) => payload pkts
    | _ => []

@[simp] theorem polled_append (log log' : List Polling.Event) :
    polled (log ++ log') = polled log ++ polled log' := List.flatMap_append

namespace Op

/-- What `flush` has taken and not yet passed to `Send`. -/
def held : Op → Multiset (List Packet)
  | .send _ buf => bag buf
  | _ => 0

/-- What `flush` has taken and is not yet written. -/
def carried : Op → Multiset (List Packet)
  | .send _ buf => bag buf
  | .frames _ pkts => bag pkts
  | .polling (.write r) => bag (payload r.pkts)
  | _ => 0

def sendings : Op → ℕ
  | .sent => 1
  | _ => 0

def wakes : Op → ℕ
  | .appended (some _) | .flush => 1
  | _ => 0

/-- The operation moves no packet of the session. -/
structure Neutral (op : Op) : Prop where
  held : op.held = 0
  carried : op.carried = 0
  sendings : op.sendings = 0

theorem neutral_iff {op : Op} : op.Neutral ↔ op.held = 0 ∧ op.carried = 0 ∧ op.sendings = 0 :=
  ⟨fun h => ⟨h.held, h.carried, h.sendings⟩, fun ⟨h₁, h₂, h₃⟩ => ⟨h₁, h₂, h₃⟩⟩

end Op

/-- The operations on the polling transport of a session that no error occurs in. `Send` is
called with packets of its own only. -/
def LocalPolling : Polling.Op → Prop
  | .send pkts | .resend pkts => payload pkts = []
  | .write _ | .closeDone _ | .notifyClose | .checkPending | .await _ | .watch _ => True
  | .close | .ready | .badRequest _ | .ret _ => False

/-- The operations of a session that keeps its transport and in which no error occurs. -/
def Op.Local (direct : Bool) : Op → Prop
  | .sendPacket p => payload [p] = [p]
  | .appended t => t = some (State.first direct)
  | .send t buf => t = State.first direct ∧ buf ≠ [] ∧ payload buf = buf
  | .frames _ _ => direct = true
  | .polling op => direct = false ∧ LocalPolling op
  | .close t => t = State.first direct
  | .notify _ n => n = .close
  | .flush | .sent | .connClose _ | .discard _ | .read _ | .onCloseFrom _ | .delivered _ | .closeSocket
  | .closeTransport | .closeReturned | .closeWithReason _ | .unregister | .onClose _ | .pingHandler => True
  | _ => False

/-- What was passed on, what one goroutine holds, and what waits. -/
def Pipe (out : List Packet) (mid : Multiset (List Packet)) (buf given : List Packet) : Prop :=
  ∃ xs, mid = bag xs ∧ out ++ xs ++ buf = given

namespace Pipe

variable {out buf given pkts : List Packet} {mid : Multiset (List Packet)}

theorem append (h : Pipe out mid buf given) (p : Packet) : Pipe out mid (buf ++ [p]) (given ++ [p]) := by
  obtain ⟨xs, rfl, rfl⟩ := h
  exact ⟨xs, rfl, by simp⟩

theorem take (h : Pipe out 0 buf given) : Pipe out (bag buf) [] given := by
  obtain ⟨xs, hxs, rfl⟩ := h
  obtain rfl : xs = [] := by
    by_contra hne
    rw [bag_of_ne hne] at hxs
    exact Multiset.singleton_ne_zero _ hxs.symm
  exact ⟨buf, rfl, by simp⟩

theorem pass {ys zs : List Packet} {r : Multiset (List Packet)} (hne : ys ++ zs ≠ [])
    (h : Pipe out (r + bag (ys ++ zs)) buf given) : r = 0 ∧ Pipe (out ++ ys) (r + bag zs) buf given := by
  obtain ⟨xs, hxs, rfl⟩ := h
  rw [bag_of_ne hne] at hxs
  have hxs' : xs ≠ [] := by
    rintro rfl
    exact absurd (congrArg Multiset.card hxs) (by simp)
  rw [bag_of_ne hxs'] at hxs
  have hcard := congrArg Multiset.card hxs
  obtain rfl : r = 0 := by simpa using hcard
  obtain rfl : ys ++ zs = xs := by simpa using hxs
  exact ⟨rfl, zs, by simp, by simp⟩

end Pipe

namespace Session

def written (direct : Bool) (s : Session) : List Packet := if direct then s.framed else polled s.polling.log

variable {direct : Bool} {s s' : Session} {op : Op} {ops : List Op} {new : List (List Op)} {c : Choice}

/-- Nothing has happened to the packets of the session. The transport has not become
writable. -/
structure Same (direct : Bool) (s s' : Session) : Prop where
  writeBuffer : s'.writeBuffer = s.writeBuffer
  sending : s'.sending = s.sending
  accepted : s'.accepted = s.accepted
  batches : s'.batches = s.batches
  written : s'.written direct = s.written direct
  writable : s'.isWritable (State.first direct) = true → s.isWritable (State.first direct) = true

theorem Same.refl (direct : Bool) (s : Session) : Same direct s s := ⟨rfl, rfl, rfl, rfl, rfl, id⟩

/-- What a goroutine does to the packets of a session. -/
inductive Moves (direct : Bool) (s : Session) : Op → Session → List Op → Prop
  | quiet {op : Op} {s' : Session} {ops : List Op} (hop : op.Neutral) (hwakes : op.wakes = 0)
      (hsame : Same direct s s') (hops : ∀ op ∈ ops, op.Neutral) : Moves direct s op s' ops
  | append (p : Packet) (hopen : s.readyState ≠ .closing ∧ s.readyState ≠ .closed) :
      Moves direct s (.sendPacket p)
        { s with writeBuffer := s.writeBuffer ++ [p], accepted := s.accepted ++ [p] }
        [.appended (some (State.first direct))]
  | check : Moves direct s (.appended (some (State.first direct))) s
      (if s.isWritable (State.first direct) then [.flush] else [])
  | skip (h : s.readyState = .closed ∨ s.sending = true ∨ s.writeBuffer = [] ∨
      s.isWritable (State.first direct) = false) : Moves direct s .flush s []
  | take (hsending : s.sending = false) (hne : s.writeBuffer ≠ [])
      (hwritable : s.isWritable (State.first direct) = true) :
      Moves direct s .flush { s with writeBuffer := [], sending := true }
        [.send (State.first direct) s.writeBuffer, .sent]
  | pass {buf : List Packet} {s' : Session} {op : Op} (hne : buf ≠ []) (hheld : op.held = 0)
      (hcarried : op.carried = bag buf) (hsendings : op.sendings = 0)
      (hsame : Same direct { s with batches := s.batches ++ [buf] } s') :
      Moves direct s (.send (State.first direct) buf) s' [op]
  | write {op : Op} {s' : Session} {ops : List Op} (ys zs : List Packet) (hne : ys ++ zs ≠ [])
      (hheld : op.held = 0) (hcarried : op.carried = bag (ys ++ zs)) (hsendings : op.sendings = 0)
      (hwakes : op.wakes = 0) (hwritten : s'.written direct = s.written direct ++ ys)
      (hsame : s'.writeBuffer = s.writeBuffer ∧ s'.sending = s.sending ∧ s'.accepted = s.accepted ∧
        s'.batches = s.batches ∧
        s'.isWritable (State.first direct) = s.isWritable (State.first direct))
      (hops : (∀ op ∈ ops, op.held = 0 ∧ op.sendings = 0) ∧ (ops.map Op.carried).sum = bag zs) :
      Moves direct s op s' ops
  | finish {ops : List Op} (hops : ops = [] ∨ ops = [.flush])
      (hreflush : s.readyState ≠ .closed → s.writeBuffer ≠ [] →
        s.isWritable (State.first direct) = true → ops = [.flush]) :
      Moves direct s .sent { s with sending := false } ops

/-- The packets of the session are in order, and one `flush` at most is sending. -/
structure Path (direct : Bool) (s : Session) (ts : List (List Op)) : Prop where
  single : load Op.sendings ts = if s.sending then 1 else 0
  followed : ∀ as ∈ ts, Followed (fun op => op.carried ≠ 0) .sent as
  passed : Pipe s.batches.flatten (load Op.held ts) s.writeBuffer s.accepted
  written : Pipe (s.written direct) (load Op.carried ts) s.writeBuffer s.accepted

section Path

variable {ts : List (List Op)} {i : ℕ} {rest : List Op}

theorem held_of_carried (h : op.carried = 0) : op.held = 0 := by
  cases op <;> first | rfl | exact h

/-- Nothing is on its way while no `flush` is sending. -/
theorem Path.idle (h : Path direct s ts) (hsending : s.sending = false) :
    load Op.held ts = 0 ∧ load Op.carried ts = 0 := by
  have hcarried : Every (fun op => op.carried = 0) ts := by
    intro as has op hop
    by_contra hne
    have hsent : .sent ∈ as := (h.followed as has).mem hop hne
    have hle := le_load Op.sendings has hsent
    rw [h.single, hsending] at hle
    exact absurd hle (by decide)
  exact ⟨load_eq_zero (hcarried.mono fun op => held_of_carried), load_eq_zero hcarried⟩

theorem followed_neutral (hops : ∀ op ∈ ops, op.Neutral) :
    Followed (fun op => op.carried ≠ 0) .sent ops :=
  .of_forall_not fun op hop hne => hne (hops op hop).carried

theorem load_neutral (hnew : Every Op.Neutral new) :
    load Op.held new = 0 ∧ load Op.carried new = 0 ∧ load Op.sendings new = 0 :=
  ⟨load_eq_zero (hnew.mono fun _ h => h.held), load_eq_zero (hnew.mono fun _ h => h.carried),
    load_eq_zero (hnew.mono fun _ h => h.sendings)⟩

theorem sum_neutral (hops : ∀ op ∈ ops, op.Neutral) :
    (ops.map Op.held).sum = 0 ∧ (ops.map Op.carried).sum = 0 ∧ (ops.map Op.sendings).sum = 0 :=
  ⟨List.sum_eq_zero (List.forall_mem_map.mpr fun op h => (hops op h).held),
    List.sum_eq_zero (List.forall_mem_map.mpr fun op h => (hops op h).carried),
    List.sum_eq_zero (List.forall_mem_map.mpr fun op h => (hops op h).sendings)⟩

theorem neutral_flush : Op.Neutral .flush := ⟨rfl, rfl, rfl⟩

theorem flush_if (P : Prop) [Decidable P] :
    ∀ op ∈ (if P then [Op.flush] else []), op.Local direct ∧ op.Neutral := by
  split_ifs
  · exact List.forall_mem_singleton.mpr ⟨trivial, neutral_flush⟩
  · exact nofun

/-- How a path changes when a goroutine does one thing. -/
theorem Path.go (h : Path direct s ts) (hi : ts[i]? = some (op :: rest)) (hm : Moves direct s op s' ops)
    (hnew : Every Op.Neutral new) : Path direct s' (ts.set i (ops ++ rest) ++ new) := by
  obtain ⟨hnheld, hncarried, hnsendings⟩ := load_neutral hnew
  obtain ⟨r₁, hold₁, hnew₁⟩ := exists_load_go Op.sendings hi ops new
  obtain ⟨r₂, hold₂, hnew₂⟩ := exists_load_go Op.held hi ops new
  obtain ⟨r₃, hold₃, hnew₃⟩ := exists_load_go Op.carried hi ops new
  rw [hnsendings, add_zero] at hnew₁
  rw [hnheld, add_zero] at hnew₂
  rw [hncarried, add_zero] at hnew₃
  have hhead := h.followed _ (List.mem_of_getElem? hi)
  have hidle := h.idle
  have hfollowed (hops : Followed (fun op => op.carried ≠ 0) .sent (ops ++ rest)) :
      ∀ as ∈ ts.set i (ops ++ rest) ++ new, Followed (fun op => op.carried ≠ 0) .sent as :=
    List.forall_mem_append.mpr ⟨forall_set h.followed hops,
      fun as has => followed_neutral (hnew as has)⟩
  obtain ⟨hsingle, -, hpassed, hwritten⟩ := h
  rw [hold₁] at hsingle
  rw [hold₂] at hpassed
  rw [hold₃] at hwritten
  have hquiet (hop : op.Neutral) (hsame : Same direct s s') (hops : ∀ op ∈ ops, op.Neutral) :
      Path direct s' (ts.set i (ops ++ rest) ++ new) := by
    obtain ⟨hheld, hcarried, hsendings⟩ := sum_neutral hops
    rw [hop.sendings] at hsingle
    rw [hop.held] at hpassed
    rw [hop.carried] at hwritten
    refine ⟨?_, hfollowed ((followed_neutral hops).append hhead.2), ?_, ?_⟩
    · rw [hnew₁, hsendings, hsame.sending, hsingle]
    · rw [hnew₂, hheld, hsame.batches, hsame.writeBuffer, hsame.accepted]
      exact hpassed
    · rw [hnew₃, hcarried, hsame.written, hsame.writeBuffer, hsame.accepted]
      exact hwritten
  cases hm with
  | quiet hop hwakes hsame hops => exact hquiet hop hsame hops
  | append p =>
    refine ⟨hnew₁.trans hsingle, hfollowed ⟨fun hne => absurd rfl hne, hhead.2⟩, ?_, ?_⟩
    · rw [hnew₂]
      exact hpassed.append p
    · rw [hnew₃]
      exact hwritten.append p
  | check => exact hquiet ⟨rfl, rfl, rfl⟩ (.refl _ s) fun op hop => (@flush_if direct _ _ op hop).2
  | skip => exact hquiet neutral_flush (.refl _ s) (List.forall_mem_nil _)
  | take hsending hne =>
    -- no other `flush` is sending, so nothing is on its way
    obtain ⟨hheld, hcarried⟩ := hidle hsending
    rw [hold₂] at hheld
    rw [hold₃] at hcarried
    rw [hheld] at hpassed
    rw [hcarried] at hwritten
    have hr₂ : r₂ = 0 := (add_zero r₂).symm.trans hheld
    have hr₃ : r₃ = 0 := (add_zero r₃).symm.trans hcarried
    rw [hsending] at hsingle
    have hr₁ : r₁ = 0 := hsingle
    have hops : Followed (fun op => op.carried ≠ 0) .sent
        (.send (State.first direct) s.writeBuffer :: .sent :: rest) :=
      ⟨fun _ => List.mem_cons_self, fun hsent => absurd rfl hsent, hhead.2⟩
    refine ⟨?_, hfollowed hops, ?_, ?_⟩
    · rw [hnew₁, hr₁]
      rfl
    · rw [hnew₂, hr₂]
      have hsum : (List.map Op.held [.send (State.first direct) s.writeBuffer, .sent]).sum =
          bag s.writeBuffer := add_zero _
      rw [hsum, zero_add]
      exact hpassed.take
    · rw [hnew₃, hr₃]
      have hsum : (List.map Op.carried [.send (State.first direct) s.writeBuffer, .sent]).sum =
          bag s.writeBuffer := add_zero _
      rw [hsum, zero_add]
      exact hwritten.take
  | @pass buf _ op hne hheld hcarried hsendings hsame =>
    have hsent : .sent ∈ rest := hhead.1 (by
      change bag buf ≠ 0
      rw [bag_of_ne hne]
      exact Multiset.singleton_ne_zero _)
    refine ⟨?_, hfollowed (hhead.2.of_mem hsent), ?_, ?_⟩
    · rw [hnew₁, List.map_singleton, List.sum_singleton, hsendings, hsame.sending]
      exact hsingle
    · rw [hnew₂, List.map_singleton, List.sum_singleton, hheld, hsame.batches, hsame.writeBuffer,
        hsame.accepted, List.flatten_append, List.flatten_singleton]
      have hpass : Pipe s.batches.flatten (r₂ + bag (buf ++ [])) s.writeBuffer s.accepted := by
        rw [List.append_nil]
        exact hpassed
      exact (hpass.pass (by simpa using hne)).2
    · rw [hnew₃, List.map_singleton, List.sum_singleton, hcarried, hsame.written, hsame.writeBuffer,
        hsame.accepted]
      exact hwritten
  | write ys zs hne hheld hcarried hsendings hwakes hwrites hsame hops =>
    obtain ⟨hbuffer, hsending, haccepted, hbatches, -⟩ := hsame
    have hsent : .sent ∈ rest := hhead.1 (by
      change op.carried ≠ 0
      rw [hcarried, bag_of_ne hne]
      exact Multiset.singleton_ne_zero _)
    have hsums : (ops.map Op.held).sum = 0 ∧ (ops.map Op.sendings).sum = 0 :=
      ⟨List.sum_eq_zero (List.forall_mem_map.mpr fun op h => (hops.1 op h).1),
        List.sum_eq_zero (List.forall_mem_map.mpr fun op h => (hops.1 op h).2)⟩
    rw [hheld] at hpassed
    rw [hsendings] at hsingle
    rw [hcarried] at hwritten
    refine ⟨?_, hfollowed (hhead.2.of_mem hsent), ?_, ?_⟩
    · rw [hnew₁, hsums.2, hsending]
      exact hsingle
    · rw [hnew₂, hsums.1, hbatches, hbuffer, haccepted]
      exact hpassed
    · rw [hnew₃, hops.2, hwrites, hbuffer, haccepted]
      exact (hwritten.pass hne).2
  | finish hops =>
    have hneutral : ∀ op ∈ ops, op.Neutral := by
      rcases hops with rfl | rfl
      · exact nofun
      · exact List.forall_mem_singleton.mpr neutral_flush
    obtain ⟨hheld, hcarried, hsendings⟩ := sum_neutral hneutral
    refine ⟨?_, hfollowed ((followed_neutral hneutral).append hhead.2), ?_, ?_⟩
    · rw [hnew₁, hsendings]
      change r₁ + 1 = _ at hsingle
      split_ifs at hsingle
      · exact Nat.succ.inj hsingle
    · rw [hnew₂, hheld]
      exact hpassed
    · rw [hnew₃, hcarried]
      exact hwritten

theorem Moves.held (hm : Moves direct s op s' ops) :
    (op.held = 0 ∧ (ops.map Op.held).sum = 0) ∨ s'.isWritable (State.first direct) = true ∨
      ∃ buf, op = .send (State.first direct) buf ∧ buf ≠ [] ∧ (ops.map Op.held).sum = 0 := by
  cases hm with
  | quiet hop _ _ hops => exact .inl ⟨hop.held, (sum_neutral hops).1⟩
  | append | skip => exact .inl ⟨rfl, rfl⟩
  | check =>
    refine .inl ⟨rfl, ?_⟩
    split_ifs <;> rfl
  | take _ _ hwritable => exact .inr (.inl hwritable)
  | @pass buf _ op hne hheld => exact .inr (.inr ⟨buf, rfl, hne, by simp [hheld]⟩)
  | write ys zs _ hheld _ _ _ _ _ hops =>
    exact .inl ⟨hheld, List.sum_eq_zero (List.forall_mem_map.mpr fun op h => (hops.1 op h).1)⟩
  | finish hops => rcases hops with rfl | rfl <;> exact .inl ⟨rfl, rfl⟩

theorem Path.event (h : Path direct s ts) (hsending : s'.sending = s.sending)
    (hbuffer : s'.writeBuffer = s.writeBuffer) (haccepted : s'.accepted = s.accepted)
    (hbatches : s'.batches = s.batches) (hwritten : s'.written direct = s.written direct)
    (hnew : Every Op.Neutral new) : Path direct s' (ts ++ new) := by
  obtain ⟨hnheld, hncarried, hnsendings⟩ := load_neutral hnew
  refine ⟨?_, List.forall_mem_append.mpr ⟨h.followed, fun as has => followed_neutral (hnew as has)⟩, ?_, ?_⟩
  · rw [load_append, hnsendings, hsending]
    exact h.single
  · rw [load_append, hnheld, add_zero, hbatches, hbuffer, haccepted]
    exact h.passed
  · rw [load_append, hncarried, add_zero, hwritten, hbuffer, haccepted]
    exact h.written

end Path

/-- A `flush` is on its way while there is something to send and the transport is writable. -/
def Woken (direct : Bool) (s : Session) (ts : List (List Op)) : Prop :=
  s.isWritable (State.first direct) = true → s.writeBuffer ≠ [] → s.sending = true ∨ 0 < load Op.wakes ts

theorem Woken.go {ts : List (List Op)} {i : ℕ} {rest : List Op} (h : Woken direct s ts)
    (hopen : s.readyState ≠ .closed) (hi : ts[i]? = some (op :: rest)) (hm : Moves direct s op s' ops) :
    Woken direct s' (ts.set i (ops ++ rest) ++ new) := by
  obtain ⟨r, hold, hnew⟩ := exists_load_go Op.wakes hi ops new
  intro hwritable hne
  rw [hnew]
  have hkeep (hwakes : op.wakes = 0) (hw : s.isWritable (State.first direct) = true)
      (hb : s.writeBuffer ≠ []) (hsending : s'.sending = s.sending) :
      s'.sending = true ∨ 0 < r + (ops.map Op.wakes).sum + load Op.wakes new := by
    rw [hsending]
    refine (h hw hb).imp id fun hpos => ?_
    omega
  cases hm with
  | quiet hop hwakes hsame =>
    exact hkeep hwakes (hsame.writable hwritable) (hsame.writeBuffer ▸ hne) hsame.sending
  | append p =>
    refine .inr ?_
    simp only [List.map_singleton, List.sum_singleton, Op.wakes]
    omega
  | check =>
    refine .inr ?_
    rw [if_pos hwritable]
    simp only [List.map_singleton, List.sum_singleton, Op.wakes]
    omega
  | skip hskip =>
    rcases hskip with hclosed | hsending | hempty | hnot
    · exact absurd hclosed hopen
    · exact .inl hsending
    · exact absurd hempty hne
    · rw [hnot] at hwritable
      cases hwritable
  | take => exact .inl rfl
  | pass _ _ _ _ hsame =>
    exact hkeep rfl (hsame.writable hwritable) (hsame.writeBuffer ▸ hne) hsame.sending
  | write _ _ _ _ _ _ hwakes _ hsame =>
    obtain ⟨hbuffer, hsending, -, -, hw⟩ := hsame
    exact hkeep hwakes (hw ▸ hwritable) (hbuffer ▸ hne) hsending
  | finish _ hreflush =>
    refine .inr ?_
    rw [hreflush hopen hne hwritable]
    simp only [List.map_singleton, List.sum_singleton, Op.wakes]
    omega

section Run

variable {st st' : Polling.State} {o : Polling.Op} {os : List Polling.Op} {pkts : List Packet}

/-- What the operations on the polling transport do to packets. -/
structure Silent (st st' : Polling.State) (os : List Polling.Op) : Prop where
  log : polled st'.log = polled st.log
  writable : st'.p.writable = true → st.p.writable = true
  sendBuffer : payload st.p.sendBuffer = [] → payload st'.p.sendBuffer = []
  ops : ∀ o ∈ os, LocalPolling o ∧ (Op.polling o).Neutral

theorem neutral_polling (h : ∀ r, o ≠ .write r) : (Op.polling o).Neutral := by
  refine ⟨rfl, ?_, rfl⟩
  cases o <;> first | rfl | exact absurd rfl (h _)

theorem sends_silent (st : Polling.State) (hpkts : payload pkts = []) : Silent st (st.sends pkts).1 (st.sends pkts).2 := by
  rcases Polling.send_cases st.p pkts with ⟨-, heq⟩ | ⟨pkts', hpkts', -, ⟨-, heq⟩ | ⟨n, -, heq⟩⟩
  · simp only [Polling.State.sends, heq]
    exact ⟨rfl, id, id, nofun⟩
  · simp only [Polling.State.sends, heq]
    refine ⟨rfl, nofun, fun hbuf => ?_, nofun⟩
    rw [payload_append, hbuf, hpkts', payload_closing, hpkts]
    rfl
  · simp only [Polling.State.sends, heq]
    refine ⟨rfl, nofun, id, List.forall_mem_singleton.mpr ⟨trivial, rfl, ?_, rfl⟩⟩
    change bag (payload pkts') = 0
    rw [hpkts', payload_closing, hpkts]
    rfl

/-- Everything but the write of a response. -/
theorem run_silent (hlocal : LocalPolling o) (hwrite : ∀ r, o ≠ .write r) (h : st.run o = some (st', os)) :
    Silent st st' os := by
  cases o with
  | send pkts =>
    obtain ⟨hst, hos⟩ := Prod.mk.inj (Option.some.inj h)
    obtain ⟨hlog, hwritable, hbuf, hops⟩ := sends_silent { st with given := st.given ++ pkts } hlocal
    rw [← hst, ← hos]
    exact ⟨hlog, hwritable, hbuf, hops⟩
  | resend pkts =>
    obtain ⟨hst, hos⟩ := Prod.mk.inj (Option.some.inj h)
    rw [← hst, ← hos]
    exact sends_silent st hlocal
  | write r => exact absurd rfl (hwrite r)
  | closeDone n =>
    cases h
    exact ⟨by simp [polled], id, id, nofun⟩
  | notifyClose =>
    obtain ⟨hst, hos⟩ := Prod.mk.inj (Option.some.inj h)
    rw [← hst, ← hos]
    have hlog : polled (st.p.closeLocked.2.toList.map .closedDone) = [] := by
      cases st.p.closeLocked.2 <;> rfl
    refine ⟨?_, ?_, ?_, nofun⟩
    · change polled (st.log ++ st.p.closeLocked.2.toList.map .closedDone) = _
      rw [polled_append, hlog, List.append_nil]
    · change st.p.closeLocked.1.writable = true → _
      unfold Polling.closeLocked
      split_ifs
      · exact id
      · exact nofun
    · change _ → payload st.p.closeLocked.1.sendBuffer = []
      unfold Polling.closeLocked
      split_ifs
      · exact id
      · exact fun _ => rfl
  | checkPending =>
    cases h
    refine ⟨rfl, id, id, ?_⟩
    split_ifs
    · exact List.forall_mem_singleton.mpr ⟨rfl, neutral_polling nofun⟩
    · exact nofun
  | await n =>
    simp only [Polling.State.run] at h
    split_ifs at h
    cases h
    exact ⟨by simp [polled], id, id, nofun⟩
  | watch n =>
    simp only [Polling.State.run] at h
    split_ifs at h
    cases h
    exact ⟨rfl, id, id, nofun⟩
  | close | ready | badRequest | ret => exact hlocal.elim

structure Fixed (direct : Bool) (s : Session) : Prop where
  transport : s.transport = some (State.first direct)
  pollingTport : s.pollingTport = !direct
  upgrading : s.upgrading = false
  handler : ∀ k, s.handler k ≠ some .upgradeHandler
  writeBuffer : payload s.writeBuffer = s.writeBuffer
  sendBuffer : payload s.polling.p.sendBuffer = []

/-- A `flush` that has taken packets finds the transport as it left it. -/
def Fit (s : Session) : Op → Prop
  | .send .polling _ => s.polling.p.closed = false ∧ ∃ n, s.polling.p.res = some n
  | .frames k (_ :: _) => s.gone k = false
  | _ => True

/-- What an operation does, in a session that keeps its transport. -/
structure Keeps (direct : Bool) (s : Session) (op : Op) (s' : Session) (ops : List Op) : Prop where
  fixed : Fixed direct s'
  pushed : ∀ op ∈ ops, op.Local direct
  moves : Moves direct s op s' ops

theorem Keeps.quiet (hs' : Fixed direct s') (hop : op.Neutral) (hwakes : op.wakes = 0)
    (hsame : Same direct s s') (hops : ∀ op ∈ ops, op.Local direct ∧ op.Neutral) :
    Keeps direct s op s' ops :=
  ⟨hs', fun op hop => (hops op hop).1, .quiet hop hwakes hsame fun op hop => (hops op hop).2⟩

section

variable (hs : Fixed direct s)

include hs

theorem Keeps.idle (hop : op.Neutral) (hwakes : op.wakes = 0) : Keeps direct s op s [] :=
  .quiet hs hop hwakes (.refl _ s) (List.forall_mem_nil _)

theorem onPolling_keeps (hd : direct = false) (hlocal : LocalPolling o)
    (hwrite : ∀ r, o ≠ .write r) (hrun : s.onPolling o = some (s', ops)) :
    Keeps direct s (.polling o) s' ops := by
  obtain ⟨st, os, hst, rfl, rfl⟩ := onPolling_eq_some hrun
  obtain ⟨hlog, hwritable, hbuf, hops⟩ := run_silent hlocal hwrite hst
  have hlocals : ∀ op ∈ os.map Op.polling ++
      (if o = .notifyClose ∧ s.polling.p.closed = false then [.onCloseFrom .polling] else []),
      op.Local direct ∧ op.Neutral := by
    refine List.forall_mem_append.mpr ⟨List.forall_mem_map.mpr fun o' ho' => ?_, ?_⟩
    · exact ⟨⟨hd, (hops o' ho').1⟩, (hops o' ho').2⟩
    · split_ifs
      · exact List.forall_mem_singleton.mpr ⟨trivial, rfl, rfl, rfl⟩
      · exact nofun
  refine ⟨{ hs with sendBuffer := hbuf hs.sendBuffer },
    fun op hop => (hlocals op hop).1, .quiet (neutral_polling hwrite) ?_ ?_ fun op hop => (hlocals op hop).2⟩
  · rfl
  · subst hd
    exact ⟨rfl, rfl, rfl, rfl, hlog, hwritable⟩

theorem write_keeps {r : Polling.Response} (hd : direct = false)
    (hrun : s.onPolling (.write r) = some (s', ops)) : Keeps direct s (.polling (.write r)) s' ops := by
  obtain ⟨st, os, hst, rfl, rfl⟩ := onPolling_eq_some hrun
  obtain ⟨rfl, rfl⟩ := Prod.mk.inj (Option.some.inj hst)
  have hops : ∀ o ∈ r.rest, LocalPolling o ∧ (Op.polling o).Neutral := by
    refine List.forall_mem_append.mpr ⟨List.forall_mem_map.mpr fun n _ => ?_, ?_⟩
    · exact ⟨trivial, neutral_polling nofun⟩
    · split_ifs
      · exact List.forall_mem_singleton.mpr ⟨trivial, neutral_polling nofun⟩
      · exact nofun
  have hlocals : ∀ op ∈ r.rest.map Op.polling ++ [], op.Local direct ∧ op.Neutral := by
    rw [List.append_nil]
    exact List.forall_mem_map.mpr fun o ho => ⟨⟨hd, (hops o ho).1⟩, (hops o ho).2⟩
  refine ⟨{ hs with }, fun op hop => (hlocals op hop).1, ?_⟩
  have hwritten (s' : Session)
      (hlog : s'.polling.log = s.polling.log ++ [.wrote r.res (some r.pkts)]) :
      s'.written direct = s.written direct ++ payload r.pkts := by
    subst hd
    change polled s'.polling.log = polled s.polling.log ++ _
    rw [hlog, polled_append]
    simp [polled]
  by_cases hpay : payload r.pkts = []
  · refine .quiet ⟨rfl, ?_, rfl⟩ rfl ?_ fun op hop => (hlocals op hop).2
    · change bag (payload r.pkts) = 0
      rw [hpay]
      rfl
    · refine ⟨rfl, rfl, rfl, rfl, ?_, ?_⟩
      · rw [hwritten _ rfl, hpay, List.append_nil]
      · subst hd
        exact id
  · have hsum := sum_neutral fun op hop => (hlocals op hop).2
    refine .write (payload r.pkts) [] ?_ rfl ?_ rfl rfl (hwritten _ rfl) ?_ ⟨?_, hsum.2.1⟩
    · simpa using hpay
    · rw [List.append_nil]
      rfl
    · subst hd
      exact ⟨rfl, rfl, rfl, rfl, rfl⟩
    · exact fun op hop => ⟨(hlocals op hop).2.held, (hlocals op hop).2.sendings⟩

theorem send_keeps {buf : List Packet} (hlocal : (Op.send (State.first direct) buf).Local direct)
    (hfit : s.Fit (.send (State.first direct) buf))
    (hrun : s.run c (.send (State.first direct) buf) = some (s', ops, new)) :
    new = [] ∧ Keeps direct s (.send (State.first direct) buf) s' ops := by
  obtain ⟨-, hne, hbuf⟩ := hlocal
  obtain ⟨⟨s₁, ops₁⟩, htransmit, heq⟩ := Option.map_eq_some_iff.mp hrun
  cases heq
  refine ⟨rfl, ?_⟩
  cases direct with
  | false =>
    obtain ⟨hclosed, n, hres⟩ := hfit
    obtain ⟨st, os, hst, rfl, rfl⟩ := onPolling_eq_some htransmit
    obtain ⟨hst, hos⟩ := Prod.mk.inj (Option.some.inj hst)
    rcases Polling.send_cases s.polling.p buf with
      ⟨hc, -⟩ | ⟨pkts, hpkts, -, ⟨hnone, -⟩ | ⟨m, -, heq⟩⟩
    · rw [hclosed] at hc
      cases hc
    · rw [hres] at hnone
      cases hnone
    · simp only [heq] at hst hos
      subst hst hos
      refine ⟨{ hs with },
        List.forall_mem_singleton.mpr ⟨rfl, trivial⟩, .pass hne rfl ?_ rfl ⟨rfl, rfl, rfl, rfl, rfl, nofun⟩⟩
      change bag (payload pkts) = bag buf
      rw [hpkts, payload_closing, hbuf]
  | true =>
    simp only [transmit, State.first, if_true, if_neg hne, Option.some.injEq, Prod.mk.injEq] at htransmit
    obtain ⟨rfl, rfl⟩ := htransmit
    exact ⟨{ hs with },
      List.forall_mem_singleton.mpr rfl, .pass hne rfl rfl rfl ⟨rfl, rfl, rfl, rfl, rfl, id⟩⟩

theorem frames_keeps {k : ℕ} {pkts : List Packet} (hd : direct = true)
    (hfit : s.Fit (.frames k pkts)) (hrun : s.run c (.frames k pkts) = some (s', ops, new)) :
    new = [] ∧ Keeps direct s (.frames k pkts) s' ops := by
  subst hd
  cases pkts with
  | nil =>
    obtain ⟨rfl, rfl, rfl⟩ := run_inj hrun
    exact ⟨rfl, .quiet hs ⟨rfl, rfl, rfl⟩ rfl (.refl _ s) (flush_if _)⟩
  | cons p pkts =>
    have hgone : s.gone k = false := hfit
    simp only [run, hgone, Bool.false_eq_true, if_false, Option.some.injEq, Prod.mk.injEq] at hrun
    obtain ⟨rfl, rfl, rfl⟩ := hrun
    refine ⟨rfl, { hs with },
      List.forall_mem_singleton.mpr rfl, .write [p] pkts ?_ rfl rfl rfl rfl rfl ⟨rfl, rfl, rfl, rfl, rfl⟩
      ⟨List.forall_mem_singleton.mpr ⟨rfl, rfl⟩, ?_⟩⟩
    · simp
    · simp [Op.carried]

theorem Fixed.modifyWebsocket {k : ℕ} {f : Websocket → Websocket}
    (hf : ∀ w, (f w).handler = w.handler) : Fixed direct (s.modifyWebsocket k f) :=
  { hs with handler := fun j => by rw [handler_modifyWebsocket hf]; exact hs.handler j }

theorem close_keeps (hrun : s.run c (.close (State.first direct)) = some (s', ops, new)) :
    new = [] ∧ Keeps direct s (.close (State.first direct)) s' ops := by
  cases direct with
  | false =>
    obtain ⟨⟨s₁, ops₁⟩, hclose, heq⟩ := Option.map_eq_some_iff.mp hrun
    cases heq
    obtain ⟨st, os, hst, rfl, rfl⟩ := onPolling_eq_some hclose
    have hfixed (st : Polling.State) (hbuf : st.p.sendBuffer = s.polling.p.sendBuffer) (asked : List Tport) :
        Fixed false { s with asked, polling := st } :=
      { hs with sendBuffer := by rw [hbuf]; exact hs.sendBuffer }
    simp only [Polling.State.run] at hst
    refine ⟨rfl, ?_⟩
    split_ifs at hst <;> obtain ⟨rfl, rfl⟩ := Prod.mk.inj (Option.some.inj hst)
    · exact .quiet (hfixed _ rfl _) ⟨rfl, rfl, rfl⟩ rfl ⟨rfl, rfl, rfl, rfl, rfl, id⟩ (by simp)
    · refine .quiet (hfixed _ rfl _) ⟨rfl, rfl, rfl⟩ rfl ⟨rfl, rfl, rfl, rfl, rfl, id⟩ ?_
      exact List.forall_mem_singleton.mpr ⟨⟨rfl, trivial⟩, rfl, rfl, rfl⟩
    · refine .quiet (hfixed _ rfl _) ⟨rfl, rfl, rfl⟩ rfl ⟨rfl, rfl, rfl, rfl, rfl, id⟩ ?_
      exact List.forall_mem_cons.mpr ⟨⟨⟨rfl, rfl⟩, rfl, rfl, rfl⟩,
        List.forall_mem_singleton.mpr ⟨⟨rfl, trivial⟩, rfl, rfl, rfl⟩⟩
    · exact .quiet (hfixed { s.polling with p := s.polling.p.deferClose } rfl _) ⟨rfl, rfl, rfl⟩ rfl
        ⟨rfl, rfl, rfl, rfl, rfl, id⟩ (by simp)
  | true =>
    simp only [State.first, if_true, run] at hrun
    have hfixed : Fixed true { s with asked := s.asked ++ [.websocket 0] } := { hs with }
    split_ifs at hrun <;> obtain ⟨rfl, rfl, rfl⟩ := run_inj hrun
    · exact ⟨rfl, .quiet hfixed ⟨rfl, rfl, rfl⟩ rfl ⟨rfl, rfl, rfl, rfl, rfl, id⟩ (by simp)⟩
    · refine ⟨rfl, .quiet (hfixed.modifyWebsocket fun _ => rfl) ⟨rfl, rfl, rfl⟩ rfl
        ⟨rfl, rfl, rfl, rfl, rfl, id⟩ ?_⟩
      exact List.forall_mem_singleton.mpr ⟨trivial, rfl, rfl, rfl⟩

theorem run_keeps (hlocal : op.Local direct) (hfit : s.Fit op)
    (hc : c = .next ∨ c = .fail) (hrun : s.run c op = some (s', ops, new)) :
    new = [] ∧ Keeps direct s op s' ops := by
  have hfixed : s.transport = some (State.first direct) := hs.transport
  cases op with
  | sendPacket p =>
    simp only [run] at hrun
    split_ifs at hrun with hclosing <;> obtain ⟨rfl, rfl, rfl⟩ := run_inj hrun
    · exact ⟨rfl, .idle hs ⟨rfl, rfl, rfl⟩ rfl⟩
    · refine ⟨rfl, { hs with writeBuffer := ?_ }, ?_, ?_⟩
      · rw [payload_append, hs.writeBuffer, show payload [p] = [p] from hlocal]
      · exact List.forall_mem_singleton.mpr hfixed
      · have hm : Moves direct s (.sendPacket p) _ _ := .append p (not_or.mp hclosing)
        rw [← hfixed] at hm
        exact hm
  | appended t =>
    obtain rfl : t = some (State.first direct) := hlocal
    obtain ⟨rfl, rfl, rfl⟩ := run_inj hrun
    exact ⟨rfl, hs, fun op hop => (flush_if _ op hop).1, .check⟩
  | flush =>
    simp only [run] at hrun
    split at hrun
    · rename_i hnone
      cases hfixed.symm.trans hnone
    rename_i t ht
    obtain rfl : State.first direct = t := Option.some.inj (hfixed.symm.trans ht)
    split_ifs at hrun with hskip <;> obtain ⟨rfl, rfl, rfl⟩ := run_inj hrun
    · exact ⟨rfl, hs, by simp, .skip (by simpa [hs.upgrading] using hskip)⟩
    · simp only [not_or, Bool.not_eq_true, Bool.not_eq_false] at hskip
      obtain ⟨-, hsending, -, hne, hwritable⟩ := hskip
      refine ⟨rfl, { hs with writeBuffer := rfl }, ?_, .take hsending hne hwritable⟩
      simp [Op.Local, hne, hs.writeBuffer]
  | send t buf =>
    obtain rfl : t = State.first direct := hlocal.1
    exact send_keeps hs hlocal hfit hrun
  | sent =>
    obtain ⟨rfl, rfl, rfl⟩ := run_inj hrun
    refine ⟨rfl, { hs with }, fun op hop => (flush_if _ op hop).1, .finish ?_ ?_⟩
    · split_ifs
      · exact .inr rfl
      · exact .inl rfl
    · intro hopen hne hwritable
      rw [hfixed, if_pos]
      exact ⟨hopen, hne, hwritable⟩
  | frames k pkts => exact frames_keeps hs hlocal hfit hrun
  | polling o =>
    obtain ⟨hd, ho⟩ := hlocal
    obtain ⟨hpolling, hnew⟩ := (run_polling hrun).resolve_left (by rcases hc with rfl | rfl <;> simp)
    refine ⟨hnew, ?_⟩
    by_cases hwrite : ∃ r, o = .write r
    · obtain ⟨r, rfl⟩ := hwrite
      exact write_keeps hs hd hpolling
    · exact onPolling_keeps hs hd ho (fun r hr => hwrite ⟨r, hr⟩) hpolling
  | close t =>
    obtain rfl : t = State.first direct := hlocal
    exact close_keeps hs hrun
  | connClose k =>
    obtain ⟨rfl, rfl, rfl⟩ := run_inj hrun
    exact ⟨rfl, .quiet (hs.modifyWebsocket fun _ => rfl) ⟨rfl, rfl, rfl⟩ rfl
      ⟨rfl, rfl, rfl, rfl, rfl, id⟩ (by simp)⟩
  | discard t =>
    cases t with
    | polling =>
      obtain ⟨rfl, rfl, rfl⟩ := run_inj hrun
      exact ⟨rfl, .quiet { hs with } ⟨rfl, rfl, rfl⟩ rfl ⟨rfl, rfl, rfl, rfl, rfl, id⟩ (by simp)⟩
    | websocket k =>
      obtain ⟨rfl, rfl, rfl⟩ := run_inj hrun
      exact ⟨rfl, .idle hs ⟨rfl, rfl, rfl⟩ rfl⟩
  | read k =>
    simp only [run] at hrun
    rcases hc with rfl | rfl
    · cases hrun
    · simp only at hrun
      split_ifs at hrun
      obtain ⟨rfl, rfl, rfl⟩ := run_inj hrun
      refine ⟨rfl, .quiet hs ⟨rfl, rfl, rfl⟩ rfl (.refl _ s) ?_⟩
      exact List.forall_mem_singleton.mpr ⟨rfl, rfl, rfl, rfl⟩
  | notify k n =>
    obtain rfl : n = .close := hlocal
    simp only [run] at hrun
    split at hrun
    · obtain ⟨rfl, rfl, rfl⟩ := run_inj hrun
      exact ⟨rfl, .idle hs ⟨rfl, rfl, rfl⟩ rfl⟩
    · rename_i hk
      exact absurd hk (hs.handler k)
    · obtain ⟨rfl, rfl, rfl⟩ := run_inj hrun
      refine ⟨rfl, .quiet hs ⟨rfl, rfl, rfl⟩ rfl (.refl _ s) ?_⟩
      exact List.forall_mem_singleton.mpr ⟨trivial, rfl, rfl, rfl⟩
  | onCloseFrom t =>
    obtain ⟨rfl, rfl, rfl⟩ := run_inj hrun
    refine ⟨rfl, .quiet hs ⟨rfl, rfl, rfl⟩ rfl (.refl _ s) ?_⟩
    refine List.forall_mem_append.mpr ⟨?_, List.forall_mem_singleton.mpr ⟨trivial, rfl, rfl, rfl⟩⟩
    split_ifs
    · exact List.forall_mem_singleton.mpr ⟨trivial, rfl, rfl, rfl⟩
    · simp
  | delivered t | closeReturned | unregister | onClose reason =>
    obtain ⟨rfl, rfl, rfl⟩ := run_inj hrun
    exact ⟨rfl, .quiet { hs with } ⟨rfl, rfl, rfl⟩ rfl ⟨rfl, rfl, rfl, rfl, rfl, id⟩ (by simp)⟩
  | closeSocket =>
    simp only [run] at hrun
    split_ifs at hrun <;> obtain ⟨rfl, rfl, rfl⟩ := run_inj hrun
    · exact ⟨rfl, .idle hs ⟨rfl, rfl, rfl⟩ rfl⟩
    · refine ⟨rfl, .quiet { hs with } ⟨rfl, rfl, rfl⟩ rfl ⟨rfl, rfl, rfl, rfl, rfl, id⟩ ?_⟩
      simp [Op.Local, Op.neutral_iff, Op.held, Op.carried, Op.sendings]
  | closeTransport =>
    obtain ⟨rfl, rfl, rfl⟩ := run_inj hrun
    refine ⟨rfl, .quiet hs ⟨rfl, rfl, rfl⟩ rfl (.refl _ s) ?_⟩
    rw [hfixed]
    exact List.forall_mem_singleton.mpr ⟨rfl, rfl, rfl, rfl⟩
  | closeWithReason reason =>
    simp only [run] at hrun
    split_ifs at hrun <;> obtain ⟨rfl, rfl, rfl⟩ := run_inj hrun
    · exact ⟨rfl, .idle hs ⟨rfl, rfl, rfl⟩ rfl⟩
    · refine ⟨rfl, .quiet { hs with } ⟨rfl, rfl, rfl⟩ rfl ⟨rfl, rfl, rfl, rfl, rfl, id⟩ ?_⟩
      simp [hfixed, Op.Local, Op.neutral_iff, Op.held, Op.carried, Op.sendings]
  | pingHandler =>
    simp only [run] at hrun
    split_ifs at hrun <;> obtain ⟨rfl, rfl, rfl⟩ := run_inj hrun
    · exact ⟨rfl, .idle hs ⟨rfl, rfl, rfl⟩ rfl⟩
    · refine ⟨rfl, .quiet hs ⟨rfl, rfl, rfl⟩ rfl (.refl _ s) ?_⟩
      exact List.forall_mem_singleton.mpr ⟨rfl, rfl, rfl, rfl⟩
  | _ => exact hlocal.elim

end

end Run

end Session

end Gosocketio.Engine

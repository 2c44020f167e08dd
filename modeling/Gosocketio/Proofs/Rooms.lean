import Gosocketio.Proofs.Rejection
import Gosocketio.Proofs.Rollback
import Gosocketio.Spec.Rooms

/-! Who is left in the rooms. `disconnectSocket` and `rejectConnect` take a socket out of
every room, but `JoinRoom` asks nobody whether the socket is still there. -/

namespace Gosocketio.Server

open Runs

section Sections

variable {S : Server} {J : Json} {c : ConnId} {id x : SocketId} {name n room r : Bytes}

def Section.Moves : Section → Prop
  | .join .. | .leave .. | .joinRoom .. | .leaveRoom .. => True
  | _ => False

theorem adapter_perhaps_of_not_moves {l : Section} (h : ¬ l.Moves) :
    (S.perhaps J (some l)).adapter n = S.adapter n := by
  cases l with
  | join | leave | joinRoom | leaveRoom => exact absurd trivial h
  | register name id => exact adapter_register ..
  | unregister name id => exact adapter_unregister ..
  | _ => rfl

theorem members_addToRoom_of_known (hknown : S.known name = true) :
    (if n = name ∧ S.known n then (S.adapter n).addToRoom room id else S.adapter n).members r =
      if n = name ∧ r = room then insert id ((S.adapter n).members r) else (S.adapter n).members r := by
  by_cases hn : n = name
  · subst hn
    rw [if_pos ⟨rfl, hknown⟩, Adapter.members_addToRoom]
    simp only [true_and]
    split_ifs with hr
    · rw [hr]
    · rfl
  · simp [hn]

theorem members_join (hknown : S.known name = true) : ((S.join name id).adapter n).members r =
    if n = name ∧ r = id then insert id ((S.adapter n).members r) else (S.adapter n).members r := by
  rw [← members_addToRoom_of_known hknown, adapter_join]
  split_ifs <;> rfl

theorem members_leave : ((S.leave name id).adapter n).members r =
    if n = name then ((S.adapter n).members r).erase id else (S.adapter n).members r := by
  rw [adapter_leave]
  split_ifs
  · exact Adapter.members_removeSocket ..
  · rfl

theorem members_joinRoom {o : ConnId × Bytes} (ho : S.origin id = some o) (hknown : S.known o.2 = true) :
    ((S.joinRoom id room).adapter n).members r =
      if n = o.2 ∧ r = room then insert id ((S.adapter n).members r) else (S.adapter n).members r := by
  rw [← members_addToRoom_of_known hknown]
  obtain ⟨s, hs, rfl⟩ := Option.map_eq_some_iff.mp ho
  rw [joinRoom, hs]
  exact congrArg (fun a => a.members r) (adapter_modifyAdapter S s.nsp n fun a => a.addToRoom room id)

theorem members_leaveRoom_subset :
    ((S.leaveRoom id room).adapter n).members r ⊆ (S.adapter n).members r := by
  unfold leaveRoom
  cases S.heap id with
  | none => exact Finset.Subset.refl _
  | some s =>
    change ((S.modifyNsp s.nsp fun n => { n with
      adapter := n.adapter.removeFromRoom room id }).adapter n).members r ⊆ _
    rw [adapter_modifyAdapter S s.nsp n fun a => a.removeFromRoom room id]
    split_ifs
    · rw [Adapter.members_removeFromRoom]
      split_ifs with hr
      · rw [hr]
        exact Finset.erase_subset ..
      · exact Finset.Subset.refl _
    · exact Finset.Subset.refl _

/-- Every socket has a namespace, and every room has a member. -/
structure Housed (S : Server) : Prop where
  known : ∀ x c n, S.origin x = some (c, n) → S.known n = true
  rooms : ∀ n, (S.adapter n).NoEmptyRoom

theorem Housed.run {l : Section} (h : Housed S)
    (hnew : ∀ x n d, l = .newSocket x n d → S.known n = true) : Housed (S.run J l) where
  known x c n ho := by
    rw [known_run]
    rcases origin_of_run ho with ho | ⟨name, d, rfl, he⟩
    · exact h.known x c n ho
    · obtain ⟨rfl, rfl⟩ := Prod.mk.inj he
      exact hnew x n c rfl
  rooms n := noEmptyRoom_run (h.rooms n)

theorem Housed.perhaps {l : Option Section} (h : Housed S)
    (hnew : ∀ x n d, l = some (.newSocket x n d) → S.known n = true) : Housed (S.perhaps J l) := by
  cases l with
  | none => exact h
  | some l => exact h.run fun x n d he => hnew x n d (by rw [he])

theorem known_of_start {pkt : Packet} {k : Refusal} {msg : Bytes}
    (h : (S.start c pkt id).2 = .refuse k x n msg) : S.known n = true := by
  unfold start at h
  cases htype : pkt.type with
  | connect =>
    simp only [htype] at h
    cases hns : S.namespaceLookup pkt.nsp with
    | none =>
      rw [hns] at h
      cases h
    | some ns =>
      simp only [hns] at h
      split at h
      · injection h with _ _ hn
        rw [← hn, known]
        exact congrArg Option.isSome hns
      · cases h
  | disconnect =>
    simp only [htype] at h
    cases hx : (S.conns c).sockets.lookup pkt.nsp with
    | none | some =>
      rw [hx] at h
      cases h
  | event | ack =>
    simp only [htype] at h
    split at h <;> cases h
  | connectError | binaryEvent | binaryAck =>
    simp only [htype] at h
    cases h

end Sections

namespace World

variable {J : Json} {W W' : World} {lab : Label} {c : ConnId} {job job' : Job} {l : Option Section}

theorem Resumes.resumed (h : W.Resumes c job lab) : W.resumed lab = job := by
  cases lab with
  | process d fresh =>
    obtain ⟨rfl, h⟩ := h
    exact h
  | task i order =>
    obtain ⟨rest, reason, h⟩ := h
    simp only [World.resumed, h]
  | _ => exact h.elim

theorem step_resumed (h : Shape W) (hfresh : W.Fresh lab) (hs : W.step J lab = some W') :
    W.resumed lab = .idle ∧ Quiet W W' lab ∨ ∃ c l job', Turn J W W' lab c (W.resumed lab) l job' := by
  rcases step_cases h hfresh hs with hq | ⟨c, job, l, job', ht⟩
  · by_cases hidle : W.resumed lab = .idle
    · exact .inl ⟨hidle, hq⟩
    · refine .inr ?_
      cases lab with
      | process c fresh =>
        rw [← Option.some.inj hs]
        exact ⟨c, _, _, turn_process fun _ => hfresh⟩
      | task i order =>
        simp only [step, Option.bind_eq_some_iff] at hs
        obtain ⟨t, hi, hs⟩ := hs
        simp only [World.resumed, hi] at hidle ⊢
        cases t with
        | loop c job rest reason =>
          obtain ⟨-, htears, -⟩ := h.loops c job rest reason (List.mem_of_getElem? hi)
          cases job with
          | idle => exact absurd rfl hidle
          | tear k x r =>
            rw [← Option.some.inj hs]
            exact ⟨c, _, _, turn_loop hi trivial⟩
          | process | enter | refuse => exact htears.elim
        | data | close | empty | done => exact absurd rfl hidle
      | _ => exact absurd rfl hidle
  · rw [ht.resumes.resumed]
    exact .inr ⟨c, l, job', ht⟩

theorem Turn.known_newSocket {x : SocketId} {n : Bytes} {d : ConnId} (hs : W.step J lab = some W')
    (h : Shape W) (ht : Turn J W W' lab c job (some (.newSocket x n d)) job') :
    W.server.known n = true := by
  obtain ⟨fresh, hnext, -⟩ := ht.next
  have hresumes := ht.resumes
  have hcases := ht.proc_cases c
  cases hnext with
  | create hknown => exact hknown
  | bar msg =>
    rcases hcases with ⟨-, hproc, hproc'⟩ | ⟨-, htears⟩
    · cases lab with
      | process e f =>
        obtain ⟨rfl, -⟩ := hresumes
        rw [← Option.some.inj hs] at hproc'
        simp only [Function.update_self, hproc] at hproc'
        exact known_of_start hproc'
      | task i order =>
        obtain ⟨rest, reason, hi⟩ := hresumes
        exact (h.loops _ _ _ _ (List.mem_of_getElem? hi)).2.1.elim
      | _ => exact hresumes.elim
    · exact (htears rfl).elim

theorem housed_step (h : Housed W.server) (hshape : Shape W) (hfresh : W.Fresh lab)
    (hs : W.step J lab = some W') : Housed W'.server := by
  rcases step_cases hshape hfresh hs with hq | ⟨c, job, l, job', ht⟩
  · refine ⟨fun x c n ho => ?_, fun n => ?_⟩
    · rw [hq.origin] at ho
      rw [hq.known]
      exact h.known x c n ho
    · rw [hq.adapter]
      exact h.rooms n
  · rw [ht.server]
    refine h.perhaps fun x n d he => ?_
    subst he
    exact ht.known_newSocket hs hshape

theorem Turn.rooms (ht : Turn J W W' lab c job l job') (h : Shape W) :
    (∃ id n, job.joins = {id} ∧ job.removes = ∅ ∧ W.server.origin id = some (c, n) ∧
      W.server.known n = true ∧ W'.server = W.server.join n id) ∨
    (∃ id n, job.joins = ∅ ∧ job.removes = {id} ∧ W.server.origin id = some (c, n) ∧
      W'.server = W.server.leave n id) ∨
    (job.joins = ∅ ∧ job.removes = ∅ ∧ ∀ n, W'.server.adapter n = W.server.adapter n) := by
  obtain ⟨fresh, hnext, -⟩ := ht.next
  have hof := ht.jobOf h
  have hserver := ht.server
  have howns {id : SocketId} {s : Socket} (hs : W.server.heap id = some s) (hid : W.server.Owns c id) :
      W.server.origin id = some (c, s.nsp) := by
    obtain ⟨n, hn⟩ := hid
    obtain ⟨s', hs', hc, hn'⟩ := origin_eq_some.mp hn
    obtain rfl := Option.some.inj (hs'.symm.trans hs)
    rw [hn, hn']
  cases hnext with
  | @join id nsp =>
    rw [namespaceName_of_ne hof.2.1] at hserver
    exact .inl ⟨id, nsp, rfl, rfl, hof.1, hof.2.2, hserver⟩
  | @withdraw id name msg => exact .inr (.inl ⟨id, name, rfl, rfl, hof, hserver⟩)
  | @leave id reason s hs => exact .inr (.inl ⟨id, s.nsp, rfl, rfl, howns hs hof, hserver⟩)
  | missing hs =>
    obtain ⟨n, hn⟩ := hof
    rw [origin_eq_none.mpr hs] at hn
    cases hn
  | answer | handle | create | bar | register | attach | mark | reply | unregister | unhook | demote
  | error | take | unmark | clearAcks | notify | handlers | detach =>
    refine .inr (.inr ⟨rfl, rfl, fun n => ?_⟩)
    rw [hserver]
    apply adapter_perhaps_of_not_moves
    intro hmoves
    exact hmoves
  | _ =>
    exact .inr (.inr ⟨rfl, rfl, fun n => by rw [hserver]; rfl⟩)

end World

namespace Traffic

variable {J : Json} {T T' : Traffic} {a : Act}

/-- The section, if any, of an act of the application. -/
inductive Calls : Act → Option Section → Prop
  | joinRoom (id : SocketId) (room : Bytes) : Calls (.joinRoom id room) (some (.joinRoom id room))
  | leaveRoom (id : SocketId) (room : Bytes) : Calls (.leaveRoom id room) (some (.leaveRoom id room))
  | broadcast (b : BroadcastOperator) (event : Bytes) (args : List Value) : Calls (.broadcast b event args) none
  | cast (i : ℕ) (order : List SocketId) : Calls (.cast i order) none
  | send (i : ℕ) (order : List SocketId) (c : ConnId) (pkt : Packet) :
      Calls (.cast i order) (some (.send c pkt))

theorem Calls.sectionOk {S : Server} {l : Section} (h : Calls a (some l)) : S.SectionOk l := by
  cases h <;> trivial

theorem step_cases (hs : T.step J a = some T') :
    (∃ l, a = .world l ∧ T.world.step J l = some T'.world) ∨
      ∃ l, Calls a l ∧ T'.world = { T.world with server := T.world.server.perhaps J l } := by
  cases a with
  | world l =>
    obtain ⟨W', hW', rfl⟩ := Option.map_eq_some_iff.mp hs
    exact .inl ⟨l, rfl, hW'⟩
  | joinRoom id room =>
    rw [← Option.some.inj hs]
    exact .inr ⟨_, .joinRoom id room, rfl⟩
  | leaveRoom id room =>
    rw [← Option.some.inj hs]
    exact .inr ⟨_, .leaveRoom id room, rfl⟩
  | broadcast b event args =>
    rw [← Option.some.inj hs]
    exact .inr ⟨_, .broadcast b event args, rfl⟩
  | cast i order =>
    obtain ⟨⟨pkt, rest⟩, -, rfl⟩ := Option.map_eq_some_iff.mp hs
    refine .inr ?_
    cases pkt with
    | none => exact ⟨_, .cast i order, rfl⟩
    | some p =>
      obtain ⟨x, pkt⟩ := p
      simp only [Option.elim_some, emitEvent]
      cases T.world.server.heap x with
      | none => exact ⟨_, .cast i order, rfl⟩
      | some s => exact ⟨_, .send i order s.ec pkt, rfl⟩

end Traffic

namespace Lobby

variable {J : Json} {L L' : Lobby} {a : Act}

/-- No socket that was taken out of an adapter is in a room, and a room that is kept has
someone in it who was not. -/
structure Vacated (L : Lobby) : Prop where
  members : ∀ x ∈ L.removed, ∀ n room, x ∉ (L.server.adapter n).members room
  reclaimed : ∀ n room m, (L.server.adapter n).rooms room = some m → ∃ x ∈ m, x ∉ L.removed

/-- Nobody joins a room who has been taken out of the adapter. -/
def Timely (L : Lobby) (a : Act) : Prop := ∀ x ∈ joining L.traffic.world a, x ∉ L.removed

/-- Everything a step can do to the rooms. -/
inductive Stirs (L L' : Lobby) (a : Act) : Prop
  | joins (id : SocketId) (c : ConnId) (n room : Bytes) (ho : L.server.origin id = some (c, n))
      (hjoining : joining L.traffic.world a = {id})
      (hmembers : ∀ m r, (L'.server.adapter m).members r =
        if m = n ∧ r = room then insert id ((L.server.adapter m).members r)
        else (L.server.adapter m).members r)
      (hremoved : L'.removed = L.removed)
  | removes (id : SocketId) (c : ConnId) (n : Bytes) (ho : L.server.origin id = some (c, n))
      (hjoining : joining L.traffic.world a = ∅)
      (hmembers : ∀ m r, (L'.server.adapter m).members r =
        if m = n then ((L.server.adapter m).members r).erase id else (L.server.adapter m).members r)
      (hremoved : L'.removed = L.removed ∪ {id})
  | leaves (hjoining : ∀ x ∈ joining L.traffic.world a, L.server.origin x = none)
      (hmembers : ∀ m r, (L'.server.adapter m).members r ⊆ (L.server.adapter m).members r)
      (hremoved : L'.removed = L.removed)

/-- What holds whoever joins when: members of a room were created for its namespace. -/
structure Sound (L : Lobby) : Prop where
  shape : World.Shape L.traffic.world
  housed : Housed L.server
  own : ∀ n x room, x ∈ (L.server.adapter n).members room → ∃ c, L.server.origin x = some (c, n)
  created : ∀ x ∈ L.removed, L.server.origin x ≠ none

theorem Sound.stirs_world {lab : Label} (h : Sound L) (hfresh : L.traffic.world.Fresh lab)
    (hs : L.step J (.world lab) = some L') : Stirs L L' (.world lab) := by
  obtain ⟨T', hT', rfl⟩ := Option.map_eq_some_iff.mp hs
  obtain ⟨W', hW', rfl⟩ := Option.map_eq_some_iff.mp hT'
  rcases World.step_resumed h.shape hfresh hW' with ⟨hidle, hq⟩ | ⟨c, l, job', ht⟩
  · refine .leaves ?_ (fun m r => ?_) ?_
    · simp [joining, hidle, Job.joins]
    · simp only [Lobby.server, hq.adapter]
      exact Finset.Subset.refl _
    · simp [removal, hidle, Job.removes]
  · rcases ht.rooms h.shape with ⟨id, n, hj, hr, ho, hknown, hserver⟩ | ⟨id, n, hj, hr, ho, hserver⟩ |
      ⟨hj, hr, hadapter⟩
    · refine .joins id c n id ho hj (fun m r => ?_) ?_
      · simp only [Lobby.server, hserver]
        exact members_join hknown
      · simp [removal, hr]
    · refine .removes id c n ho hj (fun m r => ?_) ?_
      · simp only [Lobby.server, hserver]
        exact members_leave
      · simp [removal, hr]
    · refine .leaves ?_ (fun m r => ?_) ?_
      · simp [joining, hj]
      · simp only [Lobby.server, hadapter]
        exact Finset.Subset.refl _
      · simp [removal, hr]

theorem Sound.stirs (h : Sound L) (hfresh : L.Fresh a) (hs : L.step J a = some L') : Stirs L L' a := by
  have hs₀ := hs
  obtain ⟨T', hT', rfl⟩ := Option.map_eq_some_iff.mp hs
  rcases Traffic.step_cases hT' with ⟨lab, rfl, -⟩ | ⟨l, hcall, hworld⟩
  · exact h.stirs_world hfresh hs₀
  · cases hcall with
    | joinRoom id room =>
      cases ho : L.server.origin id with
      | none =>
        refine .leaves (by simpa [joining] using ho) (fun m r => ?_) (by simp [removal])
        have hheap : L.traffic.world.server.heap id = none := origin_eq_none.mp ho
        simp only [Lobby.server, hworld, perhaps, Option.elim_some, Server.run, Server.joinRoom, hheap]
        exact Finset.Subset.refl _
      | some o =>
        refine .joins id o.1 o.2 room ho rfl (fun m r => ?_) (by simp [removal])
        simp only [Lobby.server, hworld]
        exact members_joinRoom ho (h.housed.known id o.1 o.2 ho)
    | leaveRoom id room =>
      refine .leaves (by simp [joining]) (fun m r => ?_) (by simp [removal])
      simp only [Lobby.server, hworld]
      exact members_leaveRoom_subset
    | broadcast | cast | send =>
      refine .leaves (by simp [joining]) (fun m r => ?_) (by simp [removal])
      simp only [Lobby.server, hworld]
      exact Finset.Subset.refl _

theorem Sound.advance (h : Sound L) (hfresh : L.Fresh a) (hs : L.step J a = some L') :
    World.Shape L'.traffic.world ∧ Housed L'.server ∧
      ∀ x o, L.server.origin x = some o → L'.server.origin x = some o := by
  obtain ⟨T', hT', rfl⟩ := Option.map_eq_some_iff.mp hs
  rcases Traffic.step_cases hT' with ⟨lab, rfl, hW'⟩ | ⟨l, hcall, hworld⟩
  · refine ⟨h.shape.step hfresh hW', World.housed_step h.housed h.shape hfresh hW', fun x o ho => ?_⟩
    rcases World.step_cases h.shape hfresh hW' with hq | ⟨c, job, l, job', ht⟩
    · exact (congrFun hq.origin x).trans ho
    · exact ht.origin h.shape ho
  · simp only [Lobby.server, hworld]
    cases l with
    | none => exact ⟨h.shape, h.housed, fun x o ho => ho⟩
    | some l =>
      refine ⟨h.shape.run hcall.sectionOk, h.housed.run fun x n d he => ?_,
        fun x o ho => origin_run hcall.sectionOk ho⟩
      subst he
      cases hcall

theorem Sound.step (h : Sound L) (hfresh : L.Fresh a) (hs : L.step J a = some L') : Sound L' := by
  obtain ⟨hshape, hhoused, horigin⟩ := h.advance hfresh hs
  have hown {m x : Bytes} {r : Bytes} (hx : x ∈ (L.server.adapter m).members r) :
      ∃ c, L'.server.origin x = some (c, m) := (h.own m x r hx).imp fun c => horigin x (c, m)
  have hcreated {x : SocketId} (hx : L.server.origin x ≠ none) : L'.server.origin x ≠ none := by
    obtain ⟨o, ho⟩ := Option.ne_none_iff_exists'.mp hx
    rw [horigin x o ho]
    exact Option.some_ne_none o
  cases h.stirs hfresh hs with
  | joins id c n room ho hjoining hmembers hremoved =>
    refine ⟨hshape, hhoused, fun m x r hx => ?_, fun x hx => hcreated (h.created x (hremoved ▸ hx))⟩
    rw [hmembers] at hx
    split_ifs at hx with hm
    · rcases Finset.mem_insert.mp hx with rfl | hx
      · obtain ⟨rfl, -⟩ := hm
        exact ⟨c, horigin x _ ho⟩
      · exact hown hx
    · exact hown hx
  | removes id c n ho hjoining hmembers hremoved =>
    refine ⟨hshape, hhoused, fun m x r hx => ?_, fun x hx => hcreated ?_⟩
    · rw [hmembers] at hx
      split_ifs at hx
      · exact hown (Finset.mem_of_mem_erase hx)
      · exact hown hx
    · rw [hremoved] at hx
      rcases Finset.mem_union.mp hx with hx | hx
      · exact h.created x hx
      · rw [Finset.mem_singleton.mp hx, ho]
        exact Option.some_ne_none _
  | leaves hjoining hmembers hremoved =>
    exact ⟨hshape, hhoused, fun m x r hx => hown (hmembers m r hx),
      fun x hx => hcreated (h.created x (hremoved ▸ hx))⟩

theorem Sound.vacated (h : Sound L)
    (hmembers : ∀ x ∈ L.removed, ∀ n room, x ∉ (L.server.adapter n).members room) : L.Vacated := by
  refine ⟨hmembers, fun n room m hroom => ?_⟩
  obtain ⟨x, hx⟩ := h.housed.rooms n room m hroom
  refine ⟨x, hx, fun hremoved => hmembers x hremoved n room ?_⟩
  rw [Adapter.members, hroom]
  exact hx

theorem Vacated.step (h : Vacated L) (hsound : Sound L) (hfresh : L.Fresh a) (htimely : L.Timely a)
    (hs : L.step J a = some L') : Vacated L' := by
  apply (hsound.step hfresh hs).vacated
  cases hsound.stirs hfresh hs with
  | joins id c n room ho hjoining hmembers hremoved =>
    have hid : id ∉ L.removed := htimely id (by rw [hjoining]; exact Finset.mem_singleton_self id)
    intro x hx m r hmem
    rw [hremoved] at hx
    rw [hmembers] at hmem
    split_ifs at hmem
    · rcases Finset.mem_insert.mp hmem with rfl | hmem
      · exact hid hx
      · exact h.members x hx m r hmem
    · exact h.members x hx m r hmem
  | removes id c n ho hjoining hmembers hremoved =>
    intro x hx m r hmem
    have hmem' : x ∈ (L.server.adapter m).members r := by
      rw [hmembers] at hmem
      split_ifs at hmem
      · exact Finset.mem_of_mem_erase hmem
      · exact hmem
    rw [hremoved] at hx
    rcases Finset.mem_union.mp hx with hx | hx
    · exact h.members x hx m r hmem'
    · obtain rfl := Finset.mem_singleton.mp hx
      -- the socket was in rooms of its own namespace only
      obtain ⟨d, hd⟩ := hsound.own m x r hmem'
      obtain ⟨-, rfl⟩ := Prod.mk.inj (Option.some.inj (ho.symm.trans hd))
      rw [hmembers, if_pos rfl] at hmem
      exact Finset.notMem_erase x _ hmem
  | leaves hjoining hmembers hremoved =>
    intro x hx m r hmem
    rw [hremoved] at hx
    exact h.members x hx m r (hmembers m r hmem)

/-- A socket that joins late stays behind in the room. -/
theorem Sound.not_vacated_of_late (h : Sound L) (hfresh : L.Fresh a) (hlate : ¬ L.Timely a)
    (hs : L.step J a = some L') : ¬ Vacated L' := by
  obtain ⟨x, hx, hremoved'⟩ : ∃ x ∈ joining L.traffic.world a, x ∈ L.removed := by
    simpa [Timely] using hlate
  intro hvacated
  cases h.stirs hfresh hs with
  | joins id c n room ho hjoining hmembers hremoved =>
    rw [hjoining] at hx
    obtain rfl := Finset.mem_singleton.mp hx
    apply hvacated.members x (hremoved ▸ hremoved') n room
    rw [hmembers, if_pos ⟨rfl, rfl⟩]
    exact Finset.mem_insert_self ..
  | removes id c n ho hjoining hmembers hremoved =>
    rw [hjoining] at hx
    exact Finset.notMem_empty x hx
  | leaves hjoining hmembers hremoved => exact h.created x hremoved' (hjoining x hx)

theorem Initial.sound (h : Initial L) : Sound L := by
  have hadapter (n : Bytes) : L.server.adapter n = {} := by
    unfold Server.adapter
    cases hn : L.server.nsps n with
    | none => rfl
    | some ns => exact h.rooms n ns hn
  refine ⟨h.world.shape, ⟨fun x c n ho => ?_, fun n => ?_⟩, fun n x room hx => ?_, fun x hx => ?_⟩
  · rw [origin_eq_none.mpr (h.world.heap x)] at ho
    cases ho
  · rw [hadapter]
    simp [Adapter.NoEmptyRoom]
  · rw [hadapter] at hx
    simp [Adapter.members] at hx
  · rw [h.removed] at hx
    exact absurd hx (Finset.notMem_empty x)

theorem Initial.vacated (h : Initial L) : Vacated L := by
  apply h.sound.vacated
  intro x hx
  rw [h.removed] at hx
  exact absurd hx (Finset.notMem_empty x)

/-- The rooms are rid of every socket that was taken out of its adapter, all through a run,
exactly if nobody joins a room who has been taken out before. -/
theorem rooms_vacated_iff_timely {L₀ : Lobby} {as : List Act} (h₀ : Initial L₀)
    (hrun : Run (step J) Fresh L₀ as L) :
    (∀ as₁ L₁, as₁ <+: as → Run (step J) Fresh L₀ as₁ L₁ → L₁.Vacated) ↔
      Run (step J) (fun L a => L.Fresh a ∧ L.Timely a) L₀ as L := by
  refine hrun.exact_iff (fun L => Sound L ∧ Vacated L) Vacated Timely ⟨h₀.sound, h₀.vacated⟩ ?_ ?_ ?_
  · intro L h
    exact h.2
  · intro L a L' h hfresh htimely hs
    exact ⟨h.1.step hfresh hs, h.2.step h.1 hfresh htimely hs⟩
  · intro L a L' h hfresh hlate hs
    exact h.1.not_vacated_of_late hfresh hlate hs

section NonVacuity

open NonVacuity World Traffic

instance (L : Lobby) (a : Act) : Decidable (L.Fresh a) := inferInstanceAs (Decidable (L.traffic.Fresh a))

instance (L : Lobby) (a : Act) : Decidable (L.Timely a) :=
  inferInstanceAs (Decidable (∀ x ∈ joining L.traffic.world a, x ∉ L.removed))

def lounge : Lobby := { traffic := gate }

theorem lounge_initial : Initial lounge where
  world := gate_initial.world
  rooms name ns h := by
    rw [gate_nsps h]
    rfl
  removed := rfl

def hear (i k : ℕ) (p : InPacket) : List Act :=
  serve ([Label.onEngineData 0 9 p, .task i [], .pop 0] ++ List.replicate k (.process 0 [9]))

/-- The first socket joins a room and is rejected. The second is accepted, joins the room on
the goroutine of a handler, and disconnects. -/
def visit : List Act :=
  Act.world (.onEngineConnect 0 0) :: knock 0 2 [1] ++ [Act.joinRoom [1] [114]] ++
    serve (List.replicate 8 (.process 0 [9])) ++ knock 1 6 [2] ++ hear 2 1 Dispatcher.eventText ++
    [Act.joinRoom [2] [114]] ++ hear 3 8 disconnectText ++ [Act.leaveRoom [2] [114]]

theorem visit_runs : (exec (step textJson) (fun L a => L.Fresh a ∧ L.Timely a) lounge visit).isSome = true := by
  decide +kernel

theorem rooms_vacated_iff_timely_visit :
    ((exec (step textJson) (fun L a => L.Fresh a ∧ L.Timely a) lounge visit).get visit_runs).Vacated := by
  have hrun := run_of_isSome visit_runs
  have hfresh := hrun.mono fun (L : Lobby) a (h : L.Fresh a ∧ L.Timely a) => h.1
  exact (rooms_vacated_iff_timely lounge_initial hfresh).mpr hrun visit _ (List.prefix_refl _) hfresh

/-- The handler that the event has started calls `JoinRoom` when its socket is disconnected. -/
def linger : List Act :=
  Act.world (.onEngineConnect 0 0) :: knock 0 10 [1] ++ knock 1 6 [2] ++ hear 2 1 Dispatcher.eventText ++
    hear 3 8 disconnectText ++ [.joinRoom [2] [114]]

theorem linger_runs : (exec (step textJson) Fresh lounge linger).isSome = true := by decide +kernel

/-- The room is never given up. -/
theorem late_join_lingers : ¬ ∀ (J : Json) (L₀ L : Lobby) (as : List Act), J.Lawful → Initial L₀ →
    Run (step J) Fresh L₀ as L → L.Vacated := by
  intro h
  have hvacated := h textJson lounge _ linger textJson_lawful lounge_initial (run_of_isSome linger_runs)
  exact hvacated.members [2] (by decide +kernel) defaultNamespace [114] (by decide +kernel)

end NonVacuity

end Lobby

end Gosocketio.Server

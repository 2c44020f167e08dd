import Gosocketio.Sanity.Client

/-! The POSTs of a client that polls. Nothing keeps a goroutine from taking a batch
while another one is on its way to the server with its own, and the server closes
the session when it gets the second POST before it is done with the first. -/

namespace Gosocketio.Client

open Runs

def Pc.busy : Pc → Bool
  | .send .. | .posted _ | .verified _ | .serving _ | .erring | .answered _ | .writing _ => true
  | .idle | .flush | .failed => false

def Pc.counted : Pc → Bool
  | .posted _ | .verified _ | .serving _ | .erring | .answered _ => true
  | _ => false

def Pc.isServing : Pc → Bool
  | .serving _ => true
  | _ => false

/-- The goroutine is on its way with a batch on the polling transport, if with any. -/
def Pc.onPolling : Pc → Bool
  | .send .websocket _ | .writing _ => false
  | _ => true

def NoUpgrade (_ : Session) (a : Act) : Prop := a ≠ .upgrade

instance (s : Session) (a : Act) : Decidable (NoUpgrade s a) := inferInstanceAs (Decidable (a ≠ _))

/-- A goroutine goes on with the batch it has taken. -/
def Carries (s : Session) : Act → Prop
  | .go i => (s.goroutines[i]?).any (fun g => g.pc.busy) = true
  | _ => False

/-- `flushSends` takes a batch only while no other goroutine is busy with one. -/
def TakesAlone (s : Session) : Act → Prop
  | .go i => (s.goroutines[i]?).any (fun g => g.pc = .flush) = true → s.writeBuffer ≠ [] →
      ∀ g ∈ s.goroutines, g.pc.busy = false
  | _ => True

instance (s : Session) : ∀ a, Decidable (TakesAlone s a)
  | .go _ => inferInstanceAs (Decidable (_ → _ → _))
  | .upgrade | .fail | .abort | .discard | .recv => isTrue trivial

def Session.tally (s : Session) (f : Pc → Bool) : ℕ :=
  (s.goroutines.map fun g => (f g.pc).toNat).sum

/-- What holds while the batches are taken one at a time. -/
structure Alone (s : Session) : Prop where
  upgrading : s.upgrading = false
  phase : s.phase = .off
  tport : s.tport = .polling
  transport : s.transport = .polling
  frames : s.frames = []
  onPolling : ∀ g ∈ s.goroutines, g.pc.onPolling = true
  one : s.tally Pc.busy ≤ 1
  count : s.sendInflight = s.tally Pc.counted
  serving : s.dataReq = true → ∃ (j : ℕ) (g : Goroutine), s.goroutines[j]? = some g ∧ g.pc.isServing = true
  errors : .dataRequestActive ∉ s.errors

section Steps

variable {limit : ℕ} {s s' : Session} {a : Act} {i : ℕ} {g g' : Goroutine} {pc pc' : Pc}

theorem tally_set (hg : s.goroutines[i]? = some g) (h : s'.goroutines = s.goroutines.set i g')
    (f : Pc → Bool) : s'.tally f + (f g.pc).toNat = s.tally f + (f g'.pc).toNat := by
  rw [Session.tally, h]
  exact Pool.sum_map_set (fun g : Goroutine => (f g.pc).toNat) hg

theorem counted_le_busy (s : Session) : s.tally Pc.counted ≤ s.tally Pc.busy := by
  apply List.sum_le_sum
  intro g _
  cases g.pc <;> simp [Pc.counted, Pc.busy]

/-- What a goroutine in the middle of a call changes while the client polls. -/
structure Moved (s s' : Session) (pc pc' : Pc) : Prop where
  upgrading : s'.upgrading = s.upgrading
  phase : s'.phase = s.phase
  tport : s'.tport = s.tport
  transport : s'.transport = s.transport
  frames : s'.frames = s.frames
  onPolling : pc'.onPolling = true
  busy : pc'.busy = true → pc.busy = true ∨ pc = .flush ∧ s.writeBuffer ≠ []
  inflight : s'.sendInflight + pc.counted.toNat = s.sendInflight + pc'.counted.toNat
  dataReq : s'.dataReq = true → pc'.isServing = true ∨ s.dataReq = true ∧ pc.isServing = false
  errors : .dataRequestActive ∈ s'.errors → .dataRequestActive ∈ s.errors ∨
    s.dataReq = true ∧ pc.busy = true ∧ pc.isServing = false

theorem advance_moved (htport : s.tport = .polling) (htransport : s.transport = .polling)
    (hpolling : pc.onPolling = true) (hcounted : pc.counted.toNat ≤ s.sendInflight)
    (h : s.advance limit pc = some (s', pc')) : Moved s s' pc pc' := by
  cases pc with
  | idle => cases h
  | flush =>
    simp only [Session.advance] at h
    split_ifs at h with hbuf <;> cases h
    · exact ⟨rfl, rfl, rfl, rfl, rfl, rfl, Bool.noConfusion, rfl, fun hd => .inr ⟨hd, rfl⟩, .inl⟩
    · rw [not_or] at hbuf
      exact ⟨rfl, rfl, rfl, rfl, rfl, by rw [htport]; rfl, fun _ => .inr ⟨rfl, hbuf.2⟩, rfl,
        fun hd => .inr ⟨hd, rfl⟩, .inl⟩
  | send t buf =>
    cases t with
    | polling =>
      cases h
      exact ⟨rfl, rfl, rfl, rfl, rfl, rfl, fun _ => .inl rfl, rfl, fun hd => .inr ⟨hd, rfl⟩, .inl⟩
    | websocket => cases hpolling
  | posted buf =>
    simp only [Session.advance, if_pos htransport] at h
    cases h
    exact ⟨rfl, rfl, rfl, rfl, rfl, rfl, fun _ => .inl rfl, rfl, fun hd => .inr ⟨hd, rfl⟩, .inl⟩
  | verified buf =>
    simp only [Session.advance] at h
    split_ifs at h with hd
    · cases h
      exact ⟨rfl, rfl, rfl, rfl, rfl, rfl, fun _ => .inl rfl, rfl, fun hd => .inr ⟨hd, rfl⟩,
        fun _ => .inr ⟨hd, rfl, rfl⟩⟩
    · unfold Session.serve at h
      simp only at h
      split_ifs at h
      · cases h
        exact ⟨rfl, rfl, rfl, rfl, rfl, rfl, fun _ => .inl rfl, rfl, Bool.noConfusion, .inl⟩
      · split at h <;> cases h
        · exact ⟨rfl, rfl, rfl, rfl, rfl, rfl, fun _ => .inl rfl, rfl, Bool.noConfusion, fun he => .inl (by simpa using he)⟩
        · exact ⟨rfl, rfl, rfl, rfl, rfl, rfl, fun _ => .inl rfl, rfl, fun _ => .inl rfl, .inl⟩
  | serving pkts =>
    cases pkts with
    | nil =>
      cases h
      exact ⟨rfl, rfl, rfl, rfl, rfl, rfl, fun _ => .inl rfl, rfl, Bool.noConfusion, .inl⟩
    | cons p pkts =>
      cases h
      exact ⟨rfl, rfl, rfl, rfl, rfl, rfl, fun _ => .inl rfl, rfl, fun _ => .inl rfl, .inl⟩
  | erring =>
    cases h
    exact ⟨rfl, rfl, rfl, rfl, rfl, rfl, fun _ => .inl rfl, rfl, fun hd => .inr ⟨hd, rfl⟩, .inl⟩
  | answered code =>
    cases h
    have hone : 1 ≤ s.sendInflight := hcounted
    refine ⟨rfl, rfl, rfl, rfl, rfl, ?_, fun _ => .inl rfl, ?_, fun hd => .inr ⟨hd, rfl⟩, .inl⟩
    · split_ifs <;> rfl
    · split_ifs <;> exact Nat.sub_add_cancel hone
  | failed =>
    cases h
    exact ⟨rfl, rfl, rfl, rfl, rfl, rfl, Bool.noConfusion, rfl, fun hd => .inr ⟨hd, rfl⟩, .inl⟩
  | writing buf => cases hpolling

theorem tally_eq_zero {f : Pc → Bool} (h : ∀ g ∈ s.goroutines, f g.pc = false) : s.tally f = 0 := by
  apply List.sum_eq_zero
  intro n hn
  obtain ⟨g, hg, rfl⟩ := List.mem_map.mp hn
  rw [h g hg]
  rfl

theorem counted_le (h : Alone s) (hg : s.goroutines[i]? = some g) :
    g.pc.counted.toNat ≤ s.sendInflight := by
  rw [h.count]
  exact List.le_sum_of_mem (List.mem_map_of_mem (f := fun g : Goroutine => g.pc.counted.toNat)
    (List.mem_of_getElem? hg))

theorem Alone.moved (h : Alone s) (hg : s.goroutines[i]? = some g) (hm : Moved s s' g.pc g'.pc)
    (hgs : s'.goroutines = s.goroutines)
    (halone : g.pc = .flush → s.writeBuffer ≠ [] → ∀ g ∈ s.goroutines, g.pc.busy = false) :
    Alone (s'.setGoroutine i g') := by
  have htally (f : Pc → Bool) : (s'.setGoroutine i g').tally f + _ = _ :=
    tally_set hg (by rw [Session.setGoroutine, hgs]) f
  -- the goroutine that `onDataRequest` serves is another one
  have hother (hd : s.dataReq = true) (hpc : g.pc.isServing = false) :
      ∃ (j : ℕ) (u : Goroutine), s.goroutines[j]? = some u ∧ u.pc.isServing = true ∧ j ≠ i := by
    obtain ⟨j, u, hu, hserv⟩ := h.serving hd
    refine ⟨j, u, hu, hserv, ?_⟩
    rintro rfl
    rw [hg, Option.some.injEq] at hu
    rw [hu, hserv] at hpc
    cases hpc
  refine ⟨hm.upgrading.trans h.upgrading, hm.phase.trans h.phase, hm.tport.trans h.tport,
    hm.transport.trans h.transport, hm.frames.trans h.frames, ?_, ?_, ?_, ?_, ?_⟩
  · refine Pool.forall_set ?_ hm.onPolling
    rw [hgs]
    exact h.onPolling
  · have hbusy := htally Pc.busy
    have hle := h.one
    cases hpc' : g'.pc.busy with
    | false =>
      rw [hpc', Bool.toNat_false] at hbusy
      omega
    | true =>
      rw [hpc', Bool.toNat_true] at hbusy
      rcases hm.busy hpc' with hpc | ⟨hpc, hbuf⟩
      · rw [hpc, Bool.toNat_true] at hbusy
        omega
      · rw [tally_eq_zero (halone hpc hbuf)] at hbusy
        omega
  · have hcount := htally Pc.counted
    have hinflight := hm.inflight
    rw [h.count] at hinflight
    change s'.sendInflight = _
    omega
  · intro hd
    have hlt : i < s'.goroutines.length := by
      rw [hgs]
      exact (List.getElem?_eq_some_iff.mp hg).1
    rcases hm.dataReq hd with hserv | ⟨hd, hpc⟩
    · exact ⟨i, g', List.getElem?_set_self hlt, hserv⟩
    · obtain ⟨j, u, hu, hserv, hj⟩ := hother hd hpc
      refine ⟨j, u, ?_, hserv⟩
      rw [Session.setGoroutine, List.getElem?_set_ne hj.symm, hgs]
      exact hu
  · intro he
    rcases hm.errors he with he | ⟨hd, hpc, hserv⟩
    · exact h.errors he
    · obtain ⟨j, u, hu, hserv, hj⟩ := hother hd hserv
      have hbusy : u.pc.busy = true := by
        cases hu' : u.pc <;> simp [hu', Pc.isServing] at hserv
        rfl
      have htwo := Pool.add_le_sum (fun g : Goroutine => g.pc.busy.toNat) hg hu hj.symm
      rw [hpc, hbusy] at htwo
      exact absurd (htwo.trans h.one) (by decide)

theorem alone_step (h : Alone s) (ha : NoUpgrade s a) (hgood : TakesAlone s a)
    (hs : s.step limit a = some s') : Alone s' := by
  obtain ⟨-, hact⟩ := Session.act_of_step hs
  cases a with
  | go i =>
    rcases Session.go_cases hact with ⟨o, todo, count, hg, rfl⟩ | ⟨g, s₁, pc, hg, hadv, rfl⟩
    · refine h.moved hg ?_ rfl nofun
      exact ⟨rfl, rfl, rfl, rfl, rfl, rfl, nofun, rfl, fun hd => .inr ⟨hd, rfl⟩, .inl⟩
    · have hm := advance_moved h.tport h.transport (h.onPolling g (List.mem_of_getElem? hg))
        (counted_le h hg) hadv
      refine h.moved hg hm (Session.advance_box hadv).1 fun hpc hbuf => hgood ?_ hbuf
      simp [hg, hpc]
  | upgrade => exact absurd rfl ha
  | fail => simp [Session.act, Session.fail, h.phase] at hact
  | abort => simp [Session.act, Session.abort, h.phase] at hact
  | discard => simp [Session.act, Session.discard, h.transport] at hact
  | recv => simp [Session.act, Session.recv, h.frames] at hact

/-- However the batches in hand are carried on, their POSTs do not overlap. -/
def NeverOverlaps (limit : ℕ) (s : Session) : Prop :=
  ∀ ls s', Run (Session.step limit) Carries s ls s' →
    s'.sendInflight ≤ 1 ∧ .dataRequestActive ∉ s'.errors

theorem carries_good (h : Carries s a) : NoUpgrade s a ∧ TakesAlone s a := by
  cases a with
  | go i =>
    refine ⟨nofun, fun hflush => ?_⟩
    obtain ⟨g, hg, hbusy⟩ := (Option.any_eq_true _ _).mp h
    obtain ⟨g', hg', hpc⟩ := (Option.any_eq_true _ _).mp hflush
    rw [hg, Option.some.injEq] at hg'
    rw [hg', of_decide_eq_true hpc] at hbusy
    cases hbusy
  | _ => exact absurd h id

theorem Alone.neverOverlaps (h : Alone s) : NeverOverlaps limit s := by
  intro ls s' hrun
  have h' : Alone s' := hrun.invariant Alone h fun t a t' ht hc hs =>
    alone_step ht (carries_good hc).1 (carries_good hc).2 hs
  refine ⟨?_, h'.errors⟩
  rw [h'.count]
  exact (counted_le_busy s').trans h'.one

variable (limit) in
theorem send_step (hopen : s.closed = false) (hg : s.goroutines[i]? = some g) {buf : List Item}
    (hpc : g.pc = .send .polling buf) : ∃ s', s.step limit (.go i) = some s' ∧ Carries s (.go i) ∧
      s'.sendInflight = s.sendInflight + 1 ∧ s'.closed = false ∧
      ∀ j ≠ i, s'.goroutines[j]? = s.goroutines[j]? := by
  obtain ⟨todo, count, pc⟩ := g
  obtain rfl : pc = .send .polling buf := hpc
  refine ⟨{ s with sent := s.sent ++ [buf], sendInflight := s.sendInflight + 1 }.setGoroutine i
    ⟨todo, count, .posted buf⟩, ?_, ?_, rfl, hopen, fun j hj => List.getElem?_set_ne (Ne.symm hj)⟩
  · simp [Session.step, hopen, Session.act, Session.go, hg, Session.advance]
  · simp [Carries, hg, Pc.busy]

/-- A second batch is taken while one is on its way: the two POSTs may overlap. -/
theorem overlaps_step (h : Alone s) (hbad : ¬ TakesAlone s a) (hs : s.step limit a = some s') :
    ¬ NeverOverlaps limit s' := by
  obtain ⟨hopen, hact⟩ := Session.act_of_step hs
  cases a with
  | go i =>
    simp only [TakesAlone, Classical.not_imp, not_forall, Bool.not_eq_false] at hbad
    obtain ⟨hflush, hbuf, u, hu, hbusy⟩ := hbad
    obtain ⟨⟨todo, count, pc⟩, hg, hpc⟩ := (Option.any_eq_true _ _).mp hflush
    obtain rfl : pc = .flush := of_decide_eq_true hpc
    obtain ⟨j, hu⟩ := List.mem_iff_getElem?.mp hu
    have hji : j ≠ i := by
      rintro rfl
      rw [hg, Option.some.injEq] at hu
      rw [← hu] at hbusy
      cases hbusy
    have hlt := (List.getElem?_eq_some_iff.mp hg).1
    simp only [Session.act, Session.go, hg, Session.advance, h.upgrading, Bool.false_eq_true, false_or,
      if_neg hbuf, h.tport, Option.map_some, Option.some.injEq] at hact
    have hgi : s'.goroutines[i]? = some ⟨todo, count, .send .polling s.writeBuffer⟩ := by
      rw [← hact]
      exact List.getElem?_set_self hlt
    have huj : s'.goroutines[j]? = some u := by
      rw [← hact]
      exact (List.getElem?_set_ne hji.symm).trans hu
    have hopen' : s'.closed = false := by rw [← hact]; exact hopen
    have hinflight : s'.sendInflight = s.sendInflight := by rw [← hact]; rfl
    intro hnever
    by_cases hsend : ∃ buf, u.pc = .send .polling buf
    · obtain ⟨buf, hpc⟩ := hsend
      obtain ⟨s₁, hs₁, hc₁, hn₁, hopen₁, hsame⟩ := send_step limit hopen' huj hpc
      obtain ⟨s₂, hs₂, hc₂, hn₂, -⟩ := send_step limit hopen₁ ((hsame i hji.symm).trans hgi) rfl
      have hle := (hnever _ s₂ (.cons hc₁ hs₁ (.cons hc₂ hs₂ .nil))).1
      omega
    · -- the POST of the other goroutine is counted already
      have hcounted : u.pc.counted = true := by
        have hpolling := h.onPolling u (List.mem_of_getElem? hu)
        cases hpc : u.pc with
        | send t buf =>
          cases t with
          | polling => exact absurd ⟨buf, hpc⟩ hsend
          | websocket => simp [hpc, Pc.onPolling] at hpolling
        | writing buf => simp [hpc, Pc.onPolling] at hpolling
        | _ => simp_all [Pc.busy, Pc.counted]
      have hone := counted_le h hu
      rw [hcounted, Bool.toNat_true] at hone
      obtain ⟨s₁, hs₁, hc₁, hn₁, -⟩ := send_step limit hopen' hgi rfl
      have hle := (hnever _ s₁ (.cons hc₁ hs₁ .nil)).1
      omega
  | _ => exact absurd trivial hbad

end Steps

theorem alone_init (calls : List (List Outgoing)) : Alone (.init .polling calls) := by
  have hidle : ∀ g ∈ (Session.init .polling calls).goroutines, g.pc = .idle := by
    intro g hg
    simp only [Session.init, List.mem_cons, List.mem_map] at hg
    rcases hg with rfl | ⟨c, -, rfl⟩ <;> rfl
  refine ⟨rfl, rfl, rfl, rfl, rfl, fun g hg => ?_, ?_, ?_, nofun, nofun⟩
  · rw [hidle g hg]
    rfl
  · rw [tally_eq_zero fun g hg => by rw [hidle g hg]; rfl]
    exact Nat.zero_le 1
  · exact (tally_eq_zero fun g hg => by rw [hidle g hg]; rfl).symm

/-- Throughout a run, and however the batches in hand are then carried on, at most
one POST is in flight and the server refuses none as an overlap, exactly if
`flushSends` never takes a batch while another one is on its way. -/
theorem posts_never_overlap_exact {limit : ℕ} {calls : List (List Outgoing)} {ls : List Act}
    {s : Session} (hrun : Run (Session.step limit) NoUpgrade (.init .polling calls) ls s) :
    (∀ ls₁ s₁, ls₁ <+: ls → Run (Session.step limit) NoUpgrade (.init .polling calls) ls₁ s₁ →
        ∀ ls₂ s₂, Run (Session.step limit) Carries s₁ ls₂ s₂ →
          s₂.sendInflight ≤ 1 ∧ .dataRequestActive ∉ s₂.errors) ↔
      Run (Session.step limit) (fun s a => NoUpgrade s a ∧ TakesAlone s a) (.init .polling calls) ls s :=
  hrun.exact_iff Alone (NeverOverlaps limit) TakesAlone (alone_init calls)
    (fun _ h => h.neverOverlaps) (fun _ _ _ h ha hgood hs => alone_step h ha hgood hs)
    fun _ _ _ h _ hbad hs => overlaps_step h hbad hs

section NonVacuity

def twoPosters : Session := .init .polling [[.message [1] false], [.message [2] false]]

def postInTurn : List Act := List.replicate 8 (Act.go 1) ++ List.replicate 8 (Act.go 2)

/-- Both POSTs leave before the server has taken up the first, and it takes up the
second while it serves the first. -/
def postTogether : List Act :=
  [.go 1, .go 1, .go 1, .go 2, .go 2, .go 2, .go 1, .go 1, .go 2, .go 2]

theorem postInTurn_runs : (exec (Session.step 100) (fun s a => NoUpgrade s a ∧ TakesAlone s a)
    twoPosters postInTurn).isSome = true := by
  decide +kernel

theorem postTogether_runs :
    (exec (Session.step 100) NoUpgrade twoPosters postTogether).isSome = true := by
  decide +kernel

theorem posts_never_overlap_exact_in_turn :
    ((exec (Session.step 100) (fun s a => NoUpgrade s a ∧ TakesAlone s a) twoPosters postInTurn).get
      postInTurn_runs).sendInflight ≤ 1 :=
  ((posts_never_overlap_exact ((run_of_isSome postInTurn_runs).mono fun _ _ h => h.1)).mpr
    (run_of_isSome postInTurn_runs) _ _ (List.prefix_refl _)
    ((run_of_isSome postInTurn_runs).mono fun _ _ h => h.1) [] _ .nil).1

/-- Two POSTs are in flight, and the server reports the second as an overlap. -/
theorem posts_overlap :
    (¬ ∀ (limit : ℕ) (calls : List (List Outgoing)) (ls : List Act) (s : Session),
      Run (Session.step limit) NoUpgrade (.init .polling calls) ls s → s.sendInflight ≤ 1) ∧
    ¬ ∀ (limit : ℕ) (calls : List (List Outgoing)) (ls : List Act) (s : Session),
      Run (Session.step limit) NoUpgrade (.init .polling calls) ls s →
        .dataRequestActive ∉ s.errors := by
  have hrun := run_of_isSome postTogether_runs
  constructor
  · intro h
    exact absurd (h 100 _ postTogether _ hrun) (by decide +kernel)
  · intro h
    exact absurd (h 100 _ postTogether _ hrun) (by decide +kernel)

end NonVacuity

end Gosocketio.Client

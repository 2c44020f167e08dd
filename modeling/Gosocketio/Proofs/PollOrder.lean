import Gosocketio.Lib.Pool
import Gosocketio.Sanity.Polling
import Mathlib.Data.List.Flatten

/-! The order in which the polling transport delivers. A poll request takes the buffered
packets out of `sendBuffer` and sends them after `OnReady`; as long as nothing else is
sent in between, what the responses carry is what was passed to `Send`, in that order. -/

namespace Gosocketio

open Transport Runs

namespace Polling

abbrev Batch := PollId × List Packet

def Event.batch : Event → Option Batch
  | .wrote n (some pkts) => some (n, pkts)
  | _ => none

def packets (bs : List Batch) : List Packet := bs.flatMap Prod.snd

@[simp] theorem packets_append (bs cs : List Batch) : packets (bs ++ cs) = packets bs ++ packets cs :=
  List.flatMap_append

@[simp] theorem packets_singleton (b : Batch) : packets [b] = b.2 := by simp [packets]

def Op.held : Op → Multiset (List Packet)
  | .resend pkts => {pkts}
  | _ => 0

def Op.unwritten : Op → Multiset Batch
  | .write r => {(r.res, r.pkts)}
  | _ => 0

def Op.calm : Op → Bool
  | .close | .notifyClose => false
  | .write r => !r.pendingClose
  | _ => true

/-- The condition on the next thing a goroutine does. A `Send` of something has its section
while no poll request holds packets that it took over and has not sent yet. A response is
written while no `Send` has yet to write that of an earlier poll. -/
def Op.Orderly (goroutines : List (List Op)) : Op → Prop
  | .send pkts => pkts = [] ∨ ∀ ops ∈ goroutines, ∀ op ∈ ops, op.held = 0
  | .write r => ∀ ops ∈ goroutines, ∀ op ∈ ops, ∀ b ∈ op.unwritten, r.res ≤ b.1
  | _ => True

namespace State

def written (s : State) : List Batch := s.log.filterMap Event.batch

/-- What was written went to one poll after the other, and is a part of what was passed to
`Send` from its start on. -/
def InOrder (s : State) : Prop :=
  packets s.written <+: s.given ∧ s.written.Pairwise fun b c => b.1 < c.1

/-- Poll requests, lost connections and calls of `Send`. -/
def Serves : Act → Prop
  | .close | .timer | .discard => False
  | _ => True

def Orderly (s : State) : Act → Prop
  | .go i => ∀ op ∈ s.goroutines[i]?.bind List.head?, op.Orderly s.goroutines
  | _ => True

/-- What was passed to `Send` is in a response, with the poll request that took it over, or
in the buffer. -/
def Stock (out buf : List Packet) (held : Multiset (List Packet)) (given : List Packet) : Prop :=
  (held = 0 ∧ out ++ buf = given) ∨ ∃ pkts, held = {pkts} ∧ buf = [] ∧ out ++ pkts = given

/-- What holds of a transport that delivers in order. -/
structure Ordered (s : State) : Prop where
  closed : s.p.closed = false
  pendingClose : s.p.pendingClose = false
  calm : ∀ ops ∈ s.goroutines, ∀ op ∈ ops, op.calm = true
  stock : Stock (packets s.taken) s.p.sendBuffer (Pool.load Op.held s.goroutines) s.given
  slot : ∀ m, s.p.res = some m → s.p.sendBuffer = [] ∧ m < s.polls ∧ ∀ b ∈ s.taken, b.1 < m
  issued : ∀ b ∈ s.taken, b.1 < s.polls
  sorted : s.taken.Pairwise fun b c => b.1 < c.1
  unwritten : ∃ bs : List Batch, s.taken = s.written ++ bs ∧
    (bs : Multiset Batch) = Pool.load Op.unwritten s.goroutines

variable {s s' s₁ : State} {a : Act} {op : Op} {ops rest : List Op} {i : ℕ} {pkts : List Packet}

theorem Ordered.inOrder (h : Ordered s) : InOrder s := by
  obtain ⟨bs, htaken, -⟩ := h.unwritten
  have hsorted := h.sorted
  have hpre : packets s.taken <+: s.given := by
    rcases h.stock with ⟨-, heq⟩ | ⟨pkts, -, -, heq⟩ <;> exact ⟨_, heq⟩
  rw [htaken] at hsorted hpre
  rw [packets_append] at hpre
  exact ⟨(List.prefix_append _ _).trans hpre, (List.pairwise_append.mp hsorted).1⟩

/-- What moves no packet. The pending poll may be lost. -/
structure Same (s s' : State) : Prop where
  closed : s'.p.closed = s.p.closed
  pendingClose : s'.p.pendingClose = s.p.pendingClose
  sendBuffer : s'.p.sendBuffer = s.p.sendBuffer
  res : s'.p.res = s.p.res ∨ s'.p.res = none
  polls : s.polls ≤ s'.polls
  taken : s'.taken = s.taken
  given : s'.given = s.given
  written : s'.written = s.written

theorem Ordered.same (hs : Ordered s) (h : Same s s')
    (hcalm : ∀ ops ∈ s'.goroutines, ∀ op ∈ ops, op.calm = true)
    (hheld : Pool.load Op.held s'.goroutines = Pool.load Op.held s.goroutines)
    (hunwritten : Pool.load Op.unwritten s'.goroutines = Pool.load Op.unwritten s.goroutines) :
    Ordered s' where
  closed := h.closed.trans hs.closed
  pendingClose := h.pendingClose.trans hs.pendingClose
  calm := hcalm
  stock := by
    rw [h.taken, h.sendBuffer, hheld, h.given]
    exact hs.stock
  slot m hm := by
    rw [h.sendBuffer, h.taken]
    rcases h.res with hres | hres
    · obtain ⟨hbuf, hlt, htaken⟩ := hs.slot m (hres ▸ hm)
      exact ⟨hbuf, hlt.trans_le h.polls, htaken⟩
    · rw [hres] at hm
      cases hm
  issued b hb := (hs.issued b (h.taken ▸ hb)).trans_le h.polls
  sorted := by
    rw [h.taken]
    exact hs.sorted
  unwritten := by
    rw [h.taken, h.written, hunwritten]
    exact hs.unwritten

section Send

variable {held : Multiset (List Packet)} {out buf given : List Packet}

/-- `Send` on a transport that is not closing: it buffers the packets, or it takes the
response of the pending poll. -/
theorem sends_open (hclosed : s.p.closed = false) (hpending : s.p.pendingClose = false)
    (pkts : List Packet) :
    (s.p.res = none ∧ s.sends pkts =
      ({ s with p := { s.p with writable := false, sendBuffer := s.p.sendBuffer ++ pkts } }, [])) ∨
    ∃ n, s.p.res = some n ∧ s.sends pkts =
      ({ s with p := { s.p with writable := false, req := none, res := none, pollDone := none }
                taken := s.taken ++ [(n, pkts)] },
        [.write { res := n, done := s.p.pollDone, pkts, pendingClose := false }]) := by
  rcases send_cases s.p pkts with ⟨hc, -⟩ | ⟨pkts', hpkts, -, ⟨hres, heq⟩ | ⟨n, hres, heq⟩⟩
  · rw [hclosed] at hc
    cases hc
  · rw [hpending, if_neg Bool.false_ne_true] at hpkts
    subst hpkts
    exact .inl ⟨hres, by simp only [sends, heq]⟩
  · rw [hpending, if_neg Bool.false_ne_true] at hpkts
    subst hpkts
    exact .inr ⟨n, hres, by simp only [sends, heq, hpending]⟩

theorem Stock.send (h : Stock out buf held given) (hpkts : pkts = [] ∨ held = 0) :
    Stock out (buf ++ pkts) held (given ++ pkts) ∧
    (buf = [] → Stock (out ++ pkts) buf held (given ++ pkts)) := by
  rcases h with ⟨rfl, rfl⟩ | ⟨b, rfl, rfl, rfl⟩
  · refine ⟨.inl ⟨rfl, by simp⟩, ?_⟩
    rintro rfl
    exact .inl ⟨rfl, by simp⟩
  · -- a batch was taken over, so nothing is sent
    obtain rfl : pkts = [] := by simpa using hpkts
    refine ⟨.inr ⟨b, rfl, rfl, by simp⟩, fun _ => .inr ⟨b, rfl, rfl, by simp⟩⟩

theorem Stock.resend (h : Stock out buf (held + {pkts}) given) :
    Stock out (buf ++ pkts) held given ∧ Stock (out ++ pkts) buf held given := by
  rcases h with ⟨hzero, -⟩ | ⟨b, hb, rfl, rfl⟩
  · exact absurd (congrArg Multiset.card hzero) (by simp)
  · have hcard := congrArg Multiset.card hb
    obtain rfl : held = 0 := by simpa using hcard
    obtain rfl : pkts = b := by simpa using hb
    exact ⟨.inl ⟨rfl, by simp⟩, .inl ⟨rfl, by simp⟩⟩

theorem Stock.takeOver
    (h : Stock out buf held given) : Stock out [] (held + if buf ≠ [] then {buf} else 0) given := by
  rcases h with ⟨rfl, rfl⟩ | ⟨b, rfl, rfl, rfl⟩
  · by_cases hbuf : buf = []
    · exact .inl ⟨by simp [hbuf], by simp [hbuf]⟩
    · exact .inr ⟨buf, by simp [hbuf], rfl, rfl⟩
  · exact .inr ⟨b, by simp, rfl, rfl⟩

theorem Ordered.sends (hs : Ordered s) {s₀ : State} (given : List Packet)
    (hs₀ : s₀ = { s with given }) (hi : s.goroutines[i]? = some (op :: rest))
    (hop : op.unwritten = 0)
    (hheld : ∀ ops, (ops.map Op.held).sum = 0 → Pool.load Op.held (s.goroutines.set i (ops ++ rest)) = held)
    (hbuffer : Stock (packets s.taken) (s.p.sendBuffer ++ pkts) held given)
    (htake : s.p.sendBuffer = [] → Stock (packets s.taken ++ pkts) s.p.sendBuffer held given)
    (hrun : s₀.sends pkts = (s₁, ops)) :
    Ordered { s₁ with goroutines := s₁.goroutines.set i (ops ++ rest) } := by
  subst hs₀
  have hrest : ∀ op ∈ rest, op.calm = true := fun o ho =>
    hs.calm _ (List.mem_of_getElem? hi) o (List.mem_cons_of_mem op ho)
  obtain ⟨bs, htaken, hbs⟩ := hs.unwritten
  rcases sends_open (s := { s with given }) hs.closed hs.pendingClose pkts with
    ⟨hres, heq⟩ | ⟨n, hres, heq⟩
  · rw [heq] at hrun
    obtain ⟨rfl, rfl⟩ := Prod.mk.inj hrun
    obtain ⟨r, hold, hnew⟩ := Pool.exists_load_set Op.unwritten hi []
    refine ⟨hs.closed, hs.pendingClose, Pool.forall_set hs.calm hrest, ?_, ?_, hs.issued, hs.sorted,
      bs, htaken, ?_⟩
    · change Stock _ _ (Pool.load Op.held (s.goroutines.set i ([] ++ rest))) _
      rw [hheld [] rfl]
      exact hbuffer
    · intro m hm
      cases hres.symm.trans hm
    · change _ = Pool.load Op.unwritten (s.goroutines.set i ([] ++ rest))
      rw [hnew, hbs, hold, hop]
      rfl
  · rw [heq] at hrun
    obtain ⟨rfl, rfl⟩ := Prod.mk.inj hrun
    obtain ⟨hbuf, hlt, hbefore⟩ := hs.slot n hres
    obtain ⟨r, hold, hnew⟩ := Pool.exists_load_set Op.unwritten hi
      [.write { res := n, done := s.p.pollDone, pkts, pendingClose := false }]
    refine ⟨hs.closed, hs.pendingClose,
      Pool.forall_set hs.calm (List.forall_mem_cons.mpr ⟨rfl, hrest⟩), ?_, nofun, ?_, ?_,
      bs ++ [(n, pkts)], ?_, ?_⟩
    · change Stock (packets (s.taken ++ [(n, pkts)])) _
        (Pool.load Op.held (s.goroutines.set i ([_] ++ rest))) _
      rw [hheld _ rfl, packets_append, packets_singleton]
      exact htake hbuf
    · exact List.forall_mem_append.mpr ⟨hs.issued, List.forall_mem_singleton.mpr hlt⟩
    · refine List.pairwise_append.mpr ⟨hs.sorted, List.pairwise_singleton _ _, ?_⟩
      intro b hb c hc
      rw [List.mem_singleton.mp hc]
      exact hbefore b hb
    · change s.taken ++ _ = s.written ++ _
      rw [htaken, List.append_assoc]
    · change _ = Pool.load Op.unwritten (s.goroutines.set i ([_] ++ rest))
      rw [hnew, ← Multiset.coe_add, hbs, hold, hop, add_zero]
      rfl

end Send

theorem written_snoc {e : Event} (hlog : s₁.log = s.log ++ [e]) :
    s₁.written = s.written ++ e.batch.toList := by
  rw [written, written, hlog, List.filterMap_append]
  cases h : e.batch <;> simp [h]

theorem run_same (hs : Ordered s) (hop : op.calm = true) (hheld : op.held = 0)
    (hunwritten : op.unwritten = 0) (hsend : ∀ pkts, op ≠ .send pkts)
    (h : s.run op = some (s₁, ops)) :
    Same s s₁ ∧ ∀ op ∈ ops, op.calm = true ∧ op.held = 0 ∧ op.unwritten = 0 := by
  have hlog {e : Event} (he : e.batch = none) : Same s { s with log := s.log ++ [e] } :=
    ⟨rfl, rfl, rfl, .inl rfl, le_rfl, rfl, rfl, by rw [written_snoc (e := e) rfl, he]; simp⟩
  have hrefl : Same s s := ⟨rfl, rfl, rfl, .inl rfl, le_rfl, rfl, rfl, rfl⟩
  cases op with
  | send pkts => exact absurd rfl (hsend pkts)
  | resend pkts => exact absurd hheld (Multiset.singleton_ne_zero _)
  | write r => exact absurd hunwritten (Multiset.singleton_ne_zero _)
  | notifyClose | close => cases hop
  | closeDone | ret =>
    cases h
    exact ⟨hlog rfl, by simp⟩
  | ready =>
    cases h
    exact ⟨hrefl, by simp⟩
  | checkPending =>
    cases h
    simp [hs.pendingClose, hrefl]
  | await n =>
    simp only [run] at h
    split_ifs at h
    cases h
    exact ⟨hlog rfl, by simp⟩
  | watch n =>
    simp only [run] at h
    split_ifs at h
    cases h
    exact ⟨hrefl, by simp⟩
  | badRequest n =>
    cases h
    exact ⟨hlog rfl, by simp [Op.calm, Op.held, Op.unwritten]⟩

/-- The first of the batches that are not yet written is the one of the earliest poll. -/
theorem head_of_least {bs : List Batch} {b : Batch} (hsorted : bs.Pairwise fun b c => b.1 < c.1)
    (hb : b ∈ bs) (hleast : ∀ c ∈ bs, b.1 ≤ c.1) : ∃ cs, bs = b :: cs := by
  cases bs with
  | nil => cases hb
  | cons c cs =>
    rcases List.mem_cons.mp hb with rfl | hb
    · exact ⟨cs, rfl⟩
    · have hlt := (List.pairwise_cons.mp hsorted).1 b hb
      exact absurd hlt (not_lt.mpr (hleast c List.mem_cons_self))

theorem Ordered.write (hs : Ordered s) {r : Response} (hi : s.goroutines[i]? = some (.write r :: rest))
    (hleast : ∀ ops ∈ s.goroutines, ∀ op ∈ ops, ∀ b ∈ op.unwritten, r.res ≤ b.1)
    (h : s.run (.write r) = some (s₁, ops)) :
    Ordered { s₁ with goroutines := s₁.goroutines.set i (ops ++ rest) } := by
  obtain ⟨hs₁, hops⟩ := Prod.mk.inj (Option.some.inj h)
  have hrest : ∀ op ∈ rest, op.calm = true := fun o ho =>
    hs.calm _ (List.mem_of_getElem? hi) o (List.mem_cons_of_mem _ ho)
  have hr : r.pendingClose = false := by
    simpa [Op.calm] using hs.calm _ (List.mem_of_getElem? hi) _ List.mem_cons_self
  have hzero : (∀ op ∈ ops, op.calm = true) ∧ (ops.map Op.held).sum = 0 ∧
      (ops.map Op.unwritten).sum = 0 := by
    rw [← hops, Response.rest, hr]
    cases r.done with
    | none => exact ⟨nofun, rfl, rfl⟩
    | some n => exact ⟨List.forall_mem_singleton.mpr rfl, rfl, rfl⟩
  obtain ⟨r₁, hold₁, hnew₁⟩ := Pool.exists_load_set Op.held hi ops
  obtain ⟨r₂, hold₂, hnew₂⟩ := Pool.exists_load_set Op.unwritten hi ops
  obtain ⟨bs, htaken, hbs⟩ := hs.unwritten
  have hmem {b : Batch} : b ∈ bs ↔ b ∈ Pool.load Op.unwritten s.goroutines := by
    rw [← hbs, Multiset.mem_coe]
  obtain ⟨cs, rfl⟩ : ∃ cs, bs = (r.res, r.pkts) :: cs := by
    refine head_of_least ?_ ?_ ?_
    · have hsorted := hs.sorted
      rw [htaken] at hsorted
      exact (List.pairwise_append.mp hsorted).2.1
    · rw [hmem, hold₂]
      exact Multiset.mem_add.mpr (.inr (Multiset.mem_singleton_self _))
    · intro c hc
      obtain ⟨os, hos, o, ho, hco⟩ := Pool.mem_load.mp (hmem.mp hc)
      exact hleast os hos o ho c hco
  subst hs₁
  refine ⟨hs.closed, hs.pendingClose,
    Pool.forall_set hs.calm (List.forall_mem_append.mpr ⟨hzero.1, hrest⟩), ?_, hs.slot, hs.issued, hs.sorted,
    cs, ?_, ?_⟩
  · have hheld : Pool.load Op.held (s.goroutines.set i (ops ++ rest)) =
        Pool.load Op.held s.goroutines := by
      rw [hnew₁, hzero.2.1, hold₁]
      rfl
    rw [hheld]
    exact hs.stock
  · change s.taken = written _ ++ cs
    rw [written_snoc (s := s) (e := .wrote r.res (some r.pkts)) rfl, htaken, List.append_assoc]
    rfl
  · change _ = Pool.load Op.unwritten (s.goroutines.set i (ops ++ rest))
    rw [hnew₂, hzero.2.2, add_zero]
    rw [hold₂, ← Multiset.cons_coe, ← Multiset.singleton_add, add_comm] at hbs
    exact add_right_cancel hbs

theorem onPollRequest_open {p : Polling} {n : PollId} (h : p.closed = false) :
    p.onPollRequest n = ({ p with
      req := some n, res := some n, writable := true, pollDone := some n, sendBuffer := [] },
      p.sendBuffer) := by
  by_cases hbuf : p.sendBuffer = []
  · simp [onPollRequest, hbuf]
  · simp [onPollRequest, h, hbuf]

theorem Ordered.poll (hs : Ordered s) : Ordered s.poll := by
  rcases s.poll_cases with ⟨-, heq⟩ | ⟨p, buffered, -, hp, heq⟩
  · rw [heq]
    refine hs.same ⟨rfl, rfl, rfl, .inl rfl, Nat.le_succ _, rfl, rfl, rfl⟩ ?_ ?_ ?_
    · exact List.forall_mem_append.mpr ⟨hs.calm, by simp [Op.calm]⟩
    · rw [spawn, Pool.load_append]
      exact add_zero _
    · rw [spawn, Pool.load_append]
      exact add_zero _
  · have hopen : p = { s.p with
        req := some s.polls, res := some s.polls, writable := true, pollDone := some s.polls
        sendBuffer := [] } ∧ buffered = s.p.sendBuffer := by
      rw [onPollRequest_open hs.closed] at hp
      exact ⟨(Prod.mk.inj hp).1.symm, (Prod.mk.inj hp).2.symm⟩
    obtain ⟨rfl, rfl⟩ := hopen
    obtain ⟨bs, htaken, hbs⟩ := hs.unwritten
    rw [heq]
    refine ⟨hs.closed, hs.pendingClose, ?_, ?_, ?_, ?_, hs.sorted, bs, htaken, ?_⟩
    · refine List.forall_mem_append.mpr ⟨List.forall_mem_append.mpr ⟨hs.calm, by simp [Op.calm]⟩, ?_⟩
      split_ifs <;> simp [Op.calm]
    · change Stock _ [] (Pool.load Op.held _) _
      rw [spawn, spawn, Pool.load_append, Pool.load_append]
      have hheld : Pool.load Op.held [[.ready, if s.p.sendBuffer ≠ [] then .resend s.p.sendBuffer
          else .checkPending, .await s.polls]] =
          if s.p.sendBuffer ≠ [] then {s.p.sendBuffer} else 0 := by
        split_ifs <;> rfl
      rw [hheld]
      have hwatch : Pool.load Op.held [[.watch s.polls]] = 0 := rfl
      rw [hwatch, add_zero]
      exact hs.stock.takeOver
    · intro m hm
      obtain rfl := Option.some.inj hm
      exact ⟨rfl, Nat.lt_succ_self _, hs.issued⟩
    · intro b hb
      exact (hs.issued b hb).trans (Nat.lt_succ_self _)
    · rw [spawn, spawn, Pool.load_append, Pool.load_append]
      have hnone : Pool.load Op.unwritten [[.ready, if s.p.sendBuffer ≠ [] then .resend s.p.sendBuffer
          else .checkPending, .await s.polls]] = 0 := by
        split_ifs <;> rfl
      have hwatch : Pool.load Op.unwritten [[.watch s.polls]] = 0 := rfl
      rw [hnone, hwatch, add_zero, add_zero]
      exact hbs

theorem Ordered.idle (hs : Ordered s) (hi : s.goroutines[i]? = some (op :: rest)) (hheld : op.held = 0)
    (hunwritten : op.unwritten = 0) (hsame : Same s s₁) (hgs : s₁.goroutines = s.goroutines)
    (hops : ∀ op ∈ ops, op.calm = true ∧ op.held = 0 ∧ op.unwritten = 0) :
    Ordered { s₁ with goroutines := s₁.goroutines.set i (ops ++ rest) } := by
  have hload {M : Type} [AddCommMonoid M] (f : Op → M) (hop : f op = 0) (hzero : ∀ op ∈ ops, f op = 0) :
      Pool.load f (s.goroutines.set i (ops ++ rest)) = Pool.load f s.goroutines := by
    obtain ⟨r, hold, hnew⟩ := Pool.exists_load_set f hi ops
    have hsum : (ops.map f).sum = 0 := List.sum_eq_zero (List.forall_mem_map.mpr hzero)
    rw [hnew, hold, hsum, hop]
  obtain ⟨hc, hpc, hbuf, hres, hpolls, htaken, hgiven, hwritten⟩ := hsame
  rw [hgs]
  refine hs.same ⟨hc, hpc, hbuf, hres, hpolls, htaken, hgiven, hwritten⟩ ?_
    (hload Op.held hheld fun o ho => (hops o ho).2.1) (hload Op.unwritten hunwritten fun o ho => (hops o ho).2.2)
  refine Pool.forall_set hs.calm (List.forall_mem_append.mpr ⟨fun o ho => (hops o ho).1, ?_⟩)
  exact fun o ho => hs.calm _ (List.mem_of_getElem? hi) o (List.mem_cons_of_mem op ho)

theorem Ordered.run (hs : Ordered s) (hi : s.goroutines[i]? = some (op :: rest))
    (horderly : Orderly s (.go i)) (hrun : s.run op = some (s₁, ops)) :
    Ordered { s₁ with goroutines := s₁.goroutines.set i (ops ++ rest) } := by
  have hcalm : op.calm = true := hs.calm _ (List.mem_of_getElem? hi) _ List.mem_cons_self
  have hnext : op.Orderly s.goroutines := horderly op (by simp [hi])
  cases op with
  | send pkts =>
    have hpkts : pkts = [] ∨ Pool.load Op.held s.goroutines = 0 := by
      refine hnext.imp id fun hnone => Multiset.eq_zero_of_forall_notMem fun b hb => ?_
      obtain ⟨os, hos, o, ho, hbo⟩ := Pool.mem_load.mp hb
      rw [hnone os hos o ho] at hbo
      exact Multiset.notMem_zero b hbo
    obtain ⟨hbuffer, htake⟩ := hs.stock.send hpkts
    refine hs.sends (s.given ++ pkts) rfl hi rfl ?_ hbuffer htake (Option.some.inj hrun)
    intro os hos
    obtain ⟨r, hold, hnew⟩ := Pool.exists_load_set Op.held hi os
    rw [hnew, hold, hos]
    rfl
  | resend pkts =>
    -- what was taken over is no longer held
    obtain ⟨r, hold, -⟩ := Pool.exists_load_set Op.held hi []
    have hstock := hs.stock
    rw [hold] at hstock
    obtain ⟨hbuffer, htake⟩ := hstock.resend
    refine hs.sends s.given rfl hi rfl ?_ hbuffer (fun _ => htake) (Option.some.inj hrun)
    intro os hos
    obtain ⟨r', hold', hnew⟩ := Pool.exists_load_set Op.held hi os
    rw [hnew, hos, add_zero]
    exact add_right_cancel (hold'.symm.trans hold)
  | write r => exact hs.write hi hnext hrun
  | _ =>
    obtain ⟨hsame, hops⟩ := run_same hs hcalm rfl rfl nofun hrun
    exact hs.idle hi rfl rfl hsame (run_keeps hrun).1 hops

theorem Ordered.step (hs : Ordered s) (hserves : Serves a) (horderly : Orderly s a)
    (h : s.step a = some s') : Ordered s' := by
  have hrefl : Same s s := ⟨rfl, rfl, rfl, .inl rfl, le_rfl, rfl, rfl, rfl⟩
  cases step_does h with
  | poll => exact hs.poll
  | @call _ op r hop =>
    obtain ⟨pkts, -, rfl⟩ | ⟨rfl, -⟩ | ⟨rfl, -⟩ := hop
    · refine hs.same ⟨rfl, rfl, rfl, .inl rfl, le_rfl, rfl, rfl, rfl⟩ ?_ ?_ ?_
      · exact List.forall_mem_append.mpr ⟨hs.calm, by simp [Op.calm]⟩
      · rw [spawn, Pool.load_append]
        exact add_zero _
      · rw [spawn, Pool.load_append]
        exact add_zero _
    · exact hserves.elim
    · exact hserves.elim
  | discard => exact hserves.elim
  | @abort i n rest hi hreq =>
    have hlost : Same s { s with p := { s.p with
        req := none, res := none, pollDone := none, writable := false } } :=
      ⟨rfl, rfl, rfl, .inr rfl, le_rfl, rfl, rfl, rfl⟩
    exact hs.idle hi rfl rfl hlost rfl (List.forall_mem_singleton.mpr ⟨rfl, rfl, rfl⟩)
  | stale hi =>
    have hops : ∀ op ∈ ([] : List Op), op.calm = true ∧ op.held = 0 ∧ op.unwritten = 0 := nofun
    exact hs.idle hi rfl rfl hrefl rfl hops
  | @nested i pkts rest hi =>
    have hops : ∀ op ∈ [Op.send pkts, .ready], op.calm = true ∧ op.held = 0 ∧ op.unwritten = 0 := by
      simp [Op.calm, Op.held, Op.unwritten]
    exact hs.idle hi rfl rfl hrefl rfl hops
  | run hi hrun => exact hs.run hi horderly hrun

theorem Ordered.init : Ordered {} where
  closed := rfl
  pendingClose := rfl
  calm := nofun
  stock := .inl ⟨rfl, rfl⟩
  slot := nofun
  issued := nofun
  sorted := .nil
  unwritten := ⟨[], rfl, rfl⟩

/-- In a run whose steps are all orderly the transport delivers in order. -/
theorem orderly_delivers_in_order {acts : List Act}
    (h : Run step (fun s a => Serves a ∧ Orderly s a) {} acts s) : InOrder s :=
  (h.invariant Ordered .init fun _ _ _ hs hok hstep => hs.step hok.1 hok.2 hstep).inOrder

section NonVacuity

instance : DecidablePred Serves
  | .close | .timer | .discard => isFalse id
  | .poll | .send _ | .cancel _ | .nested _ _ | .go _ => isTrue trivial

instance (goroutines : List (List Op)) (op : Op) : Decidable (op.Orderly goroutines) := by
  unfold Op.Orderly
  split <;> infer_instance

instance (s : State) (a : Act) : Decidable (Orderly s a) := by
  unfold Orderly
  split <;> infer_instance

instance (s : State) : Decidable (InOrder s) := inferInstanceAs (Decidable (_ ∧ _))

def hello : Packet := { type := .message, data := [1] }

def bye : Packet := { type := .message, data := [2] }

/-- A packet is buffered, taken over by a poll and sent; one more is sent with the next poll. -/
def buffered : List Act :=
  [.send [hello], .go 0, .poll, .go 2, .go 2, .go 2, .go 2, .poll, .nested 4 [bye], .go 4, .go 4]

theorem buffered_runs : (exec step (fun s a => Serves a ∧ Orderly s a) {} buffered).isSome = true := by
  decide +kernel

theorem orderly_delivers_in_order_buffered :
    ((exec step (fun s a => Serves a ∧ Orderly s a) {} buffered).get buffered_runs).written =
      [(0, [hello]), (1, [bye])] ∧
    InOrder ((exec step (fun s a => Serves a ∧ Orderly s a) {} buffered).get buffered_runs) :=
  ⟨by decide +kernel, orderly_delivers_in_order (run_of_isSome buffered_runs)⟩

/-- A packet is buffered and taken over by a poll; `OnReady` sends another one. -/
def overtaking : List Act := [.send [hello], .go 0, .poll, .nested 2 [bye], .go 2, .go 2]

theorem overtaking_runs : (exec step (fun _ a => Serves a) {} overtaking).isSome = true := by
  decide +kernel

/-- The packet that `OnReady` sends is the first one to be delivered. -/
theorem ready_overtakes_buffered :
    ¬ ∀ (acts : List Act) (s : State), Run step (fun _ a => Serves a) {} acts s → InOrder s := by
  intro h
  exact absurd (h overtaking _ (run_of_isSome overtaking_runs)) (by decide +kernel)

end NonVacuity

end State

end Polling

end Gosocketio

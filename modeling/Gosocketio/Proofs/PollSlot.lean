import Gosocketio.Lib.Petri
import Gosocketio.Lib.Pool
import Gosocketio.Sanity.Polling
import Mathlib.Algebra.Group.Pi.Basic
import Mathlib.Data.List.Count

/-! Who holds a poll. The response and the channel of one poll are tokens of a net: they
lie in the pending slot, with a goroutine that has taken them, or are used up. Every step
of the transport fires one transition of that net, whatever the other polls do. -/

namespace Gosocketio

open Transport Petri Runs

namespace Polling

/-- `slot`: it is the pending poll. `writing`, `closing`, `refusing`: a goroutine is about
to write its response, to close its channel, to refuse it. `awaiting`, `leaving`: its
handler has yet to return. The rest is what was done. -/
inductive Place where
  | slot
  | writing
  | closing
  | refusing
  | awaiting
  | leaving
  | wrote
  | closed
  | returned
  deriving DecidableEq

inductive Hand where
  | keep
  | take
  | abort
  | shut
  | write
  | close
  | wake
  | refuse
  | leave

/-- What can happen to a poll that has arrived. -/
def life : Net Place Hand where
  pre
    | .keep => 0
    | .take | .abort | .shut => Pi.single .slot 1
    | .write => Pi.single .writing 1
    | .close => Pi.single .closing 1
    | .wake => Pi.single .awaiting 1
    | .refuse => Pi.single .refusing 1
    | .leave => Pi.single .leaving 1
  post
    | .keep => 0
    | .take => Pi.single .writing 1
    | .abort => Pi.single .closing 1
    | .shut | .close => Pi.single .closed 1
    | .write => Pi.single .wrote 1 + Pi.single .closing 1
    | .refuse => Pi.single .wrote 1 + Pi.single .leaving 1
    | .wake | .leave => Pi.single .returned 1
  read
    | .wake => Pi.single .closed 1
    | _ => 0

/-- The channel and the response have one owner at most, and the handler is still there
while either of them can be used. -/
structure Sound (M : Place → ℕ) : Prop where
  done : M .slot + M .writing + M .closing + M .closed ≤ 1
  response : M .slot + M .writing + M .refusing + M .wrote ≤ 1
  handler : M .awaiting + M .refusing + M .leaving + M .returned ≤ 1
  refused : 0 < M .refusing + M .leaving → M .slot + M .writing + M .closing + M .closed = 0
  returned : 0 < M .slot + M .writing + M .closing → M .returned = 0

section Net

variable {t : Hand} {M M' : Place → ℕ}

theorem Sound.zero : Sound 0 := by constructor <;> simp

theorem Sound.fires (hM : Sound M) (h : life.Fires t M M') : Sound M' := by
  obtain ⟨R, hread, rfl, rfl⟩ := h
  have hclosed := hread .closed
  obtain ⟨hdone, hresponse, hhandler, hrefused, hreturned⟩ := hM
  cases t <;> simp [life] at hclosed hdone hresponse hhandler hrefused hreturned <;>
    constructor <;> simp [life] <;> omega

theorem Sound.returned_eq_zero (hM : Sound M) (h : 0 < M .writing + M .refusing) : M .returned = 0 := by
  have hhandler := hM.handler
  rcases Nat.eq_zero_or_pos (M .writing) with hw | hw
  · omega
  · exact hM.returned (by omega)

end Net

/-- A token of poll `n` if the thing at hand belongs to `n`. -/
def token (n m : PollId) (a : Place) : Place → ℕ := if m = n then Pi.single a 1 else 0

@[simp] theorem token_self (n : PollId) (a : Place) : token n n a = Pi.single a 1 := if_pos rfl

theorem token_of_ne {n m : PollId} (h : m ≠ n) (a : Place) : token n m a = 0 := if_neg h

def Op.tokens (n : PollId) : Op → Place → ℕ
  | .write r => token n r.res .writing
  | .closeDone m => token n m .closing
  | .await m => token n m .awaiting
  | .badRequest m => token n m .refusing
  | .ret m => token n m .leaving
  | _ => 0

def Event.tokens (n : PollId) : Event → Place → ℕ
  | .wrote m _ => token n m .wrote
  | .closedDone m => token n m .closed
  | .returned m => token n m .returned

def tokens (n : PollId) (p : Polling) : Place → ℕ := (p.res.map fun m => token n m .slot).getD 0

def opTokens (n : PollId) (ops : List Op) : Place → ℕ := (ops.map (Op.tokens n)).sum

def Event.writes (n : PollId) : Event → Bool
  | .wrote m _ => m = n
  | _ => false

theorem log_tokens (log : List Event) (n : PollId) :
    (log.map (Event.tokens n)).sum .wrote = log.countP (Event.writes n) ∧
    (log.map (Event.tokens n)).sum .closed = log.count (.closedDone n) ∧
    (log.map (Event.tokens n)).sum .returned = log.count (.returned n) := by
  induction log with
  | nil => exact ⟨rfl, rfl, rfl⟩
  | cons e log ih =>
    obtain ⟨hwrote, hclosed, hreturned⟩ := ih
    rw [List.map_cons, List.sum_cons, Pi.add_apply, Pi.add_apply, Pi.add_apply, hwrote, hclosed,
      hreturned, List.countP_cons, List.count_cons, List.count_cons]
    cases e with
    | wrote m r | closedDone m => by_cases hm : m = n <;> simp [Event.tokens, Event.writes, token, hm, add_comm]
    | returned m => by_cases hm : m = n <;> simp [Event.tokens, Event.writes, token, hm, add_comm]

def InTime (log : List Event) : Prop :=
  log.Pairwise fun e e' => ∀ n r, e = .returned n → e' ≠ .wrote n r

theorem InTime.snoc {log : List Event} {e : Event} (h : InTime log)
    (he : ∀ n r, e = .wrote n r → .returned n ∉ log) : InTime (log ++ [e]) := by
  refine List.pairwise_append.mpr ⟨h, List.pairwise_singleton _ _, ?_⟩
  intro e₁ he₁ e₂ he₂ n r hn hr
  rw [List.mem_singleton.mp he₂] at hr
  exact he n r hr (hn ▸ he₁)

/-- The channel that a `Send` closes is that of the response it writes. -/
def Op.Paired : Op → Prop
  | .write r => r.done = some r.res
  | _ => True

theorem opTokens_rest {r : Response} (hr : r.done = some r.res) (n : PollId) :
    opTokens n r.rest = token n r.res .closing := by
  unfold Response.rest opTokens
  split_ifs <;> simp [hr, Op.tokens]

namespace State

/-- The tokens of `n` that no goroutine holds. -/
def shared (s : State) (n : PollId) : Place → ℕ := s.p.tokens n + (s.log.map (Event.tokens n)).sum

def marking (s : State) (n : PollId) : Place → ℕ :=
  s.shared n + Pool.load (Op.tokens n) s.goroutines

variable {s s' s₁ : State} {a : Act} {op : Op} {ops : List Op} {i : ℕ} {n : PollId} {pkts : List Packet}

theorem shared_log (s : State) (e : Event) (n : PollId) :
    { s with log := s.log ++ [e] }.shared n = s.shared n + e.tokens n := by
  simp [shared, add_assoc]

theorem keeps (M : Place → ℕ) : life.Fires .keep M M := ⟨M, zero_le, (add_zero M).symm, (add_zero M).symm⟩

/-- One event of poll `m`: its token moves, and nothing happens to other polls. -/
theorem fires_token {t : Hand} {m : PollId} {R Q : Place → ℕ} {b : Place} (hpre : life.pre t = Pi.single b 1)
    (hpost : m = n → Q = life.post t) (hother : m ≠ n → Q = 0) (hread : m = n → life.read t ≤ R) :
    ∃ t, life.Fires t (R + token n m b) (R + Q) := by
  by_cases hm : m = n
  · refine ⟨t, R, hread hm, ?_, by rw [hpost hm]⟩
    rw [hm, token_self, hpre]
  · refine ⟨.keep, ?_⟩
    rw [token_of_ne hm, hother hm]
    exact keeps _

theorem sends_fires (s : State) (pkts : List Packet) (n : PollId) :
    ∃ t, life.Fires t (s.shared n) ((s.sends pkts).1.shared n + opTokens n (s.sends pkts).2) := by
  rcases send_cases s.p pkts with ⟨-, heq⟩ | ⟨pkts', -, -, ⟨hres, heq⟩ | ⟨m, hres, heq⟩⟩
  · refine ⟨.keep, ?_⟩
    simp only [sends, heq, opTokens, List.map_nil, List.sum_nil, add_zero]
    exact keeps _
  · refine ⟨.keep, ?_⟩
    simp only [sends, heq, opTokens, List.map_nil, List.sum_nil, add_zero]
    exact keeps _
  · simp only [sends, heq, opTokens, shared, tokens, hres, List.map_cons, List.map_nil, List.sum_cons,
      List.sum_nil, Op.tokens, Option.map_some, Option.map_none, Option.getD_some, Option.getD_none,
      add_zero, zero_add]
    rw [add_comm]
    exact fires_token (t := .take) rfl (fun h => by rw [h, token_self]; rfl) (fun h => token_of_ne h _)
      fun _ => zero_le

theorem closeLocked_fires (hs : Aligned s.p) (n : PollId) : ∃ t, life.Fires t (s.shared n)
      ({ s with p := s.p.closeLocked.1
                log := s.log ++ s.p.closeLocked.2.toList.map Event.closedDone }.shared n) := by
  unfold closeLocked
  split_ifs
  · refine ⟨.keep, ?_⟩
    simp only [Option.toList_none, List.map_nil, List.append_nil]
    exact keeps _
  · cases hres : s.p.res with
    | none =>
      refine ⟨.keep, ?_⟩
      simp only [hs.pollDone, hres, shared, tokens, Option.toList_none, List.map_nil, List.append_nil]
      exact keeps _
    | some m =>
      simp only [hs.pollDone, hres, shared, tokens, Option.toList_some, List.map_cons, List.map_nil,
        List.map_append, List.sum_append, List.sum_cons, List.sum_nil, Event.tokens, Option.map_some,
        Option.map_none, Option.getD_some, Option.getD_none, add_zero, zero_add]
      rw [add_comm]
      exact fires_token (t := .shut) rfl (fun h => by rw [h, token_self]; rfl)
        (fun h => token_of_ne h _) fun _ => zero_le

theorem run_fires (h : s.run op = some (s₁, ops)) (hs : Aligned s.p) (hop : op.Paired) (n : PollId) :
    ∃ t, life.Fires t (s.shared n + op.tokens n) (s₁.shared n + opTokens n ops) := by
  have quiet {s₁ : State} {ops : List Op} (hzero : op.tokens n = 0) (hops : opTokens n ops = 0)
      (hsh : s₁.shared n = s.shared n) :
      ∃ t, life.Fires t (s.shared n + op.tokens n) (s₁.shared n + opTokens n ops) := by
    refine ⟨.keep, ?_⟩
    rw [hzero, hops, hsh]
    exact keeps _
  cases op with
  | send pkts =>
    simp only [run, Option.some.injEq, Prod.ext_iff] at h
    obtain ⟨t, ht⟩ := sends_fires { s with given := s.given ++ pkts } pkts n
    rw [h.1, h.2] at ht
    refine ⟨t, ?_⟩
    exact ht
  | resend pkts =>
    simp only [run, Option.some.injEq, Prod.ext_iff] at h
    obtain ⟨t, ht⟩ := sends_fires s pkts n
    rw [h.1, h.2] at ht
    refine ⟨t, ?_⟩
    exact ht
  | write r =>
    cases h
    rw [opTokens_rest hop, shared_log, add_assoc]
    exact fires_token (t := .write) rfl (fun h => by rw [h]; simp [Event.tokens]; rfl)
      (fun h => by simp [Event.tokens, token_of_ne h]) fun _ => zero_le
  | closeDone m =>
    cases h
    rw [shared_log, add_assoc]
    exact fires_token (t := .close) rfl (fun h => by simp [Event.tokens, h, opTokens]; rfl)
      (fun h => by simp [Event.tokens, token_of_ne h, opTokens]) fun _ => zero_le
  | notifyClose =>
    obtain ⟨hs₁, hops⟩ := Prod.mk.inj (Option.some.inj h)
    obtain ⟨t, ht⟩ := closeLocked_fires hs n
    refine ⟨t, ?_⟩
    change life.Fires t (s.shared n + 0) _
    rw [← hs₁, ← hops, add_zero]
    exact ht
  | close =>
    simp only [run] at h
    split_ifs at h <;> (cases h; exact quiet rfl (by simp [opTokens, Op.tokens]) rfl)
  | ready =>
    cases h
    exact quiet rfl rfl rfl
  | checkPending =>
    cases h
    refine quiet rfl ?_ rfl
    split_ifs <;> simp [opTokens, Op.tokens]
  | await m =>
    simp only [run] at h
    split_ifs at h with hmem
    cases h
    rw [shared_log, add_assoc]
    refine fires_token (t := .wake) rfl (fun h => by simp [Event.tokens, h, opTokens]; rfl)
      (fun h => by simp [Event.tokens, token_of_ne h, opTokens]) ?_
    rintro rfl
    -- the channel was closed, so its token lies among the events
    calc Pi.single Place.closed 1 = Event.tokens m (.closedDone m) := (token_self m _).symm
      _ ≤ (s.log.map (Event.tokens m)).sum := List.le_sum_of_mem (List.mem_map_of_mem hmem)
      _ ≤ s.shared m := le_add_left le_rfl
  | watch m =>
    simp only [run] at h
    split_ifs at h
    cases h
    exact quiet rfl rfl rfl
  | badRequest m =>
    cases h
    rw [shared_log, add_assoc]
    exact fires_token (t := .refuse) rfl (fun h => by simp [Event.tokens, h, opTokens, Op.tokens]; rfl)
      (fun h => by simp [Event.tokens, token_of_ne h, opTokens, Op.tokens]) fun _ => zero_le
  | ret m =>
    cases h
    rw [shared_log, add_assoc]
    exact fires_token (t := .leave) rfl (fun h => by simp [Event.tokens, h, opTokens]; rfl)
      (fun h => by simp [Event.tokens, token_of_ne h, opTokens]) fun _ => zero_le

theorem marking_spawn (s : State) (ops : List Op) (n : PollId) :
    (s.spawn ops).marking n = s.marking n + opTokens n ops := by
  rw [marking, spawn, Pool.load_append, Pool.load_singleton, ← add_assoc]
  rfl

theorem marking_poll (s : State) (hs : Aligned s.p) (n : PollId) :
    s.poll.marking n = s.marking n + token n s.polls .refusing ∨
    s.poll.marking n = s.marking n + (token n s.polls .slot + token n s.polls .awaiting) := by
  rcases s.poll_cases with ⟨-, heq⟩ | ⟨p, buffered, hreq, hp, heq⟩
  · refine .inl ?_
    rw [heq, marking_spawn, opTokens, List.map_singleton, List.sum_singleton]
    rfl
  · refine .inr ?_
    have hslot : s.p.tokens n = 0 := by
      rw [tokens, ← hs.req, hreq]
      rfl
    have htaken : p.tokens n = token n s.polls .slot := by
      have hres : p.res = some s.polls := by
        simp only [onPollRequest] at hp
        split_ifs at hp <;> (cases hp; rfl)
      rw [tokens, hres]
      rfl
    have hops : opTokens n [.ready, if buffered ≠ [] then .resend buffered else .checkPending,
        .await s.polls] = token n s.polls .awaiting := by
      split_ifs <;> simp [opTokens, Op.tokens]
    rw [heq, marking_spawn, marking_spawn, hops, marking, marking, shared, shared, htaken, hslot]
    have hwatch : opTokens n [.watch s.polls] = 0 := rfl
    rw [hwatch]
    abel

theorem go_fires {rest : List Op} (hi : s.goroutines[i]? = some (op :: rest)) (hs : Aligned s.p)
    (hop : op.Paired) (hrun : s.run op = some (s₁, ops)) (n : PollId) :
    ∃ t, life.Fires t (s.marking n)
      ({ s₁ with goroutines := s₁.goroutines.set i (ops ++ rest) }.marking n) := by
  obtain ⟨t, ht⟩ := run_fires hrun hs hop n
  obtain ⟨r, hold, hnew⟩ := Pool.exists_load_set (Op.tokens n) hi ops
  have hM : s.marking n = s.shared n + op.tokens n + r := by
    rw [marking, hold]
    abel
  have hM' : { s₁ with goroutines := s₁.goroutines.set i (ops ++ rest) }.marking n =
      s₁.shared n + opTokens n ops + r := by
    rw [marking, (run_keeps hrun).1, hnew, opTokens]
    change s₁.shared n + _ = _
    abel
  refine ⟨t, ?_⟩
  rw [hM, hM']
  exact ht.frame r

theorem abort_fires {m : PollId} {rest : List Op} (hs : Aligned s.p)
    (hi : s.goroutines[i]? = some (.watch m :: rest)) (hreq : s.p.req = some m) (n : PollId) :
    ∃ t, life.Fires t (s.marking n)
      ({ s with p := { s.p with req := none, res := none, pollDone := none, writable := false }
                goroutines := s.goroutines.set i (.closeDone m :: rest) }.marking n) := by
  obtain ⟨r, hold, hnew⟩ := Pool.exists_load_set (Op.tokens n) hi [.closeDone m]
  have hM : s.marking n = (s.log.map (Event.tokens n)).sum + r + token n m .slot := by
    rw [marking, hold, shared, tokens, ← hs.req, hreq]
    change token n m .slot + _ + (r + 0) = _
    abel
  have hM' : { s with p := { s.p with req := none, res := none, pollDone := none, writable := false }
                      goroutines := s.goroutines.set i (.closeDone m :: rest) }.marking n =
      (s.log.map (Event.tokens n)).sum + r + token n m .closing := by
    change 0 + _ + Pool.load (Op.tokens n) (s.goroutines.set i ([.closeDone m] ++ rest)) = _
    rw [hnew, List.map_singleton, List.sum_singleton, zero_add, add_assoc]
    rfl
  rw [hM, hM']
  exact fires_token (t := .abort) rfl (fun h => by rw [h, token_self]; rfl) (fun h => token_of_ne h _)
    fun _ => zero_le

theorem marking_set {rest : List Op} (hi : s.goroutines[i]? = some (op :: rest)) (ops : List Op)
    (heq : opTokens n ops = op.tokens n) :
    { s with goroutines := s.goroutines.set i (ops ++ rest) }.marking n = s.marking n := by
  obtain ⟨r, hold, hnew⟩ := Pool.exists_load_set (Op.tokens n) hi ops
  rw [marking, marking, hnew, hold, ← heq]
  rfl

/-- Every step but the arrival of a poll moves the tokens of each poll along its life. -/
theorem step_fires (h : Does s a s') (hs : Aligned s.p)
    (hpaired : ∀ ops ∈ s.goroutines, ∀ op ∈ ops, op.Paired) (ha : a ≠ .poll) (n : PollId) :
    s'.polls = s.polls ∧ ∃ t, life.Fires t (s.marking n) (s'.marking n) := by
  have quiet {s' : State} (hsame : s'.marking n = s.marking n) :
      ∃ t, life.Fires t (s.marking n) (s'.marking n) := ⟨.keep, hsame ▸ keeps _⟩
  cases h with
  | poll => exact absurd rfl ha
  | @call _ op r hop =>
    have hzero : opTokens n [op] = 0 := by
      rcases hop with ⟨pkts, -, rfl⟩ | ⟨-, rfl⟩ | ⟨-, rfl⟩ <;> rfl
    exact ⟨rfl, quiet (by rw [marking_spawn, hzero]; exact add_zero _)⟩
  | discard => exact ⟨rfl, quiet rfl⟩
  | abort hi hreq => exact ⟨rfl, abort_fires hs hi hreq n⟩
  | stale hi => exact ⟨rfl, quiet (marking_set hi [] rfl)⟩
  | @nested _ pkts _ hi => exact ⟨rfl, quiet (marking_set hi [.send pkts, .ready] rfl)⟩
  | run hi hrun =>
    refine ⟨(run_keeps hrun).2, go_fires hi hs ?_ hrun n⟩
    exact hpaired _ (List.mem_of_getElem? hi) _ List.mem_cons_self

theorem run_paired (h : s.run op = some (s₁, ops)) (hs : Aligned s.p) : ∀ op ∈ ops, op.Paired := by
  have hsends (s : State) (hs : Aligned s.p) (pkts : List Packet) :
      ∀ op ∈ (s.sends pkts).2, op.Paired := by
    rcases send_cases s.p pkts with ⟨-, heq⟩ | ⟨_, -, -, ⟨-, heq⟩ | ⟨m, hres, heq⟩⟩
    · simp [sends, heq]
    · simp [sends, heq]
    · simp [sends, heq, Op.Paired, hs.pollDone, hres]
  cases op with
  | send pkts =>
    simp only [run, Option.some.injEq, Prod.ext_iff] at h
    rw [← h.2]
    exact hsends { s with given := s.given ++ pkts } hs pkts
  | resend pkts =>
    simp only [run, Option.some.injEq, Prod.ext_iff] at h
    rw [← h.2]
    exact hsends s hs pkts
  | write r =>
    cases h
    intro op hop
    unfold Response.rest at hop
    split_ifs at hop <;> simp at hop
    · rcases hop with ⟨m, -, rfl⟩ | rfl <;> trivial
    · obtain ⟨m, -, rfl⟩ := hop
      trivial
  | close =>
    simp only [run] at h
    split_ifs at h <;> (cases h; simp [Op.Paired])
  | checkPending =>
    cases h
    split_ifs <;> simp [Op.Paired]
  | await m | watch m =>
    simp only [run] at h
    split_ifs at h
    cases h
    simp
  | notifyClose | closeDone | ready | ret =>
    cases h
    simp
  | badRequest m =>
    cases h
    simp [Op.Paired]

theorem run_inTime (h : s.run op = some (s₁, ops)) (hlog : InTime s.log)
    (hret : ∀ n, 0 < op.tokens n .writing + op.tokens n .refusing → .returned n ∉ s.log) :
    InTime s₁.log := by
  cases op with
  | send pkts | resend pkts =>
    simp only [run, Option.some.injEq, Prod.ext_iff] at h
    rw [← h.1, (sends_keeps _ pkts).2.2.1]
    exact hlog
  | write | badRequest =>
    cases h
    refine hlog.snoc ?_
    rintro n _ ⟨⟩
    exact hret _ (by simp [Op.tokens])
  | closeDone m | ret m =>
    cases h
    refine hlog.snoc ?_
    rintro n _ ⟨⟩
  | notifyClose =>
    obtain ⟨hs₁, -⟩ := Prod.mk.inj (Option.some.inj h)
    rw [← hs₁]
    change InTime (s.log ++ s.p.closeLocked.2.toList.map .closedDone)
    cases s.p.closeLocked.2 with
    | none => simpa using hlog
    | some m =>
      refine hlog.snoc ?_
      rintro n _ ⟨⟩
  | close =>
    simp only [run] at h
    split_ifs at h <;> (cases h; exact hlog)
  | ready | checkPending =>
    cases h
    exact hlog
  | watch m =>
    simp only [run] at h
    split_ifs at h
    cases h
    exact hlog
  | await m =>
    simp only [run] at h
    split_ifs at h
    cases h
    refine hlog.snoc ?_
    rintro n _ ⟨⟩

/-- What holds in every state: each poll has one owner. -/
structure Held (s : State) : Prop where
  aligned : Aligned s.p
  paired : ∀ ops ∈ s.goroutines, ∀ op ∈ ops, op.Paired
  fresh : ∀ n, s.polls ≤ n → s.marking n = 0
  sound : ∀ n, Sound (s.marking n)
  inTime : InTime s.log

theorem Held.init : Held {} where
  aligned := ⟨rfl, rfl, rfl⟩
  paired := by simp
  fresh _ _ := rfl
  sound _ := Sound.zero
  inTime := List.Pairwise.nil

theorem op_tokens_le (hi : s.goroutines[i]? = some (op :: ops)) (n : PollId) :
    op.tokens n ≤ s.marking n := by
  obtain ⟨r, hold, -⟩ := Pool.exists_load_set (Op.tokens n) hi []
  rw [marking, hold]
  exact le_add_left (le_add_left le_rfl)

/-- A goroutine that is about to write a response finds its handler still there. -/
theorem Held.not_returned (hs : Held s) (hi : s.goroutines[i]? = some (op :: ops)) (n : PollId)
    (h : 0 < op.tokens n .writing + op.tokens n .refusing) : .returned n ∉ s.log := by
  have hle := op_tokens_le hi n
  have hzero : s.marking n .returned = 0 :=
    (hs.sound n).returned_eq_zero (h.trans_le (Nat.add_le_add (hle .writing) (hle .refusing)))
  intro hmem
  have hcount : 0 < (s.log.map (Event.tokens n)).sum .returned := by
    rw [(log_tokens s.log n).2.2]
    exact List.count_pos_iff.mpr hmem
  have hpart : (s.log.map (Event.tokens n)).sum .returned ≤ s.marking n .returned := by
    simp only [marking, shared, Pi.add_apply]
    omega
  omega

theorem Held.poll (hs : Held s) : Held s.poll := by
  have hmark := s.marking_poll hs.aligned
  have hpolls : s.poll.polls = s.polls + 1 := by
    rcases s.poll_cases with ⟨-, heq⟩ | ⟨p, buffered, -, -, heq⟩ <;> rw [heq] <;> rfl
  have hother {n : PollId} (hne : s.polls ≠ n) : s.poll.marking n = s.marking n := by
    rcases hmark n with heq | heq <;> simp [heq, token_of_ne hne]
  refine ⟨?_, ?_, ?_, ?_, ?_⟩
  · rcases s.poll_cases with ⟨-, heq⟩ | ⟨p, buffered, -, hp, heq⟩
    · rw [heq]
      exact hs.aligned
    · rw [heq]
      have halign := Aligned.onPollRequest (p := s.p) s.polls
      rw [hp] at halign
      exact halign
  · rcases s.poll_cases with ⟨-, heq⟩ | ⟨p, buffered, -, hp, heq⟩
    · rw [heq]
      intro ops hops
      rcases List.mem_append.mp hops with hops | hops
      · exact hs.paired ops hops
      · simp [List.mem_singleton.mp hops, Op.Paired]
    · rw [heq]
      intro ops hops
      rcases List.mem_append.mp hops with hops | hops
      · rcases List.mem_append.mp hops with hops | hops
        · exact hs.paired ops hops
        · simp [List.mem_singleton.mp hops, Op.Paired]
      · rw [List.mem_singleton.mp hops]
        split_ifs <;> simp [Op.Paired]
  · intro n hn
    rw [hother (by omega)]
    exact hs.fresh n (by omega)
  · intro n
    by_cases hn : s.polls = n
    · -- the poll that arrives had no tokens
      subst hn
      rcases hmark s.polls with heq | heq <;> rw [heq, hs.fresh _ le_rfl] <;> constructor <;> simp
    · rw [hother hn]
      exact hs.sound n
  · rcases s.poll_cases with ⟨-, heq⟩ | ⟨p, buffered, -, -, heq⟩ <;> rw [heq] <;> exact hs.inTime

theorem step_aligned (h : Does s a s') (hs : Held s) : Aligned s'.p := by
  have hp := hs.aligned
  cases h with
  | poll => exact hs.poll.aligned
  | call | discard => exact { hp with }
  | abort => exact ⟨rfl, rfl, rfl⟩
  | stale | nested => exact hp
  | @run _ _ _ _ s₁ _ hrun =>
    have hp₁ : Aligned s₁.p := run_aligned hrun hp
    exact hp₁

theorem step_paired (h : Does s a s') (hs : Held s) : ∀ ops ∈ s'.goroutines, ∀ op ∈ ops, op.Paired := by
  have hrest {i : ℕ} {op : Op} {rest : List Op} (hi : s.goroutines[i]? = some (op :: rest)) :
      ∀ op ∈ rest, op.Paired := fun o ho =>
    hs.paired _ (List.mem_of_getElem? hi) o (List.mem_cons_of_mem op ho)
  cases h with
  | poll => exact hs.poll.paired
  | call r hop =>
    refine List.forall_mem_append.mpr ⟨hs.paired, List.forall_mem_singleton.mpr ?_⟩
    rcases hop with ⟨pkts, -, rfl⟩ | ⟨-, rfl⟩ | ⟨-, rfl⟩ <;> simp [Op.Paired]
  | discard => exact hs.paired
  | abort hi => exact Pool.forall_set hs.paired (List.forall_mem_cons.mpr ⟨trivial, hrest hi⟩)
  | stale hi => exact Pool.forall_set hs.paired (hrest hi)
  | nested hi =>
    exact Pool.forall_set hs.paired
      (List.forall_mem_cons.mpr ⟨trivial, List.forall_mem_cons.mpr ⟨trivial, hrest hi⟩⟩)
  | @run i _ rest ops s₁ hi hrun =>
    rw [(run_keeps hrun).1]
    exact Pool.forall_set hs.paired
      (List.forall_mem_append.mpr ⟨run_paired hrun hs.aligned, hrest hi⟩)

theorem step_inTime (h : Does s a s') (hs : Held s) : InTime s'.log := by
  cases h with
  | poll => exact hs.poll.inTime
  | call | discard | abort | stale | nested => exact hs.inTime
  | @run _ _ _ _ s₁ hi hrun =>
    have hlog : InTime s₁.log := run_inTime hrun hs.inTime fun n => hs.not_returned hi n
    exact hlog

theorem Held.step (hs : Held s) (h : s.step a = some s') : Held s' := by
  have hdoes := step_does h
  by_cases ha : a = .poll
  · subst ha
    cases h
    exact hs.poll
  · have hfires := step_fires hdoes hs.aligned hs.paired ha
    refine ⟨step_aligned hdoes hs, step_paired hdoes hs, ?_, ?_, step_inTime hdoes hs⟩
    · intro n hn
      obtain ⟨hpolls, t, ht⟩ := hfires n
      rw [hs.fresh n (hpolls ▸ hn)] at ht
      refine ht.eq_zero ?_
      cases t <;> simp [life]
    · intro n
      obtain ⟨-, t, ht⟩ := hfires n
      exact (hs.sound n).fires ht

/-- In every state the pending poll is described by all four fields or by none, and over
the whole run the channel of a poll is closed at most once and its response is written at
most once, before its handler returns. -/
theorem poll_slot_exclusive {acts : List Act} (h : Run step always {} acts s) :
    (s.p.writable = true ↔ s.p.req ≠ none) ∧ (s.p.req ≠ none ↔ s.p.res ≠ none) ∧
      (s.p.res ≠ none ↔ s.p.pollDone ≠ none) ∧
      (∀ n, s.log.count (.closedDone n) ≤ 1 ∧ s.log.countP (Event.writes n) ≤ 1) ∧ InTime s.log := by
  have hs : Held s := h.invariant Held .init fun _ _ _ hs _ hstep => hs.step hstep
  obtain ⟨hreq, hdone, hwritable⟩ := hs.aligned
  refine ⟨?_, by rw [hreq], by rw [hdone], fun n => ?_, hs.inTime⟩
  · rw [hwritable, hreq, Option.isSome_iff_ne_none]
  · have hlog (b : Place) : (s.log.map (Event.tokens n)).sum b ≤ s.marking n b := by
      simp only [marking, shared, Pi.add_apply]
      omega
    obtain ⟨hwrote, hclosed, -⟩ := log_tokens s.log n
    have hsound := hs.sound n
    constructor
    · have hle := hlog .closed
      have hone := hsound.done
      omega
    · have hle := hlog .wrote
      have hone := hsound.response
      omega

/-- A poll that a `Send` answers, while a second one is refused and the first is cancelled
too late. -/
def answered : List Act :=
  [.poll, .poll, .send [{ type := .message }], .go 3, .cancel 0, .go 2, .go 3, .go 2, .go 3, .go 1, .go 1,
    .go 1]

theorem answered_runs : (exec step always {} answered).isSome = true := by decide +kernel

theorem poll_slot_exclusive_answered : ((exec step always {} answered).get answered_runs).log =
      [.wrote 1 none, .wrote 0 (some [{ type := .message }]), .returned 1, .closedDone 0, .returned 0] ∧
    InTime ((exec step always {} answered).get answered_runs).log := by
  refine ⟨by decide +kernel, ?_⟩
  exact (poll_slot_exclusive (run_of_isSome answered_runs)).2.2.2.2

end State

end Polling

end Gosocketio

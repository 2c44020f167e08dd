import Gosocketio.Proofs.Finality

/-! What a call of `connectNsp` is told, and when `OnConnect` handlers run. A call waits
on a channel of its own, and the channel is written by the packet that answers the call
or by an engine that closes. A Connect packet calls the handlers of its namespace whether
or not a call waits for it. -/

namespace Gosocketio

open Runs SioClient

variable {t : Task}

def Task.remaining : Task → Option (ReconnectLoop × List Bytes)
  | .loop L (.attempt rest) => some (L, rest)
  | .loop L .reconnected => some (L, [])
  | .connectNsp (.attempt L rest) (.begin nsp _) | .connectNsp (.attempt L rest) (.send nsp _ _)
  | .connectNsp (.attempt L rest) (.wait nsp _) => some (L, nsp :: rest)
  | _ => none

def Task.registered : Task → Option (Caller × Bytes × ChanId)
  | .connectNsp k (.send nsp _ ch) | .connectNsp k (.wait nsp ch) => some (k, nsp, ch)
  | _ => none

theorem Task.pending_of_remaining {x : ReconnectLoop × List Bytes} (h : t.remaining = some x) :
    t.pending = true := by
  unfold Task.remaining at h
  split at h <;> first | rfl | cases h

theorem Task.pending_of_registered {x : Caller × Bytes × ChanId} (h : t.registered = some x) :
    t.pending = true := by
  unfold Task.registered at h
  split at h <;> first | rfl | cases h

namespace Reconnect

variable {o : ReconnectOptions} {s s' : Reconnect} {a : Act} {acts : List Act} {ch : ChanId}

/-- Goroutine `i` is in `connectNsp`, and waits on `ch` for `nsp`. -/
def Waiting (s : Reconnect) (i : ℕ) (k : Caller) (nsp : Bytes) (ch : ChanId) : Prop :=
  s.tasks[i]?.bind Task.registered = some (k, nsp, ch)

/-- The call is about to receive nil, which it returns. -/
def ReturnsNil (s : Reconnect) (i : ℕ) (k : Caller) (nsp : Bytes) (ch : ChanId) : Prop :=
  s.tasks[i]? = some (.connectNsp k (.wait nsp ch)) ∧ s.client.chans ch = some none

/-- While the call was waiting, a Connect packet for the namespace was processed and
connected it. -/
def Confirmed (o : ReconnectOptions) (acts : List Act) (i : ℕ) (k : Caller) (nsp : Bytes) (ch : ChanId) :
    Prop :=
  ∃ before after s₁ s₂ pkt, acts = before ++ .receive :: after ∧
    Run (Reconnect.step o) always initial before s₁ ∧ s₁.step o .receive = some s₂ ∧
    s₁.inbound.head? = some pkt ∧ pkt.type = .connect ∧ pkt.nsp = nsp ∧ s₁.Waiting i k nsp ch ∧
    s₁.client.Connected nsp = false ∧ s₂.client.Connected nsp = true

theorem Confirmed.snoc {i : ℕ} {k : Caller} {nsp : Bytes} (h : Confirmed o acts i k nsp ch)
    (a : Act) : Confirmed o (acts ++ [a]) i k nsp ch := by
  obtain ⟨before, after, s₁, s₂, pkt, rfl, h⟩ := h
  exact ⟨before, after ++ [a], s₁, s₂, pkt, by simp, h⟩

/-- An engine that was closed by a close packet reports this, with a nil error, only
while no call waits. -/
def Truthful (s : Reconnect) : Act → Prop
  | .turn i _ => (∃ t ∈ s.tasks[i]?, t matches .onEngineClosed .close) → s.client.connecting.keys = []
  | _ => True

section Registered

/-- Every call waits on a channel of its own, in the name of its namespace. -/
structure Registered (s : Reconnect) : Prop where
  waits : s.client.Waits
  awaited : ∀ n ch, s.client.awaited n = some ch → ch < s.calls
  told : ∀ ch r, s.client.chans ch = some r → ch < s.calls
  calls : ∀ i k nsp ch, s.Waiting i k nsp ch → ch < s.calls
  own : ∀ i k nsp ch n, s.Waiting i k nsp ch → s.client.awaited n = some ch → n = nsp

theorem registered_initial : Registered initial := by
  have hnone i k nsp ch : ¬ initial.Waiting i k nsp ch := by
    intro h
    cases i with
    | zero | succ => cases h
  refine ⟨nofun, nofun, nofun, fun i k nsp ch h => ?_, fun i k nsp ch n h => ?_⟩ <;>
    exact absurd h (hnone i k nsp ch)

theorem waiting_of_other {i : ℕ} {k : Caller} {nsp : Bytes}
    (htasks : ∀ (j : ℕ) (v : Task), s'.tasks[j]? = some v →
    s.tasks[j]? = some v ∨ v.pending = false ∨ ∃ t, s.tasks[j]? = some t ∧ Goes s t v)
    (h : s'.Waiting i k nsp ch) : s.Waiting i k nsp ch := by
  obtain ⟨v, hv, hreg⟩ := Option.bind_eq_some_iff.mp h
  rcases htasks i v hv with hi | hpend | ⟨t, hi, hgoes⟩
  · exact Option.bind_eq_some_iff.mpr ⟨v, hi, hreg⟩
  · rw [Task.pending_of_registered hreg] at hpend
    cases hpend
  · cases hgoes with
    | send => exact Option.bind_eq_some_iff.mpr ⟨_, hi, hreg⟩
    | told | dialed | connect | reconnected => cases hreg

theorem waiting_set {i j : ℕ} {u : Task} {k : Caller} {nsp : Bytes}
    (htasks : s'.tasks = s.tasks.set j u) (h : s'.Waiting i k nsp ch) :
    s.Waiting i k nsp ch ∨ u.registered = some (k, nsp, ch) := by
  obtain ⟨v, hv, hreg⟩ := Option.bind_eq_some_iff.mp h
  rw [htasks, List.getElem?_set] at hv
  split_ifs at hv
  · obtain rfl : u = v := Option.some.inj hv
    exact .inr hreg
  · exact .inl (Option.bind_eq_some_iff.mpr ⟨v, hv, hreg⟩)

theorem Registered.begin (h : Registered s) {i : ℕ} {k : Caller} {nsp : Bytes} {data : Value}
    {handed : List (DialId × Packet)} :
    Registered { s with
      client := s.client.await nsp data s.calls
      calls := s.calls + 1
      handed
      tasks := s.tasks.set i (.connectNsp k (.send nsp data s.calls)) } := by
  have hwait {i' k' nsp' ch} (hw : Waiting { s with
      client := s.client.await nsp data s.calls
      calls := s.calls + 1
      handed
      tasks := s.tasks.set i (.connectNsp k (.send nsp data s.calls)) } i' k' nsp' ch) :
      s.Waiting i' k' nsp' ch ∨ nsp = nsp' ∧ s.calls = ch := by
    refine (waiting_set rfl hw).imp_right fun hreg => ?_
    obtain ⟨-, hnsp, hch⟩ : k = k' ∧ nsp = nsp' ∧ s.calls = ch := by
      simpa [Task.registered] using hreg
    exact ⟨hnsp, hch⟩
  refine ⟨h.waits.await data s.calls, fun n ch hn => ?_, fun ch r hr => ?_, fun i' k' nsp' ch hw => ?_,
    fun i' k' nsp' ch n hw hn => ?_⟩
  · rw [awaited_await] at hn
    split_ifs at hn
    · obtain rfl := Option.some.inj hn
      exact Nat.lt_succ_self _
    · exact (h.awaited n ch hn).trans (Nat.lt_succ_self _)
  · exact (h.told ch r hr).trans (Nat.lt_succ_self _)
  · rcases hwait hw with hw | ⟨-, rfl⟩
    · exact (h.calls i' k' nsp' ch hw).trans (Nat.lt_succ_self _)
    · exact Nat.lt_succ_self _
  · rw [awaited_await] at hn
    rcases hwait hw with hw | ⟨rfl, rfl⟩
    · split_ifs at hn with heq
      · obtain rfl := Option.some.inj hn
        exact absurd (h.calls i' k' nsp' _ hw) (lt_irrefl _)
      · exact h.own i' k' nsp' ch n hw hn
    · split_ifs at hn with heq
      · exact heq
      · exact absurd (h.awaited n _ hn) (lt_irrefl _)

theorem Registered.mono (h : Registered s) (hwaits : s'.client.Waits)
    (hawaited : ∀ n ch, s'.client.awaited n = some ch → s.client.awaited n = some ch)
    (htold : ∀ ch r, s'.client.chans ch = some r →
      s.client.chans ch = some r ∨ ∃ n, s.client.awaited n = some ch)
    (hcalls : s'.calls = s.calls)
    (hwaiting : ∀ i k nsp ch, s'.Waiting i k nsp ch → s.Waiting i k nsp ch) : Registered s' := by
  refine ⟨hwaits, fun n ch hn => ?_, fun ch r hr => ?_, fun i k nsp ch hw => ?_, fun i k nsp ch n hw hn => ?_⟩
  · rw [hcalls]
    exact h.awaited n ch (hawaited n ch hn)
  · rw [hcalls]
    rcases htold ch r hr with hr | ⟨n, hn⟩
    · exact h.told ch r hr
    · exact h.awaited n ch hn
  · rw [hcalls]
    exact h.calls i k nsp ch (hwaiting i k nsp ch hw)
  · exact h.own i k nsp ch n (hwaiting i k nsp ch hw) (hawaited n ch hn)

theorem Registered.step (h : Registered s) (hs : s.step o a = some s') : Registered s' := by
  cases (step_does hs).answers with
  | begin hi => exact h.begin
  | @handleConnect pkt inbound hin htype =>
    refine h.mono (h.waits.handleConnect pkt) (fun n ch hn => ?_) (fun ch r hr => ?_) rfl fun _ _ _ _ hw => hw
    · rw [awaited_handleConnect] at hn
      split_ifs at hn
      exact hn
    · exact (told_handleConnect s.client pkt hr).imp_right fun hr => ⟨_, hr.2⟩
  | @onEngineClosed i order d u hi hu =>
    refine h.mono nofun nofun (fun ch r hr => ?_) rfl fun i k nsp ch hw => ?_
    · exact (told_onEngineClosed s.client d order hr).imp_right And.right
    · refine (waiting_set rfl hw).resolve_right fun hreg => ?_
      rw [Task.pending_of_registered hreg] at hu
      cases hu
  | other hclient hcalls htasks =>
    refine h.mono (hclient.waits h.waits) hclient.awaited (fun ch r hr => ?_) hcalls fun _ _ _ _ hw =>
      waiting_of_other htasks hw
    exact (hclient.told ch r hr).imp_right And.right

theorem registered_of_run {ok : Reconnect → Act → Prop} (h : Run (Reconnect.step o) ok initial acts s) :
    Registered s :=
  h.invariant Registered registered_initial fun _ _ _ hI _ hs => hI.step hs

end Registered

section Told

/-- Who is told nil on a channel has been confirmed. -/
def Told (o : ReconnectOptions) (acts : List Act) (s : Reconnect) : Prop :=
  ∀ i k nsp ch, s.Waiting i k nsp ch → s.client.chans ch = some none → Confirmed o acts i k nsp ch

theorem Told.step (h : Told o acts s) (hrun : Run (Reconnect.step o) always initial acts s)
    (hok : s.Truthful a) (hs : s.step o a = some s') : Told o (acts ++ [a]) s' := by
  have hreg := registered_of_run hrun
  intro i k nsp ch hw htold
  cases (step_does hs).answers with
  | begin hi =>
    rcases waiting_set rfl hw with hw | hnew
    · exact (h i k nsp ch hw htold).snoc _
    · obtain ⟨-, -, rfl⟩ : _ = k ∧ _ = nsp ∧ s.calls = ch := by simpa [Task.registered] using hnew
      exact absurd (hreg.told _ _ htold) (lt_irrefl _)
  | @handleConnect pkt inbound hin htype =>
    rcases told_handleConnect s.client pkt htold with htold | ⟨-, hawaited⟩
    · exact (h i k nsp ch hw htold).snoc _
    · obtain rfl := hreg.own i k nsp ch pkt.nsp hw hawaited
      refine ⟨acts, [], s, _, pkt, rfl, hrun, hs, by rw [hin]; rfl, htype, rfl, hw, ?_, ?_⟩
      · obtain ⟨nc, hnc, hfalse⟩ := hreg.waits _ _ hawaited
        rw [SioClient.Connected, hnc]
        exact hfalse
      · rw [hreg.waits.connected_handleConnect, if_pos ⟨rfl, by rw [hawaited]; rfl⟩]
  | @onEngineClosed j order d u hi hu =>
    have hw : s.Waiting i k nsp ch := by
      refine (waiting_set rfl hw).resolve_right fun hnew => ?_
      rw [Task.pending_of_registered hnew] at hu
      cases hu
    rcases told_onEngineClosed s.client d order htold with htold | ⟨herr, n, hn⟩
    · exact (h i k nsp ch hw htold).snoc _
    · -- only a close packet is reported without an error
      cases d with
      | heartbeat | error => cases herr
      | close =>
        have hnone := hok ⟨_, hi, rfl⟩
        have hmem : n ∈ s.client.connecting.keys := AList.mem_keys.mpr (AList.lookup_isSome.mp (by
          rw [SioClient.awaited] at hn
          rw [hn]
          rfl))
        rw [hnone] at hmem
        cases hmem
  | other hclient hcalls htasks =>
    rcases hclient.told ch none htold with htold | ⟨hne, -⟩
    · exact (h i k nsp ch (waiting_of_other htasks hw) htold).snoc _
    · exact absurd rfl hne

/-- The namespaces an attempt has dealt with were confirmed to it. -/
def Progress (o : ReconnectOptions) (acts : List Act) (s : Reconnect) : Prop :=
  ∀ (i : ℕ) (t : Task) L rest, s.tasks[i]? = some t → t.remaining = some (L, rest) →
    ∀ nsp ∈ L.nsps, nsp ∈ rest ∨ ∃ rest ch, Confirmed o acts i (.attempt L rest) nsp ch

theorem Progress.snoc {i : ℕ} {L : ReconnectLoop} {rest : List Bytes} (h : Progress o acts s) (a : Act)
    (hi : s.tasks[i]? = some t) (hrem : t.remaining = some (L, rest)) {nsp : Bytes} (hnsp : nsp ∈ L.nsps) :
    nsp ∈ rest ∨ ∃ rest ch, Confirmed o (acts ++ [a]) i (.attempt L rest) nsp ch := by
  refine (h i t L rest hi hrem nsp hnsp).imp_right ?_
  rintro ⟨rest, ch, hc⟩
  exact ⟨rest, ch, hc.snoc a⟩

theorem Progress.goes {i : ℕ} {t u : Task} {L : ReconnectLoop} {rest : List Bytes} (h : Progress o acts s)
    (htold : Told o acts s) (hi : s.tasks[i]? = some t) (hgoes : Goes s t u)
    (hrem : u.remaining = some (L, rest)) {nsp : Bytes} (hnsp : nsp ∈ L.nsps) (a : Act) :
    nsp ∈ rest ∨ ∃ rest ch, Confirmed o (acts ++ [a]) i (.attempt L rest) nsp ch := by
  cases hgoes with
  | @send k nsp' data ch =>
    cases k with
    | dial | app => cases hrem
    | attempt L' rest' => exact h.snoc a hi hrem hnsp
  | @told L' rest' nsp' ch hch =>
    cases hrem
    rcases h.snoc a hi rfl hnsp with hmem | hc
    · rcases List.mem_cons.mp hmem with rfl | hmem
      · have hw : s.Waiting i (.attempt L rest) nsp ch := by
          unfold Waiting
          rw [hi]
          rfl
        exact .inr ⟨rest, ch, (htold i _ nsp ch hw hch).snoc a⟩
      · exact .inl hmem
    · exact .inr hc
  | dialed =>
    cases hrem
    exact .inl hnsp
  | connect | reconnected =>
    cases hrem
    exact h.snoc a hi rfl hnsp

theorem Progress.step (h : Progress o acts s) (htold : Told o acts s) (hs : s.step o a = some s') :
    Progress o (acts ++ [a]) s' := by
  intro i t L rest hi hrem nsp hnsp
  cases (step_does hs).answers with
  | @begin j order k nsp' data handed hj =>
    rw [List.getElem?_set] at hi
    split_ifs at hi with hij
    · subst hij
      obtain rfl := Option.some.inj hi
      cases k with
      | dial | app => cases hrem
      | attempt L' rest' => exact h.snoc _ hj hrem hnsp
    · exact h.snoc _ hi hrem hnsp
  | handleConnect hin htype => exact h.snoc _ hi hrem hnsp
  | onEngineClosed hj hu =>
    rw [List.getElem?_set] at hi
    split_ifs at hi with hij
    · obtain rfl := Option.some.inj hi
      rw [Task.pending_of_remaining hrem] at hu
      cases hu
    · exact h.snoc _ hi hrem hnsp
  | other hclient hcalls htasks =>
    rcases htasks i t hi with hi | hpend | ⟨u, hi, hgoes⟩
    · exact h.snoc _ hi hrem hnsp
    · rw [Task.pending_of_remaining hrem] at hpend
      cases hpend
    · exact h.goes htold hi hgoes hrem hnsp _

theorem told_initial : Told o [] initial := by
  intro i k nsp ch _ htold
  cases htold

theorem progress_initial : Progress o [] initial := by
  intro i t L rest hi hrem
  cases i with
  | zero =>
    cases hi
    cases hrem
  | succ i => cases hi

theorem told_of_run (hrun : Run (Reconnect.step o) Truthful initial acts s) :
    Told o acts s ∧ Progress o acts s := by
  induction hrun with
  | nil => exact ⟨told_initial, progress_initial⟩
  | snoc hrun hok hs ih =>
    exact ⟨ih.1.step hrun.unconditional hok hs, ih.2.step ih.1 hs⟩

end Told

/-- In a run in which close packets find no call waiting, a call of `connectNsp` returns
nil only if a Connect packet connected its namespace while it waited, and
`reconnectAttempt` only if this holds of every namespace it was given. -/
theorem connectNsp_nil_confirmed (hrun : Run (Reconnect.step o) Truthful initial acts s) :
    (∀ i k nsp ch, s.ReturnsNil i k nsp ch → Confirmed o acts i k nsp ch) ∧
      ∀ i L, s.tasks[i]? = some (.loop L .reconnected) →
        ∀ nsp ∈ L.nsps, ∃ rest ch, Confirmed o acts i (.attempt L rest) nsp ch := by
  obtain ⟨htold, hprogress⟩ := told_of_run hrun
  refine ⟨fun i k nsp ch ⟨hi, hch⟩ => htold i k nsp ch ?_ hch, fun i L hi nsp hnsp => ?_⟩
  · unfold Waiting
    rw [hi]
    rfl
  · exact (hprogress i _ L [] hi rfl nsp hnsp).resolve_left List.not_mem_nil

section NonVacuity

instance (s : Reconnect) (a : Act) : Decidable (s.Truthful a) := by
  rcases a with _ | _ <;> unfold Truthful <;> infer_instance

/-- The connection fails, and an attempt connects the default namespace again. -/
def regained : List Act :=
  open₀ ++ lose 0 1 [defaultNamespace] ++ redial 1 ++ [Act.turn 1 []] ++ exchange 1 1 (accepted defaultNamespace) ++
    [Act.turn 1 []]

theorem regained_runs : (exec (Reconnect.step {}) Truthful initial regained).isSome = true := by
  decide +kernel

theorem connectNsp_nil_confirmed_regained :
    ∃ rest ch, Confirmed {} regained 1 (.attempt { nsps := [defaultNamespace], attempt := 1 } rest)
      defaultNamespace ch :=
  (connectNsp_nil_confirmed (run_of_isSome regained_runs)).2 1 { nsps := [defaultNamespace], attempt := 1 }
    rfl defaultNamespace (List.mem_singleton_self _)

/-- `Dial` waits for the default namespace, and the server sends a close packet. -/
def closedInConnect : List Act :=
  redial 0 ++ [Act.turn 0 [], .turn 0 [], .closeWithError 0 .close, .turn 1 []]

theorem closedInConnect_runs : (exec (Reconnect.step {}) always initial closedInConnect).isSome = true := by
  decide +kernel

/-- The call returns nil, and no packet has been processed. -/
theorem close_packet_returns_nil : ¬ ∀ (o : ReconnectOptions) (acts : List Act) (s : Reconnect),
    Run (Reconnect.step o) always initial acts s →
      (∀ i k nsp ch, s.ReturnsNil i k nsp ch → Confirmed o acts i k nsp ch) ∧
        ∀ i L, s.tasks[i]? = some (.loop L .reconnected) →
          ∀ nsp ∈ L.nsps, ∃ rest ch, Confirmed o acts i (.attempt L rest) nsp ch := by
  intro h
  obtain ⟨before, after, s₁, s₂, pkt, hacts, -⟩ :=
    (h {} closedInConnect _ (run_of_isSome closedInConnect_runs)).1 0 .dial defaultNamespace 0
      ⟨rfl, rfl⟩
  have hmem : Act.receive ∈ closedInConnect := by
    rw [hacts]
    exact List.mem_append_right _ List.mem_cons_self
  simp [closedInConnect, redial] at hmem

end NonVacuity

section OnConnect

variable {pkt : Packet}

/-- A Connect packet that is processed finds a call of `connectNsp` waiting. -/
def Solicited (s : Reconnect) : Act → Prop
  | .receive => ∀ pkt ∈ s.inbound.head?, pkt.type = .connect → (s.client.awaited pkt.nsp).isSome = true
  | _ => True

def onConnects (s : Reconnect) (nsp : Bytes) : ℕ := s.client.started.count (.connect nsp)

def connects (s s' : Reconnect) (nsp : Bytes) : Bool := !s.client.Connected nsp && s'.client.Connected nsp

theorem count_of_subsides {C D : SioClient} (h : Subsides C D) (nsp : Bytes) :
    D.started.count (.connect nsp) = C.started.count (.connect nsp) := by
  have hcount (C : SioClient) : C.connects.count (.connect nsp) = C.started.count (.connect nsp) :=
    List.count_filter rfl
  rw [← hcount, ← hcount, h.connects]

theorem connects_of_subsides (h : Subsides s.client s'.client) (nsp : Bytes) : connects s s' nsp = false := by
  unfold connects
  cases hconn : s'.client.Connected nsp with
  | false => exact Bool.and_false _
  | true =>
    rw [h.connected nsp hconn]
    rfl

theorem started_handleConnect (C : SioClient) (pkt : Packet) :
    (C.handleConnect pkt).started = C.started ++ [.connect pkt.nsp] := by
  unfold SioClient.handleConnect
  cases C.connecting.lookup pkt.nsp with
  | none => rfl
  | some ch => exact congrArg (· ++ [Handler.connect pkt.nsp]) (started_modifyNsp ..)

theorem receive_connect (hin : s.inbound.head? = some pkt) (htype : pkt.type = .connect)
    (hs : s.step o .receive = some s') : s'.client = s.client.handleConnect pkt := by
  obtain ⟨inbound, hin⟩ : ∃ inbound, s.inbound = pkt :: inbound := List.head?_eq_some_iff.mp hin
  rw [step, hin] at hs
  split_ifs at hs
  obtain rfl := Option.some.inj hs
  rw [process, htype]

theorem onConnects_receive (hclient : s'.client = s.client.handleConnect pkt) (nsp : Bytes) :
    s'.onConnects nsp = s.onConnects nsp + if nsp = pkt.nsp then 1 else 0 := by
  unfold onConnects
  rw [hclient, started_handleConnect, List.count_append]
  congr 1
  split_ifs with hnsp
  · rw [hnsp, List.count_singleton_self]
  · refine List.count_eq_zero.mpr fun hmem => hnsp ?_
    exact Handler.connect.inj (List.mem_singleton.mp hmem)

theorem connects_receive (hwaits : s.client.Waits)
    (hclient : s'.client = s.client.handleConnect pkt) (nsp : Bytes) :
    connects s s' nsp = decide (nsp = pkt.nsp ∧ (s.client.awaited pkt.nsp).isSome = true) := by
  unfold connects
  rw [hclient, hwaits.connected_handleConnect]
  split_ifs with hcond
  · obtain ⟨rfl, hsome⟩ := hcond
    obtain ⟨ch, hch⟩ := Option.isSome_iff_exists.mp hsome
    obtain ⟨nc, hnc, hfalse⟩ := hwaits _ _ hch
    rw [SioClient.Connected, hnc]
    simp [hfalse, hsome]
  · rw [decide_eq_false hcond]
    exact Bool.not_and_self _

/-- Every step of a run starts the `OnConnect` handlers of the namespaces that become
connected, once each, and of no others, exactly if it does not process a Connect packet
that no call waits for. -/
theorem onConnect_exact_iff (hrun : Run (Reconnect.step o) always initial acts s)
    (hs : s.step o a = some s') :
    (∀ nsp, s'.onConnects nsp = s.onConnects nsp + (connects s s' nsp).toNat) ↔ s.Solicited a := by
  rcases subsides_or_handleConnect hs with hsub | ⟨pkt, inbound, rfl, hin, htype, hclient⟩
  · refine ⟨fun _ => ?_, fun _ nsp => ?_⟩
    · cases a with
      | receive =>
        intro pkt hpkt htype
        have hcount := onConnects_receive (receive_connect hpkt htype hs) pkt.nsp
        rw [if_pos rfl, onConnects, count_of_subsides hsub] at hcount
        exact absurd hcount (Nat.succ_ne_self _).symm
      | _ => trivial
    · rw [connects_of_subsides hsub]
      exact count_of_subsides hsub nsp
  · have hwaits := (registered_of_run hrun).waits
    constructor
    · intro hstarts pkt' hpkt' htype'
      rw [hin] at hpkt'
      obtain rfl : pkt = pkt' := Option.some.inj hpkt'
      have hone := hstarts pkt.nsp
      rw [onConnects_receive hclient, connects_receive hwaits hclient, if_pos rfl] at hone
      by_contra hnone
      rw [decide_eq_false fun h => hnone h.2] at hone
      exact absurd hone (Nat.succ_ne_self _)
    · intro hsolicited nsp
      have hsome := hsolicited pkt (by rw [hin]; rfl) htype
      rw [onConnects_receive hclient, connects_receive hwaits hclient]
      by_cases hnsp : nsp = pkt.nsp
      · simp [hnsp, hsome]
      · simp [hnsp]

/-- `Dial` succeeds, and the reply to a later call has arrived. -/
def answered : List Act :=
  open₀ ++ [Act.connectNamespace [47, 97] .null, .turn 1 [], .turn 1 [], .onData 0 (accepted [47, 97])]

theorem answered_runs : (exec (Reconnect.step {}) always initial answered).isSome = true := by
  decide +kernel

def answeredState : Reconnect := (exec (Reconnect.step {}) always initial answered).get answered_runs

theorem onConnect_exact_iff_answered :
    answeredState.Solicited .receive ∧ ∀ nsp, ∀ s', answeredState.step {} .receive = some s' →
      s'.onConnects nsp = answeredState.onConnects nsp + (connects answeredState s' nsp).toNat := by
  have hsolicited : answeredState.Solicited .receive := by
    intro pkt hpkt htype
    cases hpkt
    decide +kernel
  exact ⟨hsolicited, fun nsp s' hs =>
    (onConnect_exact_iff (run_of_isSome answered_runs) hs).mpr hsolicited nsp⟩

/-- The call has timed out by the time the reply arrives. -/
def late : List Act :=
  open₀ ++ [Act.connectNamespace [47, 97] .null, .turn 1 [], .turn 1 [], .timeout 1, .onData 0 (accepted [47, 97])]

theorem late_runs : (exec (Reconnect.step {}) always initial late).isSome = true := by
  decide +kernel

def lateState : Reconnect := (exec (Reconnect.step {}) always initial late).get late_runs

theorem late_receives : (lateState.step {} .receive).isSome = true := by
  decide +kernel

theorem late_connect_starts_handlers : ¬ ∀ (o : ReconnectOptions) (acts : List Act) (s s' : Reconnect) (a : Act),
    Run (Reconnect.step o) always initial acts s → s.step o a = some s' →
      ∀ nsp, s'.onConnects nsp = s.onConnects nsp + (connects s s' nsp).toNat := by
  intro h
  have hstarts := h {} late lateState _ .receive (run_of_isSome late_runs) (Option.some_get late_receives).symm
    [47, 97]
  revert hstarts
  decide +kernel

end OnConnect

end Reconnect

end Gosocketio

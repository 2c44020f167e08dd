import Gosocketio.Spec.Registry

/-! The table of namespaces is used by any number of goroutines at once. Whatever way they
interleave, there is one namespace of each name, and the table behaves like a map whose operations
are one step each. -/

namespace Gosocketio.Registry

open Runs Stacks Pool

variable {F H : Type} {s s' : Registry F H} {w w' : State F H} {bs : List (Op F H)} {op : Op F H}
  {n : Registered F H} {a : Act F H}

section Steps

inductive Does (s : Registry F H) : Op F H → Registry F H → List (Op F H) → Prop
  | found {name k op handler} (hop : op = .find name handler ∨ op = .create name handler)
      (hk : s.nsps.lookup name = some k) :
      Does s op { s with answers := s.answers ++ [(name, k)] } (handler.toList.map (.register name k))
  | missed {name handler} (hk : s.nsps.lookup name = none) :
      Does s (.find name handler) s [.create name handler]
  | created {name handler} (hk : s.nsps.lookup name = none) : Does s (.create name handler)
        { s.newNamespace name with answers := s.answers ++ [(name, s.made.length)] }
        (handler.toList.map (.register name s.made.length))
  | registered {name k n handler} (hn : s.made[k]? = some n) :
      Does s (.register name k handler) (s.addHandler k n handler) []
  | set (f) : Does s (.setAdapterFactory f) (if s.adapterLocked then s else { s with adapterFactory := f }) []
  | snapshot {order} (horder : order.Perm (s.nsps.entries.map Sigma.snd)) :
      Does s (.snapshot order) { s with snapshots := s.snapshots ++ [s.made.length] } (order.map .release)
  | release (k) : Does s (.release k) { s with released := s.released ++ [k] } []

theorem does_of_run {new : List (List (Op F H))}
    (h : run s op = some (s', bs, new)) : Does s op s' bs ∧ new = [] := by
  cases op with
  | find name handler =>
    rw [run] at h
    split at h <;> cases h
    · exact ⟨.found (.inl rfl) ‹_›, rfl⟩
    · exact ⟨.missed ‹_›, rfl⟩
  | create name handler =>
    rw [run] at h
    split at h <;> cases h
    · exact ⟨.found (.inr rfl) ‹_›, rfl⟩
    · exact ⟨.created ‹_›, rfl⟩
  | register name k handler =>
    rw [run] at h
    split at h <;> cases h
    exact ⟨.registered ‹_›, rfl⟩
  | setAdapterFactory f =>
    cases h
    exact ⟨.set f, rfl⟩
  | snapshot order =>
    rw [run] at h
    split_ifs at h with horder
    cases h
    exact ⟨.snapshot horder, rfl⟩
  | release k =>
    cases h
    exact ⟨.release k, rfl⟩

inductive Move (w : State F H) : Act F H → State F H → Prop
  | call (c : Call F H) : Move w (.call c) ⟨w.shared, w.tasks ++ [c.begin]⟩
  | go {i op ops s' bs} (hi : w.tasks[i]? = some (op :: ops)) (hdoes : Does w.shared op s' bs) :
      Move w (.go i) ⟨s', w.tasks.set i (bs ++ ops)⟩

theorem move_of_step (h : step w a = some w') : Move w a w' := by
  cases a with
  | call c =>
    cases h
    exact .call c
  | go i =>
    obtain ⟨op, ops, s', bs, new, hi, hrun, rfl⟩ := go_eq_some h
    obtain ⟨hdoes, rfl⟩ := does_of_run hrun
    rw [List.append_nil]
    exact .go hi hdoes

end Steps

section Tables

variable {name : Bytes} {k : ℕ}

/-- The table has exactly the namespaces that were made, each under its name. -/
structure Faithful (s : Registry F H) : Prop where
  lookup : ∀ name k, s.nsps.lookup name = some k ↔ ∃ n, s.made[k]? = some n ∧ n.name = name
  answers : ∀ a ∈ s.answers, s.nsps.lookup a.1 = some a.2

/-- Nothing disappears from the table, and a namespace stays what it is. -/
structure Grows (s s' : Registry F H) : Prop where
  lookup : ∀ name k, s.nsps.lookup name = some k → s'.nsps.lookup name = some k
  made : ∀ (k : ℕ) (n : Registered F H), s.made[k]? = some n → ∃ n', s'.made[k]? = some n' ∧
    n'.name = n.name ∧ n'.adapter = n.adapter ∧ n.handlers <+: n'.handlers

theorem Grows.refl (s : Registry F H) : Grows s s :=
  ⟨fun _ _ h => h, fun _ n h => ⟨n, h, rfl, rfl, List.prefix_refl _⟩⟩

theorem Grows.trans {s'' : Registry F H} (h : Grows s s') (h' : Grows s' s'') : Grows s s'' := by
  refine ⟨fun name k hk => h'.lookup name k (h.lookup name k hk), fun k n hn => ?_⟩
  obtain ⟨n', hn', hname, hadapter, hpre⟩ := h.made k n hn
  obtain ⟨n'', hn'', hname', hadapter', hpre'⟩ := h'.made k n' hn'
  exact ⟨n'', hn'', hname'.trans hname, hadapter'.trans hadapter, hpre.trans hpre'⟩

theorem Grows.same (hnsps : s'.nsps = s.nsps) (hmade : s'.made = s.made) : Grows s s' := by
  refine ⟨fun name k hk => ?_, fun k n hn => ⟨n, ?_, rfl, rfl, List.prefix_refl _⟩⟩
  · rwa [hnsps]
  · rwa [hmade]

theorem lookup_newNamespace (s : Registry F H) (name name' : Bytes) :
    (s.newNamespace name).nsps.lookup name' =
      if name' = name then some s.made.length else s.nsps.lookup name' := by
  split_ifs with h
  · rw [h, newNamespace, AList.lookup_insert]
  · rw [newNamespace, AList.lookup_insert_ne h]

theorem made_newNamespace (s : Registry F H) (name : Bytes) (k : ℕ) (n : Registered F H) :
    (s.newNamespace name).made[k]? = some n ↔
      s.made[k]? = some n ∨ k = s.made.length ∧ n = { name, adapter := s.adapterFactory } := by
  rw [newNamespace, List.getElem?_append]
  split_ifs with hlt
  · constructor
    · exact .inl
    · rintro (h | ⟨rfl, -⟩)
      · exact h
      · exact absurd hlt (lt_irrefl _)
  · have hnone : s.made[k]? = none := List.getElem?_eq_none (not_lt.mp hlt)
    rw [hnone, List.getElem?_singleton]
    constructor
    · intro h
      split_ifs at h with hk
      exact .inr ⟨by omega, (Option.some.inj h).symm⟩
    · rintro (h | ⟨rfl, rfl⟩)
      · cases h
      · simp

theorem grows_newNamespace (hk : s.nsps.lookup name = none) : Grows s (s.newNamespace name) := by
  refine ⟨fun name' k hk' => ?_, fun k n hn => ?_⟩
  · rw [lookup_newNamespace, if_neg]
    · exact hk'
    · rintro rfl
      rw [hk] at hk'
      cases hk'
  · exact ⟨n, (made_newNamespace s name k n).mpr (.inl hn), rfl, rfl, List.prefix_refl _⟩

theorem made_addHandler {n m : Registered F H} {j : ℕ} {handler : H} (hn : s.made[k]? = some n)
    (hj : (s.addHandler k n handler).made[j]? = some m) :
    ∃ m', s.made[j]? = some m' ∧ m'.name = m.name ∧ m'.adapter = m.adapter := by
  obtain ⟨hlt, -⟩ := List.getElem?_eq_some_iff.mp hn
  rw [addHandler] at hj
  by_cases hkj : k = j
  · subst hkj
    rw [List.getElem?_set_self hlt] at hj
    cases hj
    exact ⟨n, hn, rfl, rfl⟩
  · rw [List.getElem?_set_ne hkj] at hj
    exact ⟨m, hj, rfl, rfl⟩

theorem grows_addHandler (hn : s.made[k]? = some n) (handler : H) :
    Grows s (s.addHandler k n handler) := by
  refine ⟨fun _ _ h => h, fun j m hm => ?_⟩
  obtain ⟨hlt, -⟩ := List.getElem?_eq_some_iff.mp hn
  by_cases hkj : k = j
  · subst hkj
    rw [hn] at hm
    cases hm
    exact ⟨_, List.getElem?_set_self hlt, rfl, rfl, List.prefix_append _ _⟩
  · refine ⟨m, ?_, rfl, rfl, List.prefix_refl _⟩
    change (s.made.set k _)[j]? = some m
    rw [List.getElem?_set_ne hkj, hm]

theorem Does.grows (h : Does s op s' bs) : Grows s s' := by
  cases h with
  | found | snapshot | release => exact .same rfl rfl
  | missed => exact .refl s
  | created hk => exact (grows_newNamespace hk).trans (.same rfl rfl)
  | registered hn => exact grows_addHandler hn _
  | set f =>
    split_ifs
    · exact .refl s
    · exact .same rfl rfl

theorem faithful_newNamespace (hF : Faithful s) (hk : s.nsps.lookup name = none) :
    Faithful (s.newNamespace name) := by
  refine ⟨fun name' k => ?_, fun a ha => (grows_newNamespace hk).lookup _ _ (hF.answers a ha)⟩
  rw [lookup_newNamespace]
  split_ifs with h
  · subst h
    constructor
    · intro hk'
      cases hk'
      exact ⟨_, (made_newNamespace s name' _ _).mpr (.inr ⟨rfl, rfl⟩), rfl⟩
    · rintro ⟨n, hn, hname⟩
      rcases (made_newNamespace s name' k n).mp hn with hn | ⟨rfl, -⟩
      · rw [(hF.lookup name' k).mpr ⟨n, hn, hname⟩] at hk
        cases hk
      · rfl
  · rw [hF.lookup]
    constructor
    · rintro ⟨n, hn, hname⟩
      exact ⟨n, (made_newNamespace s name k n).mpr (.inl hn), hname⟩
    · rintro ⟨n, hn, hname⟩
      rcases (made_newNamespace s name k n).mp hn with hn | ⟨-, rfl⟩
      · exact ⟨n, hn, hname⟩
      · exact absurd hname.symm h

theorem faithful_new (adapter : Option F) : Faithful (new adapter : Registry F H) := by
  refine faithful_newNamespace ⟨fun name k => ?_, fun a ha => ?_⟩ (AList.lookup_empty _)
  · simp [AList.lookup_empty]
  · cases ha

theorem Faithful.answered (hF : Faithful s) (hk : s.nsps.lookup name = some k) :
    Faithful { s with answers := s.answers ++ [(name, k)] } := by
  refine ⟨hF.lookup, ?_⟩
  simp only [List.forall_mem_append, List.forall_mem_singleton]
  exact ⟨hF.answers, hk⟩

theorem Faithful.step (hF : Faithful s) (h : Does s op s' bs) : Faithful s' := by
  cases h with
  | found _ hk => exact hF.answered hk
  | missed => exact hF
  | @created name _ hk =>
    refine (faithful_newNamespace hF hk).answered ?_
    rw [lookup_newNamespace, if_pos rfl]
  | @registered name k n handler hn =>
    refine ⟨fun name j => (hF.lookup name j).trans ⟨?_, ?_⟩, hF.answers⟩
    · rintro ⟨m, hm, hname⟩
      obtain ⟨m', hm', hname', -⟩ := (grows_addHandler hn handler).made j m hm
      exact ⟨m', hm', hname'.trans hname⟩
    · rintro ⟨m, hm, hname⟩
      obtain ⟨m', hm', hname', -⟩ := made_addHandler hn hm
      exact ⟨m', hm', hname'.trans hname⟩
  | set f =>
    split_ifs
    · exact hF
    · exact ⟨hF.lookup, hF.answers⟩
  | snapshot | release => exact ⟨hF.lookup, hF.answers⟩

theorem Faithful.nodup (hF : Faithful s) : (s.made.map Registered.name).Nodup := by
  rw [List.nodup_iff_getElem?_ne_getElem?]
  intro i j hij hj heq
  rw [List.length_map] at hj
  have hi : i < s.made.length := hij.trans hj
  rw [List.getElem?_map, List.getElem?_map, List.getElem?_eq_getElem hi, List.getElem?_eq_getElem hj,
    Option.map_some, Option.map_some, Option.some.injEq] at heq
  have hlookup := (hF.lookup _ i).mpr ⟨_, List.getElem?_eq_getElem hi, heq⟩
  rw [(hF.lookup _ j).mpr ⟨_, List.getElem?_eq_getElem hj, rfl⟩, Option.some.injEq] at hlookup
  omega

end Tables

section Refinement

variable {name : Bytes} {k : ℕ}

/-- A handler is about to be registered with the namespace of the name asked for. -/
def Op.Addressed (s : Registry F H) : Op F H → Prop
  | .register name k _ => s.nsps.lookup name = some k
  | _ => True

theorem addressed_mono (h : Grows s s') (op : Op F H) (hop : op.Addressed s) : op.Addressed s' := by
  cases op with
  | register name k handler => exact h.lookup name k hop
  | find | create | setAdapterFactory | snapshot | release => trivial

theorem Does.addressed (h : Does s op s' bs) : ∀ b ∈ bs, b.Addressed s' := by
  cases h with
  | found _ hk =>
    simp only [List.forall_mem_map]
    exact fun _ _ => hk
  | missed | snapshot => simp [Op.Addressed]
  | created hk =>
    simp only [List.forall_mem_map]
    intro _ _
    change (s.newNamespace _).nsps.lookup _ = _
    rw [lookup_newNamespace, if_pos rfl]
  | registered | set | release => simp

/-- The table has what was made, and what goes on is addressed to it. -/
structure Sound (w : State F H) : Prop where
  faithful : Faithful w.shared
  addressed : Every (Op.Addressed w.shared) w.tasks

theorem sound_initial (adapter : Option F) : Sound (initial adapter : State F H) :=
  ⟨faithful_new adapter, every_nil⟩

theorem addressed_begin (c : Call F H) : ∀ op ∈ c.begin, op.Addressed s := by
  cases c with
  | namespaceFor | setAdapterFactory | close => simp [Call.begin, Op.Addressed]
  | registerNamespace nsp =>
    rw [Call.begin]
    split_ifs <;> simp [Op.Addressed]

theorem Sound.move (hw : Sound w) (h : Move w a w') : Sound w' := by
  cases h with
  | call c =>
    refine ⟨hw.faithful, ?_⟩
    rw [every_append, every_cons]
    exact ⟨hw.addressed, addressed_begin c, every_nil⟩
  | go hi hdoes =>
    refine ⟨hw.faithful.step hdoes, ?_⟩
    exact (hw.addressed.mono (addressed_mono hdoes.grows)).set hi hdoes.addressed

theorem entries_of_lookup (hk : s.nsps.lookup name = some k) (hn : s.made[k]? = some n) :
    s.directory.entries name = some (n.adapter, n.handlers) := by
  simp only [directory, hk, Option.bind_some, hn, Option.map_some]

theorem entries_of_lookup_none (hk : s.nsps.lookup name = none) : s.directory.entries name = none := by
  simp only [directory, hk, Option.bind_none, Option.map_none]

theorem directory_newNamespace (hF : Faithful s) (hk : s.nsps.lookup name = none) :
    Directory.step s.directory (.namespaceFor name) = some (s.newNamespace name).directory := by
  have hentries (name' : Bytes) : Function.update s.directory.entries name
      (s.directory.entries name <|> some (s.adapterFactory, [])) name' =
        (s.newNamespace name).directory.entries name' := by
    have hlookup := lookup_newNamespace s name name'
    by_cases h : name' = name
    · subst h
      rw [if_pos rfl] at hlookup
      rw [Function.update_self, entries_of_lookup_none hk,
        entries_of_lookup hlookup ((made_newNamespace s name' _ _).mpr (.inr ⟨rfl, rfl⟩))]
      rfl
    · rw [if_neg h] at hlookup
      rw [Function.update_of_ne h]
      cases hk' : s.nsps.lookup name' with
      | none => rw [entries_of_lookup_none hk', entries_of_lookup_none (hlookup.trans hk')]
      | some k' =>
        obtain ⟨n, hn, -⟩ := (hF.lookup name' k').mp hk'
        rw [entries_of_lookup hk' hn, entries_of_lookup (hlookup.trans hk')
          ((made_newNamespace s name k' n).mpr (.inl hn))]
  exact congrArg (fun entries => some { s.directory with entries }) (funext hentries)

theorem directory_addHandler (hF : Faithful s) (hk : s.nsps.lookup name = some k)
    (hn : s.made[k]? = some n) (handler : H) :
    Directory.step s.directory (.register name handler) = some (s.addHandler k n handler).directory := by
  obtain ⟨hlt, -⟩ := List.getElem?_eq_some_iff.mp hn
  have hentries (name' : Bytes) : Function.update s.directory.entries name
      (some (n.adapter, n.handlers ++ [handler])) name' = (s.addHandler k n handler).directory.entries name' := by
    have hlookup : (s.addHandler k n handler).nsps.lookup name' = s.nsps.lookup name' := rfl
    by_cases h : name' = name
    · subst h
      have hmade : (s.addHandler k n handler).made[k]? =
          some { n with handlers := n.handlers ++ [handler] } := List.getElem?_set_self hlt
      rw [Function.update_self, entries_of_lookup (hlookup.trans hk) hmade]
    · rw [Function.update_of_ne h]
      cases hk' : s.nsps.lookup name' with
      | none => rw [entries_of_lookup_none hk', entries_of_lookup_none (hlookup.trans hk')]
      | some k' =>
        obtain ⟨n', hn', hname'⟩ := (hF.lookup name' k').mp hk'
        have hkk' : k ≠ k' := by
          rintro rfl
          obtain ⟨m, hm, hname⟩ := (hF.lookup name k).mp hk
          rw [hm] at hn'
          cases hn'
          exact h (hname'.symm.trans hname)
        have hmade : (s.addHandler k n handler).made[k']? = some n' := by
          rw [addHandler, List.getElem?_set_ne hkk', hn']
        rw [entries_of_lookup hk' hn', entries_of_lookup (hlookup.trans hk') hmade]
  rw [Directory.step, entries_of_lookup hk hn]
  exact congrArg (fun entries => some { s.directory with entries }) (funext hentries)

theorem directory_found (hF : Faithful s) (hk : s.nsps.lookup name = some k) :
    Directory.step s.directory (.namespaceFor name) = some s.directory := by
  obtain ⟨n, hn, -⟩ := (hF.lookup name k).mp hk
  rw [Directory.step, entries_of_lookup hk hn, Option.orElse_eq_orElse, Option.orElse_eq_or, Option.some_or,
    ← entries_of_lookup hk hn, Function.update_eq_self]

/-- What a section completes, the directory does in one step. -/
theorem Does.directory (hF : Faithful s) (hop : op.Addressed s)
    (h : Does s op s' bs) : Run Directory.step always s.directory (op.completes s) s'.directory := by
  cases h with
  | @found name k op handler hop' hk =>
    have hcompletes : op.completes s = [.namespaceFor name] := by
      rcases hop' with rfl | rfl
      · simp [Op.completes, hk]
      · rfl
    rw [hcompletes]
    exact .cons trivial (directory_found hF hk) .nil
  | missed hk =>
    rw [Op.completes, hk]
    exact .nil
  | created hk => exact .cons trivial (directory_newNamespace hF hk) .nil
  | registered hn => exact .cons trivial (directory_addHandler hF hop hn _) .nil
  | set f =>
    refine .cons trivial ?_ .nil
    change some (if s.adapterLocked = true then _ else _) = _
    split_ifs <;> rfl
  | snapshot | release => exact .nil

/-- What a goroutine has to do is what the section completes, and what is left after it. -/
theorem Does.operations (h : Does s op s' bs) :
    op.operations = op.completes s ++ bs.flatMap Op.operations := by
  cases h with
  | @found name k op handler hop hk =>
    cases handler with
    | none | some => rcases hop with rfl | rfl <;> simp [Op.operations, registering, Op.completes, hk]
  | missed hk => simp [Op.operations, Op.completes, hk]
  | @created name handler hk =>
    cases handler with
    | none | some => simp [Op.operations, registering, Op.completes]
  | registered | set | release => rfl
  | @snapshot order =>
    have hnil : (order.map Op.release).flatMap (Op.operations (F := F) (H := H)) = [] := by
      simp [Op.operations]
    rw [hnil]
    rfl

theorem Does.answers (h : Does s op s' bs) :
    s'.answers.map Prod.fst = s.answers.map Prod.fst ++ (op.completes s).filterMap Directory.Op.asked := by
  cases h with
  | @found name k op handler hop hk =>
    rcases hop with rfl | rfl <;> simp [Op.completes, hk, Directory.Op.asked]
  | missed hk => simp [Op.completes, hk]
  | created => simp [Op.completes, Directory.Op.asked]
  | registered | snapshot | release => simp [Op.completes, addHandler, Directory.Op.asked]
  | set f => split_ifs <;> simp [Op.completes, Directory.Op.asked]

theorem directory_new (adapter : Option F) :
    (new adapter : Registry F H).directory = Directory.initial adapter := by
  have hentries (name : Bytes) : (new adapter : Registry F H).directory.entries name =
      if name = defaultNamespace then some (adapter, []) else none := by
    have hlookup : (new adapter : Registry F H).nsps.lookup name =
        if name = defaultNamespace then some 0 else none := lookup_newNamespace _ _ _
    split_ifs with h
    · rw [if_pos h] at hlookup
      exact entries_of_lookup hlookup rfl
    · rw [if_neg h] at hlookup
      exact entries_of_lookup_none hlookup
  exact congrArg (Directory.mk adapter adapter.isSome) (funext hentries)

variable {ls ls' : List (Act F H)}

theorem sound_of_run (adapter : Option F) (h : Run step always (initial adapter) ls w) : Sound w :=
  h.invariant Sound (sound_initial adapter) fun _ _ _ hw _ hs => hw.move (move_of_step hs)

theorem operations_begin (c : Call F H) : c.begin.flatMap Op.operations = c.operations := by
  cases c with
  | namespaceFor | setAdapterFactory | close => simp [Call.begin, Call.operations, Op.operations]
  | registerNamespace nsp =>
    rw [Call.begin, Call.operations]
    split_ifs <;> simp [Op.operations]

theorem completes_go {i : ℕ} {ops : List (Op F H)} (hi : w.tasks[i]? = some (op :: ops)) :
    completes w (.go i) = (op.completes w.shared).map (i, ·) := by
  simp only [completes, hi]

theorem attributed_of_run (adapter : Option F) (h : Run step always (initial adapter) ls w) :
    Attributed (·.flatMap Op.operations) ((ls.filterMap Act.called).map Call.operations)
      (history (initial adapter) ls) w.tasks := by
  refine h.observing (fun ls done w => Attributed (·.flatMap Op.operations)
    ((ls.filterMap Act.called).map Call.operations) done w.tasks) (attributed_nil _) ?_
  intro ls done w a w' hI _ hs
  rw [List.filterMap_append, List.map_append]
  cases move_of_step hs with
  | call c =>
    have hstart := hI.start c.begin
    rw [operations_begin] at hstart
    rw [completes, List.append_nil]
    exact hstart
  | @go i op ops s' bs hi hdoes =>
    rw [completes_go hi]
    refine (List.append_nil _).symm ▸ hI.set hi (op.completes w.shared) ?_
    rw [List.flatMap_cons, List.flatMap_append, hdoes.operations, List.append_assoc]

theorem directory_of_run (hw : Sound w) (h : Run step always w ls w') :
    Run Directory.step always w.shared.directory ((history w ls).map Prod.snd) w'.shared.directory := by
  refine (h.observing (fun _ done w' => Sound w' ∧ Run Directory.step always w.shared.directory
    (done.map Prod.snd) w'.shared.directory) ⟨hw, .nil⟩ ?_).2
  rintro ls done w₁ a w₂ ⟨hw₁, hI⟩ - hs
  have hmove := move_of_step hs
  refine ⟨hw₁.move hmove, ?_⟩
  rw [List.map_append]
  cases hmove with
  | call c => exact (List.append_nil _).symm ▸ hI
  | @go i op ops s' bs hi hdoes =>
    have hsnd : ((op.completes w₁.shared).map (i, ·)).map Prod.snd = op.completes w₁.shared := by simp
    rw [completes_go hi, hsnd]
    exact hI.append (hdoes.directory hw₁.faithful (hw₁.addressed.head hi))

theorem answers_of_run (adapter : Option F) (h : Run step always (initial adapter) ls w) :
    w.shared.answers.map Prod.fst =
      ((history (initial adapter) ls).map Prod.snd).filterMap Directory.Op.asked := by
  refine h.observing (fun _ done w => w.shared.answers.map Prod.fst =
    (done.map Prod.snd).filterMap Directory.Op.asked) rfl ?_
  intro ls done w a w' hI _ hs
  rw [List.map_append, List.filterMap_append, ← hI]
  cases move_of_step hs with
  | call c => simp [completes]
  | @go i op ops s' bs hi hdoes =>
    have hsnd : ((op.completes w.shared).map (i, ·)).map Prod.snd = op.completes w.shared := by simp
    rw [completes_go hi, hsnd, hdoes.answers]

/-- However calls of the server's methods interleave, the table behaves like a map on which
getting or creating a namespace, registering a handler and setting the factory are one step each:
there is one order of these operations in which each call does its own, one after the other and
each once, and the map that has done them in that order is what the table shows. No two namespaces
of one name are ever made, so the factory is called once for a name; and whatever `namespaceFor`
has returned for a name is the namespace that is found under it from then on, so no handler is
registered with one that clients do not reach. -/
theorem registry_atomic (adapter : Option F) (h : Run step always (initial adapter) ls w) :
    Attributed (·.flatMap Op.operations) ((ls.filterMap Act.called).map Call.operations)
        (history (initial adapter) ls) w.tasks ∧
      Run Directory.step always (Directory.initial adapter) ((history (initial adapter) ls).map Prod.snd)
        w.shared.directory ∧
      (w.shared.made.map Registered.name).Nodup ∧
      w.shared.answers.map Prod.fst =
        ((history (initial adapter) ls).map Prod.snd).filterMap Directory.Op.asked ∧
      ∀ a ∈ w.shared.answers, w.shared.nsps.lookup a.1 = some a.2 := by
  have hsound := sound_of_run adapter h
  have hdirectory := directory_of_run (sound_initial adapter) h
  rw [initial, directory_new] at hdirectory
  exact ⟨attributed_of_run adapter h, hdirectory, hsound.faithful.nodup, answers_of_run adapter h,
    hsound.faithful.answers⟩

end Refinement

section Adapters

/-- The adapters of the namespaces made so far. -/
structure Configured (adapter : Option F) (s : Registry F H) : Prop where
  locked : s.adapterLocked = adapter.isSome
  factory : adapter.isSome = true → s.adapterFactory = adapter
  default : (s.nsps.lookup defaultNamespace).isSome = true
  made : ∀ n ∈ s.made, n.name = defaultNamespace ∨ adapter.isSome = true → n.adapter = adapter

theorem configured_new (adapter : Option F) : Configured adapter (new adapter : Registry F H) where
  locked := rfl
  factory _ := rfl
  default := by rw [new, lookup_newNamespace, if_pos rfl, Option.isSome_some]
  made := by simp [new, newNamespace]

theorem Configured.step {adapter : Option F} (hC : Configured adapter s)
    (h : Does s op s' bs) : Configured adapter s' := by
  have hdefault : (s'.nsps.lookup defaultNamespace).isSome = true := by
    obtain ⟨k, hk⟩ := Option.isSome_iff_exists.mp hC.default
    rw [h.grows.lookup _ k hk, Option.isSome_some]
  cases h with
  | found | snapshot | release => exact { hC with default := hdefault }
  | missed => exact hC
  | @created name handler hk =>
    refine ⟨hC.locked, hC.factory, hdefault, ?_⟩
    simp only [newNamespace, List.forall_mem_append, List.forall_mem_singleton]
    refine ⟨hC.made, ?_⟩
    rintro (rfl | hsome)
    · -- the default namespace was there from the start
      have hsome := hC.default
      rw [hk] at hsome
      cases hsome
    · exact hC.factory hsome
  | @registered name k n handler hn =>
    refine ⟨hC.locked, hC.factory, hdefault, fun m hm => ?_⟩
    obtain ⟨j, hj⟩ := List.mem_iff_getElem?.mp hm
    obtain ⟨m', hm', hname, hadapter⟩ := made_addHandler hn hj
    rw [← hname, ← hadapter]
    exact hC.made m' (List.mem_of_getElem? hm')
  | set f =>
    split_ifs with hlocked
    · exact hC
    · refine { hC with factory := fun hsome => ?_ }
      rw [hC.locked] at hlocked
      exact absurd hsome hlocked

variable {ls ls' : List (Act F H)}

theorem grows_of_run (h : Run step always w ls w') : Grows w.shared w'.shared := by
  refine h.invariant (fun w' => Grows w.shared w'.shared) (.refl _) ?_
  intro w₁ a w₂ hgrows _ hs
  cases move_of_step hs with
  | call c => exact hgrows
  | go _ hdoes => exact hgrows.trans hdoes.grows

theorem entries_of_directory_run {d d' : Directory F H} {ops : List (Directory.Op F H)} {name : Bytes}
    {adapter : Option F} {handlers : List H} (hd : d.entries name = some (adapter, handlers))
    (h : Run Directory.step always d ops d') :
    d'.entries name = some (adapter, handlers ++ ops.filterMap (Directory.Op.handlerFor name)) := by
  induction h with
  | nil => simpa using hd
  | @snoc ops d op d' _ _ hs ih =>
    cases op with
    | namespaceFor name' =>
      cases hs
      by_cases hname : name' = name
      · subst hname
        simp [ih, Directory.Op.handlerFor]
      · simp [ih, Function.update_of_ne (Ne.symm hname), Directory.Op.handlerFor]
    | setAdapterFactory f =>
      cases hs
      split_ifs <;> simp [ih, Directory.Op.handlerFor]
    | register name' handler =>
      obtain ⟨e, he, rfl⟩ := Option.map_eq_some_iff.mp hs
      by_cases hname : name' = name
      · subst hname
        rw [ih] at he
        cases he
        simp [Directory.Op.handlerFor]
      · simp [ih, Function.update_of_ne (Ne.symm hname), Directory.Op.handlerFor, hname]

/-- A factory given in the configuration makes the adapter of every namespace, whatever
`SetAdapterFactory` is called with; and without one the default namespace has the in-memory
adapter, since it is made before anybody can call `SetAdapterFactory`. A namespace that was made
keeps its adapter, and what was registered with it, in its order; what calls register under its
name from then on comes after that, and nothing else does. -/
theorem registry_adapters (adapter : Option F) (h : Run step always (initial adapter) ls w)
    (h' : Run step always w ls' w') :
    (∀ n ∈ w.shared.made, n.name = defaultNamespace ∨ adapter.isSome = true → n.adapter = adapter) ∧
      Grows w.shared w'.shared ∧
      ∀ name a handlers, w.shared.directory.entries name = some (a, handlers) →
        w'.shared.directory.entries name = some (a, handlers ++
          ((history w ls').map Prod.snd).filterMap (Directory.Op.handlerFor name)) := by
  refine ⟨?_, grows_of_run h', fun name a handlers hd =>
    entries_of_directory_run hd (directory_of_run (sound_of_run adapter h) h')⟩
  refine (h.invariant (fun w => Configured adapter w.shared) (configured_new adapter) ?_).made
  intro w a w' hC _ hs
  cases move_of_step hs with
  | call c => exact hC
  | go _ hdoes => exact hC.step hdoes

end Adapters

section Release

/-- How often a section closes the adapter of namespace `k`. -/
def Op.releases (k : ℕ) : Op F H → ℕ
  | .release j => if j = k then 1 else 0
  | _ => 0

theorem Faithful.perm_range (hF : Faithful s) :
    (s.nsps.entries.map Sigma.snd).Perm (List.range s.made.length) := by
  have hmem (e : Sigma fun _ : Bytes => ℕ) : e ∈ s.nsps.entries ↔ ∃ n, s.made[e.2]? = some n ∧ n.name = e.1 := by
    rw [← hF.lookup]
    exact AList.mem_lookup_iff.symm
  refine (List.perm_ext_iff_of_nodup ?_ List.nodup_range).mpr fun k => ?_
  · refine List.Nodup.map_on ?_ s.nsps.nodupKeys.nodup
    rintro ⟨name, k⟩ h ⟨name', k'⟩ h' rfl
    obtain ⟨n, hn, rfl⟩ := (hmem _).mp h
    obtain ⟨n', hn', rfl⟩ := (hmem _).mp h'
    rw [hn] at hn'
    cases hn'
    rfl
  · rw [List.mem_map, List.mem_range]
    constructor
    · rintro ⟨e, he, rfl⟩
      obtain ⟨n, hn, -⟩ := (hmem e).mp he
      exact (List.getElem?_eq_some_iff.mp hn).1
    · intro hk
      exact ⟨⟨_, k⟩, (hmem _).mpr ⟨_, List.getElem?_eq_getElem hk, rfl⟩, rfl⟩

theorem sum_releases (k : ℕ) (order : List ℕ) :
    ((order.map Op.release).map (Op.releases k : Op F H → ℕ)).sum = order.count k := by
  induction order with
  | nil => rfl
  | cons j order ih =>
    rw [List.map_cons, List.map_cons, List.sum_cons, ih, List.count_cons, Op.releases, add_comm]
    simp

/-- What was released and what is about to be, against what the calls of `Close` have found. -/
structure Balanced (w : State F H) : Prop where
  faithful : Faithful w.shared
  count : ∀ k, w.shared.released.count k + load (Op.releases k) w.tasks =
    w.shared.snapshots.countP (k < ·)

theorem sum_releases_register (k : ℕ) (name : Bytes) (j : ℕ) (handler : Option H) :
    ((handler.toList.map (Op.register name j)).map (Op.releases k : Op F H → ℕ)).sum = 0 := by
  cases handler <;> rfl

theorem Faithful.count_order (hF : Faithful s) {order : List ℕ}
    (horder : order.Perm (s.nsps.entries.map Sigma.snd)) (k : ℕ) :
    order.count k = if k < s.made.length then 1 else 0 := by
  rw [(horder.trans hF.perm_range).count_eq k]
  split_ifs with hk
  · exact List.count_eq_one_of_mem List.nodup_range (List.mem_range.mpr hk)
  · exact List.count_eq_zero_of_not_mem (fun hmem => hk (List.mem_range.mp hmem))

theorem Does.balance (hF : Faithful s) (h : Does s op s' bs) (k : ℕ) :
    s'.released.count k + (bs.map (Op.releases k)).sum + s.snapshots.countP (k < ·) =
    s.released.count k + op.releases k + s'.snapshots.countP (k < ·) := by
  cases h with
  | found hop hk =>
    rw [sum_releases_register]
    rcases hop with rfl | rfl <;> rfl
  | missed | registered => rfl
  | created => rw [sum_releases_register]; rfl
  | set f => split_ifs <;> rfl
  | snapshot horder =>
    rw [sum_releases, hF.count_order horder, List.countP_append, List.countP_singleton]
    simp only [decide_eq_true_eq, Op.releases]
    omega
  | release j =>
    rw [List.count_append, List.count_singleton, Op.releases, List.map_nil, List.sum_nil]
    simp only [beq_iff_eq]
    omega

theorem releases_begin (k : ℕ) (c : Call F H) : (c.begin.map (Op.releases k)).sum = 0 := by
  cases c with
  | namespaceFor | setAdapterFactory | close => rfl
  | registerNamespace nsp =>
    rw [Call.begin]
    split_ifs <;> rfl

theorem Balanced.move (hw : Balanced w) (h : Move w a w') : Balanced w' := by
  cases h with
  | call c =>
    refine ⟨hw.faithful, fun k => ?_⟩
    rw [load_append, load_singleton, releases_begin]
    exact hw.count k
  | @go i op ops s' bs hi hdoes =>
    refine ⟨hw.faithful.step hdoes, fun k => ?_⟩
    obtain ⟨r, hold, hnew⟩ := exists_load_set (Op.releases k) hi bs
    have hcount := hw.count k
    have hbalance := hdoes.balance hw.faithful k
    simp only [hnew]
    omega

variable {ls : List (Act F H)}

/-- When no call of `Close` is under way, the adapter of a namespace has been closed once for each
call that found the namespace in the table: a second `Close` closes every adapter again, and a
namespace that is made after the last `Close` has looked at the table keeps its adapter open. -/
theorem registry_releases (adapter : Option F) (h : Run step always (initial adapter) ls w)
    (hquiet : ∀ k, Every (· ≠ .release k) w.tasks) (k : ℕ) :
    w.shared.released.count k = w.shared.snapshots.countP (k < ·) := by
  have hbalanced : Balanced w := by
    refine h.invariant Balanced ⟨faithful_new adapter, fun k => rfl⟩ ?_
    exact fun _ _ _ hw _ hs => hw.move (move_of_step hs)
  have hzero : load (Op.releases k) w.tasks = 0 := by
    refine load_eq_zero fun as has op hop => ?_
    cases op with
    | release j => exact absurd rfl (hquiet j as has _ hop)
    | find | create | register | setAdapterFactory | snapshot => rfl
  have hcount := hbalanced.count k
  rw [hzero] at hcount
  exact hcount

end Release

section NonVacuity

def chat : Bytes := [47, 97]

/-- Two goroutines look for the same namespace, neither finds it, and both go on to register a
handler. In between the factory is set. -/
def race : List (Act ℕ ℕ) :=
  [.call (.namespaceFor chat (some 1)), .call (.namespaceFor chat (some 2)), .go 0, .go 1,
    .call (.setAdapterFactory (some 5)), .go 2, .go 1, .go 0, .go 0, .go 1]

theorem race_isSome : (exec step always (initial (none : Option ℕ)) race).isSome = true := by
  decide +kernel

/-- Both calls get the one namespace, and the second one registers first. -/
theorem registry_atomic_race : ∃ w : State ℕ ℕ, Run step always (initial none) race w ∧
    history (initial none) race = [(2, .setAdapterFactory (some 5)), (1, .namespaceFor chat),
      (0, .namespaceFor chat), (0, .register chat 1), (1, .register chat 2)] ∧
    Attributed (·.flatMap Op.operations) ((race.filterMap Act.called).map Call.operations)
      (history (initial none) race) w.tasks ∧
    Run Directory.step always (Directory.initial none) ((history (initial none) race).map Prod.snd)
      w.shared.directory := by
  obtain ⟨hattributed, hdirectory, -⟩ := registry_atomic none (run_of_isSome race_isSome)
  exact ⟨_, run_of_isSome race_isSome, by decide +kernel, hattributed, hdirectory⟩

theorem race_take_isSome : (exec step always (initial (none : Option ℕ)) (race.take 7)).isSome = true := by
  decide +kernel

/-- The run is cut where the namespace has been made and nothing is registered with it. -/
theorem registry_adapters_race : ∃ w w' : State ℕ ℕ, Run step always (initial none) (race.take 7) w ∧
    Run step always w (race.drop 7) w' ∧
    (∀ n ∈ w.shared.made, n.name = defaultNamespace ∨ (none : Option ℕ).isSome = true → n.adapter = none) ∧
    Grows w.shared w'.shared ∧ w'.shared.directory.entries chat = some (some 5, [1, 2]) := by
  have hfirst := run_of_isSome race_take_isSome
  have hrest : (exec step always ((exec step always (initial (none : Option ℕ)) (race.take 7)).get race_take_isSome)
      (race.drop 7)).isSome = true := by decide +kernel
  obtain ⟨hmade, hgrows, hentries⟩ := registry_adapters none hfirst (run_of_isSome hrest)
  refine ⟨_, _, hfirst, run_of_isSome hrest, hmade, hgrows, ?_⟩
  exact (hentries chat (some 5) [] (by decide +kernel)).trans (by decide +kernel)

def closings : List (Act ℕ ℕ) :=
  [.call (.close [0]), .go 0, .go 0, .call (.namespaceFor chat none), .go 1, .go 1,
    .call (.close [1, 0]), .go 2, .go 2, .go 2]

theorem closings_isSome : (exec step always (initial (none : Option ℕ)) closings).isSome = true := by
  decide +kernel

theorem registry_releases_closings : ∃ w : State ℕ ℕ, Run step always (initial none) closings w ∧
    w.shared.released.count 0 = w.shared.snapshots.countP (0 < ·) := by
  have htasks : ((exec step always (initial (none : Option ℕ)) closings).get closings_isSome).tasks =
      [[], [], []] := by decide +kernel
  refine ⟨_, run_of_isSome closings_isSome, registry_releases none (run_of_isSome closings_isSome) ?_ 0⟩
  intro k
  rw [htasks]
  simp

end NonVacuity

end Gosocketio.Registry

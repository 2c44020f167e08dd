import Mathlib.Tactic.ByContra
import Mathlib.Tactic.SplitIfs

/-! Runs of a labelled transition system. A step function says whether a label
can fire in a state and what it leads to; a run may also be held to a condition
on each state and the label that fires there. -/

namespace Runs

variable {S L : Type*} {ok' : S → L → Prop}

/-- `Run step ok s₀ ls s`: firing the labels `ls` in order leads from `s₀` to `s`,
and `ok` holds of every label in the state in which it fires. -/
inductive Run (step : S → L → Option S) (ok : S → L → Prop) (s₀ : S) : List L → S → Prop
  | nil : Run step ok s₀ [] s₀
  | snoc {ls s l s'} : Run step ok s₀ ls s → ok s l → step s l = some s' →
      Run step ok s₀ (ls ++ [l]) s'

/-- No condition on the steps. -/
def always (_ : S) (_ : L) : Prop := True

variable {step : S → L → Option S} {ok : S → L → Prop} {s₀ s : S} {ls : List L}

/-- What holds at the start and is kept by every step that meets the condition
holds at the end of the run. -/
theorem Run.invariant (I : S → Prop) (h₀ : I s₀)
    (hstep : ∀ s l s', I s → ok s l → step s l = some s' → I s')
    (h : Run step ok s₀ ls s) : I s := by
  induction h with
  | nil => exact h₀
  | snoc _ hok hs ih => exact hstep _ _ _ ih hok hs

theorem Run.mono (himp : ∀ s l, ok s l → ok' s l)
    (h : Run step ok s₀ ls s) : Run step ok' s₀ ls s := by
  induction h with
  | nil => exact .nil
  | snoc _ hok hs ih => exact .snoc ih (himp _ _ hok) hs

theorem Run.unconditional (h : Run step ok s₀ ls s) : Run step always s₀ ls s :=
  h.mono fun _ _ _ => trivial

theorem Run.cons {l : L} {s₁ : S} (hok : ok s₀ l) (hs : step s₀ l = some s₁)
    (h : Run step ok s₁ ls s) : Run step ok s₀ (l :: ls) s := by
  induction h with
  | nil => exact .snoc .nil hok hs
  | snoc _ hok' hs' ih => exact .snoc ih hok' hs'

/-- A run either meets the condition throughout, or has the property `Q` that the
first step against the condition establishes and every step keeps. -/
theorem Run.clean_or (I Q : S → Prop) (h₀ : I s₀)
    (hclean : ∀ s l s', I s → ok s l → step s l = some s' → I s')
    (hbreak : ∀ s l s', I s → ¬ ok s l → step s l = some s' → Q s')
    (hkeep : ∀ s l s', Q s → step s l = some s' → Q s')
    (h : Run step always s₀ ls s) : Run step ok s₀ ls s ∨ Q s := by
  induction h with
  | nil => exact .inl .nil
  | @snoc _ t l _ _ _ hs ih =>
    rcases ih with ih | ih
    · by_cases hok : ok t l
      · exact .inl (.snoc ih hok hs)
      · exact .inr (hbreak _ _ _ (ih.invariant I h₀ hclean) hok hs)
    · exact .inr (hkeep _ _ _ ih hs)

theorem Run.eq_of_nil (h : Run step ok s₀ [] s) : s = s₀ := by
  generalize hls : [] = ls at h
  cases h with
  | nil => rfl
  | snoc => simp at hls

theorem Run.last {l : L} {s' : S} (h : Run step ok s₀ (ls ++ [l]) s') :
    ∃ s, Run step ok s₀ ls s ∧ ok s l ∧ step s l = some s' := by
  generalize hls : ls ++ [l] = ms at h
  cases h with
  | nil => simp at hls
  | snoc hrun hok hs =>
    obtain ⟨rfl, hl⟩ := List.append_inj' hls rfl
    obtain rfl := List.singleton_inj.mp hl
    exact ⟨_, hrun, hok, hs⟩

theorem Run.det {s' : S} (h : Run step ok s₀ ls s) (h' : Run step ok' s₀ ls s') : s = s' := by
  induction h generalizing s' with
  | nil => exact h'.eq_of_nil.symm
  | snoc _ _ hs ih =>
    obtain ⟨t, hrun, -, hs'⟩ := h'.last
    rw [ih hrun, hs'] at hs
    exact (Option.some.inj hs).symm

/-- A run passes through a state for each prefix of its labels. -/
theorem Run.take {ls₁ : List L} (h : Run step ok s₀ ls s) (hpre : ls₁ <+: ls) :
    ∃ s₁, Run step ok s₀ ls₁ s₁ := by
  induction h with
  | nil => exact ⟨s₀, by rw [List.prefix_nil.mp hpre]; exact .nil⟩
  | snoc hrun hok hs ih =>
    rcases List.prefix_concat_iff.mp (by simpa using hpre) with rfl | hpre
    · exact ⟨_, .snoc hrun hok hs⟩
    · exact ih hpre

/-- When a step against `good` always destroys `P`, a run keeps `P` throughout
exactly if all its steps are good. -/
theorem Run.exact_iff (I P : S → Prop) (good : S → L → Prop) (h₀ : I s₀) (hP : ∀ s, I s → P s)
    (hstep : ∀ s l s', I s → ok s l → good s l → step s l = some s' → I s')
    (hbreak : ∀ s l s', I s → ok s l → ¬ good s l → step s l = some s' → ¬ P s')
    (h : Run step ok s₀ ls s) :
    (∀ ls₁ s₁, ls₁ <+: ls → Run step ok s₀ ls₁ s₁ → P s₁) ↔
      Run step (fun s l => ok s l ∧ good s l) s₀ ls s := by
  constructor
  · intro hall
    induction h with
    | nil => exact .nil
    | @snoc ls t l t' hrun hok hs ih =>
      have hgood := ih fun ls₁ s₁ hpre => hall ls₁ s₁ (hpre.trans (List.prefix_append ls [l]))
      have hI : I t := hgood.invariant I h₀ fun s l s' hI hok => hstep s l s' hI hok.1 hok.2
      refine .snoc hgood ⟨hok, ?_⟩ hs
      by_contra hbad
      exact hbreak t l t' hI hok hbad hs (hall _ t' (List.prefix_refl _) (.snoc hrun hok hs))
  · intro hgood ls₁ s₁ hpre hrun
    obtain ⟨s₂, hgood₁⟩ := hgood.take hpre
    rw [hrun.det hgood₁]
    exact hP s₂ (hgood₁.invariant I h₀ fun s l s' hI hok => hstep s l s' hI hok.1 hok.2)

/-- The same for a property of steps. -/
theorem Run.steps_iff (I : S → Prop) (Q : S → L → S → Prop) (good : S → L → Prop) (h₀ : I s₀)
    (hstep : ∀ s l s', I s → ok s l → good s l → step s l = some s' → I s' ∧ Q s l s')
    (hbreak : ∀ s l s', I s → ok s l → ¬ good s l → step s l = some s' → ¬ Q s l s')
    (h : Run step ok s₀ ls s) :
    (∀ ls₁ l s₁ s₂, ls₁ ++ [l] <+: ls → Run step ok s₀ ls₁ s₁ → step s₁ l = some s₂ → Q s₁ l s₂) ↔
      Run step (fun s l => ok s l ∧ good s l) s₀ ls s := by
  have hinv {ls : List L} {s : S} (hgood : Run step (fun s l => ok s l ∧ good s l) s₀ ls s) : I s :=
    hgood.invariant I h₀ fun s l s' hI hok hs => (hstep s l s' hI hok.1 hok.2 hs).1
  constructor
  · intro hall
    induction h with
    | nil => exact .nil
    | @snoc ls t l t' hrun hok hs ih =>
      have hgood := ih fun ls₁ l₁ s₁ s₂ hpre => hall ls₁ l₁ s₁ s₂ (hpre.trans (List.prefix_append ls [l]))
      refine .snoc hgood ⟨hok, ?_⟩ hs
      by_contra hbad
      exact hbreak t l t' (hinv hgood) hok hbad hs (hall ls l t t' (List.prefix_refl _) hrun hs)
  · intro hgood ls₁ l s₁ s₂ hpre hrun hs
    obtain ⟨s₃, hgood₁⟩ := hgood.take hpre
    obtain ⟨t, hgood₂, hok, -⟩ := hgood₁.last
    rw [← hgood₂.det hrun] at hs ⊢
    exact (hstep t l s₂ (hinv hgood₂) hok.1 hok.2 hs).2

theorem Run.append {ms : List L} {s' : S} (h : Run step ok s₀ ls s) (h' : Run step ok s ms s') :
    Run step ok s₀ (ls ++ ms) s' := by
  induction h' with
  | nil => simpa using h
  | snoc _ hok hs ih =>
    rw [← List.append_assoc]
    exact .snoc ih hok hs

section Reaches

/-- Some run leads from one state to the other. -/
def Reaches (step : S → L → Option S) (ok : S → L → Prop) (s s' : S) : Prop :=
  ∃ ls, Run step ok s ls s'

variable {s' s'' : S}

theorem Reaches.refl (s : S) : Reaches step ok s s := ⟨[], .nil⟩

theorem Reaches.trans (h : Reaches step ok s s') (h' : Reaches step ok s' s'') :
    Reaches step ok s s'' := by
  obtain ⟨ls, h⟩ := h
  obtain ⟨ms, h'⟩ := h'
  exact ⟨ls ++ ms, h.append h'⟩

theorem Reaches.one (l : L) (hok : ok s l) (hs : step s l = some s') : Reaches step ok s s' :=
  ⟨[l], .cons hok hs .nil⟩

theorem Reaches.then (h : Reaches step ok s s') (l : L) (hok : ok s' l) (hs : step s' l = some s'') :
    Reaches step ok s s'' :=
  h.trans (.one l hok hs)

theorem Reaches.mono (himp : ∀ s l, ok s l → ok' s l)
    (h : Reaches step ok s s') : Reaches step ok' s s' := by
  obtain ⟨ls, h⟩ := h
  exact ⟨ls, h.mono himp⟩

theorem Reaches.invariant (I : S → Prop) (h₀ : I s)
    (hstep : ∀ s l s', I s → ok s l → step s l = some s' → I s') (h : Reaches step ok s s') :
    I s' := by
  obtain ⟨ls, h⟩ := h
  exact h.invariant I h₀ hstep

/-- The state after a part of a run leads to the state after all of it. -/
theorem Run.reaches {ls₁ : List L} {s₁ : S} (h : Run step ok s₀ ls s) (hpre : ls₁ <+: ls)
    (h₁ : Run step ok s₀ ls₁ s₁) : Reaches step ok s₁ s := by
  induction h with
  | nil =>
    rw [List.prefix_nil.mp hpre] at h₁
    rw [h₁.eq_of_nil]
    exact .refl s₀
  | snoc hrun hok hs ih =>
    rcases List.prefix_concat_iff.mp (by simpa using hpre) with rfl | hpre
    · rw [h₁.det (hrun.snoc hok hs)]
      exact .refl _
    · exact (ih hpre).then _ hok hs

end Reaches

section Observed

variable {O : Type*} {obs : S → L → List O}

/-- What is seen of a run, where `obs` is what is seen of one label in the state in which it
fires. -/
def observed (step : S → L → Option S) (obs : S → L → List O) : S → List L → List O
  | _, [] => []
  | s, l :: ls => obs s l ++ (step s l).elim [] fun s' => observed step obs s' ls

theorem Run.observed_append (h : Run step ok s₀ ls s) (ms : List L) :
    observed step obs s₀ (ls ++ ms) = observed step obs s₀ ls ++ observed step obs s ms := by
  induction h generalizing ms with
  | nil => rfl
  | @snoc ls t l t' _ _ hs ih =>
    rw [List.append_assoc, ih, ih [l], List.append_assoc]
    simp [observed, hs]

/-- An invariant of the state, the labels so far and what was seen so far. -/
theorem Run.observing (I : List L → List O → S → Prop) (h₀ : I [] [] s₀)
    (hstep : ∀ ls os s l s', I ls os s → ok s l → step s l = some s' → I (ls ++ [l]) (os ++ obs s l) s')
    (h : Run step ok s₀ ls s) : I ls (observed step obs s₀ ls) s := by
  induction h with
  | nil => exact h₀
  | @snoc ls t l t' hrun hok hs ih =>
    rw [hrun.observed_append, observed, hs, Option.elim_some, observed, List.append_nil]
    exact hstep _ _ _ _ _ ih hok hs

end Observed

section Exec

/-- Firing a list of labels one after another, while the condition holds. -/
def exec (step : S → L → Option S) (ok : S → L → Prop) [∀ s l, Decidable (ok s l)] :
    S → List L → Option S
  | s, [] => some s
  | s, l :: ls => if ok s l then (step s l).bind fun s' => exec step ok s' ls else none

instance : ∀ (s : S) (l : L), Decidable (always s l) := fun _ _ => isTrue trivial

theorem run_of_exec [∀ s l, Decidable (ok s l)] (h : exec step ok s₀ ls = some s) :
    Run step ok s₀ ls s := by
  induction ls generalizing s₀ with
  | nil =>
    rw [exec, Option.some.injEq] at h
    rw [h]
    exact .nil
  | cons l ls ih =>
    rw [exec] at h
    split_ifs at h with hok
    obtain ⟨s₁, hs, h⟩ := Option.bind_eq_some_iff.mp h
    exact .cons hok hs (ih h)

theorem run_of_isSome [∀ s l, Decidable (ok s l)] (h : (exec step ok s₀ ls).isSome = true) :
    Run step ok s₀ ls ((exec step ok s₀ ls).get h) :=
  run_of_exec (Option.some_get h).symm

end Exec

end Runs

import Mathlib.Data.List.Basic

/-! A queue whose elements leave in parcels. A parcel lies in one of several places
and is moved from place to place before it goes out. As long as at most one place
is not empty, what has gone out, the parcel and the rest of the queue together are
everything that was ever queued, in order. -/

namespace Parcel

variable {ι α : Type*} {c c' : ι → List α} {out rest all xs : List α} {a b : ι}

/-- All but one of the places are empty, and the elements are in line: those that
are out, those in that place, and the rest. -/
def InLine (c : ι → List α) (out rest all : List α) : Prop :=
  ∃ ℓ, (∀ k, k ≠ ℓ → c k = []) ∧ all = out ++ c ℓ ++ rest

section

variable (h : InLine c out rest all)

include h

theorem InLine.sole (ha : c a ≠ []) : ∀ k, k ≠ a → c k = [] := by
  obtain ⟨ℓ, hℓ, -⟩ := h
  have haℓ : a = ℓ := by
    by_contra hne
    exact ha (hℓ a hne)
  rw [haℓ]
  exact hℓ

theorem InLine.enqueue : InLine c out (rest ++ xs) (all ++ xs) := by
  obtain ⟨ℓ, hℓ, rfl⟩ := h
  exact ⟨ℓ, hℓ, by simp only [List.append_assoc]⟩

/-- The queue is emptied into one of the places, which are all empty. -/
theorem InLine.take (hc : ∀ k, c k = []) (ha : c' a = rest)
    (hother : ∀ k, k ≠ a → c' k = []) : InLine c' out [] all := by
  obtain ⟨ℓ, -, rfl⟩ := h
  exact ⟨a, hother, by rw [hc, ha, List.append_nil, List.append_nil]⟩

theorem InLine.move (hab : a ≠ b) (ha : c' a = [])
    (hb : c' b = c b ++ c a) (hother : ∀ k, k ≠ a → k ≠ b → c' k = c k) :
    InLine c' out rest all := by
  obtain ⟨ℓ, hℓ, rfl⟩ := h
  by_cases haℓ : a = ℓ
  · -- the parcel goes from `a` to `b`
    subst haℓ
    refine ⟨b, fun k hk => ?_, by rw [hb, hℓ b hab.symm, List.nil_append]⟩
    by_cases hka : k = a
    · rw [hka, ha]
    · rw [hother k hka hk, hℓ k hka]
  · have hca : c a = [] := hℓ a haℓ
    have hsame (k : ι) : c' k = c k := by
      by_cases hka : k = a
      · rw [hka, ha, hca]
      · by_cases hkb : k = b
        · rw [hkb, hb, hca, List.append_nil]
        · exact hother k hka hkb
    exact ⟨ℓ, fun k hk => by rw [hsame, hℓ k hk], by rw [hsame]⟩

/-- The head of what lies in a place goes out. -/
theorem InLine.emit (ha : c a = xs ++ c' a)
    (hother : ∀ k, k ≠ a → c' k = c k) : InLine c' (out ++ xs) rest all := by
  obtain ⟨ℓ, hℓ, rfl⟩ := h
  by_cases haℓ : a = ℓ
  · subst haℓ
    refine ⟨a, fun k hk => by rw [hother k hk, hℓ k hk], ?_⟩
    rw [ha]
    simp only [List.append_assoc]
  · obtain ⟨hxs, hca⟩ := List.append_eq_nil_iff.mp (ha.symm.trans (hℓ a haℓ))
    refine ⟨ℓ, fun k hk => ?_, by rw [hother ℓ (Ne.symm haℓ), hxs, List.append_nil]⟩
    by_cases hka : k = a
    · rw [hka, hca]
    · rw [hother k hka, hℓ k hk]

/-- What lies in a place goes back to the head of the queue. -/
theorem InLine.putBack (ha : c' a = [])
    (hother : ∀ k, k ≠ a → c' k = c k) : InLine c' out (c a ++ rest) all := by
  obtain ⟨ℓ, hℓ, rfl⟩ := h
  by_cases haℓ : a = ℓ
  · subst haℓ
    refine ⟨a, fun k hk => by rw [hother k hk, hℓ k hk], ?_⟩
    rw [ha, List.append_nil, List.append_assoc]
  · refine ⟨ℓ, fun k hk => ?_, by rw [hother ℓ (Ne.symm haℓ), hℓ a haℓ, List.nil_append]⟩
    by_cases hka : k = a
    · rw [hka, ha]
    · rw [hother k hka, hℓ k hk]

theorem InLine.isPrefix : out <+: all := by
  obtain ⟨ℓ, -, rfl⟩ := h
  exact ⟨c ℓ ++ rest, by rw [List.append_assoc]⟩

end

theorem InLine.complete (h : InLine c out [] all) (hc : ∀ k, c k = []) : out = all := by
  obtain ⟨ℓ, -, rfl⟩ := h
  rw [hc, List.append_nil, List.append_nil]

end Parcel

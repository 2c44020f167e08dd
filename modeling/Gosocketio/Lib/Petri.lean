import Mathlib.Algebra.Order.Pi
import Mathlib.Algebra.Order.Monoid.Canonical.Defs
import Mathlib.Algebra.Order.Group.Nat
import Mathlib.Algebra.Ring.Nat

/-! Place/transition nets with read arcs. A marking says how many tokens each place
holds. A step of a program that hands a resource on moves the tokens of that resource,
whatever else the program holds: firing is kept by a frame. -/

namespace Petri

/-- `read t` is what `t` needs to find and leaves there. -/
structure Net (P T : Type*) where
  pre : T → P → ℕ
  post : T → P → ℕ
  read : T → P → ℕ := fun _ => 0

namespace Net

variable {P T : Type*} {N : Net P T} {t : T} {M M' : P → ℕ}

/-- `R` is what is there besides the tokens that are consumed. -/
def Fires (N : Net P T) (t : T) (M M' : P → ℕ) : Prop :=
  ∃ R, N.read t ≤ R ∧ M = R + N.pre t ∧ M' = R + N.post t

theorem Fires.frame (h : N.Fires t M M') (F : P → ℕ) : N.Fires t (M + F) (M' + F) := by
  obtain ⟨R, hread, rfl, rfl⟩ := h
  refine ⟨R + F, le_add_right hread, ?_, ?_⟩ <;> rw [add_right_comm]

theorem Fires.eq_zero (h : N.Fires t 0 M') (hpost : N.pre t = 0 → N.post t = 0) : M' = 0 := by
  obtain ⟨R, -, hM, rfl⟩ := h
  obtain ⟨rfl, hpre⟩ := add_eq_zero.mp hM.symm
  rw [hpost hpre, add_zero]

end Net

end Petri

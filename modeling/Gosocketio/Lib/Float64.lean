import Mathlib.Data.Nat.Log
import Mathlib.Tactic.Positivity
import Mathlib.Tactic.Ring

/-! Binary64 numbers by their bits, as far as whole numbers go: the number a
small natural is stored as, and truncation towards zero into a 64-bit integer. -/

/-- The 64 bits of an IEEE 754 double: sign, 11 bits of exponent, 52 of fraction. -/
abbrev Float64 := BitVec 64

namespace Float64

def sign (x : Float64) : Bool := x.toNat / 2 ^ 63 % 2 = 1
def biased (x : Float64) : ℕ := x.toNat / 2 ^ 52 % 2 ^ 11
def fraction (x : Float64) : ℕ := x.toNat % 2 ^ 52

/-- Neither an infinity nor a NaN. -/
def isFinite (x : Float64) : Bool := x.biased ≠ 2047

/-- The double nearest to `n`, for `n` below `2 ^ 53`, where it is exact. -/
def ofNat (n : ℕ) : Float64 := if n = 0 then 0
  else BitVec.ofNat 64 ((1023 + n.log2) * 2 ^ 52 + (n - 2 ^ n.log2) * 2 ^ (52 - n.log2))

/-- The magnitude without its fractional part. Numbers below one, the
subnormals among them, give zero. -/
def magnitude (x : Float64) : ℕ := if x.biased < 1023 then 0
  else if x.biased ≤ 1075 then (2 ^ 52 + x.fraction) / 2 ^ (1075 - x.biased)
  else (2 ^ 52 + x.fraction) * 2 ^ (x.biased - 1075)

/-- Conversion to a 64-bit integer: truncation, and the least integer when the
result does not fit. -/
def toInt (x : Float64) : ℤ := let z : ℤ := if x.sign then -(x.magnitude : ℤ) else x.magnitude
  if x.isFinite ∧ -2 ^ 63 ≤ z ∧ z < 2 ^ 63 then z else -2 ^ 63

section OfNat

variable {n : ℕ}

section

variable (hn : n ≠ 0)

include hn

section

variable (h : n < 2 ^ 53)

include h

theorem log2_bounds :
    2 ^ n.log2 ≤ n ∧ n < 2 ^ (n.log2 + 1) ∧ n.log2 ≤ 52 := by
  refine ⟨Nat.log2_self_le hn, Nat.lt_log2_self, ?_⟩
  have := (Nat.log2_lt hn).mpr h
  omega

theorem toNat_ofNat :
    (ofNat n).toNat = (1023 + n.log2) * 2 ^ 52 + (n - 2 ^ n.log2) * 2 ^ (52 - n.log2) ∧
      (n - 2 ^ n.log2) * 2 ^ (52 - n.log2) < 2 ^ 52 := by
  obtain ⟨hlo, hhi, hle⟩ := log2_bounds hn h
  have hfrac : (n - 2 ^ n.log2) * 2 ^ (52 - n.log2) < 2 ^ 52 := by
    have hlt : n - 2 ^ n.log2 < 2 ^ n.log2 := by
      omega
    calc (n - 2 ^ n.log2) * 2 ^ (52 - n.log2)
        < 2 ^ n.log2 * 2 ^ (52 - n.log2) := Nat.mul_lt_mul_of_pos_right hlt (by positivity)
      _ = 2 ^ 52 := by rw [← pow_add]; congr 1; omega
  refine ⟨?_, hfrac⟩
  rw [ofNat, if_neg hn, BitVec.toNat_ofNat]
  apply Nat.mod_eq_of_lt
  omega

theorem biased_ofNat : (ofNat n).biased = 1023 + n.log2 := by
  obtain ⟨he, hf⟩ := toNat_ofNat hn h
  have hle := (log2_bounds hn h).2.2
  rw [biased, he]
  omega

theorem fraction_ofNat :
    (ofNat n).fraction = (n - 2 ^ n.log2) * 2 ^ (52 - n.log2) := by
  obtain ⟨he, hf⟩ := toNat_ofNat hn h
  rw [fraction, he]
  omega

theorem sign_ofNat : (ofNat n).sign = false := by
  obtain ⟨he, hf⟩ := toNat_ofNat hn h
  have hle := (log2_bounds hn h).2.2
  rw [sign, he, decide_eq_false_iff_not]
  omega

theorem magnitude_ofNat : (ofNat n).magnitude = n := by
  obtain ⟨hlo, hhi, hle⟩ := log2_bounds hn h
  have hsplit : (2 : ℕ) ^ 52 = 2 ^ n.log2 * 2 ^ (52 - n.log2) := by
    rw [← pow_add]
    congr 1
    omega
  rw [magnitude, biased_ofNat hn h, fraction_ofNat hn h, if_neg (by omega), if_pos (by omega),
    show 1075 - (1023 + n.log2) = 52 - n.log2 by omega, hsplit, ← Nat.add_mul,
    Nat.add_sub_cancel' hlo, Nat.mul_div_cancel _ (by positivity)]

end

end

theorem isFinite_ofNat (h : n < 2 ^ 53) : (ofNat n).isFinite = true := by
  by_cases hn : n = 0
  · subst hn
    rfl
  · have hle := (log2_bounds hn h).2.2
    rw [isFinite, biased_ofNat hn h, decide_eq_true_eq]
    omega

/-- Whole numbers below `2 ^ 53` survive the way through a double. -/
theorem toInt_ofNat (h : n < 2 ^ 53) : (ofNat n).toInt = n := by
  by_cases hn : n = 0
  · subst hn
    rfl
  · simp only [toInt, sign_ofNat hn h, magnitude_ofNat hn h, isFinite_ofNat h, Bool.false_eq_true,
      if_false, true_and]
    rw [if_pos (by omega)]

end OfNat

end Float64

import Mathlib.Data.Nat.Digits.Defs
import Mathlib.Tactic.IntervalCases
import Mathlib.Tactic.Ring

/-! Signed decimal numerals on byte lists: the formatter writes no sign for a
non-negative number and no leading zero, the reader takes an optional sign and
any digits and saturates at the bounds of a 64-bit integer. -/

namespace Strconv

def isDigit (c : UInt8) : Bool := 48 ≤ c && c ≤ 57

def digit (d : ℕ) : UInt8 := UInt8.ofNat (48 + d)

def formatNat (n : ℕ) : List UInt8 := if n = 0 then [48] else ((Nat.digits 10 n).map digit).reverse

def formatInt (z : ℤ) : List UInt8 := if z < 0 then 45 :: formatNat z.natAbs else formatNat z.natAbs

/-- The number a digit string denotes, of any length. -/
def natOfDigits (ds : List UInt8) : ℕ := ds.foldl (fun acc c => acc * 10 + (c.toNat - 48)) 0

inductive NumError where
  | invalid
  | range
  deriving DecidableEq, Repr

def maxInt64 : ℤ := 2 ^ 63 - 1
def minInt64 : ℤ := -2 ^ 63

def splitSign : List UInt8 → Bool × List UInt8
  | 43 :: ds => (false, ds)
  | 45 :: ds => (true, ds)
  | ds => (false, ds)

/-- Read a 64-bit integer. As in the library this models, the value comes back
with the error: zero for a malformed text, the nearest bound when out of range. -/
def parseInt (s : List UInt8) : ℤ × Option NumError := let (neg, ds) := splitSign s
  if ds = [] ∨ ds.all isDigit = false then (0, some .invalid)
  else
    let n : ℤ := natOfDigits ds
    if neg then
      if -n < minInt64 then (minInt64, some .range) else (-n, none)
    else
      if maxInt64 < n then (maxInt64, some .range) else (n, none)

theorem isDigit_digit (d : ℕ) (hd : d < 10) : isDigit (digit d) = true := by
  interval_cases d <;> rfl

theorem toNat_digit (d : ℕ) (hd : d < 10) : (digit d).toNat - 48 = d := by
  interval_cases d <;> rfl

theorem formatNat_ne_nil (n : ℕ) : formatNat n ≠ [] := by
  unfold formatNat
  split_ifs with h
  · simp
  · simpa [Nat.digits_ne_nil_iff_ne_zero] using h

theorem isDigit_of_mem_formatNat (n : ℕ) : ∀ c ∈ formatNat n, isDigit c = true := by
  intro c hc
  unfold formatNat at hc
  split_ifs at hc with h
  · rw [List.mem_singleton.mp hc]
    rfl
  · obtain ⟨d, hd, rfl⟩ := List.mem_map.mp (List.mem_reverse.mp hc)
    exact isDigit_digit d (Nat.digits_lt_base (by decide) hd)

theorem natOfDigits_reverse (ds : List ℕ) (h : ∀ d ∈ ds, d < 10) :
    natOfDigits (ds.map digit).reverse = Nat.ofDigits 10 ds := by
  unfold natOfDigits
  rw [List.foldl_reverse]
  induction ds with
  | nil => rfl
  | cons d ds ih =>
    rw [List.map_cons, List.foldr_cons, ih (fun e he => h e (by simp [he])),
      toNat_digit d (h d (by simp)), Nat.ofDigits_cons]
    ring

theorem natOfDigits_formatNat (n : ℕ) : natOfDigits (formatNat n) = n := by
  unfold formatNat
  split_ifs with h
  · subst h
    rfl
  · rw [natOfDigits_reverse _ (fun d hd => Nat.digits_lt_base (by decide) hd), Nat.ofDigits_digits]

theorem splitSign_digits (ds : List UInt8) (h : ∀ c ∈ ds, isDigit c = true) :
    splitSign ds = (false, ds) := by
  unfold splitSign
  split
  · exact absurd (h 43 (by simp)) (by decide)
  · exact absurd (h 45 (by simp)) (by decide)
  · rfl

theorem parseInt_digits (ds : List UInt8) (hne : ds ≠ []) (h : ∀ c ∈ ds, isDigit c = true) :
    (parseInt ds).1 = min (natOfDigits ds : ℤ) maxInt64 := by
  have hall : ds.all isDigit = true := List.all_eq_true.mpr h
  have hok : ¬(ds = [] ∨ ds.all isDigit = false) := by simp [hne, hall]
  unfold parseInt
  rw [splitSign_digits ds h]
  simp only [if_neg hok, Bool.false_eq_true, if_false]
  split_ifs with hlt
  · exact (min_eq_right hlt.le).symm
  · exact (min_eq_left (not_lt.mp hlt)).symm

theorem le_maxInt64_of_parseInt {s : List UInt8} {n : ℤ} (h : parseInt s = (n, none)) : n ≤ maxInt64 := by
  unfold parseInt at h
  simp only at h
  split_ifs at h with hbad hneg hlo hhi
  · cases h
  · cases h
  · obtain rfl := (Prod.mk.inj h).1
    have hpos : (0 : ℤ) ≤ maxInt64 := by decide
    omega
  · cases h
  · obtain rfl := (Prod.mk.inj h).1
    exact not_lt.mp hhi

theorem parseInt_formatNat (n : ℕ) (hn : (n : ℤ) ≤ maxInt64) :
    parseInt (formatNat n) = ((n : ℤ), none) := by
  have hall : (formatNat n).all isDigit = true := List.all_eq_true.mpr (isDigit_of_mem_formatNat n)
  unfold parseInt
  rw [splitSign_digits _ (isDigit_of_mem_formatNat n)]
  simp [formatNat_ne_nil, hall, natOfDigits_formatNat, not_lt.mpr hn]

theorem formatInt_of_nonneg (z : ℤ) (hz : 0 ≤ z) : formatInt z = formatNat z.natAbs := by
  rw [formatInt, if_neg (not_lt.mpr hz)]

/-- Reading back a formatted non-negative 64-bit integer. -/
theorem parseInt_formatInt (z : ℤ) (hz : 0 ≤ z) (hm : z ≤ maxInt64) :
    parseInt (formatInt z) = (z, none) := by
  have hcast : ((z.natAbs : ℕ) : ℤ) = z := Int.natAbs_of_nonneg hz
  rw [formatInt_of_nonneg z hz, parseInt_formatNat _ (by rw [hcast]; exact hm), hcast]

end Strconv

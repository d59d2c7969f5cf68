import Mathlib.Algebra.Ring.Nat
import Mathlib.Tactic.Common

/-!
# Integers as floating-point numbers

The conversion of an integer to `float64`: 53 significant bits, to nearest, ties
to even. Its values are integers again, so they are kept as such. All that
comparisons need is that the conversion is monotone.
-/

namespace Go
set_option autoImplicit false

/-- The multiple of `u` nearest to `n`, and of two equally near the one with an even factor. -/
def roundTo (u n : Nat) : Nat :=
  if 2 * (n % u) < u ∨ 2 * (n % u) = u ∧ n / u % 2 = 0 then n / u * u else (n / u + 1) * u

/-- The distance of neighbouring numbers with 53 bits around `n`. -/
def unitAt (n : Nat) : Nat := 2 ^ (Nat.log2 n - 52)

def roundNat (n : Nat) : Nat := roundTo (unitAt n) n

/-- `float64` of an integer that is far below the largest number. -/
def float64 (z : Int) : Int := if z < 0 then -(roundNat z.natAbs : Int) else roundNat z.natAbs

theorem roundTo_ge (u n : Nat) : n / u * u ≤ roundTo u n := by
  unfold roundTo
  split
  · exact Nat.le_refl _
  · exact Nat.mul_le_mul_right u (Nat.le_succ _)

theorem roundTo_le (u n : Nat) : roundTo u n ≤ (n / u + 1) * u := by
  unfold roundTo
  split
  · exact Nat.mul_le_mul_right u (Nat.le_succ _)
  · exact Nat.le_refl _

theorem roundTo_mono {u m n : Nat} (h : m ≤ n) : roundTo u m ≤ roundTo u n := by
  rcases Nat.lt_or_ge (m / u) (n / u) with hlt | hge
  · calc roundTo u m ≤ (m / u + 1) * u := roundTo_le u m
      _ ≤ n / u * u := Nat.mul_le_mul_right u hlt
      _ ≤ roundTo u n := roundTo_ge u n
  · have hq : m / u = n / u := Nat.le_antisymm (Nat.div_le_div_right h) hge
    have hm := Nat.div_add_mod m u
    have hn := Nat.div_add_mod n u
    rw [hq] at hm
    have hr : m % u ≤ n % u := by omega
    unfold roundTo
    rw [hq]
    have hstep : n / u * u ≤ (n / u + 1) * u := Nat.mul_le_mul_right u (Nat.le_succ _)
    split
    · split
      · exact Nat.le_refl _
      · exact hstep
    · split
      · omega
      · exact Nat.le_refl _

/-- Below the next power of two, rounding does not pass it. -/
theorem roundNat_le {n k : Nat} (h : n < 2 ^ k) : roundNat n ≤ 2 ^ k := by
  by_cases hn : n = 0
  · subst hn
    exact Nat.zero_le _
  have hlog : Nat.log2 n < k := (Nat.log2_lt hn).mpr h
  unfold roundNat unitAt
  generalize hj : Nat.log2 n - 52 = j
  have hpow : 2 ^ k = 2 ^ (k - j) * 2 ^ j := by
    rw [← Nat.pow_add]
    congr 1
    omega
  have hq : n / 2 ^ j < 2 ^ (k - j) := by
    rw [Nat.div_lt_iff_lt_mul (Nat.two_pow_pos j), ← hpow]
    exact h
  calc roundTo (2 ^ j) n ≤ (n / 2 ^ j + 1) * 2 ^ j := roundTo_le _ _
    _ ≤ 2 ^ (k - j) * 2 ^ j := Nat.mul_le_mul_right _ hq
    _ = 2 ^ k := hpow.symm

/-- Rounding keeps the leading power of two. -/
theorem le_roundNat {n : Nat} (hn : n ≠ 0) : 2 ^ Nat.log2 n ≤ roundNat n := by
  have hlog := Nat.log2_self_le hn
  unfold roundNat unitAt
  generalize hj : Nat.log2 n - 52 = j
  have hpow : 2 ^ Nat.log2 n = 2 ^ (Nat.log2 n - j) * 2 ^ j := by
    rw [← Nat.pow_add]
    congr 1
    omega
  calc 2 ^ Nat.log2 n = 2 ^ (Nat.log2 n - j) * 2 ^ j := hpow
    _ ≤ n / 2 ^ j * 2 ^ j := by
      apply Nat.mul_le_mul_right
      rw [Nat.le_div_iff_mul_le (Nat.two_pow_pos j), ← hpow]
      exact hlog
    _ ≤ roundTo (2 ^ j) n := roundTo_ge _ _

theorem roundNat_mono {m n : Nat} (h : m ≤ n) : roundNat m ≤ roundNat n := by
  by_cases hm : m = 0
  · subst hm
    exact Nat.zero_le _
  have hn : n ≠ 0 := by omega
  by_cases hlog : Nat.log2 m = Nat.log2 n
  · unfold roundNat unitAt
    rw [hlog]
    exact roundTo_mono h
  · have hle : Nat.log2 m ≤ Nat.log2 n :=
      (Nat.le_log2 hn).mpr (Nat.le_trans (Nat.log2_self_le hm) h)
    have hlt : Nat.log2 m + 1 ≤ Nat.log2 n := by omega
    calc roundNat m ≤ 2 ^ (Nat.log2 m + 1) := roundNat_le Nat.lt_log2_self
      _ ≤ 2 ^ Nat.log2 n := Nat.pow_le_pow_right (by omega) hlt
      _ ≤ roundNat n := le_roundNat hn

theorem float64_mono {x y : Int} (h : x ≤ y) : float64 x ≤ float64 y := by
  unfold float64
  split
  · split
    · have hround := roundNat_mono (show y.natAbs ≤ x.natAbs by omega)
      omega
    · omega
  · split
    · omega
    · have hround := roundNat_mono (show x.natAbs ≤ y.natAbs by omega)
      omega

/-- What is less as a number of 53 bits was less before the conversion. -/
theorem lt_of_float64_lt {x y : Int} (h : float64 x < float64 y) : x < y := by
  by_contra hge
  have hmono := float64_mono (Int.not_lt.mp hge)
  omega

theorem roundNat_eq_self {n : Nat} (h : n ≤ 2 ^ 53) : roundNat n = n := by
  rcases Nat.lt_or_eq_of_le h with hlt | rfl
  · have hunit : unitAt n = 1 := by
      have hlog : Nat.log2 n ≤ 52 := by
        by_cases hn : n = 0
        · subst hn
          decide
        · exact Nat.le_of_lt_succ ((Nat.log2_lt hn).mpr hlt)
      rw [unitAt, Nat.sub_eq_zero_of_le hlog, Nat.pow_zero]
    rw [roundNat, hunit, roundTo, Nat.mod_one, if_pos (.inl Nat.one_pos), Nat.div_one, Nat.mul_one]
  · decide +kernel

theorem float64_eq_self {z : Int} (h : z.natAbs ≤ 2 ^ 53) : float64 z = z := by
  unfold float64
  rw [roundNat_eq_self h]
  split <;> omega

/-- Rounding keeps the side of a number of 53 bits on which an integer is. -/
theorem float64_lt_iff {x b : Int} (h : b.natAbs < 2 ^ 53) : float64 x < b ↔ x < b := by
  constructor
  · intro hlt
    apply lt_of_float64_lt
    rwa [float64_eq_self (Nat.le_of_lt h)]
  · intro hlt
    have hprev : float64 (b - 1) = b - 1 := float64_eq_self (by omega)
    have hmono := float64_mono (Int.le_sub_one_of_lt hlt)
    omega

end Go

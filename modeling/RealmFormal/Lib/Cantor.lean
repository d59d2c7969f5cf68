import Mathlib.Data.Nat.Choose.Basic

/-!
# The Cantor pairing

`pair a b` numbers the pairs along the diagonals `a + b = s`. Diagonal `s` starts at
the triangular number of `s`, a binomial coefficient, and has `s + 1` elements.
-/

namespace Cantor
set_option autoImplicit false

def pair (a b : Nat) : Nat := (a + b) * (a + b + 1) / 2 + b

theorem pair_eq_choose (a b : Nat) : pair a b = (a + b + 1).choose 2 + b := by
  rw [pair, Nat.choose_two_right, Nat.add_sub_cancel, Nat.mul_comm]

/-- A diagonal ends before the next one starts. -/
theorem pair_lt_choose (a b : Nat) : pair a b < (a + b + 2).choose 2 := by
  have hnext : (a + b + 2).choose 2 = (a + b + 1) + (a + b + 1).choose 2 := by
    rw [Nat.choose_succ_succ, Nat.choose_one_right]
  rw [pair_eq_choose, hnext]
  omega

theorem pair_lt_of_sum_lt {a b c d : Nat} (h : a + b < c + d) : pair a b < pair c d :=
  calc
    pair a b < (a + b + 2).choose 2 := pair_lt_choose a b
    _ ≤ (c + d + 1).choose 2 := Nat.choose_le_choose 2 (by omega)
    _ ≤ pair c d := by rw [pair_eq_choose]; exact Nat.le_add_right _ _

theorem pair_inj {a b c d : Nat} (h : pair a b = pair c d) : a = c ∧ b = d := by
  have hsum : a + b = c + d := by
    rcases Nat.lt_trichotomy (a + b) (c + d) with hlt | heq | hgt
    · exact absurd h (Nat.ne_of_lt (pair_lt_of_sum_lt hlt))
    · exact heq
    · exact absurd h.symm (Nat.ne_of_lt (pair_lt_of_sum_lt hgt))
  rw [pair_eq_choose, pair_eq_choose, hsum] at h
  omega

/-- On pairs in increasing order the pairing tells unordered pairs apart. -/
theorem pair_min_max_inj {a b c d : Nat}
    (h : pair (min a b) (max a b) = pair (min c d) (max c d)) :
    (a = c ∧ b = d) ∨ (a = d ∧ b = c) := by
  obtain ⟨hmin, hmax⟩ := pair_inj h
  omega

/-- Past the product of which it is half, the pairing adds no more than that half. -/
theorem pair_le_mul (a b : Nat) : pair a b ≤ (a + b) * (a + b + 1) := by
  rcases Nat.eq_zero_or_pos (a + b) with hzero | hpos
  · have ha : a = 0 := by omega
    have hb : b = 0 := by omega
    rw [ha, hb]
    decide
  · have hdouble : (a + b) * 2 ≤ (a + b) * (a + b + 1) := Nat.mul_le_mul_left _ (by omega)
    rw [pair]
    omega

end Cantor

import Mathlib.Data.List.Induction
import Mathlib.Data.List.Perm.Basic

/-!
# The first element of highest rank

A search that keeps its candidate until it meets a strictly better one ends with
the first element of highest rank. Elements without a rank do not take part. The
outcome depends only on the order within each class of elements that can tie.
-/

namespace FirstBest
set_option autoImplicit false

universe u v
variable {α : Type u} {rank : α → Option Nat} {l : List α} {x y : α} {n m : Nat}

/-- `x` is the first among the elements of `l` whose rank is the highest, `n`. -/
structure Best (rank : α → Option Nat) (l : List α) (x : α) (n : Nat) : Prop where
  first : (l.filter fun y => decide (rank y = some n)).head? = some x
  highest : ∀ y ∈ l, ∀ m, rank y = some m → m ≤ n

theorem Best.mem (h : Best rank l x n) : x ∈ l :=
  (List.mem_filter.mp (List.mem_of_head? h.first)).1

theorem Best.rank_eq (h : Best rank l x n) : rank x = some n :=
  of_decide_eq_true (List.mem_filter.mp (List.mem_of_head? h.first)).2

theorem Best.unique (hx : Best rank l x n) (hy : Best rank l y m) : x = y ∧ n = m := by
  have hnm := hy.highest x hx.mem n hx.rank_eq
  have hmn := hx.highest y hy.mem m hy.rank_eq
  have heq : n = m := by omega
  subst heq
  exact ⟨Option.some.inj (hx.first.symm.trans hy.first), rfl⟩

/-- A candidate that is not strictly better is skipped. -/
theorem Best.skip (h : Best rank l x n) (hy : ∀ m, rank y = some m → m ≤ n) :
    Best rank (l ++ [y]) x n := by
  constructor
  · rw [List.filter_append, List.head?_append, h.first]
    rfl
  · intro z hz k hk
    rcases List.mem_append.mp hz with hz | hz
    · exact h.highest z hz k hk
    · rw [List.mem_singleton.mp hz] at hk
      exact hy k hk

/-- A candidate that is strictly better than all before it takes over. -/
theorem Best.take (hy : rank y = some n) (h : ∀ z ∈ l, ∀ m, rank z = some m → m < n) :
    Best rank (l ++ [y]) y n := by
  constructor
  · have hnone : l.filter (fun z => decide (rank z = some n)) = [] := by
      rw [List.filter_eq_nil_iff]
      intro z hz hrank
      have hlt := h z hz n (of_decide_eq_true hrank)
      omega
    rw [List.filter_append, hnone]
    simp [hy]
  · intro z hz k hk
    rcases List.mem_append.mp hz with hz | hz
    · exact Nat.le_of_lt (h z hz k hk)
    · rw [List.mem_singleton.mp hz, hy] at hk
      exact Nat.le_of_eq (Option.some.inj hk).symm

section Reorder
variable {K : Type v} [DecidableEq K] {key : α → K} {l' : List α}

/-- The order of elements of one class is the same in both lists. -/
def SameOrder (key : α → K) (l l' : List α) : Prop :=
  ∀ k, (l.filter fun y => decide (key y = k)) = l'.filter fun y => decide (key y = k)

theorem SameOrder.mem_iff (h : SameOrder key l l') : y ∈ l ↔ y ∈ l' := by
  have hclass : ∀ l : List α, y ∈ l ↔ y ∈ l.filter fun z => decide (key z = key y) := by
    intro l
    simp
  rw [hclass l, h, ← hclass l']

/-- Elements of equal rank within one class keep their order, so the best one stays. -/
theorem Best.reorder (h : Best rank l x n)
    (htie : ∀ y z m, rank y = some m → rank z = some m → key y = key z)
    (horder : SameOrder key l l') : Best rank l' x n := by
  have hclass : ∀ l : List α, (l.filter fun y => decide (rank y = some n)) =
      (l.filter fun y => decide (key y = key x)).filter fun y => decide (rank y = some n) := by
    intro l
    rw [List.filter_filter]
    apply List.filter_congr
    intro y _
    by_cases hy : rank y = some n
    · simp [hy, htie y x n hy h.rank_eq]
    · simp [hy]
  constructor
  · rw [hclass l', ← horder, ← hclass l]
    exact h.first
  · intro y hy m hm
    exact h.highest y (horder.mem_iff.mpr hy) m hm

end Reorder

end FirstBest

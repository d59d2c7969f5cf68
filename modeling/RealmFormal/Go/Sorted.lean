import RealmFormal.Go.Bytes
import Mathlib.Data.List.Sort

/-!
# Sorting and compacting

`slices.Sort` and `slices.Compact` on byte strings. A sorted list has its equal
elements side by side, so compacting it leaves each once, in increasing order.
-/

namespace Go
set_option autoImplicit false

/-- `slices.Sort`. -/
def sort (l : List Bytes) : List Bytes := l.insertionSort (· ≤ ·)

/-- `slices.Compact`: of equal neighbours one is kept. -/
def compact : List Bytes → List Bytes
  | [] => []
  | [a] => [a]
  | a :: b :: rest => if a = b then compact (b :: rest) else a :: compact (b :: rest)

theorem mem_sort {l : List Bytes} {a : Bytes} : a ∈ sort l ↔ a ∈ l := List.mem_insertionSort _

theorem sort_pairwise (l : List Bytes) : (sort l).Pairwise (· ≤ ·) :=
  List.pairwise_insertionSort _ l

theorem mem_compact {l : List Bytes} {a : Bytes} : a ∈ compact l ↔ a ∈ l := by
  induction l with
  | nil => rfl
  | cons x l ih =>
    cases l with
    | nil => rfl
    | cons y rest =>
      rw [compact]
      split
      · rename_i heq
        subst heq
        rw [ih]
        simp
      · rw [List.mem_cons, ih, ← List.mem_cons]

theorem lt_of_le_ne {a b : Bytes} (hle : a ≤ b) (hne : a ≠ b) : a < b := by
  rcases Decidable.em (b ≤ a) with hge | hlt
  · exact absurd (List.le_antisymm hle hge) hne
  · exact List.not_le.mp hlt

theorem compact_pairwise {l : List Bytes} (h : l.Pairwise (· ≤ ·)) :
    (compact l).Pairwise (· < ·) := by
  induction l with
  | nil => exact List.Pairwise.nil
  | cons x l ih =>
    cases l with
    | nil => exact List.pairwise_singleton _ _
    | cons y rest =>
      obtain ⟨hx, hrest⟩ := List.pairwise_cons.mp h
      rw [compact]
      split
      · exact ih hrest
      · rename_i hne
        refine List.pairwise_cons.mpr ⟨fun a ha => ?_, ih hrest⟩
        have hxy : x < y := lt_of_le_ne (hx y List.mem_cons_self) hne
        rcases List.mem_cons.mp (mem_compact.mp ha) with rfl | ha
        · exact hxy
        · have hya : y ≤ a := (List.pairwise_cons.mp hrest).1 a ha
          exact List.not_le.mp fun hax => List.not_le.mpr hxy (List.le_trans hya hax)

end Go

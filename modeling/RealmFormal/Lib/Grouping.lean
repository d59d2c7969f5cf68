import Mathlib.Data.List.Perm.Basic

/-!
# Grouping a list by a key

A list that is written group by group, for keys given in advance, is written as a
whole and without repetition when the keys are distinct and every key occurs.
-/

namespace Grouping
set_option autoImplicit false

variable {A K : Type} [DecidableEq K]

/-- The elements group by group, in the order of the keys. -/
def grouped (key : A → K) (keys : List K) (xs : List A) : List A :=
  keys.flatMap fun k => xs.filter fun x => decide (key x = k)

theorem grouped_nil (key : A → K) (keys : List K) : grouped key keys [] = [] := by
  simp [grouped]

theorem grouped_cons_of_not_mem {key : A → K} {keys : List K} {x : A} (h : key x ∉ keys)
    (xs : List A) : grouped key keys (x :: xs) = grouped key keys xs := by
  unfold grouped
  rw [List.flatMap_def, List.flatMap_def]
  congr 1
  apply List.map_congr_left
  intro k hk
  have hne : key x ≠ k := fun heq => h (heq ▸ hk)
  rw [List.filter_cons_of_neg (by simpa using hne)]

theorem grouped_cons {key : A → K} {keys : List K} (hkeys : keys.Nodup) {x : A}
    (h : key x ∈ keys) (xs : List A) :
    (grouped key keys (x :: xs)).Perm (x :: grouped key keys xs) := by
  induction keys with
  | nil => cases h
  | cons k keys ih =>
    rw [List.nodup_cons] at hkeys
    have hcons : ∀ ys, grouped key (k :: keys) ys =
        (ys.filter fun y => decide (key y = k)) ++ grouped key keys ys := by
      intro ys
      rw [grouped, List.flatMap_cons, ← grouped]
    rw [hcons, hcons]
    by_cases hk : key x = k
    · rw [List.filter_cons_of_pos (by simpa using hk),
        grouped_cons_of_not_mem (hk ▸ hkeys.1), List.cons_append]
    · rw [List.filter_cons_of_neg (by simpa using hk)]
      have htail : key x ∈ keys := (List.mem_cons.mp h).resolve_left hk
      exact ((ih hkeys.2 htail).append_left _).trans List.perm_middle

theorem grouped_perm {key : A → K} {keys : List K} (hkeys : keys.Nodup) {xs : List A}
    (h : ∀ x ∈ xs, key x ∈ keys) : (grouped key keys xs).Perm xs := by
  induction xs with
  | nil => rw [grouped_nil]
  | cons x xs ih =>
    obtain ⟨hx, hxs⟩ := List.forall_mem_cons.mp h
    exact (grouped_cons hkeys hx xs).trans ((ih hxs).cons x)

end Grouping

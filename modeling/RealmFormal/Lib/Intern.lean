import Mathlib.Data.List.Nodup

/-!
# Bounded intern tables

Items receive positions in the order in which they first come, until the table is
full. A position is never given to another item and never taken back.
-/

set_option autoImplicit false

universe u

/-- At most `cap` items, none of them twice. -/
structure Intern (α : Type u) (cap : Nat) where
  items : List α
  distinct : items.Nodup
  bounded : items.length ≤ cap

namespace Intern
variable {α : Type u} {cap : Nat}

def empty : Intern α cap := ⟨[], List.nodup_nil, Nat.zero_le _⟩

variable [DecidableEq α]

/-- The position of `x`, which a new item gets at the end; `none` when there is no room. -/
def assign (t : Intern α cap) (x : α) : Option Nat × Intern α cap :=
  if hmem : x ∈ t.items then (some (t.items.idxOf x), t)
  else if hroom : t.items.length < cap then
    (some t.items.length,
      ⟨t.items ++ [x],
        List.nodup_append.mpr ⟨t.distinct, List.nodup_singleton x, by
          rintro a ha b hb rfl
          exact hmem (List.mem_singleton.mp hb ▸ ha)⟩,
        by rw [List.length_append, List.length_singleton]; omega⟩)
  else (none, t)

omit [DecidableEq α] in
theorem position_unique (t : Intern α cap) {i j : Nat} {x : α} (hi : t.items[i]? = some x)
    (hj : t.items[j]? = some x) : i = j := by
  have hlt := (List.getElem?_eq_some_iff.mp hi).1
  exact (List.getElem?_inj hlt t.distinct).mp (hi.trans hj.symm)

omit [DecidableEq α] in
theorem position_lt (t : Intern α cap) {i : Nat} {x : α} (h : t.items[i]? = some x) : i < cap :=
  Nat.lt_of_lt_of_le (List.getElem?_eq_some_iff.mp h).1 t.bounded

theorem assign_of_position {t : Intern α cap} {i : Nat} {x : α} (h : t.items[i]? = some x) :
    t.assign x = (some i, t) := by
  have hmem := List.mem_of_getElem? h
  have hidx : t.items[t.items.idxOf x]? = some x := by
    rw [List.getElem?_eq_some_iff]
    exact ⟨List.idxOf_lt_length_iff.mpr hmem, List.getElem_idxOf _⟩
  rw [assign, dif_pos hmem, t.position_unique hidx h]

theorem assign_position {t : Intern α cap} {x : α} {i : Nat} (h : (t.assign x).1 = some i) :
    (t.assign x).2.items[i]? = some x := by
  unfold assign at h ⊢
  split
  · rename_i hmem
    rw [dif_pos hmem] at h
    cases h
    rw [List.getElem?_eq_some_iff]
    exact ⟨List.idxOf_lt_length_iff.mpr hmem, List.getElem_idxOf _⟩
  · rename_i hmem
    rw [dif_neg hmem] at h
    split
    · rename_i hroom
      rw [dif_pos hroom] at h
      cases h
      simp
    · rename_i hroom
      rw [dif_neg hroom] at h
      cases h

/-- Admitting an item changes no other position and fills at most the one it returns. -/
theorem assign_items {t : Intern α cap} {x y : α} {i : Nat} :
    (t.assign x).2.items[i]? = some y ↔
      t.items[i]? = some y ∨ y = x ∧ (t.assign x).1 = some i := by
  constructor
  · intro h
    by_cases hmem : x ∈ t.items
    · rw [assign, dif_pos hmem] at h
      exact Or.inl h
    · by_cases hroom : t.items.length < cap
      · rw [assign, dif_neg hmem, dif_pos hroom] at h ⊢
        rcases Nat.lt_trichotomy i t.items.length with hi | hi | hi
        · rw [List.getElem?_append_left hi] at h
          exact Or.inl h
        · subst hi
          rw [List.getElem?_concat_length] at h
          exact Or.inr ⟨(Option.some.inj h).symm, rfl⟩
        · rw [List.getElem?_eq_none (by rw [List.length_append, List.length_singleton]; omega)] at h
          cases h
      · rw [assign, dif_neg hmem, dif_neg hroom] at h
        exact Or.inl h
  · rintro (h | ⟨rfl, h⟩)
    · unfold assign
      split
      · exact h
      · split
        · have hlt := (List.getElem?_eq_some_iff.mp h).1
          rw [List.getElem?_append_left hlt]
          exact h
        · exact h
    · exact assign_position h

theorem assign_full {t : Intern α cap} {x : α} (hmem : x ∉ t.items)
    (hfull : t.items.length = cap) : t.assign x = (none, t) := by
  rw [assign, dif_neg hmem, dif_neg (by omega)]

end Intern

import Mathlib.Data.List.Infix

/-!
# Counting occurrences

`bytes.Count` for a text that is not empty: the occurrences are taken from the left
and do not overlap. For a text without a border, which cannot overlap itself, a count
of one says where the only occurrence is.
-/

namespace Go
set_option autoImplicit false

universe u
variable {α : Type u} {sep s t : List α}

/-- No end of the text is also a beginning of it, apart from the whole. -/
def Unbordered (sep : List α) : Prop := ∀ n < sep.length, 0 < n → ¬ sep.drop n <+: sep

/-- Two occurrences of a text without a border do not overlap. -/
theorem Unbordered.length_le (h : Unbordered sep) (hs : s ≠ []) (hwhole : sep <+: s ++ t)
    (ht : sep <+: t) : sep.length ≤ s.length := by
  by_contra hshort
  rw [Nat.not_le] at hshort
  refine h s.length hshort (List.length_pos_iff.mpr hs) ?_
  have hdrop : sep.drop s.length <+: t := by
    obtain ⟨rest, hrest⟩ := hwhole
    refine ⟨rest, ?_⟩
    rw [← List.drop_append_of_le_length (Nat.le_of_lt hshort), hrest, List.drop_left]
  refine List.prefix_of_prefix_length_le hdrop ht ?_
  rw [List.length_drop]
  exact Nat.sub_le _ _

variable [DecidableEq α]

/-- `skip` is what is left of the last occurrence. -/
def countFrom (sep : List α) : Nat → List α → Nat
  | _, [] => 0
  | skip + 1, _ :: t => countFrom sep skip t
  | 0, a :: t =>
    if sep.isPrefixOf (a :: t) then countFrom sep (sep.length - 1) t + 1 else countFrom sep 0 t

def count (s sep : List α) : Nat := countFrom sep 0 s

theorem countFrom_eq_drop (sep : List α) (skip : Nat) (s : List α) :
    countFrom sep skip s = countFrom sep 0 (s.drop skip) := by
  induction s generalizing skip with
  | nil => simp [countFrom]
  | cons a t ih =>
    cases skip with
    | zero => rfl
    | succ skip => exact ih skip

theorem count_append_self (h : sep ≠ []) (t : List α) : count (sep ++ t) sep = count t sep + 1 := by
  obtain ⟨a, rest, rfl⟩ := List.exists_cons_of_ne_nil h
  have hhead : (a :: rest).isPrefixOf (a :: (rest ++ t)) = true := by simp
  rw [count, List.cons_append, countFrom, if_pos hhead, countFrom_eq_drop]
  simp [count]

theorem count_pos_of_infix (h : sep ≠ []) (hs : sep <:+: s) : 0 < count s sep := by
  unfold count
  induction s with
  | nil => exact absurd (List.infix_nil.mp hs) h
  | cons a t ih =>
    rw [countFrom]
    split
    · exact Nat.succ_pos _
    · rename_i hhead
      rcases List.infix_cons_iff.mp hs with hprefix | htail
      · exact absurd (List.isPrefixOf_iff_prefix.mpr hprefix) hhead
      · exact ih htail

/-- A text that starts with `sep` and has it once has nothing before an occurrence of it. -/
theorem Unbordered.eq_nil_of_count (h : Unbordered sep) (hsep : sep ≠ [])
    (hwhole : sep <+: s ++ t) (ht : sep <+: t) (hcount : count (s ++ t) sep = 1) : s = [] := by
  by_contra hs
  have hlength := h.length_le hs hwhole ht
  obtain ⟨rest, rfl⟩ :=
    List.prefix_of_prefix_length_le hwhole (List.prefix_append s t) hlength
  rw [List.append_assoc, count_append_self hsep] at hcount
  have hpos : 0 < count (rest ++ t) sep :=
    count_pos_of_infix hsep (ht.isInfix.trans (List.suffix_append rest t).isInfix)
  omega

end Go

import Mathlib.Computability.RegularExpressions

/-!
# Regular expressions as configuration languages write them

Bracket expressions and bounded repetition over the regular expressions of the
library, and the match of two groups in a row against a whole text.
-/

namespace Regex
open RegularExpression
set_option autoImplicit false

universe u
variable {α : Type u} [DecidableEq α] {r q : RegularExpression α} {n : Nat} {x a b : List α}
  {cs : List α}

/-- A bracket expression. -/
def oneOf (cs : List α) : RegularExpression α := cs.foldr (fun c r => char c + r) 0

/-- Exactly `n` times. -/
def times (r : RegularExpression α) : Nat → RegularExpression α
  | 0 => 1
  | n + 1 => r * times r n

/-- At most `n` times. -/
def upTo (r : RegularExpression α) : Nat → RegularExpression α
  | 0 => 1
  | n + 1 => 1 + r * upTo r n

omit [DecidableEq α] in
theorem oneOf_cons (c : α) (cs : List α) : oneOf (c :: cs) = char c + oneOf cs := rfl

theorem oneOf_rmatch_iff : (oneOf cs).rmatch x = true ↔ ∃ c ∈ cs, x = [c] := by
  induction cs with
  | nil => simp [oneOf]
  | cons c cs ih =>
    rw [oneOf_cons, add_rmatch_iff, char_rmatch_iff, ih]
    simp

theorem times_rmatch_iff :
    (times r n).rmatch x = true ↔
      ∃ parts : List (List α), parts.length = n ∧ (∀ part ∈ parts, r.rmatch part = true) ∧
        x = parts.flatten := by
  induction n generalizing x with
  | zero =>
    rw [times, one_rmatch_iff]
    constructor
    · rintro rfl
      exact ⟨[], rfl, List.forall_mem_nil _, rfl⟩
    · rintro ⟨parts, hlen, -, rfl⟩
      rw [List.length_eq_zero_iff.mp hlen, List.flatten_nil]
  | succ n ih =>
    rw [times, mul_rmatch_iff]
    constructor
    · rintro ⟨t, u, rfl, ht, hu⟩
      obtain ⟨parts, hlen, hparts, rfl⟩ := ih.mp hu
      exact ⟨t :: parts, by rw [List.length_cons, hlen], List.forall_mem_cons.mpr ⟨ht, hparts⟩, rfl⟩
    · rintro ⟨parts, hlen, hparts, rfl⟩
      obtain ⟨t, parts, rfl⟩ := List.exists_cons_of_length_eq_add_one hlen
      obtain ⟨ht, hparts⟩ := List.forall_mem_cons.mp hparts
      exact ⟨t, parts.flatten, rfl, ht, ih.mpr ⟨parts, by simpa using hlen, hparts, rfl⟩⟩

/-- A bounded number of characters of one class. -/
theorem upTo_oneOf_rmatch_iff :
    (upTo (oneOf cs) n).rmatch x = true ↔ x.length ≤ n ∧ ∀ c ∈ x, c ∈ cs := by
  induction n generalizing x with
  | zero =>
    rw [upTo, one_rmatch_iff]
    constructor
    · rintro rfl
      exact ⟨Nat.le_refl 0, List.forall_mem_nil _⟩
    · rintro ⟨hlen, -⟩
      exact List.length_eq_zero_iff.mp (Nat.le_zero.mp hlen)
  | succ n ih =>
    rw [upTo, add_rmatch_iff, one_rmatch_iff, mul_rmatch_iff]
    constructor
    · rintro (rfl | ⟨t, u, rfl, ht, hu⟩)
      · exact ⟨Nat.zero_le _, List.forall_mem_nil _⟩
      · obtain ⟨c, hc, rfl⟩ := oneOf_rmatch_iff.mp ht
        obtain ⟨hlen, hmem⟩ := ih.mp hu
        refine ⟨?_, List.forall_mem_cons.mpr ⟨hc, hmem⟩⟩
        rw [List.singleton_append, List.length_cons]
        omega
    · rintro ⟨hlen, hmem⟩
      cases x with
      | nil => exact Or.inl rfl
      | cons c x =>
        obtain ⟨hc, hmem⟩ := List.forall_mem_cons.mp hmem
        refine Or.inr ⟨[c], x, rfl, oneOf_rmatch_iff.mpr ⟨c, hc, rfl⟩, ih.mpr ⟨?_, hmem⟩⟩
        rw [List.length_cons] at hlen
        omega

/-- Any number of characters of one class. -/
theorem star_oneOf_rmatch_iff : (star (oneOf cs)).rmatch x = true ↔ ∀ c ∈ x, c ∈ cs := by
  rw [star_rmatch_iff]
  constructor
  · rintro ⟨parts, rfl, hparts⟩ c hc
    obtain ⟨part, hpart, hmem⟩ := List.mem_flatten.mp hc
    obtain ⟨d, hd, rfl⟩ := oneOf_rmatch_iff.mp (hparts part hpart).2
    rw [List.mem_singleton.mp hmem]
    exact hd
  · intro hx
    refine ⟨x.map fun c => [c], ?_, ?_⟩
    · rw [← List.flatMap_def, List.flatMap_singleton']
    · intro part hpart
      obtain ⟨c, hc, rfl⟩ := List.mem_map.mp hpart
      exact ⟨List.cons_ne_nil c [], oneOf_rmatch_iff.mpr ⟨c, hx c hc, rfl⟩⟩

/-- The groups of `(r)(q)` in a whole text, the first as long as it can be. -/
def matchPair (r q : RegularExpression α) (x : List α) : Option (List α × List α) :=
  ((List.range (x.length + 1)).reverse.map fun k => (x.take k, x.drop k)).find? fun p =>
    r.rmatch p.1 && q.rmatch p.2

theorem of_matchPair_eq_some (h : matchPair r q x = some (a, b)) :
    x = a ++ b ∧ r.rmatch a = true ∧ q.rmatch b = true := by
  have hmatch := List.find?_some h
  obtain ⟨k, -, heq⟩ := List.mem_map.mp (List.mem_of_find?_eq_some h)
  cases heq
  obtain ⟨hr, hq⟩ := Bool.and_eq_true_iff.mp hmatch
  exact ⟨(List.take_append_drop k x).symm, hr, hq⟩

theorem matchPair_isSome (hr : r.rmatch a = true) (hq : q.rmatch b = true) :
    (matchPair r q (a ++ b)).isSome = true := by
  rw [matchPair, List.find?_isSome]
  refine ⟨(a, b), List.mem_map.mpr ⟨a.length, ?_, ?_⟩, by simp [hr, hq]⟩
  · rw [List.mem_reverse, List.mem_range, List.length_append]
    omega
  · rw [List.take_left, List.drop_left]

end Regex

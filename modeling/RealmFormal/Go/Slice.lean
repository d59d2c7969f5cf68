import Mathlib.Data.List.Induction
import Mathlib.Data.List.TakeDrop
import Mathlib.Tactic.Common

/-!
# Slices over shared arrays

A slice is a window into an array, and several slices can share one. `append`
writes into the array while there is room and moves to a new array otherwise. The
loop that filters a slice into its own array reads each element before it can be
overwritten. The slices here begin at the first element of their array.
-/

namespace Go
set_option autoImplicit false

universe u

/-- A slice header; the nil slice has no array. -/
structure Slice where
  array : Option Nat
  len : Nat
  deriving DecidableEq, Repr

namespace Slice

def nil : Slice := ⟨none, 0⟩

/-- `s[:0]`. -/
def truncate (s : Slice) : Slice := { s with len := 0 }

end Slice

/-- The arrays allocated so far. -/
abbrev Memory (α : Type u) := List (List α)

namespace Memory
variable {α : Type u} {m : Memory α} {s : Slice}

/-- The whole array behind a slice. -/
def block (m : Memory α) (s : Slice) : List α := (s.array.bind fun a => m[a]?).getD []

def cap (m : Memory α) (s : Slice) : Nat := (m.block s).length

def read (m : Memory α) (s : Slice) : List α := (m.block s).take s.len

def write (m : Memory α) (s : Slice) (i : Nat) (x : α) : Memory α :=
  match s.array with
  | none => m
  | some a => m.set a ((m.block s).set i x)

/-- The header fits its array. -/
structure Valid (m : Memory α) (s : Slice) : Prop where
  len_le : s.len ≤ m.cap s
  allocated : ∀ a, s.array = some a → a < m.length

theorem valid_nil (m : Memory α) : m.Valid Slice.nil := ⟨Nat.zero_le _, nofun⟩

theorem read_length (h : m.Valid s) : (m.read s).length = s.len := by
  rw [read, List.length_take]
  exact Nat.min_eq_left h.len_le

theorem block_congr {t : Slice} (h : s.array = t.array) : m.block s = m.block t := by
  rw [block, block, h]

/-- A slice with room for one more element has an array. -/
theorem Valid.exists_array (h : m.Valid s) (hroom : 0 < m.cap s) :
    ∃ a, s.array = some a ∧ a < m.length := by
  cases harray : s.array with
  | none => simp [cap, block, harray] at hroom
  | some a => exact ⟨a, rfl, h.allocated a harray⟩

theorem block_set {a : Nat} (ha : a < m.length) (harray : s.array = some a) (b : List α) :
    (Memory.block (m.set a b) s) = b := by
  simp [block, harray, ha]

theorem block_set_of_ne {a : Nat} (harray : s.array ≠ some a) (b : List α) :
    (Memory.block (m.set a b) s) = m.block s := by
  cases h : s.array with
  | none => simp [block, h]
  | some c =>
    have hne : a ≠ c := by
      intro heq
      exact harray (heq ▸ h)
    simp [block, h, List.getElem?_set_ne hne]

theorem block_append {extra : List α} (h : ∀ a, s.array = some a → a < m.length) :
    (Memory.block (m ++ [extra]) s) = m.block s := by
  cases harray : s.array with
  | none => simp [block, harray]
  | some a =>
    have ha := h a harray
    simp [block, harray, List.getElem?_append_left ha]

/-- What an operation on `s` does to memory: the result holds `content` in the array of `s` or
in a new one, and no other array changes. -/
structure Rewrites (m : Memory α) (s : Slice) (content : List α) (r : Memory α × Slice) : Prop where
  content : r.1.read r.2 = content
  valid : r.1.Valid r.2
  own : r.2.array = s.array ∨ r.2.array = some m.length
  grows : m.length ≤ r.1.length
  others : ∀ t : Slice, m.Valid t → (t.array = none ∨ t.array ≠ s.array) → r.1.block t = m.block t

theorem write_eq {a : Nat} (harray : s.array = some a) (i : Nat) (x : α) :
    m.write s i x = m.set a ((m.block s).set i x) := by
  rw [write, harray]

/-- With room left the element is written behind the slice. -/
theorem write_rewrites (h : m.Valid s) (hroom : s.len < m.cap s) (x : α) :
    Rewrites m s (m.read s ++ [x]) (m.write s s.len x, ⟨s.array, s.len + 1⟩) := by
  obtain ⟨a, harray, ha⟩ := h.exists_array (Nat.zero_lt_of_lt hroom)
  have hblock : (Memory.block (m.set a ((m.block s).set s.len x)) ⟨s.array, s.len + 1⟩) =
      (m.block s).set s.len x := block_set ha harray _
  rw [write_eq harray]
  constructor
  case content =>
    have hroom' : s.len < (m.block s).length := hroom
    rw [read, hblock, read, List.take_add_one, List.take_set_of_le (Nat.le_refl _),
      List.getElem?_set_self hroom']
    rfl
  case valid =>
    constructor
    · rw [cap, hblock, List.length_set]
      exact hroom
    · intro b hb
      rw [List.length_set]
      exact h.allocated b hb
  case own => exact Or.inl rfl
  case grows => exact Nat.le_of_eq List.length_set.symm
  case others =>
    intro t _ hother
    apply block_set_of_ne
    rcases hother with hnone | hne
    · rw [hnone]
      nofun
    · rw [← harray]
      exact hne

/-- Otherwise the content moves to a new array. -/
theorem move_rewrites (h : m.Valid s) (x : α) (spare : List α) :
    Rewrites m s (m.read s ++ [x])
      (m ++ [m.read s ++ x :: spare], ⟨some m.length, s.len + 1⟩) := by
  have hlen := read_length h
  have hblock : (Memory.block (m ++ [m.read s ++ x :: spare]) ⟨some m.length, s.len + 1⟩) =
      m.read s ++ x :: spare := by
    simp [block]
  constructor
  case content =>
    rw [read, hblock, List.take_append, List.take_of_length_le (hlen ▸ Nat.le_succ _), hlen]
    simp
  case valid =>
    constructor
    · rw [cap, hblock]
      simp only [List.length_append, List.length_cons, hlen]
      omega
    · intro b hb
      cases hb
      simp
  case own => exact Or.inr rfl
  case grows => simp
  case others =>
    intro t ht _
    exact block_append ht.allocated

section Append
variable [Inhabited α] (grow : Nat → Nat)

/-- `append(s, x)`; `grow` is the room that the runtime adds to a new array. -/
def append (m : Memory α) (s : Slice) (x : α) : Memory α × Slice :=
  if s.len < m.cap s then (m.write s s.len x, ⟨s.array, s.len + 1⟩)
  else
    (m ++ [m.read s ++ x :: List.replicate (grow (s.len + 1)) default], ⟨some m.length, s.len + 1⟩)

/-- One turn of the filter loop, at index `i` of the slice that is ranged over. -/
def filterTurn (keep : α → Bool) (source : Slice) (r : Memory α × Slice) (i : Nat) :
    Memory α × Slice :=
  match (r.1.block source)[i]? with
  | none => r
  | some x => if keep x then append grow r.1 r.2 x else r

/-- `out := s[:0]`, then a loop over `s` that appends what is kept to `out`. -/
def filterInPlace (keep : α → Bool) (m : Memory α) (s : Slice) : Memory α × Slice :=
  (List.range s.len).foldl (filterTurn grow keep s) (m, s.truncate)

theorem append_rewrites (h : m.Valid s) (x : α) :
    Rewrites m s (m.read s ++ [x]) (append grow m s x) := by
  unfold append
  split
  · exact write_rewrites h ‹_› x
  · exact move_rewrites h x _

/-- After `i` turns the kept elements stand at the front of the array, and nothing from `i` on has
been touched. -/
structure Filtering (keep : α → Bool) (m : Memory α) (s : Slice) (i : Nat)
    (r : Memory α × Slice) : Prop where
  array : r.2.array = s.array
  len : r.2.len = (((m.block s).take i).filter keep).length
  block : r.1.block s = ((m.block s).take i).filter keep ++ (m.block s).drop r.2.len
  size : r.1.length = m.length
  others : ∀ t : Slice, t.array ≠ s.array → r.1.block t = m.block t

variable {grow} {keep : α → Bool}

theorem Filtering.turn {i : Nat} {r : Memory α × Slice} (h : m.Valid s)
    (hr : Filtering keep m s i r) (hi : i < s.len) :
    Filtering keep m s (i + 1) (filterTurn grow keep s r i) := by
  have hbound : i < (m.block s).length := Nat.lt_of_lt_of_le hi h.len_le
  have hle : r.2.len ≤ i := by
    rw [hr.len]
    refine Nat.le_trans (List.length_filter_le _ _) ?_
    rw [List.length_take]
    omega
  obtain ⟨x, hx⟩ : ∃ x, (m.block s)[i]? = some x := ⟨_, List.getElem?_eq_getElem hbound⟩
  have hread : (r.1.block s)[i]? = some x := by
    rw [hr.block, List.getElem?_append_right (hr.len ▸ hle), List.getElem?_drop, ← hr.len]
    rw [Nat.add_sub_cancel' hle, hx]
  have htake : (m.block s).take (i + 1) = (m.block s).take i ++ [x] := by
    rw [List.take_add_one, hx]
    rfl
  unfold filterTurn
  rw [hread]
  dsimp only
  split
  · rename_i hkeep
    have hcap : r.1.cap r.2 = m.cap s := by
      rw [cap, block_congr hr.array, hr.block, List.length_append, List.length_drop, ← hr.len, cap]
      omega
    have hroom : r.2.len < r.1.cap r.2 := by
      rw [hcap, cap]
      omega
    obtain ⟨a, harray, ha⟩ := h.exists_array (by rw [cap]; omega)
    rw [append, if_pos hroom, write_eq (hr.array.trans harray), block_congr hr.array]
    constructor
    case array => exact hr.array
    case len =>
      rw [htake, List.filter_append, List.length_append, ← hr.len]
      simp [hkeep]
    case block =>
      rw [block_set (hr.size ▸ ha) harray, hr.block, htake, List.filter_append]
      rw [List.set_append_right _ _ (Nat.le_of_eq hr.len.symm), ← hr.len, Nat.sub_self]
      have hdrop : r.2.len < (m.block s).length := Nat.lt_of_le_of_lt hle hbound
      rw [List.drop_eq_getElem_cons hdrop, List.set_cons_zero]
      simp [hkeep]
    case size => rw [List.length_set, hr.size]
    case others =>
      intro t ht
      rw [block_set_of_ne (harray ▸ ht), hr.others t ht]
  · rename_i hdrop
    have hfilter : ((m.block s).take (i + 1)).filter keep = ((m.block s).take i).filter keep := by
      rw [htake, List.filter_append]
      simp [hdrop]
    exact ⟨hr.array, hfilter ▸ hr.len, hfilter ▸ hr.block, hr.size, hr.others⟩

theorem filtering (grow : Nat → Nat) (keep : α → Bool) (h : m.Valid s) {i : Nat}
    (hi : i ≤ s.len) :
    Filtering keep m s i ((List.range i).foldl (filterTurn grow keep s) (m, s.truncate)) := by
  induction i with
  | zero => exact ⟨rfl, rfl, rfl, rfl, fun _ _ => rfl⟩
  | succ i ih =>
    rw [List.range_succ, List.foldl_append]
    exact (ih (Nat.le_of_succ_le hi)).turn h hi

/-- Filtering in place keeps exactly the elements that pass, in their order. -/
theorem filterInPlace_rewrites (grow : Nat → Nat) (keep : α → Bool) (h : m.Valid s) :
    Rewrites m s ((m.read s).filter keep) (filterInPlace grow keep m s) := by
  have hr := filtering grow keep h (Nat.le_refl s.len)
  have hblock := (block_congr hr.array).trans hr.block
  constructor
  case content =>
    rw [filterInPlace, read, hblock, hr.len, List.take_left]
    rfl
  case valid =>
    constructor
    · rw [filterInPlace, cap, hblock, List.length_append, ← hr.len]
      omega
    · intro a ha
      rw [filterInPlace, hr.size]
      exact h.allocated a (hr.array ▸ ha)
  case own => exact Or.inl hr.array
  case grows => exact Nat.le_of_eq hr.size.symm
  case others =>
    intro t _ ht
    rcases ht with hnone | hne
    · simp [block, hnone]
    · exact hr.others t hne

end Append

end Memory

end Go

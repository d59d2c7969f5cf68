import RealmFormal.Lib.Table
import Mathlib.Algebra.BigOperators.Group.List.Basic
import Mathlib.Algebra.Ring.Nat

/-!
# Tables of counters

A table that counts keys in unsigned 64-bit counters, which wrap around. The
entries hold the number of occurrences of each key, modulo the size of a counter,
and the counters of some keys add up to the number of occurrences of any of them.
-/

namespace Tally
set_option autoImplicit false

universe u
variable {K : Type u} [DecidableEq K] {t : Table K UInt64} {keys : List K} {p : K → Bool}

/-- One more occurrence of `k`; a missing counter is zero. -/
def bump (t : Table K UInt64) (k : K) : Table K UInt64 := t.put k ((t.get k).getD 0 + 1)

/-- Also a counter that wraps around shows the occurrence. -/
theorem get_bump_ne (t : Table K UInt64) (k : K) : (bump t k).get k ≠ t.get k := by
  rw [bump, Table.get_put_self]
  cases t.get k with
  | none => simp
  | some n =>
    intro h
    have hzero := UInt64.add_eq_left.mp (Option.some.inj h)
    cases hzero

/-- The counter of a key that has occurred `n` times. -/
def counter (n : Nat) : Option UInt64 := if n = 0 then none else some (UInt64.ofNat n)

/-- The table counts the occurrences of every key. -/
def Counts (t : Table K UInt64) (keys : List K) : Prop := ∀ k, t.get k = counter (keys.count k)

theorem counts_empty : Counts (.empty : Table K UInt64) [] := fun _ => rfl

theorem getD_counter_add_one (n : Nat) : (counter n).getD 0 + 1 = UInt64.ofNat (n + 1) := by
  unfold counter
  split
  · rename_i hn
    rw [hn]
    rfl
  · rw [Option.getD_some, UInt64.ofNat_add]
    rfl

theorem Counts.bump (h : Counts t keys) (k : K) : Counts (bump t k) (keys ++ [k]) := by
  intro j
  rw [Tally.bump, Table.get_put, h, h, getD_counter_add_one, List.count_append, List.count_singleton]
  by_cases hjk : k = j
  · subst hjk
    simp [counter]
  · have hne : ¬ j = k := fun heq => hjk heq.symm
    simp [hjk, hne]

theorem Counts.value (h : Counts t keys) {e : K × UInt64} (he : e ∈ t.entries) :
    e.2 = UInt64.ofNat (keys.count e.1) := by
  have hget : t.get e.1 = some e.2 := Table.get_eq_some_iff.mpr he
  rw [h, counter] at hget
  exact (Option.some.inj (Option.ite_none_left_eq_some.mp hget).2).symm

theorem Counts.mem (h : Counts t keys) {k : K} (hk : k ∈ keys) : k ∈ t.entries.map Prod.fst := by
  have hget := h k
  rw [counter, if_neg (Nat.ne_of_gt (List.count_pos_iff.mpr hk))] at hget
  exact List.mem_map_of_mem (Table.get_eq_some_iff.mp hget)

theorem Counts.mem_keys (h : Counts t keys) {k : K} {n : UInt64} (hk : t.get k = some n) :
    k ∈ keys := by
  rw [h, counter] at hk
  exact List.count_pos_iff.mp (Nat.pos_of_ne_zero (Option.ite_none_left_eq_some.mp hk).1)

theorem sum_ite_of_nodup {ks : List K} (hks : ks.Nodup) (x : K) :
    (ks.map fun k => if x = k then 1 else 0).sum = if x ∈ ks then 1 else 0 := by
  induction ks with
  | nil => rfl
  | cons k ks ih =>
    obtain ⟨hk, hks⟩ := List.nodup_cons.mp hks
    rw [List.map_cons, List.sum_cons, ih hks]
    by_cases hx : x = k
    · subst hx
      simp [hk]
    · simp [hx]

/-- Counting each of some distinct keys counts the occurrences of any of them. -/
theorem sum_count_of_nodup {ks : List K} (hks : ks.Nodup) (keys : List K) :
    (ks.map fun k => keys.count k).sum = keys.countP fun k => decide (k ∈ ks) := by
  induction keys with
  | nil => simp
  | cons x keys ih =>
    have hcount : ∀ k, (x :: keys).count k = keys.count k + if x = k then 1 else 0 := by
      intro k
      rw [List.count_cons]
      simp
    simp only [hcount]
    rw [List.sum_map_add, ih, sum_ite_of_nodup hks, List.countP_cons]
    simp

/-- The keys of the table in `p`. -/
def selected (t : Table K UInt64) (p : K → Bool) : List K :=
  (t.entries.filter fun e => p e.1).map Prod.fst

omit [DecidableEq K] in
theorem nodup_selected (t : Table K UInt64) (p : K → Bool) : (selected t p).Nodup :=
  t.distinct.sublist (List.filter_sublist.map _)

/-- The keys that have occurred are in the table, so those in `p` are selected. -/
theorem Counts.countP_selected (h : Counts t keys) (p : K → Bool) :
    (keys.countP fun k => decide (k ∈ selected t p)) = keys.countP p := by
  refine List.countP_congr ?_
  intro k hk
  obtain ⟨e, he, rfl⟩ := List.mem_map.mp (h.mem hk)
  rw [decide_eq_true_eq, selected, List.mem_map]
  constructor
  · rintro ⟨e', he', heq⟩
    rw [← heq]
    exact (List.mem_filter.mp he').2
  · intro hp
    exact ⟨e, List.mem_filter.mpr ⟨he, hp⟩, rfl⟩

theorem Counts.map_toNat (h : Counts t keys) (p : K → Bool) :
    ((t.entries.filter fun e => p e.1).map fun e => e.2.toNat) =
      (selected t p).map fun k => keys.count k % UInt64.size := by
  rw [selected, List.map_map]
  refine List.map_congr_left ?_
  intro e he
  rw [h.value (List.mem_filter.mp he).1]
  rfl

/-- The counters of the keys in `p` add up, modulo their size, to the occurrences of such keys. -/
theorem Counts.sum (h : Counts t keys) (p : K → Bool) :
    ((t.entries.filter fun e => p e.1).map fun e => e.2.toNat).sum % UInt64.size =
      keys.countP p % UInt64.size := by
  have hmod : ((selected t p).map fun k => keys.count k % UInt64.size) =
      ((selected t p).map fun k => keys.count k).map (· % UInt64.size) := by
    rw [List.map_map]
    rfl
  rw [h.map_toNat, hmod, ← List.sum_nat_mod, sum_count_of_nodup (nodup_selected t p),
    h.countP_selected]

/-- Without overflow they add up exactly. -/
theorem Counts.sum_of_lt (h : Counts t keys) (hlt : keys.countP p < UInt64.size) :
    ((t.entries.filter fun e => p e.1).map fun e => e.2.toNat).sum = keys.countP p := by
  have hsmall : ((selected t p).map fun k => keys.count k % UInt64.size) =
      (selected t p).map fun k => keys.count k := by
    refine List.map_congr_left ?_
    intro k hk
    obtain ⟨e, he, rfl⟩ := List.mem_map.mp hk
    refine Nat.mod_eq_of_lt (Nat.lt_of_le_of_lt ?_ hlt)
    refine List.countP_mono_left ?_
    intro j _ hj
    rw [eq_of_beq hj]
    exact (List.mem_filter.mp he).2
  rw [h.map_toNat, hsmall, sum_count_of_nodup (nodup_selected t p), h.countP_selected]

end Tally

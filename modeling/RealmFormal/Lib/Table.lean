import Mathlib.Data.List.Nodup
import Mathlib.Data.List.Lookmap

/-!
# Finite tables

Association lists with distinct keys. `put` replaces, `erase` removes, `keep`
filters. Every fact about a table is stated through `get` and `size`.
-/

set_option autoImplicit false

universe u v

/-- A finite map; the field rules out two entries for one key. -/
structure Table (K : Type u) (V : Type v) where
  entries : List (K × V)
  distinct : (entries.map Prod.fst).Nodup

namespace Table
variable {K : Type u} {V : Type v}

def empty : Table K V := ⟨[], List.nodup_nil⟩

def size (t : Table K V) : Nat := t.entries.length

/-- The number of entries that satisfy `p`. -/
def count (t : Table K V) (p : K → V → Bool) : Nat := t.entries.countP fun e => p e.1 e.2

def keep (t : Table K V) (p : K → V → Bool) : Table K V :=
  ⟨t.entries.filter fun e => p e.1 e.2, t.distinct.sublist (List.filter_sublist.map _)⟩

variable [DecidableEq K]

def get (t : Table K V) (k : K) : Option V :=
  (t.entries.find? fun e => decide (e.1 = k)).map Prod.snd

def erase (t : Table K V) (k : K) : Table K V := t.keep fun j _ => decide (j ≠ k)

def put (t : Table K V) (k : K) (v : V) : Table K V :=
  ⟨(k, v) :: (t.erase k).entries, by
    refine List.nodup_cons.mpr ⟨?_, (t.erase k).distinct⟩
    simp [erase, keep]⟩

@[simp] theorem get_empty (k : K) : (empty : Table K V).get k = none := rfl

omit [DecidableEq K] in
@[simp] theorem size_empty : (empty : Table K V).size = 0 := rfl

omit [DecidableEq K] in
theorem value_unique {t : Table K V} {k : K} {v w : V}
    (hv : (k, v) ∈ t.entries) (hw : (k, w) ∈ t.entries) : v = w := by
  have h := List.inj_on_of_nodup_map t.distinct hv hw rfl
  exact congrArg Prod.snd h

/-- A lookup succeeds exactly on the entries. -/
theorem get_eq_some_iff {t : Table K V} {k : K} {v : V} :
    t.get k = some v ↔ (k, v) ∈ t.entries := by
  constructor
  · intro h
    obtain ⟨e, he, rfl⟩ := Option.map_eq_some_iff.mp h
    have hk : e.1 = k := by simpa using List.find?_some he
    subst hk
    exact List.mem_of_find?_eq_some he
  · intro h
    cases hf : t.entries.find? fun e => decide (e.1 = k) with
    | none =>
      have hne := List.find?_eq_none.mp hf (k, v) h
      simp at hne
    | some e =>
      have hk : e.1 = k := by simpa using List.find?_some hf
      have he : (k, e.2) ∈ t.entries := by
        rw [← hk]
        exact List.mem_of_find?_eq_some hf
      simp [get, hf, value_unique he h]

theorem get_eq_none_iff {t : Table K V} {k : K} :
    t.get k = none ↔ ∀ v, (k, v) ∉ t.entries := by
  constructor
  · intro h v hv
    rw [get_eq_some_iff.mpr hv] at h
    cases h
  · intro h
    cases hg : t.get k with
    | none => rfl
    | some v => exact absurd (get_eq_some_iff.mp hg) (h v)

theorem get_keep (t : Table K V) (p : K → V → Bool) (k : K) :
    (t.keep p).get k = (t.get k).filter (p k) := by
  cases hg : t.get k with
  | none =>
    rw [Option.filter_none, get_eq_none_iff]
    intro v hv
    exact get_eq_none_iff.mp hg v (List.mem_filter.mp hv).1
  | some v =>
    have hm := get_eq_some_iff.mp hg
    by_cases hp : p k v = true
    · rw [Option.filter_some_pos hp, get_eq_some_iff]
      exact List.mem_filter.mpr ⟨hm, hp⟩
    · have hp' : p k v = false := by simpa using hp
      rw [Option.filter_some_neg hp', get_eq_none_iff]
      intro w hw
      obtain ⟨hw, hpw⟩ := List.mem_filter.mp hw
      exact hp (value_unique hm hw ▸ hpw)

theorem get_erase (t : Table K V) (k j : K) :
    (t.erase k).get j = if j = k then none else t.get j := by
  rw [erase, get_keep]
  by_cases h : j = k
  · cases hg : t.get j <;> simp [h]
  · cases hg : t.get j <;> simp [h]

@[simp] theorem get_erase_self (t : Table K V) (k : K) : (t.erase k).get k = none := by
  simp [get_erase]

theorem get_put (t : Table K V) (k j : K) (v : V) :
    (t.put k v).get j = if j = k then some v else t.get j := by
  by_cases h : j = k
  · subst h
    rw [if_pos rfl, get_eq_some_iff]
    exact List.mem_cons_self
  · rw [if_neg h]
    have he := get_erase t k j
    rw [if_neg h] at he
    rw [← he]
    simp [get, put, Ne.symm h]

@[simp] theorem get_put_self (t : Table K V) (k : K) (v : V) : (t.put k v).get k = some v := by
  simp [get_put]

theorem erase_of_get_none {t : Table K V} {k : K} (h : t.get k = none) : t.erase k = t := by
  cases t with
  | mk entries distinct =>
    simp only [erase, keep, mk.injEq]
    apply List.filter_eq_self.mpr
    intro e he
    simp only [decide_eq_true_eq]
    intro hk
    subst hk
    exact get_eq_none_iff.mp h e.2 he

omit [DecidableEq K] in
theorem size_eq_count (t : Table K V) : t.size = t.count fun _ _ => true := by
  simp [size, count]

/-- Erasing an entry takes it out of the count. -/
theorem count_erase_of_get {t : Table K V} {k : K} {v : V} (h : t.get k = some v)
    (p : K → V → Bool) : (t.erase k).count p + (if p k v then 1 else 0) = t.count p := by
  obtain ⟨xs, ys, hxy⟩ := List.append_of_mem (get_eq_some_iff.mp h)
  have hd := t.distinct
  rw [hxy] at hd
  simp only [List.map_append, List.map_cons, List.nodup_append, List.nodup_cons] at hd
  have hx : xs.filter (fun e => decide (e.1 ≠ k)) = xs := by
    apply List.filter_eq_self.mpr
    intro e he
    have hne := hd.2.2 e.1 (List.mem_map_of_mem he) k List.mem_cons_self
    simpa using hne
  have hy : ys.filter (fun e => decide (e.1 ≠ k)) = ys := by
    apply List.filter_eq_self.mpr
    intro e he
    have hne : e.1 ≠ k := fun hk => hd.2.1.1 (hk ▸ List.mem_map_of_mem he)
    simpa using hne
  have herase : (t.erase k).entries = xs ++ ys := by
    simp only [erase, keep, hxy, List.filter_append, hx, List.filter_cons, ne_eq,
      not_true_eq_false, decide_false, hy]
    simp
  simp only [count, herase, hxy, List.countP_append, List.countP_cons]
  omega

theorem count_put_new {t : Table K V} {k : K} (h : t.get k = none) (v : V) (p : K → V → Bool) :
    (t.put k v).count p = t.count p + (if p k v then 1 else 0) := by
  simp [count, put, List.countP_cons, erase_of_get_none h]

theorem count_congr {t : Table K V} {p q : K → V → Bool}
    (h : ∀ k v, t.get k = some v → p k v = q k v) : t.count p = t.count q :=
  List.countP_congr fun e he => by rw [h e.1 e.2 (get_eq_some_iff.mpr he)]

theorem size_erase_of_get {t : Table K V} {k : K} {v : V} (h : t.get k = some v) :
    (t.erase k).size + 1 = t.size := by
  simpa [size_eq_count] using count_erase_of_get h fun _ _ => true

@[simp] theorem size_put (t : Table K V) (k : K) (v : V) :
    (t.put k v).size = (t.erase k).size + 1 := rfl

theorem size_put_new {t : Table K V} {k : K} (v : V) (h : t.get k = none) :
    (t.put k v).size = t.size + 1 := by
  rw [size_put, erase_of_get_none h]

theorem size_put_old {t : Table K V} {k : K} {w : V} (v : V) (h : t.get k = some w) :
    (t.put k v).size = t.size := by
  rw [size_put, size_erase_of_get h]

/-- Putting entries one by one under new and distinct keys keeps all of them. -/
theorem entries_foldl_put {pairs : List (K × V)} {t : Table K V}
    (hdistinct : (pairs.map Prod.fst).Nodup) (hnew : ∀ e ∈ pairs, t.get e.1 = none) :
    (pairs.foldl (fun t e => t.put e.1 e.2) t).entries = pairs.reverse ++ t.entries := by
  induction pairs generalizing t with
  | nil => rfl
  | cons e pairs ih =>
    rw [List.map_cons, List.nodup_cons] at hdistinct
    rw [List.forall_mem_cons] at hnew
    have hput : (t.put e.1 e.2).entries = e :: t.entries := by
      show e :: (t.erase e.1).entries = e :: t.entries
      rw [erase_of_get_none hnew.1]
    have hnext : ∀ f ∈ pairs, (t.put e.1 e.2).get f.1 = none := by
      intro f hf
      have hne : f.1 ≠ e.1 := fun heq => hdistinct.1 (heq ▸ List.mem_map_of_mem hf)
      rw [get_put, if_neg hne]
      exact hnew.2 f hf
    rw [List.foldl_cons, ih hdistinct.2 hnext, hput, List.reverse_cons, List.append_assoc]
    rfl

theorem entries_foldl_put_empty {pairs : List (K × V)} (hdistinct : (pairs.map Prod.fst).Nodup) :
    (pairs.foldl (fun t e => t.put e.1 e.2) empty).entries = pairs.reverse := by
  rw [entries_foldl_put hdistinct fun _ _ => rfl, empty, List.append_nil]

end Table

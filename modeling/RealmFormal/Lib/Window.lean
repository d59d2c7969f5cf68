import Mathlib.Data.List.Basic

/-!
# Sliding windows

A limiter keeps the times of the events it admitted and drops those that have
left the window. The facts here say that dropping early changes nothing later,
and which one condition on a new event keeps every window within its bound.
-/

namespace Window
set_option autoImplicit false

/-- What is left of a log of times at time `now`. -/
def latest (width now : Int) (ts : List Int) : List Int :=
  ts.filter fun t => decide (t > now - width)

/-- The number of times in `[w, w + width)`. -/
def within (width w : Int) (ts : List Int) : Nat :=
  ts.countP fun t => decide (w ≤ t ∧ t < w + width)

variable {width now later : Int} {ts : List Int}

theorem latest_append (ts us : List Int) :
    latest width now (ts ++ us) = latest width now ts ++ latest width now us :=
  List.filter_append ..

/-- What was dropped earlier would be dropped now. -/
theorem latest_latest (h : now ≤ later) (ts : List Int) :
    latest width later (latest width now ts) = latest width later ts := by
  unfold latest
  rw [List.filter_filter]
  apply List.filter_congr
  intro t _
  rw [Bool.and_eq_left_iff_imp, decide_eq_true_iff, decide_eq_true_iff]
  intro hlate
  omega

theorem within_append (w : Int) (ts us : List Int) :
    within width w (ts ++ us) = within width w ts + within width w us :=
  List.countP_append

theorem within_singleton (w t : Int) :
    within width w [t] = if w ≤ t ∧ t < w + width then 1 else 0 := by
  simp [within, List.countP_cons]

/-- A window that holds `now` sees no more of the past than `now` does. -/
theorem within_le_latest {w : Int} (h : now < w + width) (ts : List Int) :
    within width w ts ≤ (latest width now ts).length := by
  rw [latest, ← List.countP_eq_length_filter]
  apply List.countP_mono_left
  intro t _ ht
  rw [decide_eq_true_iff] at ht ⊢
  omega

theorem within_last (h : ∀ t ∈ ts, t ≤ now) :
    within width (now - width + 1) ts = (latest width now ts).length := by
  rw [latest, ← List.countP_eq_length_filter]
  apply List.countP_congr
  intro t ht
  have := h t ht
  rw [decide_eq_true_iff, decide_eq_true_iff]
  omega

/-- A new event keeps all windows within the bound exactly when the log of the last `width` was
below it. -/
theorem within_concat_le_iff {bound : Nat} (hwidth : 0 < width) (h : ∀ t ∈ ts, t ≤ now) :
    (∀ w, within width w (ts ++ [now]) ≤ bound) ↔
      (∀ w, within width w ts ≤ bound) ∧ (latest width now ts).length < bound := by
  constructor
  · intro hall
    refine ⟨fun w => ?_, ?_⟩
    · have hw := hall w
      rw [within_append] at hw
      omega
    · have hw := hall (now - width + 1)
      rw [within_append, within_last h, within_singleton, if_pos (by omega)] at hw
      omega
  · intro hpast w
    rw [within_append, within_singleton]
    split
    · rename_i hin
      have hle := within_le_latest hin.2 ts
      omega
    · exact hpast.1 w

end Window

import Mathlib.Data.List.Induction

/-!
# Finite runs of a partial step function

`step s l` is the state after label `l`, or `none` when `l` is not enabled in `s`.
A run is a list of labels. The rules below are the only inductions over runs: one
for invariants of single states, one for facts that also mention the labels taken
so far, and one for runs whose steps all meet a condition.
-/

namespace Transition
set_option autoImplicit false

universe u v
variable {S : Type u} {L : Type v} {step : S → L → Option S}

/-- The state reached by a list of labels. -/
def exec (step : S → L → Option S) : S → List L → Option S
  | s, [] => some s
  | s, l :: ls => (step s l).bind fun t => exec step t ls

@[simp] theorem exec_nil (s : S) : exec step s [] = some s := rfl

theorem exec_cons_iff {s t : S} {l : L} {ls : List L} :
    exec step s (l :: ls) = some t ↔ ∃ m, step s l = some m ∧ exec step m ls = some t := by
  simp [exec, Option.bind_eq_some_iff]

theorem exec_append_iff {s t : S} {xs ys : List L} :
    exec step s (xs ++ ys) = some t ↔
      ∃ m, exec step s xs = some m ∧ exec step m ys = some t := by
  induction xs generalizing s with
  | nil => simp
  | cons x xs ih =>
    simp only [List.cons_append, exec_cons_iff, ih]
    constructor
    · rintro ⟨a, ha, b, hb, hc⟩
      exact ⟨b, ⟨a, ha, hb⟩, hc⟩
    · rintro ⟨b, ⟨a, ha, hb⟩, hc⟩
      exact ⟨a, ha, b, hb, hc⟩

theorem exec_concat_iff {s t : S} {ls : List L} {l : L} :
    exec step s (ls ++ [l]) = some t ↔ ∃ m, exec step s ls = some m ∧ step m l = some t := by
  simp only [exec_append_iff, exec_cons_iff, exec_nil, Option.some.injEq]
  constructor
  · rintro ⟨m, hm, n, hn, rfl⟩
    exact ⟨m, hm, hn⟩
  · rintro ⟨m, hm, hn⟩
    exact ⟨m, hm, t, hn, rfl⟩

/-- What every step keeps, every run keeps. -/
theorem exec_preserves {P : S → Prop}
    (keep : ∀ {s l t}, P s → step s l = some t → P t)
    {s t : S} {ls : List L} (hs : P s) (h : exec step s ls = some t) : P t := by
  induction ls generalizing s with
  | nil => cases h; exact hs
  | cons l ls ih =>
    obtain ⟨m, hm, ht⟩ := exec_cons_iff.mp h
    exact ih (keep hs hm) ht

/-- The history rule: a fact about the labels so far and the current state. -/
theorem exec_history {P : List L → S → Prop} {s : S} (start : P [] s)
    (extend : ∀ {past m l t}, exec step s past = some m → P past m →
      step m l = some t → P (past ++ [l]) t)
    {ls : List L} {t : S} (h : exec step s ls = some t) : P ls t := by
  induction ls using List.reverseRecOn generalizing t with
  | nil => cases h; exact start
  | append_singleton ls l ih =>
    obtain ⟨m, hm, ht⟩ := exec_concat_iff.mp h
    exact extend hm (ih hm) ht

/-- Every step of the run meets `P` in the state before it. -/
def Along (step : S → L → Option S) (P : S → L → Prop) : S → List L → Prop
  | _, [] => True
  | s, l :: ls => P s l ∧ ∀ t, step s l = some t → Along step P t ls

instance decidableAlong {P : S → L → Prop} [∀ s l, Decidable (P s l)] :
    (s : S) → (ls : List L) → Decidable (Along step P s ls)
  | _, [] => .isTrue trivial
  | s, l :: ls =>
    if hp : P s l then
      match hs : step s l with
      | none => .isTrue ⟨hp, fun t ht => by rw [hs] at ht; cases ht⟩
      | some m =>
        match decidableAlong m ls with
        | .isTrue hrest => .isTrue ⟨hp, fun t ht => by cases hs.symm.trans ht; exact hrest⟩
        | .isFalse hrest => .isFalse fun h => hrest (h.2 m hs)
    else .isFalse fun h => hp h.1

/-- What the steps that meet `P` keep, a run of such steps keeps. -/
theorem exec_along {P : S → L → Prop} {Q : S → Prop}
    (keep : ∀ {s l t}, Q s → P s l → step s l = some t → Q t)
    {s t : S} {ls : List L} (hs : Q s) (hP : Along step P s ls) (h : exec step s ls = some t) :
    Q t := by
  induction ls generalizing s with
  | nil => cases h; exact hs
  | cons l ls ih =>
    obtain ⟨m, hm, ht⟩ := exec_cons_iff.mp h
    exact ih (keep hs hP.1 hm) (hP.2 m hm) ht

/-- An invariant that gives `P` gives it along the whole run. -/
theorem along_of_invariant {P : S → L → Prop} {Q : S → Prop} {A : L → Prop}
    (keep : ∀ {s l t}, Q s → A l → step s l = some t → Q t)
    (give : ∀ {s l}, Q s → A l → P s l) {s : S} {ls : List L} (hs : Q s)
    (hA : ∀ l ∈ ls, A l) : Along step P s ls := by
  induction ls generalizing s with
  | nil => trivial
  | cons l ls ih =>
    obtain ⟨hl, hls⟩ := List.forall_mem_cons.mp hA
    exact ⟨give hs hl, fun t ht => ih (keep hs hl ht) hls⟩

theorem along_concat_iff {P : S → L → Prop} {s t : S} {ls : List L} {l : L}
    (h : exec step s ls = some t) :
    Along step P s (ls ++ [l]) ↔ Along step P s ls ∧ P t l := by
  induction ls generalizing s with
  | nil =>
    cases h
    simp [Along]
  | cons k ls ih =>
    obtain ⟨m, hm, ht⟩ := exec_cons_iff.mp h
    simp only [List.cons_append, Along, hm, Option.some.injEq, forall_eq']
    rw [ih ht, and_assoc]

/-! ## What an observer sees -/

section Trace
variable {E : Type*} (event : S → L → Option E)

/-- The events of a run, each seen in the state before its step. -/
def trace (step : S → L → Option S) (event : S → L → Option E) : S → List L → List E
  | _, [] => []
  | s, l :: ls => (event s l).toList ++ ((step s l).map fun t => trace step event t ls).getD []

theorem trace_concat {s t : S} {ls : List L} {l : L} (h : exec step s ls = some t) :
    trace step event s (ls ++ [l]) = trace step event s ls ++ (event t l).toList := by
  induction ls generalizing s with
  | nil =>
    cases h
    cases hs : step t l <;> simp [trace, hs]
  | cons k ls ih =>
    obtain ⟨m, hm, ht⟩ := exec_cons_iff.mp h
    simp only [List.cons_append, trace, hm, Option.map_some, Option.getD_some, ih ht,
      List.append_assoc]

end Trace

/-! ## One party among others -/

/-- A turn of one party: when it is due, the label it takes, and what it shows in the state in
which it is taken. -/
structure Turn (S : Type u) (L : Type v) where
  due : S → Prop
  label : S → L
  shows : S → Prop

/-- Whatever `quiet` steps others take before each turn, the turn can be taken when it is due
and shows what it should; after the last turn `goal` holds. -/
def Prevails (step : S → L → Option S) (quiet : S → L → Prop) (goal : S → Prop) :
    List (Turn S L) → S → Prop
  | [], s => goal s
  | turn :: turns, s => ∀ others t, Along step quiet s others → exec step s others = some t →
      turn.due t →
        turn.shows t ∧ ∃ u, step t (turn.label t) = some u ∧ Prevails step quiet goal turns u

/-- A turn that can be taken wherever `P` holds, when the others keep `P`. -/
theorem Prevails.cons {quiet : S → L → Prop} {goal P : S → Prop} {turn : Turn S L}
    {turns : List (Turn S L)} (keep : ∀ {s l t}, P s → quiet s l → step s l = some t → P t)
    (own : ∀ {t}, P t → turn.due t →
      turn.shows t ∧ ∃ u, step t (turn.label t) = some u ∧ Prevails step quiet goal turns u)
    {s : S} (hs : P s) : Prevails step quiet goal (turn :: turns) s :=
  fun _ _ hquiet ht hdue => own (exec_along keep hs hquiet ht) hdue

end Transition

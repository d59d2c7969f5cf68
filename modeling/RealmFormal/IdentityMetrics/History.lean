import RealmFormal.IdentityMetrics.Staleness

/-!
# The history of a holder

The state that `recordHolder` keeps for a unit, as a function of the calls for this
unit. Failures and dormant calls in between hide nothing: a rotation is seen
between one success and the next.
-/

namespace RealmFormal.IdentityMetrics
open Go
set_option autoImplicit false

/-- One call of `recordHolder`, with its two readings of the clock. -/
structure Attempt where
  observation : HolderObservation
  checked : Time
  now : Time

namespace Attempt

def err (a : Attempt) : Option String := a.observation.judged a.checked

def succeeded (a : Attempt) : Bool := a.err.isNone && !a.observation.dormant

def failed (a : Attempt) : Bool := a.err.isSome

def dormant (a : Attempt) : Bool := a.observation.dormant && a.err.isNone

end Attempt

def attemptOf (unit : Bytes) : Call → Option Attempt
  | .record .. => none
  | .recordHolder target o checked now => if target.unit = unit then some ⟨o, checked, now⟩ else none

/-- The calls for one unit, whatever else is recorded in between. -/
def attempts (unit : Bytes) (calls : List Call) : List Attempt := calls.filterMap (attemptOf unit)

def successesOf (history : List Attempt) : List Attempt := history.filter Attempt.succeeded

/-- The successes whose fingerprint is not that of the success before them. -/
def rotations (history : List Attempt) : List Attempt :=
  (((successesOf history).zip (successesOf history).tail).filter fun p =>
    decide (p.1.observation.fingerprint ≠ p.2.observation.fingerprint)).map Prod.snd

/-- When the last of these calls was recorded. -/
def lastTime (history : List Attempt) : Time := (history.getLast?.map Attempt.now).getD .zero

/-- A time in the evidence of the last call, if that succeeded. -/
def lastEvidence (history : List Attempt) (field : HolderObservation → Time) : Time :=
  ((history.getLast?.filter Attempt.succeeded).map fun a => field a.observation).getD .zero

def HolderState.ofHistory (history : List Attempt) : HolderState where
  attempted := lastTime history
  observed := lastTime (successesOf history)
  rotated := lastTime (rotations history)
  before := lastEvidence history HolderObservation.before
  after := lastEvidence history HolderObservation.after
  validUntil := lastEvidence history HolderObservation.validUntil
  fingerprint := ((successesOf history).getLast?.map fun a => a.observation.fingerprint).getD []
  success := history.getLast?.any Attempt.succeeded
  dormant := history.getLast?.any Attempt.dormant
  successes := UInt64.ofNat (successesOf history).length
  errors := UInt64.ofNat (history.countP Attempt.failed)

/-! ## One more call -/

section Concat
variable {history : List Attempt} {a : Attempt}

theorem Attempt.fingerprint_ne_nil (h : a.succeeded = true) : a.observation.fingerprint ≠ [] := by
  intro hempty
  simp only [succeeded, err, HolderObservation.judged, Bool.and_eq_true, Bool.not_eq_true',
    Option.isNone_iff_eq_none] at h
  obtain ⟨herr, hdormant⟩ := h
  split at herr
  · cases herr
  · rename_i hgood
    exact hgood ⟨herr, hdormant, Or.inl hempty⟩

theorem lastTime_concat (history : List Attempt) (a : Attempt) :
    lastTime (history ++ [a]) = a.now := by
  simp [lastTime]

theorem lastEvidence_concat (history : List Attempt) (a : Attempt)
    (field : HolderObservation → Time) :
    lastEvidence (history ++ [a]) field =
      if a.succeeded then field a.observation else .zero := by
  rw [lastEvidence, List.getLast?_concat, Option.filter]
  cases a.succeeded <;> rfl

theorem successesOf_concat (h : a.succeeded = true) :
    successesOf (history ++ [a]) = successesOf history ++ [a] := by
  simp [successesOf, h]

theorem successesOf_skip (h : a.succeeded = false) :
    successesOf (history ++ [a]) = successesOf history := by
  simp [successesOf, h]

theorem zip_tail_concat {α : Type} (l : List α) (x : α) :
    (l ++ [x]).zip (l ++ [x]).tail = l.zip l.tail ++ (l.getLast?.map fun y => (y, x)).toList := by
  induction l with
  | nil => rfl
  | cons y l ih =>
    cases l with
    | nil => rfl
    | cons z l =>
      simp only [List.cons_append, List.tail_cons, List.zip_cons_cons] at ih ⊢
      rw [ih, List.getLast?_cons_cons]

/-- A success is a rotation when there is a success before it with another fingerprint. -/
theorem rotations_concat (h : a.succeeded = true) :
    rotations (history ++ [a]) = rotations history ++
      if (successesOf history).getLast?.any fun last =>
          decide (last.observation.fingerprint ≠ a.observation.fingerprint) then [a] else [] := by
  rw [rotations, successesOf_concat h, zip_tail_concat, List.filter_append, List.map_append]
  congr 1
  cases (successesOf history).getLast? with
  | none => rfl
  | some last =>
    by_cases hsame : last.observation.fingerprint = a.observation.fingerprint <;> simp [hsame]

theorem rotations_skip (h : a.succeeded = false) : rotations (history ++ [a]) = rotations history := by
  rw [rotations, successesOf_skip h, rotations]

/-- The fingerprint in the state is empty only before the first success. -/
theorem rotates_iff (history : List Attempt) (fingerprint : Bytes) :
    ((successesOf history).getLast?.any fun last =>
        decide (last.observation.fingerprint ≠ fingerprint)) = true ↔
      (HolderState.ofHistory history).fingerprint ≠ [] ∧
        (HolderState.ofHistory history).fingerprint ≠ fingerprint := by
  unfold HolderState.ofHistory
  dsimp only
  cases hlast : (successesOf history).getLast? with
  | none => simp
  | some last =>
    have hne : last.observation.fingerprint ≠ [] := by
      apply Attempt.fingerprint_ne_nil
      exact (List.mem_filter.mp (List.mem_of_getLast? hlast)).2
    simp [hne]

theorem ofHistory_rotated (h : a.succeeded = true) :
    lastTime (rotations (history ++ [a])) =
      if (HolderState.ofHistory history).fingerprint ≠ [] ∧
          (HolderState.ofHistory history).fingerprint ≠ a.observation.fingerprint then a.now
      else (HolderState.ofHistory history).rotated := by
  rw [rotations_concat h]
  by_cases hrotates : (HolderState.ofHistory history).fingerprint ≠ [] ∧
      (HolderState.ofHistory history).fingerprint ≠ a.observation.fingerprint
  · rw [if_pos hrotates, if_pos ((rotates_iff _ _).mpr hrotates), lastTime_concat]
  · rw [if_neg hrotates, if_neg (mt (rotates_iff _ _).mp hrotates), List.append_nil]
    rfl

theorem count_add_one (n : Nat) : UInt64.ofNat (n + 1) = UInt64.ofNat n + 1 := UInt64.ofNat_add n 1

/-- One call changes the state as one more entry changes the history. -/
theorem ofHistory_concat (history : List Attempt) (a : Attempt) :
    HolderState.ofHistory (history ++ [a]) =
      (HolderState.ofHistory history).record a.observation a.err a.now := by
  cases hsucceeded : a.succeeded with
  | true =>
    obtain ⟨herr, hawake⟩ : a.err = none ∧ a.observation.dormant = false := by
      simpa [Attempt.succeeded] using hsucceeded
    have hfailed : a.failed = false := by simp [Attempt.failed, herr]
    have hdormant : a.dormant = false := by simp [Attempt.dormant, hawake]
    rw [HolderState.ofHistory, ofHistory_rotated hsucceeded]
    simp only [lastTime_concat, lastEvidence_concat, successesOf_concat hsucceeded,
      List.getLast?_concat, List.length_append, List.length_singleton, List.countP_append,
      List.countP_singleton, count_add_one, hsucceeded, hdormant, hfailed, Option.any_some,
      Option.map_some, Option.getD_some, if_true, HolderState.record, HolderState.observe, herr,
      hawake]
    rfl
  | false =>
    rw [HolderState.ofHistory, rotations_skip hsucceeded]
    simp only [lastTime_concat, lastEvidence_concat, successesOf_skip hsucceeded,
      List.getLast?_concat, List.countP_append, List.countP_singleton, Option.any_some,
      hsucceeded, Bool.false_eq_true, if_false, HolderState.record]
    rw [show (a.err.isNone && !a.observation.dormant) = false from hsucceeded]
    cases herr : a.err with
    | none => simp [Attempt.failed, Attempt.dormant, herr, HolderState.ofHistory]
    | some e =>
      simp [Attempt.failed, Attempt.dormant, herr, HolderState.ofHistory, count_add_one]

end Concat

theorem attempts_concat (unit : Bytes) (calls : List Call) (call : Call) :
    attempts unit (calls ++ [call]) = attempts unit calls ++ (attemptOf unit call).toList := by
  cases h : attemptOf unit call <;> simp [attempts, h]

/-- A call for one unit leaves the states of the others alone. -/
theorem apply_holderState (e : Exporter) (target : WorkloadTarget) (call : Call) :
    (e.apply call).holderState target =
      (attemptOf target.unit call).elim (e.holderState target) fun a =>
        (e.holderState target).record a.observation a.err a.now := by
  cases call with
  | record o now => rfl
  | recordHolder other o checked now =>
    simp only [attemptOf, Exporter.apply, Exporter.recordHolder, Exporter.holderState,
      Table.get_put]
    by_cases hunit : target.unit = other.unit
    · rw [if_pos hunit, if_pos hunit.symm, hunit]
      rfl
    · rw [if_neg hunit, if_neg (Ne.symm hunit), Option.elim_none]

theorem run_holderState (c : Config) (calls : List Call) (target : WorkloadTarget) :
    (Exporter.run c calls).holderState target =
      HolderState.ofHistory (attempts target.unit calls) := by
  induction calls using List.reverseRecOn with
  | nil => rfl
  | append_singleton calls call ih =>
    rw [run_concat, attempts_concat, apply_holderState, ih]
    cases attemptOf target.unit call with
    | none => rw [Option.toList_none, List.append_nil, Option.elim_none]
    | some a => rw [Option.toList_some, ofHistory_concat, Option.elim_some]

/-- Only a call without an error is a success or dormant, and a dormant one is no success. -/
theorem ofHistory_exclusive (history : List Attempt) :
    ¬ ((HolderState.ofHistory history).success = true ∧
      (HolderState.ofHistory history).dormant = true) := by
  rintro ⟨hsuccess, hdormant⟩
  obtain ⟨a, hlast, hsucceeded⟩ := (Option.any_eq_true _ _).mp hsuccess
  obtain ⟨b, hsame, hdormant⟩ := (Option.any_eq_true _ _).mp hdormant
  obtain rfl : a = b := Option.some.inj (hlast.symm.trans hsame)
  rw [Attempt.succeeded, Bool.and_eq_true, Bool.not_eq_true'] at hsucceeded
  rw [Attempt.dormant, hsucceeded.2, Bool.false_and] at hdormant
  cases hdormant

/-- The state of a unit is the function above of the calls for this unit. -/
theorem holder_history (c : Config) (calls : List Call) (target : WorkloadTarget) :
    (Exporter.run c calls).holderState target =
        HolderState.ofHistory (attempts target.unit calls) ∧
      ¬ (((Exporter.run c calls).holderState target).success = true ∧
        ((Exporter.run c calls).holderState target).dormant = true) := by
  refine ⟨run_holderState c calls target, ?_⟩
  rw [run_holderState]
  exact ofHistory_exclusive _

end RealmFormal.IdentityMetrics

import RealmFormal.Helper.Phases

/-!
# The commands of a run

The commands that a run issues, in order and with or without effect. What the server
has logged is among them.
-/

namespace RealmFormal.Helper
open Go Go.Json
set_option autoImplicit false

def applyCommands (fates : Nat → Fate) (n : Nat) (w : World) (d : Declaration) : List Command :=
  match execute (fates n) (.show d.id) w with
  | (none, _) => [.show d.id]
  | (some present, _) => [.show d.id, d.command present]

def applyAllCommands (fates : Nat → Fate) : Nat → World → List Declaration → List Command
  | _, _, [] => []
  | n, w, d :: ds =>
    applyCommands fates n w d ++
      match apply fates n w d with
      | (.success, w) => applyAllCommands fates (n + 2) w ds
      | _ => []

def pruneCommands (fates : Nat → Fate) (keep : List Bytes) :
    Nat → World → List Bytes → List Command
  | _, _, [] => []
  | n, w, id :: ids =>
    if id ∈ keep then pruneCommands fates keep n w ids
    else
      .delete id ::
        match execute (fates n) (.delete id) w with
        | (some true, w) => pruneCommands fates keep (n + 1) w ids
        | _ => []

def reconcileWithCommands (fates : Nat → Fate) (desired : Manifest) (previous : List Bytes)
    (w : World) : List Command :=
  applyAllCommands fates 0 w (declarations desired) ++
    match applyAll fates 0 w (declarations desired) with
    | (.success, w) =>
      pruneCommands fates (declaredIDs desired) (2 * (declarations desired).length) w previous
    | _ => []

/-- The server commands that `reconcile` issues, in order. -/
def reconcileCommands (r : Run) (w : World) : List Command :=
  match readManifest r.manifest with
  | .error _ => []
  | .ok desired =>
    match readState r.stateFault w.file with
    | .error _ => []
    | .ok previous => reconcileWithCommands r.fates desired previous w

/-- What the server has logged between two worlds, in order, was issued. -/
def Issued (commands : List Command) (w w' : World) : Prop :=
  ∃ effects, w'.log = w.log ++ effects ∧ effects.Sublist commands

theorem Issued.refl (commands : List Command) (w : World) : Issued commands w w :=
  ⟨[], by simp, List.nil_sublist _⟩

theorem Issued.trans {xs ys : List Command} {u v w : World} (huv : Issued xs u v)
    (hvw : Issued ys v w) : Issued (xs ++ ys) u w := by
  obtain ⟨es, hes, hsub⟩ := huv
  obtain ⟨fs, hfs, hsub'⟩ := hvw
  exact ⟨es ++ fs, by rw [hfs, hes, List.append_assoc], hsub.append hsub'⟩

theorem run_issued {c : Command} {w w' : World} (h : c.run w = some w') : Issued [c] w w' := by
  have hset : ∀ id e, Issued [c] w (w.set c id e) := fun _ _ => ⟨[c], rfl, List.Sublist.refl _⟩
  cases c <;> simp only [Command.run] at h <;> split at h <;> cases h
  case «show» => exact Issued.refl _ w
  case create => exact hset _ _
  case update => exact hset _ _
  case delete => exact hset _ _

theorem execute_issued (fate : Fate) (c : Command) (w : World) :
    Issued [c] w (execute fate c w).2 := by
  rcases attempt_world fate c.run w with h | h
  · rw [execute, h]
    exact Issued.refl _ w
  · exact run_issued h

theorem apply_issued (fates : Nat → Fate) (n : Nat) (w : World) (d : Declaration) :
    Issued (applyCommands fates n w d) w (apply fates n w d).2 := by
  have hshow := execute_issued (fates n) (.show d.id) w
  unfold applyCommands apply
  generalize execute (fates n) (.show d.id) w = r at hshow
  obtain ⟨_ | present, w₁⟩ := r
  · exact hshow
  · have hset := execute_issued (fates (n + 1)) (d.command present) w₁
    dsimp only
    generalize execute (fates (n + 1)) (d.command present) w₁ = r at hset
    obtain ⟨_ | _ | _, w₂⟩ := r <;> exact hshow.trans hset

theorem applyAll_issued (fates : Nat → Fate) (n : Nat) (w : World) (ds : List Declaration) :
    Issued (applyAllCommands fates n w ds) w (applyAll fates n w ds).2 := by
  induction ds generalizing n w with
  | nil => exact Issued.refl _ w
  | cons d ds ih =>
    have hd := apply_issued fates n w d
    rw [applyAllCommands, applyAll]
    generalize apply fates n w d = r at hd
    obtain ⟨_ | _ | _, w₁⟩ := r
    · exact hd.trans (ih ..)
    · exact hd.trans (Issued.refl _ _)
    · exact hd.trans (Issued.refl _ _)

theorem prune_issued (fates : Nat → Fate) (keep : List Bytes) (n : Nat) (w : World)
    (ids : List Bytes) :
    Issued (pruneCommands fates keep n w ids) w (prune fates keep n w ids).2.2 := by
  induction ids generalizing n w with
  | nil => exact Issued.refl _ w
  | cons id ids ih =>
    rw [pruneCommands, prune]
    by_cases hkeep : id ∈ keep
    · rw [if_pos hkeep, if_pos hkeep]
      exact ih ..
    · rw [if_neg hkeep, if_neg hkeep]
      have hd := execute_issued (fates n) (.delete id) w
      generalize execute (fates n) (.delete id) w = r at hd
      obtain ⟨_ | _ | _, w₁⟩ := r
      · exact hd.trans (Issued.refl _ _)
      · exact hd.trans (Issued.refl _ _)
      · exact hd.trans (ih ..)

theorem writeState_cases (fate : Fate) (ids : List Bytes) (w : World) :
    ((writeState fate ids w).2 = w ∧ (writeState fate ids w).1 ≠ .success) ∨
      (writeState fate ids w).2 = { w with file := some (encodeState ids) } := by
  cases fate with
  | ok => exact Or.inr rfl
  | fail => exact Or.inl ⟨rfl, nofun⟩
  | stop effect =>
    cases effect with
    | true => exact Or.inr rfl
    | false => exact Or.inl ⟨rfl, nofun⟩

theorem writeState_log (fate : Fate) (ids : List Bytes) (w : World) :
    (writeState fate ids w).2.log = w.log := by
  rcases writeState_cases fate ids w with ⟨h, -⟩ | h <;> rw [h]

theorem reconcileWith_issued (fates : Nat → Fate) (desired : Manifest) (previous : List Bytes)
    (w : World) :
    Issued (reconcileWithCommands fates desired previous w) w
      (reconcileWith fates desired previous w).2 := by
  have happly := applyAll_issued fates 0 w (declarations desired)
  unfold reconcileWithCommands reconcileWith
  generalize applyAll fates 0 w (declarations desired) = a at happly
  obtain ⟨_ | _ | _, w₁⟩ := a
  · have hprune := prune_issued fates (declaredIDs desired)
      (2 * (declarations desired).length) w₁ previous
    dsimp only
    generalize prune fates (declaredIDs desired) (2 * (declarations desired).length) w₁
      previous = p at hprune
    obtain ⟨_ | _ | _, n, w₂⟩ := p
    · obtain ⟨effects, hlog, hsub⟩ := happly.trans hprune
      exact ⟨effects, (writeState_log ..).trans hlog, hsub⟩
    · exact happly.trans hprune
    · exact happly.trans hprune
  · exact happly.trans (Issued.refl _ _)
  · exact happly.trans (Issued.refl _ _)

/-- The commands that took effect are commands that the run issued. -/
theorem reconcile_issued (r : Run) (w : World) :
    Issued (reconcileCommands r w) w (reconcile r w).2 := by
  unfold reconcileCommands reconcile
  cases readManifest r.manifest with
  | error e => exact Issued.refl _ w
  | ok desired =>
    dsimp only
    cases readState r.stateFault w.file with
    | error e => exact Issued.refl _ w
    | ok previous => exact reconcileWith_issued ..

end RealmFormal.Helper

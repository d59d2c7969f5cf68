import RealmFormal.Agent.Instances

/-!
# Every instance is closed once, unless a gate is late

The lifecycle of instances over whole runs. `serve` leaves `current` set when it
closes it, and does not wait for its gate handlers: a request that takes the
mutex afterwards closes the instance a second time.
-/

namespace RealmFormal.Agent
open Transition
set_option autoImplicit false

/-! ## What a step does to a capture -/

/-- No gate request takes the mutex once `serve` has closed a current instance. -/
def OnTime (s : Custody) : Move → Prop
  | .prepare _ _ => ¬ (s.shut = true ∧ s.current.isSome = true)
  | _ => True

instance (s : Custody) (l : Move) : Decidable (OnTime s l) := by
  cases l <;> unfold OnTime <;> infer_instance

/-- What a step does to the capture it touches: it counts as returned, a call of `close` begins,
or neither. -/
inductive Change (s : Custody) (l : Move) (id : Nat) (slot : Slot) : Prop where
  | worked (returned : slot.returned = (s.slots id).returned)
      (closes : slot.closes = (s.slots id).closes)
  | opened (early : s.shut = false) (closes : slot.closes = (s.slots id).closes)
  | closing (returned : slot.returned = (s.slots id).returned)
      (closes : slot.closes = (s.slots id).closes + 1)
      (cause : (s.slots id).closes = 0 ∨ ¬ OnTime s l ∧ 0 < (s.slots id).closes)

def Touched (s : Custody) (l : Move) (t : Custody) : Prop :=
  ∃ id slot, t.slots = Function.update s.slots id slot ∧ Change s l id slot

section Touched
variable {s t : Custody} {l : Move} {id : Nat}

theorem Touched.still (h : t.slots = s.slots) : Touched s l t :=
  ⟨0, s.slots 0, by rw [h, Function.update_eq_self], .worked rfl rfl⟩

theorem Custody.Inv.inUse (h : s.Inv) (hholder : s.holder = none) (hcurrent : s.current = some id) :
    (s.slots id).closes = 0 ∨
      s.shut = true ∧ 0 < (s.slots id).closes ∧ (s.slots id).worker = .reaped := by
  have hshape := h.shape
  rw [hholder, hcurrent] at hshape
  cases hshape with
  | held _ _ slot _ => exact Or.inl slot.closes
  | left _ late slot worker rest => exact Or.inr ⟨late, (rest id).closes.mp slot, worker⟩

theorem Custody.Inv.inUse_early (h : s.Inv) (hholder : s.holder = none)
    (hcurrent : s.current = some id) (hearly : s.shut = false) : (s.slots id).closes = 0 := by
  rcases h.inUse hholder hcurrent with hclosed | ⟨hlate, -⟩
  · exact hclosed
  · cases hearly.symm.trans hlate

theorem touched_close {next : Next}
    (hcause : (s.slots id).closes = 0 ∨ ¬ OnTime s l ∧ 0 < (s.slots id).closes) :
    Touched s l (s.close id next) :=
  ⟨id, _, rfl, .closing rfl rfl hcause⟩

theorem touched_prepare (h : s.Inv) (hholder : s.holder = none) (same populated : Bool) :
    Touched s (.prepare same populated) (s.prepare same populated) := by
  unfold Custody.prepare
  split
  · exact .still rfl
  · rename_i id hcurrent
    have hclose : Touched s (.prepare same populated) (s.close id .start) := by
      apply touched_close
      rcases h.inUse hholder hcurrent with hopen | ⟨hlate, hclosed, -⟩
      · exact Or.inl hopen
      · refine Or.inr ⟨?_, hclosed⟩
        intro htime
        exact htime ⟨hlate, by rw [hcurrent]; rfl⟩
    split
    · exact hclose
    · split
      · exact .still rfl
      · split
        · exact .still rfl
        · exact hclose

theorem touched_round (h : s.Inv) (hholder : s.holder = none) (expired found : Bool) :
    Touched s (.round expired found) (s.round expired found) := by
  unfold Custody.round
  split
  · exact .still rfl
  · rename_i hcanceled
    have hearly : s.shut = false := by
      by_contra hlate
      have hfinished := h.ended (by simpa using hlate)
      simp [Custody.finished, hcanceled] at hfinished
    split
    · exact .still rfl
    · rename_i id hcurrent
      have hclose : Touched s (.round expired found) (s.close id .recover) :=
        touched_close (Or.inl (h.inUse_early hholder hcurrent hearly))
      split
      · exact hclose
      · split
        · exact hclose
        · exact .still rfl

theorem touched_shutdown (h : s.Inv) (hholder : s.holder = none) (hearly : s.shut = false) :
    Touched s .shutdown s.shutdown := by
  unfold Custody.shutdown
  split
  · exact .still rfl
  · rename_i id hcurrent
    exact touched_close (Or.inl (h.inUse_early hholder hcurrent hearly))

theorem touched_closed {next : Next} (found found' : Bool) :
    Touched s (.closed found') (s.closed id next found) := by
  refine ⟨id, { s.slots id with attached := false }, ?_, .worked rfl rfl⟩
  cases next <;> rfl

theorem Custody.Inv.awaited (h : s.Inv) {who : Starter}
    (hholder : s.holder = some (.await id who)) : s.shut = false := by
  have hshape := h.shape
  rw [hholder] at hshape
  generalize s.current = c at hshape
  cases hshape with
  | await _ _ early _ _ => exact early

theorem Custody.Inv.step_touched (h : s.Inv) (hstep : s.step l = some t) : Touched s l t := by
  cases step_moved hstep with
  | prepare same populated hfree => exact touched_prepare h hfree same populated
  | round expired found hfree => exact touched_round h hfree expired found
  | shutdown hfree _ _ hearly => exact touched_shutdown h hfree hearly
  | closed id next found _ _ => exact touched_closed found found
  | attach who _ =>
    have hblank := h.blank s.fresh (Nat.le_refl _)
    exact ⟨s.fresh, _, rfl, .worked (by rw [hblank]; rfl) (by rw [hblank]; rfl)⟩
  | ready id who hholder => exact ⟨id, _, rfl, .opened (h.awaited hholder) rfl⟩
  | saveFails id hholder => exact touched_close (Or.inl (h.saving hholder).2.2.1.closes)
  | roundsEnd | cancel | setup | setupFails | attachFails | notReady | saved => exact .still rfl
  | launch | launchFails | abandoned | exit | reap => exact ⟨_, _, rfl, .worked rfl rfl⟩

theorem Touched.closes_le (h : Touched s l t) (k : Nat) :
    (s.slots k).closes ≤ (t.slots k).closes := by
  obtain ⟨id, slot, hslots, hchange⟩ := h
  rw [hslots, Function.update_apply]
  split
  · rename_i hk
    subst hk
    cases hchange with
    | worked _ closes => exact Nat.le_of_eq closes.symm
    | opened _ closes => exact Nat.le_of_eq closes.symm
    | closing _ closes _ =>
      rw [closes]
      exact Nat.le_succ _
  · exact Nat.le_refl _

theorem Touched.closes_le_one (h : Touched s l t) (htime : OnTime s l)
    (honce : ∀ k, (s.slots k).closes ≤ 1) (k : Nat) : (t.slots k).closes ≤ 1 := by
  obtain ⟨id, slot, hslots, hchange⟩ := h
  rw [hslots, Function.update_apply]
  split
  · rename_i hk
    subst hk
    cases hchange with
    | worked _ closes => exact closes ▸ honce k
    | opened _ closes => exact closes ▸ honce k
    | closing _ closes cause =>
      rcases cause with hopen | ⟨hlate, -⟩
      · omega
      · exact absurd htime hlate
  · exact honce k

/-- Nothing takes shutdown back. -/
theorem shut_step (hlate : s.shut = true) (hstep : s.step l = some t) : t.shut = true := by
  cases step_moved hstep with
  | prepare same populated _ =>
    unfold Custody.prepare
    repeat' split
    all_goals exact hlate
  | round expired found _ =>
    unfold Custody.round
    repeat' split
    all_goals exact hlate
  | shutdown _ _ _ hearly => cases hlate.symm.trans hearly
  | closed id next found _ _ =>
    cases next with
    | unlock => rfl
    | start | recover | giveUp => exact hlate
  | _ => exact hlate

/-- After shutdown `start` returns no further instance. -/
theorem Touched.returned_eq (h : Touched s l t) (hlate : s.shut = true) (k : Nat) :
    (t.slots k).returned = (s.slots k).returned := by
  obtain ⟨id, slot, hslots, hchange⟩ := h
  rw [hslots, Function.update_apply]
  split
  · rename_i hk
    subst hk
    cases hchange with
    | worked returned _ => exact returned
    | opened early _ => cases hlate.symm.trans early
    | closing returned _ _ => exact returned
  · rfl

end Touched

/-! ## Runs -/

/-- What the lifecycle of instances should be. An instance is attached until its close is over.
`last` compares the end of a run with any moment after shutdown has left the controller. -/
structure Orderly (labels : List Move) (s : Custody) : Prop where
  once : ∀ id, (s.slots id).closes ≤ 1
  closed : s.shut = true → ∀ id, (s.slots id).returned = true → 0 < (s.slots id).closes
  drained : ∀ id, (s.slots id).attached = false → (s.slots id).worker ≠ .running
  opened : ∀ id, (s.slots id).Opened → (s.slots id).attached = true
  single : ∀ id id', (s.slots id).attached = true → (s.slots id').attached = true → id = id'
  failed : ∀ id, id < s.fresh → (s.slots id).returned = false → ¬ s.Starts id →
    (s.slots id).attached = false
  last : ∀ before after m, labels = before ++ after →
    exec Custody.step .initial before = some m → m.shut = true →
      ∀ id, (s.slots id).returned = (m.slots id).returned

/-- What is not at rest is what the holder or `current` names. -/
inductive Focus (slots : Nat → Slot) (shut : Bool) (current : Option Nat) (holder : Option Holder)
    (id : Nat) : Prop where
  | rest (slot : (slots id).AtRest)
  | starting (slot : (slots id).Starting) (holder : (holder.any fun h => h.starts id) = true)
  | held (slot : (slots id).Held) (current : current = some id) (early : shut = false)
  | closing (slot : (slots id).Closing)

theorem Shape.focus {slots : Nat → Slot} {finished shut : Bool} {current : Option Nat}
    {holder : Option Holder} (h : Shape slots finished shut current holder) (id : Nat) :
    Focus slots shut current holder id := by
  cases h with
  | free rest => exact .rest (rest id)
  | setup _ rest => exact .rest (rest id)
  | attach _ _ rest => exact .rest (rest id)
  | left _ _ _ _ rest => exact .rest (rest id)
  | assemble k who early slot worker rest =>
    by_cases hk : id = k
    · subst hk
      exact .starting slot (by simp [Holder.starts])
    · exact .rest (rest id hk)
  | await k who early slot rest =>
    by_cases hk : id = k
    · subst hk
      exact .starting slot (by simp [Holder.starts])
    · exact .rest (rest id hk)
  | abandon k early slot rest =>
    by_cases hk : id = k
    · subst hk
      exact .starting slot (by simp [Holder.starts])
    · exact .rest (rest id hk)
  | save k early slot rest =>
    by_cases hk : id = k
    · subst hk
      exact .held slot rfl early
    · exact .rest (rest id hk)
  | held k early slot rest =>
    by_cases hk : id = k
    · subst hk
      exact .held slot rfl early
    · exact .rest (rest id hk)
  | closing k next last slot rest =>
    by_cases hk : id = k
    · subst hk
      exact .closing slot
    · exact .rest (rest id hk)

/-- At most one capture is attached. -/
theorem Shape.attached_unique {slots : Nat → Slot} {finished shut : Bool} {current : Option Nat}
    {holder : Option Holder} (h : Shape slots finished shut current holder) :
    ∃ k, ∀ id, (slots id).attached = true → id = k := by
  have hnone : (∀ id, (slots id).AtRest) → ∃ k, ∀ id, (slots id).attached = true → id = k :=
    fun hrest => ⟨0, fun id hattached => by cases (hrest id).detached.symm.trans hattached⟩
  have hone : ∀ k, (∀ id, id ≠ k → (slots id).AtRest) →
      ∃ k, ∀ id, (slots id).attached = true → id = k := by
    intro k hrest
    refine ⟨k, fun id hattached => ?_⟩
    by_contra hid
    cases (hrest id hid).detached.symm.trans hattached
  cases h with
  | free rest => exact hnone rest
  | setup _ rest => exact hnone rest
  | attach _ _ rest => exact hnone rest
  | left _ _ _ _ rest => exact hnone rest
  | assemble k _ _ _ _ rest => exact hone k rest
  | await k _ _ _ rest => exact hone k rest
  | abandon k _ _ rest => exact hone k rest
  | save k _ _ rest => exact hone k rest
  | held k _ _ rest => exact hone k rest
  | closing k _ _ _ rest => exact hone k rest

section Runs
variable {s : Custody}

/-- Only the current instance is open, with its capture, and never after shutdown. -/
theorem Custody.Inv.opened (h : s.Inv) {id : Nat} (hopen : (s.slots id).Opened) :
    (s.slots id).attached = true ∧ s.shut = false := by
  obtain ⟨hreturned, hcloses⟩ := hopen
  cases h.shape.focus id with
  | rest slot =>
    have hpos := slot.closes.mp hreturned
    omega
  | starting slot => cases slot.returned.symm.trans hreturned
  | held slot _ early => exact ⟨slot.attached, early⟩
  | closing slot =>
    have hpos := slot.closes
    omega

theorem Custody.Inv.drained (h : s.Inv) {id : Nat} (hdetached : (s.slots id).attached = false) :
    (s.slots id).worker ≠ .running := by
  intro hrunning
  cases h.shape.focus id with
  | rest slot => rcases slot.ended with hended | hended <;> cases hended.symm.trans hrunning
  | starting slot => cases slot.attached.symm.trans hdetached
  | held slot => cases slot.attached.symm.trans hdetached
  | closing slot => cases (slot.ended hdetached).symm.trans hrunning

theorem Custody.Inv.failed (h : s.Inv) {id : Nat} (hreturned : (s.slots id).returned = false)
    (hstarts : ¬ s.Starts id) : (s.slots id).attached = false := by
  cases h.shape.focus id with
  | rest slot => exact slot.detached
  | starting _ holder => exact absurd holder hstarts
  | held slot => cases slot.returned.symm.trans hreturned
  | closing slot => cases slot.returned.symm.trans hreturned

theorem Custody.Inv.run {labels : List Move} (hrun : exec Custody.step .initial labels = some s) :
    s.Inv :=
  exec_preserves (fun h hstep => h.step hstep) .initial hrun

/-- From shutdown on, the set of returned instances does not change. -/
theorem returned_after_shutdown {m : Custody} {after : List Move} (hm : m.Inv)
    (hshut : m.shut = true) (hrun : exec Custody.step m after = some s) (id : Nat) :
    (s.slots id).returned = (m.slots id).returned := by
  have hkeep : s.Inv ∧ s.shut = true ∧ ∀ k, (s.slots k).returned = (m.slots k).returned := by
    refine exec_preserves (P := fun s => s.Inv ∧ s.shut = true ∧
      ∀ k, (s.slots k).returned = (m.slots k).returned) ?_ ⟨hm, hshut, fun _ => rfl⟩ hrun
    intro s l t hs hstep
    obtain ⟨hinv, hlate, hsame⟩ := hs
    refine ⟨hinv.step hstep, ?_, fun k => ?_⟩
    · exact shut_step hlate hstep
    · rw [(hinv.step_touched hstep).returned_eq hlate, hsame]
  exact hkeep.2.2 id

/-- A gate request that comes too late begins a second close. -/
theorem late_close (h : s.Inv) {t : Custody} {l : Move} (hstep : s.step l = some t)
    (hlate : ¬ OnTime s l) : ∃ id, 1 < (t.slots id).closes := by
  cases l with
  | prepare same populated =>
    obtain ⟨hshut, hsome⟩ := not_not.mp hlate
    obtain ⟨id, hcurrent⟩ := Option.isSome_iff_exists.mp hsome
    obtain ⟨_, _, hholder⟩ := step_moved hstep
    refine ⟨id, ?_⟩
    rcases h.inUse hholder hcurrent with hopen | ⟨-, hclosed, hreaped⟩
    · have hreturned : (s.slots id).returned = true := by
        have hshape := h.shape
        rw [hholder, hcurrent] at hshape
        cases hshape with
        | held _ _ slot _ => exact slot.returned
        | left _ _ slot _ _ => exact slot
      cases hshut.symm.trans (h.opened ⟨hreturned, hopen⟩).2
    · unfold Custody.prepare
      simp only [hcurrent, hreaped, if_true, Custody.close, Custody.edit, Function.update_self]
      omega
  | _ => exact absurd trivial hlate

/-- Instances are opened and closed in order exactly in the runs in which no gate request takes
the mutex after `serve` has closed a current instance. -/
theorem instances_orderly_iff {labels : List Move}
    (hrun : exec Custody.step .initial labels = some s) :
    Orderly labels s ↔ Along Custody.step OnTime .initial labels := by
  have hinv := Custody.Inv.run hrun
  have honce : (∀ id, (s.slots id).closes ≤ 1) ↔ Along Custody.step OnTime .initial labels := by
    clear hinv
    induction labels using List.reverseRecOn generalizing s with
    | nil =>
      cases hrun
      exact iff_of_true (fun _ => Nat.zero_le 1) trivial
    | append_singleton labels l ih =>
      obtain ⟨m, hm, hstep⟩ := exec_concat_iff.mp hrun
      have hinv := Custody.Inv.run hm
      have htouched := hinv.step_touched hstep
      rw [along_concat_iff hm, ← ih hm]
      constructor
      · intro h
        refine ⟨fun k => Nat.le_trans (htouched.closes_le k) (h k), ?_⟩
        by_contra hlate
        obtain ⟨id, hid⟩ := late_close hinv hstep hlate
        exact absurd (h id) (Nat.not_le.mpr hid)
      · intro h
        exact htouched.closes_le_one h.2 h.1
  constructor
  · intro h
    exact honce.mp h.once
  · intro h
    refine ⟨honce.mpr h, ?_, fun id => hinv.drained, fun id hopen => (hinv.opened hopen).1, ?_,
      fun id _ => hinv.failed, ?_⟩
    · intro hshut id hreturned
      by_contra hzero
      have hopen : (s.slots id).Opened := ⟨hreturned, by omega⟩
      cases hshut.symm.trans (hinv.opened hopen).2
    · obtain ⟨k, hk⟩ := hinv.shape.attached_unique
      intro id id' hattached hattached'
      rw [hk id hattached, hk id' hattached']
    · intro before after m hlabels hbefore hshut id
      rw [hlabels] at hrun
      obtain ⟨m', hm', hafter⟩ := exec_append_iff.mp hrun
      cases hbefore.symm.trans hm'
      exact returned_after_shutdown (Custody.Inv.run hbefore) hshut hafter id

end Runs

/-- A gate request that succeeds, and the agent's end. -/
def sampleService : List Move :=
  [.prepare false false, .setup true, .attach true, .launch none, .readiness true, .saved true,
    .cancel, .roundsEnd, .shutdown, .exit 0, .reap 0, .closed false]

/-- One more gate request, which had been waiting for the mutex, closes the instance again. -/
theorem late_gate_closes_twice :
    ∃ s,
      exec Custody.step .initial (sampleService ++ [.prepare true true, .closed false]) = some s ∧
      (s.slots 0).returned = true ∧ (s.slots 0).closes = 2 :=
  ⟨_, rfl, rfl, rfl⟩

theorem instances_orderly_iff_sampleService :
    ∃ s, exec Custody.step .initial sampleService = some s ∧ Orderly sampleService s ∧
      (s.slots 0).closes = 1 :=
  ⟨_, rfl, (instances_orderly_iff rfl).mpr (by decide), rfl⟩

end RealmFormal.Agent

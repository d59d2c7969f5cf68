import RealmFormal.Lib.Transition
import Mathlib.Logic.Function.Basic

/-!
# Who closes an instance

`start`, `instance.close` and the four callers that open and close instances of
one controller: gate requests, rounds of `reconcile`, `recover` and the deferred
function of `serve`. The mutex is held by at most one of them, and where its
holder stands is part of the state; worker exits, the end of the context and
the return of `Wait` come in between at any point. Answers of the system are
part of the labels.
-/

namespace RealmFormal.Agent
open Transition
set_option autoImplicit false

/-- The forwarding process: not launched, running, terminated, or terminated with `Wait`
returned and `done` closed. -/
inductive Worker where
  | absent | running | exited | reaped
  deriving DecidableEq

/-- A capture that `attachCapture` has returned. `returned` says that `start` has made an
instance of it, `closes` counts the calls of `close` on that instance. -/
structure Slot where
  worker : Worker
  attached : Bool
  returned : Bool
  closes : Nat
  deriving DecidableEq

def Slot.blank : Slot := ⟨.absent, false, false, 0⟩

/-- Who called `start`. -/
inductive Starter where
  | prepare | recover
  deriving DecidableEq

/-- How the caller of `close` goes on: `prepare` starts anew, a round recovers, `prepare` gives
up after `saveState`, the deferred function of `serve` unlocks. -/
inductive Next where
  | start | recover | giveUp | unlock
  deriving DecidableEq

/-- Where the holder of the mutex stands. -/
inductive Holder where
  | closing (id : Nat) (next : Next)
  | setup (who : Starter)
  | attach (who : Starter)
  | assemble (id : Nat) (who : Starter)
  | await (id : Nat) (who : Starter)
  | abandon (id : Nat)
  | save (id : Nat)
  deriving DecidableEq

/-- `fresh` is the number of captures so far, `canceled` the end of the context that `serve`
hands out, `reconciling` the goroutine of `reconcile`, and `shut` that the deferred function
of `serve` has left the controller. -/
structure Custody where
  slots : Nat → Slot
  fresh : Nat
  current : Option Nat
  holder : Option Holder
  canceled : Bool
  reconciling : Bool
  shut : Bool

def Custody.initial : Custody := ⟨fun _ => .blank, 0, none, none, false, true, false⟩

/-- The calls of `start` between `attachCapture` and the running process that can fail. -/
inductive Assembly where
  | readyPipe | config | leasePipe | executable | mapFile | resources | command
  deriving DecidableEq

/-- `same` and `populated` are the answers that `prepare` gets about the current instance;
`expired` is the answer of `expiredEmpty`; `found` says that `recover` meets a survivor. -/
inductive Move where
  | prepare (same populated : Bool)
  | round (expired found : Bool)
  | roundsEnd
  | cancel
  | shutdown
  | closed (found : Bool)
  | setup (ok : Bool)
  | attach (ok : Bool)
  | launch (failure : Option Assembly)
  | readiness (ok : Bool)
  | abandoned
  | saved (ok : Bool)
  | exit (id : Nat)
  | reap (id : Nat)
  deriving DecidableEq

def Custody.edit (s : Custody) (id : Nat) (f : Slot → Slot) : Custody :=
  { s with slots := Function.update s.slots id (f (s.slots id)) }

/-- The first lines of `close`: the lease is closed, the context of the worker cancelled. -/
def Custody.close (s : Custody) (id : Nat) (next : Next) : Custody :=
  { s.edit id fun slot => { slot with closes := slot.closes + 1 } with
    holder := some (.closing id next) }

def Custody.recover (s : Custody) (found : Bool) : Custody :=
  { s with holder := if found then some (.setup .recover) else none }

/-- `prepare` once it has the mutex. -/
def Custody.prepare (s : Custody) (same populated : Bool) : Custody :=
  match s.current with
  | none => { s with holder := some (.setup .prepare) }
  | some id =>
    if (s.slots id).worker = .reaped then s.close id .start
    else if same then s
    else if populated then s
    else s.close id .start

/-- One turn of the loop of `reconcile`. -/
def Custody.round (s : Custody) (expired found : Bool) : Custody :=
  if s.canceled then { s with reconciling := false }
  else
    match s.current with
    | none => s.recover found
    | some id =>
      if (s.slots id).worker = .reaped then s.close id .recover
      else if expired then s.close id .recover
      else s

/-- The loop of the deferred function of `serve`, for this controller. -/
def Custody.shutdown (s : Custody) : Custody :=
  match s.current with
  | none => { s with shut := true }
  | some id => s.close id .unlock

/-- The end of `close`, and what its caller does next. Only the deferred function of `serve`
leaves `current` as it is. -/
def Custody.closed (s : Custody) (id : Nat) (next : Next) (found : Bool) : Custody :=
  let s := s.edit id fun slot => { slot with attached := false }
  match next with
  | .start => { s with current := none, holder := some (.setup .prepare) }
  | .recover => Custody.recover { s with current := none } found
  | .giveUp => { s with current := none, holder := none }
  | .unlock => { s with holder := none, shut := true }

/-- `start` has returned an instance. -/
def Custody.open (s : Custody) (id : Nat) (who : Starter) : Custody :=
  { s.edit id fun slot => { slot with returned := true } with
    current := some id
    holder := match who with
      | .prepare => some (.save id)
      | .recover => none }

/-- A command does not start under a context that has ended, so `setupNetwork` and the start of
the worker fail then. `close` and a failed `start` wait for `done`. -/
def Custody.step (s : Custody) : Move → Option Custody
  | .prepare same populated =>
    if s.holder = none then some (s.prepare same populated) else none
  | .round expired found =>
    if s.holder = none ∧ s.reconciling then some (s.round expired found) else none
  | .roundsEnd => if s.canceled then some { s with reconciling := false } else none
  | .cancel => some { s with canceled := true }
  | .shutdown =>
    if s.holder = none ∧ s.canceled ∧ ¬ s.reconciling ∧ ¬ s.shut then some s.shutdown else none
  | .closed found =>
    match s.holder with
    | some (.closing id next) =>
      if (s.slots id).worker = .reaped then some (s.closed id next found) else none
    | _ => none
  | .setup ok =>
    match s.holder with
    | some (.setup who) =>
      if ok then if s.canceled then none else some { s with holder := some (.attach who) }
      else some { s with holder := none }
    | _ => none
  | .attach ok =>
    match s.holder with
    | some (.attach who) =>
      if ok then
        some { s.edit s.fresh fun _ => ⟨.absent, true, false, 0⟩ with
          fresh := s.fresh + 1, holder := some (.assemble s.fresh who) }
      else some { s with holder := none }
    | _ => none
  | .launch failure =>
    match s.holder, failure with
    | some (.assemble id who), none =>
      if s.canceled then none
      else
        some { s.edit id fun slot => { slot with worker := .running } with
          holder := some (.await id who) }
    | some (.assemble id _), some _ =>
      some { s.edit id fun slot => { slot with attached := false } with holder := none }
    | _, _ => none
  | .readiness ok =>
    match s.holder with
    | some (.await id who) =>
      if ok then some (s.open id who) else some { s with holder := some (.abandon id) }
    | _ => none
  | .abandoned =>
    match s.holder with
    | some (.abandon id) =>
      if (s.slots id).worker = .reaped then
        some { s.edit id fun slot => { slot with attached := false } with holder := none }
      else none
    | _ => none
  | .saved ok =>
    match s.holder with
    | some (.save id) => if ok then some { s with holder := none } else some (s.close id .giveUp)
    | _ => none
  | .exit id =>
    if (s.slots id).worker = .running then
      some (s.edit id fun slot => { slot with worker := .exited })
    else none
  | .reap id =>
    if (s.slots id).worker = .exited then
      some (s.edit id fun slot => { slot with worker := .reaped })
    else none

/-- What a move does, and when it can be made. -/
inductive Moved (s : Custody) : Move → Custody → Prop where
  | prepare (same populated : Bool) (free : s.holder = none) :
      Moved s (.prepare same populated) (s.prepare same populated)
  | round (expired found : Bool) (free : s.holder = none) :
      Moved s (.round expired found) (s.round expired found)
  | roundsEnd (canceled : s.canceled = true) : Moved s .roundsEnd { s with reconciling := false }
  | cancel : Moved s .cancel { s with canceled := true }
  | shutdown (free : s.holder = none) (canceled : s.canceled = true)
      (ended : s.reconciling = false) (early : s.shut = false) : Moved s .shutdown s.shutdown
  | closed (id : Nat) (next : Next) (found : Bool) (holder : s.holder = some (.closing id next))
      (reaped : (s.slots id).worker = .reaped) : Moved s (.closed found) (s.closed id next found)
  | setup (who : Starter) (holder : s.holder = some (.setup who)) (live : s.canceled = false) :
      Moved s (.setup true) { s with holder := some (.attach who) }
  | setupFails (who : Starter) (holder : s.holder = some (.setup who)) :
      Moved s (.setup false) { s with holder := none }
  | attach (who : Starter) (holder : s.holder = some (.attach who)) :
      Moved s (.attach true)
        { s.edit s.fresh fun _ => ⟨.absent, true, false, 0⟩ with
          fresh := s.fresh + 1, holder := some (.assemble s.fresh who) }
  | attachFails (who : Starter) (holder : s.holder = some (.attach who)) :
      Moved s (.attach false) { s with holder := none }
  | launch (id : Nat) (who : Starter) (holder : s.holder = some (.assemble id who)) :
      Moved s (.launch none)
        { s.edit id fun slot => { slot with worker := .running } with
          holder := some (.await id who) }
  | launchFails (id : Nat) (who : Starter) (failure : Assembly)
      (holder : s.holder = some (.assemble id who)) :
      Moved s (.launch (some failure))
        { s.edit id fun slot => { slot with attached := false } with holder := none }
  | ready (id : Nat) (who : Starter) (holder : s.holder = some (.await id who)) :
      Moved s (.readiness true) (s.open id who)
  | notReady (id : Nat) (who : Starter) (holder : s.holder = some (.await id who)) :
      Moved s (.readiness false) { s with holder := some (.abandon id) }
  | abandoned (id : Nat) (holder : s.holder = some (.abandon id))
      (reaped : (s.slots id).worker = .reaped) :
      Moved s .abandoned
        { s.edit id fun slot => { slot with attached := false } with holder := none }
  | saved (id : Nat) (holder : s.holder = some (.save id)) :
      Moved s (.saved true) { s with holder := none }
  | saveFails (id : Nat) (holder : s.holder = some (.save id)) :
      Moved s (.saved false) (s.close id .giveUp)
  | exit (id : Nat) (worker : (s.slots id).worker = .running) :
      Moved s (.exit id) (s.edit id fun slot => { slot with worker := .exited })
  | reap (id : Nat) (worker : (s.slots id).worker = .exited) :
      Moved s (.reap id) (s.edit id fun slot => { slot with worker := .reaped })

theorem step_moved {s t : Custody} {l : Move} (h : s.step l = some t) : Moved s l t := by
  cases l with
  | prepare same populated =>
    obtain ⟨hfree, heq⟩ := Option.ite_none_right_eq_some.mp h
    cases heq
    exact .prepare same populated hfree
  | round expired found =>
    obtain ⟨hguard, heq⟩ := Option.ite_none_right_eq_some.mp h
    cases heq
    exact .round expired found hguard.1
  | roundsEnd =>
    obtain ⟨hcanceled, heq⟩ := Option.ite_none_right_eq_some.mp h
    cases heq
    exact .roundsEnd hcanceled
  | cancel =>
    cases h
    exact .cancel
  | shutdown =>
    obtain ⟨⟨hfree, hcanceled, hover, hearly⟩, heq⟩ := Option.ite_none_right_eq_some.mp h
    cases heq
    exact .shutdown hfree hcanceled (Bool.eq_false_iff.mpr hover)
      (Bool.eq_false_iff.mpr hearly)
  | closed found =>
    simp only [Custody.step] at h
    split at h
    · rename_i id next hholder
      obtain ⟨hreaped, heq⟩ := Option.ite_none_right_eq_some.mp h
      cases heq
      exact .closed id next found hholder hreaped
    · cases h
  | setup ok =>
    simp only [Custody.step] at h
    split at h
    · rename_i who hholder
      cases ok with
      | true =>
        obtain ⟨hlive, heq⟩ := Option.ite_none_left_eq_some.mp h
        cases heq
        exact .setup who hholder (Bool.eq_false_iff.mpr hlive)
      | false =>
        cases h
        exact .setupFails who hholder
    · cases h
  | attach ok =>
    simp only [Custody.step] at h
    split at h
    · rename_i who hholder
      cases ok with
      | true =>
        cases h
        exact .attach who hholder
      | false =>
        cases h
        exact .attachFails who hholder
    · cases h
  | launch failure =>
    simp only [Custody.step] at h
    split at h
    · rename_i id who hholder
      obtain ⟨-, heq⟩ := Option.ite_none_left_eq_some.mp h
      cases heq
      exact .launch id who hholder
    · rename_i id who failure hholder
      cases h
      exact .launchFails id who failure hholder
    · cases h
  | readiness ok =>
    simp only [Custody.step] at h
    split at h
    · rename_i id who hholder
      cases ok with
      | true =>
        cases h
        exact .ready id who hholder
      | false =>
        cases h
        exact .notReady id who hholder
    · cases h
  | abandoned =>
    simp only [Custody.step] at h
    split at h
    · rename_i id hholder
      obtain ⟨hreaped, heq⟩ := Option.ite_none_right_eq_some.mp h
      cases heq
      exact .abandoned id hholder hreaped
    · cases h
  | saved ok =>
    simp only [Custody.step] at h
    split at h
    · rename_i id hholder
      cases ok with
      | true =>
        cases h
        exact .saved id hholder
      | false =>
        cases h
        exact .saveFails id hholder
    · cases h
  | exit id =>
    obtain ⟨hworker, heq⟩ := Option.ite_none_right_eq_some.mp h
    cases heq
    exact .exit id hworker
  | reap id =>
    obtain ⟨hworker, heq⟩ := Option.ite_none_right_eq_some.mp h
    cases heq
    exact .reap id hworker

/-! ## The invariant -/

/-- The holder is inside `start`, with this capture attached. -/
def Holder.starts (id : Nat) : Holder → Bool
  | .assemble id' _ => decide (id' = id)
  | .await id' _ => decide (id' = id)
  | .abandon id' => decide (id' = id)
  | _ => false

def Custody.Starts (s : Custody) (id : Nat) : Prop :=
  (s.holder.any fun h => h.starts id) = true

/-- An instance that `start` returned and nobody has begun to close. -/
def Slot.Opened (slot : Slot) : Prop := slot.returned = true ∧ slot.closes = 0

/-- A capture that nobody will touch any more. -/
structure Slot.AtRest (slot : Slot) : Prop where
  detached : slot.attached = false
  ended : slot.worker = .absent ∨ slot.worker = .reaped
  closes : slot.returned = true ↔ 0 < slot.closes

/-- Inside `start`, with a worker or about to have one. -/
structure Slot.Starting (slot : Slot) : Prop where
  attached : slot.attached = true
  returned : slot.returned = false
  closes : slot.closes = 0

/-- An instance in use. -/
structure Slot.Held (slot : Slot) : Prop where
  attached : slot.attached = true
  returned : slot.returned = true
  closes : slot.closes = 0

structure Slot.Closing (slot : Slot) : Prop where
  returned : slot.returned = true
  closes : 0 < slot.closes
  ended : slot.attached = false → slot.worker = .reaped

/-- The reconcile loop is over and the context has ended, as the deferred function of `serve`
waits for. -/
def Custody.finished (s : Custody) : Bool := s.canceled && !s.reconciling

/-- Where the controller stands: at most one capture is not at rest, and the holder of the mutex
and `current` say which. -/
inductive Shape (slots : Nat → Slot) (finished shut : Bool) :
    Option Nat → Option Holder → Prop where
  | free (rest : ∀ k, (slots k).AtRest) : Shape slots finished shut none none
  | setup (who : Starter) (rest : ∀ k, (slots k).AtRest) :
      Shape slots finished shut none (some (.setup who))
  | attach (who : Starter) (early : shut = false) (rest : ∀ k, (slots k).AtRest) :
      Shape slots finished shut none (some (.attach who))
  | assemble (id : Nat) (who : Starter) (early : shut = false) (slot : (slots id).Starting)
      (worker : (slots id).worker = .absent) (rest : ∀ k, k ≠ id → (slots k).AtRest) :
      Shape slots finished shut none (some (.assemble id who))
  | await (id : Nat) (who : Starter) (early : shut = false) (slot : (slots id).Starting)
      (rest : ∀ k, k ≠ id → (slots k).AtRest) :
      Shape slots finished shut none (some (.await id who))
  | abandon (id : Nat) (early : shut = false) (slot : (slots id).Starting)
      (rest : ∀ k, k ≠ id → (slots k).AtRest) : Shape slots finished shut none (some (.abandon id))
  | save (id : Nat) (early : shut = false) (slot : (slots id).Held)
      (rest : ∀ k, k ≠ id → (slots k).AtRest) :
      Shape slots finished shut (some id) (some (.save id))
  | held (id : Nat) (early : shut = false) (slot : (slots id).Held)
      (rest : ∀ k, k ≠ id → (slots k).AtRest) : Shape slots finished shut (some id) none
  | closing (id : Nat) (next : Next) (last : next = .unlock → finished = true)
      (slot : (slots id).Closing) (rest : ∀ k, k ≠ id → (slots k).AtRest) :
      Shape slots finished shut (some id) (some (.closing id next))
  | left (id : Nat) (late : shut = true) (slot : (slots id).returned = true)
      (worker : (slots id).worker = .reaped) (rest : ∀ k, (slots k).AtRest) :
      Shape slots finished shut (some id) none

structure Custody.Inv (s : Custody) : Prop where
  blank : ∀ id, s.fresh ≤ id → s.slots id = .blank
  shape : Shape s.slots s.finished s.shut s.current s.holder
  ended : s.shut = true → s.finished = true

theorem Slot.AtRest.blank : Slot.blank.AtRest := ⟨rfl, Or.inl rfl, by simp [Slot.blank]⟩

theorem Custody.Inv.initial : Custody.initial.Inv :=
  ⟨fun _ _ => rfl, .free fun _ => .blank, by simp [Custody.initial]⟩

section Edits
variable {slots : Nat → Slot} {id : Nat} {slot : Slot}

theorem rest_update (h : ∀ k, k ≠ id → (slots k).AtRest) :
    ∀ k, k ≠ id → (Function.update slots id slot k).AtRest := by
  intro k hk
  rw [Function.update_of_ne hk]
  exact h k hk

theorem rest_update_all (h : ∀ k, k ≠ id → (slots k).AtRest) (hslot : slot.AtRest) :
    ∀ k, (Function.update slots id slot k).AtRest := by
  intro k
  by_cases hk : k = id
  · subst hk
    rwa [Function.update_self]
  · exact rest_update h k hk

/-- The focus of the controller is an attached capture, so not a blank slot. -/
theorem blank_update {fresh : Nat} (h : ∀ k, fresh ≤ k → slots k = .blank)
    (hid : slots id ≠ .blank) : ∀ k, fresh ≤ k → Function.update slots id slot k = .blank := by
  intro k hk
  have hne : k ≠ id := by
    intro heq
    subst heq
    exact hid (h k hk)
  rw [Function.update_of_ne hne]
  exact h k hk

end Edits

theorem Slot.Starting.ne_blank {slot : Slot} (h : slot.Starting) : slot ≠ .blank := by
  intro heq
  have hattached := h.attached
  rw [heq] at hattached
  cases hattached

theorem Slot.Held.not_detached {slot : Slot} (h : slot.Held) {P : Prop}
    (hdetached : slot.attached = false) : P := by
  cases h.attached.symm.trans hdetached

theorem ne_blank_of_returned {slot : Slot} (h : slot.returned = true) : slot ≠ .blank := by
  intro heq
  rw [heq] at h
  cases h

/-! ## Steps -/

section Steps
variable {s t : Custody} {id : Nat}

/-- What a step does that leaves the captures alone. -/
theorem Custody.Inv.frame (h : s.Inv) (hslots : t.slots = s.slots) (hfresh : t.fresh = s.fresh)
    (hshape : Shape s.slots t.finished t.shut t.current t.holder)
    (hended : t.shut = true → t.finished = true) : t.Inv := by
  refine ⟨?_, ?_, hended⟩
  · rw [hslots, hfresh]
    exact h.blank
  · rw [hslots]
    exact hshape

/-- The context may end, and so may the loop of `reconcile`. -/
theorem Shape.later {slots : Nat → Slot} {finished finished' shut : Bool} {current : Option Nat}
    {holder : Option Holder} (h : Shape slots finished shut current holder)
    (hfinished : finished = true → finished' = true) :
    Shape slots finished' shut current holder := by
  cases h with
  | free rest => exact .free rest
  | setup who rest => exact .setup who rest
  | attach who early rest => exact .attach who early rest
  | assemble id who early slot worker rest => exact .assemble id who early slot worker rest
  | await id who early slot rest => exact .await id who early slot rest
  | abandon id early slot rest => exact .abandon id early slot rest
  | save id early slot rest => exact .save id early slot rest
  | held id early slot rest => exact .held id early slot rest
  | closing id next last slot rest => exact .closing id next (fun h => hfinished (last h)) slot rest
  | left id late slot worker rest => exact .left id late slot worker rest

theorem Custody.Inv.later (h : s.Inv) (hslots : t.slots = s.slots) (hfresh : t.fresh = s.fresh)
    (hcurrent : t.current = s.current) (hholder : t.holder = s.holder) (hshut : t.shut = s.shut)
    (hfinished : s.finished = true → t.finished = true) : t.Inv := by
  refine h.frame hslots hfresh ?_ fun hlate => hfinished (h.ended (hshut.symm.trans hlate))
  rw [hcurrent, hholder, hshut]
  exact h.shape.later hfinished

/-- What an edit of the focus of the controller does. -/
theorem Custody.Inv.edit (h : s.Inv) {slot : Slot} (hid : s.slots id ≠ .blank)
    (hslots : t.slots = Function.update s.slots id slot) (hfresh : t.fresh = s.fresh)
    (hshape : Shape (Function.update s.slots id slot) t.finished t.shut t.current t.holder)
    (hended : t.shut = true → t.finished = true) : t.Inv := by
  refine ⟨?_, ?_, hended⟩
  · rw [hslots, hfresh]
    exact blank_update h.blank hid
  · rw [hslots]
    exact hshape

/-- `close` may be called on an instance in use and, for want of a reset, once more on the one
that the deferred function of `serve` has closed. -/
theorem Custody.Inv.close (h : s.Inv) (hcurrent : s.current = some id)
    (hfree : ∀ next, s.holder ≠ some (.closing id next)) (next : Next)
    (hlast : next = .unlock → s.finished = true) : (s.close id next).Inv := by
  obtain ⟨slots, fresh, current, holder, canceled, reconciling, shut⟩ := s
  dsimp only at hcurrent hfree hlast
  subst hcurrent
  have hslot : (slots id).returned = true ∧
      ((slots id).attached = false → (slots id).worker = .reaped) ∧
      ∀ k, k ≠ id → (slots k).AtRest := by
    cases h.shape with
    | save _ _ slot rest => exact ⟨slot.returned, slot.not_detached, rest⟩
    | held _ _ slot rest => exact ⟨slot.returned, slot.not_detached, rest⟩
    | closing _ next => exact absurd rfl (hfree next)
    | left _ _ slot worker rest => exact ⟨slot, fun _ => worker, fun k _ => rest k⟩
  obtain ⟨hreturned, hended, hrest⟩ := hslot
  refine h.edit (ne_blank_of_returned hreturned) rfl rfl ?_ h.ended
  refine .closing id next hlast ?_ (rest_update hrest)
  rw [Function.update_self]
  exact ⟨hreturned, Nat.succ_pos _, hended⟩

/-- A free mutex: whatever is current may be closed. -/
theorem Custody.Inv.closeFree (h : s.Inv) (hholder : s.holder = none)
    (hcurrent : s.current = some id) (next : Next) (hlast : next = .unlock → s.finished = true) :
    (s.close id next).Inv :=
  h.close hcurrent (by simp [hholder]) next hlast

/-- Without a current instance and with a free mutex every capture is at rest. -/
theorem Custody.Inv.rest (h : s.Inv) (hholder : s.holder = none) (hcurrent : s.current = none) :
    ∀ k, (s.slots k).AtRest := by
  have hshape := h.shape
  rw [hholder, hcurrent] at hshape
  cases hshape with
  | free rest => exact rest

theorem Custody.Inv.prepare (h : s.Inv) (hholder : s.holder = none) (same populated : Bool) :
    (s.prepare same populated).Inv := by
  unfold Custody.prepare
  split
  · rename_i hcurrent
    exact h.frame rfl rfl (hcurrent ▸ .setup .prepare (h.rest hholder hcurrent)) h.ended
  · rename_i id hcurrent
    have hclose := h.closeFree hholder hcurrent .start (by simp)
    split
    · exact hclose
    · split
      · exact h
      · split
        · exact h
        · exact hclose

theorem shape_recover {slots : Nat → Slot} {finished shut : Bool} (hrest : ∀ k, (slots k).AtRest)
    (found : Bool) :
    Shape slots finished shut none (if found then some (.setup .recover) else none) := by
  split
  · exact .setup .recover hrest
  · exact .free hrest

theorem Custody.Inv.round (h : s.Inv) (hholder : s.holder = none) (expired found : Bool) :
    (s.round expired found).Inv := by
  unfold Custody.round
  split
  · rename_i hcanceled
    exact h.later rfl rfl rfl rfl rfl fun _ => by simp [Custody.finished, hcanceled]
  · split
    · rename_i hcurrent
      exact h.frame rfl rfl (hcurrent ▸ shape_recover (h.rest hholder hcurrent) found) h.ended
    · rename_i id hcurrent
      have hclose := h.closeFree hholder hcurrent .recover (by simp)
      split
      · exact hclose
      · split
        · exact hclose
        · exact h

theorem Custody.Inv.shutdown (h : s.Inv) (hholder : s.holder = none)
    (hfinished : s.finished = true) : s.shutdown.Inv := by
  unfold Custody.shutdown
  split
  · rename_i hcurrent
    refine h.frame rfl rfl ?_ fun _ => hfinished
    show Shape s.slots s.finished true s.current s.holder
    rw [hcurrent, hholder]
    exact .free (h.rest hholder hcurrent)
  · rename_i id hcurrent
    exact h.closeFree hholder hcurrent .unlock fun _ => hfinished

theorem Custody.Inv.closed (h : s.Inv) {next : Next}
    (hholder : s.holder = some (.closing id next)) (hreaped : (s.slots id).worker = .reaped)
    (found : Bool) : (s.closed id next found).Inv := by
  obtain ⟨slots, fresh, current, holder, canceled, reconciling, shut⟩ := s
  dsimp only at hholder hreaped
  subst hholder
  cases h.shape with
  | closing _ _ last slot rest =>
    have hrest : (⟨.reaped, false, (slots id).returned, (slots id).closes⟩ : Slot).AtRest :=
      ⟨rfl, Or.inr rfl, iff_of_true slot.returned slot.closes⟩
    rw [← hreaped] at hrest
    have hall := rest_update_all rest hrest
    have hne := ne_blank_of_returned slot.returned
    cases next with
    | start => exact h.edit hne rfl rfl (.setup .prepare hall) h.ended
    | recover => exact h.edit hne rfl rfl (shape_recover hall found) h.ended
    | giveUp => exact h.edit hne rfl rfl (.free hall) h.ended
    | unlock =>
      refine h.edit hne rfl rfl (.left id rfl ?_ ?_ hall) fun _ => last rfl
      · rw [Function.update_self]
        exact slot.returned
      · rw [Function.update_self]
        exact hreaped

theorem Custody.Inv.setup (h : s.Inv) {who : Starter} (hholder : s.holder = some (.setup who))
    (hcanceled : s.canceled = false) : ({ s with holder := some (.attach who) } : Custody).Inv := by
  obtain ⟨slots, fresh, current, holder, canceled, reconciling, shut⟩ := s
  dsimp only at hholder hcanceled
  subst hholder
  have hearly : shut = false := by
    cases shut with
    | false => rfl
    | true =>
      have hfinished := h.ended rfl
      simp [Custody.finished, hcanceled] at hfinished
  cases h.shape with
  | setup _ rest => exact h.frame rfl rfl (.attach who hearly rest) h.ended

/-- `start` gives up before it has attached anything. -/
theorem Custody.Inv.fail (h : s.Inv) {who : Starter}
    (hholder : s.holder = some (.setup who) ∨ s.holder = some (.attach who)) :
    ({ s with holder := none } : Custody).Inv := by
  obtain ⟨slots, fresh, current, holder, canceled, reconciling, shut⟩ := s
  dsimp only at hholder
  rcases hholder with hholder | hholder
  · subst hholder
    cases h.shape with
    | setup _ rest => exact h.frame rfl rfl (.free rest) h.ended
  · subst hholder
    cases h.shape with
    | attach _ _ rest => exact h.frame rfl rfl (.free rest) h.ended

theorem Custody.Inv.attach (h : s.Inv) {who : Starter} (hholder : s.holder = some (.attach who)) :
    ({ s.edit s.fresh fun _ => ⟨.absent, true, false, 0⟩ with
      fresh := s.fresh + 1, holder := some (.assemble s.fresh who) } : Custody).Inv := by
  obtain ⟨slots, fresh, current, holder, canceled, reconciling, shut⟩ := s
  dsimp only at hholder
  subst hholder
  cases h.shape with
  | attach _ early rest =>
    refine ⟨?_, ?_, h.ended⟩
    · intro k hk
      have hne : k ≠ fresh := by
        dsimp only [Custody.edit] at hk
        omega
      show Function.update slots fresh _ k = .blank
      rw [Function.update_of_ne hne]
      exact h.blank k (Nat.le_of_succ_le hk)
    · refine .assemble fresh who early ?_ ?_ (rest_update fun k _ => rest k)
      · show (Function.update slots fresh _ fresh).Starting
        rw [Function.update_self]
        exact ⟨rfl, rfl, rfl⟩
      · show (Function.update slots fresh _ fresh).worker = .absent
        rw [Function.update_self]

/-- The deferred `cap.Close` of a `start` whose worker was never launched or has ended. -/
theorem Custody.Inv.detach (h : s.Inv)
    (hholder : (∃ who, s.holder = some (.assemble id who)) ∨
      s.holder = some (.abandon id) ∧ (s.slots id).worker = .reaped) :
    ({ s.edit id fun slot => { slot with attached := false } with
        holder := none } : Custody).Inv := by
  obtain ⟨slots, fresh, current, holder, canceled, reconciling, shut⟩ := s
  dsimp only at hholder
  have hfocus : current = none ∧ (slots id).Starting ∧
      ((slots id).worker = .absent ∨ (slots id).worker = .reaped) ∧
      ∀ k, k ≠ id → (slots k).AtRest := by
    rcases hholder with ⟨who, rfl⟩ | ⟨rfl, hreaped⟩
    · cases h.shape with
      | assemble _ _ _ slot worker rest => exact ⟨rfl, slot, Or.inl worker, rest⟩
    · cases h.shape with
      | abandon _ _ slot rest => exact ⟨rfl, slot, Or.inr hreaped, rest⟩
  obtain ⟨rfl, hslot, hworker, hrest⟩ := hfocus
  refine h.edit hslot.ne_blank rfl rfl (.free (rest_update_all hrest ⟨rfl, hworker, ?_⟩)) h.ended
  simp [hslot.returned, hslot.closes]

theorem Custody.Inv.launch (h : s.Inv) {who : Starter}
    (hholder : s.holder = some (.assemble id who)) :
    ({ s.edit id fun slot => { slot with worker := .running } with
      holder := some (.await id who) } : Custody).Inv := by
  obtain ⟨slots, fresh, current, holder, canceled, reconciling, shut⟩ := s
  dsimp only at hholder
  subst hholder
  cases h.shape with
  | assemble _ _ early slot _ rest =>
    refine h.edit slot.ne_blank rfl rfl (.await id who early ?_ (rest_update rest)) h.ended
    rw [Function.update_self]
    exact ⟨slot.attached, slot.returned, slot.closes⟩

theorem Custody.Inv.open (h : s.Inv) {who : Starter} (hholder : s.holder = some (.await id who)) :
    (s.open id who).Inv := by
  obtain ⟨slots, fresh, current, holder, canceled, reconciling, shut⟩ := s
  dsimp only at hholder
  subst hholder
  cases h.shape with
  | await _ _ early slot rest =>
    have hheld : (Function.update slots id { slots id with returned := true } id).Held := by
      rw [Function.update_self]
      exact ⟨slot.attached, rfl, slot.closes⟩
    cases who with
    | prepare =>
      exact h.edit slot.ne_blank rfl rfl (.save id early hheld (rest_update rest)) h.ended
    | recover =>
      exact h.edit slot.ne_blank rfl rfl (.held id early hheld (rest_update rest)) h.ended

/-- Readiness has failed; the capture stays until the worker has ended. -/
theorem Custody.Inv.abandon (h : s.Inv) {who : Starter}
    (hholder : s.holder = some (.await id who)) :
    ({ s with holder := some (.abandon id) } : Custody).Inv := by
  obtain ⟨slots, fresh, current, holder, canceled, reconciling, shut⟩ := s
  dsimp only at hholder
  subst hholder
  cases h.shape with
  | await _ _ early slot rest => exact h.frame rfl rfl (.abandon id early slot rest) h.ended

theorem Custody.Inv.saving (h : s.Inv) (hholder : s.holder = some (.save id)) :
    s.current = some id ∧ s.shut = false ∧ (s.slots id).Held ∧
      ∀ k, k ≠ id → (s.slots k).AtRest := by
  have hshape := h.shape
  rw [hholder] at hshape
  generalize s.current = c at hshape
  cases hshape with
  | save _ early slot rest => exact ⟨rfl, early, slot, rest⟩

theorem Custody.Inv.saved (h : s.Inv) (hholder : s.holder = some (.save id)) :
    ({ s with holder := none } : Custody).Inv := by
  obtain ⟨hcurrent, hearly, hslot, hrest⟩ := h.saving hholder
  refine h.frame rfl rfl ?_ h.ended
  show Shape s.slots s.finished s.shut s.current none
  rw [hcurrent]
  exact .held id hearly hslot hrest

/-- A worker moves on by itself. The captures at rest have no worker that could. -/
theorem Custody.Inv.worker (h : s.Inv) {w : Worker} (hworker : (s.slots id).worker = .running ∨
    (s.slots id).worker = .exited) :
    (s.edit id fun slot => { slot with worker := w }).Inv := by
  obtain ⟨slots, fresh, current, holder, canceled, reconciling, shut⟩ := s
  dsimp only at hworker
  have hmoving : ¬ (slots id).AtRest := by
    intro hrest
    rcases hrest.ended with hended | hended <;> simp [hended] at hworker
  have hne : slots id ≠ .blank := by
    intro heq
    rw [heq] at hmoving
    exact hmoving .blank
  have hfocus : ∀ {k}, (∀ j, j ≠ k → (slots j).AtRest) → k = id := by
    intro k hrest
    by_contra hk
    exact hmoving (hrest id (Ne.symm hk))
  refine h.edit hne rfl rfl ?_ h.ended
  have hself := Function.update_self id { slots id with worker := w } slots
  cases h.shape with
  | free rest => exact absurd (rest id) hmoving
  | setup _ rest => exact absurd (rest id) hmoving
  | attach _ _ rest => exact absurd (rest id) hmoving
  | left _ _ _ _ rest => exact absurd (rest id) hmoving
  | assemble k who early slot worker rest =>
    cases hfocus rest
    rcases hworker with hw | hw <;> cases worker.symm.trans hw
  | await k who early slot rest =>
    cases hfocus rest
    exact .await id who early (hself ▸ ⟨slot.attached, slot.returned, slot.closes⟩)
      (rest_update rest)
  | abandon k early slot rest =>
    cases hfocus rest
    exact .abandon id early (hself ▸ ⟨slot.attached, slot.returned, slot.closes⟩) (rest_update rest)
  | save k early slot rest =>
    cases hfocus rest
    exact .save id early (hself ▸ ⟨slot.attached, slot.returned, slot.closes⟩) (rest_update rest)
  | held k early slot rest =>
    cases hfocus rest
    exact .held id early (hself ▸ ⟨slot.attached, slot.returned, slot.closes⟩) (rest_update rest)
  | closing k next last slot rest =>
    cases hfocus rest
    refine .closing id next last (hself ▸ ⟨slot.returned, slot.closes, ?_⟩) (rest_update rest)
    intro hdetached
    have hended := slot.ended hdetached
    rcases hworker with hw | hw <;> cases hended.symm.trans hw

theorem Custody.Inv.step (h : s.Inv) {l : Move} (hstep : s.step l = some t) : t.Inv := by
  cases step_moved hstep with
  | prepare same populated hfree => exact h.prepare hfree same populated
  | round expired found hfree => exact h.round hfree expired found
  | roundsEnd hcanceled =>
    exact h.later rfl rfl rfl rfl rfl fun _ => by simp [Custody.finished, hcanceled]
  | cancel =>
    refine h.later rfl rfl rfl rfl rfl fun hfinished => ?_
    simp only [Custody.finished, Bool.and_eq_true] at hfinished ⊢
    exact ⟨trivial, hfinished.2⟩
  | shutdown hfree hcanceled hover _ =>
    exact h.shutdown hfree (by simp [Custody.finished, hcanceled, hover])
  | closed id next found hholder hreaped => exact h.closed hholder hreaped found
  | setup who hholder hlive => exact h.setup hholder hlive
  | setupFails who hholder => exact h.fail (Or.inl hholder)
  | attach who hholder => exact h.attach hholder
  | attachFails who hholder => exact h.fail (Or.inr hholder)
  | launch id who hholder => exact h.launch hholder
  | launchFails id who failure hholder => exact h.detach (Or.inl ⟨who, hholder⟩)
  | ready id who hholder => exact h.open hholder
  | notReady id who hholder => exact h.abandon hholder
  | abandoned id hholder hreaped => exact h.detach (Or.inr ⟨hholder, hreaped⟩)
  | saved id hholder => exact h.saved hholder
  | saveFails id hholder =>
    exact h.close (h.saving hholder).1 (by simp [hholder]) .giveUp (by simp)
  | exit id hworker => exact h.worker (Or.inl hworker)
  | reap id hworker => exact h.worker (Or.inr hworker)

end Steps

end RealmFormal.Agent

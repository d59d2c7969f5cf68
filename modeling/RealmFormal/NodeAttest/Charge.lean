import RealmFormal.NodeAttest.Server
import RealmFormal.Go.Slice
import RealmFormal.Lib.Window
import RealmFormal.Lib.Transition

/-!
# The success quota in memory

`chargeSuccess` with the slices it works on: the log of a node is filtered into its
own array and extended in place. The logs of different nodes never share an array,
so each is the list that `Server.chargeSuccess` keeps, and a call is granted by an
exact sliding window over the granted calls of the same node.
-/

namespace RealmFormal.NodeAttest
open Go Transition Window
set_option autoImplicit false

/-- `Server.recent` with the arrays behind its slices. -/
structure Quota where
  memory : Memory Int
  recent : Table Bytes Slice

def Quota.fresh : Quota := ⟨[], Table.empty⟩

/-- The map lookup; a missing name reads as the nil slice. -/
def Quota.slice (q : Quota) (name : Bytes) : Slice := (q.recent.get name).getD Slice.nil

def Quota.log (q : Quota) (name : Bytes) : List Int := q.memory.read (q.slice name)

/-- The assignment `s.recent[name] = …` after an operation on memory. -/
def Quota.store (q : Quota) (name : Bytes) (r : Memory Int × Slice) : Quota :=
  ⟨r.1, q.recent.put name r.2⟩

section Charge
variable (grow : Nat → Nat)

def Quota.charge (q : Quota) (name : Bytes) (now : Int) : Except String Unit × Quota :=
  let recent := q.memory.filterInPlace grow (fun previous => decide (previous > now - minute))
    (q.slice name)
  let q := q.store name recent
  if recent.2.len ≥ 6 then (.error "node attestation rate exceeded", q)
  else (.ok (), q.store name (recent.1.append grow recent.2 now))

/-- One call of a run. -/
def chargeStep (q : Quota) (call : Bytes × Int) : Option Quota :=
  some (q.charge grow call.1 call.2).2

/-- The call, when it is granted. -/
def chargeEvent (q : Quota) (call : Bytes × Int) : Option (Bytes × Int) :=
  if (q.charge grow call.1 call.2).1.isOk then some call else none

/-- The state after a list of calls. -/
def Quota.run (calls : List (Bytes × Int)) : Quota :=
  calls.foldl (fun q call => (q.charge grow call.1 call.2).2) Quota.fresh

/-- The call is granted after `calls`. -/
def Grants (calls : List (Bytes × Int)) (call : Bytes × Int) : Prop :=
  ((Quota.run grow calls).charge grow call.1 call.2).1 = .ok ()

/-- The times of the granted calls of a node. -/
def grantedTimes (calls : List (Bytes × Int)) (name : Bytes) : List Int :=
  ((trace (chargeStep grow) (chargeEvent grow) Quota.fresh calls).filter
    fun call => decide (call.1 = name)).map Prod.snd

end Charge

/-! ## Logs do not share arrays -/

structure Quota.Separate (q : Quota) : Prop where
  valid : ∀ name, q.memory.Valid (q.slice name)
  apart : ∀ {name other a}, (q.slice name).array = some a → (q.slice other).array = some a →
    name = other

theorem Quota.fresh_separate : Quota.fresh.Separate :=
  ⟨fun _ => Memory.valid_nil _, nofun⟩

theorem Quota.slice_store (q : Quota) (name other : Bytes) (r : Memory Int × Slice) :
    (q.store name r).slice other = if other = name then r.2 else q.slice other := by
  simp only [Quota.slice, Quota.store, Table.get_put]
  split <;> rfl

section Store
variable {q : Quota} {name : Bytes} {content : List Int} {r : Memory Int × Slice}

/-- The log of another node stays where it is. -/
theorem Quota.Separate.block_eq (h : q.Separate)
    (hr : Memory.Rewrites q.memory (q.slice name) content r) {other : Bytes} (hne : other ≠ name) :
    r.1.block (q.slice other) = q.memory.block (q.slice other) := by
  apply hr.others _ (h.valid other)
  cases harray : (q.slice other).array with
  | none => exact Or.inl rfl
  | some a =>
    right
    intro hsame
    exact hne (h.apart harray hsame.symm)

theorem Quota.Separate.store (h : q.Separate)
    (hr : Memory.Rewrites q.memory (q.slice name) content r) : (q.store name r).Separate := by
  have hother : ∀ {other a}, (q.slice other).array = some a → r.2.array = some a →
      other = name := by
    intro other a ho ha
    rcases hr.own with hown | hnew
    · exact h.apart ho (hown ▸ ha)
    · have hlt := (h.valid other).allocated a ho
      rw [hnew] at ha
      cases ha
      omega
  constructor
  · intro other
    rw [Quota.slice_store]
    split
    · exact hr.valid
    · rename_i hne
      constructor
      · show (q.slice other).len ≤ (r.1.block (q.slice other)).length
        rw [h.block_eq hr hne]
        exact (h.valid other).len_le
      · intro a ha
        exact Nat.lt_of_lt_of_le ((h.valid other).allocated a ha) hr.grows
  · intro n n' a hn hn'
    rw [Quota.slice_store] at hn hn'
    split at hn <;> split at hn'
    · rename_i heq heq'
      rw [heq, heq']
    · rename_i heq _
      rw [heq]
      exact (hother hn' hn).symm
    · rename_i _ heq'
      rw [heq']
      exact hother hn hn'
    · exact h.apart hn hn'

theorem Quota.Separate.log_store (h : q.Separate)
    (hr : Memory.Rewrites q.memory (q.slice name) content r) (other : Bytes) :
    (q.store name r).log other = if other = name then content else q.log other := by
  rw [Quota.log, Quota.slice_store]
  split
  · exact hr.content
  · rename_i hne
    show (r.1.block (q.slice other)).take _ = _
    rw [h.block_eq hr hne]
    rfl

end Store

/-! ## What a call does -/

/-- The effect of one call on the logs. -/
structure Charged (q : Quota) (name : Bytes) (now : Int) (r : Except String Unit × Quota) :
    Prop where
  separate : r.2.Separate
  granted : r.1 = .ok () ↔ (latest minute now (q.log name)).length < 6
  log : ∀ other, r.2.log other =
    if other = name then latest minute now (q.log name) ++ if r.1 = .ok () then [now] else []
    else q.log other

theorem Quota.Separate.charge {q : Quota} (h : q.Separate) (grow : Nat → Nat) (name : Bytes)
    (now : Int) : Charged q name now (q.charge grow name now) := by
  have hr := Memory.filterInPlace_rewrites grow (fun previous => decide (previous > now - minute))
    (h.valid name)
  have hcharge : q.charge grow name now =
      let recent := q.memory.filterInPlace grow (fun previous => decide (previous > now - minute))
        (q.slice name)
      if recent.2.len ≥ 6 then (.error "node attestation rate exceeded", q.store name recent)
      else (.ok (), (q.store name recent).store name (recent.1.append grow recent.2 now)) := rfl
  rw [hcharge]
  generalize q.memory.filterInPlace grow (fun previous => decide (previous > now - minute))
    (q.slice name) = recent at hr ⊢
  have hlatest : recent.1.read recent.2 = latest minute now (q.log name) := hr.content
  have hlen : recent.2.len = (latest minute now (q.log name)).length := by
    rw [← hlatest, Memory.read_length hr.valid]
  have hseparate := h.store hr
  have hlog := h.log_store hr
  dsimp only
  rw [hlen]
  split
  · rename_i hfull
    constructor
    case separate => exact hseparate
    case granted =>
      constructor
      · nofun
      · intro hroom
        omega
    case log =>
      intro other
      rw [hlog]
      simp [latest, Quota.log]
  · rename_i hroom
    have hslice : (q.store name recent).slice name = recent.2 := by
      rw [Quota.slice_store, if_pos rfl]
    have happend : Memory.Rewrites (q.store name recent).memory ((q.store name recent).slice name)
        (latest minute now (q.log name) ++ [now]) (recent.1.append grow recent.2 now) := by
      rw [hslice, ← hlatest]
      exact Memory.append_rewrites grow hr.valid now
    constructor
    case separate => exact hseparate.store happend
    case granted =>
      constructor
      · intro _
        omega
      · exact fun _ => rfl
    case log =>
      intro other
      rw [hseparate.log_store happend, hlog]
      split <;> simp

theorem chargeSuccess_eq (s : Server) (name : Bytes) (now : Int) :
    s.chargeSuccess name now =
      if (latest minute now (s.recent name)).length ≥ 6 then
        (.error ⟨"node attestation rate exceeded", .quota, .rateLimit⟩,
          { s with recent := Function.update s.recent name (latest minute now (s.recent name)) })
      else
        (.ok (),
          { s with
            recent := Function.update s.recent name
              (latest minute now (s.recent name) ++ [now]) }) :=
  rfl

/-- The lists of `Server.chargeSuccess` are the logs in memory. -/
theorem charge_refines {q : Quota} (h : q.Separate) {s : Server}
    (hs : ∀ name, s.recent name = q.log name) (grow : Nat → Nat) (name : Bytes) (now : Int) :
    ((s.chargeSuccess name now).1 = .ok () ↔ (q.charge grow name now).1 = .ok ()) ∧
      ∀ other, (s.chargeSuccess name now).2.recent other =
        (q.charge grow name now).2.log other := by
  have hq := h.charge grow name now
  rw [chargeSuccess_eq, hs]
  split
  · rename_i hfull
    have hrefused : (q.charge grow name now).1 ≠ .ok () := by
      rw [Ne, hq.granted]
      omega
    refine ⟨⟨nofun, fun hok => absurd hok hrefused⟩, fun other => ?_⟩
    rw [hq.log, if_neg hrefused, List.append_nil, ← hs other]
    exact Function.update_apply s.recent name _ other
  · rename_i hroom
    have hgranted : (q.charge grow name now).1 = .ok () := hq.granted.mpr (by omega)
    refine ⟨⟨fun _ => hgranted, fun _ => rfl⟩, fun other => ?_⟩
    rw [hq.log, if_pos hgranted, ← hs other]
    exact Function.update_apply s.recent name _ other

/-! ## Runs -/

section Runs
variable {grow : Nat → Nat} {calls : List (Bytes × Int)}

theorem Quota.run_snoc (call : Bytes × Int) :
    Quota.run grow (calls ++ [call]) =
      ((Quota.run grow calls).charge grow call.1 call.2).2 := by
  simp [Quota.run]

theorem exec_charge : exec (chargeStep grow) Quota.fresh calls = some (Quota.run grow calls) := by
  induction calls using List.reverseRecOn with
  | nil => rfl
  | append_singleton calls call ih =>
    rw [exec_concat_iff]
    exact ⟨_, ih, by rw [Quota.run_snoc]; rfl⟩

theorem Quota.run_separate : (Quota.run grow calls).Separate := by
  induction calls using List.reverseRecOn with
  | nil => exact Quota.fresh_separate
  | append_singleton calls call ih =>
    rw [Quota.run_snoc]
    exact (ih.charge grow call.1 call.2).separate

theorem grants_iff {call : Bytes × Int} :
    Grants grow calls call ↔
      (latest minute call.2 ((Quota.run grow calls).log call.1)).length < 6 :=
  (Quota.run_separate.charge grow call.1 call.2).granted

theorem log_snoc (call : Bytes × Int) (name : Bytes) :
    (Quota.run grow (calls ++ [call])).log name =
      if name = call.1 then
        latest minute call.2 ((Quota.run grow calls).log call.1) ++
          if ((Quota.run grow calls).charge grow call.1 call.2).1 = .ok () then [call.2] else []
      else (Quota.run grow calls).log name := by
  rw [Quota.run_snoc]
  exact (Quota.run_separate.charge grow call.1 call.2).log name

theorem grantedTimes_snoc (call : Bytes × Int) (name : Bytes) :
    grantedTimes grow (calls ++ [call]) name =
      grantedTimes grow calls name ++
        if ((Quota.run grow calls).charge grow call.1 call.2).1 = .ok () ∧ call.1 = name then
          [call.2] else [] := by
  rw [grantedTimes, trace_concat _ exec_charge, List.filter_append, List.map_append, ← grantedTimes]
  congr 1
  unfold chargeEvent
  cases hanswer : ((Quota.run grow calls).charge grow call.1 call.2).1 with
  | error e => simp [Except.isOk, Except.toBool]
  | ok u => by_cases hname : call.1 = name <;> simp [Except.isOk, Except.toBool, hname]

/-- What counts of a log from now on is what counts of the granted calls. -/
theorem latest_log {t : Int} (h : ∀ call ∈ calls, call.2 ≤ t) (name : Bytes) :
    latest minute t ((Quota.run grow calls).log name) =
      latest minute t (grantedTimes grow calls name) := by
  induction calls using List.reverseRecOn with
  | nil => rfl
  | append_singleton calls call ih =>
    have hcall : call.2 ≤ t := h call (by simp)
    have hold := ih fun c hc => h c (List.mem_append_left _ hc)
    rw [log_snoc, grantedTimes_snoc, latest_append, ← hold]
    split
    · rename_i hname
      subst hname
      rw [latest_append, latest_latest hcall]
      simp
    · rename_i hname
      rw [if_neg fun hall => hname hall.2.symm]
      simp [latest]

/-- Two states in which every later call is answered alike. -/
def Agree (t : Int) (q q' : Quota) : Prop :=
  ∀ name later, t ≤ later → latest minute later (q.log name) = latest minute later (q'.log name)

theorem Agree.charge {t : Int} {q q' : Quota} (h : Agree t q q') (hq : q.Separate)
    (hq' : q'.Separate) (grow : Nat → Nat) {call : Bytes × Int} (ht : t ≤ call.2) :
    ((q.charge grow call.1 call.2).1 = .ok () ↔ (q'.charge grow call.1 call.2).1 = .ok ()) ∧
      Agree t (q.charge grow call.1 call.2).2 (q'.charge grow call.1 call.2).2 := by
  have hc := hq.charge grow call.1 call.2
  have hc' := hq'.charge grow call.1 call.2
  have hsame := h call.1 call.2 ht
  have hanswer : (q.charge grow call.1 call.2).1 = .ok () ↔
      (q'.charge grow call.1 call.2).1 = .ok () := by
    rw [hc.granted, hc'.granted, hsame]
  refine ⟨hanswer, fun name later hlater => ?_⟩
  rw [hc.log, hc'.log]
  split
  · simp only [hsame, hanswer]
  · exact h name later hlater

/-- States that agree answer a whole list of later calls alike. -/
theorem agree_run {t : Int} {before before' mid : List (Bytes × Int)}
    (h : Agree t (Quota.run grow before) (Quota.run grow before'))
    (hmid : ∀ call ∈ mid, t ≤ call.2) :
    Agree t (Quota.run grow (before ++ mid)) (Quota.run grow (before' ++ mid)) := by
  induction mid using List.reverseRecOn with
  | nil => simpa using h
  | append_singleton mid call ih =>
    have hagree := ih fun c hc => hmid c (List.mem_append_left _ hc)
    rw [← List.append_assoc, ← List.append_assoc, Quota.run_snoc, Quota.run_snoc]
    exact (hagree.charge Quota.run_separate Quota.run_separate grow (hmid call (by simp))).2

/-- A refused call drops only what no later call counts. -/
theorem agree_of_refused {call : Bytes × Int} (h : ¬ Grants grow calls call) :
    Agree call.2 (Quota.run grow (calls ++ [call])) (Quota.run grow calls) := by
  intro name later hlater
  unfold Grants at h
  rw [log_snoc, if_neg h]
  split
  · rename_i hname
    rw [ List.append_nil, hname, latest_latest hlater]
  · rfl

/-- The log of a node depends on its own calls only. -/
theorem log_filter (name : Bytes) :
    (Quota.run grow calls).log name =
      (Quota.run grow (calls.filter fun call => decide (call.1 = name))).log name := by
  induction calls using List.reverseRecOn with
  | nil => rfl
  | append_singleton calls call ih =>
    rw [List.filter_append]
    by_cases hname : call.1 = name
    · subst hname
      have hkeep : ([call].filter fun c => decide (c.1 = call.1)) = [call] := by simp
      have hanswer : Grants grow calls call ↔
          Grants grow (calls.filter fun c => decide (c.1 = call.1)) call := by
        rw [grants_iff, grants_iff, ih]
      unfold Grants at hanswer
      rw [hkeep, log_snoc, log_snoc, if_pos rfl, if_pos rfl, ih]
      simp only [hanswer]
    · have hdrop : ([call].filter fun c => decide (c.1 = name)) = [] := by simp [hname]
      rw [hdrop, List.append_nil, log_snoc, if_neg (Ne.symm hname), ih]

/-- A call is granted exactly when fewer than six granted calls of its node are less than a
minute old; leaving out a refused call, or all calls of other nodes, changes no answer. -/
theorem charge_exact (grow : Nat → Nat) {calls : List (Bytes × Int)} {name : Bytes} {now : Int}
    (hclock : ((calls ++ [(name, now)]).map Prod.snd).Pairwise (· ≤ ·)) :
    (Grants grow calls (name, now) ↔
      ((grantedTimes grow calls name).filter fun t => decide (now - minute < t)).length < 6) ∧
    (∀ before call after, calls = before ++ call :: after → ¬ Grants grow before call →
      (Grants grow calls (name, now) ↔ Grants grow (before ++ after) (name, now))) ∧
    (Grants grow calls (name, now) ↔
      Grants grow (calls.filter fun call => decide (call.1 = name)) (name, now)) := by
  rw [List.map_append, List.pairwise_append] at hclock
  obtain ⟨hsorted, -, hlast⟩ := hclock
  have hnow : ∀ call ∈ calls, call.2 ≤ now := by
    intro call hcall
    exact hlast call.2 (List.mem_map_of_mem hcall) now (by simp)
  refine ⟨?_, ?_, ?_⟩
  · rw [grants_iff, latest_log hnow]
    rfl
  · intro before call after hcalls hrefused
    subst hcalls
    have hafter : ∀ c ∈ after, call.2 ≤ c.2 := by
      intro c hc
      rw [List.map_append, List.map_cons, List.pairwise_append] at hsorted
      exact List.rel_of_pairwise_cons hsorted.2.1 (List.mem_map_of_mem hc)
    have hagree := agree_run (agree_of_refused hrefused) hafter
    rw [List.append_assoc, List.singleton_append] at hagree
    exact (hagree.charge Quota.run_separate Quota.run_separate grow (hnow call (by simp))).1
  · rw [grants_iff, grants_iff, log_filter]

/-- Seven calls for one node within a minute, with one for another node between them. -/
def sampleCalls : List (Bytes × Int) :=
  [(str "a", 1), (str "a", 2), (str "b", 2), (str "a", 3), (str "a", 4), (str "a", 5), (str "a", 6),
    (str "a", 7)]

theorem charge_exact_sampleCalls :
    ¬ Grants (fun n => n) (sampleCalls.take 7) (str "a", 7) ∧
      Grants (fun n => n) sampleCalls (str "a", minute + 1) := by
  have hseventh : ((sampleCalls.take 7 ++ [(str "a", 7)]).map Prod.snd).Pairwise (· ≤ ·) := by
    decide +kernel
  have hlater : ((sampleCalls ++ [(str "a", minute + 1)]).map Prod.snd).Pairwise (· ≤ ·) := by
    decide +kernel
  constructor
  · rw [(charge_exact (fun n => n) hseventh).1]
    decide +kernel
  · rw [(charge_exact (fun n => n) hlater).1]
    decide +kernel

end Runs

end RealmFormal.NodeAttest

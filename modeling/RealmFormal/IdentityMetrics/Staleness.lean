import RealmFormal.IdentityMetrics.Exporter

/-!
# No stale green

What a positive answer of the exporter stands for: the latest result of its
collector or holder, its age, and the expiries that came with it. Answers decay
by themselves and never come back without a new result.
-/

namespace RealmFormal.IdentityMetrics
open Go
set_option autoImplicit false

/-- What a scrape can answer positively: the success of a collector, the trust in the server,
a sample of an agent or alias in the result of a collector, the observation of a holder, and
`/healthz`. -/
inductive Item where
  | collector (name : Bytes)
  | trust
  | agentEntry (collector : Bytes) (labels : List (Bytes × Bytes))
  | aliasEntry (collector : Bytes) (labels : List (Bytes × Bytes))
  | holder (target : WorkloadTarget)
  | health

def Exporter.state (e : Exporter) (name : Bytes) : CollectorState := (e.states.get name).getD .zero

def Exporter.holderState (e : Exporter) (target : WorkloadTarget) : HolderState :=
  (e.holders.get target.unit).getD .zero

/-- A positive sample of this metric with these labels. -/
def positive (samples : List Sample) (name : Metric) (labels : List (Bytes × Bytes)) : Prop :=
  ∃ m ∈ samples, m.name = name ∧ m.labels = labels ∧ 0 < m.value

/-- The item is answered positively at `now`. -/
def Exporter.Green (e : Exporter) (now : Time) : Item → Prop
  | .collector name => successful (e.state name) now = true
  | .trust => successful (e.state (str "bootstrap")) now = true
  | .agentEntry name labels => positive (currentSamples (e.state name) now) .agentValid labels
  | .aliasEntry name labels => positive (currentSamples (e.state name) now) .aliasMatches labels
  | .holder target =>
    target ∈ e.config.workloads ∧ holderSuccessful (e.holderState target) now = true
  | .health => e.healthy now = true

/-! ## Histories -/

def newerResult (name : Bytes) (found : Option (Outcome × Time)) : Call → Option (Outcome × Time)
  | .record o now => if o.name = name then some (o, now) else found
  | .recordHolder .. => found

/-- The latest result of a collector and when it was recorded. -/
def latest (name : Bytes) (calls : List Call) : Option (Outcome × Time) :=
  calls.foldl (newerResult name) none

def newerObservation (unit : Bytes) (found : Option (HolderObservation × Time × Time)) :
    Call → Option (HolderObservation × Time × Time)
  | .record .. => found
  | .recordHolder target o checked now =>
    if target.unit = unit then some (o, checked, now) else found

/-- The latest observation of a unit, the time of its check and the time it was recorded. -/
def latestHolder (unit : Bytes) (calls : List Call) : Option (HolderObservation × Time × Time) :=
  calls.foldl (newerObservation unit) none

/-- Recorded, and at most 65 seconds ago. -/
def Recent (completed now : Time) : Prop :=
  completed.isZero = false ∧ now.sub completed ≤ 65 * second

/-- Strictly before the expiry, if one is known. -/
def Unexpired (validUntil now : Time) : Prop :=
  validUntil.isZero = false → now.before validUntil = true

def EarnedCollector (calls : List Call) (now : Time) (name : Bytes) : Prop :=
  ∃ o completed, latest name calls = some (o, completed) ∧ o.err = none ∧ Recent completed now ∧
    Unexpired o.validUntil now

def EarnedHolder (calls : List Call) (now : Time) (unit : Bytes) : Prop :=
  ∃ o checked attempted, latestHolder unit calls = some (o, checked, attempted) ∧
    o.judged checked = none ∧ o.dormant = false ∧ Recent attempted now ∧
    o.validUntil.isZero = false ∧ now.before o.validUntil = true

def DormantHolder (calls : List Call) (now : Time) (unit : Bytes) : Prop :=
  ∃ o checked attempted, latestHolder unit calls = some (o, checked, attempted) ∧
    o.err = none ∧ o.dormant = true ∧ Recent attempted now

/-- What a positive answer must rest on. An agent has the expiry of its own certificate, in
whole seconds, under the label of its node. -/
def Earned (c : Config) (calls : List Call) (now : Time) : Item → Prop
  | .collector name => EarnedCollector calls now name
  | .trust => EarnedCollector calls now (str "bootstrap")
  | .agentEntry name labels =>
    ∃ o completed, latest name calls = some (o, completed) ∧ Recent completed now ∧
      ∃ m ∈ o.samples, m.name = .agentValid ∧ m.labels = labels ∧ 0 < m.value ∧
        ∀ expiry ∈ o.samples, ∀ notAfter : Int, expiry.name = .certificateNotAfter →
          expiry.label (str "node") = m.label (str "node") → expiry.value = float64 notAfter →
            now.wall < notAfter * second
  | .aliasEntry name labels =>
    ∃ o completed, latest name calls = some (o, completed) ∧ Recent completed now ∧
      positive o.samples .aliasMatches labels ∧ Unexpired o.validUntil now
  | .holder target => target ∈ c.workloads ∧ EarnedHolder calls now target.unit
  | .health => (∀ name ∈ collectorNames c, EarnedCollector calls now name) ∧
      (∀ name, (latest name calls).isSome → EarnedCollector calls now name) ∧
      ∀ target ∈ c.workloads,
        DormantHolder calls now target.unit ∨ EarnedHolder calls now target.unit

/-! ## What is positive at scrape time -/

section Scrape
variable {s : CollectorState} {h : HolderState} {now later : Time} {labels : List (Bytes × Bytes)}

theorem fresh_iff : fresh s now = true ↔ Recent s.completed now := by
  rw [fresh, Bool.and_eq_true, Bool.not_eq_true', decide_eq_true_eq]
  rfl

theorem successful_iff :
    successful s now = true ↔
      s.success = true ∧ Recent s.completed now ∧ Unexpired s.validUntil now := by
  rw [successful, Bool.and_eq_true, Bool.and_eq_true, fresh_iff, and_assoc]
  cases hzero : s.validUntil.isZero <;> simp [Unexpired, hzero]

theorem holderFresh_iff : holderFresh h now = true ↔ Recent h.attempted now := by
  rw [holderFresh, Bool.and_eq_true, Bool.not_eq_true', decide_eq_true_eq]
  rfl

theorem holderSuccessful_iff :
    holderSuccessful h now = true ↔ h.success = true ∧ Recent h.attempted now ∧
      h.validUntil.isZero = false ∧ now.before h.validUntil = true := by
  rw [holderSuccessful, Bool.and_eq_true, Bool.and_eq_true, Bool.and_eq_true, holderFresh_iff]
  simp [and_assoc]

theorem refresh_name (m : Sample) : (refresh s now m).name = m.name := by
  unfold refresh
  dsimp only
  repeat' split
  all_goals rfl

theorem refresh_labels (m : Sample) : (refresh s now m).labels = m.labels := by
  unfold refresh
  dsimp only
  repeat' split
  all_goals rfl

/-- A sample of an agent stays as it was collected until a certificate of its node expires. -/
theorem refresh_agent {m : Sample} (hm : m.name = .agentValid) :
    (refresh s now m).value =
      if expiredNode s.samples now (m.label (str "node")) then 0 else m.value := by
  have halias : Metric.agentValid ≠ .aliasMatches := by decide
  have hactive : Metric.agentValid ≠ .bundleActive := by decide
  unfold refresh
  by_cases hexpired : expiredNode s.samples now (m.label (str "node")) = true
  · simp [hm, hexpired, halias, hactive]
  · simp [hm, hexpired, halias, hactive]

/-- A sample of an alias stays until the expiry of its collector. -/
theorem refresh_alias {m : Sample} (hm : m.name = .aliasMatches) :
    (refresh s now m).value =
      if s.validUntil.isZero = false ∧ now.before s.validUntil = false then 0 else m.value := by
  have hagent : Metric.aliasMatches ≠ .agentValid := by decide
  have hactive : Metric.aliasMatches ≠ .bundleActive := by decide
  unfold refresh
  by_cases hexpired : s.validUntil.isZero = false ∧ now.before s.validUntil = false
  · simp [hm, hexpired, hagent, hactive]
  · simp [hm, hexpired, hagent, hactive]

/-- What is positive in the samples of a collector is fresh and was collected under the same
name and labels. -/
theorem positive_currentSamples {name : Metric} :
    positive (currentSamples s now) name labels ↔ Recent s.completed now ∧
      ∃ m ∈ s.samples, m.name = name ∧ m.labels = labels ∧ 0 < (refresh s now m).value := by
  unfold currentSamples positive
  split
  · rename_i hfresh
    rw [and_iff_right (fresh_iff.mp hfresh)]
    constructor
    · intro h
      obtain ⟨m, hm, hn, hl, hv⟩ := h
      obtain ⟨m', hm', rfl⟩ := List.mem_map.mp hm
      exact ⟨m', hm', (refresh_name m').symm.trans hn, (refresh_labels m').symm.trans hl, hv⟩
    · intro h
      obtain ⟨m, hm, hn, hl, hv⟩ := h
      exact ⟨_, List.mem_map_of_mem hm, (refresh_name m).trans hn, (refresh_labels m).trans hl, hv⟩
  · rename_i hstale
    apply iff_of_false
    · intro h
      obtain ⟨m, hm, -, -, hv⟩ := h
      obtain ⟨m', -, rfl⟩ := List.mem_map.mp hm
      exact absurd hv (by simp)
    · intro h
      exact hstale (fresh_iff.mpr h.1)

theorem positive_agent_iff :
    positive (currentSamples s now) .agentValid labels ↔ Recent s.completed now ∧
      ∃ m ∈ s.samples, m.name = .agentValid ∧ m.labels = labels ∧ 0 < m.value ∧
        expiredNode s.samples now (m.label (str "node")) = false := by
  rw [positive_currentSamples]
  refine and_congr_right fun _ => exists_congr fun m => and_congr_right fun _ => ?_
  refine and_congr_right fun hm => and_congr_right fun _ => ?_
  rw [refresh_agent hm]
  cases expiredNode s.samples now (m.label (str "node")) <;> simp

theorem positive_alias_iff :
    positive (currentSamples s now) .aliasMatches labels ↔ Recent s.completed now ∧
      positive s.samples .aliasMatches labels ∧ Unexpired s.validUntil now := by
  rw [positive_currentSamples]
  refine and_congr_right fun _ => ?_
  have hvalue : ∀ m : Sample, m.name = .aliasMatches →
      (0 < (refresh s now m).value ↔ 0 < m.value ∧ Unexpired s.validUntil now) := by
    intro m hm
    rw [refresh_alias hm]
    cases hzero : s.validUntil.isZero <;> cases hbefore : now.before s.validUntil <;>
      simp [Unexpired, hzero, hbefore]
  constructor
  · intro h
    obtain ⟨m, hm, hn, hl, hv⟩ := h
    exact ⟨⟨m, hm, hn, hl, ((hvalue m hn).mp hv).1⟩, ((hvalue m hn).mp hv).2⟩
  · intro h
    obtain ⟨⟨m, hm, hn, hl, hv⟩, hexpiry⟩ := h
    exact ⟨m, hm, hn, hl, (hvalue m hn).mpr ⟨hv, hexpiry⟩⟩

/-! ## Decay -/

theorem Recent.earlier {completed : Time} (hlater : now.Precedes later)
    (h : Recent completed later) : Recent completed now :=
  ⟨h.1, (hlater.sub_le completed).trans h.2⟩

theorem Unexpired.earlier {validUntil : Time} (hlater : now.Precedes later)
    (h : Unexpired validUntil later) : Unexpired validUntil now :=
  fun hzero => hlater.before (h hzero)

theorem successful_earlier (hlater : now.Precedes later) (h : successful s later = true) :
    successful s now = true := by
  obtain ⟨hsuccess, hrecent, hexpiry⟩ := successful_iff.mp h
  exact successful_iff.mpr ⟨hsuccess, hrecent.earlier hlater, hexpiry.earlier hlater⟩

theorem holderSuccessful_earlier (hlater : now.Precedes later)
    (hgreen : holderSuccessful h later = true) : holderSuccessful h now = true := by
  obtain ⟨hsuccess, hrecent, hzero, hexpiry⟩ := holderSuccessful_iff.mp hgreen
  exact holderSuccessful_iff.mpr ⟨hsuccess, hrecent.earlier hlater, hzero, hlater.before hexpiry⟩

/-- A certificate that has expired stays expired. -/
theorem expiredNode_later {samples : List Sample} {node : Bytes} (hlater : now.Precedes later)
    (h : expiredNode samples now node = true) : expiredNode samples later node = true := by
  obtain ⟨m, hm, hexpired⟩ := List.any_eq_true.mp h
  refine List.any_eq_true.mpr ⟨m, hm, ?_⟩
  simp only [decide_eq_true_eq] at hexpired ⊢
  exact ⟨hexpired.1, hexpired.2.1.trans (float64_mono hlater.unix_le), hexpired.2.2⟩

/-- Without a new result no answer becomes positive again. -/
theorem Exporter.Green.earlier {e : Exporter} {item : Item} (hlater : now.Precedes later)
    (hgreen : e.Green later item) : e.Green now item := by
  cases item with
  | collector name => exact successful_earlier hlater hgreen
  | trust => exact successful_earlier hlater hgreen
  | agentEntry name labels =>
    obtain ⟨hrecent, m, hm, hn, hl, hv, hexpired⟩ := positive_agent_iff.mp hgreen
    refine positive_agent_iff.mpr ⟨hrecent.earlier hlater, m, hm, hn, hl, hv, ?_⟩
    by_contra hnow
    have hstill := expiredNode_later hlater (by simpa using hnow)
    rw [hstill] at hexpired
    cases hexpired
  | aliasEntry name labels =>
    obtain ⟨hrecent, hpositive, hexpiry⟩ := positive_alias_iff.mp hgreen
    exact positive_alias_iff.mpr ⟨hrecent.earlier hlater, hpositive, hexpiry.earlier hlater⟩
  | holder target => exact ⟨hgreen.1, holderSuccessful_earlier hlater hgreen.2⟩
  | health =>
    obtain ⟨hstates, hholders⟩ := (Bool.and_eq_true _ _).mp hgreen
    refine (Bool.and_eq_true _ _).mpr ⟨?_, ?_⟩
    · exact List.all_eq_true.mpr fun entry hentry =>
        successful_earlier hlater (List.all_eq_true.mp hstates entry hentry)
    · refine List.all_eq_true.mpr fun target htarget => ?_
      have hholder := List.all_eq_true.mp hholders target htarget
      simp only [Bool.or_eq_true, Bool.and_eq_true, holderFresh_iff] at hholder ⊢
      rcases hholder with ⟨hdormant, hrecent⟩ | hgreen
      · exact Or.inl ⟨hdormant, hrecent.earlier hlater⟩
      · exact Or.inr (holderSuccessful_earlier hlater hgreen)

end Scrape

/-! ## What the state remembers -/

/-- The state of a collector holds this result. -/
structure Recorded (s : CollectorState) (o : Outcome) (now : Time) : Prop where
  samples : s.samples = o.samples
  completed : s.completed = now
  success : s.success = o.err.isNone
  validUntil : s.validUntil = o.validUntil

structure Observed (s : HolderState) (o : HolderObservation) (err : Option String) (now : Time) :
    Prop where
  attempted : s.attempted = now
  success : s.success = (err.isNone && !o.dormant)
  dormant : s.dormant = (o.dormant && err.isNone)
  validUntil : s.success = true → s.validUntil = o.validUntil

theorem recorded_record (s : CollectorState) (o : Outcome) (now : Time) :
    Recorded (s.record o now) o now := ⟨rfl, rfl, rfl, rfl⟩

theorem observed_record (s : HolderState) (o : HolderObservation) (err : Option String)
    (now : Time) : Observed (s.record o err now) o err now := by
  unfold HolderState.record
  dsimp only
  split
  · exact ⟨rfl, rfl, rfl, fun _ => rfl⟩
  · rename_i hfailed
    split
    · exact ⟨rfl, rfl, rfl, fun hsuccess => absurd hsuccess hfailed⟩
    · exact ⟨rfl, rfl, rfl, fun hsuccess => absurd hsuccess hfailed⟩

section Histories
variable {c : Config} {calls : List Call}

theorem run_concat (call : Call) :
    Exporter.run c (calls ++ [call]) = (Exporter.run c calls).apply call := by
  simp [Exporter.run]

theorem latest_concat (name : Bytes) (call : Call) :
    latest name (calls ++ [call]) = newerResult name (latest name calls) call := by
  simp [latest]

theorem latestHolder_concat (unit : Bytes) (call : Call) :
    latestHolder unit (calls ++ [call]) =
      newerObservation unit (latestHolder unit calls) call := by
  simp [latestHolder]

theorem run_config : (Exporter.run c calls).config = c := by
  induction calls using List.reverseRecOn with
  | nil => rfl
  | append_singleton calls call ih =>
    rw [run_concat]
    cases call <;> exact ih

/-- Before any result, every collector has the zero state. -/
theorem zero_states {names : List Bytes} {t : Table Bytes CollectorState}
    (ht : ∀ name s, t.get name = some s → s = .zero) {name : Bytes} {s : CollectorState}
    (h : (names.foldl (fun t name => t.put name .zero) t).get name = some s) : s = .zero := by
  induction names generalizing t with
  | nil => exact ht name s h
  | cons n names ih =>
    refine ih ?_ h
    intro k s' hs'
    rw [Table.get_put] at hs'
    split at hs'
    · cases hs'
      rfl
    · exact ht k s' hs'

theorem run_nil :
    (Exporter.run c []).states =
      (collectorNames c).foldl (fun t name => t.put name .zero) Table.empty := by
  rw [Exporter.run, List.foldl_nil, newExporter]

theorem run_state (c : Config) (calls : List Call) (name : Bytes) :
    (latest name calls = none → (Exporter.run c calls).state name = .zero) ∧
      ∀ o now, latest name calls = some (o, now) →
        Recorded ((Exporter.run c calls).state name) o now := by
  induction calls using List.reverseRecOn with
  | nil =>
    refine ⟨fun _ => ?_, fun o now h => by cases h⟩
    unfold Exporter.state
    cases hget : (Exporter.run c []).states.get name with
    | none => rfl
    | some s =>
      rw [run_nil] at hget
      exact zero_states (by simp) hget
  | append_singleton calls call ih =>
    rw [run_concat, latest_concat]
    cases call with
    | recordHolder => exact ih
    | record o now =>
      simp only [newerResult, Exporter.apply, Exporter.record, Exporter.state, Table.get_put]
      by_cases hname : name = o.name
      · subst hname
        simp only [if_true, Option.getD_some]
        refine ⟨fun h => by simp at h, ?_⟩
        intro o' now' h
        cases h
        exact recorded_record _ o now
      · rw [if_neg hname, if_neg (Ne.symm hname)]
        exact ih

theorem run_holder (c : Config) (calls : List Call) (target : WorkloadTarget) :
    (latestHolder target.unit calls = none →
        (Exporter.run c calls).holderState target = .zero) ∧
      ∀ o checked now, latestHolder target.unit calls = some (o, checked, now) →
        Observed ((Exporter.run c calls).holderState target) o (o.judged checked) now := by
  induction calls using List.reverseRecOn with
  | nil => exact ⟨fun _ => rfl, fun o checked now h => by cases h⟩
  | append_singleton calls call ih =>
    rw [run_concat, latestHolder_concat]
    cases call with
    | record => exact ih
    | recordHolder other o checked now =>
      simp only [newerObservation, Exporter.apply, Exporter.recordHolder, Exporter.holderState,
        Table.get_put]
      by_cases hunit : target.unit = other.unit
      · simp only [hunit, if_true, Option.getD_some]
        refine ⟨fun h => by simp at h, ?_⟩
        intro o' checked' now' h
        cases h
        exact observed_record _ o _ now
      · rw [if_neg hunit, if_neg (Ne.symm hunit)]
        exact ih

theorem put_states {names : List Bytes} {t : Table Bytes CollectorState} {name : Bytes}
    (h : name ∈ names ∨ (t.get name).isSome) :
    ((names.foldl (fun t name => t.put name .zero) t).get name).isSome := by
  induction names generalizing t with
  | nil => simpa using h
  | cons n names ih =>
    refine ih ?_
    rw [Table.get_put]
    by_cases hname : name = n
    · simp [hname]
    · simpa [hname] using h

/-- A collector that is set up, or has a result, is among the states. -/
theorem run_states {name : Bytes} (h : name ∈ collectorNames c ∨ (latest name calls).isSome) :
    ((Exporter.run c calls).states.get name).isSome := by
  induction calls using List.reverseRecOn with
  | nil =>
    rw [run_nil]
    exact put_states (h.imp_right fun h => by cases h)
  | append_singleton calls call ih =>
    rw [latest_concat] at h
    rw [run_concat]
    cases call with
    | recordHolder => exact ih h
    | record o now =>
      simp only [newerResult] at h
      simp only [Exporter.apply, Exporter.record, Table.get_put]
      by_cases hname : name = o.name
      · simp [hname]
      · rw [if_neg hname]
        rw [if_neg (Ne.symm hname)] at h
        exact ih h

/-! ## What is behind a positive answer -/

variable {now : Time}

theorem earned_collector {name : Bytes}
    (h : successful ((Exporter.run c calls).state name) now = true) :
    EarnedCollector calls now name := by
  obtain ⟨hsuccess, hrecent, hexpiry⟩ := successful_iff.mp h
  obtain ⟨hnone, hsome⟩ := run_state c calls name
  cases hlatest : latest name calls with
  | none =>
    rw [hnone hlatest] at hsuccess
    cases hsuccess
  | some result =>
    obtain ⟨o, completed⟩ := result
    have hrec := hsome o completed hlatest
    rw [hrec.completed] at hrecent
    rw [hrec.validUntil] at hexpiry
    rw [hrec.success] at hsuccess
    exact ⟨o, completed, hlatest, Option.isNone_iff_eq_none.mp hsuccess, hrecent, hexpiry⟩

/-- Samples come from the latest result. -/
theorem samples_latest {name : Bytes} {m : Sample}
    (hm : m ∈ ((Exporter.run c calls).state name).samples) :
    ∃ o completed, latest name calls = some (o, completed) ∧
      Recorded ((Exporter.run c calls).state name) o completed := by
  obtain ⟨hnone, hsome⟩ := run_state c calls name
  cases hlatest : latest name calls with
  | none =>
    rw [hnone hlatest] at hm
    cases hm
  | some result => exact ⟨result.1, result.2, rfl, hsome _ _ hlatest⟩

/-- The second in which a certificate expires lies ahead of its node's positive sample. -/
theorem before_notAfter {samples : List Sample} {node : Bytes}
    (h : expiredNode samples now node = false) {expiry : Sample} (hmem : expiry ∈ samples)
    {notAfter : Int} (hname : expiry.name = .certificateNotAfter)
    (hnode : expiry.label (str "node") = node) (hvalue : expiry.value = float64 notAfter) :
    now.wall < notAfter * second := by
  apply Time.wall_lt
  apply lt_of_float64_lt
  by_contra hle
  have hexpired := List.any_eq_false.mp h expiry hmem
  simp only [decide_eq_true_eq] at hexpired
  exact hexpired ⟨hname, hvalue ▸ Int.not_lt.mp hle, hnode⟩

theorem earned_holder {target : WorkloadTarget}
    (h : holderSuccessful ((Exporter.run c calls).holderState target) now = true) :
    EarnedHolder calls now target.unit := by
  obtain ⟨hsuccess, hrecent, hzero, hexpiry⟩ := holderSuccessful_iff.mp h
  obtain ⟨hnone, hsome⟩ := run_holder c calls target
  cases hlatest : latestHolder target.unit calls with
  | none =>
    rw [hnone hlatest] at hsuccess
    cases hsuccess
  | some result =>
    obtain ⟨o, checked, attempted⟩ := result
    have hobs := hsome o checked attempted hlatest
    rw [hobs.attempted] at hrecent
    rw [hobs.validUntil hsuccess] at hzero hexpiry
    rw [hobs.success] at hsuccess
    obtain ⟨herr, hdormant⟩ := (Bool.and_eq_true _ _).mp hsuccess
    exact ⟨o, checked, attempted, hlatest, Option.isNone_iff_eq_none.mp herr,
      by simpa using hdormant, hrecent, hzero, hexpiry⟩

theorem dormant_holder {target : WorkloadTarget}
    (hdormant : ((Exporter.run c calls).holderState target).dormant = true)
    (hrecent : Recent ((Exporter.run c calls).holderState target).attempted now) :
    DormantHolder calls now target.unit := by
  obtain ⟨hnone, hsome⟩ := run_holder c calls target
  cases hlatest : latestHolder target.unit calls with
  | none =>
    rw [hnone hlatest] at hdormant
    cases hdormant
  | some result =>
    obtain ⟨o, checked, attempted⟩ := result
    have hobs := hsome o checked attempted hlatest
    rw [hobs.attempted] at hrecent
    rw [hobs.dormant] at hdormant
    obtain ⟨hdormant, herr⟩ := (Bool.and_eq_true _ _).mp hdormant
    have hplain : o.judged checked = o.err := if_neg (by simp [hdormant])
    rw [hplain] at herr
    exact ⟨o, checked, attempted, hlatest, Option.isNone_iff_eq_none.mp herr, hdormant, hrecent⟩

theorem earned {item : Item} (h : (Exporter.run c calls).Green now item) :
    Earned c calls now item := by
  cases item with
  | collector name => exact earned_collector h
  | trust => exact earned_collector h
  | agentEntry name labels =>
    obtain ⟨hrecent, m, hm, hn, hl, hv, hexpired⟩ := positive_agent_iff.mp h
    obtain ⟨o, completed, hlatest, hrec⟩ := samples_latest hm
    rw [hrec.completed] at hrecent
    rw [hrec.samples] at hm hexpired
    exact ⟨o, completed, hlatest, hrecent, m, hm, hn, hl, hv,
      fun _ hmem _ hname hnode hvalue => before_notAfter hexpired hmem hname hnode hvalue⟩
  | aliasEntry name labels =>
    obtain ⟨hrecent, hpositive, hexpiry⟩ := positive_alias_iff.mp h
    obtain ⟨o, completed, hlatest, hrec⟩ := samples_latest hpositive.choose_spec.1
    rw [hrec.completed] at hrecent
    rw [hrec.samples] at hpositive
    rw [hrec.validUntil] at hexpiry
    exact ⟨o, completed, hlatest, hrecent, hpositive, hexpiry⟩
  | holder target =>
    obtain ⟨htarget, hgreen⟩ := h
    rw [run_config] at htarget
    exact ⟨htarget, earned_holder hgreen⟩
  | health =>
    obtain ⟨hstates, hholders⟩ := (Bool.and_eq_true _ _).mp h
    have hcollector : ∀ name, name ∈ collectorNames c ∨ (latest name calls).isSome →
        EarnedCollector calls now name := by
      intro name hname
      obtain ⟨s, hs⟩ := Option.isSome_iff_exists.mp (run_states hname)
      apply earned_collector (c := c)
      rw [Exporter.state, hs]
      exact List.all_eq_true.mp hstates _ (Table.get_eq_some_iff.mp hs)
    refine ⟨fun name hname => hcollector name (Or.inl hname),
      fun name hname => hcollector name (Or.inr hname), fun target htarget => ?_⟩
    have hholder := List.all_eq_true.mp hholders target (by rwa [run_config])
    simp only [Bool.or_eq_true, Bool.and_eq_true, holderFresh_iff] at hholder
    rcases hholder with ⟨hdormant, hrecent⟩ | hgreen
    · exact Or.inl (dormant_holder hdormant hrecent)
    · exact Or.inr (earned_holder hgreen)

/-! ## What a scrape shows -/

theorem latest_mem {name : Bytes} {o : Outcome} {completed : Time}
    (h : latest name calls = some (o, completed)) : Call.record o completed ∈ calls := by
  induction calls using List.reverseRecOn with
  | nil => cases h
  | append_singleton calls call ih =>
    rw [latest_concat] at h
    cases call with
    | recordHolder => exact List.mem_append_left _ (ih h)
    | record o' now' =>
      rw [newerResult] at h
      split at h
      · cases h
        exact List.mem_append_right _ (List.mem_singleton_self _)
      · exact List.mem_append_left _ (ih h)

/-- The metrics whose value is an answer. -/
def answers : List Metric :=
  [.collectorSuccess, .serverTrust, .agentValid, .aliasMatches, .observationSuccess]

/-- The name and the labels under which a scrape shows an item. -/
def Item.shown (c : Config) : Item → Option (Metric × List (Bytes × Bytes))
  | .collector name => some (.collectorSuccess, collectorLabels c name)
  | .trust => some (.serverTrust, [(str "node", c.node)])
  | .agentEntry _ labels => some (.agentValid, labels)
  | .aliasEntry _ labels => some (.aliasMatches, labels)
  | .holder target => some (.observationSuccess, targetLabels c target)
  | .health => none

/-- A result has no sample under the name of an answer that the exporter computes itself, as no
result of a collector has. -/
def Outcome.Plain (o : Outcome) : Prop :=
  ∀ m ∈ o.samples, m.name ∉ [.collectorSuccess, .serverTrust, .observationSuccess]

theorem boolFloat_pos {b : Bool} (h : 0 < boolFloat b) : b = true := by
  cases b with
  | true => rfl
  | false => cases h

theorem holderSamples_green {m : Sample}
    (hm : m ∈ holderSamples (Exporter.run c calls).config (Exporter.run c calls).holders now)
    (hname : m.name ∈ answers) (hpos : 0 < m.value) :
    ∃ item, item.shown c = some (m.name, m.labels) ∧ (Exporter.run c calls).Green now item := by
  obtain ⟨target, htarget, hm⟩ := List.mem_flatMap.mp hm
  dsimp only at hm
  rcases List.mem_append.mp hm with hm | hm
  · simp only [List.mem_cons, List.not_mem_nil, or_false] at hm
    rcases hm with rfl | rfl | rfl | rfl | rfl | rfl
    · refine ⟨.holder target, ?_, htarget, boolFloat_pos hpos⟩
      rw [run_config]
      rfl
    all_goals
      dsimp only at hname
      exact absurd hname (by decide)
  · exfalso
    repeat' split at hm
    all_goals
      simp only [List.append_nil, List.mem_append, List.mem_cons, List.not_mem_nil, or_false] at hm
    · rcases hm with rfl | rfl
      all_goals
        dsimp only at hname
        exact absurd hname (by decide)
    · rcases hm with (rfl | rfl) | rfl
      all_goals
        dsimp only at hname
        exact absurd hname (by decide)

theorem currentSamples_green (hplain : ∀ o t, Call.record o t ∈ calls → o.Plain) {name : Bytes}
    {m : Sample} (hm : m ∈ currentSamples ((Exporter.run c calls).state name) now)
    (hname : m.name ∈ answers) (hpos : 0 < m.value) :
    ∃ item, item.shown c = some (m.name, m.labels) ∧ (Exporter.run c calls).Green now item := by
  have hgreen : positive (currentSamples ((Exporter.run c calls).state name) now) m.name m.labels :=
    ⟨m, hm, rfl, rfl, hpos⟩
  obtain ⟨-, m', hm', hn, -, -⟩ := positive_currentSamples.mp hgreen
  obtain ⟨o, completed, hlatest, hrec⟩ := samples_latest hm'
  rw [hrec.samples] at hm'
  have hown := hplain o completed (latest_mem hlatest) m' hm'
  rw [hn] at hown
  simp only [answers, List.mem_cons, List.not_mem_nil, or_false] at hname hown
  rcases hname with h | h | h | h | h
  · exact absurd (Or.inl h) hown
  · exact absurd (Or.inr (Or.inl h)) hown
  · rw [h] at hgreen ⊢
    exact ⟨.agentEntry name m.labels, rfl, hgreen⟩
  · rw [h] at hgreen ⊢
    exact ⟨.aliasEntry name m.labels, rfl, hgreen⟩
  · exact absurd (Or.inr (Or.inr h)) hown

theorem scrape_green (hplain : ∀ o t, Call.record o t ∈ calls → o.Plain) {m : Sample}
    (hm : m ∈ (Exporter.run c calls).scrape now) (hname : m.name ∈ answers) (hpos : 0 < m.value) :
    ∃ item, item.shown c = some (m.name, m.labels) ∧ (Exporter.run c calls).Green now item := by
  rcases List.mem_append.mp hm with hm | hm
  · rcases List.mem_append.mp hm with hm | hm
    · exact holderSamples_green hm hname hpos
    · obtain ⟨name, -, hm⟩ := List.mem_flatMap.mp hm
      rcases List.mem_append.mp hm with hm | hm
      · simp only [List.mem_cons, List.not_mem_nil, or_false] at hm
        rcases hm with rfl | rfl | rfl | rfl | rfl
        · refine ⟨.collector name, ?_, boolFloat_pos hpos⟩
          rw [run_config]
          rfl
        all_goals
          dsimp only at hname
          exact absurd hname (by decide)
      · exact currentSamples_green hplain hm hname hpos
  · cases List.mem_singleton.mp hm
    refine ⟨.trust, ?_, boolFloat_pos hpos⟩
    rw [run_config]
    rfl

/-- A positive answer rests on the latest result, which is at most 65 seconds old and not
expired; answers only decay; and a scrape shows nothing else as positive. -/
theorem no_stale_green (c : Config) (calls : List Call) (now : Time) :
    (∀ item, (Exporter.run c calls).Green now item → Earned c calls now item) ∧
      (∀ item later, now.Precedes later → (Exporter.run c calls).Green later item →
        (Exporter.run c calls).Green now item) ∧
      ((∀ o t, Call.record o t ∈ calls → o.Plain) →
        ∀ m ∈ (Exporter.run c calls).scrape now, m.name ∈ answers → 0 < m.value →
          ∃ item, item.shown c = some (m.name, m.labels) ∧
            (Exporter.run c calls).Green now item) :=
  ⟨fun _ h => earned h, fun _ _ hlater h => h.earlier hlater,
    fun hplain _ hm hname hpos => scrape_green hplain hm hname hpos⟩

end Histories

def sampleSettings : Config := ⟨str "eihort", str "/run/spire/api.sock", []⟩

def sampleNode : List (Bytes × Bytes) := [(str "node", str "eihort")]

/-- One agent, whose certificate expires in second 1000. -/
def sampleAgents : Outcome where
  name := str "agents"
  samples := [⟨.agentValid, sampleNode, 1⟩, ⟨.certificateNotAfter, sampleNode, float64 1000⟩]
  err := none
  validUntil := ⟨1000 * second, none⟩

def sampleHistory : List Call := [.record sampleAgents ⟨940 * second, some 0⟩]

/-- The agent is shown as valid 59 seconds after the collection, in the last second before its
certificate expires; both the answer and the sample of the scrape rest on the collection. -/
theorem no_stale_green_sampleHistory :
    (Exporter.run sampleSettings sampleHistory).Green ⟨999 * second, some (59 * second)⟩
        (.agentEntry (str "agents") sampleNode) ∧
      Earned sampleSettings sampleHistory ⟨999 * second, some (59 * second)⟩
        (.agentEntry (str "agents") sampleNode) ∧
      ⟨.agentValid, sampleNode, 1⟩ ∈ (Exporter.run sampleSettings sampleHistory).scrape
        ⟨999 * second, some (59 * second)⟩ ∧
      ∃ item : Item, item.shown sampleSettings = some (.agentValid, sampleNode) ∧
        (Exporter.run sampleSettings sampleHistory).Green ⟨999 * second, some (59 * second)⟩
          item := by
  have hgreen : (Exporter.run sampleSettings sampleHistory).Green
      ⟨999 * second, some (59 * second)⟩ (.agentEntry (str "agents") sampleNode) :=
    ⟨⟨.agentValid, sampleNode, 1⟩, by decide +kernel⟩
  have hsample : ⟨.agentValid, sampleNode, 1⟩ ∈ (Exporter.run sampleSettings sampleHistory).scrape
      ⟨999 * second, some (59 * second)⟩ := by decide +kernel
  have hplain : ∀ o t, Call.record o t ∈ sampleHistory → o.Plain := by
    intro o t hcall
    cases List.mem_singleton.mp hcall
    simp [Outcome.Plain, sampleAgents]
  obtain ⟨hearned, -, hscrape⟩ := no_stale_green sampleSettings sampleHistory
    ⟨999 * second, some (59 * second)⟩
  exact ⟨hgreen, hearned _ hgreen, hsample,
    hscrape hplain _ hsample (by decide) (by decide)⟩

end RealmFormal.IdentityMetrics

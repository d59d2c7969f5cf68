import RealmFormal.Go.Bytes
import RealmFormal.Go.Float
import RealmFormal.Go.Time
import RealmFormal.Lib.Table

/-!
# The identity exporter

The state of `exporter` and what a scrape makes of it: `record`, `recordHolder`,
the freshness rules, `metrics` up to the printing, and `healthy`. Every sample is
an integer that was converted to `float64`. Labels come in pairs.
-/

namespace RealmFormal.IdentityMetrics
open Go
set_option autoImplicit false

/-! ## Samples and outcomes -/

/-- The exported metrics, the keys of `metricHelp`. -/
inductive Metric where
  | observationSuccess
  | dormant
  | lastAttempt
  | lastObserved
  | observationSuccesses
  | observationErrors
  | svidNotBefore
  | svidNotAfter
  | svidLastRotation
  | collectorSuccess
  | collectorSuccesses
  | collectorErrors
  | collectorLastSuccess
  | collectorLastCollection
  | serverTrust
  | bundleCertificates
  | bundleActive
  | bundleNotAfter
  | bundleNotBefore
  | certificateNotAfter
  | certificateNotBefore
  | lastRotation
  | agentValid
  | aliasMatches
  deriving DecidableEq

def Metric.text : Metric → Bytes
  | .observationSuccess => str "realm_workload_svid_observation_success"
  | .dormant => str "realm_workload_svid_dormant"
  | .lastAttempt => str "realm_workload_svid_last_attempt_timestamp_seconds"
  | .lastObserved => str "realm_workload_svid_last_observed_timestamp_seconds"
  | .observationSuccesses => str "realm_workload_svid_observation_successes_total"
  | .observationErrors => str "realm_workload_svid_observation_errors_total"
  | .svidNotBefore => str "realm_workload_svid_not_before_seconds"
  | .svidNotAfter => str "realm_workload_svid_not_after_seconds"
  | .svidLastRotation => str "realm_workload_svid_last_rotation_timestamp_seconds"
  | .collectorSuccess => str "realm_identity_collector_success"
  | .collectorSuccesses => str "realm_identity_collector_successes_total"
  | .collectorErrors => str "realm_identity_collector_errors_total"
  | .collectorLastSuccess => str "realm_identity_collector_last_success_timestamp_seconds"
  | .collectorLastCollection => str "realm_identity_collector_last_collection_timestamp_seconds"
  | .serverTrust => str "realm_bootstrap_bundle_server_trust_valid"
  | .bundleCertificates => str "realm_bootstrap_bundle_certificates"
  | .bundleActive => str "realm_bootstrap_bundle_active_valid_certificates"
  | .bundleNotAfter => str "realm_bootstrap_bundle_certificate_not_after_seconds"
  | .bundleNotBefore => str "realm_bootstrap_bundle_certificate_not_before_seconds"
  | .certificateNotAfter => str "realm_identity_certificate_not_after_seconds"
  | .certificateNotBefore => str "realm_identity_certificate_not_before_seconds"
  | .lastRotation => str "realm_identity_last_rotation_timestamp_seconds"
  | .agentValid => str "realm_spire_agent_metadata_valid"
  | .aliasMatches => str "realm_spire_alias_matches_expected"

structure Sample where
  name : Metric
  labels : List (Bytes × Bytes)
  value : Int
  deriving DecidableEq

def boolFloat (b : Bool) : Int := if b then 1 else 0

/-- The first value under this label, or the empty string. -/
def Sample.label (m : Sample) (key : Bytes) : Bytes :=
  ((m.labels.find? fun l => decide (l.1 = key)).map Prod.snd).getD []

/-- `err` is the text of the error. -/
structure Outcome where
  name : Bytes
  samples : List Sample
  err : Option String
  validUntil : Time

structure CollectorState where
  samples : List Sample
  success : Bool
  successes : UInt64
  errors : UInt64
  completed : Time
  lastSuccess : Time
  validUntil : Time

def CollectorState.zero : CollectorState := ⟨[], false, 0, 0, .zero, .zero, .zero⟩

structure HolderState where
  attempted : Time
  observed : Time
  rotated : Time
  before : Time
  after : Time
  validUntil : Time
  fingerprint : Bytes
  success : Bool
  dormant : Bool
  successes : UInt64
  errors : UInt64

def HolderState.zero : HolderState :=
  ⟨.zero, .zero, .zero, .zero, .zero, .zero, [], false, false, 0, 0⟩

structure HolderObservation where
  before : Time
  after : Time
  validUntil : Time
  fingerprint : Bytes
  dormant : Bool
  err : Option String

structure WorkloadTarget where
  unit : Bytes
  identity : Bytes
  source : Bytes
  deriving DecidableEq

/-- The settings that the functions below read. -/
structure Config where
  node : Bytes
  serverAdminSocket : Bytes
  workloads : List WorkloadTarget

structure Exporter where
  config : Config
  states : Table Bytes CollectorState
  holders : Table Bytes HolderState

def collectorNames (c : Config) : List Bytes :=
  [str "bundle", str "bootstrap", str "canary"] ++
    (if c.serverAdminSocket ≠ [] then [str "agents", str "aliases"] else []) ++
    if c.workloads ≠ [] then [str "workloads"] else []

def newExporter (c : Config) : Exporter where
  config := c
  states := (collectorNames c).foldl (fun t name => t.put name .zero) Table.empty
  holders := Table.empty

/-! ## Recording -/

def CollectorState.record (s : CollectorState) (o : Outcome) (now : Time) : CollectorState :=
  { s with
    samples := o.samples
    completed := now
    success := o.err.isNone
    validUntil := o.validUntil
    successes := if o.err.isNone then s.successes + 1 else s.successes
    lastSuccess := if o.err.isNone then now else s.lastSuccess
    errors := if o.err.isNone then s.errors else s.errors + 1 }

def Exporter.record (e : Exporter) (o : Outcome) (now : Time) : Exporter :=
  { e with states := e.states.put o.name (((e.states.get o.name).getD .zero).record o now) }

/-- The error of an observation after the check of its metadata, which reads the clock. -/
def HolderObservation.judged (o : HolderObservation) (now : Time) : Option String :=
  if o.err = none ∧ o.dormant = false ∧ (o.fingerprint = [] ∨ o.before.isZero ∨
      ¬ o.after.after o.before ∨ o.validUntil.isZero ∨ ¬ now.before o.validUntil) then
    some "workload_metadata"
  else o.err

/-- The fields that only a successful observation sets. -/
def HolderState.observe (s : HolderState) (o : HolderObservation) (now : Time) : HolderState :=
  { s with
    rotated := if s.fingerprint ≠ [] ∧ s.fingerprint ≠ o.fingerprint then now else s.rotated
    fingerprint := o.fingerprint
    before := o.before
    after := o.after
    validUntil := o.validUntil
    observed := now
    successes := s.successes + 1 }

def HolderState.record (s : HolderState) (o : HolderObservation) (err : Option String)
    (now : Time) : HolderState :=
  let s := { s with
    attempted := now
    dormant := o.dormant && err.isNone
    success := err.isNone && !o.dormant
    before := .zero
    after := .zero
    validUntil := .zero }
  if s.success then s.observe o now
  else if err.isSome then { s with errors := s.errors + 1 }
  else s

/-- The clock is read once for the check and once for the state. -/
def Exporter.recordHolder (e : Exporter) (target : WorkloadTarget) (o : HolderObservation)
    (checked now : Time) : Exporter :=
  { e with
    holders := e.holders.put target.unit
      (((e.holders.get target.unit).getD .zero).record o (o.judged checked) now) }

/-! ## Freshness -/

def freshnessLimit : Int := 65 * second

def fresh (s : CollectorState) (now : Time) : Bool :=
  !s.completed.isZero && decide (now.sub s.completed ≤ freshnessLimit)

def successful (s : CollectorState) (now : Time) : Bool :=
  s.success && fresh s now && (s.validUntil.isZero || now.before s.validUntil)

def holderFresh (s : HolderState) (now : Time) : Bool :=
  !s.attempted.isZero && decide (now.sub s.attempted ≤ freshnessLimit)

def holderSuccessful (s : HolderState) (now : Time) : Bool :=
  s.success && holderFresh s now && !s.validUntil.isZero && now.before s.validUntil

/-! ## Samples of a scrape -/

/-- Some certificate of this node has expired. -/
def expiredNode (samples : List Sample) (now : Time) (node : Bytes) : Bool :=
  samples.any fun m => decide (m.name = .certificateNotAfter ∧ m.value ≤ float64 now.unix ∧
    m.label (str "node") = node)

/-- The samples of one metric by the fingerprint they carry; a later one replaces an earlier. -/
def byCertificate (samples : List Sample) (name : Metric) : Table Bytes Int :=
  samples.foldl
    (fun t m => if m.name = name then t.put (m.label (str "certificate")) m.value else t)
    Table.empty

def activeCertificates (samples : List Sample) (now : Time) : Nat :=
  let before := byCertificate samples .bundleNotBefore
  (byCertificate samples .bundleNotAfter).count fun fingerprint expiry =>
    decide ((before.get fingerprint).getD 0 ≤ float64 now.unix ∧ expiry > float64 now.unix)

/-- The second loop of `currentSamples`. -/
def refresh (s : CollectorState) (now : Time) (m : Sample) : Sample :=
  let m := if m.name = .agentValid ∧ expiredNode s.samples now (m.label (str "node")) then
    { m with value := 0 } else m
  let m := if m.name = .aliasMatches ∧ ¬ s.validUntil.isZero ∧ ¬ now.before s.validUntil then
    { m with value := 0 } else m
  if m.name = .bundleActive then { m with value := activeCertificates s.samples now } else m

def currentSamples (s : CollectorState) (now : Time) : List Sample :=
  if fresh s now then s.samples.map (refresh s now)
  else
    (s.samples.filter fun m => decide (m.name = .agentValid ∨ m.name = .aliasMatches)).map fun m =>
      { m with value := 0 }

def unixOrZero (t : Time) : Int := if t.isZero then 0 else float64 t.unix

def targetLabels (c : Config) (target : WorkloadTarget) : List (Bytes × Bytes) :=
  [(str "node", c.node), (str "unit", target.unit), (str "identity", target.identity),
    (str "source", target.source)]

def holderSamples (c : Config) (holders : Table Bytes HolderState) (now : Time) : List Sample :=
  c.workloads.flatMap fun target =>
    let s := (holders.get target.unit).getD .zero
    let labels := targetLabels c target
    [⟨.observationSuccess, labels, boolFloat (holderSuccessful s now)⟩,
      ⟨.dormant, labels, boolFloat (s.dormant && holderFresh s now)⟩,
      ⟨.lastAttempt, labels, unixOrZero s.attempted⟩,
      ⟨.lastObserved, labels, unixOrZero s.observed⟩,
      ⟨.observationSuccesses, labels, float64 s.successes.toNat⟩,
      ⟨.observationErrors, labels, float64 s.errors.toNat⟩] ++
    if holderSuccessful s now then
      [⟨.svidNotBefore, labels, float64 s.before.unix⟩,
        ⟨.svidNotAfter, labels, float64 s.after.unix⟩] ++
      if s.rotated.isZero then []
      else [⟨.svidLastRotation, labels, float64 s.rotated.unix⟩]
    else []

def collectorLabels (c : Config) (name : Bytes) : List (Bytes × Bytes) :=
  [(str "node", c.node), (str "collector", name)]

def collectorSamples (c : Config) (name : Bytes) (s : CollectorState) (now : Time) : List Sample :=
  let labels := collectorLabels c name
  [⟨.collectorSuccess, labels, boolFloat (successful s now)⟩,
    ⟨.collectorSuccesses, labels, float64 s.successes.toNat⟩,
    ⟨.collectorErrors, labels, float64 s.errors.toNat⟩,
    ⟨.collectorLastSuccess, labels, unixOrZero s.lastSuccess⟩,
    ⟨.collectorLastCollection, labels, unixOrZero s.completed⟩] ++
    currentSamples s now

/-- `sort.Strings`. -/
def sortStrings (names : List Bytes) : List Bytes := names.insertionSort (· ≤ ·)

/-- The samples that `metrics` collects before it prints them metric by metric. -/
def Exporter.scrape (e : Exporter) (now : Time) : List Sample :=
  holderSamples e.config e.holders now ++
    ((sortStrings (e.states.entries.map Prod.fst)).flatMap fun name =>
      collectorSamples e.config name ((e.states.get name).getD .zero) now) ++
    [⟨.serverTrust, [(str "node", e.config.node)],
      boolFloat (successful ((e.states.get (str "bootstrap")).getD .zero) now)⟩]

/-- The answer of `/healthz` is 200. -/
def Exporter.healthy (e : Exporter) (now : Time) : Bool :=
  e.states.entries.all (fun entry => successful entry.2 now) &&
    e.config.workloads.all fun target =>
      let s := (e.holders.get target.unit).getD .zero
      s.dormant && holderFresh s now || holderSuccessful s now

/-! ## Histories -/

inductive Call where
  | record (o : Outcome) (now : Time)
  | recordHolder (target : WorkloadTarget) (o : HolderObservation) (checked now : Time)

def Exporter.apply (e : Exporter) : Call → Exporter
  | .record o now => e.record o now
  | .recordHolder target o checked now => e.recordHolder target o checked now

def Exporter.run (c : Config) (calls : List Call) : Exporter :=
  calls.foldl Exporter.apply (newExporter c)

end RealmFormal.IdentityMetrics

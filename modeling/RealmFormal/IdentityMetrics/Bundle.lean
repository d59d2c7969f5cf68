import RealmFormal.IdentityMetrics.Settings

/-!
# Bundle, bootstrap and canary

`loadBundle` after the decoding of the PEM blocks, and the outcomes that
`collectBootstrap` and `canaryOutcome` build. The exported number of valid bundle
certificates is counted again at scrape time from the samples.
-/

namespace RealmFormal.IdentityMetrics
open Go
set_option autoImplicit false

/-! ## The bundle -/

/-- The loop of `loadBundle` over the blocks of the file: a block is a certificate or the reason
why it is refused. -/
def loadBlocks (certs : List Certificate) : List (Except String Certificate) →
    Except String (List Certificate)
  | [] => if certs.length = 0 then .error "bundle_empty" else .ok certs
  | .error e :: _ => .error e
  | .ok cert :: rest =>
    let certs :=
      if (certs.any fun c => decide (c.fingerprint = cert.fingerprint)) then certs
      else certs ++ [cert]
    if certs.length > 64 then .error "bundle_limit" else loadBlocks certs rest

/-- `none` is a file that cannot be read. -/
def loadBundle (file : Option (List (Except String Certificate))) :
    Except String (List Certificate) :=
  match file with
  | none => .error "bundle_read"
  | some blocks => loadBlocks [] blocks

def certificateLabels (node : Bytes) (cert : Certificate) : List (Bytes × Bytes) :=
  [(str "node", node), (str "certificate", cert.fingerprint)]

def bundleSamples (node : Bytes) (certs : List Certificate) (now : Time) : List Sample :=
  (certs.flatMap fun cert =>
    [⟨.bundleNotAfter, certificateLabels node cert, float64 cert.after.unix⟩,
      ⟨.bundleNotBefore, certificateLabels node cert, float64 cert.before.unix⟩]) ++
    [⟨.bundleCertificates, [(str "node", node)], float64 certs.length⟩,
      ⟨.bundleActive, [(str "node", node)],
        float64 (certs.countP fun cert => certCurrent cert now)⟩]

/-- The first outcome of `collectBootstrap`. -/
def bundleOutcome (node : Bytes) (loaded : Except String (List Certificate)) (now : Time) :
    Outcome :=
  match loaded with
  | .error e => ⟨str "bundle", [], some e, .zero⟩
  | .ok certs => ⟨str "bundle", bundleSamples node certs now, none, .zero⟩

/-- The second one. The probe runs only with a bundle and has the expiry of its chain. -/
def bootstrapOutcome (loaded : Except String (List Certificate)) (probe : Except String Time) :
    Outcome :=
  match loaded, probe with
  | .error e, _ => ⟨str "bootstrap", [], some e, .zero⟩
  | .ok _, .error e => ⟨str "bootstrap", [], some e, .zero⟩
  | .ok _, .ok validUntil => ⟨str "bootstrap", [], none, validUntil⟩

/-! ## The canary -/

/-- What the exporter remembers of the canary between collections. -/
structure CanaryMemory where
  fingerprint : Bytes
  rotation : Time

def canaryLabels (c : Settings) : List (Bytes × Bytes) :=
  [(str "node", c.node), (str "kind", str "canary"), (str "identity", c.canaryID)]

def CanaryMemory.observe (memory : CanaryMemory) (fingerprint : Bytes) (now : Time) :
    CanaryMemory :=
  ⟨fingerprint, if memory.fingerprint ≠ [] ∧ memory.fingerprint ≠ fingerprint then now
    else memory.rotation⟩

def canarySamples (c : Settings) (cert : Certificate) (rotation : Time) : List Sample :=
  [⟨.certificateNotAfter, canaryLabels c, float64 cert.after.unix⟩,
    ⟨.certificateNotBefore, canaryLabels c, float64 cert.before.unix⟩] ++
    if rotation.isZero then []
    else [⟨.lastRotation, canaryLabels c, float64 rotation.unix⟩]

/-- The clock is read for the check and again if the certificate has changed. -/
def canaryOutcome (c : Settings) (memory : CanaryMemory) (result : CanaryResult)
    (checked now : Time) : Outcome × CanaryMemory :=
  match result.err, result.metadata.cert with
  | some e, _ => (⟨str "canary", [], some e, .zero⟩, memory)
  | none, none => (⟨str "canary", [], some "canary_metadata", .zero⟩, memory)
  | none, some cert =>
    if certCurrent cert checked then
      let memory := memory.observe cert.fingerprint now
      (⟨str "canary", canarySamples c cert memory.rotation, none, cert.after⟩, memory)
    else (⟨str "canary", [], some "canary_metadata", .zero⟩, memory)

/-! ## The count at scrape time -/

/-- Both bounds are whole seconds that a `float64` holds exactly. The years that
`x509.ParseCertificate` accepts end with 9999, far below the bound here. -/
def Certificate.Exact (cert : Certificate) : Prop :=
  ∃ notBefore notAfter : Int, cert.notBefore = notBefore * second ∧
    cert.notAfter = notAfter * second ∧ notBefore.natAbs < 2 ^ 53 ∧ notAfter.natAbs < 2 ^ 53

theorem byCertificate_eq (samples : List Sample) (name : Metric) :
    byCertificate samples name =
      (samples.filterMap fun m =>
        if m.name = name then some (m.label (str "certificate"), m.value) else none).foldl
          (fun t e => t.put e.1 e.2) Table.empty := by
  rw [byCertificate, List.foldl_filterMap]
  congr 1
  funext t m
  split <;> rfl

theorem label_certificate (name : Metric) (node : Bytes) (cert : Certificate) (value : Int) :
    (Sample.mk name (certificateLabels node cert) value).label (str "certificate") =
      cert.fingerprint := by
  have hkey : str "node" ≠ str "certificate" := by decide
  simp [Sample.label, certificateLabels, hkey]

section Count
variable (node : Bytes) (certs : List Certificate) (collected : Time)

theorem notAfter_entries :
    ((bundleSamples node certs collected).filterMap fun m =>
      if m.name = .bundleNotAfter then some (m.label (str "certificate"), m.value) else none) =
        certs.map fun cert => (cert.fingerprint, float64 cert.after.unix) := by
  rw [List.map_eq_flatMap]
  simp [bundleSamples, List.filterMap_flatMap, label_certificate]

theorem notBefore_entries :
    ((bundleSamples node certs collected).filterMap fun m =>
      if m.name = .bundleNotBefore then some (m.label (str "certificate"), m.value) else none) =
        certs.map fun cert => (cert.fingerprint, float64 cert.before.unix) := by
  rw [List.map_eq_flatMap]
  simp [bundleSamples, List.filterMap_flatMap, label_certificate]

variable {node certs collected} (hdistinct : (certs.map Certificate.fingerprint).Nodup)
include hdistinct

theorem entries_byCertificate {name : Metric} {value : Certificate → Int}
    (h : ((bundleSamples node certs collected).filterMap fun m =>
      if m.name = name then some (m.label (str "certificate"), m.value) else none) =
        certs.map fun cert => (cert.fingerprint, value cert)) :
    (byCertificate (bundleSamples node certs collected) name).entries =
      (certs.map fun cert => (cert.fingerprint, value cert)).reverse := by
  rw [byCertificate_eq, h]
  apply Table.entries_foldl_put_empty
  rw [List.map_map]
  exact hdistinct

/-- The count is taken over the certificates themselves, with the bounds as exported. -/
theorem activeCertificates_eq (now : Time) :
    activeCertificates (bundleSamples node certs collected) now =
      certs.countP fun cert => decide (float64 cert.before.unix ≤ float64 now.unix ∧
        float64 cert.after.unix > float64 now.unix) := by
  have hafter := entries_byCertificate hdistinct (notAfter_entries node certs collected)
  have hbefore := entries_byCertificate hdistinct (notBefore_entries node certs collected)
  have hget : ∀ cert ∈ certs, (byCertificate (bundleSamples node certs collected)
      .bundleNotBefore).get cert.fingerprint = some (float64 cert.before.unix) := by
    intro cert hcert
    rw [Table.get_eq_some_iff, hbefore, List.mem_reverse]
    exact List.mem_map_of_mem hcert
  rw [activeCertificates, Table.count, hafter, List.countP_reverse, List.countP_map]
  apply List.countP_congr
  intro cert hcert
  simp only [Function.comp_apply, hget cert hcert, Option.getD_some]

end Count

/-- On exact bounds the comparisons of floats are those of the times, however the second of the
scrape is rounded. -/
theorem exact_certCurrent {cert : Certificate} (h : cert.Exact) (now : Time) :
    (float64 cert.before.unix ≤ float64 now.unix ∧ float64 cert.after.unix > float64 now.unix) ↔
      certCurrent cert now = true := by
  obtain ⟨notBefore, notAfter, hbefore, hafter, hexactBefore, hexactAfter⟩ := h
  have hsecond : second ≠ 0 := by decide
  have hbeforeUnix : cert.before.unix = notBefore := by
    rw [Time.unix, Certificate.before, hbefore, Int.mul_ediv_cancel _ hsecond]
  have hafterUnix : cert.after.unix = notAfter := by
    rw [Time.unix, Certificate.after, hafter, Int.mul_ediv_cancel _ hsecond]
  have hcurrent : certCurrent cert now = true ↔
      notBefore * second ≤ now.wall ∧ now.wall < notAfter * second := by
    have hstarted : now.before cert.before = true ↔ now.wall < notBefore * second := by
      rw [← hbefore]
      exact Time.before_iff_wall rfl
    have hrunning : now.before cert.after = true ↔ now.wall < notAfter * second := by
      rw [← hafter]
      exact Time.before_iff_wall rfl
    rw [certCurrent, Bool.and_eq_true, Bool.not_eq_true', Bool.eq_false_iff, ne_eq, hstarted,
      hrunning, Int.not_lt]
  rw [hcurrent, hbeforeUnix, hafterUnix, float64_eq_self (Nat.le_of_lt hexactBefore),
    float64_eq_self (Nat.le_of_lt hexactAfter), gt_iff_lt, float64_lt_iff hexactAfter,
    ← Int.not_lt, float64_lt_iff hexactBefore, Int.not_lt, Time.unix,
    Int.le_ediv_iff_mul_le (by decide), Int.ediv_lt_iff_lt_mul (by decide)]

theorem refresh_active {s : CollectorState} {now : Time} {m : Sample}
    (hm : m.name = .bundleActive) :
    refresh s now m = { m with value := activeCertificates s.samples now } := by
  have hagent : Metric.bundleActive ≠ .agentValid := by decide
  have halias : Metric.bundleActive ≠ .aliasMatches := by decide
  simp [refresh, hm, hagent, halias]

/-- The samples of the metric that a scrape has of a fresh bundle. -/
theorem active_samples {s : CollectorState} {node : Bytes} {certs : List Certificate}
    {collected completed now : Time} (hrecent : Recent completed now) :
    ((currentSamples (s.record (bundleOutcome node (.ok certs) collected) completed) now).filter
      fun m => decide (m.name = .bundleActive)) =
        [⟨.bundleActive, [(str "node", node)],
          activeCertificates (bundleSamples node certs collected) now⟩] := by
  have hfresh : fresh (s.record (bundleOutcome node (.ok certs) collected) completed) now = true :=
    fresh_iff.mpr hrecent
  rw [currentSamples, if_pos hfresh, List.filter_map]
  have hname : ((fun m : Sample => decide (m.name = .bundleActive)) ∘
      refresh (s.record (bundleOutcome node (.ok certs) collected) completed) now) =
        fun m => decide (m.name = .bundleActive) := by
    funext m
    rw [Function.comp_apply, refresh_name]
  rw [hname]
  show ((bundleSamples node certs collected).filter _).map _ = _
  have hfilter : ((bundleSamples node certs collected).filter fun m =>
      decide (m.name = .bundleActive)) = [⟨.bundleActive, [(str "node", node)],
        float64 (certs.countP fun cert => certCurrent cert collected)⟩] := by
    simp [bundleSamples, List.filter_flatMap]
  rw [hfilter, List.map_singleton, refresh_active rfl]
  rfl

/-- The exported number is that of the certificates that are valid at the scrape. -/
theorem active_count_current (s : CollectorState) (node : Bytes) (certs : List Certificate)
    (hdistinct : (certs.map Certificate.fingerprint).Nodup)
    (hexact : ∀ cert ∈ certs, cert.Exact) (collected completed now : Time)
    (hrecent : Recent completed now) :
    ((currentSamples (s.record (bundleOutcome node (.ok certs) collected) completed) now).filter
      fun m => decide (m.name = .bundleActive)) =
        [⟨.bundleActive, [(str "node", node)],
          (certs.countP fun cert => certCurrent cert now : Nat)⟩] := by
  rw [active_samples hrecent, activeCertificates_eq hdistinct]
  have hcount : (certs.countP fun cert => decide (float64 cert.before.unix ≤ float64 now.unix ∧
      float64 cert.after.unix > float64 now.unix)) =
        certs.countP fun cert => certCurrent cert now := by
    apply List.countP_congr
    intro cert hcert
    rw [decide_eq_true_eq]
    exact exact_certCurrent (hexact cert hcert) now
  rw [hcount]

/-- Half a second after the last second of one certificate and before that of another. -/
def sampleBundle : List Certificate :=
  [⟨0, 1700000000 * second, str "e"⟩, ⟨1600000000 * second, 1800000000 * second, str "f"⟩]

theorem active_count_current_sampleBundle :
    ((currentSamples (CollectorState.zero.record (bundleOutcome (str "n") (.ok sampleBundle)
        ⟨1699999999 * second, none⟩) ⟨1699999999 * second, none⟩)
        ⟨1700000000 * second + 500000000, none⟩).filter
          fun m => decide (m.name = .bundleActive)) =
            [⟨.bundleActive, [(str "node", str "n")], 1⟩] := by
  have hexact : ∀ cert ∈ sampleBundle, cert.Exact := by
    intro cert hcert
    simp only [sampleBundle, List.mem_cons, List.not_mem_nil, or_false] at hcert
    rcases hcert with rfl | rfl
    · exact ⟨0, 1700000000, by decide, rfl, by decide, by decide⟩
    · exact ⟨1600000000, 1800000000, rfl, rfl, by decide, by decide⟩
  rw [active_count_current .zero (str "n") sampleBundle (by decide) hexact _ _ _
    ⟨by decide, by decide⟩]
  decide

end RealmFormal.IdentityMetrics

import RealmFormal.Go.Lines
import RealmFormal.Go.Sha
import RealmFormal.IdentityMetrics.Admin
import RealmFormal.IdentityMetrics.Bundle
import RealmFormal.Lib.Grouping

/-!
# The exposition of a scrape

`metrics` writes the samples of a scrape metric by metric, for the metrics that have
a help text. What the collectors record never gives two samples one name and one set
of labels, for every result belongs to one collector, and within it the samples
differ by a node, a unit or a fingerprint that validation has made distinct.
-/

namespace RealmFormal.IdentityMetrics
open Go Lines
set_option autoImplicit false

/-! ## Writing -/

def metricHelp : List (Bytes × Bytes) :=
  [(str "realm_workload_svid_observation_success",
      str "One if this unit has a current successful observation. Ghostunnel " ++
      str "describes its status watch only."),
    (str "realm_workload_svid_dormant",
      str "One if the latest current systemctl result reports this unit inactive. No " ++
      str "certificate observation occurs."),
    (str "realm_workload_svid_last_attempt_timestamp_seconds",
      str "Unix time of the last completed observation attempt or dormant state read."),
    (str "realm_workload_svid_last_observed_timestamp_seconds",
      str "Unix time of the last successful public certificate observation, or zero."),
    (str "realm_workload_svid_observation_successes_total",
      str "Successful public certificate observations since process start."),
    (str "realm_workload_svid_observation_errors_total",
      str "Failed observation attempts since process start. Dormant units do not " ++
      str "count as errors."),
    (str "realm_workload_svid_not_before_seconds",
      str "Observed public leaf start of validity as Unix time. Source labels " ++
      str "identify the interface."),
    (str "realm_workload_svid_not_after_seconds",
      str "Observed public leaf expiry as Unix time. Ghostunnel status watches do not " ++
      str "prove business certificate state."),
    (str "realm_workload_svid_last_rotation_timestamp_seconds",
      str "Unix time when this process observed a change in the TLS peer leaf " ++
      str "fingerprint."),
    (str "realm_identity_collector_success",
      str "One if the latest collection succeeded and is fresh."),
    (str "realm_identity_collector_successes_total",
      str "Successful collections since process start."),
    (str "realm_identity_collector_errors_total",
      str "Failed collections since process start."),
    (str "realm_identity_collector_last_success_timestamp_seconds",
      str "Unix time of the last successful collection, or zero before success."),
    (str "realm_identity_collector_last_collection_timestamp_seconds",
      str "Unix time of the last completed collection, or zero before collection."),
    (str "realm_bootstrap_bundle_server_trust_valid",
      str "One if a fresh TLS 1.3 server handshake passed with the exact pinned " ++
      str "bundle and server SPIFFE ID."),
    (str "realm_bootstrap_bundle_certificates",
      str "Number of distinct CA certificates in the configured bundle."),
    (str "realm_bootstrap_bundle_active_valid_certificates",
      str "Number of bundle CA certificates within their validity period. This count " ++
      str "is not proof of server trust."),
    (str "realm_bootstrap_bundle_certificate_not_after_seconds",
      str "Public bundle CA expiration as Unix time."),
    (str "realm_bootstrap_bundle_certificate_not_before_seconds",
      str "Public bundle CA start of validity as Unix time."),
    (str "realm_identity_certificate_not_after_seconds",
      str "Certificate expiration as Unix time for the own canary or registered agent " ++
      str "metadata."),
    (str "realm_identity_certificate_not_before_seconds",
      str "Own canary certificate start of validity as Unix time."),
    (str "realm_identity_last_rotation_timestamp_seconds",
      str "Unix time when this process observed its canary certificate change. Absent " ++
      str "before a change."),
    (str "realm_spire_agent_metadata_valid",
      str "One if the expected http_fqdn agent has current metadata, is not banned, " ++
      str "and can reattest."),
    (str "realm_spire_alias_matches_expected",
      str "One if exactly one stable alias entry has the expected parent and SPIFFE " ++
      str "ID selector.")]

def metricNames : List Bytes := sortStrings (metricHelp.map Prod.fst)

def metricType (name : Bytes) : Bytes :=
  if hasSuffix name (str "_total") then str "counter" else str "gauge"

/-- What the printing takes from `strconv`: printable runes and the text of a float. -/
structure Strconv where
  isPrint : Nat → Bool
  formatFloat : Int → Bytes
  oneLine : ∀ value, OneLine (formatFloat value)

def labelText (conv : Strconv) (label : Bytes × Bytes) : Bytes :=
  label.1 ++ chr '=' :: quote conv.isPrint label.2

def writeSample (conv : Strconv) (m : Sample) : Bytes :=
  m.name.text ++
    (if m.labels.length > 0 then
      chr '\x7b' :: join (m.labels.map (labelText conv)) (chr ',') ++ [chr '\x7d'] else []) ++
    chr ' ' :: conv.formatFloat m.value ++ [chr '\n']

/-- The samples of one metric under its help text. -/
structure Family where
  name : Bytes
  samples : List Sample

def Family.header (f : Family) : Bytes :=
  str "# HELP " ++ f.name ++ chr ' ' :: (metricHelp.lookup f.name).getD [] ++ str "\n# TYPE " ++
    f.name ++ chr ' ' :: metricType f.name ++ [chr '\n']

def Exporter.families (e : Exporter) (now : Time) : List Family :=
  metricNames.map fun name =>
    ⟨name, (e.scrape now).filter fun m => decide (m.name.text = name)⟩

def Exporter.metrics (conv : Strconv) (e : Exporter) (now : Time) : Bytes :=
  (e.families now).flatMap fun f => f.header ++ f.samples.flatMap (writeSample conv)

/-- The samples that `metrics` writes, in their order. -/
def Exporter.written (e : Exporter) (now : Time) : List Sample :=
  (e.families now).flatMap Family.samples

/-! ## Nothing is dropped -/

def allMetrics : List Metric :=
  [.observationSuccess, .dormant, .lastAttempt, .lastObserved, .observationSuccesses,
    .observationErrors, .svidNotBefore, .svidNotAfter, .svidLastRotation, .collectorSuccess,
    .collectorSuccesses, .collectorErrors, .collectorLastSuccess, .collectorLastCollection,
    .serverTrust, .bundleCertificates, .bundleActive, .bundleNotAfter, .bundleNotBefore,
    .certificateNotAfter, .certificateNotBefore, .lastRotation, .agentValid, .aliasMatches]

theorem mem_allMetrics (m : Metric) : m ∈ allMetrics := by cases m <;> decide

/-- The keys of the help texts are the names of the metrics. -/
theorem metricHelp_keys : metricHelp.map Prod.fst = allMetrics.map Metric.text := by
  simp only [metricHelp, allMetrics, List.map_cons, List.map_nil, Metric.text]

/-- The bytes as the digits of a number. -/
def byteNumber (s : Bytes) : Nat := s.foldl (fun n b => n * 256 + b.toNat) 0

theorem texts_nodup : (allMetrics.map Metric.text).Nodup := by
  -- Numbers are computed once for each name, lists of bytes for each pair.
  have hnumbers : ((allMetrics.map Metric.text).map byteNumber).Nodup := by decide +kernel
  exact hnumbers.of_map

theorem text_injective {m n : Metric} (h : m.text = n.text) : m = n :=
  List.inj_on_of_nodup_map texts_nodup (mem_allMetrics m) (mem_allMetrics n) h

theorem metricNames_perm : metricNames.Perm (allMetrics.map Metric.text) := by
  rw [← metricHelp_keys]
  exact List.perm_insertionSort _ _

theorem written_perm (e : Exporter) (now : Time) : (e.written now).Perm (e.scrape now) := by
  have hwritten : e.written now =
      Grouping.grouped (fun m : Sample => m.name.text) metricNames (e.scrape now) := by
    rw [Exporter.written, Exporter.families, List.flatMap_map, Grouping.grouped]
  rw [hwritten]
  apply Grouping.grouped_perm (metricNames_perm.nodup_iff.mpr texts_nodup)
  intro m _
  exact metricNames_perm.mem_iff.mpr (List.mem_map_of_mem (mem_allMetrics m.name))

/-! ## Series -/

/-- What tells the lines of an exposition apart. -/
abbrev Series := Metric × List (Bytes × Bytes)

def Sample.series (m : Sample) : Series := (m.name, m.labels)

/-- The keys of the labels of a metric. -/
def schema : Metric → List Bytes
  | .observationSuccess | .dormant | .lastAttempt | .lastObserved | .observationSuccesses
  | .observationErrors | .svidNotBefore | .svidNotAfter | .svidLastRotation =>
    [str "node", str "unit", str "identity", str "source"]
  | .collectorSuccess | .collectorSuccesses | .collectorErrors | .collectorLastSuccess
  | .collectorLastCollection => [str "node", str "collector"]
  | .serverTrust | .bundleCertificates | .bundleActive | .agentValid | .aliasMatches => [str "node"]
  | .bundleNotAfter | .bundleNotBefore => [str "node", str "certificate"]
  | .certificateNotAfter | .certificateNotBefore | .lastRotation =>
    [str "node", str "kind", str "identity"]

theorem schema_nodup (m : Metric) : (schema m).Nodup := by cases m <;> decide

/-- The part of a scrape that a series comes from. -/
inductive Place where
  | holder
  | collector
  | result (name : Bytes)
  | trust
  deriving DecidableEq

/-- The certificates of the canary and of the agents have one metric and differ by kind. -/
def place (s : Series) : Place :=
  match s.1 with
  | .observationSuccess | .dormant | .lastAttempt | .lastObserved | .observationSuccesses
  | .observationErrors | .svidNotBefore | .svidNotAfter | .svidLastRotation => .holder
  | .collectorSuccess | .collectorSuccesses | .collectorErrors | .collectorLastSuccess
  | .collectorLastCollection => .collector
  | .serverTrust => .trust
  | .bundleCertificates | .bundleActive | .bundleNotAfter | .bundleNotBefore =>
    .result (str "bundle")
  | .certificateNotBefore | .lastRotation => .result (str "canary")
  | .certificateNotAfter =>
    if (str "kind", str "agent") ∈ s.2 then .result (str "agents") else .result (str "canary")
  | .agentValid => .result (str "agents")
  | .aliasMatches => .result (str "aliases")

theorem place_expiry (labels : List (Bytes × Bytes)) :
    place (.certificateNotAfter, labels) =
      if (str "kind", str "agent") ∈ labels then .result (str "agents")
      else .result (str "canary") := rfl

/-- The labels are those of the metric, and their values are written as they are. -/
structure Sample.Proper (m : Sample) : Prop where
  keys : m.labels.map Prod.fst = schema m.name
  values : ∀ l ∈ m.labels, Verbatim l.2

/-! ## Lines -/

/-- The lines of a text that are samples: all but the comments. -/
def sampleLines (text : Bytes) : List Bytes :=
  (Bufio.lines text).filter fun line => decide (line.head? ≠ some (chr '#'))

theorem text_oneLine (m : Metric) : OneLine m.text ∧ m.text.head? = some (chr 'r') := by
  cases m <;> exact ⟨oneLine_str rfl (by decide +kernel), head_str rfl⟩

theorem schema_oneLine (m : Metric) : ∀ key ∈ schema m, OneLine key := by
  cases m <;> decide

theorem help_oneLine (name : Bytes) : OneLine ((metricHelp.lookup name).getD []) := by
  have hall : ∀ help ∈ metricHelp, OneLine help.2 := by
    simp only [metricHelp, List.forall_mem_cons, List.not_mem_nil, false_implies, implies_true,
      and_true]
    and_intros
    all_goals
      first
      | with_reducible apply OneLine.append <;> exact oneLine_str rfl (by decide)
      | exact oneLine_str rfl (by decide)
  cases h : metricHelp.lookup name with
  | none => exact List.not_mem_nil
  | some help =>
    obtain ⟨before, after, hsplit, -⟩ := List.lookup_eq_some_iff.mp h
    exact hall (name, help) (hsplit ▸ List.mem_append_right _ List.mem_cons_self)

theorem metricType_oneLine (name : Bytes) : OneLine (metricType name) := by
  unfold metricType
  split <;> decide

theorem head_comment (s : Bytes) : decide ((chr '#' :: s).head? ≠ some (chr '#')) = false :=
  decide_eq_false (not_not_intro List.head?_cons)

theorem Family.header_comments {f : Family} (h : OneLine f.name) :
    PrintedAll (fun line => decide (line.head? ≠ some (chr '#')) = false) f.header := by
  have hhelp := help_oneLine f.name
  unfold Family.header
  generalize (metricHelp.lookup f.name).getD [] = help at hhelp ⊢
  have hfirst : OneLine (str "# HELP " ++ f.name ++ chr ' ' :: help) :=
    ((by decide : OneLine (str "# HELP ")).append h).append (.cons (by decide) hhelp)
  have hsecond : OneLine (str "# TYPE " ++ f.name ++ chr ' ' :: metricType f.name) :=
    ((by decide : OneLine (str "# TYPE ")).append h).append
      (.cons (by decide) (metricType_oneLine _))
  have hheader : str "# HELP " ++ f.name ++ chr ' ' :: help ++ str "\n# TYPE " ++ f.name ++
      chr ' ' :: metricType f.name ++ [chr '\n'] =
      (str "# HELP " ++ f.name ++ chr ' ' :: help ++ [10]) ++
        (str "# TYPE " ++ f.name ++ chr ' ' :: metricType f.name ++ [10]) := by
    have hbreak : str "\n# TYPE " = 10 :: str "# TYPE " := by decide
    have hend : chr '\n' = 10 := rfl
    rw [hbreak, hend]
    simp only [List.append_assoc, List.cons_append, List.nil_append]
  rw [hheader]
  exact (hfirst.printedAll (head_comment _)).append (hsecond.printedAll (head_comment _))

theorem Sample.Proper.labelText_oneLine (conv : Strconv) {m : Sample} (h : m.Proper) :
    ∀ l ∈ m.labels, OneLine (labelText conv l) := by
  intro l hl
  have hkey : l.1 ∈ schema m.name := h.keys ▸ List.mem_map_of_mem hl
  exact (schema_oneLine m.name l.1 hkey).append (.cons (by decide) (quote_oneLine _ _))

/-- The line of a sample with its labels as they are. -/
theorem Sample.Proper.writeSample_eq (conv : Strconv) {m : Sample} (h : m.Proper) :
    writeSample conv m = m.name.text ++ str "\x7b" ++
      join (m.labels.map fun l => l.1 ++ str "=\"" ++ l.2 ++ str "\"") (chr ',') ++ str "\x7d " ++
      conv.formatFloat m.value ++ str "\n" := by
  have hlabels : 0 < m.labels.length := by
    rw [← List.length_map (f := Prod.fst), h.keys]
    cases m.name <;> decide
  have htexts : m.labels.map (labelText conv) =
      m.labels.map fun l => l.1 ++ str "=\"" ++ l.2 ++ str "\"" := by
    refine List.map_congr_left ?_
    intro l hl
    rw [labelText, quote_verbatim conv.isPrint (h.values l hl)]
    simp [str, chr]
  rw [writeSample, if_pos hlabels, htexts]
  simp [str, chr]

theorem Sample.Proper.writeSample_printed (conv : Strconv) {m : Sample} (h : m.Proper) :
    Printed (writeSample conv m) [writeSample conv m] := by
  have hlabels : OneLine (join (m.labels.map (labelText conv)) (chr ',')) := by
    refine .join (by decide) ?_
    intro text htext
    obtain ⟨l, hl, rfl⟩ := List.mem_map.mp htext
    exact h.labelText_oneLine conv l hl
  refine OneLine.printed (((text_oneLine m.name).1.append ?_).append
    (.cons (by decide) (conv.oneLine m.value)))
  split
  · exact OneLine.append (.cons (by decide) hlabels) (by decide)
  · exact List.not_mem_nil

theorem head_writeSample (conv : Strconv) (m : Sample) :
    (writeSample conv m).head? = some (chr 'r') := by
  rw [writeSample, List.append_assoc, List.append_assoc, List.head?_append,
    (text_oneLine m.name).2, Option.some_or]

theorem Exporter.mem_families {e : Exporter} {now : Time} {f : Family} (h : f ∈ e.families now) :
    OneLine f.name ∧ ∀ m ∈ f.samples, m ∈ e.scrape now := by
  obtain ⟨name, hname, rfl⟩ := List.mem_map.mp h
  obtain ⟨metric, -, rfl⟩ := List.mem_map.mp (metricNames_perm.mem_iff.mp hname)
  exact ⟨(text_oneLine metric).1, fun m hm => List.mem_of_mem_filter hm⟩

/-- What is read from a scrape: one line for every sample that was written. -/
theorem Exporter.metrics_sampleLines (conv : Strconv) {e : Exporter} {now : Time}
    (h : ∀ m ∈ e.scrape now, m.Proper) :
    sampleLines (e.metrics conv now) = (e.written now).map (writeSample conv) := by
  rw [Exporter.written, List.map_flatMap]
  refine Selected.lines (.flatMap ?_)
  intro f hf
  obtain ⟨hname, hsamples⟩ := e.mem_families hf
  have hheader := (f.header_comments hname).selected_nil
  have hlines : Printed (f.samples.flatMap (writeSample conv))
      (f.samples.flatMap fun m => [writeSample conv m]) :=
    .flatMap fun m hm => (h m (hsamples m hm)).writeSample_printed conv
  rw [← List.map_eq_flatMap] at hlines
  refine hheader.append (hlines.selected ?_)
  intro line hline
  obtain ⟨m, -, rfl⟩ := List.mem_map.mp hline
  rw [head_writeSample]
  rfl

/-! ## Series of a scrape -/

/-- Two label lists are one set of labels. -/
def SameLabels (xs ys : List (Bytes × Bytes)) : Prop := ∀ l, l ∈ xs ↔ l ∈ ys

/-- With the same distinct keys in the same order, a set of labels is a list of labels. -/
theorem labels_ext {xs ys : List (Bytes × Bytes)} (hkeys : xs.map Prod.fst = ys.map Prod.fst)
    (hnodup : (xs.map Prod.fst).Nodup) (hsame : SameLabels xs ys) : xs = ys := by
  induction xs generalizing ys with
  | nil =>
    cases ys with
    | nil => rfl
    | cons y ys => cases hkeys
  | cons x xs ih =>
    cases ys with
    | nil => cases hkeys
    | cons y ys =>
      rw [List.map_cons, List.map_cons, List.cons.injEq] at hkeys
      rw [List.map_cons, List.nodup_cons] at hnodup
      have hheadNotMem : ∀ l ∈ xs, l.1 ≠ x.1 := fun l hl heq =>
        hnodup.1 (heq ▸ List.mem_map_of_mem hl)
      have hheadNotMem' : ∀ l ∈ ys, l.1 ≠ x.1 := fun l hl heq =>
        hnodup.1 (hkeys.2 ▸ heq ▸ List.mem_map_of_mem hl)
      have hhead : x = y := by
        rcases List.mem_cons.mp ((hsame x).mp List.mem_cons_self) with heq | hmem
        · exact heq
        · exact absurd rfl (hheadNotMem' x hmem)
      subst hhead
      congr 1
      refine ih hkeys.2 hnodup.2 ?_
      intro l
      constructor
      · intro hl
        rcases List.mem_cons.mp ((hsame l).mp (List.mem_cons_of_mem _ hl)) with rfl | hmem
        · exact absurd rfl (hheadNotMem l hl)
        · exact hmem
      · intro hl
        rcases List.mem_cons.mp ((hsame l).mpr (List.mem_cons_of_mem _ hl)) with rfl | hmem
        · exact absurd rfl (hheadNotMem' l hl)
        · exact hmem

/-- Samples with one name and one set of labels are of one series. -/
theorem series_eq {m n : Sample} (hm : m.Proper) (hn : n.Proper) (hname : m.name = n.name)
    (hlabels : SameLabels m.labels n.labels) : m.series = n.series := by
  have hkeys : m.labels.map Prod.fst = n.labels.map Prod.fst := by
    rw [hm.keys, hn.keys, hname]
  have hnodup : (m.labels.map Prod.fst).Nodup := by
    rw [hm.keys]
    exact schema_nodup m.name
  rw [Sample.series, Sample.series, hname, labels_ext hkeys hnodup hlabels]

/-- Blocks of samples with distinct metrics that differ by the value of one label. -/
theorem nodup_blocks {A : Type} {xs : List A} {block : A → List Sample} (key : Bytes)
    (value : A → Bytes) (hvalues : (xs.map value).Nodup)
    (hnames : ∀ x ∈ xs, ((block x).map Sample.name).Nodup)
    (hlabel : ∀ x ∈ xs, ∀ m ∈ block x, m.label key = value x) :
    ((xs.flatMap block).map Sample.series).Nodup := by
  rw [List.map_flatMap, List.nodup_flatMap]
  constructor
  · intro x hx
    have hnodup : (((block x).map Sample.series).map Prod.fst).Nodup := by
      rw [List.map_map]
      exact hnames x hx
    exact hnodup.of_map
  · have hpairwise := List.pairwise_map.mp hvalues
    refine hpairwise.imp_of_mem ?_
    intro x y hx hy hne s hs ht
    obtain ⟨m, hm, hms⟩ := List.mem_map.mp hs
    obtain ⟨n, hn, hns⟩ := List.mem_map.mp ht
    have hlabels : m.labels = n.labels := congrArg Prod.snd (hms.trans hns.symm)
    have hsame : m.label key = n.label key := by
      rw [Sample.label, Sample.label, hlabels]
    rw [hlabel x hx m hm, hlabel y hy n hn] at hsame
    exact hne hsame

end RealmFormal.IdentityMetrics

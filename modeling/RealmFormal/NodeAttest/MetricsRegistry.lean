import RealmFormal.Go.Seconds
import RealmFormal.Lib.Tally
import RealmFormal.Lib.Transition
import RealmFormal.NodeAttest.Metrics

/-!
# The metrics registry

`metricsRegistry` with all its maps. Every method holds the lock of the registry
from its first read to its last write, so a run is a list of calls. What the maps
hold is compared with the log of the observations: the labels under which a call of
`record` was counted, and its duration in seconds.
-/

namespace RealmFormal.NodeAttest
open Go Transition
set_option autoImplicit false

/-! ## Vocabulary -/

def Stage.text : Stage → Bytes
  | .start => str "start"
  | .payload => str "payload"
  | .challenge => str "challenge"
  | .publish => str "publish"
  | .response => str "response"
  | .fetch => str "fetch"
  | .verify => str "verify"
  | .quota => str "quota"
  | .attributes => str "attributes"
  | .public => str "public"
  | .control => str "control"

def Reason.text : Reason → Bytes
  | .internal => str "internal"
  | .notConfigured => str "not_configured"
  | .invalidPayload => str "invalid_payload"
  | .unknownNode => str "unknown_node"
  | .invalidKey => str "invalid_key"
  | .capacity => str "capacity"
  | .streamError => str "stream_error"
  | .noChallenge => str "no_challenge"
  | .invalidChallenge => str "invalid_challenge"
  | .publishFailed => str "publish_failed"
  | .invalidResponse => str "invalid_response"
  | .expired => str "expired"
  | .endpointFailed => str "endpoint_failed"
  | .invalidProof => str "invalid_proof"
  | .sessionEnded => str "session_ended"
  | .rateLimit => str "rate_limit"
  | .invalidResult => str "invalid_result"
  | .attributesSent => str "attributes_sent"
  | .proofSubmitted => str "proof_submitted"
  | .canceled => str "canceled"
  | .deadline => str "deadline"
  | .method => str "method"
  | .invalidRequest => str "invalid_request"
  | .notFound => str "not_found"
  | .peerDenied => str "peer_denied"
  | .invalidSize => str "invalid_size"
  | .proofServed => str "proof_served"
  | .proofPublished => str "proof_published"
  | .proofDeleted => str "proof_deleted"
  | .writeFailed => str "write_failed"

def Outcome.text : Outcome → Bytes
  | .success => str "success"
  | .failure => str "failure"
  | .skipped => str "skipped"

def ProofAction.text : ProofAction → Bytes
  | .published => str "published"
  | .deleted => str "deleted"
  | .expired => str "expired"

def stages : List Bytes :=
  [Stage.start, .payload, .challenge, .publish, .response, .fetch, .verify, .quota, .attributes,
    .public, .control].map Stage.text

def reasons : List Bytes :=
  [Reason.internal, .notConfigured, .invalidPayload, .unknownNode, .invalidKey, .capacity,
    .streamError, .noChallenge, .invalidChallenge, .publishFailed, .invalidResponse, .expired,
    .endpointFailed, .invalidProof, .sessionEnded, .rateLimit, .invalidResult, .attributesSent,
    .proofSubmitted, .canceled, .deadline, .method, .invalidRequest, .notFound, .peerDenied,
    .invalidSize, .proofServed, .proofPublished, .proofDeleted, .writeFailed].map Reason.text

def outcomes : List Bytes := [Outcome.success, .failure, .skipped].map Outcome.text

def proofActions : List Bytes := [ProofAction.published, .deleted, .expired].map ProofAction.text

def bounded (value : Bytes) (allowed : List Bytes) (fallback : Bytes) : Bytes :=
  if value ∈ allowed then value else fallback

/-! ## Histograms -/

/-- The bounds as they stand in the source, in hundredths. -/
def bucketHundredths : List.Vector Nat 11 :=
  ⟨[1, 5, 10, 50, 100, 250, 500, 1000, 3000, 6000, 12000], rfl⟩

def durationBuckets (i : Fin 11) : Rat := float64Rat (mkRat (bucketHundredths.get i : Nat) 100)

structure DurationMetric where
  count : UInt64
  sum : Rat
  buckets : Fin 11 → UInt64

def DurationMetric.zero : DurationMetric := ⟨0, 0, fun _ => 0⟩

/-- One duration; the bucket of every bound that is not below it counts it. -/
def DurationMetric.observe (h : DurationMetric) (seconds : Rat) : DurationMetric where
  count := h.count + 1
  sum := float64Rat (h.sum + seconds)
  buckets i := if seconds ≤ durationBuckets i then h.buckets i + 1 else h.buckets i

/-! ## The registry -/

inductive Component where
  | agent | server | responder
  deriving DecidableEq

def Component.text : Component → Bytes
  | .agent => str "agent"
  | .server => str "server"
  | .responder => str "responder"

structure MetricLabels where
  node : Bytes
  outcome : Bytes
  stage : Bytes
  reason : Bytes
  deriving DecidableEq

structure DurationLabels where
  node : Bytes
  outcome : Bytes
  deriving DecidableEq

def MetricLabels.durationLabels (k : MetricLabels) : DurationLabels := ⟨k.node, k.outcome⟩

structure MetricsRegistry where
  component : Component
  nodes : List Bytes
  totals : Table MetricLabels UInt64
  durations : Table DurationLabels DurationMetric
  lastSuccess : Table Bytes Rat
  pending : Table Bytes Int64
  capacity : Int
  proofs : Table Bytes UInt64

namespace MetricsRegistry

/-- `newMetrics` -/
def new (component : Component) : MetricsRegistry :=
  ⟨component, [unknownNode], .empty, .empty, .empty, .empty, 0, .empty⟩

def registerNode (m : MetricsRegistry) (node : Bytes) : MetricsRegistry :=
  let m := { m with nodes := if node ∈ m.nodes then m.nodes else node :: m.nodes }
  match m.lastSuccess.get node with
  | some _ => m
  | none =>
    { m with lastSuccess := m.lastSuccess.put node 0, pending := m.pending.put node 0 }

def register (m : MetricsRegistry) (nodes : List Bytes) : MetricsRegistry :=
  nodes.foldl registerNode m

def nodeLocked (m : MetricsRegistry) (node : Bytes) : Bytes :=
  if node ∈ m.nodes then node else unknownNode

def pendingAdd (m : MetricsRegistry) (node : Bytes) (delta : Int64) : MetricsRegistry :=
  let node := m.nodeLocked node
  { m with pending := m.pending.put node ((m.pending.get node).getD 0 + delta) }

def proof (m : MetricsRegistry) (action : Bytes) : MetricsRegistry :=
  if action ∈ proofActions then { m with proofs := Tally.bump m.proofs action } else m

/-- The labels under which `record` counts. -/
def labels (m : MetricsRegistry) (node outcome stage reason : Bytes) : MetricLabels :=
  ⟨m.nodeLocked node, bounded outcome outcomes Outcome.failure.text,
    bounded stage stages Stage.start.text, bounded reason reasons Reason.internal.text⟩

/-- `max(0, duration.Seconds())` -/
def seconds (duration : Int) : Rat := max 0 (durationSeconds duration)

/-- `record`; `duration` is in nanoseconds and `now` the time in nanoseconds. -/
def record (m : MetricsRegistry) (node outcome stage reason : Bytes) (duration now : Int) :
    MetricsRegistry :=
  let k := m.labels node outcome stage reason
  let h := (m.durations.get k.durationLabels).getD .zero
  { m with
    totals := Tally.bump m.totals k
    durations := m.durations.put k.durationLabels (h.observe (seconds duration))
    lastSuccess :=
      if k.outcome = Outcome.success.text ∧
          (m.component ≠ .responder ∨ k.reason = Reason.proofServed.text) then
        m.lastSuccess.put k.node (unixSeconds now)
      else m.lastSuccess }

end MetricsRegistry

/-- A call of a method. `scrape` is `ServeHTTP`, which only reads. -/
inductive MetricsCall where
  | register (nodes : List Bytes)
  | record (node outcome stage reason : Bytes) (duration now : Int)
  | pendingAdd (node : Bytes) (delta : Int64)
  | proof (action : Bytes)
  | scrape

namespace MetricsRegistry

def step (m : MetricsRegistry) : MetricsCall → Option MetricsRegistry
  | .register nodes => some (m.register nodes)
  | .record node outcome stage reason duration now =>
    some (m.record node outcome stage reason duration now)
  | .pendingAdd node delta => some (m.pendingAdd node delta)
  | .proof action => some (m.proof action)
  | .scrape => some m

/-- Every call can be made in every state. -/
theorem exec_exists (m : MetricsRegistry) (calls : List MetricsCall) :
    ∃ m', exec step m calls = some m' := by
  induction calls generalizing m with
  | nil => exact ⟨m, rfl⟩
  | cons c calls ih =>
    have hstep : ∃ next, m.step c = some next := by
      cases c <;> exact ⟨_, rfl⟩
    obtain ⟨next, hnext⟩ := hstep
    obtain ⟨m', hm'⟩ := ih next
    exact ⟨m', exec_cons_iff.mpr ⟨next, hnext, hm'⟩⟩

/-! ## The log of observations -/

structure Observation where
  labels : MetricLabels
  seconds : Rat

def observation (m : MetricsRegistry) : MetricsCall → Option Observation
  | .record node outcome stage reason duration _ =>
    some ⟨m.labels node outcome stage reason, seconds duration⟩
  | _ => none

/-- What a run has observed. -/
def log (component : Component) (calls : List MetricsCall) : List Observation :=
  trace step observation (new component) calls

/-- The durations observed under the labels of a histogram. -/
def durationsOf (log : List Observation) (k : DurationLabels) : List Rat :=
  (log.filter fun o => decide (o.labels.durationLabels = k)).map Observation.seconds

/-- The histogram of some durations. -/
def histogram (durations : List Rat) : Option DurationMetric :=
  if durations = [] then none else some (durations.foldl DurationMetric.observe .zero)

/-- A name that some call has registered. -/
def Registered (past : List MetricsCall) (node : Bytes) : Prop :=
  ∃ nodes, .register nodes ∈ past ∧ node ∈ nodes

/-- The maps summarise the log, under labels of registered nodes and of the vocabulary. -/
structure Summary (past : List MetricsCall) (log : List Observation) (m : MetricsRegistry) :
    Prop where
  known : unknownNode ∈ m.nodes
  nodes : ∀ node ∈ m.nodes, node = unknownNode ∨ Registered past node
  labels : ∀ o ∈ log, o.labels.node ∈ m.nodes ∧ o.labels.outcome ∈ outcomes ∧
    o.labels.stage ∈ stages ∧ o.labels.reason ∈ reasons
  totals : Tally.Counts m.totals (log.map Observation.labels)
  durations : ∀ k, m.durations.get k = histogram (durationsOf log k)
  pending : ∀ node n, m.pending.get node = some n → node ∈ m.nodes

/-! ## One call -/

section Calls
variable {m : MetricsRegistry} {past : List MetricsCall} {l : List Observation}

/-- `register` adds labels and writes no counter. -/
structure Widened (m : MetricsRegistry) (names : List Bytes) (m' : MetricsRegistry) : Prop where
  component : m'.component = m.component
  nodes : ∀ x, x ∈ m'.nodes ↔ x ∈ m.nodes ∨ x ∈ names
  totals : m'.totals = m.totals
  durations : m'.durations = m.durations
  pending : ∀ x n, m'.pending.get x = some n → x ∈ names ∨ ∃ k, m.pending.get x = some k

theorem mem_addNode (nodes : List Bytes) (node x : Bytes) :
    x ∈ (if node ∈ nodes then nodes else node :: nodes) ↔ x = node ∨ x ∈ nodes := by
  split
  · rename_i hmem
    constructor
    · exact Or.inr
    · rintro (rfl | hx)
      · exact hmem
      · exact hx
  · exact List.mem_cons

theorem registerNode_widened (m : MetricsRegistry) (node : Bytes) :
    Widened m [node] (m.registerNode node) := by
  have hnodes : ∀ x, x ∈ (if node ∈ m.nodes then m.nodes else node :: m.nodes) ↔
      x ∈ m.nodes ∨ x ∈ [node] := by
    intro x
    rw [mem_addNode, List.mem_singleton, or_comm]
  unfold registerNode
  dsimp only
  split
  · exact ⟨rfl, hnodes, rfl, rfl, fun x n hn => Or.inr ⟨n, hn⟩⟩
  · refine ⟨rfl, hnodes, rfl, rfl, ?_⟩
    intro x n hn
    dsimp only at hn
    rw [Table.get_put] at hn
    split at hn
    · rename_i hx
      exact Or.inl (List.mem_singleton.mpr hx)
    · exact Or.inr ⟨n, hn⟩

theorem register_widened (m : MetricsRegistry) (nodes : List Bytes) :
    Widened m nodes (m.register nodes) := by
  unfold register
  induction nodes generalizing m with
  | nil => exact ⟨rfl, by simp, rfl, rfl, fun x n hn => Or.inr ⟨n, hn⟩⟩
  | cons node nodes ih =>
    have hfirst := registerNode_widened m node
    have hrest := ih (m.registerNode node)
    refine ⟨?_, ?_, ?_, ?_, ?_⟩
    · exact hrest.component.trans hfirst.component
    · intro x
      rw [List.foldl_cons, hrest.nodes, hfirst.nodes, List.mem_singleton, List.mem_cons, or_assoc]
    · exact hrest.totals.trans hfirst.totals
    · exact hrest.durations.trans hfirst.durations
    · intro x n hn
      rcases hrest.pending x n hn with hx | ⟨k, hk⟩
      · exact Or.inl (List.mem_cons_of_mem node hx)
      · rcases hfirst.pending x k hk with hx | hold
        · rw [List.mem_singleton] at hx
          exact Or.inl (hx ▸ List.mem_cons_self)
        · exact Or.inr hold

theorem bounded_mem {value fallback : Bytes} {allowed : List Bytes} (h : fallback ∈ allowed) :
    bounded value allowed fallback ∈ allowed := by
  unfold bounded
  split
  · assumption
  · exact h

theorem nodeLocked_mem (h : unknownNode ∈ m.nodes) (node : Bytes) : m.nodeLocked node ∈ m.nodes := by
  unfold nodeLocked
  split
  · assumption
  · exact h

theorem labels_bounded (h : unknownNode ∈ m.nodes) (node outcome stage reason : Bytes) :
    (m.labels node outcome stage reason).node ∈ m.nodes ∧
      (m.labels node outcome stage reason).outcome ∈ outcomes ∧
      (m.labels node outcome stage reason).stage ∈ stages ∧
      (m.labels node outcome stage reason).reason ∈ reasons := by
  refine ⟨nodeLocked_mem h node, bounded_mem ?_, bounded_mem ?_, bounded_mem ?_⟩
  · exact List.mem_map_of_mem (by decide)
  · exact List.mem_map_of_mem (by decide)
  · exact List.mem_map_of_mem (by decide)

theorem histogram_concat (durations : List Rat) (d : Rat) :
    histogram (durations ++ [d]) = some (((histogram durations).getD .zero).observe d) := by
  unfold histogram
  rw [if_neg (by simp), List.foldl_append]
  split
  · rename_i hnil
    rw [hnil]
    rfl
  · rfl

theorem durationsOf_concat (l : List Observation) (o : Observation) (k : DurationLabels) :
    durationsOf (l ++ [o]) k =
      if o.labels.durationLabels = k then durationsOf l k ++ [o.seconds] else durationsOf l k := by
  unfold durationsOf
  rw [List.filter_append, List.map_append]
  split
  · rename_i hk
    simp [hk]
  · rename_i hk
    simp [hk]

theorem registered_concat {c : MetricsCall} {node : Bytes} (h : Registered past node) :
    Registered (past ++ [c]) node := by
  obtain ⟨nodes, hcall, hnode⟩ := h
  exact ⟨nodes, List.mem_append_left _ hcall, hnode⟩

theorem known_concat (c : MetricsCall)
    (h : ∀ node ∈ m.nodes, node = unknownNode ∨ Registered past node) :
    ∀ node ∈ m.nodes, node = unknownNode ∨ Registered (past ++ [c]) node := by
  intro node hnode
  exact (h node hnode).imp_right registered_concat

theorem Summary.register (h : Summary past l m) (nodes : List Bytes) :
    Summary (past ++ [.register nodes]) l (m.register nodes) := by
  have hwide := register_widened m nodes
  refine ⟨(hwide.nodes _).mpr (Or.inl h.known), ?_, ?_, ?_, ?_, ?_⟩
  · intro node hnode
    rcases (hwide.nodes node).mp hnode with hold | hnew
    · exact known_concat _ h.nodes node hold
    · exact Or.inr ⟨nodes, List.mem_append_right _ List.mem_cons_self, hnew⟩
  · intro o ho
    obtain ⟨hnode, hrest⟩ := h.labels o ho
    exact ⟨(hwide.nodes _).mpr (Or.inl hnode), hrest⟩
  · rw [hwide.totals]
    exact h.totals
  · rw [hwide.durations]
    exact h.durations
  · intro node n hn
    rcases hwide.pending node n hn with hnew | ⟨k, hk⟩
    · exact (hwide.nodes node).mpr (Or.inr hnew)
    · exact (hwide.nodes node).mpr (Or.inl (h.pending node k hk))

theorem Summary.record (h : Summary past l m) (node outcome stage reason : Bytes)
    (duration now : Int) :
    Summary (past ++ [.record node outcome stage reason duration now])
      (l ++ [⟨m.labels node outcome stage reason, seconds duration⟩])
      (m.record node outcome stage reason duration now) := by
  refine ⟨h.known, known_concat _ h.nodes, ?_, ?_, ?_, h.pending⟩
  · intro o ho
    rcases List.mem_append.mp ho with ho | ho
    · exact h.labels o ho
    · cases List.mem_singleton.mp ho
      exact labels_bounded h.known node outcome stage reason
  · rw [List.map_append]
    exact h.totals.bump _
  · intro k
    show (m.durations.put _ _).get k = _
    rw [Table.get_put, durationsOf_concat, h.durations]
    by_cases hk : (m.labels node outcome stage reason).durationLabels = k
    · subst hk
      rw [if_pos rfl, if_pos rfl, histogram_concat]
    · rw [if_neg hk, if_neg (Ne.symm hk), h.durations]

theorem Summary.pendingAdd (h : Summary past l m) (node : Bytes) (delta : Int64) :
    Summary (past ++ [.pendingAdd node delta]) l (m.pendingAdd node delta) := by
  refine ⟨h.known, known_concat _ h.nodes, h.labels, h.totals, h.durations, ?_⟩
  intro x n hn
  dsimp only [MetricsRegistry.pendingAdd] at hn
  rw [Table.get_put] at hn
  split at hn
  · rename_i hx
    rw [hx]
    exact nodeLocked_mem h.known node
  · exact h.pending x n hn

theorem Summary.proof (h : Summary past l m) (action : Bytes) :
    Summary (past ++ [.proof action]) l (m.proof action) := by
  unfold MetricsRegistry.proof
  split
  · exact ⟨h.known, known_concat _ h.nodes, h.labels, h.totals, h.durations, h.pending⟩
  · exact ⟨h.known, known_concat _ h.nodes, h.labels, h.totals, h.durations, h.pending⟩

theorem log_unchanged {c : MetricsCall} (h : m.observation c = none) :
    l ++ (m.observation c).toList = l := by
  rw [h, Option.toList_none, List.append_nil]

theorem Summary.step {m' : MetricsRegistry} {c : MetricsCall} (h : Summary past l m)
    (hstep : m.step c = some m') :
    Summary (past ++ [c]) (l ++ (m.observation c).toList) m' := by
  cases c with
  | register nodes =>
    cases hstep
    rw [log_unchanged rfl]
    exact h.register nodes
  | record node outcome stage reason duration now =>
    cases hstep
    exact h.record node outcome stage reason duration now
  | pendingAdd node delta =>
    cases hstep
    rw [log_unchanged rfl]
    exact h.pendingAdd node delta
  | proof action =>
    cases hstep
    rw [log_unchanged rfl]
    exact h.proof action
  | scrape =>
    cases hstep
    rw [log_unchanged rfl]
    exact ⟨h.known, known_concat _ h.nodes, h.labels, h.totals, h.durations, h.pending⟩

theorem Summary.new (component : Component) : Summary [] [] (new component) := by
  refine ⟨List.mem_cons_self, ?_, List.forall_mem_nil _, Tally.counts_empty, fun _ => rfl, ?_⟩
  · intro node hnode
    exact Or.inl (List.mem_singleton.mp hnode)
  · intro node n hn
    cases hn

end Calls

/-- After every run the maps summarise its log. -/
theorem run_summary {component : Component} {calls : List MetricsCall} {m : MetricsRegistry}
    (h : exec step (new component) calls = some m) : Summary calls (log component calls) m := by
  refine exec_history (P := fun past m => Summary past (log component past) m)
    (Summary.new component) ?_ h
  intro past m c m' hpast hsummary hstep
  rw [log, trace_concat _ hpast]
  exact hsummary.step hstep

/-! ## Counters of a histogram -/

theorem count_foldl_observe (durations : List Rat) (h : DurationMetric) :
    (durations.foldl DurationMetric.observe h).count = h.count + UInt64.ofNat durations.length := by
  induction durations generalizing h with
  | nil => simp
  | cons d durations ih =>
    rw [List.foldl_cons, ih, List.length_cons, UInt64.ofNat_add]
    show h.count + 1 + _ = _
    rw [UInt64.add_assoc, UInt64.add_comm 1]
    rfl

theorem buckets_foldl_observe (durations : List Rat) (h : DurationMetric) (i : Fin 11) :
    (durations.foldl DurationMetric.observe h).buckets i =
      h.buckets i + UInt64.ofNat (durations.countP fun d => decide (d ≤ durationBuckets i)) := by
  induction durations generalizing h with
  | nil => simp
  | cons d durations ih =>
    rw [List.foldl_cons, ih, List.countP_cons, UInt64.ofNat_add]
    show (if d ≤ durationBuckets i then h.buckets i + 1 else h.buckets i) + _ = _
    by_cases hd : d ≤ durationBuckets i
    · simp only [hd, if_true, decide_true]
      rw [UInt64.add_assoc, UInt64.add_comm 1]
      rfl
    · simp [hd]

theorem durationBuckets_mono : ∀ i j : Fin 11, i ≤ j → durationBuckets i ≤ durationBuckets j := by
  decide +kernel

theorem histogram_eq_some {durations : List Rat} {h : DurationMetric}
    (hist : histogram durations = some h) :
    h.count = UInt64.ofNat durations.length ∧
      ∀ i, h.buckets i = UInt64.ofNat (durations.countP fun d => decide (d ≤ durationBuckets i)) := by
  obtain ⟨-, heq⟩ := Option.ite_none_left_eq_some.mp hist
  cases heq
  refine ⟨?_, fun i => ?_⟩
  · rw [count_foldl_observe]
    exact UInt64.zero_add _
  · rw [buckets_foldl_observe]
    exact UInt64.zero_add _

theorem ofNat_le_ofNat {a b : Nat} (h : a ≤ b) (hb : b < UInt64.size) :
    UInt64.ofNat a ≤ UInt64.ofNat b := by
  rw [UInt64.le_iff_toNat_le, UInt64.toNat_ofNat_of_lt' (Nat.lt_of_le_of_lt h hb),
    UInt64.toNat_ofNat_of_lt' hb]
  exact h

/-- Without overflow the buckets are cumulative. -/
theorem buckets_cumulative {durations : List Rat} {h : DurationMetric}
    (hist : histogram durations = some h) (hlt : durations.length < UInt64.size) :
    (∀ i j, i ≤ j → h.buckets i ≤ h.buckets j) ∧ ∀ i, h.buckets i ≤ h.count := by
  obtain ⟨hcount, hbuckets⟩ := histogram_eq_some hist
  have hle : ∀ i, durations.countP (fun d => decide (d ≤ durationBuckets i)) < UInt64.size :=
    fun i => Nat.lt_of_le_of_lt List.countP_le_length hlt
  refine ⟨fun i j hij => ?_, fun i => ?_⟩
  · rw [hbuckets, hbuckets]
    refine ofNat_le_ofNat (List.countP_mono_left ?_) (hle j)
    intro d _ hd
    exact decide_eq_true (le_trans (of_decide_eq_true hd) (durationBuckets_mono i j hij))
  · rw [hbuckets, hcount]
    exact ofNat_le_ofNat List.countP_le_length hlt

/-! ## Totals and histograms -/

/-- The totals of a node and an outcome, over all stages and reasons. -/
def totalsOf (m : MetricsRegistry) (k : DurationLabels) : List Nat :=
  (m.totals.entries.filter fun e => decide (e.1.durationLabels = k)).map fun e => e.2.toNat

/-- The count of a histogram, which is zero before the first observation. -/
def countOf (m : MetricsRegistry) (k : DurationLabels) : UInt64 :=
  (m.durations.get k).elim 0 DurationMetric.count

section Totals
variable {m : MetricsRegistry} {past : List MetricsCall} {l : List Observation}

theorem length_durationsOf (l : List Observation) (k : DurationLabels) :
    (durationsOf l k).length =
      (l.map Observation.labels).countP fun x => decide (x.durationLabels = k) := by
  rw [durationsOf, List.length_map, ← List.countP_eq_length_filter, List.countP_map]
  rfl

theorem Summary.countOf (h : Summary past l m) (k : DurationLabels) :
    m.countOf k = UInt64.ofNat (durationsOf l k).length := by
  rw [MetricsRegistry.countOf, h.durations]
  cases hist : histogram (durationsOf l k) with
  | none =>
    unfold histogram at hist
    split at hist
    · rename_i hnil
      rw [hnil]
      rfl
    · cases hist
  | some d => exact (histogram_eq_some hist).1

theorem Summary.totals_mod (h : Summary past l m) (k : DurationLabels) :
    (m.totalsOf k).sum % UInt64.size = (m.countOf k).toNat := by
  rw [totalsOf, h.totals.sum fun x => decide (x.durationLabels = k), h.countOf, length_durationsOf]
  rfl

theorem Summary.totals_eq (h : Summary past l m) {k : DurationLabels}
    (hlt : (durationsOf l k).length < UInt64.size) : (m.totalsOf k).sum = (m.countOf k).toNat := by
  rw [h.countOf, UInt64.toNat_ofNat_of_lt' hlt]
  rw [length_durationsOf] at hlt ⊢
  exact h.totals.sum_of_lt hlt

theorem Summary.total_labels (h : Summary past l m) {k : MetricLabels} {n : UInt64}
    (hk : m.totals.get k = some n) :
    (k.node = unknownNode ∨ Registered past k.node) ∧ k.outcome ∈ outcomes ∧ k.stage ∈ stages ∧
      k.reason ∈ reasons := by
  obtain ⟨o, ho, rfl⟩ := List.mem_map.mp (h.totals.mem_keys hk)
  obtain ⟨hnode, hrest⟩ := h.labels o ho
  exact ⟨h.nodes _ hnode, hrest⟩

theorem Summary.duration_labels (h : Summary past l m) {k : DurationLabels} {d : DurationMetric}
    (hk : m.durations.get k = some d) :
    (k.node = unknownNode ∨ Registered past k.node) ∧ k.outcome ∈ outcomes := by
  rw [h.durations] at hk
  obtain ⟨hne, -⟩ := Option.ite_none_left_eq_some.mp hk
  obtain ⟨d, hd⟩ := List.exists_mem_of_ne_nil _ hne
  obtain ⟨o, ho, -⟩ := List.mem_map.mp hd
  obtain ⟨ho, hkey⟩ := List.mem_filter.mp ho
  obtain ⟨hnode, houtcome, -⟩ := h.labels o ho
  have heq : o.labels.durationLabels = k := of_decide_eq_true hkey
  subst heq
  exact ⟨h.nodes _ hnode, houtcome⟩

end Totals

/-! ## The gauges -/

/-- The gauges that the server and the responder keep are those of the registry, up to the size
of its integers. -/
structure Shows (m : MetricsRegistry) (g : Metrics) : Prop where
  nodes : ∀ x, x ∈ m.nodes ↔ x ∈ g.nodes
  stamped : ∀ x, (m.lastSuccess.get x).isSome ↔ x ∈ g.stamped
  pending : ∀ x, (m.pending.get x).getD 0 = Int64.ofInt (g.pending x)
  proofs : ∀ a : ProofAction, (m.proofs.get a.text).getD 0 = UInt64.ofNat (g.proofs a)

section Gauges
variable {m : MetricsRegistry} {g : Metrics}

theorem shows_new (component : Component) : Shows (new component) newMetrics :=
  ⟨fun _ => Iff.rfl, fun _ => by simp [new, newMetrics], fun _ => rfl, fun _ => rfl⟩

theorem Shows.nodeLocked (h : Shows m g) (node : Bytes) : m.nodeLocked node = g.nodeLocked node := by
  unfold MetricsRegistry.nodeLocked Metrics.nodeLocked
  rw [if_congr (h.nodes node) rfl rfl]

theorem Shows.stamped_put (h : Shows m g) (node : Bytes) (stamp : Rat) (x : Bytes) :
    ((m.lastSuccess.put node stamp).get x).isSome ↔ x ∈ node :: g.stamped := by
  rw [Table.get_put, List.mem_cons, ← h.stamped]
  by_cases hx : x = node
  · rw [if_pos hx]
    exact iff_of_true rfl (Or.inl hx)
  · rw [if_neg hx, or_iff_right hx]

theorem Shows.registerNode (h : Shows m g) (node : Bytes) :
    Shows (m.registerNode node) (g.register node) := by
  have hnodes : ∀ x, x ∈ (if node ∈ m.nodes then m.nodes else node :: m.nodes) ↔
      x ∈ node :: g.nodes := by
    intro x
    rw [mem_addNode, List.mem_cons, ← h.nodes]
  unfold MetricsRegistry.registerNode Metrics.register
  dsimp only
  split
  · rename_i stamp hstamp
    rw [if_pos ((h.stamped node).mp (Option.isSome_of_eq_some hstamp))]
    exact ⟨hnodes, h.stamped, h.pending, h.proofs⟩
  · rename_i hstamp
    have hnot : ¬ node ∈ g.stamped := by
      rw [← h.stamped, hstamp]
      simp
    rw [if_neg hnot]
    refine ⟨hnodes, h.stamped_put node 0, ?_, h.proofs⟩
    · intro x
      show ((m.pending.put node 0).get x).getD 0 = Int64.ofInt (Function.update g.pending node 0 x)
      rw [Table.get_put, Function.update_apply]
      split
      · rfl
      · exact h.pending x

theorem Shows.pendingAdd (h : Shows m g) (node : Bytes) (delta : Int) :
    Shows (m.pendingAdd node (Int64.ofInt delta)) (g.pendingAdd node delta) := by
  refine ⟨h.nodes, h.stamped, ?_, h.proofs⟩
  intro x
  show ((m.pending.put _ _).get x).getD 0 = Int64.ofInt (Function.update g.pending
    (g.nodeLocked node) (g.pending (g.nodeLocked node) + delta) x)
  rw [Table.get_put, Function.update_apply, h.nodeLocked]
  split
  · rw [Option.getD_some, h.pending, Int64.ofInt_add]
  · exact h.pending x

theorem proofAction_text_injective {a b : ProofAction} (h : a.text = b.text) : a = b := by
  revert h
  cases a <;> cases b <;> decide

theorem Shows.proof (h : Shows m g) (action : ProofAction) :
    Shows (m.proof action.text) (g.proof action) := by
  have hmem : action.text ∈ proofActions := List.mem_map_of_mem (by cases action <;> decide)
  unfold MetricsRegistry.proof
  rw [if_pos hmem]
  refine ⟨h.nodes, h.stamped, h.pending, ?_⟩
  intro a
  show ((Tally.bump m.proofs action.text).get a.text).getD 0 = _
  rw [Tally.bump, Table.get_put]
  by_cases ha : a = action
  · subst ha
    rw [if_pos rfl, Option.getD_some, h.proofs, Metrics.proofs_proof_self, UInt64.ofNat_add]
    rfl
  · rw [if_neg fun htext => ha (proofAction_text_injective htext), h.proofs,
      Metrics.proofs_proof_of_ne g ha]

theorem bounded_outcome (outcome : Outcome) :
    bounded outcome.text outcomes Outcome.failure.text = outcome.text :=
  if_pos (List.mem_map_of_mem (by cases outcome <;> decide))

theorem outcome_text_success (outcome : Outcome) :
    outcome.text = Outcome.success.text ↔ outcome = .success := by
  cases outcome <;> decide

theorem bounded_proofServed (reason : Bytes) :
    bounded reason reasons Reason.internal.text = Reason.proofServed.text ↔
      reason = Reason.proofServed.text := by
  unfold bounded
  split
  · rfl
  · rename_i hunknown
    refine iff_of_false (by decide) ?_
    rintro rfl
    exact hunknown (List.mem_map_of_mem (by decide))

/-- A success is stamped; the responder stamps only the proofs that it has served. -/
def Stamps (component : Component) (reason : Bytes) : Prop :=
  component ≠ .responder ∨ reason = Reason.proofServed.text

instance decidableStamps (component : Component) (reason : Bytes) :
    Decidable (Stamps component reason) :=
  inferInstanceAs (Decidable (_ ∨ _))

theorem Shows.record (h : Shows m g) (node : Bytes) (outcome : Outcome) (stage reason : Bytes)
    (duration now : Int) :
    Shows (m.record node outcome.text stage reason duration now)
      (if Stamps m.component reason then g.record node outcome else g) := by
  have hstamps : (m.labels node outcome.text stage reason).outcome = Outcome.success.text ∧
      (m.component ≠ .responder ∨
        (m.labels node outcome.text stage reason).reason = Reason.proofServed.text) ↔
      outcome = .success ∧ Stamps m.component reason := by
    dsimp only [labels, Stamps]
    rw [bounded_outcome, outcome_text_success, bounded_proofServed]
  unfold MetricsRegistry.record Metrics.record
  dsimp only
  rw [if_congr hstamps rfl rfl]
  by_cases hboth : outcome = .success ∧ Stamps m.component reason
  · rw [if_pos hboth, if_pos hboth.2, if_pos hboth.1]
    refine ⟨h.nodes, ?_, h.pending, h.proofs⟩
    rw [← h.nodeLocked]
    exact h.stamped_put _ _
  · have hsame : (if Stamps m.component reason then
        if outcome = .success then { g with stamped := g.nodeLocked node :: g.stamped } else g
        else g) = g := by
      split
      · rename_i hstamped
        exact if_neg fun hsuccess => hboth ⟨hsuccess, hstamped⟩
      · rfl
    rw [if_neg hboth, hsame]
    exact ⟨h.nodes, h.stamped, h.pending, h.proofs⟩

/-- The calls of the plugins and of the responder, with the values that they pass. -/
inductive GaugeCall where
  | register (node : Bytes)
  | record (node : Bytes) (outcome : Outcome) (stage reason : Bytes) (duration now : Int)
  | pendingAdd (node : Bytes) (delta : Int)
  | proof (action : ProofAction)

def GaugeCall.call : GaugeCall → MetricsCall
  | .register node => .register [node]
  | .record node outcome stage reason duration now =>
    .record node outcome.text stage reason duration now
  | .pendingAdd node delta => .pendingAdd node (Int64.ofInt delta)
  | .proof action => .proof action.text

def GaugeCall.apply (component : Component) (g : Metrics) : GaugeCall → Metrics
  | .register node => g.register node
  | .record node outcome _ reason _ _ =>
    if Stamps component reason then g.record node outcome else g
  | .pendingAdd node delta => g.pendingAdd node delta
  | .proof action => g.proof action

theorem Shows.step (h : Shows m g) (c : GaugeCall) :
    ∃ m', m.step c.call = some m' ∧ m'.component = m.component ∧
      Shows m' (c.apply m.component g) := by
  cases c with
  | register node => exact ⟨_, rfl, (register_widened m [node]).component, h.registerNode node⟩
  | record node outcome stage reason duration now =>
    exact ⟨_, rfl, rfl, h.record node outcome stage reason duration now⟩
  | pendingAdd node delta => exact ⟨_, rfl, rfl, h.pendingAdd node delta⟩
  | proof action =>
    refine ⟨_, rfl, ?_, h.proof action⟩
    unfold MetricsRegistry.proof
    split <;> rfl

theorem Shows.run (h : Shows m g) (calls : List GaugeCall) :
    ∃ m', exec MetricsRegistry.step m (calls.map GaugeCall.call) = some m' ∧
      m'.component = m.component ∧ Shows m' (calls.foldl (GaugeCall.apply m.component) g) := by
  induction calls generalizing m g with
  | nil => exact ⟨m, rfl, rfl, h⟩
  | cons c calls ih =>
    obtain ⟨next, hnext, hcomponent, hshows⟩ := h.step c
    obtain ⟨m', hrun, hcomponent', hshows'⟩ := ih hshows
    rw [hcomponent] at hshows'
    exact ⟨m', exec_cons_iff.mpr ⟨next, hnext, hrun⟩, hcomponent'.trans hcomponent, hshows'⟩

/-- A run of the registry keeps the gauges that its component keeps. -/
theorem run_shows (component : Component) (calls : List GaugeCall) :
    ∃ m, exec step (new component) (calls.map GaugeCall.call) = some m ∧
      Shows m (calls.foldl (GaugeCall.apply component) newMetrics) := by
  obtain ⟨m, hrun, -, hshows⟩ := (shows_new component).run calls
  exact ⟨m, hrun, hshows⟩

/-- Under a label that is registered and stamped, `record` leaves the gauges. -/
theorem Shows.record_stamped (h : Shows m g) {node : Bytes} (hnode : node ∈ g.nodes)
    (hstamped : node ∈ g.stamped) (outcome : Outcome) (stage reason : Bytes)
    (duration now : Int) : Shows (m.record node outcome.text stage reason duration now) g := by
  have hrecord := h.record node outcome stage reason duration now
  refine ⟨h.nodes, ?_, h.pending, h.proofs⟩
  intro x
  rw [hrecord.stamped]
  split
  · unfold Metrics.record Metrics.nodeLocked
    rw [if_pos hnode]
    split
    · rw [List.mem_cons, or_iff_right_of_imp]
      rintro rfl
      exact hstamped
    · rfl
  · rfl

end Gauges

end MetricsRegistry

end RealmFormal.NodeAttest

import RealmFormal.Go.Lines
import RealmFormal.Go.Sorted
import RealmFormal.NodeAttest.MetricsRegistry

/-!
# Scrapes of the metrics registry

`ServeHTTP` of the registry writes the maps as text, and the rejections from the map
of the totals. Go visits a map in any order; every list is sorted before it is
written. The text of a float is a parameter without a newline; so the lines that are
read from the response are those that the loops wrote.
-/

namespace RealmFormal.NodeAttest
open Go Transition Lines
set_option autoImplicit false

/-! ## The text -/

/-- What the printing takes from `strconv`. -/
structure Printing where
  isPrint : Nat → Bool
  formatFloat : Rat → Bytes
  oneLine : ∀ x, OneLine (formatFloat x)

def Printing.label (conv : Printing) (name : String) (value : Bytes) : Bytes :=
  str name ++ str "=" ++ quote conv.isPrint value

def sampleText (name : String) (labels : List Bytes) (value : Bytes) : Bytes :=
  str name ++ str "\x7b" ++ join labels (chr ',') ++ str "\x7d " ++ value ++ str "\n"

def familyText (name help kind : String) : Bytes :=
  str "# HELP " ++ str name ++ str " " ++ str help ++ str "\n# TYPE " ++ str name ++ str " " ++
    str kind ++ str "\n"

namespace MetricsRegistry

def totalText (conv : Printing) (component : Component) (e : MetricLabels × UInt64) : Bytes :=
  sampleText "realm_http_attestation_total"
    [conv.label "component" component.text, conv.label "node" e.1.node,
      conv.label "outcome" e.1.outcome, conv.label "stage" e.1.stage,
      conv.label "reason" e.1.reason]
    (natDigits e.2.toNat)

def rejectionText (conv : Printing) (component : Component) (e : MetricLabels × UInt64) : Bytes :=
  sampleText "realm_http_attestation_rejections_total"
    [conv.label "component" component.text, conv.label "node" e.1.node,
      conv.label "stage" e.1.stage, conv.label "reason" e.1.reason]
    (natDigits e.2.toNat)

def durationText (conv : Printing) (component : Component)
    (e : DurationLabels × DurationMetric) : Bytes :=
  let labels := [conv.label "component" component.text, conv.label "node" e.1.node,
    conv.label "outcome" e.1.outcome]
  let bucket := fun (le : Bytes) (n : UInt64) =>
    sampleText "realm_http_attestation_duration_seconds_bucket" (labels ++ [conv.label "le" le])
      (natDigits n.toNat)
  (List.finRange 11).flatMap (fun i =>
      bucket (conv.formatFloat (durationBuckets i)) (e.2.buckets i)) ++
    bucket (str "+Inf") e.2.count ++
    sampleText "realm_http_attestation_duration_seconds_sum" labels (conv.formatFloat e.2.sum) ++
    sampleText "realm_http_attestation_duration_seconds_count" labels (natDigits e.2.count.toNat)

def totalLines (conv : Printing) (m : MetricsRegistry) : List Bytes :=
  sort (m.totals.entries.map (totalText conv m.component))

/-- The loop over the totals that collects the rejections. -/
def rejectionLines (conv : Printing) (m : MetricsRegistry) : List Bytes :=
  sort (m.totals.entries.filterMap fun e =>
    if e.1.outcome = Outcome.failure.text ∧
        (e.1.reason = Reason.capacity.text ∨ e.1.reason = Reason.rateLimit.text) then
      some (rejectionText conv m.component e)
    else none)

def durationEntries (m : MetricsRegistry) : List (DurationLabels × DurationMetric) :=
  m.durations.entries.insertionSort fun a b =>
    a.1.node < b.1.node ∨ a.1.node = b.1.node ∧ a.1.outcome ≤ b.1.outcome

def lastSuccessText (conv : Printing) (m : MetricsRegistry) (node : Bytes) : Bytes :=
  sampleText "realm_http_attestation_last_success_timestamp_seconds"
    [conv.label "component" m.component.text, conv.label "node" node]
    (conv.formatFloat ((m.lastSuccess.get node).getD 0))

def pendingText (conv : Printing) (m : MetricsRegistry) (node : Bytes) : Bytes :=
  sampleText "realm_http_attestation_pending"
    [conv.label "component" m.component.text, conv.label "node" node]
    (itoa ((m.pending.get node).getD 0).toInt)

def proofsText (conv : Printing) (m : MetricsRegistry) (node : Bytes) : Bytes :=
  proofActions.flatMap fun action =>
    sampleText "realm_http_responder_proofs_total"
      [conv.label "component" Component.responder.text, conv.label "node" node,
        conv.label "action" action]
      (natDigits ((m.proofs.get action).getD 0).toNat)

def scrape (conv : Printing) (m : MetricsRegistry) : Bytes :=
  let nodes := sort m.nodes
  familyText "realm_http_attestation_total"
      "Completed local operations. Success does not assert SVID issuance." "counter" ++
    (m.totalLines conv).flatten ++
    familyText "realm_http_attestation_duration_seconds"
      "Duration of completed local operations." "histogram" ++
    m.durationEntries.flatMap (durationText conv m.component) ++
    familyText "realm_http_attestation_last_success_timestamp_seconds"
      "Last local proof success in this process. Zero means none." "gauge" ++
    nodes.flatMap (m.lastSuccessText conv) ++
    familyText "realm_http_attestation_pending"
      "Current local attempts or stored responder proofs." "gauge" ++
    nodes.flatMap (m.pendingText conv) ++
    familyText "realm_http_attestation_rejections_total"
      "Capacity and verified proof quota rejections." "counter" ++
    (m.rejectionLines conv).flatten ++
    (if m.capacity > 0 then
      familyText "realm_http_attestation_capacity"
          "Maximum pending operations per server generation or responder." "gauge" ++
        sampleText "realm_http_attestation_capacity" [conv.label "component" m.component.text]
          (itoa m.capacity)
    else []) ++
    if m.component = .responder then
      familyText "realm_http_responder_proofs_total"
          "Stored proof lifecycle operations, not enrollments." "counter" ++
        (nodes.filter fun node => decide (node ≠ unknownNode)).flatMap (m.proofsText conv)
    else []

end MetricsRegistry

/-- A response to a scrape: its status, the headers set by the handler and the body. -/
structure ScrapeResponse where
  status : Nat
  headers : List (Bytes × Bytes)
  body : Bytes

/-- `ServeHTTP` -/
def MetricsRegistry.serveHTTP (conv : Printing) (m : MetricsRegistry) (path method : Bytes) :
    ScrapeResponse :=
  if path ≠ str "/metrics" then
    ⟨404, [(str "Content-Type", str "text/plain; charset=utf-8"),
      (str "X-Content-Type-Options", str "nosniff")], str "404 page not found\n"⟩
  else if method ≠ str "GET" then ⟨405, [(str "Allow", str "GET")], []⟩
  else
    ⟨200, [(str "Content-Type", str "text/plain; version=0.0.4; charset=utf-8"),
      (str "Cache-Control", str "no-store")], m.scrape conv⟩

namespace MetricsRegistry

/-! ## Rejections -/

/-- A failure that the scrape also reports as a rejection. -/
def isRejection (k : MetricLabels) : Bool :=
  decide (k.outcome = Outcome.failure.text ∧
    (k.reason = Reason.capacity.text ∨ k.reason = Reason.rateLimit.text))

theorem sort_perm (l : List Bytes) : (sort l).Perm l := List.perm_insertionSort _ l

theorem rejectionLines_perm (conv : Printing) (m : MetricsRegistry) :
    (m.rejectionLines conv).Perm
      ((m.totals.entries.filter fun e => isRejection e.1).map (rejectionText conv m.component)) := by
  refine (sort_perm _).trans ?_
  rw [← List.filterMap_eq_map, List.filterMap_filter]
  simp only [isRejection, decide_eq_true_eq]
  exact List.Perm.refl _

end MetricsRegistry

/-! ## The lines of a scrape -/

/-- The metric of a line: what stands before its labels. -/
def metricName (line : Bytes) : Bytes := line.takeWhile fun b => decide (b ≠ 123)

/-- The lines of a text that are samples of the metric. -/
def seriesLines (name : String) (text : Bytes) : List Bytes :=
  (Bufio.lines text).filter fun line => decide (metricName line = str name)

/-- Metric and label names are plain words. -/
def PlainName (name : String) : Prop := ∀ b ∈ str name, b ≠ 10 ∧ b ≠ 123

instance (name : String) : Decidable (PlainName name) :=
  List.decidableBAll (fun b => b ≠ 10 ∧ b ≠ 123) (str name)

theorem plainName {name : String} {l : List Char} (h : name = String.ofList l)
    (hl : (l.all fun c => chr c != 10 && chr c != 123) = true) : PlainName name :=
  forall_mem_str h fun c hc => by simpa using List.all_eq_true.mp hl c hc

theorem PlainName.oneLine {name : String} (h : PlainName name) : OneLine (str name) :=
  fun hmem => (h 10 hmem).1 rfl

theorem Printing.label_oneLine (conv : Printing) {name : String} (h : PlainName name)
    (value : Bytes) : OneLine (conv.label name value) :=
  (h.oneLine.append (by decide)).append (quote_oneLine conv.isPrint value)

theorem sampleText_eq (name : String) (labels : List Bytes) (value : Bytes) :
    sampleText name labels value =
      (str name ++ 123 :: (join labels (chr ',') ++ str "\x7d " ++ value)) ++ [10] := by
  simp [sampleText, str, List.append_assoc]

theorem metricName_sampleText {name : String} (h : PlainName name) (labels : List Bytes)
    (value : Bytes) : metricName (sampleText name labels value) = str name := by
  have hname : ∀ b ∈ str name, decide (b ≠ (123 : UInt8)) = true := by
    intro b hb
    exact decide_eq_true (h b hb).2
  rw [sampleText_eq, metricName, List.append_assoc, List.takeWhile_append_of_pos hname]
  simp

section Sample
variable {name : String} {labels : List Bytes} {value : Bytes}

theorem sampleText_printed (h : PlainName name) (hlabels : ∀ l ∈ labels, OneLine l)
    (hvalue : OneLine value) :
    Printed (sampleText name labels value) [sampleText name labels value] := by
  rw [sampleText_eq]
  exact OneLine.printed (h.oneLine.append (.cons (by decide)
    (((OneLine.join (by decide) hlabels).append (by decide)).append hvalue)))

theorem sampleText_printedAll {Q : Bytes → Prop} (h : PlainName name)
    (hlabels : ∀ l ∈ labels, OneLine l) (hvalue : OneLine value)
    (hQ : ∀ line, metricName line = str name → Q line) :
    PrintedAll Q (sampleText name labels value) :=
  ⟨_, sampleText_printed h hlabels hvalue,
    List.forall_mem_singleton.mpr (hQ _ (metricName_sampleText h labels value))⟩

end Sample

namespace MetricsRegistry

/-- A line that is no sample of the two metrics that are written from the totals. -/
def Apart (line : Bytes) : Prop :=
  metricName line ≠ str "realm_http_attestation_total" ∧
    metricName line ≠ str "realm_http_attestation_rejections_total"

theorem apart_comment (s : Bytes) : Apart (chr '#' :: s) := by
  have hhead : (metricName (chr '#' :: s)).head? = some (chr '#') := by
    rw [metricName, List.takeWhile_cons_of_pos (by decide), List.head?_cons]
  refine ⟨?_, ?_⟩
  · intro h
    rw [h] at hhead
    revert hhead
    decide
  · intro h
    rw [h] at hhead
    revert hhead
    decide

theorem familyText_apart {name help kind : String} (hname : OneLine (str name))
    (hhelp : OneLine (str help)) (hkind : OneLine (str kind)) :
    PrintedAll Apart (familyText name help kind) := by
  have hfirst : OneLine (str "# HELP " ++ str name ++ str " " ++ str help) :=
    (((by decide : OneLine (str "# HELP ")).append hname).append (by decide)).append hhelp
  have hsecond : OneLine (str "# TYPE " ++ str name ++ str " " ++ str kind) :=
    (((by decide : OneLine (str "# TYPE ")).append hname).append (by decide)).append hkind
  have htext : familyText name help kind =
      (str "# HELP " ++ str name ++ str " " ++ str help ++ [10]) ++
        (str "# TYPE " ++ str name ++ str " " ++ str kind ++ [10]) := by
    have hbreak : str "\n# TYPE " = 10 :: str "# TYPE " := by decide
    have hend : str "\n" = [10] := by decide
    rw [familyText, hbreak, hend]
    simp only [List.append_assoc, List.cons_append, List.nil_append]
  rw [htext]
  exact (hfirst.printedAll (apart_comment _)).append (hsecond.printedAll (apart_comment _))

theorem sampleText_apart {name : String} {labels : List Bytes} {value : Bytes}
    (h : PlainName name) (htotal : str name ≠ str "realm_http_attestation_total")
    (hrejections : str name ≠ str "realm_http_attestation_rejections_total")
    (hlabels : ∀ l ∈ labels, OneLine l) (hvalue : OneLine value) :
    PrintedAll Apart (sampleText name labels value) := by
  refine sampleText_printedAll h hlabels hvalue ?_
  intro line hline
  rw [Apart, hline]
  exact ⟨htotal, hrejections⟩

section Scrape
variable (conv : Printing) (m : MetricsRegistry)

theorem totalText_printed (component : Component) (e : MetricLabels × UInt64) :
    Printed (totalText conv component e) [totalText conv component e] :=
  sampleText_printed (plainName rfl (by decide)) (by simp +decide [conv.label_oneLine])
    (natDigits_oneLine _)

theorem rejectionText_printed (component : Component) (e : MetricLabels × UInt64) :
    Printed (rejectionText conv component e) [rejectionText conv component e] :=
  sampleText_printed (plainName rfl (by decide)) (by simp +decide [conv.label_oneLine])
    (natDigits_oneLine _)

theorem durationText_apart (component : Component) (e : DurationLabels × DurationMetric) :
    PrintedAll Apart (durationText conv component e) := by
  have hlabels : ∀ l ∈ [conv.label "component" component.text, conv.label "node" e.1.node,
      conv.label "outcome" e.1.outcome], OneLine l := by simp +decide [conv.label_oneLine]
  have hbucket : ∀ le, ∀ l ∈ [conv.label "component" component.text, conv.label "node" e.1.node,
      conv.label "outcome" e.1.outcome] ++ [conv.label "le" le], OneLine l := by
    simp +decide [conv.label_oneLine]
  refine PrintedAll.append (PrintedAll.append (PrintedAll.append (.flatMap ?_) ?_) ?_) ?_
  · intro i hi
    exact sampleText_apart (plainName rfl (by decide)) (str_ne rfl rfl (by decide))
      (str_ne rfl rfl (by decide)) (hbucket _) (natDigits_oneLine _)
  · exact sampleText_apart (plainName rfl (by decide)) (str_ne rfl rfl (by decide))
      (str_ne rfl rfl (by decide)) (hbucket _) (natDigits_oneLine _)
  · exact sampleText_apart (plainName rfl (by decide)) (str_ne rfl rfl (by decide))
      (str_ne rfl rfl (by decide)) hlabels (conv.oneLine _)
  · exact sampleText_apart (plainName rfl (by decide)) (str_ne rfl rfl (by decide))
      (str_ne rfl rfl (by decide)) hlabels (natDigits_oneLine _)

theorem lastSuccessText_apart (node : Bytes) :
    PrintedAll Apart (m.lastSuccessText conv node) :=
  sampleText_apart (plainName rfl (by decide)) (str_ne rfl rfl (by decide))
      (str_ne rfl rfl (by decide)) (by simp +decide [conv.label_oneLine]) (conv.oneLine _)

theorem pendingText_apart (node : Bytes) : PrintedAll Apart (m.pendingText conv node) :=
  sampleText_apart (plainName rfl (by decide)) (str_ne rfl rfl (by decide))
      (str_ne rfl rfl (by decide)) (by simp +decide [conv.label_oneLine]) (itoa_oneLine _)

theorem proofsText_apart (node : Bytes) : PrintedAll Apart (m.proofsText conv node) := by
  refine .flatMap ?_
  intro action haction
  exact sampleText_apart (plainName rfl (by decide)) (str_ne rfl rfl (by decide))
      (str_ne rfl rfl (by decide)) (by simp +decide [conv.label_oneLine]) (natDigits_oneLine _)

theorem capacityText_apart :
    PrintedAll Apart (if m.capacity > 0 then
      familyText "realm_http_attestation_capacity"
          "Maximum pending operations per server generation or responder." "gauge" ++
        sampleText "realm_http_attestation_capacity" [conv.label "component" m.component.text]
          (itoa m.capacity)
    else []) := by
  split
  · exact (familyText_apart (oneLine_str rfl (by decide)) (oneLine_str rfl (by decide))
      (oneLine_str rfl (by decide))).append
      (sampleText_apart (plainName rfl (by decide)) (str_ne rfl rfl (by decide))
      (str_ne rfl rfl (by decide)) (by simp +decide [conv.label_oneLine]) (itoa_oneLine _))
  · exact .nil

theorem responderText_apart (nodes : List Bytes) :
    PrintedAll Apart (if m.component = .responder then
      familyText "realm_http_responder_proofs_total"
          "Stored proof lifecycle operations, not enrollments." "counter" ++
        nodes.flatMap (m.proofsText conv)
    else []) := by
  split
  · exact (familyText_apart (oneLine_str rfl (by decide)) (oneLine_str rfl (by decide))
      (oneLine_str rfl (by decide))).append
      (.flatMap fun node _ => m.proofsText_apart conv node)
  · exact .nil

/-- Sorted lines are printed as they are. -/
theorem sort_printed {parts : List Bytes} (h : ∀ line ∈ parts, Printed line [line]) :
    Printed (sort parts).flatten (sort parts) where
  flatten := rfl
  whole := by
    intro line hline
    exact (h line ((sort_perm parts).mem_iff.mp hline)).whole line (List.mem_singleton_self line)

theorem totalLines_printed : Printed (m.totalLines conv).flatten (m.totalLines conv) := by
  refine sort_printed ?_
  intro line hline
  obtain ⟨e, -, rfl⟩ := List.mem_map.mp hline
  exact totalText_printed conv m.component e

theorem mem_rejectionLines {line : Bytes} (h : line ∈ m.rejectionLines conv) :
    ∃ e, line = rejectionText conv m.component e := by
  obtain ⟨e, -, rfl⟩ := List.mem_map.mp ((m.rejectionLines_perm conv).mem_iff.mp h)
  exact ⟨e, rfl⟩

theorem metricName_totalLines {line : Bytes} (h : line ∈ m.totalLines conv) :
    metricName line = str "realm_http_attestation_total" := by
  obtain ⟨e, -, rfl⟩ := List.mem_map.mp ((sort_perm _).mem_iff.mp h)
  exact metricName_sampleText (plainName rfl (by decide)) _ _

theorem metricName_rejectionLines {line : Bytes} (h : line ∈ m.rejectionLines conv) :
    metricName line = str "realm_http_attestation_rejections_total" := by
  obtain ⟨e, rfl⟩ := m.mem_rejectionLines conv h
  exact metricName_sampleText (plainName rfl (by decide)) _ _

theorem rejectionLines_printed :
    Printed (m.rejectionLines conv).flatten (m.rejectionLines conv) where
  flatten := rfl
  whole := by
    intro line hline
    obtain ⟨e, rfl⟩ := m.mem_rejectionLines conv hline
    exact (rejectionText_printed conv m.component e).whole _ (List.mem_singleton_self _)

theorem scrape_selected {keep : Bytes → Bool} {totals rejections : List Bytes}
    (hapart : ∀ line, Apart line → keep line = false)
    (htotals : Selected keep (m.totalLines conv).flatten totals)
    (hrejections : Selected keep (m.rejectionLines conv).flatten rejections) :
    Selected keep (m.scrape conv) (totals ++ rejections) := by
  have hnone : ∀ {text}, PrintedAll Apart text → Selected keep text [] :=
    fun h => (h.imp hapart).selected_nil
  have hscrape : Selected keep (m.scrape conv)
      ([] ++ totals ++ [] ++ [] ++ [] ++ [] ++ [] ++ [] ++ [] ++ rejections ++ [] ++ []) := by
    refine .append (.append (.append (.append (.append (.append (.append (.append (.append
      (.append (.append ?_ htotals) ?_) ?_) ?_) ?_) ?_) ?_) ?_) hrejections) ?_) ?_
    · exact hnone (familyText_apart (oneLine_str rfl (by decide)) (oneLine_str rfl (by decide))
        (oneLine_str rfl (by decide)))
    · exact hnone (familyText_apart (oneLine_str rfl (by decide)) (oneLine_str rfl (by decide))
        (oneLine_str rfl (by decide)))
    · exact hnone (.flatMap fun e _ => durationText_apart conv m.component e)
    · exact hnone (familyText_apart (oneLine_str rfl (by decide)) (oneLine_str rfl (by decide))
        (oneLine_str rfl (by decide)))
    · exact hnone (.flatMap fun node _ => m.lastSuccessText_apart conv node)
    · exact hnone (familyText_apart (oneLine_str rfl (by decide)) (oneLine_str rfl (by decide))
        (oneLine_str rfl (by decide)))
    · exact hnone (.flatMap fun node _ => m.pendingText_apart conv node)
    · exact hnone (familyText_apart (oneLine_str rfl (by decide)) (oneLine_str rfl (by decide))
        (oneLine_str rfl (by decide)))
    · exact hnone (m.capacityText_apart conv)
    · exact hnone (m.responderText_apart conv _)
  simpa using hscrape

theorem serveHTTP_body : (m.serveHTTP conv (str "/metrics") (str "GET")).body = m.scrape conv := by
  simp [serveHTTP]

theorem seriesLines_total :
    seriesLines "realm_http_attestation_total" (m.scrape conv) = m.totalLines conv := by
  have htotals : ∀ line ∈ m.totalLines conv,
      decide (metricName line = str "realm_http_attestation_total") = true := by
    intro line hline
    exact decide_eq_true (m.metricName_totalLines conv hline)
  have hrejections : ∀ line ∈ m.rejectionLines conv,
      decide (metricName line = str "realm_http_attestation_total") = false := by
    intro line hline
    rw [m.metricName_rejectionLines conv hline]
    exact decide_eq_false (str_ne rfl rfl (by decide))
  have hscrape := m.scrape_selected conv (fun line h => decide_eq_false h.1)
    ((m.totalLines_printed conv).selected htotals)
    (PrintedAll.selected_nil ⟨_, m.rejectionLines_printed conv, hrejections⟩)
  rw [List.append_nil] at hscrape
  exact hscrape.lines

theorem seriesLines_rejections :
    seriesLines "realm_http_attestation_rejections_total" (m.scrape conv) =
      m.rejectionLines conv := by
  have htotals : ∀ line ∈ m.totalLines conv,
      decide (metricName line = str "realm_http_attestation_rejections_total") = false := by
    intro line hline
    rw [m.metricName_totalLines conv hline]
    exact decide_eq_false (str_ne rfl rfl (by decide))
  have hrejections : ∀ line ∈ m.rejectionLines conv,
      decide (metricName line = str "realm_http_attestation_rejections_total") = true := by
    intro line hline
    exact decide_eq_true (m.metricName_rejectionLines conv hline)
  have hscrape := m.scrape_selected conv (fun line h => decide_eq_false h.2)
    (PrintedAll.selected_nil ⟨_, m.totalLines_printed conv, htotals⟩)
    ((m.rejectionLines_printed conv).selected hrejections)
  exact hscrape.lines

end Scrape

end MetricsRegistry

/-! ## Every run -/

namespace MetricsRegistry

/-- After every sequence of calls the labels are bounded, the totals of a node and an outcome add
up to the count of the histogram in the arithmetic of the counters. With fewer observations than
a counter can hold the sum is the count, and the buckets are cumulative. In the response to a
scrape the lines of the totals are the entries of the map, and those of the rejections its
failures for capacity and rate. -/
theorem registry_consistent {component : Component} {calls : List MetricsCall}
    {m : MetricsRegistry} (hrun : exec step (new component) calls = some m) :
    (∀ k n, m.totals.get k = some n →
        (k.node = unknownNode ∨ Registered calls k.node) ∧ k.outcome ∈ outcomes ∧
          k.stage ∈ stages ∧ k.reason ∈ reasons) ∧
      (∀ k h, m.durations.get k = some h →
        (k.node = unknownNode ∨ Registered calls k.node) ∧ k.outcome ∈ outcomes) ∧
      (∀ node n, m.pending.get node = some n → node = unknownNode ∨ Registered calls node) ∧
      (∀ k, (m.totalsOf k).sum % UInt64.size = (m.countOf k).toNat) ∧
      (∀ k h, m.durations.get k = some h →
        (durationsOf (log component calls) k).length < UInt64.size →
          (m.totalsOf k).sum = h.count.toNat ∧ (∀ i j, i ≤ j → h.buckets i ≤ h.buckets j) ∧
            ∀ i, h.buckets i ≤ h.count) ∧
      ∀ conv,
        (seriesLines "realm_http_attestation_total"
            (m.serveHTTP conv (str "/metrics") (str "GET")).body).Perm
          (m.totals.entries.map fun e => sampleText "realm_http_attestation_total"
            [conv.label "component" m.component.text, conv.label "node" e.1.node,
              conv.label "outcome" e.1.outcome, conv.label "stage" e.1.stage,
              conv.label "reason" e.1.reason]
            (natDigits e.2.toNat)) ∧
        (seriesLines "realm_http_attestation_rejections_total"
            (m.serveHTTP conv (str "/metrics") (str "GET")).body).Perm
          ((m.totals.entries.filter fun e => decide (e.1.outcome = str "failure" ∧
              (e.1.reason = str "capacity" ∨ e.1.reason = str "rate_limit"))).map fun e =>
            sampleText "realm_http_attestation_rejections_total"
              [conv.label "component" m.component.text, conv.label "node" e.1.node,
                conv.label "stage" e.1.stage, conv.label "reason" e.1.reason]
              (natDigits e.2.toNat)) := by
  have hsummary := run_summary hrun
  refine ⟨?_, ?_, ?_, hsummary.totals_mod, ?_, ?_⟩
  · intro k n hk
    exact hsummary.total_labels hk
  · intro k h hk
    exact hsummary.duration_labels hk
  · intro node n hn
    exact hsummary.nodes node (hsummary.pending node n hn)
  · intro k h hk hlt
    have hcount : m.countOf k = h.count := by
      rw [countOf, hk, Option.elim_some]
    refine ⟨?_, buckets_cumulative ((hsummary.durations k).symm.trans hk) hlt⟩
    rw [hsummary.totals_eq hlt, hcount]
  · intro conv
    rw [serveHTTP_body, seriesLines_total, seriesLines_rejections]
    exact ⟨sort_perm _, rejectionLines_perm conv m⟩

/-- A node is registered and a stream of it counted. -/
def sampleCalls : List MetricsCall :=
  [.register [str "alpha"], .record (str "alpha") Outcome.success.text Stage.attributes.text
    Reason.attributesSent.text 1500000000 0, .scrape]

theorem registry_consistent_sample :
    ((exec step (new .server) sampleCalls).map fun m => m.totals.size) = some 1 ∧
      ∀ m, exec step (new .server) sampleCalls = some m →
        ∀ k, (m.totalsOf k).sum % UInt64.size = (m.countOf k).toNat := by
  refine ⟨by decide +kernel, ?_⟩
  intro m hrun
  exact (registry_consistent hrun).2.2.2.1

/-! ## Overflow -/

/-- A successful stream of the given duration, from no registered node. -/
def unknownStream (duration : Int) : MetricsCall :=
  .record unknownNode Outcome.success.text Stage.attributes.text Reason.attributesSent.text
    duration 0

def unknownLabels : MetricLabels :=
  (new .server).labels unknownNode Outcome.success.text Stage.attributes.text
    Reason.attributesSent.text

theorem trace_unknownStreams {m : MetricsRegistry} (hnodes : m.nodes = [unknownNode])
    (durations : List Int) :
    trace step observation m (durations.map unknownStream) =
      durations.map fun d => ⟨unknownLabels, seconds d⟩ := by
  induction durations generalizing m with
  | nil => rfl
  | cons d durations ih =>
    have hlabels : m.labels unknownNode Outcome.success.text Stage.attributes.text
        Reason.attributesSent.text = unknownLabels := by
      unfold unknownLabels labels nodeLocked
      rw [hnodes]
      rfl
    have hrest := ih (m := m.record unknownNode Outcome.success.text Stage.attributes.text
      Reason.attributesSent.text d 0) hnodes
    rw [List.map_cons, List.map_cons, ← hrest, ← hlabels]
    rfl

theorem durationsOf_unknownStreams (durations : List Int) :
    durationsOf (log .server (durations.map unknownStream)) unknownLabels.durationLabels =
      durations.map seconds := by
  rw [log, trace_unknownStreams rfl, durationsOf, List.filter_eq_self.mpr, List.map_map]
  · rfl
  · intro o ho
    obtain ⟨d, -, rfl⟩ := List.mem_map.mp ho
    exact decide_eq_true rfl

/-- One long stream, and then as many short ones as a counter can hold. -/
def manyDurations : List Int := 200000000000 :: List.replicate 18446744073709551615 0

/-- The count of the histogram is zero again when the first bucket is full. -/
theorem bucket_exceeds_count :
    ∃ m h, exec step (new .server) (manyDurations.map unknownStream) = some m ∧
      m.durations.get unknownLabels.durationLabels = some h ∧ ¬ h.buckets 0 ≤ h.count := by
  obtain ⟨m, hrun⟩ := exec_exists (new .server) (manyDurations.map unknownStream)
  have hget := (run_summary hrun).durations unknownLabels.durationLabels
  rw [durationsOf_unknownStreams] at hget
  have hlong : ¬ seconds 200000000000 ≤ durationBuckets 0 := by decide +kernel
  have hshort : seconds 0 ≤ durationBuckets 0 := by decide +kernel
  have hne : manyDurations.map seconds ≠ [] := List.cons_ne_nil _ _
  obtain ⟨h, hist⟩ : ∃ h, histogram (manyDurations.map seconds) = some h := ⟨_, if_neg hne⟩
  obtain ⟨hcount, hbuckets⟩ := histogram_eq_some hist
  refine ⟨m, h, hrun, hget.trans hist, ?_⟩
  have hlength : (manyDurations.map seconds).length = 18446744073709551616 := by
    rw [manyDurations, List.length_map, List.length_cons, List.length_replicate]
  have hfull : (manyDurations.map seconds).countP (fun d => decide (d ≤ durationBuckets 0)) =
      18446744073709551615 := by
    rw [manyDurations, List.map_cons, List.map_replicate, List.countP_cons_of_neg (by simpa using hlong),
      List.countP_replicate, if_pos (by simpa using hshort)]
  rw [hcount, hbuckets, hlength, hfull]
  decide

end MetricsRegistry

end RealmFormal.NodeAttest

import RealmFormal.Go.Filepath
import RealmFormal.Go.Netip
import RealmFormal.IdentityMetrics.Staleness
import RealmFormal.Lib.WorkerPool

/-!
# The collection of the workloads

`collectWorkloads` gives one job per target to at most sixteen workers. A worker
observes the holder of its target, records the observation and sends it to the
collector, which joins the errors and the expiries in the order of arrival. What
the network, the contexts and the clock say is fixed for each target; the schedule
is the run of the pool.
-/

namespace RealmFormal.IdentityMetrics
open Go Go.Netip Transition WorkerPool
set_option autoImplicit false

/-! ## Accepted targets -/

structure DeclaredTarget extends WorkloadTarget where
  address : Bytes
  deriving DecidableEq

/-- The fields that `validateWorkloads` reads. -/
structure WorkloadSettings where
  trustDomain : Bytes
  systemctlBinary : Bytes
  workloads : List DeclaredTarget

/-- A parsed SPIFFE ID: what `String`, `TrustDomain` and `Path` return. -/
structure SpiffeID where
  text : Bytes
  trustDomain : Bytes
  path : Bytes

def sourceGhostunnel : Bytes := str "ghostunnel_status_watch"

def sourceCaddy : Bytes := str "caddy_loaded"

def cleanAbsolute (path : Bytes) : Bool :=
  Filepath.isAbs path && decide (Filepath.clean path = path) && decide (path ≠ str "/")

def validPort (port : Bytes) : Bool := (atoi port).any fun n => decide (0 < n ∧ n ≤ 65535)

/-- `net.ParseIP` takes no zone. -/
def loopbackAddress (address : Bytes) : Bool :=
  (splitHostPort address).any fun hostPort =>
    ((parseAddr hostPort.1).any fun ip => decide (ip.zone = []) && ip.isLoopback) &&
      validPort hostPort.2

def isAlnum (b : UInt8) : Bool := isUpper b || isLower b || isDigit b

/-- `unitPattern`. -/
def unitMatch (unit : Bytes) : Bool :=
  hasSuffix unit (str ".service") &&
    match unit.take (unit.length - 8) with
    | [] => false
    | c :: rest => isAlnum c && rest.all fun b => isAlnum b || decide (b ∈ str "_.@:-")

/-- The body of the loop, with the units and addresses seen so far. -/
def validateTarget (fromString : Bytes → Option SpiffeID) (trustDomain : Bytes)
    (units addresses : List Bytes) (target : DeclaredTarget) : Except String Unit :=
  if target.unit.length > 255 ∨ ¬ unitMatch target.unit ∨ target.unit ∈ units then
    .error "invalid or duplicate workload unit"
  else if ¬ ((fromString target.identity).any fun id => decide (target.identity.length ≤ 2048 ∧
      id.text = target.identity ∧ id.trustDomain = trustDomain ∧ id.path ≠ [])) then
    .error "workload identity must use the current trust domain"
  else if ¬ loopbackAddress target.address ∨ target.address ∈ addresses then
    .error "workload addresses must be distinct loopback IPs and ports"
  else if target.source = sourceGhostunnel ∨ target.source = sourceCaddy then .ok ()
  else .error "invalid workload source"

def validateTargets (fromString : Bytes → Option SpiffeID) (trustDomain : Bytes) :
    List Bytes → List Bytes → List DeclaredTarget → Except String Unit
  | _, _, [] => .ok ()
  | units, addresses, target :: rest =>
    match validateTarget fromString trustDomain units addresses target with
    | .error e => .error e
    | .ok () =>
      validateTargets fromString trustDomain (target.unit :: units) (target.address :: addresses)
        rest

def WorkloadSettings.validateWorkloads (fromString : Bytes → Option SpiffeID)
    (c : WorkloadSettings) : Except String Unit :=
  if c.workloads.length > 512 then .error "too many workloads"
  else if c.systemctlBinary ≠ [] ∧ (¬ cleanAbsolute c.systemctlBinary ∨
      Filepath.base c.systemctlBinary ≠ str "systemctl") then
    .error "systemctl_binary must be an absolute systemctl path"
  else if c.workloads.length > 0 ∧ c.systemctlBinary = [] then
    .error "workloads require systemctl_binary"
  else validateTargets fromString c.trustDomain [] [] c.workloads

/-! ## One observation -/

def earlier (a b : Time) : Time :=
  if b.isZero then a
  else if a.isZero ∨ b.before a then b
  else a

/-- The validity of a certificate, wall clock nanoseconds without a monotonic reading. -/
structure Certificate where
  notBefore : Int
  notAfter : Int
  fingerprint : Bytes

def Certificate.before (c : Certificate) : Time := ⟨c.notBefore, none⟩

def Certificate.after (c : Certificate) : Time := ⟨c.notAfter, none⟩

def certCurrent (c : Certificate) (now : Time) : Bool :=
  !now.before c.before && now.before c.after

/-- `complete` says that the SVID, its key and the bundle are there. -/
structure CanaryMetadata where
  complete : Bool
  cert : Option Certificate

structure CanaryResult where
  metadata : CanaryMetadata
  err : Option String

/-- `body` is the length that was read, `peer` the certificates of the connection. -/
structure Response where
  status : Int
  body : Option Nat
  peer : List Certificate

/-- What the calls of one `observeHolder` return: the request, the response, the error of the
context when one of them fails, the chain that the callback of the handshake was given, and the
three readings of the clock. -/
structure Exchange where
  request : Bool
  response : Option Response
  interrupted : Option String
  chain : Option (List Certificate)
  observerNow : Time
  leafNow : Time
  expiryNow : Time

def HolderObservation.zero : HolderObservation := ⟨.zero, .zero, .zero, [], false, none⟩

def HolderObservation.failed (o : HolderObservation) (e : String) : HolderObservation :=
  { o with err := some e }

def wantStatus (source : Bytes) : Option Int :=
  if source = sourceGhostunnel then some 200
  else if source = sourceCaddy then some 204
  else none

/-- The earliest expiry of the chain. -/
def chainExpiry (chain : List Certificate) : Time :=
  chain.foldl (fun t c => earlier t c.after) .zero

/-- The part of `observeHolder` after the response has arrived. -/
def readHolder (o : HolderObservation) (want : Int) (r : Response) (x : Exchange) :
    HolderObservation :=
  if r.status ≠ want then o.failed "workload_http_status"
  else if ¬ r.body.any fun n => decide (n ≤ 2 ^ 20) then
    o.failed (x.interrupted.getD "workload_body")
  else
    match x.chain with
    | none => o.failed "workload_chain"
    | some chain =>
      let o := { o with validUntil := earlier o.validUntil (chainExpiry chain) }
      match r.peer with
      | [] => o.failed "workload_chain"
      | leaf :: _ =>
        let o := { o with
          before := leaf.before, after := leaf.after, fingerprint := leaf.fingerprint }
        if ¬ certCurrent leaf x.leafNow ∨ ¬ x.expiryNow.before o.validUntil then
          o.failed "workload_expired"
        else o

def observeHolder (fromString : Bytes → Option SpiffeID) (target : DeclaredTarget)
    (observer : CanaryMetadata) (x : Exchange) : HolderObservation :=
  let o := HolderObservation.zero
  if ¬ loopbackAddress target.address then o.failed "workload_address"
  else
    match wantStatus target.source, observer.cert with
    | none, _ => o.failed "workload_source"
    | some _, none => o.failed "workload_observer_unavailable"
    | some want, some cert =>
      if ¬ observer.complete ∨ ¬ certCurrent cert x.observerNow then
        o.failed "workload_observer_unavailable"
      else if (fromString target.identity).isNone then o.failed "workload_identity"
      else
        let o := { o with validUntil := cert.after }
        if ¬ x.request then o.failed "workload_request"
        else
          match x.response with
          | none => o.failed (x.interrupted.getD "workload_request")
          | some r => readHolder o want r x

/-! ## A cycle -/

/-- What one target meets: the error of the context if `select` takes it, the exchange, the error
of the context afterwards, and the two readings of the clock in `recordHolder`. -/
structure Circumstances where
  done : Option String
  exchange : Exchange
  ctxErr : Option String
  checked : Time
  recorded : Time

/-- A cycle after `workloadActivity` has returned the states of the units. -/
structure Cycle where
  fromString : Bytes → Option SpiffeID
  states : Table Bytes Bytes
  canary : CanaryResult
  meets : DeclaredTarget → Circumstances

/-- The `switch` over the state of the unit. -/
def Cycle.observe (c : Cycle) (target : DeclaredTarget) : HolderObservation :=
  let state := (c.states.get target.unit).getD []
  if state = str "inactive" then { HolderObservation.zero with dormant := true }
  else if state = str "active" then
    match (c.meets target).done with
    | some e => HolderObservation.zero.failed e
    | none =>
      if c.canary.err.isSome then HolderObservation.zero.failed "workload_observer_unavailable"
      else observeHolder c.fromString target c.canary.metadata (c.meets target).exchange
  else HolderObservation.zero.failed "workload_unit_not_active"

/-- What a worker passes to `recordHolder`. -/
def Cycle.observation (c : Cycle) (target : DeclaredTarget) : HolderObservation :=
  let o := c.observe target
  if o.err = none ∧ ¬ o.dormant ∧ (c.meets target).ctxErr ≠ none then
    { o with err := (c.meets target).ctxErr }
  else o

/-- What a worker sends to the collector. -/
def Cycle.recorded (c : Cycle) (target : DeclaredTarget) : HolderObservation :=
  { c.observation target with err := (c.observation target).judged (c.meets target).checked }

/-- `recordHolder` with the observation of the target and its readings of the clock. -/
def recordTarget (observation : DeclaredTarget → HolderObservation)
    (meets : DeclaredTarget → Circumstances) (e : Exporter) (target : DeclaredTarget) : Exporter :=
  e.recordHolder target.toWorkloadTarget (observation target) (meets target).checked
    (meets target).recorded

def Cycle.task (c : Cycle) : Task DeclaredTarget HolderObservation Exporter :=
  ⟨recordTarget c.observation c.meets, c.recorded⟩

def workloadParallelism : Nat := 16

/-- The channels and the workers before the first of them runs. -/
def startWorkloads (e : Exporter) (targets : List DeclaredTarget) :
    Pool DeclaredTarget HolderObservation Exporter :=
  start targets (min workloadParallelism targets.length) e

/-- The body of the loop of the collector. -/
def Outcome.receive (o : Outcome) (observation : HolderObservation) : Outcome :=
  { o with
    err := if observation.err.isSome then observation.err else o.err
    validUntil :=
      if !observation.dormant && observation.err.isNone then
        earlier o.validUntil observation.validUntil
      else o.validUntil }

/-- What the collector has made of the results so far, and returns after the last one. -/
def workloadsOutcome (received : List HolderObservation) : Outcome :=
  received.foldl Outcome.receive ⟨str "workloads", [], none, .zero⟩

/-- The branch in which `workloadActivity` fails, which has no workers. -/
def workloadsUnavailable (e : Exporter) (targets : List DeclaredTarget)
    (meets : DeclaredTarget → Circumstances) (err : String) : Exporter × Outcome :=
  (targets.foldl (recordTarget (fun _ => HolderObservation.zero.failed err) meets) e,
    ⟨str "workloads", [], some err, .zero⟩)

/-! ## Distinct units -/

theorem validateTargets_units {fromString : Bytes → Option SpiffeID} {trustDomain : Bytes}
    {units addresses : List Bytes} {targets : List DeclaredTarget}
    (h : validateTargets fromString trustDomain units addresses targets = .ok ()) :
    (targets.map fun t => t.unit).Nodup ∧ ∀ t ∈ targets, t.unit ∉ units := by
  induction targets generalizing units addresses with
  | nil => exact ⟨List.nodup_nil, nofun⟩
  | cons target rest ih =>
    rw [validateTargets] at h
    split at h
    · cases h
    · rename_i htarget
      obtain ⟨hnodup, hfresh⟩ := ih h
      have hunit : target.unit ∉ units := by
        intro hmem
        rw [validateTarget, if_pos (.inr (.inr hmem))] at htarget
        cases htarget
      constructor
      · refine List.nodup_cons.mpr ⟨?_, hnodup⟩
        intro hmem
        obtain ⟨t, ht, heq⟩ := List.mem_map.mp hmem
        exact hfresh t ht (heq ▸ List.mem_cons_self)
      · intro t ht
        rcases List.mem_cons.mp ht with rfl | hrest
        · exact hunit
        · intro hmem
          exact hfresh t hrest (List.mem_cons_of_mem _ hmem)

theorem validateWorkloads_units {fromString : Bytes → Option SpiffeID} {c : WorkloadSettings}
    (h : c.validateWorkloads fromString = .ok ()) : (c.workloads.map fun t => t.unit).Nodup := by
  unfold WorkloadSettings.validateWorkloads at h
  split at h
  · cases h
  split at h
  · cases h
  split at h
  · cases h
  exact (validateTargets_units h).1

/-! ## The holder states -/

section Holders
variable (observation : DeclaredTarget → HolderObservation)
  (meets : DeclaredTarget → Circumstances)

/-- The state of a target after its one observation. -/
def holderAfter (e : Exporter) (target : DeclaredTarget) : HolderState :=
  ((e.holders.get target.unit).getD .zero).record (observation target)
    ((observation target).judged (meets target).checked) (meets target).recorded

theorem recordTarget_holders (e : Exporter) (target : DeclaredTarget) (unit : Bytes) :
    (recordTarget observation meets e target).holders.get unit =
      if unit = target.unit then some (holderAfter observation meets e target)
      else e.holders.get unit := by
  rw [recordTarget, Exporter.recordHolder, Table.get_put]
  rfl

theorem foldl_holders_other (e : Exporter) {targets : List DeclaredTarget} {unit : Bytes}
    (h : ∀ t ∈ targets, t.unit ≠ unit) :
    (targets.foldl (recordTarget observation meets) e).holders.get unit = e.holders.get unit := by
  induction targets generalizing e with
  | nil => rfl
  | cons target rest ih =>
    rw [List.forall_mem_cons] at h
    rw [List.foldl_cons, ih _ h.2, recordTarget_holders, if_neg (Ne.symm h.1)]

theorem foldl_holders (e : Exporter) {targets : List DeclaredTarget}
    (hnodup : (targets.map fun t => t.unit).Nodup) {target : DeclaredTarget}
    (h : target ∈ targets) :
    (targets.foldl (recordTarget observation meets) e).holders.get target.unit =
      some (holderAfter observation meets e target) := by
  induction targets generalizing e with
  | nil => cases h
  | cons first rest ih =>
    rw [List.map_cons, List.nodup_cons] at hnodup
    have hother : ∀ t ∈ rest, t.unit ≠ first.unit := by
      intro t ht heq
      exact hnodup.1 (List.mem_map.mpr ⟨t, ht, heq⟩)
    rw [List.foldl_cons]
    rcases List.mem_cons.mp h with rfl | hrest
    · rw [foldl_holders_other _ _ _ hother, recordTarget_holders, if_pos rfl]
    · rw [ih _ hnodup.2 hrest, holderAfter, recordTarget_holders,
        if_neg (hother target hrest), holderAfter]

end Holders

/-! ## The expiry -/

/-- The earliest of a list of times, or zero. -/
def earliest (times : List Time) : Time := times.foldl earlier .zero

/-- A time that is set and has no monotonic reading. -/
def Dated (t : Time) : Prop := t.mono = none ∧ t.isZero = false

theorem Dated.ext {t u : Time} (ht : Dated t) (hu : Dated u) (h : t.wall = u.wall) : t = u := by
  obtain ⟨twall, tmono⟩ := t
  obtain ⟨uwall, umono⟩ := u
  cases ht.1
  cases hu.1
  cases h
  rfl

theorem earlier_dated {a b : Time} (ha : Dated a) (hb : Dated b) :
    earlier a b = if b.wall < a.wall then b else a := by
  have hdiff : b.diff a < 0 ↔ b.wall < a.wall := by
    rw [Time.diff, hb.1]
    dsimp only
    omega
  simp only [earlier, ha.2, hb.2, Time.before, hdiff, Bool.false_eq_true, if_false, false_or,
    decide_eq_true_eq]

theorem earlier_zero {b : Time} (hb : Dated b) : earlier .zero b = b := by
  have hzero : Time.zero.isZero = true := by decide
  rw [earlier, if_neg (by simp [hb.2]), if_pos (.inl hzero)]

/-- The accumulator is one of the times seen so far and not later than any of them. -/
theorem foldl_earlier {times : List Time} (h : ∀ t ∈ times, Dated t) {a : Time} (ha : Dated a) :
    times.foldl earlier a ∈ a :: times ∧
      ∀ t ∈ a :: times, (times.foldl earlier a).wall ≤ t.wall := by
  induction times generalizing a with
  | nil => simp
  | cons b rest ih =>
    rw [List.forall_mem_cons] at h
    have hstep : earlier a b = if b.wall < a.wall then b else a := earlier_dated ha h.1
    have hnext : Dated (earlier a b) := by
      rw [hstep]
      split
      · exact h.1
      · exact ha
    obtain ⟨hmem, hleast⟩ := ih h.2 hnext
    have hle : (earlier a b).wall ≤ a.wall ∧ (earlier a b).wall ≤ b.wall := by
      rw [hstep]
      split <;> omega
    have hacc := hleast _ List.mem_cons_self
    constructor
    · rw [List.foldl_cons]
      rcases List.mem_cons.mp hmem with heq | hrest
      · rw [heq, hstep]
        split <;> simp
      · simp [hrest]
    · intro t ht
      rw [List.foldl_cons]
      simp only [List.mem_cons] at ht
      rcases ht with rfl | rfl | hrest
      · omega
      · omega
      · exact hleast t (List.mem_cons_of_mem _ hrest)

theorem earliest_spec {times : List Time} (h : ∀ t ∈ times, Dated t) (hne : times ≠ []) :
    earliest times ∈ times ∧ ∀ t ∈ times, (earliest times).wall ≤ t.wall := by
  cases times with
  | nil => exact absurd rfl hne
  | cons b rest =>
    rw [List.forall_mem_cons] at h
    rw [earliest, List.foldl_cons, earlier_zero h.1]
    exact foldl_earlier h.2 h.1

/-- The order of the times does not matter. -/
theorem earliest_perm {times times' : List Time} (hperm : times.Perm times')
    (h : ∀ t ∈ times, Dated t) : earliest times = earliest times' := by
  by_cases hne : times = []
  · subst hne
    rw [hperm.nil_eq]
  · have h' : ∀ t ∈ times', Dated t := fun t ht => h t (hperm.mem_iff.mpr ht)
    have hne' : times' ≠ [] := by
      rintro rfl
      exact hne hperm.eq_nil
    obtain ⟨hmem, hleast⟩ := earliest_spec h hne
    obtain ⟨hmem', hleast'⟩ := earliest_spec h' hne'
    have hle := hleast _ (hperm.mem_iff.mpr hmem')
    have hge := hleast' _ (hperm.mem_iff.mp hmem)
    exact (h _ hmem).ext (h' _ hmem') (by omega)

/-! ## The times of an observation come from certificates -/

theorem earlier_mono {a b : Time} (ha : a.mono = none) (hb : b.mono = none) :
    (earlier a b).mono = none := by
  unfold earlier
  split
  · exact ha
  split
  · exact hb
  · exact ha

theorem chainExpiry_mono (chain : List Certificate) : (chainExpiry chain).mono = none := by
  suffices h : ∀ t : Time, t.mono = none →
      (chain.foldl (fun t c => earlier t c.after) t).mono = none from h .zero rfl
  induction chain with
  | nil => exact fun _ ht => ht
  | cons c chain ih => exact fun t ht => ih _ (earlier_mono ht rfl)

theorem readHolder_mono {o : HolderObservation} (ho : o.validUntil.mono = none) (want : Int)
    (r : Response) (x : Exchange) : (readHolder o want r x).validUntil.mono = none := by
  have hchain (chain : List Certificate) :
      (earlier o.validUntil (chainExpiry chain)).mono = none :=
    earlier_mono ho (chainExpiry_mono chain)
  unfold readHolder
  split
  · exact ho
  split
  · exact ho
  split
  · exact ho
  dsimp only
  split
  · exact hchain _
  split
  · exact hchain _
  · exact hchain _

theorem observeHolder_mono (fromString : Bytes → Option SpiffeID) (target : DeclaredTarget)
    (observer : CanaryMetadata) (x : Exchange) :
    (observeHolder fromString target observer x).validUntil.mono = none := by
  unfold observeHolder
  dsimp only
  split
  · rfl
  split
  · rfl
  · rfl
  split
  · rfl
  split
  · rfl
  split
  · rfl
  split
  · rfl
  · exact readHolder_mono rfl _ _ _

section Cycle
variable (c : Cycle)

theorem observe_mono (target : DeclaredTarget) : (c.observe target).validUntil.mono = none := by
  unfold Cycle.observe
  dsimp only
  split
  · rfl
  split
  · split
    · rfl
    split
    · rfl
    · exact observeHolder_mono _ _ _ _
  · rfl

theorem recorded_mono (target : DeclaredTarget) : (c.recorded target).validUntil.mono = none := by
  have h := observe_mono c target
  unfold Cycle.recorded Cycle.observation
  dsimp only
  split
  · exact h
  · exact h

/-- The expiry that the collector takes from a result. -/
def HolderObservation.expiry (o : HolderObservation) : Option Time :=
  if !o.dormant && o.err.isNone then some o.validUntil else none

theorem judged_expiry {o : HolderObservation} {now : Time} (h : o.judged now = none)
    (hdormant : o.dormant = false) : o.validUntil.isZero = false := by
  unfold HolderObservation.judged at h
  split at h
  · cases h
  · rename_i hmetadata
    cases hzero : o.validUntil.isZero with
    | false => rfl
    | true => exact absurd ⟨h, hdormant, .inr (.inr (.inr (.inl hzero)))⟩ hmetadata

theorem recorded_dated {target : DeclaredTarget} {t : Time}
    (h : (c.recorded target).expiry = some t) : Dated t := by
  unfold HolderObservation.expiry at h
  split at h
  · rename_i hok
    cases h
    rw [Bool.and_eq_true, Bool.not_eq_true', Option.isNone_iff_eq_none] at hok
    have hjudged : (c.observation target).judged (c.meets target).checked = none := hok.2
    have hset : (c.observation target).validUntil.isZero = false := judged_expiry hjudged hok.1
    exact ⟨recorded_mono c target, hset⟩
  · cases h

/-! ## What the collector returns -/

theorem receive_err (received : List HolderObservation) (o : Outcome) :
    (received.foldl Outcome.receive o).err = none ↔
      o.err = none ∧ ∀ observation ∈ received, observation.err = none := by
  induction received generalizing o with
  | nil => simp
  | cons observation rest ih =>
    rw [List.foldl_cons, ih, List.forall_mem_cons]
    cases herr : observation.err with
    | none => simp [Outcome.receive, herr]
    | some e => simp [Outcome.receive, herr]

theorem receive_validUntil (received : List HolderObservation) (o : Outcome) :
    (received.foldl Outcome.receive o).validUntil =
      (received.filterMap HolderObservation.expiry).foldl earlier o.validUntil := by
  induction received generalizing o with
  | nil => rfl
  | cons observation rest ih =>
    rw [List.foldl_cons, ih]
    by_cases hok : (!observation.dormant && observation.err.isNone) = true
    · have hexpiry : observation.expiry = some observation.validUntil := if_pos hok
      have hnext : (o.receive observation).validUntil =
          earlier o.validUntil observation.validUntil := if_pos hok
      rw [List.filterMap_cons_some hexpiry, List.foldl_cons, hnext]
    · have hexpiry : observation.expiry = none := if_neg hok
      have hnext : (o.receive observation).validUntil = o.validUntil := if_neg hok
      rw [List.filterMap_cons_none hexpiry, hnext]

/-- The collector's answer for a set of targets, in any order of their results. -/
theorem outcome_perm {received : List HolderObservation} {targets : List DeclaredTarget}
    (h : received.Perm (targets.map c.recorded)) :
    ((workloadsOutcome received).err = none ↔ ∀ t ∈ targets, (c.recorded t).err = none) ∧
      (workloadsOutcome received).validUntil =
        earliest (targets.filterMap fun t => (c.recorded t).expiry) := by
  constructor
  · rw [workloadsOutcome, receive_err]
    simp only [true_and, h.mem_iff, List.forall_mem_map]
  · rw [workloadsOutcome, receive_validUntil]
    have hperm : (received.filterMap HolderObservation.expiry).Perm
        (targets.filterMap fun t => (c.recorded t).expiry) := by
      have hmap := h.filterMap HolderObservation.expiry
      rwa [List.filterMap_map] at hmap
    apply earliest_perm hperm
    intro t ht
    obtain ⟨target, -, htarget⟩ := List.mem_filterMap.mp (hperm.mem_iff.mp ht)
    exact recorded_dated c htarget

/-- The state of a target after the cycle. -/
def Cycle.after (e : Exporter) (target : DeclaredTarget) : HolderState :=
  holderAfter c.observation c.meets e target

theorem after_observed (e : Exporter) (target : DeclaredTarget) :
    Observed (c.after e target) (c.observation target) (c.recorded target).err
      (c.meets target).recorded := observed_record _ _ _ _

theorem after_ok (e : Exporter) (target : DeclaredTarget) :
    (c.recorded target).err = none ↔
      (c.after e target).dormant = true ∨ (c.after e target).success = true := by
  have h := after_observed c e target
  rw [h.success, h.dormant]
  cases (c.recorded target).err <;> cases (c.observation target).dormant <;> simp

theorem after_expiry (e : Exporter) (target : DeclaredTarget) (t : Time) :
    (c.recorded target).expiry = some t ↔
      (c.after e target).success = true ∧ (c.after e target).validUntil = t := by
  have h := after_observed c e target
  have hexpiry : (c.recorded target).expiry =
      if (c.after e target).success then some (c.observation target).validUntil else none := by
    rw [h.success, Bool.and_comm]
    rfl
  rw [hexpiry]
  split
  · rename_i hsuccess
    rw [h.validUntil hsuccess]
    simp [hsuccess]
  · rename_i hfailed
    simp [hfailed]

/-- The state of the exporter and the outcome of a cycle, in terms that no schedule enters. -/
structure Collected (e : Exporter) (targets : List DeclaredTarget)
    (p : Pool DeclaredTarget HolderObservation Exporter) : Prop where
  once : p.finished.Perm targets ∧ targets.Nodup
  holders : ∀ t ∈ targets, p.shared.holders.get t.unit = some (c.after e t)
  others : ∀ unit, unit ∉ targets.map (fun t => t.unit) →
    p.shared.holders.get unit = e.holders.get unit
  success : (workloadsOutcome p.received).err = none ↔
    ∀ t ∈ targets, (c.after e t).dormant = true ∨ (c.after e t).success = true
  validUntil : (workloadsOutcome p.received).validUntil =
    earliest (targets.filterMap fun t => (c.recorded t).expiry)
  dormant : (∀ t ∈ targets, (c.after e t).success = false) →
    (workloadsOutcome p.received).validUntil = .zero
  least : (∃ t ∈ targets, (c.after e t).success = true) →
    ∃ t ∈ targets, (c.after e t).success = true ∧
      (workloadsOutcome p.received).validUntil = (c.after e t).validUntil ∧
      ∀ u ∈ targets, (c.after e u).success = true →
        (c.after e t).validUntil.wall ≤ (c.after e u).validUntil.wall

theorem collected {e : Exporter} {targets : List DeclaredTarget}
    {p : Pool DeclaredTarget HolderObservation Exporter}
    (hunits : (targets.map fun t => t.unit).Nodup)
    (hinv : Inv c.task targets (min workloadParallelism targets.length) e p)
    (hall : p.received.length = targets.length) : Collected c e targets p := by
  obtain ⟨hfinished, hreceived⟩ := hinv.returned hall
  obtain ⟨hsuccess, hvalid⟩ := outcome_perm c hreceived
  have hunits' : (p.finished.map fun t => t.unit).Nodup :=
    (hfinished.map fun t => t.unit).nodup_iff.mpr hunits
  have hdated : ∀ t ∈ targets.filterMap (fun t => (c.recorded t).expiry), Dated t := by
    intro t ht
    obtain ⟨target, -, htarget⟩ := List.mem_filterMap.mp ht
    exact recorded_dated c htarget
  refine ⟨⟨hfinished, hunits.of_map _⟩, ?_, ?_, ?_, hvalid, ?_, ?_⟩
  · intro t ht
    rw [hinv.shared_eq]
    exact foldl_holders c.observation c.meets e hunits' (hfinished.mem_iff.mpr ht)
  · intro unit hunit
    rw [hinv.shared_eq]
    apply foldl_holders_other
    intro t ht heq
    exact hunit (List.mem_map.mpr ⟨t, hfinished.mem_iff.mp ht, heq⟩)
  · rw [hsuccess]
    exact forall₂_congr fun t _ => after_ok c e t
  · intro hnone
    have hnil : (targets.filterMap fun t => (c.recorded t).expiry) = [] := by
      apply List.filterMap_eq_nil_iff.mpr
      intro t ht
      cases hexpiry : (c.recorded t).expiry with
      | none => rfl
      | some expiry =>
        have hsucceeded := ((after_expiry c e t expiry).mp hexpiry).1
        rw [hnone t ht] at hsucceeded
        cases hsucceeded
    rw [hvalid, hnil]
    rfl
  · rintro ⟨t, ht, hok⟩
    have hmem : (c.after e t).validUntil ∈ targets.filterMap fun t => (c.recorded t).expiry :=
      List.mem_filterMap.mpr ⟨t, ht, (after_expiry c e t _).mpr ⟨hok, rfl⟩⟩
    obtain ⟨hearliest, hleast⟩ := earliest_spec hdated (List.ne_nil_of_mem hmem)
    obtain ⟨first, hfirst, hexpiry⟩ := List.mem_filterMap.mp hearliest
    obtain ⟨hsucceeded, hvalidUntil⟩ := (after_expiry c e first _).mp hexpiry
    refine ⟨first, hfirst, hsucceeded, hvalid.trans hvalidUntil.symm, ?_⟩
    intro u hu hsuccessful
    rw [hvalidUntil]
    exact hleast _ (List.mem_filterMap.mpr ⟨u, hu, (after_expiry c e u _).mpr ⟨hsuccessful, rfl⟩⟩)

end Cycle

/-- Every schedule ends, and what the cycle leaves behind does not depend on it. -/
theorem collectWorkloads_scheduled {fromString : Bytes → Option SpiffeID}
    {settings : WorkloadSettings} (haccepted : settings.validateWorkloads fromString = .ok ())
    (c : Cycle) (e : Exporter) (labels : List Label)
    {p : Pool DeclaredTarget HolderObservation Exporter}
    (hrun : exec (step c.task settings.workloads.length) (startWorkloads e settings.workloads)
      labels = some p) :
    labels.length ≤ 4 * settings.workloads.length + workloadParallelism ∧
      (p.received.length < settings.workloads.length →
        ∃ l, (step c.task settings.workloads.length p l).isSome = true) ∧
      (p.received.length = settings.workloads.length →
        Collected c e settings.workloads p) := by
  have hinv := Inv.run hrun
  refine ⟨?_, ?_, collected c (validateWorkloads_units haccepted) hinv⟩
  · have hmeasure := exec_measure hrun
    rw [startWorkloads, measure_start] at hmeasure
    omega
  · apply hinv.progress
    intro hne
    have hpos := List.length_pos_iff.mpr hne
    exact Nat.lt_min.mpr ⟨by decide, hpos⟩

def sampleID (id : Bytes) : Option SpiffeID := some ⟨id, str "realm.test", str "/service"⟩

def sampleTargets : List DeclaredTarget :=
  [⟨⟨str "a.service", str "spiffe://realm.test/a", sourceCaddy⟩, str "127.0.0.1:9001"⟩,
    ⟨⟨str "b.service", str "spiffe://realm.test/b", sourceGhostunnel⟩, str "127.0.0.1:9002"⟩]

def sampleWorkloads : WorkloadSettings :=
  ⟨str "realm.test", str "/run/bin/systemctl", sampleTargets⟩

/-- The first unit is active and has a certificate, the second one is inactive. -/
def sampleCycle : Cycle where
  fromString := sampleID
  states := ⟨[(str "a.service", str "active"), (str "b.service", str "inactive")], by decide⟩
  canary := ⟨⟨true, some ⟨0, 100, str "observer"⟩⟩, none⟩
  meets := fun _ =>
    { done := none
      exchange :=
        { request := true
          response := some ⟨204, some 0, [⟨0, 90, str "leaf"⟩]⟩
          interrupted := none
          chain := some [⟨0, 90, str "leaf"⟩]
          observerNow := ⟨50, some 0⟩
          leafNow := ⟨51, some 1⟩
          expiryNow := ⟨52, some 2⟩ }
      ctxErr := none
      checked := ⟨53, some 3⟩
      recorded := ⟨54, some 4⟩ }

/-- The second worker takes the first job and delivers last. -/
def sampleSchedule : List Label :=
  [.take 1, .take 0, .finish 1, .finish 0, .deliver 0, .receive, .deliver 1, .stop 0, .receive]

def sampleExporter : Exporter := newExporter ⟨str "node", [], []⟩

theorem collectWorkloads_scheduled_sampleSchedule :
    ∃ p, exec (step sampleCycle.task sampleWorkloads.workloads.length)
        (startWorkloads sampleExporter sampleWorkloads.workloads) sampleSchedule = some p ∧
      Collected sampleCycle sampleExporter sampleWorkloads.workloads p :=
  have haccepted : sampleWorkloads.validateWorkloads sampleID = .ok () := by decide
  ⟨_, rfl, (collectWorkloads_scheduled haccepted sampleCycle sampleExporter sampleSchedule
    rfl).2.2 rfl⟩

end RealmFormal.IdentityMetrics

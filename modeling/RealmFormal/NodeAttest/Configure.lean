import RealmFormal.NodeAttest.Agent
import RealmFormal.NodeAttest.Plugin

/-!
# Configure and the metrics listener

`Configure` of the two plugins differs only in how a request is turned into a
configuration with its metrics address and its node labels. The rest is one
transaction over the active configuration, the registry and the metrics listener.
The results of `net.Listen` and of `http.Server.Close` are arguments.
-/

namespace RealmFormal.NodeAttest
open Go Transition StatusPackage
set_option autoImplicit false

/-! ## The listener -/

/-- `metricsListener`. A listener and the server for it are named by the `net.Listen` call that
opened the listener. -/
structure MetricsListener where
  address : Bytes
  listener : Option Nat
  server : Option Nat
  deriving DecidableEq

/-- The zero value. -/
def MetricsListener.absent : MetricsListener := ⟨[], none, none⟩

/-- The successful calls of `net.Listen` so far, and those whose socket is still open. -/
structure Sockets where
  count : Nat
  listening : List Nat
  deriving DecidableEq

def Sockets.close (s : Sockets) (listener : Option Nat) : Sockets :=
  { s with listening := s.listening.filter fun h => decide (some h ≠ listener) }

/-- `http.Server.Close`: whether `Serve` has registered the listener, which is then closed too, and
the error. -/
structure CloseResult where
  tracked : Bool
  err : Option String
  deriving DecidableEq

def MetricsListener.close (m : MetricsListener) (s : Sockets) (r : CloseResult) :
    Option String × MetricsListener × Sockets :=
  if m.server = none then (none, m, s)
  else
    let s := if r.tracked then s.close m.listener else s
    (r.err, .absent, s.close m.listener)

def MetricsListener.configure (m : MetricsListener) (s : Sockets) (address : Bytes) (listen : Bool)
    (r : CloseResult) : Except String Unit × MetricsListener × Sockets :=
  match validateMetricsAddress address with
  | .error e => (.error e, m, s)
  | .ok () =>
    if address = m.address then (.ok (), m, s)
    else if address = [] then
      let closed := m.close s r
      (match closed.1 with
        | some e => .error e
        | none => .ok (), closed.2)
    else if !listen then (.error "cannot listen on metrics address", m, s)
    else
      let closed := m.close ⟨s.count + 1, s.count :: s.listening⟩ r
      (.ok (), ⟨address, some s.count, some s.count⟩, closed.2.2)

/-- The listener that is configured is the one that is open. -/
inductive Listening : MetricsListener → Sockets → Prop where
  | off (count : Nat) : Listening .absent ⟨count, []⟩
  | on {address : Bytes} {h count : Nat} (address_ne : address ≠ []) (opened : h < count) :
      Listening ⟨address, some h, some h⟩ ⟨count, [h]⟩

/-- The ways in which `configure` can end. -/
inductive Reconfigured (m : MetricsListener) (s : Sockets) (address : Bytes) (r : CloseResult) :
    Except String Unit × MetricsListener × Sockets → Prop where
  | refused (e : String) (address_ne : address ≠ []) : Reconfigured m s address r (.error e, m, s)
  | same (h : address = m.address) : Reconfigured m s address r (.ok (), m, s)
  | disabled (empty : address = []) (on : m.address ≠ []) (ok : r.err = none) :
      Reconfigured m s address r (.ok (), .absent, ⟨s.count, []⟩)
  | broken (e : String) (empty : address = []) (on : m.address ≠ []) (err : r.err = some e) :
      Reconfigured m s address r (.error e, .absent, ⟨s.count, []⟩)
  | replaced (address_ne : address ≠ []) :
      Reconfigured m s address r
        (.ok (), ⟨address, some s.count, some s.count⟩, ⟨s.count + 1, [s.count]⟩)

section Listener
variable {m : MetricsListener} {s : Sockets} {r : CloseResult}

/-- Closing leaves none of its own socket, whoever closes it first. -/
theorem MetricsListener.close_on {address : Bytes} {h : Nat} (s : Sockets) (r : CloseResult) :
    (⟨address, some h, some h⟩ : MetricsListener).close s r =
      (r.err, .absent, s.close (some h)) := by
  have htwice : (s.close (some h)).close (some h) = s.close (some h) := by
    simp [Sockets.close, List.filter_filter]
  cases htracked : r.tracked with
  | true => simp [MetricsListener.close, htracked, htwice]
  | false => simp [MetricsListener.close, htracked]

theorem MetricsListener.configure_reconfigured (h : Listening m s) (address : Bytes) (listen : Bool)
    (r : CloseResult) : Reconfigured m s address r (m.configure s address listen r) := by
  unfold MetricsListener.configure
  split
  · rename_i e he
    refine .refused e ?_
    rintro rfl
    cases he
  split
  · exact .same ‹_›
  rename_i hchanged
  split
  · rename_i hempty
    cases h with
    | off count => exact absurd hempty hchanged
    | @on old h count hon hopened =>
      have hclosed : (⟨count, [h]⟩ : Sockets).close (some h) = ⟨count, []⟩ := by
        simp [Sockets.close]
      rw [MetricsListener.close_on, hclosed]
      cases herr : r.err with
      | none => exact .disabled hempty hon herr
      | some e => exact .broken e hempty hon herr
  · rename_i hne
    split
    · exact .refused _ hne
    cases h with
    | off count => exact .replaced hne
    | @on old h count hon hopened =>
      have hclosed : (⟨count + 1, [count, h]⟩ : Sockets).close (some h) = ⟨count + 1, [count]⟩ := by
        have hfresh : count ≠ h := by omega
        simp [Sockets.close, hfresh]
      rw [MetricsListener.close_on, hclosed]
      exact .replaced hne

theorem Reconfigured.listening (h : Listening m s) {address : Bytes}
    {result : Except String Unit × MetricsListener × Sockets}
    (hr : Reconfigured m s address r result) : Listening result.2.1 result.2.2 := by
  cases hr with
  | refused e address_ne => exact h
  | same heq => exact h
  | disabled empty on ok => exact .off _
  | broken e empty on err => exact .off _
  | replaced address_ne => exact .on address_ne (Nat.lt_succ_self _)

theorem Listening.close (h : Listening m s) (r : CloseResult) :
    Listening (m.close s r).2.1 (m.close s r).2.2 := by
  cases h with
  | off count => exact .off count
  | @on address h count hon hopened =>
    have hclosed : (⟨count, [h]⟩ : Sockets).close (some h) = ⟨count, []⟩ := by
      simp [Sockets.close]
    rw [MetricsListener.close_on, hclosed]
    exact .off count

theorem Listening.at_most_one (h : Listening m s) : s.listening.length ≤ 1 := by
  cases h <;> simp

end Listener

/-! ## The two plugins -/

/-- What `Configure` has made of a request before it takes the lock. -/
structure Prepared (C : Type) where
  active : C
  metricsAddress : Bytes
  labels : List Bytes

/-- What `readPluginConfig` returns, and the trust domain of the request. -/
structure ConfigureRequest (F : Type) where
  read : Except GoError F
  core : Bytes

def prepareAgent [StatusPackage] (req : ConfigureRequest AgentConfig) :
    Except GoError (Prepared AgentConfig) :=
  match req.read with
  | .error e => .error e
  | .ok config =>
    match checkTrustDomain req.core config.trustDomain with
    | .error e => .error e
    | .ok () =>
      match validateAgentConfig config with
      | .error _ => .error (statusError .invalidArgument "invalid agent configuration")
      | .ok () => .ok ⟨config, config.metricsAddress, [config.fqdn]⟩

/-- The fields `begin`, which is the server it calls, and `nodes`. -/
structure ActiveServer where
  begin : Server
  nodes : Table Bytes Node

def prepareServer [StatusPackage] (req : ConfigureRequest ServerConfig) :
    Except GoError (Prepared ActiveServer) :=
  match req.read with
  | .error e => .error e
  | .ok config =>
    match checkTrustDomain req.core config.trustDomain with
    | .error e => .error e
    | .ok () =>
      match newServer config with
      | .error _ => .error (statusError .invalidArgument "invalid server configuration")
      | .ok server =>
        .ok ⟨⟨server, server.nodes⟩, config.metricsAddress,
          server.nodes.entries.map fun e => e.2.name⟩

/-- `AgentPlugin` and `ServerPlugin`, for the configuration that is active. -/
structure PluginState (C : Type) where
  active : Option C
  metrics : Option Metrics
  listener : MetricsListener
  sockets : Sockets

section Plugin
variable {F C : Type}

def PluginState.initial : PluginState C := ⟨none, none, .absent, ⟨0, []⟩⟩

/-- The node labels of the registry; a plugin without a registry makes one when it needs it. -/
def PluginState.labels (p : PluginState C) : List Bytes := (p.metrics.getD newMetrics).nodes

/-- The locked section of `Configure`. -/
def PluginState.install [StatusPackage] (p : PluginState C) (n : Prepared C) (listen : Bool)
    (r : CloseResult) :
    Except GoError Unit × PluginState C :=
  let metrics := p.metrics.getD newMetrics
  let configured := p.listener.configure p.sockets n.metricsAddress listen r
  match configured.1 with
  | .error _ =>
    (.error (statusError .invalidArgument "cannot configure metrics listener"),
      { p with metrics := some metrics, listener := configured.2.1, sockets := configured.2.2 })
  | .ok () =>
    (.ok (),
      { active := some n.active
        metrics := some (n.labels.foldl Metrics.register metrics)
        listener := configured.2.1
        sockets := configured.2.2 })

variable (prepare : ConfigureRequest F → Except GoError (Prepared C))

def PluginState.configure [StatusPackage] (p : PluginState C) (req : ConfigureRequest F)
    (listen : Bool) (r : CloseResult) : Except GoError Unit × PluginState C :=
  match prepare req with
  | .error e => (.error e, p)
  | .ok n => p.install n listen r

def PluginState.close (p : PluginState C) (r : CloseResult) : Option String × PluginState C :=
  let closed := p.listener.close p.sockets r
  (closed.1, { p with listener := closed.2.1, sockets := closed.2.2 })

inductive PluginCall (F : Type) where
  | configure (req : ConfigureRequest F) (listen : Bool) (r : CloseResult)
  | close (r : CloseResult)

def PluginState.step [StatusPackage] (p : PluginState C) : PluginCall F → Option (PluginState C)
  | .configure req listen r => some (p.configure prepare req listen r).2
  | .close r => some (p.close r).2

/-- A failed call changes nothing; a successful one leaves the new address and one listener. -/
structure Atomic (p : PluginState C) (req : ConfigureRequest F)
    (result : Except GoError Unit × PluginState C) : Prop where
  failed : ∀ e, result.1 = .error e →
    result.2.active = p.active ∧ result.2.labels = p.labels ∧ result.2.listener = p.listener ∧
      result.2.sockets = p.sockets
  done : result.1 = .ok () → ∃ n, prepare req = .ok n ∧
    result.2.listener.address = n.metricsAddress ∧ result.2.sockets.listening.length ≤ 1

/-- The request turns an open listener off, and closing its server reports an error. -/
def FailsToDisable (p : PluginState C) (req : ConfigureRequest F) (r : CloseResult) : Prop :=
  p.listener.address ≠ [] ∧ r.err ≠ none ∧ ∃ n, prepare req = .ok n ∧ n.metricsAddress = []

variable {prepare} {p : PluginState C}

theorem install_listening [StatusPackage] (h : Listening p.listener p.sockets) (n : Prepared C)
    (listen : Bool) (r : CloseResult) :
    Listening (p.install n listen r).2.listener (p.install n listen r).2.sockets := by
  have hr := (MetricsListener.configure_reconfigured h n.metricsAddress listen r).listening h
  unfold PluginState.install
  dsimp only
  split <;> exact hr

theorem step_listening [StatusPackage] {q : PluginState C} {call : PluginCall F}
    (h : Listening p.listener p.sockets) (hq : p.step prepare call = some q) :
    Listening q.listener q.sockets := by
  cases call with
  | configure req listen r =>
    cases hq
    unfold PluginState.configure
    split
    · exact h
    · exact install_listening h _ listen r
  | close r =>
    cases hq
    exact h.close r

theorem atomic_ok {req : ConfigureRequest F} {n : Prepared C} (hn : prepare req = .ok n)
    {q : PluginState C} (haddress : q.listener.address = n.metricsAddress)
    (hone : q.sockets.listening.length ≤ 1) : Atomic prepare p req (.ok (), q) where
  failed := fun _ he => nomatch he
  done := fun _ => ⟨n, hn, haddress, hone⟩

theorem atomic_error {req : ConfigureRequest F} {e : GoError} {q : PluginState C} :
    Atomic prepare p req (.error e, q) ↔
      q.active = p.active ∧ q.labels = p.labels ∧ q.listener = p.listener ∧
        q.sockets = p.sockets := by
  constructor
  · intro h
    exact h.failed e rfl
  · intro h
    exact ⟨fun _ _ => h, fun he => nomatch he⟩

theorem install_atomic_iff [StatusPackage] (h : Listening p.listener p.sockets)
    {req : ConfigureRequest F}
    {n : Prepared C} (hn : prepare req = .ok n) (listen : Bool) (r : CloseResult) :
    Atomic prepare p req (p.install n listen r) ↔ ¬ FailsToDisable prepare p req r := by
  have hone := (install_listening h n listen r).at_most_one
  have hr := MetricsListener.configure_reconfigured h n.metricsAddress listen r
  have hnonempty : n.metricsAddress ≠ [] → ¬ FailsToDisable prepare p req r := by
    rintro hne ⟨-, -, n', hn', hempty⟩
    cases hn.symm.trans hn'
    exact hne hempty
  unfold PluginState.install at hone ⊢
  generalize p.listener.configure p.sockets n.metricsAddress listen r = configured at hone hr ⊢
  cases hr with
  | refused e address_ne =>
    exact iff_of_true (atomic_error.mpr ⟨rfl, rfl, rfl, rfl⟩) (hnonempty address_ne)
  | same heq =>
    refine iff_of_true (atomic_ok hn heq.symm hone) ?_
    rintro ⟨hon, -, n', hn', hempty⟩
    cases hn.symm.trans hn'
    exact hon (heq.symm.trans hempty)
  | disabled empty on ok =>
    refine iff_of_true (atomic_ok hn empty.symm hone) ?_
    rintro ⟨-, herr, -⟩
    exact herr ok
  | broken e empty on err =>
    refine iff_of_false ?_ (not_not_intro ⟨on, by simp [err], n, hn, empty⟩)
    intro hatomic
    obtain ⟨-, -, hkept, -⟩ := atomic_error.mp hatomic
    apply on
    rw [← hkept]
    rfl
  | replaced address_ne =>
    exact iff_of_true (atomic_ok hn rfl hone) (hnonempty address_ne)

theorem configure_atomic [StatusPackage] (h : Listening p.listener p.sockets)
    (req : ConfigureRequest F) (listen : Bool) (r : CloseResult) :
    Atomic prepare p req (p.configure prepare req listen r) ↔ ¬ FailsToDisable prepare p req r := by
  unfold PluginState.configure
  cases hn : prepare req with
  | error e =>
    refine iff_of_true (atomic_error.mpr ⟨rfl, rfl, rfl, rfl⟩) ?_
    rintro ⟨-, -, n, hn', -⟩
    cases hn.symm.trans hn'
  | ok n => exact install_atomic_iff h hn listen r

theorem run_listening [StatusPackage] {calls : List (PluginCall F)}
    (h : exec (PluginState.step prepare) .initial calls = some p) :
    Listening p.listener p.sockets :=
  exec_preserves (P := fun p => Listening p.listener p.sockets) step_listening (.off 0) h

end Plugin

/-- The server plugin with its generations makes the same of a request, for the result that the
listener has. -/
theorem configure_refines [StatusPackage] {p : PluginState ActiveServer} {q : Plugin}
    (h : q.metrics = p.metrics.getD newMetrics) (req : ConfigureRequest ServerConfig)
    (listen : Bool) (r : CloseResult) :
    ∃ listening : Bool,
      (q.configure req.read req.core listening).1 = (p.configure prepareServer req listen r).1 ∧
      (q.configure req.read req.core listening).2.metrics =
        (p.configure prepareServer req listen r).2.metrics.getD newMetrics := by
  obtain ⟨read, core⟩ := req
  unfold Plugin.configure PluginState.configure prepareServer
  cases read with
  | error e => exact ⟨true, rfl, h⟩
  | ok config =>
    dsimp only
    cases checkTrustDomain core config.trustDomain with
    | error e => exact ⟨true, rfl, h⟩
    | ok _ =>
      cases newServer config with
      | error e => exact ⟨true, rfl, h⟩
      | ok server =>
        dsimp only [PluginState.install]
        cases (p.listener.configure p.sockets config.metricsAddress listen r).1 with
        | error e => exact ⟨false, rfl, h⟩
        | ok _ =>
          refine ⟨true, rfl, ?_⟩
          simp only [Option.getD_some, if_true, List.foldl_map, h]

/-- `Configure` of either plugin is atomic, except when it turns the metrics listener off and the
server reports an error while it closes. -/
theorem configure_atomic_iff [StatusPackage] (listen : Bool) (r : CloseResult) :
    (∀ (calls : List (PluginCall AgentConfig)) (p : PluginState AgentConfig)
      (req : ConfigureRequest AgentConfig),
      exec (PluginState.step prepareAgent) .initial calls = some p →
        (Atomic prepareAgent p req (p.configure prepareAgent req listen r) ↔
          ¬ FailsToDisable prepareAgent p req r)) ∧
    (∀ (calls : List (PluginCall ServerConfig)) (p : PluginState ActiveServer)
      (req : ConfigureRequest ServerConfig),
      exec (PluginState.step prepareServer) .initial calls = some p →
        (Atomic prepareServer p req (p.configure prepareServer req listen r) ↔
          ¬ FailsToDisable prepareServer p req r)) := by
  constructor
  · intro calls p req hrun
    exact configure_atomic (run_listening hrun) req listen r
  · intro calls p req hrun
    exact configure_atomic (run_listening hrun) req listen r

def sampleAddress : Bytes := str "127.0.0.1:9901"

/-- A request of the agent with the given metrics address. -/
def agentRequest (address : Bytes) : ConfigureRequest AgentConfig :=
  ⟨.ok ⟨str "alpha.realm.test", str "realm.test", str "/run/control", address⟩, str "realm.test"⟩

/-- The agent plugin after one successful call, with its listener open. -/
def sampleAgent : PluginState AgentConfig :=
  (PluginState.initial.configure prepareAgent (agentRequest sampleAddress) true ⟨true, none⟩).2

/-- The error of closing is returned, and the listener is gone. -/
theorem disable_loses_listener :
    exec (PluginState.step prepareAgent) .initial
        [.configure (agentRequest sampleAddress) true ⟨true, none⟩] = some sampleAgent ∧
      sampleAgent.listener = ⟨sampleAddress, some 0, some 0⟩ ∧
      (sampleAgent.configure prepareAgent (agentRequest []) true ⟨true, some "close"⟩).1 =
        .error (statusError .invalidArgument "cannot configure metrics listener") ∧
      (sampleAgent.configure prepareAgent (agentRequest []) true ⟨true, some "close"⟩).2.listener =
        .absent := by
  exact ⟨rfl, by decide, by decide, by decide⟩

theorem configure_atomic_iff_sampleAgent :
    exec (PluginState.step prepareAgent) .initial
        [.configure (agentRequest sampleAddress) true ⟨true, none⟩] = some sampleAgent ∧
      Atomic prepareAgent sampleAgent (agentRequest [])
        (sampleAgent.configure prepareAgent (agentRequest []) true ⟨true, none⟩) := by
  refine ⟨rfl, ((configure_atomic_iff true ⟨true, none⟩).1
    [.configure (agentRequest sampleAddress) true ⟨true, none⟩] sampleAgent (agentRequest [])
    rfl).mpr ?_⟩
  rintro ⟨-, herr, -⟩
  exact herr rfl

end RealmFormal.NodeAttest

import RealmFormal.Go.Bytes
import RealmFormal.Lib.Table

/-!
# Egress of the workloads

`lib/realm/endpoints.nix` resolves a service name in the catalog. The compiler uses
the result for the assertions and the ghostunnel process of an egress, and the
model module uses it once more to compare the caller with the policy of the
receiver. Attribute sets are tables, `null` is `none`.
-/

namespace RealmFormal.Nix
open Go
set_option autoImplicit false

/-! ## Endpoints -/

inductive Transport where
  | spiffeTls | plain
  deriving DecidableEq

structure Publication where
  address : Bytes
  serverID : Option Bytes
  allowedIDs : List Bytes
  transport : Transport
  port : Option Nat
  deriving DecidableEq

/-- The publications by host and service. -/
abbrev Catalog := Table Bytes (Table Bytes Publication)

/-- A publication with the attributes `host` and `service` added. -/
structure Candidate where
  publication : Publication
  host : Bytes
  service : Bytes
  deriving DecidableEq

def candidates (catalog : Catalog) (service : Bytes) (node : Option Bytes) : List Candidate :=
  catalog.entries.flatMap fun entry =>
    match entry.2.get service with
    | none => []
    | some p =>
      if (node = none ∨ node = some entry.1) ∧ p.port ≠ none then [⟨p, entry.1, service⟩] else []

/-- An egress of a workload. -/
structure Endpoint where
  service : Bytes
  verifyID : Option Bytes
  node : Option Bytes
  target : Option Bytes
  socket : Option Bytes
  localPort : Option Nat

structure Resolved where
  selected : Option Candidate
  target : Bytes
  serverID : Bytes
  unambiguous : Bool
  hasIdentity : Bool
  transportMatches : Bool
  identityMatches : Bool

/-- `toString` of a port. -/
def portText : Option Nat → Bytes
  | none => []
  | some n => natDigits n

def Publication.socketAddress (p : Publication) : Bytes :=
  str "[" ++ p.address ++ str "]:" ++ portText p.port

def selected : List Candidate → Option Candidate
  | [c] => some c
  | _ => none

def resolve (catalog : Catalog) (e : Endpoint) : Resolved :=
  let selected := selected (candidates catalog e.service e.node)
  let declaredID := selected.bind fun c => c.publication.serverID
  let identity := if e.verifyID ≠ none then e.verifyID else declaredID
  { selected
    target :=
      match e.target, selected with
      | some target, _ => target
      | none, some c => c.publication.socketAddress
      | none, none => str "[::1]:1"
    serverID := identity.getD []
    unambiguous := decide (e.target ≠ none ∨ selected ≠ none)
    hasIdentity := identity.any fun id => hasPrefix id (str "spiffe://")
    transportMatches := decide (e.target ≠ none) ||
      selected.all fun c => decide (c.publication.transport = .spiffeTls)
    identityMatches := decide
      (e.target ≠ none ∨ declaredID = none ∨ e.verifyID = none ∨ e.verifyID = declaredID) }

/-! ## Workloads -/

inductive Runtime where
  | systemd | container | external
  deriving DecidableEq

inductive BackendKind where
  | unix | privateTcp | hostTcp | native
  deriving DecidableEq

inductive Loopback where
  | ipv4 | ipv6
  deriving DecidableEq

structure Backend where
  kind : BackendKind
  path : Option Bytes
  address : Loopback
  port : Option Nat
  peerUser : Option Bytes

structure Allow where
  workloads : List Bytes
  groups : List Bytes
  identities : List Bytes

/-- An ingress; `allowedIDs` is the value after the module system has merged it. -/
structure Ingress where
  backend : Option Backend
  allow : Allow
  allowedIDs : List Bytes

structure Workload where
  enable : Bool
  group : Bytes
  runtime : Runtime
  spiffeID : Bytes
  privateNetwork : Bool
  socksProxy : Bool
  egress : Table Bytes Endpoint
  ingress : Table Bytes Ingress

/-- The options that the two modules read. `statusPorts` is `none` without metrics. -/
structure Realm where
  ghostunnelPackage : Bytes
  cacert : Bytes
  spireSocket : Bytes
  systemdPackage : Bytes
  statusPorts : Option (Bytes → Nat)
  catalog : Catalog
  workloads : Table Bytes Workload
  identityCatalog : Table Bytes (Table Bytes Bytes)
  groups : Table Bytes (List Bytes)
  rejectDeniedConnections : Bool

def Realm.active (cfg : Realm) : List (Bytes × Workload) :=
  cfg.workloads.entries.filter fun entry => entry.2.enable

/-! ## The compiler -/

structure Assertion where
  assertion : Bool
  message : Bytes

structure Registration where
  spiffeID : Bytes
  selectors : List Bytes

/-- `ExecStart`: a text, or the arguments that `escapeShellArgs` quotes. -/
inductive ExecStart where
  | line (text : Bytes)
  | args (words : List Bytes)

structure Service where
  user : Bytes
  execStart : ExecStart

/-- The outputs of an egress, by unit; `listenStreams` for a socket. -/
structure Outputs where
  assertions : List Assertion
  registrations : List (Bytes × Registration)
  sockets : List (Bytes × List Bytes)
  services : List (Bytes × Service)

def Outputs.empty : Outputs := ⟨[], [], [], []⟩

def Outputs.merge (records : List Outputs) : Outputs :=
  ⟨records.flatMap Outputs.assertions, records.flatMap Outputs.registrations,
    records.flatMap Outputs.sockets, records.flatMap Outputs.services⟩

def proxyUser (name : Bytes) : Bytes := str "realm-" ++ name

def egressPath (name route : Bytes) : Bytes :=
  str "/run/realm/" ++ name ++ str "/egress/" ++ route ++ str ".sock"

def egressSocket (name route : Bytes) (e : Endpoint) : Bytes :=
  e.socket.getD (egressPath name route)

def egressUnit (name route : Bytes) : Bytes := str "realm-egress-" ++ name ++ str "-" ++ route

def egressAssertions (w : Workload) (unit : Bytes) (e : Endpoint) (endpoint : Resolved) :
    List Assertion :=
  [⟨endpoint.unambiguous, unit ++ str ": service " ++ e.service ++
      str " must have exactly one catalog endpoint, or set an explicit target."⟩,
    ⟨endpoint.hasIdentity, unit ++
      str ": the destination must have an explicit SPIFFE ID or a catalog serverID."⟩,
    ⟨endpoint.transportMatches, unit ++ str ": the endpoint must use SPIFFE TLS."⟩,
    ⟨endpoint.identityMatches, unit ++ str ": verifyID must match the catalog serverID."⟩,
    ⟨decide (e.localPort = none) || w.privateNetwork, unit ++
      str ": localPort requires a private namespace."⟩]

/-- The arguments of the ghostunnel client. -/
def ghostunnelArgs (cfg : Realm) (unit : Bytes) (endpoint : Resolved) : List Bytes :=
  [cfg.ghostunnelPackage ++ str "/bin/ghostunnel",
    str "client",
    str "--use-workload-api",
    str "--cacert", cfg.cacert ++ str "/etc/ssl/certs/ca-bundle.crt",
    str "--use-workload-api-addr", str "unix://" ++ cfg.spireSocket,
    str "--listen", str "systemd:egress",
    str "--verify-uri", endpoint.serverID,
    str "--max-conn-lifetime", str "1h",
    str "--shutdown-timeout", str "15s",
    str "--target", endpoint.target] ++
  cfg.statusPorts.elim [] fun ports =>
    [str "--status=https://127.0.0.1:" ++ natDigits (ports unit)]

/-- The loopback adapter of an egress. -/
def localAdapter (cfg : Realm) (name : Bytes) (w : Workload) (route : Bytes) (e : Endpoint) :
    Outputs :=
  match e.localPort with
  | none => .empty
  | some localPort =>
    if w.runtime = .systemd ∨ (w.socksProxy ∧ route = str "internet") then
      let unit := str "realm-local-" ++ name ++ str "-" ++ route
      { Outputs.empty with
        sockets := [(unit, [str "127.0.0.1:" ++ natDigits localPort])]
        services := [(unit, ⟨proxyUser name, .line
          (cfg.systemdPackage ++ str "/lib/systemd/systemd-socket-proxyd " ++
            egressSocket name route e)⟩)] }
    else .empty

def egress (cfg : Realm) (name : Bytes) (w : Workload) (route : Bytes) (e : Endpoint) : Outputs :=
  let unit := egressUnit name route
  let endpoint := resolve cfg.catalog e
  .merge [
    { assertions := egressAssertions w unit e endpoint
      registrations := [(unit, ⟨w.spiffeID,
        [str "systemd:id:" ++ unit ++ str ".service", str "unix:user:" ++ proxyUser name]⟩)]
      sockets := [(unit, [egressSocket name route e])]
      services := [(unit, ⟨proxyUser name, .args (ghostunnelArgs cfg unit endpoint)⟩)] },
    localAdapter cfg name w route e]

/-- The part of `compile` that concerns the egresses. -/
def compile (cfg : Realm) : Outputs :=
  .merge (cfg.active.flatMap fun entry =>
    entry.2.egress.entries.map fun route => egress cfg entry.1 entry.2 route.1 route.2)

/-! ## The model module -/

structure Connection where
  workload : Bytes
  route : Bytes
  callerID : Bytes
  service : Bytes
  target : Bytes
  serverID : Bytes
  node : Option Bytes
  allowed : Option Bool

def connection (catalog : Catalog) (workload : Bytes) (w : Workload) (route : Bytes)
    (e : Endpoint) : Connection :=
  let resolved := resolve catalog e
  { workload
    route
    callerID := w.spiffeID
    service := e.service
    target := resolved.target
    serverID := resolved.serverID
    node :=
      match e.target, resolved.selected with
      | none, some c => some c.host
      | _, _ => e.node
    allowed :=
      match e.target, resolved.selected with
      | none, some c =>
        if c.publication.serverID = none then none
        else some (decide (w.spiffeID ∈ c.publication.allowedIDs))
      | _, _ => none }

def Realm.connections (cfg : Realm) : List Connection :=
  cfg.active.flatMap fun entry =>
    entry.2.egress.entries.map fun route => connection cfg.catalog entry.1 entry.2 route.1 route.2

def Realm.connectionAssertion (cfg : Realm) (c : Connection) : Assertion :=
  ⟨!cfg.rejectDeniedConnections || decide (c.allowed ≠ some false),
    str "realm.workloads." ++ c.workload ++ str ".egress." ++ c.route ++ str ": receiver " ++
      c.service ++ str " on " ++ c.node.getD [] ++ str " does not admit " ++ c.callerID ++ str "."⟩

/-- The identities of a workload name, which may be qualified by its host. -/
def Realm.identitiesFor (cfg : Realm) (reference : Bytes) : List Bytes :=
  (cfg.identityCatalog.entries.flatMap fun entry =>
    match split reference (chr '/') with
    | [host, name] => if entry.1 = host then (entry.2.get name).toList else []
    | _ => (entry.2.get reference).toList).eraseDups

def Backend.declared (b : Backend) : Bool :=
  (match b.kind with
    | .unix =>
      (b.path.any fun path => hasPrefix path (str "/")) && decide (b.port = none)
    | .native => decide (b.path = none ∧ b.port = none ∧ b.peerUser = none)
    | .privateTcp | .hostTcp => decide (b.path = none ∧ b.port ≠ none ∧ b.peerUser = none)) &&
  decide (b.kind ≠ .hostTcp ∨ b.address = .ipv4)

def Realm.ingressAssertions (cfg : Realm) (name route : Bytes) (i : Ingress) : List Assertion :=
  let path := str "realm.workloads." ++ name ++ str ".ingress." ++ route
  [⟨i.backend.all Backend.declared,
      path ++ str ".backend: declare the fields required by its kind."⟩,
    ⟨i.allow.workloads.all fun reference => decide ((cfg.identitiesFor reference).length = 1),
      path ++ str (".allow: workload references must resolve to one identity. " ++
        "Qualify ambiguous names as node/workload.")⟩,
    ⟨(i.allow.groups.all fun group => (cfg.groups.get group).isSome) &&
        i.allowedIDs.all fun id => hasPrefix id (str "spiffe://"),
      path ++ str ".allow: groups must exist and identities must be SPIFFE URIs."⟩]

def Realm.modelAssertions (cfg : Realm) : List Assertion :=
  cfg.connections.map cfg.connectionAssertion ++
    cfg.active.flatMap fun entry =>
      entry.2.ingress.entries.flatMap fun route => cfg.ingressAssertions entry.1 route.1 route.2

/-- The configuration evaluates: no assertion of the two modules fails. -/
structure Realm.Accepted (cfg : Realm) : Prop where
  egress : ∀ a ∈ (compile cfg).assertions, a.assertion = true
  model : ∀ a ∈ cfg.modelAssertions, a.assertion = true

/-! ## What resolution finds -/

/-- The catalog publishes `p` for the service on a host that the egress may use. -/
def Published (catalog : Catalog) (e : Endpoint) (host : Bytes) (p : Publication) : Prop :=
  (e.node = none ∨ e.node = some host) ∧ p.port ≠ none ∧
    ∃ published, catalog.get host = some published ∧ published.get e.service = some p

theorem mem_candidates {catalog : Catalog} {e : Endpoint} {c : Candidate} :
    c ∈ candidates catalog e.service e.node ↔
      c.service = e.service ∧ Published catalog e c.host c.publication := by
  obtain ⟨p, host, service⟩ := c
  simp only [candidates, List.mem_flatMap, Published, Table.get_eq_some_iff]
  constructor
  · rintro ⟨⟨host', published⟩, hhost, hp⟩
    dsimp only at hp
    split at hp
    · cases hp
    · rename_i q hq
      split at hp
      · rename_i hif
        cases List.mem_singleton.mp hp
        exact ⟨rfl, hif.1, hif.2, published, hhost, Table.get_eq_some_iff.mp hq⟩
      · cases hp
  · rintro ⟨rfl, hnode, hport, published, hhost, hp⟩
    refine ⟨(host, published), hhost, ?_⟩
    simp only [Table.get_eq_some_iff.mpr hp]
    rw [if_pos ⟨hnode, hport⟩]
    exact List.mem_singleton_self _

theorem selected_eq_some {l : List Candidate} {c : Candidate} (h : selected l = some c) :
    l = [c] := by
  unfold selected at h
  split at h
  · rw [Option.some.inj h]
  · cases h

section Resolve
variable {catalog : Catalog} {e : Endpoint} {c : Candidate}

/-- The selected candidate is the only publication that matches. -/
theorem resolve_selected (h : (resolve catalog e).selected = some c) :
    Published catalog e c.host c.publication ∧
      ∀ host p, Published catalog e host p → host = c.host ∧ p = c.publication := by
  have hone : candidates catalog e.service e.node = [c] := selected_eq_some h
  have hmem : c ∈ candidates catalog e.service e.node := by
    rw [hone]
    exact List.mem_singleton_self c
  refine ⟨(mem_candidates.mp hmem).2, ?_⟩
  intro host p hp
  have hother : (⟨p, host, e.service⟩ : Candidate) ∈ candidates catalog e.service e.node :=
    mem_candidates.mpr ⟨rfl, hp⟩
  rw [hone] at hother
  cases List.mem_singleton.mp hother
  exact ⟨rfl, rfl⟩

/-- What the four assertions about a resolved endpoint say without an explicit target. -/
theorem resolve_accepted (htarget : e.target = none)
    (hunambiguous : (resolve catalog e).unambiguous = true)
    (hidentity : (resolve catalog e).hasIdentity = true)
    (htransport : (resolve catalog e).transportMatches = true)
    (hmatches : (resolve catalog e).identityMatches = true) :
    ∃ c, (resolve catalog e).selected = some c ∧
      (resolve catalog e).target = c.publication.socketAddress ∧
      c.publication.transport = .spiffeTls ∧
      hasPrefix (resolve catalog e).serverID (str "spiffe://") = true ∧
      ∀ id, c.publication.serverID = some id → (resolve catalog e).serverID = id := by
  simp only [resolve, htarget] at hunambiguous hidentity htransport hmatches ⊢
  cases hc : selected (candidates catalog e.service e.node) with
  | none => simp [hc] at hunambiguous
  | some c =>
    simp only [hc, Option.bind_some, Option.all_some] at hidentity htransport hmatches ⊢
    refine ⟨c, rfl, rfl, by simpa using htransport, ?_, ?_⟩
    · -- the identity exists, so the empty text never stands for it
      generalize (if e.verifyID ≠ none then e.verifyID else c.publication.serverID) = identity
        at hidentity ⊢
      cases identity with
      | none => cases hidentity
      | some id => exact hidentity
    · intro id hid
      rw [hid] at hmatches ⊢
      cases hv : e.verifyID with
      | none => rfl
      | some v =>
        have hsame : v = id := by simpa [hv] using hmatches
        simp [hsame]

end Resolve

/-! ## The ghostunnel arguments -/

/-- The values of a flag among the words of a command line. -/
def flagValues (flag : Bytes) : List Bytes → List Bytes
  | a :: b :: rest => if a = flag then b :: flagValues flag rest else flagValues flag (b :: rest)
  | _ => []

theorem flagValues_skip {flag a : Bytes} (h : a ≠ flag) (l : List Bytes) :
    flagValues flag (a :: l) = flagValues flag l := by
  cases l with
  | nil => rfl
  | cons b rest => rw [flagValues, if_neg h]

theorem flagValues_absent {flag : Bytes} {l : List Bytes} (h : flag ∉ l) :
    flagValues flag l = [] := by
  induction l with
  | nil => rfl
  | cons a l ih =>
    rw [List.mem_cons, not_or] at h
    rw [flagValues_skip (Ne.symm h.1), ih h.2]

/-- A flag that stands once has one value. -/
theorem flagValues_once {flag v : Bytes} {l r : List Bytes} (hl : flag ∉ l) (hr : flag ∉ r) :
    flagValues flag (l ++ flag :: v :: r) = [v] := by
  induction l with
  | nil => rw [List.nil_append, flagValues, if_pos rfl, flagValues_absent hr]
  | cons a l ih =>
    rw [List.mem_cons, not_or] at hl
    rw [List.cons_append, flagValues_skip (Ne.symm hl.1), ih hl.2]

/-- A longer text is another word, whatever stands before it. -/
theorem ne_append_of_length {flag p : Bytes} (s : Bytes) (h : flag.length < p.length) :
    flag ≠ s ++ p := by
  intro heq
  have hlen := congrArg List.length heq
  rw [List.length_append] at hlen
  omega

theorem ne_append_of_prefix {flag p : Bytes} (s : Bytes) (h : hasPrefix flag p = false) :
    flag ≠ p ++ s := by
  rintro rfl
  rw [hasPrefix_append] at h
  cases h

theorem ghostunnel_flags (cfg : Realm) (unit : Bytes) {endpoint : Resolved}
    (hid : hasPrefix endpoint.serverID (str "spiffe://") = true)
    (htarget : hasPrefix endpoint.target (str "[") = true) :
    flagValues (str "--verify-uri") (ghostunnelArgs cfg unit endpoint) = [endpoint.serverID] ∧
      flagValues (str "--target") (ghostunnelArgs cfg unit endpoint) = [endpoint.target] := by
  have hpaths (flag : Bytes) (hlen : flag.length < 15)
      (hunix : hasPrefix flag (str "unix://") = false) :
      flag ≠ cfg.ghostunnelPackage ++ str "/bin/ghostunnel" ∧
        flag ≠ cfg.cacert ++ str "/etc/ssl/certs/ca-bundle.crt" ∧
        flag ≠ str "unix://" ++ cfg.spireSocket :=
    ⟨ne_append_of_length _ hlen, ne_append_of_length _ (Nat.lt_trans hlen (by decide)),
      ne_append_of_prefix _ hunix⟩
  have hstatus (flag : Bytes) (h : hasPrefix flag (str "--status=https://127.0.0.1:") = false) :
      flag ∉ cfg.statusPorts.elim [] fun ports =>
        [str "--status=https://127.0.0.1:" ++ natDigits (ports unit)] := by
    cases cfg.statusPorts with
    | none => exact List.not_mem_nil
    | some ports => simpa using ne_append_of_prefix _ h
  have hserver : str "--target" ≠ endpoint.serverID := by
    intro heq
    rw [← heq] at hid
    revert hid
    decide
  have hdestination : str "--verify-uri" ≠ endpoint.target := by
    intro heq
    rw [← heq] at htarget
    revert htarget
    decide
  constructor
  · have hbefore := hpaths (str "--verify-uri") (by decide) (by decide)
    have hafter := hstatus (str "--verify-uri") (by decide)
    refine flagValues_once (l := [_, _, _, _, _, _, _, _, _]) (v := endpoint.serverID)
      (r := [_, _, _, _, _, _] ++ _) ?_ ?_
    · simpa +decide using hbefore
    · simpa +decide [hdestination] using hafter
  · have hbefore := hpaths (str "--target") (by decide) (by decide)
    have hafter := hstatus (str "--target") (by decide)
    refine flagValues_once (l := [_, _, _, _, _, _, _, _, _, _, _, _, _, _, _])
      (v := endpoint.target) ?_ hafter
    simpa +decide [hserver] using hbefore

/-! ## The receiver admits the caller -/

/-- The process of an egress and the policy of the publication it reaches. -/
structure Agrees (cfg : Realm) (name : Bytes) (w : Workload) (route : Bytes) (e : Endpoint)
    (host : Bytes) (p : Publication) (args : List Bytes) : Prop where
  published : Published cfg.catalog e host p
  only : ∀ host' p', Published cfg.catalog e host' p' → host' = host ∧ p' = p
  transport : p.transport = .spiffeTls
  generated : (egressUnit name route, ⟨proxyUser name, .args args⟩) ∈ (compile cfg).services
  target : ∃ port, p.port = some port ∧ flagValues (str "--target") args =
    [str "[" ++ p.address ++ str "]:" ++ natDigits port]
  identity : ∃ uri, flagValues (str "--verify-uri") args = [uri] ∧
    hasPrefix uri (str "spiffe://") = true ∧
    ∀ id, p.serverID = some id → uri = id ∧ w.spiffeID ∈ p.allowedIDs

section Accepted
variable {cfg : Realm} {name route : Bytes} {w : Workload} {e : Endpoint}

theorem mem_active (hw : cfg.workloads.get name = some w) (henable : w.enable = true) :
    (name, w) ∈ cfg.active :=
  List.mem_filter.mpr ⟨Table.get_eq_some_iff.mp hw, henable⟩

theorem egress_outputs (hw : (name, w) ∈ cfg.active) (he : w.egress.get route = some e) :
    (∀ a ∈ (egress cfg name w route e).assertions, a ∈ (compile cfg).assertions) ∧
      ∀ s ∈ (egress cfg name w route e).services, s ∈ (compile cfg).services := by
  have hmem : egress cfg name w route e ∈ cfg.active.flatMap fun entry =>
      entry.2.egress.entries.map fun route => egress cfg entry.1 entry.2 route.1 route.2 := by
    apply List.mem_flatMap.mpr
    exact ⟨(name, w), hw, List.mem_map.mpr ⟨(route, e), Table.get_eq_some_iff.mp he, rfl⟩⟩
  constructor
  · intro a ha
    exact List.mem_flatMap.mpr ⟨_, hmem, ha⟩
  · intro s hs
    exact List.mem_flatMap.mpr ⟨_, hmem, hs⟩

/-- A receiver that declares an identity admits every caller that is declared. -/
theorem admitted (hreject : cfg.rejectDeniedConnections = true)
    (hmodel : ∀ a ∈ cfg.modelAssertions, a.assertion = true)
    (hw : (name, w) ∈ cfg.active) (he : w.egress.get route = some e) (htarget : e.target = none)
    {c : Candidate} (hc : (resolve cfg.catalog e).selected = some c) {id : Bytes}
    (hid : c.publication.serverID = some id) : w.spiffeID ∈ c.publication.allowedIDs := by
  have hmem : connection cfg.catalog name w route e ∈ cfg.connections := by
    apply List.mem_flatMap.mpr
    exact ⟨(name, w), hw, List.mem_map.mpr ⟨(route, e), Table.get_eq_some_iff.mp he, rfl⟩⟩
  have hassertion := hmodel _ (List.mem_append_left _
    (List.mem_map_of_mem (f := cfg.connectionAssertion) hmem))
  simpa [Realm.connectionAssertion, connection, hreject, htarget, hc, hid] using hassertion

/-- Every egress without an explicit target reaches the one publication of its service, verifies
the identity that it declares, and is admitted by it. -/
theorem egress_agrees (hreject : cfg.rejectDeniedConnections = true) (haccepted : cfg.Accepted)
    (hw : cfg.workloads.get name = some w) (henable : w.enable = true)
    (he : w.egress.get route = some e) (htarget : e.target = none) :
    ∃ host p args, Agrees cfg name w route e host p args := by
  have hactive := mem_active hw henable
  obtain ⟨hassertions, hservices⟩ := egress_outputs hactive he
  have hheld : ∀ a ∈ egressAssertions w (egressUnit name route) e (resolve cfg.catalog e),
      a.assertion = true := by
    intro a ha
    apply haccepted.egress a
    apply hassertions a
    exact List.mem_append_left _ ha
  simp only [egressAssertions, List.forall_mem_cons] at hheld
  obtain ⟨hunambiguous, hidentity, htransport, hmatches, -⟩ := hheld
  obtain ⟨c, hc, haddress, htls, hprefix, hid⟩ :=
    resolve_accepted htarget hunambiguous hidentity htransport hmatches
  obtain ⟨hpublished, honly⟩ := resolve_selected hc
  have hbracket : hasPrefix (resolve cfg.catalog e).target (str "[") = true := by
    rw [haddress, Publication.socketAddress, List.append_assoc, List.append_assoc]
    exact hasPrefix_append _ _
  obtain ⟨hverify, hdestination⟩ :=
    ghostunnel_flags cfg (egressUnit name route) hprefix hbracket
  refine ⟨c.host, c.publication, ghostunnelArgs cfg (egressUnit name route) (resolve cfg.catalog e),
    hpublished, honly, htls, ?_, ?_, ?_⟩
  · apply hservices
    exact List.mem_append_left _ (List.mem_singleton_self _)
  · obtain ⟨port, hport⟩ := Option.ne_none_iff_exists'.mp hpublished.2.1
    refine ⟨port, hport, ?_⟩
    rw [hdestination, haddress, Publication.socketAddress, hport, portText]
  · refine ⟨_, hverify, hprefix, ?_⟩
    intro id hdeclared
    exact ⟨hid id hdeclared, admitted hreject haccepted.model hactive he htarget hc hdeclared⟩

end Accepted

def sampleCaller : Bytes := str "spiffe://test/service/app"

def samplePublication : Publication :=
  ⟨str "fd00::2", some (str "spiffe://test/service/loki"), [sampleCaller], .spiffeTls, some 3100⟩

def sampleEndpoint : Endpoint := ⟨str "loki", none, none, none, none, none⟩

def sampleWorkload : Workload :=
  ⟨true, str "app", .systemd, sampleCaller, true, false, ⟨[(str "loki", sampleEndpoint)], by decide⟩,
    .empty⟩

/-- One workload on a node, and the service that it uses on another one. -/
def sampleRealm : Realm :=
  { ghostunnelPackage := str "/nix/store/ghostunnel"
    cacert := str "/nix/store/cacert"
    spireSocket := str "/run/spire/agent.sock"
    systemdPackage := str "/nix/store/systemd"
    statusPorts := none
    catalog := ⟨[(str "beta", ⟨[(str "loki", samplePublication)], by decide⟩)], by decide⟩
    workloads := ⟨[(str "app", sampleWorkload)], by decide⟩
    identityCatalog := .empty
    groups := .empty
    rejectDeniedConnections := true }

theorem egress_agrees_sampleRealm :
    sampleRealm.Accepted ∧ ∃ host p args,
      Agrees sampleRealm (str "app") sampleWorkload (str "loki") sampleEndpoint host p args :=
  have haccepted : sampleRealm.Accepted := ⟨by decide, by decide⟩
  ⟨haccepted, egress_agrees rfl haccepted rfl rfl rfl rfl⟩

end RealmFormal.Nix

import RealmFormal.IdentityMetrics.Workloads

/-!
# Configuration of the identity exporter

`Config.validate` and the identities that a configuration stands for. The SPIFFE
library is a parameter: `trustDomainFromString` and `fromString` are what its
parsers return, as far as they are looked at.
-/

namespace RealmFormal.IdentityMetrics
open Go Go.Netip
set_option autoImplicit false

structure Settings where
  node : Bytes
  trustDomain : Bytes
  listenAddress : Bytes
  bundlePath : Bytes
  serverAddress : Bytes
  workloadSocket : Bytes
  serverAdminSocket : Bytes
  spireServerBinary : Bytes
  nodes : List Bytes
  systemctlBinary : Bytes
  workloads : List DeclaredTarget

namespace Settings

/-- What the exporter reads of its settings at scrape time. -/
def config (c : Settings) : Config :=
  ⟨c.node, c.serverAdminSocket, c.workloads.map DeclaredTarget.toWorkloadTarget⟩

def workloadSettings (c : Settings) : WorkloadSettings :=
  ⟨c.trustDomain, c.systemctlBinary, c.workloads⟩

def canaryID (c : Settings) : Bytes :=
  str "spiffe://" ++ c.trustDomain ++ str "/observer/identity/" ++ c.node

def agentID (c : Settings) (node : Bytes) : Bytes :=
  str "spiffe://" ++ c.trustDomain ++ str "/spire/agent/http_fqdn/" ++ node

def aliasID (c : Settings) (node : Bytes) : Bytes :=
  str "spiffe://" ++ c.trustDomain ++ str "/agent/" ++ node

end Settings

/-! ## Validation -/

def isNodeEnd (b : UInt8) : Bool := isLower b || isDigit b

def isNodeByte (b : UInt8) : Bool := isNodeEnd b || decide (b = chr '.' ∨ b = chr '-')

/-- `nodePattern`. -/
def nodeMatch (s : Bytes) : Bool :=
  match s with
  | [] => false
  | c :: rest =>
    isNodeEnd c && (decide (rest = []) || decide (rest.length ≤ 62) &&
      rest.getLast?.any isNodeEnd && rest.dropLast.all isNodeByte)

def validNode (node : Bytes) : Bool := nodeMatch node && (split node (chr '.')).all nodeMatch

/-- The loop over the nodes with those seen so far. -/
def validNodes : List Bytes → List Bytes → Bool
  | _, [] => true
  | seen, node :: rest => validNode node && decide (node ∉ seen) && validNodes (node :: seen) rest

def validServerAddress (address : Bytes) : Bool :=
  (splitHostPort address).any fun hostPort =>
    decide (hostPort.1 ≠ [] ∧ hostPort.1.length ≤ 253) && validPort hostPort.2

section Validate
variable (trustDomainFromString : Bytes → Option Bytes) (fromString : Bytes → Option SpiffeID)

def Settings.validate (c : Settings) : Except String Unit :=
  let admin := c.serverAdminSocket ≠ [] ∨ c.spireServerBinary ≠ []
  if ¬ validNode c.node then .error "invalid node"
  else if trustDomainFromString c.trustDomain ≠ some c.trustDomain ∨ c.trustDomain = [] then
    .error "invalid trust_domain"
  else if ¬ loopbackAddress c.listenAddress then
    .error "listen_address must use a loopback IP and port"
  else if ¬ validServerAddress c.serverAddress then .error "invalid server_address"
  else if ¬ (cleanAbsolute c.bundlePath ∧ cleanAbsolute c.workloadSocket) then
    .error "file and socket paths must be absolute"
  else if admin ∧ (c.node ≠ str "eihort" ∨ ¬ cleanAbsolute c.serverAdminSocket ∨
      ¬ cleanAbsolute c.spireServerBinary ∨
      Filepath.base c.spireServerBinary ≠ str "spire-server") then
    .error "admin collection requires Eihort and absolute socket and spire-server paths"
  else if c.nodes.length > 128 then .error "too many nodes"
  else if ¬ validNodes [] c.nodes then .error "invalid or duplicate cohort node"
  else if c.nodes.length > 0 ∧ ¬ admin then .error "nodes require admin collection"
  else if admin ∧ c.nodes.length = 0 then .error "admin collection requires explicit nodes"
  else c.workloadSettings.validateWorkloads fromString

end Validate

end RealmFormal.IdentityMetrics

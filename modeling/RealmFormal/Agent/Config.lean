import RealmFormal.Go.Unmarshal
import RealmFormal.Go.Netip
import RealmFormal.Go.Filepath

/-!
# Configuration of realm-agent

`decodeConfig` and `workload.validate`. `net/url` is a parameter: `parseURL` is
what `url.Parse` makes of a text, as far as `validate` looks at it. The order in
which a map is visited decides only which of several errors is reported.
-/

namespace RealmFormal.Agent
open Go Go.Json
set_option autoImplicit false

structure Route where
  prefixText : Bytes
  port : UInt16
  socket : Bytes
  deriving DecidableEq

structure Workload where
  name : Bytes
  unit : Bytes
  user : Bytes
  group : Bytes
  workerUser : Bytes
  socket : Bytes
  internetSocket : Bytes
  internetPorts : List UInt16
  dnsUpstream : Bytes
  dnsHosts : Table Bytes (List Bytes)
  routes : List Route
  tcpPort : UInt16
  dnsBase : UInt16
  maxConnections : Int
  workerMemoryMiB : Int
  workerTasks : Int
  workerCPUQuota : Int

structure Configuration where
  namespaceTool : Bytes
  caBundle : Bytes
  networkTool : Bytes
  workloads : List Workload

/-- A parsed URL: its scheme, its host without the port, and whether it has user
information. -/
structure Url where
  scheme : Bytes
  hostname : Bytes
  user : Bool

inductive WorkloadError where
  | text (message : String)
  | dnsAddress (address : Bytes)
  | routePrefix (prefixText : Bytes)
  deriving DecidableEq

inductive ConfigError where
  | decode
  | text (message : String)
  | workload (name : Bytes) (cause : WorkloadError)
  deriving DecidableEq

/-! ## Decoding -/

section Fields

/- What the decoder takes for the members of a struct: all of them, or none when a key is
unknown. -/
variable (fields : List Bytes → List Value → Option (List (Bytes × Value)))

def routeNames : List Bytes := [str "prefix", str "port", str "socket"]

def unmarshalRoute (vs : List Value) : Option Route :=
  (fields routeNames vs).bind fun ms =>
    (toText (fieldValues routeNames ms (str "prefix"))).bind fun prefixText =>
      (toUint16 (fieldValues routeNames ms (str "port"))).bind fun port =>
        (toText (fieldValues routeNames ms (str "socket"))).map fun socket =>
          ⟨prefixText, port, socket⟩

def workloadNames : List Bytes :=
  [str "name", str "unit", str "user", str "group", str "workerUser", str "socket",
    str "internetSocket", str "internetPorts", str "dnsUpstream", str "dnsHosts", str "routes",
    str "tcpPort", str "dnsBase", str "maxConnections", str "workerMemoryMiB", str "workerTasks",
    str "workerCPUQuota"]

def decodeWorkload (vs : List Value) : Option Workload :=
  (fields workloadNames vs).bind fun ms =>
    let field := fun name => fieldValues workloadNames ms (str name)
    (toText (field "name")).bind fun name =>
    (toText (field "unit")).bind fun unit =>
    (toText (field "user")).bind fun user =>
    (toText (field "group")).bind fun group =>
    (toText (field "workerUser")).bind fun workerUser =>
    (toText (field "socket")).bind fun socket =>
    (toText (field "internetSocket")).bind fun internetSocket =>
    (toSlice toUint16 (field "internetPorts")).bind fun internetPorts =>
    (toText (field "dnsUpstream")).bind fun dnsUpstream =>
    (toMap (fun v => toTexts [v]) (field "dnsHosts")).bind fun dnsHosts =>
    (toSlice (unmarshalRoute fields) (field "routes")).bind fun routes =>
    (toUint16 (field "tcpPort")).bind fun tcpPort =>
    (toUint16 (field "dnsBase")).bind fun dnsBase =>
    (toInt (field "maxConnections")).bind fun maxConnections =>
    (toInt (field "workerMemoryMiB")).bind fun workerMemoryMiB =>
    (toInt (field "workerTasks")).bind fun workerTasks =>
    (toInt (field "workerCPUQuota")).map fun workerCPUQuota =>
      { name, unit, user, group, workerUser, socket, internetSocket, internetPorts, dnsUpstream,
        dnsHosts, routes, tcpPort, dnsBase, maxConnections, workerMemoryMiB, workerTasks,
        workerCPUQuota }

end Fields

/-- With `DisallowUnknownFields`. -/
def unmarshalWorkload (vs : List Value) : Option Workload := decodeWorkload strictMembers vs

def configurationNames : List Bytes :=
  [str "namespaceTool", str "caBundle", str "networkTool", str "workloads"]

def unmarshalConfiguration (vs : List Value) : Option Configuration :=
  (strictMembers configurationNames vs).bind fun ms =>
    let field := fun name => fieldValues configurationNames ms (str name)
    (toText (field "namespaceTool")).bind fun namespaceTool =>
    (toText (field "caBundle")).bind fun caBundle =>
    (toText (field "networkTool")).bind fun networkTool =>
    (toSlice unmarshalWorkload (field "workloads")).map fun workloads =>
      { namespaceTool, caBundle, networkTool, workloads }

/-! ## Validation -/

/-- `^[a-z][a-z0-9-]{0,30}$`. -/
def isName (s : Bytes) : Bool :=
  match s with
  | [] => false
  | a :: t =>
    isLower a && decide (t.length ≤ 30) &&
      t.all fun b => isLower b || isDigit b || decide (b = chr '-')

def isUnitByte (b : UInt8) : Bool :=
  isLower b || isUpper b || isDigit b ||
    decide (b = chr '_' ∨ b = chr ':' ∨ b = chr '@' ∨ b = chr '.' ∨ b = chr '\\' ∨ b = chr '-')

/-- `^[a-zA-Z0-9_:@.\\-]+\.service$`. -/
def isServiceName (s : Bytes) : Bool :=
  let stem := s.take (s.length - (str ".service").length)
  hasSuffix s (str ".service") && decide (stem ≠ []) && stem.all isUnitByte

/-- A field with its zero value replaced by a default. -/
def orDefault {α : Type} [DecidableEq α] (value zero default : α) : α :=
  if value = zero then default else value

/-- The defaults that `validate` fills in. -/
def Workload.withDefaults (w : Workload) : Workload :=
  { w with
    tcpPort := orDefault w.tcpPort 0 15001
    dnsBase := orDefault w.dnsBase 0 15053
    maxConnections := orDefault w.maxConnections 0 256
    workerMemoryMiB := orDefault w.workerMemoryMiB 0 128
    workerTasks := orDefault w.workerTasks 0 64
    workerCPUQuota := orDefault w.workerCPUQuota 0 100
    dnsUpstream := orDefault w.dnsUpstream [] (str "https://cloudflare-dns.com/dns-query") }

/-- Sums of ports are taken modulo 65536. -/
def portsOverlap (tcpPort dnsBase : UInt16) : Bool :=
  decide (dnsBase > 65528 ∨ (tcpPort ≥ dnsBase ∧ tcpPort < dnsBase + 8) ∨ tcpPort = 53 ∨
    (dnsBase ≤ 53 ∧ dnsBase + 7 ≥ 53))

def isHTTPS (u : Option Url) : Bool :=
  u.any fun u => decide (u.scheme = str "https" ∧ u.hostname ≠ []) && !u.user

def checkHost (host : Bytes × List Bytes) : Option WorkloadError :=
  if host.1 = [] ∨ (host.1.any fun b => decide (b ∈ str " \n\t/")) ∨ host.2.length = 0 then
    some (.text "invalid DNS host")
  else (host.2.find? fun s => (Netip.parseAddr s).isNone).map .dnsAddress

def checkRoute (r : Route) : Option WorkloadError :=
  if (Netip.parsePrefix r.prefixText).isNone then some (.routePrefix r.prefixText)
  else if r.port = 0 ∨ ¬ Filepath.isAbs r.socket then
    some (.text "routes need a port and absolute socket")
  else none

section Validate
variable (parseURL : Bytes → Option Url)

/-- The checks of `validate` in their order; the first that fails gives the error. -/
def Workload.check (w : Workload) : Option WorkloadError :=
  let d := w.withDefaults
  if !isName w.name then some (.text "invalid name")
  else if w.unit ≠ [] ∧ !isServiceName w.unit then
    some (.text "unit must be a concrete system service name")
  else if w.user = [] ∨ w.user = str "root" ∨ w.workerUser = [] ∨ w.workerUser = str "root" ∨
      w.user = w.workerUser ∨ w.group = [] ∨ w.group = str "root" then
    some (.text "distinct unprivileged application and worker accounts are required")
  else if !Filepath.isAbs w.socket then some (.text "socket must be absolute")
  else if portsOverlap d.tcpPort d.dnsBase then
    some (.text "invalid or overlapping listener ports")
  else if d.maxConnections < 1 ∨ d.maxConnections > 4096 then
    some (.text "maxConnections must be 1..4096")
  else if d.workerMemoryMiB < 32 ∨ d.workerMemoryMiB > 4096 ∨ d.workerTasks < 16 ∨
      d.workerTasks > 512 ∨ d.workerCPUQuota < 1 ∨ d.workerCPUQuota > 800 then
    some (.text "invalid worker resource budget")
  else if w.internetSocket ≠ [] ∧ !Filepath.isAbs w.internetSocket then
    some (.text "internetSocket must be absolute")
  else if !isHTTPS (parseURL d.dnsUpstream) then
    some (.text "dnsUpstream must be an HTTPS URL without credentials")
  else if 0 ∈ w.internetPorts then some (.text "invalid Internet port")
  else
    match w.dnsHosts.entries.findSome? checkHost with
    | some e => some e
    | none => w.routes.findSome? checkRoute

def Workload.validate (w : Workload) : Except WorkloadError Workload :=
  match w.check parseURL with
  | some e => .error e
  | none => .ok w.withDefaults

/-- The loop of `decodeConfig`: `done` holds the workloads validated so far. -/
def validateAll (done : List Workload) : List Workload → Except ConfigError (List Workload)
  | [] => .ok done
  | w :: rest =>
    match w.validate parseURL with
    | .error e => .error (.workload w.name e)
    | .ok v =>
      if (done.any fun d => decide (d.name = v.name ∨ d.socket = v.socket ∨
          Filepath.dir d.socket = Filepath.dir v.socket)) then
        .error (.text "duplicate workload or control socket")
      else validateAll (done ++ [v]) rest

/-- The defaults of the configuration itself. -/
def Configuration.withDefaults (c : Configuration) : Configuration :=
  { c with
    namespaceTool := orDefault c.namespaceTool [] (str "/run/current-system/sw/bin/nsenter")
    networkTool := orDefault c.networkTool [] (str "/run/current-system/sw/bin/ip")
    caBundle := orDefault c.caBundle [] (str "/etc/ssl/certs/ca-certificates.crt") }

/-- The decoder sees the first megabyte of the file. -/
def configLimit : Nat := 2 ^ 20

def decodeConfig (raw : Bytes) : Except ConfigError Configuration :=
  let data := raw.take configLimit
  match parseValue (data.length + 1) data with
  | none => .error .decode
  | some (v, rest) =>
    match unmarshalConfiguration [v] with
    | none => .error .decode
    | some config =>
      let c := config.withDefaults
      if skipSpace rest ≠ [] then .error (.text "configuration must contain one JSON object")
      else if !Filepath.isAbs c.networkTool then .error (.text "networkTool must be absolute")
      else if !Filepath.isAbs c.namespaceTool then .error (.text "namespaceTool must be absolute")
      else if !Filepath.isAbs c.caBundle then .error (.text "caBundle must be absolute")
      else
        match validateAll parseURL [] c.workloads with
        | .error e => .error e
        | .ok workloads => .ok { c with workloads := workloads }

/-! ## Accepted workloads -/

/-- What `validate` has checked of a workload it accepted, defaults included. -/
structure Accepted (w : Workload) : Prop where
  name : isName w.name = true
  unit : w.unit = [] ∨ isServiceName w.unit = true
  socket : Filepath.isAbs w.socket = true
  ports : portsOverlap w.tcpPort w.dnsBase = false
  connections : 1 ≤ w.maxConnections ∧ w.maxConnections ≤ 4096
  internetSocket : w.internetSocket = [] ∨ Filepath.isAbs w.internetSocket = true
  dnsUpstream : isHTTPS (parseURL w.dnsUpstream) = true
  internetPorts : 0 ∉ w.internetPorts
  dnsHosts : ∀ host ∈ w.dnsHosts.entries, checkHost host = none
  routes : ∀ r ∈ w.routes, checkRoute r = none

theorem passed {p : Prop} [Decidable p] {e : WorkloadError} {rest : Option WorkloadError}
    (h : (if p then some e else rest) = none) : ¬ p ∧ rest = none := by
  split at h
  · cases h
  · exact ⟨by assumption, h⟩

theorem validate_eq {parseURL : Bytes → Option Url} {w v : Workload}
    (h : w.validate parseURL = .ok v) : v = w.withDefaults := by
  unfold Workload.validate at h
  split at h
  · cases h
  · cases h
    rfl

theorem validate_accepted {parseURL : Bytes → Option Url} {w v : Workload}
    (h : w.validate parseURL = .ok v) : Accepted parseURL v := by
  unfold Workload.validate at h
  split at h
  · cases h
  rename_i hcheck
  cases h
  obtain ⟨hname, hcheck⟩ := passed hcheck
  obtain ⟨hunit, hcheck⟩ := passed hcheck
  obtain ⟨-, hcheck⟩ := passed hcheck
  obtain ⟨hsocket, hcheck⟩ := passed hcheck
  obtain ⟨hports, hcheck⟩ := passed hcheck
  obtain ⟨hconnections, hcheck⟩ := passed hcheck
  obtain ⟨-, hcheck⟩ := passed hcheck
  obtain ⟨hinternet, hcheck⟩ := passed hcheck
  obtain ⟨hdns, hcheck⟩ := passed hcheck
  obtain ⟨hzero, hcheck⟩ := passed hcheck
  split at hcheck
  · cases hcheck
  rename_i hhosts
  constructor
  case name => simpa [Workload.withDefaults] using hname
  case unit =>
    show w.unit = [] ∨ isServiceName w.unit = true
    by_contra hbad
    push Not at hbad
    exact hunit ⟨hbad.1, by simpa using hbad.2⟩
  case socket => simpa [Workload.withDefaults] using hsocket
  case ports => simpa using hports
  case connections => omega
  case internetSocket =>
    show w.internetSocket = [] ∨ Filepath.isAbs w.internetSocket = true
    by_contra hbad
    push Not at hbad
    exact hinternet ⟨hbad.1, by simpa using hbad.2⟩
  case dnsUpstream => simpa using hdns
  case internetPorts => exact hzero
  case dnsHosts => exact List.findSome?_eq_none_iff.mp hhosts
  case routes => exact List.findSome?_eq_none_iff.mp hcheck

end Validate

section Decoded
variable {parseURL : Bytes → Option Url}

theorem validateAll_mem {done workloads result : List Workload}
    (h : validateAll parseURL done workloads = .ok result) :
    ∀ v ∈ result, v ∈ done ∨ ∃ w ∈ workloads, w.validate parseURL = .ok v := by
  induction workloads generalizing done with
  | nil =>
    cases h
    exact fun v hv => .inl hv
  | cons w rest ih =>
    rw [validateAll] at h
    split at h
    · cases h
    · rename_i d hd
      split at h
      · cases h
      · intro v hv
        rcases ih h v hv with hmem | ⟨x, hx, hvalid⟩
        · rcases List.mem_append.mp hmem with hmem | hmem
          · exact .inl hmem
          · cases List.mem_singleton.mp hmem
            exact .inr ⟨w, List.mem_cons_self, hd⟩
        · exact .inr ⟨x, List.mem_cons_of_mem w hx, hvalid⟩

/-- Where the parts of an accepted configuration come from. -/
theorem decodeConfig_ok {raw : Bytes} {config : Configuration}
    (h : decodeConfig parseURL raw = .ok config) :
    ∃ n r decoded, parseValue n (raw.take configLimit) = some r ∧
      unmarshalConfiguration [r.1] = some decoded ∧
      config.caBundle = decoded.withDefaults.caBundle ∧
      ∀ v ∈ config.workloads, ∃ w ∈ decoded.workloads, w.validate parseURL = .ok v := by
  unfold decodeConfig at h
  dsimp only at h
  split at h
  · cases h
  rename_i value rest hparse
  split at h
  · cases h
  rename_i decoded hdecoded
  repeat' split at h
  all_goals cases h
  rename_i workloads hall
  refine ⟨_, _, decoded, hparse, hdecoded, rfl, fun v hv => ?_⟩
  exact (validateAll_mem hall v hv).resolve_left List.not_mem_nil

end Decoded

/-- What `url.Parse` makes of the default upstream. -/
def sampleUpstream (_ : Bytes) : Option Url := some ⟨str "https", str "cloudflare-dns.com", false⟩

end RealmFormal.Agent

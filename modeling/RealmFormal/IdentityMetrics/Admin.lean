import RealmFormal.Go.Unmarshal
import RealmFormal.IdentityMetrics.Settings

/-!
# What the SPIRE server says about agents and aliases

`parseAgents` and `aliasMetadata` read the answers of the admin commands,
`collectAgents` and `collectAliases` turn them into samples. A command is known by
what it returned and by the reading of the clock that follows it.
-/

namespace RealmFormal.IdentityMetrics
open Go Go.Json
set_option autoImplicit false

def maxAdminBytes : Nat := 8 * 2 ^ 20

structure PublicID where
  trustDomain : Bytes
  path : Bytes
  deriving DecidableEq

def PublicID.equals (id : PublicID) (domain path : Bytes) : Bool :=
  decide (id.trustDomain = domain ∧ id.path = path)

def publicIDNames : List Bytes := [str "trust_domain", str "path"]

def unmarshalPublicID (vs : List Value) : Option PublicID :=
  (members vs).bind fun ms =>
    (toText (fieldValues publicIDNames ms (str "trust_domain"))).bind fun trustDomain =>
      (toText (fieldValues publicIDNames ms (str "path"))).map fun path => ⟨trustDomain, path⟩

/-! ## Agents -/

structure AgentRecord where
  id : PublicID
  attestationType : Bytes
  banned : Option Bool
  canReattest : Option Bool
  expires : Bytes

structure AgentResult where
  node : Bytes
  notAfter : Int
  valid : Bool

/-- A `*bool` target, which `null` sets to nil. -/
def toBoolPointer (vs : List Value) : Option (Option Bool) :=
  vs.foldlM (fun _ v =>
    match v with
    | .null => some none
    | .bool b => some (some b)
    | _ => none) none

def agentNames : List Bytes :=
  [str "id", str "attestation_type", str "banned", str "can_reattest", str "x509svid_expires_at"]

def unmarshalAgent (vs : List Value) : Option AgentRecord :=
  (members vs).bind fun ms =>
    let field := fun name => fieldValues agentNames ms (str name)
    (unmarshalPublicID (field "id")).bind fun id =>
    (toText (field "attestation_type")).bind fun attestationType =>
    (toBoolPointer (field "banned")).bind fun banned =>
    (toBoolPointer (field "can_reattest")).bind fun canReattest =>
    (toText (field "x509svid_expires_at")).map fun expires =>
      { id, attestationType, banned, canReattest, expires }

/-- A pointer to a slice: `null` makes it nil, and another value is decoded onto the slice that
is there. -/
def toSlicePointer {α : Type} (decode : List Value → Option α) (vs : List Value) :
    Option (Option (List α)) :=
  (toSlice decode vs).map fun slice =>
    match vs.getLast? with
    | none => none
    | some .null => none
    | some _ => some slice

/-- The agents of the envelope; `none` for every error. -/
def unmarshalAgents (raw : Bytes) : Option (List AgentRecord) :=
  if raw.length > maxAdminBytes then none
  else
    ((parseDocument raw).bind fun v => (members [v]).bind fun ms =>
      toSlicePointer unmarshalAgent (fieldValues [str "agents"] ms (str "agents"))).join

def agentExpiry (a : AgentRecord) : Int :=
  match parseInt64 a.expires with
  | some expiry => if expiry > 0 ∧ expiry ≤ 253402300799 then expiry else 0
  | none => 0

def agentResult (agents : List AgentRecord) (c : Settings) (now : Time) (node : Bytes) :
    AgentResult :=
  match agents.filter fun a =>
      a.id.equals c.trustDomain (str "/spire/agent/http_fqdn/" ++ node) with
  | [a] =>
    ⟨node, agentExpiry a, decide (agentExpiry a > now.unix ∧
      a.attestationType = str "http_fqdn" ∧ a.banned = some false ∧ a.canReattest = some true)⟩
  | _ => ⟨node, 0, false⟩

/-- The results, which come with an error unless all agents are valid. -/
def parseAgents (raw : Bytes) (c : Settings) (now : Time) : List AgentResult × Option String :=
  match unmarshalAgents raw with
  | none => ([], some "agents_json")
  | some agents =>
    let results := c.nodes.map (agentResult agents c now)
    (results, if results.all fun r => r.valid then none else some "agents_metadata")

/-- What a command returned, and the clock after it. -/
structure Answer where
  raw : Bytes
  err : Option String
  now : Time

/-- The samples of one node. -/
def agentSamples (c : Settings) (found : Table Bytes AgentResult) (node : Bytes) : List Sample :=
  let a := (found.get node).getD ⟨[], 0, false⟩
  ⟨.agentValid, [(str "node", node)], boolFloat a.valid⟩ ::
    if a.notAfter > 0 then
      [⟨.certificateNotAfter, [(str "node", node), (str "kind", str "agent"),
        (str "identity", c.aliasID node)], float64 a.notAfter⟩]
    else []

def agentValidUntil (found : Table Bytes AgentResult) (validUntil : Time) (node : Bytes) : Time :=
  let a := (found.get node).getD ⟨[], 0, false⟩
  if a.notAfter > 0 then earlier validUntil (Time.ofUnix a.notAfter) else validUntil

def collectAgents (c : Settings) (answer : Answer) : Outcome :=
  let parsed :=
    if answer.err.isSome then ([], answer.err) else parseAgents answer.raw c answer.now
  let found := parsed.1.foldl (fun t a => t.put a.node a) Table.empty
  { name := str "agents"
    samples := c.nodes.flatMap (agentSamples c found)
    err := parsed.2
    validUntil := c.nodes.foldl (agentValidUntil found) .zero }

/-! ## Aliases -/

structure Selector where
  type : Bytes
  value : Bytes
  deriving DecidableEq

structure EntryRecord where
  id : PublicID
  parent : PublicID
  selectors : List Selector
  expires : Bytes
  deriving DecidableEq

def selectorNames : List Bytes := [str "type", str "value"]

def unmarshalSelector (vs : List Value) : Option Selector :=
  (members vs).bind fun ms =>
    (toText (fieldValues selectorNames ms (str "type"))).bind fun type =>
      (toText (fieldValues selectorNames ms (str "value"))).map fun value => ⟨type, value⟩

def entryNames : List Bytes :=
  [str "spiffe_id", str "parent_id", str "selectors", str "expires_at"]

def unmarshalEntry (vs : List Value) : Option EntryRecord :=
  (members vs).bind fun ms =>
    let field := fun name => fieldValues entryNames ms (str name)
    (unmarshalPublicID (field "spiffe_id")).bind fun id =>
    (unmarshalPublicID (field "parent_id")).bind fun parent =>
    (toSlice unmarshalSelector (field "selectors")).bind fun selectors =>
    (toText (field "expires_at")).map fun expires => { id, parent, selectors, expires }

/-- The only entry of the envelope; `none` for every error. -/
def unmarshalEntries (raw : Bytes) : Option EntryRecord :=
  if raw.length > maxAdminBytes then none
  else
    match (parseDocument raw).bind fun v => (members [v]).bind fun ms =>
        toSlice unmarshalEntry (fieldValues [str "entries"] ms (str "entries")) with
    | some [entry] => some entry
    | _ => none

/-- The entry is the alias of this node. -/
def EntryRecord.matchesAlias (entry : EntryRecord) (c : Settings) (node : Bytes) : Bool :=
  entry.id.equals c.trustDomain (str "/agent/" ++ node) &&
    entry.parent.equals c.trustDomain (str "/spire/agent/http_fqdn/" ++ node) &&
    decide (entry.selectors = [⟨str "spiffe_id", c.agentID node⟩])

/-- The expiry of an entry and whether it is still ahead; the zero time stands for none. -/
def EntryRecord.expiry (entry : EntryRecord) (now : Time) : Option Time :=
  if entry.expires = [] ∨ entry.expires = str "0" then some .zero
  else
    match parseInt64 entry.expires with
    | none => none
    | some expiry => if expiry ≤ now.unix then none else some (Time.ofUnix expiry)

def aliasMetadata (raw : Bytes) (c : Settings) (node : Bytes) (now : Time) : Time × Bool :=
  match unmarshalEntries raw with
  | none => (.zero, false)
  | some entry =>
    match entry.expiry now with
    | none => (.zero, false)
    | some validUntil => (validUntil, entry.matchesAlias c node)

/-- One turn of the loop of `collectAliases`. -/
def aliasStep (c : Settings) (o : Outcome) (call : Bytes × Answer) : Outcome :=
  let metadata := aliasMetadata call.2.raw c call.1 call.2.now
  let valid := call.2.err.isNone && metadata.2
  { o with
    samples := o.samples ++ [⟨.aliasMatches, [(str "node", call.1)], boolFloat valid⟩]
    err := if valid then o.err else some (call.2.err.getD "alias_metadata")
    validUntil := if valid then earlier o.validUntil metadata.1 else o.validUntil }

/-- The commands run node by node; `calls` pairs each node with the answer for it. -/
def collectAliases (c : Settings) (calls : List (Bytes × Answer)) : Outcome :=
  calls.foldl (aliasStep c) ⟨str "aliases", [], none, .zero⟩

end RealmFormal.IdentityMetrics

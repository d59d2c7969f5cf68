import RealmFormal.NodeAttest.Protocol
import RealmFormal.NodeAttest.Metrics
import RealmFormal.Lib.Table

/-!
# The attestation server

`NewServer`, and the operations of one server in the pieces between which other
goroutines can run: `Begin`, the two locked sections of `Verify` with the fetch
between them, the two locked sections of `Close`, and the success quota. An
attempt is named by its position in the order of creation.
-/

namespace RealmFormal.NodeAttest
open Go Go.Json Go.Netip
set_option autoImplicit false

structure NodePolicy where
  fqdn : Bytes
  addresses : List Bytes

structure ServerConfig where
  trustDomain : Bytes
  nodes : Table Bytes NodePolicy
  port : Int
  trustHTTPTransport : Bool
  metricsAddress : Bytes

structure Node where
  name : Bytes
  fqdn : Bytes
  addresses : List Addr
  deriving DecidableEq

structure Server where
  config : ServerConfig
  nodes : Table Bytes Node
  active : Table Bytes Nat
  recent : Bytes → List Int
  metrics : Option Metrics

structure Result where
  agentID : Bytes
  selectorValues : List Bytes
  deriving DecidableEq

inductive CtxErr where
  | canceled | deadlineExceeded
  deriving DecidableEq, Repr

def CtxErr.text : CtxErr → String
  | .canceled => "context canceled"
  | .deadlineExceeded => "context deadline exceeded"

structure ServerAttempt where
  node : Node
  request : Request
  challenge : Challenge
  rawChallenge : Bytes
  ctxErr : Option CtxErr
  verified : Bool
  closed : Bool

def validateMetricsAddress (address : Bytes) : Except String Unit :=
  if address = [] then .ok ()
  else
    match splitHostPort address with
    | none => .error "invalid metrics address"
    | some (host, port) =>
      match parseAddr host with
      | none => .error "metrics address must use a literal loopback IP"
      | some ip =>
        if ¬ ip.isLoopback ∨ ip.zone ≠ [] ∨ ip.is4In6 then
          .error "metrics address must use a literal loopback IP"
        else
          match atoi port with
          | none => .error "invalid metrics port"
          | some number =>
            if number < 0 ∨ number > 65535 then .error "invalid metrics port" else .ok ()

def validAddress (address : Addr) : Bool :=
  if address.zone ≠ [] ∨ address.is4In6 ∨ ¬ address.isGlobalUnicast ∨ address.isLoopback then false
  else
    match address with
    | .v4 bytes => decide (bytes.head ≠ 0 ∧ bytes.head.toNat < 224)
    | .v6 _ _ => true

/-- The loop over the pinned addresses of one policy; `seen` is what it has collected. -/
def pinAddresses (name : Bytes) (seen : List Addr) : List Bytes → Except String (List Addr)
  | [] => .ok seen
  | literal :: literals =>
    match parseAddr literal with
    | none => .error ("node " ++ text name ++ " has an invalid pinned address")
    | some address =>
      if ¬ validAddress address then
        .error ("node " ++ text name ++ " has an invalid pinned address")
      else if address ∈ seen then .error "duplicate pinned node address"
      else pinAddresses name (seen ++ [address]) literals

def pinNode (nodes : Table Bytes Node) (name : Bytes) (policy : NodePolicy) :
    Except String (Table Bytes Node) :=
  if ¬ isLabel name ∨ ¬ validFQDN policy.fqdn ∨ policy.addresses.length = 0 then
    .error "invalid node policy"
  else if (nodes.get policy.fqdn).isSome then .error "duplicate node FQDN"
  else if policy.addresses.length > 16 then .error "too many node addresses"
  else
    match pinAddresses name [] policy.addresses with
    | .error e => .error e
    | .ok addresses => .ok (nodes.put policy.fqdn ⟨name, policy.fqdn, addresses⟩)

/-- The loop over the configured nodes, in the order the map yields them. -/
def pinNodes (nodes : Table Bytes Node) :
    List (Bytes × NodePolicy) → Except String (Table Bytes Node)
  | [] => .ok nodes
  | (name, policy) :: rest =>
    match pinNode nodes name policy with
    | .error e => .error e
    | .ok nodes => pinNodes nodes rest

def newServer (config : ServerConfig) : Except String Server :=
  match validateMetricsAddress config.metricsAddress with
  | .error e => .error e
  | .ok () =>
    if ¬ config.trustHTTPTransport then
      .error "HTTP attestation requires an explicitly trusted verification path"
    else if ¬ validFQDN config.trustDomain ∨ config.port < 1 ∨ config.port > 65535 ∨
        config.nodes.size = 0 then
      .error "invalid server configuration"
    else
      match pinNodes Table.empty config.nodes.entries with
      | .error e => .error e
      | .ok nodes => .ok ⟨config, nodes, Table.empty, fun _ => [], none⟩

/-- What `Begin` decides before it takes the lock. -/
def Server.screen (s : Server) (ctxErr : Option CtxErr) (payload : Bytes) :
    Except ObservationError (Request × Node) :=
  match ctxErr with
  | some e => .error ⟨e.text, .payload, .invalidPayload⟩
  | none =>
    match decodeJSON unmarshalRequest payload with
    | .error e => .error ⟨e, .payload, .invalidPayload⟩
    | .ok request =>
      if request.version ≠ 1 then
        .error ⟨"unsupported attestation version", .payload, .invalidPayload⟩
      else
        match s.nodes.get request.fqdn with
        | none => .error ⟨"FQDN is not authorized", .payload, .unknownNode⟩
        | some node =>
          match request.bootstrapJWK.key with
          | .error e => .error ⟨e, .payload, .invalidKey⟩
          | .ok _ => .ok (request, node)

def Server.challenge (s : Server) (request : Request) (id nonce : Bytes) (now : Int) : Challenge :=
  { version := 1, id, nonce, fqdn := request.fqdn, trustDomain := s.config.trustDomain
    serverID := serverID s.config.trustDomain
    keyThumbprint := request.bootstrapJWK.thumbprint
    expiresAt := unix (now + challengeTTL) }

/-- `Begin`. The two draws are the results of `rand.Read`; `handle` names the new
attempt. The second component is the server afterwards. -/
def Server.begin (s : Server) (handle : Nat) (now : Int) (ctxErr : Option CtxErr)
    (payload : Bytes) (id nonce : Except String (List.Vector UInt8 32)) :
    Except ObservationError (ServerAttempt × Server) :=
  match s.screen ctxErr payload with
  | .error e => .error e
  | .ok (request, node) =>
    match id, nonce with
    | .error e, _ => .error ⟨e, .start, .internal⟩
    | .ok _, .error e => .error ⟨e, .start, .internal⟩
    | .ok id, .ok nonce =>
      if s.active.size ≥ 32 then .error ⟨"attestation capacity reached", .start, .capacity⟩
      else
        let c := s.challenge request (randomValue id) (randomValue nonce) now
        .ok (⟨node, request, c, encode c.value, none, false, false⟩,
          { s with
            active := s.active.put c.id handle
            metrics := s.metrics.map fun m => m.pendingAdd node.name 1 })

/-- First locked section of `Verify`. -/
def ServerAttempt.enter (a : ServerAttempt) : Except ObservationError ServerAttempt :=
  if a.closed ∨ a.verified then
    .error ⟨"attestation is not pending", .response, .sessionEnded⟩
  else .ok { a with verified := true }

/-- `Verify` between the first section and the fetch. -/
def ServerAttempt.accepts (a : ServerAttempt) (response : Bytes) (now : Int) :
    Except ObservationError Unit :=
  match decodeJSON unmarshalReady response with
  | .error e => .error ⟨e, .response, .invalidResponse⟩
  | .ok ready =>
    if ready.version ≠ 1 ∨ ready.id ≠ a.challenge.id then
      .error ⟨"unexpected challenge response", .response, .invalidResponse⟩
    else if unix now ≥ a.challenge.expiresAt then
      .error ⟨"challenge expired", .response, .expired⟩
    else .ok ()

/-- What one HTTP exchange yields: `client.Do` fails, or a response arrives. -/
inductive Exchange where
  | failed
  | response (statusCode : Int) (contentEncoding body : Bytes) (readErr : Bool)

/-- `io.ReadAll` of the limited body. -/
def limitedBody (body : Bytes) : Bytes := body.take (maxDocumentSize + 1)

def fetchUnavailable : ObservationError :=
  ⟨"HTTP endpoint unavailable", .fetch, .endpointFailed⟩

/-- The body of one iteration of `fetch`: a document, the next iteration (`none`), or an error. -/
def fetchOne (ctxErr : Option CtxErr) (exchange : Exchange) :
    Except ObservationError (Option Bytes) :=
  match ctxErr with
  | some e => .error ⟨e.text, .fetch, .endpointFailed⟩
  | none =>
    match exchange with
    | .failed => .ok none
    | .response statusCode contentEncoding body readErr =>
      if statusCode ≠ 200 ∨ readErr ∨ (limitedBody body).length > maxDocumentSize ∨
          contentEncoding ≠ [] then
        .error ⟨"HTTP endpoint returned an invalid response", .fetch, .endpointFailed⟩
      else .ok (some (limitedBody body))

/-- `Verify` after the fetch, before the second section. -/
def ServerAttempt.proves (jose : Jose) (a : ServerAttempt) (proof : Bytes) :
    Except ObservationError Unit :=
  match verifyProof jose proof a.request.bootstrapJWK with
  | .error e => .error ⟨e, .verify, .invalidProof⟩
  | .ok payload =>
    if payload ≠ a.rawChallenge then
      .error ⟨"proof is not for this attestation session", .verify, .invalidProof⟩
    else .ok ()

/-- The recheck at the start of the second locked section of `Verify`. -/
def ServerAttempt.live (a : ServerAttempt) (now : Int) (fetchErr : Option CtxErr) :
    Except ObservationError Unit :=
  if a.closed ∨ unix now ≥ a.challenge.expiresAt ∨ fetchErr.isSome then
    .error ⟨"attestation session ended", .verify, .sessionEnded⟩
  else .ok ()

def minute : Int := 60 * second

/-- `chargeSuccess`: the filtered list is stored even when the charge is refused. -/
def Server.chargeSuccess (s : Server) (name : Bytes) (now : Int) :
    Except ObservationError Unit × Server :=
  let recent := (s.recent name).filter fun previous => decide (previous > now - minute)
  if recent.length ≥ 6 then
    (.error ⟨"node attestation rate exceeded", .quota, .rateLimit⟩,
      { s with recent := Function.update s.recent name recent })
  else (.ok (), { s with recent := Function.update s.recent name (recent ++ [now]) })

def Server.result (s : Server) (a : ServerAttempt) : Result where
  agentID := str "spiffe://" ++ s.config.trustDomain ++ str "/spire/agent/" ++ pluginName ++
    str "/" ++ a.node.name
  selectorValues := [str "fqdn:" ++ a.node.fqdn]

/-- First locked section of `Close`; cancelling an ended context keeps its error. -/
def ServerAttempt.close (a : ServerAttempt) : ServerAttempt :=
  if a.closed then a else { a with closed := true, ctxErr := a.ctxErr <|> some .canceled }

/-- Second locked section of `Close`. -/
def Server.remove (s : Server) (handle : Nat) (a : ServerAttempt) : Server :=
  if s.active.get a.challenge.id = some handle then
    { s with
      active := s.active.erase a.challenge.id
      metrics := s.metrics.map fun m => m.pendingAdd a.node.name (-1) }
  else s

theorem screen_ok {s : Server} {ctxErr : Option CtxErr} {payload : Bytes} {request : Request}
    {node : Node} (h : s.screen ctxErr payload = .ok (request, node)) :
    ctxErr = none ∧ decodeJSON unmarshalRequest payload = .ok request ∧ request.version = 1 ∧
      s.nodes.get request.fqdn = some node ∧ ∃ key, request.bootstrapJWK.key = .ok key := by
  unfold Server.screen at h
  split at h
  · cases h
  split at h
  · cases h
  rename_i r hdecode
  split at h
  · cases h
  rename_i hversion
  split at h
  · cases h
  rename_i n hnode
  split at h
  · cases h
  rename_i key hkey
  cases h
  exact ⟨rfl, hdecode, not_not.mp hversion, hnode, key, hkey⟩

theorem begin_ok {s t : Server} {handle : Nat} {now : Int} {ctxErr : Option CtxErr}
    {payload : Bytes} {id nonce : Except String (List.Vector UInt8 32)} {a : ServerAttempt}
    (h : s.begin handle now ctxErr payload id nonce = .ok (a, t)) :
    ∃ request node i n, s.screen ctxErr payload = .ok (request, node) ∧ id = .ok i ∧
      nonce = .ok n ∧ s.active.size < 32 ∧
      a = ⟨node, request, s.challenge request (randomValue i) (randomValue n) now,
        encode (s.challenge request (randomValue i) (randomValue n) now).value,
        none, false, false⟩ ∧
      t.config = s.config ∧ t.nodes = s.nodes := by
  unfold Server.begin at h
  split at h
  · cases h
  rename_i request node hscreen
  split at h
  · cases h
  · cases h
  · rename_i i n
    split at h
    · cases h
    rename_i hroom
    cases h
    exact ⟨request, node, i, n, hscreen, rfl, rfl, not_le.mp hroom, rfl, rfl, rfl⟩

theorem enter_ok {a b : ServerAttempt} (h : a.enter = .ok b) :
    a.closed = false ∧ a.verified = false ∧ b = { a with verified := true } := by
  unfold ServerAttempt.enter at h
  split at h
  · cases h
  rename_i hflags
  push Not at hflags
  cases h
  exact ⟨by simpa using hflags.1, by simpa using hflags.2, rfl⟩

theorem limitedBody_of_length {body : Bytes} (h : (limitedBody body).length ≤ maxDocumentSize) :
    limitedBody body = body := by
  unfold limitedBody at h ⊢
  rw [List.length_take] at h
  exact List.take_of_length_le (by omega)

/-- A fetched document is the whole body of a plain response. -/
theorem fetchOne_body {ctxErr : Option CtxErr} {x : Exchange} {proof : Bytes}
    (h : fetchOne ctxErr x = .ok (some proof)) : x = .response 200 [] proof false := by
  unfold fetchOne at h
  split at h
  · cases h
  split at h
  · cases h
  split at h
  · cases h
  rename_i statusCode contentEncoding body readErr hgood
  push Not at hgood
  obtain ⟨rfl, hread, hsize, rfl⟩ := hgood
  cases h
  rw [limitedBody_of_length hsize, eq_false_of_ne_true hread]

theorem live_ok {a : ServerAttempt} {now : Int} {e : Option CtxErr} (h : a.live now e = .ok ()) :
    a.closed = false ∧ unix now < a.challenge.expiresAt ∧ e = none := by
  unfold ServerAttempt.live at h
  split at h
  · cases h
  rename_i hgood
  push Not at hgood
  exact ⟨by simpa using hgood.1, hgood.2.1, by simpa using hgood.2.2⟩

/-- A charge writes the log of its node and nothing else. -/
theorem chargeSuccess_server (s : Server) (name : Bytes) (now : Int) :
    ∃ recent, (s.chargeSuccess name now).2 = { s with recent } := by
  unfold Server.chargeSuccess
  dsimp only
  split <;> exact ⟨_, rfl⟩

theorem chargeSuccess_frame (s : Server) (name : Bytes) (now : Int) :
    (s.chargeSuccess name now).2.config = s.config ∧
      (s.chargeSuccess name now).2.nodes = s.nodes := by
  obtain ⟨recent, h⟩ := chargeSuccess_server s name now
  rw [h]
  exact ⟨rfl, rfl⟩

theorem remove_frame (s : Server) (handle : Nat) (a : ServerAttempt) :
    (s.remove handle a).config = s.config ∧ (s.remove handle a).nodes = s.nodes := by
  unfold Server.remove
  split <;> exact ⟨rfl, rfl⟩

end RealmFormal.NodeAttest

import RealmFormal.NodeAttest.Responder
import RealmFormal.Go.Url

/-!
# The attesting agent

`BeginAgent` and `Respond`, and the two HTTP requests of the protocol as the
responder receives them: the publication that the agent sends to the control
socket, and the fetch that the server sends to a pinned address.
-/

namespace RealmFormal.NodeAttest
open Go Go.Json Go.Netip
set_option autoImplicit false

structure AgentConfig where
  fqdn : Bytes
  trustDomain : Bytes
  controlSocket : Bytes
  metricsAddress : Bytes

/-- `key` is an Ed25519 private key, whose second half is the public key. -/
structure AgentAttempt where
  config : AgentConfig
  key : List.Vector UInt8 64
  payload : Bytes
  published : Bytes
  responded : Bool
  closed : Bool

def validateAgentConfig (config : AgentConfig) : Except String Unit :=
  match validateMetricsAddress config.metricsAddress with
  | .error e => .error e
  | .ok () =>
    if ¬ validFQDN config.fqdn ∨ ¬ validFQDN config.trustDomain ∨
        ¬ Filepath.isAbs config.controlSocket then
      .error "invalid agent configuration"
    else .ok ()

/-- The document that `BeginAgent` sends. -/
def AgentConfig.request (config : AgentConfig) (key : List.Vector UInt8 64) : Request :=
  ⟨1, config.fqdn, jwkFor (publicOf key.toList)⟩

/-- `BeginAgent` with the result of `ed25519.GenerateKey`. -/
def beginAgent (config : AgentConfig) (generated : Except String (List.Vector UInt8 64)) :
    Except String AgentAttempt :=
  match validateAgentConfig config with
  | .error e => .error e
  | .ok () =>
    match generated with
    | .error e => .error e
    | .ok key => .ok ⟨config, key, encode (config.request key).value, [], false, false⟩

/-- `Respond` up to the signed proof: the identifier of the challenge and the proof document. -/
def AgentAttempt.prove (jose : Jose) (a : AgentAttempt) (rawChallenge : Bytes) (now : Int) :
    Except String (Bytes × Bytes) :=
  match decodeJSON unmarshalChallenge rawChallenge with
  | .error e => .error e
  | .ok c =>
    match validateChallenge c now with
    | .error e => .error e
    | .ok () =>
      if c.fqdn ≠ a.config.fqdn ∨ c.trustDomain ≠ a.config.trustDomain ∨
          c.serverID ≠ serverID a.config.trustDomain ∨
          c.keyThumbprint ≠ (jwkFor (publicOf a.key.toList)).thumbprint then
        .error "challenge does not match agent attempt"
      else
        match signProof jose a.key.toList rawChallenge with
        | .error e => .error e
        | .ok proof => .ok (c.id, proof)

/-- How `controlRequest` ends: `none` when no response arrives. -/
def controlRequest (method : Bytes) (status : Option Nat) : Except String Unit :=
  match status with
  | none => .error "control endpoint unavailable"
  | some status =>
    if (method = str "PUT" ∧ status ≠ 201) ∨
        (method = str "DELETE" ∧ status ≠ 204 ∧ status ≠ 404) then
      .error "control endpoint rejected operation"
    else .ok ()

/-- `Respond`. `status` is what the control socket answers to the publication. -/
def AgentAttempt.respond (jose : Jose) (a : AgentAttempt) (rawChallenge : Bytes) (now : Int)
    (status : Option Nat) : Except ObservationError Bytes × AgentAttempt :=
  if a.closed ∨ a.responded then
    (.error ⟨"agent attempt is not pending", .challenge, .invalidChallenge⟩, a)
  else
    let a := { a with responded := true }
    match a.prove jose rawChallenge now with
    | .error e => (.error ⟨e, .challenge, .invalidChallenge⟩, a)
    | .ok (id, _) =>
      let a := { a with published := id }
      match controlRequest (str "PUT") status with
      | .error e => (.error ⟨"publish challenge: " ++ e, .publish, .publishFailed⟩, a)
      | .ok () => (.ok (encode (Ready.value ⟨1, id⟩)), a)

/-! ## Requests on the wire -/

/-- A request for `path`, which no proxy has touched. -/
def wireRequest (method host path body : Bytes) (rootPeer : Bool) : HttpRequest where
  method := method
  host := host
  rawQuery := []
  path := path
  escapedPath := Url.escapePath path
  contentLength := body.length
  transferEncoding := []
  body := body
  bodyFault := false
  rootPeer := rootPeer

/-- What `controlRequest` sends, from a process that runs as root. -/
def controlMessage (method id body : Bytes) : HttpRequest :=
  wireRequest method (str "localhost") (controlPrefix ++ id) body true

/-- What `fetch` sends. -/
def Server.fetchMessage (s : Server) (a : ServerAttempt) : HttpRequest :=
  wireRequest (str "GET") (joinHostPort a.node.fqdn s.config.port) (pathPrefix ++ a.challenge.id)
    [] false

end RealmFormal.NodeAttest

import RealmFormal.Go.Base64
import RealmFormal.Go.Unmarshal
import RealmFormal.Go.Sha
import RealmFormal.Go.Netip

/-!
# Documents of the HTTP node attestation protocol

The message types, their strict decoder, and the checks that the agent, the
responder and the server share. Times are nanoseconds since the Unix epoch.
Signatures belong to go-jose, which is a parameter.
-/

namespace RealmFormal.NodeAttest
open Go Go.Json
set_option autoImplicit false

def pluginName : Bytes := str "http_fqdn"

def pathPrefix : Bytes := str "/.well-known/spire-node-attestation/v1/"

def maxDocumentSize : Nat := 8192

def second : Int := 1000000000

def challengeTTL : Int := 120 * second

def proofType : Bytes := str "spire-http-node-attestation+jws"

/-- `Time.Unix`: whole seconds, rounded down. -/
def unix (t : Int) : Int := t / second

structure PublicJWK where
  kty : Bytes
  crv : Bytes
  x : Bytes
  deriving DecidableEq

structure Request where
  version : Int
  fqdn : Bytes
  bootstrapJWK : PublicJWK
  deriving DecidableEq

structure Challenge where
  version : Int
  id : Bytes
  nonce : Bytes
  fqdn : Bytes
  trustDomain : Bytes
  serverID : Bytes
  keyThumbprint : Bytes
  expiresAt : Int
  deriving DecidableEq

structure Ready where
  version : Int
  id : Bytes
  deriving DecidableEq

structure ProofDocument where
  bootstrapJWK : PublicJWK
  proof : Bytes
  deriving DecidableEq

/-- A parsed JWS: the `typ` member of each protected header when it is a string,
and the payload that verification under a public key returns. -/
structure JwsObject where
  typs : List (Option Bytes)
  verify : Bytes → Option Bytes

/-- go-jose as the protocol uses it. `sign` is `NewSigner` with EdDSA and the
proof type, then `Sign` and `CompactSerialize`; `parseSigned` admits EdDSA only. -/
structure Jose where
  sign : Bytes → Bytes → Option Bytes
  parseSigned : Bytes → Option JwsObject

def isLabelByte (b : UInt8) : Bool := isLower b || isDigit b

/-- `labelPattern`: `^[a-z0-9](?:[a-z0-9-]{0,61}[a-z0-9])?$`. -/
def isLabel (s : Bytes) : Bool :=
  match s with
  | [] => false
  | a :: t =>
    isLabelByte a &&
      match t.getLast? with
      | none => true
      | some z =>
        isLabelByte z && decide (t.length ≤ 62) &&
          t.dropLast.all fun b => isLabelByte b || decide (b = chr '-')

def validFQDN (value : Bytes) : Bool :=
  if value.length > 253 ∨ chr '.' ∉ value then false
  else (split value (chr '.')).all isLabel

def serverID (domain : Bytes) : Bytes := str "spiffe://" ++ domain ++ str "/spire/server"

def decodeJSON {α : Type} (unmarshal : List Value → Option α) (data : Bytes) : Except String α :=
  if data.length = 0 ∨ data.length > maxDocumentSize then .error "invalid document size"
  else
    match parseValue (data.length + 1) data with
    | none => .error "invalid document"
    | some (v, rest) =>
      match unmarshal [v] with
      | none => .error "invalid document"
      | some a => if skipSpace rest = [] then .ok a else .error "trailing document data"

def jwkNames : List Bytes := [str "kty", str "crv", str "x"]

def unmarshalJWK (vs : List Value) : Option PublicJWK :=
  (strictMembers jwkNames vs).bind fun ms =>
    (toText (fieldValues jwkNames ms (str "kty"))).bind fun kty =>
      (toText (fieldValues jwkNames ms (str "crv"))).bind fun crv =>
        (toText (fieldValues jwkNames ms (str "x"))).map fun x => ⟨kty, crv, x⟩

def PublicJWK.value (j : PublicJWK) : Value :=
  .object [(str "kty", .string j.kty), (str "crv", .string j.crv), (str "x", .string j.x)]

def requestNames : List Bytes := [str "version", str "fqdn", str "bootstrap_jwk"]

def unmarshalRequest (vs : List Value) : Option Request :=
  (strictMembers requestNames vs).bind fun ms =>
    (toInt (fieldValues requestNames ms (str "version"))).bind fun version =>
      (toText (fieldValues requestNames ms (str "fqdn"))).bind fun fqdn =>
        (unmarshalJWK (fieldValues requestNames ms (str "bootstrap_jwk"))).map fun jwk =>
          ⟨version, fqdn, jwk⟩

def Request.value (r : Request) : Value :=
  .object [(str "version", .number (itoa r.version)), (str "fqdn", .string r.fqdn),
    (str "bootstrap_jwk", r.bootstrapJWK.value)]

def challengeNames : List Bytes :=
  [str "version", str "challenge_id", str "nonce", str "fqdn", str "trust_domain",
    str "server_id", str "bootstrap_key_thumbprint", str "expires_at"]

def unmarshalChallenge (vs : List Value) : Option Challenge :=
  (strictMembers challengeNames vs).bind fun ms =>
    (toInt (fieldValues challengeNames ms (str "version"))).bind fun version =>
    (toText (fieldValues challengeNames ms (str "challenge_id"))).bind fun id =>
    (toText (fieldValues challengeNames ms (str "nonce"))).bind fun nonce =>
    (toText (fieldValues challengeNames ms (str "fqdn"))).bind fun fqdn =>
    (toText (fieldValues challengeNames ms (str "trust_domain"))).bind fun trustDomain =>
    (toText (fieldValues challengeNames ms (str "server_id"))).bind fun serverID =>
    (toText (fieldValues challengeNames ms (str "bootstrap_key_thumbprint"))).bind fun thumbprint =>
    (toInt (fieldValues challengeNames ms (str "expires_at"))).map fun expiresAt =>
      ⟨version, id, nonce, fqdn, trustDomain, serverID, thumbprint, expiresAt⟩

def Challenge.value (c : Challenge) : Value :=
  .object [(str "version", .number (itoa c.version)), (str "challenge_id", .string c.id),
    (str "nonce", .string c.nonce), (str "fqdn", .string c.fqdn),
    (str "trust_domain", .string c.trustDomain), (str "server_id", .string c.serverID),
    (str "bootstrap_key_thumbprint", .string c.keyThumbprint),
    (str "expires_at", .number (itoa c.expiresAt))]

def readyNames : List Bytes := [str "version", str "challenge_id"]

def unmarshalReady (vs : List Value) : Option Ready :=
  (strictMembers readyNames vs).bind fun ms =>
    (toInt (fieldValues readyNames ms (str "version"))).bind fun version =>
      (toText (fieldValues readyNames ms (str "challenge_id"))).map fun id => ⟨version, id⟩

def Ready.value (r : Ready) : Value :=
  .object [(str "version", .number (itoa r.version)), (str "challenge_id", .string r.id)]

def proofNames : List Bytes := [str "bootstrap_jwk", str "proof"]

def unmarshalProof (vs : List Value) : Option ProofDocument :=
  (strictMembers proofNames vs).bind fun ms =>
    (unmarshalJWK (fieldValues proofNames ms (str "bootstrap_jwk"))).bind fun jwk =>
      (toText (fieldValues proofNames ms (str "proof"))).map fun proof => ⟨jwk, proof⟩

def ProofDocument.value (d : ProofDocument) : Value :=
  .object [(str "bootstrap_jwk", d.bootstrapJWK.value), (str "proof", .string d.proof)]

/-- `randomValue` on the 32 bytes that `rand.Read` returned. -/
def randomValue (bytes : List.Vector UInt8 32) : Bytes := Base64.encodeToString bytes.toList

def validRandom (value : Bytes) : Bool :=
  match Base64.decodeString value with
  | none => false
  | some decoded => decide (decoded.length = 32) && decide (Base64.encodeToString decoded = value)

def jwkFor (key : Bytes) : PublicJWK := ⟨str "OKP", str "Ed25519", Base64.encodeToString key⟩

def PublicJWK.key (j : PublicJWK) : Except String Bytes :=
  if j.kty ≠ str "OKP" ∨ j.crv ≠ str "Ed25519" then .error "unsupported bootstrap key"
  else
    match Base64.decodeString j.x with
    | none => .error "invalid bootstrap key"
    | some key =>
      if key.length ≠ 32 ∨ Base64.encodeToString key ≠ j.x then .error "invalid bootstrap key"
      else .ok key

/-- RFC 7638 order of the members. -/
def PublicJWK.canonical (j : PublicJWK) : Bytes :=
  encode (.object [(str "crv", .string j.crv), (str "kty", .string j.kty), (str "x", .string j.x)])

def PublicJWK.thumbprint (j : PublicJWK) : Bytes :=
  Base64.encodeToString (Sha.sum256 j.canonical)

def validateChallenge (c : Challenge) (now : Int) : Except String Unit :=
  if c.version ≠ 1 ∨ ¬ validRandom c.id ∨ ¬ validRandom c.nonce ∨ ¬ validFQDN c.fqdn ∨
      ¬ validFQDN c.trustDomain ∨ c.serverID ≠ serverID c.trustDomain ∨
      ¬ validRandom c.keyThumbprint then
    .error "invalid challenge"
  else if c.expiresAt ≤ unix now ∨ c.expiresAt > unix (now + challengeTTL) then
    .error "challenge outside validity window"
  else .ok ()

/-- `ed25519.PrivateKey.Public`: the second half of the private key. -/
def publicOf (key : Bytes) : Bytes := key.drop 32

def signProof (jose : Jose) (key rawChallenge : Bytes) : Except String Bytes :=
  match jose.sign key rawChallenge with
  | none => .error "sign"
  | some compact => .ok (encode (ProofDocument.value ⟨jwkFor (publicOf key), compact⟩))

def verifyProof (jose : Jose) (data : Bytes) (expectedKey : PublicJWK) : Except String Bytes :=
  match decodeJSON unmarshalProof data with
  | .error e => .error e
  | .ok document =>
    if document.bootstrapJWK ≠ expectedKey then .error "bootstrap key mismatch"
    else
      match expectedKey.key with
      | .error e => .error e
      | .ok key =>
        if document.proof.count (chr '.') ≠ 2 then .error "compact JWS required"
        else
          match jose.parseSigned document.proof with
          | none => .error "invalid JWS"
          | some object =>
            match object.typs with
            | [typ] =>
              if typ ≠ some proofType then .error "invalid proof type"
              else
                match object.verify key with
                | none => .error "invalid proof signature"
                | some payload =>
                  if payload.length > maxDocumentSize then .error "proof payload too large"
                  else .ok payload
            | _ => .error "invalid JWS"

def parseProof (jose : Jose) (data fqdn : Bytes) (now : Int) : Except String Challenge :=
  match decodeJSON unmarshalProof data with
  | .error e => .error e
  | .ok document =>
    match verifyProof jose data document.bootstrapJWK with
    | .error e => .error e
    | .ok payload =>
      match decodeJSON unmarshalChallenge payload with
      | .error e => .error e
      | .ok c =>
        match validateChallenge c now with
        | .error e => .error e
        | .ok () =>
          if c.fqdn ≠ fqdn ∨ c.keyThumbprint ≠ document.bootstrapJWK.thumbprint then
            .error "proof does not match responder"
          else .ok c

/-- The body holds a signature that is valid under the key of `jwk` over exactly `payload`. -/
def Signs (jose : Jose) (body : Bytes) (jwk : PublicJWK) (payload : Bytes) : Prop :=
  ∃ document key object, decodeJSON unmarshalProof body = .ok document ∧
    document.bootstrapJWK = jwk ∧ jwk.key = .ok key ∧
    jose.parseSigned document.proof = some object ∧ object.verify key = some payload

/-- What a successful verification has established. -/
theorem verifyProof_signs {jose : Jose} {data payload : Bytes} {jwk : PublicJWK}
    (h : verifyProof jose data jwk = .ok payload) : Signs jose data jwk payload := by
  unfold verifyProof at h
  split at h
  · cases h
  rename_i document hdoc
  split at h
  · cases h
  rename_i hjwk
  split at h
  · cases h
  rename_i key hkey
  split at h
  · cases h
  split at h
  · cases h
  rename_i object hobj
  split at h
  · split at h
    · cases h
    split at h
    · cases h
    rename_i out hout
    split at h
    · cases h
    cases h
    exact ⟨document, key, object, hdoc, not_not.mp hjwk, hkey, hobj, hout⟩
  · cases h

/-- One body carries one key and one payload. -/
theorem signs_unique {jose : Jose} {body : Bytes} {j k : PublicJWK} {p q : Bytes}
    (hp : Signs jose body j p) (hq : Signs jose body k q) : j = k ∧ p = q := by
  obtain ⟨d, key, o, hd, hj, hkey, ho, hv⟩ := hp
  obtain ⟨d', key', o', hd', hk, hkey', ho', hv'⟩ := hq
  rw [hd] at hd'
  cases hd'
  have hjk : j = k := hj.symm.trans hk
  subst hjk
  rw [hkey] at hkey'
  cases hkey'
  rw [ho] at ho'
  cases ho'
  rw [hv] at hv'
  exact ⟨rfl, Option.some.inj hv'⟩

end RealmFormal.NodeAttest

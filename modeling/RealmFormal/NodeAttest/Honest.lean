import RealmFormal.NodeAttest.Interference
import RealmFormal.NodeAttest.Agent

/-!
# Honest runs

The agent, the responder and the server of one deployment, when all of them
follow the protocol in time. The agent answers the challenge of the server, the
responder serves the published proof, and `Verify` returns the result, whatever
other clients of the server and of the responder do in between.
-/

namespace RealmFormal.NodeAttest
open Go Go.Json Go.Netip Transition
set_option autoImplicit false

/-! ## Signatures -/

def protectedHeader : Bytes :=
  str "\x7b\"alg\":\"EdDSA\",\"typ\":\"spire-http-node-attestation+jws\"\x7d"

/-- `CompactSerialize`. -/
def compactJWS (payload signature : Bytes) : Bytes :=
  join [Base64.encodeToString protectedHeader, Base64.encodeToString payload,
    Base64.encodeToString signature] (chr '.')

/-- A key under which go-jose signs, and verifies what it signed. -/
def RoundTrips (jose : Jose) (key : List.Vector UInt8 64) : Prop :=
  ∀ payload, ∃ signature object, signature.length = 64 ∧
    jose.sign key.toList payload = some (compactJWS payload signature) ∧
    jose.parseSigned (compactJWS payload signature) = some object ∧
    object.typs = [some proofType] ∧ object.verify (publicOf key.toList) = some payload

theorem dot_not_mem_base64 (s : Bytes) : chr '.' ∉ Base64.encodeToString s := fun h =>
  absurd (Base64.encodeToString_isLetter s _ h) (by decide)

theorem compactJWS_plain (payload signature : Bytes) :
    PlainString (compactJWS payload signature) := by
  intro b hb
  rcases mem_join hb with rfl | ⟨p, hp, hb⟩
  · decide
  · simp only [List.mem_cons, List.not_mem_nil, or_false] at hp
    rcases hp with rfl | rfl | rfl <;> exact plainString_base64 _ b hb

theorem compactJWS_dots (payload signature : Bytes) :
    (compactJWS payload signature).count (chr '.') = 2 := by
  simp [compactJWS, join, List.intercalate, List.count_eq_zero.mpr (dot_not_mem_base64 _)]

theorem compactJWS_length {payload signature : Bytes} (hs : signature.length = 64) :
    (compactJWS payload signature).length = (4 * payload.length + 2) / 3 + 162 := by
  simp [compactJWS, join, List.intercalate, Base64.encodeToString_length, hs, protectedHeader, str]
  omega

theorem publicOf_length (key : List.Vector UInt8 64) : (publicOf key.toList).length = 32 := by
  simp [publicOf]

/-- A signed challenge survives the way through the proof document. -/
theorem signProof_verifies {jose : Jose} {key : List.Vector UInt8 64} (h : RoundTrips jose key)
    {raw : Bytes} (hraw : raw.length ≤ 1078) :
    ∃ proof compact, signProof jose key.toList raw = .ok proof ∧
      proof = encode (ProofDocument.value ⟨jwkFor (publicOf key.toList), compact⟩) ∧
      decodeJSON unmarshalProof proof = .ok ⟨jwkFor (publicOf key.toList), compact⟩ ∧
      verifyProof jose proof (jwkFor (publicOf key.toList)) = .ok raw := by
  obtain ⟨signature, object, hlen, hsign, hparse, htyps, hverify⟩ := h raw
  have hsize : (compactJWS raw signature).length = _ := compactJWS_length hlen
  have hdoc := decodeJSON_proof (publicOf_length key) (compactJWS_plain raw signature) (by omega)
  refine ⟨_, compactJWS raw signature, by rw [signProof, hsign], rfl, hdoc, ?_⟩
  have hsmall : ¬ raw.length > maxDocumentSize := by unfold maxDocumentSize; omega
  simp [verifyProof, hdoc, jwkFor_key (publicOf_length key), compactJWS_dots, hparse, htyps,
    hverify, hsmall]

/-! ## The deployment -/

/-- Accepted configurations that belong together, and what they start. -/
structure Deployment where
  agent : AgentConfig
  server : ServerConfig
  responder : ResponderConfig
  name : Bytes
  policy : NodePolicy
  attestor : Server
  endpoint : Responder
  agentAccepted : validateAgentConfig agent = .ok ()
  serverAccepted : newServer server = .ok attestor
  responderAccepted : newResponder responder = .ok endpoint
  sameDomain : server.trustDomain = agent.trustDomain
  registered : server.nodes.get name = some policy
  policyName : policy.fqdn = agent.fqdn
  responderName : responder.fqdn = agent.fqdn
  responderPort : responder.port = server.port

theorem validateAgentConfig_ok {config : AgentConfig} (h : validateAgentConfig config = .ok ()) :
    validFQDN config.fqdn = true ∧ validFQDN config.trustDomain = true := by
  unfold validateAgentConfig at h
  split at h
  · cases h
  split at h
  · cases h
  rename_i hvalid
  push Not at hvalid
  exact ⟨hvalid.1, hvalid.2.1⟩

section Session
variable (d : Deployment) (key : List.Vector UInt8 64) (id nonce : List.Vector UInt8 32)
  (start : Int)

def Deployment.request : Request := d.agent.request key

def Deployment.challenge : Challenge :=
  d.attestor.challenge (d.request key) (randomValue id) (randomValue nonce) start

def Deployment.agentAttempt : AgentAttempt :=
  ⟨d.agent, key, encode (d.request key).value, [], false, false⟩

/-- The attempt that `Begin` creates for `node`. -/
def Deployment.attempt (node : Node) : ServerAttempt :=
  ⟨node, d.request key, d.challenge key id nonce start,
    encode (d.challenge key id nonce start).value, none, false, false⟩

/-- The result that `Verify` owes the agent. -/
def Deployment.result : Result where
  agentID := str "spiffe://" ++ d.server.trustDomain ++ str "/spire/agent/http_fqdn/" ++ d.name
  selectorValues := [str "fqdn:" ++ d.agent.fqdn]

variable {d key id nonce start}

theorem Deployment.challenge_wellFormed : (d.challenge key id nonce start).WellFormed := by
  obtain ⟨hfqdn, hdomain⟩ := validateAgentConfig_ok d.agentAccepted
  have hconfig := (newServer_ok d.serverAccepted).1
  constructor
  · rfl
  · exact validRandom_iff.mpr ⟨id, rfl⟩
  · exact validRandom_iff.mpr ⟨nonce, rfl⟩
  · exact hfqdn
  · show validFQDN d.attestor.config.trustDomain = true
    rw [hconfig, d.sameDomain, hdomain]
  · rfl
  · exact thumbprint_valid _

theorem Deployment.challenge_expiresAt :
    (d.challenge key id nonce start).expiresAt = unix start + 120 :=
  unix_add_challengeTTL start

theorem Deployment.challenge_valid {now : Int} (hlo : unix start ≤ unix now)
    (hhi : unix now < unix start + 120) :
    validateChallenge (d.challenge key id nonce start) now = .ok () := by
  refine validateChallenge_iff.mpr ⟨Deployment.challenge_wellFormed, ?_⟩
  rw [Deployment.challenge_expiresAt]
  omega

/-- The registry has the node of the agent. -/
theorem Deployment.node_registered :
    ∃ node address rest, d.attestor.nodes.get d.agent.fqdn = some node ∧ node.name = d.name ∧
      node.fqdn = d.agent.fqdn ∧ node.addresses = address :: rest := by
  obtain ⟨node, hnode, hname⟩ := newServer_registers d.serverAccepted d.registered
  rw [d.policyName] at hnode
  obtain ⟨-, -, -, hfqdn, -, -, -, haddresses⟩ := newServer_describes d.serverAccepted hnode
  obtain ⟨address, rest, hrest⟩ := List.exists_cons_of_ne_nil haddresses
  exact ⟨node, address, rest, hnode, hname, hfqdn, hrest⟩

/-! ## What the parties accept -/

theorem Deployment.beginAgent_ok : beginAgent d.agent (.ok key) = .ok (d.agentAttempt key) := by
  rw [beginAgent, d.agentAccepted]
  rfl

theorem Deployment.decode_request :
    decodeJSON unmarshalRequest (encode (d.request key).value) = .ok (d.request key) :=
  decodeJSON_request (validateAgentConfig_ok d.agentAccepted).1 (publicOf_length key)

theorem Deployment.begin_ok {s : Server} (hconfig : s.config = d.attestor.config)
    (hnodes : s.nodes = d.attestor.nodes) (hroom : s.active.size < 32) {node : Node}
    (hnode : d.attestor.nodes.get d.agent.fqdn = some node) (handle : Nat) :
    ∃ server, s.begin handle start none (encode (d.request key).value) (.ok id) (.ok nonce) =
      .ok (d.attempt key id nonce start node, server) := by
  have hscreen : s.screen none (encode (d.request key).value) = .ok (d.request key, node) := by
    have hkey : (d.request key).bootstrapJWK.key = .ok _ := jwkFor_key (publicOf_length key)
    have hget : s.nodes.get (d.request key).fqdn = some node := by rw [hnodes]; exact hnode
    have hversion : (d.request key).version = 1 := rfl
    simp [Server.screen, Deployment.decode_request, hversion, hget, hkey]
  have hchallenge : s.challenge (d.request key) (randomValue id) (randomValue nonce) start =
      d.challenge key id nonce start := by
    rw [Server.challenge, hconfig]
    rfl
  simp only [Server.begin, hscreen, if_neg (not_le.mpr hroom), hchallenge]
  exact ⟨_, rfl⟩

section Accept
variable {jose : Jose} (hjose : RoundTrips jose key) (hclock : FitsInt64 (unix start + 120))
include hclock

theorem Deployment.decode_challenge :
    decodeJSON unmarshalChallenge (encode (d.challenge key id nonce start).value) =
      .ok (d.challenge key id nonce start) :=
  decodeJSON_challenge challenge_wellFormed (challenge_expiresAt ▸ hclock)

theorem Deployment.challenge_length :
    (encode (d.challenge key id nonce start).value).length ≤ 1078 :=
  challenge_wellFormed.length (challenge_expiresAt ▸ hclock)

include hjose

/-- The agent signs the challenge, and the responder and the server accept the proof. -/
theorem Deployment.proof_accepted :
    ∃ proof document, proof = encode (ProofDocument.value document) ∧
      decodeJSON unmarshalProof proof = .ok document ∧
      (∀ now, unix start ≤ unix now → unix now < unix start + 120 →
        (d.agentAttempt key).prove jose (encode (d.challenge key id nonce start).value) now =
          .ok (randomValue id, proof) ∧
        parseProof jose proof d.responder.fqdn now = .ok (d.challenge key id nonce start)) ∧
      verifyProof jose proof (d.request key).bootstrapJWK =
        .ok (encode (d.challenge key id nonce start).value) := by
  have hraw : (encode (d.challenge key id nonce start).value).length ≤ 1078 :=
    d.challenge_length hclock
  obtain ⟨proof, compact, hsign, hproof, hdoc, hverify⟩ := signProof_verifies hjose hraw
  refine ⟨proof, _, hproof, hdoc, fun now hlo hhi => ⟨?_, ?_⟩, hverify⟩
  · have hmatch : ¬ ((d.challenge key id nonce start).fqdn ≠ d.agent.fqdn ∨
        (d.challenge key id nonce start).trustDomain ≠ d.agent.trustDomain ∨
        (d.challenge key id nonce start).serverID ≠ serverID d.agent.trustDomain ∨
        (d.challenge key id nonce start).keyThumbprint ≠
          (jwkFor (publicOf key.toList)).thumbprint) := by
      have hdomain : d.attestor.config.trustDomain = d.agent.trustDomain := by
        rw [(newServer_ok d.serverAccepted).1, d.sameDomain]
      simp [Deployment.challenge, Server.challenge, Deployment.request, AgentConfig.request,
        hdomain]
    simp only [AgentAttempt.prove, d.decode_challenge hclock, d.challenge_valid hlo hhi,
      Deployment.agentAttempt, if_neg hmatch, hsign]
    rfl
  · have hmatch : ¬ ((d.challenge key id nonce start).fqdn ≠ d.responder.fqdn ∨
        (d.challenge key id nonce start).keyThumbprint ≠
          (jwkFor (publicOf key.toList)).thumbprint) := by
      simp [Deployment.challenge, Server.challenge, Deployment.request, AgentConfig.request,
        d.responderName]
    simp only [parseProof, hdoc, hverify, d.decode_challenge hclock, d.challenge_valid hlo hhi,
      if_neg hmatch]

end Accept

end Session

/-! ## The responder's part -/

theorem shouldEscape_of_isLetter {b : UInt8} :
    Base64.isLetter b = true → Url.shouldEscape b = false :=
  byte_forall (P := fun b => Base64.isLetter b = true → Url.shouldEscape b = false)
    (by decide +kernel) b

/-- A path that ends in an identifier needs no escape. -/
theorem escapePath_id {start : Bytes} (hstart : ∀ b ∈ start, Url.shouldEscape b = false)
    (id : List.Vector UInt8 32) :
    Url.escapePath (start ++ randomValue id) = start ++ randomValue id := by
  refine Url.escapePath_of_safe fun b hb => ?_
  rcases List.mem_append.mp hb with hb | hb
  · exact hstart b hb
  · exact shouldEscape_of_isLetter (Base64.encodeToString_isLetter _ b hb)

theorem proofID_append (start : Bytes) (id : List.Vector UInt8 32) :
    proofID (start ++ randomValue id) start = some (randomValue id) := by
  simp [proofID, validRandom_iff.mpr ⟨id, rfl⟩]

theorem control_accepts {jose : Jose} {config : ResponderConfig} {id : List.Vector UInt8 32}
    {proof : Bytes} {now : Int} {c : Challenge} (hsize : proof.length ≤ maxDocumentSize)
    (hparse : parseProof jose proof config.fqdn now = .ok c) (hid : c.id = randomValue id) :
    config.control jose (controlMessage (str "PUT") (randomValue id) proof) now =
      .ok (.put (randomValue id) proof c.expiresAt) := by
  have hescaped := escapePath_id (show ∀ b ∈ controlPrefix, _ from by decide +kernel) id
  simp [ResponderConfig.control, controlMessage, wireRequest, hescaped, proofID_append, hparse,
    hid, not_lt.mpr hsize]

/-- The publication up to the lock. -/
def publishTurn (id proof : Bytes) (now : Int) : Turn Store StoreLabel where
  due s := s.time ≤ now
  label _ := .control (controlMessage (str "PUT") id proof) now
  shows _ := True

/-- The publication under the lock, while the store has room. -/
def commitTurn (jose : Jose) (p : Pending) (clock : Bytes → Int) (done : Int) :
    Turn Store StoreLabel where
  due s := s.reads clock done = true ∧ s.responder.proofs.size < 4
  label s := .commit (s.waiting.idxOf p) clock done
  shows s := s.answer jose (.commit (s.waiting.idxOf p) clock done) =
    some ⟨201, [], .success, .proofPublished⟩

/-- The fetch of the server. -/
def fetchTurn (jose : Jose) (q : HttpRequest) (proof : Bytes) (clock : Bytes → Int) (done : Int) :
    Turn Store StoreLabel where
  due s := s.reads clock done = true
  label _ := .get q clock done true
  shows s := s.answer jose (.get q clock done true) = some ⟨200, proof, .success, .proofServed⟩

theorem step_commit (jose : Jose) {s : Store} {n : Nat} {clock : Bytes → Int} {done : Int}
    {p : Pending} (hreads : s.reads clock done = true) (hp : s.waiting[n]? = some p) :
    s.step jose (.commit n clock done) =
      some ⟨(s.responder.commit clock p).2, done, s.waiting.eraseIdx n,
        s.journal ++ s.responder.entry clock p⟩ := by
  simp only [Store.step, hreads, if_true, hp, Option.map_some]

theorem publish_room {r : Responder} (hroom : r.proofs.size < 4) (clock : Bytes → Int)
    (id body : Bytes) (expiresAt : Int) :
    (r.publish clock id body expiresAt).1 = ⟨201, [], .success, .proofPublished⟩ ∧
      (r.publish clock id body expiresAt).2.proofs.get id = some ⟨body, expiresAt⟩ := by
  have hsmaller := (r.expireLocked_swept clock).smaller
  have hfits : ¬ (((r.expireLocked clock).proofs.get id).isNone ∧
      (r.expireLocked clock).proofs.size ≥ 4) := by omega
  simp only [Responder.publish, if_neg hfits, Table.get_put, if_true, and_self]

theorem publicHandler_serves {s : Store} {q : HttpRequest} {id : Bytes} {p : StoredProof}
    {clock : Bytes → Int} {done : Int} (hq : s.responder.config.publicID q = .ok id)
    (hkept : Kept id p s) (hreads : s.reads clock done = true) (hlive : unix done < p.expiresAt) :
    (s.responder.publicHandler q clock true).1 = ⟨200, p.body, .success, .proofServed⟩ := by
  have hp : s.responder.proofs.get id = some p := by
    refine hkept.resolve_right fun hexpired => ?_
    have hmono := unix_mono (reads_time hreads)
    omega
  have hswept : (s.responder.expireLocked clock).proofs.get id = some p := by
    refine ((s.responder.expireLocked_swept clock).get hp).resolve_right fun hexpired => ?_
    have hmono := unix_mono (reads_entry hreads hp).2
    omega
  simp only [Responder.publicHandler, hq, hswept, if_true]

section Publication
variable {jose : Jose} {config : ResponderConfig} {id : List.Vector UInt8 32} {proof : Bytes}
  {c : Challenge} {turns : List (Turn Store StoreLabel)} {s : Store}

theorem fetch_prevails {q : HttpRequest} {clock : Bytes → Int} {done : Int}
    (hq : config.publicID q = .ok (randomValue id)) (hlive : unix done < c.expiresAt)
    (hs : StoreInv jose config s) (hkept : Kept (randomValue id) ⟨proof, c.expiresAt⟩ s) :
    Prevails (Store.step jose) (StoreLabel.foreign (randomValue id)) (fun _ => True)
      [fetchTurn jose q proof clock done] s := by
  refine Prevails.cons
    (P := fun s => StoreInv jose config s ∧ Kept (randomValue id) ⟨proof, c.expiresAt⟩ s)
    (fun h hl hstep => ⟨h.1.step hstep, hl.kept hstep h.2⟩) ?_ ⟨hs, hkept⟩
  rintro s ⟨hs, hkept⟩ hreads
  rw [← hs.books.configured] at hq
  exact ⟨congrArg some (publicHandler_serves hq hkept hreads hlive), _, if_pos hreads, trivial⟩

theorem commit_prevails {clock : Bytes → Int} {done : Int}
    (hnext : ∀ {u : Store}, StoreInv jose config u →
      Kept (randomValue id) ⟨proof, c.expiresAt⟩ u →
      Prevails (Store.step jose) (StoreLabel.foreign (randomValue id)) (fun _ => True) turns u)
    (hs : StoreInv jose config s) (hp : .put (randomValue id) proof c.expiresAt ∈ s.waiting) :
    Prevails (Store.step jose) (StoreLabel.foreign (randomValue id)) (fun _ => True)
      (commitTurn jose (.put (randomValue id) proof c.expiresAt) clock done :: turns) s := by
  refine Prevails.cons
    (P := fun s => StoreInv jose config s ∧ .put (randomValue id) proof c.expiresAt ∈ s.waiting)
    (fun h hl hstep => ⟨h.1.step hstep, hl.waiting hstep h.2 rfl⟩) ?_ ⟨hs, hp⟩
  rintro s ⟨hs, hwaiting⟩ ⟨hreads, hroom⟩
  have hpending := List.getElem?_idxOf hwaiting
  obtain ⟨hanswer, hstored⟩ := publish_room hroom clock (randomValue id) proof c.expiresAt
  have hstep := step_commit jose hreads hpending
  refine ⟨?_, _, hstep, hnext (hs.step hstep) (Or.inl hstored)⟩
  simp only [commitTurn, Store.answer, hpending, Option.map_some, Responder.commit, hanswer]

theorem publish_prevails {now : Int} (hsize : proof.length ≤ maxDocumentSize)
    (hparse : parseProof jose proof config.fqdn now = .ok c) (hid : c.id = randomValue id)
    (hnext : ∀ {u : Store}, StoreInv jose config u →
      .put (randomValue id) proof c.expiresAt ∈ u.waiting →
      Prevails (Store.step jose) (StoreLabel.foreign (randomValue id)) (fun _ => True) turns u)
    (hs : StoreInv jose config s) :
    Prevails (Store.step jose) (StoreLabel.foreign (randomValue id)) (fun _ => True)
      (publishTurn (randomValue id) proof now :: turns) s := by
  refine Prevails.cons (P := StoreInv jose config) (fun h _ hstep => h.step hstep) ?_ hs
  intro s hs hdue
  have hcontrol := control_accepts hsize hparse hid
  rw [← hs.books.configured] at hcontrol
  have hstep : s.step jose ((publishTurn (randomValue id) proof now).label s) = some
      { s with
        time := now
        waiting := s.waiting ++ [.put (randomValue id) proof c.expiresAt] } := by
    simp only [publishTurn, Store.step, hcontrol]
    exact if_pos hdue
  exact ⟨trivial, _, hstep, hnext (hs.step hstep) (by simp)⟩

end Publication

/-! ## The server's part -/

theorem accepts_ready {a : ServerAttempt} {response : Bytes} {now : Int}
    (hready : decodeJSON unmarshalReady response = .ok ⟨1, a.challenge.id⟩)
    (hlive : unix now < a.challenge.expiresAt) : a.accepts response now = .ok () := by
  simp [ServerAttempt.accepts, hready, not_le.mpr hlive]

theorem fetchOne_document {proof : Bytes} (hsize : proof.length ≤ maxDocumentSize) :
    fetchOne none (.response 200 [] proof false) = .ok (some proof) := by
  have hbody : limitedBody proof = proof := List.take_of_length_le (by omega)
  simp [fetchOne, hbody, not_lt.mpr hsize]

theorem proves_raw {jose : Jose} {a : ServerAttempt} {proof : Bytes}
    (h : verifyProof jose proof a.request.bootstrapJWK = .ok a.rawChallenge) :
    a.proves jose proof = .ok () := by
  simp [ServerAttempt.proves, h]

theorem live_open {a : ServerAttempt} {now : Int} (hopen : a.closed = false)
    (hlive : unix now < a.challenge.expiresAt) : a.live now none = .ok () := by
  simp [ServerAttempt.live, hopen, not_le.mpr hlive]

/-- The quota of `name` has room. -/
def System.unspent (name : Bytes) (s : System) : Prop :=
  ((s.server.recent name).filter fun previous => decide (previous > s.now - minute)).length < 6

theorem chargeSuccess_room {s : System} {name : Bytes} (h : s.unspent name) :
    ∃ server, s.server.chargeSuccess name s.now = (.ok (), server) ∧
      server.config = s.server.config :=
  ⟨_, if_neg (not_le.mpr h), rfl⟩

def verifyTurn (i : Nat) (response : Bytes) : Turn System Label :=
  ⟨fun _ => True, fun _ => .verify i response, fun _ => True⟩

/-- A piece of `Verify` that is due under `due`. -/
def callTurn (due : System → Prop) (l : Label) : Turn System Label :=
  ⟨due, fun _ => l, fun _ => True⟩

/-- The pieces of call `c` of `Verify` whose first address answers with `proof`. -/
def callTurns (c : Nat) (expiresAt : Int) (address : Addr) (proof name : Bytes) :
    List (Turn System Label) :=
  [callTurn (fun s => unix s.now < expiresAt) (.accept c),
    callTurn (fun _ => True) (.exchange c address (.response 200 [] proof false)),
    callTurn (fun _ => True) (.check c),
    callTurn (fun s => unix s.now < expiresAt) (.recheck c),
    callTurn (System.unspent name) (.charge c)]

def Returned (c : Nat) (r : Result) (s : System) : Prop :=
  ∃ k, s.calls[c]? = some k ∧ k.progress = .returned (.ok r)

section Verify
variable {jose : Jose} {server : Server} {now : Int} {i c : Nat} {a : ServerAttempt}
  {goal : System → Prop} {turns : List (Turn System Label)}

/-- One piece of the call, when the rest prevails from the call it leaves. -/
theorem callTurn_prevails {due : System → Prop} {l : Label} (k k' : Call)
    (hstep : ∀ {s : System}, AtCall jose (System.start server now) c k a s → due s →
      ∃ u, step jose s l = some u ∧ AtCall jose (System.start server now) c k' a u)
    (hnext : ∀ {u : System}, AtCall jose (System.start server now) c k' a u →
      Prevails (step jose) (fun _ l => l.foreign k.attempt (some c)) goal turns u)
    {s : System} (hs : AtCall jose (System.start server now) c k a s) :
    Prevails (step jose) (fun _ l => l.foreign k.attempt (some c)) goal
      (callTurn due l :: turns) s := by
  refine Prevails.cons (P := AtCall jose (System.start server now) c k a)
    (fun h hl hstep => h.foreign hl hstep) ?_ hs
  intro s hs hdue
  obtain ⟨u, hu, hat⟩ := hstep hs hdue
  exact ⟨trivial, u, hu, hnext hat⟩

/-- A call that answers the challenge in time and reads the proof returns the result. -/
theorem call_prevails {response proof : Bytes} {address : Addr} {rest : List Addr}
    (hready : decodeJSON unmarshalReady response = .ok ⟨1, a.challenge.id⟩)
    (haddress : a.node.addresses = address :: rest) (hsize : proof.length ≤ maxDocumentSize)
    (hverify : verifyProof jose proof a.request.bootstrapJWK = .ok a.rawChallenge)
    (hopen : a.closed = false) (hctx : a.ctxErr = none) {s : System}
    (hs : AtCall jose (System.start server now) c ⟨i, response, none, [], .entered⟩ a s) :
    Prevails (step jose) (fun _ l => l.foreign i (some c)) (Returned c (server.result a))
      (callTurns c a.challenge.expiresAt address proof a.node.name) s := by
  have hresult : ∀ {s : System} {charged : Server}, AtCall jose (System.start server now) c
      ⟨i, response, none, proof, .locked⟩ a s → charged.config = s.server.config →
      charged.result a = server.result a := by
    intro s charged hs hconfig
    obtain ⟨labels, hrun⟩ := hs.reached
    have hkept : s.server.config = server.config := (runInv_of_exec hrun).config
    rw [Server.result, Server.result, hconfig, hkept]
  refine callTurn_prevails _ ⟨i, response, none, [], .fetching (address :: rest)⟩ ?_ ?_ hs
  · intro s hs hlive
    refine hs.own s.server rfl ?_ rfl
    simp [Call.accept, accepts_ready hready hlive, haddress, Call.next]
  refine callTurn_prevails _ ⟨i, response, none, proof, .fetched⟩ ?_ ?_
  · intro s hs _
    refine hs.own s.server rfl ?_ rfl
    simp [Call.exchange, Call.err, hctx, fetchOne_document hsize]
  refine callTurn_prevails _ ⟨i, response, none, proof, .checked⟩ ?_ ?_
  · intro s hs _
    refine hs.own s.server rfl ?_ rfl
    simp [Call.check, proves_raw hverify]
  refine callTurn_prevails _ ⟨i, response, none, proof, .locked⟩ ?_ ?_
  · intro s hs hlive
    have hunlocked : s.locked i = false := hs.unlocked rfl
    refine hs.own s.server rfl ?_ rfl
    simp [hunlocked, Call.recheck, Call.err, hctx, live_open hopen hlive]
  refine callTurn_prevails _ ⟨i, response, none, proof, .returned (.ok (server.result a))⟩ ?_ ?_
  · intro s hs hunspent
    obtain ⟨charged, hcharge, hconfig⟩ := chargeSuccess_room hunspent
    refine hs.own charged rfl ?_ rfl
    simp [Call.charge, hcharge, hresult hs hconfig]
  · intro s hs
    exact ⟨_, hs.call, rfl⟩

/-- The newest call, a call for attempt `i`, will return `r`. -/
def NewestReturns (jose : Jose) (i : Nat) (a : ServerAttempt) (address : Addr) (proof : Bytes)
    (r : Result) (s : System) : Prop :=
  Prevails (step jose) (fun _ l => l.foreign i (some (s.calls.length - 1)))
    (Returned (s.calls.length - 1) r)
    (callTurns (s.calls.length - 1) a.challenge.expiresAt address proof a.node.name) s

/-- The attempt is entered once, and its call returns the result. -/
theorem verify_prevails {response proof : Bytes} {address : Addr} {rest : List Addr}
    (hready : decodeJSON unmarshalReady response = .ok ⟨1, a.challenge.id⟩)
    (haddress : a.node.addresses = address :: rest) (hsize : proof.length ≤ maxDocumentSize)
    (hverify : verifyProof jose proof a.request.bootstrapJWK = .ok a.rawChallenge)
    (hfresh : a.verified = false) (hopen : a.closed = false) (hctx : a.ctxErr = none)
    {s : System} (hs : AtAttempt jose (System.start server now) i a s) :
    Prevails (step jose) (fun _ l => l.foreign i none)
      (NewestReturns jose i a address proof (server.result a)) [verifyTurn i response] s := by
  refine Prevails.cons (P := AtAttempt jose (System.start server now) i a)
    (fun h hl hstep => h.foreign hl hstep) ?_ hs
  intro s hs _
  have henter : a.enter = .ok { a with verified := true } := by
    simp [ServerAttempt.enter, hfresh, hopen]
  have hstep : step jose s (.verify i response) = some
      { s with
        attempts := s.attempts.set i { a with verified := true }
        calls := s.calls ++ [⟨i, response, none, [], .entered⟩] } := by
    simp [step, hs.unlocked hfresh, System.verify, hs.attempt, henter]
  have hlt := (List.getElem?_eq_some_iff.mp hs.attempt).1
  refine ⟨trivial, _, hstep, ?_⟩
  simp only [Prevails, NewestReturns, List.length_append, List.length_singleton,
    Nat.add_sub_cancel]
  exact call_prevails (a := { a with verified := true }) hready haddress hsize hverify hopen hctx
    { reached := reached_step hs.reached hstep
      attempt := List.getElem?_set_self hlt
      call := by simp }

end Verify

/-! ## The run -/

/-- `data` is the text of `a`, fits the size limit and decodes to `a`. -/
structure Document {α : Type} (unmarshal : List Value → Option α) (value : α → Value)
    (data : Bytes) (a : α) : Prop where
  text : data = encode (value a)
  size : data.length ≤ maxDocumentSize
  decodes : decodeJSON unmarshal data = .ok a

theorem document_of_decodes {α : Type} {unmarshal : List Value → Option α} {value : α → Value}
    {data : Bytes} {a : α} (htext : data = encode (value a))
    (h : decodeJSON unmarshal data = .ok a) : Document unmarshal value data a := by
  refine ⟨htext, ?_, h⟩
  unfold decodeJSON at h
  split at h
  · cases h
  · omega

/-- The seconds in which a challenge of time `start` is valid. -/
def InWindow (start t : Int) : Prop := unix start ≤ unix t ∧ unix t < unix start + 120

instance (start t : Int) : Decidable (InWindow start t) := inferInstanceAs (Decidable (_ ∧ _))

/-- A run in which all parties succeed. The server begins in `sys` and the responder is in
`store`; `address` is the pinned address at which the server reaches the responder. -/
structure HonestRun (d : Deployment) (jose : Jose) (key : List.Vector UInt8 64)
    (id nonce : List.Vector UInt8 32) (sys : System) (store : Store) (respondTime putTime : Int)
    (commitClock : Bytes → Int) (commitDone : Int) (getClock : Bytes → Int) (getDone : Int)
    (agent : AgentAttempt) (attempt : ServerAttempt) (server : Server) (address : Addr)
    (proof ready : Bytes) : Prop where
  agentBegins : beginAgent d.agent (.ok key) = .ok agent
  requestText : Document unmarshalRequest Request.value agent.payload attempt.request
  serverBegins : sys.server.begin sys.attempts.length sys.now none agent.payload (.ok id)
    (.ok nonce) = .ok (attempt, server)
  expires : attempt.challenge.expiresAt = unix sys.now + 120
  challengeText : Document unmarshalChallenge Challenge.value attempt.rawChallenge
    attempt.challenge
  agentProves : agent.prove jose attempt.rawChallenge respondTime =
    .ok (attempt.challenge.id, proof)
  proofText : ∃ document, Document unmarshalProof ProofDocument.value proof document
  responderServes : Prevails (Store.step jose) (StoreLabel.foreign attempt.challenge.id)
    (fun _ => True)
    [publishTurn attempt.challenge.id proof putTime,
      commitTurn jose (.put attempt.challenge.id proof attempt.challenge.expiresAt) commitClock
        commitDone,
      fetchTurn jose (server.fetchMessage attempt) proof getClock getDone] store
  agentResponds : (agent.respond jose attempt.rawChallenge respondTime (some 201)).1 = .ok ready
  readyText : Document unmarshalReady Ready.value ready ⟨1, attempt.challenge.id⟩
  pinned : attempt.node.addresses.head? = some address
  serverVerifies : Prevails (step jose) (fun _ l => l.foreign sys.attempts.length none)
    (NewestReturns jose sys.attempts.length attempt address proof d.result)
    [verifyTurn sys.attempts.length ready]
    { sys with server := server, attempts := sys.attempts ++ [attempt] }

theorem respond_published {jose : Jose} {a : AgentAttempt} {raw id proof : Bytes} {now : Int}
    (hopen : a.closed = false) (hfresh : a.responded = false)
    (h : a.prove jose raw now = .ok (id, proof)) :
    (a.respond jose raw now (some 201)).1 = .ok (encode (Ready.value ⟨1, id⟩)) := by
  have hprove : { a with responded := true }.prove jose raw now = .ok (id, proof) := h
  have hpending : ¬ (a.closed = true ∨ a.responded = true) := by simp [hopen, hfresh]
  simp only [AgentAttempt.respond, if_neg hpending, hprove]
  rfl

theorem publicID_fetchMessage {d : Deployment} (key : List.Vector UInt8 64)
    (id nonce : List.Vector UInt8 32) (start : Int) {node : Node} {s : Server}
    (hconfig : s.config = d.server) (hnode : node.fqdn = d.agent.fqdn) :
    d.responder.publicID (s.fetchMessage (d.attempt key id nonce start node)) =
      .ok (randomValue id) := by
  have hescaped := escapePath_id (show ∀ b ∈ pathPrefix, _ from by decide +kernel) id
  have hhost : joinHostPort node.fqdn s.config.port =
      joinHostPort d.responder.fqdn d.responder.port := by
    rw [hnode, hconfig, d.responderName, d.responderPort]
  have hid : (d.attempt key id nonce start node).challenge.id = randomValue id := rfl
  have hnode : (d.attempt key id nonce start node).node = node := rfl
  simp [ResponderConfig.publicID, Server.fetchMessage, wireRequest, hid, hnode, hescaped, hhost,
    proofID_append]

/-- From every reachable state of the server with room for the attempt, and every reachable state
of the responder, an honest run in the window of its challenge succeeds. -/
theorem honest_run_succeeds (d : Deployment) {jose : Jose} {key : List.Vector UInt8 64}
    (hjose : RoundTrips jose key) (id nonce : List.Vector UInt8 32)
    {serverStart : Int} {labels : List Label} {sys : System}
    (hsys : exec (step jose) (System.start d.attestor serverStart) labels = some sys)
    (hroom : sys.server.active.size < 32) (hclock : FitsInt64 (unix sys.now + 120))
    {storeStart : Int} {storeLabels : List StoreLabel} {store : Store}
    (hstore : exec (Store.step jose) (Store.fresh d.endpoint storeStart) storeLabels = some store)
    {respondTime putTime getDone : Int} (hrespond : InWindow sys.now respondTime)
    (hput : InWindow sys.now putTime) (hget : InWindow sys.now getDone)
    (commitClock : Bytes → Int) (commitDone : Int) (getClock : Bytes → Int) :
    ∃ agent attempt server address proof ready,
      HonestRun d jose key id nonce sys store respondTime putTime commitClock commitDone getClock
        getDone agent attempt server address proof ready := by
  obtain ⟨node, address, rest, hnode, hname, hfqdn, haddress⟩ := d.node_registered
  have hinv := runInv_of_exec hsys
  have hconfig := (newServer_ok d.serverAccepted).1
  obtain ⟨server, hbegin⟩ : ∃ server, sys.server.begin sys.attempts.length sys.now none _ _ _ =
      .ok (d.attempt key id nonce sys.now node, server) :=
    d.begin_ok hinv.config hinv.nodes hroom hnode sys.attempts.length
  obtain ⟨-, -, -, -, -, -, -, -, -, hserver, -⟩ := begin_ok hbegin
  obtain ⟨proof, document, hproof, hdocument, hwindow, hverify⟩ :=
    @Deployment.proof_accepted d key id nonce sys.now jose hjose hclock
  have hproofText := document_of_decodes hproof hdocument
  have hready := decodeJSON_ready (validRandom_iff.mpr ⟨id, rfl⟩)
  have hlive : unix getDone < (d.challenge key id nonce sys.now).expiresAt := by
    rw [d.challenge_expiresAt]
    exact hget.2
  have hstoreInv := exec_preserves StoreInv.step
    (StoreInv.fresh d.responderAccepted storeStart) hstore
  have hproves := (hwindow respondTime hrespond.1 hrespond.2).1
  have hresult : d.attestor.result (d.attempt key id nonce sys.now node) = d.result := by
    simp [Server.result, Deployment.result, Deployment.attempt, hconfig, hname, hfqdn, pluginName,
      str]
  refine ⟨d.agentAttempt key, d.attempt key id nonce sys.now node, server, address, proof,
    encode (Ready.value ⟨1, randomValue id⟩), ?_⟩
  constructor
  case agentBegins => exact d.beginAgent_ok
  case requestText => exact document_of_decodes rfl d.decode_request
  case serverBegins => exact hbegin
  case expires => exact d.challenge_expiresAt
  case challengeText => exact document_of_decodes rfl (d.decode_challenge hclock)
  case agentProves => exact hproves
  case proofText => exact ⟨document, hproofText⟩
  case responderServes =>
    have hq := publicID_fetchMessage key id nonce sys.now
      (hserver.trans (hinv.config.trans hconfig)) hfqdn
    exact publish_prevails hproofText.size (hwindow putTime hput.1 hput.2).2 rfl
      (commit_prevails (fetch_prevails hq hlive)) hstoreInv
  case agentResponds => exact respond_published rfl rfl hproves
  case readyText => exact document_of_decodes rfl hready
  case pinned => exact congrArg List.head? haddress
  case serverVerifies =>
    rw [← hresult]
    have hstep : step jose sys (.begin none (encode (d.request key).value) (.ok id) (.ok nonce)) =
        some { sys with
          server := server
          attempts := sys.attempts ++ [d.attempt key id nonce sys.now node] } := by
      simp [step, System.begin, hbegin]
    exact verify_prevails hready haddress hproofText.size hverify rfl rfl rfl
      ⟨reached_step ⟨labels, hsys⟩ hstep, by simp⟩

theorem sampleJose_roundTrips (key : List.Vector UInt8 64) : RoundTrips sampleJose key := by
  intro payload
  have hsplit : split (compactJWS payload (List.replicate 64 0)) (chr '.') =
      [Base64.encodeToString protectedHeader, Base64.encodeToString payload,
        Base64.encodeToString (List.replicate 64 0)] := by
    refine List.splitOn_intercalate _ (fun part hpart => ?_) (by simp)
    simp only [List.mem_cons, List.not_mem_nil, or_false] at hpart
    rcases hpart with rfl | rfl | rfl <;> exact dot_not_mem_base64 _
  refine ⟨List.replicate 64 0, ⟨[some proofType], fun _ => some payload⟩, rfl, ?_, ?_, rfl, rfl⟩
  · simp [sampleJose, compactJWS, join, List.intercalate, protectedHeader, str, chr]
  · simp only [sampleJose, hsplit, Base64.decodeString_encodeToString, Option.map_some]

def sampleDeployment : Deployment where
  agent := ⟨str "alpha.test", str "realm.test", str "/run/realm/control.sock", []⟩
  server := sampleConfig
  responder := sampleResponderConfig
  name := str "alpha"
  policy := ⟨str "alpha.test", [str "192.0.2.1"]⟩
  attestor := sampleServer
  endpoint := ⟨sampleResponderConfig, Table.empty, newMetrics.register (str "alpha.test")⟩
  agentAccepted := by rfl
  serverAccepted := newServer_sampleConfig
  responderAccepted := by rfl
  sameDomain := rfl
  registered := by rfl
  policyName := rfl
  responderName := rfl
  responderPort := rfl

theorem honest_run_succeeds_sampleDeployment :
    ∃ agent attempt server address proof ready,
      HonestRun sampleDeployment sampleJose (List.Vector.replicate 64 7) (sampleRandom 1)
        (sampleRandom 2) (System.start sampleServer 0) (Store.fresh sampleDeployment.endpoint 0)
        second (2 * second) (fun _ => 3 * second) (3 * second) (fun _ => 119 * second)
        (119 * second) agent attempt server address proof ready :=
  honest_run_succeeds sampleDeployment (sampleJose_roundTrips _) (sampleRandom 1) (sampleRandom 2)
    (exec_nil _) (by decide) (by decide) (exec_nil _) (by decide) (by decide) (by decide) _ _ _

end RealmFormal.NodeAttest

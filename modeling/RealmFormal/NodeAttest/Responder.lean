import RealmFormal.NodeAttest.Server
import RealmFormal.Go.Filepath
import RealmFormal.Lib.Transition

/-!
# The responder

The store of published proofs and its two handlers. `control` parses a proof
before it takes the lock, so a control request is a step of its own up to the
lock and another one under it. Each entry that the expiry sweep visits is
compared with its own clock reading.
-/

namespace RealmFormal.NodeAttest
open Go Go.Json Go.Netip
set_option autoImplicit false

structure ResponderConfig where
  fqdn : Bytes
  port : Int
  controlSocket : Bytes
  metricsAddress : Bytes

structure StoredProof where
  body : Bytes
  expiresAt : Int
  deriving DecidableEq

structure Responder where
  config : ResponderConfig
  proofs : Table Bytes StoredProof
  metrics : Metrics

def newResponder (config : ResponderConfig) : Except String Responder :=
  match validateMetricsAddress config.metricsAddress with
  | .error e => .error e
  | .ok () =>
    if ¬ validFQDN config.fqdn ∨ config.port < 1 ∨ config.port > 65535 ∨
        ¬ Filepath.isAbs config.controlSocket then
      .error "invalid responder configuration"
    else .ok ⟨config, Table.empty, newMetrics.register config.fqdn⟩

/-- `proofID`, when it reports a valid ID. -/
def proofID (path start : Bytes) : Option Bytes :=
  if hasPrefix path start ∧ validRandom (trimPrefix path start) then some (trimPrefix path start)
  else none

/-- The loop body of `expireLocked`. -/
def Responder.expire (clock : Bytes → Int) (r : Responder) (entry : Bytes × StoredProof) :
    Responder :=
  if entry.2.expiresAt ≤ unix (clock entry.1) then
    { r with
      proofs := r.proofs.erase entry.1
      metrics := (r.metrics.pendingAdd r.config.fqdn (-1)).proof .expired }
  else r

def Responder.expireLocked (r : Responder) (clock : Bytes → Int) : Responder :=
  r.proofs.entries.foldl (Responder.expire clock) r

/-! ## Handlers -/

/-- An HTTP request. `escapedPath` is `URL.EscapedPath`, `bodyFault` a failure to read the body,
and `rootPeer` what `rootPeer` found for the connection. -/
structure HttpRequest where
  method : Bytes
  host : Bytes
  rawQuery : Bytes
  path : Bytes
  escapedPath : Bytes
  contentLength : Int
  transferEncoding : List Bytes
  body : Bytes
  bodyFault : Bool
  rootPeer : Bool

/-- The response and the labels under which the handler records it. -/
structure Answer where
  status : Nat
  body : Bytes
  outcome : Outcome
  reason : Reason
  deriving DecidableEq

/-- `http.Error`, recorded as a failure. -/
def httpError (message : String) (status : Nat) (reason : Reason) : Answer :=
  ⟨status, str message ++ str "\n", .failure, reason⟩

/-- `http.NotFound`. -/
def notFound (reason : Reason) : Answer := httpError "404 page not found" 404 reason

/-- The checks of `public` before it takes the lock. -/
def ResponderConfig.publicID (config : ResponderConfig) (q : HttpRequest) : Except Answer Bytes :=
  if q.method ≠ str "GET" then .error (httpError "method not allowed" 405 .method)
  else if q.host ≠ joinHostPort config.fqdn config.port ∨ q.rawQuery ≠ [] ∨
      q.escapedPath ≠ q.path ∨ q.contentLength > 0 ∨ q.transferEncoding.length ≠ 0 then
    .error (notFound .invalidRequest)
  else
    match proofID q.path pathPrefix with
    | none => .error (notFound .invalidRequest)
    | some id => .ok id

/-- `public`. The flag tells whether the body could be written. -/
def Responder.publicHandler (r : Responder) (q : HttpRequest) (clock : Bytes → Int)
    (delivered : Bool) : Answer × Responder :=
  match r.config.publicID q with
  | .error a => (a, r)
  | .ok id =>
    let r := r.expireLocked clock
    match r.proofs.get id with
    | none => (notFound .notFound, r)
    | some proof =>
      (if delivered then ⟨200, proof.body, .success, .proofServed⟩
        else ⟨200, proof.body, .failure, .writeFailed⟩, r)

/-- A control request that waits for the lock. -/
inductive Pending where
  | put (id body : Bytes) (expiresAt : Int)
  | delete (id : Bytes)
  deriving DecidableEq

def controlPrefix : Bytes := str "/v1/proofs/"

/-- `control` up to the lock, with the clock reading that `parseProof` gets. -/
def ResponderConfig.control (config : ResponderConfig) (jose : Jose) (q : HttpRequest) (now : Int) :
    Except Answer Pending :=
  if ¬ q.rootPeer then .error (httpError "root peer required" 403 .peerDenied)
  else if q.rawQuery ≠ [] ∨ q.escapedPath ≠ q.path then .error (notFound .invalidRequest)
  else
    match proofID q.path controlPrefix with
    | none => .error (notFound .invalidRequest)
    | some id =>
      if q.method = str "PUT" then
        if q.bodyFault ∨ q.body.length > maxDocumentSize then
          .error (httpError "invalid proof size" 400 .invalidSize)
        else
          match parseProof jose q.body config.fqdn now with
          | .error _ => .error (httpError "invalid proof" 400 .invalidProof)
          | .ok c =>
            if c.id ≠ id then .error (httpError "invalid proof" 400 .invalidProof)
            else .ok (.put id q.body c.expiresAt)
      else if q.method = str "DELETE" then .ok (.delete id)
      else .error (httpError "method not allowed" 405 .method)

/-- The locked part of a PUT. -/
def Responder.publish (r : Responder) (clock : Bytes → Int) (id body : Bytes) (expiresAt : Int) :
    Answer × Responder :=
  let r := r.expireLocked clock
  if (r.proofs.get id).isNone ∧ r.proofs.size ≥ 4 then
    (httpError "proof capacity reached" 429 .capacity, r)
  else
    (⟨201, [], .success, .proofPublished⟩,
      { r with
        proofs := r.proofs.put id ⟨body, expiresAt⟩
        metrics := (if (r.proofs.get id).isNone then r.metrics.pendingAdd r.config.fqdn 1
          else r.metrics).proof .published })

/-- The locked part of a DELETE. -/
def Responder.withdraw (r : Responder) (id : Bytes) : Answer × Responder :=
  (⟨204, [], .success, .proofDeleted⟩,
    if (r.proofs.get id).isSome then
      { r with
        proofs := r.proofs.erase id
        metrics := (r.metrics.pendingAdd r.config.fqdn (-1)).proof .deleted }
    else r)

/-! ## Runs -/

/-- An accepted control request. -/
inductive Accepted where
  | put (id body : Bytes) (expiresAt : Int) (replacing : Bool)
  | delete (id : Bytes)
  deriving DecidableEq

/-- The responder, the last clock reading, the control requests between their checks and the
lock, and the journal of accepted control requests. -/
structure Store where
  responder : Responder
  time : Int
  waiting : List Pending
  journal : List Accepted

inductive StoreLabel where
  | get (q : HttpRequest) (clock : Bytes → Int) (done : Int) (delivered : Bool)
  | control (q : HttpRequest) (now : Int)
  | commit (n : Nat) (clock : Bytes → Int) (done : Int)
  | cleanup (clock : Bytes → Int) (done : Int)

/-- The readings of a sweep lie between the last reading and `done`. -/
def Store.reads (s : Store) (clock : Bytes → Int) (done : Int) : Bool :=
  decide (s.time ≤ done) &&
    s.responder.proofs.entries.all fun e => decide (s.time ≤ clock e.1 ∧ clock e.1 ≤ done)

/-- A waiting request under the lock. -/
def Responder.commit (r : Responder) (clock : Bytes → Int) : Pending → Answer × Responder
  | .put id body expiresAt => r.publish clock id body expiresAt
  | .delete id => r.withdraw id

/-- What a committed request adds to the journal. -/
def Responder.entry (r : Responder) (clock : Bytes → Int) (p : Pending) : List Accepted :=
  match p with
  | .put id body expiresAt =>
    if (r.publish clock id body expiresAt).1.outcome = .success then
      [.put id body expiresAt ((r.expireLocked clock).proofs.get id).isSome]
    else []
  | .delete id => [.delete id]

def Store.step (jose : Jose) (s : Store) : StoreLabel → Option Store
  | .get q clock done delivered =>
    if s.reads clock done then
      some { s with responder := (s.responder.publicHandler q clock delivered).2, time := done }
    else none
  | .control q now =>
    if s.time ≤ now then
      match s.responder.config.control jose q now with
      | .error _ => some { s with time := now }
      | .ok p => some { s with time := now, waiting := s.waiting ++ [p] }
    else none
  | .commit n clock done =>
    if s.reads clock done then
      (s.waiting[n]?).map fun p =>
        ⟨(s.responder.commit clock p).2, done, s.waiting.eraseIdx n,
          s.journal ++ s.responder.entry clock p⟩
    else none
  | .cleanup clock done =>
    if s.reads clock done then
      some { s with responder := s.responder.expireLocked clock, time := done }
    else none

/-- The answer that a step gives, if it gives one. -/
def Store.answer (jose : Jose) (s : Store) : StoreLabel → Option Answer
  | .get q clock _ delivered => some (s.responder.publicHandler q clock delivered).1
  | .control q now =>
    match s.responder.config.control jose q now with
    | .error a => some a
    | .ok _ => none
  | .commit n clock _ => (s.waiting[n]?).map fun p => (s.responder.commit clock p).1
  | .cleanup _ _ => none

end RealmFormal.NodeAttest

import RealmFormal.Go.Bytes
import Mathlib.Logic.Function.Basic

/-!
# Registry gauges and the vocabulary of observations

The part of the metrics registry that the server and the responder write while
they hold their own locks: the admitted node labels, the pending gauge and the
proof counters. Gauge and counters are counted here without bound; the registry,
whose integers have 64 bits, shows them modulo 2^64.
-/

namespace RealmFormal.NodeAttest
open Go
set_option autoImplicit false

inductive Stage where
  | start | payload | challenge | publish | response | fetch | verify | quota | attributes
  | «public» | control
  deriving DecidableEq, Repr

inductive Reason where
  | internal | notConfigured | invalidPayload | unknownNode | invalidKey | capacity | streamError
  | noChallenge | invalidChallenge | publishFailed | invalidResponse | expired | endpointFailed
  | invalidProof | sessionEnded | rateLimit | invalidResult | attributesSent | proofSubmitted
  | canceled | deadline | method | invalidRequest | notFound | peerDenied | invalidSize
  | proofServed | proofPublished | proofDeleted | writeFailed
  deriving DecidableEq, Repr

inductive Outcome where
  | success | failure | skipped
  deriving DecidableEq, Repr

/-- `observationError`: an error with the stage and the reason it is reported under. -/
structure ObservationError where
  err : String
  stage : Stage
  reason : Reason
  deriving DecidableEq, Repr

inductive ProofAction where
  | published | deleted | expired
  deriving DecidableEq, Repr

/-- `stamped` is the key set of `lastSuccess`. A missing gauge reads as zero. -/
structure Metrics where
  nodes : List Bytes
  stamped : List Bytes
  pending : Bytes → Int
  proofs : ProofAction → Nat

def unknownNode : Bytes := str "unknown"

def newMetrics : Metrics := ⟨[unknownNode], [], fun _ => 0, fun _ => 0⟩

def Metrics.register (m : Metrics) (node : Bytes) : Metrics :=
  if node ∈ m.stamped then { m with nodes := node :: m.nodes }
  else
    { m with
      nodes := node :: m.nodes
      stamped := node :: m.stamped
      pending := Function.update m.pending node 0 }

def Metrics.nodeLocked (m : Metrics) (node : Bytes) : Bytes :=
  if node ∈ m.nodes then node else unknownNode

def Metrics.pendingAdd (m : Metrics) (node : Bytes) (delta : Int) : Metrics :=
  { m with
    pending := Function.update m.pending (m.nodeLocked node)
      (m.pending (m.nodeLocked node) + delta) }

/-- `record`: an outcome is counted under a registered label; a success is stamped. -/
def Metrics.record (m : Metrics) (node : Bytes) (outcome : Outcome) : Metrics :=
  if outcome = .success then { m with stamped := m.nodeLocked node :: m.stamped } else m

def Metrics.proof (m : Metrics) (action : ProofAction) : Metrics :=
  { m with proofs := Function.update m.proofs action (m.proofs action + 1) }

/-- A registered label is counted under its own name. -/
theorem Metrics.pending_pendingAdd {m : Metrics} {node : Bytes} (h : node ∈ m.nodes) (delta : Int) :
    (m.pendingAdd node delta).pending node = m.pending node + delta := by
  simp [Metrics.pendingAdd, Metrics.nodeLocked, h]

theorem Metrics.pending_record (m : Metrics) (node : Bytes) (outcome : Outcome) :
    (m.record node outcome).pending = m.pending := by
  unfold Metrics.record
  split <;> rfl

/-- Giving back what was added restores the gauges, also after changes of other fields. -/
theorem Metrics.pending_restored {m m' : Metrics} {node : Bytes} {delta : Int}
    (hpending : m'.pending = (m.pendingAdd node delta).pending) (hnodes : m'.nodes = m.nodes) :
    (m'.pendingAdd node (-delta)).pending = m.pending := by
  have hnode : m'.nodeLocked node = m.nodeLocked node := by
    unfold Metrics.nodeLocked
    rw [hnodes]
  funext label
  simp only [Metrics.pendingAdd, hnode, hpending, Function.update_self, Function.update_apply]
  split
  · rename_i hlabel
    rw [hlabel]
    omega
  · rfl

theorem Metrics.proofs_proof_self (m : Metrics) (action : ProofAction) :
    (m.proof action).proofs action = m.proofs action + 1 := by
  simp [Metrics.proof]

theorem Metrics.proofs_proof_of_ne (m : Metrics) {action other : ProofAction} (h : other ≠ action) :
    (m.proof action).proofs other = m.proofs other := by
  simp [Metrics.proof, h]

end RealmFormal.NodeAttest

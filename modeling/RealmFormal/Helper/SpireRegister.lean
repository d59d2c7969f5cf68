import RealmFormal.Go.Unmarshal
import RealmFormal.Go.Sha
import Mathlib.Data.List.Sort
import Mathlib.Logic.Function.Basic

/-!
# spire-register

`reconcile` with the manifest and state readers, the commands it sends to the
SPIRE server, and the ways a command can end: it runs, it fails without effect,
or the process stops around it. The server keeps a log of the commands that took
effect.
-/

namespace RealmFormal.Helper
open Go Go.Json
set_option autoImplicit false

structure Registration where
  parentID : Bytes
  spiffeID : Bytes
  selectors : List Bytes
  deriving DecidableEq

/-- Node, then entry name. -/
abbrev Manifest := Table Bytes (Table Bytes Registration)

inductive HelperError where
  | readManifest (cause : String)
  | parseManifest
  | incomplete (node name : Bytes)
  | readState (cause : String)
  | parseState
  | create (id node name : Bytes)
  | update (id node name : Bytes)
  | deleteStale (id : Bytes)
  | writeState
  deriving DecidableEq

/-! ## Reading the inputs -/

def registrationNames : List Bytes := [str "parentID", str "spiffeID", str "selectors"]

/-- Unknown members are ignored here. -/
def unmarshalRegistration (v : Value) : Option Registration :=
  (members [v]).bind fun ms =>
    (toText (fieldValues registrationNames ms (str "parentID"))).bind fun parentID =>
      (toText (fieldValues registrationNames ms (str "spiffeID"))).bind fun spiffeID =>
        (toTexts (fieldValues registrationNames ms (str "selectors"))).map fun selectors =>
          ⟨parentID, spiffeID, selectors⟩

def unmarshalManifest (v : Value) : Option Manifest :=
  toMap (fun names => toMap unmarshalRegistration [names]) [v]

def Registration.complete (r : Registration) : Bool :=
  decide (r.parentID ≠ [] ∧ r.spiffeID ≠ [] ∧ r.selectors.length ≠ 0)

/-- The first incomplete entry in the order in which the maps are visited. -/
def firstIncomplete (m : Manifest) : Option (Bytes × Bytes) :=
  m.entries.findSome? fun node =>
    node.2.entries.findSome? fun e => if e.2.complete then none else some (node.1, e.1)

/-- `readManifest` on what `os.ReadFile` returned. -/
def readManifest (raw : Except String Bytes) : Except HelperError Manifest :=
  match raw with
  | .error cause => .error (.readManifest cause)
  | .ok bytes =>
    match (parseDocument bytes).bind unmarshalManifest with
    | none => .error .parseManifest
    | some m =>
      match firstIncomplete m with
      | some (node, name) => .error (.incomplete node name)
      | none => .ok m

/-- `readState`: `fault` is a read error other than a missing file. -/
def readState (fault : Option String) (file : Option Bytes) : Except HelperError (List Bytes) :=
  match fault with
  | some cause => .error (.readState cause)
  | none =>
    match file with
    | none => .ok []
    | some raw =>
      match (parseDocument raw).bind fun v => toTexts [v] with
      | none => .error .parseState
      | some ids => .ok ids

def encodeState (ids : List Bytes) : Bytes := encode (.array (ids.map Value.string))

def sortedKeys {V : Type} (t : Table Bytes V) : List Bytes :=
  (t.entries.map Prod.fst).insertionSort (· ≤ ·)

def hexByte (b : UInt8) : Bytes := [hexLower (b.toNat / 16), hexLower (b.toNat % 16)]

def hex (bs : Bytes) : Bytes := bs.flatMap hexByte

/-- The URL namespace of RFC 4122. -/
def entryNamespace : Bytes :=
  [0x6b, 0xa7, 0xb8, 0x11, 0x9d, 0xad, 0x11, 0xd1, 0x80, 0xb4, 0x00, 0xc0, 0x4f, 0xd4, 0x30, 0xc8]

/-- `spireEntryID`: a version 5 UUID. -/
def spireEntryID (node name : Bytes) : Bytes :=
  let sum := (Sha.sum1 (entryNamespace ++ (str "nyaw-realm:" ++ node ++ str ":" ++ name))).take 16
  let id := (sum.modify 6 fun b => b &&& 0x0f ||| 0x50).modify 8 fun b => b &&& 0x3f ||| 0x80
  hex (id.take 4) ++ str "-" ++ hex ((id.drop 4).take 2) ++ str "-" ++ hex ((id.drop 6).take 2) ++
    str "-" ++ hex ((id.drop 8).take 2) ++ str "-" ++ hex (id.drop 10)

/-- One declared entry with its key. -/
structure Declaration where
  node : Bytes
  name : Bytes
  entry : Registration
  deriving DecidableEq

def Declaration.id (d : Declaration) : Bytes := spireEntryID d.node d.name

/-- The entries in the order in which `reconcile` applies them. -/
def declarations (m : Manifest) : List Declaration :=
  (sortedKeys m).flatMap fun node =>
    match m.get node with
    | none => []
    | some names =>
      (sortedKeys names).filterMap fun name => (names.get name).map fun e => ⟨node, name, e⟩

def declaredIDs (m : Manifest) : List Bytes := (declarations m).map Declaration.id

/-! ## The server and the state file -/

/-- An entry as `create` and `update` set it. -/
structure Entry where
  registration : Registration
  x509SVIDTTL : Nat
  deriving DecidableEq

def Registration.toEntry (r : Registration) : Entry := ⟨r, 3600⟩

inductive Command where
  | «show» (id : Bytes)
  | create (id : Bytes) (entry : Entry)
  | update (id : Bytes) (entry : Entry)
  | delete (id : Bytes)
  deriving DecidableEq

structure World where
  server : Bytes → Option Entry
  log : List Command
  file : Option Bytes

def World.set (w : World) (c : Command) (id : Bytes) (e : Option Entry) : World :=
  { w with server := Function.update w.server id e, log := w.log ++ [c] }

/-- What the server does with a command; `none` is a refusal. -/
def Command.run (c : Command) (w : World) : Option World :=
  match c with
  | .show id => if (w.server id).isSome then some w else none
  | .create id entry => if (w.server id).isSome then none else some (w.set c id (some entry))
  | .update id entry => if (w.server id).isSome then some (w.set c id (some entry)) else none
  | .delete id => if (w.server id).isSome then some (w.set c id none) else none

/-- How an action of the process ends. -/
inductive Fate where
  | ok
  | fail
  | stop (effect : Bool)
  deriving DecidableEq

inductive Outcome where
  | success
  | error (e : HelperError)
  | stopped
  deriving DecidableEq

/-- Take an action under a fate: `none` means that the process stopped, otherwise the flag
tells whether the action succeeded. -/
def attempt (fate : Fate) (action : World → Option World) (w : World) : Option Bool × World :=
  match fate with
  | .ok =>
    match action w with
    | some w' => (some true, w')
    | none => (some false, w)
  | .fail => (some false, w)
  | .stop effect => (none, if effect then (action w).getD w else w)

def execute (fate : Fate) (c : Command) (w : World) : Option Bool × World :=
  attempt fate c.run w

/-- The second command of `apply`. -/
def Declaration.command (d : Declaration) (present : Bool) : Command :=
  if present then .update d.id d.entry.toEntry else .create d.id d.entry.toEntry

/-- `apply`, whose two commands meet the fates `n` and `n + 1`. -/
def apply (fates : Nat → Fate) (n : Nat) (w : World) (d : Declaration) : Outcome × World :=
  match execute (fates n) (.show d.id) w with
  | (none, w) => (.stopped, w)
  | (some present, w) =>
    match execute (fates (n + 1)) (d.command present) w with
    | (none, w) => (.stopped, w)
    | (some true, w) => (.success, w)
    | (some false, w) =>
      (.error (if present then .update d.id d.node d.name else .create d.id d.node d.name), w)

/-- The first loop of `reconcile`. -/
def applyAll (fates : Nat → Fate) : Nat → World → List Declaration → Outcome × World
  | _, w, [] => (.success, w)
  | n, w, d :: ds =>
    match apply fates n w d with
    | (.success, w) => applyAll fates (n + 2) w ds
    | (r, w) => (r, w)

/-- The second loop of `reconcile`, over the IDs of the previous state. -/
def prune (fates : Nat → Fate) (keep : List Bytes) :
    Nat → World → List Bytes → Outcome × Nat × World
  | n, w, [] => (.success, n, w)
  | n, w, id :: ids =>
    if id ∈ keep then prune fates keep n w ids
    else
      match execute (fates n) (.delete id) w with
      | (none, w) => (.stopped, n, w)
      | (some true, w) => prune fates keep (n + 1) w ids
      | (some false, w) => (.error (.deleteStale id), n, w)

/-- `writeState`: the rename is atomic, so the file is the old or the new one. -/
def writeState (fate : Fate) (ids : List Bytes) (w : World) : Outcome × World :=
  match attempt fate (fun w => some { w with file := some (encodeState ids) }) w with
  | (none, w) => (.stopped, w)
  | (some true, w) => (.success, w)
  | (some false, w) => (.error .writeState, w)

/-- One invocation: its manifest file, a fault of reading the state file, and the fates of
its actions. -/
structure Run where
  manifest : Except String Bytes
  stateFault : Option String
  fates : Nat → Fate

/-- `reconcile` after its inputs are read. -/
def reconcileWith (fates : Nat → Fate) (desired : Manifest) (previous : List Bytes) (w : World) :
    Outcome × World :=
  match applyAll fates 0 w (declarations desired) with
  | (.success, w) =>
    match prune fates (declaredIDs desired) (2 * (declarations desired).length) w previous with
    | (.success, n, w) => writeState (fates n) (declaredIDs desired) w
    | (r, _, w) => (r, w)
  | (r, w) => (r, w)

def reconcile (r : Run) (w : World) : Outcome × World :=
  match readManifest r.manifest with
  | .error e => (.error e, w)
  | .ok desired =>
    match readState r.stateFault w.file with
    | .error e => (.error e, w)
    | .ok previous => reconcileWith r.fates desired previous w

/-- The world after a sequence of invocations. -/
def runAll (w : World) (runs : List Run) : World := runs.foldl (fun w r => (reconcile r w).2) w

end RealmFormal.Helper

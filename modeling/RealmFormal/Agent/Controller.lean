import RealmFormal.Agent.Gate
import RealmFormal.Go.JsonStream
import RealmFormal.Lib.Transition

/-!
# The controller of one workload

The current instance and the state file, and the steps that change them under
the controller's mutex: `prepare`, one round of `reconcile` with `recover`, the
exit of a worker, and a restart of the agent. What the kernel and the file
system answer is part of the label of a step. Times are in nanoseconds.
-/

namespace RealmFormal.Agent
open Go Go.Json
set_option autoImplicit false

/-! ## State -/

structure Instance where
  key : Bytes
  exited : Bool
  emptySince : Option Int
  deriving DecidableEq

structure State where
  current : Option Instance
  file : Option Bytes
  deriving DecidableEq

/-- An instance as `start` returns it. -/
def Instance.started (key : Bytes) : Instance := ⟨key, false, none⟩

def emptyGrace : Int := 30 * 1000000000

/-- `expiredEmpty`, with what `populated` said. -/
def Instance.expiredEmpty (i : Instance) (populated : Bool) (now : Int) : Bool × Instance :=
  if populated then (false, { i with emptySince := none })
  else
    match i.emptySince with
    | none => (false, { i with emptySince := some now })
    | some since => (decide (now - since ≥ emptyGrace), i)

/-! ## The state file -/

structure SavedState where
  cgroup : Bytes
  key : Bytes
  deriving DecidableEq

def SavedState.value (s : SavedState) : Value :=
  .object [(str "cgroup", .string s.cgroup), (str "key", .string s.key)]

/-- What `json.Encoder` writes. -/
def encodeSaved (s : SavedState) : Bytes := encode s.value ++ str "\n"

def savedNames : List Bytes := [str "cgroup", str "key"]

def unmarshalSaved (vs : List Value) : Option SavedState :=
  (members vs).bind fun ms =>
    (toText (fieldValues savedNames ms (str "cgroup"))).bind fun cgroup =>
      (toText (fieldValues savedNames ms (str "key"))).map fun key => ⟨cgroup, key⟩

/-- `recover` decodes one value from the first 8192 bytes. -/
def readSaved (raw : Bytes) : Option SavedState :=
  (parseValue ((raw.take 8192).length + 1) (raw.take 8192)).bind fun r => unmarshalSaved [r.1]

/-! ## Processes -/

/-- What the agent can learn of a process: its `cgroup` file, the inode of a cgroup directory,
and the inodes of its network namespace and of the agent's own. -/
structure Process where
  cgroupFile : Except String Bytes
  cgroupInode : Bytes → Except String Nat
  netnsInode : Except String Nat
  hostInode : Except String (Option Nat)

/-- The path after `0::` in the first line that has one. -/
def cgroupPath (raw : Bytes) : Bytes :=
  match (split (raw.take 8192) (chr '\n')).find? fun line => hasPrefix line (str "0::/") with
  | some line => trimPrefix line (str "0::")
  | none => []

def instanceKey (cgroup netns : Nat) : Bytes := natDigits cgroup ++ str ":" ++ natDigits netns

/-- `processNetwork`: the key of the process. -/
def processNetwork (p : Process) (unit : Bytes) : Except String Bytes := do
  let raw ← p.cgroupFile
  let path ← workloadCgroup (cgroupPath raw) unit
  let cgroup ← p.cgroupInode path
  let netns ← p.netnsInode
  match ← p.hostInode with
  | none => throw "refusing host network namespace"
  | some host =>
    if host = netns then throw "refusing host network namespace" else return instanceKey cgroup netns

structure GatePeer where
  uid : UInt32
  process : Process

/-- The part of `prepare` before the mutex is taken. -/
def Controller.identify (c : Controller) (peer : Except String GatePeer) : Except String Bytes := do
  let p ← peer
  if (p.uid.toNat : Int) ≠ c.uid then
    throw ("peer uid " ++ toString p.uid ++ " is not configured uid " ++ toString c.uid)
  else processNetwork p.process c.workload.unit

/-! ## Steps -/

/-- A gate request and what `prepare` meets: whether the cgroup of the current instance is
populated, the error of `start`, and the result of `saveState`, which is the path of the
cgroup when every call succeeds. -/
structure Gate where
  peer : Except String GatePeer
  populated : Bool
  start : Option String
  save : Except String Bytes

/-- `prepare` from `start` on, when no instance is left. -/
def launch (g : Gate) (key : Bytes) (s : State) : Except String Unit × State :=
  match g.start with
  | some e => (.error e, { s with current := none })
  | none =>
    match g.save with
    | .error e => (.error e, { s with current := none })
    | .ok path =>
      (.ok (), ⟨some (.started key),
        some (encodeSaved ⟨trimPrefix path (str "/sys/fs/cgroup"), key⟩)⟩)

def Controller.prepare (c : Controller) (g : Gate) (s : State) : Except String Unit × State :=
  match c.identify g.peer with
  | .error e => (.error e, s)
  | .ok key =>
    match s.current with
    | none => launch g key s
    | some i =>
      if i.exited then launch g key s
      else if key = i.key then (.ok (), s)
      else if g.populated then
        (.error "workload already active in a different cgroup or network namespace", s)
      else launch g key s

/-- The answer to `os.Open` of the saved cgroup directory. -/
inductive Directory where
  | missing
  | failed (e : String)
  | found (procs : Except String (List Bytes))

/-- What `recover` meets: an error of opening the state file, the error of removing it, the
saved directory with the fields of its `cgroup.procs`, the owner and the process behind a PID
text, and the error of `start`. -/
structure Recovery where
  openState : Option String
  removeState : Option String
  directory : Bytes → Directory
  process : Bytes → Option (Option UInt32 × Process)
  start : Option String

/-- The key of the process behind one field of `cgroup.procs`, if the loop gets that far. -/
def Controller.survivor (c : Controller) (r : Recovery) (pid : Bytes) : Option Bytes :=
  if (digitsValue pid).any fun n => decide (n < 2 ^ 32) then
    match r.process pid with
    | some (some uid, p) =>
      if (uid.toNat : Int) ≠ c.uid then none else (processNetwork p c.workload.unit).toOption
    | _ => none
  else none

/-- The loop of `recover`: the first survivor with the saved key is started. -/
def Controller.revive (c : Controller) (r : Recovery) (key : Bytes) (s : State) :
    List Bytes → Except String Unit × State
  | [] => (.ok (), s)
  | pid :: pids =>
    if c.survivor r pid = some key then
      match r.start with
      | some e => (.error e, s)
      | none => (.ok (), { s with current := some (.started key) })
    else c.revive r key s pids

/-- Stands for the text of a decoding error. -/
def decodeFailure : String := "state.json"

def Controller.recover (c : Controller) (r : Recovery) (s : State) : Except String Unit × State :=
  match s.file with
  | none => (.ok (), s)
  | some raw =>
    match r.openState with
    | some e => (.error e, s)
    | none =>
      match readSaved raw with
      | none => (.error decodeFailure, s)
      | some saved =>
        if saved.cgroup = str "/" ∨ ¬ hasPrefix saved.cgroup (str "/") ∨
            Filepath.clean saved.cgroup ≠ saved.cgroup then
          (.error "invalid saved cgroup", s)
        else
          match r.directory saved.cgroup with
          | .missing =>
            match r.removeState with
            | some e => (.error e, s)
            | none => (.ok (), { s with file := none })
          | .failed e => (.error e, s)
          | .found (.error e) => (.error e, s)
          | .found (.ok pids) => c.revive r saved.key s pids

/-- One round of `reconcile`: its time, whether the cgroup is populated, whether the state file
could be removed, and what `recover` meets. -/
structure Round where
  now : Int
  populated : Bool
  removed : Bool
  recovery : Recovery

/-- The round up to `recover`: the state, and the key of an instance released as empty. -/
def examine (r : Round) (s : State) : Option Bytes × State :=
  match s.current with
  | none => (none, s)
  | some i =>
    if i.exited then (none, { s with current := none })
    else
      match i.expiredEmpty r.populated r.now with
      | (false, i') => (none, { s with current := some i' })
      | (true, i') => (some i'.key, ⟨none, if r.removed then none else s.file⟩)

def Controller.reconcile (c : Controller) (r : Round) (s : State) : Option Bytes × State :=
  match examine r s with
  | (released, s') =>
    match s'.current with
    | some _ => (released, s')
    | none => (released, (c.recover r.recovery s').2)

/-! ## Runs -/

inductive Label where
  | gate (time : Int) (request : Gate)
  | round (r : Round)
  | exit
  | restart

/-- The clock reading of a step that has one. -/
def Label.time : Label → Option Int
  | .gate time _ => some time
  | .round r => some r.now
  | _ => none

/-- What an observer sees of a step. -/
inductive Notice where
  | ready (key : Bytes)
  | released (key : Bytes)
  deriving DecidableEq

def Controller.event (c : Controller) (s : State) : Label → Option Notice
  | .gate _ g =>
    match c.identify g.peer, (c.prepare g s).1 with
    | .ok key, .ok () => some (.ready key)
    | _, _ => none
  | .round r => (c.reconcile r s).1.map .released
  | _ => none

/-- Only a running worker can exit. -/
def Controller.step (c : Controller) (s : State) : Label → Option State
  | .gate _ g => some (c.prepare g s).2
  | .round r => some (c.reconcile r s).2
  | .exit =>
    match s.current with
    | some i => if i.exited then none else some { s with current := some { i with exited := true } }
    | none => none
  | .restart => some { s with current := none }

/-- The first start of the agent. -/
def State.initial : State := ⟨none, none⟩

end RealmFormal.Agent

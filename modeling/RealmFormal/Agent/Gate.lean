import RealmFormal.Agent.Config

/-!
# The gate

Who may pass the gate of a workload: `workloadCgroup`, the account checks of
`serve`, and the two checks that `prepare` makes of a peer. Two controllers of
one agent never both accept a peer.
-/

namespace RealmFormal.Agent
open Go
set_option autoImplicit false

/-! ## Units in a cgroup path -/

/-- The loop of `workloadCgroup`: the elements up to the unit, crossing slices only. -/
def walkToUnit (unit : Bytes) : List Bytes → Option (List Bytes)
  | [] => none
  | part :: rest =>
    if part = unit then some [part]
    else if hasSuffix part (str ".slice") then (walkToUnit unit rest).map fun parts => part :: parts
    else none

def workloadCgroup (path unit : Bytes) : Except String Bytes :=
  if path = [] ∨ path = str "/" ∨ ¬ hasPrefix path (str "/") ∨ Filepath.clean path ≠ path then
    .error "peer must have a dedicated cgroup v2 group"
  else if unit = [] then .ok path
  else
    match walkToUnit unit (split (trimPrefix path (str "/")) (chr '/')) with
    | some parts => .ok (str "/" ++ join parts (chr '/'))
    | none => .error ("peer does not belong to system unit " ++ text unit)

/-- Of two units that are not slices, at most one is reached by the walk. -/
theorem walkToUnit_unique {unit unit' : Bytes} (h : hasSuffix unit (str ".slice") = false)
    (h' : hasSuffix unit' (str ".slice") = false) {parts : List Bytes}
    (hunit : (walkToUnit unit parts).isSome) (hunit' : (walkToUnit unit' parts).isSome) :
    unit = unit' := by
  induction parts with
  | nil => cases hunit
  | cons part rest ih =>
    simp only [walkToUnit] at hunit hunit'
    split at hunit
    · rename_i heq
      subst heq
      split at hunit'
      · assumption
      · rw [h] at hunit'
        cases hunit'
    · split at hunit
      · rename_i hslice
        split at hunit'
        · rename_i heq
          subst heq
          rw [h'] at hslice
          cases hslice
        · exact ih (by simpa using hunit) (by simpa using hunit')
      · cases hunit

theorem workloadCgroup_walk {path unit : Bytes} (hunit : unit ≠ [])
    (h : (workloadCgroup path unit).isOk) :
    (walkToUnit unit (split (trimPrefix path (str "/")) (chr '/'))).isSome := by
  unfold workloadCgroup at h
  rw [if_neg hunit] at h
  split at h
  · cases h
  · split at h
    · rename_i hwalk
      simp [hwalk]
    · cases h

/-- A service name is not the name of a slice. -/
theorem isServiceName_not_slice {unit : Bytes} (h : isServiceName unit = true) :
    hasSuffix unit (str ".slice") = false := by
  have hservice : str ".service" <:+ unit := by
    simp only [isServiceName, Bool.and_eq_true, hasSuffix, List.isSuffixOf_iff_suffix] at h
    exact h.1.1
  rw [Bool.eq_false_iff]
  intro hslice
  have hslice : str ".slice" <:+ unit := List.isSuffixOf_iff_suffix.mp hslice
  have hboth := List.suffix_of_suffix_length_le hslice hservice (by decide)
  exact absurd hboth (by decide)

/-! ## The controllers of an agent -/

structure Controller where
  workload : Workload
  uid : Int
  gid : Int
  workerUID : Int

/-- What `serve` learns from the host: its own user, whether the worker cgroup was delegated,
the account databases, and for each workload whether its control socket could be set up. -/
structure Host where
  euid : Int
  delegatedWorkerRoot : Option String
  numericUser : Bytes → Except String Int
  numericGroup : Bytes → Except String Int
  listen : Workload → Int → Option String

/-- Two workloads would share a gate. -/
def Controller.shares (other : Controller) (w : Workload) (uid : Int) : Bool :=
  decide (uid = other.uid ∧
    (w.unit = [] ∨ other.workload.unit = [] ∨ w.unit = other.workload.unit))

/-- The account checks of `serve` for one workload. -/
def resolve (host : Host) (controllers : List Controller) (w : Workload) :
    Except String Controller := do
  let uid ← host.numericUser w.user
  let gid ← host.numericGroup w.group
  let workerUID ← host.numericUser w.workerUser
  if uid = 0 ∨ gid = 0 ∨ workerUID = 0 ∨ uid = workerUID then
    throw "unsafe account IDs"
  else if controllers.any fun other => other.shares w uid then
    throw "shared application UID requires distinct attested system units"
  else
    return ⟨w, uid, gid, workerUID⟩

/-- The loop of `serve`: the controllers it started, and the error that ended it. -/
def startAll (host : Host) (controllers : List Controller) :
    List Workload → List Controller × Option String
  | [] => (controllers, none)
  | w :: rest =>
    match resolve host controllers w with
    | .error e => (controllers, some e)
    | .ok c =>
      match host.listen w c.gid with
      | some e => (controllers, some e)
      | none => startAll host (controllers ++ [c]) rest

def serve (host : Host) (config : Configuration) : List Controller × Option String :=
  if host.euid ≠ 0 then ([], some "serve requires host root privileges")
  else
    match host.delegatedWorkerRoot with
    | some e => ([], some e)
    | none => startAll host [] config.workloads

/-- The checks of a peer in `prepare`, up to its cgroup. -/
def Controller.accepts (c : Controller) (uid : UInt32) (path : Bytes) : Except String Bytes :=
  if (uid.toNat : Int) ≠ c.uid then
    .error ("peer uid " ++ toString uid ++ " is not configured uid " ++ toString c.uid)
  else workloadCgroup path c.workload.unit

theorem Controller.accepts_isOk {c : Controller} {uid : UInt32} {path : Bytes}
    (h : (c.accepts uid path).isOk) :
    (uid.toNat : Int) = c.uid ∧ (workloadCgroup path c.workload.unit).isOk := by
  unfold Controller.accepts at h
  split at h
  · cases h
  · rename_i huid
    exact ⟨not_not.mp huid, h⟩

/-- A later controller does not share its gate with an earlier one. -/
def Separate (c c' : Controller) : Prop := c.shares c'.workload c'.uid = false

/-- A sequence of fallible actions succeeds when both parts do. -/
theorem bind_ok {ε α β : Type} {x : Except ε α} {f : α → Except ε β} {b : β}
    (h : (x >>= f) = .ok b) : ∃ a, x = .ok a ∧ f a = .ok b := by
  cases x with
  | error e => cases h
  | ok a => exact ⟨a, rfl, h⟩

theorem resolve_ok {host : Host} {controllers : List Controller} {w : Workload} {c : Controller}
    (h : resolve host controllers w = .ok c) :
    c.workload = w ∧ ∀ other ∈ controllers, Separate other c := by
  obtain ⟨uid, -, h⟩ := bind_ok h
  obtain ⟨gid, -, h⟩ := bind_ok h
  obtain ⟨workerUID, -, h⟩ := bind_ok h
  split at h
  · cases h
  · split at h
    · cases h
    · rename_i hshares
      cases h
      simpa [Separate] using hshares

/-- What the loop keeps: the controllers belong to the workloads passed so far, in order, and
each is separate from all before it. -/
theorem startAll_spec (host : Host) (controllers : List Controller) (workloads : List Workload)
    (h : controllers.Pairwise Separate) :
    (startAll host controllers workloads).1.Pairwise Separate ∧
      (∃ rest, controllers.map Controller.workload ++ workloads =
        (startAll host controllers workloads).1.map Controller.workload ++ rest) ∧
      ((startAll host controllers workloads).2 = none →
        (startAll host controllers workloads).1.map Controller.workload =
          controllers.map Controller.workload ++ workloads) := by
  induction workloads generalizing controllers with
  | nil => exact ⟨h, ⟨[], rfl⟩, fun _ => (List.append_nil _).symm⟩
  | cons w rest ih =>
    rw [startAll]
    split
    · exact ⟨h, ⟨_, rfl⟩, nofun⟩
    · rename_i c hc
      obtain ⟨rfl, hseparate⟩ := resolve_ok hc
      split
      · exact ⟨h, ⟨_, rfl⟩, nofun⟩
      · have hnext : (controllers ++ [c]).Pairwise Separate := by
          rw [List.pairwise_append]
          refine ⟨h, List.pairwise_singleton _ _, fun other hother c' hc' => ?_⟩
          cases List.mem_singleton.mp hc'
          exact hseparate other hother
        simpa using ih (controllers ++ [c]) hnext

theorem serve_spec (host : Host) (config : Configuration) :
    (serve host config).1.Pairwise Separate ∧
      (∃ rest, config.workloads = (serve host config).1.map Controller.workload ++ rest) ∧
      ((serve host config).2 = none →
        (serve host config).1.map Controller.workload = config.workloads) := by
  unfold serve
  split
  · exact ⟨List.Pairwise.nil, ⟨_, rfl⟩, nofun⟩
  · split
    · exact ⟨List.Pairwise.nil, ⟨_, rfl⟩, nofun⟩
    · exact startAll_spec host [] config.workloads List.Pairwise.nil

/-! ## Accepted configurations -/

theorem decodeConfig_units {parseURL : Bytes → Option Url} {raw : Bytes} {config : Configuration}
    (h : decodeConfig parseURL raw = .ok config) :
    ∀ w ∈ config.workloads, w.unit = [] ∨ isServiceName w.unit = true := by
  obtain ⟨_, _, _, _, _, _, hworkloads⟩ := decodeConfig_ok h
  intro w hw
  obtain ⟨_, _, hvalid⟩ := hworkloads w hw
  exact (validate_accepted hvalid).unit

/-- Separate controllers whose units are service names accept no peer in common. -/
theorem Separate.accepts_disjoint {c c' : Controller} (hsep : Separate c c')
    (h : c.workload.unit = [] ∨ isServiceName c.workload.unit = true)
    (h' : c'.workload.unit = [] ∨ isServiceName c'.workload.unit = true) {uid : UInt32}
    {path : Bytes} (hc : (c.accepts uid path).isOk) (hc' : (c'.accepts uid path).isOk) : False := by
  obtain ⟨huid, hpath⟩ := Controller.accepts_isOk hc
  obtain ⟨huid', hpath'⟩ := Controller.accepts_isOk hc'
  simp only [Separate, Controller.shares, decide_eq_false_iff_not, not_and, not_or] at hsep
  obtain ⟨hne', hne, hdiff⟩ := hsep (huid'.symm.trans huid)
  have hservice := h.resolve_left hne
  have hservice' := h'.resolve_left hne'
  exact hdiff (walkToUnit_unique (isServiceName_not_slice hservice')
    (isServiceName_not_slice hservice) (workloadCgroup_walk hne' hpath')
    (workloadCgroup_walk hne hpath))

/-- For an accepted configuration, the controllers that `serve` starts stand for the
workloads in order, for all of them unless it reports an error, and no peer is accepted by
two of them. -/
theorem gate_peer_unique {parseURL : Bytes → Option Url} {raw : Bytes} {config : Configuration}
    (hconfig : decodeConfig parseURL raw = .ok config) (host : Host) :
    ((serve host config).2 = none →
      (serve host config).1.map Controller.workload = config.workloads) ∧
    ∀ (i j : Nat) (c c' : Controller), i ≠ j → (serve host config).1[i]? = some c →
      (serve host config).1[j]? = some c' →
        config.workloads[i]? = some c.workload ∧ config.workloads[j]? = some c'.workload ∧
        ∀ (uid : UInt32) (path : Bytes),
          ¬ ((c.accepts uid path).isOk ∧ (c'.accepts uid path).isOk) := by
  obtain ⟨hpairwise, ⟨rest, hworkloads⟩, hall⟩ := serve_spec host config
  have hunits := decodeConfig_units hconfig
  have hat : ∀ (k : Nat) (x : Controller), (serve host config).1[k]? = some x →
      config.workloads[k]? = some x.workload := by
    intro k x hx
    have hlt : k < ((serve host config).1.map Controller.workload).length := by
      rw [List.length_map]
      exact (List.getElem?_eq_some_iff.mp hx).1
    rw [hworkloads, List.getElem?_append_left hlt, List.getElem?_map, hx]
    rfl
  refine ⟨hall, fun i j c c' hij hi hj => ⟨hat i c hi, hat j c' hj, fun uid path h => ?_⟩⟩
  have hsep : ∀ (k l : Nat) (x y : Controller), k < l → (serve host config).1[k]? = some x →
      (serve host config).1[l]? = some y → Separate x y := by
    intro k l x y hkl hx hy
    obtain ⟨hk, rfl⟩ := List.getElem?_eq_some_iff.mp hx
    obtain ⟨hl, rfl⟩ := List.getElem?_eq_some_iff.mp hy
    exact List.pairwise_iff_getElem.mp hpairwise k l hk hl hkl
  have hunit := hunits _ (List.mem_of_getElem? (hat i c hi))
  have hunit' := hunits _ (List.mem_of_getElem? (hat j c' hj))
  rcases Nat.lt_or_gt_of_ne hij with hlt | hlt
  · exact (hsep i j c c' hlt hi hj).accepts_disjoint hunit hunit' h.1 h.2
  · exact (hsep j i c' c hlt hj hi).accepts_disjoint hunit' hunit h.2 h.1

/-- Two workloads of one application user, told apart by their units. -/
def sampleConfigFile : Bytes :=
  str ("\x7b\"workloads\":[" ++
    "\x7b\"name\":\"a\",\"unit\":\"a.service\",\"user\":\"u\",\"group\":\"g\"," ++
      "\"workerUser\":\"w\",\"socket\":\"/a/s\"\x7d," ++
    "\x7b\"name\":\"b\",\"unit\":\"b.service\",\"user\":\"u\",\"group\":\"g\"," ++
      "\"workerUser\":\"w\",\"socket\":\"/b/s\"\x7d]\x7d")

def sampleHost : Host where
  euid := 0
  delegatedWorkerRoot := none
  numericUser := fun name => .ok (if name = str "u" then 1000 else 999)
  numericGroup := fun _ => .ok 1000
  listen := fun _ _ => none

/-- Of two controllers that the sample file starts, the first accepts a process of its unit. -/
def sampleFirstAccepts : Bool :=
  match decodeConfig sampleUpstream sampleConfigFile with
  | .ok config =>
    match (serve sampleHost config).1 with
    | [c, _] => (c.accepts 1000 (str "/system.slice/a.service")).isOk
    | _ => false
  | .error _ => false

theorem gate_peer_unique_sampleConfigFile :
    ∃ config c c', decodeConfig sampleUpstream sampleConfigFile = .ok config ∧
      (serve sampleHost config).1[0]? = some c ∧ (serve sampleHost config).1[1]? = some c' ∧
      (c.accepts 1000 (str "/system.slice/a.service")).isOk ∧
      ¬ (c'.accepts 1000 (str "/system.slice/a.service")).isOk := by
  have h : sampleFirstAccepts = true := by decide +kernel
  unfold sampleFirstAccepts at h
  split at h
  · rename_i config hconfig
    split at h
    · rename_i c c' hserve
      have hc : (serve sampleHost config).1[0]? = some c := by rw [hserve]; rfl
      have hc' : (serve sampleHost config).1[1]? = some c' := by rw [hserve]; rfl
      obtain ⟨-, -, hboth⟩ := (gate_peer_unique hconfig sampleHost).2 0 1 c c' nofun hc hc'
      exact ⟨config, c, c', hconfig, hc, hc', h, fun h' => hboth 1000 _ ⟨h, h'⟩⟩
    · cases h
  · cases h

end RealmFormal.Agent

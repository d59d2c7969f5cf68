import RealmFormal.Agent.Bpf
import RealmFormal.Agent.Config
import RealmFormal.Go.Marshal

/-!
# The configuration of a worker

The controller hands a validated workload to the worker as one JSON line in a
sealed file. The bootstrap reads the first megabyte of it, the worker all of it,
and both validate what they read. The file of the controller is limited to a
megabyte as well, but the line repeats defaults and escapes that the file need
not have, so a workload that was accepted may not fit.
-/

namespace RealmFormal.Agent
open Go Go.Json
set_option autoImplicit false

structure WorkerConfiguration where
  workload : Workload
  caBundle : Bytes

/-- Which of the empty slices and maps of a workload are nil. -/
structure Nils where
  internetPorts : Bool
  dnsHosts : Bool
  addresses : Bytes → Bool
  routes : Bool

/-! ## Writing -/

def Route.value (r : Route) : Value :=
  .object (record routeNames
    [some (.string r.prefixText), some (.number (itoa r.port.toNat)), some (.string r.socket)])

def addressesValue (nils : Nils) (host : Bytes × List Bytes) : Value :=
  sliceValue (nils.addresses host.1) (host.2.map .string)

/-- The fields in the order of `workloadNames`. -/
def Workload.fields (nils : Nils) (w : Workload) : List (Option Value) :=
  [some (.string w.name), nonEmpty w.unit, some (.string w.user), some (.string w.group),
    some (.string w.workerUser), some (.string w.socket), nonEmpty w.internetSocket,
    some (sliceValue nils.internetPorts (w.internetPorts.map fun p => .number (itoa p.toNat))),
    some (.string w.dnsUpstream),
    some (mapValue nils.dnsHosts (addressesValue nils) w.dnsHosts),
    some (sliceValue nils.routes (w.routes.map Route.value)),
    some (.number (itoa w.tcpPort.toNat)), some (.number (itoa w.dnsBase.toNat)),
    some (.number (itoa w.maxConnections)), some (.number (itoa w.workerMemoryMiB)),
    some (.number (itoa w.workerTasks)), some (.number (itoa w.workerCPUQuota))]

def Workload.value (nils : Nils) (w : Workload) : Value :=
  .object (record workloadNames (w.fields nils))

def workerNames : List Bytes := [str "workload", str "caBundle"]

def workerMembers (nils : Nils) (wc : WorkerConfiguration) : List (Bytes × Value) :=
  record workerNames [some (wc.workload.value nils), some (.string wc.caBundle)]

def sealedWorkerConfig (nils : Nils) (w : Workload) (ca : Bytes) : Bytes :=
  encodeLine (.object (workerMembers nils ⟨w, ca⟩))

/-! ## Reading -/

inductive WorkerError where
  | decode
  | workload (cause : WorkloadError)
  deriving DecidableEq

/-- Unknown fields are skipped here. -/
def unmarshalWorker (vs : List Value) : Option WorkerConfiguration :=
  (Go.Json.members vs).bind fun ms =>
    let field := fun name => fieldValues workerNames ms (str name)
    (decodeWorkload (fun _ => Go.Json.members) (field "workload")).bind fun workload =>
      (toText (field "caBundle")).map fun caBundle => ⟨workload, caBundle⟩

section Read
variable (parseURL : Bytes → Option Url)

def readWorker (data : Bytes) : Except WorkerError WorkerConfiguration :=
  match parseValue (data.length + 1) data with
  | none => .error .decode
  | some (v, _) =>
    match unmarshalWorker [v] with
    | none => .error .decode
    | some wc =>
      match wc.workload.validate parseURL with
      | .error e => .error (.workload e)
      | .ok w => .ok { wc with workload := w }

/-- `sandboxWorker` sees the first megabyte of the file. -/
def sandboxLimit : Nat := 2 ^ 20

def sandboxConfig (raw : Bytes) : Except WorkerError WorkerConfiguration :=
  readWorker parseURL (raw.take sandboxLimit)

/-- `runWorker` sees all of it. -/
def workerConfig (raw : Bytes) : Except WorkerError WorkerConfiguration := readWorker parseURL raw

/-- The constants of the programs, from the arguments of `attachCapture` in `start`. -/
def captureConstants (w : Workload) : Constants := ⟨w.tcpPort, w.dnsBase⟩

/-- A socket on the loopback of one family. -/
structure Listener where
  stream : Bool
  v6 : Bool
  port : Nat
  deriving DecidableEq

/-- The sockets of `startDNS`: one for each slot and family. -/
def startDNS (base : UInt16) : List Listener :=
  (List.range 8).flatMap fun i => [false, true].map fun v6 => ⟨false, v6, base.toNat + i⟩

/-- The sockets of `runWorker`. -/
def listeners (w : Workload) : List Listener :=
  startDNS w.dnsBase ++ [false, true].map fun v6 => ⟨true, v6, w.tcpPort.toNat⟩

/-- Two workloads agree in every field; the entries of a map have no order. -/
def Workload.Same (w v : Workload) : Prop :=
  { w with dnsHosts := v.dnsHosts } = v ∧ ∀ host, w.dnsHosts.get host = v.dnsHosts.get host

def Received (w : Workload) (ca : Bytes) (r : Except WorkerError WorkerConfiguration) : Prop :=
  ∃ wc, r = .ok wc ∧ wc.workload.Same w ∧ wc.caBundle = ca

/-- The worker sees the workload of the controller. -/
structure SeesWorkload (nils : Nils) (w : Workload) (ca : Bytes) : Prop where
  sandbox : Received w ca (sandboxConfig parseURL (sealedWorkerConfig nils w ca))
  worker : Received w ca (workerConfig parseURL (sealedWorkerConfig nils w ca))
  validated : w.validate parseURL = .ok w
  ports : ∀ wc, workerConfig parseURL (sealedWorkerConfig nils w ca) = .ok wc →
    ∀ stream v6 port, ⟨stream, v6, port⟩ ∈ listeners wc.workload ↔
      ∃ p ∈ (captureConstants w).ports stream, p.toNat = port

end Read

/-! ## Validating again -/

theorem orDefault_orDefault {α : Type} [DecidableEq α] (value zero default : α) :
    orDefault (orDefault value zero default) zero default = orDefault value zero default := by
  unfold orDefault
  split <;> simp

theorem withDefaults_withDefaults (w : Workload) :
    w.withDefaults.withDefaults = w.withDefaults := by
  simp only [Workload.withDefaults, orDefault_orDefault]

section Validate
variable {parseURL : Bytes → Option Url}

theorem check_withDefaults (w : Workload) : w.withDefaults.check parseURL = w.check parseURL := by
  unfold Workload.check
  rw [withDefaults_withDefaults]
  rfl

theorem validate_ok_iff {w v : Workload} :
    w.validate parseURL = .ok v ↔ w.check parseURL = none ∧ v = w.withDefaults := by
  unfold Workload.validate
  split
  · rename_i e he
    simp [he]
  · rename_i he
    simp [he, eq_comm]

/-- `validate` accepts what it returned and changes nothing more. -/
theorem validate_validated {w v : Workload} (h : w.validate parseURL = .ok v) :
    v.validate parseURL = .ok v := by
  obtain ⟨hcheck, rfl⟩ := validate_ok_iff.mp h
  refine validate_ok_iff.mpr ⟨?_, (withDefaults_withDefaults w).symm⟩
  rw [check_withDefaults]
  exact hcheck

/-- The order of the hosts does not matter to `validate`. -/
theorem Workload.Same.validate {w v : Workload} (hsame : w.Same v)
    (h : v.validate parseURL = .ok v) : w.validate parseURL = .ok w := by
  obtain ⟨hfields, hget⟩ := hsame
  have hhosts := (validate_accepted h).dnsHosts
  have hv : v.dnsHosts.entries.findSome? checkHost = none := List.findSome?_eq_none_iff.mpr hhosts
  have hw : w.dnsHosts.entries.findSome? checkHost = none := by
    apply List.findSome?_eq_none_iff.mpr
    intro host hmem
    have hgot := hget host.1
    rw [Table.get_eq_some_iff.mpr hmem] at hgot
    exact hhosts host (Table.get_eq_some_iff.mp hgot.symm)
  obtain ⟨hcheck, hdefaults⟩ := validate_ok_iff.mp h
  rw [← hfields] at hcheck hdefaults
  refine validate_ok_iff.mpr ⟨?_, ?_⟩
  · rw [← hcheck]
    unfold Workload.check
    simp only [hw, hv]
    rfl
  · exact congrArg (fun u : Workload => { u with dnsHosts := w.dnsHosts }) hdefaults

end Validate

/-! ## Ports -/

/-- The sockets of an accepted workload are those that its traffic is redirected to. -/
theorem mem_listeners {parseURL : Bytes → Option Url} {w v : Workload}
    (h : w.validate parseURL = .ok v) (stream v6 : Bool) (port : Nat) :
    ⟨stream, v6, port⟩ ∈ listeners v ↔
      ∃ p ∈ (captureConstants v).ports stream, p.toNat = port := by
  have hports := (validate_accepted h).ports
  rw [portsOverlap, decide_eq_false_iff_not, not_or] at hports
  have hbase : v.dnsBase.toNat ≤ 65528 := by simpa [UInt16.lt_iff_toNat_lt] using hports.1
  have hslot : ∀ slot < 8, (UInt16.ofNat (v.dnsBase.toNat + slot)).toNat =
      v.dnsBase.toNat + slot := by
    intro slot hslot
    rw [UInt16.toNat_ofNat']
    exact Nat.mod_eq_of_lt (by omega)
  unfold listeners startDNS captureConstants Constants.ports
  cases stream with
  | true => cases v6 <;> simp [eq_comm]
  | false =>
    have hudp : ⟨false, v6, port⟩ ∈ ((List.range 8).flatMap fun i => [false, true].map fun v6 =>
        Listener.mk false v6 (v.dnsBase.toNat + i)) ↔ ∃ i < 8, v.dnsBase.toNat + i = port := by
      cases v6 <;> simp [eq_comm]
    simp only [List.mem_append, hudp, Bool.false_eq_true, if_false, dnsSlots]
    constructor
    · rintro (⟨i, hi, rfl⟩ | htcp)
      · exact ⟨_, List.mem_map_of_mem (List.mem_range.mpr hi), hslot i hi⟩
      · simp at htcp
    · rintro ⟨p, hp, rfl⟩
      obtain ⟨i, hi, rfl⟩ := List.mem_map.mp hp
      have hi := List.mem_range.mp hi
      exact Or.inl ⟨i, hi, (hslot i hi).symm⟩

/-! ## Strings of a decoded workload -/

/-- Every string of the workload came out of a decoder. -/
structure Workload.Decoded (w : Workload) : Prop where
  name : Utf8 w.name
  unit : Utf8 w.unit
  user : Utf8 w.user
  group : Utf8 w.group
  workerUser : Utf8 w.workerUser
  socket : Utf8 w.socket
  internetSocket : Utf8 w.internetSocket
  dnsUpstream : Utf8 w.dnsUpstream
  dnsHosts : ∀ host ∈ w.dnsHosts.entries, Utf8 host.1 ∧ ∀ s ∈ host.2, Utf8 s
  routes : ∀ r ∈ w.routes, Utf8 r.prefixText ∧ Utf8 r.socket

theorem unmarshalRoute_utf8 {vs : List Value} (hvs : AllValid vs) {r : Route}
    (h : unmarshalRoute strictMembers vs = some r) : Utf8 r.prefixText ∧ Utf8 r.socket := by
  obtain ⟨ms, hms, h⟩ := Option.bind_eq_some_iff.mp h
  obtain ⟨prefixText, htext, h⟩ := Option.bind_eq_some_iff.mp h
  obtain ⟨port, -, h⟩ := Option.bind_eq_some_iff.mp h
  obtain ⟨socket, hsocket, rfl⟩ := Option.map_eq_some_iff.mp h
  have hvalid := strictMembers_valid hvs hms
  exact ⟨toText_utf8 (fieldValues_valid hvalid _) htext,
    toText_utf8 (fieldValues_valid hvalid _) hsocket⟩

theorem toTexts_utf8 {vs : List Value} (hvs : AllValid vs) {ss : List Bytes}
    (h : toTexts vs = some ss) : ∀ s ∈ ss, Utf8 s :=
  toSlice_forall hvs (fun _ hus _ ha => toText_utf8 hus ha) h

theorem unmarshalWorkload_decoded {vs : List Value} (hvs : AllValid vs) {w : Workload}
    (h : unmarshalWorkload vs = some w) : w.Decoded := by
  obtain ⟨ms, hms, h⟩ := Option.bind_eq_some_iff.mp h
  have hvalid : ∀ name, AllValid (fieldValues workloadNames ms name) :=
    fieldValues_valid (strictMembers_valid hvs hms)
  obtain ⟨name, hname, h⟩ := Option.bind_eq_some_iff.mp h
  obtain ⟨unit, hunit, h⟩ := Option.bind_eq_some_iff.mp h
  obtain ⟨user, huser, h⟩ := Option.bind_eq_some_iff.mp h
  obtain ⟨group, hgroup, h⟩ := Option.bind_eq_some_iff.mp h
  obtain ⟨workerUser, hworkerUser, h⟩ := Option.bind_eq_some_iff.mp h
  obtain ⟨socket, hsocket, h⟩ := Option.bind_eq_some_iff.mp h
  obtain ⟨internetSocket, hinternetSocket, h⟩ := Option.bind_eq_some_iff.mp h
  obtain ⟨internetPorts, -, h⟩ := Option.bind_eq_some_iff.mp h
  obtain ⟨dnsUpstream, hdnsUpstream, h⟩ := Option.bind_eq_some_iff.mp h
  obtain ⟨dnsHosts, hdnsHosts, h⟩ := Option.bind_eq_some_iff.mp h
  obtain ⟨routes, hroutes, h⟩ := Option.bind_eq_some_iff.mp h
  obtain ⟨tcpPort, -, h⟩ := Option.bind_eq_some_iff.mp h
  obtain ⟨dnsBase, -, h⟩ := Option.bind_eq_some_iff.mp h
  obtain ⟨maxConnections, -, h⟩ := Option.bind_eq_some_iff.mp h
  obtain ⟨workerMemoryMiB, -, h⟩ := Option.bind_eq_some_iff.mp h
  obtain ⟨workerTasks, -, h⟩ := Option.bind_eq_some_iff.mp h
  obtain ⟨workerCPUQuota, -, rfl⟩ := Option.map_eq_some_iff.mp h
  constructor
  case name => exact toText_utf8 (hvalid _) hname
  case unit => exact toText_utf8 (hvalid _) hunit
  case user => exact toText_utf8 (hvalid _) huser
  case group => exact toText_utf8 (hvalid _) hgroup
  case workerUser => exact toText_utf8 (hvalid _) hworkerUser
  case socket => exact toText_utf8 (hvalid _) hsocket
  case internetSocket => exact toText_utf8 (hvalid _) hinternetSocket
  case dnsUpstream => exact toText_utf8 (hvalid _) hdnsUpstream
  case dnsHosts =>
    have hhosts : ∀ v, Valid v → ∀ ss, toTexts [v] = some ss → ∀ s ∈ ss, Utf8 s :=
      fun v hv ss hss => toTexts_utf8 (List.forall_mem_singleton.mpr hv) hss
    intro host hmem
    exact toMap_forall (hvalid _) hhosts hdnsHosts _ _ (Table.get_eq_some_iff.mpr hmem)
  case routes =>
    exact toSlice_forall (hvalid _) (fun _ hus _ hr => unmarshalRoute_utf8 hus hr) hroutes

theorem Workload.Decoded.withDefaults {w : Workload} (h : w.Decoded) : w.withDefaults.Decoded where
  name := h.name
  unit := h.unit
  user := h.user
  group := h.group
  workerUser := h.workerUser
  socket := h.socket
  internetSocket := h.internetSocket
  dnsUpstream := by
    simp only [Workload.withDefaults, orDefault]
    split
    · exact utf8_str (by decide)
    · exact h.dnsUpstream
  dnsHosts := h.dnsHosts
  routes := h.routes

theorem unmarshalConfiguration_decoded {vs : List Value} (hvs : AllValid vs)
    {c : Configuration} (h : unmarshalConfiguration vs = some c) :
    Utf8 c.caBundle ∧ ∀ w ∈ c.workloads, w.Decoded := by
  obtain ⟨ms, hms, h⟩ := Option.bind_eq_some_iff.mp h
  have hvalid : ∀ name, AllValid (fieldValues configurationNames ms name) :=
    fieldValues_valid (strictMembers_valid hvs hms)
  obtain ⟨namespaceTool, -, h⟩ := Option.bind_eq_some_iff.mp h
  obtain ⟨caBundle, hcaBundle, h⟩ := Option.bind_eq_some_iff.mp h
  obtain ⟨networkTool, -, h⟩ := Option.bind_eq_some_iff.mp h
  obtain ⟨workloads, hworkloads, rfl⟩ := Option.map_eq_some_iff.mp h
  exact ⟨toText_utf8 (hvalid _) hcaBundle,
    toSlice_forall (hvalid _) (fun _ hus _ hw => unmarshalWorkload_decoded hus hw) hworkloads⟩

/-- What an accepted configuration gives to `sealedWorkerConfig`. -/
theorem decodeConfig_workload {parseURL : Bytes → Option Url} {raw : Bytes}
    {config : Configuration} (h : decodeConfig parseURL raw = .ok config) {w : Workload}
    (hw : w ∈ config.workloads) :
    Utf8 config.caBundle ∧ w.Decoded ∧ w.validate parseURL = .ok w := by
  obtain ⟨n, r, decoded, hparse, hdecoded, hca, hworkloads⟩ := decodeConfig_ok h
  have hvalid : AllValid [r.1] := List.forall_mem_singleton.mpr ((decodes n).value hparse)
  obtain ⟨hbundle, hall⟩ := unmarshalConfiguration_decoded hvalid hdecoded
  obtain ⟨d, hd, hvalidate⟩ := hworkloads w hw
  refine ⟨?_, ?_, validate_validated hvalidate⟩
  · rw [hca]
    simp only [Configuration.withDefaults, orDefault]
    split
    · exact utf8_str (by decide)
    · exact hbundle
  · rw [validate_eq hvalidate]
    exact (hall d hd).withDefaults

/-! ## Writing and reading back -/

theorem routeNames_nodup : routeNames.Nodup := by decide

theorem workloadNames_nodup : workloadNames.Nodup := by decide +kernel

theorem workerNames_nodup : workerNames.Nodup := by decide

theorem names_plain : ∀ n ∈ routeNames ++ workloadNames ++ workerNames, PlainString n := by
  have hplain : (routeNames ++ workloadNames ++ workerNames).all fun n => n.all isPlain := by
    decide +kernel
  intro n hn
  exact List.all_eq_true.mp (List.all_eq_true.mp hplain n hn)

theorem names_utf8 : ∀ n ∈ routeNames ++ workloadNames ++ workerNames, Utf8 n :=
  fun n hn => .of_plain (names_plain n hn)

theorem Route.value_writable {r : Route} (h : Utf8 r.prefixText ∧ Utf8 r.socket) :
    Writable r.value := by
  apply writable_record
  · intro n hn
    exact names_utf8 n (by simp [hn])
  · simp [writable_string h.1, writable_string h.2, writable_number]

theorem Workload.Decoded.writable {w : Workload} (h : w.Decoded) (nils : Nils) :
    Writable (w.value nils) := by
  apply writable_record
  · intro n hn
    exact names_utf8 n (by simp [hn])
  have hports : Writable (sliceValue nils.internetPorts
      (w.internetPorts.map fun p => .number (itoa p.toNat))) := by
    apply writable_sliceValue
    simp [writable_number]
  have hhosts : Writable (mapValue nils.dnsHosts (addressesValue nils) w.dnsHosts) := by
    apply writable_mapValue
    intro host hhost
    obtain ⟨hkey, haddresses⟩ := h.dnsHosts host hhost
    refine ⟨hkey, writable_sliceValue ?_⟩
    intro v hv
    obtain ⟨s, hs, rfl⟩ := List.mem_map.mp hv
    exact writable_string (haddresses s hs)
  have hroutes : Writable (sliceValue nils.routes (w.routes.map Route.value)) := by
    apply writable_sliceValue
    intro v hv
    obtain ⟨r, hr, rfl⟩ := List.mem_map.mp hv
    exact Route.value_writable (h.routes r hr)
  simp only [Workload.fields, List.forall_mem_cons, Option.mem_some_iff, forall_eq']
  exact ⟨writable_string h.name, writable_nonEmpty h.unit, writable_string h.user,
    writable_string h.group, writable_string h.workerUser, writable_string h.socket,
    writable_nonEmpty h.internetSocket, hports, writable_string h.dnsUpstream, hhosts, hroutes,
    writable_number _, writable_number _, writable_number _, writable_number _,
    writable_number _, writable_number _, List.forall_mem_nil _⟩

theorem workerMembers_writable (nils : Nils) {w : Workload} {ca : Bytes} (hw : w.Decoded)
    (hca : Utf8 ca) : Writable (.object (workerMembers nils ⟨w, ca⟩)) := by
  apply writable_record
  · intro n hn
    exact names_utf8 n (by simp [hn])
  · simp [hw.writable nils, writable_string hca]

theorem unmarshalRoute_value (r : Route) :
    unmarshalRoute (fun _ => Go.Json.members) [r.value] = some r := by
  simp only [unmarshalRoute, Route.value, members_object, Option.bind_some]
  rw [fieldValues_record routeNames_nodup _ 0 rfl, fieldValues_record routeNames_nodup _ 1 rfl,
    fieldValues_record routeNames_nodup _ 2 rfl]
  simp [toUint16_itoa]

/-- The numbers of a workload, as `validate` bounds them. -/
structure Workload.Fits (w : Workload) : Prop where
  maxConnections : FitsInt64 w.maxConnections
  workerMemoryMiB : FitsInt64 w.workerMemoryMiB
  workerTasks : FitsInt64 w.workerTasks
  workerCPUQuota : FitsInt64 w.workerCPUQuota

theorem validate_fits {parseURL : Bytes → Option Url} {w v : Workload}
    (h : w.validate parseURL = .ok v) : v.Fits := by
  obtain ⟨hcheck, rfl⟩ := validate_ok_iff.mp h
  obtain ⟨-, hcheck⟩ := passed hcheck
  obtain ⟨-, hcheck⟩ := passed hcheck
  obtain ⟨-, hcheck⟩ := passed hcheck
  obtain ⟨-, hcheck⟩ := passed hcheck
  obtain ⟨-, hcheck⟩ := passed hcheck
  obtain ⟨hconnections, hcheck⟩ := passed hcheck
  obtain ⟨hbudget, -⟩ := passed hcheck
  constructor <;> (unfold FitsInt64; omega)

theorem decodeWorkload_value (nils : Nils) {w : Workload} (hfits : w.Fits) :
    ∃ hosts, decodeWorkload (fun _ => Go.Json.members) [w.value nils] =
      some { w with dnsHosts := hosts } ∧ ∀ host, hosts.get host = w.dnsHosts.get host := by
  obtain ⟨hosts, hhosts, hget⟩ := toMap_mapValue (fun v => toTexts [v]) (addressesValue nils)
    nils.dnsHosts fun host (_ : host ∈ w.dnsHosts.entries) =>
      toSlice_sliceValue _ fun s _ => toText_string s
  have hports : toSlice toUint16 [sliceValue nils.internetPorts
      (w.internetPorts.map fun p => .number (itoa p.toNat))] = some w.internetPorts :=
    toSlice_sliceValue _ fun p _ => toUint16_itoa p
  have hroutes : toSlice (unmarshalRoute fun _ => Go.Json.members)
      [sliceValue nils.routes (w.routes.map Route.value)] = some w.routes :=
    toSlice_sliceValue _ fun r _ => unmarshalRoute_value r
  -- the place of each field in the struct, and the values found there
  have hfield : ∀ (i : Nat) (found : List Value) {name : Bytes}, workloadNames[i]? = some name →
      ((w.fields nils)[i]?.bind id).toList = found →
      fieldValues workloadNames (record workloadNames (w.fields nils)) name = found := by
    intro i found name hname hfound
    rw [fieldValues_record workloadNames_nodup _ i hname, hfound]
  refine ⟨hosts, ?_, hget⟩
  unfold decodeWorkload
  dsimp only [Workload.value]
  rw [members_object, Option.bind_some,
    hfield 0 [.string w.name] rfl rfl, toText_string, Option.bind_some,
    hfield 1 (nonEmpty w.unit).toList rfl rfl, toText_nonEmpty, Option.bind_some,
    hfield 2 [.string w.user] rfl rfl, toText_string, Option.bind_some,
    hfield 3 [.string w.group] rfl rfl, toText_string, Option.bind_some,
    hfield 4 [.string w.workerUser] rfl rfl, toText_string, Option.bind_some,
    hfield 5 [.string w.socket] rfl rfl, toText_string, Option.bind_some,
    hfield 6 (nonEmpty w.internetSocket).toList rfl rfl, toText_nonEmpty, Option.bind_some,
    hfield 7 [_] rfl rfl, hports, Option.bind_some,
    hfield 8 [.string w.dnsUpstream] rfl rfl, toText_string, Option.bind_some,
    hfield 9 [_] rfl rfl, hhosts, Option.bind_some,
    hfield 10 [_] rfl rfl, hroutes, Option.bind_some,
    hfield 11 [.number (itoa w.tcpPort.toNat)] rfl rfl, toUint16_itoa, Option.bind_some,
    hfield 12 [.number (itoa w.dnsBase.toNat)] rfl rfl, toUint16_itoa, Option.bind_some,
    hfield 13 [.number (itoa w.maxConnections)] rfl rfl, toInt_itoa hfits.maxConnections,
    Option.bind_some,
    hfield 14 [.number (itoa w.workerMemoryMiB)] rfl rfl, toInt_itoa hfits.workerMemoryMiB,
    Option.bind_some,
    hfield 15 [.number (itoa w.workerTasks)] rfl rfl, toInt_itoa hfits.workerTasks,
    Option.bind_some,
    hfield 16 [.number (itoa w.workerCPUQuota)] rfl rfl, toInt_itoa hfits.workerCPUQuota,
    Option.map_some]

theorem unmarshalWorker_members (nils : Nils) {w : Workload} (ca : Bytes) (hfits : w.Fits) :
    ∃ hosts, unmarshalWorker [.object (workerMembers nils ⟨w, ca⟩)] =
        some ⟨{ w with dnsHosts := hosts }, ca⟩ ∧
      ∀ host, hosts.get host = w.dnsHosts.get host := by
  obtain ⟨hosts, hdecode, hget⟩ := decodeWorkload_value nils hfits
  refine ⟨hosts, ?_, hget⟩
  unfold unmarshalWorker
  dsimp only [workerMembers]
  rw [members_object, Option.bind_some, fieldValues_record workerNames_nodup _ 0 rfl,
    fieldValues_record workerNames_nodup _ 1 rfl]
  simp [hdecode]

/-! ## The size of the line -/

/-- A string between its quotes, with its escapes. -/
def quotedSize (s : Bytes) : Nat := (encodeString s).length

def numberSize (n : Int) : Nat := (itoa n).length

/-- Items with commas between them, in brackets. -/
def listSize (sizes : List Nat) : Nat := if sizes = [] then 2 else (sizes.map (· + 1)).sum + 1

def sliceSize (isNil : Bool) (sizes : List Nat) : Nat :=
  if sizes.isEmpty && isNil then 4 else listSize sizes

/-- The fields that are present, each after its name, two quotes and a colon. -/
def recordSize (names : List Bytes) (sizes : List (Option Nat)) : Nat :=
  listSize ((names.zip sizes).filterMap fun m => m.2.map fun size => m.1.length + 3 + size)

def Route.size (r : Route) : Nat :=
  recordSize routeNames
    [some (quotedSize r.prefixText), some (numberSize r.port.toNat), some (quotedSize r.socket)]

def hostSize (nils : Nils) (host : Bytes × List Bytes) : Nat :=
  quotedSize host.1 + 1 + sliceSize (nils.addresses host.1) (host.2.map quotedSize)

def nonEmptySize (s : Bytes) : Option Nat := if s = [] then none else some (quotedSize s)

def Workload.size (nils : Nils) (w : Workload) : Nat :=
  recordSize workloadNames
    [some (quotedSize w.name), nonEmptySize w.unit, some (quotedSize w.user),
      some (quotedSize w.group), some (quotedSize w.workerUser), some (quotedSize w.socket),
      nonEmptySize w.internetSocket,
      some (sliceSize nils.internetPorts (w.internetPorts.map fun p => numberSize p.toNat)),
      some (quotedSize w.dnsUpstream),
      some (sliceSize nils.dnsHosts (w.dnsHosts.entries.map (hostSize nils))),
      some (sliceSize nils.routes (w.routes.map Route.size)),
      some (numberSize w.tcpPort.toNat), some (numberSize w.dnsBase.toNat),
      some (numberSize w.maxConnections), some (numberSize w.workerMemoryMiB),
      some (numberSize w.workerTasks), some (numberSize w.workerCPUQuota)]

theorem listSize_perm {xs ys : List Nat} (h : xs.Perm ys) : listSize xs = listSize ys := by
  have hnil : xs = [] ↔ ys = [] := by
    rw [← List.length_eq_zero_iff, h.length_eq, List.length_eq_zero_iff]
  rw [listSize, listSize, (h.map _).sum_nat]
  simp only [hnil]

theorem encodeElements_size (vs : List Value) :
    (encodeElements vs).length = (vs.map fun v => (encode v).length + 1).sum + 1 := by
  induction vs with
  | nil => rfl
  | cons v vs ih =>
    simp only [encodeElements, List.length_cons, List.length_append, ih, List.map_cons,
      List.sum_cons]
    omega

theorem encodeMembers_size (ms : List (Bytes × Value)) :
    (encodeMembers ms).length =
      (ms.map fun m => quotedSize m.1 + 1 + (encode m.2).length + 1).sum + 1 := by
  induction ms with
  | nil => rfl
  | cons m ms ih =>
    simp only [encodeMembers, List.length_cons, List.length_append, ih, List.map_cons,
      List.sum_cons, quotedSize]
    omega

theorem encode_array_size (vs : List Value) :
    (encode (.array vs)).length = listSize (vs.map fun v => (encode v).length) := by
  cases vs with
  | nil => rfl
  | cons v vs =>
    simp only [encode, List.length_cons, List.length_append, encodeElements_size, listSize,
      List.map_cons, List.map_map, List.sum_cons, reduceCtorEq, if_false, Function.comp_def]
    omega

theorem encode_object_size (ms : List (Bytes × Value)) :
    (encode (.object ms)).length =
      listSize (ms.map fun m => quotedSize m.1 + 1 + (encode m.2).length) := by
  cases ms with
  | nil => rfl
  | cons m ms =>
    simp only [encode, List.length_cons, List.length_append, encodeMembers_size, listSize,
      List.map_cons, List.map_map, List.sum_cons, reduceCtorEq, if_false, Function.comp_def,
      quotedSize]
    omega

theorem encode_record_size {names : List Bytes} (hnames : ∀ n ∈ names, PlainString n)
    (values : List (Option Value)) :
    (encode (.object (record names values))).length =
      recordSize names (values.map (Option.map fun v => (encode v).length)) := by
  rw [encode_object_size, recordSize, record]
  congr 1
  induction names generalizing values with
  | nil => rfl
  | cons n names ih =>
    obtain ⟨hn, hnames⟩ := List.forall_mem_cons.mp hnames
    have hquoted : quotedSize n = n.length + 2 := encodeString_length hn
    cases values with
    | nil => rfl
    | cons value values =>
      have hrest := ih hnames values
      cases value with
      | none => simpa using hrest
      | some v =>
        simp only [List.map_cons, Option.map_some, List.zip_cons_cons, List.filterMap_cons, hrest,
          hquoted]

theorem encode_sliceValue_size (isNil : Bool) (vs : List Value) :
    (encode (sliceValue isNil vs)).length =
      sliceSize isNil (vs.map fun v => (encode v).length) := by
  unfold sliceValue sliceSize
  rw [List.isEmpty_map]
  split
  · decide
  · exact encode_array_size vs

theorem encode_mapValue_size {V : Type} (isNil : Bool) {value : Bytes × V → Value}
    {size : Bytes × V → Nat} (hsize : ∀ e, quotedSize e.1 + 1 + (encode (value e)).length = size e)
    (t : Table Bytes V) :
    (encode (mapValue isNil value t)).length = sliceSize isNil (t.entries.map size) := by
  unfold mapValue sliceSize
  rw [List.isEmpty_map]
  split
  · decide
  · rw [encode_object_size, List.map_map]
    have hperm : (sortedEntries t).Perm t.entries := List.perm_insertionSort _ _
    have hmap : (fun m : Bytes × Value => quotedSize m.1 + 1 + (encode m.2).length) ∘
        (fun e => (e.1, value e)) = size := funext hsize
    rw [hmap]
    exact listSize_perm (hperm.map size)

theorem Route.encode_size (r : Route) : (encode r.value).length = r.size := by
  rw [Route.value, encode_record_size fun n hn => names_plain n (by simp [hn])]
  rfl

theorem nonEmpty_size (s : Bytes) :
    (nonEmpty s).map (fun v => (encode v).length) = nonEmptySize s := by
  unfold nonEmpty nonEmptySize
  split <;> rfl

theorem Workload.encode_size (nils : Nils) (w : Workload) :
    (encode (w.value nils)).length = w.size nils := by
  have hhost : ∀ host, quotedSize host.1 + 1 + (encode (addressesValue nils host)).length =
      hostSize nils host := by
    intro host
    rw [addressesValue, encode_sliceValue_size, List.map_map]
    rfl
  have hhosts := encode_mapValue_size nils.dnsHosts hhost w.dnsHosts
  rw [Workload.value, encode_record_size fun n hn => names_plain n (by simp [hn]), Workload.size,
    Workload.fields]
  simp only [List.map_cons, List.map_nil, Option.map_some, nonEmpty_size, hhosts,
    encode_sliceValue_size, List.map_map, Function.comp_def, Route.encode_size]
  rfl

/-- The line in terms of the fields of the workload and of the path of the bundle. -/
theorem sealedWorkerConfig_size (nils : Nils) (w : Workload) (ca : Bytes) :
    (sealedWorkerConfig nils w ca).length = w.size nils + quotedSize ca + 26 := by
  have hplain : ∀ n ∈ workerNames, PlainString n := fun n hn => names_plain n (by simp [hn])
  have hrecord := encode_record_size hplain [some (w.value nils), some (.string ca)]
  have hsize : recordSize workerNames [some (w.size nils), some (quotedSize ca)] =
      w.size nils + quotedSize ca + 25 := by
    have hworkload : (str "workload").length = 8 := by decide
    have hbundle : (str "caBundle").length = 8 := by decide
    simp [recordSize, workerNames, listSize, hworkload, hbundle]
    omega
  rw [sealedWorkerConfig, encodeLine, List.length_append, workerMembers, hrecord, List.map_cons,
    List.map_cons, List.map_nil, Option.map_some, Option.map_some, Workload.encode_size]
  simp only [encode, List.length_singleton]
  rw [← quotedSize, hsize]

section Read
variable {parseURL : Bytes → Option Url}

/-- The worker gets the workload back once the decoder has read the line. -/
theorem readWorker_received {nils : Nils} {w : Workload} {ca : Bytes}
    (hvalid : w.validate parseURL = .ok w) {data rest : Bytes}
    (hparse : parseValue (data.length + 1) data =
      some (.object (workerMembers nils ⟨w, ca⟩), rest)) :
    Received w ca (readWorker parseURL data) := by
  obtain ⟨hosts, hwc, hget⟩ := unmarshalWorker_members nils ca (validate_fits hvalid)
  have hsame : Workload.Same { w with dnsHosts := hosts } w := ⟨rfl, hget⟩
  refine ⟨⟨{ w with dnsHosts := hosts }, ca⟩, ?_, hsame, rfl⟩
  simp only [readWorker, hparse, hwc, hsame.validate hvalid]

section Line
variable {nils : Nils} {w : Workload} {ca : Bytes}
  (hline : Writable (.object (workerMembers nils ⟨w, ca⟩)))

include hline

theorem workerConfig_received (hvalid : w.validate parseURL = .ok w) :
    Received w ca (workerConfig parseURL (sealedWorkerConfig nils w ca)) :=
  readWorker_received hvalid (parseValue_encodeLine hline)

theorem sandboxConfig_received (hvalid : w.validate parseURL = .ok w)
    (hlength : (encode (.object (workerMembers nils ⟨w, ca⟩))).length ≤ sandboxLimit) :
    Received w ca (sandboxConfig parseURL (sealedWorkerConfig nils w ca)) := by
  obtain ⟨rest, hparse⟩ := parseValue_encodeLine_take hline hlength
  exact readWorker_received hvalid hparse

/-- A line that is cut off is refused. -/
theorem sandboxConfig_cut
    (hlength : sandboxLimit < (encode (.object (workerMembers nils ⟨w, ca⟩))).length) :
    sandboxConfig parseURL (sealedWorkerConfig nils w ca) = .error .decode := by
  unfold sandboxConfig readWorker
  split
  · rfl
  · rename_i v rest hparse
    obtain ⟨l, rfl⟩ := parseValue_encodeLine_cut hline hlength hparse
    rfl

end Line

/-- For every workload of an accepted configuration, the bootstrap and the worker read the
sealed file successfully, both end up with the workload of the controller after `validate`,
which changes nothing a second time, and the worker listens on the captured ports, exactly
when the line without its end fits into the megabyte that the bootstrap reads. The size of the
line is that of the fields, escaped and with their defaults. -/
theorem worker_sees_iff {raw : Bytes} {config : Configuration}
    (hconfig : decodeConfig parseURL raw = .ok config) {w : Workload}
    (hw : w ∈ config.workloads) (nils : Nils) :
    (SeesWorkload parseURL nils w config.caBundle ↔
      (sealedWorkerConfig nils w config.caBundle).length ≤ sandboxLimit + 1) ∧
    (sealedWorkerConfig nils w config.caBundle).length =
      w.size nils + quotedSize config.caBundle + 26 := by
  refine ⟨?_, sealedWorkerConfig_size nils w config.caBundle⟩
  obtain ⟨hca, hdecoded, hvalid⟩ := decodeConfig_workload hconfig hw
  have hline := workerMembers_writable nils hdecoded hca
  have hlength : (sealedWorkerConfig nils w config.caBundle).length =
      (encode (.object (workerMembers nils ⟨w, config.caBundle⟩))).length + 1 := by
    simp [sealedWorkerConfig, encodeLine]
  constructor
  · intro h
    by_contra hlong
    obtain ⟨wc, hread, -⟩ := h.sandbox
    rw [sandboxConfig_cut hline (by omega)] at hread
    cases hread
  · intro hshort
    have hworker := workerConfig_received hline hvalid
    refine ⟨sandboxConfig_received hline hvalid (by omega), hworker, hvalid, ?_⟩
    intro wc hwc
    obtain ⟨wc', hread, ⟨hsame, -⟩, -⟩ := hworker
    cases hread.symm.trans hwc
    have hlisteners := congrArg listeners hsame
    rw [show listeners wc.workload = listeners w from hlisteners]
    exact mem_listeners hvalid

end Read

/-! ## A workload with a given upstream -/

/-- What `url.Parse` makes of a URL of the host `dns.test`. -/
def upstreamURL (_ : Bytes) : Option Url := some ⟨str "https", str "dns.test", false⟩

/-- A configuration file that leaves out what has a default. -/
def upstreamConfig (url : Bytes) : Bytes :=
  str ("\x7b\"workloads\":[\x7b\"name\":\"a\",\"user\":\"u\",\"group\":\"g\"," ++
    "\"workerUser\":\"w\",\"socket\":\"/a/s\",\"dnsUpstream\":\"") ++
  (url ++ str "\"\x7d]\x7d")

def upstreamValue (url : Bytes) : Value :=
  .object [(str "workloads", .array [.object [(str "name", .string (str "a")),
    (str "user", .string (str "u")), (str "group", .string (str "g")),
    (str "workerUser", .string (str "w")), (str "socket", .string (str "/a/s")),
    (str "dnsUpstream", .string url)]])]

def upstreamWorkload (url : Bytes) : Workload where
  name := str "a"
  unit := []
  user := str "u"
  group := str "g"
  workerUser := str "w"
  socket := str "/a/s"
  internetSocket := []
  internetPorts := []
  dnsUpstream := url
  dnsHosts := Table.empty
  routes := []
  tcpPort := 15001
  dnsBase := 15053
  maxConnections := 256
  workerMemoryMiB := 128
  workerTasks := 64
  workerCPUQuota := 100

def upstreamConfiguration (url : Bytes) : Configuration where
  namespaceTool := str "/run/current-system/sw/bin/nsenter"
  caBundle := str "/etc/ssl/certs/ca-certificates.crt"
  networkTool := str "/run/current-system/sw/bin/ip"
  workloads := [upstreamWorkload url]

section Upstream
variable {url : Bytes}

theorem encode_upstreamValue (h : PlainString url) :
    encode (upstreamValue url) = upstreamConfig url := by
  simp only [upstreamValue, encode, encodeElements, encodeMembers, encodeString_plain h,
    List.append_assoc, List.cons_append]
  rfl

theorem decodeConfig_upstream (hne : url ≠ []) (h : PlainString url)
    (hlength : (upstreamConfig url).length ≤ configLimit) :
    decodeConfig upstreamURL (upstreamConfig url) = .ok (upstreamConfiguration url) := by
  have hplain : Plain (upstreamValue url) := by
    simp only [upstreamValue, Plain, PlainMembers, PlainElements, and_true]
    and_intros
    all_goals first | exact h | exact plainString_str (by decide)
  have hparse := parseValue_plain hplain
  rw [encode_upstreamValue h] at hparse
  obtain ⟨c, t, rfl⟩ := List.exists_cons_of_ne_nil hne
  unfold decodeConfig
  rw [List.take_of_length_le hlength]
  dsimp only
  rw [hparse]
  rfl

theorem upstreamConfig_length (url : Bytes) :
    (upstreamConfig url).length = (upstreamConfig []).length + url.length := by
  simp only [upstreamConfig, List.length_append, List.length_nil]
  omega

def upstreamLine (nils : Nils) (url : Bytes) : Bytes :=
  encode (.object (workerMembers nils
    ⟨upstreamWorkload url, (upstreamConfiguration url).caBundle⟩))

theorem upstreamLine_length (nils : Nils) (h : PlainString url) :
    (upstreamLine nils url).length = (upstreamLine nils []).length + url.length := by
  have hmembers : ∀ url, workerMembers nils
      ⟨upstreamWorkload url, (upstreamConfiguration url).caBundle⟩ =
    [(str "workload", .object [(str "name", .string (str "a")), (str "user", .string (str "u")),
      (str "group", .string (str "g")), (str "workerUser", .string (str "w")),
      (str "socket", .string (str "/a/s")),
      (str "internetPorts", sliceValue nils.internetPorts []),
      (str "dnsUpstream", .string url),
      (str "dnsHosts", mapValue nils.dnsHosts (addressesValue nils) Table.empty),
      (str "routes", sliceValue nils.routes []), (str "tcpPort", .number (itoa 15001)),
      (str "dnsBase", .number (itoa 15053)), (str "maxConnections", .number (itoa 256)),
      (str "workerMemoryMiB", .number (itoa 128)), (str "workerTasks", .number (itoa 64)),
      (str "workerCPUQuota", .number (itoa 100))]),
    (str "caBundle", .string (str "/etc/ssl/certs/ca-certificates.crt"))] := fun _ => rfl
  have hempty : PlainString [] := nofun
  simp only [upstreamLine, hmembers, encode, encodeMembers, List.length_append, List.length_cons,
    encodeString_length h, encodeString_length hempty, List.length_nil]
  omega

/-- Whatever is nil, the line has more around the URL than the file. -/
theorem lt_upstreamLine_length (nils : Nils) : 200 < (upstreamLine nils []).length := by
  have hflags : ∀ ports hosts routes,
      200 < (upstreamLine ⟨ports, hosts, fun _ => true, routes⟩ []).length := by
    decide +kernel
  have hline : upstreamLine nils [] =
      upstreamLine ⟨nils.internetPorts, nils.dnsHosts, fun _ => true, nils.routes⟩ [] := rfl
  rw [hline]
  exact hflags _ _ _

end Upstream

def longUpstream : Bytes := str "https://dns.test/?" ++ List.replicate 1048400 (chr 'a')

theorem longUpstream_plain : PlainString longUpstream := by
  apply plainString_append (plainString_str (by decide))
  intro b hb
  rw [List.eq_of_mem_replicate hb]
  decide

theorem longUpstream_length : longUpstream.length = 1048418 := by
  rw [longUpstream, List.length_append, List.length_replicate]
  decide

/-- The file of almost a megabyte is accepted, and the bootstrap cannot read what the
controller makes of it. -/
theorem long_upstream_unread :
    ∃ config w, decodeConfig upstreamURL (upstreamConfig longUpstream) = .ok config ∧
      w ∈ config.workloads ∧
      ∀ nils, ¬ SeesWorkload upstreamURL nils w config.caBundle := by
  have hfile : (upstreamConfig longUpstream).length ≤ configLimit := by
    rw [upstreamConfig_length, longUpstream_length]
    decide
  have hne : longUpstream ≠ [] := by
    apply List.ne_nil_of_length_pos
    rw [longUpstream_length]
    decide
  have hconfig := decodeConfig_upstream hne longUpstream_plain hfile
  have hmem : upstreamWorkload longUpstream ∈ (upstreamConfiguration longUpstream).workloads :=
    List.mem_singleton_self _
  refine ⟨_, _, hconfig, hmem, fun nils hsees => ?_⟩
  obtain ⟨hca, hdecoded, -⟩ := decodeConfig_workload hconfig hmem
  have hline := workerMembers_writable nils hdecoded hca
  have hlong : sandboxLimit < (upstreamLine nils longUpstream).length := by
    have hextra := lt_upstreamLine_length nils
    rw [upstreamLine_length nils longUpstream_plain, longUpstream_length, sandboxLimit]
    omega
  obtain ⟨wc, hread, -⟩ := hsees.sandbox
  rw [sandboxConfig_cut hline hlong] at hread
  cases hread

def shortUpstream : Bytes := str "https://dns.test/"

theorem worker_sees_iff_shortUpstream :
    ∃ config w, decodeConfig upstreamURL (upstreamConfig shortUpstream) = .ok config ∧
      w ∈ config.workloads ∧
      SeesWorkload upstreamURL ⟨true, true, fun _ => true, true⟩ w config.caBundle := by
  have hconfig : decodeConfig upstreamURL (upstreamConfig shortUpstream) =
      .ok (upstreamConfiguration shortUpstream) :=
    decodeConfig_upstream (by decide) (plainString_str (by decide)) (by decide +kernel)
  have hmem : upstreamWorkload shortUpstream ∈ (upstreamConfiguration shortUpstream).workloads :=
    List.mem_singleton_self _
  exact ⟨_, _, hconfig, hmem, (worker_sees_iff hconfig hmem _).1.mpr (by decide +kernel)⟩

end RealmFormal.Agent

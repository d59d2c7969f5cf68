import RealmFormal.Agent.Config
import RealmFormal.Agent.Identity

/-!
# Where a TCP connection of the workload ends up

`destination.addr`, `workload.target` and the branches of the worker behind
them, put after the connect hooks. The two address families meet only in
`destination.addr`; the exception is a loopback address in mapped form, which
the IPv6 hook does not recognise.
-/

namespace RealmFormal.Agent
open Go Go.Netip LittleEndian
set_option autoImplicit false

/-- The first `n` bytes; `destination.Address` has sixteen. -/
def array (n : Nat) (bs : Bytes) : List.Vector UInt8 n :=
  ⟨(bs ++ List.replicate n 0).take n, by simp⟩

def GoDestination.addr (d : GoDestination) : Except String AddrPort :=
  let ip : Except String Addr :=
    if d.family = 2 then .ok (.v4 (array 4 d.address))
    else if d.family = 10 then .ok (Addr.v6 (array 16 d.address) []).unmap
    else .error ("unknown address family " ++ toString d.family.toNat)
  match ip with
  | .error e => .error e
  | .ok ip =>
    if d.port = 0 ∨ d.port > 65535 then .error "invalid destination port"
    else .ok ⟨ip, d.port.toUInt16⟩

def forbiddenTexts : List Bytes :=
  [str "0.0.0.0/8", str "10.0.0.0/8", str "100.64.0.0/10", str "127.0.0.0/8",
    str "169.254.0.0/16", str "172.16.0.0/12", str "192.0.0.0/24", str "192.168.0.0/16",
    str "198.18.0.0/15", str "224.0.0.0/4", str "240.0.0.0/4", str "::/128", str "::1/128",
    str "::ffff:0:0/96", str "200::/7", str "fc00::/7", str "fe80::/10", str "fec0::/10",
    str "ff00::/8"]

def forbiddenPrefixes : List Prefix := forbiddenTexts.filterMap parsePrefix

/-- No literal of the list makes `MustParsePrefix` panic. -/
theorem forbiddenTexts_parse : ∀ text ∈ forbiddenTexts, (parsePrefix text).isSome := by
  decide +kernel

/-- One turn of the route loop: the socket and the length selected so far. The text of
the prefix is parsed again, and a text that does not parse panics. -/
def selectRoute (a : AddrPort) (best : Bytes × Int) (r : Route) : Option (Bytes × Int) :=
  (parsePrefix r.prefixText).map fun p =>
    if r.port = a.port ∧ p.contains a.addr ∧ (p.bits : Int) > best.2 then (r.socket, p.bits)
    else best

/-- `workload.target`; `none` is a panic. -/
def Workload.target (w : Workload) (a : AddrPort) : Option (Except String Bytes) :=
  (w.routes.foldlM (selectRoute a) ([], -1)).map fun best =>
    if best.1 ≠ [] then .ok best.1
    else if (forbiddenPrefixes.any fun p => p.contains a.addr) then
      .error "undeclared private or reserved destination"
    else if (w.internetPorts.any fun p => decide (p = a.port ∧ w.internetSocket ≠ [])) then
      .ok w.internetSocket
    else .error "destination port is not authorized"

/-- What becomes of a connect. `direct` goes to the address itself and never meets the
worker, `denied` is the hook's refusal, `closed` the worker's. -/
inductive Outcome where
  | direct
  | dns
  | route (socket : Bytes)
  | internet (socket : Bytes) (authority : AddrPort)
  | denied
  | unassociated
  | closed (reason : String)
  | crashed
  deriving DecidableEq

/-- The worker on a connection whose original destination it has found. -/
def Workload.forward (w : Workload) (d : GoDestination) : Outcome :=
  match d.addr with
  | .error e => .closed e
  | .ok a =>
    if a.port = 53 then .dns
    else
      match w.target a with
      | none => .crashed
      | some (.error e) => .closed e
      | some (.ok socket) =>
        if socket = w.internetSocket then .internet socket a else .route socket

/-- The context of the connect hook for a stream socket of the family of the address. -/
def streamAddr (dest : AddrPort) : SockAddr where
  type := .stream
  userIp4 := if dest.addr.is4 then loadWord dest.addr.bytes else 0
  userIp6 := if dest.addr.is4 then Words.zero else loadWords dest.addr.bytes
  userPort := htons dest.port

/-- A captured process connects a stream socket with storage `st` to `dest`. The worker
receives the stored destination as the bytes of a map value. -/
def Workload.connect (w : Workload) (h : Helpers) (st : Storage) (dest : AddrPort) : Outcome :=
  let ctx := streamAddr dest
  let r := redirect ⟨w.tcpPort, w.dnsBase⟩ h (!dest.addr.is4) false ctx st
  if !r.allow then .denied
  else if r.ctx = ctx then .direct
  else
    match r.storage.tcp with
    | none => .unassociated
    | some s => w.forward (GoDestination.ofBytes s.original.bytes)

/-! ## The hook -/

section Hook
variable {parseURL : Bytes → Option Url} {w : Workload} {h : Helpers} {st : Storage}
  {dest : AddrPort}

theorem Accepted.tcpPort_ne (hw : Accepted parseURL w) : w.tcpPort ≠ 53 := by
  intro hport
  have hports := hw.ports
  simp [portsOverlap, hport] at hports

/-- A redirected connect never keeps its context: only port 53 is redirected on loopback,
and the adapter does not listen there. -/
theorem toLocal_ne (hw : Accepted parseURL w) {v6 : Bool} {ctx : SockAddr}
    (hpass : passThrough ctx v6 = false) : toLocal ctx v6 w.tcpPort ≠ ctx := by
  intro heq
  have hport := toLocal_port ctx v6 w.tcpPort
  have hloop := toLocal_loopback ctx v6 w.tcpPort
  rw [heq] at hport hloop
  have hne : ntohs ctx.userPort ≠ 53 := by
    rw [hport]
    exact hw.tcpPort_ne
  simp [passThrough, hloop, hne] at hpass

theorem connect_eq (hw : Accepted parseURL w) (h : Helpers) (st : Storage) (dest : AddrPort) :
    w.connect h st dest =
      if passThrough (streamAddr dest) (!dest.addr.is4) then .direct
      else if st.tcp = none ∧ ¬ h.room then .denied
      else w.forward (readDestination h (streamAddr dest) (!dest.addr.is4)).view := by
  have hredirect : redirect ⟨w.tcpPort, w.dnsBase⟩ h (!dest.addr.is4) false (streamAddr dest) st =
      redirectTcp ⟨w.tcpPort, w.dnsBase⟩ h (!dest.addr.is4) (streamAddr dest) st := rfl
  unfold Workload.connect
  dsimp only
  rw [hredirect]
  unfold redirectTcp
  cases hpass : passThrough (streamAddr dest) (!dest.addr.is4) with
  | true => simp
  | false =>
    by_cases hroom : st.tcp = none ∧ ¬ h.room
    · simp [hroom]
    · have hmoved := toLocal_ne hw hpass
      simp only [Bool.false_eq_true, if_false, if_neg hroom, Bool.not_true, if_neg hmoved,
        ofBytes_bytes]

theorem forward_ne_direct (w : Workload) (d : GoDestination) : w.forward d ≠ .direct := by
  unfold Workload.forward
  intro heq
  repeat' split at heq
  all_goals cases heq

end Hook

/-! ## The two spellings of an IPv4 address -/

/-- The number that `loopback` of the IPv4 hook compares is the first octet. -/
theorem loopback_v4 (a : List.Vector UInt8 4) (p : UInt16) :
    loopback (streamAddr ⟨.v4 a, p⟩) false = decide (a.head = 127) := by
  obtain ⟨bs, hbs⟩ := a
  match bs, hbs with
  | [b0, b1, b2, b3], hbs =>
    have hlow : value [b3, b2, b1] < 2 ^ 24 := (value_lt [b3, b2, b1]).trans_eq (by norm_num)
    have hvalue : value [b3, b2, b1, b0] = value [b3, b2, b1] + 2 ^ 24 * b0.toNat := by
      simp only [value]
      omega
    have hnum : (ntohl (loadWord [b0, b1, b2, b3])).toNat / 2 ^ 24 = b0.toNat := by
      rw [ntohl_loadWord rfl, loadWord_toNat rfl]
      show value [b3, b2, b1, b0] / 2 ^ 24 = b0.toNat
      omega
    have hoctet : b0.toNat = 127 ↔ b0 = 127 := by
      rw [← UInt8.toNat_inj]
      rfl
    show decide ((ntohl (loadWord [b0, b1, b2, b3])).toNat / 2 ^ 24 = 127) = decide (b0 = 127)
    rw [hnum, decide_eq_decide]
    exact hoctet

/-- The IPv6 hook knows `::1` only. -/
theorem loopback_mapped (a : List.Vector UInt8 4) (p : UInt16) :
    loopback (streamAddr ⟨mapped a, p⟩) true = false := by
  have hword : (loadWords (mappedPrefix ++ a.toList)).w2 ≠ 0 := by
    have hbytes : ((mappedPrefix ++ a.toList).drop 8).take 4 = [0, 0, 0xFF, 0xFF] := by
      simp [mappedPrefix]
    show loadWord (((mappedPrefix ++ a.toList).drop 8).take 4) ≠ 0
    rw [hbytes]
    decide
  show decide (loadWords (mappedPrefix ++ a.toList) = ⟨0, 0, 0, htonl 1⟩) = false
  rw [decide_eq_false_iff_not]
  intro heq
  exact hword (congrArg Words.w2 heq)

theorem array_of_length {n : Nat} (v : List.Vector UInt8 n) (rest : Bytes) :
    array n (v.toList ++ rest) = v := by
  apply List.Vector.toList_injective
  simp [array]

theorem port_valid (p : UInt16) : p.toUInt32 = 0 ∨ p.toUInt32 > 65535 ↔ p = 0 := by
  have hp : p.toNat < 65536 := p.toNat_lt
  have hle : ¬ p.toUInt32 > 65535 := by
    rw [gt_iff_lt, UInt32.lt_iff_toNat_lt, UInt16.toNat_toUInt32]
    exact Nat.not_lt.mpr (Nat.le_of_lt_succ hp)
  have hzero : p.toUInt32 = 0 ↔ p = 0 := by
    rw [← UInt32.toNat_inj, ← UInt16.toNat_inj, UInt16.toNat_toUInt32]
    rfl
  rw [or_iff_left hle, hzero]

/-- The worker reads back what was dialled, with a mapped address in IPv4 form. -/
theorem addr_streamAddr (h : Helpers) (dest : AddrPort) (hzone : dest.addr.zone = []) :
    (readDestination h (streamAddr dest) (!dest.addr.is4)).view.addr =
      if dest.port = 0 then .error "invalid destination port"
      else .ok ⟨dest.addr.unmap, dest.port⟩ := by
  obtain ⟨addr, port⟩ := dest
  cases addr with
  | v4 a =>
    have harray : array 4 (Words.bytes ⟨loadWord a.toList, 0, 0, 0⟩) = a := by
      simp only [Words.bytes, List.append_assoc]
      rw [word_loadWord a.toList_length]
      exact array_of_length a _
    simp [GoDestination.addr, Destination.view, readDestination, streamAddr, Addr.is4, Addr.bytes,
      Words.zero, familyOf, afInet, ntohs_htons, port_valid, harray, Addr.unmap]
  | v6 a zone =>
    cases hzone
    have harray : array 16 (loadWords a.toList).bytes = a := by
      rw [loadWords_bytes a.toList_length]
      simpa using array_of_length a []
    simp [GoDestination.addr, Destination.view, readDestination, streamAddr, Addr.is4, Addr.bytes,
      familyOf, afInet6, ntohs_htons, port_valid, harray]

/-- What the worker does depends only on what `destination.addr` answers. -/
theorem forward_congr (w : Workload) {d e : GoDestination} (h : d.addr = e.addr) :
    w.forward d = w.forward e := by
  unfold Workload.forward
  rw [h]

/-- No storage and no room for it. -/
theorem storage_denied (h : Helpers) (st : Storage) :
    st.tcp = none ∧ ¬ h.room ↔ (st.tcp.isSome || h.room) = false := by
  simp

/-- A workload's connects to an IPv4 address and to its mapped form end alike, unless the
address is a loopback address dialled on another port than 53. -/
theorem mapped_outcome_iff {parseURL : Bytes → Option Url} {w v : Workload}
    (hv : w.validate parseURL = .ok v) (a : List.Vector UInt8 4) (p : UInt16) (h4 h6 : Helpers)
    (st4 st6 : Storage) (hroom : (st4.tcp.isSome || h4.room) = (st6.tcp.isSome || h6.room)) :
    v.connect h4 st4 ⟨.v4 a, p⟩ = v.connect h6 st6 ⟨mapped a, p⟩ ↔ ¬ (a.head = 127 ∧ p ≠ 53) := by
  have hw := validate_accepted hv
  have hport : ∀ addr : Addr, ntohs (streamAddr ⟨addr, p⟩).userPort = p := fun _ => ntohs_htons p
  have hpass4 : passThrough (streamAddr ⟨.v4 a, p⟩) false = decide (a.head = 127 ∧ p ≠ 53) := by
    rw [passThrough, hport, loopback_v4, Bool.and_comm, ← Bool.decide_and]
  have hpass6 : passThrough (streamAddr ⟨mapped a, p⟩) true = false := by
    rw [passThrough, loopback_mapped, Bool.and_false]
  have hsame : v.forward (readDestination h4 (streamAddr ⟨.v4 a, p⟩) false).view =
      v.forward (readDestination h6 (streamAddr ⟨mapped a, p⟩) true).view := by
    apply forward_congr
    have haddr4 := addr_streamAddr h4 ⟨.v4 a, p⟩ rfl
    have haddr6 := addr_streamAddr h6 ⟨mapped a, p⟩ rfl
    rw [unmap_mapped] at haddr6
    exact haddr4.trans haddr6.symm
  have h4 : v.connect h4 st4 ⟨.v4 a, p⟩ =
      if a.head = 127 ∧ p ≠ 53 then .direct
      else if (st6.tcp.isSome || h6.room) = false then .denied
      else v.forward (readDestination h6 (streamAddr ⟨mapped a, p⟩) true).view := by
    rw [connect_eq hw, ← hsame, ← hroom]
    simp only [Addr.is4, Bool.not_true, hpass4, storage_denied, decide_eq_true_eq]
  have h6 : v.connect h6 st6 ⟨mapped a, p⟩ =
      if (st6.tcp.isSome || h6.room) = false then .denied
      else v.forward (readDestination h6 (streamAddr ⟨mapped a, p⟩) true).view := by
    rw [connect_eq hw]
    have hfamily : (!(mapped a).is4) = true := rfl
    simp only [hfamily, hpass6, storage_denied, Bool.false_eq_true, if_false]
  rw [h4, h6]
  by_cases hloop : a.head = 127 ∧ p ≠ 53
  · rw [if_pos hloop]
    apply iff_of_false
    · intro heq
      split at heq
      · cases heq
      · exact forward_ne_direct _ _ heq.symm
    · exact not_not_intro hloop
  · rw [if_neg hloop]
    exact iff_of_true rfl hloop

/-- A workload with one route and an Internet egress. -/
def sampleEgress : Workload where
  name := str "app"
  unit := []
  user := str "app"
  group := str "app"
  workerUser := str "adapter"
  socket := str "/run/app/control.sock"
  internetSocket := str "/run/internet.sock"
  internetPorts := [443]
  dnsUpstream := []
  dnsHosts := Table.empty
  routes := [⟨str "10.0.0.0/8", 443, str "/run/service.sock"⟩]
  tcpPort := 0
  dnsBase := 0
  maxConnections := 0
  workerMemoryMiB := 0
  workerTasks := 0
  workerCPUQuota := 0

theorem sampleEgress_accepted :
    sampleEgress.validate sampleUpstream = .ok sampleEgress.withDefaults := by
  have hcheck : sampleEgress.check sampleUpstream = none := by decide +kernel
  rw [Workload.validate, hcheck]

def loopbackAddress : List.Vector UInt8 4 := ⟨[127, 0, 0, 1], by decide⟩

def sampleAddress : List.Vector UInt8 4 := ⟨[10, 1, 2, 3], rfl⟩

/-- A loopback adapter that is reached by its IPv4 address is refused by the mapped one. -/
theorem mapped_loopback_closed :
    sampleEgress.validate sampleUpstream = .ok sampleEgress.withDefaults ∧
      sampleEgress.withDefaults.connect ⟨1, 1, true⟩ .empty ⟨.v4 loopbackAddress, 8080⟩ = .direct ∧
      sampleEgress.withDefaults.connect ⟨2, 2, true⟩ .empty ⟨mapped loopbackAddress, 8080⟩ =
        .closed "undeclared private or reserved destination" :=
  ⟨sampleEgress_accepted, by decide +kernel, by decide +kernel⟩

theorem mapped_outcome_iff_sampleAddress :
    sampleEgress.withDefaults.connect ⟨1, 1, true⟩ .empty ⟨.v4 sampleAddress, 443⟩ =
        .route (str "/run/service.sock") ∧
      sampleEgress.withDefaults.connect ⟨2, 2, true⟩ .empty ⟨mapped sampleAddress, 443⟩ =
        .route (str "/run/service.sock") := by
  have h : sampleEgress.withDefaults.connect ⟨1, 1, true⟩ .empty ⟨.v4 sampleAddress, 443⟩ =
      .route (str "/run/service.sock") := by decide +kernel
  have hsame := (mapped_outcome_iff sampleEgress_accepted sampleAddress 443
    ⟨1, 1, true⟩ ⟨2, 2, true⟩ .empty .empty rfl).mpr (by decide)
  exact ⟨h, hsame.symm.trans h⟩

end RealmFormal.Agent

import RealmFormal.Go.Bytes
import RealmFormal.Lib.LittleEndian
import RealmFormal.Lib.Table

/-!
# The BPF programs

`realm.bpf.c` on a little-endian machine: the structures with their memory
layout, the address hooks `redirect` and `restore`, and the sockops program. The
context words hold addresses and ports in network order, as the kernel gives
them. A helper that can fail takes its outcome as an argument.
-/

namespace RealmFormal.Agent
open Go LittleEndian
set_option autoImplicit false

def afInet : UInt32 := 2

def afInet6 : UInt32 := 10

def dnsSlots : Nat := 8

/-- `__u32 address[4]`. -/
structure Words where
  w0 : UInt32
  w1 : UInt32
  w2 : UInt32
  w3 : UInt32
  deriving DecidableEq, Repr

def Words.zero : Words := ⟨0, 0, 0, 0⟩

def word (x : UInt32) : Bytes := bytes 4 x.toNat

def Words.bytes (w : Words) : Bytes := word w.w0 ++ word w.w1 ++ word w.w2 ++ word w.w3

structure Destination where
  cookie : UInt64
  created : UInt64
  family : UInt32
  port : UInt32
  address : Words
  deriving DecidableEq, Repr

def Destination.zero : Destination := ⟨0, 0, 0, 0, Words.zero⟩

def Destination.bytes (d : Destination) : Bytes :=
  LittleEndian.bytes 8 d.cookie.toNat ++ LittleEndian.bytes 8 d.created.toNat ++
    word d.family ++ word d.port ++ d.address.bytes

structure ConnectionKey where
  netns : UInt64
  family : UInt32
  sourcePort : UInt32
  proxyPort : UInt32
  pad : UInt32
  source : Words
  deriving DecidableEq, Repr

def ConnectionKey.zero : ConnectionKey := ⟨0, 0, 0, 0, 0, Words.zero⟩

def ConnectionKey.bytes (k : ConnectionKey) : Bytes :=
  LittleEndian.bytes 8 k.netns.toNat ++ word k.family ++ word k.sourcePort ++ word k.proxyPort ++
    word k.pad ++ k.source.bytes

structure TcpState where
  original : Destination
  key : ConnectionKey
  tracked : UInt32
  deriving DecidableEq, Repr

def TcpState.zero : TcpState := ⟨Destination.zero, ConnectionKey.zero, 0⟩

/-- `struct udp_state`: exactly eight slots. -/
structure UdpState where
  peers : List Destination
  size : peers.length = dnsSlots
  deriving DecidableEq

def UdpState.zero : UdpState := ⟨List.replicate dnsSlots Destination.zero, List.length_replicate⟩

/-- The socket storage of one socket. -/
structure Storage where
  tcp : Option TcpState
  udp : Option UdpState
  deriving DecidableEq

def Storage.empty : Storage := ⟨none, none⟩

inductive SockType where
  | stream | dgram | other
  deriving DecidableEq, Repr

/-- `struct bpf_sock_addr`. -/
structure SockAddr where
  type : SockType
  userIp4 : UInt32
  userIp6 : Words
  userPort : UInt32
  deriving DecidableEq, Repr

/-- The read-only data of the programs. -/
structure Constants where
  tcpPort : UInt16
  dnsBase : UInt16

/-- What the helpers return during one run of a hook: the cookie of the socket, the clock,
and whether storage can be created. -/
structure Helpers where
  cookie : UInt64
  ktime : UInt64
  room : Bool

def ntohs (x : UInt32) : UInt16 := UInt16.ofNat (swap 2 (x.toNat % 65536))

def htons (x : UInt16) : UInt32 := UInt32.ofNat (swap 2 x.toNat)

def ntohl (x : UInt32) : UInt32 := UInt32.ofNat (swap 4 x.toNat)

def htonl (x : UInt32) : UInt32 := UInt32.ofNat (swap 4 x.toNat)

def familyOf (v6 : Bool) : UInt32 := if v6 then afInet6 else afInet

def loopback (ctx : SockAddr) (v6 : Bool) : Bool :=
  if v6 then decide (ctx.userIp6 = ⟨0, 0, 0, htonl 1⟩)
  else decide ((ntohl ctx.userIp4).toNat / 2 ^ 24 = 127)

/-- `read_destination` into zeroed memory: an IPv4 address fills the first word only. -/
def readDestination (h : Helpers) (ctx : SockAddr) (v6 : Bool) : Destination where
  cookie := h.cookie
  created := h.ktime
  family := familyOf v6
  port := (ntohs ctx.userPort).toUInt32
  address := if v6 then ctx.userIp6 else { Words.zero with w0 := ctx.userIp4 }

def toLocal (ctx : SockAddr) (v6 : Bool) (port : UInt16) : SockAddr :=
  if v6 then { ctx with userIp6 := ⟨0, 0, 0, htonl 1⟩, userPort := htons port }
  else { ctx with userIp4 := htonl 0x7f000001, userPort := htons port }

/-- The comparison of the slot search. -/
def samePeer (p d : Destination) : Bool :=
  decide (p.family = d.family ∧ p.port = d.port ∧ p.address = d.address)

/-- The unrolled loop of `dns_slot` from slot `i` on: the slot that matches, or else
the first empty one. -/
def slotSearch (d : Destination) : Nat → Option Nat → List Destination → Nat ⊕ Option Nat
  | _, empty, [] => .inr empty
  | i, empty, p :: ps =>
    let empty := if p.family = 0 ∧ empty = none then some i else empty
    if samePeer p d then .inl i else slotSearch d (i + 1) empty ps

def UdpState.set (s : UdpState) (i : Nat) (d : Destination) : UdpState :=
  ⟨s.peers.set i d, by simpa using s.size⟩

/-- `dns_slot` after the storage lookup. -/
def dnsSlot (s : UdpState) (d : Destination) : Option Nat × UdpState :=
  match slotSearch d 0 none s.peers with
  | .inl i => (some i, s)
  | .inr none => (none, s)
  | .inr (some empty) => (some empty, s.set empty d)

structure HookResult where
  allow : Bool
  ctx : SockAddr
  storage : Storage

def redirectUdp (c : Constants) (h : Helpers) (v6 : Bool) (ctx : SockAddr) (st : Storage) :
    HookResult :=
  if ntohs ctx.userPort ≠ 53 then ⟨loopback ctx v6, ctx, st⟩
  else if st.udp = none ∧ ¬ h.room then ⟨false, ctx, st⟩
  else
    match dnsSlot (st.udp.getD UdpState.zero) (readDestination h ctx v6) with
    | (none, s) => ⟨false, ctx, { st with udp := some s }⟩
    | (some slot, s) =>
      ⟨true, toLocal ctx v6 (UInt16.ofNat (c.dnsBase.toNat + slot)), { st with udp := some s }⟩

/-- A stream connect that `redirect` lets through unchanged. -/
def passThrough (ctx : SockAddr) (v6 : Bool) : Bool :=
  decide (ntohs ctx.userPort ≠ 53) && loopback ctx v6

def redirectTcp (c : Constants) (h : Helpers) (v6 : Bool) (ctx : SockAddr) (st : Storage) :
    HookResult :=
  if passThrough ctx v6 then ⟨true, ctx, st⟩
  else if st.tcp = none ∧ ¬ h.room then ⟨false, ctx, st⟩
  else
    ⟨true, toLocal ctx v6 c.tcpPort,
      { st with tcp := some { TcpState.zero with original := readDestination h ctx v6 } }⟩

def redirect (c : Constants) (h : Helpers) (v6 sendmsg : Bool) (ctx : SockAddr) (st : Storage) :
    HookResult :=
  match ctx.type with
  | .dgram => redirectUdp c h v6 ctx st
  | .stream => if sendmsg then ⟨false, ctx, st⟩ else redirectTcp c h v6 ctx st
  | .other => ⟨false, ctx, st⟩

/-- The last lines of `restore`. -/
def rewritePeer (ctx : SockAddr) (v6 : Bool) (d : Destination) : SockAddr :=
  if d.family ≠ familyOf v6 then ctx
  else if v6 then
    { ctx with userPort := htons (UInt16.ofNat d.port.toNat), userIp6 := d.address }
  else { ctx with userPort := htons (UInt16.ofNat d.port.toNat), userIp4 := d.address.w0 }

def restore (c : Constants) (v6 udpOnly : Bool) (ctx : SockAddr) (st : Storage) : SockAddr :=
  match ctx.type with
  | .dgram =>
    let port := (ntohs ctx.userPort).toNat
    if port < c.dnsBase.toNat ∨ port ≥ c.dnsBase.toNat + dnsSlots ∨ ¬ loopback ctx v6 then ctx
    else
      match st.udp with
      | none => ctx
      | some s =>
        match s.peers[port - c.dnsBase.toNat]? with
        | none => ctx
        | some d => rewritePeer ctx v6 d
  | .stream =>
    if udpOnly then ctx
    else
      match st.tcp with
      | none => ctx
      | some s => rewritePeer ctx v6 s.original
  | .other => ctx

inductive SockOp where
  | activeEstablished
  | stateCb (newState : Nat)
  | other
  deriving DecidableEq, Repr

/-- `struct bpf_sock_ops`, with the network namespace cookie of its socket. -/
structure SockOps where
  op : SockOp
  netns : UInt64
  family : UInt32
  localIp4 : UInt32
  localIp6 : Words
  localPort : UInt32
  remotePort : UInt32

/-- The key after the active-established callback; the other words of an IPv4 source stay. -/
def ConnectionKey.publish (k : ConnectionKey) (ctx : SockOps) : ConnectionKey :=
  { k with
    netns := ctx.netns
    family := ctx.family
    sourcePort := ctx.localPort
    proxyPort := ntohl ctx.remotePort
    source := if ctx.family = afInet then { k.source with w0 := ctx.localIp4 } else ctx.localIp6 }

/-- `handle_sockops` on the storage of the socket and the map. `updated` is the success of
the map update; the last component says that the state callback was switched on. -/
def handleSockops (ctx : SockOps) (updated : Bool) (s : Option TcpState)
    (connections : Table Bytes Destination) :
    Option TcpState × Table Bytes Destination × Bool :=
  match s with
  | none => (none, connections, false)
  | some s =>
    match ctx.op with
    | .activeEstablished =>
      let key := s.key.publish ctx
      if updated then
        (some { s with key, tracked := 1 }, connections.put key.bytes s.original, true)
      else (some { s with key }, connections, true)
    | .stateCb newState =>
      if newState = 7 ∧ s.tracked ≠ 0 then
        match connections.get s.key.bytes with
        | none => (some s, connections, false)
        | some d =>
          if d.cookie = s.original.cookie then (some s, connections.erase s.key.bytes, false)
          else (some s, connections, false)
      else (some s, connections, false)
    | .other => (some s, connections, false)

/-! ## Byte order and the local address -/

theorem ntohs_htons (x : UInt16) : ntohs (htons x) = x := by
  have hlt := swap_lt 2 x.toNat
  apply UInt16.toNat_inj.mp
  have hx : x.toNat < 256 ^ 2 := x.toNat_lt
  have hword : (htons x).toNat = swap 2 x.toNat :=
    UInt32.toNat_ofNat_of_lt' (lt_trans hlt (by decide))
  rw [ntohs, hword, Nat.mod_eq_of_lt (by omega), swap_swap hx]
  simp

theorem toLocal_loopback (ctx : SockAddr) (v6 : Bool) (port : UInt16) :
    loopback (toLocal ctx v6 port) v6 = true := by
  have hlocal : (ntohl (htonl 0x7f000001)).toNat / 2 ^ 24 = 127 := by decide
  cases v6
  · simpa [loopback, toLocal] using hlocal
  · simp [loopback, toLocal]

theorem toLocal_port (ctx : SockAddr) (v6 : Bool) (port : UInt16) :
    ntohs (toLocal ctx v6 port).userPort = port := by
  cases v6 <;> exact ntohs_htons port

/-! ## Where a redirected socket goes -/

/-- The loopback ports that streams and datagrams are redirected to. -/
def Constants.ports (c : Constants) (stream : Bool) : List UInt16 :=
  if stream then [c.tcpPort]
  else (List.range dnsSlots).map fun slot => UInt16.ofNat (c.dnsBase.toNat + slot)

/-- The search returns a position of the slots, or the one it has from before. -/
theorem slotSearch_lt {d : Destination} {i : Nat} {empty : Option Nat} {ps : List Destination}
    {slot : Nat} (hempty : ∀ k, empty = some k → k < i + ps.length)
    (h : slotSearch d i empty ps = .inl slot ∨ slotSearch d i empty ps = .inr (some slot)) :
    slot < i + ps.length := by
  induction ps generalizing i empty with
  | nil =>
    rcases h with h | h
    · cases h
    · exact hempty slot (Sum.inr.inj h)
  | cons p ps ih =>
    have hlength : i + (p :: ps).length = (i + 1) + ps.length := by
      rw [List.length_cons]
      omega
    rw [slotSearch] at h
    split at h
    · have hslot : i = slot := by simpa using h
      omega
    · rw [hlength]
      refine ih ?_ h
      intro k hk
      split at hk
      · cases hk
        omega
      · have := hempty k hk
        omega

theorem dnsSlot_lt {s s' : UdpState} {d : Destination} {slot : Nat}
    (h : dnsSlot s d = (some slot, s')) : slot < dnsSlots := by
  have hsearch : slotSearch d 0 none s.peers = .inl slot ∨
      slotSearch d 0 none s.peers = .inr (some slot) := by
    unfold dnsSlot at h
    split at h
    · rename_i i hi
      cases h
      exact Or.inl hi
    · cases h
    · rename_i empty hempty
      cases h
      exact Or.inr hempty
  have hlt := slotSearch_lt (fun k hk => by cases hk) hsearch
  rwa [s.size, Nat.zero_add] at hlt

/-- A hook leaves the address as it is, or sets it to one of the ports on the loopback. -/
theorem redirect_ports (c : Constants) (h : Helpers) (v6 sendmsg : Bool) (ctx : SockAddr)
    (st : Storage) :
    (redirect c h v6 sendmsg ctx st).ctx = ctx ∨
      ∃ port ∈ c.ports (decide (ctx.type = .stream)),
        (redirect c h v6 sendmsg ctx st).ctx = toLocal ctx v6 port := by
  unfold redirect
  split
  · rename_i htype
    unfold redirectUdp
    split
    · exact Or.inl rfl
    · split
      · exact Or.inl rfl
      · split
        · exact Or.inl rfl
        · rename_i slot s hslot
          refine Or.inr ⟨_, ?_, rfl⟩
          rw [Constants.ports, htype, if_neg (by decide)]
          exact List.mem_map_of_mem (List.mem_range.mpr (dnsSlot_lt hslot))
  · rename_i htype
    split
    · exact Or.inl rfl
    · unfold redirectTcp
      split
      · exact Or.inl rfl
      · split
        · exact Or.inl rfl
        · refine Or.inr ⟨c.tcpPort, ?_, rfl⟩
          rw [Constants.ports, htype, if_pos (by decide)]
          exact List.mem_singleton_self _
  · exact Or.inl rfl

end RealmFormal.Agent

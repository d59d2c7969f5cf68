import RealmFormal.Agent.Bpf

/-!
# One connection seen from both ends

The sockops program and the worker each build a 40-byte key for a connection: one
from the context of the client socket, in C, the other from the accepted socket,
in Go. Both are functions of the tuple of the connection, and equal bytes mean
equal tuples.
-/

namespace RealmFormal.Agent
open Go LittleEndian
set_option autoImplicit false

inductive Source where
  | v4 (address : List.Vector UInt8 4)
  | v6 (address : List.Vector UInt8 16)
  deriving DecidableEq

/-- What the kernel keeps distinct among established client sockets. -/
structure Tuple where
  netns : UInt64
  source : Source
  sourcePort : UInt16
  proxyPort : UInt16
  deriving DecidableEq

def mappedHead : Bytes := List.replicate 10 0 ++ [0xFF, 0xFF]

/-- No IPv6 packet carries an IPv4-mapped source. -/
def Source.onWire : Source → Bool
  | .v4 _ => true
  | .v6 address => decide (address.toList.take 12 ≠ mappedHead)

/-- A word of the context whose bytes in memory are `bs`. -/
def loadWord (bs : Bytes) : UInt32 := UInt32.ofNat (value bs)

def loadWords (bs : Bytes) : Words :=
  ⟨loadWord (bs.take 4), loadWord ((bs.drop 4).take 4), loadWord ((bs.drop 8).take 4),
    loadWord (bs.drop 12)⟩

/-- The context of the sockops program for a client socket. The remote port stands in
the upper half of its word, in network order. -/
def Tuple.sockOps (t : Tuple) (op : SockOp) : SockOps where
  op := op
  netns := t.netns
  family := match t.source with
    | .v4 _ => afInet
    | .v6 _ => afInet6
  localIp4 := match t.source with
    | .v4 address => loadWord address.toList
    | .v6 _ => 0
  localIp6 := match t.source with
    | .v4 _ => Words.zero
    | .v6 address => loadWords address.toList
  localPort := t.sourcePort.toUInt32
  remotePort := loadWord ([0, 0] ++ (LittleEndian.bytes 2 t.proxyPort.toNat).reverse)

/-! ## The side of the worker -/

/-- `connectionKey` of the Go program. -/
structure GoKey where
  netns : UInt64
  family : UInt32
  sourcePort : UInt32
  proxyPort : UInt32
  pad : UInt32
  source : Bytes
  deriving DecidableEq

/-- The native layout in which the map receives the key. -/
def GoKey.bytes (k : GoKey) : Bytes :=
  LittleEndian.bytes 8 k.netns.toNat ++ word k.family ++ word k.sourcePort ++ word k.proxyPort ++
    word k.pad ++ k.source

/-- An accepted connection: the answer to `SO_NETNS_COOKIE`, the two addresses, and the
printed form of the remote one. -/
structure AcceptedConn where
  netns : Except String UInt64
  remoteAddr : String
  remoteIP : Bytes
  remotePort : UInt16
  localPort : UInt16

/-- `IP.To4`. -/
def to4 (ip : Bytes) : Option Bytes :=
  if ip.length = 4 then some ip
  else if ip.length = 16 ∧ ip.take 12 = mappedHead then some (ip.drop 12)
  else none

/-- `copy` into a zeroed array of 16 bytes. -/
def fill (bs : Bytes) : Bytes := (bs ++ List.replicate 16 0).take 16

def connectionIdentity (c : AcceptedConn) : Except String GoKey :=
  match c.netns with
  | .error e => .error e
  | .ok netns =>
    match to4 c.remoteIP with
    | some ip =>
      .ok ⟨netns, 2, c.remotePort.toUInt32, c.localPort.toUInt32, 0, fill (ip.take 4)⟩
    | none =>
      .ok ⟨netns, 10, c.remotePort.toUInt32, c.localPort.toUInt32, 0, fill c.remoteIP⟩

/-- The accepted connection is the other end of the client with tuple `t`. A dual-stack
listener reports an IPv4 peer in mapped form. -/
def AcceptedConn.Mirrors (c : AcceptedConn) (t : Tuple) : Prop :=
  (∀ netns, c.netns = .ok netns → netns = t.netns) ∧ c.remotePort = t.sourcePort ∧
    c.localPort = t.proxyPort ∧
    match t.source with
    | .v4 address => c.remoteIP = address.toList ∨ c.remoteIP = mappedHead ++ address.toList
    | .v6 address => c.remoteIP = address.toList

/-- `destination` of the Go program. -/
structure GoDestination where
  cookie : UInt64
  created : UInt64
  family : UInt32
  port : UInt32
  address : Bytes
  deriving DecidableEq

/-- How the map decodes a value for the worker. -/
def GoDestination.ofBytes (bs : Bytes) : GoDestination where
  cookie := UInt64.ofNat (value (bs.take 8))
  created := UInt64.ofNat (value ((bs.drop 8).take 8))
  family := UInt32.ofNat (value ((bs.drop 16).take 4))
  port := UInt32.ofNat (value ((bs.drop 20).take 4))
  address := (bs.drop 24).take 16

/-- The destination with its address in memory order. -/
def Destination.view (d : Destination) : GoDestination :=
  ⟨d.cookie, d.created, d.family, d.port, d.address.bytes⟩

/-! ## Layout facts -/

@[simp] theorem word_length (x : UInt32) : (word x).length = 4 := by simp [word]

@[simp] theorem words_length (w : Words) : w.bytes.length = 16 := by simp [Words.bytes]

theorem word_injective {x y : UInt32} (h : word x = word y) : x = y :=
  UInt32.toNat_inj.mp (bytes_injective (n := 4) x.toNat_lt y.toNat_lt h)

theorem bytes8_injective {x y : UInt64}
    (h : LittleEndian.bytes 8 x.toNat = LittleEndian.bytes 8 y.toNat) : x = y :=
  UInt64.toNat_inj.mp (bytes_injective (n := 8) x.toNat_lt y.toNat_lt h)

theorem loadWord_toNat {bs : Bytes} (h : bs.length = 4) : (loadWord bs).toNat = value bs := by
  have hlt := value_lt bs
  rw [h] at hlt
  exact UInt32.toNat_ofNat_of_lt' hlt

theorem word_loadWord {bs : Bytes} (h : bs.length = 4) : word (loadWord bs) = bs := by
  rw [word, loadWord_toNat h, bytes_value_of_length h]

theorem ntohl_loadWord {bs : Bytes} (h : bs.length = 4) :
    ntohl (loadWord bs) = loadWord bs.reverse := by
  rw [ntohl, loadWord_toNat h, swap_value h, loadWord]

theorem loadWords_bytes {bs : Bytes} (h : bs.length = 16) : (loadWords bs).bytes = bs := by
  simp only [loadWords, Words.bytes]
  rw [word_loadWord (by simp [h]), word_loadWord (by simp [h]), word_loadWord (by simp [h]),
    word_loadWord (by simp [h])]
  have h8 : bs.drop 8 = (bs.drop 4).drop 4 := by rw [List.drop_drop]
  have h12 : bs.drop 12 = (bs.drop 8).drop 4 := by rw [List.drop_drop]
  rw [h12, List.append_assoc, List.append_assoc, List.take_append_drop, h8,
    List.take_append_drop, List.take_append_drop]

theorem ntohl_remotePort (p : UInt16) :
    ntohl (loadWord ([0, 0] ++ (LittleEndian.bytes 2 p.toNat).reverse)) = p.toUInt32 := by
  have hvalue : value (LittleEndian.bytes 2 p.toNat ++ [0, 0]) = p.toNat := by
    have hb := value_bytes (n := 2) p.toNat_lt
    simpa [LittleEndian.bytes, value] using hb
  rw [ntohl_loadWord (by simp)]
  apply UInt32.toNat_inj.mp
  rw [loadWord_toNat (by simp)]
  simpa using hvalue

/-- The worker reads exactly the fields that the program wrote. -/
theorem ofBytes_bytes (d : Destination) : GoDestination.ofBytes d.bytes = d.view := by
  have h8 : ∀ x : UInt64, UInt64.ofNat (value (LittleEndian.bytes 8 x.toNat)) = x := by
    intro x
    rw [value_bytes (n := 8) x.toNat_lt, UInt64.ofNat_toNat]
  have h4 : ∀ x : UInt32, UInt32.ofNat (value (word x)) = x := by
    intro x
    rw [word, value_bytes (n := 4) x.toNat_lt, UInt32.ofNat_toNat]
  simp [GoDestination.ofBytes, Destination.view, Destination.bytes,
    List.drop_append, List.drop_of_length_le, List.take_of_length_le, h8, h4]

/-! ## Equal keys, equal tuples -/

/-- The family of a tuple and the bytes of its address, as the worker fills them in. -/
def Source.family : Source → UInt32
  | .v4 _ => 2
  | .v6 _ => 10

def Source.padded : Source → Bytes
  | .v4 address => address.toList ++ List.replicate 12 0
  | .v6 address => address.toList

def Tuple.goKey (t : Tuple) : GoKey :=
  ⟨t.netns, t.source.family, t.sourcePort.toUInt32, t.proxyPort.toUInt32, 0, t.source.padded⟩

theorem to4_v4 {address : List.Vector UInt8 4} {ip : Bytes}
    (h : ip = address.toList ∨ ip = mappedHead ++ address.toList) :
    to4 ip = some address.toList := by
  rcases h with rfl | rfl
  · simp [to4]
  · simp [to4, mappedHead]

theorem fill_of_length {bs : Bytes} (h : bs.length ≤ 16) :
    fill bs = bs ++ List.replicate (16 - bs.length) 0 := by
  rw [fill, List.take_append, List.take_of_length_le h, List.take_replicate]
  simp

/-- The key of the worker is the one of the tuple. -/
theorem connectionIdentity_goKey {c : AcceptedConn} {t : Tuple} {k : GoKey}
    (hc : c.Mirrors t) (hwire : t.source.onWire = true) (h : connectionIdentity c = .ok k) :
    k = t.goKey := by
  obtain ⟨hnetns, hremote, hlocal, hip⟩ := hc
  unfold connectionIdentity at h
  split at h
  · cases h
  rename_i netns hn
  rw [hnetns netns hn, hremote, hlocal] at h
  cases hs : t.source with
  | v4 address =>
    rw [hs] at hip
    rw [to4_v4 hip] at h
    cases h
    simp [Tuple.goKey, hs, Source.family, Source.padded, fill_of_length]
  | v6 address =>
    rw [hs] at hip hwire
    have hto4 : to4 c.remoteIP = none := by
      have hne : address.toList.take 12 ≠ mappedHead := by simpa [Source.onWire] using hwire
      simp [to4, hip, hne]
    rw [hto4, hip] at h
    cases h
    simp [Tuple.goKey, hs, Source.family, Source.padded, fill_of_length]

/-- The program published this key while the socket had tuple `t`. -/
def Published (k : ConnectionKey) (t : Tuple) : Prop :=
  ∃ old : ConnectionKey, k = old.publish (t.sockOps .activeEstablished)

theorem publish_publish (k : ConnectionKey) (ctx : SockOps) :
    (k.publish ctx).publish ctx = k.publish ctx := by
  unfold ConnectionKey.publish
  dsimp only
  split <;> rfl

theorem port_injective {p q : UInt16} (h : p.toUInt32 = q.toUInt32) : p = q :=
  UInt16.toNat_inj.mp (by simpa using congrArg UInt32.toNat h)

/-- The source of a published key, from its family and its bytes. -/
theorem published_source {old : ConnectionKey} {s t : Tuple}
    (hfamily : (s.sockOps .activeEstablished).family = t.source.family)
    (hsource : (old.publish (s.sockOps .activeEstablished)).source.bytes = t.source.padded) :
    s.source = t.source := by
  cases hs : s.source with
  | v4 a =>
    cases ht : t.source with
    | v4 b =>
      simp only [ConnectionKey.publish, Tuple.sockOps, hs, ht, Source.padded, Words.bytes, if_true,
        List.append_assoc] at hsource
      rw [word_loadWord (by simp)] at hsource
      have hab := (List.append_inj hsource (by simp)).1
      rw [List.Vector.toList_injective hab]
    | v6 b =>
      simp only [Tuple.sockOps, hs, ht, Source.family] at hfamily
      exact absurd hfamily (by decide)
  | v6 a =>
    cases ht : t.source with
    | v4 b =>
      simp only [Tuple.sockOps, hs, ht, Source.family] at hfamily
      exact absurd hfamily (by decide)
    | v6 b =>
      have hne : afInet6 ≠ afInet := by decide
      simp only [ConnectionKey.publish, Tuple.sockOps, hs, ht, Source.padded, if_neg hne] at hsource
      rw [loadWords_bytes (by simp)] at hsource
      rw [List.Vector.toList_injective hsource]

/-- A published key with the bytes of a worker key belongs to the same tuple. -/
theorem published_bytes {k : ConnectionKey} {s t : Tuple} (hk : Published k s)
    (h : k.bytes = t.goKey.bytes) : s = t := by
  obtain ⟨old, rfl⟩ := hk
  simp only [ConnectionKey.bytes, GoKey.bytes, Tuple.goKey] at h
  obtain ⟨h, hsource⟩ := List.append_inj h (by simp)
  obtain ⟨h, -⟩ := List.append_inj h (by simp)
  obtain ⟨h, hproxy⟩ := List.append_inj h (by simp)
  obtain ⟨h, hport⟩ := List.append_inj h (by simp)
  obtain ⟨hnetns, hfamily⟩ := List.append_inj h (by simp)
  have hnetns : s.netns = t.netns := bytes8_injective hnetns
  have hport : s.sourcePort = t.sourcePort := port_injective (word_injective hport)
  have hproxy : s.proxyPort = t.proxyPort := by
    have := word_injective hproxy
    simp only [ConnectionKey.publish, Tuple.sockOps, ntohl_remotePort] at this
    exact port_injective this
  have hsource := published_source (word_injective hfamily) hsource
  obtain ⟨sn, ss, sp, sq⟩ := s
  obtain ⟨tn, ts, tp, tq⟩ := t
  simp only at hnetns hport hproxy hsource
  rw [hnetns, hport, hproxy, hsource]

end RealmFormal.Agent

import RealmFormal.Go.Bytes

/-!
# IP addresses in text

`netip.ParseAddr` and the address predicates of `net/netip`, `net.SplitHostPort`
and `net.JoinHostPort`.
-/

namespace Go.Netip
set_option autoImplicit false

/-- A valid `netip.Addr`: four or sixteen bytes, and a zone for IPv6 only. -/
inductive Addr where
  | v4 (bytes : List.Vector UInt8 4)
  | v6 (bytes : List.Vector UInt8 16) (zone : Bytes)
  deriving DecidableEq

/-- One decimal octet: at most 255 and without a leading zero. -/
def parseOctet (s : Bytes) : Option UInt8 :=
  if 1 < s.length ∧ s.head? = some (chr '0') then none
  else (digitsValue s).bind fun v => if v ≤ 255 then some (UInt8.ofNat v) else none

def parseIPv4Fields (s : Bytes) : Option (List.Vector UInt8 4) :=
  match (split s (chr '.')).mapM parseOctet with
  | some [a, b, c, d] => some ⟨[a, b, c, d], rfl⟩
  | _ => none

def isHex (b : UInt8) : Bool :=
  isDigit b || decide (97 ≤ b.toNat ∧ b.toNat ≤ 102) || decide (65 ≤ b.toNat ∧ b.toNat ≤ 70)

def hexValue (b : UInt8) : Nat :=
  if isDigit b then b.toNat - 48 else if 97 ≤ b.toNat then b.toNat - 87 else b.toNat - 55

/-- The sixteen bytes read so far and the position of `::` among them. -/
structure Groups where
  bytes : Bytes
  ellipsis : Option Nat

/-- The loop of `parseIPv6`; the first argument bounds the groups left to read. -/
def parseGroups : Nat → Groups → Bytes → Option (Groups × Bytes)
  | 0, g, s => some (g, s)
  | n + 1, g, s =>
    let ds := s.takeWhile isHex
    let rest := s.dropWhile isHex
    if ds = [] ∨ 4 < ds.length then none
    else if rest.head? = some (chr '.') then
      if g.ellipsis = none ∧ g.bytes.length ≠ 12 then none
      else if 16 < g.bytes.length + 4 then none
      else (parseIPv4Fields s).map fun v => (⟨g.bytes ++ v.toList, g.ellipsis⟩, [])
    else
      let acc := ds.foldl (fun v b => v * 16 + hexValue b) 0
      let bytes := g.bytes ++ [UInt8.ofNat (acc / 256), UInt8.ofNat acc]
      match rest with
      | [] => some (⟨bytes, g.ellipsis⟩, [])
      | [_] => none
      | c :: d :: t =>
        if c ≠ chr ':' then none
        else if d = chr ':' then
          if g.ellipsis ≠ none then none
          else if t = [] then some (⟨bytes, some bytes.length⟩, [])
          else parseGroups n ⟨bytes, some bytes.length⟩ t
        else parseGroups n ⟨bytes, g.ellipsis⟩ (d :: t)

/-- Expands `::`, which must stand for at least one group. -/
def expandGroups (g : Groups) : Option (List.Vector UInt8 16) :=
  let bytes :=
    match g.ellipsis with
    | none => g.bytes
    | some e => g.bytes.take e ++ List.replicate (16 - g.bytes.length) 0 ++ g.bytes.drop e
  if g.ellipsis ≠ none ∧ 16 ≤ g.bytes.length then none
  else if h : bytes.length = 16 then some ⟨bytes, h⟩ else none

def parseIPv6 (s : Bytes) : Option Addr :=
  let body := s.takeWhile fun b => decide (b ≠ chr '%')
  let zone := (s.dropWhile fun b => decide (b ≠ chr '%')).drop 1
  if chr '%' ∈ s ∧ zone = [] then none
  else
    let start : Groups × Bytes :=
      if hasPrefix body (str "::") then (⟨[], some 0⟩, body.drop 2) else (⟨[], none⟩, body)
    if start.2 = [] ∧ start.1.ellipsis ≠ none then
      (expandGroups start.1).map fun v => .v6 v zone
    else
      (parseGroups 8 start.1 start.2).bind fun r =>
        if r.2 = [] then (expandGroups r.1).map fun v => .v6 v zone else none

def parseAddr (s : Bytes) : Option Addr :=
  match s.find? fun b => decide (b = chr '.' ∨ b = chr ':' ∨ b = chr '%') with
  | none => none
  | some b =>
    if b = chr '.' then (parseIPv4Fields s).map .v4
    else if b = chr ':' then parseIPv6 s
    else none

def Addr.bytes : Addr → Bytes
  | .v4 b => b.toList
  | .v6 b _ => b.toList

def Addr.zone : Addr → Bytes
  | .v4 _ => []
  | .v6 _ z => z

def Addr.is4 : Addr → Bool
  | .v4 _ => true
  | .v6 _ _ => false

/-- A mapped address is an IPv6 address. -/
def Addr.is6 : Addr → Bool
  | .v4 _ => false
  | .v6 _ _ => true

def mappedPrefix : Bytes := List.replicate 10 0 ++ [0xFF, 0xFF]

def Addr.is4In6 : Addr → Bool
  | .v4 _ => false
  | .v6 b _ => hasPrefix b.toList mappedPrefix

/-- The bytes the predicates below look at: a mapped address counts as IPv4. -/
def Addr.unmapped (a : Addr) : Bytes := if a.is4In6 then a.bytes.drop 12 else a.bytes

def Addr.isLoopback (a : Addr) : Bool :=
  match a.unmapped with
  | [x, _, _, _] => decide (x = 127)
  | bs => decide (bs = List.replicate 15 0 ++ [1])

def Addr.isMulticast (a : Addr) : Bool :=
  match a.unmapped with
  | [x, _, _, _] => decide (224 ≤ x.toNat ∧ x.toNat < 240)
  | bs => decide (bs.head? = some 0xFF)

def Addr.isLinkLocalUnicast (a : Addr) : Bool :=
  match a.unmapped with
  | [x, y, _, _] => decide (x = 169 ∧ y = 254)
  | x :: y :: _ => decide (x = 0xFE ∧ 0x80 ≤ y.toNat ∧ y.toNat < 0xC0)
  | _ => false

def Addr.isGlobalUnicast (a : Addr) : Bool :=
  !(a.is4 && (decide (a.bytes = [0, 0, 0, 0]) || decide (a.bytes = [255, 255, 255, 255]))) &&
    !(decide (a.bytes = List.replicate 16 0 ∧ a.zone = [])) &&
    !a.isLoopback && !a.isMulticast && !a.isLinkLocalUnicast

/-- The text before the last occurrence of `b`, and the text after it. -/
def cutLast (s : Bytes) (b : UInt8) : Option (Bytes × Bytes) :=
  if b ∈ s then
    let tail := (s.reverse.takeWhile fun c => decide (c ≠ b)).reverse
    some (s.take (s.length - tail.length - 1), tail)
  else none

/-- `strconv.Atoi`. -/
def atoi (s : Bytes) : Option Int := parseInt64 s

/-- `Addr.BitLen`. -/
def Addr.bitLen (a : Addr) : Nat := if a.is4 then 32 else 128

/-- A valid `netip.Prefix`. -/
structure Prefix where
  addr : Addr
  bits : Nat
  bits_le : bits ≤ addr.bitLen
  zone_nil : addr.zone = []

/-- `netip.ParsePrefix`. A sign and leading zeros are refused before `Atoi` sees them. -/
def parsePrefix (s : Bytes) : Option Prefix :=
  (cutLast s (chr '/')).bind fun r =>
    (parseAddr r.1).bind fun addr =>
      if 1 < r.2.length ∧ ¬ (r.2.head?.any fun b => decide (49 ≤ b.toNat ∧ b.toNat ≤ 57)) then none
      else
        (atoi r.2).bind fun bits =>
          if h : bits.toNat ≤ addr.bitLen ∧ 0 ≤ bits ∧ addr.zone = [] then
            some ⟨addr, bits.toNat, h.1, h.2.2⟩
          else none

/-- The address as a number, first byte highest. -/
def Addr.number (a : Addr) : Nat := a.bytes.foldl (fun n b => n * 256 + b.toNat) 0

/-- `Prefix.Contains`: same family, no zone, and equal leading bits. -/
def Prefix.contains (p : Prefix) (a : Addr) : Bool :=
  decide (a.zone = [] ∧ p.addr.bitLen = a.bitLen ∧
    a.number / 2 ^ (a.bitLen - p.bits) = p.addr.number / 2 ^ (a.bitLen - p.bits))

/-- `Prefix.Masked`: the family, the address without its host bits, and the length. -/
def Prefix.masked (p : Prefix) : Nat × Nat × Nat :=
  (p.addr.bitLen,
    p.addr.number / 2 ^ (p.addr.bitLen - p.bits) * 2 ^ (p.addr.bitLen - p.bits), p.bits)

/-- Prefixes of one length that contain one address have the same masked form. -/
theorem Prefix.masked_eq {p q : Prefix} {a : Addr} (hp : p.contains a = true)
    (hq : q.contains a = true) (hbits : p.bits = q.bits) : p.masked = q.masked := by
  simp only [Prefix.contains, decide_eq_true_eq] at hp hq
  obtain ⟨-, hpLen, hpBits⟩ := hp
  obtain ⟨-, hqLen, hqBits⟩ := hq
  rw [hbits] at hpBits
  simp only [Prefix.masked, hpLen, hqLen, hbits, ← hpBits, ← hqBits]

/-- `Addr.Unmap`, which also drops the zone of a mapped address. -/
def Addr.unmap : Addr → Addr
  | .v4 b => .v4 b
  | .v6 b zone => if hasPrefix b.toList mappedPrefix then .v4 (b.drop 12) else .v6 b zone

/-- The IPv4-mapped form of an IPv4 address. -/
def mapped (a : List.Vector UInt8 4) : Addr :=
  .v6 ⟨mappedPrefix ++ a.toList, by simp [mappedPrefix]⟩ []

theorem unmap_mapped (a : List.Vector UInt8 4) : (mapped a).unmap = .v4 a := by
  simp only [mapped, Addr.unmap, List.Vector.toList_mk, hasPrefix_append, if_true]
  congr 1

/-- `netip.AddrPort`. -/
structure AddrPort where
  addr : Addr
  port : UInt16
  deriving DecidableEq

/-- `net.SplitHostPort`. -/
def splitHostPort (s : Bytes) : Option (Bytes × Bytes) :=
  (cutLast s (chr ':')).bind fun hp =>
    if s.head? = some (chr '[') then
      let host := (s.drop 1).takeWhile fun c => decide (c ≠ chr ']')
      if hp.1 ≠ chr '[' :: (host ++ [chr ']']) ∨ chr '[' ∈ host ∨ chr '[' ∈ hp.2 ∨ chr ']' ∈ hp.2 then
        none
      else some (host, hp.2)
    else if chr ':' ∈ hp.1 ∨ chr '[' ∈ s ∨ chr ']' ∈ s then none
    else some hp

/-- `net.JoinHostPort` with a decimal port. -/
def joinHostPort (host : Bytes) (port : Int) : Bytes :=
  if chr ':' ∈ host then chr '[' :: host ++ str "]:" ++ itoa port
  else host ++ chr ':' :: itoa port

end Go.Netip

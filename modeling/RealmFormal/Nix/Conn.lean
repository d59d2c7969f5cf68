import RealmFormal.Go.Bytes
import RealmFormal.Lib.Cantor
import RealmFormal.Lib.Table

/-!
# Tunnel ports

`lib/conn.nix` gives every link between two nodes of the registry a port, from the
ids of the nodes. `mod/phantun.nix` starts a tunnel for the links of its host that
need one. An attribute set is a table whose values may be errors: evaluation is
lazy, so an error in one value leaves the others alone. The integers of the
evaluator have 64 bits, and an operation that leaves the range throws, as it does
since Nix 2.25.
-/

namespace RealmFormal.Nix.Conn
open Go
set_option autoImplicit false

/-! ## Integers -/

def minInt : Int := -9223372036854775808

def maxInt : Int := 9223372036854775807

structure Integer where
  val : Int
  fits : minInt ≤ val ∧ val ≤ maxInt
  deriving DecidableEq

inductive EvalError where
  | overflow
  | thrown (message : Bytes)
  | missing (name : Bytes)
  deriving DecidableEq

abbrev Eval (α : Type) := Except EvalError α

/-- The result of an operation, if it is in the range. -/
def checked (n : Int) : Eval Integer :=
  if h : minInt ≤ n ∧ n ≤ maxInt then .ok ⟨n, h⟩ else .error .overflow

def Integer.add (x y : Integer) : Eval Integer := checked (x.val + y.val)

def Integer.mul (x y : Integer) : Eval Integer := checked (x.val * y.val)

/-- Division rounds towards zero. -/
def Integer.div (x y : Integer) : Eval Integer := checked (x.val.tdiv y.val)

def one : Integer := ⟨1, by decide⟩

def two : Integer := ⟨2, by decide⟩

/-! ## Attribute sets -/

section Attrs
variable {K : Type} {V W : Type}

def attrNames (t : Table K V) : List K := t.entries.map Prod.fst

def mapAttrs (f : K → V → W) (t : Table K V) : Table K W :=
  ⟨t.entries.map fun e => (e.1, f e.1 e.2), by
    rw [List.map_map]
    exact t.distinct⟩

/-- Of two entries with one name the first counts. -/
def listToAttrs [DecidableEq K] (l : List (K × V)) : Table K V :=
  l.foldr (fun e t => t.put e.1 e.2) .empty

theorem mem_attrNames_iff [DecidableEq K] {t : Table K V} {k : K} :
    k ∈ attrNames t ↔ ∃ v, t.get k = some v := by
  simp [attrNames, Table.get_eq_some_iff]

theorem get_mapAttrs [DecidableEq K] (f : K → V → W) (t : Table K V) (k : K) :
    (mapAttrs f t).get k = (t.get k).map (f k) := by
  rw [mapAttrs, Table.get, Table.get, List.find?_map, Option.map_map, Option.map_map]
  show Option.map _ (List.find? (fun e => decide (e.1 = k)) t.entries) = _
  cases hfind : t.entries.find? (fun e => decide (e.1 = k)) with
  | none => rfl
  | some e =>
    have hkey : e.1 = k := by simpa using List.find?_some hfind
    simp [hkey]

/-- A list that has `g k` for every name `k`. -/
theorem get_listToAttrs_map [DecidableEq K] (g : K → V) (keys : List K) (k : K) :
    (listToAttrs (keys.map fun key => (key, g key))).get k =
      if k ∈ keys then some (g k) else none := by
  induction keys with
  | nil => rfl
  | cons key keys ih =>
    show ((listToAttrs (keys.map fun key => (key, g key))).put key (g key)).get k = _
    rw [Table.get_put, ih]
    by_cases hk : k = key
    · subst hk
      simp
    · simp [hk]

end Attrs

/-! ## Connections -/

inductive Value where
  | int (n : Integer)
  | other
  deriving DecidableEq

/-- A node of the registry, as far as ports and tunnels depend on it. -/
structure Node where
  id : Option Value
  nat : Bool
  censor : Bool
  deriving DecidableEq

abbrev Nodes := Table Bytes Node

/-- `validateNode`, followed by the selection of `id` with which its result is used. -/
def validateNode (name : Bytes) (node : Node) : Eval Integer :=
  match node.id with
  | none => .error (.thrown (name ++ str " no id"))
  | some .other => .error (.thrown (name ++ str ".id must int"))
  | some (.int n) => .ok n

/-- The `index` of `cantorPort`. -/
def cantorIndex (a b : Integer) : Eval Integer := do
  let sum ← a.add b
  let next ← sum.add one
  let product ← sum.mul next
  let half ← product.div two
  half.add b

def cantorPort (i j basePort : Integer) : Eval Integer := do
  let a := if i.val ≤ j.val then i else j
  let b := if i.val ≤ j.val then j else i
  let index ← cantorIndex a b
  basePort.add index

/-- The port of the link from a node with the validated `id` to `peerName`. -/
def port (nodes : Nodes) (basePort : Integer) (id : Eval Integer) (peerName : Bytes) :
    Eval Integer := do
  let i ← id
  let j ← ((nodes.get peerName).elim (.error (.missing peerName)) (validateNode peerName))
  cantorPort i j basePort

def genConn (nodes : Nodes) (basePort : Integer) (name : Bytes) (id : Eval Integer) :
    Table Bytes (Eval Integer) :=
  listToAttrs ((attrNames nodes).filterMap fun peerName =>
    if peerName ≠ name then some (peerName, port nodes basePort id peerName) else none)

def conn (nodes : Nodes) (basePort : Integer) : Table Bytes (Table Bytes (Eval Integer)) :=
  mapAttrs (fun name node => genConn nodes basePort name (validateNode name node)) nodes

def defaultBasePort : Integer := ⟨51800, by decide⟩

/-- `(conn nodes basePort).${name}.${peerName}`, or `none` where there is no such attribute. -/
def link (nodes : Nodes) (basePort : Integer) (name peerName : Bytes) : Option (Eval Integer) :=
  ((conn nodes basePort).get name).bind fun row => row.get peerName

def directConnect (thisNode peerNode : Node) : Bool :=
  (thisNode.nat && peerNode.nat) || (thisNode.censor == peerNode.censor)

/-- The links of a host that go through a tunnel. -/
def connThrouTunnel (nodes : Nodes) (hostName : Bytes) : Option (Table Bytes (Eval Integer)) := do
  let thisConn ← (conn nodes defaultBasePort).get hostName
  let thisNode ← nodes.get hostName
  return thisConn.keep fun k _ =>
    (nodes.get k).elim true fun peerNode => !directConnect thisNode peerNode

/-! ## The port of two ids -/

section Port
variable {m n : Nat} {a b i j basePort : Integer}

theorem checked_of_fits {n : Int} (h : minInt ≤ n ∧ n ≤ maxInt) : checked n = .ok ⟨n, h⟩ :=
  dif_pos h

theorem checked_of_gt {n : Int} (h : maxInt < n) : checked n = .error .overflow :=
  dif_neg fun hfits => Int.not_le.mpr h hfits.2

/-- A natural number is out of the range only at the upper end. -/
theorem checked_natCast {n : Nat} (h : (n : Int) ≤ maxInt) :
    checked n = .ok ⟨n, Int.le_trans (by decide) (Int.natCast_nonneg n), h⟩ :=
  checked_of_fits _

theorem checked_eq_ok_iff {n : Int} {x : Integer} : checked n = .ok x ↔ x.val = n := by
  constructor
  · intro h
    unfold checked at h
    split at h
    · cases h
      rfl
    · cases h
  · intro h
    subst h
    exact checked_of_fits x.fits

theorem ok_bind {α β : Type} (x : α) (f : α → Eval β) : ((.ok x : Eval α) >>= f) = f x := rfl

theorem error_bind {α β : Type} (e : EvalError) (f : α → Eval β) :
    ((.error e : Eval α) >>= f) = .error e := rfl

/-- The evaluation throws at the sum or at the product, or gives the pairing. -/
theorem cantorIndex_eq (ha : a.val = m) (hb : b.val = n) :
    cantorIndex a b =
      if (((m + n) * (m + n + 1) : Nat) : Int) ≤ maxInt then checked (Cantor.pair m n)
      else .error .overflow := by
  have hsum : a.add b = checked ((m + n : Nat) : Int) := by
    rw [Integer.add, ha, hb, Int.natCast_add]
  by_cases hfits : ((m + n : Nat) : Int) + 1 ≤ maxInt
  · have hnext : (((m + n : Nat) : Int) + one.val) = ((m + n + 1 : Nat) : Int) := rfl
    have hproduct : ((m + n : Nat) : Int) * ((m + n + 1 : Nat) : Int) =
        (((m + n) * (m + n + 1) : Nat) : Int) := (Int.natCast_mul _ _).symm
    rw [cantorIndex, hsum, checked_natCast (by omega), ok_bind, Integer.add, hnext,
      checked_natCast hfits, ok_bind, Integer.mul, hproduct]
    split
    · rename_i hle
      have hhalf : (((m + n) * (m + n + 1) : Nat) : Int).tdiv two.val =
          (((m + n) * (m + n + 1) / 2 : Nat) : Int) := rfl
      rw [checked_natCast hle, ok_bind, Integer.div, hhalf, checked_natCast (by omega), ok_bind,
        Integer.add, hb, ← Int.natCast_add, Cantor.pair]
    · rename_i hgt
      rw [checked_of_gt (by omega), error_bind]
  · -- the sum is the last element of the range, or past it
    have hproduct : m + n + 1 ≤ (m + n) * (m + n + 1) := by
      refine Nat.le_mul_of_pos_left _ ?_
      simp only [maxInt] at hfits
      omega
    rw [if_neg (by omega), cantorIndex, hsum]
    by_cases hlast : ((m + n : Nat) : Int) ≤ maxInt
    · rw [checked_natCast hlast, ok_bind, Integer.add, checked_of_gt (by simpa [one] using hfits),
        error_bind]
    · rw [checked_of_gt (by omega), error_bind]

/-- The number of the unordered pair of two ids. -/
def pairIndex (m n : Nat) : Nat := Cantor.pair (min m n) (max m n)

theorem pairIndex_comm (m n : Nat) : pairIndex m n = pairIndex n m := by
  rw [pairIndex, pairIndex, min_comm, max_comm]

/-- What `cantorPort` gives for two ids. -/
def portOf (m n : Nat) (basePort : Integer) : Eval Integer :=
  if (((m + n) * (m + n + 1) : Nat) : Int) ≤ maxInt then checked (basePort.val + pairIndex m n)
  else .error .overflow

theorem cantorPort_eq (hi : i.val = m) (hj : j.val = n) :
    cantorPort i j basePort = portOf m n basePort := by
  have hindex : cantorIndex (if i.val ≤ j.val then i else j) (if i.val ≤ j.val then j else i) =
      if (((m + n) * (m + n + 1) : Nat) : Int) ≤ maxInt then checked (pairIndex m n)
      else .error .overflow := by
    rcases Nat.le_total m n with hle | hle
    · have hij : i.val ≤ j.val := by omega
      rw [if_pos hij, if_pos hij, cantorIndex_eq hi hj, pairIndex, min_eq_left hle,
        max_eq_right hle]
    · rw [pairIndex, min_eq_right hle, max_eq_left hle, Nat.add_comm m n]
      rcases Nat.lt_or_eq_of_le hle with hlt | heq
      · have hij : ¬ i.val ≤ j.val := by omega
        rw [if_neg hij, if_neg hij, cantorIndex_eq hj hi]
      · have hij : i.val ≤ j.val := by omega
        rw [if_pos hij, if_pos hij, cantorIndex_eq hi hj, heq]
  rw [cantorPort, hindex, portOf]
  split
  · rename_i hfits
    have hpair : ((pairIndex m n : Nat) : Int) ≤ maxInt := by
      have hle := Cantor.pair_le_mul (min m n) (max m n)
      rw [min_add_max] at hle
      exact Int.le_trans (Int.ofNat_le.mpr hle) hfits
    rw [checked_natCast hpair, ok_bind, Integer.add]
  · exact error_bind _ _

theorem portOf_comm (m n : Nat) (basePort : Integer) : portOf m n basePort = portOf n m basePort := by
  rw [portOf, portOf, pairIndex_comm, Nat.add_comm m n]

/-- The product of the pairing and the port are in the range. -/
def Fits (m n : Nat) (basePort : Integer) : Prop :=
  (((m + n) * (m + n + 1) : Nat) : Int) ≤ maxInt ∧ basePort.val + pairIndex m n ≤ maxInt

/-- A port is not below the base port. -/
theorem Fits.port_fits (h : Fits m n basePort) :
    minInt ≤ basePort.val + pairIndex m n ∧ basePort.val + pairIndex m n ≤ maxInt :=
  ⟨Int.le_trans basePort.fits.1 (Int.le_add_of_nonneg_right (Int.natCast_nonneg _)), h.2⟩

theorem portOf_eq_ok_iff {p : Integer} :
    portOf m n basePort = .ok p ↔ Fits m n basePort ∧ p.val = basePort.val + pairIndex m n := by
  rw [portOf, Fits]
  split
  · rename_i hfits
    rw [checked_eq_ok_iff]
    constructor
    · intro hp
      refine ⟨⟨hfits, ?_⟩, hp⟩
      rw [← hp]
      exact p.fits.2
    · rintro ⟨-, hp⟩
      exact hp
  · rename_i hgt
    constructor
    · intro h
      cases h
    · rintro ⟨⟨hfits, -⟩, -⟩
      exact absurd hfits hgt

theorem portOf_of_not_fits (h : ¬ Fits m n basePort) : portOf m n basePort = .error .overflow := by
  rw [portOf]
  split
  · rename_i hproduct
    exact checked_of_gt (Int.not_le.mp fun hport => h ⟨hproduct, hport⟩)
  · rfl

end Port

/-! ## The table -/

/-- The id of a node, if it is a nonnegative integer. -/
def Node.number (node : Node) : Option Nat :=
  match node.id with
  | some (.int n) => if 0 ≤ n.val then some n.val.toNat else none
  | _ => none

/-- Every node has a nonnegative integer as its id, and no two the same. -/
structure Registered (nodes : Nodes) : Prop where
  numbered : nodes.entries.all (fun e => e.2.number.isSome) = true
  distinct : (nodes.entries.map fun e => e.2.number).Nodup

def number (nodes : Nodes) (name : Bytes) : Nat :=
  ((nodes.get name).bind Node.number).getD 0

section Table
variable {nodes : Nodes} {basePort : Integer} {name peerName : Bytes} {node peerNode : Node}

theorem validateNode_of_number {m : Nat} (h : node.number = some m) :
    ∃ i : Integer, validateNode name node = .ok i ∧ i.val = m := by
  unfold Node.number at h
  split at h
  · rename_i n hid
    obtain ⟨hnonneg, heq⟩ := Option.ite_none_right_eq_some.mp h
    refine ⟨n, ?_, ?_⟩
    · rw [validateNode, hid]
    · cases heq
      exact (Int.toNat_of_nonneg hnonneg).symm
  · cases h

theorem Registered.number_of_get (h : Registered nodes) (hnode : nodes.get name = some node) :
    node.number = some (number nodes name) := by
  have hsome := List.all_eq_true.mp h.numbered _ (Table.get_eq_some_iff.mp hnode)
  obtain ⟨m, hm⟩ := Option.isSome_iff_exists.mp hsome
  rw [number, hnode, Option.bind_some, hm, Option.getD_some]

theorem Registered.validate (h : Registered nodes) (hnode : nodes.get name = some node) :
    ∃ i : Integer, validateNode name node = .ok i ∧ i.val = number nodes name :=
  validateNode_of_number (h.number_of_get hnode)

/-- Different nodes have different ids. -/
theorem Registered.number_inj (h : Registered nodes) (hnode : nodes.get name = some node)
    (hpeer : nodes.get peerName = some peerNode)
    (hsame : number nodes name = number nodes peerName) : name = peerName := by
  have heq : node.number = peerNode.number := by
    rw [h.number_of_get hnode, h.number_of_get hpeer, hsame]
  have hentry := List.inj_on_of_nodup_map h.distinct (Table.get_eq_some_iff.mp hnode)
    (Table.get_eq_some_iff.mp hpeer) heq
  exact congrArg Prod.fst hentry

/-- The row of a node has an entry for every other node. -/
theorem get_genConn (id : Eval Integer) :
    (genConn nodes basePort name id).get peerName =
      if peerName ∈ attrNames nodes ∧ peerName ≠ name then some (port nodes basePort id peerName)
      else none := by
  have hlist : ((attrNames nodes).filterMap fun peerName =>
      if peerName ≠ name then some (peerName, port nodes basePort id peerName) else none) =
      ((attrNames nodes).filter fun peerName => decide (peerName ≠ name)).map fun peerName =>
        (peerName, port nodes basePort id peerName) := by
    rw [← List.filterMap_eq_map, List.filterMap_filter]
    simp
  rw [genConn, hlist, get_listToAttrs_map]
  simp

theorem link_eq (hnode : nodes.get name = some node) :
    link nodes basePort name peerName =
      if peerName ∈ attrNames nodes ∧ peerName ≠ name then
        some (port nodes basePort (validateNode name node) peerName)
      else none := by
  rw [link, conn, get_mapAttrs, hnode, Option.map_some, Option.bind_some, get_genConn]

theorem link_of_absent (hnode : nodes.get name = none) :
    link nodes basePort name peerName = none := by
  rw [link, conn, get_mapAttrs, hnode, Option.map_none, Option.bind_none]

/-- The link of two nodes, from their ids alone. -/
theorem Registered.link_eq_portOf (h : Registered nodes) (name peerName : Bytes) :
    link nodes basePort name peerName =
      if name ∈ attrNames nodes ∧ peerName ∈ attrNames nodes ∧ name ≠ peerName then
        some (portOf (number nodes name) (number nodes peerName) basePort)
      else none := by
  by_cases hname : name ∈ attrNames nodes
  · obtain ⟨node, hnode⟩ := mem_attrNames_iff.mp hname
    rw [link_eq hnode]
    by_cases hpeer : peerName ∈ attrNames nodes ∧ peerName ≠ name
    · obtain ⟨peerNode, hpeerNode⟩ := mem_attrNames_iff.mp hpeer.1
      obtain ⟨i, hi, hival⟩ := h.validate hnode
      obtain ⟨j, hj, hjval⟩ := h.validate hpeerNode
      rw [if_pos hpeer, if_pos ⟨hname, hpeer.1, Ne.symm hpeer.2⟩, hi, port, ok_bind, hpeerNode,
        Option.elim_some, hj, ok_bind, cantorPort_eq hival hjval]
    · rw [if_neg hpeer, if_neg]
      rintro ⟨-, hmem, hne⟩
      exact hpeer ⟨hmem, Ne.symm hne⟩
  · have habsent : nodes.get name = none := by
      rw [mem_attrNames_iff] at hname
      exact Option.eq_none_iff_forall_ne_some.mpr fun node hnode => hname ⟨node, hnode⟩
    rw [link_of_absent habsent, if_neg]
    rintro ⟨hmem, -⟩
    exact hname hmem

theorem Registered.link_comm (h : Registered nodes) (name peerName : Bytes) :
    link nodes basePort name peerName = link nodes basePort peerName name := by
  rw [h.link_eq_portOf, h.link_eq_portOf, portOf_comm]
  by_cases hlink : name ∈ attrNames nodes ∧ peerName ∈ attrNames nodes ∧ name ≠ peerName
  · rw [if_pos hlink, if_pos ⟨hlink.2.1, hlink.1, Ne.symm hlink.2.2⟩]
  · rw [if_neg hlink, if_neg]
    rintro ⟨hpeer, hname, hne⟩
    exact hlink ⟨hname, hpeer, Ne.symm hne⟩

theorem Registered.link_eq_ok_iff (h : Registered nodes) {p : Integer} :
    link nodes basePort name peerName = some (.ok p) ↔
      (name ∈ attrNames nodes ∧ peerName ∈ attrNames nodes ∧ name ≠ peerName) ∧
        Fits (number nodes name) (number nodes peerName) basePort ∧
        p.val = basePort.val + pairIndex (number nodes name) (number nodes peerName) := by
  rw [h.link_eq_portOf, Option.ite_none_right_eq_some, Option.some.injEq, portOf_eq_ok_iff]

theorem Registered.eq_of_number (h : Registered nodes) (hname : name ∈ attrNames nodes)
    (hpeer : peerName ∈ attrNames nodes) (hsame : number nodes name = number nodes peerName) :
    name = peerName := by
  obtain ⟨node, hnode⟩ := mem_attrNames_iff.mp hname
  obtain ⟨peerNode, hpeerNode⟩ := mem_attrNames_iff.mp hpeer
  exact h.number_inj hnode hpeerNode hsame

/-- One port belongs to one unordered pair. -/
theorem Registered.link_inj (h : Registered nodes) {a b c d : Bytes} {p : Integer}
    (hab : link nodes basePort a b = some (.ok p)) (hcd : link nodes basePort c d = some (.ok p)) :
    (a = c ∧ b = d) ∨ (a = d ∧ b = c) := by
  obtain ⟨⟨ha, hb, -⟩, -, hp⟩ := h.link_eq_ok_iff.mp hab
  obtain ⟨⟨hc, hd, -⟩, -, hq⟩ := h.link_eq_ok_iff.mp hcd
  have hindex : pairIndex (number nodes a) (number nodes b) =
      pairIndex (number nodes c) (number nodes d) := by omega
  rcases Cantor.pair_min_max_inj hindex with ⟨hac, hbd⟩ | ⟨had, hbc⟩
  · exact Or.inl ⟨h.eq_of_number ha hc hac, h.eq_of_number hb hd hbd⟩
  · exact Or.inr ⟨h.eq_of_number ha hd had, h.eq_of_number hb hc hbc⟩

theorem directConnect_comm (node peerNode : Node) :
    directConnect node peerNode = directConnect peerNode node := by
  rw [directConnect, directConnect, Bool.and_comm, Bool.beq_comm]

/-- The port of a tunnel is the port of its link. -/
theorem tunnel_eq (hnode : nodes.get name = some node) (hpeer : nodes.get peerName = some peerNode) :
    ((connThrouTunnel nodes name).bind fun t => t.get peerName) =
      if directConnect node peerNode then none else link nodes defaultBasePort name peerName := by
  rw [connThrouTunnel, link, conn, get_mapAttrs, hnode]
  show (Table.keep _ _).get peerName = _
  rw [Table.get_keep, hpeer, Option.elim_some]
  generalize directConnect node peerNode = direct
  cases direct with
  | true => simp
  | false =>
    show ((genConn nodes defaultBasePort name (validateNode name node)).get peerName).filter _ =
      (genConn nodes defaultBasePort name (validateNode name node)).get peerName
    cases (genConn nodes defaultBasePort name (validateNode name node)).get peerName with
    | none => rfl
    | some p => rfl

/-- Whether a link goes through a tunnel, and at which port, does not depend on the end. -/
theorem Registered.tunnel_comm (h : Registered nodes) (hname : name ∈ attrNames nodes)
    (hpeer : peerName ∈ attrNames nodes) :
    ((connThrouTunnel nodes name).bind fun t => t.get peerName) =
      (connThrouTunnel nodes peerName).bind fun t => t.get name := by
  obtain ⟨node, hnode⟩ := mem_attrNames_iff.mp hname
  obtain ⟨peerNode, hpeerNode⟩ := mem_attrNames_iff.mp hpeer
  rw [tunnel_eq hnode hpeerNode, tunnel_eq hpeerNode hnode, directConnect_comm, h.link_comm]

end Table

/-- The table has a link from every node to every other one and no more, the same from both ends,
and no port for two unordered pairs of nodes. A link has a port, the base port plus the number of
the pair, exactly when the arithmetic stays in the range; otherwise its evaluation throws. -/
theorem links_symmetric_and_apart {nodes : Nodes} (h : Registered nodes) (basePort : Integer) :
    (∀ a b, (link nodes basePort a b).isSome ↔
        a ∈ attrNames nodes ∧ b ∈ attrNames nodes ∧ a ≠ b) ∧
      (∀ a b, link nodes basePort a b = link nodes basePort b a) ∧
      (∀ a b, a ∈ attrNames nodes → b ∈ attrNames nodes → a ≠ b →
        ((∃ p, link nodes basePort a b = some (.ok p) ∧
            p.val = basePort.val + pairIndex (number nodes a) (number nodes b)) ↔
          Fits (number nodes a) (number nodes b) basePort)) ∧
      (∀ a b, a ∈ attrNames nodes → b ∈ attrNames nodes → a ≠ b →
        ¬ Fits (number nodes a) (number nodes b) basePort →
          link nodes basePort a b = some (.error .overflow)) ∧
      (∀ a b c d p, link nodes basePort a b = some (.ok p) →
        link nodes basePort c d = some (.ok p) → (a = c ∧ b = d) ∨ (a = d ∧ b = c)) ∧
      ∀ a b, a ∈ attrNames nodes → b ∈ attrNames nodes →
        ((connThrouTunnel nodes a).bind fun t => t.get b) =
          (connThrouTunnel nodes b).bind fun t => t.get a := by
  refine ⟨?_, h.link_comm, ?_, ?_, ?_, ?_⟩
  · intro a b
    rw [h.link_eq_portOf]
    simp
  · intro a b ha hb hne
    constructor
    · rintro ⟨p, hp, -⟩
      exact (h.link_eq_ok_iff.mp hp).2.1
    · intro hfits
      exact ⟨⟨_, hfits.port_fits⟩, h.link_eq_ok_iff.mpr ⟨⟨ha, hb, hne⟩, hfits, rfl⟩, rfl⟩
  · intro a b ha hb hne hover
    rw [h.link_eq_portOf, if_pos ⟨ha, hb, hne⟩, portOf_of_not_fits hover]
  · intro a b c d p hab hcd
    exact h.link_inj hab hcd
  · intro a b ha hb
    exact h.tunnel_comm ha hb

/-- Two nodes with the given ids, of which one is behind NAT. -/
def samplePair (i j : Integer) : Nodes :=
  ⟨[(str "a", ⟨some (.int i), true, true⟩), (str "b", ⟨some (.int j), false, false⟩)],
    show [str "a", str "b"].Nodup by decide⟩

theorem links_symmetric_and_apart_sample :
    Registered (samplePair one two) ∧
      link (samplePair one two) defaultBasePort (str "a") (str "b") =
        link (samplePair one two) defaultBasePort (str "b") (str "a") ∧
      link (samplePair one two) defaultBasePort (str "b") (str "a") =
        some (.ok ⟨51808, by decide⟩) :=
  have h : Registered (samplePair one two) := ⟨by decide, by decide⟩
  ⟨h, (links_symmetric_and_apart h defaultBasePort).2.1 _ _, by decide⟩

/-- An id for which the product leaves the range. -/
def largeId : Integer := ⟨4611686018427387904, by decide⟩

/-- Nodes with the ids `0` and `2 ^ 62` have no port. -/
theorem large_ids_no_port :
    Registered (samplePair ⟨0, by decide⟩ largeId) ∧
      link (samplePair ⟨0, by decide⟩ largeId) defaultBasePort (str "a") (str "b") =
        some (.error .overflow) :=
  ⟨⟨by decide, by decide⟩, by decide⟩

end RealmFormal.Nix.Conn

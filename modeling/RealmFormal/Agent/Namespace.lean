import RealmFormal.Go.Unmarshal
import RealmFormal.Lib.Interaction

/-!
# The network of a private namespace

`setupNetwork` lists the links, addresses and routes of a namespace, refuses one that
has a way out, and only then adds and configures the dummy `realm0`. The worker looks
at the same interfaces again, by their flags. A link is `lo` for the first check by
its name and for the second by its flag; `realm0` is a dummy for the first check only.
-/

namespace RealmFormal.Agent
open Go Go.Json Interaction
set_option autoImplicit false

/-! ## Listings -/

structure NamespaceLink where
  name : Bytes
  flags : List Bytes
  immutable : Bool
  kind : Bytes
  dataLocal : Bytes
  dataRemote : Bytes
  dataLink : Int
  deriving DecidableEq

structure NamespaceRoute where
  destination : Bytes
  device : Bytes
  deriving DecidableEq

/-- The local and remote end and the link of a tunnel. -/
def unmarshalLinkData (vs : List Value) : Option (Bytes × Bytes × Int) :=
  let names := [str "local", str "remote", str "link"]
  (members vs).bind fun ms =>
    (toText (fieldValues names ms (str "local"))).bind fun dataLocal =>
    (toText (fieldValues names ms (str "remote"))).bind fun dataRemote =>
    (toInt (fieldValues names ms (str "link"))).map fun dataLink =>
      (dataLocal, dataRemote, dataLink)

def unmarshalLinkInfo (vs : List Value) : Option (Bytes × Bytes × Bytes × Int) :=
  let names := [str "info_kind", str "info_data"]
  (members vs).bind fun ms =>
    (toText (fieldValues names ms (str "info_kind"))).bind fun kind =>
    (unmarshalLinkData (fieldValues names ms (str "info_data"))).map fun data => (kind, data)

def unmarshalLink (vs : List Value) : Option NamespaceLink :=
  let names := [str "ifname", str "flags", str "netns-immutable", str "linkinfo"]
  (members vs).bind fun ms =>
    (toText (fieldValues names ms (str "ifname"))).bind fun name =>
    (toTexts (fieldValues names ms (str "flags"))).bind fun flags =>
    (toBool (fieldValues names ms (str "netns-immutable"))).bind fun immutable =>
    (unmarshalLinkInfo (fieldValues names ms (str "linkinfo"))).map
      fun (kind, dataLocal, dataRemote, dataLink) =>
        { name, flags, immutable, kind, dataLocal, dataRemote, dataLink }

def unmarshalLinks (raw : Bytes) : Option (List NamespaceLink) :=
  (parseDocument raw).bind fun v => toSlice unmarshalLink [v]

/-- The addresses of each entry, as they stand in the listing. -/
def unmarshalAddresses (raw : Bytes) : Option (List (List Value)) :=
  (parseDocument raw).bind fun v => toSlice (fun vs => (members vs).bind fun ms =>
    toSlice List.getLast? (fieldValues [str "addr_info"] ms (str "addr_info"))) [v]

def unmarshalNamespaceRoute (vs : List Value) : Option NamespaceRoute :=
  (members vs).bind fun ms =>
    (toText (fieldValues [str "dst", str "dev"] ms (str "dst"))).bind fun destination =>
    (toText (fieldValues [str "dst", str "dev"] ms (str "dev"))).map fun device =>
      { destination, device }

def unmarshalRoutes (raw : Bytes) : Option (List NamespaceRoute) :=
  (parseDocument raw).bind fun v => toSlice unmarshalNamespaceRoute [v]

/-! ## The controller -/

def fallbackTunnelKinds : List (Bytes × Bytes) :=
  [(str "ip6tnl0", str "ip6tnl"), (str "gre0", str "gre"), (str "gretap0", str "gretap"),
    (str "erspan0", str "erspan")]

/-- The empty kind for a name that is not in the map. -/
def fallbackKind (name : Bytes) : Bytes := (fallbackTunnelKinds.lookup name).getD []

def unspecified (s : Bytes) : Bool := decide (s = [] ∨ s = str "any" ∨ s = str "::")

def NamespaceLink.inertFallback (l : NamespaceLink) : Bool :=
  decide (fallbackKind l.name ≠ []) && decide (l.kind = fallbackKind l.name) && l.immutable &&
    decide (str "UP" ∉ l.flags) && decide (l.dataLink = 0) && unspecified l.dataLocal &&
    unspecified l.dataRemote

inductive Family where
  | ipv4
  | ipv6
  deriving DecidableEq

def Family.arg : Family → Bytes
  | .ipv4 => str "-4"
  | .ipv6 => str "-6"

inductive NetworkError where
  | command (args : List Bytes) (err : String)
  | unmarshal
  | hasAddresses (name : Bytes)
  | externalCapable (name : Bytes)
  | hasRoutes (device : Bytes)
  | defaultRoute

/-- The commands of `ip` in the namespace, each answered with its output or an error. -/
abbrev Network := ExceptT NetworkError (Prog (List Bytes) fun _ => Except String Bytes)

def ip (args : List Bytes) : Network Bytes :=
  ExceptT.mk do
    match ← Prog.request args with
    | .error e => pure (.error (.command args e))
    | .ok out => pure (.ok out)

/-- A command whose output is decoded. -/
def ipListing {α : Type} (unmarshal : Bytes → Option α) (args : List Bytes) : Network α := do
  let raw ← ip args
  match unmarshal raw with
  | none => throw .unmarshal
  | some listing => pure listing

def linkShow : List Bytes := [str "-d", str "-j", str "link", str "show"]

def addressShow (device : Bytes) : List Bytes :=
  [str "-j", str "address", str "show", str "dev", device]

def routeShow (family : Family) : List Bytes :=
  [family.arg, str "-j", str "route", str "show", str "table", str "all"]

/-- Whether `realm0` exists, and the fallback tunnels seen so far. -/
structure LinksSeen where
  realm : Bool
  fallbacks : List Bytes

def checkLink (seen : LinksSeen) (l : NamespaceLink) : Network LinksSeen :=
  if l.name = str "lo" then pure seen
  else if l.inertFallback then do
    let addresses ← ipListing unmarshalAddresses (addressShow l.name)
    match addresses with
    | [[]] => pure { seen with fallbacks := l.name :: seen.fallbacks }
    | _ => throw (.hasAddresses l.name)
  else if l.name ≠ str "realm0" ∨ l.kind ≠ str "dummy" then throw (.externalCapable l.name)
  else pure { seen with realm := true }

def NamespaceRoute.check (fallbacks : List Bytes) (r : NamespaceRoute) : Option NetworkError :=
  if r.device ∈ fallbacks then some (.hasRoutes r.device)
  else if r.destination = str "default" then some .defaultRoute
  else none

def checkRoutes (fallbacks : List Bytes) (family : Family) : Network Unit := do
  let routes ← ipListing unmarshalRoutes (routeShow family)
  match routes.findSome? (NamespaceRoute.check fallbacks) with
  | some e => throw e
  | none => pure ()

/-- `setupNetwork` up to its first change; returns whether `realm0` exists. -/
def inspectNetwork : Network Bool := do
  let links ← ipListing unmarshalLinks linkShow
  let seen ← links.foldlM checkLink ⟨false, []⟩
  checkRoutes seen.fallbacks .ipv4
  checkRoutes seen.fallbacks .ipv6
  pure seen.realm

def configureRealm (realm : Bool) : Network Unit := do
  if !realm then
    let _ ← ip [str "link", str "add", str "realm0", str "type", str "dummy"]
  let _ ← ip [str "-4", str "address", str "replace", str "192.0.2.254/32", str "dev", str "realm0"]
  let _ ← ip [str "-6", str "address", str "replace", str "2001:db8::ffff/128", str "dev",
    str "realm0", str "nodad"]
  let _ ← ip [str "link", str "set", str "realm0", str "up"]
  pure ()

def setupNetwork : Network Unit := do
  let realm ← inspectNetwork
  configureRealm realm

/-! ## The worker -/

/-- An interface with the two flags that the worker reads and the result of `Addrs`. -/
structure Interface where
  name : Bytes
  up : Bool
  loopback : Bool
  addrs : Except String (List Bytes)

/-- `Addrs` returns no error and no address. -/
def Interface.unaddressed (iface : Interface) : Bool :=
  match iface.addrs with
  | .ok [] => true
  | _ => false

/-- One turn of the loop of `runWorker`; the name of a refused interface. -/
def checkInterface (iface : Interface) : Option Bytes :=
  if fallbackKind iface.name ≠ [] ∧ iface.up = false ∧ iface.unaddressed then none
  else if iface.loopback = false ∧ iface.name ≠ str "realm0" then some iface.name
  else none

def checkInterfaces (interfaces : List Interface) : Option Bytes :=
  interfaces.findSome? checkInterface

/-! ## Namespaces without a way out -/

/-- The links of a namespace, the addresses of a link, and the routes of a family. -/
structure Namespace where
  links : List NamespaceLink
  addresses : Bytes → List Value
  routes : Family → List NamespaceRoute

/-- An answer of `ip` in the namespace: a listing that can be decoded is that of the namespace. -/
structure Namespace.Answers (ns : Namespace) (args : List Bytes) (x : Except String Bytes) :
    Prop where
  links : ∀ raw links, args = linkShow → x = .ok raw → unmarshalLinks raw = some links →
    links = ns.links
  addresses : ∀ raw entries device, args = addressShow device → x = .ok raw →
    unmarshalAddresses raw = some entries → entries.flatten = ns.addresses device
  routes : ∀ raw routes family, args = routeShow family → x = .ok raw →
    unmarshalRoutes raw = some routes → routes = ns.routes family

/-- The link is no way out. -/
def Namespace.Admits (ns : Namespace) (l : NamespaceLink) : Prop :=
  l.name = str "lo" ∨ (l.name = str "realm0" ∧ l.kind = str "dummy") ∨
    (l.inertFallback = true ∧ ns.addresses l.name = [] ∧
      ∀ family, ∀ r ∈ ns.routes family, r.device ≠ l.name)

def Namespace.Closed (ns : Namespace) : Prop :=
  (∀ l ∈ ns.links, ns.Admits l) ∧
    ∀ family, ∀ r ∈ ns.routes family, r.destination ≠ str "default"

/-- Every command that does not show something changes the namespace. -/
def Changes (args : List Bytes) : Prop := str "show" ∉ args

abbrev Command := Event (List Bytes) fun _ => Except String Bytes

/-- No command of the trace changes the namespace. -/
def Untouched (trace : List Command) : Prop := ∀ e ∈ trace, ¬ Changes e.1

section Checks
variable {α β : Type} (ns : Namespace)

/-- The program changes nothing, and a result that it returns has the property. -/
def Checks (p : Network α) (P : α → Prop) : Prop :=
  Prog.Sat p fun trace result => (∀ e ∈ trace, ns.Answers e.1 e.2) →
    Untouched trace ∧ ∀ a, result = .ok a → P a

variable {ns} {p : Network α} {P : α → Prop} {R : β → Prop}

theorem checks_pure {a : α} (h : P a) : Checks ns (pure a : Network α) P := by
  intro _
  refine ⟨List.forall_mem_nil _, ?_⟩
  intro b hb
  cases hb
  exact h

theorem checks_throw (e : NetworkError) : Checks ns (throw e : Network α) P := by
  intro _
  refine ⟨List.forall_mem_nil _, ?_⟩
  intro b hb
  cases hb

theorem Checks.bind (hp : Checks ns p P) {f : α → Network β}
    (hf : ∀ a, P a → Checks ns (f a) R) : Checks ns (p >>= f) R := by
  refine Prog.Sat.bind hp ?_
  intro trace result hresult
  by_cases hpossible : ∀ e ∈ trace, ns.Answers e.1 e.2
  · obtain ⟨huntouched, hvalue⟩ := hresult hpossible
    cases result with
    | error e =>
      intro _
      refine ⟨?_, fun b hb => by cases hb⟩
      rw [List.append_nil]
      exact huntouched
    | ok a =>
      refine (hf a (hvalue a rfl)).mono ?_
      intro rest b hrest hall
      obtain ⟨huntouchedRest, hb⟩ := hrest fun e he => hall e (List.mem_append_right _ he)
      exact ⟨List.forall_mem_append.mpr ⟨huntouched, huntouchedRest⟩, hb⟩
  · refine Prog.sat_of_forall ?_
    intro rest b hall
    exact absurd (fun e he => hall e (List.mem_append_left _ he)) hpossible

theorem Checks.imp (hp : Checks ns p P) {Q : α → Prop} (h : ∀ a, P a → Q a) : Checks ns p Q := by
  refine Prog.Sat.mono hp ?_
  intro trace result hresult hall
  obtain ⟨huntouched, hvalue⟩ := hresult hall
  exact ⟨huntouched, fun a ha => h a (hvalue a ha)⟩

theorem checks_ipListing {unmarshal : Bytes → Option α} {args : List Bytes}
    (hshow : ¬ Changes args)
    (h : ∀ x raw listing, ns.Answers args x → x = .ok raw → unmarshal raw = some listing →
      P listing) : Checks ns (ipListing unmarshal args) P := by
  have hip : Checks ns (ip args) fun raw =>
      ∀ listing, unmarshal raw = some listing → P listing := by
    intro x
    cases x with
    | error e =>
      intro _
      exact ⟨List.forall_mem_singleton.mpr hshow, fun _ hraw => by cases hraw⟩
    | ok raw =>
      intro hall
      refine ⟨List.forall_mem_singleton.mpr hshow, ?_⟩
      intro out hout listing hlisting
      cases hout
      exact h _ raw listing (hall _ List.mem_cons_self) rfl hlisting
  refine hip.bind ?_
  intro raw hraw
  split
  · exact checks_throw _
  · rename_i listing hlisting
    exact checks_pure (hraw listing hlisting)

end Checks

section Inspecting
variable {ns : Namespace}

/-- The link is no way out, as far as the routes of the fallback tunnels are not looked at. -/
def Namespace.Passes (ns : Namespace) (fallbacks : List Bytes) (l : NamespaceLink) : Prop :=
  l.name = str "lo" ∨ (l.name = str "realm0" ∧ l.kind = str "dummy") ∨
    (l.inertFallback = true ∧ ns.addresses l.name = [] ∧ l.name ∈ fallbacks)

theorem Namespace.Passes.mono {xs ys : List Bytes} {l : NamespaceLink} (h : ns.Passes xs l)
    (hsub : xs ⊆ ys) : ns.Passes ys l := by
  rcases h with hlo | hrealm | ⟨hinert, haddresses, hmem⟩
  · exact Or.inl hlo
  · exact Or.inr (Or.inl hrealm)
  · exact Or.inr (Or.inr ⟨hinert, haddresses, hsub hmem⟩)

theorem checkLink_checks (seen : LinksSeen) (l : NamespaceLink) :
    Checks ns (checkLink seen l) fun seen' =>
      seen.fallbacks ⊆ seen'.fallbacks ∧ ns.Passes seen'.fallbacks l := by
  unfold checkLink
  split
  · rename_i hlo
    exact checks_pure ⟨List.Subset.refl _, Or.inl hlo⟩
  · split
    · rename_i hinert
      have hlisting : Checks ns (ipListing unmarshalAddresses (addressShow l.name)) fun entries =>
          entries.flatten = ns.addresses l.name := by
        apply checks_ipListing (by simp [Changes, addressShow])
        intro x raw entries hx hraw hentries
        exact hx.addresses raw entries l.name rfl hraw hentries
      refine hlisting.bind ?_
      intro entries hentries
      split
      · exact checks_pure ⟨List.subset_cons_self _ _,
          Or.inr (Or.inr ⟨hinert, hentries.symm, List.mem_cons_self⟩)⟩
      · exact checks_throw _
    · split
      · exact checks_throw _
      · rename_i hrealm
        rw [not_or, not_not, not_not] at hrealm
        exact checks_pure ⟨List.Subset.refl _, Or.inr (Or.inl hrealm)⟩

theorem checkLinks_checks (links : List NamespaceLink) (seen : LinksSeen) :
    Checks ns (links.foldlM checkLink seen) fun seen' =>
      seen.fallbacks ⊆ seen'.fallbacks ∧ ∀ l ∈ links, ns.Passes seen'.fallbacks l := by
  induction links generalizing seen with
  | nil => exact checks_pure ⟨List.Subset.refl _, List.forall_mem_nil _⟩
  | cons l links ih =>
    rw [List.foldlM_cons]
    refine (checkLink_checks seen l).bind ?_
    rintro next ⟨hsub, hpasses⟩
    -- The fallback tunnels only grow, so an earlier link keeps its place among them.
    have hmono : ∀ final : LinksSeen, (next.fallbacks ⊆ final.fallbacks ∧
        ∀ l ∈ links, ns.Passes final.fallbacks l) → seen.fallbacks ⊆ final.fallbacks ∧
        ∀ k ∈ l :: links, ns.Passes final.fallbacks k := by
      rintro final ⟨hfinal, hlinks⟩
      exact ⟨List.Subset.trans hsub hfinal,
        List.forall_mem_cons.mpr ⟨hpasses.mono hfinal, hlinks⟩⟩
    exact (ih next).imp hmono

theorem checkRoutes_checks (fallbacks : List Bytes) (family : Family) :
    Checks ns (checkRoutes fallbacks family) fun _ => ∀ r ∈ ns.routes family,
      r.device ∉ fallbacks ∧ r.destination ≠ str "default" := by
  unfold checkRoutes
  have hlisting : Checks ns (ipListing unmarshalRoutes (routeShow family)) fun routes =>
      routes = ns.routes family := by
    apply checks_ipListing (by simp [Changes, routeShow])
    intro x raw routes hx hraw hroutes
    exact hx.routes raw routes family rfl hraw hroutes
  refine hlisting.bind ?_
  rintro routes rfl
  split
  · exact checks_throw _
  · rename_i hnone
    apply checks_pure
    intro r hr
    have hcheck := List.findSome?_eq_none_iff.mp hnone r hr
    unfold NamespaceRoute.check at hcheck
    split at hcheck
    · cases hcheck
    · rename_i hdevice
      split at hcheck
      · cases hcheck
      · rename_i hdestination
        exact ⟨hdevice, hdestination⟩

theorem inspectNetwork_checks : Checks ns inspectNetwork fun _ => ns.Closed := by
  unfold inspectNetwork
  have hlisting : Checks ns (ipListing unmarshalLinks linkShow) fun links => links = ns.links := by
    apply checks_ipListing (by simp [Changes, linkShow])
    intro x raw links hx hraw hlinks
    exact hx.links raw links rfl hraw hlinks
  refine hlisting.bind ?_
  rintro links rfl
  refine (checkLinks_checks ns.links ⟨false, []⟩).bind ?_
  rintro seen ⟨-, hpasses⟩
  refine (checkRoutes_checks seen.fallbacks .ipv4).bind ?_
  intro _ hipv4
  refine (checkRoutes_checks seen.fallbacks .ipv6).bind ?_
  intro _ hipv6
  have hroutes : ∀ family, ∀ r ∈ ns.routes family,
      r.device ∉ seen.fallbacks ∧ r.destination ≠ str "default" := by
    intro family
    cases family with
    | ipv4 => exact hipv4
    | ipv6 => exact hipv6
  apply checks_pure
  refine ⟨?_, fun family r hr => (hroutes family r hr).2⟩
  intro l hl
  rcases hpasses l hl with hlo | hrealm | ⟨hinert, haddresses, hmem⟩
  · exact Or.inl hlo
  · exact Or.inr (Or.inl hrealm)
  · refine Or.inr (Or.inr ⟨hinert, haddresses, ?_⟩)
    intro family r hr heq
    exact (hroutes family r hr).1 (heq ▸ hmem)

/-- A namespace that is not closed is refused before the first change. -/
theorem setupNetwork_sat : Prog.Sat setupNetwork fun trace result =>
    (∀ e ∈ trace, ns.Answers e.1 e.2) →
      ns.Closed ∨ (Untouched trace ∧ ∃ e, result = .error e) := by
  have hinspect : Checks ns inspectNetwork fun _ => ns.Closed := inspectNetwork_checks
  refine Prog.Sat.bind hinspect ?_
  intro trace result hresult
  cases result with
  | error e =>
    intro hall
    rw [List.append_nil] at hall ⊢
    exact Or.inr ⟨(hresult hall).1, e, rfl⟩
  | ok realm =>
    refine Prog.sat_of_forall ?_
    intro rest b hall
    exact Or.inl ((hresult fun e he => hall e (List.mem_append_left _ he)).2 realm rfl)

end Inspecting

/-! ## Both checks -/

/-- One interface as the controller lists it and as the worker sees it. -/
structure SeenInterface where
  link : NamespaceLink
  iface : Interface
  sameName : iface.name = link.name

/-- The dummy that `setupNetwork` adds when there is none. -/
def IsRealm (l : NamespaceLink) : Prop := l.name = str "realm0" ∧ l.kind = str "dummy"

theorem fallbackKind_cases {name : Bytes} (h : fallbackKind name ≠ []) :
    name ≠ str "lo" ∧ name ≠ str "realm0" := by
  constructor
  · rintro rfl
    exact h (by decide)
  · rintro rfl
    exact h (by decide)

theorem inertFallback_kind {l : NamespaceLink} (h : l.inertFallback = true) :
    fallbackKind l.name ≠ [] ∧ l.kind = fallbackKind l.name := by
  simp only [NamespaceLink.inertFallback, Bool.and_eq_true, decide_eq_true_eq] at h
  exact ⟨h.1.1.1.1.1.1, h.1.1.1.1.1.2⟩

/-- Confined by the flags of the interface and by the kind of the link. -/
def SeenInterface.Confined (s : SeenInterface) : Prop :=
  s.iface.loopback = true ∨ IsRealm s.link ∨
    (fallbackKind s.iface.name ≠ [] ∧ s.link.kind = fallbackKind s.iface.name ∧
      s.iface.up = false ∧ s.iface.addrs = .ok [])

theorem unaddressed_iff (iface : Interface) : iface.unaddressed = true ↔ iface.addrs = .ok [] := by
  unfold Interface.unaddressed
  split <;> simp_all

theorem SeenInterface.confined {ns : Namespace} {s : SeenInterface}
    (hlink : ns.Admits s.link ∨ IsRealm s.link) (hcheck : checkInterface s.iface = none) :
    s.Confined := by
  unfold checkInterface at hcheck
  split at hcheck
  · rename_i hfallback
    obtain ⟨hname, hdown, haddrs⟩ := hfallback
    have hother := fallbackKind_cases hname
    rw [s.sameName] at hother
    have hkind : s.link.kind = fallbackKind s.link.name := by
      rcases hlink with (hlo | hrealm | ⟨hinert, -⟩) | hrealm
      · exact absurd hlo hother.1
      · exact absurd hrealm.1 hother.2
      · exact (inertFallback_kind hinert).2
      · exact absurd hrealm.1 hother.2
    exact Or.inr (Or.inr ⟨hname, by rw [s.sameName, hkind], hdown, (unaddressed_iff _).mp haddrs⟩)
  · split at hcheck
    · cases hcheck
    · rename_i hflags
      by_cases hloopback : s.iface.loopback = true
      · exact Or.inl hloopback
      · have hname : s.link.name = str "realm0" := by
          by_contra hne
          rw [← s.sameName] at hne
          exact hflags ⟨by simpa using hloopback, hne⟩
        rcases hlink with (hlo | hrealm | ⟨hinert, -⟩) | hrealm
        · rw [hname] at hlo
          exact absurd hlo (by decide)
        · exact Or.inr (Or.inl hrealm)
        · exact absurd hname (fallbackKind_cases (inertFallback_kind hinert).1).2
        · exact Or.inr (Or.inl hrealm)

/-- `setupNetwork` changes closed namespaces only, and interfaces that the worker accepts after
it give no way out. -/
theorem namespace_refused_untouched (ns : Namespace)
    (env : Nat → (args : List Bytes) → Except String Bytes)
    (henv : ∀ n args, ns.Answers args (env n args)) :
    (ns.Closed ∨ (Untouched (Prog.run env 0 setupNetwork).1 ∧
      ∃ e, (Prog.run env 0 setupNetwork).2 = .error e)) ∧
    ∀ seen : List SeenInterface, (∀ s ∈ seen, s.link ∈ ns.links ∨ IsRealm s.link) →
      (Prog.run env 0 setupNetwork).2 = .ok () →
      checkInterfaces (seen.map SeenInterface.iface) = none → ∀ s ∈ seen, s.Confined := by
  have hall := Prog.forall_mem_run (p := setupNetwork)
    (P := fun e : Command => ns.Answers e.1 e.2) henv 0
  have hsetup := setupNetwork_sat.run env 0 hall
  refine ⟨hsetup, ?_⟩
  intro seen hseen hok hworker s hs
  rcases hsetup with hclosed | ⟨-, e, he⟩
  · have hcheck : checkInterface s.iface = none :=
      List.findSome?_eq_none_iff.mp hworker s.iface (List.mem_map_of_mem hs)
    exact s.confined ((hseen s hs).imp_left fun hmem => hclosed.1 s.link hmem) hcheck
  · rw [hok] at he
    cases he

/-- A namespace with `lo` and the fallback of a loaded tunnel module. -/
def freshLinks : Bytes :=
  str "[\x7b\"ifname\":\"lo\",\"flags\":[\"LOOPBACK\"]\x7d," ++
    str "\x7b\"ifname\":\"gre0\",\"flags\":[\"NOARP\"],\"netns-immutable\":true," ++
    str "\"linkinfo\":\x7b\"info_kind\":\"gre\",\"info_data\":\x7b\"local\":\"any\"\x7d\x7d\x7d]"

def loLink : NamespaceLink := ⟨str "lo", [str "LOOPBACK"], false, [], [], [], 0⟩

def greLink : NamespaceLink := ⟨str "gre0", [str "NOARP"], true, str "gre", str "any", [], 0⟩

def freshNamespace : Namespace := ⟨[loLink, greLink], fun _ => [], fun _ => []⟩

def freshAnswers (_ : Nat) (args : List Bytes) : Except String Bytes :=
  if args = linkShow then .ok freshLinks
  else if args.head? = some (str "-j") then .ok (str "[\x7b\"addr_info\":[]\x7d]")
  else .ok (str "[]")

def freshSeen : List SeenInterface :=
  [⟨loLink, ⟨str "lo", true, true, .ok [str "127.0.0.1/8"]⟩, rfl⟩,
    ⟨greLink, ⟨str "gre0", false, false, .ok []⟩, rfl⟩,
    ⟨⟨str "realm0", [], false, str "dummy", [], [], 0⟩,
      ⟨str "realm0", true, false, .ok [str "192.0.2.254/32"]⟩, rfl⟩]

theorem freshAnswers_answers (n : Nat) (args : List Bytes) :
    freshNamespace.Answers args (freshAnswers n args) := by
  have hlinks : unmarshalLinks freshLinks = some [loLink, greLink] := by decide +kernel
  have hroutes : unmarshalRoutes (str "[]") = some [] := by decide +kernel
  have haddresses : (unmarshalAddresses (str "[\x7b\"addr_info\":[]\x7d]")).map
      (fun entries => entries.flatten.length) = some 0 := by decide +kernel
  refine ⟨?_, ?_, ?_⟩
  · rintro raw links rfl hraw hsome
    rw [freshAnswers, if_pos rfl] at hraw
    cases hraw
    rw [hlinks] at hsome
    exact (Option.some.inj hsome).symm
  · rintro raw entries device rfl hraw hsome
    have hhead : (addressShow device).head? = some (str "-j") := rfl
    rw [freshAnswers, if_neg (by simp [addressShow, linkShow]), if_pos hhead] at hraw
    cases hraw
    rw [hsome] at haddresses
    exact List.eq_nil_of_length_eq_zero (Option.some.inj haddresses)
  · rintro raw routes family rfl hraw hsome
    have hfamily : ∀ family, routeShow family ≠ linkShow ∧
        (routeShow family).head? ≠ some (str "-j") := by
      intro family
      cases family <;> decide
    rw [freshAnswers, if_neg (hfamily family).1, if_neg (hfamily family).2] at hraw
    cases hraw
    rw [hroutes] at hsome
    exact (Option.some.inj hsome).symm

theorem namespace_refused_untouched_fresh :
    (∀ n args, freshNamespace.Answers args (freshAnswers n args)) ∧
      (Prog.run freshAnswers 0 setupNetwork).2 = .ok () ∧ ∀ s ∈ freshSeen, s.Confined := by
  have hfacts : (Prog.run freshAnswers 0 setupNetwork).2.isOk = true ∧
      checkInterfaces (freshSeen.map SeenInterface.iface) = none := by
    decide +kernel
  obtain ⟨hrun, hworker⟩ := hfacts
  have hok : (Prog.run freshAnswers 0 setupNetwork).2 = .ok () := by
    cases hresult : (Prog.run freshAnswers 0 setupNetwork).2 with
    | error e =>
      rw [hresult] at hrun
      cases hrun
    | ok u => rfl
  have hseen : ∀ s ∈ freshSeen, s.link ∈ freshNamespace.links ∨ IsRealm s.link := by
    simp [freshSeen, freshNamespace, IsRealm]
  exact ⟨freshAnswers_answers, hok, (namespace_refused_untouched freshNamespace freshAnswers
    freshAnswers_answers).2 freshSeen hseen hok hworker⟩

end RealmFormal.Agent

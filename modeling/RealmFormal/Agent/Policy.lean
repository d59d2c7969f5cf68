import RealmFormal.Agent.Egress
import RealmFormal.Lib.FirstBest

/-!
# The destination policy

`workload.target` chooses the first route of greatest prefix length, then refuses
the reserved prefixes, then looks at the Internet ports. A route is chosen for the
address that the worker sees, which is not always the one that was dialled.
-/

namespace RealmFormal.Agent
open Go Go.Netip FirstBest
set_option autoImplicit false

/-- The length of the route's prefix when the route has the port and contains the address. -/
def Route.rank (a : AddrPort) (r : Route) : Option Nat :=
  (parsePrefix r.prefixText).bind fun p =>
    if r.port = a.port ∧ p.contains a.addr then some p.bits else none

/-- The route has the port and a prefix that contains the address. -/
def Route.Covers (r : Route) (a : AddrPort) : Prop :=
  r.port = a.port ∧ ∃ p, parsePrefix r.prefixText = some p ∧ p.contains a.addr = true

/-- The port and the masked prefix. -/
def Route.key (r : Route) : UInt16 × Option (Nat × Nat × Nat) :=
  (r.port, (parsePrefix r.prefixText).map Prefix.masked)

/-- The address lies in a forbidden prefix. -/
def Forbidden (a : Addr) : Prop := ∃ p ∈ forbiddenPrefixes, p.contains a = true

theorem Route.rank_eq_some {a : AddrPort} {r : Route} {n : Nat} :
    r.rank a = some n ↔
      r.port = a.port ∧ ∃ p, parsePrefix r.prefixText = some p ∧ p.contains a.addr = true ∧
        p.bits = n := by
  unfold Route.rank
  rw [Option.bind_eq_some_iff]
  constructor
  · intro h
    obtain ⟨p, hp, hrank⟩ := h
    split at hrank
    · rename_i hcovers
      exact ⟨hcovers.1, p, hp, hcovers.2, Option.some.inj hrank⟩
    · cases hrank
  · intro h
    obtain ⟨hport, p, hp, hcontains, rfl⟩ := h
    exact ⟨p, hp, if_pos ⟨hport, hcontains⟩⟩

theorem Route.covers_iff {a : AddrPort} {r : Route} : r.Covers a ↔ ∃ n, r.rank a = some n := by
  constructor
  · intro h
    obtain ⟨hport, p, hp, hcontains⟩ := h
    exact ⟨p.bits, Route.rank_eq_some.mpr ⟨hport, p, hp, hcontains, rfl⟩⟩
  · intro h
    obtain ⟨n, hn⟩ := h
    obtain ⟨hport, p, hp, hcontains, -⟩ := Route.rank_eq_some.mp hn
    exact ⟨hport, p, hp, hcontains⟩

/-- Routes that tie for one address agree in port and masked prefix. -/
theorem Route.key_of_tie {a : AddrPort} (r q : Route) (n : Nat) (hr : r.rank a = some n)
    (hq : q.rank a = some n) : r.key = q.key := by
  obtain ⟨hrPort, p, hp, hpContains, hpBits⟩ := Route.rank_eq_some.mp hr
  obtain ⟨hqPort, p', hp', hpContains', hpBits'⟩ := Route.rank_eq_some.mp hq
  have hmasked := Prefix.masked_eq hpContains hpContains' (hpBits.trans hpBits'.symm)
  simp only [Route.key, hp, hp', Option.map_some, hrPort, hqPort, hmasked]

/-! ## The loop over the routes -/

/-- What the loop has selected: nothing, or the best route so far. -/
inductive Selected (a : AddrPort) (routes : List Route) : Bytes × Int → Prop where
  | nothing (uncovered : ∀ r ∈ routes, r.rank a = none) : Selected a routes ([], -1)
  | best {r : Route} {n : Nat} (h : Best (Route.rank a) routes r n) :
      Selected a routes (r.socket, n)

/-- A route that covers the address is taken when it is better than the best so far. -/
theorem Selected.cover {a : AddrPort} {routes : List Route} {best : Bytes × Int} {r : Route}
    {n : Nat} (h : Selected a routes best) (hrank : r.rank a = some n) :
    Selected a (routes ++ [r]) (if (n : Int) > best.2 then (r.socket, (n : Int)) else best) := by
  cases h with
  | nothing huncovered =>
    rw [if_pos (by omega)]
    apply Selected.best
    apply Best.take hrank
    intro q hq m hm
    rw [huncovered q hq] at hm
    cases hm
  | @best q k hbest =>
    by_cases hlt : k < n
    · rw [if_pos (by omega)]
      apply Selected.best
      apply Best.take hrank
      intro z hz m hm
      have hle := hbest.highest z hz m hm
      omega
    · rw [if_neg (by omega)]
      apply Selected.best
      apply hbest.skip
      intro m hm
      rw [hrank] at hm
      cases hm
      omega

theorem Selected.pass {a : AddrPort} {routes : List Route} {best : Bytes × Int} {r : Route}
    (h : Selected a routes best) (hrank : r.rank a = none) : Selected a (routes ++ [r]) best := by
  cases h with
  | nothing huncovered =>
    apply Selected.nothing
    intro q hq
    rcases List.mem_append.mp hq with hq | hq
    · exact huncovered q hq
    · rw [List.mem_singleton.mp hq]
      exact hrank
  | best hbest =>
    apply Selected.best
    apply hbest.skip
    intro m hm
    rw [hrank] at hm
    cases hm

theorem Selected.turn {a : AddrPort} {routes : List Route} {best : Bytes × Int} {r : Route}
    {p : Prefix} (h : Selected a routes best) (hp : parsePrefix r.prefixText = some p) :
    ∃ next, selectRoute a best r = some next ∧ Selected a (routes ++ [r]) next := by
  have hselect : selectRoute a best r =
      some (if r.port = a.port ∧ p.contains a.addr ∧ (p.bits : Int) > best.2 then
        (r.socket, (p.bits : Int)) else best) := by
    simp [selectRoute, hp]
  refine ⟨_, hselect, ?_⟩
  have hrank : r.rank a = if r.port = a.port ∧ p.contains a.addr then some p.bits else none := by
    simp [Route.rank, hp]
  by_cases hcovers : r.port = a.port ∧ p.contains a.addr = true
  · rw [if_pos hcovers] at hrank
    simpa [hcovers] using h.cover hrank
  · rw [if_neg hcovers] at hrank
    rw [if_neg fun hall => hcovers ⟨hall.1, hall.2.1⟩]
    exact h.pass hrank

theorem selectRoute_loop (a : AddrPort) {routes : List Route}
    (hparse : ∀ r ∈ routes, (parsePrefix r.prefixText).isSome) :
    ∃ best, routes.foldlM (selectRoute a) ([], -1) = some best ∧ Selected a routes best := by
  induction routes using List.reverseRecOn with
  | nil => exact ⟨_, rfl, .nothing (by simp)⟩
  | append_singleton routes r ih =>
    obtain ⟨best, hbest, hselected⟩ :=
      ih fun q hq => hparse q (List.mem_append_left _ hq)
    obtain ⟨p, hp⟩ := Option.isSome_iff_exists.mp (hparse r (by simp))
    obtain ⟨next, hnext, hselected'⟩ := hselected.turn hp
    refine ⟨next, ?_, hselected'⟩
    rw [List.foldlM_append, hbest]
    simpa using hnext

/-! ## The policy -/

section Target
variable {parseURL : Bytes → Option Url} {w v : Workload} {a : AddrPort}

/-- What `target` does after the loop, when no route covers the address. -/
def Workload.unrouted (w : Workload) (a : AddrPort) : Except String Bytes :=
  if (forbiddenPrefixes.any fun p => p.contains a.addr) then
    .error "undeclared private or reserved destination"
  else if (w.internetPorts.any fun p => decide (p = a.port ∧ w.internetSocket ≠ [])) then
    .ok w.internetSocket
  else .error "destination port is not authorized"

theorem Accepted.prefix_isSome (hw : Accepted parseURL w) :
    ∀ r ∈ w.routes, (parsePrefix r.prefixText).isSome := by
  intro r hr
  have hcheck := (passed (hw.routes r hr)).1
  simpa [← Option.isSome_iff_ne_none] using hcheck

theorem Accepted.socket_ne (hw : Accepted parseURL w) : ∀ r ∈ w.routes, r.socket ≠ [] := by
  intro r hr hnil
  have hcheck := (passed (passed (hw.routes r hr)).2).1
  rw [hnil] at hcheck
  exact hcheck (Or.inr (by decide))

theorem Accepted.target_of_best (hw : Accepted parseURL w) {r : Route} {n : Nat}
    (h : Best (Route.rank a) w.routes r n) : w.target a = some (.ok r.socket) := by
  obtain ⟨best, hbest, hselected⟩ := selectRoute_loop a hw.prefix_isSome
  rw [Workload.target, hbest]
  cases hselected with
  | nothing huncovered =>
    have hrank := h.rank_eq
    rw [huncovered r h.mem] at hrank
    cases hrank
  | best hbest' =>
    obtain ⟨rfl, -⟩ := h.unique hbest'
    simp [hw.socket_ne r h.mem]

theorem Accepted.target_of_uncovered (hw : Accepted parseURL w)
    (h : ∀ r ∈ w.routes, r.rank a = none) : w.target a = some (w.unrouted a) := by
  obtain ⟨best, hbest, hselected⟩ := selectRoute_loop a hw.prefix_isSome
  rw [Workload.target, hbest]
  cases hselected with
  | nothing huncovered => rfl
  | best hbest' =>
    have hrank := hbest'.rank_eq
    rw [h _ hbest'.mem] at hrank
    cases hrank

/-- A covered address has a best route. -/
theorem Accepted.best_or_uncovered (hw : Accepted parseURL w) (a : AddrPort) :
    (∃ r n, Best (Route.rank a) w.routes r n) ∨ ∀ r ∈ w.routes, r.rank a = none := by
  obtain ⟨best, -, hselected⟩ := selectRoute_loop a hw.prefix_isSome
  cases hselected with
  | nothing huncovered => exact Or.inr huncovered
  | best hbest => exact Or.inl ⟨_, _, hbest⟩

theorem forbidden_iff : (forbiddenPrefixes.any fun p => p.contains a.addr) = true ↔
    Forbidden a.addr := by
  simp [Forbidden]

/-- The answer of `target` for one address and port. -/
structure Policy (w : Workload) (a : AddrPort) (answer : Except String Bytes) : Prop where
  routed : (∃ r ∈ w.routes, r.Covers a) →
    ∃ r n, Best (Route.rank a) w.routes r n ∧ answer = .ok r.socket
  forbidden : (∀ r ∈ w.routes, ¬ r.Covers a) → Forbidden a.addr → ∃ e, answer = .error e
  internet : (∀ r ∈ w.routes, ¬ r.Covers a) → ¬ Forbidden a.addr →
    (w.internetSocket ≠ [] ∧ a.port ∈ w.internetPorts → answer = .ok w.internetSocket) ∧
      (¬ (w.internetSocket ≠ [] ∧ a.port ∈ w.internetPorts) → ∃ e, answer = .error e)
  reordered : ∀ routes, SameOrder Route.key w.routes routes →
    ({ w with routes } : Workload).target a = some answer
  reserved : Forbidden a.addr → answer = .ok w.internetSocket →
    ∃ r ∈ w.routes, r.Covers a ∧ r.socket = w.internetSocket

theorem uncovered_iff {routes : List Route} :
    (∀ r ∈ routes, ¬ r.Covers a) ↔ ∀ r ∈ routes, r.rank a = none := by
  constructor
  · intro h r hr
    by_contra hsome
    exact h r hr (Route.covers_iff.mpr (Option.ne_none_iff_exists'.mp hsome))
  · intro h r hr hcovers
    obtain ⟨n, hn⟩ := Route.covers_iff.mp hcovers
    rw [h r hr] at hn
    cases hn

/-- The checks of `validate` do not depend on the order of the routes. -/
theorem Accepted.reorder (hw : Accepted parseURL w) {routes : List Route}
    (horder : SameOrder Route.key w.routes routes) :
    Accepted parseURL { w with routes } where
  name := hw.name
  unit := hw.unit
  socket := hw.socket
  ports := hw.ports
  connections := hw.connections
  internetSocket := hw.internetSocket
  dnsUpstream := hw.dnsUpstream
  internetPorts := hw.internetPorts
  dnsHosts := hw.dnsHosts
  routes := fun r hr => hw.routes r (horder.mem_iff.mpr hr)

theorem Accepted.policy_of_best (hw : Accepted parseURL w) {r : Route} {n : Nat}
    (h : Best (Route.rank a) w.routes r n) : Policy w a (.ok r.socket) := by
  have hcovers : r.Covers a := Route.covers_iff.mpr ⟨n, h.rank_eq⟩
  constructor
  case routed => exact fun _ => ⟨r, n, h, rfl⟩
  case forbidden => exact fun hnone => absurd hcovers (hnone r h.mem)
  case internet => exact fun hnone => absurd hcovers (hnone r h.mem)
  case reordered =>
    intro routes horder
    apply (hw.reorder horder).target_of_best (n := n)
    exact h.reorder Route.key_of_tie horder
  case reserved =>
    intro _ hanswer
    exact ⟨r, h.mem, hcovers, Except.ok.inj hanswer⟩

theorem Accepted.policy_of_uncovered (hw : Accepted parseURL w)
    (h : ∀ r ∈ w.routes, r.rank a = none) : Policy w a (w.unrouted a) := by
  have hports : (w.internetPorts.any fun p => decide (p = a.port ∧ w.internetSocket ≠ [])) = true ↔
      w.internetSocket ≠ [] ∧ a.port ∈ w.internetPorts := by
    simp
    tauto
  constructor
  case routed =>
    intro hsome
    obtain ⟨r, hr, hcovers⟩ := hsome
    exact absurd hcovers (uncovered_iff.mpr h r hr)
  case forbidden =>
    intro _ hforbidden
    rw [Workload.unrouted, if_pos (forbidden_iff.mpr hforbidden)]
    exact ⟨_, rfl⟩
  case internet =>
    intro _ hallowed
    rw [Workload.unrouted, if_neg fun hany => hallowed (forbidden_iff.mp hany)]
    constructor
    · intro hinternet
      rw [if_pos (hports.mpr hinternet)]
    · intro hnone
      rw [if_neg fun hany => hnone (hports.mp hany)]
      exact ⟨_, rfl⟩
  case reordered =>
    intro routes horder
    apply (hw.reorder horder).target_of_uncovered
    intro r hr
    exact h r (horder.mem_iff.mpr hr)
  case reserved =>
    intro hforbidden hanswer
    rw [Workload.unrouted, if_pos (forbidden_iff.mpr hforbidden)] at hanswer
    cases hanswer

/-- `target` on an accepted workload never panics and follows the policy. -/
theorem target_policy (hv : w.validate parseURL = .ok v) (a : AddrPort) :
    ∃ answer, v.target a = some answer ∧ Policy v a answer := by
  have hw := validate_accepted hv
  rcases hw.best_or_uncovered a with ⟨r, n, hbest⟩ | huncovered
  · exact ⟨_, hw.target_of_best hbest, hw.policy_of_best hbest⟩
  · exact ⟨_, hw.target_of_uncovered huncovered, hw.policy_of_uncovered huncovered⟩

end Target

theorem target_policy_sampleEgress :
    ∃ answer, sampleEgress.withDefaults.target ⟨.v4 sampleAddress, 443⟩ = some answer ∧
      Policy sampleEgress.withDefaults ⟨.v4 sampleAddress, 443⟩ answer :=
  target_policy sampleEgress_accepted ⟨.v4 sampleAddress, 443⟩

/-! ## Which routes take effect -/

/-- The addresses that the connect hooks leave alone: 127.0.0.0/8 and `::1`. -/
def hookLoopback : Addr → Bool
  | .v4 b => decide (b.head = 127)
  | .v6 b _ => decide (b.toList = List.replicate 15 0 ++ [1])

/-- The socket to which the worker forwards the connection. -/
def Outcome.socket : Outcome → Option Bytes
  | .route socket => some socket
  | .internet socket _ => some socket
  | _ => none

theorem loopback_v6 (b : List.Vector UInt8 16) (zone : Bytes) (p : UInt16) :
    loopback (streamAddr ⟨.v6 b zone, p⟩) true = hookLoopback (.v6 b zone) := by
  have hone : (⟨0, 0, 0, htonl 1⟩ : Words).bytes = List.replicate 15 0 ++ [1] := by decide
  have hbytes := loadWords_bytes b.toList_length
  show decide (loadWords b.toList = ⟨0, 0, 0, htonl 1⟩) = decide (b.toList = _)
  rw [decide_eq_decide]
  constructor
  · intro h
    rw [← hbytes, h, hone]
  · intro h
    rw [h]
    decide

theorem passThrough_streamAddr (a : Addr) (p : UInt16) :
    passThrough (streamAddr ⟨a, p⟩) (!a.is4) = (decide (p ≠ 53) && hookLoopback a) := by
  have hport : ntohs (streamAddr ⟨a, p⟩).userPort = p := ntohs_htons p
  rw [passThrough, hport]
  congr 1
  cases a with
  | v4 b => exact loopback_v4 b p
  | v6 b zone => exact loopback_v6 b zone p

theorem unmap_of_not_mapped {a : Addr} (h : a.is4In6 = false) : a.unmap = a := by
  cases a with
  | v4 b => rfl
  | v6 b zone =>
    simp only [Addr.is4In6] at h
    simp [Addr.unmap, h]

/-- The worker forwards what the hooks give it by the target of the unmapped address. -/
theorem forward_socket (w : Workload) {d : GoDestination} {a : AddrPort} (hd : d.addr = .ok a)
    (socket : Bytes) :
    (w.forward d).socket = some socket ↔ a.port ≠ 53 ∧ w.target a = some (.ok socket) := by
  rw [Workload.forward, hd]
  dsimp only
  by_cases hport : a.port = 53
  · simp [hport, Outcome.socket]
  · rw [if_neg hport]
    cases htarget : w.target a with
    | none => simp [Outcome.socket]
    | some answer =>
      cases answer with
      | error e => simp [Outcome.socket]
      | ok s =>
        dsimp only
        split <;> simp [Outcome.socket, hport]

section Effective
variable {parseURL : Bytes → Option Url} {w v : Workload}

theorem connect_socket (hw : Accepted parseURL w) {h : Helpers} {st : Storage}
    (hroom : (st.tcp.isSome || h.room) = true) {a : Addr} {p : UInt16} (hzone : a.zone = [])
    (hp : p ≠ 0) (socket : Bytes) :
    (w.connect h st ⟨a, p⟩).socket = some socket ↔
      p ≠ 53 ∧ hookLoopback a = false ∧ w.target ⟨a.unmap, p⟩ = some (.ok socket) := by
  have hstored : ¬ (st.tcp = none ∧ ¬ h.room = true) := by
    rw [storage_denied, hroom]
    decide
  have haddr := addr_streamAddr h ⟨a, p⟩ hzone
  rw [if_neg hp] at haddr
  rw [connect_eq hw, passThrough_streamAddr, if_neg hstored]
  cases hloop : hookLoopback a with
  | false =>
    rw [Bool.and_false, if_neg Bool.false_ne_true, forward_socket w haddr]
    simp
  | true =>
    by_cases hport : p = 53
    · rw [Bool.and_true, if_neg (by simpa using hport), forward_socket w haddr]
      simp [hport]
    · rw [Bool.and_true, if_pos (by simpa using hport)]
      simp [Outcome.socket]

/-- A route that is best for an address takes effect unless its port is 53, the hooks leave the
address alone, or the address is a mapped one, which is looked up in IPv4 form. -/
theorem route_effective_iff (hv : w.validate parseURL = .ok v) {r : Route} {a : Addr} {n : Nat}
    (hbest : Best (Route.rank ⟨a, r.port⟩) v.routes r n) (h : Helpers) (st : Storage)
    (hroom : (st.tcp.isSome || h.room) = true) :
    (v.connect h st ⟨a, r.port⟩).socket = some r.socket ↔
      r.port ≠ 53 ∧ hookLoopback a = false ∧
        (a.is4In6 = true → v.target ⟨a.unmap, r.port⟩ = some (.ok r.socket)) := by
  have hw := validate_accepted hv
  have hport : r.port ≠ 0 := by
    have hcheck := (passed (passed (hw.routes r hbest.mem)).2).1
    exact fun hzero => hcheck (Or.inl hzero)
  obtain ⟨-, p, -, hcontains, -⟩ := Route.rank_eq_some.mp hbest.rank_eq
  have hzone : a.zone = [] := by
    simp only [Prefix.contains, decide_eq_true_eq] at hcontains
    exact hcontains.1
  have htarget := hw.target_of_best hbest
  rw [connect_socket hw hroom hzone hport]
  cases hmapped : a.is4In6 with
  | true => simp
  | false =>
    rw [unmap_of_not_mapped hmapped]
    simp [htarget]

end Effective

/-- A workload with a route to port 53, one to a loopback network and one to mapped addresses. -/
def idleRoutes : Workload :=
  { sampleEgress with
    routes := [⟨str "10.0.0.0/8", 53, str "/run/dns.sock"⟩,
      ⟨str "127.0.0.0/8", 8080, str "/run/loopback.sock"⟩,
      ⟨str "::ffff:10.0.0.0/104", 443, str "/run/mapped.sock"⟩] }

/-- Each route is the best one for the address that is dialled, and none is used. -/
theorem idleRoutes_ineffective :
    idleRoutes.validate sampleUpstream = .ok idleRoutes.withDefaults ∧
      (idleRoutes.withDefaults.target ⟨.v4 sampleAddress, 53⟩ = some (.ok (str "/run/dns.sock")) ∧
        idleRoutes.withDefaults.connect ⟨1, 1, true⟩ .empty ⟨.v4 sampleAddress, 53⟩ = .dns) ∧
      (idleRoutes.withDefaults.target ⟨.v4 loopbackAddress, 8080⟩ =
          some (.ok (str "/run/loopback.sock")) ∧
        idleRoutes.withDefaults.connect ⟨1, 1, true⟩ .empty ⟨.v4 loopbackAddress, 8080⟩ =
          .direct) ∧
      idleRoutes.withDefaults.target ⟨mapped sampleAddress, 443⟩ =
          some (.ok (str "/run/mapped.sock")) ∧
        idleRoutes.withDefaults.connect ⟨1, 1, true⟩ .empty ⟨mapped sampleAddress, 443⟩ =
          .closed "undeclared private or reserved destination" := by
  have hcheck : idleRoutes.check sampleUpstream = none := by decide +kernel
  refine ⟨?_, by decide +kernel⟩
  rw [Workload.validate, hcheck]

def sampleRoute : Route := ⟨str "10.0.0.0/8", 443, str "/run/service.sock"⟩

theorem sampleRoute_best :
    Best (Route.rank ⟨.v4 sampleAddress, sampleRoute.port⟩) sampleEgress.withDefaults.routes
      sampleRoute 8 := by
  have hroutes : sampleEgress.withDefaults.routes = [] ++ [sampleRoute] := rfl
  have hrank : sampleRoute.rank ⟨.v4 sampleAddress, sampleRoute.port⟩ = some 8 := by
    decide +kernel
  rw [hroutes]
  exact Best.take hrank (by simp)

theorem route_effective_iff_sampleEgress :
    (sampleEgress.withDefaults.connect ⟨1, 1, true⟩ .empty
      ⟨.v4 sampleAddress, sampleRoute.port⟩).socket = some sampleRoute.socket := by
  have heffective :=
    route_effective_iff sampleEgress_accepted sampleRoute_best ⟨1, 1, true⟩ .empty rfl
  exact heffective.mpr ⟨by decide, by decide, nofun⟩

end RealmFormal.Agent

import RealmFormal.Agent.DnsSlots
import RealmFormal.Agent.TcpPath

/-!
# The peer that getpeername reports

A connect that is redirected stores what was dialled, and `getpeername` reports the
stored destination. A connect to a loopback address is passed through and stores
nothing, so an older destination of the same family stays behind it.
-/

namespace RealmFormal.Agent
open Go Transition
set_option autoImplicit false

universe u
variable {Sock : Type u} [DecidableEq Sock]

/-- The event is a connect of `sock`. -/
def Event.connects (sock : Sock) : Event Sock → Bool
  | .hook other _ sendmsg ctx _ _ => decide (other = sock) && isConnect sendmsg ctx
  | _ => false

/-- The destination was dialled, and the hook did not let it through. -/
def Captured (d : Destination) : Prop :=
  ∃ v6 ctx, d.peer = target v6 ctx ∧ passThrough ctx v6 = false

section History
variable {c : Constants} {cookie : Sock → UInt64} {events : List (Event Sock)} {sock : Sock}

theorem storedBy_captured {stored : Bool} {e : Event Sock} {d : Destination}
    (h : storedBy cookie sock stored e = some d) : Captured d := by
  cases e with
  | hook other v6 sendmsg ctx ktime room =>
    simp only [storedBy] at h
    split at h
    · rename_i hstored
      cases h
      exact ⟨v6, ctx, rfl, by simpa using hstored.2.2.1⟩
    · cases h
  | establish other tuple => cases h
  | active other updated => cases h
  | close other => cases h
  | evict key => cases h

theorem latestRedirect_captured {d : Destination}
    (h : latestRedirect cookie sock events = some d) : Captured d := by
  induction events using List.reverseRecOn with
  | nil => cases h
  | append_singleton events e ih =>
    rw [latestRedirect_snoc, Option.or_eq_some_iff] at h
    rcases h with h | ⟨-, h⟩
    · exact storedBy_captured h
    · exact ih h

/-- Events that are no connects of the socket leave its latest redirect alone. -/
theorem latestRedirect_append {after : List (Event Sock)}
    (h : ∀ e ∈ after, e.connects sock = false) :
    latestRedirect cookie sock (events ++ after) = latestRedirect cookie sock events := by
  induction after using List.reverseRecOn with
  | nil => rw [List.append_nil]
  | append_singleton after e ih =>
    have hstored : ∀ stored, storedBy cookie sock stored e = none := by
      intro stored
      have he := h e (by simp)
      cases e with
      | hook other v6 sendmsg ctx ktime room =>
        simp only [Event.connects, Bool.and_eq_false_iff, decide_eq_false_iff_not] at he
        simp only [storedBy]
        apply if_neg
        intro hall
        rcases he with he | he
        · exact he hall.1
        · rw [he] at hall
          exact Bool.false_ne_true hall.2.1
      | establish other tuple => rfl
      | active other updated => rfl
      | close other => rfl
      | evict key => rfl
    rw [← List.append_assoc, latestRedirect_snoc, hstored, Option.none_or]
    exact ih fun x hx => h x (List.mem_append_left _ hx)

end History

/-- Whether a connect is let through depends on what is dialled only. -/
theorem passThrough_congr {a b : SockAddr} {v6 : Bool} (h : target v6 a = target v6 b) :
    passThrough a v6 = passThrough b v6 := by
  have hport : ntohs a.userPort = ntohs b.userPort := by
    have hwide := congrArg (fun p => p.port.toNat) h
    simp only [target, UInt16.toNat_toUInt32] at hwide
    exact UInt16.toNat_inj.mp hwide
  have haddr := congrArg Peer.address h
  cases v6 with
  | false =>
    simp only [target, Bool.false_eq_true, if_false, Words.mk.injEq] at haddr
    simp [passThrough, loopback, hport, haddr.1]
  | true =>
    simp only [target, if_true] at haddr
    simp [passThrough, loopback, hport, haddr]

theorem restore_stream {c : Constants} {v6 : Bool} {ctx : SockAddr} {st : Storage}
    (h : ctx.type = .stream) :
    restore c v6 false ctx st =
      ((st.tcp.map TcpState.original).map (rewritePeer ctx v6)).getD ctx := by
  simp only [restore, h, Bool.false_eq_true, if_false]
  cases st.tcp <;> rfl

theorem toLocal_type (ctx : SockAddr) (v6 : Bool) (port : UInt16) :
    (toLocal ctx v6 port).type = ctx.type := by
  cases v6 <;> rfl

/-- A destination that was captured is not one that is let through. -/
theorem captured_ne_passThrough {v6 : Bool} {ctx : SockAddr} {d : Destination} (hd : Captured d)
    (hfamily : d.family = familyOf v6) (hpass : passThrough ctx v6 = true) :
    target v6 (rewritePeer ctx v6 d) ≠ target v6 ctx := by
  intro heq
  obtain ⟨v, sent, hpeer, hcaptured⟩ := hd
  have hv : v = v6 := familyOf_injective ((congrArg Peer.family hpeer).symm.trans hfamily)
  subst hv
  rw [rewritePeer_target hpeer] at heq
  rw [passThrough_congr heq, hpass] at hcaptured
  cases hcaptured

/-- A connect that is neither let through nor denied stores what was dialled. -/
theorem storedBy_connect {cookie : Sock → UInt64} {sock : Sock} {stored v6 room : Bool}
    {ctx : SockAddr} {ktime : UInt64} (htype : ctx.type = .stream)
    (hpass : passThrough ctx v6 = false) (hroom : stored = true ∨ room = true) :
    storedBy cookie sock stored (.hook sock v6 false ctx ktime room) =
      some (readDestination ⟨cookie sock, ktime, room⟩ ctx v6) := by
  simp only [storedBy]
  apply if_pos
  exact ⟨trivial, by simp [isConnect, htype], by simp [hpass], hroom⟩

/-- After a connect that the hook allows, and whatever else happens before the next one,
`getpeername` reports what was dialled unless the connect was let through while the socket
keeps an older destination of the same family. -/
theorem peername_faithful_iff {c : Constants} {cookie : Sock → UInt64}
    {events after : List (Event Sock)} {s t u : Kernel Sock} {sock : Sock} {v6 room : Bool}
    {ctx : SockAddr} {ktime : UInt64} (htype : ctx.type = .stream)
    (hbefore : exec (kernelStep c cookie) Kernel.boot events = some s)
    (hconnect : kernelStep c cookie s (.hook sock v6 false ctx ktime room) = some t)
    (hallow : (redirect c ⟨cookie sock, ktime, room⟩ v6 false ctx (s.storage sock)).allow = true)
    (hafter : exec (kernelStep c cookie) t after = some u)
    (hlatest : ∀ e ∈ after, e.connects sock = false) :
    target v6 (restore c v6 false
        (redirect c ⟨cookie sock, ktime, room⟩ v6 false ctx (s.storage sock)).ctx
        (u.storage sock)) = target v6 ctx ↔
      ¬ (passThrough ctx v6 = true ∧
        ∃ d, latestRedirect cookie sock events = some d ∧ d.family = familyOf v6) := by
  have hrun : exec (kernelStep c cookie) Kernel.boot
      (events ++ [.hook sock v6 false ctx ktime room] ++ after) = some u :=
    exec_append_iff.mpr ⟨t, exec_concat_iff.mpr ⟨s, hbefore, hconnect⟩, hafter⟩
  have hstored := (pathInv_of_exec hrun).latest sock
  rw [latestRedirect_append hlatest, latestRedirect_snoc] at hstored
  have hsome : (s.storage sock).tcp.isSome = (latestRedirect cookie sock events).isSome := by
    rw [← (pathInv_of_exec hbefore).latest sock, Option.isSome_map]
  have hredirect : redirect c ⟨cookie sock, ktime, room⟩ v6 false ctx (s.storage sock) =
      redirectTcp c ⟨cookie sock, ktime, room⟩ v6 ctx (s.storage sock) := by
    simp [redirect, htype]
  rw [hredirect] at hallow ⊢
  unfold redirectTcp at hallow ⊢
  cases hpass : passThrough ctx v6 with
  | true =>
    have hnone : storedBy cookie sock (latestRedirect cookie sock events).isSome
        (.hook sock v6 false ctx ktime room) = none := by
      simp [storedBy, hpass]
    rw [hnone, Option.none_or] at hstored
    rw [if_pos rfl, restore_stream htype, hstored]
    cases hold : latestRedirect cookie sock events with
    | none => simp
    | some d =>
      by_cases hfamily : d.family = familyOf v6
      · have hne := captured_ne_passThrough (latestRedirect_captured hold) hfamily hpass
        simp [hne, hfamily]
      · have hsame : rewritePeer ctx v6 d = ctx := if_pos hfamily
        simp [hsame, hfamily]
  | false =>
    rw [hpass] at hallow
    simp only [Bool.false_eq_true, if_false] at hallow ⊢
    split at hallow
    · cases hallow
    rename_i hroom
    have hstores : (latestRedirect cookie sock events).isSome = true ∨ room = true := by
      rw [← hsome]
      by_contra hdenied
      exact hroom (by simpa using hdenied)
    rw [storedBy_connect htype hpass hstores, Option.some_or] at hstored
    rw [if_neg hroom, restore_stream ((toLocal_type ctx v6 c.tcpPort).trans htype), hstored]
    simp only [Option.map_some, Option.getD_some, false_and, not_false_iff, iff_true]
    exact rewritePeer_target rfl

def remoteDial : SockAddr := ⟨.stream, loadWord [203, 0, 113, 7], Words.zero, htons 443⟩

def loopbackDial : SockAddr := ⟨.stream, loadWord [127, 0, 0, 1], Words.zero, htons 8080⟩

def loopbackTuple : Tuple := { sampleTuple with proxyPort := 8080 }

/-- A connect to 203.0.113.7:443 is refused after the hook; the next one, to 127.0.0.1:8080,
succeeds, and `getpeername` reports 203.0.113.7:443. -/
theorem stale_peername :
    ∃ s t u, exec (kernelStep ⟨15001, 15053⟩ sampleCookie) Kernel.boot
        [.hook true false false remoteDial 5 true] = some s ∧
      kernelStep ⟨15001, 15053⟩ sampleCookie s (.hook true false false loopbackDial 6 true) =
        some t ∧
      (redirect ⟨15001, 15053⟩ ⟨1, 6, true⟩ false false loopbackDial (s.storage true)).allow =
        true ∧
      exec (kernelStep ⟨15001, 15053⟩ sampleCookie) t [.establish true loopbackTuple] = some u ∧
      target false (restore ⟨15001, 15053⟩ false false
        (redirect ⟨15001, 15053⟩ ⟨1, 6, true⟩ false false loopbackDial (s.storage true)).ctx
        (u.storage true)) = target false remoteDial :=
  ⟨_, _, _, rfl, rfl, by decide, rfl, by decide⟩

theorem peername_faithful_iff_remoteDial :
    ∃ t u, kernelStep ⟨15001, 15053⟩ sampleCookie Kernel.boot
        (.hook true false false remoteDial 5 true) = some t ∧
      exec (kernelStep ⟨15001, 15053⟩ sampleCookie) t [.establish true sampleTuple] = some u ∧
      target false (restore ⟨15001, 15053⟩ false false
        (redirect ⟨15001, 15053⟩ ⟨1, 5, true⟩ false false remoteDial Storage.empty).ctx
        (u.storage true)) = target false remoteDial := by
  have hbefore : exec (kernelStep ⟨15001, 15053⟩ sampleCookie) Kernel.boot [] =
      some Kernel.boot := rfl
  have hlatest : ∀ e ∈ [Event.establish true sampleTuple], e.connects true = false := by decide
  refine ⟨_, _, rfl, rfl, ?_⟩
  refine (peername_faithful_iff rfl hbefore rfl (by decide) rfl hlatest).mpr ?_
  decide

end RealmFormal.Agent

import RealmFormal.Agent.Bpf
import RealmFormal.Lib.Intern
import RealmFormal.Lib.Transition

/-!
# DNS peer slots

The eight slots of a UDP socket refine a bounded intern table of original
destinations: slot `i` holds the destination at position `i`, the rest is zero.
Facts about ports and replies follow from positions of the table.
-/

namespace RealmFormal.Agent
open Go LittleEndian Transition
set_option autoImplicit false

/-- What identifies an original destination. -/
structure Peer where
  family : UInt32
  port : UInt32
  address : Words
  deriving DecidableEq, Repr

def Destination.peer (d : Destination) : Peer := ⟨d.family, d.port, d.address⟩

/-- The destination that a context names to a hook of this family. -/
def target (v6 : Bool) (ctx : SockAddr) : Peer where
  family := familyOf v6
  port := (ntohs ctx.userPort).toUInt32
  address := if v6 then ctx.userIp6 else { Words.zero with w0 := ctx.userIp4 }

/-! ## Refinement of the slot search -/

theorem samePeer_iff (p d : Destination) : samePeer p d = true ↔ p.peer = d.peer := by
  simp [samePeer, Destination.peer]

/-- The slots hold `ds`, followed by zeroed memory. -/
structure Holds (s : UdpState) (ds : List Destination) : Prop where
  peers : s.peers = ds ++ List.replicate (dnsSlots - ds.length) Destination.zero
  filled : ∀ d ∈ ds, d.family ≠ 0

theorem Holds.length_le {s : UdpState} {ds : List Destination} (h : Holds s ds) :
    ds.length ≤ dnsSlots := by
  have hsize := s.size
  rw [h.peers, List.length_append] at hsize
  omega

/-- Over zeroed slots the search only looks for the first empty one. -/
theorem slotSearch_zeros {d : Destination} (hd : d.family ≠ 0) (i k : Nat) (empty : Option Nat) :
    slotSearch d i empty (List.replicate k Destination.zero) =
      .inr (if empty = none ∧ 0 < k then some i else empty) := by
  induction k generalizing i empty with
  | zero => simp [slotSearch]
  | succ k ih =>
    have hne : samePeer Destination.zero d = false := by
      rw [← Bool.not_eq_true, samePeer_iff]
      exact fun h => hd (congrArg Peer.family h).symm
    simp only [List.replicate_succ, slotSearch, hne, Bool.false_eq_true, if_false, ih]
    cases empty <;> simp [Destination.zero]

/-- Over filled slots the search finds the first match and meets no empty slot. -/
theorem slotSearch_filled {d : Destination} {ds rest : List Destination}
    (hds : ∀ p ∈ ds, p.family ≠ 0) (i : Nat) :
    slotSearch d i none (ds ++ rest) =
      if d.peer ∈ ds.map Destination.peer then
        .inl (i + (ds.map Destination.peer).idxOf d.peer)
      else slotSearch d (i + ds.length) none rest := by
  induction ds generalizing i with
  | nil => simp
  | cons p ds ih =>
    have hp : p.family ≠ 0 := hds p List.mem_cons_self
    simp only [List.cons_append, slotSearch, hp, false_and, if_false]
    by_cases hsame : p.peer = d.peer
    · rw [if_pos ((samePeer_iff p d).mpr hsame)]
      simp [hsame]
    · rw [if_neg (fun h => hsame ((samePeer_iff p d).mp h)),
        ih (fun q hq => hds q (List.mem_cons_of_mem _ hq))]
      have hidx : (p.peer :: ds.map Destination.peer).idxOf d.peer =
          (ds.map Destination.peer).idxOf d.peer + 1 := by
        simp [hsame]
      simp only [List.map_cons, hidx, List.mem_cons, Ne.symm hsame, false_or, List.length_cons]
      split
      · congr 1
        omega
      · congr 1
        omega

/-- `dns_slot` is `assign`. -/
theorem dnsSlot_refines {s : UdpState} {ds : List Destination} {t : Intern Peer dnsSlots}
    (hs : Holds s ds) (ht : ds.map Destination.peer = t.items) {d : Destination}
    (hd : d.family ≠ 0) :
    (dnsSlot s d).1 = (t.assign d.peer).1 ∧
      ∃ next, Holds (dnsSlot s d).2 next ∧
        next.map Destination.peer = (t.assign d.peer).2.items := by
  have hlen : ds.length = t.items.length := by rw [← ht, List.length_map]
  have hsearch : slotSearch d 0 none s.peers =
      if d.peer ∈ t.items then .inl (t.items.idxOf d.peer)
      else .inr (if ds.length < dnsSlots then some ds.length else none) := by
    rw [hs.peers, slotSearch_filled hs.filled, slotSearch_zeros hd, ht]
    simp
  unfold dnsSlot
  rw [hsearch]
  by_cases hmem : d.peer ∈ t.items
  · simp only [hmem, if_true, Intern.assign, dif_pos]
    exact ⟨trivial, ds, hs, ht⟩
  by_cases hroom : ds.length < dnsSlots
  · have hroom' : t.items.length < dnsSlots := hlen ▸ hroom
    simp only [hmem, hroom, hroom', if_true, if_false, Intern.assign, dif_neg, dif_pos,
      not_false_iff]
    refine ⟨by rw [hlen], ds ++ [d], ⟨?_, ?_⟩, by simp [ht]⟩
    · obtain ⟨k, hk⟩ : ∃ k, dnsSlots - ds.length = k + 1 := ⟨dnsSlots - ds.length - 1, by omega⟩
      have hk' : dnsSlots - (ds ++ [d]).length = k := by
        rw [List.length_append, List.length_singleton]
        omega
      simp only [UdpState.set, hs.peers, hk, hk', List.replicate_succ]
      rw [List.set_append_right _ _ (le_refl _)]
      simp
    · intro p hp
      rcases List.mem_append.mp hp with hp | hp
      · exact hs.filled p hp
      · rw [List.mem_singleton.mp hp]
        exact hd
  · have hroom' : ¬ t.items.length < dnsSlots := hlen ▸ hroom
    simp only [hmem, hroom, hroom', if_false, Intern.assign, dif_neg, not_false_iff]
    exact ⟨trivial, ds, hs, ht⟩

/-- A search without result changes nothing. -/
theorem dnsSlot_none {s : UdpState} {d : Destination} (h : (dnsSlot s d).1 = none) :
    (dnsSlot s d).2 = s := by
  unfold dnsSlot at h ⊢
  split
  · rfl
  · rfl
  · rename_i hsearch
    rw [hsearch] at h
    cases h

/-! ## Runs of the hooks on one socket -/

inductive HookCall where
  | redirect (v6 sendmsg : Bool) (ctx : SockAddr) (ktime : UInt64) (room : Bool)
  | restore (v6 udpOnly : Bool) (ctx : SockAddr)

def socketStep (c : Constants) (cookie : UInt64) (st : Storage) : HookCall → Option Storage
  | .redirect v6 sendmsg ctx ktime room =>
    some (redirect c ⟨cookie, ktime, room⟩ v6 sendmsg ctx st).storage
  | .restore _ _ _ => some st

/-- The call sends a datagram to `p`, an original destination with port 53. -/
def Datagram (call : HookCall) (p : Peer) : Prop :=
  ∃ v6 sendmsg ctx ktime room, call = .redirect v6 sendmsg ctx ktime room ∧
    ctx.type = .dgram ∧ ntohs ctx.userPort = 53 ∧ target v6 ctx = p

section Runs
variable (c : Constants) (cookie : UInt64)

/-- The call redirects a datagram for `p` to loopback port `q`. -/
def Sends (st : Storage) (call : HookCall) (p : Peer) (q : Nat) : Prop :=
  ∃ v6 sendmsg ctx ktime room, call = .redirect v6 sendmsg ctx ktime room ∧
    ctx.type = .dgram ∧ ntohs ctx.userPort = 53 ∧ target v6 ctx = p ∧
    (redirect c ⟨cookie, ktime, room⟩ v6 sendmsg ctx st).allow = true ∧
    loopback (redirect c ⟨cookie, ktime, room⟩ v6 sendmsg ctx st).ctx v6 = true ∧
    (ntohs (redirect c ⟨cookie, ktime, room⟩ v6 sendmsg ctx st).ctx.userPort).toNat = q

/-- The call is denied and changes nothing. -/
def Denied (st : Storage) (call : HookCall) : Prop :=
  ∃ v6 sendmsg ctx ktime room, call = .redirect v6 sendmsg ctx ktime room ∧
    redirect c ⟨cookie, ktime, room⟩ v6 sendmsg ctx st = ⟨false, ctx, st⟩

/-- Some call of the run sent a datagram for `p` to port `q`. -/
def Went (calls : List HookCall) (p : Peer) (q : Nat) : Prop :=
  ∃ before call after st, calls = before ++ call :: after ∧
    exec (socketStep c cookie) Storage.empty before = some st ∧ Sends c cookie st call p q

/-- The storage refines the table, and the table is the record of the run. -/
structure SlotInv (calls : List HookCall) (st : Storage) (t : Intern Peer dnsSlots) : Prop where
  holds : ∃ ds, Holds (st.udp.getD UdpState.zero) ds ∧ ds.map Destination.peer = t.items
  unused : st.udp = none → t.items = []
  went : ∀ p q, Went c cookie calls p q ↔ ∃ i, t.items[i]? = some p ∧ q = c.dnsBase.toNat + i

end Runs

section Steps
variable {c : Constants} {cookie : UInt64} {calls : List HookCall} {st : Storage}
  {t : Intern Peer dnsSlots}

theorem went_snoc {call : HookCall} (hrun : exec (socketStep c cookie) Storage.empty calls = some st)
    {p : Peer} {q : Nat} :
    Went c cookie (calls ++ [call]) p q ↔ Went c cookie calls p q ∨ Sends c cookie st call p q := by
  constructor
  · rintro ⟨before, x, after, past, hsplit, hpast, hsends⟩
    rcases List.eq_nil_or_concat after with rfl | ⟨init, last, rfl⟩
    · obtain ⟨rfl, hx⟩ := List.append_inj' hsplit rfl
      cases hx
      rw [hrun] at hpast
      cases hpast
      exact Or.inr hsends
    · have hsplit' : calls ++ [call] = (before ++ x :: init) ++ [last] := by simpa using hsplit
      obtain ⟨rfl, -⟩ := List.append_inj' hsplit' rfl
      exact Or.inl ⟨before, x, init, past, rfl, hpast, hsends⟩
  · rintro (⟨before, x, after, past, rfl, hpast, hsends⟩ | hsends)
    · exact ⟨before, x, after ++ [call], past, by simp, hpast, hsends⟩
    · exact ⟨calls, call, [], st, rfl, hrun, hsends⟩

theorem family_ne_zero (v6 : Bool) : familyOf v6 ≠ 0 := by
  cases v6 <;> decide

/-- A DNS datagram is refused for lack of memory, or decided by the table. -/
theorem redirect_dns (h : SlotInv c cookie calls st t) (v6 sendmsg : Bool) {ctx : SockAddr}
    (ktime : UInt64) (room : Bool) (htype : ctx.type = .dgram) (hport : ntohs ctx.userPort = 53) :
    (st.udp = none ∧ redirect c ⟨cookie, ktime, room⟩ v6 sendmsg ctx st = ⟨false, ctx, st⟩) ∨
    ∃ s next, Holds s next ∧
      next.map Destination.peer = (t.assign (target v6 ctx)).2.items ∧
      (dnsSlot (st.udp.getD UdpState.zero) (readDestination ⟨cookie, ktime, room⟩ ctx v6)).2 = s ∧
      redirect c ⟨cookie, ktime, room⟩ v6 sendmsg ctx st =
        match (t.assign (target v6 ctx)).1 with
        | none => ⟨false, ctx, { st with udp := some s }⟩
        | some i =>
          ⟨true, toLocal ctx v6 (UInt16.ofNat (c.dnsBase.toNat + i)),
            { st with udp := some s }⟩ := by
  obtain ⟨ds, hds, hmap⟩ := h.holds
  have hredirect : redirect c ⟨cookie, ktime, room⟩ v6 sendmsg ctx st =
      redirectUdp c ⟨cookie, ktime, room⟩ v6 ctx st := by simp only [redirect, htype]
  rw [hredirect, redirectUdp, if_neg (not_not.mpr hport)]
  by_cases hmemory : st.udp = none ∧ ¬ room = true
  · rw [if_pos hmemory]
    exact Or.inl ⟨hmemory.1, rfl⟩
  · rw [if_neg hmemory]
    obtain ⟨hslot, next, hnext, hnextMap⟩ := dnsSlot_refines hds hmap
      (d := readDestination ⟨cookie, ktime, room⟩ ctx v6) (family_ne_zero v6)
    refine Or.inr ⟨_, next, hnext, hnextMap, rfl, ?_⟩
    have hpeer : (readDestination ⟨cookie, ktime, room⟩ ctx v6).peer = target v6 ctx := rfl
    rw [hpeer] at hslot
    rw [← hslot]
    generalize dnsSlot (st.udp.getD UdpState.zero)
      (readDestination ⟨cookie, ktime, room⟩ ctx v6) = r
    obtain ⟨_ | slot, s⟩ := r <;> rfl

/-- The port of slot `i` does not wrap. -/
theorem slot_port (hbase : c.dnsBase.toNat ≤ 65528) {i : Nat} (hi : i < dnsSlots) :
    (UInt16.ofNat (c.dnsBase.toNat + i)).toNat = c.dnsBase.toNat + i := by
  have : i < 8 := hi
  exact UInt16.toNat_ofNat_of_lt' (show _ < 65536 by omega)

/-- A datagram that the table decides goes to the port of its position. -/
theorem sends_iff (hbase : c.dnsBase.toNat ≤ 65528) {v6 sendmsg : Bool} {ctx : SockAddr}
    {ktime : UInt64} {room : Bool} {s : UdpState} (htype : ctx.type = .dgram)
    (hport : ntohs ctx.userPort = 53)
    (hr : redirect c ⟨cookie, ktime, room⟩ v6 sendmsg ctx st =
      match (t.assign (target v6 ctx)).1 with
      | none => ⟨false, ctx, { st with udp := some s }⟩
      | some i =>
        ⟨true, toLocal ctx v6 (UInt16.ofNat (c.dnsBase.toNat + i)), { st with udp := some s }⟩)
    {p : Peer} {q : Nat} :
    Sends c cookie st (.redirect v6 sendmsg ctx ktime room) p q ↔
      p = target v6 ctx ∧ ∃ i, (t.assign (target v6 ctx)).1 = some i ∧ q = c.dnsBase.toNat + i := by
  have hpos : ∀ {i}, (t.assign (target v6 ctx)).1 = some i →
      (ntohs (toLocal ctx v6 (UInt16.ofNat (c.dnsBase.toNat + i))).userPort).toNat =
        c.dnsBase.toNat + i := by
    intro i hi
    rw [toLocal_port, slot_port hbase (Intern.position_lt _ (Intern.assign_position hi))]
  constructor
  · rintro ⟨v6, sendmsg, ctx, ktime, room, hcall, -, -, rfl, hallow, -, rfl⟩
    cases hcall
    cases hassign : (t.assign (target v6 ctx)).1 with
    | none =>
      rw [hr, hassign] at hallow
      cases hallow
    | some i =>
      refine ⟨rfl, i, rfl, ?_⟩
      rw [hr, hassign]
      exact hpos hassign
  · rintro ⟨rfl, i, hi, rfl⟩
    refine ⟨v6, sendmsg, ctx, ktime, room, rfl, htype, hport, rfl, ?_⟩
    rw [hr, hi]
    exact ⟨rfl, toLocal_loopback _ _ _, hpos hi⟩

/-- A call that sends nothing and keeps the slots keeps the invariant. -/
theorem SlotInv.idle (h : SlotInv c cookie calls st t) {call : HookCall} {next : Storage}
    (hrun : exec (socketStep c cookie) Storage.empty calls = some st) (hudp : next.udp = st.udp)
    (hnone : ∀ p q, ¬ Sends c cookie st call p q) :
    SlotInv c cookie (calls ++ [call]) next t := by
  refine ⟨by rw [hudp]; exact h.holds, by rw [hudp]; exact h.unused, fun p q => ?_⟩
  rw [went_snoc hrun, ← h.went]
  exact or_iff_left (hnone p q)

theorem redirect_udp_frame {v6 sendmsg : Bool} {ctx : SockAddr} {hp : Helpers}
    (h : ¬ (ctx.type = .dgram ∧ ntohs ctx.userPort = 53)) :
    (redirect c hp v6 sendmsg ctx st).storage.udp = st.udp := by
  unfold redirect
  split
  · rename_i htype
    have hport : ntohs ctx.userPort ≠ 53 := fun hport => h ⟨htype, hport⟩
    rw [redirectUdp, if_pos hport]
  · split
    · rfl
    · unfold redirectTcp
      split
      · rfl
      · split <;> rfl
  · rfl

theorem SlotInv.step (hbase : c.dnsBase.toNat ≤ 65528) (h : SlotInv c cookie calls st t)
    (hrun : exec (socketStep c cookie) Storage.empty calls = some st) {call : HookCall}
    {next : Storage} (hstep : socketStep c cookie st call = some next) :
    ∃ t', SlotInv c cookie (calls ++ [call]) next t' := by
  cases call with
  | restore v6 udpOnly ctx =>
    cases hstep
    exact ⟨t, h.idle hrun rfl fun p q => by rintro ⟨_, _, _, _, _, hcall, -⟩; cases hcall⟩
  | redirect v6 sendmsg ctx ktime room =>
    cases hstep
    by_cases hdns : ctx.type = .dgram ∧ ntohs ctx.userPort = 53
    · obtain ⟨htype, hport⟩ := hdns
      rcases redirect_dns h v6 sendmsg ktime room htype hport with
        ⟨-, hr⟩ | ⟨s, ds, hds, hmap, -, hr⟩
      · refine ⟨t, h.idle hrun (by rw [hr]) ?_⟩
        rintro p q ⟨_, _, _, _, _, hcall, -, -, -, hallow, -⟩
        cases hcall
        rw [hr] at hallow
        cases hallow
      · have hudp : (redirect c ⟨cookie, ktime, room⟩ v6 sendmsg ctx st).storage.udp = some s := by
          rw [hr]
          split <;> rfl
        refine ⟨(t.assign (target v6 ctx)).2, ⟨ds, by rw [hudp]; exact hds, hmap⟩,
          by rw [hudp]; nofun, fun p q => ?_⟩
        rw [went_snoc hrun, h.went, sends_iff hbase htype hport hr]
        simp only [Intern.assign_items, or_and_right, exists_or, and_assoc]
        constructor
        · rintro (hold | ⟨rfl, i, hi, rfl⟩)
          · exact Or.inl hold
          · exact Or.inr ⟨i, rfl, hi, rfl⟩
        · rintro (hold | ⟨i, rfl, hi, rfl⟩)
          · exact Or.inl hold
          · exact Or.inr ⟨rfl, i, hi, rfl⟩
    · refine ⟨t, h.idle hrun (redirect_udp_frame hdns) ?_⟩
      rintro p q ⟨_, _, _, _, _, hcall, htype, hport, -⟩
      cases hcall
      exact hdns ⟨htype, hport⟩

end Steps

/-- Every run of the hooks has its table. -/
theorem slotInv_of_exec {c : Constants} {cookie : UInt64} (hbase : c.dnsBase.toNat ≤ 65528)
    {calls : List HookCall} {st : Storage}
    (h : exec (socketStep c cookie) Storage.empty calls = some st) :
    ∃ t, SlotInv c cookie calls st t := by
  refine exec_history (P := fun calls st => ∃ t, SlotInv c cookie calls st t) ?_ ?_ h
  · refine ⟨Intern.empty, ⟨[], ⟨rfl, by simp⟩, rfl⟩, fun _ => rfl, fun p q => ?_⟩
    constructor
    · rintro ⟨before, call, after, _, hsplit, -⟩
      simp at hsplit
    · rintro ⟨i, hi, -⟩
      simp [Intern.empty] at hi
  · rintro past m call next hm ⟨t, ht⟩ hstep
    exact ht.step hbase hm hstep

/-- A port belongs to one destination. -/
theorem went_unique {c : Constants} {cookie : UInt64} (hbase : c.dnsBase.toNat ≤ 65528)
    {calls : List HookCall} {st : Storage}
    (hrun : exec (socketStep c cookie) Storage.empty calls = some st) {p p' : Peer} {q : Nat}
    (hp : Went c cookie calls p q) (hp' : Went c cookie calls p' q) : p = p' := by
  obtain ⟨t, h⟩ := slotInv_of_exec hbase hrun
  obtain ⟨i, hi, rfl⟩ := (h.went _ _).mp hp
  obtain ⟨j, hj, hij⟩ := (h.went _ _).mp hp'
  obtain rfl : i = j := by omega
  rw [hi] at hj
  exact Option.some.inj hj

theorem socketStep_total (c : Constants) (cookie : UInt64) (st : Storage) (call : HookCall) :
    ∃ next, socketStep c cookie st call = some next := by
  cases call <;> exact ⟨_, rfl⟩

/-! ## The guarantees -/

/-- The slot of a datagram rewrites a context of its family to the destination of the datagram. -/
theorem rewritePeer_target {ctx sent : SockAddr} {v6 : Bool} {d : Destination}
    (hd : d.peer = target v6 sent) : target v6 (rewritePeer ctx v6 d) = target v6 sent := by
  have hfamily : d.family = familyOf v6 := congrArg Peer.family hd
  have hp : UInt16.ofNat d.port.toNat = ntohs sent.userPort := by
    rw [show d.port = (ntohs sent.userPort).toUInt32 from congrArg Peer.port hd]
    simp
  have ha := congrArg Peer.address hd
  simp only [Destination.peer] at ha
  cases v6
  · simp only [target, Bool.false_eq_true, if_false] at ha
    simp [target, rewritePeer, hfamily, hp, ntohs_htons, ha]
  · simp only [target, if_true] at ha
    simp [target, rewritePeer, hfamily, hp, ntohs_htons, ha]

theorem restore_slot {c : Constants} {v6 udpOnly : Bool} {ctx : SockAddr} {st : Storage}
    {s : UdpState} {d : Destination} {i : Nat} (htype : ctx.type = .dgram)
    (hloop : loopback ctx v6 = true) (hport : (ntohs ctx.userPort).toNat = c.dnsBase.toNat + i)
    (hst : st.udp = some s) (hd : s.peers[i]? = some d) (hi : i < dnsSlots) :
    restore c v6 udpOnly ctx st = rewritePeer ctx v6 d := by
  have hsub : c.dnsBase.toNat + i - c.dnsBase.toNat = i := by omega
  have hrange : ¬ (c.dnsBase.toNat + i < c.dnsBase.toNat ∨
      c.dnsBase.toNat + i ≥ c.dnsBase.toNat + dnsSlots ∨ ¬ loopback ctx v6 = true) := by
    rintro (h | h | h)
    · omega
    · omega
    · exact h hloop
  simp only [restore, htype, hport, if_neg hrange, hst, hsub, hd]

theorem familyOf_injective {a b : Bool} (h : familyOf a = familyOf b) : a = b := by
  revert a b
  decide

section Guarantees
variable {c : Constants} {cookie : UInt64} {calls : List HookCall} {st : Storage}
  {t : Intern Peer dnsSlots}

theorem SlotInv.resend (h : SlotInv c cookie calls st t) (hbase : c.dnsBase.toNat ≤ 65528)
    {p : Peer} {i : Nat} (hi : t.items[i]? = some p) {call : HookCall} (hcall : Datagram call p) :
    Sends c cookie st call p (c.dnsBase.toNat + i) := by
  obtain ⟨v6, sendmsg, ctx, ktime, room, rfl, htype, hport, rfl⟩ := hcall
  rcases redirect_dns h v6 sendmsg ktime room htype hport with
    ⟨hnone, -⟩ | ⟨s, ds, -, -, -, hr⟩
  · rw [h.unused hnone] at hi
    simp at hi
  · rw [sends_iff hbase htype hport hr]
    exact ⟨rfl, i, by rw [Intern.assign_of_position hi], rfl⟩

theorem SlotInv.refuse (h : SlotInv c cookie calls st t) {p : Peer} (hp : p ∉ t.items)
    (hfull : t.items.length = dnsSlots) {call : HookCall} (hcall : Datagram call p) :
    Denied c cookie st call := by
  obtain ⟨v6, sendmsg, ctx, ktime, room, rfl, htype, hport, rfl⟩ := hcall
  refine ⟨v6, sendmsg, ctx, ktime, room, rfl, ?_⟩
  rcases redirect_dns h v6 sendmsg ktime room htype hport with
    ⟨-, hr⟩ | ⟨s, ds, -, -, hs, hr⟩
  · exact hr
  · rw [Intern.assign_full hp hfull] at hr
    obtain ⟨held, hheld, hmap⟩ := h.holds
    have hslot := (dnsSlot_refines hheld hmap
      (d := readDestination ⟨cookie, ktime, room⟩ ctx v6) (family_ne_zero v6)).1
    have hpeer : (readDestination ⟨cookie, ktime, room⟩ ctx v6).peer = target v6 ctx := rfl
    rw [hpeer, Intern.assign_full hp hfull] at hslot
    rw [dnsSlot_none hslot] at hs
    cases hst : st.udp with
    | none =>
      rw [h.unused hst] at hfull
      cases hfull
    | some old =>
      rw [hst, Option.getD_some] at hs
      rw [hr, ← hs, ← hst]

theorem SlotInv.reply (h : SlotInv c cookie calls st t) {p : Peer} {i : Nat}
    (hi : t.items[i]? = some p) {sent ctx : SockAddr} {v6 udpOnly : Bool}
    (hsent : target v6 sent = p) (htype : ctx.type = .dgram) (hloop : loopback ctx v6 = true)
    (hport : (ntohs ctx.userPort).toNat = c.dnsBase.toNat + i) :
    target v6 (restore c v6 udpOnly ctx st) = p := by
  obtain ⟨ds, hds, hmap⟩ := h.holds
  cases hst : st.udp with
  | none =>
    rw [h.unused hst] at hi
    simp at hi
  | some s =>
    rw [hst, Option.getD_some] at hds
    rw [← hmap, List.getElem?_map, Option.map_eq_some_iff] at hi
    obtain ⟨d, hd, hpeer⟩ := hi
    have hlt := (List.getElem?_eq_some_iff.mp hd).1
    have hslot : s.peers[i]? = some d := by
      rw [hds.peers, List.getElem?_append_left hlt, hd]
    rw [restore_slot htype hloop hport hst hslot (lt_of_lt_of_le hlt hds.length_le), ← hsent]
    exact rewritePeer_target (hpeer.trans hsent.symm)

end Guarantees

/-- DNS slots over whole runs. A destination that has been given a port keeps it and shares it
with no other, replies on the port are attributed to it, at most eight destinations are given
ports, and the ports do not wrap. -/
theorem dns_slots_faithful {c : Constants} {cookie : UInt64} (hbase : c.dnsBase.toNat ≤ 65528)
    {calls : List HookCall} {st : Storage}
    (hrun : exec (socketStep c cookie) Storage.empty calls = some st) :
    (∀ {p q}, Went c cookie calls p q →
      (∀ {call}, Datagram call p → Sends c cookie st call p q) ∧
      (∀ {call p'}, Sends c cookie st call p' q → p' = p) ∧
      (∀ {p'}, Went c cookie calls p' q → p' = p)) ∧
    (∀ {p q v6 udpOnly ctx}, Went c cookie calls p q → p.family = familyOf v6 →
      ctx.type = .dgram → loopback ctx v6 = true → (ntohs ctx.userPort).toNat = q →
      target v6 (restore c v6 udpOnly ctx st) = p) ∧
    (∀ {ps : List Peer}, ps.Nodup → (∀ p ∈ ps, ∃ q, Went c cookie calls p q) →
      ps.length ≤ 8 ∧
      (ps.length = 8 → ∀ {p call}, p ∉ ps → Datagram call p → Denied c cookie st call)) ∧
    (∀ {p q}, Went c cookie calls p q →
      c.dnsBase.toNat ≤ q ∧ q < c.dnsBase.toNat + 8 ∧ q ≤ 65535) := by
  obtain ⟨t, h⟩ := slotInv_of_exec hbase hrun
  refine ⟨?_, ?_, ?_, ?_⟩
  · intro p q hwent
    obtain ⟨i, hi, rfl⟩ := (h.went p q).mp hwent
    refine ⟨h.resend hbase hi, fun hsends => ?_, fun hother => went_unique hbase hrun hother hwent⟩
    obtain ⟨next, hnext⟩ := socketStep_total c cookie st _
    exact went_unique hbase (exec_concat_iff.mpr ⟨st, hrun, hnext⟩)
      ((went_snoc hrun).mpr (Or.inr hsends)) ((went_snoc hrun).mpr (Or.inl hwent))
  · intro p q v6 udpOnly ctx hwent hfamily htype hloop hport
    obtain ⟨i, hi, rfl⟩ := (h.went p q).mp hwent
    obtain ⟨_, _, _, _, -, -, old, _, sent, _, _, -, -, -, rfl, -⟩ := hwent
    obtain rfl := familyOf_injective hfamily
    exact h.reply hi rfl htype hloop hport
  · intro ps hnodup hps
    have hsub : ∀ p ∈ ps, p ∈ t.items := by
      intro p hp
      obtain ⟨q, hq⟩ := hps p hp
      obtain ⟨i, hi, -⟩ := (h.went p q).mp hq
      exact List.mem_of_getElem? hi
    have hle : ps.length ≤ t.items.length := (List.subperm_of_subset hnodup hsub).length_le
    refine ⟨le_trans hle t.bounded, fun hfull p call hp hcall => ?_⟩
    have hlen : t.items.length = dnsSlots := le_antisymm t.bounded (by rwa [hfull] at hle)
    have hperm := (List.subperm_of_subset hnodup hsub).perm_of_length_le (by rw [hlen, hfull]; rfl)
    exact h.refuse (fun hmem => hp (hperm.mem_iff.mpr hmem)) hlen hcall
  · intro p q hwent
    obtain ⟨i, hi, rfl⟩ := (h.went p q).mp hwent
    have : i < 8 := t.position_lt hi
    omega

/-- A query to 1.1.1.1 port 53, the word in memory order. -/
def sampleQuery : SockAddr := ⟨.dgram, 0x01010101, Words.zero, htons 53⟩

/-- Its reply, from the first port of the worker. -/
def sampleReply : SockAddr := ⟨.dgram, htonl 0x7f000001, Words.zero, htons 15053⟩

theorem dns_slots_faithful_sampleReply :
    ∃ st, exec (socketStep ⟨15001, 15053⟩ 1) Storage.empty
        [.redirect false true sampleQuery 5 true] = some st ∧
      Went ⟨15001, 15053⟩ 1 [.redirect false true sampleQuery 5 true] (target false sampleQuery)
        15053 ∧
      target false (restore ⟨15001, 15053⟩ false true sampleReply st) = target false sampleQuery := by
  refine ⟨_, rfl, ?_⟩
  have hwent : Went ⟨15001, 15053⟩ 1 [.redirect false true sampleQuery 5 true]
      (target false sampleQuery) 15053 :=
    ⟨[], _, [], Storage.empty, rfl, rfl, false, true, sampleQuery, 5, true, rfl, rfl, by decide,
      rfl, by decide, by decide, by decide⟩
  exact ⟨hwent, (dns_slots_faithful (by decide) rfl).2.1 hwent rfl rfl (by decide) (by decide)⟩

end RealmFormal.Agent

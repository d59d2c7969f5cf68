import RealmFormal.Agent.Identity
import RealmFormal.Lib.Transition
import Mathlib.Logic.Function.Basic

/-!
# The TCP data path

Client sockets, their storage and the shared map under every interleaving of
connects, handshakes, callbacks, closes and evictions. `Sock` stands for the
sockets of the machine. The kernel runs a connect hook only on an unconnected
socket and gives an established socket a tuple that no other established socket
has; both are guards of the steps.
-/

namespace RealmFormal.Agent
open Go Transition
set_option autoImplicit false

universe u
variable {Sock : Type u} [DecidableEq Sock]

/-- `stateCb` tells which sockets report their state changes to the program. -/
structure Kernel (Sock : Type u) where
  storage : Sock → Storage
  connections : Table Bytes Destination
  established : Table Sock Tuple
  stateCb : Sock → Bool

def Kernel.boot : Kernel Sock := ⟨fun _ => Storage.empty, Table.empty, Table.empty, fun _ => false⟩

/-- `establish` completes a handshake, `active` runs the callback for it, `close` is the
transition to CLOSE from whatever state. -/
inductive Event (Sock : Type u) where
  | hook (sock : Sock) (v6 sendmsg : Bool) (ctx : SockAddr) (ktime : UInt64) (room : Bool)
  | establish (sock : Sock) (tuple : Tuple)
  | active (sock : Sock) (updated : Bool)
  | close (sock : Sock)
  | evict (key : Bytes)

/-- The hook is a connect of a stream socket. -/
def isConnect (sendmsg : Bool) (ctx : SockAddr) : Bool :=
  decide (ctx.type = .stream) && !sendmsg

/-- The context of the callback on the transition to CLOSE; only `op` is read. -/
def closing : SockOps := ⟨.stateCb 7, 0, 0, 0, Words.zero, 0, 0⟩

def Kernel.sockops (s : Kernel Sock) (sock : Sock) (ctx : SockOps) (updated : Bool) :
    Kernel Sock :=
  let r := handleSockops ctx updated (s.storage sock).tcp s.connections
  { s with
    storage := Function.update s.storage sock { s.storage sock with tcp := r.1 }
    connections := r.2.1
    stateCb := Function.update s.stateCb sock (s.stateCb sock || r.2.2) }

def Kernel.close (s : Kernel Sock) (sock : Sock) : Kernel Sock :=
  let s := if s.stateCb sock then s.sockops sock closing false else s
  { s with established := s.established.erase sock }

def kernelStep (c : Constants) (cookie : Sock → UInt64) (s : Kernel Sock) :
    Event Sock → Option (Kernel Sock)
  | .hook sock v6 sendmsg ctx ktime room =>
    if isConnect sendmsg ctx ∧ (s.established.get sock).isSome then none
    else
      some { s with
        storage := Function.update s.storage sock
          (redirect c ⟨cookie sock, ktime, room⟩ v6 sendmsg ctx (s.storage sock)).storage }
  | .establish sock tuple =>
    if (s.established.get sock).isSome ∨ ¬ tuple.source.onWire ∨
        tuple ∈ s.established.entries.map Prod.snd then none
    else some { s with established := s.established.put sock tuple }
  | .active sock updated =>
    (s.established.get sock).map fun tuple =>
      s.sockops sock (tuple.sockOps .activeEstablished) updated
  | .close sock => some (s.close sock)
  | .evict key => some { s with connections := s.connections.erase key }

/-- The destination that an event stores for `sock`: a redirected connect. The storage
lookup fails only for a first connect, so `stored` says whether storage exists. -/
def storedBy (cookie : Sock → UInt64) (sock : Sock) (stored : Bool) :
    Event Sock → Option Destination
  | .hook other v6 sendmsg ctx ktime room =>
    if other = sock ∧ isConnect sendmsg ctx ∧ ¬ passThrough ctx v6 ∧ (stored ∨ room) then
      some (readDestination ⟨cookie sock, ktime, room⟩ ctx v6)
    else none
  | _ => none

/-- The destination of the latest redirected connect of `sock` in a run. -/
def latestRedirect (cookie : Sock → UInt64) (sock : Sock) (events : List (Event Sock)) :
    Option Destination :=
  events.foldl (fun d e => (storedBy cookie sock d.isSome e).or d) none

/-! ## The worker's lookup -/

/-- One `Lookup` of the map. -/
def lookup (connections : Table Bytes Destination) (k : GoKey) : Option GoDestination :=
  (connections.get k.bytes).map fun d => GoDestination.ofBytes d.bytes

/-- The loop of `originalDestination`. Each try meets the map at its own moment, or fails
for another reason than a missing key. -/
def retryLookup (c : AcceptedConn) (k : GoKey) :
    List (Except String (Table Bytes Destination)) → Except String GoDestination
  | [] => .error ("no original destination for " ++ c.remoteAddr ++ ": lookup: key does not exist")
  | .error e :: _ => .error e
  | .ok connections :: tries =>
    match lookup connections k with
    | some d => .ok d
    | none => retryLookup c k tries

def originalDestination (c : AcceptedConn) (tries : List (Except String (Table Bytes Destination))) :
    Except String GoDestination :=
  match connectionIdentity c with
  | .error e => .error e
  | .ok k => retryLookup c k (tries.take 20)

/-! ## The invariant -/

/-- The entry belongs to an established socket that will be told when it closes. -/
structure Owner (s : Kernel Sock) (key : Bytes) (d : Destination) (sock : Sock) (tuple : Tuple)
    (st : TcpState) : Prop where
  established : s.established.get sock = some tuple
  storage : (s.storage sock).tcp = some st
  stateCb : s.stateCb sock = true
  tracked : st.tracked ≠ 0
  key : st.key.bytes = key
  original : st.original = d
  published : Published st.key tuple

structure PathInv (cookie : Sock → UInt64) (events : List (Event Sock)) (s : Kernel Sock) :
    Prop where
  latest : ∀ sock, (s.storage sock).tcp.map TcpState.original = latestRedirect cookie sock events
  cookies : ∀ {sock st}, (s.storage sock).tcp = some st → st.original.cookie = cookie sock
  owned : ∀ {key d}, s.connections.get key = some d → ∃ sock tuple st, Owner s key d sock tuple st
  unique : ∀ {a b tuple}, s.established.get a = some tuple → s.established.get b = some tuple →
    a = b
  onWire : ∀ {a tuple}, s.established.get a = some tuple → tuple.source.onWire = true

section Steps
variable {c : Constants} {cookie : Sock → UInt64} {events : List (Event Sock)} {s t : Kernel Sock}

theorem latestRedirect_snoc (sock : Sock) (e : Event Sock) :
    latestRedirect cookie sock (events ++ [e]) =
      (storedBy cookie sock (latestRedirect cookie sock events).isSome e).or
        (latestRedirect cookie sock events) := by
  simp [latestRedirect]

/-- A hook changes the TCP state exactly when it stores a destination. -/
theorem redirect_tcp (h : Helpers) (v6 sendmsg : Bool) (ctx : SockAddr) (st : Storage) :
    (redirect c h v6 sendmsg ctx st).storage.tcp =
      if isConnect sendmsg ctx ∧ ¬ passThrough ctx v6 ∧ (st.tcp.isSome ∨ h.room) then
        some { TcpState.zero with original := readDestination h ctx v6 }
      else st.tcp := by
  unfold redirect
  split
  · rename_i htype
    have hudp : (redirectUdp c h v6 ctx st).storage.tcp = st.tcp := by
      unfold redirectUdp
      split
      · rfl
      · split
        · rfl
        · split <;> rfl
    simp [isConnect, htype, hudp]
  · rename_i htype
    cases sendmsg with
    | true => simp [isConnect]
    | false =>
      unfold redirectTcp
      by_cases hpass : passThrough ctx v6 = true
      · simp [hpass]
      · cases htcp : st.tcp <;> cases hroom : h.room <;> simp [isConnect, htype, hpass, htcp]
  · rename_i htype
    simp [isConnect, htype]

/-- Frame rule: an owner keeps its entry when its own part of the state stays. -/
theorem Owner.frame {key : Bytes} {d : Destination} {sock : Sock} {tuple : Tuple} {st : TcpState}
    (h : Owner s key d sock tuple st) (hest : t.established.get sock = s.established.get sock)
    (hstorage : (t.storage sock).tcp = (s.storage sock).tcp)
    (hcb : t.stateCb sock = s.stateCb sock) : Owner t key d sock tuple st where
  established := hest.trans h.established
  storage := hstorage.trans h.storage
  stateCb := hcb.trans h.stateCb
  tracked := h.tracked
  key := h.key
  original := h.original
  published := h.published

theorem storage_update_of_ne {a b : Sock} (h : b ≠ a) (st : Storage) :
    (Function.update s.storage a st b).tcp = (s.storage b).tcp := by
  rw [Function.update_of_ne h]

theorem PathInv.hook (h : PathInv cookie events s) {sock : Sock} {v6 sendmsg : Bool}
    {ctx : SockAddr} {ktime : UInt64} {room : Bool}
    (ht : kernelStep c cookie s (.hook sock v6 sendmsg ctx ktime room) = some t) :
    PathInv cookie (events ++ [.hook sock v6 sendmsg ctx ktime room]) t := by
  simp only [kernelStep] at ht
  split at ht
  · cases ht
  rename_i hguard
  cases ht
  have hlatest := h.latest sock
  have hsome : (s.storage sock).tcp.isSome = (latestRedirect cookie sock events).isSome := by
    rw [← hlatest, Option.isSome_map]
  have hnew := redirect_tcp (c := c) ⟨cookie sock, ktime, room⟩ v6 sendmsg ctx (s.storage sock)
  refine ⟨?_, ?_, ?_, h.unique, h.onWire⟩
  · intro other
    rw [latestRedirect_snoc]
    by_cases hother : other = sock
    · subst hother
      dsimp only
      rw [Function.update_self, hnew]
      simp only [storedBy, hsome, true_and]
      split
      · rfl
      · exact hlatest
    · rw [storage_update_of_ne hother]
      simp [storedBy, Ne.symm hother, h.latest other]
  · intro other st hst
    by_cases hother : other = sock
    · subst hother
      dsimp only at hst
      rw [Function.update_self, hnew] at hst
      split at hst
      · cases hst
        rfl
      · exact h.cookies hst
    · rw [storage_update_of_ne hother] at hst
      exact h.cookies hst
  · intro key d hd
    obtain ⟨owner, tuple, st, ho⟩ := h.owned hd
    refine ⟨owner, tuple, st, ho.frame rfl ?_ rfl⟩
    by_cases hother : owner = sock
    · subst hother
      dsimp only
      rw [Function.update_self, hnew, if_neg]
      rintro ⟨hconn, -, -⟩
      exact hguard ⟨hconn, by rw [ho.established]; rfl⟩
    · exact storage_update_of_ne hother _

theorem PathInv.establish (h : PathInv cookie events s) {sock : Sock} {tuple : Tuple}
    (ht : kernelStep c cookie s (.establish sock tuple) = some t) :
    PathInv cookie (events ++ [.establish sock tuple]) t := by
  simp only [kernelStep] at ht
  split at ht
  · cases ht
  rename_i hguard
  push Not at hguard
  obtain ⟨hfree, hwire, hfresh⟩ := hguard
  cases ht
  have hfresh : ∀ {a}, s.established.get a ≠ some tuple := by
    intro a ha
    exact hfresh (List.mem_map.mpr ⟨_, Table.get_eq_some_iff.mp ha, rfl⟩)
  refine ⟨?_, h.cookies, ?_, ?_, ?_⟩
  · intro other
    rw [latestRedirect_snoc]
    simpa [storedBy] using h.latest other
  · intro key d hd
    obtain ⟨owner, old, st, ho⟩ := h.owned hd
    refine ⟨owner, old, st, ho.frame ?_ rfl rfl⟩
    have hne : owner ≠ sock := by
      rintro rfl
      rw [ho.established] at hfree
      exact hfree rfl
    simp [Table.get_put, hne]
  · intro a b x ha hb
    simp only [Table.get_put] at ha hb
    split at ha <;> split at hb
    · simp_all
    · cases ha
      exact absurd hb hfresh
    · cases hb
      exact absurd ha hfresh
    · exact h.unique ha hb
  · intro a x ha
    simp only [Table.get_put] at ha
    split at ha
    · cases ha
      exact hwire
    · exact h.onWire ha

theorem PathInv.evict (h : PathInv cookie events s) (key : Bytes) :
    PathInv cookie (events ++ [.evict key]) { s with connections := s.connections.erase key } := by
  refine ⟨?_, h.cookies, ?_, h.unique, h.onWire⟩
  · intro other
    rw [latestRedirect_snoc]
    simpa [storedBy] using h.latest other
  · intro k d hd
    rw [Table.get_erase] at hd
    split at hd
    · cases hd
    · obtain ⟨owner, tuple, st, ho⟩ := h.owned hd
      exact ⟨owner, tuple, st, ho.frame rfl rfl rfl⟩

/-- The callback on an established connection, as one state. -/
def TcpState.activate (st : TcpState) (tuple : Tuple) (updated : Bool) : TcpState :=
  { st with
    key := st.key.publish (tuple.sockOps .activeEstablished)
    tracked := if updated then 1 else st.tracked }

theorem sockops_none {sock : Sock} (h : (s.storage sock).tcp = none) (ctx : SockOps)
    (updated : Bool) : s.sockops sock ctx updated = s := by
  have hst : ({ s.storage sock with tcp := none } : Storage) = s.storage sock := by rw [← h]
  simp [Kernel.sockops, handleSockops, h, hst]

/-- The state after that callback on `sock`, whose TCP state was `st`. -/
def Kernel.activated (s : Kernel Sock) (sock : Sock) (st : TcpState) (tuple : Tuple)
    (updated : Bool) : Kernel Sock :=
  { s with
    storage := Function.update s.storage sock
      { s.storage sock with tcp := some (st.activate tuple updated) }
    connections :=
      if updated then s.connections.put (st.activate tuple updated).key.bytes st.original
      else s.connections
    stateCb := Function.update s.stateCb sock true }

theorem sockops_active {sock : Sock} {st : TcpState} (h : (s.storage sock).tcp = some st)
    (tuple : Tuple) (updated : Bool) :
    s.sockops sock (tuple.sockOps .activeEstablished) updated =
      s.activated sock st tuple updated := by
  cases updated <;>
    simp [Kernel.sockops, Kernel.activated, handleSockops, h, Tuple.sockOps, TcpState.activate]

theorem activated_tcp (sock : Sock) (st : TcpState) (tuple : Tuple) (updated : Bool)
    (other : Sock) :
    ((s.activated sock st tuple updated).storage other).tcp =
      if other = sock then some (st.activate tuple updated) else (s.storage other).tcp := by
  by_cases h : other = sock
  · subst h
    simp [Kernel.activated]
  · simp [Kernel.activated, h]

theorem activated_stateCb (sock : Sock) (st : TcpState) (tuple : Tuple) (updated : Bool)
    (other : Sock) :
    (s.activated sock st tuple updated).stateCb other =
      if other = sock then true else s.stateCb other := by
  by_cases h : other = sock
  · subst h
    simp [Kernel.activated]
  · simp [Kernel.activated, h]

theorem activated_get {sock : Sock} {st : TcpState} {tuple : Tuple} {updated : Bool}
    {key : Bytes} {d : Destination}
    (h : (s.activated sock st tuple updated).connections.get key = some d) :
    (updated = true ∧ key = (st.activate tuple updated).key.bytes ∧ d = st.original) ∨
      s.connections.get key = some d := by
  simp only [Kernel.activated] at h
  split at h
  · rename_i hup
    rw [Table.get_put] at h
    split at h
    · exact Or.inl ⟨hup, ‹_›, (Option.some.inj h).symm⟩
    · exact Or.inr h
  · exact Or.inr h

theorem Owner.activate {sock : Sock} {tuple : Tuple} (st : TcpState) (updated : Bool)
    (hest : t.established.get sock = some tuple)
    (hst : (t.storage sock).tcp = some (st.activate tuple updated))
    (hcb : t.stateCb sock = true) (htracked : (st.activate tuple updated).tracked ≠ 0) :
    Owner t (st.activate tuple updated).key.bytes st.original sock tuple
      (st.activate tuple updated) :=
  ⟨hest, hst, hcb, htracked, rfl, rfl, st.key, rfl⟩

theorem PathInv.active (h : PathInv cookie events s) {sock : Sock} {updated : Bool}
    (ht : kernelStep c cookie s (.active sock updated) = some t) :
    PathInv cookie (events ++ [.active sock updated]) t := by
  obtain ⟨tuple, htuple, rfl⟩ := Option.map_eq_some_iff.mp ht
  have hlatest : ∀ other, latestRedirect cookie other (events ++ [.active sock updated]) =
      latestRedirect cookie other events := by
    intro other
    rw [latestRedirect_snoc]
    simp [storedBy]
  cases hst : (s.storage sock).tcp with
  | none =>
    rw [sockops_none hst]
    exact ⟨fun other => (h.latest other).trans (hlatest other).symm, h.cookies, h.owned, h.unique,
      h.onWire⟩
  | some st =>
    rw [sockops_active hst]
    refine ⟨?_, ?_, ?_, h.unique, h.onWire⟩
    · intro other
      rw [hlatest, ← h.latest other, activated_tcp]
      split
      · rename_i hother
        rw [hother, hst]
        rfl
      · rfl
    · intro other x hx
      rw [activated_tcp] at hx
      split at hx
      · rename_i hother
        cases hx
        exact hother ▸ (h.cookies hst : st.original.cookie = _)
      · exact h.cookies hx
    · intro key d hd
      have hown := Owner.activate (t := s.activated sock st tuple updated) st updated
        htuple (by rw [activated_tcp, if_pos rfl])
        (by rw [activated_stateCb, if_pos rfl])
      rcases activated_get hd with ⟨rfl, rfl, rfl⟩ | hold
      · exact ⟨sock, tuple, _, hown (by simp [TcpState.activate])⟩
      · obtain ⟨owner, old, x, ho⟩ := h.owned hold
        by_cases hother : owner = sock
        · subst hother
          cases htuple.symm.trans ho.established
          cases hst.symm.trans ho.storage
          have hkey : (st.activate tuple updated).key = st.key := by
            obtain ⟨k, hk⟩ := ho.published
            rw [TcpState.activate, hk, publish_publish]
          have htracked : (st.activate tuple updated).tracked ≠ 0 := by
            cases updated
            · exact ho.tracked
            · simp [TcpState.activate]
          have hown := hown htracked
          rw [hkey, ho.key, ho.original] at hown
          exact ⟨owner, tuple, _, hown⟩
        · exact ⟨owner, old, x, ho.frame rfl (by rw [activated_tcp, if_neg hother])
            (by rw [activated_stateCb, if_neg hother])⟩

/-- The close of `sock` deletes the entry under `key`. -/
def Deletes (s : Kernel Sock) (sock : Sock) (key : Bytes) (d : Destination) : Prop :=
  s.stateCb sock = true ∧ ∃ st, (s.storage sock).tcp = some st ∧ st.tracked ≠ 0 ∧
    st.key.bytes = key ∧ d.cookie = st.original.cookie

theorem closing_state (st : Option TcpState) (connections : Table Bytes Destination) :
    (handleSockops closing false st connections).1 = st ∧
      (handleSockops closing false st connections).2.2 = false := by
  cases st with
  | none => exact ⟨rfl, rfl⟩
  | some st =>
    simp only [handleSockops, closing]
    split
    · split
      · exact ⟨rfl, rfl⟩
      · split <;> exact ⟨rfl, rfl⟩
    · exact ⟨rfl, rfl⟩

theorem closing_get {st : TcpState} {connections : Table Bytes Destination} {key : Bytes}
    {d : Destination} :
    (handleSockops closing false (some st) connections).2.1.get key = some d ↔
      connections.get key = some d ∧
        ¬ (st.tracked ≠ 0 ∧ st.key.bytes = key ∧ d.cookie = st.original.cookie) := by
  simp only [handleSockops, closing, true_and]
  by_cases htracked : st.tracked = 0
  · simp [htracked]
  by_cases hkey : st.key.bytes = key
  · subst hkey
    rw [if_pos htracked]
    cases hget : connections.get st.key.bytes with
    | none => simp [hget]
    | some old =>
      by_cases hcookie : old.cookie = st.original.cookie
      · simp only [hcookie, if_true, Table.get_erase_self]
        constructor
        · intro h
          cases h
        · rintro ⟨hd, hne⟩
          cases hd
          exact absurd ⟨htracked, trivial, hcookie⟩ hne
      · simp only [hcookie, if_false, hget, Option.some.injEq]
        constructor
        · rintro rfl
          exact ⟨rfl, fun h => hcookie h.2.2⟩
        · exact fun h => h.1
  · rw [if_pos htracked]
    have hstay : ∀ (m : Table Bytes Destination), (m.erase st.key.bytes).get key = m.get key := by
      intro m
      rw [Table.get_erase, if_neg (Ne.symm hkey)]
    split
    · simp [hkey]
    · split <;> simp [hstay, hkey]

theorem close_frame (s : Kernel Sock) (sock : Sock) :
    (s.close sock).storage = s.storage ∧ (s.close sock).stateCb = s.stateCb ∧
      (s.close sock).established = s.established.erase sock := by
  obtain ⟨hst, hcb⟩ := closing_state (s.storage sock).tcp s.connections
  unfold Kernel.close
  dsimp only
  split
  · simp [Kernel.sockops, hst, hcb]
  · exact ⟨rfl, rfl, rfl⟩

/-- Closing erases what `Deletes` says and nothing else. -/
theorem close_get {sock : Sock} {key : Bytes} {d : Destination} :
    (s.close sock).connections.get key = some d ↔
      s.connections.get key = some d ∧ ¬ Deletes s sock key d := by
  unfold Kernel.close Deletes
  dsimp only
  split
  · rename_i hcb
    cases hst : (s.storage sock).tcp with
    | none => simp [sockops_none hst]
    | some st => simp only [Kernel.sockops, hst, closing_get]; simp [hcb]
  · rename_i hcb
    simp [hcb]

theorem PathInv.close (h : PathInv cookie events s) (sock : Sock) :
    PathInv cookie (events ++ [.close sock]) (s.close sock) := by
  obtain ⟨hstorage, hcb, hest⟩ := close_frame s sock
  refine ⟨?_, ?_, ?_, ?_, ?_⟩
  · intro other
    rw [latestRedirect_snoc, hstorage]
    simpa [storedBy] using h.latest other
  · rw [hstorage]
    exact h.cookies
  · intro key d hd
    obtain ⟨hold, hkeep⟩ := close_get.mp hd
    obtain ⟨owner, tuple, st, ho⟩ := h.owned hold
    have hne : owner ≠ sock := by
      rintro rfl
      exact hkeep ⟨ho.stateCb, st, ho.storage, ho.tracked, ho.key, by rw [ho.original]⟩
    exact ⟨owner, tuple, st, ho.frame (by rw [hest, Table.get_erase, if_neg hne])
      (by rw [hstorage]) (by rw [hcb])⟩
  · intro a b tuple ha hb
    rw [hest, Table.get_erase] at ha hb
    split at ha
    · cases ha
    split at hb
    · cases hb
    exact h.unique ha hb
  · intro a tuple ha
    rw [hest, Table.get_erase] at ha
    split at ha
    · cases ha
    exact h.onWire ha

theorem PathInv.step {e : Event Sock} (h : PathInv cookie events s)
    (ht : kernelStep c cookie s e = some t) : PathInv cookie (events ++ [e]) t := by
  cases e with
  | hook sock v6 sendmsg ctx ktime room => exact h.hook ht
  | establish sock tuple => exact h.establish ht
  | active sock updated => exact h.active ht
  | close sock =>
    cases ht
    exact h.close sock
  | evict key =>
    cases ht
    exact h.evict key

end Steps

/-- The invariant holds along every run from boot. -/
theorem pathInv_of_exec {c : Constants} {cookie : Sock → UInt64} {events : List (Event Sock)}
    {s : Kernel Sock} (h : exec (kernelStep c cookie) Kernel.boot events = some s) :
    PathInv cookie events s := by
  refine exec_history (P := PathInv cookie) ?_ ?_ h
  · exact ⟨fun _ => rfl, nofun, nofun, nofun, nofun⟩
  · intro past m e t _ hinv he
    exact hinv.step he

/-! ## Fidelity -/

section Open
variable {c : Constants} {cookie : Sock → UInt64} {s t : Kernel Sock}

/-- While a socket stays open, it keeps its tuple and no connect of it is redirected. -/
theorem step_while_open {client : Sock} {tuple : Tuple} {e : Event Sock}
    (hopen : s.established.get client = some tuple) (hclose : e ≠ .close client)
    (h : kernelStep c cookie s e = some t) :
    t.established.get client = some tuple ∧ ∀ stored, storedBy cookie client stored e = none := by
  cases e with
  | hook sock v6 sendmsg ctx ktime room =>
    simp only [kernelStep] at h
    split at h
    · cases h
    rename_i hguard
    cases h
    refine ⟨hopen, fun stored => ?_⟩
    simp only [storedBy]
    rw [if_neg]
    rintro ⟨rfl, hconn, -⟩
    exact hguard ⟨hconn, by rw [hopen]; rfl⟩
  | establish sock other =>
    simp only [kernelStep] at h
    split at h
    · cases h
    rename_i hguard
    cases h
    have hne : client ≠ sock := by
      rintro rfl
      exact hguard (Or.inl (by rw [hopen]; rfl))
    exact ⟨by rw [Table.get_put, if_neg hne]; exact hopen, fun _ => rfl⟩
  | active sock updated =>
    obtain ⟨other, -, rfl⟩ := Option.map_eq_some_iff.mp h
    exact ⟨hopen, fun _ => rfl⟩
  | close sock =>
    cases h
    have hne : client ≠ sock := by
      rintro rfl
      exact hclose rfl
    refine ⟨?_, fun _ => rfl⟩
    rw [(close_frame s sock).2.2, Table.get_erase, if_neg hne]
    exact hopen
  | evict key =>
    cases h
    exact ⟨hopen, fun _ => rfl⟩

theorem latestRedirect_while_open {client : Sock} {tuple : Tuple} {before after : List (Event Sock)}
    (hopen : s.established.get client = some tuple) (hclose : ∀ e ∈ after, e ≠ .close client)
    (h : exec (kernelStep c cookie) s after = some t) :
    latestRedirect cookie client (before ++ after) = latestRedirect cookie client before := by
  induction after generalizing s before with
  | nil => rw [List.append_nil]
  | cons e after ih =>
    obtain ⟨m, hm, hrest⟩ := exec_cons_iff.mp h
    obtain ⟨hopen, hstored⟩ := step_while_open hopen (hclose e List.mem_cons_self) hm
    have hcons : before ++ e :: after = (before ++ [e]) ++ after := by simp
    rw [hcons, ih hopen (fun x hx => hclose x (List.mem_cons_of_mem _ hx)) hrest,
      latestRedirect_snoc, hstored]
    rfl

end Open

/-- The map `m` is the one of some moment of the run since when `client` has stayed open. -/
def SeenWhileOpen (c : Constants) (cookie : Sock → UInt64) (events : List (Event Sock))
    (client : Sock) (tuple : Tuple) (m : Table Bytes Destination) : Prop :=
  ∃ before after s, events = before ++ after ∧
    exec (kernelStep c cookie) Kernel.boot before = some s ∧ s.connections = m ∧
    s.established.get client = some tuple ∧ ∀ e ∈ after, e ≠ .close client

/-- A successful lookup at one moment yields the destination of the client's latest
redirected connect. -/
theorem PathInv.lookup_eq {cookie : Sock → UInt64} {events : List (Event Sock)} {s : Kernel Sock}
    (h : PathInv cookie events s) {client : Sock} {tuple : Tuple} {g : GoDestination}
    (hopen : s.established.get client = some tuple)
    (hg : lookup s.connections tuple.goKey = some g) :
    ∃ d, latestRedirect cookie client events = some d ∧ g = d.view := by
  obtain ⟨d, hd, rfl⟩ := Option.map_eq_some_iff.mp hg
  obtain ⟨owner, other, st, ho⟩ := h.owned hd
  have htuple : other = tuple := published_bytes ho.published ho.key
  subst htuple
  have howner : owner = client := h.unique ho.established hopen
  subst howner
  refine ⟨d, ?_, ofBytes_bytes d⟩
  rw [← h.latest owner, ho.storage, Option.map_some, ho.original]

theorem retryLookup_ok {a : AcceptedConn} {k : GoKey} {g : GoDestination}
    {tries : List (Except String (Table Bytes Destination))}
    (h : retryLookup a k tries = .ok g) : ∃ m, .ok m ∈ tries ∧ lookup m k = some g := by
  induction tries with
  | nil => cases h
  | cons try_ tries ih =>
    cases try_ with
    | error e => cases h
    | ok m =>
      simp only [retryLookup] at h
      split at h
      · rename_i d hd
        cases h
        exact ⟨m, List.mem_cons_self, hd⟩
      · obtain ⟨m', hmem, hm'⟩ := ih h
        exact ⟨m', List.mem_cons_of_mem _ hmem, hm'⟩

/-- Fidelity of the TCP path. Whatever the other sockets do, the worker's search for an open
client either fails or ends with the destination of that client's latest redirected connect,
and no close takes an entry from another socket. -/
theorem originalDestination_faithful {c : Constants} {cookie : Sock → UInt64}
    (hcookie : Function.Injective cookie) {events : List (Event Sock)} {s : Kernel Sock}
    (hrun : exec (kernelStep c cookie) Kernel.boot events = some s) :
    (∀ {client tuple accepted tries g}, s.established.get client = some tuple →
      accepted.Mirrors tuple →
      (∀ m, .ok m ∈ tries → SeenWhileOpen c cookie events client tuple m) →
      originalDestination accepted tries = .ok g →
      ∃ d, latestRedirect cookie client events = some d ∧ g = d.view) ∧
    (∀ {closer other key d t}, other ≠ closer → s.connections.get key = some d →
      d.cookie = cookie other → kernelStep c cookie s (.close closer) = some t →
      t.connections.get key = some d) := by
  have hinv := pathInv_of_exec hrun
  constructor
  · intro client tuple accepted tries g hopen hmirror hseen hg
    unfold originalDestination at hg
    split at hg
    · cases hg
    rename_i k hk
    obtain rfl := connectionIdentity_goKey hmirror (hinv.onWire hopen) hk
    obtain ⟨m, hmem, hm⟩ := retryLookup_ok hg
    obtain ⟨before, after, past, rfl, hbefore, rfl, hpast, hclose⟩ :=
      hseen m (List.mem_of_mem_take hmem)
    obtain ⟨mid, hmid, hafter⟩ := exec_append_iff.mp hrun
    rw [hbefore] at hmid
    cases hmid
    rw [latestRedirect_while_open hpast hclose hafter]
    exact (pathInv_of_exec hbefore).lookup_eq hpast hm
  · intro closer other key d t hne hd hother ht
    cases ht
    refine close_get.mpr ⟨hd, ?_⟩
    rintro ⟨-, st, hst, -, -, hsame⟩
    rw [hother, hinv.cookies hst] at hsame
    exact hne (hcookie hsame)

def sampleCookie (sock : Bool) : UInt64 := if sock then 1 else 2

def sampleTuple : Tuple := ⟨9, .v4 ⟨[127, 0, 0, 1], rfl⟩, 40000, 15001⟩

/-- Socket `true` connects to 203.0.113.7:443 and is redirected and published. -/
def sampleEvents : List (Event Bool) :=
  [.hook true false false ⟨.stream, loadWord [203, 0, 113, 7], Words.zero, htons 443⟩ 5 true,
    .establish true sampleTuple, .active true true]

def sampleAccepted : AcceptedConn := ⟨.ok 9, "127.0.0.1:40000", [127, 0, 0, 1], 40000, 15001⟩

def sampleDestination : Destination := ⟨1, 5, 2, 443, ⟨loadWord [203, 0, 113, 7], 0, 0, 0⟩⟩

/-- The published entry is found by the worker and survives a close of socket `false`. -/
theorem originalDestination_faithful_sampleEvents :
    ∃ s d t, exec (kernelStep ⟨15001, 15053⟩ sampleCookie) Kernel.boot sampleEvents = some s ∧
      originalDestination sampleAccepted [.ok s.connections] = .ok sampleDestination.view ∧
      latestRedirect sampleCookie true sampleEvents = some d ∧ sampleDestination.view = d.view ∧
      kernelStep ⟨15001, 15053⟩ sampleCookie s (.close false) = some t ∧
      t.connections.get sampleTuple.goKey.bytes = some sampleDestination := by
  have hinj : Function.Injective sampleCookie := by decide
  obtain ⟨s, hs⟩ : ∃ s, exec (kernelStep ⟨15001, 15053⟩ sampleCookie) Kernel.boot sampleEvents =
      some s := ⟨_, rfl⟩
  have hget : s.established.get true = some sampleTuple ∧
      s.connections.get sampleTuple.goKey.bytes = some sampleDestination := by
    cases hs
    decide +kernel
  have hfound : originalDestination sampleAccepted [.ok s.connections] =
      .ok sampleDestination.view := by
    cases hs
    rfl
  obtain ⟨hfaithful, hkept⟩ := originalDestination_faithful hinj hs
  have hmirror : sampleAccepted.Mirrors sampleTuple :=
    ⟨fun netns h => by cases h; rfl, rfl, rfl, Or.inl rfl⟩
  have hseen : ∀ m, .ok m ∈ ([.ok s.connections] : List (Except String _)) →
      SeenWhileOpen ⟨15001, 15053⟩ sampleCookie sampleEvents true sampleTuple m := by
    intro m hm
    cases List.mem_singleton.mp hm
    exact ⟨sampleEvents, [], s, by simp, hs, rfl, hget.1, by simp⟩
  obtain ⟨d, hd, hview⟩ := hfaithful hget.1 hmirror hseen hfound
  exact ⟨s, d, _, hs, hfound, hd, hview, rfl,
    hkept (show true ≠ false by decide) hget.2 (by decide) rfl⟩

end RealmFormal.Agent

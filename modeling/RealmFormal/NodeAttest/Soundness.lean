import RealmFormal.NodeAttest.ServerRuns
import RealmFormal.NodeAttest.Registry
import RealmFormal.NodeAttest.Documents

/-!
# Soundness of the attestation server

What has happened in a run by the time a call of `Verify` returns a result. The
invariant records, for every call that has not failed, the evidence it has
gathered so far; each label adds to the evidence of one call and keeps the rest.
-/

namespace RealmFormal.NodeAttest
open Go Go.Json Go.Netip Transition
set_option autoImplicit false

/-! ## Evidence -/

section Evidence
variable (jose : Jose) (origin : System) (labels : List Label)

/-- Some `Begin` of the run decoded its payload to the request of the attempt and drew
the identifier and the nonce of its challenge. -/
def Begun (a : ServerAttempt) : Prop :=
  ∃ payload id nonce, Label.begin none payload (.ok id) (.ok nonce) ∈ labels ∧
    decodeJSON unmarshalRequest payload = .ok a.request ∧
    a.challenge.id = randomValue id ∧ a.challenge.nonce = randomValue nonce

/-- Call `c` read `proof` from one of the `addresses`. -/
def ReadFrom (c : Nat) (addresses : List Addr) (proof : Bytes) : Prop :=
  ∃ address, Label.exchange c address (.response 200 [] proof false) ∈ labels ∧
    address ∈ addresses

/-- A moment of the run at which label `l` was taken and `P` held. -/
def Moment (l : Label) (P : System → Prop) : Prop :=
  ∃ before after s, labels = before ++ l :: after ∧ exec (step jose) origin before = some s ∧ P s

/-- Attempt `i` is open and its challenge has not expired. -/
def OpenInTime (i : Nat) (expiresAt : Int) (s : System) : Prop :=
  (∃ a, s.attempts[i]? = some a ∧ a.closed = false) ∧ unix s.now < expiresAt

def OpenAttempt (i : Nat) (s : System) : Prop :=
  ∃ a, s.attempts[i]? = some a ∧ a.closed = false

end Evidence

section Monotone
variable {jose : Jose} {origin : System} {labels : List Label}

theorem Begun.snoc {a : ServerAttempt} (h : Begun labels a) (l : Label) :
    Begun (labels ++ [l]) a := by
  obtain ⟨payload, id, nonce, hmem, rest⟩ := h
  exact ⟨payload, id, nonce, List.mem_append_left _ hmem, rest⟩

theorem ReadFrom.snoc {c : Nat} {addresses : List Addr} {proof : Bytes}
    (h : ReadFrom labels c addresses proof) (l : Label) :
    ReadFrom (labels ++ [l]) c addresses proof := by
  obtain ⟨address, hmem, hpinned⟩ := h
  exact ⟨address, List.mem_append_left _ hmem, hpinned⟩

theorem Moment.snoc {m : Label} {P : System → Prop} (h : Moment jose origin labels m P)
    (l : Label) : Moment jose origin (labels ++ [l]) m P := by
  obtain ⟨before, after, s, rfl, hs, hp⟩ := h
  exact ⟨before, after ++ [l], s, by simp, hs, hp⟩

theorem Moment.last {l : Label} {P : System → Prop} {s : System}
    (hs : exec (step jose) origin labels = some s) (hp : P s) :
    Moment jose origin (labels ++ [l]) l P :=
  ⟨labels, [], s, rfl, hs, hp⟩

end Monotone

/-! ## The invariant -/

section Invariant
variable (jose : Jose) (origin : System) (labels : List Label)

/-- What call `c` of attempt `i` has established at each point of `Verify`. -/
def Evidence (c i : Nat) (a : ServerAttempt) (proof : Bytes) : Progress → Prop
  | .entered => True
  | .fetching rest => ∀ address ∈ rest, address ∈ a.node.addresses
  | .fetched => ReadFrom labels c a.node.addresses proof
  | .checked => ReadFrom labels c a.node.addresses proof ∧ a.proves jose proof = .ok ()
  | .locked =>
    ReadFrom labels c a.node.addresses proof ∧ a.proves jose proof = .ok () ∧
      Moment jose origin labels (.recheck c) (OpenInTime i a.challenge.expiresAt) ∧
      a.closed = false
  | .returned (.ok r) =>
    ReadFrom labels c a.node.addresses proof ∧ a.proves jose proof = .ok () ∧
      Moment jose origin labels (.recheck c) (OpenInTime i a.challenge.expiresAt) ∧
      Moment jose origin labels (.charge c) (OpenAttempt i) ∧ r = origin.server.result a
  | .returned (.error _) => True

/-- What `Begin` fixes for the whole life of an attempt. -/
structure WellBegun (a : ServerAttempt) : Prop where
  node : origin.server.nodes.get a.request.fqdn = some a.node
  begun : Begun labels a
  version : a.challenge.version = 1
  raw : a.rawChallenge = encode a.challenge.value

structure RunInv (s : System) : Prop where
  config : s.server.config = origin.server.config
  nodes : s.server.nodes = origin.server.nodes
  attempts : ∀ {i : Nat} {a}, s.attempts[i]? = some a → WellBegun origin labels a
  calls : ∀ {c : Nat} {k}, s.calls[c]? = some k → k.progress.failed = false →
    ∃ a, s.attempts[k.attempt]? = some a ∧ a.verified = true ∧
      Evidence jose origin labels c k.attempt a k.proof k.progress
  single : ∀ {c d : Nat} {k m}, s.calls[c]? = some k → s.calls[d]? = some m →
    k.progress.failed = false → m.progress.failed = false → k.attempt = m.attempt → c = d

end Invariant

/-- Two states of one attempt: only the flags differ. -/
structure SameAttempt (a b : ServerAttempt) : Prop where
  node : b.node = a.node
  request : b.request = a.request
  challenge : b.challenge = a.challenge
  raw : b.rawChallenge = a.rawChallenge
  verified : a.verified = true → b.verified = true

section Steps
variable {jose : Jose} {origin : System} {labels : List Label}

theorem Evidence.snoc {c i : Nat} {a : ServerAttempt} {proof : Bytes} {p : Progress}
    (h : Evidence jose origin labels c i a proof p) (l : Label) :
    Evidence jose origin (labels ++ [l]) c i a proof p := by
  match p, h with
  | .entered, h => exact h
  | .fetching _, h => exact h
  | .fetched, h => exact ReadFrom.snoc h l
  | .checked, h => exact ⟨h.1.snoc l, h.2⟩
  | .locked, h => exact ⟨h.1.snoc l, h.2.1, h.2.2.1.snoc l, h.2.2.2⟩
  | .returned (.ok _), h =>
    exact ⟨h.1.snoc l, h.2.1, h.2.2.1.snoc l, h.2.2.2.1.snoc l, h.2.2.2.2⟩
  | .returned (.error _), h => exact h

/-- Evidence does not depend on the flags, except that a locked attempt is open. -/
theorem Evidence.same {c i : Nat} {a b : ServerAttempt} {proof : Bytes} {p : Progress}
    (h : Evidence jose origin labels c i a proof p) (hab : SameAttempt a b)
    (hopen : p.isLocked = true → b.closed = a.closed) :
    Evidence jose origin labels c i b proof p := by
  have hproves : b.proves jose proof = a.proves jose proof := by
    simp only [ServerAttempt.proves, hab.request, hab.raw]
  have hresult : origin.server.result b = origin.server.result a := by
    simp only [Server.result, hab.node]
  match p, h with
  | .entered, h => exact h
  | .fetching _, h => simpa only [Evidence, hab.node] using h
  | .fetched, h => simpa only [Evidence, hab.node] using h
  | .checked, h => simpa only [Evidence, hab.node, hproves] using h
  | .locked, h =>
    simpa only [Evidence, hab.node, hab.challenge, hproves, hopen rfl] using h
  | .returned (.ok _), h =>
    simpa only [Evidence, hab.node, hab.challenge, hproves, hresult] using h
  | .returned (.error _), h => exact h

theorem WellBegun.snoc {a : ServerAttempt} (h : WellBegun origin labels a) (l : Label) :
    WellBegun origin (labels ++ [l]) a :=
  ⟨h.node, h.begun.snoc l, h.version, h.raw⟩

theorem WellBegun.same {a b : ServerAttempt} (h : WellBegun origin labels a)
    (hab : SameAttempt a b) : WellBegun origin labels b := by
  obtain ⟨hnode, ⟨payload, id, nonce, hmem, hreq, hid, hnonce⟩, hversion, hraw⟩ := h
  exact ⟨by rw [hab.request, hab.node, hnode],
    ⟨payload, id, nonce, hmem, by rw [hreq, hab.request], by rw [hab.challenge, hid],
      by rw [hab.challenge, hnonce]⟩,
    by rw [hab.challenge, hversion], by rw [hab.raw, hab.challenge, hraw]⟩

/-- A label that touches neither attempts nor calls keeps the invariant. -/
theorem RunInv.frame {s t : System} (h : RunInv jose origin labels s) (l : Label)
    (hconfig : t.server.config = s.server.config) (hnodes : t.server.nodes = s.server.nodes)
    (hattempts : t.attempts = s.attempts) (hcalls : t.calls = s.calls) :
    RunInv jose origin (labels ++ [l]) t where
  config := hconfig.trans h.config
  nodes := hnodes.trans h.nodes
  attempts := by
    intro i a ha
    rw [hattempts] at ha
    exact (h.attempts ha).snoc l
  calls := by
    intro c k hk hf
    rw [hcalls] at hk
    obtain ⟨a, ha, hv, he⟩ := h.calls hk hf
    exact ⟨a, by rw [hattempts]; exact ha, hv, he.snoc l⟩
  single := by
    rw [hcalls]
    exact h.single

/-- Replacing the flags of one attempt. -/
theorem RunInv.setAttempt {s : System} (h : RunInv jose origin labels s) (l : Label) {i : Nat}
    {a b : ServerAttempt} (ha : s.attempts[i]? = some a) (hab : SameAttempt a b)
    (hopen : s.locked i = true → b.closed = a.closed) :
    RunInv jose origin (labels ++ [l]) { s with attempts := s.attempts.set i b } where
  config := h.config
  nodes := h.nodes
  attempts := by
    intro j x hx
    rw [List.getElem?_set] at hx
    split at hx
    · split at hx
      · cases hx
        exact ((h.attempts ha).same hab).snoc l
      · cases hx
    · exact (h.attempts hx).snoc l
  calls := by
    intro c k hk hf
    obtain ⟨x, hx, hv, he⟩ := h.calls hk hf
    by_cases hi : i = k.attempt
    · subst hi
      rw [ha] at hx
      cases hx
      have hlt := (List.getElem?_eq_some_iff.mp ha).1
      refine ⟨b, by simp [hlt], hab.verified hv, (he.same hab fun hl => hopen ?_).snoc l⟩
      exact List.any_eq_true.mpr ⟨k, List.mem_of_getElem? hk, by simp [hl]⟩
    · exact ⟨x, by simp [List.getElem?_set_ne hi, hx], hv, he.snoc l⟩
  single := h.single

/-- Moving one call forward. -/
theorem RunInv.setCall {s : System} (h : RunInv jose origin labels s) (l : Label) {c : Nat}
    {k k' : Call} {a : ServerAttempt} {server : Server}
    (hconfig : server.config = s.server.config) (hnodes : server.nodes = s.server.nodes)
    (hk : s.calls[c]? = some k) (ha : s.attempts[k.attempt]? = some a)
    (hattempt : k'.attempt = k.attempt)
    (hnew : k'.progress.failed = false → k.progress.failed = false ∧
      (Evidence jose origin labels c k.attempt a k.proof k.progress →
        Evidence jose origin (labels ++ [l]) c k.attempt a k'.proof k'.progress)) :
    RunInv jose origin (labels ++ [l]) { s with calls := s.calls.set c k', server } where
  config := hconfig.trans h.config
  nodes := hnodes.trans h.nodes
  attempts := fun hx => (h.attempts hx).snoc l
  calls := by
    intro d m hm hf
    rw [List.getElem?_set] at hm
    split at hm
    · rename_i hd
      split at hm
      · cases hm
        subst hd
        obtain ⟨hkf, hev⟩ := hnew hf
        obtain ⟨x, hx, hv, he⟩ := h.calls hk hkf
        rw [ha] at hx
        cases hx
        rw [hattempt]
        exact ⟨a, ha, hv, hev he⟩
      · cases hm
    · obtain ⟨x, hx, hv, he⟩ := h.calls hm hf
      exact ⟨x, hx, hv, he.snoc l⟩
  single := by
    have back : ∀ {d : Nat} {m}, (s.calls.set c k')[d]? = some m → m.progress.failed = false →
        ∃ m₀, s.calls[d]? = some m₀ ∧ m₀.progress.failed = false ∧ m₀.attempt = m.attempt := by
      intro d m hm hf
      rw [List.getElem?_set] at hm
      split at hm
      · rename_i hd
        split at hm
        · cases hm
          subst hd
          exact ⟨k, hk, (hnew hf).1, hattempt.symm⟩
        · cases hm
      · exact ⟨m, hm, hf, rfl⟩
    intro d e m n hm hn hfm hfn hmn
    obtain ⟨m₀, hm₀, hf₀, ha₀⟩ := back hm hfm
    obtain ⟨n₀, hn₀, hf₁, ha₁⟩ := back hn hfn
    exact h.single hm₀ hn₀ hf₀ hf₁ (by rw [ha₀, ha₁, hmn])

theorem getElem?_snoc_cases {α : Type} {xs : List α} {x y : α} {i : Nat}
    (h : (xs ++ [x])[i]? = some y) : xs[i]? = some y ∨ i = xs.length ∧ y = x := by
  rw [List.getElem?_append] at h
  split at h
  · exact Or.inl h
  · rename_i hlt
    obtain ⟨hi, hy⟩ := List.getElem?_eq_some_iff.mp h
    have hzero : i - xs.length = 0 := Nat.lt_one_iff.mp hi
    exact Or.inr ⟨by omega, by simpa [hzero] using hy.symm⟩

/-- A new attempt. -/
theorem RunInv.addAttempt {s : System} (h : RunInv jose origin labels s) (l : Label)
    {a : ServerAttempt} {server : Server} (hconfig : server.config = s.server.config)
    (hnodes : server.nodes = s.server.nodes) (ha : WellBegun origin (labels ++ [l]) a) :
    RunInv jose origin (labels ++ [l]) { s with server, attempts := s.attempts ++ [a] } where
  config := hconfig.trans h.config
  nodes := hnodes.trans h.nodes
  attempts := by
    intro i x hx
    rcases getElem?_snoc_cases hx with hold | ⟨-, rfl⟩
    · exact (h.attempts hold).snoc l
    · exact ha
  calls := by
    intro c k hk hf
    obtain ⟨x, hx, hv, he⟩ := h.calls hk hf
    have hlt := (List.getElem?_eq_some_iff.mp hx).1
    exact ⟨x, by simp [List.getElem?_append_left hlt, hx], hv, he.snoc l⟩
  single := h.single

/-- A new call, refused or entered, of an attempt without a call that could still succeed. -/
theorem RunInv.addCall {s : System} (h : RunInv jose origin labels s) {k : Call}
    (hk : k.progress.failed = false →
      (∃ a, s.attempts[k.attempt]? = some a ∧ a.verified = true) ∧
      (k.progress = .entered) ∧
      ∀ {c : Nat} {m}, s.calls[c]? = some m → m.progress.failed = false →
        m.attempt ≠ k.attempt) :
    RunInv jose origin labels { s with calls := s.calls ++ [k] } where
  config := h.config
  nodes := h.nodes
  attempts := h.attempts
  calls := by
    intro c m hm hf
    rcases getElem?_snoc_cases hm with hold | ⟨-, rfl⟩
    · exact h.calls hold hf
    · obtain ⟨⟨a, ha, hv⟩, hp, -⟩ := hk hf
      exact ⟨a, ha, hv, by rw [hp]; trivial⟩
  single := by
    intro c d m n hm hn hfm hfn hmn
    rcases getElem?_snoc_cases hm with hmo | ⟨hc, rfl⟩ <;>
      rcases getElem?_snoc_cases hn with hno | ⟨hd, rfl⟩
    · exact h.single hmo hno hfm hfn hmn
    · exact absurd hmn ((hk hfn).2.2 hmo hfm)
    · exact absurd hmn.symm ((hk hfm).2.2 hno hfn)
    · exact hc.trans hd.symm

theorem RunInv.begin {s : System} (h : RunInv jose origin labels s) (ctxErr : Option CtxErr)
    (payload : Bytes) (id nonce : Except String (List.Vector UInt8 32)) :
    RunInv jose origin (labels ++ [.begin ctxErr payload id nonce])
      (s.begin ctxErr payload id nonce) := by
  unfold System.begin
  split
  · exact h.frame _ rfl rfl rfl rfl
  rename_i a server hbegin
  obtain ⟨request, node, i, n, hscreen, rfl, rfl, -, rfl, hconfig, hnodes⟩ := begin_ok hbegin
  obtain ⟨rfl, hdecode, -, hnode, -⟩ := screen_ok hscreen
  refine h.addAttempt _ hconfig hnodes ⟨?_, ?_, rfl, rfl⟩
  · rw [← h.nodes]
    exact hnode
  · exact ⟨payload, i, n, by simp, hdecode, rfl, rfl⟩

theorem RunInv.verify {s t : System} (h : RunInv jose origin labels s) {i : Nat}
    {response : Bytes} (ht : s.verify i response = some t) :
    RunInv jose origin (labels ++ [.verify i response]) t := by
  obtain ⟨a, ha, rfl⟩ := Option.map_eq_some_iff.mp ht
  split
  · exact (h.frame (.verify i response) rfl rfl rfl rfl).addCall fun hf => by cases hf
  rename_i b henter
  obtain ⟨-, hfresh, rfl⟩ := enter_ok henter
  have hset := h.setAttempt (.verify i response) (b := { a with verified := true }) ha
    ⟨rfl, rfl, rfl, rfl, fun _ => rfl⟩ fun _ => rfl
  have hlt := (List.getElem?_eq_some_iff.mp ha).1
  refine hset.addCall fun _ => ⟨⟨_, by simp [hlt]; rfl, rfl⟩, rfl, ?_⟩
  rintro c m hm hf rfl
  obtain ⟨x, hx, hv, -⟩ := h.calls hm hf
  rw [ha] at hx
  cases hx
  rw [hfresh] at hv
  cases hv

/-- The loop of `fetch` only ever holds addresses of the node. -/
theorem next_evidence {c i : Nat} {a : ServerAttempt} {k : Call} {rest : List Addr}
    (hrest : ∀ address ∈ rest, address ∈ a.node.addresses) :
    Evidence jose origin labels c i a (k.next rest).proof (k.next rest).progress := by
  cases rest with
  | nil => trivial
  | cons address rest => exact hrest

theorem next_attempt (k : Call) (rest : List Addr) : (k.next rest).attempt = k.attempt := by
  cases rest <;> rfl

theorem RunInv.accept {s : System} (h : RunInv jose origin labels s) {c : Nat} {k k' : Call}
    {a : ServerAttempt} {now : Int} (hk : s.calls[c]? = some k)
    (ha : s.attempts[k.attempt]? = some a) (hstep : k.accept a now = some k') :
    RunInv jose origin (labels ++ [.accept c]) { s with calls := s.calls.set c k' } := by
  unfold Call.accept at hstep
  split at hstep
  · rename_i hp
    split at hstep
    · cases hstep
      exact h.setCall _ rfl rfl hk ha rfl fun hf => by cases hf
    · cases hstep
      refine h.setCall _ rfl rfl hk ha (next_attempt _ _) fun _ => ⟨by rw [hp]; rfl, fun _ => ?_⟩
      exact next_evidence fun _ hmem => hmem
  · cases hstep

theorem RunInv.exchange {s : System} (h : RunInv jose origin labels s) {c : Nat} {k k' : Call}
    {a : ServerAttempt} {address : Addr} {x : Exchange} (hk : s.calls[c]? = some k)
    (ha : s.attempts[k.attempt]? = some a) (hstep : k.exchange a address x = some k') :
    RunInv jose origin (labels ++ [.exchange c address x])
      { s with calls := s.calls.set c k' } := by
  unfold Call.exchange at hstep
  split at hstep
  · rename_i target rest hp
    split at hstep
    · cases hstep
    rename_i htarget
    have htarget : address = target := not_not.mp htarget
    subst htarget
    split at hstep
    · cases hstep
      exact h.setCall _ rfl rfl hk ha rfl fun hf => by cases hf
    · cases hstep
      refine h.setCall _ rfl rfl hk ha (next_attempt _ _) fun _ =>
        ⟨by rw [hp]; rfl, fun he => ?_⟩
      rw [hp] at he
      exact next_evidence fun y hy => he y (List.mem_cons_of_mem _ hy)
    · rename_i body hbody
      cases hstep
      refine h.setCall _ rfl rfl hk ha rfl fun _ => ⟨by rw [hp]; rfl, fun he => ?_⟩
      rw [hp] at he
      exact ⟨address, by simp [fetchOne_body hbody], he address List.mem_cons_self⟩
  · cases hstep

theorem RunInv.check {s : System} (h : RunInv jose origin labels s) {c : Nat} {k k' : Call}
    {a : ServerAttempt} (hk : s.calls[c]? = some k)
    (ha : s.attempts[k.attempt]? = some a) (hstep : k.check jose a = some k') :
    RunInv jose origin (labels ++ [.check c]) { s with calls := s.calls.set c k' } := by
  unfold Call.check at hstep
  split at hstep
  · rename_i hp
    split at hstep
    · cases hstep
      exact h.setCall _ rfl rfl hk ha rfl fun hf => by cases hf
    · rename_i hproves
      cases hstep
      refine h.setCall _ rfl rfl hk ha rfl fun _ => ⟨by rw [hp]; rfl, fun he => ?_⟩
      rw [hp] at he
      exact ⟨ReadFrom.snoc he _, hproves⟩
  · cases hstep

theorem RunInv.recheck {s : System} (h : RunInv jose origin labels s)
    (hs : exec (step jose) origin labels = some s) {c : Nat} {k k' : Call}
    {a : ServerAttempt} (hk : s.calls[c]? = some k)
    (ha : s.attempts[k.attempt]? = some a) (hstep : k.recheck a s.now = some k') :
    RunInv jose origin (labels ++ [.recheck c]) { s with calls := s.calls.set c k' } := by
  unfold Call.recheck at hstep
  split at hstep
  · rename_i hp
    split at hstep
    · cases hstep
      exact h.setCall _ rfl rfl hk ha rfl fun hf => by cases hf
    · rename_i hlive
      obtain ⟨hopen, hnow, -⟩ := live_ok hlive
      cases hstep
      refine h.setCall _ rfl rfl hk ha rfl fun _ => ⟨by rw [hp]; rfl, fun he => ?_⟩
      rw [hp] at he
      exact ⟨he.1.snoc _, he.2, Moment.last hs ⟨⟨a, ha, hopen⟩, hnow⟩, hopen⟩
  · cases hstep

theorem RunInv.charge {s : System} (h : RunInv jose origin labels s)
    (hs : exec (step jose) origin labels = some s) {c : Nat} {k k' : Call} {server : Server}
    {a : ServerAttempt} (hk : s.calls[c]? = some k) (ha : s.attempts[k.attempt]? = some a)
    (hstep : k.charge a s.server s.now = some (k', server)) :
    RunInv jose origin (labels ++ [.charge c]) { s with calls := s.calls.set c k', server } := by
  obtain ⟨hconfig, hnodes⟩ := chargeSuccess_frame s.server a.node.name s.now
  unfold Call.charge at hstep
  split at hstep
  · rename_i hp
    split at hstep <;> rename_i hcharge <;> cases hstep <;> rw [hcharge] at hconfig hnodes
    · exact h.setCall _ hconfig hnodes hk ha rfl fun hf => by cases hf
    · refine h.setCall _ hconfig hnodes hk ha rfl fun _ => ⟨by rw [hp]; rfl, fun he => ?_⟩
      rw [hp] at he
      obtain ⟨hread, hproves, htime, hopen⟩ := he
      refine ⟨hread.snoc _, hproves, htime.snoc _, Moment.last hs ⟨a, ha, hopen⟩, ?_⟩
      have : server.config = origin.server.config := hconfig.trans h.config
      simp only [Server.result, this]
  · cases hstep

theorem RunInv.close {s : System} (h : RunInv jose origin labels s) {i : Nat}
    {a : ServerAttempt} (hfree : s.locked i = false) (ha : s.attempts[i]? = some a) :
    RunInv jose origin (labels ++ [.close i])
      { s with attempts := s.attempts.set i a.close } := by
  refine h.setAttempt _ ha ?_ fun hl => by rw [hfree] at hl; cases hl
  unfold ServerAttempt.close
  split <;> exact ⟨rfl, rfl, rfl, rfl, id⟩

/-- Every label keeps the invariant. -/
theorem RunInv.step {s t : System} {l : Label} (h : RunInv jose origin labels s)
    (hs : exec (step jose) origin labels = some s) (hstep : step jose s l = some t) :
    RunInv jose origin (labels ++ [l]) t := by
  cases l with
  | begin ctxErr payload id nonce =>
    cases hstep
    exact h.begin ctxErr payload id nonce
  | verify i response =>
    simp only [NodeAttest.step] at hstep
    split at hstep
    · cases hstep
    · exact h.verify hstep
  | accept c =>
    obtain ⟨k, a, k', server, hk, ha, hf, rfl⟩ := onCall_eq_some hstep
    obtain ⟨m, hm, heq⟩ := Option.map_eq_some_iff.mp hf
    cases heq
    exact h.accept hk ha hm
  | exchange c address x =>
    obtain ⟨k, a, k', server, hk, ha, hf, rfl⟩ := onCall_eq_some hstep
    obtain ⟨m, hm, heq⟩ := Option.map_eq_some_iff.mp hf
    cases heq
    exact h.exchange hk ha hm
  | check c =>
    obtain ⟨k, a, k', server, hk, ha, hf, rfl⟩ := onCall_eq_some hstep
    obtain ⟨m, hm, heq⟩ := Option.map_eq_some_iff.mp hf
    cases heq
    exact h.check hk ha hm
  | recheck c =>
    obtain ⟨k, a, k', server, hk, ha, hf, rfl⟩ := onCall_eq_some hstep
    split at hf
    · cases hf
    obtain ⟨m, hm, heq⟩ := Option.map_eq_some_iff.mp hf
    cases heq
    exact h.recheck hs hk ha hm
  | charge c =>
    obtain ⟨k, a, k', server, hk, ha, hf, rfl⟩ := onCall_eq_some hstep
    exact h.charge hs hk ha hf
  | close i =>
    simp only [NodeAttest.step] at hstep
    split at hstep
    · cases hstep
    rename_i hfree
    obtain ⟨a, ha, rfl⟩ := onAttempt_eq_some hstep
    exact h.close (by simpa using hfree) ha
  | remove i =>
    obtain ⟨a, ha, hrest⟩ := Option.bind_eq_some_iff.mp hstep
    split at hrest
    · cases hrest
      obtain ⟨hconfig, hnodes⟩ := remove_frame s.server i a
      exact h.frame _ hconfig hnodes rfl rfl
    · cases hrest
  | endContext i e =>
    obtain ⟨a, ha, rfl⟩ := onAttempt_eq_some hstep
    exact h.setAttempt _ ha ⟨rfl, rfl, rfl, rfl, id⟩ fun _ => rfl
  | endFetch c e =>
    obtain ⟨k, a, k', server, hk, ha, hf, rfl⟩ := onCall_eq_some hstep
    cases hf
    exact h.setCall _ rfl rfl hk ha rfl fun hf => ⟨hf, fun he => he.snoc _⟩
  | tick d =>
    cases hstep
    exact h.frame _ rfl rfl rfl rfl

end Steps

/-- The invariant holds along every run from a fresh server. -/
theorem runInv_of_exec {jose : Jose} {server : Server} {now : Int} {labels : List Label}
    {s : System} (h : exec (step jose) (System.start server now) labels = some s) :
    RunInv jose (System.start server now) labels s := by
  refine exec_history (P := RunInv jose (System.start server now)) ?_ ?_ h
  · exact ⟨rfl, rfl, fun h => by simp [System.start] at h, fun h => by simp [System.start] at h,
      fun h => by simp [System.start] at h⟩
  · intro past m l t hm hinv hl
    exact hinv.step hm hl

/-! ## What a result says about the run -/

theorem proves_signs {jose : Jose} {a : ServerAttempt} {proof : Bytes}
    (h : a.proves jose proof = .ok ()) :
    Signs jose proof a.request.bootstrapJWK a.rawChallenge := by
  unfold ServerAttempt.proves at h
  split at h
  · cases h
  rename_i payload hpayload
  split at h
  · cases h
  rename_i heq
  rw [← not_not.mp heq]
  exact verifyProof_signs hpayload

/-- Call `k`, number `c` of the run, may return `r`: `a` is its attempt, and `policy` is the
entry of the configuration for `name`. -/
structure Justified (jose : Jose) (config : ServerConfig) (origin : System)
    (labels : List Label) (s : System) (c : Nat) (k : Call) (r : Result) (a : ServerAttempt)
    (name : Bytes) (policy : NodePolicy) : Prop where
  attempt : s.attempts[k.attempt]? = some a
  begun : Begun labels a
  challenge : a.rawChallenge = encode a.challenge.value
  registered : config.nodes.get name = some policy ∧ policy.fqdn = a.request.fqdn
  agentID : r.agentID =
    str "spiffe://" ++ config.trustDomain ++ str "/spire/agent/http_fqdn/" ++ name
  selectors : r.selectorValues = [str "fqdn:" ++ policy.fqdn]
  read : ∃ literal ∈ policy.addresses, ∃ address, parseAddr literal = some address ∧
    Label.exchange c address (.response 200 [] k.proof false) ∈ labels
  signed : Signs jose k.proof a.request.bootstrapJWK a.rawChallenge
  inTime : Moment jose origin labels (.recheck c) (OpenInTime k.attempt a.challenge.expiresAt)
  notClosed : Moment jose origin labels (.charge c) (OpenAttempt k.attempt)
  first : ∀ {d : Nat} {m q}, s.calls[d]? = some m → m.progress = .returned (.ok q) →
    m.attempt = k.attempt → d = c
  ownDocument : ∀ {d : Nat} {m q}, s.calls[d]? = some m → m.progress = .returned (.ok q) →
    m.proof = k.proof → m.attempt = k.attempt

/-- Attempts with equal challenge texts are one attempt, when no identifier was drawn twice. -/
theorem RunInv.attempt_unique {jose : Jose} {origin : System} {labels : List Label} {s : System}
    (h : RunInv jose origin labels s) (hids : (s.attempts.map fun a => a.challenge.id).Nodup)
    {i j : Nat} {a b : ServerAttempt} (ha : s.attempts[i]? = some a)
    (hb : s.attempts[j]? = some b) (hraw : a.rawChallenge = b.rawChallenge) : i = j := by
  have wa := h.attempts ha
  have wb := h.attempts hb
  obtain ⟨-, ida, -, -, -, hida, -⟩ := wa.begun
  obtain ⟨-, idb, -, -, -, hidb, -⟩ := wb.begun
  rw [wa.raw, wb.raw] at hraw
  have hid := encode_challenge_id wa.version wb.version hida hidb hraw
  have hpos : ∀ {n : Nat} {x : ServerAttempt}, s.attempts[n]? = some x →
      (s.attempts.map fun a => a.challenge.id)[n]? = some x.challenge.id := by
    intro n x hx
    rw [List.getElem?_map, hx, Option.map_some]
  have hlt := (List.getElem?_eq_some_iff.mp (hpos ha)).1
  exact (List.getElem?_inj hlt hids).mp (by rw [hpos ha, hpos hb, hid])

/-- In every run of an accepted server, whatever clients and endpoints send, a result of
`Verify` is justified. -/
theorem verify_justified {jose : Jose} {config : ServerConfig} {server : Server} {now : Int}
    {labels : List Label} {s : System} (hserver : newServer config = .ok server)
    (hrun : exec (step jose) (System.start server now) labels = some s)
    (hids : (s.attempts.map fun a => a.challenge.id).Nodup)
    {c : Nat} {k : Call} {r : Result} (hk : s.calls[c]? = some k)
    (hr : k.progress = .returned (.ok r)) :
    ∃ a name policy,
      Justified jose config (System.start server now) labels s c k r a name policy := by
  have hinv := runInv_of_exec hrun
  have evidence : ∀ {d : Nat} {m q}, s.calls[d]? = some m → m.progress = .returned (.ok q) →
      m.progress.failed = false ∧ ∃ a, s.attempts[m.attempt]? = some a ∧
        Evidence jose (System.start server now) labels d m.attempt a m.proof
          (.returned (.ok q)) := by
    intro d m q hm hq
    have hf : m.progress.failed = false := by rw [hq]; rfl
    obtain ⟨a, ha, -, he⟩ := hinv.calls hm hf
    exact ⟨hf, a, ha, hq ▸ he⟩
  obtain ⟨hf, a, ha, ⟨address, hread, hpinned⟩, hproves, htime, hopen, rfl⟩ := evidence hk hr
  have hwell := hinv.attempts ha
  obtain ⟨policy, hpolicy, hfqdn, hnodeFqdn, -, -, haddresses, -⟩ :=
    newServer_describes hserver hwell.node
  have hconfig := (newServer_ok hserver).1
  refine ⟨a, a.node.name, policy, ?_⟩
  constructor
  case attempt => exact ha
  case begun => exact hwell.begun
  case challenge => exact hwell.raw
  case registered => exact ⟨Table.get_eq_some_iff.mpr hpolicy, hfqdn⟩
  case agentID => simp [Server.result, System.start, hconfig, pluginName, str]
  case selectors => simp [Server.result, hnodeFqdn, hfqdn]
  case read =>
    have hmem : some address ∈ policy.addresses.map parseAddr :=
      haddresses ▸ List.mem_map_of_mem hpinned
    obtain ⟨literal, hliteral, hparse⟩ := List.mem_map.mp hmem
    exact ⟨literal, hliteral, address, hparse, hread⟩
  case signed => exact proves_signs hproves
  case inTime => exact htime
  case notClosed => exact hopen
  case first =>
    intro d m q hm hq hsame
    exact hinv.single hm hk (evidence hm hq).1 hf hsame
  case ownDocument =>
    intro d m q hm hq hproof
    obtain ⟨-, b, hb, -, hsigned, -⟩ := evidence hm hq
    rw [hproof] at hsigned
    exact hinv.attempt_unique hids hb ha (signs_unique (proves_signs hsigned)
      (proves_signs hproves)).2

def sampleConfig : ServerConfig where
  trustDomain := str "realm.test"
  nodes := ⟨[(str "alpha", ⟨str "alpha.test", [str "192.0.2.1"]⟩)], by decide⟩
  port := 8080
  trustHTTPTransport := true
  metricsAddress := []

def sampleServer : Server :=
  ⟨sampleConfig,
    ⟨[(str "alpha.test", ⟨str "alpha", str "alpha.test", [.v4 ⟨[192, 0, 2, 1], rfl⟩]⟩)], by decide⟩,
    Table.empty, fun _ => [], none⟩

theorem newServer_sampleConfig : newServer sampleConfig = .ok sampleServer := by rfl

def sampleLabels : List Label :=
  [.begin none (encode sampleRequest.value) (.ok (sampleRandom 1)) (.ok (sampleRandom 2)),
    .verify 0 (encode (Ready.value ⟨1, sampleChallenge.id⟩)), .accept 0,
    .exchange 0 (.v4 ⟨[192, 0, 2, 1], rfl⟩) (.response 200 [] sampleBody false),
    .check 0, .recheck 0, .charge 0]

def Progress.succeeded : Progress → Bool
  | .returned (.ok _) => true
  | _ => false

/-- The sample run gives call 0 a result. -/
theorem sampleRun : (exec (step sampleJose) (System.start sampleServer 0) sampleLabels).any
    (fun s => decide (s.attempts.map fun a => a.challenge.id).Nodup &&
      (s.calls[0]?).any fun k => k.progress.succeeded) = true := by
  decide +kernel

theorem succeeded_result {p : Progress} (h : p.succeeded = true) : ∃ r, p = .returned (.ok r) := by
  match p, h with
  | .returned (.ok r), _ => exact ⟨r, rfl⟩

theorem verify_justified_sampleRun :
    ∃ s k r a name policy,
      exec (step sampleJose) (System.start sampleServer 0) sampleLabels = some s ∧
      s.calls[0]? = some k ∧ k.progress = .returned (.ok r) ∧
      Justified sampleJose sampleConfig (System.start sampleServer 0) sampleLabels s 0 k r a
        name policy := by
  obtain ⟨s, hrun, hs⟩ := (Option.any_eq_true _ _).mp sampleRun
  rw [Bool.and_eq_true, decide_eq_true_iff] at hs
  obtain ⟨k, hk, hp⟩ := (Option.any_eq_true _ _).mp hs.2
  obtain ⟨r, hr⟩ := succeeded_result hp
  obtain ⟨a, name, policy, h⟩ := verify_justified newServer_sampleConfig hrun hs.1 hk hr
  exact ⟨s, k, r, a, name, policy, hrun, hk, hr, h⟩

end RealmFormal.NodeAttest

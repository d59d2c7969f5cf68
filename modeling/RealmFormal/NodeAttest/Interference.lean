import RealmFormal.NodeAttest.Soundness
import RealmFormal.NodeAttest.ResponderStore

/-!
# What other clients leave alone

One session of the server, and one proof of the responder, while other clients
are served. The server keeps an attempt and its call apart from all others. The
responder keeps a proof until it expires, unless a request for its identifier
is accepted.
-/

namespace RealmFormal.NodeAttest
open Go Transition
set_option autoImplicit false

/-! ## The server -/

/-- The label neither uses nor ends attempt `i`, and does not belong to call `c`. -/
def Label.foreign (i : Nat) (c : Option Nat) : Label → Prop
  | .begin _ _ _ _ => True
  | .verify a _ => a ≠ i
  | .accept n => some n ≠ c
  | .exchange n _ _ => some n ≠ c
  | .check n => some n ≠ c
  | .recheck n => some n ≠ c
  | .charge n => some n ≠ c
  | .close a => a ≠ i
  | .remove _ => True
  | .endContext a _ => a ≠ i
  | .endFetch n _ => some n ≠ c
  | .tick _ => True

/-- Attempt `i` and call `c` of `s` are the same in `t`. -/
structure Untouched (i : Nat) (c : Option Nat) (s t : System) : Prop where
  attempt : ∀ a, s.attempts[i]? = some a → t.attempts[i]? = some a
  call : ∀ n k, c = some n → s.calls[n]? = some k → t.calls[n]? = some k

theorem getElem?_append_some {α : Type} {xs ys : List α} {n : Nat} {x : α}
    (h : xs[n]? = some x) : (xs ++ ys)[n]? = some x := by
  rw [List.getElem?_append_left (List.getElem?_eq_some_iff.mp h).1, h]

theorem onCall_untouched {i n : Nat} {c : Option Nat} {s t : System}
    {f : Call → ServerAttempt → Option (Call × Server)} (h : s.onCall n f = some t)
    (hn : some n ≠ c) : Untouched i c s t := by
  obtain ⟨k, a, k', server, -, -, -, rfl⟩ := onCall_eq_some h
  refine ⟨fun _ ha => ha, ?_⟩
  rintro m x rfl hx
  rwa [← List.getElem?_set_ne fun heq => hn (congrArg some heq)] at hx

theorem onAttempt_untouched {i j : Nat} {c : Option Nat} {s t : System}
    {f : ServerAttempt → ServerAttempt} (h : s.onAttempt j f = some t) (hj : j ≠ i) :
    Untouched i c s t := by
  obtain ⟨a, -, rfl⟩ := onAttempt_eq_some h
  refine ⟨fun x hx => ?_, fun _ _ _ hk => hk⟩
  rwa [← List.getElem?_set_ne hj] at hx

theorem verify_untouched {i j : Nat} {c : Option Nat} {s t : System} {response : Bytes}
    (h : s.verify j response = some t) (hj : j ≠ i) : Untouched i c s t := by
  obtain ⟨a, -, rfl⟩ := Option.map_eq_some_iff.mp h
  split
  · exact ⟨fun _ hx => hx, fun _ _ _ hk => getElem?_append_some hk⟩
  · refine ⟨fun x hx => ?_, fun _ _ _ hk => getElem?_append_some hk⟩
    rwa [← List.getElem?_set_ne hj] at hx

theorem begin_untouched {i : Nat} {c : Option Nat} {s : System} {ctxErr : Option CtxErr}
    {payload : Bytes} {id nonce : Except String (List.Vector UInt8 32)} :
    Untouched i c s (s.begin ctxErr payload id nonce) := by
  unfold System.begin
  split
  · exact ⟨fun _ ha => ha, fun _ _ _ hk => hk⟩
  · exact ⟨fun _ ha => getElem?_append_some ha, fun _ _ _ hk => hk⟩

theorem Label.foreign.untouched {jose : Jose} {i : Nat} {c : Option Nat} {l : Label}
    {s t : System} (hl : l.foreign i c) (h : step jose s l = some t) : Untouched i c s t := by
  cases l with
  | begin ctxErr payload id nonce =>
    cases h
    exact begin_untouched
  | verify j response =>
    simp only [step, Option.ite_none_left_eq_some] at h
    exact verify_untouched h.2 hl
  | accept n => exact onCall_untouched h hl
  | exchange n address x => exact onCall_untouched h hl
  | check n => exact onCall_untouched h hl
  | recheck n => exact onCall_untouched h hl
  | charge n => exact onCall_untouched h hl
  | close j =>
    simp only [step, Option.ite_none_left_eq_some] at h
    exact onAttempt_untouched h.2 hl
  | remove j =>
    obtain ⟨a, -, hs⟩ := Option.bind_eq_some_iff.mp h
    obtain ⟨-, hs⟩ := Option.ite_none_right_eq_some.mp hs
    cases hs
    exact ⟨fun _ ha => ha, fun _ _ _ hk => hk⟩
  | endContext j e => exact onAttempt_untouched h hl
  | endFetch n e => exact onCall_untouched h hl
  | tick d =>
    cases h
    exact ⟨fun _ ha => ha, fun _ _ _ hk => hk⟩

section Session
variable {jose : Jose} {origin : System}

/-- A reachable state in which attempt `i` is `a`. -/
structure AtAttempt (jose : Jose) (origin : System) (i : Nat) (a : ServerAttempt) (s : System) :
    Prop where
  reached : ∃ labels, exec (step jose) origin labels = some s
  attempt : s.attempts[i]? = some a

/-- A reachable state in which call `c` of attempt `k.attempt` is `k`. -/
structure AtCall (jose : Jose) (origin : System) (c : Nat) (k : Call) (a : ServerAttempt)
    (s : System) : Prop extends AtAttempt jose origin k.attempt a s where
  call : s.calls[c]? = some k

theorem reached_step {s t : System} {l : Label}
    (h : ∃ labels, exec (step jose) origin labels = some s) (hstep : step jose s l = some t) :
    ∃ labels, exec (step jose) origin labels = some t := by
  obtain ⟨labels, hs⟩ := h
  exact ⟨labels ++ [l], exec_concat_iff.mpr ⟨s, hs, hstep⟩⟩

theorem AtAttempt.foreign {i : Nat} {a : ServerAttempt} {s t : System} {l : Label}
    (h : AtAttempt jose origin i a s) (hl : l.foreign i none) (hstep : step jose s l = some t) :
    AtAttempt jose origin i a t :=
  ⟨reached_step h.reached hstep, (hl.untouched hstep).attempt a h.attempt⟩

theorem AtCall.foreign {c : Nat} {k : Call} {a : ServerAttempt} {s t : System} {l : Label}
    (h : AtCall jose origin c k a s) (hl : l.foreign k.attempt (some c))
    (hstep : step jose s l = some t) : AtCall jose origin c k a t :=
  have huntouched := hl.untouched hstep
  { reached := reached_step h.reached hstep
    attempt := huntouched.attempt a h.attempt
    call := huntouched.call c k rfl h.call }

/-- A step of call `c` itself. -/
theorem AtCall.own {c : Nat} {k k' : Call} {a : ServerAttempt} {s : System} {l : Label}
    {f : Call → ServerAttempt → Option (Call × Server)} (h : AtCall jose origin c k a s)
    (server : Server) (hstep : step jose s l = s.onCall c f)
    (hf : f k a = some (k', server)) (hsame : k'.attempt = k.attempt) :
    ∃ u, step jose s l = some u ∧ AtCall jose origin c k' a u := by
  have hlt := (List.getElem?_eq_some_iff.mp h.call).1
  have hu : step jose s l = some { s with calls := s.calls.set c k', server } := by
    rw [hstep, System.onCall, h.call, Option.bind_some, h.attempt, Option.bind_some, hf]
    rfl
  exact ⟨_, hu,
    { reached := reached_step h.reached hu
      attempt := hsame ▸ h.attempt
      call := List.getElem?_set_self hlt }⟩

/-- Who holds the mutex of an attempt is a call that has not failed. -/
theorem locked_call {s : System} {i : Nat} (h : s.locked i = true) :
    ∃ (c : Nat) (k : Call), s.calls[c]? = some k ∧ k.attempt = i ∧ k.progress = .locked := by
  obtain ⟨k, hk, hlocked⟩ := List.any_eq_true.mp h
  obtain ⟨c, hc⟩ := List.mem_iff_getElem?.mp hk
  rw [Bool.and_eq_true, decide_eq_true_iff] at hlocked
  refine ⟨c, k, hc, hlocked.1, ?_⟩
  match k.progress, hlocked.2 with
  | .locked, _ => rfl

theorem AtAttempt.unlocked {server : Server} {now : Int} {i : Nat} {a : ServerAttempt}
    {s : System} (h : AtAttempt jose (System.start server now) i a s)
    (hfresh : a.verified = false) : s.locked i = false := by
  by_contra hlocked
  obtain ⟨c, k, hc, rfl, hp⟩ := locked_call (eq_true_of_ne_false hlocked)
  obtain ⟨labels, hs⟩ := h.reached
  obtain ⟨b, hb, hverified, -⟩ := (runInv_of_exec hs).calls hc (by rw [hp]; rfl)
  rw [h.attempt] at hb
  cases hb
  rw [hfresh] at hverified
  cases hverified

theorem AtCall.unlocked {server : Server} {now : Int} {c : Nat} {k : Call} {a : ServerAttempt}
    {s : System} (h : AtCall jose (System.start server now) c k a s)
    (hp : k.progress = .checked) : s.locked k.attempt = false := by
  by_contra hlocked
  obtain ⟨d, m, hd, hm, hmp⟩ := locked_call (eq_true_of_ne_false hlocked)
  obtain ⟨labels, hs⟩ := h.reached
  have hdc := (runInv_of_exec hs).single hd h.call (by rw [hmp]; rfl) (by rw [hp]; rfl) hm
  subst hdc
  rw [h.call] at hd
  cases hd
  rw [hp] at hmp
  cases hmp

end Session

/-! ## The responder -/

def Pending.id : Pending → Bytes
  | .put id _ _ => id
  | .delete id => id

/-- The label accepts no request for `id`. -/
def StoreLabel.foreign (id : Bytes) (s : Store) : StoreLabel → Prop
  | .commit n _ _ => ∀ p, s.waiting[n]? = some p → p.id ≠ id
  | _ => True

theorem Swept.get {clock : Bytes → Int} {r r' : Responder} (h : Swept clock r r') {id : Bytes}
    {p : StoredProof} (hp : r.proofs.get id = some p) :
    r'.proofs.get id = some p ∨ p.expiresAt ≤ unix (clock id) := by
  cases hget : r'.proofs.get id with
  | none => exact Or.inr (h.gone id p hp hget)
  | some q =>
    cases hp.symm.trans (h.kept id q hget)
    exact Or.inl rfl

theorem commit_get {r : Responder} {clock : Bytes → Int} {q : Pending} {id : Bytes}
    (hq : q.id ≠ id) {p : StoredProof} (hp : r.proofs.get id = some p) :
    (r.commit clock q).2.proofs.get id = some p ∨ p.expiresAt ≤ unix (clock id) := by
  cases q with
  | put j body expiresAt =>
    have hne : id ≠ j := Ne.symm hq
    have hswept := (r.expireLocked_swept clock).get hp
    simp only [Responder.commit, Responder.publish]
    split
    · exact hswept
    · rwa [Table.get_put, if_neg hne]
  | delete j =>
    have hne : id ≠ j := Ne.symm hq
    left
    simp only [Responder.commit, Responder.withdraw]
    split
    · rwa [Table.get_erase, if_neg hne]
    · exact hp

/-- What is taken out of a list by its position is the only thing that leaves it. -/
theorem mem_eraseIdx_of_ne {α : Type} {l : List α} {n : Nat} {x y : α} (hy : l[n]? = some y)
    (hx : x ∈ l) (hne : x ≠ y) : x ∈ l.eraseIdx n := by
  obtain ⟨m, hm⟩ := List.mem_iff_getElem?.mp hx
  refine List.mem_eraseIdx_iff_getElem?.mpr ⟨m, ?_, hm⟩
  intro hmn
  subst hmn
  exact hne (Option.some.inj (hm.symm.trans hy))

section Store
variable {jose : Jose} {id : Bytes} {s t : Store} {l : StoreLabel}

theorem step_time (h : s.step jose l = some t) : s.time ≤ t.time := by
  cases storeStep_of_step h with
  | get hreads => exact reads_time hreads
  | refused hle _ => exact hle
  | queued hle _ => exact hle
  | commit hreads _ => exact reads_time hreads
  | cleanup hreads => exact reads_time hreads

/-- A waiting request keeps waiting while the others commit theirs. -/
theorem StoreLabel.foreign.waiting (hl : l.foreign id s) (h : s.step jose l = some t)
    {p : Pending} (hp : p ∈ s.waiting) (hid : p.id = id) : p ∈ t.waiting := by
  cases storeStep_of_step h with
  | get _ => exact hp
  | refused _ _ => exact hp
  | queued _ _ => exact List.mem_append_left _ hp
  | @commit n clock done q _ hq =>
    refine mem_eraseIdx_of_ne hq hp ?_
    rintro rfl
    exact hl p hq hid
  | cleanup _ => exact hp

/-- The proof is stored unless it has expired. -/
def Kept (id : Bytes) (p : StoredProof) (s : Store) : Prop :=
  s.responder.proofs.get id = some p ∨ p.expiresAt ≤ unix s.time

theorem StoreLabel.foreign.kept (hl : l.foreign id s) (h : s.step jose l = some t)
    {p : StoredProof} (hp : Kept id p s) : Kept id p t := by
  rcases hp with hp | hexpired
  swap
  · exact Or.inr (hexpired.trans (unix_mono (step_time h)))
  have inTime : ∀ {clock : Bytes → Int} {done : Int}, s.reads clock done = true →
      p.expiresAt ≤ unix (clock id) → p.expiresAt ≤ unix done :=
    fun hreads hgone => hgone.trans (unix_mono (reads_entry hreads hp).2)
  cases storeStep_of_step h with
  | get hreads => exact ((publicHandler_swept _ _ _ _).get hp).imp_right (inTime hreads)
  | refused _ _ => exact Or.inl hp
  | queued _ _ => exact Or.inl hp
  | commit hreads hq => exact (commit_get (hl _ hq) hp).imp_right (inTime hreads)
  | cleanup hreads => exact ((s.responder.expireLocked_swept _).get hp).imp_right (inTime hreads)

end Store

end RealmFormal.NodeAttest

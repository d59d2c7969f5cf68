import RealmFormal.Lib.Transition

/-!
# Permits of the limited listener

`limitedListener` and `limitedConnection` of the responder. A permit is an element of a
channel with room for `limit` elements. `Accept` puts one in, and takes it out again
if the listener fails; otherwise the connection takes it out, in a function that
`sync.Once` runs for one of the calls of `Close`. Calls of all kinds interleave at
every point where they can wait.
-/

namespace RealmFormal.NodeAttest.LimitListener
open Transition
set_option autoImplicit false

/-- Where a call of `Accept` stands: at the `select`, inside `Listener.Accept`, before it takes
its permit out again, or returned. A connection is named by its number. -/
inductive AcceptCall where
  | waiting
  | accepting
  | failing (err : String)
  | failed (err : String)
  | accepted (conn : Nat)
  deriving DecidableEq

/-- The call has put its permit in and neither taken it out nor handed it on. -/
def AcceptCall.holds : AcceptCall → Bool
  | .accepting | .failing _ => true
  | .waiting | .failed _ | .accepted _ => false

/-- The `once` of a connection, with the call of `Close` that runs its function. The function has
returned in `given`, and `Do` in `finished`. -/
inductive Once where
  | fresh
  | running (call : Nat)
  | given (call : Nat)
  | finished
  deriving DecidableEq

/-- The connection has not taken its permit out. -/
def Once.holds : Once → Bool
  | .fresh | .running _ => true
  | .given _ | .finished => false

/-- Where a call of `Close` on a connection stands: inside `Conn.Close`, before `once.Do`, before
and after the function of `Do`, or returned. -/
inductive Phase where
  | closing | entering | releasing | released | returned
  deriving DecidableEq

structure CloseCall where
  conn : Nat
  phase : Phase
  deriving DecidableEq

/-- `permits` is the number of elements in the channel, `done` that the other channel is closed. -/
structure Listener where
  permits : Nat
  done : Bool
  accepts : List AcceptCall
  conns : List Once
  closes : List CloseCall
  deriving DecidableEq

def Listener.initial : Listener := ⟨0, false, [], [], []⟩

inductive Label where
  | accept
  | acquire (i : Nat)
  | refuse (i : Nat)
  | listened (i : Nat) (err : Option String)
  | giveBack (i : Nat)
  | close (conn : Nat)
  | closed (k : Nat)
  | enter (k : Nat)
  | release (k : Nat)
  | finish (k : Nat)
  | shutdown
  deriving DecidableEq

/-- `net.ErrClosed`. -/
def errClosed : String := "use of closed network connection"

/-- The result of `Listener.Accept`. -/
def Listener.answer (s : Listener) (i : Nat) : Option String → Listener
  | some e => { s with accepts := s.accepts.set i (.failing e) }
  | none =>
    { s with
      accepts := s.accepts.set i (.accepted s.conns.length)
      conns := s.conns ++ [.fresh] }

/-- `once.Do` runs the function for the first call and returns at once after that; a call that
comes while the function runs waits. -/
def Listener.enter (s : Listener) (k c : Nat) : Option Listener :=
  match s.conns[c]? with
  | some .fresh =>
    some { s with
      conns := s.conns.set c (.running k)
      closes := s.closes.set k ⟨c, .releasing⟩ }
  | some .finished => some { s with closes := s.closes.set k ⟨c, .returned⟩ }
  | _ => none

/-- Run `f` with the connection of close call `k` if the call stands at `phase`. -/
def Listener.onClose (s : Listener) (k : Nat) (phase : Phase) (f : Nat → Option Listener) :
    Option Listener :=
  (s.closes[k]?).bind fun call => if call.phase = phase then f call.conn else none

/-- Receiving from the channel waits for an element, sending waits for room. -/
def Listener.step (limit : Nat) (s : Listener) : Label → Option Listener
  | .accept => some { s with accepts := s.accepts ++ [.waiting] }
  | .acquire i =>
    if s.accepts[i]? = some .waiting ∧ s.permits < limit then
      some { s with permits := s.permits + 1, accepts := s.accepts.set i .accepting }
    else none
  | .refuse i =>
    if s.accepts[i]? = some .waiting ∧ s.done then
      some { s with accepts := s.accepts.set i (.failed errClosed) }
    else none
  | .listened i err => if s.accepts[i]? = some .accepting then some (s.answer i err) else none
  | .giveBack i =>
    match s.accepts[i]? with
    | some (.failing e) =>
      if 0 < s.permits then
        some { s with permits := s.permits - 1, accepts := s.accepts.set i (.failed e) }
      else none
    | _ => none
  | .close conn =>
    if conn < s.conns.length then some { s with closes := s.closes ++ [⟨conn, .closing⟩] } else none
  | .closed k =>
    s.onClose k .closing fun c => some { s with closes := s.closes.set k ⟨c, .entering⟩ }
  | .enter k => s.onClose k .entering fun c => s.enter k c
  | .release k =>
    s.onClose k .releasing fun c =>
      if 0 < s.permits then
        some { s with
          permits := s.permits - 1
          conns := s.conns.set c (.given k)
          closes := s.closes.set k ⟨c, .released⟩ }
      else none
  | .finish k =>
    s.onClose k .released fun c =>
      some { s with conns := s.conns.set c .finished, closes := s.closes.set k ⟨c, .returned⟩ }
  | .shutdown => some { s with done := true }

/-! ## Steps -/

/-- What a step does, and when it can be taken. -/
inductive Moved (limit : Nat) (s : Listener) : Label → Listener → Prop where
  | accept : Moved limit s .accept { s with accepts := s.accepts ++ [.waiting] }
  | acquire (i : Nat) (waiting : s.accepts[i]? = some .waiting) (room : s.permits < limit) :
      Moved limit s (.acquire i)
        { s with permits := s.permits + 1, accepts := s.accepts.set i .accepting }
  | refuse (i : Nat) (waiting : s.accepts[i]? = some .waiting) :
      Moved limit s (.refuse i) { s with accepts := s.accepts.set i (.failed errClosed) }
  | listened (i : Nat) (err : Option String) (accepting : s.accepts[i]? = some .accepting) :
      Moved limit s (.listened i err) (s.answer i err)
  | giveBack (i : Nat) (e : String) (failing : s.accepts[i]? = some (.failing e)) :
      Moved limit s (.giveBack i)
        { s with permits := s.permits - 1, accepts := s.accepts.set i (.failed e) }
  | close (conn : Nat) (made : conn < s.conns.length) :
      Moved limit s (.close conn) { s with closes := s.closes ++ [⟨conn, .closing⟩] }
  | closed (k c : Nat) (call : s.closes[k]? = some ⟨c, .closing⟩) :
      Moved limit s (.closed k) { s with closes := s.closes.set k ⟨c, .entering⟩ }
  | run (k c : Nat) (call : s.closes[k]? = some ⟨c, .entering⟩) (once : s.conns[c]? = some .fresh) :
      Moved limit s (.enter k)
        { s with
          conns := s.conns.set c (.running k)
          closes := s.closes.set k ⟨c, .releasing⟩ }
  | pass (k c : Nat) (call : s.closes[k]? = some ⟨c, .entering⟩)
      (once : s.conns[c]? = some .finished) :
      Moved limit s (.enter k) { s with closes := s.closes.set k ⟨c, .returned⟩ }
  | release (k c : Nat) (call : s.closes[k]? = some ⟨c, .releasing⟩) :
      Moved limit s (.release k)
        { s with
          permits := s.permits - 1
          conns := s.conns.set c (.given k)
          closes := s.closes.set k ⟨c, .released⟩ }
  | finish (k c : Nat) (call : s.closes[k]? = some ⟨c, .released⟩) :
      Moved limit s (.finish k)
        { s with conns := s.conns.set c .finished, closes := s.closes.set k ⟨c, .returned⟩ }
  | shutdown : Moved limit s .shutdown { s with done := true }

section Steps
variable {limit : Nat} {s t : Listener} {l : Label}

theorem onClose_eq_some {k : Nat} {phase : Phase} {f : Nat → Option Listener}
    (h : s.onClose k phase f = some t) :
    ∃ c, s.closes[k]? = some ⟨c, phase⟩ ∧ f c = some t := by
  obtain ⟨call, hcall, hrest⟩ := Option.bind_eq_some_iff.mp h
  obtain ⟨hphase, hf⟩ := Option.ite_none_right_eq_some.mp hrest
  refine ⟨call.conn, ?_, hf⟩
  rw [hcall, ← hphase]

theorem step_moved (h : s.step limit l = some t) : Moved limit s l t := by
  cases l with
  | accept =>
    cases h
    exact .accept
  | acquire i =>
    obtain ⟨⟨hwaiting, hroom⟩, heq⟩ := Option.ite_none_right_eq_some.mp h
    cases heq
    exact .acquire i hwaiting hroom
  | refuse i =>
    obtain ⟨⟨hwaiting, -⟩, heq⟩ := Option.ite_none_right_eq_some.mp h
    cases heq
    exact .refuse i hwaiting
  | listened i err =>
    obtain ⟨haccepting, heq⟩ := Option.ite_none_right_eq_some.mp h
    cases heq
    exact .listened i err haccepting
  | giveBack i =>
    simp only [Listener.step] at h
    split at h
    · rename_i e hfailing
      obtain ⟨-, heq⟩ := Option.ite_none_right_eq_some.mp h
      cases heq
      exact .giveBack i e hfailing
    · cases h
  | close conn =>
    obtain ⟨hmade, heq⟩ := Option.ite_none_right_eq_some.mp h
    cases heq
    exact .close conn hmade
  | closed k =>
    simp only [Listener.step] at h
    obtain ⟨c, hcall, heq⟩ := onClose_eq_some h
    cases heq
    exact .closed k c hcall
  | enter k =>
    simp only [Listener.step] at h
    obtain ⟨c, hcall, hc⟩ := onClose_eq_some h
    unfold Listener.enter at hc
    split at hc
    · rename_i honce
      cases hc
      exact .run k c hcall honce
    · rename_i honce
      cases hc
      exact .pass k c hcall honce
    · cases hc
  | release k =>
    simp only [Listener.step] at h
    obtain ⟨c, hcall, hc⟩ := onClose_eq_some h
    obtain ⟨-, heq⟩ := Option.ite_none_right_eq_some.mp hc
    cases heq
    exact .release k c hcall
  | finish k =>
    simp only [Listener.step] at h
    obtain ⟨c, hcall, heq⟩ := onClose_eq_some h
    cases heq
    exact .finish k c hcall
  | shutdown =>
    cases h
    exact .shutdown

end Steps

/-! ## Who holds the permits -/

/-- The holders: calls of `Accept` past their permit, and connections not yet closed. -/
def Listener.held (s : Listener) : Nat :=
  s.accepts.countP AcceptCall.holds + s.conns.countP Once.holds

/-- What the `once` of a connection says about a call of `Close` on it. -/
def Phase.Agrees (k : Nat) (once : Once) : Phase → Prop
  | .closing | .entering => True
  | .releasing => once = .running k
  | .released => once = .given k
  | .returned => once = .finished

structure Listener.Inv (limit : Nat) (s : Listener) : Prop where
  balance : s.permits = s.held
  bounded : s.permits ≤ limit
  agrees : ∀ {k : Nat} {call : CloseCall}, s.closes[k]? = some call →
    ∃ once, s.conns[call.conn]? = some once ∧ call.phase.Agrees k once

theorem countP_set_add {α : Type} {p : α → Bool} {xs : List α} {i : Nat} {x y : α}
    (h : xs[i]? = some x) :
    (xs.set i y).countP p + (p x).toNat = xs.countP p + (p y).toNat := by
  obtain ⟨hi, rfl⟩ := List.getElem?_eq_some_iff.mp h
  have hle := List.boole_getElem_le_countP (p := p) hi
  rw [List.countP_set hi]
  generalize xs.countP p = n, p xs[i] = held at hle ⊢
  cases held <;> cases p y <;> simp at hle ⊢
  all_goals omega

section Invariant
variable {limit : Nat} {s t : Listener}

theorem Listener.Inv.initial (limit : Nat) : Listener.initial.Inv limit :=
  ⟨rfl, Nat.zero_le _, fun h => by cases h⟩

/-- A holder in the list is counted. -/
theorem countP_pos_of_getElem? {α : Type} {p : α → Bool} {xs : List α} {i : Nat} {x : α}
    (h : xs[i]? = some x) (hp : p x = true) : 0 < xs.countP p :=
  List.countP_pos_iff.mpr ⟨x, List.mem_of_getElem? h, hp⟩

theorem Listener.Inv.pos_of_accept (h : s.Inv limit) {i : Nat} {call : AcceptCall}
    (hcall : s.accepts[i]? = some call) (hholds : call.holds = true) : 0 < s.permits := by
  have hpos := countP_pos_of_getElem? hcall hholds
  rw [h.balance, Listener.held]
  omega

theorem Listener.Inv.pos_of_conn (h : s.Inv limit) {c : Nat} {once : Once}
    (honce : s.conns[c]? = some once) (hholds : once.holds = true) : 0 < s.permits := by
  have hpos := countP_pos_of_getElem? honce hholds
  rw [h.balance, Listener.held]
  omega

theorem Listener.Inv.running (h : s.Inv limit) {k c : Nat}
    (hcall : s.closes[k]? = some ⟨c, .releasing⟩) : s.conns[c]? = some (.running k) := by
  obtain ⟨once, honce, hagrees⟩ := h.agrees hcall
  rw [honce, hagrees]

/-- A step that moves one call of `Accept`, with its part of the permits. -/
theorem Listener.Inv.acceptMoves (h : s.Inv limit) {i : Nat} {x y : AcceptCall} {n : Nat}
    (hx : s.accepts[i]? = some x) (hn : n + x.holds.toNat = s.permits + y.holds.toNat)
    (hbound : n ≤ limit) :
    ({ s with permits := n, accepts := s.accepts.set i y } : Listener).Inv limit := by
  refine ⟨?_, hbound, h.agrees⟩
  have hcount := countP_set_add (p := AcceptCall.holds) (y := y) hx
  have hbalance := h.balance
  simp only [Listener.held] at hbalance ⊢
  omega

/-- A step that moves one call of `Close` and leaves the connections alone. -/
theorem Listener.Inv.closeMoves (h : s.Inv limit) {k c : Nat} {phase next : Phase}
    (hcall : s.closes[k]? = some ⟨c, phase⟩)
    (hnext : ∀ once, s.conns[c]? = some once → phase.Agrees k once → next.Agrees k once) :
    ({ s with closes := s.closes.set k ⟨c, next⟩ } : Listener).Inv limit := by
  refine ⟨h.balance, h.bounded, ?_⟩
  intro j call hj
  by_cases hjk : j = k
  · subst hjk
    rw [List.getElem?_set_self (List.getElem?_eq_some_iff.mp hcall).1] at hj
    cases hj
    obtain ⟨once, honce, hagrees⟩ := h.agrees hcall
    exact ⟨once, honce, hnext once honce hagrees⟩
  · rw [List.getElem?_set_ne (Ne.symm hjk)] at hj
    exact h.agrees hj

/-- Only the call that runs the function agrees with a `once` that is neither fresh nor
finished. -/
theorem Phase.Agrees.moved {j k : Nat} {phase : Phase} {once next : Once} (hjk : j ≠ k)
    (hagrees : phase.Agrees j once)
    (honce : once = .fresh ∨ once = .running k ∨ once = .given k) : phase.Agrees j next := by
  cases phase with
  | closing => trivial
  | entering => trivial
  | releasing =>
    have hrunning : once = .running j := hagrees
    rcases honce with rfl | rfl | rfl
    · cases hrunning
    · exact absurd (Once.running.inj hrunning).symm hjk
    · cases hrunning
  | released =>
    have hgiven : once = .given j := hagrees
    rcases honce with rfl | rfl | rfl
    · cases hgiven
    · cases hgiven
    · exact absurd (Once.given.inj hgiven).symm hjk
  | returned =>
    have hfinished : once = .finished := hagrees
    rcases honce with rfl | rfl | rfl <;> cases hfinished

/-- A step of the function of `once`: the call and the `once` move together. -/
theorem Listener.Inv.onceMoves (h : s.Inv limit) {k c n : Nat} {phase next : Phase}
    {once after : Once} (hcall : s.closes[k]? = some ⟨c, phase⟩) (honce : s.conns[c]? = some once)
    (hown : once = .fresh ∨ once = .running k ∨ once = .given k) (hnext : next.Agrees k after)
    (hn : n + once.holds.toNat = s.permits + after.holds.toNat) (hbound : n ≤ limit) :
    ({ s with
        permits := n
        conns := s.conns.set c after
        closes := s.closes.set k ⟨c, next⟩ } : Listener).Inv limit := by
  have hself : (s.conns.set c after)[c]? = some after :=
    List.getElem?_set_self (List.getElem?_eq_some_iff.mp honce).1
  refine ⟨?_, hbound, ?_⟩
  · have hcount := countP_set_add (p := Once.holds) (y := after) honce
    have hbalance := h.balance
    simp only [Listener.held] at hbalance ⊢
    omega
  · intro j call hj
    dsimp only at hj ⊢
    by_cases hjk : j = k
    · subst hjk
      rw [List.getElem?_set_self (List.getElem?_eq_some_iff.mp hcall).1] at hj
      cases hj
      exact ⟨after, hself, hnext⟩
    · rw [List.getElem?_set_ne (Ne.symm hjk)] at hj
      obtain ⟨other, hother, hagrees⟩ := h.agrees hj
      by_cases hconn : call.conn = c
      · rw [hconn] at hother ⊢
        cases honce.symm.trans hother
        exact ⟨after, hself, hagrees.moved hjk hown⟩
      · rw [List.getElem?_set_ne (Ne.symm hconn)]
        exact ⟨other, hother, hagrees⟩

theorem Listener.Inv.answer (h : s.Inv limit) {i : Nat} (hi : s.accepts[i]? = some .accepting)
    (err : Option String) : (s.answer i err).Inv limit := by
  cases err with
  | some e => exact h.acceptMoves (n := s.permits) hi rfl h.bounded
  | none =>
    refine ⟨?_, h.bounded, ?_⟩
    · -- the permit goes from the call to the connection
      have hcount := countP_set_add (p := AcceptCall.holds) (y := .accepted s.conns.length) hi
      have hbalance := h.balance
      simp only [Listener.answer, Listener.held, List.countP_append, List.countP_singleton,
        AcceptCall.holds, Once.holds, Bool.toNat_true, Bool.toNat_false, if_true] at hcount hbalance ⊢
      omega
    · intro k call hcall
      obtain ⟨once, honce, hagrees⟩ := h.agrees hcall
      refine ⟨once, ?_, hagrees⟩
      rw [Listener.answer]
      dsimp only
      rw [List.getElem?_append_left (List.getElem?_eq_some_iff.mp honce).1]
      exact honce

theorem Listener.Inv.step {l : Label} (h : s.Inv limit) (hstep : s.step limit l = some t) :
    t.Inv limit := by
  have hbounded := h.bounded
  cases step_moved hstep with
  | accept =>
    refine ⟨?_, h.bounded, h.agrees⟩
    rw [h.balance]
    simp [Listener.held, AcceptCall.holds]
  | acquire i hwaiting hroom => exact h.acceptMoves hwaiting rfl hroom
  | refuse i hwaiting => exact h.acceptMoves (n := s.permits) hwaiting rfl h.bounded
  | listened i err haccepting => exact h.answer haccepting err
  | giveBack i e hfailing =>
    have hpos := h.pos_of_accept hfailing rfl
    exact h.acceptMoves hfailing (Nat.sub_add_cancel hpos) (by omega)
  | close conn hmade =>
    refine ⟨h.balance, h.bounded, ?_⟩
    intro k call hcall
    rcases Nat.lt_or_ge k s.closes.length with hk | hk
    · rw [List.getElem?_append_left hk] at hcall
      exact h.agrees hcall
    · rw [List.getElem?_append_right hk] at hcall
      obtain ⟨hzero, heq⟩ := List.getElem?_eq_some_iff.mp hcall
      have hlast : call = ⟨conn, .closing⟩ := by
        rw [← heq, List.getElem_singleton]
      rw [hlast]
      exact ⟨_, List.getElem?_eq_getElem hmade, trivial⟩
  | closed k c hcall => exact h.closeMoves hcall fun _ _ _ => trivial
  | run k c hcall honce =>
    exact h.onceMoves (n := s.permits) hcall honce (Or.inl rfl) rfl rfl h.bounded
  | pass k c hcall honce =>
    refine h.closeMoves hcall ?_
    intro once hsame _
    exact Option.some.inj (hsame.symm.trans honce)
  | release k c hcall =>
    have honce := h.running hcall
    have hpos := h.pos_of_conn honce rfl
    exact h.onceMoves hcall honce (Or.inr (Or.inl rfl)) rfl (Nat.sub_add_cancel hpos) (by omega)
  | finish k c hcall =>
    obtain ⟨once, honce, hagrees⟩ := h.agrees hcall
    have hgiven : once = .given k := hagrees
    rw [hgiven] at honce
    exact h.onceMoves (n := s.permits) hcall honce (Or.inr (Or.inr rfl)) rfl rfl h.bounded
  | shutdown => exact ⟨h.balance, h.bounded, h.agrees⟩

/-- In every state some run reaches, the balance holds. -/
theorem reached_inv {labels : List Label}
    (h : exec (Listener.step limit) .initial labels = some s) : s.Inv limit :=
  exec_preserves Listener.Inv.step (Listener.Inv.initial limit) h

/-- A call of `Accept` that has its permit to give back can give it back. -/
theorem Listener.Inv.giveBack_enabled (h : s.Inv limit) {i : Nat} {e : String}
    (hfailing : s.accepts[i]? = some (.failing e)) : (s.step limit (.giveBack i)).isSome := by
  have hpos := h.pos_of_accept hfailing rfl
  simp [Listener.step, hfailing, hpos]

/-- A call of `Close` that runs the function of `once` can take the permit out. -/
theorem Listener.Inv.release_enabled (h : s.Inv limit) {k c : Nat}
    (hcall : s.closes[k]? = some ⟨c, .releasing⟩) : (s.step limit (.release k)).isSome := by
  have hpos := h.pos_of_conn (h.running hcall) rfl
  simp [Listener.step, Listener.onClose, hcall, hpos]

end Invariant

/-! ## Permits of one call of `Accept` -/

/-- How many permits more than it took out the call has put in. -/
def AcceptCall.debt : AcceptCall → Nat
  | .waiting | .failed _ => 0
  | .accepting | .failing _ | .accepted _ => 1

def debtAt (accepts : List AcceptCall) (i : Nat) : Nat :=
  (accepts[i]?).elim 0 AcceptCall.debt

theorem debtAt_set {accepts : List AcceptCall} {j : Nat} {x y : AcceptCall}
    (h : accepts[j]? = some x) (i : Nat) :
    debtAt (accepts.set j y) i = if j = i then y.debt else debtAt accepts i := by
  by_cases hij : j = i
  · subst hij
    rw [if_pos rfl, debtAt, List.getElem?_set_self (List.getElem?_eq_some_iff.mp h).1,
      Option.elim_some]
  · rw [if_neg hij, debtAt, List.getElem?_set_ne hij, debtAt]

theorem debtAt_of_getElem? {accepts : List AcceptCall} {i : Nat} {x : AcceptCall}
    (h : accepts[i]? = some x) : debtAt accepts i = x.debt := by
  rw [debtAt, h, Option.elim_some]

/-- A new call has put nothing in. -/
theorem debtAt_concat_waiting (accepts : List AcceptCall) (i : Nat) :
    debtAt (accepts ++ [.waiting]) i = debtAt accepts i := by
  unfold debtAt
  rcases Nat.lt_trichotomy i accepts.length with hlt | rfl | hgt
  · rw [List.getElem?_append_left hlt]
  · rw [List.getElem?_concat_length, List.getElem?_eq_none (Nat.le_refl _)]
    rfl
  · rw [List.getElem?_eq_none (by simp; omega), List.getElem?_eq_none (by omega)]

/-- The sends and receives of every call of `Accept`, from the labels taken so far. -/
def Ledger (past : List Label) (s : Listener) : Prop :=
  ∀ i, past.count (.acquire i) = past.count (.giveBack i) + debtAt s.accepts i

/-- The labels and the debts change by the same amounts. -/
theorem Ledger.concat {past : List Label} {s t : Listener} {l : Label} (h : Ledger past s)
    (hdebt : ∀ i, [l].count (.acquire i) + debtAt s.accepts i =
      [l].count (.giveBack i) + debtAt t.accepts i) : Ledger (past ++ [l]) t := by
  intro i
  have hi := h i
  have hl := hdebt i
  rw [List.count_append, List.count_append]
  omega

/-- A call that moves between two states with the same debt. -/
theorem debtAt_set_same {accepts : List AcceptCall} {j : Nat} {x : AcceptCall} (y : AcceptCall)
    (h : accepts[j]? = some x) (hsame : x.debt = y.debt) (i : Nat) :
    debtAt accepts i = debtAt (accepts.set j y) i := by
  rw [debtAt_set h]
  split
  · rename_i hij
    rw [← hsame, ← hij, debtAt_of_getElem? h]
  · rfl

theorem Ledger.step {limit : Nat} {past : List Label} {s t : Listener} {l : Label}
    (h : Ledger past s) (hstep : s.step limit l = some t) : Ledger (past ++ [l]) t := by
  refine h.concat ?_
  intro i
  cases step_moved hstep with
  | accept => exact congrArg (0 + ·) (debtAt_concat_waiting s.accepts i).symm
  | acquire j hwaiting hroom =>
    rw [debtAt_set hwaiting, List.count_singleton]
    by_cases hij : j = i
    · subst hij
      rw [debtAt_of_getElem? hwaiting]
      simp [AcceptCall.debt]
    · simp [hij]
  | refuse j hwaiting => exact congrArg (0 + ·) (debtAt_set_same (.failed errClosed) hwaiting rfl i)
  | listened j err haccepting =>
    cases err with
    | some e => exact congrArg (0 + ·) (debtAt_set_same (.failing e) haccepting rfl i)
    | none => exact congrArg (0 + ·) (debtAt_set_same (.accepted s.conns.length) haccepting rfl i)
  | giveBack j e hfailing =>
    rw [debtAt_set hfailing]
    by_cases hij : j = i
    · subst hij
      rw [debtAt_of_getElem? hfailing]
      simp [AcceptCall.debt]
    · simp [hij]
  | close conn hmade => rfl
  | closed k c hcall => rfl
  | run k c hcall honce => rfl
  | pass k c hcall honce => rfl
  | release k c hcall => rfl
  | finish k c hcall => rfl
  | shutdown => rfl

theorem reached_ledger {limit : Nat} {labels : List Label} {s : Listener}
    (h : exec (Listener.step limit) .initial labels = some s) : Ledger labels s :=
  exec_history (P := Ledger) (fun _ => rfl) (fun _ hledger hstep => hledger.step hstep) h

/-! ## Every interleaving -/

/-- In every state of every interleaving the permits in the channel are those of the calls of
`Accept` past their permit and of the connections not yet closed, and at most `limit`. A receive
never waits, a call of `Accept` that returned an error took out what it put in, and a connection
whose `Close` has returned holds no permit. -/
theorem permits_conserved {limit : Nat} {labels : List Label} {s : Listener}
    (hrun : exec (Listener.step limit) .initial labels = some s) :
    s.permits = s.accepts.countP AcceptCall.holds + s.conns.countP Once.holds ∧
      s.permits ≤ limit ∧
      (∀ i e, s.accepts[i]? = some (.failing e) → (s.step limit (.giveBack i)).isSome) ∧
      (∀ (k c : Nat), s.closes[k]? = some ⟨c, .releasing⟩ → (s.step limit (.release k)).isSome) ∧
      (∀ i e, s.accepts[i]? = some (.failed e) →
        labels.count (.acquire i) = labels.count (.giveBack i)) ∧
      ∀ (k c : Nat), s.closes[k]? = some ⟨c, .returned⟩ → s.conns[c]? = some .finished := by
  have hinv := reached_inv hrun
  refine ⟨hinv.balance, hinv.bounded, ?_, ?_, ?_, ?_⟩
  · intro i e hfailing
    exact hinv.giveBack_enabled hfailing
  · intro k c hcall
    exact hinv.release_enabled hcall
  · intro i e hfailed
    have hledger := reached_ledger hrun i
    rw [debtAt_of_getElem? hfailed] at hledger
    exact hledger
  · intro k c hcall
    obtain ⟨once, honce, hagrees⟩ := hinv.agrees hcall
    rw [honce, hagrees]

/-- With one permit: a connection is accepted and closed twice at once, the listener is closed
while a second call waits, and a third call fails in the listener. -/
def sampleLabels : List Label :=
  [.accept, .acquire 0, .accept, .listened 0 none, .close 0, .close 0, .closed 1, .closed 0,
    .enter 1, .release 1, .shutdown, .finish 1, .enter 0, .refuse 1, .accept, .acquire 2,
    .listened 2 (some errClosed), .giveBack 2]

theorem permits_conserved_sample :
    ((exec (Listener.step 1) .initial sampleLabels).map fun s => (s.permits, s.accepts)) =
        some (0, [.accepted 0, .failed errClosed, .failed errClosed]) ∧
      ∀ s, exec (Listener.step 1) .initial sampleLabels = some s → s.permits ≤ 1 := by
  refine ⟨by decide, ?_⟩
  intro s hrun
  exact (permits_conserved hrun).2.1

end RealmFormal.NodeAttest.LimitListener

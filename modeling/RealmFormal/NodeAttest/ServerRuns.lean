import RealmFormal.NodeAttest.Server
import RealmFormal.Lib.Transition

/-!
# Concurrent runs of one server

The server with all its attempts and all calls of `Verify`, as a transition
system. A label is one piece of `Begin`, `Verify` or `Close` that runs without
interference, one HTTP exchange with whatever the network answers, the end of a
context, or the passage of time.
-/

namespace RealmFormal.NodeAttest
open Go Go.Json Go.Netip Transition
set_option autoImplicit false

/-- Where a call of `Verify` stands. `locked` is the second locked section after
its recheck, with the mutex of the attempt held. -/
inductive Progress where
  | entered
  | fetching (rest : List Addr)
  | fetched
  | checked
  | locked
  | returned (result : Except ObservationError Result)

def Progress.isLocked : Progress → Bool
  | .locked => true
  | _ => false

def Progress.failed : Progress → Bool
  | .returned (.error _) => true
  | _ => false

/-- One call of `Verify` with its locals. `fetchErr` is the end of its own fetch
context, by timeout or by the context of the caller. -/
structure Call where
  attempt : Nat
  response : Bytes
  fetchErr : Option CtxErr
  proof : Bytes
  progress : Progress

structure System where
  server : Server
  now : Int
  attempts : List ServerAttempt
  calls : List Call

def System.start (server : Server) (now : Int) : System := ⟨server, now, [], []⟩

inductive Label where
  | begin (ctxErr : Option CtxErr) (payload : Bytes)
      (id nonce : Except String (List.Vector UInt8 32))
  | verify (a : Nat) (response : Bytes)
  | accept (c : Nat)
  | exchange (c : Nat) (address : Addr) (x : Exchange)
  | check (c : Nat)
  | recheck (c : Nat)
  | charge (c : Nat)
  | close (a : Nat)
  | remove (a : Nat)
  | endContext (a : Nat) (e : CtxErr)
  | endFetch (c : Nat) (e : CtxErr)
  | tick (d : Nat)

/-- A call of `Verify` holds the mutex of attempt `a` across steps. -/
def System.locked (s : System) (a : Nat) : Bool :=
  s.calls.any fun k => decide (k.attempt = a) && k.progress.isLocked

/-- `fetchCtx.Err()`: the fetch context also ends with the context of the attempt. -/
def Call.err (k : Call) (a : ServerAttempt) : Option CtxErr := k.fetchErr <|> a.ctxErr

def Call.fail (k : Call) (e : ObservationError) : Call :=
  { k with progress := .returned (.error e) }

/-- The head of the loop of `fetch`. -/
def Call.next (k : Call) : List Addr → Call
  | [] => k.fail fetchUnavailable
  | address :: rest => { k with progress := .fetching (address :: rest) }

def Call.accept (k : Call) (a : ServerAttempt) (now : Int) : Option Call :=
  match k.progress with
  | .entered =>
    match a.accepts k.response now with
    | .error e => some (k.fail e)
    | .ok () => some (k.next a.node.addresses)
  | _ => none

def Call.exchange (k : Call) (a : ServerAttempt) (address : Addr) (x : Exchange) : Option Call :=
  match k.progress with
  | .fetching (target :: rest) =>
    if address ≠ target then none
    else
      match fetchOne (k.err a) x with
      | .error e => some (k.fail e)
      | .ok none => some (k.next rest)
      | .ok (some body) => some { k with proof := body, progress := .fetched }
  | _ => none

def Call.check (jose : Jose) (k : Call) (a : ServerAttempt) : Option Call :=
  match k.progress with
  | .fetched =>
    match a.proves jose k.proof with
    | .error e => some (k.fail e)
    | .ok () => some { k with progress := .checked }
  | _ => none

def Call.recheck (k : Call) (a : ServerAttempt) (now : Int) : Option Call :=
  match k.progress with
  | .checked =>
    match a.live now (k.err a) with
    | .error e => some (k.fail e)
    | .ok () => some { k with progress := .locked }
  | _ => none

def Call.charge (k : Call) (a : ServerAttempt) (server : Server) (now : Int) :
    Option (Call × Server) :=
  match k.progress with
  | .locked =>
    match server.chargeSuccess a.node.name now with
    | (.error e, server) => some (k.fail e, server)
    | (.ok (), server) => some ({ k with progress := .returned (.ok (server.result a)) }, server)
  | _ => none

/-- Run `f` on call `c` and its attempt. -/
def System.onCall (s : System) (c : Nat) (f : Call → ServerAttempt → Option (Call × Server)) :
    Option System :=
  (s.calls[c]?).bind fun k =>
    (s.attempts[k.attempt]?).bind fun a =>
      (f k a).map fun r => { s with calls := s.calls.set c r.1, server := r.2 }

def System.onAttempt (s : System) (i : Nat) (f : ServerAttempt → ServerAttempt) : Option System :=
  (s.attempts[i]?).map fun a => { s with attempts := s.attempts.set i (f a) }

def System.begin (s : System) (ctxErr : Option CtxErr) (payload : Bytes)
    (id nonce : Except String (List.Vector UInt8 32)) : System :=
  match s.server.begin s.attempts.length s.now ctxErr payload id nonce with
  | .error _ => s
  | .ok (a, server) => { s with server, attempts := s.attempts ++ [a] }

def System.verify (s : System) (i : Nat) (response : Bytes) : Option System :=
  (s.attempts[i]?).map fun a =>
    match a.enter with
    | .error e => { s with calls := s.calls ++ [⟨i, response, none, [], .returned (.error e)⟩] }
    | .ok b =>
      { s with
        attempts := s.attempts.set i b
        calls := s.calls ++ [⟨i, response, none, [], .entered⟩] }

def step (jose : Jose) (s : System) : Label → Option System
  | .begin ctxErr payload id nonce => some (s.begin ctxErr payload id nonce)
  | .verify i response => if s.locked i then none else s.verify i response
  | .accept c => s.onCall c fun k a => (k.accept a s.now).map fun k => (k, s.server)
  | .exchange c address x =>
    s.onCall c fun k a => (k.exchange a address x).map fun k => (k, s.server)
  | .check c => s.onCall c fun k a => (k.check jose a).map fun k => (k, s.server)
  | .recheck c =>
    s.onCall c fun k a =>
      if s.locked k.attempt then none else (k.recheck a s.now).map fun k => (k, s.server)
  | .charge c => s.onCall c fun k a => k.charge a s.server s.now
  | .close i => if s.locked i then none else s.onAttempt i ServerAttempt.close
  | .remove i =>
    (s.attempts[i]?).bind fun a =>
      if a.closed then some { s with server := s.server.remove i a } else none
  | .endContext i e => s.onAttempt i fun a => { a with ctxErr := a.ctxErr <|> some e }
  | .endFetch c e =>
    s.onCall c fun k a => some ({ k with fetchErr := k.err a <|> some e }, s.server)
  | .tick d => some { s with now := s.now + d }

theorem onCall_eq_some {s t : System} {c : Nat}
    {f : Call → ServerAttempt → Option (Call × Server)} (h : s.onCall c f = some t) :
    ∃ k a k' server, s.calls[c]? = some k ∧ s.attempts[k.attempt]? = some a ∧
      f k a = some (k', server) ∧ t = { s with calls := s.calls.set c k', server } := by
  simp only [System.onCall, Option.bind_eq_some_iff, Option.map_eq_some_iff] at h
  obtain ⟨k, hk, a, ha, ⟨k', server⟩, hf, rfl⟩ := h
  exact ⟨k, a, k', server, hk, ha, hf, rfl⟩

theorem onAttempt_eq_some {s t : System} {i : Nat} {f : ServerAttempt → ServerAttempt}
    (h : s.onAttempt i f = some t) :
    ∃ a, s.attempts[i]? = some a ∧ t = { s with attempts := s.attempts.set i (f a) } := by
  simp only [System.onAttempt, Option.map_eq_some_iff] at h
  obtain ⟨a, ha, rfl⟩ := h
  exact ⟨a, ha, rfl⟩

end RealmFormal.NodeAttest

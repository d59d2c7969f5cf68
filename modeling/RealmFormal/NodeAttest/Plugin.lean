import RealmFormal.NodeAttest.Adapter
import RealmFormal.NodeAttest.ServerRuns

/-!
# One server plugin over all its configurations

`Configure` puts a new server in place while the streams that began with an
older one keep it, so a plugin is a list of generations over one clock and one
metrics registry. A generation is a server with its attempts, the calls of
`Close` that stand between their two locked sections, and the attempts whose
context has called `Close` back.
-/

namespace RealmFormal.NodeAttest
open Go Transition StatusPackage
set_option autoImplicit false

/-- Who calls `Close`: the stream or any other owner of the attempt, or `context.AfterFunc`. -/
inductive Closer where
  | owner | callback
  deriving DecidableEq

structure Generation where
  system : System
  closing : List (Nat × Closer)
  fired : List Nat

structure Plugin where
  generations : List Generation
  metrics : Metrics
  now : Int

def Plugin.initial (now : Int) : Plugin := ⟨[], newMetrics, now⟩

/-- `Configure`: what `readPluginConfig` returns, the trust domain of the request, and whether
the metrics listener takes the address. -/
def Plugin.configure [StatusPackage] (p : Plugin) (read : Except GoError ServerConfig)
    (core : Bytes) (listening : Bool) : Except GoError Unit × Plugin :=
  match read with
  | .error e => (.error e, p)
  | .ok config =>
    match checkTrustDomain core config.trustDomain with
    | .error e => (.error e, p)
    | .ok () =>
      match newServer config with
      | .error _ => (.error (statusError .invalidArgument "invalid server configuration"), p)
      | .ok server =>
        if listening then
          (.ok (),
            { p with
              generations := p.generations ++ [⟨System.start server p.now, [], []⟩]
              metrics := server.nodes.entries.foldl (fun m e => m.register e.2.name) p.metrics })
        else (.error (statusError .invalidArgument "cannot configure metrics listener"), p)

/-- All generations write the registry and read the clock of the plugin. -/
def Generation.share (g : Generation) (metrics : Metrics) (now : Int) : Generation :=
  { g with
    system := { g.system with server := { g.system.server with metrics := some metrics }, now } }

/-- Run `f` on generation `n`. -/
def Plugin.onGeneration (p : Plugin) (n : Nat) (f : Generation → Option Generation) :
    Option Plugin :=
  (p.generations[n]?).bind fun g =>
    (f (g.share p.metrics p.now)).map fun g' =>
      { p with
        generations := p.generations.set n g'
        metrics := g'.system.server.metrics.getD p.metrics }

/-- The labels of a server that are no part of `Close` and leave the clock alone. -/
def Label.serves : Label → Bool
  | .close _ | .remove _ | .tick _ => false
  | _ => true

def Generation.serve (jose : Jose) (g : Generation) (l : Label) : Option Generation :=
  if l.serves then (step jose g.system l).map fun system => { g with system } else none

/-- The first locked section of `Close`. A callback runs once, after the context has ended. -/
def Generation.close (jose : Jose) (g : Generation) (i : Nat) (caller : Closer) :
    Option Generation :=
  (g.system.attempts[i]?).bind fun a =>
    if caller = .callback ∧ (a.ctxErr = none ∨ i ∈ g.fired) then none
    else
      (step jose g.system (.close i)).map fun system =>
        { system
          closing := if a.closed then g.closing else (i, caller) :: g.closing
          fired := if caller = .callback then i :: g.fired else g.fired }

/-- The second locked section of `Close`. -/
def Generation.remove (jose : Jose) (g : Generation) (i : Nat) (caller : Closer) :
    Option Generation :=
  if (i, caller) ∈ g.closing then
    (step jose g.system (.remove i)).map fun system =>
      { g with system, closing := g.closing.erase (i, caller) }
  else none

inductive PluginLabel where
  | configure (read : Except GoError ServerConfig) (core : Bytes) (listening : Bool)
  | serve (g : Nat) (l : Label)
  | close (g i : Nat) (caller : Closer)
  | remove (g i : Nat) (caller : Closer)
  | record (node : Bytes) (outcome : Outcome)
  | tick (d : Nat)

def Plugin.step [StatusPackage] (jose : Jose) (p : Plugin) : PluginLabel → Option Plugin
  | .configure read core listening => some (p.configure read core listening).2
  | .serve g l => p.onGeneration g fun gen => gen.serve jose l
  | .close g i caller => p.onGeneration g fun gen => gen.close jose i caller
  | .remove g i caller => p.onGeneration g fun gen => gen.remove jose i caller
  | .record node outcome => some { p with metrics := p.metrics.record node outcome }
  | .tick d => some { p with now := p.now + d }

/-! ## What a step does -/

/-- What the books say of an attempt. -/
structure Card where
  node : Bytes
  id : Bytes
  closed : Bool
  deriving DecidableEq

def ServerAttempt.card (a : ServerAttempt) : Card := ⟨a.node.name, a.challenge.id, a.closed⟩

def System.cards (s : System) : List Card := s.attempts.map ServerAttempt.card

theorem card_of_attempt {s : System} {i : Nat} {a : ServerAttempt} (h : s.attempts[i]? = some a) :
    s.cards[i]? = some a.card := by
  rw [System.cards, List.getElem?_map, h, Option.map_some]

theorem cards_set {s : System} {i : Nat} {a b : ServerAttempt} (h : s.attempts[i]? = some a)
    (hcard : b.card = a.card) : (s.attempts.set i b).map ServerAttempt.card = s.cards := by
  rw [List.map_set, hcard]
  apply List.ext_getElem?
  intro j
  rw [List.getElem?_set]
  split
  · rename_i hij
    subst hij
    have hlt := (List.getElem?_eq_some_iff.mp h).1
    rw [if_pos (by simpa using hlt), card_of_attempt h]
  · rfl

/-- A label that is no part of `Close` moves calls and contexts, begins an attempt, or charges
the quota. -/
inductive Served (s : System) : Label → System → Prop where
  | idle {l : Label} {t : System} (server : t.server = s.server) (cards : t.cards = s.cards)
      (uncharged : ∀ c, l ≠ .charge c) : Served s l t
  | begun {ctxErr : Option CtxErr} {payload : Bytes}
      {id nonce : Except String (List.Vector UInt8 32)} (a : ServerAttempt) (server : Server)
      (ok : s.server.begin s.attempts.length s.now ctxErr payload id nonce = .ok (a, server)) :
      Served s (.begin ctxErr payload id nonce) { s with server, attempts := s.attempts ++ [a] }
  | charged (c : Nat) (k k' : Call) (a : ServerAttempt) (server : Server)
      (call : s.calls[c]? = some k) (attempt : s.attempts[k.attempt]? = some a)
      (charge : k.charge a s.server s.now = some (k', server)) :
      Served s (.charge c) { s with calls := s.calls.set c k', server }

/-- A call that moves without the server. -/
theorem served_call {s t : System} {l : Label} {c : Nat}
    {f : Call → ServerAttempt → Option Call} (hl : ∀ c, l ≠ .charge c)
    (h : s.onCall c (fun k a => (f k a).map fun k => (k, s.server)) = some t) : Served s l t := by
  obtain ⟨k, a, k', server, -, -, hf, rfl⟩ := onCall_eq_some h
  obtain ⟨m, -, heq⟩ := Option.map_eq_some_iff.mp hf
  cases heq
  exact .idle rfl rfl hl

theorem step_served {jose : Jose} {s t : System} {l : Label} (hl : l.serves = true)
    (h : step jose s l = some t) : Served s l t := by
  cases l with
  | begin ctxErr payload id nonce =>
    cases h
    unfold System.begin
    split
    · exact .idle rfl rfl (by intro c hc; cases hc)
    · exact .begun _ _ ‹_›
  | verify i response =>
    simp only [step] at h
    split at h
    · cases h
    obtain ⟨a, ha, rfl⟩ := Option.map_eq_some_iff.mp h
    split
    · exact .idle rfl rfl (by intro c hc; cases hc)
    · rename_i b henter
      obtain ⟨-, -, rfl⟩ := enter_ok henter
      exact .idle rfl (cards_set ha rfl) (by intro c hc; cases hc)
  | accept c => exact served_call (by intro c hc; cases hc) h
  | exchange c address x => exact served_call (by intro c hc; cases hc) h
  | check c => exact served_call (by intro c hc; cases hc) h
  | recheck c =>
    obtain ⟨k, a, k', server, -, -, hf, rfl⟩ := onCall_eq_some h
    split at hf
    · cases hf
    obtain ⟨m, -, heq⟩ := Option.map_eq_some_iff.mp hf
    cases heq
    exact .idle rfl rfl (by intro c hc; cases hc)
  | charge c =>
    obtain ⟨k, a, k', server, hk, ha, hf, rfl⟩ := onCall_eq_some h
    exact .charged c k k' a server hk ha hf
  | endContext i e =>
    obtain ⟨a, ha, rfl⟩ := onAttempt_eq_some h
    exact .idle rfl (cards_set ha rfl) (by intro c hc; cases hc)
  | endFetch c e =>
    obtain ⟨k, a, k', server, -, -, hf, rfl⟩ := onCall_eq_some h
    cases hf
    exact .idle rfl rfl (by intro c hc; cases hc)
  | close i => cases hl
  | remove i => cases hl
  | tick d => cases hl

/-- A charge leaves everything but the log of one node. -/
theorem charge_server {k k' : Call} {a : ServerAttempt} {s server : Server} {now : Int}
    (h : k.charge a s now = some (k', server)) :
    server = (s.chargeSuccess a.node.name now).2 := by
  unfold Call.charge at h
  split at h
  · split at h <;> rename_i hcharge <;> cases h <;> rw [hcharge]
  · cases h

theorem onGeneration_eq_some {p t : Plugin} {n : Nat} {f : Generation → Option Generation}
    (h : p.onGeneration n f = some t) :
    ∃ g g', p.generations[n]? = some g ∧ f (g.share p.metrics p.now) = some g' ∧
      t = { p with
        generations := p.generations.set n g'
        metrics := g'.system.server.metrics.getD p.metrics } := by
  simp only [Plugin.onGeneration, Option.bind_eq_some_iff, Option.map_eq_some_iff] at h
  obtain ⟨g, hg, g', hf, rfl⟩ := h
  exact ⟨g, g', hg, hf, rfl⟩

/-- Sums over the generations follow the one that moves. -/
theorem sum_map_set {α : Type} (f : α → Nat) {l : List α} {n : Nat} {x : α} (y : α)
    (h : l[n]? = some x) : ((l.set n y).map f).sum + f x = (l.map f).sum + f y := by
  induction l generalizing n with
  | nil => cases h
  | cons z l ih =>
    cases n with
    | zero =>
      cases h
      simp only [List.set_cons_zero, List.map_cons, List.sum_cons]
      omega
    | succ n =>
      have hrest := ih h
      simp only [List.set_cons_succ, List.map_cons, List.sum_cons]
      omega

theorem configure_eq [StatusPackage] (p : Plugin) (read : Except GoError ServerConfig)
    (core : Bytes) (listening : Bool) :
    (p.configure read core listening).2 = p ∨
      ∃ config server, newServer config = .ok server ∧
        (p.configure read core listening).2 =
          { p with
            generations := p.generations ++ [⟨System.start server p.now, [], []⟩]
            metrics := server.nodes.entries.foldl (fun m e => m.register e.2.name) p.metrics } := by
  unfold Plugin.configure
  split
  · exact Or.inl rfl
  rename_i config
  split
  · exact Or.inl rfl
  split
  · exact Or.inl rfl
  rename_i server hserver
  split
  · exact Or.inr ⟨config, server, hserver, rfl⟩
  · exact Or.inl rfl

end RealmFormal.NodeAttest

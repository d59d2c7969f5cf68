import RealmFormal.NodeAttest.Plugin
import RealmFormal.NodeAttest.Soundness

/-!
# Capacity and the pending gauge

Every attempt is entered into the map of its generation once and leaves it once,
through its own `Close`; the gauge of a node counts the entries of that node in
all generations. The books of one generation are kept by each of its steps, and
the gauge moves with them.
-/

namespace RealmFormal.NodeAttest
open Go Go.Json Transition
set_option autoImplicit false

/-! ## The books of one generation -/

def Generation.active (g : Generation) : Table Bytes Nat := g.system.server.active

def Generation.cards (g : Generation) : List Card := g.system.cards

/-- The number of active attempts of a node. -/
def Generation.pending (g : Generation) (name : Bytes) : Nat :=
  g.active.count fun _ i => (g.system.attempts[i]?).any fun a => decide (a.node.name = name)

/-- The books: the map of active attempts, all attempts, the calls of `Close` between their
sections, and the attempts whose callback has come. -/
structure Accounts (active : Table Bytes Nat) (cards : List Card) (closing : List (Nat × Closer))
    (fired : List Nat) : Prop where
  room : active.size ≤ 32
  distinct : (cards.map Card.id).Nodup
  held : ∀ {id : Bytes} {i : Nat}, active.get id = some i → ∃ c, cards[i]? = some c ∧ c.id = id
  opened : ∀ {i : Nat} {c : Card}, cards[i]? = some c → c.closed = false →
    active.get c.id = some i
  leaving : ∀ {i : Nat} {c : Card}, cards[i]? = some c → c.closed = true →
    (active.get c.id = some i ↔ i ∈ closing.map Prod.fst)
  closed : ∀ {i : Nat}, i ∈ closing.map Prod.fst → ∃ c, cards[i]? = some c ∧ c.closed = true
  once : (closing.map Prod.fst).Nodup
  fired : ∀ {i : Nat}, i ∈ fired → ∃ c, cards[i]? = some c ∧ c.closed = true

theorem Accounts.empty : Accounts Table.empty [] [] [] := by
  constructor
  case room => simp
  case distinct => exact List.nodup_nil
  case once => exact List.nodup_nil
  all_goals
    intros
    contradiction

theorem card_unique {cards : List Card} (h : (cards.map Card.id).Nodup) {i j : Nat} {c d : Card}
    (hc : cards[i]? = some c) (hd : cards[j]? = some d) (hid : c.id = d.id) : i = j := by
  have hpos : ∀ {n : Nat} {x : Card}, cards[n]? = some x → (cards.map Card.id)[n]? = some x.id := by
    intro n x hx
    rw [List.getElem?_map, hx, Option.map_some]
  have hlt := (List.getElem?_eq_some_iff.mp (hpos hc)).1
  apply (List.getElem?_inj hlt h).mp
  rw [hpos hc, hpos hd, hid]

section Books
variable {active : Table Bytes Nat} {cards : List Card} {closing : List (Nat × Closer)}
  {fired fired' : List Nat} {i : Nat} {c : Card} {caller : Closer}

theorem Accounts.new_id (h : Accounts active cards closing fired) {id : Bytes}
    (hfresh : ∀ c ∈ cards, c.id ≠ id) : active.get id = none := by
  cases hget : active.get id with
  | none => rfl
  | some i =>
    obtain ⟨c, hc, hid⟩ := h.held hget
    exact absurd hid (hfresh c (List.mem_of_getElem? hc))

/-- A new attempt with an identifier of its own is entered into the map. -/
theorem Accounts.begin (h : Accounts active cards closing fired) (node : Bytes) {id : Bytes}
    (hroom : active.size < 32) (hfresh : ∀ c ∈ cards, c.id ≠ id) :
    Accounts (active.put id cards.length) (cards ++ [⟨node, id, false⟩]) closing fired := by
  have hold : ∀ {i : Nat} {c : Card}, cards[i]? = some c →
      (active.put id cards.length).get c.id = active.get c.id := by
    intro i c hc
    rw [Table.get_put, if_neg (hfresh c (List.mem_of_getElem? hc))]
  have hkeep : ∀ {i : Nat} {c : Card}, cards[i]? = some c →
      (cards ++ [⟨node, id, false⟩])[i]? = some c := by
    intro i c hc
    rw [List.getElem?_append_left (List.getElem?_eq_some_iff.mp hc).1, hc]
  constructor
  case room =>
    rw [Table.size_put_new _ (h.new_id hfresh)]
    omega
  case distinct =>
    rw [List.map_append, List.nodup_append]
    refine ⟨h.distinct, List.nodup_singleton _, ?_⟩
    intro x hx y hy
    obtain ⟨c, hc, rfl⟩ := List.mem_map.mp hx
    obtain rfl : y = id := by simpa using hy
    exact hfresh c hc
  case held =>
    intro x i hget
    rw [Table.get_put] at hget
    split at hget
    · rename_i hx
      cases hget
      exact ⟨⟨node, id, false⟩, by simp, hx.symm⟩
    · obtain ⟨c, hc, hid⟩ := h.held hget
      exact ⟨c, hkeep hc, hid⟩
  case opened =>
    intro i c hc hopen
    rcases getElem?_snoc_cases hc with hc | ⟨rfl, rfl⟩
    · rw [hold hc, h.opened hc hopen]
    · rw [Table.get_put_self]
  case leaving =>
    intro i c hc hclosed
    rcases getElem?_snoc_cases hc with hc | ⟨rfl, rfl⟩
    · rw [hold hc, h.leaving hc hclosed]
    · cases hclosed
  case closed =>
    intro i hi
    obtain ⟨c, hc, hclosed⟩ := h.closed hi
    exact ⟨c, hkeep hc, hclosed⟩
  case once => exact h.once
  case fired =>
    intro i hi
    obtain ⟨c, hc, hclosed⟩ := h.fired hi
    exact ⟨c, hkeep hc, hclosed⟩

/-- Closing an attempt leaves the identifiers as they are. -/
theorem ids_close (hc : cards[i]? = some c) :
    (cards.set i { c with closed := true }).map Card.id = cards.map Card.id := by
  obtain ⟨hi, rfl⟩ := List.getElem?_eq_some_iff.mp hc
  have hlength : i < (cards.map Card.id).length := by rwa [List.length_map]
  have hself := List.set_getElem_self hlength
  rw [List.getElem_map] at hself
  rw [List.map_set]
  exact hself

theorem closed_close (hc : cards[i]? = some c) {j : Nat}
    (hj : j = i ∨ ∃ d, cards[j]? = some d ∧ d.closed = true) :
    ∃ d, (cards.set i { c with closed := true })[j]? = some d ∧ d.closed = true := by
  by_cases hji : j = i
  · subst hji
    exact ⟨_, List.getElem?_set_self (List.getElem?_eq_some_iff.mp hc).1, rfl⟩
  · rw [List.getElem?_set_ne (Ne.symm hji)]
    exact hj.resolve_left hji

/-- The first section of the `Close` that closes the attempt. -/
theorem Accounts.close (h : Accounts active cards closing fired) (hc : cards[i]? = some c)
    (hopen : c.closed = false) (hfired : ∀ j ∈ fired', j = i ∨ j ∈ fired) :
    Accounts active (cards.set i { c with closed := true }) ((i, caller) :: closing) fired' := by
  have hself : (cards.set i { c with closed := true })[i]? = some { c with closed := true } :=
    List.getElem?_set_self (List.getElem?_eq_some_iff.mp hc).1
  have hother : ∀ {j : Nat}, j ≠ i → (cards.set i { c with closed := true })[j]? = cards[j]? :=
    fun hj => List.getElem?_set_ne (Ne.symm hj)
  have hout : i ∉ closing.map Prod.fst := by
    intro hi
    obtain ⟨d, hd, hclosed⟩ := h.closed hi
    cases hc.symm.trans hd
    rw [hopen] at hclosed
    cases hclosed
  constructor
  case room => exact h.room
  case distinct =>
    rw [ids_close hc]
    exact h.distinct
  case held =>
    intro id j hget
    obtain ⟨d, hd, hid⟩ := h.held hget
    by_cases hj : j = i
    · subst hj
      cases hc.symm.trans hd
      exact ⟨_, hself, hid⟩
    · exact ⟨d, (hother hj).trans hd, hid⟩
  case opened =>
    intro j d hd hdopen
    by_cases hj : j = i
    · subst hj
      cases hself.symm.trans hd
      cases hdopen
    · rw [hother hj] at hd
      exact h.opened hd hdopen
  case leaving =>
    intro j d hd hdclosed
    rw [List.map_cons, List.mem_cons]
    by_cases hj : j = i
    · subst hj
      cases hself.symm.trans hd
      simp [h.opened hc hopen]
    · rw [hother hj] at hd
      simp [h.leaving hd hdclosed, hj]
  case closed =>
    intro j hj
    rw [List.map_cons, List.mem_cons] at hj
    exact closed_close hc (hj.imp_right h.closed)
  case once =>
    rw [List.map_cons, List.nodup_cons]
    exact ⟨hout, h.once⟩
  case fired =>
    intro j hj
    exact closed_close hc ((hfired j hj).imp_right h.fired)

/-- A `Close` that finds the attempt closed. -/
theorem Accounts.reclose (h : Accounts active cards closing fired) (hc : cards[i]? = some c)
    (hclosed : c.closed = true) (hfired : ∀ j ∈ fired', j = i ∨ j ∈ fired) :
    Accounts active cards closing fired' := by
  refine ⟨h.room, h.distinct, h.held, h.opened, h.leaving, h.closed, h.once, ?_⟩
  intro j hj
  rcases hfired j hj with rfl | hj
  · exact ⟨c, hc, hclosed⟩
  · exact h.fired hj

theorem Accounts.closing_active (h : Accounts active cards closing fired)
    (hc : cards[i]? = some c) (hin : (i, caller) ∈ closing) :
    c.closed = true ∧ active.get c.id = some i := by
  have hi : i ∈ closing.map Prod.fst := List.mem_map_of_mem hin
  obtain ⟨d, hd, hclosed⟩ := h.closed hi
  cases hc.symm.trans hd
  exact ⟨hclosed, (h.leaving hc hclosed).mpr hi⟩

/-- The second section of `Close` takes the attempt out of the map. -/
theorem Accounts.remove (h : Accounts active cards closing fired) (hc : cards[i]? = some c)
    (hin : (i, caller) ∈ closing) :
    Accounts (active.erase c.id) cards (closing.erase (i, caller)) fired := by
  obtain ⟨hclosed, hget⟩ := h.closing_active hc hin
  have hperm : (closing.map Prod.fst).Perm (i :: (closing.erase (i, caller)).map Prod.fst) :=
    (List.perm_cons_erase hin).map Prod.fst
  have honce := List.nodup_cons.mp (hperm.nodup_iff.mp h.once)
  have hmem : ∀ {j : Nat}, j ∈ (closing.erase (i, caller)).map Prod.fst ↔
      j ≠ i ∧ j ∈ closing.map Prod.fst := by
    intro j
    rw [hperm.mem_iff, List.mem_cons]
    constructor
    · intro hj
      refine ⟨?_, Or.inr hj⟩
      intro heq
      exact honce.1 (heq ▸ hj)
    · intro hj
      exact hj.2.resolve_left hj.1
  have hother : ∀ {j : Nat} {d : Card}, cards[j]? = some d → j ≠ i →
      (active.erase c.id).get d.id = active.get d.id := by
    intro j d hd hj
    rw [Table.get_erase, if_neg]
    intro hid
    exact hj (card_unique h.distinct hd hc hid)
  constructor
  case room =>
    have hsize := Table.size_erase_of_get hget
    have hroom := h.room
    omega
  case distinct => exact h.distinct
  case held =>
    intro id j hj
    rw [Table.get_erase] at hj
    split at hj
    · cases hj
    · exact h.held hj
  case opened =>
    intro j d hd hopen
    have hj : j ≠ i := by
      intro hji
      subst hji
      cases hc.symm.trans hd
      rw [hopen] at hclosed
      cases hclosed
    rw [hother hd hj]
    exact h.opened hd hopen
  case leaving =>
    intro j d hd hdclosed
    rw [hmem]
    by_cases hj : j = i
    · subst hj
      cases hc.symm.trans hd
      simp
    · rw [hother hd hj, h.leaving hd hdclosed]
      simp [hj]
  case closed =>
    intro j hj
    exact h.closed (hmem.mp hj).2
  case once => exact honce.2
  case fired => exact h.fired

/-- When every callback has come and no `Close` stands between its sections, nothing is left. -/
theorem Accounts.settled (h : Accounts active cards [] fired)
    (hfired : ∀ i < cards.length, i ∈ fired) : active.entries = [] := by
  rw [List.eq_nil_iff_forall_not_mem]
  intro e he
  obtain ⟨c, hc, hid⟩ := h.held (Table.get_eq_some_iff.mpr he)
  obtain ⟨d, hd, hclosed⟩ := h.fired (hfired e.2 (List.getElem?_eq_some_iff.mp hc).1)
  cases hc.symm.trans hd
  have hleft := (h.leaving hc hclosed).mp (hid ▸ Table.get_eq_some_iff.mpr he)
  cases hleft

/-! The count of a node moves with the map. -/

/-- The number of active attempts of a node, read off the cards. -/
def tally (active : Table Bytes Nat) (cards : List Card) (name : Bytes) : Nat :=
  active.count fun _ i => (cards[i]?).any fun c => decide (c.node = name)

theorem tally_begin (h : Accounts active cards closing fired) (node : Bytes) {id : Bytes}
    (hfresh : ∀ c ∈ cards, c.id ≠ id) (name : Bytes) :
    tally (active.put id cards.length) (cards ++ [⟨node, id, false⟩]) name =
      tally active cards name + (if node = name then 1 else 0) := by
  have hold : tally active (cards ++ [⟨node, id, false⟩]) name = tally active cards name := by
    apply Table.count_congr
    intro k i hget
    obtain ⟨c, hc, -⟩ := h.held hget
    rw [List.getElem?_append_left (List.getElem?_eq_some_iff.mp hc).1]
  rw [← hold, tally, Table.count_put_new (h.new_id hfresh)]
  simp [tally]

theorem tally_close (hc : cards[i]? = some c) (closed : Bool) (name : Bytes) :
    tally active (cards.set i { c with closed }) name = tally active cards name := by
  apply Table.count_congr
  intro k j _
  by_cases hj : j = i
  · subst hj
    rw [List.getElem?_set_self (List.getElem?_eq_some_iff.mp hc).1, hc]
    rfl
  · rw [List.getElem?_set_ne (Ne.symm hj)]

theorem tally_remove (hc : cards[i]? = some c) (hget : active.get c.id = some i) (name : Bytes) :
    tally (active.erase c.id) cards name + (if c.node = name then 1 else 0) =
      tally active cards name := by
  have hcount := Table.count_erase_of_get hget fun _ i =>
    (cards[i]?).any fun c => decide (c.node = name)
  simpa [tally, hc] using hcount

/-- An attempt without an open or leaving entry counts for no node. -/
theorem tally_eq_zero (h : Accounts active cards closing fired) {name : Bytes}
    (hnone : ∀ c ∈ cards, c.node ≠ name) : tally active cards name = 0 := by
  rw [tally, Table.count, List.countP_eq_zero]
  intro e he
  obtain ⟨c, hc, -⟩ := h.held (Table.get_eq_some_iff.mpr he)
  simp [hc, hnone c (List.mem_of_getElem? hc)]

end Books

theorem pending_eq_tally (g : Generation) (name : Bytes) :
    g.pending name = tally g.active g.cards name := by
  apply Table.count_congr
  intro k i _
  rw [Generation.cards, System.cards, List.getElem?_map]
  cases g.system.attempts[i]? <;> rfl

/-! ## The steps of one generation -/

def Generation.Sound (g : Generation) : Prop := Accounts g.active g.cards g.closing g.fired

def Generation.nodes (g : Generation) : Table Bytes Node := g.system.server.nodes

/-- What a step of a generation writes into its books and into the registry `m`, and which
attempt it takes out of the map. -/
inductive Booked (m : Metrics) (g g' : Generation) : Metrics → Option Nat → Prop where
  | idle (active : g'.active = g.active) (cards : g'.cards = g.cards)
      (closing : g'.closing = g.closing) (fired : g'.fired = g.fired) : Booked m g g' m none
  | begun (c : Card) (fqdn : Bytes) (node : Node) (opened : c.closed = false)
      (room : g.active.size < 32) (fresh : ∀ d ∈ g.cards, d.id ≠ c.id)
      (known : g.nodes.get fqdn = some node) (named : node.name = c.node)
      (active : g'.active = g.active.put c.id g.cards.length) (cards : g'.cards = g.cards ++ [c])
      (closing : g'.closing = g.closing) (fired : g'.fired = g.fired) :
      Booked m g g' (m.pendingAdd c.node 1) none
  | closed (i : Nat) (c : Card) (caller : Closer) (card : g.cards[i]? = some c)
      (opened : c.closed = false) (active : g'.active = g.active)
      (cards : g'.cards = g.cards.set i { c with closed := true })
      (closing : g'.closing = (i, caller) :: g.closing)
      (fired : ∀ j ∈ g'.fired, j = i ∨ j ∈ g.fired) : Booked m g g' m none
  | reclosed (i : Nat) (c : Card) (card : g.cards[i]? = some c) (closed : c.closed = true)
      (active : g'.active = g.active) (cards : g'.cards = g.cards)
      (closing : g'.closing = g.closing) (fired : ∀ j ∈ g'.fired, j = i ∨ j ∈ g.fired) :
      Booked m g g' m none
  | removed (i : Nat) (c : Card) (caller : Closer) (card : g.cards[i]? = some c)
      (inside : (i, caller) ∈ g.closing) (active : g'.active = g.active.erase c.id)
      (cards : g'.cards = g.cards) (closing : g'.closing = g.closing.erase (i, caller))
      (fired : g'.fired = g.fired) : Booked m g g' (m.pendingAdd c.node (-1)) (some i)

theorem begin_books {s t : Server} {handle : Nat} {now : Int} {ctxErr : Option CtxErr}
    {payload : Bytes} {id nonce : Except String (List.Vector UInt8 32)} {a : ServerAttempt}
    (h : s.begin handle now ctxErr payload id nonce = .ok (a, t)) :
    s.active.size < 32 ∧ t.active = s.active.put a.challenge.id handle ∧
      t.metrics = s.metrics.map (fun m => m.pendingAdd a.node.name 1) ∧ t.nodes = s.nodes ∧
      a.closed = false ∧ s.nodes.get a.request.fqdn = some a.node ∧
      ∃ i, id = .ok i ∧ a.challenge.id = randomValue i := by
  unfold Server.begin at h
  split at h
  · cases h
  rename_i request node hscreen
  split at h
  · cases h
  · cases h
  · rename_i i n
    split at h
    · cases h
    rename_i hroom
    cases h
    exact ⟨not_le.mp hroom, rfl, rfl, rfl, rfl, (screen_ok hscreen).2.2.2.1, i, rfl, rfl⟩

section GenerationSteps
variable {jose : Jose} {m : Metrics} {now : Int} {g g' : Generation}

theorem serve_booked {l : Label}
    (hfresh : ∀ ctxErr payload i nonce, l = .begin ctxErr payload (.ok i) nonce →
      ∀ a ∈ g.system.attempts, a.challenge.id ≠ randomValue i)
    (h : (g.share m now).serve jose l = some g') :
    ∃ m', g'.system.server.metrics = some m' ∧ g'.nodes = g.nodes ∧ Booked m g g' m' none := by
  unfold Generation.serve at h
  split at h
  case isFalse => cases h
  rename_i hl
  obtain ⟨system, hstep, rfl⟩ := Option.map_eq_some_iff.mp h
  cases step_served hl hstep with
  | idle server cards uncharged =>
    refine ⟨m, by rw [server]; rfl, by rw [Generation.nodes, server]; rfl, ?_⟩
    exact .idle (by rw [Generation.active, server]; rfl) cards rfl rfl
  | charged c k k' a server call attempt charge =>
    obtain ⟨recent, hrecent⟩ := chargeSuccess_server (g.share m now).system.server a.node.name
      (g.share m now).system.now
    have hserver := (charge_server charge).trans hrecent
    subst hserver
    exact ⟨m, rfl, rfl, .idle rfl rfl rfl rfl⟩
  | begun a server ok =>
    obtain ⟨hroom, hactive, hmetrics, hnodes, hopen, hnode, i, rfl, hid⟩ := begin_books ok
    have hlength : g.cards.length = g.system.attempts.length := by
      simp [Generation.cards, System.cards]
    refine ⟨m.pendingAdd a.node.name 1, hmetrics, hnodes,
      .begun a.card a.request.fqdn a.node hopen hroom ?_ hnode rfl ?_ ?_ rfl rfl⟩
    · intro d hd
      obtain ⟨b, hb, rfl⟩ := List.mem_map.mp hd
      have hne := hfresh _ _ i _ rfl b hb
      rwa [← hid] at hne
    · rw [hlength]
      exact hactive
    · simp [Generation.cards, System.cards, Generation.share]

theorem close_booked {i : Nat} {caller : Closer}
    (h : (g.share m now).close jose i caller = some g') :
    g'.system.server.metrics = some m ∧ g'.nodes = g.nodes ∧ Booked m g g' m none := by
  obtain ⟨a, ha, h⟩ := Option.bind_eq_some_iff.mp h
  split at h
  case isTrue => cases h
  obtain ⟨system, hstep, rfl⟩ := Option.map_eq_some_iff.mp h
  simp only [NodeAttest.step] at hstep
  split at hstep
  case isTrue => cases hstep
  obtain ⟨b, hb, rfl⟩ := onAttempt_eq_some hstep
  cases ha.symm.trans hb
  have hc : g.cards[i]? = some a.card := card_of_attempt ha
  have hfired : ∀ j ∈ (if caller = .callback then i :: g.fired else g.fired),
      j = i ∨ j ∈ g.fired := by
    intro j hj
    split at hj
    · exact List.mem_cons.mp hj
    · exact Or.inr hj
  refine ⟨rfl, rfl, ?_⟩
  cases hclosed : a.closed with
  | true =>
    have hsame : a.close = a := by simp [ServerAttempt.close, hclosed]
    exact .reclosed i a.card hc hclosed rfl (cards_set ha (by rw [hsame])) rfl hfired
  | false =>
    have hclose : a.close.card = { a.card with closed := true } := by
      simp [ServerAttempt.close, hclosed, ServerAttempt.card]
    refine .closed i a.card caller hc hclosed rfl ?_ rfl hfired
    rw [← hclose]
    exact List.map_set ..

theorem remove_booked {i : Nat} {caller : Closer} (hsound : g.Sound)
    (h : (g.share m now).remove jose i caller = some g') :
    ∃ m', g'.system.server.metrics = some m' ∧ g'.nodes = g.nodes ∧
      Booked m g g' m' (some i) := by
  unfold Generation.remove at h
  split at h
  case isFalse => cases h
  rename_i hin
  obtain ⟨system, hstep, rfl⟩ := Option.map_eq_some_iff.mp h
  obtain ⟨a, ha, hstep⟩ := Option.bind_eq_some_iff.mp hstep
  split at hstep
  case isFalse => cases hstep
  cases hstep
  have hc : g.cards[i]? = some a.card := card_of_attempt ha
  have hget : (g.share m now).system.server.active.get a.challenge.id = some i :=
    (Accounts.closing_active hsound hc hin).2
  have hremove : (g.share m now).system.server.remove i a =
      { (g.share m now).system.server with
        active := g.active.erase a.card.id, metrics := some (m.pendingAdd a.card.node (-1)) } := by
    rw [Server.remove, if_pos hget]
    rfl
  rw [hremove]
  exact ⟨_, rfl, rfl, .removed i a.card caller hc hin rfl rfl rfl rfl⟩

end GenerationSteps

/-- The label is admitted, and its gauge will not be reset. -/
def Metrics.Knows (m : Metrics) (name : Bytes) : Prop := name ∈ m.nodes ∧ name ∈ m.stamped

structure Generation.Named (g : Generation) (m : Metrics) : Prop where
  nodes : ∀ {fqdn node}, g.nodes.get fqdn = some node → m.Knows node.name
  cards : ∀ c ∈ g.cards, m.Knows c.node

/-- The attempt has been in the map and no longer is. -/
def Generation.gone (g : Generation) (i : Nat) : Bool :=
  (g.cards[i]?).any fun c => decide (g.active.get c.id ≠ some i)

section Effects
variable {m m' : Metrics} {g g' : Generation} {out : Option Nat}

theorem Booked.sound (h : Booked m g g' m' out) (hsound : g.Sound) : g'.Sound := by
  unfold Generation.Sound
  cases h with
  | idle active cards closing fired =>
    rw [active, cards, closing, fired]
    exact hsound
  | begun c fqdn node opened room fresh known named active cards closing fired =>
    rw [active, cards, closing, fired]
    have hc : c = ⟨c.node, c.id, false⟩ := by rw [← opened]
    have hbegin := Accounts.begin hsound c.node room fresh
    rwa [← hc] at hbegin
  | closed i c caller card opened active cards closing fired =>
    rw [active, cards, closing]
    exact Accounts.close hsound card opened fired
  | reclosed i c card closed active cards closing fired =>
    rw [active, cards, closing]
    exact Accounts.reclose hsound card closed fired
  | removed i c caller card inside active cards closing fired =>
    rw [active, cards, closing, fired]
    exact Accounts.remove hsound card inside

theorem Booked.knows (h : Booked m g g' m' out) {name : Bytes} :
    m'.Knows name ↔ m.Knows name := by
  cases h <;> exact Iff.rfl

theorem Booked.named (h : Booked m g g' m' out) (hnamed : g.Named m) (hnodes : g'.nodes = g.nodes) :
    g'.Named m' := by
  refine ⟨fun hget => h.knows.mpr (hnamed.nodes (hnodes ▸ hget)), fun d hd => h.knows.mpr ?_⟩
  cases h with
  | idle active cards closing fired => exact hnamed.cards d (cards ▸ hd)
  | begun c fqdn node opened room fresh known named active cards closing fired =>
    rw [cards, List.mem_append, List.mem_singleton] at hd
    rcases hd with hd | rfl
    · exact hnamed.cards d hd
    · rw [← named]
      exact hnamed.nodes known
  | closed i c caller card opened active cards closing fired =>
    rw [cards] at hd
    rcases List.mem_or_eq_of_mem_set hd with hd | rfl
    · exact hnamed.cards d hd
    · exact hnamed.cards c (List.mem_of_getElem? card)
  | reclosed i c card closed active cards closing fired => exact hnamed.cards d (cards ▸ hd)
  | removed i c caller card inside active cards closing fired => exact hnamed.cards d (cards ▸ hd)

theorem pendingAdd_diff {node : Bytes} (h : node ∈ m.nodes) (delta : Int) (name : Bytes) :
    (m.pendingAdd node delta).pending name - m.pending name = if node = name then delta else 0 := by
  simp only [Metrics.pendingAdd, Metrics.nodeLocked, if_pos h]
  by_cases hname : node = name
  · subst hname
    simp
  · rw [Function.update_of_ne (Ne.symm hname), if_neg hname]
    omega

/-- The gauges move with the books. -/
theorem Booked.gauge (h : Booked m g g' m' out) (hsound : g.Sound) (hnamed : g.Named m)
    (name : Bytes) :
    m'.pending name - m.pending name = (g'.pending name : Int) - g.pending name := by
  rw [pending_eq_tally, pending_eq_tally]
  cases h with
  | idle active cards closing fired =>
    rw [active, cards]
    omega
  | begun c fqdn node opened room fresh known named active cards closing fired =>
    have hknown : c.node ∈ m.nodes := named ▸ (hnamed.nodes known).1
    have hc : c = ⟨c.node, c.id, false⟩ := by rw [← opened]
    have htally := tally_begin hsound c.node fresh name
    rw [← hc] at htally
    rw [pendingAdd_diff hknown, active, cards, htally]
    split <;> push_cast <;> omega
  | closed i c caller card opened active cards closing fired =>
    rw [active, cards, tally_close card]
    omega
  | reclosed i c card closed active cards closing fired =>
    rw [active, cards]
    omega
  | removed i c caller card inside active cards closing fired =>
    have hknown := (hnamed.cards c (List.mem_of_getElem? card)).1
    have htally := tally_remove card (Accounts.closing_active hsound card inside).2 name
    rw [pendingAdd_diff hknown, active, cards, ← htally]
    split <;> push_cast <;> omega

/-- Only the attempt that is taken out goes, and it was still in. -/
theorem Booked.gone (h : Booked m g g' m' out) (hsound : g.Sound) (j : Nat) :
    g'.gone j = (g.gone j || decide (out = some j)) ∧ (out = some j → g.gone j = false) := by
  unfold Generation.gone
  cases h with
  | idle active cards closing fired => simp [active, cards]
  | begun c fqdn node opened room fresh known named active cards closing fired =>
    refine ⟨?_, by intro hj; cases hj⟩
    rw [active, cards]
    cases hd : (g.cards ++ [c])[j]? with
    | none =>
      have hnone : g.cards[j]? = none := by
        rw [List.getElem?_eq_none_iff] at hd ⊢
        simp at hd
        omega
      simp [hnone]
    | some d =>
      rcases getElem?_snoc_cases hd with hold | ⟨rfl, rfl⟩
      · simp [hold, Table.get_put, fresh d (List.mem_of_getElem? hold)]
      · simp
  | closed i c caller card opened active cards closing fired =>
    refine ⟨?_, by intro hj; cases hj⟩
    rw [active, cards]
    by_cases hj : j = i
    · subst hj
      simp [List.getElem?_set_self (List.getElem?_eq_some_iff.mp card).1, card]
    · simp [List.getElem?_set_ne (Ne.symm hj)]
  | reclosed i c card closed active cards closing fired => simp [active, cards]
  | removed i c caller card inside active cards closing fired =>
    have hget := (Accounts.closing_active hsound card inside).2
    rw [active, cards]
    by_cases hj : j = i
    · subst hj
      simp [card, hget]
    · refine ⟨?_, by intro h; cases h; exact absurd rfl hj⟩
      cases hd : g.cards[j]? with
      | none => simp [Ne.symm hj]
      | some d =>
        have hne : d.id ≠ c.id := fun hid => hj (card_unique hsound.distinct hd card hid)
        simp [Table.get_erase, hne, Ne.symm hj]

end Effects

/-! ## The whole plugin -/

/-- The number of active attempts of a node over all generations. -/
def Plugin.pending (p : Plugin) (name : Bytes) : Nat :=
  (p.generations.map fun g => g.pending name).sum

structure Ledger (p : Plugin) : Prop where
  sound : ∀ g ∈ p.generations, g.Sound
  named : ∀ g ∈ p.generations, g.Named p.metrics
  gauge : ∀ name, p.metrics.pending name = p.pending name

/-- No attempt of the plugin has the identifier that a `Begin` draws. -/
def Fresh (p : Plugin) : PluginLabel → Prop
  | .serve _ (.begin _ _ (.ok i) _) =>
    ∀ g ∈ p.generations, ∀ a ∈ g.system.attempts, a.challenge.id ≠ randomValue i
  | _ => True

instance (p : Plugin) (l : PluginLabel) : Decidable (Fresh p l) := by
  unfold Fresh
  split <;> infer_instance

/-- The attempt that a step takes out of the map of its generation. -/
def Plugin.removal (p : Plugin) : PluginLabel → Option (Nat × Nat)
  | .remove n i _ =>
    (p.generations[n]?).bind fun g => (g.system.attempts[i]?).bind fun a =>
      if g.active.get a.challenge.id = some i then some (n, i) else none
  | _ => none

/-- What a step of the plugin can do. -/
inductive Turned (p : Plugin) : Option (Nat × Nat) → Plugin → Prop where
  | same (t : Plugin) (generations : t.generations = p.generations)
      (knows : ∀ name, p.metrics.Knows name → t.metrics.Knows name)
      (gauges : t.metrics.pending = p.metrics.pending) : Turned p none t
  | configured (config : ServerConfig) (server : Server) (new : newServer config = .ok server) :
      Turned p none
        { p with
          generations := p.generations ++ [⟨System.start server p.now, [], []⟩]
          metrics := server.nodes.entries.foldl (fun m e => m.register e.2.name) p.metrics }
  | moved (n : Nat) (g g' : Generation) (m : Metrics) (out : Option Nat)
      (generation : p.generations[n]? = some g) (booked : Booked p.metrics g g' m out)
      (nodes : g'.nodes = g.nodes) :
      Turned p (out.map fun i => (n, i))
        { p with generations := p.generations.set n g', metrics := m }

theorem record_knows {m : Metrics} {node name : Bytes} {outcome : Outcome} (h : m.Knows name) :
    (m.record node outcome).Knows name := by
  unfold Metrics.record
  split
  · exact ⟨h.1, List.mem_cons_of_mem _ h.2⟩
  · exact h

theorem removal_of_booked {p : Plugin} {n i : Nat} {g g' : Generation} {m : Metrics}
    (hg : p.generations[n]? = some g) (hsound : g.Sound) (h : Booked p.metrics g g' m (some i))
    (caller : Closer) : p.removal (.remove n i caller) = some (n, i) := by
  cases h with
  | removed i c caller card inside active cards closing fired =>
    have hget := (Accounts.closing_active hsound card inside).2
    rw [Generation.cards, System.cards, List.getElem?_map] at card
    obtain ⟨a, ha, rfl⟩ := Option.map_eq_some_iff.mp card
    simp only [Plugin.removal, hg, ha, Option.bind_some]
    exact if_pos hget

theorem step_turned [StatusPackage] {jose : Jose} {p t : Plugin} {l : PluginLabel} (h : Ledger p)
    (hfresh : Fresh p l) (hstep : p.step jose l = some t) : Turned p (p.removal l) t := by
  cases l with
  | configure read core listening =>
    cases hstep
    rcases configure_eq p read core listening with heq | ⟨config, server, hnew, heq⟩
    · rw [heq]
      exact .same p rfl (fun _ h => h) rfl
    · rw [heq]
      exact .configured config server hnew
  | serve n l =>
    rw [Plugin.step] at hstep
    obtain ⟨g, g', hg, hserve, rfl⟩ := onGeneration_eq_some hstep
    have hmem := List.mem_of_getElem? hg
    obtain ⟨m, hm, hnodes, hbooked⟩ := serve_booked (by
      intro ctxErr payload i nonce hl
      subst hl
      exact hfresh g hmem) hserve
    rw [hm]
    exact .moved n g g' m none hg hbooked hnodes
  | close n i caller =>
    rw [Plugin.step] at hstep
    obtain ⟨g, g', hg, hclose, rfl⟩ := onGeneration_eq_some hstep
    obtain ⟨hm, hnodes, hbooked⟩ := close_booked hclose
    rw [hm]
    exact .moved n g g' p.metrics none hg hbooked hnodes
  | remove n i caller =>
    rw [Plugin.step] at hstep
    obtain ⟨g, g', hg, hremove, rfl⟩ := onGeneration_eq_some hstep
    have hsound := h.sound g (List.mem_of_getElem? hg)
    obtain ⟨m, hm, hnodes, hbooked⟩ := remove_booked hsound hremove
    rw [hm]
    rw [removal_of_booked hg hsound hbooked caller]
    exact .moved n g g' m (some i) hg hbooked hnodes
  | record node outcome =>
    cases hstep
    exact .same _ rfl (fun _ h => record_knows h) (Metrics.pending_record ..)
  | tick d =>
    cases hstep
    exact .same _ rfl (fun _ h => h) rfl

theorem register_knows (m : Metrics) (node : Bytes) : (m.register node).Knows node := by
  unfold Metrics.register
  split
  · exact ⟨List.mem_cons_self, ‹_›⟩
  · exact ⟨List.mem_cons_self, List.mem_cons_self⟩

theorem register_keeps {m : Metrics} {name : Bytes} (node : Bytes) (h : m.Knows name) :
    (m.register node).Knows name := by
  unfold Metrics.register
  split
  · exact ⟨List.mem_cons_of_mem _ h.1, h.2⟩
  · exact ⟨List.mem_cons_of_mem _ h.1, List.mem_cons_of_mem _ h.2⟩

/-- A gauge is set to zero only where it is zero already. -/
theorem register_pending {m : Metrics} (h : ∀ name, name ∉ m.stamped → m.pending name = 0)
    (node : Bytes) : (m.register node).pending = m.pending := by
  unfold Metrics.register
  split
  · rfl
  · rename_i hnode
    exact Function.update_eq_self_iff.mpr (h node hnode).symm

theorem register_unstamped {m : Metrics} (h : ∀ name, name ∉ m.stamped → m.pending name = 0)
    (node : Bytes) :
    ∀ name, name ∉ (m.register node).stamped → (m.register node).pending name = 0 := by
  intro name hname
  rw [register_pending h]
  apply h
  intro hold
  apply hname
  unfold Metrics.register
  split
  · exact hold
  · exact List.mem_cons_of_mem _ hold

theorem registerAll {m : Metrics} (h : ∀ name, name ∉ m.stamped → m.pending name = 0)
    (nodes : List (Bytes × Node)) :
    (nodes.foldl (fun m e => m.register e.2.name) m).pending = m.pending ∧
      (∀ name, m.Knows name → (nodes.foldl (fun m e => m.register e.2.name) m).Knows name) ∧
      ∀ e ∈ nodes, (nodes.foldl (fun m e => m.register e.2.name) m).Knows e.2.name := by
  induction nodes generalizing m with
  | nil =>
    refine ⟨rfl, fun _ hname => hname, ?_⟩
    intro e he
    cases he
  | cons e nodes ih =>
    obtain ⟨hpending, hkeeps, hall⟩ := ih (register_unstamped h e.2.name)
    refine ⟨?_, ?_, ?_⟩
    · rw [List.foldl_cons, hpending, register_pending h]
    · intro name hname
      exact hkeeps name (register_keeps _ hname)
    · intro d hd
      rcases List.mem_cons.mp hd with rfl | hd
      · exact hkeeps _ (register_knows m _)
      · exact hall d hd

theorem newServer_active {config : ServerConfig} {server : Server}
    (h : newServer config = .ok server) : server.active = Table.empty := by
  unfold newServer at h
  repeat' split at h
  all_goals cases h
  rfl

/-- A name without a stamp belongs to no attempt. -/
theorem Ledger.unstamped {p : Plugin} (h : Ledger p) {name : Bytes}
    (hname : name ∉ p.metrics.stamped) : p.metrics.pending name = 0 := by
  have hzero : p.pending name = 0 := by
    apply List.sum_eq_zero
    intro n hn
    obtain ⟨g, hg, rfl⟩ := List.mem_map.mp hn
    rw [pending_eq_tally]
    apply tally_eq_zero (h.sound g hg)
    intro c hc hnode
    exact hname (hnode ▸ ((h.named g hg).cards c hc).2)
  rw [h.gauge, hzero]
  rfl

theorem Ledger.turned {p t : Plugin} {out : Option (Nat × Nat)} (h : Ledger p)
    (hturned : Turned p out t) : Ledger t := by
  cases hturned with
  | same t generations knows gauges =>
    refine ⟨generations ▸ h.sound, ?_, ?_⟩
    · intro g hg
      have hnamed := h.named g (generations ▸ hg)
      exact ⟨fun hget => knows _ (hnamed.nodes hget), fun c hc => knows _ (hnamed.cards c hc)⟩
    · intro name
      rw [gauges, Plugin.pending, generations]
      exact h.gauge name
  | configured config server new =>
    obtain ⟨hpending, hkeeps, hall⟩ := registerAll (fun _ => h.unstamped) server.nodes.entries
    refine ⟨?_, ?_, ?_⟩
    · intro g hg
      rcases List.mem_append.mp hg with hg | hg
      · exact h.sound g hg
      · rw [List.mem_singleton.mp hg]
        have hempty : Accounts server.active [] [] [] := newServer_active new ▸ Accounts.empty
        exact hempty
    · intro g hg
      rcases List.mem_append.mp hg with hg | hg
      · have hnamed := h.named g hg
        exact ⟨fun hget => hkeeps _ (hnamed.nodes hget), fun c hc => hkeeps _ (hnamed.cards c hc)⟩
      · rw [List.mem_singleton.mp hg]
        refine ⟨fun hget => hall _ (Table.get_eq_some_iff.mp hget), ?_⟩
        intro c hc
        cases hc
    · intro name
      have hempty : Generation.pending ⟨System.start server p.now, [], []⟩ name = 0 := by
        simp [Generation.pending, Generation.active, System.start, newServer_active new,
          Table.count, Table.empty]
      simp only [Plugin.pending, List.map_append, List.sum_append, List.map_cons, List.map_nil,
        List.sum_cons, List.sum_nil, hempty, hpending]
      exact h.gauge name
  | moved n g g' m out generation booked nodes =>
    have hg := List.mem_of_getElem? generation
    have hnamed := booked.named (h.named g hg) nodes
    refine ⟨?_, ?_, ?_⟩
    · intro d hd
      rcases List.mem_or_eq_of_mem_set hd with hd | rfl
      · exact h.sound d hd
      · exact booked.sound (h.sound g hg)
    · intro d hd
      rcases List.mem_or_eq_of_mem_set hd with hd | rfl
      · have hold := h.named d hd
        exact ⟨fun hget => booked.knows.mpr (hold.nodes hget),
          fun c hc => booked.knows.mpr (hold.cards c hc)⟩
      · exact hnamed
    · intro name
      have hsum := sum_map_set (fun g => g.pending name) g' generation
      have hgauge := booked.gauge (h.sound g hg) (h.named g hg) name
      have hbefore := h.gauge name
      simp only [Plugin.pending] at hbefore ⊢
      omega

theorem Ledger.step [StatusPackage] {jose : Jose} {p t : Plugin} {l : PluginLabel} (h : Ledger p)
    (hfresh : Fresh p l) (hstep : p.step jose l = some t) : Ledger t :=
  h.turned (step_turned h hfresh hstep)

theorem Ledger.initial (now : Int) : Ledger (.initial now) := by
  refine ⟨?_, ?_, fun _ => rfl⟩ <;>
  · intro g hg
    cases hg

/-! ## Removals -/

def Plugin.gone (p : Plugin) (x : Nat × Nat) : Bool := (p.generations[x.1]?).any fun g => g.gone x.2

theorem Turned.gone {p t : Plugin} {out : Option (Nat × Nat)} (h : Ledger p)
    (hturned : Turned p out t) (x : Nat × Nat) :
    t.gone x = (p.gone x || decide (out = some x)) ∧ (out = some x → p.gone x = false) := by
  unfold Plugin.gone
  cases hturned with
  | same t generations knows gauges => simp [generations]
  | configured config server new =>
    refine ⟨?_, by intro hx; cases hx⟩
    dsimp only
    cases hd : (p.generations ++ [⟨System.start server p.now, [], []⟩])[x.1]? with
    | none =>
      have hnone : p.generations[x.1]? = none := by
        rw [List.getElem?_eq_none_iff] at hd ⊢
        simp at hd
        omega
      simp [hnone]
    | some d =>
      rcases getElem?_snoc_cases hd with hold | ⟨hx, rfl⟩
      · simp [hold]
      · simp [hx, Generation.gone, Generation.cards, System.cards, System.start]
  | moved n g g' m out generation booked nodes =>
    have hlt := (List.getElem?_eq_some_iff.mp generation).1
    obtain ⟨k, j⟩ := x
    have hgone := booked.gone (h.sound g (List.mem_of_getElem? generation)) j
    by_cases hk : k = n
    · subst hk
      simp only [List.getElem?_set_self hlt, generation, Option.any_some, hgone.1]
      cases out <;> simp_all
    · simp only [List.getElem?_set_ne (Ne.symm hk)]
      cases out <;> simp [Ne.symm hk]

theorem Booked.grows {m m' : Metrics} {g g' : Generation} {out : Option Nat}
    (h : Booked m g g' m' out) : g.cards.length ≤ g'.cards.length := by
  cases h with
  | idle active cards closing fired => rw [cards]
  | begun c fqdn node opened room fresh known named active cards closing fired =>
    rw [cards, List.length_append]
    omega
  | closed i c caller card opened active cards closing fired => rw [cards, List.length_set]
  | reclosed i c card closed active cards closing fired => rw [cards]
  | removed i c caller card inside active cards closing fired => rw [cards]

theorem Turned.grows {p t : Plugin} {out : Option (Nat × Nat)} (h : Turned p out t) {n : Nat}
    {g : Generation} (hg : p.generations[n]? = some g) :
    ∃ g', t.generations[n]? = some g' ∧ g.cards.length ≤ g'.cards.length := by
  cases h with
  | same t generations knows gauges => exact ⟨g, generations ▸ hg, le_rfl⟩
  | configured config server new =>
    refine ⟨g, ?_, le_rfl⟩
    rw [List.getElem?_append_left (List.getElem?_eq_some_iff.mp hg).1, hg]
  | moved k d d' m out generation booked nodes =>
    by_cases hk : n = k
    · subst hk
      cases hg.symm.trans generation
      exact ⟨d', List.getElem?_set_self (List.getElem?_eq_some_iff.mp hg).1, booked.grows⟩
    · exact ⟨g, (List.getElem?_set_ne (Ne.symm hk)).trans hg, le_rfl⟩

theorem removal_label {p : Plugin} {l : PluginLabel} {n i : Nat}
    (h : p.removal l = some (n, i)) : ∃ caller, l = .remove n i caller := by
  cases l with
  | remove k j caller =>
    obtain ⟨g, -, h⟩ := Option.bind_eq_some_iff.mp h
    obtain ⟨a, -, h⟩ := Option.bind_eq_some_iff.mp h
    split at h
    · cases h
      exact ⟨caller, rfl⟩
    · cases h
  | _ => cases h

/-- Attempt `i` is in the map of the generation. -/
def Generation.holds (g : Generation) (i : Nat) : Bool :=
  g.active.entries.any fun e => decide (e.2 = i)

theorem holds_eq {g : Generation} (h : g.Sound) {i : Nat} (hi : i < g.system.attempts.length) :
    g.holds i = !g.gone i := by
  have hlt : i < g.cards.length := by simpa [Generation.cards, System.cards] using hi
  have hc : g.cards[i]? = some g.cards[i] := List.getElem?_eq_getElem hlt
  rw [Generation.gone, hc, Option.any_some, Bool.eq_iff_iff]
  simp only [Generation.holds, List.any_eq_true, decide_eq_true_eq, Bool.not_eq_true',
    decide_eq_false_iff_not, not_not]
  constructor
  · rintro ⟨e, he, rfl⟩
    obtain ⟨d, hd, hid⟩ := h.held (Table.get_eq_some_iff.mpr he)
    cases hc.symm.trans hd
    rw [hid]
    exact Table.get_eq_some_iff.mpr he
  · intro hget
    exact ⟨_, Table.get_eq_some_iff.mp hget, rfl⟩

theorem Plugin.holds_attempt {p : Plugin} (h : Ledger p) {n i : Nat} {g : Generation}
    (hg : p.generations[n]? = some g) (hi : g.holds i = true) :
    i < g.system.attempts.length ∧ p.gone (n, i) = false := by
  have hsound := h.sound g (List.mem_of_getElem? hg)
  obtain ⟨e, he, heq⟩ := List.any_eq_true.mp hi
  obtain rfl : e.2 = i := by simpa using heq
  obtain ⟨c, hc, -⟩ := hsound.held (Table.get_eq_some_iff.mpr he)
  have hlt : e.2 < g.system.attempts.length := by
    simpa [Generation.cards, System.cards] using (List.getElem?_eq_some_iff.mp hc).1
  refine ⟨hlt, ?_⟩
  rw [holds_eq hsound hlt] at hi
  simpa [Plugin.gone, hg] using hi

/-- Every callback has come, so that every context has ended, and every `Close` that was called
has returned. -/
def Plugin.Settled (p : Plugin) : Prop :=
  ∀ g ∈ p.generations, (∀ i < g.system.attempts.length, i ∈ g.fired) ∧ g.closing = []

theorem removals_count [StatusPackage] {jose : Jose} {now : Int} {labels : List PluginLabel}
    {p : Plugin} (hfresh : Along (Plugin.step jose) Fresh (.initial now) labels)
    (hrun : exec (Plugin.step jose) (.initial now) labels = some p) (x : Nat × Nat) :
    (trace (Plugin.step jose) Plugin.removal (.initial now) labels).count x =
      if p.gone x then 1 else 0 := by
  induction labels using List.reverseRecOn generalizing p with
  | nil =>
    cases hrun
    rfl
  | append_singleton labels l ih =>
    obtain ⟨m, hm, hstep⟩ := exec_concat_iff.mp hrun
    obtain ⟨hpast, hl⟩ := (along_concat_iff hm).mp hfresh
    have hledger := exec_along Ledger.step (Ledger.initial now) hpast hm
    have hgone := (step_turned hledger hl hstep).gone hledger x
    rw [trace_concat _ hm, List.count_append, ih hpast hm, hgone.1]
    cases hout : m.removal l with
    | none => simp
    | some y =>
      by_cases hxy : y = x
      · subst hxy
        simp [hgone.2 hout]
      · simp [hxy]

/-- In every run of a plugin in which no identifier is drawn twice: no generation has more than
32 active attempts; an attempt leaves the map of its generation once, or is still in it, and a
step takes out no other attempt than the one whose `Close` it belongs to; the gauge of a node is
the number of its active attempts in all generations; and when the run has settled, all maps are
empty and all gauges are zero. -/
theorem plugin_accounts [StatusPackage] {jose : Jose} {now : Int} {labels : List PluginLabel}
    {p : Plugin} (hfresh : Along (Plugin.step jose) Fresh (.initial now) labels)
    (hrun : exec (Plugin.step jose) (.initial now) labels = some p) :
    (∀ g ∈ p.generations, g.active.size ≤ 32) ∧
    (∀ (n : Nat) g i, p.generations[n]? = some g → i < g.system.attempts.length →
      (trace (Plugin.step jose) Plugin.removal (.initial now) labels).count (n, i) +
        (if g.holds i then 1 else 0) = 1) ∧
    (∀ l t, Fresh p l → p.step jose l = some t →
      ∀ (n : Nat) g i, p.generations[n]? = some g → g.holds i = true →
        (∃ g', t.generations[n]? = some g' ∧ g'.holds i = true) ∨
          ∃ caller, l = .remove n i caller) ∧
    (∀ name, p.metrics.pending name = p.pending name) ∧
    (p.Settled →
      (∀ g ∈ p.generations, g.active.size = 0) ∧ ∀ name, p.metrics.pending name = 0) := by
  have hledger := exec_along Ledger.step (Ledger.initial now) hfresh hrun
  refine ⟨fun g hg => (hledger.sound g hg).room, ?_, ?_, hledger.gauge, ?_⟩
  · intro n g i hg hi
    have hgone : p.gone (n, i) = g.gone i := by simp [Plugin.gone, hg]
    rw [removals_count hfresh hrun, holds_eq (hledger.sound g (List.mem_of_getElem? hg)) hi, hgone]
    cases g.gone i <;> rfl
  · intro l t hl hstep n g i hg hi
    obtain ⟨hlt, hin⟩ := Plugin.holds_attempt hledger hg hi
    have hturned := step_turned hledger hl hstep
    have hgone := (hturned.gone hledger (n, i)).1
    rw [hin, Bool.false_or] at hgone
    by_cases hout : p.removal l = some (n, i)
    · exact Or.inr (removal_label hout)
    · obtain ⟨g', hg', hgrows⟩ := hturned.grows hg
      have hlt' : i < g'.system.attempts.length := by
        simp only [Generation.cards, System.cards, List.length_map] at hgrows
        omega
      refine Or.inl ⟨g', hg', ?_⟩
      rw [holds_eq ((hledger.step hl hstep).sound g' (List.mem_of_getElem? hg')) hlt']
      simpa [Plugin.gone, hg', hout] using hgone
  · intro hsettled
    have hempty : ∀ g ∈ p.generations, g.active.entries = [] := by
      intro g hg
      obtain ⟨hfired, hclosing⟩ := hsettled g hg
      have hsound := hledger.sound g hg
      rw [Generation.Sound, hclosing] at hsound
      apply hsound.settled
      intro i hi
      exact hfired i (by simpa [Generation.cards, System.cards] using hi)
    refine ⟨?_, ?_⟩
    · intro g hg
      simp [Table.size, hempty g hg]
    · intro name
      have hzero : p.pending name = 0 := by
        apply List.sum_eq_zero
        intro n hn
        obtain ⟨g, hg, rfl⟩ := List.mem_map.mp hn
        simp [Generation.pending, Table.count, hempty g hg]
      rw [hledger.gauge, hzero]
      rfl

/-- A plugin is configured, and one attempt begins. -/
def sampleBegin : List PluginLabel :=
  [.configure (.ok sampleConfig) (str "realm.test") true,
    .serve 0 (.begin none (encode sampleRequest.value) (.ok (sampleRandom 1))
      (.ok (sampleRandom 2)))]

/-- The owner closes the attempt; the callback comes between the two sections of its `Close`. -/
def sampleClose : List PluginLabel :=
  [.close 0 0 .owner, .close 0 0 .callback, .remove 0 0 .owner]

theorem sampleClose_runs :
    (exec (Plugin.step sampleJose) (.initial 0) (sampleBegin ++ sampleClose)).isSome = true := by
  decide +kernel

theorem plugin_accounts_sampleClose :
    ∃ p, exec (Plugin.step sampleJose) (.initial 0) (sampleBegin ++ sampleClose) = some p ∧
      p.metrics.pending (str "alpha") = p.pending (str "alpha") := by
  obtain ⟨p, hp⟩ := Option.isSome_iff_exists.mp sampleClose_runs
  exact ⟨p, hp, (plugin_accounts (by decide +kernel) hp).2.2.2.1 (str "alpha")⟩

/-- All contexts have ended and all callbacks have returned, but the owner's `Close` has not come
to its second section: the attempt is still in the map and in the gauge. -/
theorem active_after_callbacks :
    Along (Plugin.step sampleJose) Fresh (.initial 0) (sampleBegin ++ sampleClose.take 2) ∧
      (exec (Plugin.step sampleJose) (.initial 0) (sampleBegin ++ sampleClose.take 2)).any
        (fun p =>
          (p.generations.all fun g =>
            (g.system.attempts.all fun a => a.ctxErr.isSome) &&
            ((List.range g.system.attempts.length).all fun i => decide (i ∈ g.fired)) &&
            (g.closing.all fun e => decide (e.2 ≠ .callback))) &&
          (p.generations.map fun g => g.active.size) == [1] &&
          p.metrics.pending (str "alpha") == 1) = true := by
  decide +kernel

end RealmFormal.NodeAttest

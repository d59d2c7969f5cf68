import RealmFormal.NodeAttest.Responder
import RealmFormal.NodeAttest.Documents
import RealmFormal.NodeAttest.MetricsRegistry

/-!
# What the responder's store holds

The store over whole runs: how many proofs it holds and where they come from,
which document a reader gets, and how the gauge and the counters follow the
store. Every locked section starts with a sweep or changes one entry, so the
invariant is shown for the sweep, for storing and for removing an entry.
-/

namespace RealmFormal.NodeAttest
open Go Go.Json Transition
set_option autoImplicit false

/-! ## The sweep -/

/-- `r'` is `r` without some expired proofs, with gauge and counter adjusted. -/
structure Swept (clock : Bytes → Int) (r r' : Responder) : Prop where
  config : r'.config = r.config
  nodes : r'.metrics.nodes = r.metrics.nodes
  kept : ∀ id p, r'.proofs.get id = some p → r.proofs.get id = some p
  gone : ∀ id p, r.proofs.get id = some p → r'.proofs.get id = none →
    p.expiresAt ≤ unix (clock id)
  smaller : r'.proofs.size ≤ r.proofs.size
  published : r'.metrics.proofs .published = r.metrics.proofs .published
  deleted : r'.metrics.proofs .deleted = r.metrics.proofs .deleted
  expired : r'.metrics.proofs .expired + r'.proofs.size = r.metrics.proofs .expired + r.proofs.size
  gauge : r.config.fqdn ∈ r.metrics.nodes →
    r'.metrics.pending r.config.fqdn - r'.proofs.size =
      r.metrics.pending r.config.fqdn - r.proofs.size

theorem Swept.refl (clock : Bytes → Int) (r : Responder) : Swept clock r r where
  config := rfl
  nodes := rfl
  kept := fun _ _ h => h
  gone := by
    intro id p h hnone
    rw [h] at hnone
    cases hnone
  smaller := Nat.le_refl _
  published := rfl
  deleted := rfl
  expired := rfl
  gauge := fun _ => rfl

theorem Swept.trans {clock : Bytes → Int} {a b c : Responder} (h : Swept clock a b)
    (h' : Swept clock b c) : Swept clock a c where
  config := h'.config.trans h.config
  nodes := h'.nodes.trans h.nodes
  kept := fun id p hp => h.kept id p (h'.kept id p hp)
  gone := by
    intro id p hp hnone
    cases hb : b.proofs.get id with
    | none => exact h.gone id p hp hb
    | some q =>
      cases hp.symm.trans (h.kept id q hb)
      exact h'.gone id p hb hnone
  smaller := h'.smaller.trans h.smaller
  published := h'.published.trans h.published
  deleted := h'.deleted.trans h.deleted
  expired := h'.expired.trans h.expired
  gauge := by
    intro hnode
    have hb := h'.gauge (by rwa [h.config, h.nodes])
    rw [h.config] at hb
    exact hb.trans (h.gauge hnode)

theorem Responder.expire_swept (clock : Bytes → Int) {r : Responder} {e : Bytes × StoredProof}
    (he : r.proofs.get e.1 = some e.2) : Swept clock r (r.expire clock e) := by
  unfold Responder.expire
  split
  · rename_i hexpired
    have hsize := Table.size_erase_of_get he
    constructor
    · rfl
    · rfl
    · intro id p hp
      rw [Table.get_erase] at hp
      split at hp
      · cases hp
      · exact hp
    · intro id p hp hnone
      rw [Table.get_erase] at hnone
      split at hnone
      · rename_i hid
        subst hid
        cases he.symm.trans hp
        exact hexpired
      · rw [hp] at hnone
        cases hnone
    · show (r.proofs.erase e.1).size ≤ r.proofs.size
      omega
    · exact Metrics.proofs_proof_of_ne _ (by decide)
    · exact Metrics.proofs_proof_of_ne _ (by decide)
    · show ((r.metrics.pendingAdd r.config.fqdn (-1)).proof .expired).proofs .expired + _ = _
      rw [Metrics.proofs_proof_self]
      show r.metrics.proofs .expired + 1 + (r.proofs.erase e.1).size = _
      omega
    · intro hnode
      show (r.metrics.pendingAdd r.config.fqdn (-1)).pending r.config.fqdn -
        (r.proofs.erase e.1).size = _
      rw [Metrics.pending_pendingAdd hnode]
      omega
  · exact Swept.refl clock r

/-- The loop over entries that are all stored, each under its own key. -/
theorem foldl_expire (clock : Bytes → Int) (entries : List (Bytes × StoredProof)) (r : Responder)
    (hdistinct : (entries.map Prod.fst).Nodup)
    (hstored : ∀ e ∈ entries, r.proofs.get e.1 = some e.2) :
    Swept clock r (entries.foldl (Responder.expire clock) r) ∧
      ∀ e ∈ entries, e.2.expiresAt ≤ unix (clock e.1) →
        (entries.foldl (Responder.expire clock) r).proofs.get e.1 = none := by
  induction entries generalizing r with
  | nil => exact ⟨Swept.refl clock r, nofun⟩
  | cons e entries ih =>
    obtain ⟨hfresh, hdistinct⟩ := List.nodup_cons.mp hdistinct
    obtain ⟨he, hrest⟩ := List.forall_mem_cons.mp hstored
    have hfirst := Responder.expire_swept clock he
    have hnext : ∀ x ∈ entries, (r.expire clock e).proofs.get x.1 = some x.2 := by
      intro x hx
      have hne : x.1 ≠ e.1 := fun heq => hfresh (heq ▸ List.mem_map_of_mem hx)
      unfold Responder.expire
      split
      · rw [Table.get_erase, if_neg hne]
        exact hrest x hx
      · exact hrest x hx
    obtain ⟨hswept, hgone⟩ := ih (r.expire clock e) hdistinct hnext
    refine ⟨hfirst.trans hswept, ?_⟩
    rintro x hx hexpired
    rcases List.mem_cons.mp hx with rfl | hx
    · by_contra hne
      obtain ⟨p, hp⟩ := Option.ne_none_iff_exists'.mp hne
      have hp := hswept.kept x.1 p hp
      simp [Responder.expire, hexpired] at hp
    · exact hgone x hx hexpired

theorem Responder.expireLocked_swept (r : Responder) (clock : Bytes → Int) :
    Swept clock r (r.expireLocked clock) :=
  (foldl_expire clock r.proofs.entries r r.proofs.distinct
    fun _ he => Table.get_eq_some_iff.mpr he).1

/-- A proof that is left after the sweep expires after its clock reading. -/
theorem Responder.expireLocked_live {r : Responder} {clock : Bytes → Int} {id : Bytes}
    {p : StoredProof} (h : (r.expireLocked clock).proofs.get id = some p) :
    unix (clock id) < p.expiresAt := by
  by_contra hexpired
  have hstored := (r.expireLocked_swept clock).kept id p h
  have hnone := (foldl_expire clock r.proofs.entries r r.proofs.distinct
    fun _ he => Table.get_eq_some_iff.mpr he).2 (id, p) (Table.get_eq_some_iff.mp hstored)
    (not_lt.mp hexpired)
  rw [Responder.expireLocked, hnone] at h
  cases h

/-! ## The invariant -/

def Accepted.id : Accepted → Bytes
  | .put id _ _ _ => id
  | .delete id => id

def Accepted.isPut : Accepted → Bool
  | .put _ _ _ _ => true
  | .delete _ => false

/-- A publish that took the place of a stored proof. -/
def Accepted.isReplacing : Accepted → Bool
  | .put _ _ _ replacing => replacing
  | .delete _ => false

/-- The proof passed `parseProof` for the configured name, at a clock reading up to `time`, with
the ID it is stored under and the expiry it is stored with. -/
def Parsed (jose : Jose) (config : ResponderConfig) (time : Int) (id : Bytes) (p : StoredProof) :
    Prop :=
  ∃ now c, now ≤ time ∧ parseProof jose p.body config.fqdn now = .ok c ∧ c.id = id ∧
    c.expiresAt = p.expiresAt

/-- The proof was published by the last accepted request for `id`. -/
def Latest (journal : List Accepted) (id : Bytes) (p : StoredProof) : Prop :=
  ∃ before after replacing, journal = before ++ .put id p.body p.expiresAt replacing :: after ∧
    ∀ a ∈ after, a.id ≠ id

theorem Parsed.mono {jose : Jose} {config : ResponderConfig} {time time' : Int} {id : Bytes}
    {p : StoredProof} (h : Parsed jose config time id p) (hle : time ≤ time') :
    Parsed jose config time' id p := by
  obtain ⟨now, c, hnow, hparse⟩ := h
  exact ⟨now, c, hnow.trans hle, hparse⟩

theorem Latest.append {journal : List Accepted} {id : Bytes} {p : StoredProof}
    (h : Latest journal id p) {a : Accepted} (ha : a.id ≠ id) : Latest (journal ++ [a]) id p := by
  obtain ⟨before, after, replacing, rfl, hafter⟩ := h
  refine ⟨before, after ++ [a], replacing, by simp, ?_⟩
  intro x hx
  rcases List.mem_append.mp hx with hx | hx
  · exact hafter x hx
  · cases List.mem_singleton.mp hx
    exact ha

theorem Latest.last (journal : List Accepted) (id body : Bytes) (expiresAt : Int)
    (replacing : Bool) :
    Latest (journal ++ [.put id body expiresAt replacing]) id ⟨body, expiresAt⟩ :=
  ⟨journal, [], replacing, rfl, nofun⟩

/-- The store, its gauge and its counters agree with the journal. -/
structure Books (jose : Jose) (config : ResponderConfig) (time : Int) (r : Responder)
    (journal : List Accepted) : Prop where
  configured : r.config = config
  registered : config.fqdn ∈ r.metrics.nodes
  bounded : r.proofs.size ≤ 4
  parsed : ∀ id p, r.proofs.get id = some p → Parsed jose config time id p
  latest : ∀ id p, r.proofs.get id = some p → Latest journal id p
  gauge : r.metrics.pending config.fqdn = r.proofs.size
  published : r.metrics.proofs .published = journal.countP Accepted.isPut
  balance : r.metrics.proofs .published =
    r.metrics.proofs .deleted + r.metrics.proofs .expired + r.proofs.size +
      journal.countP Accepted.isReplacing

section Books
variable {jose : Jose} {config : ResponderConfig} {time : Int} {r : Responder}
  {journal : List Accepted}

theorem Books.mono (h : Books jose config time r journal) {time' : Int} (hle : time ≤ time') :
    Books jose config time' r journal :=
  { h with parsed := fun id p hp => (h.parsed id p hp).mono hle }

theorem Books.swept (h : Books jose config time r journal) {clock : Bytes → Int} {r' : Responder}
    (hs : Swept clock r r') : Books jose config time r' journal where
  configured := hs.config.trans h.configured
  registered := hs.nodes ▸ h.registered
  bounded := hs.smaller.trans h.bounded
  parsed := fun id p hp => h.parsed id p (hs.kept id p hp)
  latest := fun id p hp => h.latest id p (hs.kept id p hp)
  gauge := by
    have hgauge := hs.gauge (h.configured ▸ h.registered)
    rw [h.configured, h.gauge] at hgauge
    omega
  published := hs.published.trans h.published
  balance := by
    have hexpired := hs.expired
    rw [hs.published, hs.deleted, h.balance]
    omega

/-- Who holds a proof after `id` was stored. -/
theorem get_put_cases {t : Table Bytes StoredProof} {id j : Bytes} {p q : StoredProof}
    (h : (t.put id p).get j = some q) : (j = id ∧ q = p) ∨ (j ≠ id ∧ t.get j = some q) := by
  rw [Table.get_put] at h
  split at h
  · cases h
    exact Or.inl ⟨‹_›, rfl⟩
  · exact Or.inr ⟨‹_›, h⟩

/-- The metrics after a publish: the gauge moves when the proof is new. -/
def Responder.publishedMetrics (r : Responder) (id : Bytes) : Metrics :=
  (if (r.proofs.get id).isNone then r.metrics.pendingAdd r.config.fqdn 1 else r.metrics).proof
    .published

theorem publishedMetrics_facts (r : Responder) (id : Bytes) (p : StoredProof)
    (hnode : r.config.fqdn ∈ r.metrics.nodes) :
    (r.publishedMetrics id).nodes = r.metrics.nodes ∧
      (r.publishedMetrics id).pending r.config.fqdn + r.proofs.size =
        r.metrics.pending r.config.fqdn + (r.proofs.put id p).size ∧
      (r.publishedMetrics id).proofs .published = r.metrics.proofs .published + 1 ∧
      (r.publishedMetrics id).proofs .deleted = r.metrics.proofs .deleted ∧
      (r.publishedMetrics id).proofs .expired = r.metrics.proofs .expired ∧
      (r.proofs.put id p).size + (if (r.proofs.get id).isSome then 1 else 0) =
        r.proofs.size + 1 := by
  unfold Responder.publishedMetrics
  rw [Metrics.proofs_proof_self, Metrics.proofs_proof_of_ne _ (by decide),
    Metrics.proofs_proof_of_ne _ (by decide)]
  cases hget : r.proofs.get id with
  | none =>
    have hsize := Table.size_put_new p hget
    refine ⟨rfl, ?_, rfl, rfl, rfl, hsize⟩
    show (r.metrics.pendingAdd r.config.fqdn 1).pending r.config.fqdn + _ = _
    rw [Metrics.pending_pendingAdd hnode, hsize]
    omega
  | some old =>
    have hsize := Table.size_put_old p hget
    refine ⟨rfl, ?_, rfl, rfl, rfl, ?_⟩
    · rw [hsize]
      rfl
    · rw [hsize]
      rfl

theorem Books.put (h : Books jose config time r journal) {id body : Bytes} {expiresAt : Int}
    (hparsed : Parsed jose config time id ⟨body, expiresAt⟩)
    (hroom : ¬ ((r.proofs.get id).isNone ∧ r.proofs.size ≥ 4)) :
    Books jose config time
      { r with proofs := r.proofs.put id ⟨body, expiresAt⟩, metrics := r.publishedMetrics id }
      (journal ++ [.put id body expiresAt (r.proofs.get id).isSome]) := by
  obtain ⟨hnodes, hpending, hpublished, hdeleted, hexpired, hsize⟩ :=
    publishedMetrics_facts r id ⟨body, expiresAt⟩ (h.configured ▸ h.registered)
  rw [h.configured, h.gauge] at hpending
  constructor
  · exact h.configured
  · exact hnodes ▸ h.registered
  · have hbounded := h.bounded
    show (r.proofs.put id ⟨body, expiresAt⟩).size ≤ 4
    cases hget : r.proofs.get id with
    | none =>
      simp only [hget, Option.isNone_none, true_and, not_le] at hroom
      omega
    | some old =>
      simp only [hget, Option.isSome_some, if_true] at hsize
      omega
  · intro j q hq
    rcases get_put_cases hq with ⟨rfl, rfl⟩ | ⟨-, hq⟩
    · exact hparsed
    · exact h.parsed j q hq
  · intro j q hq
    rcases get_put_cases hq with ⟨rfl, rfl⟩ | ⟨hne, hq⟩
    · exact Latest.last journal j body expiresAt _
    · exact (h.latest j q hq).append (Ne.symm hne)
  · show (r.publishedMetrics id).pending config.fqdn = (r.proofs.put id ⟨body, expiresAt⟩).size
    omega
  · show (r.publishedMetrics id).proofs .published = _
    rw [hpublished, h.published]
    simp [Accepted.isPut]
  · show (r.publishedMetrics id).proofs .published =
      (r.publishedMetrics id).proofs .deleted + (r.publishedMetrics id).proofs .expired +
        (r.proofs.put id ⟨body, expiresAt⟩).size + _
    rw [hpublished, hdeleted, hexpired, h.balance, List.countP_append, List.countP_singleton]
    cases hreplacing : (r.proofs.get id).isSome <;>
      simp only [hreplacing, Accepted.isReplacing, if_true, if_false, Bool.false_eq_true] at hsize ⊢ <;>
      omega

theorem Books.publish (h : Books jose config time r journal) (clock : Bytes → Int)
    {id body : Bytes} {expiresAt : Int} (hparsed : Parsed jose config time id ⟨body, expiresAt⟩) :
    Books jose config time (r.publish clock id body expiresAt).2
      (journal ++ r.entry clock (.put id body expiresAt)) := by
  have hs := h.swept (r.expireLocked_swept clock)
  unfold Responder.entry Responder.publish
  dsimp only
  split
  · simpa [httpError] using hs
  · rename_i hroom
    rw [if_pos rfl]
    exact hs.put hparsed hroom

theorem Books.erase (h : Books jose config time r journal) {id : Bytes} {p : StoredProof}
    (hget : r.proofs.get id = some p) :
    Books jose config time
      { r with
        proofs := r.proofs.erase id
        metrics := (r.metrics.pendingAdd r.config.fqdn (-1)).proof .deleted }
      (journal ++ [.delete id]) := by
  have hsize := Table.size_erase_of_get hget
  have hothers : ∀ j q, (r.proofs.erase id).get j = some q → j ≠ id ∧ r.proofs.get j = some q := by
    intro j q hq
    rw [Table.get_erase] at hq
    split at hq
    · cases hq
    · exact ⟨‹_›, hq⟩
  constructor
  · exact h.configured
  · exact h.registered
  · have hbounded := h.bounded
    show (r.proofs.erase id).size ≤ 4
    omega
  · exact fun j q hq => h.parsed j q (hothers j q hq).2
  · intro j q hq
    obtain ⟨hne, hq⟩ := hothers j q hq
    exact (h.latest j q hq).append (Ne.symm hne)
  · have hgauge := h.gauge
    show (r.metrics.pendingAdd r.config.fqdn (-1)).pending config.fqdn = (r.proofs.erase id).size
    rw [h.configured, Metrics.pending_pendingAdd h.registered]
    omega
  · show ((r.metrics.pendingAdd r.config.fqdn (-1)).proof .deleted).proofs .published = _
    rw [Metrics.proofs_proof_of_ne _ (by decide), List.countP_append]
    exact h.published
  · have hbalance := h.balance
    show ((r.metrics.pendingAdd r.config.fqdn (-1)).proof .deleted).proofs .published =
      ((r.metrics.pendingAdd r.config.fqdn (-1)).proof .deleted).proofs .deleted +
        ((r.metrics.pendingAdd r.config.fqdn (-1)).proof .deleted).proofs .expired +
          (r.proofs.erase id).size + _
    rw [Metrics.proofs_proof_of_ne _ (by decide), Metrics.proofs_proof_self,
      Metrics.proofs_proof_of_ne _ (by decide), List.countP_append]
    show r.metrics.proofs .published = r.metrics.proofs .deleted + 1 + r.metrics.proofs .expired +
      (r.proofs.erase id).size + (journal.countP Accepted.isReplacing + 0)
    omega

theorem Books.withdraw (h : Books jose config time r journal) (id : Bytes) :
    Books jose config time (r.withdraw id).2 (journal ++ [.delete id]) := by
  cases hget : r.proofs.get id with
  | some p => simpa [Responder.withdraw, hget] using h.erase hget
  | none =>
    have hsame : (r.withdraw id).2 = r := by simp [Responder.withdraw, hget]
    rw [hsame]
    refine { h with latest := ?_, published := ?_, balance := ?_ }
    · intro j q hq
      refine (h.latest j q hq).append fun hid => ?_
      cases (hid ▸ hget : r.proofs.get j = none).symm.trans hq
    · rw [List.countP_append]
      exact h.published
    · rw [List.countP_append]
      exact h.balance

end Books

/-! ## Runs -/

/-- The invariant of the store with its waiting requests. -/
structure StoreInv (jose : Jose) (config : ResponderConfig) (s : Store) : Prop where
  books : Books jose config s.time s.responder s.journal
  waiting : ∀ id body expiresAt, .put id body expiresAt ∈ s.waiting →
    Parsed jose config s.time id ⟨body, expiresAt⟩

/-- How a step of the store can go. -/
inductive StoreStep (jose : Jose) (s : Store) : StoreLabel → Store → Prop where
  | get {q : HttpRequest} {clock : Bytes → Int} {done : Int} {delivered : Bool}
      (reads : s.reads clock done = true) :
      StoreStep jose s (.get q clock done delivered)
        { s with responder := (s.responder.publicHandler q clock delivered).2, time := done }
  | refused {q : HttpRequest} {now : Int} {a : Answer} (later : s.time ≤ now)
      (checks : s.responder.config.control jose q now = .error a) :
      StoreStep jose s (.control q now) { s with time := now }
  | queued {q : HttpRequest} {now : Int} {p : Pending} (later : s.time ≤ now)
      (checks : s.responder.config.control jose q now = .ok p) :
      StoreStep jose s (.control q now) { s with time := now, waiting := s.waiting ++ [p] }
  | commit {n : Nat} {clock : Bytes → Int} {done : Int} {p : Pending}
      (reads : s.reads clock done = true) (pending : s.waiting[n]? = some p) :
      StoreStep jose s (.commit n clock done)
        ⟨(s.responder.commit clock p).2, done, s.waiting.eraseIdx n,
          s.journal ++ s.responder.entry clock p⟩
  | cleanup {clock : Bytes → Int} {done : Int} (reads : s.reads clock done = true) :
      StoreStep jose s (.cleanup clock done)
        { s with responder := s.responder.expireLocked clock, time := done }

theorem storeStep_of_step {jose : Jose} {s t : Store} {l : StoreLabel}
    (h : s.step jose l = some t) : StoreStep jose s l t := by
  cases l with
  | get q clock done delivered =>
    simp only [Store.step, Option.ite_none_right_eq_some, Option.some.injEq] at h
    obtain ⟨hreads, rfl⟩ := h
    exact .get hreads
  | control q now =>
    simp only [Store.step, Option.ite_none_right_eq_some] at h
    obtain ⟨hle, h⟩ := h
    split at h
    · cases h
      exact .refused hle ‹_›
    · cases h
      exact .queued hle ‹_›
  | commit n clock done =>
    simp only [Store.step, Option.ite_none_right_eq_some] at h
    obtain ⟨hreads, h⟩ := h
    obtain ⟨p, hp, rfl⟩ := Option.map_eq_some_iff.mp h
    exact .commit hreads hp
  | cleanup clock done =>
    simp only [Store.step, Option.ite_none_right_eq_some, Option.some.injEq] at h
    obtain ⟨hreads, rfl⟩ := h
    exact .cleanup hreads

theorem reads_time {s : Store} {clock : Bytes → Int} {done : Int} (h : s.reads clock done = true) :
    s.time ≤ done := by
  simp only [Store.reads, Bool.and_eq_true, decide_eq_true_eq] at h
  exact h.1

/-- A reader changes the store by a sweep at most. -/
theorem publicHandler_swept (r : Responder) (q : HttpRequest) (clock : Bytes → Int)
    (delivered : Bool) : Swept clock r (r.publicHandler q clock delivered).2 := by
  unfold Responder.publicHandler
  split
  · exact Swept.refl clock r
  · dsimp only
    split
    · exact r.expireLocked_swept clock
    · exact r.expireLocked_swept clock

/-- A publish that waits for the lock was parsed. -/
theorem control_put {jose : Jose} {config : ResponderConfig} {q : HttpRequest} {now : Int}
    {id body : Bytes} {expiresAt : Int}
    (h : config.control jose q now = .ok (.put id body expiresAt)) :
    Parsed jose config now id ⟨body, expiresAt⟩ := by
  unfold ResponderConfig.control at h
  repeat' split at h
  all_goals cases h
  rename_i c hparse _ hid
  exact ⟨now, c, le_refl now, hparse, not_not.mp hid, rfl⟩

theorem StoreInv.step {jose : Jose} {config : ResponderConfig} {s t : Store} {l : StoreLabel}
    (h : StoreInv jose config s) (hstep : s.step jose l = some t) : StoreInv jose config t := by
  have hwaiting : ∀ {time : Int}, s.time ≤ time → ∀ id body expiresAt,
      Pending.put id body expiresAt ∈ s.waiting → Parsed jose config time id ⟨body, expiresAt⟩ :=
    fun hle id body expiresAt hmem => (h.waiting id body expiresAt hmem).mono hle
  cases storeStep_of_step hstep with
  | @get q clock done delivered hreads =>
    have hle := reads_time hreads
    exact ⟨(h.books.swept (publicHandler_swept _ q clock delivered)).mono hle, hwaiting hle⟩
  | refused hle _ => exact ⟨h.books.mono hle, hwaiting hle⟩
  | queued hle hp =>
    refine ⟨h.books.mono hle, fun id body expiresAt hmem => ?_⟩
    rcases List.mem_append.mp hmem with hmem | hmem
    · exact hwaiting hle id body expiresAt hmem
    · cases List.mem_singleton.mp hmem
      exact h.books.configured ▸ control_put hp
  | @commit n clock done p hreads hp =>
    have hle := reads_time hreads
    have hmem := List.mem_of_getElem? hp
    refine ⟨Books.mono ?_ hle, fun id body expiresAt hin =>
      hwaiting hle id body expiresAt (List.mem_of_mem_eraseIdx hin)⟩
    cases p with
    | put id body expiresAt => exact h.books.publish clock (h.waiting id body expiresAt hmem)
    | delete id => exact h.books.withdraw id
  | @cleanup clock done hreads =>
    have hle := reads_time hreads
    exact ⟨(h.books.swept (s.responder.expireLocked_swept clock)).mono hle, hwaiting hle⟩

/-- A new responder at time `time`. -/
def Store.fresh (r : Responder) (time : Int) : Store := ⟨r, time, [], []⟩

theorem StoreInv.fresh {jose : Jose} {config : ResponderConfig} {r : Responder}
    (h : newResponder config = .ok r) (time : Int) : StoreInv jose config (Store.fresh r time) := by
  unfold newResponder at h
  repeat' split at h
  all_goals cases h
  refine ⟨?_, fun _ _ _ hmem => absurd hmem List.not_mem_nil⟩
  constructor
  · rfl
  · simp [Store.fresh, Metrics.register, newMetrics]
  · simp [Store.fresh]
  · intro id p hp
    cases hp
  · intro id p hp
    cases hp
  · simp [Store.fresh, Metrics.register, newMetrics]
  · simp [Store.fresh, Metrics.register, newMetrics]
  · simp [Store.fresh, Metrics.register, newMetrics]

/-! ## The registry of the responder -/

/-- The calls of one turn of the loop in `expireLocked`. -/
def ResponderConfig.expireCalls (config : ResponderConfig) (clock : Bytes → Int)
    (entry : Bytes × StoredProof) : List MetricsRegistry.GaugeCall :=
  if entry.2.expiresAt ≤ unix (clock entry.1) then
    [.pendingAdd config.fqdn (-1), .proof .expired]
  else []

def Responder.sweepCalls (r : Responder) (clock : Bytes → Int) :
    List MetricsRegistry.GaugeCall :=
  r.proofs.entries.flatMap (r.config.expireCalls clock)

/-- The calls of a control request under the lock. -/
def Responder.commitCalls (r : Responder) (clock : Bytes → Int) :
    Pending → List MetricsRegistry.GaugeCall
  | .put id _ _ =>
    let proofs := (r.expireLocked clock).proofs
    r.sweepCalls clock ++
      if (proofs.get id).isNone ∧ proofs.size ≥ 4 then []
      else if (proofs.get id).isNone then [.pendingAdd r.config.fqdn 1, .proof .published]
      else [.proof .published]
  | .delete id =>
    if (r.proofs.get id).isSome then [.pendingAdd r.config.fqdn (-1), .proof .deleted] else []

def Store.gaugeCalls (s : Store) : StoreLabel → List MetricsRegistry.GaugeCall
  | .get q clock _ _ =>
    match s.responder.config.publicID q with
    | .error _ => []
    | .ok _ => s.responder.sweepCalls clock
  | .control _ _ => []
  | .commit n clock _ => (s.waiting[n]?).toList.flatMap (s.responder.commitCalls clock)
  | .cleanup clock _ => s.responder.sweepCalls clock

def StoreLabel.stage : StoreLabel → Stage
  | .get _ _ _ _ => .public
  | _ => .control

/-- The registry calls of a step: the gauges under the lock, then the deferred `record` of the
answer, with the duration and the time that it measures. -/
def Store.metricsCalls (jose : Jose) (measured : StoreLabel → Int × Int) (s : Store)
    (l : StoreLabel) : List MetricsRegistry.GaugeCall :=
  s.gaugeCalls l ++ (s.answer jose l).toList.map fun a =>
    .record s.responder.config.fqdn a.outcome l.stage.text a.reason.text (measured l).1
      (measured l).2

/-- The registry calls of a responder, from `newResponder` on. -/
def Responder.runCalls (r : Responder) (jose : Jose) (measured : StoreLabel → Int × Int)
    (start : Int) (labels : List StoreLabel) : List MetricsRegistry.GaugeCall :=
  .register r.config.fqdn :: (trace (Store.step jose)
    (fun s l => some (s.metricsCalls jose measured l)) (Store.fresh r start) labels).flatten

section Registry
open MetricsRegistry
variable {jose : Jose} {m : MetricsRegistry} {r r' : Responder} {s t : Store} {l : StoreLabel}

/-- The gauges of `r'` are those of `r` after `calls`, under the same labels. -/
structure Counted (r : Responder) (calls : List GaugeCall) (r' : Responder) : Prop where
  config : r'.config = r.config
  nodes : r'.metrics.nodes = r.metrics.nodes
  stamped : r'.metrics.stamped = r.metrics.stamped
  metrics : r'.metrics = calls.foldl (GaugeCall.apply .responder) r.metrics

theorem Counted.refl (r : Responder) : Counted r [] r := ⟨rfl, rfl, rfl, rfl⟩

theorem Counted.trans {r'' : Responder} {calls calls' : List GaugeCall} (h : Counted r calls r')
    (h' : Counted r' calls' r'') : Counted r (calls ++ calls') r'' where
  config := h'.config.trans h.config
  nodes := h'.nodes.trans h.nodes
  stamped := h'.stamped.trans h.stamped
  metrics := by rw [h'.metrics, h.metrics, List.foldl_append]

theorem expire_counted (clock : Bytes → Int) (r : Responder) (e : Bytes × StoredProof) :
    Counted r (r.config.expireCalls clock e) (r.expire clock e) := by
  unfold ResponderConfig.expireCalls Responder.expire
  split
  · exact ⟨rfl, rfl, rfl, rfl⟩
  · exact .refl r

theorem foldl_expire_counted (clock : Bytes → Int) (entries : List (Bytes × StoredProof))
    (r : Responder) :
    Counted r (entries.flatMap (r.config.expireCalls clock))
      (entries.foldl (Responder.expire clock) r) := by
  induction entries generalizing r with
  | nil => exact .refl r
  | cons e entries ih =>
    have hfirst := expire_counted clock r e
    have hrest := ih (r.expire clock e)
    rw [hfirst.config] at hrest
    exact hfirst.trans hrest

theorem expireLocked_counted (r : Responder) (clock : Bytes → Int) :
    Counted r (r.sweepCalls clock) (r.expireLocked clock) :=
  foldl_expire_counted clock r.proofs.entries r

theorem commit_counted (r : Responder) (clock : Bytes → Int) (p : Pending) :
    Counted r (r.commitCalls clock p) (r.commit clock p).2 := by
  cases p with
  | put id body expiresAt =>
    have hswept := expireLocked_counted r clock
    refine hswept.trans ?_
    dsimp only [Responder.commit, Responder.publish]
    split
    · exact .refl _
    · split
      · rw [← hswept.config]
        exact ⟨rfl, rfl, rfl, rfl⟩
      · exact ⟨rfl, rfl, rfl, rfl⟩
  | delete id =>
    dsimp only [Responder.commit, Responder.withdraw, Responder.commitCalls]
    split
    · exact ⟨rfl, rfl, rfl, rfl⟩
    · exact .refl r

theorem step_counted (h : s.step jose l = some t) :
    Counted s.responder (s.gaugeCalls l) t.responder := by
  cases storeStep_of_step h with
  | @get q clock done delivered hreads =>
    dsimp only [Store.gaugeCalls, Responder.publicHandler]
    cases s.responder.config.publicID q with
    | error a => exact .refl _
    | ok id =>
      have hswept := expireLocked_counted s.responder clock
      dsimp only
      split <;> exact hswept
  | refused _ _ => exact .refl _
  | queued _ _ => exact .refl _
  | @commit n clock done p hreads hp =>
    dsimp only [Store.gaugeCalls]
    rw [hp, Option.toList_some, List.flatMap_singleton]
    exact commit_counted s.responder clock p
  | cleanup _ => exact expireLocked_counted _ _

/-- A registry of the responder that shows its gauges, with its label registered and stamped. -/
structure Backs (m : MetricsRegistry) (r : Responder) : Prop where
  component : m.component = .responder
  shown : Shows m r.metrics
  node : r.config.fqdn ∈ r.metrics.nodes
  stamped : r.config.fqdn ∈ r.metrics.stamped

theorem Backs.counted {calls : List GaugeCall} (h : Backs m r) (hcounted : Counted r calls r') :
    ∃ m', exec MetricsRegistry.step m (calls.map GaugeCall.call) = some m' ∧ Backs m' r' := by
  obtain ⟨m', hrun, hcomponent, hshows⟩ := h.shown.run calls
  rw [h.component, ← hcounted.metrics] at hshows
  refine ⟨m', hrun, hcomponent.trans h.component, hshows, ?_, ?_⟩
  · rw [hcounted.config, hcounted.nodes]
    exact h.node
  · rw [hcounted.config, hcounted.stamped]
    exact h.stamped

theorem Backs.step (h : Backs m s.responder) (measured : StoreLabel → Int × Int)
    (hstep : s.step jose l = some t) :
    ∃ m', exec MetricsRegistry.step m ((s.metricsCalls jose measured l).map GaugeCall.call) =
      some m' ∧ Backs m' t.responder := by
  have hcounted := step_counted hstep
  obtain ⟨next, hrun, hnext⟩ := h.counted hcounted
  rw [Store.metricsCalls, List.map_append, ← hcounted.config]
  cases s.answer jose l with
  | none => exact ⟨next, exec_append_iff.mpr ⟨next, hrun, rfl⟩, hnext⟩
  | some a =>
    refine ⟨_, exec_append_iff.mpr ⟨next, hrun, rfl⟩, hnext.component, ?_, hnext.node,
      hnext.stamped⟩
    exact hnext.shown.record_stamped hnext.node hnext.stamped _ _ _ _ _

theorem newResponder_backed {config : ResponderConfig} (h : newResponder config = .ok r) :
    Backs ((MetricsRegistry.new .responder).register [r.config.fqdn]) r := by
  unfold newResponder at h
  repeat' split at h
  all_goals cases h
  refine ⟨rfl, (shows_new .responder).registerNode _, ?_, ?_⟩
  · exact List.mem_cons_self
  · exact List.mem_cons_self

/-- The registry that gets the calls of a run, from `newResponder` on, shows the gauges of the
store, so the equations between them hold there modulo 2^64. -/
theorem store_shows {config : ResponderConfig} (hnew : newResponder config = .ok r) {start : Int}
    {labels : List StoreLabel} (measured : StoreLabel → Int × Int)
    (hrun : exec (Store.step jose) (Store.fresh r start) labels = some s) :
    ∃ m, exec MetricsRegistry.step (.new .responder)
        ((r.runCalls jose measured start labels).map GaugeCall.call) = some m ∧
      Shows m s.responder.metrics := by
  have hbacked : ∃ m, exec MetricsRegistry.step (.new .responder)
      ((r.runCalls jose measured start labels).map GaugeCall.call) = some m ∧
        Backs m s.responder := by
    refine exec_history (P := fun past s => ∃ m, exec MetricsRegistry.step (.new .responder)
      ((r.runCalls jose measured start past).map GaugeCall.call) = some m ∧
        Backs m s.responder) ?_ ?_ hrun
    · exact ⟨_, rfl, newResponder_backed hnew⟩
    · rintro past s l t hpast ⟨m, hm, hbacks⟩ hstep
      obtain ⟨m', hm', hbacks'⟩ := hbacks.step measured hstep
      refine ⟨m', ?_, hbacks'⟩
      rw [Responder.runCalls, trace_concat _ hpast, List.flatten_append, ← List.cons_append,
        List.map_append]
      refine exec_append_iff.mpr ⟨m, hm, ?_⟩
      rw [Option.toList_some, List.flatten_singleton]
      exact hm'
  obtain ⟨m, hm, hbacks⟩ := hbacked
  exact ⟨m, hm, hbacks.shown⟩

end Registry

/-- A served document is stored under the requested ID and was not expired at its reading. -/
theorem publicHandler_served {r : Responder} {q : HttpRequest} {clock : Bytes → Int}
    {delivered : Bool} {a : Answer} (h : (r.publicHandler q clock delivered).1 = a)
    (hstatus : a.status = 200) :
    ∃ id p, proofID q.path pathPrefix = some id ∧ r.proofs.get id = some p ∧ p.body = a.body ∧
      unix (clock id) < p.expiresAt := by
  unfold Responder.publicHandler at h
  split at h
  · rename_i answer hid
    subst h
    unfold ResponderConfig.publicID at hid
    repeat' split at hid
    all_goals cases hid
    all_goals cases hstatus
  · rename_i id hid
    dsimp only at h
    split at h
    · subst h
      cases hstatus
    · rename_i p hp
      refine ⟨id, p, ?_, (r.expireLocked_swept clock).kept id p hp, ?_,
        Responder.expireLocked_live hp⟩
      · unfold ResponderConfig.publicID at hid
        repeat' split at hid
        all_goals cases hid
        assumption
      · subst h
        cases delivered <;> rfl

theorem reads_entry {s : Store} {clock : Bytes → Int} {done : Int}
    (h : s.reads clock done = true) {id : Bytes} {p : StoredProof}
    (hp : s.responder.proofs.get id = some p) : s.time ≤ clock id ∧ clock id ≤ done := by
  simp only [Store.reads, Bool.and_eq_true, List.all_eq_true, decide_eq_true_eq] at h
  exact h.2 (id, p) (Table.get_eq_some_iff.mp hp)

theorem unix_mono {a b : Int} (h : a ≤ b) : unix a ≤ unix b :=
  Int.ediv_le_ediv (by decide) h

/-- `t` holds the proofs of `s` without some that have expired by the time of `t`. -/
def OnlyExpired (s t : Store) : Prop :=
  (∀ id p, t.responder.proofs.get id = some p → s.responder.proofs.get id = some p) ∧
    ∀ id p, s.responder.proofs.get id = some p → t.responder.proofs.get id = none →
      p.expiresAt ≤ unix t.time

theorem onlyExpired_of_swept {s t : Store} {clock : Bytes → Int}
    (hswept : Swept clock s.responder t.responder) (hreads : s.reads clock t.time = true) :
    OnlyExpired s t :=
  ⟨hswept.kept, fun id p hp hnone =>
    (hswept.gone id p hp hnone).trans (unix_mono (reads_entry hreads hp).2)⟩

theorem onlyExpired_of_same {s t : Store} (h : t.responder = s.responder) : OnlyExpired s t := by
  refine ⟨fun id p hp => h ▸ hp, fun id p hp hnone => ?_⟩
  rw [h, hp] at hnone
  cases hnone

/-- A refused request removes expired proofs at most. -/
theorem refused_onlyExpired {jose : Jose} {s t : Store} {l : StoreLabel} {a : Answer}
    (hstep : s.step jose l = some t) (ha : s.answer jose l = some a) (hstatus : 400 ≤ a.status) :
    t.journal = s.journal ∧ OnlyExpired s t := by
  cases storeStep_of_step hstep with
  | @get q clock done delivered hreads =>
    exact ⟨rfl, onlyExpired_of_swept (publicHandler_swept _ q clock delivered) hreads⟩
  | refused _ _ => exact ⟨rfl, onlyExpired_of_same rfl⟩
  | queued _ _ => exact ⟨rfl, onlyExpired_of_same rfl⟩
  | @commit n clock done p hreads hp =>
    obtain ⟨p', hp', rfl⟩ := Option.map_eq_some_iff.mp ha
    cases hp.symm.trans hp'
    cases p with
    | delete id => exact absurd (show 400 ≤ 204 from hstatus) (by decide)
    | put id body expiresAt =>
      simp only [Responder.commit, Responder.entry, Responder.publish] at hstatus ⊢
      split at hstatus
      · rename_i hfull
        simp only [if_pos hfull]
        exact ⟨by simp [httpError], onlyExpired_of_swept (s.responder.expireLocked_swept clock) hreads⟩
      · exact absurd (show 400 ≤ 201 from hstatus) (by decide)
  | cleanup _ => cases ha

/-- The responder's store over every run of a new responder. -/
theorem responder_store {jose : Jose} {config : ResponderConfig} {r : Responder}
    (hnew : newResponder config = .ok r) {start : Int} {labels : List StoreLabel} {s : Store}
    (hrun : exec (Store.step jose) (Store.fresh r start) labels = some s) :
    s.responder.proofs.size ≤ 4 ∧
    (∀ id p, s.responder.proofs.get id = some p → Parsed jose config s.time id p) ∧
    s.responder.metrics.pending config.fqdn = s.responder.proofs.size ∧
    s.responder.metrics.proofs .published = s.journal.countP Accepted.isPut ∧
    s.responder.metrics.proofs .published =
      s.responder.metrics.proofs .deleted + s.responder.metrics.proofs .expired +
        s.responder.proofs.size + s.journal.countP Accepted.isReplacing ∧
    (∀ q clock done delivered t a, s.step jose (.get q clock done delivered) = some t →
      s.answer jose (.get q clock done delivered) = some a → a.status = 200 →
      ∃ id p, proofID q.path pathPrefix = some id ∧ p.body = a.body ∧ Latest s.journal id p ∧
        s.time ≤ clock id ∧ clock id ≤ t.time ∧ unix (clock id) < p.expiresAt) ∧
    (∀ l t a, s.step jose l = some t → s.answer jose l = some a → 400 ≤ a.status →
      t.journal = s.journal ∧ OnlyExpired s t) := by
  have h : StoreInv jose config s := exec_preserves StoreInv.step (StoreInv.fresh hnew start) hrun
  refine ⟨h.books.bounded, h.books.parsed, h.books.gauge, h.books.published, h.books.balance, ?_,
    fun l t a => refused_onlyExpired⟩
  intro q clock done delivered t a hstep ha hstatus
  obtain ⟨hreads⟩ := storeStep_of_step hstep
  obtain ⟨id, p, hid, hp, hbody, hlive⟩ := publicHandler_served (Option.some.inj ha) hstatus
  obtain ⟨hlo, hhi⟩ := reads_entry hreads hp
  exact ⟨id, p, hid, hbody, h.books.latest id p hp, hlo, hhi, hlive⟩

def sampleResponderConfig : ResponderConfig :=
  ⟨str "alpha.test", 8080, str "/run/realm/control.sock", []⟩

/-- The agent publishes the sample document. -/
def samplePut : HttpRequest where
  method := str "PUT"
  host := str "localhost"
  rawQuery := []
  path := controlPrefix ++ sampleChallenge.id
  escapedPath := controlPrefix ++ sampleChallenge.id
  contentLength := sampleBody.length
  transferEncoding := []
  body := sampleBody
  bodyFault := false
  rootPeer := true

theorem responder_store_samplePut :
    ∃ r s, newResponder sampleResponderConfig = .ok r ∧
      exec (Store.step sampleJose) (Store.fresh r 0)
        [.control samplePut 0, .commit 0 (fun _ => 0) 0] = some s ∧
      s.responder.proofs.size = 1 ∧ s.responder.metrics.pending (str "alpha.test") = 1 := by
  obtain ⟨r, hr⟩ : ∃ r, newResponder sampleResponderConfig = .ok r := ⟨_, rfl⟩
  have hsize : (exec (Store.step sampleJose) (Store.fresh r 0)
      [.control samplePut 0, .commit 0 (fun _ => 0) 0]).any
        (fun s => decide (s.responder.proofs.size = 1)) = true := by
    cases hr
    decide +kernel
  obtain ⟨s, hrun, hs⟩ := (Option.any_eq_true _ _).mp hsize
  have hs : s.responder.proofs.size = 1 := of_decide_eq_true hs
  have hgauge := (responder_store hr hrun).2.2.1
  rw [hs] at hgauge
  exact ⟨r, s, hr, hrun, hs, hgauge⟩

end RealmFormal.NodeAttest

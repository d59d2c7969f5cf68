import RealmFormal.NodeAttest.Honest

/-!
# The end of an agent's proof

An agent attempt and the responder, with the attempt's control requests as
messages in flight between them. `Respond` and `Close` hold the mutex of the
attempt until their request is answered or given up, but the responder takes
each request from a connection of its own, so it may process them late and in
any order.
-/

namespace RealmFormal.NodeAttest
open Go Go.Json Transition
set_option autoImplicit false

/-! ## The joint system -/

/-- The request that `Respond` sends, if it gets that far. -/
def AgentAttempt.publication (jose : Jose) (a : AgentAttempt) (rawChallenge : Bytes) (now : Int) :
    Option HttpRequest :=
  if a.closed ∨ a.responded then none
  else
    match a.prove jose rawChallenge now with
    | .error _ => none
    | .ok (id, proof) => some (controlMessage (str "PUT") id proof)

/-- The request that `Close` sends. -/
def AgentAttempt.withdrawal (a : AgentAttempt) : Option HttpRequest :=
  if a.closed ∨ a.published = [] then none
  else some (controlMessage (str "DELETE") a.published [])

/-- `Close` without its request. -/
def AgentAttempt.close (a : AgentAttempt) : AgentAttempt :=
  if a.closed then a else { a with closed := true, key := List.Vector.replicate 64 0 }

/-- `locked`: a call of the attempt waits for the answer to its control request. -/
structure Handover where
  attempt : AgentAttempt
  locked : Bool
  flights : List HttpRequest
  store : Store

def Handover.start (a : AgentAttempt) (store : Store) : Handover := ⟨a, false, [], store⟩

inductive HandoverLabel where
  | respond (rawChallenge : Bytes) (now : Int)
  | close
  | finish
  | deliver (n : Nat) (now : Int)
  | other (l : StoreLabel)

/-- `finish`: the waiting call gets its answer, or gives up. -/
def Handover.step (jose : Jose) (s : Handover) : HandoverLabel → Option Handover
  | .respond rawChallenge now =>
    if s.locked then none
    else
      some { s with
        attempt := (s.attempt.respond jose rawChallenge now none).2
        locked := (s.attempt.publication jose rawChallenge now).isSome
        flights := s.flights ++ (s.attempt.publication jose rawChallenge now).toList }
  | .close =>
    if s.locked then none
    else
      some { s with
        attempt := s.attempt.close
        locked := s.attempt.withdrawal.isSome
        flights := s.flights ++ s.attempt.withdrawal.toList }
  | .finish => if s.locked then some { s with locked := false } else none
  | .deliver n now =>
    (s.flights[n]?).bind fun q =>
      (s.store.step jose (.control q now)).map fun store =>
        { s with store, flights := s.flights.eraseIdx n }
  | .other l => (s.store.step jose l).map fun store => { s with store }

/-! ## What the steps do -/

theorem prove_id {jose : Jose} {a : AgentAttempt} {raw id proof : Bytes} {now : Int}
    (h : a.prove jose raw now = .ok (id, proof)) : ∃ bytes, id = randomValue bytes := by
  unfold AgentAttempt.prove at h
  split at h
  · cases h
  split at h
  · cases h
  rename_i c _ _ hvalid
  split at h
  · cases h
  split at h
  · cases h
  cases h
  exact validRandom_iff.mp (validateChallenge_iff.mp hvalid).1.id

theorem randomValue_ne_nil (bytes : List.Vector UInt8 32) : randomValue bytes ≠ [] := by
  intro h
  have hlen := randomValue_length bytes
  rw [h] at hlen
  cases hlen

/-- `Respond` publishes under a new identifier, or leaves what is published. -/
theorem respond_cases (jose : Jose) (a : AgentAttempt) (raw : Bytes) (now : Int) :
    (a.publication jose raw now = none ∧
      (a.respond jose raw now none).2.published = a.published ∧
      (a.respond jose raw now none).2.closed = a.closed ∧
      (a.responded = true → (a.respond jose raw now none).2.responded = true)) ∨
    ∃ bytes proof, a.closed = false ∧ a.responded = false ∧
      a.publication jose raw now = some (controlMessage (str "PUT") (randomValue bytes) proof) ∧
      (a.respond jose raw now none).2 =
        { a with responded := true, published := randomValue bytes } := by
  unfold AgentAttempt.publication AgentAttempt.respond
  split
  · exact Or.inl ⟨rfl, rfl, rfl, id⟩
  rename_i hpending
  push Not at hpending
  have hsame : AgentAttempt.prove jose { a with responded := true } raw now =
      a.prove jose raw now := rfl
  simp only [hsame]
  cases hprove : a.prove jose raw now with
  | error e => exact Or.inl ⟨rfl, rfl, rfl, fun _ => rfl⟩
  | ok r =>
    obtain ⟨x, proof⟩ := r
    obtain ⟨bytes, rfl⟩ := prove_id hprove
    exact Or.inr ⟨bytes, proof, by simpa using hpending.1, by simpa using hpending.2, rfl, rfl⟩

theorem close_published (a : AgentAttempt) : a.close.published = a.published := by
  unfold AgentAttempt.close
  split <;> rfl

theorem control_id {jose : Jose} {config : ResponderConfig} {q : HttpRequest} {now : Int}
    {p : Pending} (h : config.control jose q now = .ok p) :
    proofID q.path controlPrefix = some p.id := by
  unfold ResponderConfig.control at h
  repeat' split at h
  all_goals cases h
  all_goals assumption

/-- The responder accepts every withdrawal. -/
theorem control_withdraws (jose : Jose) (config : ResponderConfig) (bytes : List.Vector UInt8 32)
    (now : Int) :
    config.control jose (controlMessage (str "DELETE") (randomValue bytes) []) now =
      .ok (.delete (randomValue bytes)) := by
  have hescaped := escapePath_id (show ∀ b ∈ controlPrefix, _ from by decide +kernel) bytes
  have hmethod : str "DELETE" ≠ str "PUT" := by decide
  simp [ResponderConfig.control, controlMessage, wireRequest, hescaped, proofID_append, hmethod]

/-! ## The invariant -/

/-- The request publishes under `id`. -/
def Pending.puts (id : Bytes) : Pending → Bool
  | .put j _ _ => decide (j = id)
  | .delete _ => false

theorem puts_id {id : Bytes} {p : Pending} (h : p.puts id = true) : p.id = id := by
  cases p with
  | put j body expiresAt => exact of_decide_eq_true h
  | delete j => cases h

section Invariant
variable (id : Bytes) (s : Handover)

def PutUnderWay : Prop :=
  (∃ q ∈ s.flights, q.method = str "PUT") ∨ ∃ p ∈ s.store.waiting, p.puts id = true

def DeleteUnderWay : Prop :=
  (∃ q ∈ s.flights, q.method = str "DELETE") ∨ .delete id ∈ s.store.waiting

/-- Nothing is published yet, or the withdrawal has been processed. -/
def Over : Prop :=
  s.attempt.published = [] ∨ s.attempt.closed = true ∧ ¬ DeleteUnderWay id s

/-- What holds while the attempt publishes under `id` at most: its requests are for `id`, and
when it is over, no proof is stored or under way. -/
structure HandoverInv : Prop where
  idle : s.attempt.published = [] → s.flights = []
  flights : ∀ q ∈ s.flights,
    (∃ body, q = controlMessage (str "PUT") id body) ∨
      ∃ bytes, id = randomValue bytes ∧ q = controlMessage (str "DELETE") id []
  random : s.attempt.published ≠ [] → ∃ bytes, s.attempt.published = randomValue bytes
  clean : Over id s → ¬ PutUnderWay id s ∧ s.store.responder.proofs.get id = none

end Invariant

/-- A withdrawal takes the lock only when the publication is no longer under way. -/
def Ordered (id : Bytes) (s : Handover) : HandoverLabel → Prop
  | .other (.commit n _ _) => s.store.waiting[n]? = some (.delete id) → ¬ PutUnderWay id s
  | _ => True

instance (id : Bytes) (s : Handover) (l : HandoverLabel) : Decidable (Ordered id s l) := by
  unfold Ordered PutUnderWay
  split <;> infer_instance

/-- A request of another party, for another identifier. -/
def HandoverLabel.elsewhere (id : Bytes) : HandoverLabel → Prop
  | .other (.control q _) => proofID q.path controlPrefix ≠ some id
  | _ => True

instance (id : Bytes) (l : HandoverLabel) : Decidable (l.elsewhere id) := by
  unfold HandoverLabel.elsewhere
  split <;> infer_instance

theorem Swept.absent {clock : Bytes → Int} {r r' : Responder} (h : Swept clock r r') {id : Bytes}
    (hid : r.proofs.get id = none) : r'.proofs.get id = none := by
  cases hget : r'.proofs.get id with
  | none => rfl
  | some p =>
    rw [h.kept id p hget] at hid
    cases hid

/-- Only a publication under the identifier itself stores a proof there. -/
theorem commit_absent {r : Responder} {clock : Bytes → Int} {p : Pending} {id : Bytes}
    (hid : r.proofs.get id = none) (hp : p.puts id = false) :
    (r.commit clock p).2.proofs.get id = none := by
  cases p with
  | put j body expiresAt =>
    have hne : id ≠ j := Ne.symm (of_decide_eq_false hp)
    have hswept := (r.expireLocked_swept clock).absent hid
    simp only [Responder.commit, Responder.publish]
    split
    · exact hswept
    · rwa [Table.get_put, if_neg hne]
  | delete j =>
    simp only [Responder.commit, Responder.withdraw]
    split
    · rw [Table.get_erase]
      split
      · rfl
      · exact hid
    · exact hid

theorem withdraw_absent (r : Responder) (id : Bytes) : (r.withdraw id).2.proofs.get id = none := by
  simp only [Responder.withdraw]
  split
  · exact Table.get_erase_self _ _
  · rename_i hnone
    simpa using hnone

section Steps
variable {jose : Jose} {id : Bytes} {s t : Handover}

theorem HandoverInv.respond (h : HandoverInv id s) {raw : Bytes} {now : Int}
    (ht : (s.attempt.respond jose raw now none).2.published = [] ∨
      (s.attempt.respond jose raw now none).2.published = id)
    (locked : Bool) :
    HandoverInv id
      { s with
        attempt := (s.attempt.respond jose raw now none).2
        locked
        flights := s.flights ++ (s.attempt.publication jose raw now).toList } := by
  rcases respond_cases jose s.attempt raw now with
    ⟨hnone, hpublished, hclosed, -⟩ | ⟨bytes, proof, hclosed, -, hsome, hattempt⟩
  · rw [hnone, Option.toList_none, List.append_nil]
    refine ⟨?_, h.flights, ?_, ?_⟩
    · rw [hpublished]
      exact h.idle
    · rw [hpublished]
      exact h.random
    · intro hover
      apply h.clean
      rw [Over, ← hpublished, ← hclosed]
      exact hover
  · rw [hattempt] at ht
    have hid : randomValue bytes = id := ht.resolve_left (randomValue_ne_nil bytes)
    rw [hsome, hattempt]
    refine ⟨?_, ?_, fun _ => ⟨bytes, rfl⟩, ?_⟩
    · intro hnil
      exact absurd hnil (randomValue_ne_nil bytes)
    · intro q hq
      rcases List.mem_append.mp hq with hq | hq
      · exact h.flights q hq
      · rw [List.mem_singleton.mp hq, hid]
        exact Or.inl ⟨proof, rfl⟩
    · intro hover
      rcases hover with hnil | ⟨hclosed', -⟩
      · exact absurd hnil (randomValue_ne_nil bytes)
      · rw [hclosed] at hclosed'
        cases hclosed'

theorem HandoverInv.close (h : HandoverInv id s)
    (hs : s.attempt.published = [] ∨ s.attempt.published = id) (locked : Bool) :
    HandoverInv id
      { s with
        attempt := s.attempt.close
        locked
        flights := s.flights ++ s.attempt.withdrawal.toList } := by
  unfold AgentAttempt.withdrawal
  by_cases hclosed : s.attempt.closed = true
  · have hsame : s.attempt.close = s.attempt := by simp [AgentAttempt.close, hclosed]
    simpa [hclosed, hsame] using
      (⟨h.idle, h.flights, h.random, h.clean⟩ : HandoverInv id { s with locked })
  by_cases hnil : s.attempt.published = []
  · rw [if_pos (Or.inr hnil), Option.toList_none, List.append_nil]
    refine ⟨?_, h.flights, ?_, ?_⟩
    · rw [close_published]
      exact h.idle
    · rw [close_published]
      exact h.random
    · intro _
      exact h.clean (Or.inl hnil)
  · have hid := hs.resolve_left hnil
    rw [if_neg (by tauto)]
    refine ⟨?_, ?_, ?_, ?_⟩
    · rw [close_published]
      intro hnil'
      exact absurd hnil' hnil
    · intro q hq
      rcases List.mem_append.mp hq with hq | hq
      · exact h.flights q hq
      · obtain ⟨bytes, hbytes⟩ := h.random hnil
        rw [List.mem_singleton.mp hq, hid]
        exact Or.inr ⟨bytes, hid ▸ hbytes, rfl⟩
    · rw [close_published]
      exact h.random
    · intro hover
      rcases hover with hnil' | ⟨-, hnone⟩
      · rw [close_published] at hnil'
        exact absurd hnil' hnil
      · exact absurd (Or.inl ⟨_, List.mem_append_right _ List.mem_cons_self, rfl⟩) hnone

/-- A step of the responder that leaves a withdrawal waiting does not end the attempt. -/
theorem Over.before {store : Store} (h : Over id { s with store })
    (hwaiting : .delete id ∈ s.store.waiting → .delete id ∈ store.waiting) : Over id s := by
  rcases h with hnil | ⟨hclosed, hnone⟩
  · exact Or.inl hnil
  · refine Or.inr ⟨hclosed, ?_⟩
    rintro (hflight | hdelete)
    · exact hnone (Or.inl hflight)
    · exact hnone (Or.inr (hwaiting hdelete))

/-- A request that reaches the responder. -/
theorem HandoverInv.deliver (h : HandoverInv id s) {n : Nat} {now : Int} {q : HttpRequest}
    {store : Store} (hq : s.flights[n]? = some q)
    (hstore : s.store.step jose (.control q now) = some store) :
    HandoverInv id { s with store, flights := s.flights.eraseIdx n } := by
  have hmem := List.mem_of_getElem? hq
  have hne : s.attempt.published ≠ [] := by
    intro hnil
    rw [h.idle hnil] at hmem
    cases hmem
  refine ⟨fun hnil => absurd hnil hne,
    fun x hx => h.flights x (List.mem_of_mem_eraseIdx hx), h.random, ?_⟩
  rintro (hnil | ⟨hclosed, hnone⟩)
  · exact absurd hnil hne
  exfalso
  rcases h.flights q hmem with ⟨body, hput⟩ | ⟨bytes, hrandom, hdelete⟩
  · have hover : Over id s := by
      refine Or.inr ⟨hclosed, ?_⟩
      rintro (⟨x, hx, hmethod⟩ | hwaiting)
      · apply hnone
        refine Or.inl ⟨x, mem_eraseIdx_of_ne hq hx ?_, hmethod⟩
        rintro rfl
        rw [hput] at hmethod
        exact absurd (show str "PUT" = str "DELETE" from hmethod) (by decide)
      · apply hnone
        refine Or.inr ?_
        cases storeStep_of_step hstore with
        | refused _ _ => exact hwaiting
        | queued _ _ => exact List.mem_append_left _ hwaiting
    exact (h.clean hover).1 (Or.inl ⟨q, hmem, by rw [hput]; rfl⟩)
  · apply hnone
    refine Or.inr ?_
    have haccepted := control_withdraws jose s.store.responder.config bytes now
    rw [← hrandom, ← hdelete] at haccepted
    cases storeStep_of_step hstore with
    | refused _ hrefused =>
      rw [haccepted] at hrefused
      cases hrefused
    | queued _ hqueued =>
      rw [haccepted] at hqueued
      cases hqueued
      exact List.mem_append_right _ List.mem_cons_self

/-- A step of the responder that takes no request of the attempt from the network. -/
theorem HandoverInv.other (h : HandoverInv id s) {l : StoreLabel} {store : Store}
    (hordered : Ordered id s (.other l)) (helsewhere : HandoverLabel.elsewhere id (.other l))
    (hstore : s.store.step jose l = some store) : HandoverInv id { s with store } := by
  refine ⟨h.idle, h.flights, h.random, ?_⟩
  have same : ∀ {r : Responder} {time : Int} {clock : Bytes → Int}, Swept clock s.store.responder r →
      Over id s → ¬ PutUnderWay id { s with store := { s.store with responder := r, time } } ∧
        r.proofs.get id = none := by
    intro r time clock hswept hover
    obtain ⟨hput, habsent⟩ := h.clean hover
    exact ⟨hput, hswept.absent habsent⟩
  intro hover
  cases storeStep_of_step hstore with
  | @get q clock done delivered _ => exact same (publicHandler_swept _ q clock delivered) hover
  | cleanup _ => exact same (s.store.responder.expireLocked_swept _) hover
  | refused _ _ => exact same (Swept.refl (fun _ => 0) _) hover
  | @queued q now p _ haccepted =>
    have hne : p.id ≠ id := by
      intro hp
      exact helsewhere (hp ▸ control_id haccepted)
    obtain ⟨hput, habsent⟩ := h.clean (hover.before (List.mem_append_left _))
    refine ⟨?_, habsent⟩
    rintro (hflight | ⟨x, hwaiting, hputs⟩)
    · exact hput (Or.inl hflight)
    · rcases List.mem_append.mp hwaiting with hwaiting | hwaiting
      · exact hput (Or.inr ⟨x, hwaiting, hputs⟩)
      · rw [← List.mem_singleton.mp hwaiting] at hne
        exact hne (puts_id hputs)
  | @commit n clock done p _ hp =>
    have hfewer : ¬ PutUnderWay id s → ¬ PutUnderWay id
        { s with store := ⟨(s.store.responder.commit clock p).2, done, s.store.waiting.eraseIdx n,
          s.store.journal ++ s.store.responder.entry clock p⟩ } := by
      intro hput
      rintro (hflight | ⟨p, hwaiting, hputs⟩)
      · exact hput (Or.inl hflight)
      · exact hput (Or.inr ⟨p, List.mem_of_mem_eraseIdx hwaiting, hputs⟩)
    by_cases hdelete : p = .delete id
    · subst hdelete
      exact ⟨hfewer (hordered hp), withdraw_absent _ _⟩
    · have hback : Over id s := by
        refine hover.before ?_
        intro hwaiting
        exact mem_eraseIdx_of_ne hp hwaiting (Ne.symm hdelete)
      obtain ⟨hput, habsent⟩ := h.clean hback
      refine ⟨hfewer hput, commit_absent habsent ?_⟩
      rw [← Bool.not_eq_true]
      intro hputs
      exact hput (Or.inr ⟨p, List.mem_of_getElem? hp, hputs⟩)

theorem HandoverInv.step {l : HandoverLabel} (h : HandoverInv id s)
    (hs : s.attempt.published = [] ∨ s.attempt.published = id)
    (ht : t.attempt.published = [] ∨ t.attempt.published = id) (hordered : Ordered id s l)
    (helsewhere : l.elsewhere id) (hstep : s.step jose l = some t) : HandoverInv id t := by
  cases l with
  | respond raw now =>
    simp only [Handover.step] at hstep
    split at hstep
    · cases hstep
    · cases hstep
      exact h.respond ht _
  | close =>
    simp only [Handover.step] at hstep
    split at hstep
    · cases hstep
    · cases hstep
      exact h.close hs _
  | finish =>
    simp only [Handover.step] at hstep
    split at hstep
    · cases hstep
      exact ⟨h.idle, h.flights, h.random, h.clean⟩
    · cases hstep
  | deliver n now =>
    obtain ⟨q, hq, hstep⟩ := Option.bind_eq_some_iff.mp hstep
    obtain ⟨store, hstore, rfl⟩ := Option.map_eq_some_iff.mp hstep
    exact h.deliver hq hstore
  | other l =>
    obtain ⟨store, hstore, rfl⟩ := Option.map_eq_some_iff.mp hstep
    exact h.other hordered helsewhere hstore

/-- What is published stays. -/
theorem published_step {l : HandoverLabel}
    (hs : s.attempt.published ≠ [] → s.attempt.responded = true) (hstep : s.step jose l = some t) :
    (s.attempt.published ≠ [] → t.attempt.published = s.attempt.published) ∧
      (t.attempt.published ≠ [] → t.attempt.responded = true) := by
  cases l with
  | respond raw now =>
    simp only [Handover.step] at hstep
    split at hstep
    · cases hstep
    · cases hstep
      rcases respond_cases jose s.attempt raw now with
        ⟨-, hpublished, -, hresponded⟩ | ⟨bytes, proof, -, hfirst, -, hattempt⟩
      · refine ⟨fun _ => hpublished, ?_⟩
        intro hne
        rw [hpublished] at hne
        exact hresponded (hs hne)
      · rw [hattempt]
        refine ⟨?_, fun _ => rfl⟩
        intro hne
        rw [hs hne] at hfirst
        cases hfirst
  | close =>
    simp only [Handover.step] at hstep
    split at hstep
    · cases hstep
    · cases hstep
      have hresponded : s.attempt.close.responded = s.attempt.responded := by
        unfold AgentAttempt.close
        split <;> rfl
      refine ⟨fun _ => close_published _, ?_⟩
      rw [close_published, hresponded]
      exact hs
  | finish =>
    simp only [Handover.step] at hstep
    split at hstep
    · cases hstep
      exact ⟨fun _ => rfl, hs⟩
    · cases hstep
  | deliver n now =>
    obtain ⟨q, -, hstep⟩ := Option.bind_eq_some_iff.mp hstep
    obtain ⟨store, -, rfl⟩ := Option.map_eq_some_iff.mp hstep
    exact ⟨fun _ => rfl, hs⟩
  | other l =>
    obtain ⟨store, -, rfl⟩ := Option.map_eq_some_iff.mp hstep
    exact ⟨fun _ => rfl, hs⟩

end Steps

/-! ## Whole runs -/

section Runs
variable {jose : Jose} {config : AgentConfig} {key : List.Vector UInt8 64} {a : AgentAttempt}
  {store : Store} {labels : List HandoverLabel} {s : Handover}

theorem beginAgent_blank (h : beginAgent config (.ok key) = .ok a) :
    a.published = [] ∧ a.responded = false ∧ a.closed = false := by
  unfold beginAgent at h
  split at h
  · cases h
  · cases h
    exact ⟨rfl, rfl, rfl⟩

theorem published_responded (ha : a.published = [])
    (hrun : exec (Handover.step jose) (.start a store) labels = some s) :
    s.attempt.published ≠ [] → s.attempt.responded = true :=
  exec_preserves (P := fun s => s.attempt.published ≠ [] → s.attempt.responded = true)
    (fun hs hstep => (published_step hs hstep).2) (fun hne => absurd ha hne) hrun

theorem handoverInv_of_exec (ha : a.published = []) {id : Bytes}
    (hfresh : store.responder.proofs.get id = none) (hwaiting : ∀ p ∈ store.waiting, p.id ≠ id)
    (hrun : exec (Handover.step jose) (.start a store) labels = some s)
    (helsewhere : ∀ l ∈ labels, l.elsewhere id)
    (hordered : Along (Handover.step jose) (Ordered id) (.start a store) labels)
    (hs : s.attempt.published = [] ∨ s.attempt.published = id) : HandoverInv id s := by
  induction labels using List.reverseRecOn generalizing s with
  | nil =>
    cases hrun
    refine ⟨fun _ => rfl, ?_, fun hne => absurd ha hne, fun _ => ⟨?_, hfresh⟩⟩
    · intro q hq
      cases hq
    · rintro (⟨q, hq, -⟩ | ⟨p, hp, hputs⟩)
      · cases hq
      · exact hwaiting p hp (puts_id hputs)
  | append_singleton labels l ih =>
    obtain ⟨m, hm, hstep⟩ := exec_concat_iff.mp hrun
    obtain ⟨hpast, hl⟩ := (along_concat_iff hm).mp hordered
    have hbefore : m.attempt.published = [] ∨ m.attempt.published = id := by
      by_cases hne : m.attempt.published = []
      · exact Or.inl hne
      · have hkeep := (published_step (published_responded ha hm) hstep).1 hne
        rw [hkeep] at hs
        exact hs
    have hinv := ih hm (fun l hl => helsewhere l (List.mem_append_left _ hl)) hpast hbefore
    exact hinv.step hbefore hs hl (helsewhere l (by simp)) hstep

/-- Closing withdraws the proof in every run in which the responder takes the withdrawal after
the publication: once the attempt is closed and both requests have been processed, no proof is
stored under its challenge. -/
theorem close_withdraws (hagent : beginAgent config (.ok key) = .ok a)
    (hrun : exec (Handover.step jose) (.start a store) labels = some s)
    (hfresh : store.responder.proofs.get s.attempt.published = none)
    (hunused : ∀ p ∈ store.waiting, p.id ≠ s.attempt.published)
    (helsewhere : ∀ l ∈ labels, l.elsewhere s.attempt.published)
    (hordered : Along (Handover.step jose) (Ordered s.attempt.published) (.start a store) labels)
    (hclosed : s.attempt.closed = true) (hflights : s.flights = [])
    (hprocessed : ∀ p ∈ s.store.waiting, p.id ≠ s.attempt.published) :
    s.store.responder.proofs.get s.attempt.published = none := by
  have hinv := handoverInv_of_exec (beginAgent_blank hagent).1 hfresh hunused hrun helsewhere
    hordered (Or.inr rfl)
  refine (hinv.clean (Or.inr ⟨hclosed, ?_⟩)).2
  rintro (⟨q, hq, -⟩ | hwaiting)
  · rw [hflights] at hq
    cases hq
  · exact hprocessed _ hwaiting rfl

end Runs

/-! ## Both orders -/

def sampleKey : List.Vector UInt8 64 := List.Vector.replicate 64 7

def sampleAgentAttempt : AgentAttempt := sampleDeployment.agentAttempt sampleKey

/-- The attempt answers its challenge, gives up waiting for the responder, and is closed. -/
def sampleGivesUp : List HandoverLabel :=
  [.respond (encode (sampleDeployment.challenge sampleKey (sampleRandom 1) (sampleRandom 2) 0).value)
    0, .finish, .close, .finish]

def sampleInOrder : List HandoverLabel :=
  sampleGivesUp ++ [.deliver 0 0, .other (.commit 0 (fun _ => 0) 0), .deliver 0 0,
    .other (.commit 0 (fun _ => 0) 0)]

/-- The responder takes the withdrawal first. -/
def sampleReversed : List HandoverLabel :=
  sampleGivesUp ++ [.deliver 1 0, .other (.commit 0 (fun _ => 0) 0), .deliver 0 0,
    .other (.commit 0 (fun _ => 0) 0)]

/-- The attempt is closed, no call is waiting, and both requests have been processed. -/
def Handover.finished (s : Handover) : Bool :=
  decide (s.attempt.published = randomValue (sampleRandom 1)) && s.attempt.closed && !s.locked &&
    s.flights.isEmpty && s.store.waiting.isEmpty

theorem sampleHandovers :
    ((exec (Handover.step sampleJose)
        (.start sampleAgentAttempt (Store.fresh sampleDeployment.endpoint 0)) sampleReversed).any
      fun s => s.finished &&
        (s.store.responder.proofs.get (randomValue (sampleRandom 1))).isSome) = true ∧
    ((exec (Handover.step sampleJose)
        (.start sampleAgentAttempt (Store.fresh sampleDeployment.endpoint 0)) sampleInOrder).any
      fun s => s.finished && s.store.journal.length == 2) = true ∧
    Along (Handover.step sampleJose) (Ordered (randomValue (sampleRandom 1)))
      (.start sampleAgentAttempt (Store.fresh sampleDeployment.endpoint 0)) sampleInOrder := by
  decide +kernel

/-- The publication reaches the responder after the withdrawal, and the proof stays. -/
theorem proof_outlives_close :
    ((exec (Handover.step sampleJose)
        (.start sampleAgentAttempt (Store.fresh sampleDeployment.endpoint 0)) sampleReversed).any
      fun s => s.finished &&
        (s.store.responder.proofs.get (randomValue (sampleRandom 1))).isSome) = true :=
  sampleHandovers.1

theorem close_withdraws_sampleInOrder :
    ∃ s, exec (Handover.step sampleJose)
        (.start sampleAgentAttempt (Store.fresh sampleDeployment.endpoint 0)) sampleInOrder = some s ∧
      s.store.journal.length = 2 ∧
      s.store.responder.proofs.get (randomValue (sampleRandom 1)) = none := by
  obtain ⟨-, hany, hordered⟩ := sampleHandovers
  obtain ⟨s, hrun, hs⟩ := (Option.any_eq_true _ _).mp hany
  simp only [Handover.finished, Bool.and_eq_true, decide_eq_true_eq, Bool.not_eq_true',
    List.isEmpty_iff, beq_iff_eq] at hs
  obtain ⟨⟨⟨⟨⟨hid, hclosed⟩, -⟩, hflights⟩, hwaiting⟩, hjournal⟩ := hs
  refine ⟨s, hrun, hjournal, ?_⟩
  have habsent := close_withdraws (a := sampleAgentAttempt) sampleDeployment.beginAgent_ok hrun
    (by rw [hid]; rfl) (fun p hp => by cases hp) (by rw [hid]; decide +kernel) (by rwa [hid])
    hclosed hflights (fun p hp => by rw [hwaiting] at hp; cases hp)
  rwa [hid] at habsent

end RealmFormal.NodeAttest

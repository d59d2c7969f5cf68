import RealmFormal.NodeAttest.Adapter
import RealmFormal.NodeAttest.Agent

/-!
# One attestation stream of the agent plugin

`aidAttestation` as a program. The outcome of a stream is recorded early when the
response is submitted and otherwise by a deferred function, and three things can
end the stream: the peer, its context, and the 120 second context of the call.
-/

namespace RealmFormal.NodeAttest.AgentStream
open Go Interaction StatusPackage
set_option autoImplicit false

inductive PayloadOrChallengeResponse where
  | payload (data : Bytes)
  | challengeResponse (data : Bytes)

/-- `ctxErr` asks the context of the call, `streamErr` the context of the stream. -/
inductive Op where
  | pendingAdd (node : Bytes) (delta : Int)
  | begin
  | send (message : PayloadOrChallengeResponse)
  | select
  | respond (challenge : Bytes)
  | close
  | cancel
  | ctxErr
  | streamErr
  | record (node : Bytes) (outcome : Outcome) (stage : Stage) (reason : Reason)

/-- `begin` answers with the payload of the attempt; a received challenge may be nil. -/
def Op.Answer : Op → Type
  | .begin => Except GoError Bytes
  | .send _ => Option GoError
  | .select => Arrival (Option Bytes)
  | .respond _ => Except GoError Bytes
  | .ctxErr | .streamErr => Option CtxErr
  | .pendingAdd _ _ | .close | .cancel | .record _ _ _ _ => Unit

abbrev Handler := Prog Op Op.Answer

abbrev pendingAdd (node : Bytes) (delta : Int) : Handler Unit :=
  Prog.request (Op.pendingAdd node delta)

abbrev begin : Handler (Except GoError Bytes) := Prog.request Op.begin

abbrev send (message : PayloadOrChallengeResponse) : Handler (Option GoError) :=
  Prog.request (Op.send message)

abbrev select : Handler (Arrival (Option Bytes)) := Prog.request Op.select

abbrev respond (challenge : Bytes) : Handler (Except GoError Bytes) :=
  Prog.request (Op.respond challenge)

abbrev close : Handler Unit := Prog.request Op.close

abbrev cancel : Handler Unit := Prog.request Op.cancel

abbrev ctxErr : Handler (Option CtxErr) := Prog.request Op.ctxErr

abbrev streamErr : Handler (Option CtxErr) := Prog.request Op.streamErr

abbrev record (node : Bytes) (outcome : Outcome) (stage : Stage) (reason : Reason) :
    Handler Unit :=
  Prog.request (Op.record node outcome stage reason)

/-- What `aidAttestation` returns, with the variables that its deferred function reads. -/
structure Exit where
  err : Option GoError
  outcome : Outcome
  stage : Stage
  reason : Reason
  submitted : Bool

section Program
variable [StatusPackage]

def receiveAgentChallenge : Handler (Except GoError (Option Bytes)) :=
  receivePluginMessage ctxErr streamErr select

def noChallenge : GoError := statusError .invalidArgument "challenge is required"

def extraChallenge : GoError := statusError .invalidArgument "unexpected additional challenge"

/-- `aidAttestation` after the response was sent. -/
def awaitClose (submitted : Bool) : Handler Exit := do
  match ← receiveAgentChallenge with
  | .error e =>
    if e.eof then
      return ⟨none, .failure, .response, .streamError, submitted⟩
    return ⟨some e, .failure, .response, .streamError, submitted⟩
  | .ok _ => return ⟨some extraChallenge, .failure, .response, .streamError, submitted⟩

/-- `aidAttestation` from the response of the attempt on. -/
def submitResponse (fqdn response : Bytes) : Handler Exit := do
  let sendContextErr ← ctxErr
  if let some e ← send (.challengeResponse response) then
    return ⟨some e, .failure, .response, .streamError, false⟩
  match sendContextErr with
  | none =>
    record fqdn .success .response .proofSubmitted
    awaitClose true
  | some _ => awaitClose false

/-- `aidAttestation` from the challenge on. -/
def answerChallenge (fqdn challenge : Bytes) : Handler Exit := do
  match ← respond challenge with
  | .error e =>
    let (stage, reason) := classifyError (← ctxErr) e .challenge .invalidChallenge
    let err := attestationError (← ctxErr) .unauthenticated "cannot answer attestation challenge"
    return ⟨some err, .failure, stage, reason, false⟩
  | .ok response => submitResponse fqdn response

/-- `aidAttestation` while an attempt is open. -/
def exchange (fqdn payload : Bytes) : Handler Exit := do
  if let some e ← send (.payload payload) then
    return ⟨some e, .failure, .payload, .streamError, false⟩
  match ← receiveAgentChallenge with
  | .error e =>
    if e.eof then
      return ⟨none, .skipped, .challenge, .noChallenge, false⟩
    return ⟨some e, .failure, .challenge, .streamError, false⟩
  | .ok none => return ⟨some noChallenge, .failure, .challenge, .invalidChallenge, false⟩
  | .ok (some challenge) =>
    if challenge = [] then
      return ⟨some noChallenge, .failure, .challenge, .invalidChallenge, false⟩
    answerChallenge fqdn challenge

/-- `aidAttestation` from `begin` to the close of the attempt. -/
def beginAttempt (fqdn : Bytes) : Handler Exit := do
  match ← begin with
  | .error _ =>
    let err := attestationError (← ctxErr) .internal "cannot start agent attestation"
    return ⟨some err, .failure, .start, .internal, false⟩
  | .ok payload =>
    let exit ← exchange fqdn payload
    close
    return exit

/-- The deferred function of `aidAttestation`. -/
def recordExit (fqdn : Bytes) (exit : Exit) : Handler (Option GoError) := do
  pendingAdd fqdn (-1)
  if exit.submitted then
    return exit.err
  match exit.err with
  | none =>
    record fqdn exit.outcome exit.stage exit.reason
    return none
  | some e =>
    let (stage, reason) := classifyError (← streamErr) e exit.stage exit.reason
    record fqdn exit.outcome stage reason
    return some e

def aidAttestation (cfg : AgentConfig) : Handler (Option GoError) := do
  pendingAdd cfg.fqdn 1
  let exit ← beginAttempt cfg.fqdn
  cancel
  recordExit cfg.fqdn exit

end Program

/-! ## Reading a trace -/

abbrev Trace := List (Event Op Op.Answer)

def recorded : Event Op Op.Answer → Option Outcome
  | ⟨.record _ outcome _ _, _⟩ => some outcome
  | _ => none

def outcomes (t : Trace) : List Outcome := t.filterMap recorded

/-- The responses sent, each as what `ctx.Err` answered last before the send and what the send
answered. -/
def submissions (last : Option CtxErr) : Trace → List (Option CtxErr × Option GoError)
  | [] => []
  | ⟨.ctxErr, answer⟩ :: t => submissions answer t
  | ⟨.send (.challengeResponse _), err⟩ :: t => (last, err) :: submissions last t
  | _ :: t => submissions last t

/-- A response was sent without error, and the context was live at the reading before it. -/
def Submitted (t : Trace) : Prop := (none, none) ∈ submissions none t

def arrival : Event Op Op.Answer → Option (Except GoError (Option Bytes))
  | ⟨.select, .completed result⟩ => some result
  | _ => none

/-- What `Recv` returned to the call. -/
def arrivals (t : Trace) : List (Except GoError (Option Bytes)) := t.filterMap arrival

/-- The first thing that `Recv` returned is the end of the stream. -/
def EndsEarly (t : Trace) : Prop := ∃ e rest, arrivals t = .error e :: rest ∧ e.eof = true

def ending : Event Op Op.Answer → Option CtxErr
  | ⟨.ctxErr, answer⟩ => answer
  | ⟨.streamErr, answer⟩ => answer
  | ⟨.select, .ctxDone e⟩ => some e
  | ⟨.select, .streamDone e⟩ => some e
  | _ => none

/-- The ends of contexts that the call has seen. -/
def endings (t : Trace) : List CtxErr := t.filterMap ending

inductive Attempt where
  | begun | closed

def attempt : Event Op Op.Answer → Option Attempt
  | ⟨.begin, .ok _⟩ => some .begun
  | ⟨.close, _⟩ => some .closed
  | _ => none

def attempts (t : Trace) : List Attempt := t.filterMap attempt

/-- An attempt that has begun is closed once, and there is no other close. -/
def Paired (t : Trace) : Prop := attempts t = [] ∨ attempts t = [.begun, .closed]

def closing : Event Op Op.Answer → Bool
  | ⟨.close, _⟩ => true
  | _ => false

def waiting : Event Op Op.Answer → Bool
  | ⟨.select, _⟩ => true
  | _ => false

/-- Nothing is awaited after a close. -/
def Waited (t : Trace) : Prop := t.Pairwise fun x y => closing x = true → waiting y = false

def effect (m : Metrics) : Event Op Op.Answer → Metrics
  | ⟨.pendingAdd node delta, _⟩ => m.pendingAdd node delta
  | ⟨.record node outcome _ _, _⟩ => m.record node outcome
  | _ => m

/-- The registry after the call. -/
def registry (m : Metrics) (t : Trace) : Metrics := t.foldl effect m

/-- What `ctx.Err` is known to answer at an event. -/
def reading : Event Op Op.Answer → Option (Option CtxErr)
  | ⟨.ctxErr, answer⟩ => some answer
  | ⟨.select, .ctxDone e⟩ => some (some e)
  | _ => none

/-- The context of the call stays ended with the error it ended with. -/
def Persistent (t : Trace) : Prop :=
  t.Pairwise fun x y => (reading x).join = none ∨ reading y = none ∨ reading y = reading x

/-! ## The exits -/

abbrev Receives [StatusPackage] : Trace → Except GoError (Option Bytes) → Prop :=
  Received (fun r => ⟨.ctxErr, r⟩) (fun r => ⟨.streamErr, r⟩) fun r => ⟨.select, r⟩

theorem receiveAgentChallenge_receives [StatusPackage] : receiveAgentChallenge.Sat Receives := by
  apply receivePluginMessage_received
  · exact fun _ => rfl
  · exact fun _ => rfl
  · exact fun _ => rfl

/-- How `aidAttestation` leaves an open attempt. -/
inductive Exchanged [StatusPackage] (fqdn payload : Bytes) : Trace → Exit → Prop where
  | unsent (e : GoError) :
      Exchanged fqdn payload [⟨.send (.payload payload), some e⟩]
        ⟨some e, .failure, .payload, .streamError, false⟩
  | skipped (t : Trace) (e : GoError) (received : Receives t (.error e)) (eof : e.eof = true) :
      Exchanged fqdn payload (⟨.send (.payload payload), none⟩ :: t)
        ⟨none, .skipped, .challenge, .noChallenge, false⟩
  | unchallenged (t : Trace) (e : GoError) (received : Receives t (.error e))
      (eof : e.eof = false) :
      Exchanged fqdn payload (⟨.send (.payload payload), none⟩ :: t)
        ⟨some e, .failure, .challenge, .streamError, false⟩
  | unsuitable (t : Trace) (c : Option Bytes) (received : Receives t (.ok c)) :
      Exchanged fqdn payload (⟨.send (.payload payload), none⟩ :: t)
        ⟨some noChallenge, .failure, .challenge, .invalidChallenge, false⟩
  | unresponsive (t : Trace) (c : Bytes) (e e' : GoError) (read read' : Option CtxErr)
      (stage : Stage) (reason : Reason) (received : Receives t (.ok (some c))) :
      Exchanged fqdn payload
        (⟨.send (.payload payload), none⟩ :: t ++
          [⟨.respond c, .error e⟩, ⟨.ctxErr, read⟩, ⟨.ctxErr, read'⟩])
        ⟨some e', .failure, stage, reason, false⟩
  | undelivered (t : Trace) (c response : Bytes) (read : Option CtxErr) (e : GoError)
      (received : Receives t (.ok (some c))) :
      Exchanged fqdn payload
        (⟨.send (.payload payload), none⟩ :: t ++
          [⟨.respond c, .ok response⟩, ⟨.ctxErr, read⟩,
            ⟨.send (.challengeResponse response), some e⟩])
        ⟨some e, .failure, .response, .streamError, false⟩
  | submitted (t u : Trace) (c response : Bytes) (r : Except GoError (Option Bytes))
      (err : Option GoError) (received : Receives t (.ok (some c))) (received' : Receives u r) :
      Exchanged fqdn payload
        (⟨.send (.payload payload), none⟩ :: t ++
          ⟨.respond c, .ok response⟩ :: ⟨.ctxErr, none⟩ ::
            ⟨.send (.challengeResponse response), none⟩ ::
              ⟨.record fqdn .success .response .proofSubmitted, ()⟩ :: u)
        ⟨err, .failure, .response, .streamError, true⟩
  | late (t u : Trace) (c response : Bytes) (r : Except GoError (Option Bytes)) (ended : CtxErr)
      (err : Option GoError) (received : Receives t (.ok (some c))) (received' : Receives u r)
      (eof : err = none → ∃ e, r = .error e ∧ e.eof = true) :
      Exchanged fqdn payload
        (⟨.send (.payload payload), none⟩ :: t ++
          ⟨.respond c, .ok response⟩ :: ⟨.ctxErr, some ended⟩ ::
            ⟨.send (.challengeResponse response), none⟩ :: u)
        ⟨err, .failure, .response, .streamError, false⟩

/-- The wait for the end of the stream returns nil only at its end. -/
theorem awaitClose_receives [StatusPackage] (submitted : Bool) :
    (awaitClose submitted).Sat fun t x =>
      ∃ r err, Receives t r ∧ x = ⟨err, .failure, .response, .streamError, submitted⟩ ∧
        (err = none → ∃ e, r = .error e ∧ e.eof = true) := by
  refine receiveAgentChallenge_receives.bind ?_
  rintro t (e | c) ht
  · dsimp only
    split
    · rename_i heof
      rw [Prog.sat_pure, List.append_nil]
      exact ⟨_, _, ht, rfl, fun _ => ⟨e, rfl, heof⟩⟩
    · rw [Prog.sat_pure, List.append_nil]
      exact ⟨_, _, ht, rfl, fun h => by cases h⟩
  · rw [Prog.sat_pure, List.append_nil]
    exact ⟨_, _, ht, rfl, fun h => by cases h⟩

theorem submitResponse_exchanged [StatusPackage] {fqdn payload c : Bytes} {t : Trace}
    (ht : Receives t (.ok (some c))) (response : Bytes) :
    (submitResponse fqdn response).Sat fun u x =>
      Exchanged fqdn payload
        (⟨.send (.payload payload), none⟩ :: t ++ ⟨.respond c, .ok response⟩ :: u) x := by
  refine Prog.sat_request_bind.mpr fun read => Prog.sat_request_bind.mpr ?_
  rintro (_ | e)
  · cases read with
    | none =>
      refine Prog.sat_request_bind.mpr ?_
      rintro ⟨⟩
      refine (awaitClose_receives true).mono ?_
      rintro u x ⟨r, err, hu, rfl, -⟩
      exact .submitted t u c response r err ht hu
    | some ended =>
      refine (awaitClose_receives false).mono ?_
      rintro u x ⟨r, err, hu, rfl, heof⟩
      exact .late t u c response r ended err ht hu heof
  · exact .undelivered t c response read e ht

theorem answerChallenge_exchanged [StatusPackage] {fqdn payload c : Bytes} {t : Trace}
    (ht : Receives t (.ok (some c))) :
    (answerChallenge fqdn c).Sat fun u x =>
      Exchanged fqdn payload (⟨.send (.payload payload), none⟩ :: t ++ u) x := by
  refine Prog.sat_request_bind.mpr ?_
  rintro (e | response)
  · intro read read'
    exact .unresponsive t c e _ read read' _ _ ht
  · exact submitResponse_exchanged ht response

theorem exchange_exchanged [StatusPackage] (fqdn payload : Bytes) :
    (exchange fqdn payload).Sat (Exchanged fqdn payload) := by
  have hnil : ∀ {t : Trace} {x : Exit},
      Exchanged fqdn payload (⟨.send (.payload payload), none⟩ :: t) x →
        (pure x : Handler Exit).Sat fun u y =>
          Exchanged fqdn payload (⟨.send (.payload payload), none⟩ :: (t ++ u)) y := by
    intro t x h
    rw [Prog.sat_pure, List.append_nil]
    exact h
  refine Prog.sat_request_bind.mpr ?_
  rintro (_ | e)
  · refine receiveAgentChallenge_receives.bind ?_
    rintro t (e | _ | c) ht
    · dsimp only
      split
      · rename_i heof
        exact hnil (.skipped t e ht heof)
      · rename_i heof
        exact hnil (.unchallenged t e ht (by simpa using heof))
    · exact hnil (.unsuitable t none ht)
    · dsimp only
      split
      · exact hnil (.unsuitable t (some c) ht)
      · exact answerChallenge_exchanged ht
  · exact .unsent e

/-! ## An open attempt -/

/-- What an exit and the trace before it tell of each other. -/
structure Streamed (t : Trace) (x : Exit) : Prop where
  recorded : outcomes t = if x.submitted then [.success] else []
  submitted : x.submitted = true ↔ Submitted t
  skipped : x.outcome = .skipped ↔ EndsEarly t ∧ endings t = []
  unskipped : x.outcome ≠ .skipped → x.outcome = .failure
  unsubmitted : x.outcome = .skipped → x.submitted = false ∧ x.err = none
  metrics : ∀ m, (registry m t).pending = m.pending ∧ (registry m t).nodes = m.nodes
  clean : Persistent t → x.err = none → x.submitted = true ∨ x.outcome = .skipped

/-- A failed exit: nothing was submitted, and no end of the stream came first. -/
theorem streamed_of_failure {t : Trace} {x : Exit} {e : GoError} (hx : x.outcome = .failure)
    (hsubmitted : x.submitted = false) (herr : x.err = some e) (hrecorded : outcomes t = [])
    (hnone : ¬ Submitted t) (hskipped : ¬ (EndsEarly t ∧ endings t = []))
    (hmetrics : ∀ m, (registry m t).pending = m.pending ∧ (registry m t).nodes = m.nodes) :
    Streamed t x where
  recorded := by rw [hrecorded, hsubmitted]; rfl
  submitted := iff_of_false (by simp [hsubmitted]) hnone
  skipped := iff_of_false (by simp [hx]) hskipped
  unskipped := fun _ => hx
  unsubmitted := fun h => by simp [hx] at h
  metrics := hmetrics
  clean := fun _ h => by simp [herr] at h

theorem not_endsEarly_of_challenge {t : Trace} {c : Option Bytes}
    {rest : List (Except GoError (Option Bytes))} (h : arrivals t = .ok c :: rest) :
    ¬ (EndsEarly t ∧ endings t = []) := by
  rintro ⟨⟨e, rest', he, -⟩, -⟩
  rw [h] at he
  cases he

theorem Receives.not_endsEarly [StatusPackage] {t : Trace} {e : GoError} (h : Receives t (.error e))
    (heof : e.eof = false) (payload : Bytes) :
    ¬ (EndsEarly (⟨.send (.payload payload), none⟩ :: t) ∧
      endings (⟨.send (.payload payload), none⟩ :: t) = []) := by
  rintro ⟨⟨e', rest, hfirst, heof'⟩, hendings⟩
  cases h with
  | taken =>
    cases hfirst
    rw [heof] at heof'
    cases heof'
  | _ => cases hendings

/-- The trace of a receive that returns what `Recv` returned. -/
def taking (r : Except GoError (Option Bytes)) : Trace :=
  [⟨.ctxErr, none⟩, ⟨.streamErr, none⟩, ⟨.select, .completed r⟩, ⟨.ctxErr, none⟩,
    ⟨.streamErr, none⟩]

theorem Receives.eq_taking [StatusPackage] {t : Trace} {e : GoError} (h : Receives t (.error e))
    (heof : e.eof = true) : t = taking (.error e) := by
  cases h with
  | taken => rfl
  | _ =>
    rw [fromContextError_eof] at heof
    cases heof

/-- A context that has ended does not read as live later. -/
theorem Persistent.ended (before between : Trace) {after : Trace} {e : CtxErr} :
    ¬ Persistent (before ++ ⟨.ctxErr, some e⟩ :: between ++ ⟨.ctxErr, none⟩ :: after) := by
  intro h
  rw [List.append_assoc, List.cons_append] at h
  have htail := (List.pairwise_cons.mp (List.pairwise_append.mp h).2.1).1
  have hread := htail ⟨.ctxErr, none⟩ (List.mem_append_right _ List.mem_cons_self)
  rcases hread with hread | hread | hread <;> cases hread

theorem streamed_of_skip {e : GoError} (heof : e.eof = true) (payload : Bytes) :
    Streamed (⟨.send (.payload payload), none⟩ :: taking (.error e))
      ⟨none, .skipped, .challenge, .noChallenge, false⟩ where
  recorded := rfl
  submitted := iff_of_false (by simp) (by simp [Submitted, submissions, taking])
  skipped := iff_of_true rfl ⟨⟨e, [], rfl, heof⟩, rfl⟩
  unskipped := fun h => absurd rfl h
  unsubmitted := fun _ => ⟨rfl, rfl⟩
  metrics := fun _ => ⟨rfl, rfl⟩
  clean := fun _ _ => Or.inr rfl

/-- The trace of an open attempt up to a response that the stream took. -/
def responded (payload c response : Bytes) (read : Option CtxErr) : Trace :=
  ⟨.send (.payload payload), none⟩ :: taking (.ok (some c)) ++
    [⟨.respond c, .ok response⟩, ⟨.ctxErr, read⟩, ⟨.send (.challengeResponse response), none⟩]

theorem streamed_of_submission [StatusPackage] {u : Trace} {r : Except GoError (Option Bytes)}
    (hu : Receives u r) (fqdn payload c response : Bytes) (err : Option GoError) :
    Streamed (responded payload c response none ++
        ⟨.record fqdn .success .response .proofSubmitted, ()⟩ :: u)
      ⟨err, .failure, .response, .streamError, true⟩ where
  recorded := by cases hu <;> rfl
  submitted := iff_of_true rfl List.mem_cons_self
  skipped := iff_of_false (by simp) (not_endsEarly_of_challenge rfl)
  unskipped := fun _ => rfl
  unsubmitted := fun h => by cases h
  metrics := by cases hu <;> exact fun _ => ⟨rfl, rfl⟩
  clean := fun _ _ => Or.inl rfl

theorem streamed_of_late [StatusPackage] {u : Trace} {r : Except GoError (Option Bytes)}
    (hu : Receives u r)
    {err : Option GoError} (heof : err = none → ∃ e, r = .error e ∧ e.eof = true)
    (payload c response : Bytes) (ended : CtxErr) :
    Streamed (responded payload c response (some ended) ++ u)
      ⟨err, .failure, .response, .streamError, false⟩ where
  recorded := by cases hu <;> rfl
  submitted := by
    refine iff_of_false (by simp) ?_
    cases hu <;> simp [Submitted, submissions, responded, taking]
  skipped := iff_of_false (by simp) (not_endsEarly_of_challenge rfl)
  unskipped := fun _ => rfl
  unsubmitted := fun h => by cases h
  metrics := by cases hu <;> exact fun _ => ⟨rfl, rfl⟩
  clean := by
    intro hpersistent herr
    obtain ⟨e, rfl, he⟩ := heof herr
    rw [hu.eq_taking he] at hpersistent
    exact absurd hpersistent (Persistent.ended
      (⟨.send (.payload payload), none⟩ :: taking (.ok (some c)) ++ [⟨.respond c, .ok response⟩])
      [⟨.send (.challengeResponse response), none⟩])

theorem Exchanged.streamed [StatusPackage] {fqdn payload : Bytes} {t : Trace} {x : Exit}
    (h : Exchanged fqdn payload t x) : Streamed t x := by
  cases h with
  | unsent e =>
    refine streamed_of_failure rfl rfl rfl rfl (by simp [Submitted, submissions]) ?_
      fun _ => ⟨rfl, rfl⟩
    rintro ⟨⟨e, rest, h, -⟩, -⟩
    cases h
  | skipped t e received eof =>
    rw [received.eq_taking eof]
    exact streamed_of_skip eof payload
  | unchallenged t e received eof =>
    have hends := received.not_endsEarly eof payload
    cases received <;>
      exact streamed_of_failure rfl rfl rfl rfl (by simp [Submitted, submissions]) hends
        fun _ => ⟨rfl, rfl⟩
  | unsuitable t c received =>
    cases received
    exact streamed_of_failure rfl rfl rfl rfl (by simp [Submitted, submissions])
      (not_endsEarly_of_challenge rfl) fun _ => ⟨rfl, rfl⟩
  | unresponsive t c e e' read read' stage reason received =>
    cases received
    exact streamed_of_failure rfl rfl rfl rfl (by simp [Submitted, submissions])
      (not_endsEarly_of_challenge rfl) fun _ => ⟨rfl, rfl⟩
  | undelivered t c response read e received =>
    cases received
    exact streamed_of_failure rfl rfl rfl rfl (by simp [Submitted, submissions])
      (not_endsEarly_of_challenge rfl) fun _ => ⟨rfl, rfl⟩
  | submitted t u c response r err received received' =>
    cases received
    exact streamed_of_submission received' fqdn payload c response err
  | late t u c response r ended err received received' eof =>
    cases received
    exact streamed_of_late received' eof payload c response ended

/-! ## The whole call -/

/-- The trace from `begin` to the close of the attempt. -/
inductive Begun [StatusPackage] (fqdn : Bytes) : Trace → Exit → Prop where
  | failed (e err : GoError) (read : Option CtxErr) :
      Begun fqdn [⟨.begin, .error e⟩, ⟨.ctxErr, read⟩]
        ⟨some err, .failure, .start, .internal, false⟩
  | closed (payload : Bytes) (t : Trace) (x : Exit) (exchanged : Exchanged fqdn payload t x) :
      Begun fqdn (⟨.begin, .ok payload⟩ :: t ++ [⟨.close, ()⟩]) x

theorem beginAttempt_begun [StatusPackage] (fqdn : Bytes) :
    (beginAttempt fqdn).Sat (Begun fqdn) := by
  refine Prog.sat_request_bind.mpr ?_
  rintro (e | payload)
  · intro read
    exact .failed e _ read
  · refine (exchange_exchanged fqdn payload).bind ?_
    intro t x ht
    exact fun _ => .closed payload t x ht

theorem submissions_append {v : Trace} (hv : ∀ last, submissions last v = []) (t : Trace)
    (last : Option CtxErr) : submissions last (t ++ v) = submissions last t := by
  induction t generalizing last with
  | nil => exact hv last
  | cons ev t ih =>
    obtain ⟨op, answer⟩ := ev
    cases op with
    | ctxErr => exact ih answer
    | send message => cases message <;> simp [submissions, ih]
    | _ => simp [submissions, ih]

theorem arrivals_append (t u : Trace) : arrivals (t ++ u) = arrivals t ++ arrivals u :=
  List.filterMap_append ..

theorem endings_append (t u : Trace) : endings (t ++ u) = endings t ++ endings u :=
  List.filterMap_append ..

theorem outcomes_append (t u : Trace) : outcomes (t ++ u) = outcomes t ++ outcomes u :=
  List.filterMap_append ..

theorem attempts_append (t u : Trace) : attempts (t ++ u) = attempts t ++ attempts u :=
  List.filterMap_append ..

theorem registry_append (m : Metrics) (t u : Trace) :
    registry m (t ++ u) = registry (registry m t) u :=
  List.foldl_append ..

theorem waited_append {t u : Trace} (ht : ∀ x ∈ t, closing x = false)
    (hu : ∀ y ∈ u, waiting y = false) : Waited (t ++ u) := by
  refine List.pairwise_append.mpr ⟨?_, ?_, ?_⟩
  · refine List.pairwise_of_forall_mem_list ?_
    intro x hx y _ hclosing
    rw [ht x hx] at hclosing
    cases hclosing
  · refine List.pairwise_of_forall_mem_list ?_
    intro x _ y hy _
    exact hu y hy
  · intro x hx y _ hclosing
    rw [ht x hx] at hclosing
    cases hclosing

/-- What one call of `aidAttestation` with the trace `t` that returns `err` has done. -/
structure Accounted (t : Trace) (err : Option GoError) (outcome : Outcome) : Prop where
  recorded : outcomes t = [outcome]
  success : outcome = .success ↔ Submitted t
  skipped : outcome = .skipped ↔ EndsEarly t ∧ endings t = []
  pending : ∀ m, (registry m t).pending = m.pending
  paired : Paired t
  waited : Waited t
  clean : err = none → outcome = .success ∨ outcome = .skipped

/-- The outcome that is recorded for an exit. -/
def Exit.recorded (x : Exit) : Outcome := if x.submitted then .success else x.outcome

theorem Begun.streamed [StatusPackage] {fqdn : Bytes} {t : Trace} {x : Exit} (h : Begun fqdn t x) :
    Streamed t x := by
  cases h with
  | failed e err read =>
    refine streamed_of_failure rfl rfl rfl rfl (by simp [Submitted, submissions]) ?_
      fun _ => ⟨rfl, rfl⟩
    rintro ⟨⟨e, rest, h, -⟩, -⟩
    cases h
  | closed payload t x exchanged =>
    have h := exchanged.streamed
    have hendings : endings (⟨.begin, .ok payload⟩ :: t ++ [⟨.close, ()⟩]) = endings t :=
      (endings_append _ _).trans (List.append_nil _)
    have harrivals : arrivals (⟨.begin, .ok payload⟩ :: t ++ [⟨.close, ()⟩]) = arrivals t :=
      (arrivals_append _ _).trans (List.append_nil _)
    have houtcomes : outcomes (⟨.begin, .ok payload⟩ :: t ++ [⟨.close, ()⟩]) = outcomes t :=
      (outcomes_append _ _).trans (List.append_nil _)
    have hsubmissions : submissions none (⟨.begin, .ok payload⟩ :: t ++ [⟨.close, ()⟩]) =
        submissions none t :=
      submissions_append (fun _ => rfl) t none
    refine ⟨by rw [houtcomes, h.recorded], ?_, ?_, h.unskipped, h.unsubmitted, ?_, ?_⟩
    · rw [Submitted, hsubmissions]
      exact h.submitted
    · rw [EndsEarly, harrivals, hendings]
      exact h.skipped
    · intro m
      rw [registry_append]
      exact h.metrics m
    · intro hpersistent
      refine h.clean (hpersistent.sublist ?_)
      exact ((List.sublist_append_left t _).trans (List.sublist_cons_self _ _))

theorem Exchanged.attempts [StatusPackage] {fqdn payload : Bytes} {t : Trace} {x : Exit}
    (h : Exchanged fqdn payload t x) : attempts t = [] := by
  cases h with
  | unsent e => rfl
  | skipped t e received eof => cases received <;> rfl
  | unchallenged t e received eof => cases received <;> rfl
  | unsuitable t c received => cases received; rfl
  | unresponsive t c e e' read read' stage reason received => cases received; rfl
  | undelivered t c response read e received => cases received; rfl
  | submitted t u c response r err received received' => cases received; cases received' <;> rfl
  | late t u c response r ended err received received' eof =>
    cases received; cases received' <;> rfl

theorem not_closing_of_attempts {t : Trace} (h : attempts t = []) :
    ∀ x ∈ t, closing x = false := by
  intro x hx
  have hnone := List.filterMap_eq_nil_iff.mp h x hx
  obtain ⟨op, answer⟩ := x
  cases op with
  | close => cases hnone
  | _ => rfl

theorem Begun.paired [StatusPackage] {fqdn : Bytes} {t : Trace} {x : Exit} (h : Begun fqdn t x) :
    Paired t := by
  cases h with
  | failed e err read => exact Or.inl rfl
  | closed payload t x exchanged =>
    refine Or.inr ?_
    have hbegun : AgentStream.attempts (⟨.begin, .ok payload⟩ :: t ++ [⟨.close, ()⟩]) =
        .begun :: (AgentStream.attempts t ++ [.closed]) :=
      attempts_append _ _
    rw [hbegun, exchanged.attempts, List.nil_append]

theorem Begun.waited [StatusPackage] {fqdn : Bytes} {t v : Trace} {x : Exit} (h : Begun fqdn t x)
    (hv : ∀ y ∈ v, waiting y = false) (delta : Int) :
    Waited (⟨.pendingAdd fqdn delta, ()⟩ :: t ++ v) := by
  cases h with
  | failed e err read =>
    exact waited_append (t := [⟨.pendingAdd fqdn delta, ()⟩, ⟨.begin, .error e⟩, ⟨.ctxErr, read⟩])
      (not_closing_of_attempts rfl) hv
  | closed payload t x exchanged =>
    have hinner : ∀ y ∈ ⟨.pendingAdd fqdn delta, ()⟩ :: ⟨.begin, .ok payload⟩ :: t,
        closing y = false := by
      intro y hy
      rcases List.mem_cons.mp hy with rfl | hy
      · rfl
      · rcases List.mem_cons.mp hy with rfl | hy
        · rfl
        · exact not_closing_of_attempts exchanged.attempts y hy
    have houter : ∀ y ∈ ⟨.close, ()⟩ :: v, waiting y = false := by
      intro y hy
      rcases List.mem_cons.mp hy with rfl | hy
      · rfl
      · exact hv y hy
    have hwaited := waited_append hinner houter
    simpa using hwaited

theorem Streamed.recorded_success {t : Trace} {x : Exit} (h : Streamed t x) :
    x.recorded = .success ↔ Submitted t := by
  rw [← h.submitted, Exit.recorded]
  cases x.submitted with
  | true => simp
  | false =>
    refine iff_of_false ?_ (by simp)
    intro hsuccess
    have hsuccess : x.outcome = .success := hsuccess
    have hfailure := h.unskipped (by simp [hsuccess])
    rw [hsuccess] at hfailure
    cases hfailure

theorem Streamed.recorded_skipped {t : Trace} {x : Exit} (h : Streamed t x) :
    x.recorded = .skipped ↔ x.outcome = .skipped := by
  constructor
  · intro hskipped
    unfold Exit.recorded at hskipped
    split at hskipped
    · cases hskipped
    · exact hskipped
  · intro hskipped
    rw [Exit.recorded, (h.unsubmitted hskipped).1]
    exact hskipped

theorem Begun.accounted [StatusPackage] {fqdn : Bytes} {t v : Trace} {x : Exit} (h : Begun fqdn t x)
    (houtcomes : outcomes v = if x.submitted then [] else [x.outcome])
    (hsubmissions : ∀ last, submissions last v = []) (harrivals : arrivals v = [])
    (hendings : x.err = none → endings v = []) (hattempts : attempts v = [])
    (hwaiting : ∀ y ∈ v, waiting y = false)
    (hregistry : ∀ m, (registry m v).pending = (m.pendingAdd fqdn (-1)).pending)
    (hpersistent : Persistent (⟨.pendingAdd fqdn 1, ()⟩ :: t ++ v)) :
    Accounted (⟨.pendingAdd fqdn 1, ()⟩ :: t ++ v) x.err x.recorded := by
  have hs := h.streamed
  have hends : EndsEarly (⟨.pendingAdd fqdn 1, ()⟩ :: t ++ v) ↔ EndsEarly t := by
    have harrivals' : arrivals (⟨.pendingAdd fqdn 1, ()⟩ :: t ++ v) = arrivals t ++ arrivals v :=
      arrivals_append _ _
    rw [EndsEarly, harrivals', harrivals, List.append_nil, EndsEarly]
  have hsubmitted : Submitted (⟨.pendingAdd fqdn 1, ()⟩ :: t ++ v) ↔ Submitted t := by
    have hsubmissions' : submissions none (⟨.pendingAdd fqdn 1, ()⟩ :: t ++ v) =
        submissions none t :=
      submissions_append hsubmissions t none
    rw [Submitted, hsubmissions', Submitted]
  have hendings' : endings (⟨.pendingAdd fqdn 1, ()⟩ :: t ++ v) = endings t ++ endings v :=
    endings_append _ _
  refine ⟨?_, ?_, ?_, ?_, ?_, h.waited hwaiting 1, ?_⟩
  · have houtcomes' : outcomes (⟨.pendingAdd fqdn 1, ()⟩ :: t ++ v) = outcomes t ++ outcomes v :=
      outcomes_append _ _
    rw [houtcomes', hs.recorded, houtcomes, Exit.recorded]
    split <;> rfl
  · rw [hsubmitted]
    exact hs.recorded_success
  · rw [hends, hendings', hs.recorded_skipped]
    constructor
    · intro hskipped
      obtain ⟨hfirst, hnone⟩ := hs.skipped.mp hskipped
      rw [hnone, hendings (hs.unsubmitted hskipped).2]
      exact ⟨hfirst, rfl⟩
    · rintro ⟨hfirst, hnone⟩
      exact hs.skipped.mpr ⟨hfirst, (List.append_eq_nil_iff.mp hnone).1⟩
  · intro m
    have hcall : registry m (⟨.pendingAdd fqdn 1, ()⟩ :: t ++ v) =
        registry (registry (m.pendingAdd fqdn 1) t) v :=
      registry_append ..
    obtain ⟨hpending, hnodes⟩ := hs.metrics (m.pendingAdd fqdn 1)
    rw [hcall, hregistry]
    exact Metrics.pending_restored hpending hnodes
  · have hattempts' : attempts (⟨.pendingAdd fqdn 1, ()⟩ :: t ++ v) = attempts t ++ attempts v :=
      attempts_append _ _
    rw [Paired, hattempts', hattempts, List.append_nil]
    exact h.paired
  · intro herr
    have hsub : t.Sublist (⟨.pendingAdd fqdn 1, ()⟩ :: t ++ v) :=
      (List.sublist_append_left t v).trans (List.sublist_cons_self _ _)
    rcases hs.clean (hpersistent.sublist hsub) herr with hsubmitted' | hskipped
    · exact Or.inl (hs.recorded_success.mpr (hs.submitted.mp hsubmitted'))
    · exact Or.inr (hs.recorded_skipped.mpr hskipped)

theorem aidAttestation_accounted [StatusPackage] (cfg : AgentConfig) :
    (aidAttestation cfg).Sat fun t err => Persistent t → ∃ outcome, Accounted t err outcome := by
  refine Prog.sat_request_bind.mpr ?_
  rintro ⟨⟩
  refine (beginAttempt_begun cfg.fqdn).bind ?_
  intro t x ht
  refine Prog.sat_request_bind.mpr ?_
  rintro ⟨⟩
  refine Prog.sat_request_bind.mpr ?_
  rintro ⟨⟩
  obtain ⟨err, outcome, stage, reason, submitted⟩ := x
  cases submitted with
  | true =>
    intro hpersistent
    exact ⟨_, ht.accounted rfl (fun _ => rfl) rfl (fun _ => rfl) rfl (by simp [waiting])
      (fun _ => rfl) hpersistent⟩
  | false =>
    cases err with
    | none =>
      intro _ hpersistent
      exact ⟨_, ht.accounted rfl (fun _ => rfl) rfl (fun _ => rfl) rfl (by simp [waiting])
        (fun _ => Metrics.pending_record ..) hpersistent⟩
    | some e =>
      intro read _ hpersistent
      exact ⟨_, ht.accounted rfl (fun _ => rfl) rfl (fun h => by cases h) rfl
        (by simp [waiting]) (fun _ => Metrics.pending_record ..) hpersistent⟩

/-- One call of `aidAttestation`, whatever the stream and the attempt answer and whenever the
contexts end. -/
theorem aidAttestation_accounts [StatusPackage] (cfg : AgentConfig)
    (env : Nat → (op : Op) → op.Answer) (h : Persistent ((aidAttestation cfg).run env 0).1) :
    ∃ outcome,
      Accounted ((aidAttestation cfg).run env 0).1 ((aidAttestation cfg).run env 0).2 outcome :=
  (aidAttestation_accounted cfg).run env 0 h

def eof : GoError := ⟨"EOF", false, false, true, .unknown, none⟩

/-- A stream that sends the messages `arriving`; the context of the call ends with its deadline
at step `deadline`. -/
def sampleEnv (arriving : Nat → Except GoError (Option Bytes)) (deadline : Nat) :
    Nat → (op : Op) → op.Answer
  | _, .begin => .ok (str "payload")
  | _, .send _ => none
  | n, .select => .completed (arriving n)
  | _, .respond _ => .ok (str "response")
  | n, .ctxErr => if n < deadline then none else some .deadlineExceeded
  | _, .streamErr => none
  | _, .pendingAdd _ _ | _, .close | _, .cancel | _, .record _ _ _ _ => ()

def sampleConfig : AgentConfig := ⟨str "alpha.test", str "test", str "/run/control", []⟩

/-- A challenge at step 5, and the end of the stream afterwards. -/
def challengeThenEnd (n : Nat) : Except GoError (Option Bytes) :=
  if n = 5 then .ok (some (str "challenge")) else .error eof

theorem aidAttestation_accounts_challengeThenEnd :
    ∃ outcome,
      Accounted ((aidAttestation sampleConfig).run (sampleEnv challengeThenEnd 20) 0).1
        ((aidAttestation sampleConfig).run (sampleEnv challengeThenEnd 20) 0).2 outcome :=
  aidAttestation_accounts sampleConfig (sampleEnv challengeThenEnd 20) (by
    unfold Persistent
    decide +kernel)

/-- The stream ends before a challenge, but the context ends before the call looks at it. -/
theorem end_at_deadline :
    Persistent ((aidAttestation sampleConfig).run (sampleEnv (fun _ => .error eof) 6) 0).1 ∧
      EndsEarly ((aidAttestation sampleConfig).run (sampleEnv (fun _ => .error eof) 6) 0).1 ∧
      outcomes ((aidAttestation sampleConfig).run (sampleEnv (fun _ => .error eof) 6) 0).1 =
        [.failure] := by
  refine ⟨?_, ⟨eof, [], rfl, rfl⟩, rfl⟩
  unfold Persistent
  decide +kernel

end RealmFormal.NodeAttest.AgentStream

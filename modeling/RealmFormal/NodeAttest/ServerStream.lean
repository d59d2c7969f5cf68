import RealmFormal.NodeAttest.Adapter

/-!
# One attestation stream of the server plugin

`Attest` as a program: what the stream, the attempt, the contexts and `begin`
answer is the environment, and every send, close and recorded outcome is a
request in its trace.
-/

namespace RealmFormal.NodeAttest.ServerStream
open Go Interaction StatusPackage
set_option autoImplicit false

/-- A message from the agent; `other` is a message without one of the two kinds. -/
inductive AttestRequest where
  | payload (data : Bytes)
  | challengeResponse (data : Bytes)
  | other

inductive AttestResponse where
  | challenge (data : Bytes)
  | agentAttributes (spiffeID : Bytes) (selectorValues : List Bytes) (canReattest : Bool)

inductive Op where
  | recv
  | begin (payload : Bytes)
  | send (message : AttestResponse)
  | select
  | verify (response : Bytes)
  | close
  | streamErr
  | attemptErr
  | record (node : Bytes) (outcome : Outcome) (stage : Stage) (reason : Reason)

/-- `begin` answers with the challenge of the attempt, `streamErr` and `attemptErr` with `Err`
of the two contexts. -/
def Op.Answer : Op → Type
  | .recv => Except GoError AttestRequest
  | .begin _ => Except GoError Bytes
  | .send _ => Option GoError
  | .select => Arrival AttestRequest
  | .verify _ => Except GoError (Option Result)
  | .streamErr | .attemptErr => Option CtxErr
  | .close | .record _ _ _ _ => Unit

abbrev Handler := Prog Op Op.Answer

abbrev recv : Handler (Except GoError AttestRequest) := Prog.request Op.recv

abbrev begin (payload : Bytes) : Handler (Except GoError Bytes) := Prog.request (Op.begin payload)

abbrev send (message : AttestResponse) : Handler (Option GoError) :=
  Prog.request (Op.send message)

abbrev select : Handler (Arrival AttestRequest) := Prog.request Op.select

abbrev verify (response : Bytes) : Handler (Except GoError (Option Result)) :=
  Prog.request (Op.verify response)

abbrev close : Handler Unit := Prog.request Op.close

abbrev streamErr : Handler (Option CtxErr) := Prog.request Op.streamErr

abbrev attemptErr : Handler (Option CtxErr) := Prog.request Op.attemptErr

abbrev record (node : Bytes) (outcome : Outcome) (stage : Stage) (reason : Reason) :
    Handler Unit :=
  Prog.request (Op.record node outcome stage reason)

/-- What `Attest` returns, with the variables that its deferred function reads. -/
structure Exit where
  err : Option GoError
  node : Bytes
  outcome : Outcome
  stage : Stage
  reason : Reason

section Program
variable [StatusPackage]

def receiveServerResponse : Handler (Except GoError AttestRequest) :=
  receivePluginMessage attemptErr streamErr select

/-- The label under which the outcome is recorded. -/
def metricNode (nodes : Table Bytes Node) (payload : Bytes) : Bytes :=
  match decodeJSON unmarshalRequest payload with
  | .error _ => unknownNode
  | .ok claim =>
    match nodes.get claim.fqdn with
    | none => unknownNode
    | some n => n.name

def noAgentID : GoError := statusError .internal "attestation result has no agent ID"

/-- `Attest` from the result of `Verify` on. -/
def sendAttributes (node : Bytes) (result : Option Result) : Handler Exit := do
  match result with
  | none => return ⟨some noAgentID, node, .failure, .attributes, .invalidResult⟩
  | some result =>
    if result.agentID = [] then
      return ⟨some noAgentID, node, .failure, .attributes, .invalidResult⟩
    if let some e ← send (.agentAttributes result.agentID result.selectorValues true) then
      return ⟨some e, node, .failure, .attributes, .streamError⟩
    return ⟨none, node, .success, .attributes, .attributesSent⟩

/-- `Attest` from the answer of the agent on. -/
def verifyResponse (node response : Bytes) : Handler Exit := do
  match ← verify response with
  | .error e =>
    let (stage, reason) := classifyError (← attemptErr) e .verify .invalidProof
    let err := attestationError (← streamErr) .unauthenticated
      "attestation verification failed"
    return ⟨some err, node, .failure, stage, reason⟩
  | .ok result => sendAttributes node result

def noResponse : GoError := statusError .invalidArgument "challenge response is required"

/-- `Attest` while an attempt is open. -/
def challengeAgent (node challenge : Bytes) : Handler Exit := do
  if let some e ← send (.challenge challenge) then
    return ⟨some e, node, .failure, .challenge, .streamError⟩
  match ← receiveServerResponse with
  | .error e =>
    let (stage, reason) := classifyError (← attemptErr) e .response .streamError
    return ⟨some e, node, .failure, stage, reason⟩
  | .ok (.challengeResponse response) =>
    if response = [] then
      return ⟨some noResponse, node, .failure, .response, .invalidResponse⟩
    verifyResponse node response
  | .ok _ => return ⟨some noResponse, node, .failure, .response, .invalidResponse⟩

/-- `Attest` from the payload on. -/
def beginAttempt (nodes : Table Bytes Node) (payload : Bytes) : Handler Exit := do
  let node := metricNode nodes payload
  match ← begin payload with
  | .error e =>
    let (stage, reason) := classifyError (← streamErr) e .payload .invalidPayload
    let err := attestationError (← streamErr) .unauthenticated
      "cannot start server attestation"
    return ⟨some err, node, .failure, stage, reason⟩
  | .ok challenge =>
    let exit ← challengeAgent node challenge
    close
    return exit

def noPayload : GoError := statusError .invalidArgument "attestation payload is required"

/-- `Attest` before its deferred function; `plugin` is the configured registry, if any. -/
def attestStream (plugin : Option (Table Bytes Node)) : Handler Exit := do
  match plugin with
  | none =>
    let err := statusError .failedPrecondition "plugin is not configured"
    return ⟨some err, unknownNode, .failure, .start, .notConfigured⟩
  | some nodes =>
    match ← recv with
    | .error e => return ⟨some e, unknownNode, .failure, .payload, .streamError⟩
    | .ok (.payload payload) =>
      if payload = [] then
        return ⟨some noPayload, unknownNode, .failure, .payload, .invalidPayload⟩
      beginAttempt nodes payload
    | .ok _ => return ⟨some noPayload, unknownNode, .failure, .payload, .invalidPayload⟩

/-- The deferred function of `Attest`. -/
def recordExit (exit : Exit) : Handler (Option GoError) := do
  match exit.err with
  | none =>
    record exit.node exit.outcome exit.stage exit.reason
    return none
  | some e =>
    let (stage, reason) := classifyError (← streamErr) e exit.stage exit.reason
    record exit.node exit.outcome stage reason
    return some e

def attest (plugin : Option (Table Bytes Node)) : Handler (Option GoError) := do
  recordExit (← attestStream plugin)

end Program

/-! ## Reading a trace -/

abbrev Trace := List (Event Op Op.Answer)

def delivery : Event Op Op.Answer → Option (AttestResponse × Option GoError)
  | ⟨.send message, err⟩ => some (message, err)
  | _ => none

/-- The messages sent, each with the answer of the send. -/
def deliveries (t : Trace) : List (AttestResponse × Option GoError) := t.filterMap delivery

def recorded : Event Op Op.Answer → Option Outcome
  | ⟨.record _ outcome _ _, _⟩ => some outcome
  | _ => none

def outcomes (t : Trace) : List Outcome := t.filterMap recorded

inductive Attempt where
  | begun | closed

def attempt : Event Op Op.Answer → Option Attempt
  | ⟨.begin _, .ok _⟩ => some .begun
  | ⟨.close, _⟩ => some .closed
  | _ => none

def attempts (t : Trace) : List Attempt := t.filterMap attempt

/-- An attempt that has begun is closed once, and there is no other close. -/
def Paired (t : Trace) : Prop := attempts t = [] ∨ attempts t = [.begun, .closed]

/-- The attributes have been sent without error. -/
def Delivered (t : Trace) : Prop :=
  ∃ id selectors again, (AttestResponse.agentAttributes id selectors again, none) ∈ deliveries t

/-- At most one challenge, and after it at most one message with attributes. -/
def Ordered (t : Trace) : Prop :=
  deliveries t = [] ∨ (∃ c err, deliveries t = [(.challenge c, err)]) ∨
    ∃ c id selectors again err,
      deliveries t = [(.challenge c, none), (.agentAttributes id selectors again, err)]

/-- Attributes are those of a result with an agent ID, which `Verify` returned before for the
challenge response that this stream received. -/
def Justified (t : Trace) : Prop :=
  ∀ id selectors again err,
    (AttestResponse.agentAttributes id selectors again, err) ∈ deliveries t →
      ∃ before between after response result,
        t = before ++ ⟨.select, .completed (.ok (.challengeResponse response))⟩ :: between ++
          ⟨.verify response, .ok (some result)⟩ ::
            ⟨.send (.agentAttributes id selectors again), err⟩ :: after ∧
        result.agentID ≠ [] ∧ id = result.agentID ∧ selectors = result.selectorValues

/-! ## The exits -/

abbrev Receives [StatusPackage] : Trace → Except GoError AttestRequest → Prop :=
  Received (fun r => ⟨.attemptErr, r⟩) (fun r => ⟨.streamErr, r⟩) fun r => ⟨.select, r⟩

theorem receiveServerResponse_receives [StatusPackage] : receiveServerResponse.Sat Receives := by
  apply receivePluginMessage_received
  · exact fun _ => rfl
  · exact fun _ => rfl
  · exact fun _ => rfl

/-- How `Attest` leaves an open attempt. -/
inductive Challenged [StatusPackage] (node challenge : Bytes) : Trace → Exit → Prop where
  | unsent (e : GoError) :
      Challenged node challenge [⟨.send (.challenge challenge), some e⟩]
        ⟨some e, node, .failure, .challenge, .streamError⟩
  | unanswered (t : Trace) (e : GoError) (read : Option CtxErr) (stage : Stage) (reason : Reason)
      (received : Receives t (.error e)) :
      Challenged node challenge
        (⟨.send (.challenge challenge), none⟩ :: t ++ [⟨.attemptErr, read⟩])
        ⟨some e, node, .failure, stage, reason⟩
  | unsuitable (t : Trace) (m : AttestRequest) (e : GoError) (received : Receives t (.ok m)) :
      Challenged node challenge (⟨.send (.challenge challenge), none⟩ :: t)
        ⟨some e, node, .failure, .response, .invalidResponse⟩
  | unverified (t : Trace) (response : Bytes) (e e' : GoError) (read read' : Option CtxErr)
      (stage : Stage) (reason : Reason)
      (received : Receives t (.ok (.challengeResponse response))) :
      Challenged node challenge
        (⟨.send (.challenge challenge), none⟩ :: t ++
          [⟨.verify response, .error e⟩, ⟨.attemptErr, read⟩, ⟨.streamErr, read'⟩])
        ⟨some e', node, .failure, stage, reason⟩
  | nameless (t : Trace) (response : Bytes) (result : Option Result) (e : GoError)
      (received : Receives t (.ok (.challengeResponse response))) :
      Challenged node challenge
        (⟨.send (.challenge challenge), none⟩ :: t ++ [⟨.verify response, .ok result⟩])
        ⟨some e, node, .failure, .attributes, .invalidResult⟩
  | undelivered (t : Trace) (response : Bytes) (result : Result) (e : GoError)
      (received : Receives t (.ok (.challengeResponse response))) (named : result.agentID ≠ []) :
      Challenged node challenge
        (⟨.send (.challenge challenge), none⟩ :: t ++
          [⟨.verify response, .ok (some result)⟩,
            ⟨.send (.agentAttributes result.agentID result.selectorValues true), some e⟩])
        ⟨some e, node, .failure, .attributes, .streamError⟩
  | delivered (t : Trace) (response : Bytes) (result : Result)
      (received : Receives t (.ok (.challengeResponse response))) (named : result.agentID ≠ []) :
      Challenged node challenge
        (⟨.send (.challenge challenge), none⟩ :: t ++
          [⟨.verify response, .ok (some result)⟩,
            ⟨.send (.agentAttributes result.agentID result.selectorValues true), none⟩])
        ⟨none, node, .success, .attributes, .attributesSent⟩

theorem sendAttributes_challenged [StatusPackage] {node challenge response : Bytes} {t : Trace}
    (ht : Receives t (.ok (.challengeResponse response))) (result : Option Result) :
    (sendAttributes node result).Sat fun u x =>
      Challenged node challenge
        (⟨.send (.challenge challenge), none⟩ :: t ++ ⟨.verify response, .ok result⟩ :: u) x := by
  cases result with
  | none => exact .nameless t response none _ ht
  | some result =>
    unfold sendAttributes
    dsimp only
    split
    · exact .nameless t response (some result) _ ht
    · rename_i hnamed
      rintro (_ | e)
      · exact .delivered t response result ht hnamed
      · exact .undelivered t response result e ht hnamed

theorem verifyResponse_challenged [StatusPackage] {node challenge response : Bytes} {t : Trace}
    (ht : Receives t (.ok (.challengeResponse response))) :
    (verifyResponse node response).Sat fun u x =>
      Challenged node challenge (⟨.send (.challenge challenge), none⟩ :: t ++ u) x := by
  rintro (e | result)
  · intro read read'
    exact .unverified t response e _ read read' _ _ ht
  · exact sendAttributes_challenged ht result

theorem challengeAgent_challenged [StatusPackage] (node challenge : Bytes) :
    (challengeAgent node challenge).Sat (Challenged node challenge) := by
  rintro (_ | e)
  · refine receiveServerResponse_receives.bind ?_
    have hunsuitable : ∀ {t m}, Receives t (.ok m) →
        (pure ⟨some noResponse, node, .failure, .response, .invalidResponse⟩ : Handler Exit).Sat
          fun u x => Challenged node challenge
            (⟨.send (.challenge challenge), none⟩ :: (t ++ u)) x := by
      intro t m ht
      rw [Prog.sat_pure, List.append_nil]
      exact .unsuitable t m _ ht
    rintro t (e | (payload | response | _)) ht
    · intro read
      exact .unanswered t e read _ _ ht
    · exact hunsuitable ht
    · dsimp only
      split
      · exact hunsuitable ht
      · exact verifyResponse_challenged ht
    · exact hunsuitable ht
  · exact .unsent e

/-! ## The trace up to the deferred function -/

theorem deliveries_frame {t u v : Trace} (hu : deliveries u = []) (hv : deliveries v = []) :
    deliveries (u ++ t ++ v) = deliveries t := by
  unfold deliveries at *
  rw [List.filterMap_append, List.filterMap_append, hu, hv, List.nil_append, List.append_nil]

theorem Justified.frame {t u v : Trace} (h : Justified t) (hu : deliveries u = [])
    (hv : deliveries v = []) : Justified (u ++ t ++ v) := by
  intro id selectors again err hmem
  rw [deliveries_frame hu hv] at hmem
  obtain ⟨before, between, after, response, result, rfl, hresult⟩ :=
    h id selectors again err hmem
  exact ⟨u ++ before, between, after ++ v, response, result, by simp, hresult⟩

/-- What an exit and the trace before it tell of each other. -/
structure Streamed (t : Trace) (x : Exit) : Prop where
  ordered : Ordered t
  justified : Justified t
  paired : Paired t
  silent : outcomes t = []
  success : x.outcome = .success ↔ Delivered t
  clean : x.err = none ↔ Delivered t

/-- An exit at which no attributes have been handed to the stream. -/
theorem streamed_of_failure {t : Trace} {x : Exit} {e : GoError}
    (h : deliveries t = [] ∨ ∃ c err, deliveries t = [(.challenge c, err)])
    (hattempts : attempts t = []) (hsilent : outcomes t = []) (hx : x.outcome = .failure)
    (herr : x.err = some e) : Streamed t x := by
  have hnone : ∀ id selectors again err,
      (AttestResponse.agentAttributes id selectors again, err) ∉ deliveries t := by
    intro id selectors again err hmem
    rcases h with h | ⟨c, err', h⟩
    · simp [h] at hmem
    · simp [h] at hmem
  have hdelivered : ¬ Delivered t := by
    rintro ⟨id, selectors, again, hmem⟩
    exact hnone id selectors again none hmem
  refine ⟨?_, ?_, Or.inl hattempts, hsilent, iff_of_false (by simp [hx]) hdelivered,
    iff_of_false (by simp [herr]) hdelivered⟩
  · rcases h with h | h
    · exact Or.inl h
    · exact Or.inr (Or.inl h)
  · intro id selectors again err hmem
    exact absurd hmem (hnone id selectors again err)

/-- The trace of an exit after the attributes were handed to the stream. -/
def attributed (c : Bytes) (t : Trace) (response : Bytes) (result : Result)
    (err : Option GoError) : Trace :=
  ⟨.send (.challenge c), none⟩ :: t ++
    [⟨.verify response, .ok (some result)⟩,
      ⟨.send (.agentAttributes result.agentID result.selectorValues true), err⟩]

theorem Receives.deliveries_attributed [StatusPackage] {t : Trace} {response : Bytes}
    (h : Receives t (.ok (.challengeResponse response))) (c : Bytes) (result : Result)
    (err : Option GoError) :
    deliveries (attributed c t response result err) =
      [(.challenge c, none),
        (.agentAttributes result.agentID result.selectorValues true, err)] := by
  cases h
  rfl

theorem Receives.justified [StatusPackage] {t : Trace} {response c : Bytes} {result : Result}
    (h : Receives t (.ok (.challengeResponse response))) (named : result.agentID ≠ [])
    (err : Option GoError) : Justified (attributed c t response result err) := by
  intro id selectors again err' hmem
  rw [h.deliveries_attributed, List.mem_cons, List.mem_singleton] at hmem
  rcases hmem with hmem | hmem
  · cases hmem
  · cases hmem
    cases h
    exact ⟨[⟨.send (.challenge c), none⟩, ⟨.attemptErr, none⟩, ⟨.streamErr, none⟩],
      [⟨.attemptErr, none⟩, ⟨.streamErr, none⟩], [], response, result, rfl, named, rfl, rfl⟩

theorem Receives.streamed [StatusPackage] {t : Trace} {response c : Bytes} {result : Result}
    {err : Option GoError}
    {x : Exit} (h : Receives t (.ok (.challengeResponse response))) (named : result.agentID ≠ [])
    (hx : x.outcome = .success ↔ err = none) (herr : x.err = none ↔ err = none) :
    Streamed (attributed c t response result err) x := by
  have hsent := h.deliveries_attributed c result err
  have hdelivered : Delivered (attributed c t response result err) ↔ err = none := by
    unfold Delivered
    rw [hsent]
    constructor
    · rintro ⟨id, selectors, again, hmem⟩
      rcases List.mem_cons.mp hmem with hmem | hmem
      · cases hmem
      · cases List.mem_singleton.mp hmem
        rfl
    · rintro rfl
      exact ⟨_, _, _, List.mem_cons_of_mem _ (List.mem_singleton_self _)⟩
  refine ⟨Or.inr (Or.inr ⟨_, _, _, _, _, hsent⟩), h.justified named err, ?_, ?_,
    hx.trans hdelivered.symm, herr.trans hdelivered.symm⟩
  · cases h
    exact Or.inl rfl
  · cases h
    rfl

theorem Challenged.streamed [StatusPackage] {node challenge : Bytes} {t : Trace} {x : Exit}
    (h : Challenged node challenge t x) : Streamed t x := by
  cases h with
  | unsent e => exact streamed_of_failure (Or.inr ⟨_, _, rfl⟩) rfl rfl rfl rfl
  | unanswered t e read stage reason received =>
    cases received <;> exact streamed_of_failure (Or.inr ⟨_, _, rfl⟩) rfl rfl rfl rfl
  | unsuitable t m e received =>
    cases received
    exact streamed_of_failure (Or.inr ⟨_, _, rfl⟩) rfl rfl rfl rfl
  | unverified t response e e' read read' stage reason received =>
    cases received
    exact streamed_of_failure (Or.inr ⟨_, _, rfl⟩) rfl rfl rfl rfl
  | nameless t response result e received =>
    cases received
    exact streamed_of_failure (Or.inr ⟨_, _, rfl⟩) rfl rfl rfl rfl
  | undelivered t response result e received named =>
    exact received.streamed named (by simp) (by simp)
  | delivered t response result received named =>
    exact received.streamed named (by simp) (by simp)

theorem Challenged.attempts [StatusPackage] {node challenge : Bytes} {t : Trace} {x : Exit}
    (h : Challenged node challenge t x) : attempts t = [] := by
  cases h with
  | unsent e => rfl
  | unanswered t e read stage reason received => cases received <;> rfl
  | unsuitable t m e received => cases received; rfl
  | unverified t response e e' read read' stage reason received => cases received; rfl
  | nameless t response result e received => cases received; rfl
  | undelivered t response result e received named => cases received; rfl
  | delivered t response result received named => cases received; rfl

/-- The same exit with more of the stream around it, in which nothing is sent or recorded. -/
theorem Streamed.frame {t : Trace} {x : Exit} (h : Streamed t x) {u v : Trace}
    (hu : deliveries u = []) (hv : deliveries v = []) (hou : outcomes u = [])
    (hov : outcomes v = []) (hpaired : Paired (u ++ t ++ v)) : Streamed (u ++ t ++ v) x := by
  have hsent := deliveries_frame (t := t) hu hv
  have hdelivered : Delivered (u ++ t ++ v) ↔ Delivered t := by
    unfold Delivered
    rw [hsent]
  refine ⟨?_, h.justified.frame hu hv, hpaired, ?_, h.success.trans hdelivered.symm,
    h.clean.trans hdelivered.symm⟩
  · unfold Ordered
    rw [hsent]
    exact h.ordered
  · have hsilent := h.silent
    unfold outcomes at *
    rw [List.filterMap_append, List.filterMap_append, hou, hsilent, hov]
    rfl

theorem beginAttempt_streamed [StatusPackage] (nodes : Table Bytes Node) (payload : Bytes) :
    (beginAttempt nodes payload).Sat Streamed := by
  rintro (e | challenge)
  · intro read read'
    exact streamed_of_failure (Or.inl rfl) rfl rfl rfl rfl
  · refine (challengeAgent_challenged (metricNode nodes payload) challenge).bind ?_
    intro t x ht read
    have hpaired : Paired ([⟨.begin payload, .ok challenge⟩] ++ t ++ [⟨.close, read⟩]) := by
      have hattempts := ht.attempts
      unfold Paired attempts at *
      rw [List.filterMap_append, List.filterMap_append, hattempts]
      exact Or.inr rfl
    exact ht.streamed.frame (u := [⟨.begin payload, .ok challenge⟩]) (v := [⟨.close, read⟩])
      rfl rfl rfl rfl hpaired

theorem attestStream_streamed [StatusPackage] (plugin : Option (Table Bytes Node)) :
    (attestStream plugin).Sat Streamed := by
  cases plugin with
  | none => exact streamed_of_failure (Or.inl rfl) rfl rfl rfl rfl
  | some nodes =>
    refine Prog.sat_request_bind.mpr ?_
    rintro (e | (payload | response | _))
    · exact streamed_of_failure (Or.inl rfl) rfl rfl rfl rfl
    · dsimp only
      split
      · exact streamed_of_failure (Or.inl rfl) rfl rfl rfl rfl
      · refine (beginAttempt_streamed nodes payload).mono ?_
        intro t x h
        have hpaired : Paired ([⟨.recv, .ok (.payload payload)⟩] ++ t ++ []) := by
          rw [List.append_nil]
          exact h.paired
        have hframe := h.frame (u := [⟨.recv, .ok (.payload payload)⟩]) (v := []) rfl rfl rfl rfl
          hpaired
        rwa [List.append_nil] at hframe
    · exact streamed_of_failure (Or.inl rfl) rfl rfl rfl rfl
    · exact streamed_of_failure (Or.inl rfl) rfl rfl rfl rfl

/-! ## Texts of errors -/

/-- The answer without the text of its error. -/
def hideText {A : Type} : Except GoError A → Except GoError A
  | .error e => .error { e with text := "" }
  | .ok a => .ok a

/-- The same answer, up to the text of an error of `begin` or `Verify`. -/
def SameButText : (op : Op) → op.Answer → op.Answer → Prop
  | .begin _, x, y => hideText (A := Bytes) x = hideText y
  | .verify _, x, y => hideText (A := Option Result) x = hideText y
  | _, x, y => x = y

theorem hideText_cases {A : Type} {x y : Except GoError A} (h : hideText x = hideText y) :
    x = y ∨ ∃ e text, x = .error e ∧ y = .error { e with text } := by
  cases x with
  | error e =>
    cases y with
    | error e' =>
      refine Or.inr ⟨e, e'.text, rfl, ?_⟩
      cases e
      cases e'
      cases h
      rfl
    | ok b => cases h
  | ok a =>
    cases y with
    | error e => cases h
    | ok b =>
      cases h
      exact Or.inl rfl

theorem sendAttributes_blind [StatusPackage] (node : Bytes) (result : Option Result) :
    (sendAttributes node result).Blind SameButText := by
  cases result with
  | none => exact Prog.blind_pure _
  | some result =>
    unfold sendAttributes
    dsimp only
    split
    · exact Prog.blind_pure _
    · refine Prog.blind_ask (fun _ _ h => h) ?_
      rintro (_ | e) <;> exact Prog.blind_pure _

theorem verifyResponse_blind [StatusPackage] (node response : Bytes) :
    (verifyResponse node response).Blind SameButText := by
  refine Prog.blind_request_bind ?_ ?_
  · intro x y h
    rcases hideText_cases h with rfl | ⟨e, text, rfl, rfl⟩ <;> rfl
  · rintro (e | result)
    · refine Prog.blind_ask (fun _ _ h => h) fun read => ?_
      exact Prog.blind_ask (fun _ _ h => h) fun read' => Prog.blind_pure _
    · exact sendAttributes_blind node result

theorem challengeAgent_blind [StatusPackage] (node challenge : Bytes) :
    (challengeAgent node challenge).Blind SameButText := by
  refine Prog.blind_ask (fun _ _ h => h) ?_
  rintro (_ | e)
  · refine Prog.blind_bind (receivePluginMessage_blind (Prog.blind_request fun _ _ h => h)
      (Prog.blind_request fun _ _ h => h) (Prog.blind_request fun _ _ h => h)) ?_
    rintro (e | (payload | response | _))
    · exact Prog.blind_ask (fun _ _ h => h) fun read => Prog.blind_pure _
    · exact Prog.blind_pure _
    · dsimp only
      split
      · exact Prog.blind_pure _
      · exact verifyResponse_blind node response
    · exact Prog.blind_pure _
  · exact Prog.blind_pure _

theorem beginAttempt_blind [StatusPackage] (nodes : Table Bytes Node) (payload : Bytes) :
    (beginAttempt nodes payload).Blind SameButText := by
  refine Prog.blind_request_bind ?_ ?_
  · intro x y h
    rcases hideText_cases h with rfl | ⟨e, text, rfl, rfl⟩ <;> rfl
  · rintro (e | challenge)
    · refine Prog.blind_ask (fun _ _ h => h) fun read => ?_
      exact Prog.blind_ask (fun _ _ h => h) fun read' => Prog.blind_pure _
    · refine Prog.blind_bind (challengeAgent_blind _ challenge) fun x => ?_
      exact Prog.blind_ask (fun _ _ h => h) fun _ => Prog.blind_pure _

theorem attestStream_blind [StatusPackage] (plugin : Option (Table Bytes Node)) :
    (attestStream plugin).Blind SameButText := by
  cases plugin with
  | none => exact Prog.blind_pure _
  | some nodes =>
    refine Prog.blind_ask (fun _ _ h => h) ?_
    rintro (e | (payload | response | _))
    · exact Prog.blind_pure _
    · dsimp only
      split
      · exact Prog.blind_pure _
      · exact beginAttempt_blind nodes payload
    · exact Prog.blind_pure _
    · exact Prog.blind_pure _

theorem recordExit_blind (x : Exit) : (recordExit x).Blind SameButText := by
  unfold recordExit
  split
  · exact Prog.blind_ask (fun _ _ h => h) fun _ => Prog.blind_pure _
  · refine Prog.blind_ask (fun _ _ h => h) fun read => ?_
    exact Prog.blind_ask (fun _ _ h => h) fun _ => Prog.blind_pure _

theorem attest_blind [StatusPackage] (plugin : Option (Table Bytes Node)) :
    (attest plugin).Blind SameButText :=
  Prog.blind_bind (attestStream_blind plugin) recordExit_blind

/-! ## The whole call -/

/-- What one call of `Attest` with the trace `t` that returns `err` has done. -/
structure Attested (t : Trace) (err : Option GoError) : Prop where
  ordered : Ordered t
  justified : Justified t
  paired : Paired t
  recorded : ∃ outcome, outcomes t = [outcome] ∧
    (outcome = .success ↔ Delivered t ∧ err = none)

theorem Streamed.attested {t u : Trace} {x : Exit} (h : Streamed t x) (hu : deliveries u = [])
    (hattempts : attempts u = []) (houtcomes : outcomes u = [x.outcome]) :
    Attested (t ++ u) x.err := by
  have hsent : deliveries (t ++ u) = deliveries t := deliveries_frame (u := []) rfl hu
  refine ⟨?_, h.justified.frame (u := []) rfl hu, ?_, x.outcome, ?_, ?_⟩
  · unfold Ordered
    rw [hsent]
    exact h.ordered
  · have hpaired := h.paired
    unfold Paired attempts at *
    rw [List.filterMap_append, hattempts, List.append_nil]
    exact hpaired
  · have hsilent := h.silent
    unfold outcomes at *
    rw [List.filterMap_append, hsilent, houtcomes]
    rfl
  · unfold Delivered
    rw [hsent]
    exact ⟨fun hx => ⟨h.success.mp hx, h.clean.mpr (h.success.mp hx)⟩, fun hx => h.success.mpr hx.1⟩

theorem attest_attested [StatusPackage] (plugin : Option (Table Bytes Node)) :
    (attest plugin).Sat Attested := by
  refine (attestStream_streamed plugin).bind ?_
  intro t x h
  obtain ⟨err, node, outcome, stage, reason⟩ := x
  cases err with
  | none => exact fun _ => h.attested rfl rfl rfl
  | some e => exact fun _ _ => h.attested rfl rfl rfl

/-- One call of `Attest`, whatever the stream, the contexts, `begin` and `Verify` answer. -/
theorem attest_accounts [StatusPackage] (plugin : Option (Table Bytes Node))
    (env : Nat → (op : Op) → op.Answer) :
    Attested ((attest plugin).run env 0).1 ((attest plugin).run env 0).2 ∧
      ∀ env', (∀ n op, SameButText op (env n op) (env' n op)) →
        ((attest plugin).run env' 0).2 = ((attest plugin).run env 0).2 := by
  refine ⟨(attest_attested plugin).run env 0, ?_⟩
  intro env' hsame
  exact ((attest_blind plugin).run_eq hsame 0).symm

/-- A stream that answers every step of the protocol, and a verdict of `Verify`. -/
def sampleEnv (verdict : Except GoError (Option Result)) : Nat → (op : Op) → op.Answer
  | _, .recv => .ok (.payload (str "payload"))
  | _, .begin _ => .ok (str "challenge")
  | _, .send _ => none
  | _, .select => .completed (.ok (.challengeResponse (str "response")))
  | _, .verify _ => verdict
  | _, .streamErr | _, .attemptErr => none
  | _, .close | _, .record _ _ _ _ => ()

def sampleError (text : String) : GoError := ⟨text, false, false, false, .unknown, none⟩

theorem attest_accounts_sampleEnv :
    outcomes ((attest (some .empty)).run (sampleEnv (.ok (some ⟨str "agent", []⟩))) 0).1 =
        [.success] ∧
      Attested ((attest (some .empty)).run (sampleEnv (.ok (some ⟨str "agent", []⟩))) 0).1
        ((attest (some .empty)).run (sampleEnv (.ok (some ⟨str "agent", []⟩))) 0).2 ∧
      ((attest (some .empty)).run (sampleEnv (.error (sampleError "other"))) 0).2 =
        ((attest (some .empty)).run (sampleEnv (.error (sampleError "nonce"))) 0).2 := by
  refine ⟨rfl, (attest_accounts _ _).1, (attest_accounts _ _).2 _ ?_⟩
  intro n op
  cases op <;> rfl

end RealmFormal.NodeAttest.ServerStream

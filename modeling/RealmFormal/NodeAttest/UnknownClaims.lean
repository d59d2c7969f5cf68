import RealmFormal.NodeAttest.MetricsRegistry
import RealmFormal.NodeAttest.Registry
import RealmFormal.NodeAttest.ServerStream
import RealmFormal.NodeAttest.Soundness

/-!
# Streams that claim no configured node

The calls that one `Attest` makes on the metrics registry are read off its trace.
A stream whose payload is malformed or names an FQDN outside its registry snapshot
begins no attempt, so it makes one call, under the label `unknown`. The names of
configured nodes come from the same labels: `labelPattern` admits a node with that
name, and the calls then count against it.
-/

namespace RealmFormal.NodeAttest
open Go Interaction Transition
set_option autoImplicit false

/-- The entries of the registry whose node label is `node` are the same in both states. -/
structure MetricsRegistry.SameAt (node : Bytes) (m m' : MetricsRegistry) : Prop where
  totals : ∀ k : MetricLabels, k.node = node → m'.totals.get k = m.totals.get k
  durations : ∀ k : DurationLabels, k.node = node → m'.durations.get k = m.durations.get k
  lastSuccess : m'.lastSuccess.get node = m.lastSuccess.get node
  pending : m'.pending.get node = m.pending.get node

/-- `Configure` registers the name of every node of the server. -/
def Server.Installed (server : Server) (past : List MetricsCall) : Prop :=
  ∀ e ∈ server.nodes.entries, MetricsRegistry.Registered past e.2.name

/-- `record` writes entries of the label that `nodeLocked` gives. -/
theorem MetricsRegistry.record_sameAt {m : MetricsRegistry} {node name : Bytes}
    (h : m.nodeLocked node ≠ name) (outcome stage reason : Bytes) (duration now : Int) :
    SameAt name m (m.record node outcome stage reason duration now) := by
  refine ⟨?_, ?_, ?_, rfl⟩
  · rintro k rfl
    dsimp only [record, Tally.bump]
    rw [Table.get_put, if_neg]
    rintro rfl
    exact h rfl
  · rintro k rfl
    dsimp only [record]
    rw [Table.get_put, if_neg]
    rintro rfl
    exact h rfl
  · dsimp only [record]
    split
    · rw [Table.get_put, if_neg]
      intro hname
      exact h hname.symm
    · rfl

/-- It always writes one: the counter of its labels is not what it was. -/
theorem MetricsRegistry.record_not_sameAt {m : MetricsRegistry} {node name : Bytes}
    (h : m.nodeLocked node = name) (outcome stage reason : Bytes) (duration now : Int) :
    ¬ SameAt name m (m.record node outcome stage reason duration now) := by
  intro hsame
  exact Tally.get_bump_ne m.totals _ (hsame.totals (m.labels node outcome stage reason) h)

theorem MetricsRegistry.nodeLocked_unknownNode (m : MetricsRegistry) :
    m.nodeLocked unknownNode = unknownNode := by
  unfold nodeLocked
  split <;> rfl

namespace ServerStream

/-- No node of the registry is claimed: the payload is malformed, or its FQDN is not there. -/
def Unclaimed (nodes : Table Bytes Node) (payload : Bytes) : Prop :=
  ∀ claim, decodeJSON unmarshalRequest payload = .ok claim → nodes.get claim.fqdn = none

theorem Unclaimed.metricNode {nodes : Table Bytes Node} {payload : Bytes}
    (h : Unclaimed nodes payload) : metricNode nodes payload = unknownNode := by
  unfold ServerStream.metricNode
  split
  · rfl
  · rename_i claim hclaim
    rw [h claim hclaim]

/-- An attempt is one of the claimed node, and `Begin` counts it under the label of the stream. -/
theorem begin_claims {s s' : Server} {handle : Nat} {now : Int} {ctxErr : Option CtxErr}
    {payload : Bytes} {id nonce : Except String (List.Vector UInt8 32)} {a : ServerAttempt}
    (h : s.begin handle now ctxErr payload id nonce = .ok (a, s')) :
    ¬ Unclaimed s.nodes payload ∧ a.node.name = metricNode s.nodes payload := by
  unfold Server.begin at h
  split at h
  · cases h
  rename_i request node hscreen
  have hnode : decodeJSON unmarshalRequest payload = .ok request ∧
      s.nodes.get request.fqdn = some node := by
    unfold Server.screen at hscreen
    split at hscreen
    · cases hscreen
    split at hscreen
    · cases hscreen
    rename_i claim hclaim
    split at hscreen
    · cases hscreen
    split at hscreen
    · cases hscreen
    rename_i found hfound
    split at hscreen
    · cases hscreen
    cases hscreen
    exact ⟨hclaim, hfound⟩
  refine ⟨?_, ?_⟩
  · intro hunclaimed
    rw [hunclaimed request hnode.1] at hnode
    cases hnode.2
  · unfold metricNode
    rw [hnode.1]
    dsimp only
    rw [hnode.2]
    split at h
    · cases h
    · cases h
    split at h
    · cases h
    cases h
    rfl

/-- What the stream gets from `Begin`. The error of a context keeps its kind inside the
observation, so the flags of the error are left open. -/
inductive BeginAnswer : Except ObservationError (ServerAttempt × Server) →
    Except GoError Bytes → Prop where
  | challenge (a : ServerAttempt) (s : Server) : BeginAnswer (.ok (a, s)) (.ok a.rawChallenge)
  | error (e : ObservationError) (g : GoError) (text : g.text = e.err)
      (observed : g.observed = some (e.stage, e.reason)) : BeginAnswer (.error e) (.error g)

/-- `begin` is `Begin` of a server with the registry `nodes`, in any state of its attempts. -/
def Begins (nodes : Table Bytes Node) (env : Nat → (op : Op) → op.Answer) : Prop :=
  ∀ n payload, ∃ (s : Server) (handle : Nat) (now : Int) (ctxErr : Option CtxErr)
    (id nonce : Except String (List.Vector UInt8 32)),
    s.nodes = nodes ∧
      BeginAnswer (s.begin handle now ctxErr payload id nonce) (env n (.begin payload))

theorem Begins.claimed {nodes : Table Bytes Node} {env : Nat → (op : Op) → op.Answer}
    (h : Begins nodes env) {n : Nat} {payload challenge : Bytes}
    (hbegin : env n (.begin payload) = .ok challenge) : ¬ Unclaimed nodes payload := by
  obtain ⟨s, handle, now, ctxErr, id, nonce, rfl, hanswer⟩ := h n payload
  rw [hbegin] at hanswer
  generalize hresult : s.begin handle now ctxErr payload id nonce = result at hanswer
  cases hanswer with
  | challenge a s' => exact (begin_claims hresult).1

/-! ## The calls of one stream -/

/-- The calls on the metrics registry along a trace: an attempt is pending under its node from
`Begin` until it is removed, and the outcome is recorded with the duration of the call. `node`
is the label of the open attempt. -/
def metricsCalls (nodes : Table Bytes Node) (duration now : Int) :
    Option Bytes → Trace → List MetricsCall
  | _, [] => []
  | _, ⟨.begin payload, .ok _⟩ :: t =>
    .pendingAdd (metricNode nodes payload) 1 ::
      metricsCalls nodes duration now (some (metricNode nodes payload)) t
  | node, ⟨.close, _⟩ :: t =>
    node.toList.map (fun name => .pendingAdd name (-1)) ++ metricsCalls nodes duration now none t
  | node, ⟨.record name outcome stage reason, _⟩ :: t =>
    .record name outcome.text stage.text reason.text duration now ::
      metricsCalls nodes duration now node t
  | node, _ :: t => metricsCalls nodes duration now node t

/-- The only call of a stream without a node: a failure under `unknown`. -/
def Anonymous (nodes : Table Bytes Node) (duration now : Int) (t : Trace) : Prop :=
  ∃ (stage : Stage) (reason : Reason), metricsCalls nodes duration now none t =
    [.record unknownNode Outcome.failure.text stage.text reason.text duration now]

theorem recordExit_anonymous (nodes : Table Bytes Node) {x : Exit} (hnode : x.node = unknownNode)
    (houtcome : x.outcome = .failure) (duration now : Int) :
    (recordExit x).Sat fun t _ => Anonymous nodes duration now t := by
  obtain ⟨err, node, outcome, stage, reason⟩ := x
  cases hnode
  cases houtcome
  cases err with
  | none => exact fun _ => ⟨_, _, rfl⟩
  | some e => exact fun _ _ => ⟨_, _, rfl⟩

/-- A stream with the payload `payload`, for which `begin` answers no challenge. -/
theorem attest_anonymous [StatusPackage] {nodes : Table Bytes Node} {payload : Bytes}
    (h : Unclaimed nodes payload) (duration now : Int) :
    (attest (some nodes)).Sat fun t _ =>
      t.head? = some ⟨.recv, .ok (.payload payload)⟩ →
      (∀ c, ⟨.begin payload, .ok c⟩ ∉ t) → Anonymous nodes duration now t := by
  refine Prog.sat_request_bind.mpr ?_
  rintro (e | (data | response | _))
  · intro read _ hhead
    cases hhead
  · by_cases hdata : data = payload
    · subst hdata
      -- the continuation of `Recv`, so that the test for an empty payload can be split
      change ((if data = [] then _ else beginAttempt nodes data) >>= recordExit).Sat _
      split
      · intro read _ _ _
        exact ⟨_, _, rfl⟩
      · rintro (e | challenge)
        · intro read read'
          refine Prog.Sat.mono (recordExit_anonymous nodes ?_ ?_ duration now) ?_
          · exact h.metricNode
          · rfl
          · intro t _ ht _ _
            exact ht
        · refine Prog.sat_of_forall ?_
          intro t _ _ hbegin
          exact absurd (List.mem_cons_of_mem _ List.mem_cons_self) (hbegin challenge)
    · refine Prog.sat_of_forall ?_
      intro t _ hhead
      cases hhead
      exact absurd rfl hdata
  · intro read _ hhead
    cases hhead
  · intro read _ hhead
    cases hhead

theorem run_anonymous [StatusPackage] {nodes : Table Bytes Node} {env : Nat → (op : Op) → op.Answer}
    {payload : Bytes} (hbegins : Begins nodes env) (hrecv : env 0 .recv = .ok (.payload payload))
    (h : Unclaimed nodes payload) (duration now : Int) :
    Anonymous nodes duration now ((attest (some nodes)).run env 0).1 := by
  refine (attest_anonymous h duration now).run env 0 ?_ ?_
  · rw [← hrecv]
    rfl
  · intro c hmem
    have hanswers : ∀ e ∈ ((attest (some nodes)).run env 0).1,
        e ≠ ⟨.begin payload, .ok c⟩ := by
      refine Prog.forall_mem_run ?_ 0
      intro n op heq
      have hop : op = .begin payload := congrArg Sigma.fst heq
      subst hop
      exact hbegins.claimed (eq_of_heq (Sigma.mk.inj heq).2) h
    exact hanswers _ hmem rfl

/-! ## Configured nodes -/

/-- Payloads that claim no configured node change nothing under the name of one, at whatever
state of the registry the calls of the stream find. -/
def KeepsClaimsApart [StatusPackage] (server : Server) : Prop :=
  ∀ past m env payload duration now,
    exec MetricsRegistry.step (MetricsRegistry.new .server) past = some m →
    server.Installed past → Begins server.nodes env →
    env 0 .recv = .ok (.payload payload) → Unclaimed server.nodes payload →
    ∀ c ∈ metricsCalls server.nodes duration now none
      ((attest (some server.nodes)).run env 0).1,
    ∀ e ∈ server.nodes.entries, ∀ m', m.step c = some m' →
      MetricsRegistry.SameAt e.2.name m m'

/-- A stream that sends `payload` to a server that has no attempt for it. -/
def refusedEnv (server : Server) (payload : Bytes) : Nat → (op : Op) → op.Answer
  | _, .recv => .ok (.payload payload)
  | _, .begin data =>
    match server.begin 0 0 none data (.error "") (.error "") with
    | .ok (a, _) => .ok a.rawChallenge
    | .error e => .error ⟨e.err, false, false, false, .unknown, some (e.stage, e.reason)⟩
  | _, .send _ => none
  | _, .select => .ctxDone .canceled
  | _, .verify _ => .ok none
  | _, .streamErr | _, .attemptErr => none
  | _, .close | _, .record _ _ _ _ => ()

theorem refusedEnv_begins (server : Server) (payload : Bytes) :
    Begins server.nodes (refusedEnv server payload) := by
  intro n data
  refine ⟨server, 0, 0, none, .error "", .error "", rfl, ?_⟩
  dsimp only [refusedEnv]
  split
  · rename_i a s h
    rw [h]
    exact .challenge a s
  · rename_i e h
    rw [h]
    exact .error e _ rfl rfl

/-- A payload that is no document. -/
def malformed : Bytes := str "x"

theorem malformed_unclaimed (nodes : Table Bytes Node) : Unclaimed nodes malformed := by
  intro claim hclaim
  have herror : decodeJSON unmarshalRequest malformed = .error "invalid document" := by rfl
  rw [herror] at hclaim
  cases hclaim

theorem claims_apart_iff [StatusPackage] {config : ServerConfig} {server : Server}
    (h : newServer config = .ok server) :
    KeepsClaimsApart server ↔ unknownNode ∉ config.nodes.entries.map Prod.fst := by
  rw [← newServer_names h]
  constructor
  · rintro hapart ⟨e, he, hname⟩
    let past := server.nodes.entries.map fun e => MetricsCall.register [e.2.name]
    obtain ⟨m, hm⟩ := MetricsRegistry.exec_exists (MetricsRegistry.new .server) past
    have hinstalled : server.Installed past := by
      intro e he
      exact ⟨[e.2.name], List.mem_map_of_mem he, List.mem_singleton_self _⟩
    obtain ⟨stage, reason, hcalls⟩ := run_anonymous (refusedEnv_begins server malformed) rfl
      (malformed_unclaimed server.nodes) 0 0
    have hsame := hapart past m (refusedEnv server malformed) malformed 0 0 hm hinstalled
      (refusedEnv_begins server malformed) rfl (malformed_unclaimed server.nodes) _
      (hcalls ▸ List.mem_cons_self) e he _ rfl
    rw [hname] at hsame
    exact MetricsRegistry.record_not_sameAt m.nodeLocked_unknownNode _ _ _ _ _ hsame
  · intro hunnamed past m env payload duration now _ _ hbegins hrecv hunclaimed c hc e he m' hstep
    obtain ⟨stage, reason, hcalls⟩ := run_anonymous hbegins hrecv hunclaimed duration now
    rw [hcalls, List.mem_singleton] at hc
    subst hc
    cases hstep
    refine MetricsRegistry.record_sameAt ?_ _ _ _ _ _
    rw [m.nodeLocked_unknownNode]
    intro hname
    exact hunnamed ⟨e, he, hname.symm⟩

theorem claims_apart_iff_sampleConfig : KeepsClaimsApart sampleServer :=
  (claims_apart_iff newServer_sampleConfig).mpr (by decide)

/-- `sampleConfig` with a node whose name is the fallback label. -/
def clashingConfig : ServerConfig :=
  { sampleConfig with
    nodes := ⟨[(unknownNode, ⟨str "alpha.test", [str "192.0.2.1"]⟩)], by decide⟩ }

def clashingServer : Server :=
  { sampleServer with
    config := clashingConfig
    nodes := Table.empty.put (str "alpha.test")
      ⟨unknownNode, str "alpha.test", (Netip.parseAddr (str "192.0.2.1")).toList⟩ }

/-- The configuration is accepted, and the first malformed payload after `Configure` counts a
failure of the configured node. -/
theorem malformed_counts_against_node :
    newServer clashingConfig = .ok clashingServer ∧
      clashingServer.nodes.entries.map (fun e => e.2.name) = [unknownNode] ∧
      ∃ (past : List MetricsCall) (m : MetricsRegistry) (c : MetricsCall) (m' : MetricsRegistry),
        exec MetricsRegistry.step (MetricsRegistry.new .server) past = some m ∧
        clashingServer.Installed past ∧ Unclaimed clashingServer.nodes malformed ∧
        Begins clashingServer.nodes (refusedEnv clashingServer malformed) ∧
        metricsCalls clashingServer.nodes 0 0 none
          ((attest (some clashingServer.nodes)).run (refusedEnv clashingServer malformed) 0).1 =
            [c] ∧
        m.step c = some m' ∧ ¬ MetricsRegistry.SameAt unknownNode m m' := by
  obtain ⟨stage, reason, hcalls⟩ := run_anonymous (refusedEnv_begins clashingServer malformed) rfl
    (malformed_unclaimed clashingServer.nodes) 0 0
  refine ⟨by rfl, by decide, [.register [unknownNode]], _, _, _, rfl, ?_,
    malformed_unclaimed _, refusedEnv_begins _ _, hcalls, rfl, ?_⟩
  · intro e he
    cases List.mem_singleton.mp he
    exact ⟨_, List.mem_singleton_self _, List.mem_singleton_self _⟩
  · exact MetricsRegistry.record_not_sameAt (MetricsRegistry.nodeLocked_unknownNode _) _ _ _ _ _

end ServerStream

end RealmFormal.NodeAttest

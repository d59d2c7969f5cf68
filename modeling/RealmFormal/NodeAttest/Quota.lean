import RealmFormal.NodeAttest.Plugin
import RealmFormal.NodeAttest.Soundness
import RealmFormal.NodeAttest.Charge

/-!
# The approval quota over generations

A server logs the times of its approvals per node and drops those that are a
minute old. The log belongs to one generation of the plugin, and a charge is refused
for what that log holds. The windows of the process are bounded exactly when no
charge finds the log of its own generation below the limit and the logs of all
generations together at it.
-/

namespace RealmFormal.NodeAttest
open Go Go.Json Transition Window
set_option autoImplicit false

/-- The node for which a step lets a call of `Verify` return a result. -/
def System.approval (s : System) : Label → Option Bytes
  | .charge c =>
    (s.calls[c]?).bind fun k => (s.attempts[k.attempt]?).bind fun a =>
      (k.charge a s.server s.now).bind fun r =>
        if r.1.progress.succeeded then some a.node.name else none
  | _ => none

/-- An approval, with the clock reading that it is charged at. -/
def Plugin.approval (p : Plugin) : PluginLabel → Option (Bytes × Int)
  | .serve n l =>
    (p.generations[n]?).bind fun g =>
      ((g.share p.metrics p.now).system.approval l).map fun name => (name, p.now)
  | _ => none

/-- The times at which a run approves a node. -/
def approvals [StatusPackage] (jose : Jose) (now : Int) (labels : List PluginLabel)
    (name : Bytes) : List Int :=
  ((trace (Plugin.step jose) Plugin.approval (.initial now) labels).filter
    fun e => decide (e.1 = name)).map Prod.snd

def Generation.log (g : Generation) (name : Bytes) : List Int := g.system.server.recent name

/-- How many approvals of the minute before `t` the logs of all generations hold. -/
def Plugin.logged (p : Plugin) (name : Bytes) (t : Int) : Nat :=
  (p.generations.map fun g => (latest minute t (g.log name)).length).sum

/-- The generation and the node that a step charges. -/
def Plugin.charges (p : Plugin) : PluginLabel → Option (Generation × Bytes)
  | .serve n (.charge c) =>
    (p.generations[n]?).bind fun g => (g.system.calls[c]?).bind fun k =>
      (g.system.attempts[k.attempt]?).map fun a => (g, a.node.name)
  | _ => none

/-! ## What the steps log -/

/-- A charge is granted for what the log of its node holds, and keeps the times that count. -/
theorem charge_cases {k k' : Call} {a : ServerAttempt} {s server : Server} {now : Int}
    (h : k.charge a s now = some (k', server)) :
    (6 ≤ (latest minute now (s.recent a.node.name)).length ∧ k'.progress.succeeded = false ∧
      server.recent =
        Function.update s.recent a.node.name (latest minute now (s.recent a.node.name))) ∨
    ((latest minute now (s.recent a.node.name)).length < 6 ∧ k'.progress.succeeded = true ∧
      server.recent =
        Function.update s.recent a.node.name (latest minute now (s.recent a.node.name) ++ [now])) := by
  unfold Call.charge at h
  split at h
  case h_2 => cases h
  rw [chargeSuccess_eq] at h
  split at h <;> rename_i hcharge <;> cases h
  · split at hcharge
    · rename_i hfull
      cases hcharge
      exact .inl ⟨hfull, rfl, rfl⟩
    · cases hcharge
  · split at hcharge
    · cases hcharge
    · rename_i hroom
      cases hcharge
      exact .inr ⟨Nat.lt_of_not_le hroom, rfl, rfl⟩

theorem charge_succeeded {k k' : Call} {a : ServerAttempt} {s server : Server} {now : Int}
    (h : k.charge a s now = some (k', server)) :
    k'.progress.succeeded = true ↔ (latest minute now (s.recent a.node.name)).length < 6 := by
  rcases charge_cases h with ⟨hfull, hrefused, -⟩ | ⟨hroom, hgranted, -⟩
  · simp [hrefused, hfull]
  · simp [hgranted, hroom]

/-- What a call adds to the log of a node that counts at `later`. -/
theorem charge_log {k k' : Call} {a : ServerAttempt} {s server : Server} {now later : Int}
    (h : k.charge a s now = some (k', server)) (hlater : now ≤ later) (name : Bytes) :
    latest minute later (server.recent name) =
      latest minute later (s.recent name) ++
        if k'.progress.succeeded ∧ a.node.name = name then latest minute later [now] else [] := by
  by_cases hname : name = a.node.name
  · subst hname
    rcases charge_cases h with ⟨-, hrefused, hlog⟩ | ⟨-, hgranted, hlog⟩
    · simp [hlog, hrefused, latest_latest hlater]
    · simp [hlog, hgranted, latest_append, latest_latest hlater]
  · have hother : server.recent name = s.recent name := by
      rcases charge_cases h with ⟨-, -, hlog⟩ | ⟨-, -, hlog⟩ <;>
        rw [hlog, Function.update_of_ne hname]
    rw [hother]
    simp [Ne.symm hname]

theorem begin_recent {s t : Server} {handle : Nat} {now : Int} {ctxErr : Option CtxErr}
    {payload : Bytes} {id nonce : Except String (List.Vector UInt8 32)} {a : ServerAttempt}
    (h : s.begin handle now ctxErr payload id nonce = .ok (a, t)) : t.recent = s.recent := by
  unfold Server.begin at h
  repeat' split at h
  all_goals cases h
  rfl

theorem remove_recent (s : Server) (handle : Nat) (a : ServerAttempt) :
    (s.remove handle a).recent = s.recent := by
  unfold Server.remove
  split <;> rfl

/-- The entry that a step adds to what counts at `later`. -/
def added (approved : Option Bytes) (now later : Int) (name : Bytes) : Nat :=
  if approved = some name then (latest minute later [now]).length else 0

section Logs
variable {jose : Jose} {m : Metrics} {now later : Int} {g g' : Generation}

theorem serve_log {l : Label} (h : (g.share m now).serve jose l = some g') (hlater : now ≤ later)
    (name : Bytes) :
    (latest minute later (g'.log name)).length =
      (latest minute later (g.log name)).length +
        added ((g.share m now).system.approval l) now later name := by
  unfold Generation.serve at h
  split at h
  case isFalse => cases h
  rename_i hl
  obtain ⟨system, hstep, rfl⟩ := Option.map_eq_some_iff.mp h
  cases step_served hl hstep with
  | idle server cards uncharged =>
    have hnone : (g.share m now).system.approval l = none := by
      cases l <;> first | rfl | exact absurd rfl (uncharged _)
    rw [Generation.log, server, hnone]
    rfl
  | begun a server ok =>
    rw [Generation.log, begin_recent ok]
    rfl
  | charged c k k' a server call attempt charge =>
    have hlog := congrArg List.length (charge_log charge hlater name)
    have happroval : (g.share m now).system.approval (.charge c) =
        if k'.progress.succeeded then some a.node.name else none := by
      simp only [System.approval, call, attempt, charge, Option.bind_some]
    rw [happroval, Generation.log, hlog, List.length_append, added]
    congr 1
    by_cases hk : k'.progress.succeeded = true <;> by_cases hname : a.node.name = name <;>
      simp [hk, hname, Generation.share]

theorem close_log {i : Nat} {caller : Closer} (h : (g.share m now).close jose i caller = some g') :
    g'.log = g.log := by
  obtain ⟨a, ha, h⟩ := Option.bind_eq_some_iff.mp h
  split at h
  case isTrue => cases h
  obtain ⟨system, hstep, rfl⟩ := Option.map_eq_some_iff.mp h
  simp only [NodeAttest.step] at hstep
  split at hstep
  case isTrue => cases hstep
  obtain ⟨b, hb, rfl⟩ := onAttempt_eq_some hstep
  rfl

theorem remove_log {i : Nat} {caller : Closer}
    (h : (g.share m now).remove jose i caller = some g') : g'.log = g.log := by
  unfold Generation.remove at h
  split at h
  case isFalse => cases h
  obtain ⟨system, hstep, rfl⟩ := Option.map_eq_some_iff.mp h
  obtain ⟨a, ha, hstep⟩ := Option.bind_eq_some_iff.mp hstep
  split at hstep
  case isFalse => cases hstep
  cases hstep
  exact remove_recent ..

end Logs

theorem newServer_recent {config : ServerConfig} {server : Server}
    (h : newServer config = .ok server) : server.recent = fun _ => [] := by
  unfold newServer at h
  repeat' split at h
  all_goals cases h
  rfl

theorem logged_set {p : Plugin} {n : Nat} {g g' : Generation} {m : Metrics}
    (hg : p.generations[n]? = some g) {name : Bytes} {later : Int} {extra : Nat}
    (h : (latest minute later (g'.log name)).length =
      (latest minute later (g.log name)).length + extra) :
    Plugin.logged { p with generations := p.generations.set n g', metrics := m } name later =
      p.logged name later + extra := by
  have hsum := sum_map_set (fun g => (latest minute later (g.log name)).length) g' hg
  simp only [Plugin.logged]
  omega

/-- A step adds its approval to the logs, as far as it counts at `later`. -/
theorem step_logged [StatusPackage] {jose : Jose} {p t : Plugin} {l : PluginLabel}
    (hstep : p.step jose l = some t) {later : Int} (hlater : p.now ≤ later) (name : Bytes) :
    t.logged name later =
      p.logged name later + added ((p.approval l).map Prod.fst) p.now later name := by
  cases l with
  | configure read core listening =>
    cases hstep
    rcases configure_eq p read core listening with heq | ⟨config, server, hnew, heq⟩
    · rw [heq]
      rfl
    · rw [heq]
      simp [Plugin.logged, Generation.log, System.start, newServer_recent hnew, latest, added,
        Plugin.approval]
  | serve n l =>
    rw [Plugin.step] at hstep
    obtain ⟨g, g', hg, hserve, rfl⟩ := onGeneration_eq_some hstep
    have happroval : (p.approval (.serve n l)).map Prod.fst =
        (g.share p.metrics p.now).system.approval l := by
      simp only [Plugin.approval, hg, Option.bind_some, Option.map_map]
      exact Option.map_id'
    rw [happroval]
    exact logged_set hg (serve_log hserve hlater name)
  | close n i caller =>
    rw [Plugin.step] at hstep
    obtain ⟨g, g', hg, hclose, rfl⟩ := onGeneration_eq_some hstep
    exact logged_set hg (by rw [close_log hclose]; rfl)
  | remove n i caller =>
    rw [Plugin.step] at hstep
    obtain ⟨g, g', hg, hremove, rfl⟩ := onGeneration_eq_some hstep
    exact logged_set hg (by rw [remove_log hremove]; rfl)
  | record node outcome =>
    cases hstep
    rfl
  | tick d =>
    cases hstep
    rfl

theorem step_now [StatusPackage] {jose : Jose} {p t : Plugin} {l : PluginLabel}
    (h : p.step jose l = some t) :
    p.now ≤ t.now := by
  cases l with
  | configure read core listening =>
    cases h
    rcases configure_eq p read core listening with heq | ⟨config, server, -, heq⟩ <;> rw [heq]
  | serve n l =>
    rw [Plugin.step] at h
    obtain ⟨g, g', -, -, rfl⟩ := onGeneration_eq_some h
    exact le_rfl
  | close n i caller =>
    rw [Plugin.step] at h
    obtain ⟨g, g', -, -, rfl⟩ := onGeneration_eq_some h
    exact le_rfl
  | remove n i caller =>
    rw [Plugin.step] at h
    obtain ⟨g, g', -, -, rfl⟩ := onGeneration_eq_some h
    exact le_rfl
  | record node outcome =>
    cases h
    exact le_rfl
  | tick d =>
    cases h
    show p.now ≤ p.now + d
    omega

/-! ## Whole runs -/

theorem approval_now {p : Plugin} {l : PluginLabel} {name : Bytes} {t : Int}
    (h : p.approval l = some (name, t)) : t = p.now := by
  cases l with
  | serve n l =>
    obtain ⟨g, -, h⟩ := Option.bind_eq_some_iff.mp h
    obtain ⟨x, -, hx⟩ := Option.map_eq_some_iff.mp h
    cases hx
    rfl
  | _ => cases h

section Runs
variable {jose : Jose} {now : Int} {labels : List PluginLabel} {p : Plugin}

theorem approvals_concat [StatusPackage]
    (h : exec (Plugin.step jose) (.initial now) labels = some p) (l : PluginLabel) (name : Bytes) :
    approvals jose now (labels ++ [l]) name =
      approvals jose now labels name ++
        if (p.approval l).map Prod.fst = some name then [p.now] else [] := by
  unfold approvals
  rw [trace_concat _ h, List.filter_append, List.map_append]
  congr 1
  cases happ : p.approval l with
  | none => simp
  | some e =>
    obtain ⟨x, t⟩ := e
    rw [approval_now happ]
    by_cases hx : x = name <;> simp [hx]

/-- The logs hold exactly the approvals that still count. -/
theorem logged_eq [StatusPackage] (h : exec (Plugin.step jose) (.initial now) labels = some p)
    (name : Bytes) :
    (∀ t ∈ approvals jose now labels name, t ≤ p.now) ∧
      ∀ later, p.now ≤ later →
        p.logged name later = (latest minute later (approvals jose now labels name)).length := by
  induction labels using List.reverseRecOn generalizing p with
  | nil =>
    cases h
    refine ⟨?_, fun _ _ => rfl⟩
    intro t ht
    cases ht
  | append_singleton labels l ih =>
    obtain ⟨m, hm, hstep⟩ := exec_concat_iff.mp h
    obtain ⟨hpast, hlogged⟩ := ih hm
    have hnow := step_now hstep
    rw [approvals_concat hm]
    refine ⟨?_, ?_⟩
    · intro t ht
      rcases List.mem_append.mp ht with ht | ht
      · exact (hpast t ht).trans hnow
      · split at ht
        · rw [List.mem_singleton.mp ht]
          exact hnow
        · cases ht
    · intro later hlater
      rw [step_logged hstep (hnow.trans hlater), hlogged later (hnow.trans hlater), latest_append,
        List.length_append, added]
      split <;> rfl

end Runs

/-- A step approves the node exactly when it charges a generation whose log is below the limit. -/
theorem approval_iff [StatusPackage] {jose : Jose} {p t : Plugin} {l : PluginLabel} {name : Bytes}
    (hstep : p.step jose l = some t) :
    (p.approval l).map Prod.fst = some name ↔
      ∃ g, p.charges l = some (g, name) ∧ (latest minute p.now (g.log name)).length < 6 := by
  cases l with
  | serve n l =>
    cases l with
    | charge c =>
      rw [Plugin.step] at hstep
      obtain ⟨g, g', hg, hserve, -⟩ := onGeneration_eq_some hstep
      obtain ⟨system, hsystem, -⟩ := Option.map_eq_some_iff.mp hserve
      obtain ⟨k, a, k', server, hk, ha, hcharge, -⟩ := onCall_eq_some hsystem
      have hgranted := charge_succeeded hcharge
      have happroval : (p.approval (.serve n (.charge c))).map Prod.fst =
          if k'.progress.succeeded then some a.node.name else none := by
        simp only [Plugin.approval, hg, Option.bind_some, System.approval, hk, ha, hcharge]
        split <;> rfl
      have hcharges : p.charges (.serve n (.charge c)) = some (g, a.node.name) := by
        simp only [Plugin.charges, hg, Option.bind_some]
        rw [show g.system.calls[c]? = some k from hk, Option.bind_some,
          show g.system.attempts[k.attempt]? = some a from ha, Option.map_some]
      rw [happroval, hcharges]
      constructor
      · intro h
        split at h
        · rename_i hok
          cases h
          exact ⟨g, rfl, hgranted.mp hok⟩
        · cases h
      · rintro ⟨_, heq, hroom⟩
        cases heq
        rw [if_pos (hgranted.mpr hroom)]
    | _ => simp [Plugin.approval, System.approval, Plugin.charges]
  | _ => simp [Plugin.approval, Plugin.charges]

/-- When the step charges the node and the log of the charged generation is below the limit, the
logs of all generations together are. -/
def Spaced (name : Bytes) (p : Plugin) (l : PluginLabel) : Prop :=
  ∀ charged ∈ p.charges l, charged.2 = name →
    (latest minute p.now (charged.1.log name)).length < 6 → p.logged name p.now < 6

instance (name : Bytes) (p : Plugin) (l : PluginLabel) : Decidable (Spaced name p l) :=
  inferInstanceAs (Decidable (∀ charged ∈ p.charges l, _))

theorem spaced_iff [StatusPackage] {jose : Jose} {p t : Plugin} {l : PluginLabel} {name : Bytes}
    (hstep : p.step jose l = some t) :
    Spaced name p l ↔ ((p.approval l).map Prod.fst = some name → p.logged name p.now < 6) := by
  rw [approval_iff hstep]
  constructor
  · rintro hspaced ⟨g, hcharges, hroom⟩
    exact hspaced (g, name) hcharges rfl hroom
  · rintro h ⟨g, x⟩ hcharges rfl hroom
    exact h ⟨g, hcharges, hroom⟩

/-- A run of the plugin approves a node at most six times in every minute exactly when each charge
of the node that finds the log of its own generation below the limit finds the logs of all
generations together below it. -/
theorem quota_window_iff [StatusPackage] {jose : Jose} {now : Int} {labels : List PluginLabel}
    {p : Plugin} (hrun : exec (Plugin.step jose) (.initial now) labels = some p) (name : Bytes) :
    (∀ w, within minute w (approvals jose now labels name) ≤ 6) ↔
      Along (Plugin.step jose) (Spaced name) (.initial now) labels := by
  induction labels using List.reverseRecOn generalizing p with
  | nil => exact ⟨fun _ => trivial, fun _ _ => Nat.zero_le _⟩
  | append_singleton labels l ih =>
    obtain ⟨m, hm, hstep⟩ := exec_concat_iff.mp hrun
    obtain ⟨hpast, hlogged⟩ := logged_eq hm name
    rw [along_concat_iff hm, ← ih hm, approvals_concat hm, spaced_iff hstep]
    split
    · rename_i happroved
      rw [within_concat_le_iff (by decide) hpast, hlogged m.now le_rfl]
      simp [happroved]
    · rename_i hother
      simp [hother]

/-- One whole attestation: attempt and call `i` of generation `n`, with random values `b`. -/
def sampleAttestation (n i : Nat) (b : UInt8) : List PluginLabel :=
  let c := { sampleChallenge with
    id := randomValue (sampleRandom b), nonce := randomValue (sampleRandom b) }
  let proof : ProofDocument := ⟨sampleRequest.bootstrapJWK,
    (sampleJose.sign [] (encode c.value)).getD []⟩
  [.serve n (.begin none (encode sampleRequest.value) (.ok (sampleRandom b))
      (.ok (sampleRandom b))),
    .serve n (.verify i (encode (Ready.value ⟨1, c.id⟩))), .serve n (.accept i),
    .serve n (.exchange i (.v4 ⟨[192, 0, 2, 1], by decide⟩)
      (.response 200 [] (encode proof.value) false)),
    .serve n (.check i), .serve n (.recheck i), .serve n (.charge i)]

def sampleConfigure : PluginLabel := .configure (.ok sampleConfig) (str "realm.test") true

/-- Six approvals, a new configuration, and a seventh approval. -/
def sampleSeven : List PluginLabel :=
  sampleConfigure :: (List.range 6).flatMap (fun i => sampleAttestation 0 i (UInt8.ofNat i)) ++
    sampleConfigure :: sampleAttestation 1 0 6

def sampleOne : List PluginLabel := sampleConfigure :: sampleAttestation 0 0 0

/-- Both sample runs at once: their attempts share one thumbprint. -/
theorem sampleApprovals :
    ((exec (Plugin.step sampleJose) (.initial 0) sampleSeven).isSome = true ∧
      within minute 0 (approvals sampleJose 0 sampleSeven (str "alpha")) = 7) ∧
    (exec (Plugin.step sampleJose) (.initial 0) sampleOne).isSome = true ∧
      approvals sampleJose 0 sampleOne (str "alpha") = [0] ∧
      Along (Plugin.step sampleJose) (Spaced (str "alpha")) (.initial 0) sampleOne := by
  decide +kernel

/-- The seventh approval within one minute: the new configuration has a log of its own. -/
theorem seven_approvals :
    (exec (Plugin.step sampleJose) (.initial 0) sampleSeven).isSome = true ∧
      within minute 0 (approvals sampleJose 0 sampleSeven (str "alpha")) = 7 :=
  sampleApprovals.1

theorem quota_window_iff_sampleOne :
    ∃ p, exec (Plugin.step sampleJose) (.initial 0) sampleOne = some p ∧
      approvals sampleJose 0 sampleOne (str "alpha") = [0] ∧
      ∀ w, within minute w (approvals sampleJose 0 sampleOne (str "alpha")) ≤ 6 := by
  obtain ⟨-, hruns, happrovals, hspaced⟩ := sampleApprovals
  obtain ⟨p, hp⟩ := Option.isSome_iff_exists.mp hruns
  exact ⟨p, hp, happrovals, (quota_window_iff hp (str "alpha")).mpr hspaced⟩

end RealmFormal.NodeAttest

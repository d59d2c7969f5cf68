import RealmFormal.IdentityMetrics.Admin

/-!
# Expiry of the aliases

An alias may expire at any second that fits in 64 bits, but `time.Unix` keeps only
those up to `lastUnix`. A later one wraps around to a time before all others, and a
valid alias counts as expired.
-/

namespace RealmFormal.IdentityMetrics
open Go Go.Json
set_option autoImplicit false

/-- The `expires_at` of the entry, if it sets one. -/
def finiteExpiry (raw : Bytes) : Option Int :=
  (unmarshalEntries raw).bind fun entry =>
    if entry.expires = [] ∨ entry.expires = str "0" then none else parseInt64 entry.expires

/-- A valid alias without an expiry has the zero time; with one it has the time of a second that
is still ahead. -/
theorem aliasMetadata_valid {raw : Bytes} {c : Settings} {node : Bytes} {now : Time}
    (h : (aliasMetadata raw c node now).2 = true) :
    (finiteExpiry raw = none ∧ (aliasMetadata raw c node now).1 = .zero) ∨
      ∃ expiry, finiteExpiry raw = some expiry ∧ now.unix < expiry ∧
        (aliasMetadata raw c node now).1 = Time.ofUnix expiry := by
  unfold aliasMetadata at h ⊢
  cases hentry : unmarshalEntries raw with
  | none => simp [hentry] at h
  | some entry =>
    simp only [hentry] at h ⊢
    simp only [finiteExpiry, hentry, Option.bind_some]
    unfold EntryRecord.expiry at h ⊢
    by_cases hunset : entry.expires = [] ∨ entry.expires = str "0"
    · left
      simp [hunset]
    · right
      simp only [if_neg hunset] at h ⊢
      cases hparse : parseInt64 entry.expires with
      | none => simp [hparse] at h
      | some expiry =>
        simp only [hparse] at h ⊢
        by_cases hpast : expiry ≤ now.unix
        · simp [hpast] at h
        · refine ⟨expiry, rfl, by omega, ?_⟩
          simp [hpast]

theorem earlier_unexpired {a b now : Time} (ha : Unexpired a now) (hb : Unexpired b now) :
    Unexpired (earlier a b) now := by
  unfold earlier
  split
  · exact ha
  · split
    · exact hb
    · exact ha

/-- The expiry of a valid alias is ahead and stands for its second unless it wraps around. -/
theorem aliasMetadata_kept {raw : Bytes} {c : Settings} {node : Bytes} {now : Time} {expiry : Int}
    (h : (aliasMetadata raw c node now).2 = true) (hexpiry : finiteExpiry raw = some expiry) :
    (now.before (aliasMetadata raw c node now).1 = true ∧
      (aliasMetadata raw c node now).1.wall = expiry * second) ↔ expiry ≤ lastUnix := by
  have hfits : FitsInt64 expiry := by
    obtain ⟨entry, -, hentry⟩ := Option.bind_eq_some_iff.mp hexpiry
    split at hentry
    · cases hentry
    · exact parseInt64_fits hentry
  rcases aliasMetadata_valid h with ⟨hnone, -⟩ | ⟨expiry', hsome, hahead, htime⟩
  · rw [hnone] at hexpiry
    cases hexpiry
  · rw [hexpiry] at hsome
    cases hsome
    rw [htime, Time.ofUnix_wall_iff hfits]
    refine ⟨And.right, fun hlast => ⟨?_, hlast⟩⟩
    apply (Time.before_iff_wall rfl).mpr
    rw [(Time.ofUnix_wall_iff hfits).mpr hlast]
    exact Time.wall_lt hahead

theorem aliasMetadata_unexpired {raw : Bytes} {c : Settings} {node : Bytes} {now : Time}
    (h : (aliasMetadata raw c node now).2 = true)
    (hlast : ∀ expiry, finiteExpiry raw = some expiry → expiry ≤ lastUnix) :
    Unexpired (aliasMetadata raw c node now).1 now := by
  intro hzero
  rcases aliasMetadata_valid h with ⟨-, htime⟩ | ⟨expiry, hexpiry, -, -⟩
  · rw [htime] at hzero
    exact absurd hzero (by decide)
  · exact ((aliasMetadata_kept h hexpiry).mpr (hlast expiry hexpiry)).1

/-! ## A collection of valid aliases -/

def validSample (call : Bytes × Answer) : Sample :=
  ⟨.aliasMatches, [(str "node", call.1)], 1⟩

theorem foldl_aliasStep {c : Settings} {now : Time} {calls : List (Bytes × Answer)}
    (hvalid : ∀ call ∈ calls, call.2.err = none ∧
      (aliasMetadata call.2.raw c call.1 call.2.now).2 = true)
    (hlive : ∀ call ∈ calls, Unexpired (aliasMetadata call.2.raw c call.1 call.2.now).1 now)
    {o : Outcome} (ho : Unexpired o.validUntil now) :
    (calls.foldl (aliasStep c) o).samples = o.samples ++ calls.map validSample ∧
      (calls.foldl (aliasStep c) o).err = o.err ∧
      Unexpired (calls.foldl (aliasStep c) o).validUntil now := by
  induction calls generalizing o with
  | nil => exact ⟨by simp, rfl, ho⟩
  | cons call calls ih =>
    rw [List.forall_mem_cons] at hvalid hlive
    have hstep : aliasStep c o call =
        { o with
          samples := o.samples ++ [validSample call]
          validUntil :=
            earlier o.validUntil (aliasMetadata call.2.raw c call.1 call.2.now).1 } := by
      simp [aliasStep, validSample, hvalid.1.1, hvalid.1.2, boolFloat]
    have hnext : Unexpired (aliasStep c o call).validUntil now := by
      rw [hstep]
      exact earlier_unexpired ho hlive.1
    obtain ⟨hsamples, herr, hunexpired⟩ := ih hvalid.2 hlive.2 hnext
    rw [List.foldl_cons]
    refine ⟨?_, ?_, hunexpired⟩
    · rw [hsamples, hstep]
      simp
    · rw [herr, hstep]

/-- The indicator of an alias stays as collected while the collector has not expired. -/
theorem refresh_validSample {s : CollectorState} {now : Time} (h : Unexpired s.validUntil now)
    (call : Bytes × Answer) : refresh s now (validSample call) = validSample call := by
  have hvalue : (refresh s now (validSample call)).value =
      if s.validUntil.isZero = false ∧ now.before s.validUntil = false then 0
      else (validSample call).value := refresh_alias rfl
  have hunexpired : ¬ (s.validUntil.isZero = false ∧ now.before s.validUntil = false) := by
    rintro ⟨hzero, hpast⟩
    rw [h hzero] at hpast
    cases hpast
  rw [if_neg hunexpired] at hvalue
  have hname : (refresh s now (validSample call)).name = .aliasMatches := refresh_name _
  have hlabels : (refresh s now (validSample call)).labels = [(str "node", call.1)] :=
    refresh_labels _
  cases hrefreshed : refresh s now (validSample call)
  rw [hrefreshed] at hvalue hname hlabels
  cases hvalue
  cases hname
  cases hlabels
  rfl

theorem recent_self {now : Time} (h : now.isZero = false) : Recent now now := by
  refine ⟨h, ?_⟩
  have hdiff : now.diff now = 0 := by
    unfold Time.diff
    cases now.mono <;> simp
  rw [Time.sub, hdiff]
  decide

/-- At the moment of a collection whose aliases are all valid, the expiries are as announced, the
collector is successful and every indicator is 1, exactly if no expiry wraps around. -/
theorem alias_expiry_iff (c : Settings) (s : CollectorState) (calls : List (Bytes × Answer))
    (now : Time) (hmoment : ∀ call ∈ calls, call.2.now = now)
    (hvalid : ∀ call ∈ calls, call.2.err = none ∧
      (aliasMetadata call.2.raw c call.1 now).2 = true) :
    ((∀ call ∈ calls, ∀ expiry, finiteExpiry call.2.raw = some expiry →
        now.before (aliasMetadata call.2.raw c call.1 now).1 = true ∧
          (aliasMetadata call.2.raw c call.1 now).1.wall = expiry * second) ∧
      successful (s.record (collectAliases c calls) now) now = true ∧
      currentSamples (s.record (collectAliases c calls) now) now = calls.map validSample) ↔
    now.isZero = false ∧
      ∀ call ∈ calls, ∀ expiry, finiteExpiry call.2.raw = some expiry → expiry ≤ lastUnix := by
  constructor
  · rintro ⟨hexpiries, hsuccessful, -⟩
    refine ⟨(successful_iff.mp hsuccessful).2.1.1, fun call hcall expiry hexpiry => ?_⟩
    exact (aliasMetadata_kept (hvalid call hcall).2 hexpiry).mp (hexpiries call hcall expiry hexpiry)
  · rintro ⟨hnow, hlast⟩
    have hkept : ∀ call ∈ calls, ∀ expiry, finiteExpiry call.2.raw = some expiry →
        now.before (aliasMetadata call.2.raw c call.1 now).1 = true ∧
          (aliasMetadata call.2.raw c call.1 now).1.wall = expiry * second :=
      fun call hcall expiry hexpiry =>
        (aliasMetadata_kept (hvalid call hcall).2 hexpiry).mpr (hlast call hcall expiry hexpiry)
    have hlive : ∀ call ∈ calls, Unexpired (aliasMetadata call.2.raw c call.1 call.2.now).1 now := by
      intro call hcall
      rw [hmoment call hcall]
      exact aliasMetadata_unexpired (hvalid call hcall).2 (hlast call hcall)
    have hvalid' : ∀ call ∈ calls, call.2.err = none ∧
        (aliasMetadata call.2.raw c call.1 call.2.now).2 = true := by
      intro call hcall
      rw [hmoment call hcall]
      exact hvalid call hcall
    have hzero : Unexpired Time.zero now := fun h => absurd h (by decide)
    obtain ⟨hsamples, herr, hunexpired⟩ := foldl_aliasStep (o := ⟨str "aliases", [], none, .zero⟩)
      hvalid' hlive hzero
    have hrecent : Recent (s.record (collectAliases c calls) now).completed now := recent_self hnow
    have hsuccess : (s.record (collectAliases c calls) now).success = true := by
      show (collectAliases c calls).err.isNone = true
      rw [collectAliases, herr]
      rfl
    refine ⟨hkept, successful_iff.mpr ⟨hsuccess, hrecent, hunexpired⟩, ?_⟩
    rw [currentSamples, if_pos (fresh_iff.mpr hrecent)]
    show (collectAliases c calls).samples.map _ = _
    rw [collectAliases, hsamples, List.nil_append, List.map_map]
    exact List.map_congr_left fun call _ => refresh_validSample hunexpired call

/-! ## An expiry that wraps around -/

def serverSettings : Settings where
  node := str "eihort"
  trustDomain := str "d"
  listenAddress := str "127.0.0.1:18494"
  bundlePath := str "/b"
  serverAddress := str "s:8081"
  workloadSocket := str "/w"
  serverAdminSocket := str "/a"
  spireServerBinary := str "/spire-server"
  nodes := [str "n"]
  systemctlBinary := []
  workloads := []

/-- The entry of the alias of node `n`. -/
def sampleAlias (expires : String) : Bytes :=
  str "\x7b\"entries\":[\x7b\"spiffe_id\":\x7b\"trust_domain\":\"d\",\"path\":\"/agent/n\"\x7d," ++
    str "\"parent_id\":\x7b\"trust_domain\":\"d\",\"path\":\"/spire/agent/http_fqdn/n\"\x7d," ++
    str "\"selectors\":[\x7b\"type\":\"spiffe_id\"," ++
    str "\"value\":\"spiffe://d/spire/agent/http_fqdn/n\"\x7d],\"expires_at\":\"" ++
    str expires ++ str "\"\x7d]\x7d"

def aliasMoment : Time := ⟨1700000000 * second, none⟩

/-- The last second of 64 bits is accepted as an expiry that is ahead, and becomes a time that is
past. -/
theorem alias_expiry_wraps :
    (aliasMetadata (sampleAlias "9223372036854775807") serverSettings (str "n") aliasMoment).2 =
        true ∧
      finiteExpiry (sampleAlias "9223372036854775807") = some 9223372036854775807 ∧
      aliasMoment.before (aliasMetadata (sampleAlias "9223372036854775807") serverSettings
        (str "n") aliasMoment).1 = false ∧
      successful (CollectorState.zero.record (collectAliases serverSettings
        [(str "n", ⟨sampleAlias "9223372036854775807", none, aliasMoment⟩)]) aliasMoment)
          aliasMoment = false := by
  decide +kernel

theorem alias_expiry_iff_sampleAlias :
    successful (CollectorState.zero.record (collectAliases serverSettings
      [(str "n", ⟨sampleAlias "1700000001", none, aliasMoment⟩)]) aliasMoment)
        aliasMoment = true := by
  obtain ⟨hvalid, hexpiry⟩ : (aliasMetadata (sampleAlias "1700000001") serverSettings (str "n")
      aliasMoment).2 = true ∧ finiteExpiry (sampleAlias "1700000001") = some 1700000001 := by
    decide +kernel
  refine ((alias_expiry_iff serverSettings .zero
    [(str "n", ⟨sampleAlias "1700000001", none, aliasMoment⟩)] aliasMoment ?_ ?_).mpr
      ⟨by decide, ?_⟩).2.1
  · simp
  · simp [hvalid]
  · simp [hexpiry, lastUnix]

end RealmFormal.IdentityMetrics

import RealmFormal.IdentityMetrics.Aliases
import RealmFormal.IdentityMetrics.Exposition

/-!
# Well-formed expositions

For accepted settings, and for results that the collectors build, the samples of
every scrape are of different series and all label values are written verbatim.
-/

namespace RealmFormal.IdentityMetrics
open Go Lines
set_option autoImplicit false

/-! ## Accepted settings -/

/-- Letters, digits and the other characters of nodes, units and SPIFFE IDs. -/
def isNameByte (b : UInt8) : Bool := isAlnum b || decide (b ∈ str "_.@:-/")

theorem isVerbatim_of_isNameByte {b : UInt8} (h : isNameByte b = true) : isVerbatim b = true := by
  have hall : ∀ n < 256, isNameByte (UInt8.ofNat n) = true → isVerbatim (UInt8.ofNat n) = true := by
    decide +kernel
  have hb := hall b.toNat b.toNat_lt
  rw [UInt8.ofNat_toNat] at hb
  exact hb h

theorem verbatim_of_names {s : Bytes} (h : ∀ b ∈ s, isNameByte b = true) : Verbatim s :=
  fun b hb => isVerbatim_of_isNameByte (h b hb)

def isTrustDomainByte (b : UInt8) : Bool := isLower b || isDigit b || decide (b ∈ str "_.-")

def isPathByte (b : UInt8) : Bool := isAlnum b || decide (b ∈ str "_.-/")

/-- The characters that the SPIFFE library documents for what it accepts. -/
structure SpiffeCharacters (trustDomainFromString : Bytes → Option Bytes)
    (fromString : Bytes → Option SpiffeID) : Prop where
  trustDomain : ∀ s td, trustDomainFromString s = some td → ∀ b ∈ td, isTrustDomainByte b = true
  id : ∀ s id, fromString s = some id → ∃ td path, id.text = str "spiffe://" ++ td ++ path ∧
    (∀ b ∈ td, isTrustDomainByte b = true) ∧ ∀ b ∈ path, isPathByte b = true

theorem isNameByte_of_trustDomain {b : UInt8} (h : isTrustDomainByte b = true) :
    isNameByte b = true := by
  have hmem : ∀ b ∈ str "_.-", b ∈ str "_.@:-/" := by decide +kernel
  simp only [isTrustDomainByte, isNameByte, isAlnum, Bool.or_eq_true, decide_eq_true_eq] at h ⊢
  rcases h with (h | h) | h
  · exact Or.inl (Or.inl (Or.inr h))
  · exact Or.inl (Or.inr h)
  · exact Or.inr (hmem b h)

theorem isNameByte_of_path {b : UInt8} (h : isPathByte b = true) : isNameByte b = true := by
  have hmem : ∀ b ∈ str "_.-/", b ∈ str "_.@:-/" := by decide +kernel
  simp only [isPathByte, isNameByte, Bool.or_eq_true, decide_eq_true_eq] at h ⊢
  exact h.imp_right (hmem b)

theorem isNameByte_of_node {b : UInt8} (h : isNodeByte b = true) : isNameByte b = true := by
  have hdot : chr '.' ∈ str "_.@:-/" := by decide
  have hdash : chr '-' ∈ str "_.@:-/" := by decide
  simp only [isNodeByte, isNodeEnd, isNameByte, isAlnum, Bool.or_eq_true, decide_eq_true_eq] at h ⊢
  rcases h with (h | h) | rfl | rfl
  · exact Or.inl (Or.inl (Or.inr h))
  · exact Or.inl (Or.inr h)
  · exact Or.inr hdot
  · exact Or.inr hdash

theorem nodeMatch_bytes {s : Bytes} (h : nodeMatch s = true) : ∀ b ∈ s, isNodeByte b = true := by
  have hend : ∀ b, isNodeEnd b = true → isNodeByte b = true := by
    intro b hb
    rw [isNodeByte, hb, Bool.true_or]
  cases s with
  | nil => exact List.forall_mem_nil _
  | cons c rest =>
    simp only [nodeMatch, Bool.and_eq_true, Bool.or_eq_true, decide_eq_true_eq] at h
    obtain ⟨hc, hrest⟩ := h
    refine List.forall_mem_cons.mpr ⟨hend c hc, ?_⟩
    rcases hrest with rfl | ⟨⟨-, hlast⟩, hinit⟩
    · exact List.forall_mem_nil _
    · obtain ⟨last, hget, hlast⟩ := (Option.any_eq_true _ _).mp hlast
      have hsplit : rest.dropLast ++ [last] = rest := List.dropLast_append_getLast? last hget
      rw [← hsplit]
      exact List.forall_mem_append.mpr
        ⟨List.all_eq_true.mp hinit, List.forall_mem_singleton.mpr (hend last hlast)⟩

theorem validNode_verbatim {node : Bytes} (h : validNode node = true) : Verbatim node := by
  rw [validNode, Bool.and_eq_true] at h
  exact verbatim_of_names fun b hb => isNameByte_of_node (nodeMatch_bytes h.1 b hb)

theorem validNodes_spec {seen nodes : List Bytes} (h : validNodes seen nodes = true) :
    nodes.Nodup ∧ ∀ node ∈ nodes, validNode node = true ∧ node ∉ seen := by
  induction nodes generalizing seen with
  | nil => exact ⟨List.nodup_nil, List.forall_mem_nil _⟩
  | cons node nodes ih =>
    simp only [validNodes, Bool.and_eq_true, decide_eq_true_eq] at h
    obtain ⟨⟨hvalid, hnew⟩, hrest⟩ := h
    obtain ⟨hnodup, hnodes⟩ := ih hrest
    refine ⟨List.nodup_cons.mpr ⟨?_, hnodup⟩, List.forall_mem_cons.mpr ⟨⟨hvalid, hnew⟩, ?_⟩⟩
    · intro hmem
      exact (hnodes node hmem).2 List.mem_cons_self
    · intro other hother
      obtain ⟨hvalidOther, hseen⟩ := hnodes other hother
      exact ⟨hvalidOther, fun hmem => hseen (List.mem_cons_of_mem _ hmem)⟩

theorem unitMatch_verbatim {unit : Bytes} (h : unitMatch unit = true) : Verbatim unit := by
  have hmem : ∀ b ∈ str "_.@:-", b ∈ str "_.@:-/" := by decide +kernel
  have hsuffix : Verbatim (str ".service") := by decide +kernel
  rw [unitMatch, Bool.and_eq_true] at h
  obtain ⟨hservice, hname⟩ := h
  obtain ⟨name, rfl⟩ := List.isSuffixOf_iff_suffix.mp hservice
  have hlength : (name ++ str ".service").length - 8 = name.length := by
    have height : (str ".service").length = 8 := by decide
    rw [List.length_append, height]
    omega
  rw [hlength, List.take_left] at hname
  refine Verbatim.append ?_ hsuffix
  apply verbatim_of_names
  split at hname
  · cases hname
  · rename_i c rest
    rw [Bool.and_eq_true, List.all_eq_true] at hname
    refine List.forall_mem_cons.mpr ⟨by rw [isNameByte, hname.1, Bool.true_or], ?_⟩
    intro b hb
    have hb' := hname.2 b hb
    simp only [isNameByte, Bool.or_eq_true, decide_eq_true_eq] at hb' ⊢
    exact hb'.imp_right (hmem b)

theorem validateTargets_each {fromString : Bytes → Option SpiffeID} {trustDomain : Bytes}
    {units addresses : List Bytes} {targets : List DeclaredTarget}
    (h : validateTargets fromString trustDomain units addresses targets = .ok ()) :
    ∀ t ∈ targets, ∃ us as, validateTarget fromString trustDomain us as t = .ok () := by
  induction targets generalizing units addresses with
  | nil => exact List.forall_mem_nil _
  | cons target rest ih =>
    rw [validateTargets] at h
    split at h
    · cases h
    · rename_i htarget
      exact List.forall_mem_cons.mpr ⟨⟨units, addresses, htarget⟩, ih h⟩

theorem passed_ok {p : Prop} [Decidable p] {e : String} {rest : Except String Unit}
    (h : (if p then .error e else rest) = .ok ()) : ¬ p ∧ rest = .ok () := by
  split at h
  · cases h
  · rename_i hp
    exact ⟨hp, h⟩

/-- What the labels take from the settings. -/
structure Settings.Clean (c : Settings) : Prop where
  node : Verbatim c.node
  trustDomain : Verbatim c.trustDomain
  nodup : c.nodes.Nodup
  nodes : ∀ node ∈ c.nodes, Verbatim node
  units : (c.workloads.map fun t => t.unit).Nodup
  targets : ∀ t ∈ c.workloads, Verbatim t.unit ∧ Verbatim t.identity ∧ Verbatim t.source

section Validated
variable {trustDomainFromString : Bytes → Option Bytes} {fromString : Bytes → Option SpiffeID}

theorem validateTarget_clean (hspiffe : SpiffeCharacters trustDomainFromString fromString)
    {trustDomain : Bytes} {units addresses : List Bytes} {t : DeclaredTarget}
    (h : validateTarget fromString trustDomain units addresses t = .ok ()) :
    Verbatim t.unit ∧ Verbatim t.identity ∧ Verbatim t.source := by
  have htexts : Verbatim (str "spiffe://") ∧ Verbatim sourceGhostunnel ∧ Verbatim sourceCaddy := by
    decide +kernel
  obtain ⟨hscheme, hghostunnel, hcaddy⟩ := htexts
  obtain ⟨hunit, h⟩ := passed_ok h
  obtain ⟨hidentity, h⟩ := passed_ok h
  obtain ⟨-, h⟩ := passed_ok h
  rw [not_or, not_or, not_not] at hunit
  rw [not_not, Option.any_eq_true] at hidentity
  obtain ⟨id, hid, hdecide⟩ := hidentity
  obtain ⟨-, htext, -⟩ := of_decide_eq_true hdecide
  obtain ⟨td, path, hparts, htd, hpath⟩ := hspiffe.id _ id hid
  refine ⟨unitMatch_verbatim hunit.2.1, ?_, ?_⟩
  · rw [← htext, hparts]
    refine (hscheme.append ?_).append ?_
    · exact verbatim_of_names fun b hb => isNameByte_of_trustDomain (htd b hb)
    · exact verbatim_of_names fun b hb => isNameByte_of_path (hpath b hb)
  · split at h
    · rename_i hsource
      rcases hsource with hsource | hsource
      · rw [hsource]
        exact hghostunnel
      · rw [hsource]
        exact hcaddy
    · cases h

theorem validate_clean (hspiffe : SpiffeCharacters trustDomainFromString fromString) {c : Settings}
    (h : c.validate trustDomainFromString fromString = .ok ()) : c.Clean := by
  unfold Settings.validate at h
  dsimp only at h
  obtain ⟨hnode, h⟩ := passed_ok h
  obtain ⟨hdomain, h⟩ := passed_ok h
  obtain ⟨-, h⟩ := passed_ok h
  obtain ⟨-, h⟩ := passed_ok h
  obtain ⟨-, h⟩ := passed_ok h
  obtain ⟨-, h⟩ := passed_ok h
  obtain ⟨-, h⟩ := passed_ok h
  obtain ⟨hnodes, h⟩ := passed_ok h
  obtain ⟨-, h⟩ := passed_ok h
  obtain ⟨-, h⟩ := passed_ok h
  rw [not_or, ne_eq, not_not] at hdomain
  obtain ⟨hnodup, hvalid⟩ := validNodes_spec (not_not.mp hnodes)
  have hunits := validateWorkloads_units h
  obtain ⟨-, h⟩ := passed_ok h
  obtain ⟨-, h⟩ := passed_ok h
  obtain ⟨-, h⟩ := passed_ok h
  constructor
  case node => exact validNode_verbatim (not_not.mp hnode)
  case trustDomain =>
    exact verbatim_of_names fun b hb =>
      isNameByte_of_trustDomain (hspiffe.trustDomain _ _ hdomain.1 b hb)
  case nodup => exact hnodup
  case nodes => exact fun node hmem => validNode_verbatim (hvalid node hmem).1
  case units => exact hunits
  case targets =>
    intro t ht
    obtain ⟨us, as, htarget⟩ := validateTargets_each h t ht
    exact validateTarget_clean hspiffe htarget

end Validated

theorem Settings.Clean.canaryID {c : Settings} (h : c.Clean) : Verbatim c.canaryID := by
  have htexts : Verbatim (str "spiffe://") ∧ Verbatim (str "/observer/identity/") := by
    decide +kernel
  exact ((htexts.1.append h.trustDomain).append htexts.2).append h.node

theorem Settings.Clean.aliasID {c : Settings} (h : c.Clean) {node : Bytes} (hnode : Verbatim node) :
    Verbatim (c.aliasID node) := by
  have htexts : Verbatim (str "spiffe://") ∧ Verbatim (str "/agent/") := by decide +kernel
  exact ((htexts.1.append h.trustDomain).append htexts.2).append hnode

/-! ## Results -/

/-- The fingerprint of a certificate is a digest of its bytes. -/
def Certificate.Hashed (cert : Certificate) : Prop :=
  ∃ raw, cert.fingerprint = encodeToString (Sha.sum256 raw)

/-- The results that the collectors build. -/
inductive Built (c : Settings) : Outcome → Prop where
  | bundle (file : Option (List (Except String Certificate))) (now : Time)
      (hashed : ∀ blocks cert, file = some blocks → .ok cert ∈ blocks → cert.Hashed) :
      Built c (bundleOutcome c.node (loadBundle file) now)
  | bootstrap (loaded : Except String (List Certificate)) (probe : Except String Time) :
      Built c (bootstrapOutcome loaded probe)
  | canary (memory : CanaryMemory) (result : CanaryResult) (checked now : Time) :
      Built c (canaryOutcome c memory result checked now).1
  | agents (answer : Answer) : Built c (collectAgents c answer)
  | aliases (calls : List (Bytes × Answer)) (nodes : calls.map Prod.fst = c.nodes) :
      Built c (collectAliases c calls)
  | workloads (received : List HolderObservation) : Built c (workloadsOutcome received)
  | unavailable (e : Exporter) (meets : DeclaredTarget → Circumstances) (err : String) :
      Built c (workloadsUnavailable e c.workloads meets err).2

/-- The samples are of different series, all of this collector. -/
structure Owned (name : Bytes) (samples : List Sample) : Prop where
  distinct : (samples.map Sample.series).Nodup
  place : ∀ m ∈ samples, place m.series = .result name
  proper : ∀ m ∈ samples, m.Proper

theorem owned_nil (name : Bytes) : Owned name [] :=
  ⟨List.nodup_nil, List.forall_mem_nil _, List.forall_mem_nil _⟩

theorem nodup_series {samples : List Sample} (h : (samples.map Sample.name).Nodup) :
    (samples.map Sample.series).Nodup := by
  have hnames : ((samples.map Sample.series).map Prod.fst).Nodup := by
    rw [List.map_map]
    exact h
  exact hnames.of_map

theorem owned_of_names {name : Bytes} {samples : List Sample}
    (hnames : (samples.map Sample.name).Nodup)
    (hsamples : ∀ m ∈ samples, place m.series = .result name ∧ m.Proper) : Owned name samples :=
  ⟨nodup_series hnames, fun m hm => (hsamples m hm).1, fun m hm => (hsamples m hm).2⟩

/-- Blocks of samples that the values of one label tell apart. -/
theorem owned_blocks {α : Type} {name : Bytes} (key : Bytes) (value : α → Bytes) {items : List α}
    {block : α → List Sample} (hvalues : (items.map value).Nodup)
    (hnames : ∀ x ∈ items, ((block x).map Sample.name).Nodup)
    (hblock : ∀ x ∈ items, ∀ m ∈ block x,
      m.label key = value x ∧ place m.series = .result name ∧ m.Proper) :
    Owned name (items.flatMap block) := by
  have hmem : ∀ m ∈ items.flatMap block, place m.series = .result name ∧ m.Proper := by
    intro m hm
    obtain ⟨x, hx, hm⟩ := List.mem_flatMap.mp hm
    exact (hblock x hx m hm).2
  refine ⟨nodup_blocks key value hvalues hnames ?_, fun m hm => (hmem m hm).1,
    fun m hm => (hmem m hm).2⟩
  exact fun x hx m hm => (hblock x hx m hm).1

theorem Owned.append {name : Bytes} {xs ys : List Sample} (hxs : Owned name xs)
    (hys : Owned name ys) (hnames : ∀ m ∈ xs, ∀ n ∈ ys, m.name ≠ n.name) :
    Owned name (xs ++ ys) := by
  refine ⟨?_, List.forall_mem_append.mpr ⟨hxs.place, hys.place⟩,
    List.forall_mem_append.mpr ⟨hxs.proper, hys.proper⟩⟩
  rw [List.map_append, List.nodup_append]
  refine ⟨hxs.distinct, hys.distinct, ?_⟩
  intro s hs t ht heq
  obtain ⟨m, hm, rfl⟩ := List.mem_map.mp hs
  obtain ⟨n, hn, rfl⟩ := List.mem_map.mp ht
  exact hnames m hm n hn (congrArg Prod.fst heq)

theorem fingerprints_concat {certs : List Certificate} {cert : Certificate}
    (hcerts : (certs.map Certificate.fingerprint).Nodup)
    (hnew : ∀ k ∈ certs, k.fingerprint ≠ cert.fingerprint) :
    ((certs ++ [cert]).map Certificate.fingerprint).Nodup := by
  rw [List.map_append, List.map_singleton, List.nodup_append]
  refine ⟨hcerts, List.nodup_singleton _, ?_⟩
  intro a ha b hb heq
  obtain ⟨k, hk, rfl⟩ := List.mem_map.mp ha
  exact hnew k hk (heq.trans (List.mem_singleton.mp hb))

/-- A bundle has no fingerprint twice and no certificate of its own. -/
theorem loadBlocks_spec {blocks : List (Except String Certificate)}
    {certs result : List Certificate} (h : loadBlocks certs blocks = .ok result)
    (hcerts : (certs.map Certificate.fingerprint).Nodup) :
    (result.map Certificate.fingerprint).Nodup ∧
      ∀ cert ∈ result, cert ∈ certs ∨ .ok cert ∈ blocks := by
  induction blocks generalizing certs with
  | nil =>
    rw [loadBlocks] at h
    split at h
    · cases h
    · cases h
      exact ⟨hcerts, fun cert hcert => Or.inl hcert⟩
  | cons block blocks ih =>
    cases block with
    | error e => cases h
    | ok cert =>
      rw [loadBlocks] at h
      split at h
      · split at h
        · cases h
        · obtain ⟨hnodup, hmem⟩ := ih h hcerts
          exact ⟨hnodup, fun k hk => (hmem k hk).imp_right (List.mem_cons_of_mem _)⟩
      · rename_i hnew
        split at h
        · cases h
        · rw [Bool.not_eq_true, List.any_eq_false] at hnew
          obtain ⟨hnodup, hmem⟩ := ih h
            (fingerprints_concat hcerts fun k hk heq => hnew k hk (decide_eq_true heq))
          refine ⟨hnodup, ?_⟩
          intro k hk
          rcases hmem k hk with hk | hk
          · rcases List.mem_append.mp hk with hk | hk
            · exact Or.inl hk
            · rw [List.mem_singleton.mp hk]
              exact Or.inr List.mem_cons_self
          · exact Or.inr (List.mem_cons_of_mem _ hk)

theorem loadBundle_spec {file : Option (List (Except String Certificate))}
    {certs : List Certificate} (h : loadBundle file = .ok certs) :
    (certs.map Certificate.fingerprint).Nodup ∧
      ∀ cert ∈ certs, ∃ blocks, file = some blocks ∧ .ok cert ∈ blocks := by
  cases file with
  | none => cases h
  | some blocks =>
    obtain ⟨hnodup, hmem⟩ := loadBlocks_spec h List.nodup_nil
    refine ⟨hnodup, ?_⟩
    intro cert hcert
    exact ⟨blocks, rfl, (hmem cert hcert).resolve_left List.not_mem_nil⟩

section Results
variable {c : Settings} (hc : c.Clean)
include hc

theorem bundle_owned {certs : List Certificate}
    (hnodup : (certs.map Certificate.fingerprint).Nodup) (hhashed : ∀ cert ∈ certs, cert.Hashed)
    (now : Time) : Owned (str "bundle") (bundleSamples c.node certs now) := by
  have hnode : ∀ l ∈ [(str "node", c.node)], Verbatim l.2 := List.forall_mem_singleton.mpr hc.node
  rw [bundleSamples]
  refine Owned.append ?_ ?_ ?_
  · refine owned_blocks (str "certificate") Certificate.fingerprint hnodup ?_ ?_
    · intro cert _
      simp
    · intro cert hcert m hm
      obtain ⟨raw, hraw⟩ := hhashed cert hcert
      have hvalues : ∀ l ∈ certificateLabels c.node cert, Verbatim l.2 := by
        simp only [certificateLabels, List.forall_mem_cons]
        exact ⟨hc.node, hraw ▸ encodeToString_verbatim _, List.forall_mem_nil _⟩
      simp only [List.mem_cons, List.not_mem_nil, or_false] at hm
      rcases hm with rfl | rfl
      · exact ⟨label_certificate _ _ _ _, rfl, rfl, hvalues⟩
      · exact ⟨label_certificate _ _ _ _, rfl, rfl, hvalues⟩
  · refine owned_of_names (by simp) ?_
    intro m hm
    simp only [List.mem_cons, List.not_mem_nil, or_false] at hm
    rcases hm with rfl | rfl
    · exact ⟨rfl, rfl, hnode⟩
    · exact ⟨rfl, rfl, hnode⟩
  · -- The samples of a certificate have metrics of their own.
    intro m hm n hn
    obtain ⟨cert, -, hm⟩ := List.mem_flatMap.mp hm
    simp only [List.mem_cons, List.not_mem_nil, or_false] at hm hn
    rcases hm with rfl | rfl <;> rcases hn with rfl | rfl <;> exact Metric.noConfusion

theorem canary_owned (cert : Certificate) (rotation : Time) :
    Owned (str "canary") (canarySamples c cert rotation) := by
  have hkind : Verbatim (str "canary") := by decide +kernel
  have hvalues : ∀ l ∈ canaryLabels c, Verbatim l.2 := by
    simp only [canaryLabels, List.forall_mem_cons]
    exact ⟨hc.node, hkind, hc.canaryID, List.forall_mem_nil _⟩
  have hagent : (str "kind", str "agent") ∉ canaryLabels c := by
    have hkey : str "kind" ≠ str "node" ∧ str "kind" ≠ str "identity" ∧
        str "agent" ≠ str "canary" := by decide
    simp [canaryLabels, hkey]
  have hexpiry : place (.certificateNotAfter, canaryLabels c) = .result (str "canary") := by
    rw [place_expiry, if_neg hagent]
  have hmem : ∀ m ∈ canarySamples c cert rotation, m.labels = canaryLabels c ∧
      (m.name = .certificateNotAfter ∨ m.name = .certificateNotBefore ∨
        m.name = .lastRotation) := by
    intro m hm
    unfold canarySamples at hm
    split at hm
    · simp only [List.append_nil, List.mem_cons, List.not_mem_nil, or_false] at hm
      rcases hm with rfl | rfl <;> simp
    · simp only [List.cons_append, List.nil_append, List.mem_cons, List.not_mem_nil,
        or_false] at hm
      rcases hm with rfl | rfl | rfl <;> simp
  refine owned_of_names ?_ ?_
  · unfold canarySamples
    split
    · simp
    · simp
  · intro m hm
    obtain ⟨hlabels, hname⟩ := hmem m hm
    have hplace : place m.series = .result (str "canary") := by
      rw [Sample.series, hlabels]
      rcases hname with hname | hname | hname <;> rw [hname]
      · exact hexpiry
      · rfl
      · rfl
    refine ⟨hplace, ?_, hlabels ▸ hvalues⟩
    rw [hlabels]
    rcases hname with hname | hname | hname <;> rw [hname] <;> rfl

theorem agents_owned (answer : Answer) : Owned (str "agents") (collectAgents c answer).samples := by
  have hkind : Verbatim (str "agent") := by decide +kernel
  have hmem : ∀ found node, node ∈ c.nodes → ∀ m ∈ agentSamples c found node,
      m.label (str "node") = node ∧ place m.series = .result (str "agents") ∧ m.Proper := by
    intro found node hnode m hm
    have hvalue := hc.nodes node hnode
    have hlabel : ∀ name labels value,
        (Sample.mk name ((str "node", node) :: labels) value).label (str "node") = node := by
      intro name labels value
      simp [Sample.label]
    rcases List.mem_cons.mp hm with rfl | hm
    · exact ⟨hlabel _ _ _, rfl, rfl, List.forall_mem_singleton.mpr hvalue⟩
    · split at hm
      · rw [List.mem_singleton.mp hm]
        refine ⟨hlabel _ _ _, ?_, rfl, ?_⟩
        · rw [Sample.series, place_expiry, if_pos (by simp)]
        · simp only [List.forall_mem_cons]
          exact ⟨hvalue, hkind, hc.aliasID hvalue, List.forall_mem_nil _⟩
      · cases hm
  have hnames : ∀ found node, ((agentSamples c found node).map Sample.name).Nodup := by
    intro found node
    unfold agentSamples
    dsimp only
    split
    · simp
    · simp
  refine owned_blocks (str "node") id ?_ (fun node _ => hnames _ node) (hmem _)
  rw [List.map_id]
  exact hc.nodup

omit hc in
theorem aliasSteps_samples (calls : List (Bytes × Answer)) (o : Outcome) :
    (calls.foldl (aliasStep c) o).name = o.name ∧
      ∃ value : Bytes × Answer → Int, (calls.foldl (aliasStep c) o).samples =
        o.samples ++ calls.map fun call => ⟨.aliasMatches, [(str "node", call.1)], value call⟩ := by
  refine ⟨?_, fun call => boolFloat (call.2.err.isNone &&
    (aliasMetadata call.2.raw c call.1 call.2.now).2), ?_⟩
  · induction calls generalizing o with
    | nil => rfl
    | cons call calls ih => exact ih (aliasStep c o call)
  · induction calls generalizing o with
    | nil => rw [List.foldl_nil, List.map_nil, List.append_nil]
    | cons call calls ih =>
      rw [List.foldl_cons, ih, List.map_cons]
      simp [aliasStep]

theorem aliases_owned {calls : List (Bytes × Answer)} (hcalls : calls.map Prod.fst = c.nodes) :
    Owned (str "aliases") (collectAliases c calls).samples := by
  obtain ⟨-, value, hsamples⟩ := aliasSteps_samples (c := c) calls ⟨str "aliases", [], none, .zero⟩
  rw [collectAliases, hsamples, List.nil_append]
  rw [List.map_eq_flatMap]
  refine owned_blocks (str "node") Prod.fst ?_ ?_ ?_
  · rw [hcalls]
    exact hc.nodup
  · intro call _
    simp
  · intro call hcall m hm
    have hnode : Verbatim call.1 := hc.nodes call.1 (hcalls ▸ List.mem_map_of_mem hcall)
    rw [List.mem_singleton.mp hm]
    exact ⟨by simp [Sample.label], rfl, rfl, List.forall_mem_singleton.mpr hnode⟩

omit hc in
theorem foldl_receive (received : List HolderObservation) (o : Outcome) :
    (received.foldl Outcome.receive o).name = o.name ∧
      (received.foldl Outcome.receive o).samples = o.samples := by
  induction received generalizing o with
  | nil => exact ⟨rfl, rfl⟩
  | cons observation received ih => exact ih (o.receive observation)

/-- The collectors that record results. -/
def resultNames : List Bytes :=
  [str "bundle", str "bootstrap", str "canary", str "agents", str "aliases", str "workloads"]

omit hc in
theorem mem_resultNames :
    str "bundle" ∈ resultNames ∧ str "bootstrap" ∈ resultNames ∧ str "canary" ∈ resultNames ∧
      str "agents" ∈ resultNames ∧ str "aliases" ∈ resultNames ∧ str "workloads" ∈ resultNames := by
  simp only [resultNames, List.mem_cons, true_or, or_true, and_self]

theorem built_owned {o : Outcome} (h : Built c o) :
    o.name ∈ resultNames ∧ Owned o.name o.samples := by
  obtain ⟨hbundle, hbootstrap, hcanary, hagents, haliases, hworkloads⟩ := mem_resultNames
  cases h with
  | bundle file now hhashed =>
    unfold bundleOutcome
    split
    · exact ⟨hbundle, owned_nil _⟩
    · rename_i certs hload
      obtain ⟨hnodup, hmem⟩ := loadBundle_spec hload
      refine ⟨hbundle, bundle_owned hc hnodup ?_ now⟩
      intro cert hcert
      obtain ⟨blocks, hfile, hblock⟩ := hmem cert hcert
      exact hhashed blocks cert hfile hblock
  | bootstrap loaded probe =>
    unfold bootstrapOutcome
    split <;> exact ⟨hbootstrap, owned_nil _⟩
  | canary memory result checked now =>
    unfold canaryOutcome
    split
    · exact ⟨hcanary, owned_nil _⟩
    · exact ⟨hcanary, owned_nil _⟩
    · split
      · exact ⟨hcanary, canary_owned hc _ _⟩
      · exact ⟨hcanary, owned_nil _⟩
  | agents answer => exact ⟨hagents, agents_owned hc answer⟩
  | aliases calls hcalls =>
    have hname : (collectAliases c calls).name = str "aliases" := (aliasSteps_samples calls _).1
    rw [hname]
    exact ⟨haliases, aliases_owned hc hcalls⟩
  | workloads received =>
    obtain ⟨hname, hsamples⟩ := foldl_receive received ⟨str "workloads", [], none, .zero⟩
    rw [workloadsOutcome, hname, hsamples]
    exact ⟨hworkloads, owned_nil _⟩
  | unavailable e meets err => exact ⟨hworkloads, owned_nil _⟩

end Results

/-! ## States -/

section States
variable {c : Settings} {e : Exporter} {now : Time}

theorem Sample.Proper.congr {m n : Sample} (hm : m.Proper) (h : n.series = m.series) :
    n.Proper := by
  have hname : n.name = m.name := congrArg Prod.fst h
  have hlabels : n.labels = m.labels := congrArg Prod.snd h
  exact ⟨by rw [hlabels, hname, hm.keys], hlabels ▸ hm.values⟩

theorem Owned.map {name : Bytes} {samples kept : List Sample} (h : Owned name samples)
    {f : Sample → Sample} (hf : ∀ m, (f m).series = m.series) (hsub : kept.Sublist samples) :
    Owned name (kept.map f) := by
  have hcomp : Sample.series ∘ f = Sample.series := funext hf
  refine ⟨?_, ?_, ?_⟩
  · rw [List.map_map, hcomp]
    exact (hsub.map _).nodup h.distinct
  · intro m hm
    obtain ⟨n, hn, rfl⟩ := List.mem_map.mp hm
    rw [hf]
    exact h.place n (hsub.subset hn)
  · intro m hm
    obtain ⟨n, hn, rfl⟩ := List.mem_map.mp hm
    exact (h.proper n (hsub.subset hn)).congr (hf n)

/-- A scrape keeps the series of fresh samples and some of those of stale ones. -/
theorem currentSamples_owned {name : Bytes} {s : CollectorState} (h : Owned name s.samples)
    (now : Time) : Owned name (currentSamples s now) := by
  unfold currentSamples
  split
  · refine h.map ?_ (List.Sublist.refl _)
    intro m
    rw [Sample.series, refresh_name, refresh_labels, Sample.series]
  · exact h.map (fun m => rfl) List.filter_sublist

/-- The states hold results of their own collectors. -/
structure Exporter.Sane (e : Exporter) : Prop where
  names : ∀ entry ∈ e.states.entries, entry.1 ∈ resultNames
  owned : ∀ entry ∈ e.states.entries, Owned entry.1 entry.2.samples

/-- The calls that the collectors make. -/
def Call.Made (c : Settings) : Call → Prop
  | .record o _ => Built c o
  | .recordHolder _ _ _ _ => True

theorem Exporter.Sane.put (h : e.Sane) {name : Bytes} {s : CollectorState}
    (hname : name ∈ resultNames) (hs : Owned name s.samples) :
    ({ e with states := e.states.put name s } : Exporter).Sane := by
  have hentries : ∀ entry ∈ (e.states.put name s).entries,
      entry = (name, s) ∨ entry ∈ e.states.entries := by
    intro entry hentry
    rcases List.mem_cons.mp hentry with heq | hmem
    · exact Or.inl heq
    · exact Or.inr (List.mem_of_mem_filter hmem)
  refine ⟨?_, ?_⟩
  · intro entry hentry
    rcases hentries entry hentry with rfl | hmem
    · exact hname
    · exact h.names entry hmem
  · intro entry hentry
    rcases hentries entry hentry with rfl | hmem
    · exact hs
    · exact h.owned entry hmem

theorem newExporter_sane (c : Config) : (newExporter c).Sane := by
  have hnames : ∀ name ∈ collectorNames c, name ∈ resultNames := by
    intro name hname
    unfold collectorNames at hname
    split at hname <;> split at hname <;> revert hname name <;> decide
  have hfold : ∀ (names : List Bytes) (e : Exporter), (∀ name ∈ names, name ∈ resultNames) →
      e.Sane → ({ e with
        states := names.foldl (fun t name => t.put name .zero) e.states } : Exporter).Sane := by
    intro names
    induction names with
    | nil => exact fun e _ he => he
    | cons name names ih =>
      intro e hnames he
      obtain ⟨hname, hrest⟩ := List.forall_mem_cons.mp hnames
      exact ih _ hrest (he.put hname (owned_nil name))
  exact hfold (collectorNames c) ⟨c, Table.empty, Table.empty⟩ hnames
    ⟨List.forall_mem_nil _, List.forall_mem_nil _⟩

theorem run_sane (hc : c.Clean) {calls : List Call} (hcalls : ∀ call ∈ calls, call.Made c) :
    (Exporter.run c.config calls).Sane := by
  induction calls using List.reverseRecOn with
  | nil => exact newExporter_sane c.config
  | append_singleton calls call ih =>
    obtain ⟨hbefore, hcall⟩ := List.forall_mem_append.mp hcalls
    have hsane := ih hbefore
    rw [run_concat]
    cases call with
    | record o now =>
      obtain ⟨hname, howned⟩ := built_owned hc (hcall _ List.mem_cons_self)
      exact hsane.put hname howned
    | recordHolder target o checked now => exact ⟨hsane.names, hsane.owned⟩

end States

/-! ## The samples of a scrape -/

def holderMetrics : List Metric :=
  [.observationSuccess, .dormant, .lastAttempt, .lastObserved, .observationSuccesses,
    .observationErrors, .svidNotBefore, .svidNotAfter, .svidLastRotation]

def collectorMetrics : List Metric :=
  [.collectorSuccess, .collectorSuccesses, .collectorErrors, .collectorLastSuccess,
    .collectorLastCollection]

/-- The samples of one holder. -/
def holderBlock (c : Config) (holders : Table Bytes HolderState) (now : Time)
    (target : WorkloadTarget) : List Sample :=
  holderSamples { c with workloads := [target] } holders now

/-- The samples about one collector itself, which come before those of its result. -/
def collectorBlock (c : Config) (name : Bytes) (s : CollectorState) (now : Time) : List Sample :=
  (collectorSamples c name s now).take 5

theorem holderSamples_blocks (c : Config) (holders : Table Bytes HolderState) (now : Time) :
    holderSamples c holders now = c.workloads.flatMap (holderBlock c holders now) := by
  unfold holderBlock holderSamples
  simp [targetLabels]

theorem holderBlock_spec (c : Config) (holders : Table Bytes HolderState) (now : Time)
    (target : WorkloadTarget) :
    ((holderBlock c holders now target).map Sample.name).Sublist holderMetrics ∧
      ∀ m ∈ holderBlock c holders now target, m.labels = targetLabels c target := by
  unfold holderBlock holderSamples
  simp only [List.flatMap_cons, List.flatMap_nil, List.append_nil]
  split
  · split
    · simp [holderMetrics, targetLabels]
    · simp [holderMetrics, targetLabels]
  · simp [holderMetrics, targetLabels]

theorem collectorSamples_blocks (c : Config) (name : Bytes) (s : CollectorState) (now : Time) :
    collectorSamples c name s now = collectorBlock c name s now ++ currentSamples s now := rfl

theorem collectorBlock_spec (c : Config) (name : Bytes) (s : CollectorState) (now : Time) :
    (collectorBlock c name s now).map Sample.name = collectorMetrics ∧
      ∀ m ∈ collectorBlock c name s now, m.labels = collectorLabels c name := by
  unfold collectorBlock collectorSamples
  simp [collectorMetrics]

theorem holderMetrics_spec : ∀ name ∈ holderMetrics,
    schema name = [str "node", str "unit", str "identity", str "source"] ∧
      ∀ labels, place (name, labels) = .holder := by
  simp [holderMetrics, schema, place]

theorem collectorMetrics_spec : ∀ name ∈ collectorMetrics,
    schema name = [str "node", str "collector"] ∧
      ∀ labels, place (name, labels) = .collector := by
  simp [collectorMetrics, schema, place]

section Scrape
variable {c : Settings} (hc : c.Clean) (now : Time)
include hc

theorem holderSamples_sound (holders : Table Bytes HolderState) :
    ((holderSamples c.config holders now).map Sample.series).Nodup ∧
      ∀ m ∈ holderSamples c.config holders now, place m.series = .holder ∧ m.Proper := by
  rw [holderSamples_blocks]
  constructor
  · have hunits : (c.config.workloads.map WorkloadTarget.unit).Nodup := by
      rw [Settings.config, List.map_map]
      exact hc.units
    refine nodup_blocks (str "unit") WorkloadTarget.unit hunits ?_ ?_
    · intro t _
      exact (holderBlock_spec _ _ _ t).1.nodup (by decide)
    · intro t _ m hm
      have hkey : str "node" ≠ str "unit" := by decide
      rw [Sample.label, (holderBlock_spec _ _ _ t).2 m hm]
      simp [targetLabels, hkey]
  · intro m hm
    obtain ⟨t, ht, hm⟩ := List.mem_flatMap.mp hm
    obtain ⟨hsub, hlabels⟩ := holderBlock_spec c.config holders now t
    obtain ⟨hschema, hplace⟩ := holderMetrics_spec m.name (hsub.subset (List.mem_map_of_mem hm))
    obtain ⟨d, hd, rfl⟩ := List.mem_map.mp ht
    obtain ⟨hunit, hidentity, hsource⟩ := hc.targets d hd
    refine ⟨hplace m.labels, by rw [hlabels m hm, hschema]; rfl, ?_⟩
    rw [hlabels m hm]
    simp only [targetLabels, List.forall_mem_cons]
    exact ⟨hc.node, hunit, hidentity, hsource, List.forall_mem_nil _⟩

theorem collectorBlock_sound {name : Bytes} (hname : Verbatim name) (s : CollectorState) :
    ∀ m ∈ collectorBlock c.config name s now, place m.series = .collector ∧ m.Proper := by
  intro m hm
  obtain ⟨hnames, hlabels⟩ := collectorBlock_spec c.config name s now
  obtain ⟨hschema, hplace⟩ := collectorMetrics_spec m.name (hnames ▸ List.mem_map_of_mem hm)
  refine ⟨hplace m.labels, by rw [hlabels m hm, hschema]; rfl, ?_⟩
  rw [hlabels m hm]
  simp only [collectorLabels, List.forall_mem_cons]
  exact ⟨hc.node, hname, List.forall_mem_nil _⟩

omit hc in
theorem collectorBlocks_nodup {names : List Bytes} (hnames : names.Nodup)
    (state : Bytes → CollectorState) :
    ((names.flatMap fun name => collectorBlock c.config name (state name) now).map
      Sample.series).Nodup := by
  refine nodup_blocks (str "collector") id (by rwa [List.map_id]) ?_ ?_
  · intro name _
    rw [(collectorBlock_spec _ _ _ _).1]
    decide
  · intro name _ m hm
    have hkey : str "node" ≠ str "collector" := by decide
    rw [Sample.label, (collectorBlock_spec _ _ _ _).2 m hm]
    simp [collectorLabels, hkey]

omit hc in
theorem results_nodup {names : List Bytes} (hnames : names.Nodup) {results : Bytes → List Sample}
    (howned : ∀ name ∈ names, Owned name (results name)) :
    ((names.flatMap results).map Sample.series).Nodup := by
  rw [List.map_flatMap, List.nodup_flatMap]
  refine ⟨fun name hname => (howned name hname).distinct, hnames.imp_of_mem ?_⟩
  intro x y hx hy hne s hs ht
  obtain ⟨m, hm, rfl⟩ := List.mem_map.mp hs
  obtain ⟨n, hn, heq⟩ := List.mem_map.mp ht
  have hplaces : Place.result x = Place.result y := by
    rw [← (howned x hx).place m hm, ← (howned y hy).place n hn, heq]
  exact hne (Place.result.inj hplaces)

omit hc in
/-- Samples of different places are of different series. -/
theorem nodup_append_places {xs ys : List Sample} (hxs : (xs.map Sample.series).Nodup)
    (hys : (ys.map Sample.series).Nodup)
    (h : ∀ m ∈ xs, ∀ n ∈ ys, place m.series ≠ place n.series) :
    ((xs ++ ys).map Sample.series).Nodup := by
  rw [List.map_append, List.nodup_append]
  refine ⟨hxs, hys, ?_⟩
  intro s hs t ht heq
  obtain ⟨m, hm, rfl⟩ := List.mem_map.mp hs
  obtain ⟨n, hn, rfl⟩ := List.mem_map.mp ht
  exact h m hm n hn (congrArg place heq)

omit hc in
theorem Exporter.Sane.get {e : Exporter} (he : e.Sane) {name : Bytes}
    (hname : name ∈ e.states.entries.map Prod.fst) :
    name ∈ resultNames ∧ Owned name ((e.states.get name).getD .zero).samples := by
  obtain ⟨entry, hentry, rfl⟩ := List.mem_map.mp hname
  have hget : e.states.get entry.1 = some entry.2 := Table.get_eq_some_iff.mpr hentry
  rw [hget]
  exact ⟨he.names entry hentry, he.owned entry hentry⟩

/-- The samples about the collectors, then those of their results. -/
theorem collectors_sound {e : Exporter} (he : e.Sane) {names : List Bytes} (hnames : names.Nodup)
    (hmem : ∀ name ∈ names, name ∈ e.states.entries.map Prod.fst) :
    ((names.flatMap fun name => collectorSamples c.config name
        ((e.states.get name).getD .zero) now).map Sample.series).Nodup ∧
      ∀ m ∈ names.flatMap fun name => collectorSamples c.config name
        ((e.states.get name).getD .zero) now,
          (place m.series = .collector ∨ ∃ name, place m.series = .result name) ∧ m.Proper := by
  have hresults : ∀ name ∈ resultNames, Verbatim name := by decide +kernel
  have howned : ∀ name ∈ names,
      Owned name (currentSamples ((e.states.get name).getD .zero) now) := fun name hname =>
    currentSamples_owned (he.get (hmem name hname)).2 now
  have hblock : ∀ name ∈ names, ∀ m ∈ collectorBlock c.config name
      ((e.states.get name).getD .zero) now, place m.series = .collector ∧ m.Proper :=
    fun name hname => collectorBlock_sound hc now (hresults name (he.get (hmem name hname)).1) _
  constructor
  · have hperm : ((names.flatMap fun name => collectorBlock c.config name
        ((e.states.get name).getD .zero) now) ++ names.flatMap fun name =>
          currentSamples ((e.states.get name).getD .zero) now).Perm
        (names.flatMap fun name => collectorSamples c.config name
          ((e.states.get name).getD .zero) now) := List.flatMap_append_perm names _ _
    rw [← (hperm.map Sample.series).nodup_iff]
    apply nodup_append_places (collectorBlocks_nodup now hnames _) (results_nodup hnames howned)
    intro m hm n hn
    obtain ⟨x, hx, hm⟩ := List.mem_flatMap.mp hm
    obtain ⟨y, hy, hn⟩ := List.mem_flatMap.mp hn
    rw [(hblock x hx m hm).1, (howned y hy).place n hn]
    exact Place.noConfusion
  · intro m hm
    obtain ⟨name, hname, hm⟩ := List.mem_flatMap.mp hm
    rw [collectorSamples_blocks] at hm
    rcases List.mem_append.mp hm with hm | hm
    · obtain ⟨hplace, hproper⟩ := hblock name hname m hm
      exact ⟨Or.inl hplace, hproper⟩
    · exact ⟨Or.inr ⟨name, (howned name hname).place m hm⟩, (howned name hname).proper m hm⟩

/-- The parts of a scrape differ by place, and each is without repetition. -/
theorem scrape_sound {e : Exporter} (hconfig : e.config = c.config) (he : e.Sane) :
    ((e.scrape now).map Sample.series).Nodup ∧ ∀ m ∈ e.scrape now, m.Proper := by
  have hsorted : (sortStrings (e.states.entries.map Prod.fst)).Perm
      (e.states.entries.map Prod.fst) := List.perm_insertionSort _ _
  obtain ⟨hholdersNodup, hholders⟩ := holderSamples_sound hc now e.holders
  obtain ⟨hcollectorsNodup, hcollectors⟩ := collectors_sound hc now he
    (hsorted.nodup_iff.mpr e.states.distinct) fun name hname => hsorted.mem_iff.mp hname
  have hother : ∀ m ∈ (sortStrings (e.states.entries.map Prod.fst)).flatMap fun name =>
      collectorSamples c.config name ((e.states.get name).getD .zero) now,
      place m.series ≠ .holder ∧ place m.series ≠ .trust := by
    intro m hm
    rcases (hcollectors m hm).1 with hplace | ⟨name, hplace⟩
    · rw [hplace]
      exact ⟨Place.noConfusion, Place.noConfusion⟩
    · rw [hplace]
      exact ⟨Place.noConfusion, Place.noConfusion⟩
  unfold Exporter.scrape
  rw [hconfig]
  constructor
  · refine nodup_append_places (nodup_append_places hholdersNodup hcollectorsNodup ?_)
      (List.nodup_singleton (Sample.series _)) ?_
    · intro m hm n hn
      rw [(hholders m hm).1]
      exact (hother n hn).1.symm
    · intro m hm n hn
      have htrust : place n.series = .trust := by
        rw [List.mem_singleton.mp hn]
        rfl
      rw [htrust]
      rcases List.mem_append.mp hm with hm | hm
      · rw [(hholders m hm).1]
        exact Place.noConfusion
      · exact (hother m hm).2
  · intro m hm
    rcases List.mem_append.mp hm with hm | hm
    · rcases List.mem_append.mp hm with hm | hm
      · exact (hholders m hm).2
      · exact (hcollectors m hm).2
    · rw [List.mem_singleton.mp hm]
      exact ⟨rfl, List.forall_mem_singleton.mpr hc.node⟩

end Scrape

/-- The samples of a scrape, collector by collector in the order of the map. -/
theorem scrape_perm (e : Exporter) (now : Time) :
    (e.scrape now).Perm (holderSamples e.config e.holders now ++
      (e.states.entries.flatMap fun entry => collectorSamples e.config entry.1 entry.2 now) ++
      [⟨.serverTrust, [(str "node", e.config.node)],
        boolFloat (successful ((e.states.get (str "bootstrap")).getD .zero) now)⟩]) := by
  have hstates : (e.states.entries.map Prod.fst).flatMap (fun name =>
      collectorSamples e.config name ((e.states.get name).getD .zero) now) =
      e.states.entries.flatMap fun entry => collectorSamples e.config entry.1 entry.2 now := by
    rw [List.flatMap_map]
    refine List.flatMap_congr ?_
    intro entry hentry
    rw [Table.get_eq_some_iff.mpr hentry, Option.getD_some]
  have hsorted : (sortStrings (e.states.entries.map Prod.fst)).Perm
      (e.states.entries.map Prod.fst) := List.perm_insertionSort _ _
  unfold Exporter.scrape
  rw [← hstates]
  exact ((hsorted.flatMap_right _).append_left _).append_right _

/-- The lines of a scrape are those of all samples, with no series twice and with all label values
as they are. -/
theorem exposition_wellFormed {trustDomainFromString : Bytes → Option Bytes}
    {fromString : Bytes → Option SpiffeID}
    (hspiffe : SpiffeCharacters trustDomainFromString fromString) {c : Settings}
    (hvalid : c.validate trustDomainFromString fromString = .ok ()) {calls : List Call}
    (hcalls : ∀ call ∈ calls, call.Made c) (now : Time) (conv : Strconv) :
    ∃ samples : List Sample,
      sampleLines ((Exporter.run c.config calls).metrics conv now) = samples.map (fun m =>
        m.name.text ++ str "\x7b" ++
          join (m.labels.map fun l => l.1 ++ str "=\"" ++ l.2 ++ str "\"") (chr ',') ++
          str "\x7d " ++ conv.formatFloat m.value ++ str "\n") ∧
      samples.Pairwise (fun m n =>
        ¬ (m.name.text = n.name.text ∧ SameLabels m.labels n.labels)) ∧
      samples.Perm (holderSamples c.config (Exporter.run c.config calls).holders now ++
        ((Exporter.run c.config calls).states.entries.flatMap fun entry =>
          collectorSamples c.config entry.1 entry.2 now) ++
        [⟨.serverTrust, [(str "node", c.node)], boolFloat (successful
          (((Exporter.run c.config calls).states.get (str "bootstrap")).getD .zero) now)⟩]) ∧
      ∀ name s, (Exporter.run c.config calls).states.get name = some s →
        ∀ m ∈ currentSamples s now, m ∈ samples := by
  have hc := validate_clean hspiffe hvalid
  have hperm := written_perm (Exporter.run c.config calls) now
  have hparts := hperm.trans (scrape_perm (Exporter.run c.config calls) now)
  rw [run_config] at hparts
  obtain ⟨hnodup, hproper⟩ := scrape_sound hc now run_config (run_sane hc hcalls)
  have hwritten : (((Exporter.run c.config calls).written now).map Sample.series).Nodup :=
    (hperm.map Sample.series).nodup_iff.mpr hnodup
  refine ⟨(Exporter.run c.config calls).written now, ?_, ?_, hparts, ?_⟩
  · rw [Exporter.metrics_sampleLines conv hproper]
    refine List.map_congr_left ?_
    intro m hm
    exact (hproper m (hperm.mem_iff.mp hm)).writeSample_eq conv
  · refine (List.pairwise_map.mp hwritten).imp_of_mem ?_
    rintro m n hm hn hne ⟨hname, hlabels⟩
    exact hne (series_eq (hproper m (hperm.mem_iff.mp hm)) (hproper n (hperm.mem_iff.mp hn))
      (text_injective hname) hlabels)
  · intro name s hs m hm
    refine hparts.mem_iff.mpr (List.mem_append_left _ (List.mem_append_right _ ?_))
    exact List.mem_flatMap.mpr ⟨(name, s), Table.get_eq_some_iff.mp hs, List.mem_append_right _ hm⟩

/-- The parsers of the SPIFFE library, for one trust domain. -/
def realmDomain (s : Bytes) : Option Bytes := if s = str "realm.test" then some s else none

def realmID (s : Bytes) : Option SpiffeID :=
  if s.take 19 = str "spiffe://" ++ str "realm.test" ∧ s.drop 19 ≠ [] ∧
      (s.drop 19).all isPathByte = true then
    some ⟨s, str "realm.test", s.drop 19⟩
  else none

theorem realm_characters : SpiffeCharacters realmDomain realmID := by
  have hdomain : ∀ b ∈ str "realm.test", isTrustDomainByte b = true := by decide +kernel
  constructor
  · intro s td h
    unfold realmDomain at h
    split at h
    · rename_i hs
      cases h
      rw [hs]
      exact hdomain
    · cases h
  · intro s id h
    unfold realmID at h
    split at h
    · rename_i hs
      cases h
      refine ⟨str "realm.test", s.drop 19, ?_, hdomain, List.all_eq_true.mp hs.2.2⟩
      rw [← hs.1, List.take_append_drop]
    · cases h

/-- The settings of a server with two nodes and two workloads. -/
def monitored : Settings :=
  { serverSettings with
    trustDomain := str "realm.test"
    nodes := [str "n", str "m.n"]
    systemctlBinary := str "/run/bin/systemctl"
    workloads := sampleTargets }

def monitoredCalls : List Call :=
  [.record (collectAliases monitored
      [(str "n", ⟨sampleAlias "1700000001", none, aliasMoment⟩),
        (str "m.n", ⟨[], none, aliasMoment⟩)]) aliasMoment,
    .record (collectAgents monitored ⟨[], some "admin_command", aliasMoment⟩) aliasMoment,
    .record (canaryOutcome monitored ⟨[], .zero⟩ ⟨⟨true, some ⟨0, 100, str "leaf"⟩⟩, none⟩
      ⟨50, none⟩ ⟨51, none⟩).1 aliasMoment]

/-- Integers in decimal. -/
def plainFloats : Strconv := ⟨fun _ => false, itoa, itoa_oneLine⟩

theorem exposition_wellFormed_monitored :
    monitored.validate realmDomain realmID = .ok () ∧
      (∀ call ∈ monitoredCalls, call.Made monitored) ∧
      ∃ samples : List Sample,
        sampleLines ((Exporter.run monitored.config monitoredCalls).metrics plainFloats
          aliasMoment) = samples.map (fun m => m.name.text ++ str "\x7b" ++
            join (m.labels.map fun l => l.1 ++ str "=\"" ++ l.2 ++ str "\"") (chr ',') ++
            str "\x7d " ++ itoa m.value ++ str "\n") ∧
        samples.Pairwise fun m n =>
          ¬ (m.name.text = n.name.text ∧ SameLabels m.labels n.labels) := by
  have hvalid : monitored.validate realmDomain realmID = .ok () := by decide +kernel
  have hmade : ∀ call ∈ monitoredCalls, call.Made monitored := by
    refine List.forall_mem_cons.mpr ⟨Built.aliases _ rfl, List.forall_mem_cons.mpr
      ⟨Built.agents _, List.forall_mem_singleton.mpr (Built.canary _ _ _ _)⟩⟩
  obtain ⟨samples, hlines, hpairwise, -⟩ :=
    exposition_wellFormed realm_characters hvalid hmade aliasMoment plainFloats
  exact ⟨hvalid, hmade, samples, hlines, hpairwise⟩

end RealmFormal.IdentityMetrics

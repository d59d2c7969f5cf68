import RealmFormal.NodeAttest.Server

/-!
# The node registry

`NewServer` turns the configured policies into nodes: every node comes from a
policy, and every policy has its node.
-/

namespace RealmFormal.NodeAttest
open Go Go.Netip
set_option autoImplicit false

theorem pinAddresses_parse {name : Bytes} {literals : List Bytes} {seen addresses : List Addr}
    (h : pinAddresses name seen literals = .ok addresses) :
    addresses.map some = seen.map some ++ literals.map parseAddr := by
  induction literals generalizing seen with
  | nil =>
    cases h
    simp
  | cons literal literals ih =>
    simp only [pinAddresses] at h
    split at h
    · cases h
    rename_i address hparse
    split at h
    · cases h
    split at h
    · cases h
    rw [ih h]
    simp [hparse]

/-- The node is the one that some policy of `entries` describes. -/
def Describes (entries : List (Bytes × NodePolicy)) (fqdn : Bytes) (node : Node) : Prop :=
  ∃ policy, (node.name, policy) ∈ entries ∧ policy.fqdn = fqdn ∧ node.fqdn = fqdn ∧
    validFQDN fqdn = true ∧ isLabel node.name = true ∧
    node.addresses.map some = policy.addresses.map parseAddr ∧ node.addresses ≠ []

theorem pinNode_get {nodes next : Table Bytes Node} {name : Bytes} {policy : NodePolicy}
    (h : pinNode nodes name policy = .ok next) {f : Bytes} {node : Node}
    (hf : next.get f = some node) :
    nodes.get f = some node ∨ Describes [(name, policy)] f node := by
  unfold pinNode at h
  split at h
  · cases h
  rename_i hvalid
  push Not at hvalid
  split at h
  · cases h
  split at h
  · cases h
  split at h
  · cases h
  rename_i addresses hpin
  cases h
  rw [Table.get_put] at hf
  split at hf
  · rename_i hfq
    cases hf
    subst hfq
    have hparse := pinAddresses_parse hpin
    refine Or.inr ⟨policy, List.mem_singleton_self _, rfl, rfl, hvalid.2.1, hvalid.1,
      by simpa using hparse, ?_⟩
    rintro hnil
    change addresses = [] at hnil
    subst hnil
    exact hvalid.2.2 (by simpa using (congrArg List.length hparse).symm)
  · exact Or.inl hf

theorem Describes.mono {xs ys : List (Bytes × NodePolicy)} {f : Bytes} {node : Node}
    (h : Describes xs f node) (hsub : ∀ e ∈ xs, e ∈ ys) : Describes ys f node := by
  obtain ⟨policy, hmem, rest⟩ := h
  exact ⟨policy, hsub _ hmem, rest⟩

theorem pinNodes_get {entries : List (Bytes × NodePolicy)} {nodes final : Table Bytes Node}
    (h : pinNodes nodes entries = .ok final) {f : Bytes} {node : Node}
    (hf : final.get f = some node) : nodes.get f = some node ∨ Describes entries f node := by
  induction entries generalizing nodes with
  | nil =>
    cases h
    exact Or.inl hf
  | cons e entries ih =>
    obtain ⟨name, policy⟩ := e
    simp only [pinNodes] at h
    split at h
    · cases h
    rename_i next hnext
    rcases ih h with hold | hnew
    · rcases pinNode_get hnext hold with hold | hnew
      · exact Or.inl hold
      · exact Or.inr (hnew.mono (by simp))
    · exact Or.inr (hnew.mono fun e he => List.mem_cons_of_mem _ he)

/-- What an accepted configuration has passed. -/
theorem newServer_ok {config : ServerConfig} {server : Server}
    (h : newServer config = .ok server) :
    server.config = config ∧ validFQDN config.trustDomain = true ∧
      pinNodes Table.empty config.nodes.entries = .ok server.nodes := by
  unfold newServer at h
  split at h
  · cases h
  split at h
  · cases h
  split at h
  · cases h
  rename_i hvalid
  push Not at hvalid
  split at h
  · cases h
  rename_i nodes hnodes
  cases h
  exact ⟨rfl, hvalid.1, hnodes⟩

/-- Every node of an accepted server comes from its configuration. -/
theorem newServer_describes {config : ServerConfig} {server : Server}
    (h : newServer config = .ok server) {f : Bytes} {node : Node}
    (hf : server.nodes.get f = some node) : Describes config.nodes.entries f node := by
  obtain ⟨-, -, hnodes⟩ := newServer_ok h
  rcases pinNodes_get hnodes hf with hold | hnew
  · simp at hold
  · exact hnew

/-! ## Every policy has its node -/

theorem pinNode_keeps {nodes next : Table Bytes Node} {name : Bytes} {policy : NodePolicy}
    (h : pinNode nodes name policy = .ok next) {f : Bytes} (hf : (nodes.get f).isSome) :
    next.get f = nodes.get f := by
  unfold pinNode at h
  split at h
  · cases h
  split at h
  · cases h
  rename_i hfresh
  split at h
  · cases h
  split at h
  · cases h
  cases h
  rw [Table.get_put, if_neg]
  rintro rfl
  exact hfresh hf

theorem pinNode_adds {nodes next : Table Bytes Node} {name : Bytes} {policy : NodePolicy}
    (h : pinNode nodes name policy = .ok next) :
    ∃ node, next.get policy.fqdn = some node ∧ node.name = name := by
  unfold pinNode at h
  repeat' split at h
  all_goals cases h
  exact ⟨_, by rw [Table.get_put, if_pos rfl], rfl⟩

theorem pinNodes_keeps {entries : List (Bytes × NodePolicy)} {nodes final : Table Bytes Node}
    (h : pinNodes nodes entries = .ok final) {f : Bytes} (hf : (nodes.get f).isSome) :
    final.get f = nodes.get f := by
  induction entries generalizing nodes with
  | nil =>
    cases h
    rfl
  | cons e entries ih =>
    simp only [pinNodes] at h
    split at h
    · cases h
    rename_i next hnext
    have hkept := pinNode_keeps hnext hf
    rw [ih h (hkept ▸ hf), hkept]

theorem pinNodes_adds {entries : List (Bytes × NodePolicy)} {nodes final : Table Bytes Node}
    (h : pinNodes nodes entries = .ok final) {name : Bytes} {policy : NodePolicy}
    (hmem : (name, policy) ∈ entries) :
    ∃ node, final.get policy.fqdn = some node ∧ node.name = name := by
  induction entries generalizing nodes with
  | nil => cases hmem
  | cons e entries ih =>
    simp only [pinNodes] at h
    split at h
    · cases h
    rename_i next hnext
    rcases List.mem_cons.mp hmem with rfl | hmem
    · obtain ⟨node, hnode, hname⟩ := pinNode_adds hnext
      exact ⟨node, by rw [pinNodes_keeps h (by rw [hnode]; rfl), hnode], hname⟩
    · exact ih h hmem

/-- Every policy of an accepted configuration has its node. -/
theorem newServer_registers {config : ServerConfig} {server : Server}
    (h : newServer config = .ok server) {name : Bytes} {policy : NodePolicy}
    (hmem : config.nodes.get name = some policy) :
    ∃ node, server.nodes.get policy.fqdn = some node ∧ node.name = name :=
  pinNodes_adds (newServer_ok h).2.2 (Table.get_eq_some_iff.mp hmem)

/-- The nodes of an accepted server have the names of its configuration. -/
theorem newServer_names {config : ServerConfig} {server : Server}
    (h : newServer config = .ok server) (name : Bytes) :
    (∃ e ∈ server.nodes.entries, e.2.name = name) ↔ name ∈ config.nodes.entries.map Prod.fst := by
  constructor
  · rintro ⟨⟨fqdn, node⟩, he, rfl⟩
    obtain ⟨policy, hmem, -⟩ := newServer_describes h (Table.get_eq_some_iff.mpr he)
    exact List.mem_map_of_mem hmem
  · intro hname
    obtain ⟨⟨_, policy⟩, he, rfl⟩ := List.mem_map.mp hname
    obtain ⟨node, hnode, hnamed⟩ := newServer_registers h (Table.get_eq_some_iff.mpr he)
    exact ⟨_, Table.get_eq_some_iff.mp hnode, hnamed⟩

end RealmFormal.NodeAttest

import RealmFormal.Helper.Recovery

/-!
# A successful run

The server and the state file that a run leaves when it returns success. A further run
on the same manifest finds nothing to change.
-/

namespace RealmFormal.Helper
open Go Go.Json
set_option autoImplicit false

/-! ## Repeating a run -/

/-- The commands of a run that finds every entry in place. -/
def Declaration.refresh (d : Declaration) : List Command :=
  [.show d.id, .update d.id d.entry.toEntry]

theorem set_self {w : World} {id : Bytes} {e : Entry} (h : w.server id = some e) (c : Command) :
    w.set c id (some e) = { w with log := w.log ++ [c] } := by
  rw [World.set, ← h, Function.update_eq_self]

/-- Without faults an entry that is as declared is shown and updated to itself. -/
theorem apply_again {fates : Nat → Fate} (hok : ∀ n, fates n = .ok) (n : Nat) {w : World}
    {d : Declaration} (h : w.server d.id = some d.entry.toEntry) :
    apply fates n w d =
        (.success, { w with log := w.log ++ [.update d.id d.entry.toEntry] }) ∧
      applyCommands fates n w d = d.refresh := by
  have hshow : execute (fates n) (.show d.id) w = (some true, w) := by
    simp [execute, attempt, hok, Command.run, h]
  have hupdate : execute (fates (n + 1)) (d.command true) w =
      (some true, { w with log := w.log ++ [.update d.id d.entry.toEntry] }) := by
    simp [execute, attempt, hok, Declaration.command, Command.run, h, set_self h]
  exact ⟨by rw [apply, hshow]; dsimp only; rw [hupdate], by rw [applyCommands, hshow]; rfl⟩

theorem applyAll_again {fates : Nat → Fate} (hok : ∀ n, fates n = .ok) (n : Nat) {w : World}
    {ds : List Declaration} (h : ∀ d ∈ ds, w.server d.id = some d.entry.toEntry) :
    ∃ log, applyAll fates n w ds = (.success, { w with log := log }) ∧
      applyAllCommands fates n w ds = ds.flatMap Declaration.refresh := by
  induction ds generalizing n w with
  | nil => exact ⟨w.log, rfl, rfl⟩
  | cons d ds ih =>
    obtain ⟨hd, hcommands⟩ := apply_again hok n (h d List.mem_cons_self)
    have hds : ∀ x ∈ ds, w.server x.id = some x.entry.toEntry := fun x hx =>
      h x (List.mem_cons_of_mem d hx)
    obtain ⟨log, hall, hrest⟩ := ih (n + 2)
      (w := { w with log := w.log ++ [.update d.id d.entry.toEntry] }) hds
    refine ⟨log, ?_, ?_⟩
    · rw [applyAll, hd]
      exact hall
    · rw [applyAllCommands, hd, hcommands, List.flatMap_cons]
      exact congrArg _ hrest

theorem prune_kept (fates : Nat → Fate) {keep : List Bytes} (n : Nat) (w : World)
    (ids : List Bytes) (h : ∀ id ∈ ids, id ∈ keep) :
    prune fates keep n w ids = (.success, n, w) ∧ pruneCommands fates keep n w ids = [] := by
  induction ids with
  | nil => exact ⟨rfl, rfl⟩
  | cons id ids ih =>
    have hid := h id List.mem_cons_self
    rw [prune, pruneCommands, if_pos hid, if_pos hid]
    exact ih fun x hx => h x (List.mem_cons_of_mem id hx)

/-- A run on `raw` without faults succeeds, only shows and updates the declared entries, and
leaves the server and the state file as they are. -/
structure Repeats (raw : Bytes) (m : Manifest) (w : World) : Prop where
  success : (reconcile (faultless raw) w).1 = .success
  commands : reconcileCommands (faultless raw) w = (declarations m).flatMap Declaration.refresh
  server : (reconcile (faultless raw) w).2.server = w.server
  file : (reconcile (faultless raw) w).2.file = w.file

theorem reconcile_again {raw : Bytes} {m : Manifest} (hm : readManifest (.ok raw) = .ok m)
    {w : World} (hfile : w.file = some (encodeState (declaredIDs m)))
    (hserver : ∀ d ∈ declarations m, w.server d.id = some d.entry.toEntry) :
    Repeats raw m w := by
  have hread : readState none w.file = .ok (declaredIDs m) := by
    rw [hfile, readState_encodeState (plain_declaredIDs m)]
  have hok : ∀ n : Nat, (faultless raw).fates n = .ok := fun _ => rfl
  obtain ⟨log, happly, hcommands⟩ := applyAll_again hok 0 hserver
  obtain ⟨hprune, hnone⟩ := prune_kept (faultless raw).fates (2 * (declarations m).length)
    { w with log := log } (declaredIDs m) fun _ hid => hid
  have hrun : reconcile (faultless raw) w =
      (.success, { w with log := log, file := some (encodeState (declaredIDs m)) }) := by
    have hreconcile : reconcile (faultless raw) w =
        reconcileWith (faultless raw).fates m (declaredIDs m) w := by
      simp [reconcile, faultless, hm, hread]
    rw [hreconcile, reconcileWith, happly]
    dsimp only
    rw [hprune]
    rfl
  have hissued : reconcileCommands (faultless raw) w =
      reconcileWithCommands (faultless raw).fates m (declaredIDs m) w := by
    simp [reconcileCommands, faultless, hm, hread]
  refine ⟨by rw [hrun], ?_, by rw [hrun], by rw [hrun, hfile]⟩
  rw [hissued, reconcileWithCommands, happly, hcommands]
  dsimp only
  rw [hnone, List.append_nil]

/-! ## Distinct IDs -/

/-- Two declared entries with different keys have different IDs. -/
def DistinctPairs (m : Manifest) : Prop :=
  ∀ d ∈ declarations m, ∀ e ∈ declarations m, (d.node, d.name) ≠ (e.node, e.name) → d.id ≠ e.id

theorem declaration_unique {m : Manifest} {d e : Declaration} (hd : d ∈ declarations m)
    (he : e ∈ declarations m) (hnode : d.node = e.node) (hname : d.name = e.name) : d = e := by
  obtain ⟨names, hnames, hentry⟩ := mem_declarations.mp hd
  obtain ⟨names', hnames', hentry'⟩ := mem_declarations.mp he
  obtain ⟨node, name, entry⟩ := d
  obtain ⟨node', name', entry'⟩ := e
  cases hnode
  cases hname
  cases hnames.symm.trans hnames'
  cases hentry.symm.trans hentry'
  rfl

theorem nodup_sortedKeys {V : Type} (t : Table Bytes V) : (sortedKeys t).Nodup :=
  (List.perm_insertionSort _ _).nodup_iff.mpr t.distinct

theorem nodup_declarations (m : Manifest) : (declarations m).Nodup := by
  refine List.nodup_flatMap.mpr ⟨?_, ?_⟩
  · intro node hnode
    obtain ⟨names, hnames⟩ := mem_sortedKeys.mp hnode
    rw [hnames]
    refine (nodup_sortedKeys names).filterMap ?_
    intro name name' d hd hd'
    obtain ⟨e, -, rfl⟩ := Option.map_eq_some_iff.mp hd
    obtain ⟨e', -, heq⟩ := Option.map_eq_some_iff.mp hd'
    cases heq
    rfl
  · refine (nodup_sortedKeys m).imp ?_
    intro node node' hne d hd hd'
    dsimp only at hd hd'
    split at hd
    · cases hd
    · split at hd'
      · cases hd'
      · obtain ⟨name, -, h⟩ := List.mem_filterMap.mp hd
        obtain ⟨name', -, h'⟩ := List.mem_filterMap.mp hd'
        obtain ⟨e, -, rfl⟩ := Option.map_eq_some_iff.mp h
        obtain ⟨e', -, heq⟩ := Option.map_eq_some_iff.mp h'
        cases heq
        exact hne rfl

theorem nodup_declaredIDs {m : Manifest} (h : DistinctPairs m) : (declaredIDs m).Nodup := by
  refine (nodup_declarations m).map_on ?_
  intro d hd e he hid
  by_contra hne
  refine h d hd e he ?_ hid
  intro heq
  exact hne (declaration_unique hd he (congrArg Prod.fst heq) (congrArg Prod.snd heq))

/-! ## Success -/

/-- What a successful run on the manifest `m` and the listed IDs `previous` leaves. -/
structure Settled (m : Manifest) (previous : List Bytes) (w w' : World) : Prop where
  declared : ∀ node names name entry, m.get node = some names → names.get name = some entry →
    w'.server (spireEntryID node name) = some entry.toEntry
  gone : ∀ id ∈ previous, id ∉ declaredIDs m → w'.server id = none
  others : ∀ id, id ∉ declaredIDs m → id ∉ previous → w'.server id = w.server id
  file : w'.file = some (encodeState (declaredIDs m))
  listed : readState none w'.file = .ok (declaredIDs m)

theorem reconcileWith_settled {fates : Nat → Fate} {m : Manifest} {w : World}
    (hdistinct : DistinctPairs m) (h : (reconcileWith fates m (listed w) w).1 = .success) :
    Settled m (listed w) w (reconcileWith fates m (listed w) w).2 := by
  have hdeclared := reconcileWith_declared (nodup_declaredIDs hdistinct) h
  have hp := reconcileWith_progress fates m w
  generalize reconcileWith fates m (listed w) w = result at h hdeclared hp
  cases hp with
  | early o w₁ w₂ applied pruned failed => exact absurd h failed
  | written o w₁ w₂ applied pruned gone =>
    refine ⟨?_, ?_, ?_, rfl, readState_encodeState (plain_declaredIDs m)⟩
    · intro node names name entry hnode hname
      exact hdeclared ⟨node, name, entry⟩ (mem_declarations.mpr ⟨names, hnode, hname⟩)
    · intro id hid hundeclared
      exact gone id (mem_stale.mpr ⟨hid, hundeclared⟩)
    · intro id hundeclared hunlisted
      have hstale : id ∉ stale m w := fun hs => hunlisted (mem_stale.mp hs).1
      exact (pruned.others id hstale).trans (applied.others id hundeclared)

/-- A run that returns success leaves the declared set and touches nothing else, whatever
entries the server had and whatever IDs the state file listed; repeating it changes nothing. -/
theorem reconcile_settles {r : Run} {raw : Bytes} {m : Manifest} {previous : List Bytes} {w : World}
    (hraw : r.manifest = .ok raw) (hm : readManifest (.ok raw) = .ok m)
    (hprevious : readState r.stateFault w.file = .ok previous) (hdistinct : DistinctPairs m)
    (h : (reconcile r w).1 = .success) :
    Settled m previous w (reconcile r w).2 ∧ Repeats raw m (reconcile r w).2 := by
  have hlisted : listed w = previous := by
    cases hfault : r.stateFault with
    | some cause =>
      rw [hfault] at hprevious
      cases hprevious
    | none =>
      rw [hfault] at hprevious
      rw [listed, hprevious]
  have hrun : reconcile r w = reconcileWith r.fates m (listed w) w := by
    simp [reconcile, hraw, hm, hprevious, hlisted]
  rw [hrun] at h ⊢
  have hsettled := reconcileWith_settled hdistinct h
  rw [hlisted] at hsettled ⊢
  refine ⟨hsettled, reconcile_again hm hsettled.file ?_⟩
  intro d hd
  obtain ⟨names, hnames, hentry⟩ := mem_declarations.mp hd
  exact hsettled.declared _ _ _ _ hnames hentry

/-- An entry that a former run created, one made by hand, and a state file that lists the
first. -/
def sampleWorld : World :=
  ⟨fun id => if id = str "old" ∨ id = str "hand" then some ⟨⟨str "p", str "s", [str "u"]⟩, 60⟩
      else none,
    [], some (encodeState [str "old"])⟩

theorem reconcile_settles_sampleWorld :
    ∃ m, readManifest (.ok sampleManifest) = .ok m ∧
      Settled m [str "old"] sampleWorld (reconcile (faultless sampleManifest) sampleWorld).2 ∧
      Repeats sampleManifest m (reconcile (faultless sampleManifest) sampleWorld).2 := by
  obtain ⟨m, hm, hnodup⟩ := accepted_of_acceptedIDs sampleManifest_acceptedIDs
  have hdistinct : DistinctPairs m := by
    intro d hd e he hne hid
    cases List.inj_on_of_nodup_map hnodup hd he hid
    exact hne rfl
  have hprevious : readState none sampleWorld.file = .ok [str "old"] :=
    readState_encodeState (by simpa using plainString_str (by decide))
  exact ⟨m, hm, reconcile_settles (r := faultless sampleManifest) rfl hm hprevious hdistinct
    (by decide +kernel)⟩

end RealmFormal.Helper

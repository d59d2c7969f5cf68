import RealmFormal.Helper.Commands

/-!
# Sequences of runs

The state file is written once, at the end of a run. What a run leaves behind when
it ends earlier decides what later runs can still clean up, and whether they can
succeed at all.
-/

namespace RealmFormal.Helper
open Go Go.Json
set_option autoImplicit false

/-- The IDs that a run finds in the state file. -/
def listed (w : World) : List Bytes :=
  match readState none w.file with
  | .ok ids => ids
  | .error _ => []

/-- The state file is missing or was written by `writeState`. -/
def FileOk (w : World) : Prop :=
  w.file = none ∨ ∃ ids, w.file = some (encodeState ids) ∧ (∀ id ∈ ids, PlainString id) ∧ ids.Nodup

theorem listed_of_file {w : World} {ids : List Bytes} (hf : w.file = some (encodeState ids))
    (hplain : ∀ id ∈ ids, PlainString id) : listed w = ids := by
  simp [listed, hf, readState_encodeState hplain]

theorem FileOk.read {w : World} (h : FileOk w) : readState none w.file = .ok (listed w) := by
  rcases h with h | ⟨ids, h, hplain, -⟩
  · simp [listed, h, readState]
  · rw [listed_of_file h hplain, h, readState_encodeState hplain]

theorem FileOk.nodup {w : World} (h : FileOk w) : (listed w).Nodup := by
  rcases h with h | ⟨ids, h, hplain, hnodup⟩
  · simp [listed, h, readState]
  · rwa [listed_of_file h hplain]

theorem plain_declaredIDs (m : Manifest) : ∀ id ∈ declaredIDs m, PlainString id := by
  intro id hid
  obtain ⟨d, -, rfl⟩ := List.mem_map.mp hid
  exact plain_spireEntryID d.node d.name

/-! ## One run -/

/-- The IDs that a run has to delete. -/
def stale (m : Manifest) (w : World) : List Bytes :=
  (listed w).filter fun id => decide (id ∉ declaredIDs m)

theorem mem_stale {m : Manifest} {w : World} {id : Bytes} :
    id ∈ stale m w ↔ id ∈ listed w ∧ id ∉ declaredIDs m := by
  simp [stale]

/-- How far a run got: it ended before the state file was replaced, or it replaced the file
after both loops. -/
inductive Progress (m : Manifest) (w : World) : Outcome × World → Prop where
  | early (o : Outcome) (w₁ w₂ : World) (applied : Applied (declaredIDs m) w w₁)
      (pruned : Pruned (stale m w) w₁ w₂) (failed : o ≠ .success) : Progress m w (o, w₂)
  | written (o : Outcome) (w₁ w₂ : World) (applied : Applied (declaredIDs m) w w₁)
      (pruned : Pruned (stale m w) w₁ w₂) (gone : ∀ id ∈ stale m w, w₂.server id = none) :
      Progress m w (o, { w₂ with file := some (encodeState (declaredIDs m)) })

theorem reconcileWith_eq (fates : Nat → Fate) (m : Manifest) (previous : List Bytes) (w : World) :
    reconcileWith fates m previous w =
      let a := applyAll fates 0 w (declarations m)
      let p := prune fates (declaredIDs m) (2 * (declarations m).length) a.2 previous
      if a.1 = .success then
        if p.1 = .success then writeState (fates p.2.1) (declaredIDs m) p.2.2 else (p.1, p.2.2)
      else a := by
  rw [reconcileWith]
  generalize applyAll fates 0 w (declarations m) = a
  obtain ⟨_ | _ | _, w₁⟩ := a
  · dsimp only
    generalize prune fates (declaredIDs m) (2 * (declarations m).length) w₁ previous = p
    obtain ⟨_ | _ | _, n, w₂⟩ := p <;> simp
  · simp
  · simp

theorem reconcileWith_progress (fates : Nat → Fate) (m : Manifest) (w : World) :
    Progress m w (reconcileWith fates m (listed w) w) := by
  have happlied := applyAll_applied fates 0 w (declarations m)
  have hpruned := prune_pruned fates (declaredIDs m) (2 * (declarations m).length)
    (applyAll fates 0 w (declarations m)).2 (listed w)
  rw [reconcileWith_eq]
  dsimp only
  split
  · split
    · rename_i hprune
      rcases writeState_cases (fates (prune fates (declaredIDs m) (2 * (declarations m).length)
        (applyAll fates 0 w (declarations m)).2 (listed w)).2.1) (declaredIDs m)
        (prune fates (declaredIDs m) (2 * (declarations m).length)
          (applyAll fates 0 w (declarations m)).2 (listed w)).2.2 with ⟨hsame, hfailed⟩ | hwrite
      · rw [← Prod.mk.eta (p := writeState _ _ _), hsame]
        exact .early _ _ _ happlied hpruned hfailed
      · rw [← Prod.mk.eta (p := writeState _ _ _), hwrite]
        refine .written _ _ _ happlied hpruned fun id hid => ?_
        obtain ⟨hlisted, hundeclared⟩ := mem_stale.mp hid
        exact prune_success hprune id hlisted hundeclared
    · rename_i hprune
      exact .early _ _ _ happlied hpruned hprune
  · rename_i happly
    exact .early _ _ _ happlied (Pruned.refl _ _) happly

/-- Without faults a run succeeds exactly when every stale ID is on the server. -/
theorem reconcileWith_ok {fates : Nat → Fate} (hok : ∀ n, fates n = .ok) (m : Manifest) {w : World}
    (hw : (listed w).Nodup) :
    (reconcileWith fates m (listed w) w).1 = .success ↔
      ∀ id ∈ stale m w, (w.server id).isSome := by
  have hothers := (applyAll_applied fates 0 w (declarations m)).others
  have hprune := prune_ok hok (declaredIDs m) (2 * (declarations m).length)
    (applyAll fates 0 w (declarations m)).2 hw
  have hstale : (∀ id ∈ listed w, id ∉ declaredIDs m →
      ((applyAll fates 0 w (declarations m)).2.server id).isSome) ↔
        ∀ id ∈ stale m w, (w.server id).isSome := by
    simp only [mem_stale, and_imp]
    refine forall_congr' fun id => forall_congr' fun _ => forall_congr' fun hid => ?_
    rw [hothers id hid]
  rw [hstale] at hprune
  rw [reconcileWith_eq, ← hprune]
  dsimp only
  rw [if_pos (applyAll_ok hok ..)]
  split
  · rename_i hp
    simp [writeState, attempt, hok, hp]
  · rename_i hp
    simp [hp]

/-- After a successful run the declared entries are as declared. -/
theorem reconcileWith_declared {fates : Nat → Fate} {m : Manifest} {w : World}
    (hdistinct : (declaredIDs m).Nodup)
    (h : (reconcileWith fates m (listed w) w).1 = .success) :
    ∀ d ∈ declarations m,
      (reconcileWith fates m (listed w) w).2.server d.id = some d.entry.toEntry := by
  have hpruned := prune_pruned fates (declaredIDs m) (2 * (declarations m).length)
    (applyAll fates 0 w (declarations m)).2 (listed w)
  rw [reconcileWith_eq] at h ⊢
  dsimp only at h ⊢
  split at h
  · rename_i happly
    rw [if_pos happly]
    split at h
    · rename_i hprune
      rw [if_pos hprune]
      intro d hd
      have hset := applyAll_success hdistinct happly d hd
      have hkeep : d.id ∉ stale m w := fun hs =>
        (mem_stale.mp hs).2 (List.mem_map_of_mem hd)
      have hserver : ∀ fate ids x, (writeState fate ids x).2.server = x.server := by
        intro fate ids x
        rcases writeState_cases fate ids x with ⟨hsame, -⟩ | hwrite
        · rw [hsame]
        · rw [hwrite]
      rw [hserver, hpruned.others d.id hkeep, hset]
    · contradiction
  · contradiction

/-! ## Whole sequences -/

/-- The manifest of a run, if it is accepted, gives its entries distinct IDs. -/
def DistinctIDs (r : Run) : Prop :=
  ∀ m, readManifest r.manifest = .ok m → (declaredIDs m).Nodup

/-- A run does nothing, or it reconciles its manifest with the listed IDs. -/
theorem reconcile_cases {w : World} (hw : FileOk w) (r : Run) :
    ((reconcile r w).2 = w ∧ (reconcile r w).1 ≠ .success) ∨
      ∃ m, readManifest r.manifest = .ok m ∧
        reconcile r w = reconcileWith r.fates m (listed w) w := by
  unfold reconcile
  split
  · exact Or.inl ⟨rfl, nofun⟩
  · rename_i m hm
    cases hfault : r.stateFault with
    | some cause => exact Or.inl ⟨rfl, nofun⟩
    | none =>
      rw [hw.read]
      exact Or.inr ⟨m, hm, rfl⟩

theorem FileOk.step {w : World} (hw : FileOk w) {r : Run} (hr : DistinctIDs r) :
    FileOk (reconcile r w).2 := by
  rcases reconcile_cases hw r with ⟨h, -⟩ | ⟨m, hm, h⟩
  · rwa [h]
  · rw [h]
    have hp := reconcileWith_progress r.fates m w
    generalize reconcileWith r.fates m (listed w) w = result at hp
    cases hp with
    | early o w₁ w₂ applied pruned failed =>
      unfold FileOk
      rw [pruned.file, applied.file]
      exact hw
    | written o w₁ w₂ applied pruned gone =>
      exact Or.inr ⟨declaredIDs m, rfl, plain_declaredIDs m, hr m hm⟩

theorem runAll_snoc (w : World) (runs : List Run) (r : Run) :
    runAll w (runs ++ [r]) = (reconcile r (runAll w runs)).2 := by
  simp [runAll]

theorem fileOk_runAll {w : World} (hw : w.file = none) {runs : List Run}
    (hruns : ∀ r ∈ runs, DistinctIDs r) : FileOk (runAll w runs) := by
  induction runs using List.reverseRecOn with
  | nil => exact Or.inl hw
  | append_singleton runs r ih =>
    rw [runAll_snoc]
    exact (ih fun x hx => hruns x (List.mem_append_left _ hx)).step
      (hruns r (List.mem_append_right _ (List.mem_singleton_self r)))

/-- A run without faults on the manifest file `raw`. -/
def faultless (raw : Bytes) : Run := ⟨.ok raw, none, fun _ => .ok⟩

/-- After any sequence of runs, a further run without faults succeeds and leaves the declared
entries exactly when every listed ID that is no longer declared is still on the server. -/
theorem faultless_recovers_iff {w : World} (hw : w.file = none) {runs : List Run}
    (hruns : ∀ r ∈ runs, DistinctIDs r) {raw : Bytes} {m : Manifest}
    (hm : readManifest (.ok raw) = .ok m) (hdistinct : (declaredIDs m).Nodup) :
    ((reconcile (faultless raw) (runAll w runs)).1 = .success ∧
      ∀ node names name entry, m.get node = some names → names.get name = some entry →
        (reconcile (faultless raw) (runAll w runs)).2.server (spireEntryID node name) =
          some entry.toEntry) ↔
    ∀ id ∈ listed (runAll w runs), id ∉ declaredIDs m → ((runAll w runs).server id).isSome := by
  have hfile := fileOk_runAll hw hruns
  have hrun : reconcile (faultless raw) (runAll w runs) =
      reconcileWith (fun _ => .ok) m (listed (runAll w runs)) (runAll w runs) := by
    simp [reconcile, faultless, hm, hfile.read]
  have hok := reconcileWith_ok (fun _ => rfl : ∀ n : Nat, (fun _ => Fate.ok) n = .ok) m hfile.nodup
  rw [hrun, hok]
  simp only [mem_stale, and_imp]
  refine ⟨fun h => h.1, fun h => ⟨h, fun node names name entry hnode hname => ?_⟩⟩
  have hsuccess := hok.mpr fun id hid => h id (mem_stale.mp hid).1 (mem_stale.mp hid).2
  exact reconcileWith_declared hdistinct hsuccess ⟨node, name, entry⟩
    (mem_declarations.mpr ⟨names, hnode, hname⟩)

/-- A manifest that declares one entry `a` on node `n`. -/
def sampleManifest : Bytes :=
  str ("\x7b\"n\":\x7b\"a\":\x7b\"parentID\":\"p\",\"spiffeID\":\"s\"," ++
    "\"selectors\":[\"u\"]\x7d\x7d\x7d")

/-- A manifest that declares nothing. -/
def emptyManifest : Bytes := str "\x7b\x7d"

def emptyWorld : World := ⟨fun _ => none, [], none⟩

/-- A run on `raw` whose action `n` is where the process stops. -/
def stopsAt (n : Nat) (raw : Bytes) : Run :=
  ⟨.ok raw, none, fun i => if i = n then .stop false else .ok⟩

/-- The entry is created and listed; a second run deletes it and stops before it writes the
state file; every further run fails on the delete. -/
theorem faultless_fails_after_stop :
    (reconcile (faultless emptyManifest)
      (runAll emptyWorld [faultless sampleManifest, stopsAt 1 emptyManifest])).1 =
        .error (.deleteStale (spireEntryID (str "n") (str "a"))) := by
  decide +kernel

/-- A manifest file is accepted and gives its entries distinct IDs. -/
def acceptedIDs (raw : Bytes) : Bool :=
  match readManifest (.ok raw) with
  | .ok m => decide (declaredIDs m).Nodup
  | .error _ => false

theorem accepted_of_acceptedIDs {raw : Bytes} (h : acceptedIDs raw = true) :
    ∃ m, readManifest (.ok raw) = .ok m ∧ (declaredIDs m).Nodup := by
  unfold acceptedIDs at h
  split at h
  · rename_i m hm
    exact ⟨m, hm, of_decide_eq_true h⟩
  · cases h

theorem faultless_distinctIDs {raw : Bytes} (h : acceptedIDs raw = true) :
    DistinctIDs (faultless raw) := by
  obtain ⟨m, hm, hnodup⟩ := accepted_of_acceptedIDs h
  intro m' hm'
  cases hm.symm.trans hm'
  exact hnodup

theorem sampleManifest_acceptedIDs : acceptedIDs sampleManifest = true := by
  decide +kernel

theorem emptyManifest_acceptedIDs : acceptedIDs emptyManifest = true := by
  decide +kernel

/-- After one complete run every listed ID is on the server. -/
theorem sampleManifest_listed_present :
    ∀ id ∈ listed (runAll emptyWorld [faultless sampleManifest]),
      ((runAll emptyWorld [faultless sampleManifest]).server id).isSome := by
  decide +kernel

theorem faultless_recovers_iff_sampleManifest :
    (reconcile (faultless emptyManifest) (runAll emptyWorld [faultless sampleManifest])).1 =
      .success := by
  obtain ⟨m, hm, hnodup⟩ := accepted_of_acceptedIDs emptyManifest_acceptedIDs
  have hruns : ∀ r ∈ [faultless sampleManifest], DistinctIDs r := by
    simpa using faultless_distinctIDs sampleManifest_acceptedIDs
  exact ((faultless_recovers_iff (w := emptyWorld) rfl hruns hm hnodup).mpr
    fun id hid _ => sampleManifest_listed_present id hid).1

/-! ## Entries without an owner -/

/-- The run may bring an entry to the server that no state file lists. -/
def Introduces (m : Manifest) (w : World) : Prop :=
  ∃ id ∈ declaredIDs m, w.server id = none ∧ id ∉ listed w

/-- A run that introduces an entry meets no fault and no stale ID that is already gone. -/
def Careful (r : Run) (w : World) : Prop :=
  ∀ m, readManifest r.manifest = .ok m → Introduces m w →
    (∀ n, r.fates n = .ok) ∧ ∀ id ∈ listed w, id ∉ declaredIDs m → (w.server id).isSome

/-- A successful run leaves a state file that lists exactly the declared IDs. -/
theorem listed_of_success {w : World} (hfile : FileOk w) {r : Run}
    (h : (reconcile r w).1 = .success) {m : Manifest} (hm : readManifest r.manifest = .ok m) :
    listed (reconcile r w).2 = declaredIDs m := by
  rcases reconcile_cases hfile r with ⟨-, hne⟩ | ⟨m', hm', heq⟩
  · exact absurd h hne
  · cases hm.symm.trans hm'
    rw [heq] at h ⊢
    have hp := reconcileWith_progress r.fates m w
    generalize reconcileWith r.fates m (listed w) w = result at hp h
    cases hp with
    | early o w₁ w₂ applied pruned failed => exact absurd h failed
    | written o w₁ w₂ applied pruned gone => exact listed_of_file rfl (plain_declaredIDs m)

/-- What a run can do to the entries and to what is known of them. -/
structure Stepped (w w' : World) : Prop where
  log : ∃ effects, w'.log = w.log ++ effects ∧ ∀ id, (w'.server id).isSome →
    (w.server id).isSome ∨ ∃ entry, Command.create id entry ∈ effects
  created : ∀ id, Created w' id → (w.server id).isSome → Created w id
  kept : ∀ id, (w.server id).isSome → id ∉ listed w → (w'.server id).isSome
  dropped : ∀ id ∈ listed w, id ∉ listed w' → w'.server id = none

theorem Stepped.refl (w : World) : Stepped w w :=
  ⟨⟨[], (List.append_nil _).symm, fun _ h => Or.inl h⟩, fun _ h _ => h, fun _ h _ => h,
    fun _ h hn => absurd h hn⟩

/-- The two loops, up to what becomes of the state file. -/
theorem loops_stepped {m : Manifest} {w w₁ w₂ : World} (applied : Applied (declaredIDs m) w w₁)
    (pruned : Pruned (stale m w) w₁ w₂) (file : Option Bytes)
    (hdropped : ∀ id ∈ listed w, id ∉ listed { w₂ with file := file } → w₂.server id = none) :
    Stepped w { w₂ with file := file } where
  log := by
    obtain ⟨es, hes, happeared⟩ := applied.log
    obtain ⟨fs, hfs⟩ := pruned.log
    refine ⟨es ++ fs, by rw [hfs, hes, List.append_assoc], ?_⟩
    intro id hid
    exact (happeared id (pruned.less id hid)).imp_right fun ⟨entry, hmem⟩ =>
      ⟨entry, List.mem_append_left _ hmem⟩
  created := by
    intro id hcreated hpresent
    rcases applied.created id (pruned.created id hcreated) with hold | ⟨-, hnone⟩
    · exact hold
    · rw [hnone] at hpresent
      cases hpresent
  kept := by
    intro id hpresent hunlisted
    have hstale : id ∉ stale m w := fun hs => hunlisted (mem_stale.mp hs).1
    have hsame : w₂.server id = w₁.server id := pruned.others id hstale
    show (w₂.server id).isSome
    rw [hsame]
    exact applied.kept id hpresent
  dropped := hdropped

theorem Progress.stepped {m : Manifest} {w : World} {r : Outcome × World} (h : Progress m w r) :
    Stepped w r.2 := by
  cases h with
  | early o w₁ w₂ applied pruned failed =>
    have hlisted : listed w₂ = listed w := by
      simp only [listed, pruned.file, applied.file]
    refine loops_stepped applied pruned w₂.file ?_
    intro id hid hunlisted
    exact absurd (hlisted ▸ hid) hunlisted
  | written o w₁ w₂ applied pruned gone =>
    refine loops_stepped applied pruned _ ?_
    intro id hid hunlisted
    rw [listed_of_file rfl (plain_declaredIDs m)] at hunlisted
    exact gone id (mem_stale.mpr ⟨hid, hunlisted⟩)

theorem reconcile_stepped {w : World} (hw : FileOk w) (r : Run) : Stepped w (reconcile r w).2 := by
  rcases reconcile_cases hw r with ⟨h, -⟩ | ⟨m, -, h⟩
  · rw [h]
    exact Stepped.refl w
  · rw [h]
    exact (reconcileWith_progress r.fates m w).stepped

/-- An entry of this tool is on the server, and the state file does not list it. -/
structure Loose (w : World) (id : Bytes) : Prop where
  created : Created w id
  present : (w.server id).isSome
  unlisted : id ∉ listed w

/-- The run creates the entry, and leaves a state file that does not list it. -/
structure Leaks (r : Run) (w : World) (id : Bytes) : Prop where
  issued : ∃ entry, Command.create id entry ∈ reconcileCommands r w
  absent : w.server id = none
  present : ((reconcile r w).2.server id).isSome
  unlisted : id ∉ listed (reconcile r w).2

theorem loose_step {w : World} (hw : FileOk w) (r : Run) (id : Bytes) :
    Loose (reconcile r w).2 id ↔
      (Loose w id ∧ id ∉ listed (reconcile r w).2) ∨ Leaks r w id := by
  have hstep := reconcile_stepped hw r
  obtain ⟨effects, hlog, happeared⟩ := hstep.log
  constructor
  · rintro ⟨hcreated, hpresent, hunlisted⟩
    by_cases hbefore : (w.server id).isSome
    · refine Or.inl ⟨⟨hstep.created id hcreated hbefore, hbefore, ?_⟩, hunlisted⟩
      intro hlisted
      rw [hstep.dropped id hlisted hunlisted] at hpresent
      cases hpresent
    · obtain ⟨issued, hissued, hsublist⟩ := reconcile_issued r w
      have heffects : effects = issued := List.append_cancel_left (hlog.symm.trans hissued)
      obtain ⟨entry, hmem⟩ := (happeared id hpresent).resolve_left hbefore
      exact Or.inr ⟨⟨entry, hsublist.subset (heffects ▸ hmem)⟩, by simpa using hbefore, hpresent,
        hunlisted⟩
  · rintro (⟨⟨⟨entry, hmem⟩, hpresent, hunlisted⟩, hafter⟩ | ⟨-, habsent, hpresent, hunlisted⟩)
    · exact ⟨⟨entry, hlog ▸ List.mem_append_left _ hmem⟩, hstep.kept id hpresent hunlisted, hafter⟩
    · have hbefore : ¬ (w.server id).isSome := by simp [habsent]
      obtain ⟨entry, hmem⟩ := (happeared id hpresent).resolve_left hbefore
      exact ⟨⟨entry, hlog ▸ List.mem_append_right _ hmem⟩, hpresent, hunlisted⟩

/-- The entry was leaked, and no state file has listed it since. -/
theorem loose_runAll_iff {w : World} (hw : w.file = none) (hlog : w.log = []) {runs : List Run}
    (hruns : ∀ r ∈ runs, DistinctIDs r) (id : Bytes) :
    Loose (runAll w runs) id ↔ ∃ before r after, runs = before ++ r :: after ∧
      Leaks r (runAll w before) id ∧
      ∀ mid, mid <+: after → id ∉ listed (runAll w (before ++ r :: mid)) := by
  induction runs using List.reverseRecOn with
  | nil =>
    constructor
    · rintro ⟨⟨entry, hmem⟩, -, -⟩
      simp [runAll, hlog] at hmem
    · rintro ⟨before, r, after, heq, -⟩
      simp at heq
  | append_singleton runs last ih =>
    have hbefore : ∀ x ∈ runs, DistinctIDs x := fun x hx => hruns x (List.mem_append_left _ hx)
    rw [runAll_snoc, loose_step (fileOk_runAll hw hbefore), ih hbefore, ← runAll_snoc]
    constructor
    · rintro (⟨⟨before, r, after, rfl, hleaks, hmid⟩, hunlisted⟩ | hleaks)
      · refine ⟨before, r, after ++ [last], by simp, hleaks, ?_⟩
        intro mid hstart
        rcases List.prefix_concat_iff.mp hstart with rfl | hstart
        · simpa using hunlisted
        · exact hmid mid hstart
      · refine ⟨runs, last, [], rfl, hleaks, ?_⟩
        intro mid hstart
        rw [List.prefix_nil.mp hstart, runAll_snoc]
        exact hleaks.unlisted
    · rintro ⟨before, r, after, heq, hleaks, hmid⟩
      rcases List.eq_nil_or_concat' after with rfl | ⟨init, x, rfl⟩
      · obtain ⟨rfl, hlast⟩ := List.append_inj' heq rfl
        cases hlast
        exact Or.inr hleaks
      · rw [← List.cons_append, ← List.append_assoc] at heq
        obtain ⟨rfl, hlast⟩ := List.append_inj' heq rfl
        cases hlast
        refine Or.inl ⟨⟨before, r, init, rfl, hleaks, ?_⟩, ?_⟩
        · intro mid hstart
          exact hmid mid (hstart.trans (List.prefix_append init [last]))
        · have hall := hmid (init ++ [last]) (List.prefix_refl _)
          simpa using hall

/-- After a successful run no entry of this tool is left on the server without being declared
exactly when each leaked entry was later listed in a state file. -/
theorem no_orphan_iff {w : World} (hw : w.file = none) (hlog : w.log = []) {runs : List Run}
    {r : Run} (hruns : ∀ x ∈ runs ++ [r], DistinctIDs x)
    (hsuccess : (reconcile r (runAll w runs)).1 = .success) {m : Manifest}
    (hm : readManifest r.manifest = .ok m) :
    (∀ id, Created (runAll w (runs ++ [r])) id → id ∉ declaredIDs m →
        (runAll w (runs ++ [r])).server id = none) ↔
      ∀ before x after id, runs ++ [r] = before ++ x :: after → Leaks x (runAll w before) id →
        ∃ mid, mid <+: after ∧ id ∈ listed (runAll w (before ++ x :: mid)) := by
  have hfile := fileOk_runAll hw fun x hx => hruns x (List.mem_append_left _ hx)
  have hlisted : listed (runAll w (runs ++ [r])) = declaredIDs m := by
    rw [runAll_snoc, listed_of_success hfile hsuccess hm]
  have hloose := loose_runAll_iff hw hlog hruns
  constructor
  · intro hnone before x after id heq hleaks
    by_contra hmid
    push Not at hmid
    obtain ⟨hcreated, hpresent, hunlisted⟩ := (hloose id).mpr ⟨before, x, after, heq, hleaks, hmid⟩
    rw [hnone id hcreated (hlisted ▸ hunlisted)] at hpresent
    cases hpresent
  · intro hleaked id hcreated hundeclared
    by_contra hpresent
    obtain ⟨before, x, after, heq, hleaks, hmid⟩ := (hloose id).mp
      ⟨hcreated, Option.isSome_iff_ne_none.mpr hpresent, hlisted ▸ hundeclared⟩
    obtain ⟨mid, hstart, hmem⟩ := hleaked before x after id heq hleaks
    exact hmid mid hstart hmem

/-- A careful run lists what it creates. -/
theorem Careful.not_leaks {w : World} (hw : FileOk w) {r : Run} (hr : Careful r w) (id : Bytes) :
    ¬ Leaks r w id := by
  rintro ⟨-, habsent, hpresent, hunlisted⟩
  rcases reconcile_cases hw r with ⟨h, -⟩ | ⟨m, hm, h⟩
  · rw [h, habsent] at hpresent
    cases hpresent
  · have hsuccess : id ∉ listed w → id ∈ declaredIDs m → (reconcile r w).1 = .success := by
      intro hnew hid
      obtain ⟨hok, hthere⟩ := hr m hm ⟨id, hid, habsent, hnew⟩
      rw [h]
      exact (reconcileWith_ok hok m hw.nodup).mpr fun id hid =>
        hthere id (mem_stale.mp hid).1 (mem_stale.mp hid).2
    rw [h] at hpresent hunlisted hsuccess
    have hp := reconcileWith_progress r.fates m w
    generalize reconcileWith r.fates m (listed w) w = result at hp hpresent hunlisted hsuccess
    cases hp with
    | early o w₁ w₂ applied pruned failed =>
      have hlisted : listed w₂ = listed w := by
        simp only [listed, pruned.file, applied.file]
      have hid : id ∈ declaredIDs m := by
        by_contra hid
        have hsome := pruned.less id hpresent
        rw [applied.others id hid, habsent] at hsome
        cases hsome
      exact failed (hsuccess (hlisted ▸ hunlisted) hid)
    | written o w₁ w₂ applied pruned gone =>
      rw [listed_of_file rfl (plain_declaredIDs m)] at hunlisted
      have hsome := pruned.less id hpresent
      rw [applied.others id hunlisted, habsent] at hsome
      cases hsome

/-- Every run of the sequence is careful in the world it meets. -/
def AllCareful (w : World) (runs : List Run) : Prop :=
  ∀ before r after, runs = before ++ r :: after → Careful r (runAll w before)

/-- In a sequence of careful runs, a successful run leaves on the server no entry that the
tool created and that the manifest of that run does not declare. -/
theorem careful_no_orphan {w : World} (hw : w.file = none) (hlog : w.log = []) {runs : List Run}
    {r : Run} (hruns : ∀ x ∈ runs ++ [r], DistinctIDs x) (hcareful : AllCareful w (runs ++ [r]))
    (hsuccess : (reconcile r (runAll w runs)).1 = .success) {m : Manifest}
    (hm : readManifest r.manifest = .ok m) {node name : Bytes}
    (hcreated : Created (runAll w (runs ++ [r])) (spireEntryID node name))
    (hundeclared : ∀ names entry, m.get node = some names → names.get name ≠ some entry)
    (hdistinct : ∀ d ∈ declarations m, d.id = spireEntryID node name →
      d.node = node ∧ d.name = name) :
    (runAll w (runs ++ [r])).server (spireEntryID node name) = none := by
  have hnone := (no_orphan_iff hw hlog hruns hsuccess hm).mpr fun before x after id heq hleaks => by
    have hbefore : ∀ y ∈ before, DistinctIDs y := fun y hy =>
      hruns y (heq ▸ List.mem_append_left _ hy)
    exact absurd hleaks ((hcareful before x after heq).not_leaks (fileOk_runAll hw hbefore) id)
  refine hnone _ hcreated ?_
  intro hdeclared
  obtain ⟨d, hd, hid⟩ := List.mem_map.mp hdeclared
  obtain ⟨rfl, rfl⟩ := hdistinct d hd hid
  obtain ⟨names, hnames, hentry⟩ := mem_declarations.mp hd
  exact hundeclared names d.entry hnames hentry

theorem careful_no_orphan_sampleManifest :
    (runAll emptyWorld ([faultless sampleManifest] ++ [faultless emptyManifest])).server
      (spireEntryID (str "n") (str "a")) = none := by
  obtain ⟨m, hm, -⟩ := accepted_of_acceptedIDs emptyManifest_acceptedIDs
  have hempty : declarations m = [] := by
    have h : (readManifest (.ok emptyManifest)).toOption.map declarations = some [] := by
      decide +kernel
    simpa [hm, Except.toOption] using h
  have hruns : ∀ r ∈ [faultless sampleManifest] ++ [faultless emptyManifest], DistinctIDs r := by
    simpa using ⟨faultless_distinctIDs sampleManifest_acceptedIDs,
      faultless_distinctIDs emptyManifest_acceptedIDs⟩
  have hcareful :
      AllCareful emptyWorld ([faultless sampleManifest] ++ [faultless emptyManifest]) := by
    intro before r after h
    rcases before with _ | ⟨first, _ | ⟨second, before⟩⟩
    · cases h
      exact fun _ _ _ => ⟨fun _ => rfl, nofun⟩
    · cases h
      exact fun _ _ _ => ⟨fun _ => rfl, fun id hid _ => sampleManifest_listed_present id hid⟩
    · simp at h
  have hcreated : Command.create (spireEntryID (str "n") (str "a"))
      ⟨⟨str "p", str "s", [str "u"]⟩, 3600⟩ ∈
        (runAll emptyWorld ([faultless sampleManifest] ++ [faultless emptyManifest])).log := by
    decide +kernel
  refine careful_no_orphan rfl rfl hruns hcareful (by decide +kernel) hm ⟨_, hcreated⟩ ?_ ?_
  · intro names entry hnode hname
    have hd := mem_declarations (d := ⟨_, _, _⟩).mpr ⟨names, hnode, hname⟩
    simp [hempty] at hd
  · simp [hempty]

/-- The entry is created, the process stops before it writes the state file, and the next run
succeeds without the entry in its manifest and leaves it on the server. -/
theorem orphan_after_stop :
    (reconcile (faultless emptyManifest) (runAll emptyWorld [stopsAt 2 sampleManifest])).1 =
        .success ∧
      Command.create (spireEntryID (str "n") (str "a")) ⟨⟨str "p", str "s", [str "u"]⟩, 3600⟩ ∈
        (runAll emptyWorld [stopsAt 2 sampleManifest]).log ∧
      (runAll emptyWorld [stopsAt 2 sampleManifest, faultless emptyManifest]).server
        (spireEntryID (str "n") (str "a")) = some ⟨⟨str "p", str "s", [str "u"]⟩, 3600⟩ := by
  decide +kernel

end RealmFormal.Helper

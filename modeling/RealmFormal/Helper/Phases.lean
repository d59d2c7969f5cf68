import RealmFormal.Helper.SpireRegister

/-!
# The phases of one run

What each phase of `reconcile` can do to the world, whatever the fates of its
actions, and what it has done when it succeeds.
-/

namespace RealmFormal.Helper
open Go Go.Json
set_option autoImplicit false

/-! ## Names and files -/

theorem mem_sortedKeys {V : Type} {t : Table Bytes V} {k : Bytes} :
    k ∈ sortedKeys t ↔ ∃ v, t.get k = some v := by
  rw [sortedKeys, List.mem_insertionSort, List.mem_map]
  constructor
  · rintro ⟨⟨j, v⟩, hmem, rfl⟩
    exact ⟨v, Table.get_eq_some_iff.mpr hmem⟩
  · rintro ⟨v, hv⟩
    exact ⟨(k, v), Table.get_eq_some_iff.mp hv, rfl⟩

/-- The declarations are the entries of the manifest. -/
theorem mem_declarations {m : Manifest} {d : Declaration} :
    d ∈ declarations m ↔ ∃ names, m.get d.node = some names ∧ names.get d.name = some d.entry := by
  simp only [declarations, List.mem_flatMap, mem_sortedKeys]
  constructor
  · rintro ⟨node, ⟨names, hnames⟩, hd⟩
    rw [hnames] at hd
    obtain ⟨name, -, hname⟩ := List.mem_filterMap.mp hd
    obtain ⟨e, he, rfl⟩ := Option.map_eq_some_iff.mp hname
    exact ⟨names, hnames, he⟩
  · rintro ⟨names, hnames, hentry⟩
    refine ⟨d.node, ⟨names, hnames⟩, ?_⟩
    rw [hnames]
    exact List.mem_filterMap.mpr ⟨d.name, mem_sortedKeys.mpr ⟨_, hentry⟩, by simp [hentry]⟩

theorem plain_hexLower : ∀ n < 16, isPlain (hexLower n) = true := by decide

theorem plain_hex (bs : Bytes) : PlainString (hex bs) := by
  intro b hb
  obtain ⟨x, -, hx⟩ := List.mem_flatMap.mp hb
  have hlt : x.toNat < 256 := x.toNat_lt
  rcases List.mem_cons.mp hx with rfl | hx
  · exact plain_hexLower _ (by omega)
  · rw [List.mem_singleton.mp hx]
    exact plain_hexLower _ (by omega)

theorem plain_spireEntryID (node name : Bytes) : PlainString (spireEntryID node name) := by
  have hdash : PlainString (str "-") := plainString_str (by decide)
  have hgroups : ∀ a b c d e, PlainString
      (hex a ++ str "-" ++ hex b ++ str "-" ++ hex c ++ str "-" ++ hex d ++ str "-" ++ hex e) :=
    fun _ _ _ _ _ => plainString_append (plainString_append (plainString_append
      (plainString_append (plainString_append (plainString_append (plainString_append
        (plainString_append (plain_hex _) hdash) (plain_hex _)) hdash) (plain_hex _)) hdash)
        (plain_hex _)) hdash) (plain_hex _)
  exact hgroups _ _ _ _ _

theorem plainElements_strings {ids : List Bytes} (h : ∀ id ∈ ids, PlainString id) :
    PlainElements (ids.map Value.string) := by
  induction ids with
  | nil => trivial
  | cons id ids ih =>
    exact ⟨h id List.mem_cons_self, ih fun x hx => h x (List.mem_cons_of_mem _ hx)⟩

/-- A state file is read back as it was written. -/
theorem readState_encodeState {ids : List Bytes} (h : ∀ id ∈ ids, PlainString id) :
    readState none (some (encodeState ids)) = .ok ids := by
  have hparse : parseDocument (encodeState ids) = some (.array (ids.map Value.string)) :=
    parseDocument_encode (plainElements_strings h)
  simp [readState, hparse, toTexts_array]

/-! ## Commands -/

theorem attempt_world (fate : Fate) (action : World → Option World) (w : World) :
    (attempt fate action w).2 = w ∨ action w = some (attempt fate action w).2 := by
  unfold attempt
  split
  · split
    · rename_i h
      exact Or.inr h
    · exact Or.inl rfl
  · exact Or.inl rfl
  · split
    · cases h : action w with
      | none => exact Or.inl rfl
      | some w' => exact Or.inr rfl
    · exact Or.inl rfl

theorem attempt_true {fate : Fate} {action : World → Option World} {w : World}
    (h : (attempt fate action w).1 = some true) :
    action w = some (attempt fate action w).2 := by
  unfold attempt at h ⊢
  split
  · split
    · assumption
    · rename_i hnone
      rw [hnone] at h
      cases h
  · cases h
  · cases h

/-- The world after a declared entry was handled: untouched, or the entry was set. -/
inductive Touch (d : Declaration) (w : World) : World → Prop where
  | same : Touch d w w
  | created (h : w.server d.id = none) :
      Touch d w (w.set (.create d.id d.entry.toEntry) d.id (some d.entry.toEntry))
  | updated (h : (w.server d.id).isSome) :
      Touch d w (w.set (.update d.id d.entry.toEntry) d.id (some d.entry.toEntry))

theorem execute_show (fate : Fate) (id : Bytes) (w : World) :
    (execute fate (.show id) w).2 = w := by
  rcases attempt_world fate (Command.show id).run w with h | h
  · exact h
  · simp only [Command.run] at h
    split at h
    · exact (Option.some.inj h).symm
    · cases h

theorem run_set_touch {d : Declaration} {w w' : World} {present : Bool}
    (h : (d.command present).run w = some w') :
    Touch d w w' ∧ w'.server d.id = some d.entry.toEntry := by
  cases present with
  | true =>
    simp only [Declaration.command, if_true, Command.run] at h
    split at h
    · rename_i hsome
      cases h
      exact ⟨.updated hsome, by simp [World.set]⟩
    · cases h
  | false =>
    simp only [Declaration.command, Bool.false_eq_true, if_false, Command.run] at h
    split at h
    · cases h
    · rename_i hnone
      cases h
      exact ⟨.created (by simpa using hnone), by simp [World.set]⟩

theorem execute_command (fate : Fate) (d : Declaration) (present : Bool) (w : World) :
    Touch d w (execute fate (d.command present) w).2 ∧
      ((execute fate (d.command present) w).1 = some true →
        (execute fate (d.command present) w).2.server d.id = some d.entry.toEntry) := by
  refine ⟨?_, fun h => (run_set_touch (attempt_true h)).2⟩
  rcases attempt_world fate (d.command present).run w with h | h
  · rw [execute, h]
    exact .same
  · exact (run_set_touch h).1

theorem apply_touch (fates : Nat → Fate) (n : Nat) (w : World) (d : Declaration) :
    Touch d w (apply fates n w d).2 ∧
      ((apply fates n w d).1 = .success →
        (apply fates n w d).2.server d.id = some d.entry.toEntry) := by
  have hshow := execute_show (fates n) d.id w
  unfold apply
  split
  · rename_i w' heq
    rw [heq] at hshow
    subst hshow
    exact ⟨.same, nofun⟩
  · rename_i present w' heq
    rw [heq] at hshow
    subst hshow
    obtain ⟨htouch, hset⟩ := execute_command (fates (n + 1)) d present w'
    split
    · rename_i heq'
      rw [heq'] at htouch
      exact ⟨htouch, nofun⟩
    · rename_i heq'
      rw [heq'] at htouch hset
      exact ⟨htouch, fun _ => hset rfl⟩
    · rename_i heq'
      rw [heq'] at htouch
      exact ⟨htouch, nofun⟩

/-- Without faults `apply` succeeds. -/
theorem apply_ok {fates : Nat → Fate} (hok : ∀ n, fates n = .ok) (n : Nat) (w : World)
    (d : Declaration) : (apply fates n w d).1 = .success := by
  cases h : w.server d.id <;>
    simp [apply, execute, attempt, hok, Command.run, Declaration.command, h]

/-! ## The first loop -/

/-- Whether `create` has ever taken effect for an ID. -/
def Created (w : World) (id : Bytes) : Prop := ∃ entry, Command.create id entry ∈ w.log

/-- What applying declarations with these IDs can do. -/
structure Applied (ids : List Bytes) (w w' : World) : Prop where
  log : ∃ effects, w'.log = w.log ++ effects ∧ ∀ id, (w'.server id).isSome →
    (w.server id).isSome ∨ ∃ entry, Command.create id entry ∈ effects
  file : w'.file = w.file
  others : ∀ id ∉ ids, w'.server id = w.server id
  kept : ∀ id, (w.server id).isSome → (w'.server id).isSome
  created : ∀ id, Created w' id → Created w id ∨ id ∈ ids ∧ w.server id = none

theorem Applied.refl (ids : List Bytes) (w : World) : Applied ids w w :=
  ⟨⟨[], (List.append_nil _).symm, fun _ h => Or.inl h⟩, rfl, fun _ _ => rfl, fun _ h => h,
    fun _ h => Or.inl h⟩

theorem set_applied {w : World} {c : Command} {i : Bytes} (e : Entry)
    (hc : ∀ id entry, c = .create id entry → id = i ∧ w.server i = none)
    (hnew : (w.server i).isSome ∨ ∃ entry, c = .create i entry) :
    Applied [i] w (w.set c i (some e)) := by
  refine ⟨⟨[c], rfl, ?_⟩, rfl, ?_, ?_, ?_⟩
  · intro id hid
    by_cases heq : id = i
    · subst heq
      exact hnew.imp_right fun ⟨entry, hentry⟩ => ⟨entry, hentry ▸ List.mem_singleton_self c⟩
    · have hother : (w.set c i (some e)).server id = w.server id := Function.update_of_ne heq ..
      exact Or.inl (hother ▸ hid)
  · intro id hid
    have hne : id ≠ i := by simpa using hid
    exact Function.update_of_ne hne ..
  · intro id hid
    simp only [World.set, Function.update_apply]
    split
    · rfl
    · exact hid
  · rintro id ⟨entry, hmem⟩
    rcases List.mem_append.mp hmem with hold | hnew
    · exact Or.inl ⟨entry, hold⟩
    · obtain ⟨rfl, hnone⟩ := hc id entry (List.mem_singleton.mp hnew).symm
      exact Or.inr ⟨List.mem_singleton_self _, hnone⟩

theorem Touch.applied {d : Declaration} {w w' : World} (h : Touch d w w') :
    Applied [d.id] w w' := by
  cases h with
  | same => exact Applied.refl _ w
  | created h =>
    refine set_applied _ ?_ (Or.inr ⟨_, rfl⟩)
    intro id entry hc
    exact ⟨(Command.create.inj hc).1.symm, h⟩
  | updated h =>
    refine set_applied _ ?_ (Or.inl h)
    intro id entry hc
    cases hc

theorem Applied.trans {xs ys : List Bytes} {u v w : World} (huv : Applied xs u v)
    (hvw : Applied ys v w) : Applied (xs ++ ys) u w where
  log := by
    obtain ⟨es, hes, hfirst⟩ := huv.log
    obtain ⟨fs, hfs, hsecond⟩ := hvw.log
    refine ⟨es ++ fs, by rw [hfs, hes, List.append_assoc], ?_⟩
    intro id hid
    rcases hsecond id hid with hv | ⟨entry, hmem⟩
    · exact (hfirst id hv).imp_right fun ⟨entry, hmem⟩ => ⟨entry, List.mem_append_left _ hmem⟩
    · exact Or.inr ⟨entry, List.mem_append_right _ hmem⟩
  file := hvw.file.trans huv.file
  others := by
    intro id hid
    rw [List.mem_append, not_or] at hid
    rw [hvw.others id hid.2, huv.others id hid.1]
  kept := fun id h => hvw.kept id (huv.kept id h)
  created := by
    intro id h
    rcases hvw.created id h with h | ⟨hy, hnone⟩
    · rcases huv.created id h with h | ⟨hx, hnone⟩
      · exact Or.inl h
      · exact Or.inr ⟨List.mem_append_left _ hx, hnone⟩
    · refine Or.inr ⟨List.mem_append_right _ hy, ?_⟩
      by_contra hsome
      have := huv.kept id (Option.isSome_iff_ne_none.mpr hsome)
      rw [hnone] at this
      cases this

theorem applyAll_cons (fates : Nat → Fate) (n : Nat) (w : World) (d : Declaration)
    (ds : List Declaration) :
    applyAll fates n w (d :: ds) =
      if (apply fates n w d).1 = .success then applyAll fates (n + 2) (apply fates n w d).2 ds
      else apply fates n w d := by
  rw [applyAll]
  generalize apply fates n w d = r
  obtain ⟨_ | _ | _, w'⟩ := r <;> simp

theorem applyAll_applied (fates : Nat → Fate) (n : Nat) (w : World) (ds : List Declaration) :
    Applied (ds.map Declaration.id) w (applyAll fates n w ds).2 := by
  induction ds generalizing n w with
  | nil => exact Applied.refl _ w
  | cons d ds ih =>
    have hd := (apply_touch fates n w d).1.applied
    rw [applyAll_cons]
    split
    · exact hd.trans (ih ..)
    · exact hd.trans (Applied.refl _ _)

/-- After a successful loop every declared entry is as declared. -/
theorem applyAll_success {fates : Nat → Fate} {n : Nat} {w : World} {ds : List Declaration}
    (hdistinct : (ds.map Declaration.id).Nodup) (h : (applyAll fates n w ds).1 = .success) :
    ∀ d ∈ ds, (applyAll fates n w ds).2.server d.id = some d.entry.toEntry := by
  induction ds generalizing n w with
  | nil => simp
  | cons d ds ih =>
    rw [List.map_cons, List.nodup_cons] at hdistinct
    rw [applyAll_cons] at h ⊢
    split at h
    · rename_i hd
      rw [if_pos hd]
      intro x hx
      rcases List.mem_cons.mp hx with rfl | hx
      · rw [(applyAll_applied fates (n + 2) _ ds).others _ hdistinct.1]
        exact (apply_touch fates n w x).2 hd
      · exact ih hdistinct.2 h x hx
    · contradiction

theorem applyAll_ok {fates : Nat → Fate} (hok : ∀ n, fates n = .ok) (n : Nat) (w : World)
    (ds : List Declaration) : (applyAll fates n w ds).1 = .success := by
  induction ds generalizing n w with
  | nil => rfl
  | cons d ds ih =>
    rw [applyAll_cons, if_pos (apply_ok hok n w d)]
    exact ih ..

/-! ## The second loop -/

/-- What deleting IDs of a list can do. -/
structure Pruned (ids : List Bytes) (w w' : World) : Prop where
  log : ∃ effects, w'.log = w.log ++ effects
  file : w'.file = w.file
  others : ∀ id ∉ ids, w'.server id = w.server id
  less : ∀ id, (w'.server id).isSome → (w.server id).isSome
  created : ∀ id, Created w' id → Created w id

theorem Pruned.refl (ids : List Bytes) (w : World) : Pruned ids w w :=
  ⟨⟨[], (List.append_nil _).symm⟩, rfl, fun _ _ => rfl, fun _ h => h, fun _ h => h⟩

theorem Pruned.trans {ids : List Bytes} {u v w : World} (huv : Pruned ids u v)
    (hvw : Pruned ids v w) : Pruned ids u w where
  log := by
    obtain ⟨es, hes⟩ := huv.log
    obtain ⟨fs, hfs⟩ := hvw.log
    exact ⟨es ++ fs, by rw [hfs, hes, List.append_assoc]⟩
  file := hvw.file.trans huv.file
  others := fun id hid => (hvw.others id hid).trans (huv.others id hid)
  less := fun id h => huv.less id (hvw.less id h)
  created := fun id h => huv.created id (hvw.created id h)

theorem Pruned.mono {xs : List Bytes} {u v : World} (h : Pruned xs u v) (ys : List Bytes)
    (hsub : ∀ id ∈ xs, id ∈ ys) : Pruned ys u v :=
  ⟨h.log, h.file, fun id hid => h.others id fun hx => hid (hsub id hx), h.less, h.created⟩

theorem delete_pruned {id : Bytes} {w w' : World} (h : (Command.delete id).run w = some w') :
    Pruned [id] w w' ∧ (w.server id).isSome ∧ w'.server id = none := by
  simp only [Command.run] at h
  split at h
  · rename_i hsome
    cases h
    refine ⟨⟨⟨_, rfl⟩, rfl, ?_, ?_, ?_⟩, hsome, by simp [World.set]⟩
    · intro x hx
      exact Function.update_of_ne (by simpa using hx) ..
    · intro x hx
      simp only [World.set, Function.update_apply] at hx
      split at hx
      · cases hx
      · exact hx
    · rintro x ⟨entry, hmem⟩
      rcases List.mem_append.mp hmem with hold | hnew
      · exact ⟨entry, hold⟩
      · cases List.mem_singleton.mp hnew
  · cases h

theorem execute_delete (fate : Fate) (id : Bytes) (w : World) :
    Pruned [id] w (execute fate (.delete id) w).2 := by
  rcases attempt_world fate (Command.delete id).run w with h | h
  · rw [execute, h]
    exact Pruned.refl _ w
  · exact (delete_pruned h).1

theorem prune_cons (fates : Nat → Fate) (keep : List Bytes) (n : Nat) (w : World) (id : Bytes)
    (ids : List Bytes) :
    prune fates keep n w (id :: ids) =
      if id ∈ keep then prune fates keep n w ids
      else if (execute (fates n) (.delete id) w).1 = some true then
        prune fates keep (n + 1) (execute (fates n) (.delete id) w).2 ids
      else
        (if (execute (fates n) (.delete id) w).1 = none then .stopped else .error (.deleteStale id),
          n, (execute (fates n) (.delete id) w).2) := by
  rw [prune]
  generalize execute (fates n) (.delete id) w = r
  obtain ⟨_ | _ | _, w'⟩ := r <;> simp

theorem prune_pruned (fates : Nat → Fate) (keep : List Bytes) (n : Nat) (w : World)
    (ids : List Bytes) :
    Pruned (ids.filter fun id => decide (id ∉ keep)) w (prune fates keep n w ids).2.2 := by
  induction ids generalizing n w with
  | nil => exact Pruned.refl _ w
  | cons id ids ih =>
    rw [prune_cons]
    by_cases hkeep : id ∈ keep
    · rw [if_pos hkeep]
      simpa [hkeep] using ih n w
    · have hd := (execute_delete (fates n) id w).mono
        ((id :: ids).filter fun id => decide (id ∉ keep)) (by simp [hkeep])
      rw [if_neg hkeep]
      split
      · exact hd.trans ((ih ..).mono _ fun x hx => by
          simp only [List.mem_filter, List.mem_cons] at hx ⊢
          exact ⟨Or.inr hx.1, hx.2⟩)
      · exact hd

/-- After a successful loop the stale entries are gone. -/
theorem prune_success {fates : Nat → Fate} {keep : List Bytes} {n : Nat} {w : World}
    {ids : List Bytes} (h : (prune fates keep n w ids).1 = .success) :
    ∀ id ∈ ids, id ∉ keep → (prune fates keep n w ids).2.2.server id = none := by
  induction ids generalizing n w with
  | nil => simp
  | cons x ids ih =>
    rw [prune_cons] at h ⊢
    intro id hid hkeep
    split at h
    · rename_i hx
      rw [if_pos hx]
      rcases List.mem_cons.mp hid with rfl | hid
      · contradiction
      · exact ih h id hid hkeep
    · rename_i hx
      rw [if_neg hx]
      split at h
      · rename_i hdel
        rw [if_pos hdel]
        rcases List.mem_cons.mp hid with rfl | hid
        · have hgone := (delete_pruned (attempt_true hdel)).2.2
          have hless := (prune_pruned fates keep (n + 1) (execute (fates n) (.delete id) w).2
            ids).less id
          by_contra hsome
          have := hless (Option.isSome_iff_ne_none.mpr hsome)
          rw [execute, hgone] at this
          cases this
        · exact ih h id hid hkeep
      · split at h <;> cases h

/-- Without faults the loop succeeds exactly when every stale ID is on the server. -/
theorem prune_ok {fates : Nat → Fate} (hok : ∀ n, fates n = .ok) (keep : List Bytes) (n : Nat)
    (w : World) {ids : List Bytes} (hdistinct : ids.Nodup) :
    (prune fates keep n w ids).1 = .success ↔
      ∀ id ∈ ids, id ∉ keep → (w.server id).isSome := by
  induction ids generalizing n w with
  | nil => simp [prune]
  | cons x ids ih =>
    obtain ⟨hx, hdistinct⟩ := List.nodup_cons.mp hdistinct
    rw [prune_cons, List.forall_mem_cons]
    by_cases hkeep : x ∈ keep
    · rw [if_pos hkeep, ih n w hdistinct]
      simp [hkeep]
    · rw [if_neg hkeep]
      cases hserver : w.server x with
      | none =>
        have hfail : execute (fates n) (.delete x) w = (some false, w) := by
          simp [execute, attempt, hok, Command.run, hserver]
        simp [hfail, hkeep]
      | some e =>
        have hdel : execute (fates n) (.delete x) w = (some true, w.set (.delete x) x none) := by
          simp [execute, attempt, hok, Command.run, hserver]
        rw [hdel, if_pos rfl, ih (n + 1) _ hdistinct]
        have hsame : ∀ id ∈ ids, (w.set (.delete x) x none).server id = w.server id := by
          intro id hid
          have hne : id ≠ x := by
            rintro rfl
            exact hx hid
          exact Function.update_of_ne hne ..
        constructor
        · exact fun h => ⟨fun _ => rfl, fun id hid hk => hsame id hid ▸ h id hid hk⟩
        · exact fun h id hid hk => (hsame id hid).symm ▸ h.2 id hid hk

end RealmFormal.Helper

import RealmFormal.Go.Http
import RealmFormal.IdentityMetrics.Admin

/-!
# The states of the units

`parseWorkloadActivity` reads the blocks that `systemctl show` prints, one for each
unit. The empty string stands for a property that the block has not given yet, so a
property with an empty value counts as not given, and a block of such lines alone
is passed over.
-/

namespace RealmFormal.IdentityMetrics
open Go Go.Http
set_option autoImplicit false

/-- The variables of the parser. -/
structure Activity where
  id : Bytes
  state : Bytes
  result : Table Bytes Bytes

namespace Activity

def commit (expected : List Bytes) (a : Activity) : Option Activity :=
  if a.id = [] ∧ a.state = [] then some a
  else if a.id ∉ expected ∨ a.state = [] ∨ (a.result.get a.id).getD [] ≠ [] then none
  else some ⟨[], [], a.result.put a.id a.state⟩

/-- One turn of the loop over the lines. -/
def read (expected : List Bytes) (a : Activity) (line : Bytes) : Option Activity :=
  if line = [] then a.commit expected
  else
    match cut line (chr '=') with
    | none => none
    | some (key, value) =>
      if key = str "Id" then if a.id ≠ [] then none else some { a with id := value }
      else if key = str "ActiveState" then
        if a.state ≠ [] then none else some { a with state := value }
      else none

end Activity

def unitsOf (targets : List DeclaredTarget) : List Bytes := targets.map fun t => t.unit

def parseWorkloadActivity (raw : Bytes) (targets : List DeclaredTarget) :
    Except String (Table Bytes Bytes) :=
  let expected := unitsOf targets
  if raw.length > maxAdminBytes then .error "workload_unit_metadata"
  else
    match ((split raw (chr '\n')).foldlM (Activity.read expected) ⟨[], [], Table.empty⟩).bind
        (Activity.commit expected) with
    | none => .error "workload_unit_metadata"
    | some a =>
      if a.result.size ≠ targets.length then .error "workload_unit_metadata" else .ok a.result

/-! ## Lines -/

def idLine (value : Bytes) : Bytes := str "Id=" ++ value

def stateLine (value : Bytes) : Bytes := str "ActiveState=" ++ value

theorem idLine_inj {u v : Bytes} : idLine u = idLine v ↔ u = v := by
  rw [idLine, idLine, List.append_cancel_left_eq]

theorem cut_idLine (value : Bytes) : cut (idLine value) (chr '=') = some (str "Id", value) :=
  cut_append (show chr '=' ∉ str "Id" by decide) value

theorem cut_stateLine (value : Bytes) :
    cut (stateLine value) (chr '=') = some (str "ActiveState", value) :=
  cut_append (show chr '=' ∉ str "ActiveState" by decide) value

theorem key_ne : str "ActiveState" ≠ str "Id" := by decide

section Reading
variable {expected : List Bytes} {a b : Activity}

theorem read_idLine (h : a.id = []) (value : Bytes) :
    a.read expected (idLine value) = some { a with id := value } := by
  rw [Activity.read, if_neg (by simp [idLine, str]), cut_idLine]
  simp [h]

theorem read_stateLine (h : a.state = []) (value : Bytes) :
    a.read expected (stateLine value) = some { a with state := value } := by
  rw [Activity.read, if_neg (by simp [stateLine, str]), cut_stateLine]
  simp [h, key_ne]

/-- A line that is read sets a property that was empty. -/
theorem read_cases {line : Bytes} (hline : line ≠ []) (h : a.read expected line = some b) :
    (∃ value, line = idLine value ∧ a.id = [] ∧ b = { a with id := value }) ∨
      ∃ value, line = stateLine value ∧ a.state = [] ∧ b = { a with state := value } := by
  rw [Activity.read, if_neg hline] at h
  split at h
  · cases h
  · rename_i key value hcut
    have htext := cut_some hcut
    split at h
    · rename_i hkey
      split at h
      · cases h
      · rename_i hid
        cases h
        exact Or.inl ⟨value, by rw [htext, hkey]; rfl, not_not.mp hid, rfl⟩
    · split at h
      · rename_i hkey
        split at h
        · cases h
        · rename_i hstate
          cases h
          exact Or.inr ⟨value, by rw [htext, hkey]; rfl, not_not.mp hstate, rfl⟩
      · cases h

theorem read_iff {line : Bytes} (hline : line ≠ []) : a.read expected line = some b ↔
    (∃ value, line = idLine value ∧ a.id = [] ∧ b = { a with id := value }) ∨
      ∃ value, line = stateLine value ∧ a.state = [] ∧ b = { a with state := value } := by
  constructor
  · exact read_cases hline
  · rintro (⟨value, rfl, hid, rfl⟩ | ⟨value, rfl, hstate, rfl⟩)
    · exact read_idLine hid value
    · exact read_stateLine hstate value

theorem idLine_ne_stateLine (u v : Bytes) : idLine u ≠ stateLine v := by
  intro h
  have hhead := congrArg List.head? h
  revert hhead
  simp [idLine, stateLine, str]

/-- The values of a variable that is set only while it is empty: one after the other they are
given to it, so that only the last may be a text. -/
structure Sets (before : Bytes) (values : List Bytes) (after : Bytes) : Prop where
  earlier : ∀ value ∈ (before :: values).dropLast, value = []
  last : (before :: values).getLast? = some after

theorem sets_nil {before after : Bytes} : Sets before [] after ↔ before = after := by
  constructor
  · intro h
    exact Option.some.inj h.last
  · rintro rfl
    exact ⟨List.forall_mem_nil _, rfl⟩

theorem sets_cons {before value after : Bytes} {values : List Bytes} :
    Sets before (value :: values) after ↔ before = [] ∧ Sets value values after := by
  constructor
  · intro h
    have hearlier := h.earlier
    rw [List.dropLast_cons_of_ne_nil (List.cons_ne_nil _ _), List.forall_mem_cons] at hearlier
    exact ⟨hearlier.1, hearlier.2, by rw [← h.last, List.getLast?_cons_cons]⟩
  · rintro ⟨hbefore, hearlier, hlast⟩
    refine ⟨?_, by rw [List.getLast?_cons_cons, hlast]⟩
    rw [List.dropLast_cons_of_ne_nil (List.cons_ne_nil _ _)]
    exact List.forall_mem_cons.mpr ⟨hbefore, hearlier⟩

/-- The values of the lines with this key. -/
def valuesOf (key : Bytes) (lines : List Bytes) : List Bytes :=
  lines.filterMap fun line =>
    (cut line (chr '=')).bind fun p => if p.1 = key then some p.2 else none

section ValuesOf
variable (value : Bytes) (lines : List Bytes)

theorem ids_idLine :
    valuesOf (str "Id") (idLine value :: lines) = value :: valuesOf (str "Id") lines := by
  simp [valuesOf, cut_idLine]

theorem ids_stateLine :
    valuesOf (str "Id") (stateLine value :: lines) = valuesOf (str "Id") lines := by
  simp [valuesOf, cut_stateLine, key_ne]

theorem states_idLine :
    valuesOf (str "ActiveState") (idLine value :: lines) =
      valuesOf (str "ActiveState") lines := by
  simp [valuesOf, cut_idLine, key_ne.symm]

theorem states_stateLine :
    valuesOf (str "ActiveState") (stateLine value :: lines) =
      value :: valuesOf (str "ActiveState") lines := by
  simp [valuesOf, cut_stateLine]

end ValuesOf

theorem mem_valuesOf {key value : Bytes} {lines : List Bytes} (hkey : chr '=' ∉ key) :
    value ∈ valuesOf key lines ↔ key ++ chr '=' :: value ∈ lines := by
  rw [valuesOf, List.mem_filterMap]
  constructor
  · rintro ⟨line, hline, hvalue⟩
    obtain ⟨p, hcut, hp⟩ := Option.bind_eq_some_iff.mp hvalue
    split at hp
    · rename_i hfirst
      cases hp
      rw [← hfirst, ← cut_some hcut]
      exact hline
    · cases hp
  · intro hmem
    exact ⟨_, hmem, by simp [cut_append hkey]⟩

theorem mem_ids {value : Bytes} {lines : List Bytes} :
    value ∈ valuesOf (str "Id") lines ↔ idLine value ∈ lines := mem_valuesOf (by decide)

theorem mem_states {value : Bytes} {lines : List Bytes} :
    value ∈ valuesOf (str "ActiveState") lines ↔ stateLine value ∈ lines :=
  mem_valuesOf (by decide)

/-- Reading lines without a blank one among them. -/
structure ReadBlock (lines : List Bytes) (a b : Activity) : Prop where
  result : b.result = a.result
  formed : ∀ line ∈ lines, ∃ value, line = idLine value ∨ line = stateLine value
  id : Sets a.id (valuesOf (str "Id") lines) b.id
  state : Sets a.state (valuesOf (str "ActiveState") lines) b.state

theorem readBlock_idLine {value : Bytes} {lines : List Bytes} :
    ReadBlock (idLine value :: lines) a b ↔ a.id = [] ∧ ReadBlock lines { a with id := value } b := by
  constructor
  · rintro ⟨hresult, hformed, hid, hstate⟩
    rw [ids_idLine, sets_cons] at hid
    rw [states_idLine] at hstate
    exact ⟨hid.1, hresult, (List.forall_mem_cons.mp hformed).2, hid.2, hstate⟩
  · rintro ⟨hempty, hresult, hformed, hid, hstate⟩
    refine ⟨hresult, List.forall_mem_cons.mpr ⟨⟨value, Or.inl rfl⟩, hformed⟩, ?_, ?_⟩
    · rw [ids_idLine, sets_cons]
      exact ⟨hempty, hid⟩
    · rw [states_idLine]
      exact hstate

theorem readBlock_stateLine {value : Bytes} {lines : List Bytes} :
    ReadBlock (stateLine value :: lines) a b ↔
      a.state = [] ∧ ReadBlock lines { a with state := value } b := by
  constructor
  · rintro ⟨hresult, hformed, hid, hstate⟩
    rw [states_stateLine, sets_cons] at hstate
    rw [ids_stateLine] at hid
    exact ⟨hstate.1, hresult, (List.forall_mem_cons.mp hformed).2, hid, hstate.2⟩
  · rintro ⟨hempty, hresult, hformed, hid, hstate⟩
    refine ⟨hresult, List.forall_mem_cons.mpr ⟨⟨value, Or.inr rfl⟩, hformed⟩, ?_, ?_⟩
    · rw [ids_stateLine]
      exact hid
    · rw [states_stateLine, sets_cons]
      exact ⟨hempty, hstate⟩

theorem foldlM_read_iff {lines : List Bytes} (hlines : ∀ line ∈ lines, line ≠ []) :
    lines.foldlM (Activity.read expected) a = some b ↔ ReadBlock lines a b := by
  induction lines generalizing a with
  | nil =>
    constructor
    · intro h
      cases h
      exact ⟨rfl, List.forall_mem_nil _, sets_nil.mpr rfl, sets_nil.mpr rfl⟩
    · rintro ⟨hresult, -, hid, hstate⟩
      obtain ⟨id, state, result⟩ := a
      obtain ⟨id', state', result'⟩ := b
      cases hresult
      cases sets_nil.mp hid
      cases sets_nil.mp hstate
      rfl
  | cons line lines ih =>
    obtain ⟨hline, hlines⟩ := List.forall_mem_cons.mp hlines
    have hstep : (line :: lines).foldlM (Activity.read expected) a = some b ↔
        ∃ c, a.read expected line = some c ∧ ReadBlock lines c b := by
      rw [List.foldlM_cons]
      refine Option.bind_eq_some_iff.trans (exists_congr fun c => ?_)
      rw [ih hlines]
    rw [hstep]
    constructor
    · rintro ⟨c, hread, hblock⟩
      rcases (read_iff hline).mp hread with ⟨value, rfl, hid, rfl⟩ | ⟨value, rfl, hstate, rfl⟩
      · exact readBlock_idLine.mpr ⟨hid, hblock⟩
      · exact readBlock_stateLine.mpr ⟨hstate, hblock⟩
    · intro hblock
      obtain ⟨value, rfl | rfl⟩ := hblock.formed line List.mem_cons_self
      · obtain ⟨hid, hrest⟩ := readBlock_idLine.mp hblock
        exact ⟨_, read_idLine hid value, hrest⟩
      · obtain ⟨hstate, hrest⟩ := readBlock_stateLine.mp hblock
        exact ⟨_, read_stateLine hstate value, hrest⟩

end Reading

/-! ## Blocks -/

/-- Nothing is left over from the block before. -/
def Activity.clear (result : Table Bytes Bytes) : Activity := ⟨[], [], result⟩

/-- The lines between two blank ones, and the blank line after them. -/
def Activity.readGroup (expected : List Bytes) (a : Activity) (group : List Bytes) :
    Option Activity :=
  (group.foldlM (Activity.read expected) a).bind (Activity.commit expected)

def groups (raw : Bytes) : List (List Bytes) :=
  (split raw (chr '\n')).splitOnP fun line => decide (line = [])

/-- Lines without a blank one between them. -/
def blocks (raw : Bytes) : List (List Bytes) := (groups raw).filter fun group => decide (group ≠ [])

theorem foldlM_groups (expected lines : List Bytes) (a : Activity) :
    (lines.foldlM (Activity.read expected) a).bind (Activity.commit expected) =
      (lines.splitOnP fun line => decide (line = [])).foldlM (Activity.readGroup expected) a := by
  induction lines generalizing a with
  | nil => simp [Activity.readGroup, List.splitOnP_nil]
  | cons line lines ih =>
    rw [List.splitOnP_cons_eq_if_modifyHead]
    by_cases hblank : line = []
    · rw [if_pos (decide_eq_true hblank), List.foldlM_cons, List.foldlM_cons, hblank]
      have hread : a.read expected [] = a.readGroup expected [] := by
        simp [Activity.read, Activity.readGroup]
      rw [hread]
      cases a.readGroup expected [] with
      | none => rfl
      | some b => exact ih b
    · rw [if_neg (by simpa using hblank)]
      obtain ⟨group, rest, hgroups⟩ := List.exists_cons_of_ne_nil
        (List.splitOnP_ne_nil (fun line => decide (line = [])) lines)
      rw [hgroups] at ih ⊢
      rw [List.modifyHead_cons, List.foldlM_cons, List.foldlM_cons]
      cases hread : a.read expected line with
      | none => simp [Activity.readGroup, hread]
      | some b =>
        have hgroup : a.readGroup expected (line :: group) = b.readGroup expected group := by
          simp [Activity.readGroup, hread]
        rw [hgroup, ← List.foldlM_cons]
        exact ih b

theorem groups_lines {raw : Bytes} {group : List Bytes} (h : group ∈ groups raw) :
    ∀ line ∈ group, line ≠ [] := by
  intro line hline hblank
  have hne := (of_mem_splitOnP h line hline).2
  simp [hblank] at hne

theorem mem_blocks {raw line : Bytes} (h : line ∈ split raw (chr '\n')) (hline : line ≠ []) :
    ∃ block ∈ blocks raw, line ∈ block := by
  obtain ⟨group, hgroup, hmem⟩ := exists_mem_splitOnP
    (p := fun line => decide (line = [])) h (decide_eq_false hline)
  refine ⟨group, List.mem_filter.mpr ⟨hgroup, ?_⟩, hmem⟩
  exact decide_eq_true (List.ne_nil_of_mem hmem)

/-- The name that a block gives to its unit, empty if it gives none. -/
def blockId (block : List Bytes) : Bytes := (valuesOf (str "Id") block).getLastD []

def blockState (block : List Bytes) : Bytes := (valuesOf (str "ActiveState") block).getLastD []

/-- Every line gives a property, and a property is given again only after empty values. -/
structure Readable (block : List Bytes) : Prop where
  formed : ∀ line ∈ block, ∃ value, line = idLine value ∨ line = stateLine value
  ids : ∀ value ∈ (valuesOf (str "Id") block).dropLast, value = []
  states : ∀ value ∈ (valuesOf (str "ActiveState") block).dropLast, value = []

/-- The units and states of the blocks that give one of the two. -/
def given (bs : List (List Bytes)) : List (Bytes × Bytes) :=
  (bs.map fun block => (blockId block, blockState block)).filter fun p => decide (p ≠ ([], []))

theorem given_cons_empty {block : List Bytes} (bs : List (List Bytes))
    (h : blockId block = [] ∧ blockState block = []) : given (block :: bs) = given bs := by
  rw [given, List.map_cons, List.filter_cons_of_neg (by simp [h])]
  rfl

theorem given_cons {block : List Bytes} (bs : List (List Bytes))
    (h : ¬ (blockId block = [] ∧ blockState block = [])) :
    given (block :: bs) = (blockId block, blockState block) :: given bs := by
  have hne : decide ((blockId block, blockState block) ≠ ([], [])) = true :=
    decide_eq_true fun heq => h (Prod.ext_iff.mp heq)
  rw [given, List.map_cons, List.filter_cons, if_pos hne]
  rfl

theorem mem_given {bs : List (List Bytes)} {p : Bytes × Bytes} :
    p ∈ given bs ↔ (∃ block ∈ bs, (blockId block, blockState block) = p) ∧ p ≠ ([], []) := by
  rw [given, List.mem_filter, List.mem_map, decide_eq_true_eq]

theorem given_blocks (gs : List (List Bytes)) :
    given (gs.filter fun g => decide (g ≠ [])) = given gs := by
  induction gs with
  | nil => rfl
  | cons g gs ih =>
    by_cases hg : g = []
    · rw [List.filter_cons_of_neg (by simp [hg]), ih, given_cons_empty gs (by simp [hg, blockId,
        blockState, valuesOf])]
    · rw [List.filter_cons_of_pos (by simpa using hg), given, List.map_cons, List.filter_cons, given,
        List.map_cons, List.filter_cons, ← given, ih, ← given]

/-- The block has set the state of this unit. -/
structure Committed (block : List Bytes) (unit state : Bytes) : Prop where
  formed : ∀ line ∈ block, ∃ value, line = idLine value ∨ line = stateLine value
  nonempty : state ≠ []
  stateMem : stateLine state ∈ block
  states : ∀ value, stateLine value ∈ block → value = [] ∨ value = state
  ids : ∀ value, idLine value ∈ block → value = [] ∨ value = unit
  origin : unit = [] ∨ idLine unit ∈ block

/-- A value is one of the earlier ones or the last. -/
theorem eq_nil_or_last {values : List Bytes} (h : ∀ value ∈ values.dropLast, value = []) :
    ∀ value ∈ values, value = [] ∨ value = values.getLastD [] := by
  intro value hvalue
  have hne := List.ne_nil_of_mem hvalue
  rw [← List.dropLast_append_getLast hne, List.mem_append, List.mem_singleton] at hvalue
  rcases hvalue with hvalue | hvalue
  · exact Or.inl (h value hvalue)
  · right
    rw [hvalue, List.getLastD_eq_getLast?, List.getLast?_eq_some_getLast hne, Option.getD_some]

theorem last_mem (values : List Bytes) :
    values.getLastD [] = [] ∨ values.getLastD [] ∈ values := by
  cases values with
  | nil => exact Or.inl rfl
  | cons value values =>
    right
    rw [List.getLastD_eq_getLast?, List.getLast?_eq_some_getLast (List.cons_ne_nil _ _),
      Option.getD_some]
    exact List.getLast_mem _

theorem Readable.committed {block : List Bytes} (h : Readable block) (hstate : blockState block ≠ []) :
    Committed block (blockId block) (blockState block) where
  formed := h.formed
  nonempty := hstate
  stateMem := mem_states.mp ((last_mem _).resolve_left hstate)
  states value hvalue := eq_nil_or_last h.states value (mem_states.mpr hvalue)
  ids value hvalue := eq_nil_or_last h.ids value (mem_ids.mpr hvalue)
  origin := (last_mem _).imp_right mem_ids.mp

section Committing
variable {expected : List Bytes} {result : Table Bytes Bytes} {b : Activity}

theorem commit_iff {a : Activity} : a.commit expected = some b ↔
    (a.id = [] ∧ a.state = [] ∧ b = a) ∨
      (a.id ∈ expected ∧ a.state ≠ [] ∧ (a.result.get a.id).getD [] = [] ∧
        b = .clear (a.result.put a.id a.state)) := by
  unfold Activity.commit Activity.clear
  split
  · rename_i hempty
    constructor
    · intro h
      cases h
      exact Or.inl ⟨hempty.1, hempty.2, rfl⟩
    · rintro (⟨-, -, rfl⟩ | ⟨-, hstate, -⟩)
      · rfl
      · exact absurd hempty.2 hstate
  · rename_i hfull
    split
    · rename_i hbad
      simp only [reduceCtorEq, false_iff]
      rintro (⟨hid, hstate, -⟩ | ⟨hmem, hstate, hnew, -⟩)
      · exact hfull ⟨hid, hstate⟩
      · exact hbad.elim (fun h => h hmem) (Or.rec hstate (fun h => h hnew))
    · rename_i hgood
      rw [not_or, not_or, not_not, ne_eq, not_not] at hgood
      rw [Option.some.injEq]
      constructor
      · rintro rfl
        exact Or.inr ⟨hgood.1, hgood.2.1, hgood.2.2, rfl⟩
      · rintro (⟨hid, hstate, -⟩ | ⟨-, -, -, rfl⟩)
        · exact absurd ⟨hid, hstate⟩ hfull
        · rfl

theorem sets_empty {values : List Bytes} {after : Bytes} :
    Sets [] values after ↔ (∀ value ∈ values.dropLast, value = []) ∧ values.getLastD [] = after := by
  cases values with
  | nil =>
    rw [sets_nil]
    simp
  | cons value values =>
    rw [sets_cons, List.getLastD_eq_getLast?]
    constructor
    · rintro ⟨-, hearlier, hlast⟩
      exact ⟨hearlier, by rw [hlast, Option.getD_some]⟩
    · rintro ⟨hearlier, hlast⟩
      refine ⟨rfl, hearlier, ?_⟩
      rw [← hlast, List.getLast?_eq_some_getLast (List.cons_ne_nil _ _), Option.getD_some]

theorem readBlock_clear {lines : List Bytes} : ReadBlock lines (.clear result) b ↔
    Readable lines ∧ b = ⟨blockId lines, blockState lines, result⟩ := by
  constructor
  · rintro ⟨hresult, hformed, hid, hstate⟩
    obtain ⟨hids, hlast⟩ := sets_empty.mp hid
    obtain ⟨hstates, hlastState⟩ := sets_empty.mp hstate
    obtain ⟨id, state, table⟩ := b
    cases hresult
    cases hlast
    cases hlastState
    exact ⟨⟨hformed, hids, hstates⟩, rfl⟩
  · rintro ⟨⟨hformed, hids, hstates⟩, rfl⟩
    exact ⟨rfl, hformed, sets_empty.mpr ⟨hids, rfl⟩, sets_empty.mpr ⟨hstates, rfl⟩⟩

/-- A block gives nothing, or sets the state of one unit. -/
theorem readGroup_iff {group : List Bytes} (hlines : ∀ line ∈ group, line ≠ []) :
    (Activity.clear result).readGroup expected group = some b ↔
      Readable group ∧
        ((blockId group = [] ∧ blockState group = [] ∧ b = .clear result) ∨
          (blockId group ∈ expected ∧ blockState group ≠ [] ∧
            (result.get (blockId group)).getD [] = [] ∧
            b = .clear (result.put (blockId group) (blockState group)))) := by
  have hgroup : (Activity.clear result).readGroup expected group = some b ↔
      Readable group ∧
        Activity.commit expected ⟨blockId group, blockState group, result⟩ = some b := by
    refine Option.bind_eq_some_iff.trans ?_
    simp only [foldlM_read_iff hlines, readBlock_clear]
    constructor
    · rintro ⟨a, ⟨hreadable, rfl⟩, hcommit⟩
      exact ⟨hreadable, hcommit⟩
    · rintro ⟨hreadable, hcommit⟩
      exact ⟨_, ⟨hreadable, rfl⟩, hcommit⟩
  rw [hgroup, commit_iff]
  refine and_congr_right fun _ => or_congr_left (and_congr_right fun hid =>
    and_congr_right fun hstate => ?_)
  have hclear : Activity.mk (blockId group) (blockState group) result = .clear result := by
    rw [show blockId group = [] from hid, show blockState group = [] from hstate]
    rfl
  rw [hclear]

/-- No unit has an empty state. -/
def Filled (result : Table Bytes Bytes) : Prop :=
  ∀ unit state, result.get unit = some state → state ≠ []

theorem Filled.get_none_iff {unit : Bytes} (h : Filled result) :
    (result.get unit).getD [] = [] ↔ result.get unit = none := by
  cases hstate : result.get unit with
  | none => simp
  | some state => simpa using h unit state hstate

theorem Filled.put {unit state : Bytes} (h : Filled result) (hne : state ≠ []) :
    Filled (result.put unit state) := by
  intro u s hget
  rw [Table.get_put] at hget
  split at hget
  · cases hget
    exact hne
  · exact h u s hget

theorem get_put_none {unit state k : Bytes} :
    (result.put unit state).get k = none ↔ k ≠ unit ∧ result.get k = none := by
  rw [Table.get_put]
  split
  · simp [*]
  · simp [*]

/-- The blocks that give a unit or a state set the states of different units one by one. -/
theorem readGroups_iff {gs : List (List Bytes)} (hlines : ∀ g ∈ gs, ∀ line ∈ g, line ≠ [])
    (hfilled : Filled result) :
    gs.foldlM (Activity.readGroup expected) (.clear result) = some b ↔
      (∀ g ∈ gs, Readable g) ∧
        (∀ p ∈ given gs, p.1 ∈ expected ∧ p.2 ≠ [] ∧ result.get p.1 = none) ∧
        ((given gs).map Prod.fst).Nodup ∧
        b = .clear ((given gs).foldl (fun t p => t.put p.1 p.2) result) := by
  induction gs generalizing result with
  | nil =>
    constructor
    · intro h
      cases h
      exact ⟨List.forall_mem_nil _, List.forall_mem_nil _, List.nodup_nil, rfl⟩
    · rintro ⟨-, -, -, rfl⟩
      rfl
  | cons g gs ih =>
    obtain ⟨hg, hgs⟩ := List.forall_mem_cons.mp hlines
    have hstep : (g :: gs).foldlM (Activity.readGroup expected) (.clear result) = some b ↔
        ∃ c, (Activity.clear result).readGroup expected g = some c ∧
          gs.foldlM (Activity.readGroup expected) c = some b := by
      rw [List.foldlM_cons]
      exact Option.bind_eq_some_iff
    rw [hstep]
    by_cases hempty : blockId g = [] ∧ blockState g = []
    · rw [given_cons_empty gs hempty]
      constructor
      · rintro ⟨c, hc, hrest⟩
        obtain ⟨hreadable, ⟨-, -, rfl⟩ | ⟨-, hstate, -⟩⟩ := (readGroup_iff hg).mp hc
        · obtain ⟨hall, hgiven⟩ := (ih hgs hfilled).mp hrest
          exact ⟨List.forall_mem_cons.mpr ⟨hreadable, hall⟩, hgiven⟩
        · exact absurd hempty.2 hstate
      · rintro ⟨hall, hgiven⟩
        obtain ⟨hreadable, hall⟩ := List.forall_mem_cons.mp hall
        exact ⟨_, (readGroup_iff hg).mpr ⟨hreadable, Or.inl ⟨hempty.1, hempty.2, rfl⟩⟩,
          (ih hgs hfilled).mpr ⟨hall, hgiven⟩⟩
    · rw [given_cons gs hempty, List.map_cons, List.nodup_cons, List.forall_mem_cons,
        List.forall_mem_cons]
      constructor
      · rintro ⟨c, hc, hrest⟩
        obtain ⟨hreadable, ⟨hid, hstate, -⟩ | ⟨hunit, hstate, hnew, rfl⟩⟩ := (readGroup_iff hg).mp hc
        · exact absurd ⟨hid, hstate⟩ hempty
        · obtain ⟨hall, hpairs, hnodup, hb⟩ := (ih hgs (hfilled.put hstate)).mp hrest
          refine ⟨⟨hreadable, hall⟩, ⟨⟨hunit, hstate, hfilled.get_none_iff.mp hnew⟩, ?_⟩,
            ⟨?_, hnodup⟩, hb⟩
          · intro p hp
            obtain ⟨hexpected, hne, hget⟩ := hpairs p hp
            exact ⟨hexpected, hne, (get_put_none.mp hget).2⟩
          · intro hmem
            obtain ⟨p, hp, heq⟩ := List.mem_map.mp hmem
            exact (get_put_none.mp (hpairs p hp).2.2).1 heq
      · rintro ⟨⟨hreadable, hall⟩, ⟨⟨hunit, hstate, hnew⟩, hpairs⟩, ⟨hfirst, hnodup⟩, hb⟩
        refine ⟨_, (readGroup_iff hg).mpr ⟨hreadable, Or.inr ⟨hunit, hstate,
          hfilled.get_none_iff.mpr hnew, rfl⟩⟩, (ih hgs (hfilled.put hstate)).mpr
            ⟨hall, ?_, hnodup, hb⟩⟩
        intro p hp
        obtain ⟨hexpected, hne, hget⟩ := hpairs p hp
        refine ⟨hexpected, hne, get_put_none.mpr ⟨?_, hget⟩⟩
        intro heq
        exact hfirst (List.mem_map.mpr ⟨p, hp, heq⟩)

end Committing

/-! ## What is accepted -/

section Accepted
variable {targets : List DeclaredTarget} {raw : Bytes} {result : Table Bytes Bytes}

/-- Apart from lines without a value, the text lists the units and gives each a state. -/
structure Accepted (targets : List DeclaredTarget) (raw : Bytes) : Prop where
  readable : ∀ block ∈ blocks raw, Readable block
  states : ∀ p ∈ given (blocks raw), p.2 ≠ []
  units : ((given (blocks raw)).map Prod.fst).Perm (unitsOf targets)

theorem groups_readable :
    (∀ g ∈ groups raw, Readable g) ↔ ∀ block ∈ blocks raw, Readable block := by
  constructor
  · intro h block hblock
    exact h block (List.mem_of_mem_filter hblock)
  · intro h g hg
    by_cases hempty : g = []
    · subst hempty
      exact ⟨List.forall_mem_nil _, List.forall_mem_nil _, List.forall_mem_nil _⟩
    · exact h g (List.mem_filter.mpr ⟨hg, decide_eq_true hempty⟩)

theorem parse_eq (hsize : raw.length ≤ maxAdminBytes) : parseWorkloadActivity raw targets = .ok result ↔
    ∃ b, (groups raw).foldlM (Activity.readGroup (unitsOf targets)) (.clear Table.empty) = some b ∧
      b.result = result ∧ result.size = targets.length := by
  unfold parseWorkloadActivity
  dsimp only
  rw [if_neg (by omega), foldlM_groups, ← groups, ← Activity.clear]
  cases (groups raw).foldlM (Activity.readGroup (unitsOf targets)) (.clear Table.empty) with
  | none => simp
  | some b =>
    simp only [Option.some.injEq, exists_eq_left']
    split
    · rename_i hlength
      simp only [reduceCtorEq, false_iff]
      rintro ⟨rfl, hlength'⟩
      exact hlength hlength'
    · rename_i hlength
      constructor
      · intro h
        cases h
        exact ⟨rfl, not_not.mp hlength⟩
      · rintro ⟨rfl, -⟩
        rfl

/-- The loop accepts these texts, and gives every unit its state. -/
theorem parse_ok_iff (hdistinct : (unitsOf targets).Nodup) (hsize : raw.length ≤ maxAdminBytes) :
    parseWorkloadActivity raw targets = .ok result ↔ Accepted targets raw ∧
      result = (given (blocks raw)).foldl (fun t p => t.put p.1 p.2) Table.empty := by
  have hfilled : Filled Table.empty := fun unit state hget => by cases hget
  have hlength : (unitsOf targets).length = targets.length := List.length_map _
  have hgiven : given (groups raw) = given (blocks raw) := (given_blocks (groups raw)).symm
  rw [parse_eq hsize]
  simp only [readGroups_iff (fun g hg => groups_lines hg) hfilled, groups_readable, hgiven]
  constructor
  · rintro ⟨b, ⟨hreadable, hpairs, hnodup, rfl⟩, rfl, hcount⟩
    have hentries : (Activity.clear ((given (blocks raw)).foldl (fun t p => t.put p.1 p.2)
        Table.empty)).result.entries = (given (blocks raw)).reverse :=
      Table.entries_foldl_put_empty hnodup
    have hsubset : (given (blocks raw)).map Prod.fst ⊆ unitsOf targets := by
      intro unit hunit
      obtain ⟨p, hp, rfl⟩ := List.mem_map.mp hunit
      exact (hpairs p hp).1
    rw [Table.size, hentries, List.length_reverse] at hcount
    refine ⟨⟨hreadable, fun p hp => (hpairs p hp).2.1, ?_⟩, rfl⟩
    refine (hnodup.subperm hsubset).perm_of_length_le ?_
    rw [List.length_map, hlength, hcount]
  · rintro ⟨⟨hreadable, hstates, hunits⟩, rfl⟩
    have hnodup := hunits.nodup_iff.mpr hdistinct
    refine ⟨_, ⟨hreadable, ?_, hnodup, rfl⟩, rfl, ?_⟩
    · intro p hp
      exact ⟨hunits.mem_iff.mp (List.mem_map_of_mem hp), hstates p hp, rfl⟩
    · rw [Table.size, Table.entries_foldl_put_empty hnodup, List.length_reverse, ← hlength,
        ← hunits.length_eq, List.length_map]

theorem parse_get (hdistinct : (unitsOf targets).Nodup) (hsize : raw.length ≤ maxAdminBytes)
    (h : parseWorkloadActivity raw targets = .ok result) (unit state : Bytes) :
    result.get unit = some state ↔ (unit, state) ∈ given (blocks raw) := by
  obtain ⟨haccepted, rfl⟩ := (parse_ok_iff hdistinct hsize).mp h
  rw [Table.get_eq_some_iff, Table.entries_foldl_put_empty
    (haccepted.units.nodup_iff.mpr hdistinct), List.mem_reverse]

/-- The block names one unit and gives it a state. -/
def Named (block : List Bytes) : Prop :=
  ∃ unit state, (∀ value, idLine value ∈ block ↔ value = unit) ∧ state ≠ [] ∧
    stateLine state ∈ block

theorem Readable.state_ne {block : List Bytes} (h : Readable block) (hnamed : Named block) :
    blockState block ≠ [] := by
  obtain ⟨unit, state, -, hstate, hmem⟩ := hnamed
  rcases eq_nil_or_last h.states state (mem_states.mpr hmem) with hempty | hlast
  · exact absurd hempty hstate
  · rw [blockState, ← hlast]
    exact hstate

/-- The units and states that an accepted text sets, block by block. -/
structure Listing (targets : List DeclaredTarget) (raw : Bytes) (result : Table Bytes Bytes)
    (pairs : List (Bytes × Bytes)) : Prop where
  committed : List.Forall₂ (fun block p => Committed block p.1 p.2) (blocks raw) pairs
  units : (pairs.map Prod.fst).Perm (unitsOf targets)
  get : ∀ unit state, result.get unit = some state ↔ (unit, state) ∈ pairs

theorem given_committed {bs : List (List Bytes)} (hreadable : ∀ block ∈ bs, Readable block)
    (hnamed : ∀ block ∈ bs, Named block) :
    List.Forall₂ (fun block p => Committed block p.1 p.2) bs (given bs) := by
  induction bs with
  | nil => exact List.Forall₂.nil
  | cons block bs ih =>
    obtain ⟨hblock, hbs⟩ := List.forall_mem_cons.mp hreadable
    obtain ⟨hblockNamed, hbsNamed⟩ := List.forall_mem_cons.mp hnamed
    have hstate := hblock.state_ne hblockNamed
    rw [given_cons bs fun h => hstate h.2]
    exact List.Forall₂.cons (hblock.committed hstate) (ih hbs hbsNamed)

theorem listing_of_parse (hdistinct : (unitsOf targets).Nodup) (hsize : raw.length ≤ maxAdminBytes)
    (hnamed : ∀ block ∈ blocks raw, Named block)
    (h : parseWorkloadActivity raw targets = .ok result) :
    Listing targets raw result (given (blocks raw)) := by
  have haccepted := ((parse_ok_iff hdistinct hsize).mp h).1
  exact ⟨given_committed haccepted.readable hnamed, haccepted.units, parse_get hdistinct hsize h⟩

theorem Committed.id_iff {block : List Bytes} {unit state : Bytes} (h : Committed block unit state)
    (hnamed : Named block) (value : Bytes) : idLine value ∈ block ↔ value = unit := by
  obtain ⟨name, _, hname, _⟩ := hnamed
  have heq : name = unit := by
    rcases h.ids name ((hname name).mpr rfl) with hempty | heq
    · rcases h.origin with hunit | hunit
      · rw [hempty, hunit]
      · exact ((hname unit).mp hunit).symm
    · exact heq
  rw [hname, heq]

/-- The blocks that name a unit. -/
def blocksOf (unit : Bytes) (bs : List (List Bytes)) : List (List Bytes) :=
  bs.filter fun block => decide (idLine unit ∈ block)

/-- Among blocks that name different units, a unit has its own block and no other. -/
theorem blocksOf_committed {bs : List (List Bytes)} {pairs : List (Bytes × Bytes)}
    (h : List.Forall₂ (fun block p => Committed block p.1 p.2) bs pairs)
    (hnamed : ∀ block ∈ bs, Named block) (hnodup : (pairs.map Prod.fst).Nodup) (unit : Bytes) :
    (unit ∉ pairs.map Prod.fst → blocksOf unit bs = []) ∧
      ∀ state, (unit, state) ∈ pairs →
        ∃ block, blocksOf unit bs = [block] ∧ Committed block unit state := by
  induction h with
  | nil => exact ⟨fun _ => rfl, fun state hmem => absurd hmem List.not_mem_nil⟩
  | @cons block p bs pairs hcommitted hrest ih =>
    obtain ⟨hblock, hbs⟩ := List.forall_mem_cons.mp hnamed
    rw [List.map_cons, List.nodup_cons] at hnodup
    obtain ⟨hother, hown⟩ := ih hbs hnodup.2
    have hid := hcommitted.id_iff hblock unit
    by_cases hunit : unit = p.1
    · have hcons : blocksOf unit (block :: bs) = block :: blocksOf unit bs :=
        List.filter_cons_of_pos (decide_eq_true (hid.mpr hunit))
      have hnone : blocksOf unit bs = [] := hother (hunit ▸ hnodup.1)
      refine ⟨fun hnot => absurd (by simp [hunit]) hnot, fun state hmem => ⟨block, ?_, ?_⟩⟩
      · rw [hcons, hnone]
      · rcases List.mem_cons.mp hmem with rfl | hmem
        · exact hcommitted
        · exact absurd (hunit ▸ List.mem_map_of_mem hmem) hnodup.1
    · have hcons : blocksOf unit (block :: bs) = blocksOf unit bs :=
        List.filter_cons_of_neg (by simpa using mt hid.mp hunit)
      rw [hcons]
      refine ⟨fun hnot => hother fun hmem => hnot (by simp [hmem]), fun state hmem => ?_⟩
      rcases List.mem_cons.mp hmem with rfl | hmem
      · exact absurd rfl hunit
      · exact hown state hmem

theorem committed_of_mem {bs : List (List Bytes)} {pairs : List (Bytes × Bytes)}
    (h : List.Forall₂ (fun block p => Committed block p.1 p.2) bs pairs) {block : List Bytes}
    (hblock : block ∈ bs) : ∃ unit state, Committed block unit state := by
  induction h with
  | nil => cases hblock
  | cons hcommitted _ ih =>
    rcases List.mem_cons.mp hblock with rfl | hblock
    · exact ⟨_, _, hcommitted⟩
    · exact ih hblock

/-- A unit is missing, repeated or unknown, a block lacks a property, or a line is no property. -/
def Malformed (targets : List DeclaredTarget) (raw : Bytes) : Prop :=
  (∃ unit ∈ unitsOf targets, blocksOf unit (blocks raw) = []) ∨
    (∃ unit, 2 ≤ (blocksOf unit (blocks raw)).length) ∨
    (∃ unit, unit ∉ unitsOf targets ∧ blocksOf unit (blocks raw) ≠ []) ∨
    (∃ block ∈ blocks raw, (∀ value, idLine value ∉ block) ∨ ∀ value, stateLine value ∉ block) ∨
    ∃ line ∈ split raw (chr '\n'), line ≠ [] ∧ ∀ value, line ≠ idLine value ∧ line ≠ stateLine value

/-- The states are those of the blocks: each unit has one block, and the state that this block
gives. -/
def Reflects (targets : List DeclaredTarget) (raw : Bytes) (result : Table Bytes Bytes) : Prop :=
  (∀ unit, (result.get unit).isSome ↔ unit ∈ unitsOf targets) ∧
    ∀ unit ∈ unitsOf targets, ∃ block state, blocksOf unit (blocks raw) = [block] ∧
      result.get unit = some state ∧ state ≠ [] ∧
      ∀ value, value ≠ [] → (stateLine value ∈ block ↔ value = state)

theorem Listing.reflects {pairs : List (Bytes × Bytes)} (h : Listing targets raw result pairs)
    (hnamed : ∀ block ∈ blocks raw, Named block) (hdistinct : (unitsOf targets).Nodup) :
    Reflects targets raw result := by
  have hnodup : (pairs.map Prod.fst).Nodup := h.units.nodup_iff.mpr hdistinct
  constructor
  · intro unit
    rw [← h.units.mem_iff, Option.isSome_iff_exists, List.mem_map]
    constructor
    · rintro ⟨state, hstate⟩
      exact ⟨(unit, state), (h.get unit state).mp hstate, rfl⟩
    · rintro ⟨p, hp, rfl⟩
      exact ⟨p.2, (h.get p.1 p.2).mpr hp⟩
  · intro unit hunit
    obtain ⟨p, hp, rfl⟩ := List.mem_map.mp (h.units.mem_iff.mpr hunit)
    obtain ⟨block, hblock, hcommitted⟩ :=
      (blocksOf_committed h.committed hnamed hnodup p.1).2 p.2 hp
    refine ⟨block, p.2, hblock, (h.get p.1 p.2).mpr hp, hcommitted.nonempty, ?_⟩
    intro value hvalue
    constructor
    · intro hmem
      rcases hcommitted.states value hmem with hempty | heq
      · exact absurd hempty hvalue
      · exact heq
    · rintro rfl
      exact hcommitted.stateMem

theorem Listing.not_malformed {pairs : List (Bytes × Bytes)} (h : Listing targets raw result pairs)
    (hnamed : ∀ block ∈ blocks raw, Named block) (hdistinct : (unitsOf targets).Nodup) :
    ¬ Malformed targets raw := by
  have hnodup : (pairs.map Prod.fst).Nodup := h.units.nodup_iff.mpr hdistinct
  have hcommitted : ∀ block ∈ blocks raw, ∃ unit state, Committed block unit state := by
    intro block hblock
    exact committed_of_mem h.committed hblock
  have hblocks := fun unit => blocksOf_committed h.committed hnamed hnodup unit
  rintro (⟨unit, hunit, hnone⟩ | ⟨unit, htwo⟩ | ⟨unit, hunit, hsome⟩ | ⟨block, hblock, hlacks⟩ |
    ⟨line, hline, hne, hother⟩)
  · obtain ⟨p, hp, rfl⟩ := List.mem_map.mp (h.units.mem_iff.mpr hunit)
    obtain ⟨block, hblock, -⟩ := (hblocks p.1).2 p.2 hp
    rw [hnone] at hblock
    cases hblock
  · by_cases hunit : unit ∈ pairs.map Prod.fst
    · obtain ⟨p, hp, rfl⟩ := List.mem_map.mp hunit
      obtain ⟨block, hblock, -⟩ := (hblocks p.1).2 p.2 hp
      rw [hblock] at htwo
      simp at htwo
    · rw [(hblocks unit).1 hunit] at htwo
      simp at htwo
  · exact hsome ((hblocks unit).1 fun hmem => hunit (h.units.mem_iff.mp hmem))
  · obtain ⟨unit, state, hblockState⟩ := hcommitted block hblock
    rcases hlacks with hlacks | hlacks
    · obtain ⟨name, _, hname, _⟩ := hnamed block hblock
      exact hlacks name ((hname name).mpr rfl)
    · exact hlacks state hblockState.stateMem
  · obtain ⟨block, hblock, hmem⟩ := mem_blocks hline hne
    obtain ⟨unit, state, hblockState⟩ := hcommitted block hblock
    obtain ⟨value, heq | heq⟩ := hblockState.formed line hmem
    · exact (hother value).1 heq
    · exact (hother value).2 heq

end Accepted

/-! ## Written listings -/

/-- The two lines of a unit, and which of them comes first. -/
structure Listed where
  unit : Bytes
  state : Bytes
  stateFirst : Bool
  unitLine : chr '\n' ∉ unit
  valueLine : chr '\n' ∉ state
  nonempty : state ≠ []

def Listed.lines (l : Listed) : List Bytes :=
  if l.stateFirst then [stateLine l.state, idLine l.unit] else [idLine l.unit, stateLine l.state]

/-- One block per unit, each with a blank line after it. -/
def render (listing : List Listed) : Bytes :=
  listing.flatMap fun l => (l.lines.flatMap fun line => line ++ [chr '\n']) ++ [chr '\n']

section Written
variable {expected : List Bytes} {listing : List Listed}

theorem Listed.lines_oneLine (l : Listed) : ∀ line ∈ l.lines, chr '\n' ∉ line := by
  have hid : chr '\n' ∉ idLine l.unit := by
    rw [idLine, List.mem_append, not_or]
    exact ⟨by decide, l.unitLine⟩
  have hstate : chr '\n' ∉ stateLine l.state := by
    rw [stateLine, List.mem_append, not_or]
    exact ⟨by decide, l.valueLine⟩
  unfold Listed.lines
  split <;> simp [hid, hstate]

theorem split_line {line : Bytes} (h : chr '\n' ∉ line) (rest : Bytes) :
    split (line ++ chr '\n' :: rest) (chr '\n') = line :: split rest (chr '\n') := by
  refine List.splitOnP_append_cons_of_forall_mem (p := (· == chr '\n')) ?_ (chr '\n')
    (beq_self_eq_true (chr '\n')) rest
  intro b hb
  rw [beq_eq_false_iff_ne]
  rintro rfl
  exact h hb

theorem split_lines {lines : List Bytes} (h : ∀ line ∈ lines, chr '\n' ∉ line) (rest : Bytes) :
    split ((lines.flatMap fun line => line ++ [chr '\n']) ++ rest) (chr '\n') =
      lines ++ split rest (chr '\n') := by
  induction lines with
  | nil => rfl
  | cons line lines ih =>
    obtain ⟨hline, hlines⟩ := List.forall_mem_cons.mp h
    rw [List.flatMap_cons, List.append_assoc, List.append_assoc, List.singleton_append,
      split_line hline, ih hlines]
    rfl

/-- The lines of the blocks, each with a blank one after it. -/
def listedLines (listing : List Listed) : List Bytes := listing.flatMap fun l => l.lines ++ [[]]

theorem split_render (listing : List Listed) :
    split (render listing) (chr '\n') = listedLines listing ++ [[]] := by
  induction listing with
  | nil => rfl
  | cons l listing ih =>
    rw [render, List.flatMap_cons, ← render, List.append_assoc, split_lines l.lines_oneLine,
      List.singleton_append]
    have hblank := split_line (List.not_mem_nil (a := chr '\n')) (render listing)
    rw [List.nil_append] at hblank
    rw [hblank, ih]
    simp [listedLines]

/-- Without the final blank line. -/
theorem split_render_dropLast (hne : listing ≠ []) :
    split (render listing).dropLast (chr '\n') = listedLines listing := by
  obtain ⟨init, last, rfl⟩ := (List.eq_nil_or_concat' listing).resolve_left hne
  have htext : render (init ++ [last]) = (render (init ++ [last])).dropLast ++ chr '\n' :: [] := by
    simp [render]
  have hsplit := split_render (init ++ [last])
  rw [htext, split_append_cons] at hsplit
  exact List.append_cancel_right hsplit

theorem read_listed {result : Table Bytes Bytes} {l : Listed} (hunit : l.unit ∈ expected)
    (hnew : result.get l.unit = none) :
    (l.lines ++ [[]]).foldlM (Activity.read expected) (.clear result) =
      some (.clear (result.put l.unit l.state)) := by
  have hblank : Activity.read expected ⟨l.unit, l.state, result⟩ [] =
      some (.clear (result.put l.unit l.state)) := by
    rw [Activity.read, if_pos rfl, Activity.commit, if_neg (by simp [l.nonempty]),
      if_neg (by simp [hunit, l.nonempty, hnew])]
    rfl
  have hid : ∀ state, Activity.read expected ⟨[], state, result⟩ (idLine l.unit) =
      some ⟨l.unit, state, result⟩ := fun _ => read_idLine rfl _
  have hstateLine : ∀ unit, Activity.read expected ⟨unit, [], result⟩ (stateLine l.state) =
      some ⟨unit, l.state, result⟩ := fun _ => read_stateLine rfl _
  unfold Listed.lines Activity.clear
  split
  · simp [hid, hstateLine, hblank, Activity.clear]
  · simp [hid, hstateLine, hblank, Activity.clear]

theorem read_listedLines {result : Table Bytes Bytes}
    (hlisted : ∀ l ∈ listing, l.unit ∈ expected)
    (hnodup : (listing.map Listed.unit).Nodup) (hnew : ∀ l ∈ listing, result.get l.unit = none) :
    (listedLines listing).foldlM (Activity.read expected) (.clear result) =
      some (.clear ((listing.map fun l => (l.unit, l.state)).foldl
        (fun t p => t.put p.1 p.2) result)) := by
  induction listing generalizing result with
  | nil => rfl
  | cons l listing ih =>
    obtain ⟨hunit, hlisting⟩ := List.forall_mem_cons.mp hlisted
    rw [List.map_cons, List.nodup_cons] at hnodup
    obtain ⟨hl, hrest⟩ := List.forall_mem_cons.mp hnew
    have hnext : ∀ m ∈ listing, (result.put l.unit l.state).get m.unit = none := by
      intro m hm
      have hne : m.unit ≠ l.unit := fun heq => hnodup.1 (heq ▸ List.mem_map_of_mem hm)
      rw [Table.get_put, if_neg hne]
      exact hrest m hm
    rw [listedLines, List.flatMap_cons, List.foldlM_append, read_listed hunit hl]
    exact ih hlisting hnodup.2 hnext

/-- The states of the listing, unit by unit. -/
def statesOf (listing : List Listed) : Table Bytes Bytes :=
  (listing.map fun l => (l.unit, l.state)).foldl (fun t p => t.put p.1 p.2) Table.empty

theorem statesOf_entries (hnodup : (listing.map Listed.unit).Nodup) :
    (statesOf listing).entries = (listing.map fun l => (l.unit, l.state)).reverse := by
  have hkeys : ((listing.map fun l => (l.unit, l.state)).map Prod.fst).Nodup := by
    rw [List.map_map]
    exact hnodup
  exact Table.entries_foldl_put_empty hkeys

theorem statesOf_get (hnodup : (listing.map Listed.unit).Nodup) (unit state : Bytes) :
    (statesOf listing).get unit = some state ↔
      ∃ l ∈ listing, l.unit = unit ∧ l.state = state := by
  rw [Table.get_eq_some_iff, statesOf_entries hnodup, List.mem_reverse, List.mem_map]
  simp only [Prod.mk.injEq]

theorem parse_listed {targets : List DeclaredTarget} {raw : Bytes}
    (hdistinct : (unitsOf targets).Nodup) (hsize : raw.length ≤ maxAdminBytes)
    (hunits : (listing.map Listed.unit).Perm (unitsOf targets))
    (hraw : raw = render listing ∨ raw = (render listing).dropLast) :
    parseWorkloadActivity raw targets = .ok (statesOf listing) := by
  have hnodup : (listing.map Listed.unit).Nodup := hunits.nodup_iff.mpr hdistinct
  have hlisted : ∀ l ∈ listing, l.unit ∈ unitsOf targets := fun l hl =>
    hunits.mem_iff.mp (List.mem_map_of_mem hl)
  have hread : (listedLines listing).foldlM (Activity.read (unitsOf targets))
      (.clear Table.empty) = some (.clear (statesOf listing)) :=
    read_listedLines hlisted hnodup fun _ _ => rfl
  have hblank : (listedLines listing ++ [[]]).foldlM (Activity.read (unitsOf targets))
      (.clear Table.empty) = some (.clear (statesOf listing)) := by
    rw [List.foldlM_append, hread]
    rfl
  have hlines : (split raw (chr '\n')).foldlM (Activity.read (unitsOf targets))
      (.clear Table.empty) = some (.clear (statesOf listing)) := by
    rcases hraw with rfl | rfl
    · rw [split_render, hblank]
    · by_cases hempty : listing = []
      · subst hempty
        exact hblank
      · rw [split_render_dropLast hempty, hread]
  have hlength : (statesOf listing).size = targets.length := by
    rw [Table.size, statesOf_entries hnodup, List.length_reverse, List.length_map]
    simpa [unitsOf] using hunits.length_eq
  unfold parseWorkloadActivity
  rw [if_neg (by omega)]
  rw [Activity.clear] at hlines
  simp [hlines, Activity.clear, Activity.commit, hlength]

end Written

/-! ## Exactly the complete listings -/

section Exactly
variable {targets : List DeclaredTarget} {raw : Bytes}

/-- The parser accepts exactly the complete listings of the units. -/
structure ExactOn (targets : List DeclaredTarget) (raw : Bytes) : Prop where
  exact : ∀ result, parseWorkloadActivity raw targets = .ok result → Reflects targets raw result
  strict : Malformed targets raw → ∃ e, parseWorkloadActivity raw targets = .error e
  complete : ∀ listing : List Listed, (listing.map Listed.unit).Perm (unitsOf targets) →
    raw = render listing ∨ raw = (render listing).dropLast →
    ∃ result, parseWorkloadActivity raw targets = .ok result ∧
      ∀ unit state, result.get unit = some state ↔ ∃ l ∈ listing, l.unit = unit ∧ l.state = state

/-- A state of the result comes from a block. -/
theorem committed_of_get (hdistinct : (unitsOf targets).Nodup) (hsize : raw.length ≤ maxAdminBytes)
    {result : Table Bytes Bytes} (h : parseWorkloadActivity raw targets = .ok result)
    {unit state : Bytes} (hget : result.get unit = some state) :
    ∃ block ∈ blocks raw, Committed block unit state := by
  have haccepted := ((parse_ok_iff hdistinct hsize).mp h).1
  have hgiven := (parse_get hdistinct hsize h unit state).mp hget
  obtain ⟨⟨block, hblock, heq⟩, -⟩ := mem_given.mp hgiven
  have hstate := haccepted.states _ hgiven
  cases heq
  exact ⟨block, hblock, (haccepted.readable block hblock).committed hstate⟩

/-- The block that sets a unit names it, if it names any. -/
theorem Committed.names {block : List Bytes} {unit state value : Bytes}
    (h : Committed block unit state) (hvalue : idLine value ∈ block) : idLine unit ∈ block := by
  rcases h.origin with hunit | hmem
  · rcases h.ids value hvalue with heq | heq
    · rw [hunit, ← heq]
      exact hvalue
    · rw [← heq]
      exact hvalue
  · exact hmem

theorem malformed_of_lacking {block : List Bytes} (hblock : block ∈ blocks raw)
    (h : (∀ value, idLine value ∉ block) ∨ ∀ value, stateLine value ∉ block) :
    Malformed targets raw := Or.inr (Or.inr (Or.inr (Or.inl ⟨block, hblock, h⟩)))

section Claim
variable (hdistinct : (unitsOf targets).Nodup) (hsize : raw.length ≤ maxAdminBytes)

theorem ExactOn.not_malformed (hclaim : ExactOn targets raw) {result : Table Bytes Bytes}
    (h : parseWorkloadActivity raw targets = .ok result) : ¬ Malformed targets raw := by
  intro hbad
  obtain ⟨e, he⟩ := hclaim.strict hbad
  rw [h] at he
  cases he

theorem ExactOn.has_id (hclaim : ExactOn targets raw) {result : Table Bytes Bytes}
    (h : parseWorkloadActivity raw targets = .ok result) {block : List Bytes}
    (hblock : block ∈ blocks raw) : ∃ unit, idLine unit ∈ block := by
  by_contra hnone
  apply hclaim.not_malformed h
  exact malformed_of_lacking hblock (Or.inl fun value hvalue => hnone ⟨value, hvalue⟩)

include hdistinct hsize

/-- Where a declared unit has one block, this block has set its state. -/
theorem ExactOn.committed (hclaim : ExactOn targets raw) {result : Table Bytes Bytes}
    (h : parseWorkloadActivity raw targets = .ok result) {block : List Bytes}
    (hblock : block ∈ blocks raw) {unit : Bytes} (hid : idLine unit ∈ block) :
    ∃ state, Committed block unit state := by
  have hown : block ∈ blocksOf unit (blocks raw) :=
    List.mem_filter.mpr ⟨hblock, decide_eq_true hid⟩
  have hunit : unit ∈ unitsOf targets := by
    by_contra hunknown
    apply hclaim.not_malformed h
    exact Or.inr (Or.inr (Or.inl ⟨unit, hunknown, List.ne_nil_of_mem hown⟩))
  obtain ⟨only, state, honly, hget, -⟩ := (hclaim.exact result h).2 unit hunit
  obtain ⟨setter, hsetter, hcommitted⟩ := committed_of_get hdistinct hsize h hget
  obtain ⟨value, hvalue⟩ := hclaim.has_id h hsetter
  have hsame : setter ∈ blocksOf unit (blocks raw) :=
    List.mem_filter.mpr ⟨hsetter, decide_eq_true (hcommitted.names hvalue)⟩
  rw [honly, List.mem_singleton] at hown hsame
  rw [hown, ← hsame]
  exact ⟨state, hcommitted⟩

theorem ExactOn.named (hclaim : ExactOn targets raw) {result : Table Bytes Bytes}
    (h : parseWorkloadActivity raw targets = .ok result) {block : List Bytes}
    (hblock : block ∈ blocks raw) : Named block := by
  obtain ⟨unit, hunit⟩ := hclaim.has_id h hblock
  obtain ⟨state, hcommitted⟩ := hclaim.committed hdistinct hsize h hblock hunit
  refine ⟨unit, state, fun value => ⟨fun hvalue => ?_, fun heq => heq ▸ hunit⟩,
    hcommitted.nonempty, hcommitted.stateMem⟩
  -- Of two names one would be empty, and the block has set the state of both.
  obtain ⟨_, hother⟩ := hclaim.committed hdistinct hsize h hblock hvalue
  rcases hcommitted.ids value hvalue with hempty | heq
  · rcases hother.ids unit hunit with hunitEmpty | heq
    · rw [hempty, hunitEmpty]
    · exact heq.symm
  · exact heq

theorem exactOn_iff : ExactOn targets raw ↔
    (Accepted targets raw → ∀ block ∈ blocks raw, Named block) := by
  constructor
  · intro hclaim haccepted block hblock
    exact hclaim.named hdistinct hsize ((parse_ok_iff hdistinct hsize).mpr ⟨haccepted, rfl⟩) hblock
  · intro hnamed
    have hlisting : ∀ {result}, parseWorkloadActivity raw targets = .ok result →
        (∀ block ∈ blocks raw, Named block) ∧ Listing targets raw result (given (blocks raw)) := by
      intro result h
      have hblocks := hnamed ((parse_ok_iff hdistinct hsize).mp h).1
      exact ⟨hblocks, listing_of_parse hdistinct hsize hblocks h⟩
    refine ⟨?_, ?_, ?_⟩
    · intro result h
      exact (hlisting h).2.reflects (hlisting h).1 hdistinct
    · intro hbad
      cases h : parseWorkloadActivity raw targets with
      | error e => exact ⟨e, rfl⟩
      | ok result => exact absurd hbad ((hlisting h).2.not_malformed (hlisting h).1 hdistinct)
    · intro listing hunits hraw
      refine ⟨statesOf listing, parse_listed hdistinct hsize hunits hraw, ?_⟩
      exact statesOf_get (hunits.nodup_iff.mpr hdistinct)

end Claim

/-- No line gives a property without a value. -/
def Valued (raw : Bytes) : Prop :=
  ∀ line ∈ split raw (chr '\n'), line ≠ idLine [] ∧ line ≠ stateLine []

/-- With a value in every line, a block of an accepted text gives its two properties. -/
theorem Accepted.named (h : Accepted targets raw) (hunits : [] ∉ unitsOf targets)
    (hvalued : Valued raw) {block : List Bytes} (hblock : block ∈ blocks raw) : Named block := by
  obtain ⟨hgroup, hne⟩ := List.mem_filter.mp hblock
  have hreadable := h.readable block hblock
  have hlines : idLine [] ∉ block ∧ stateLine [] ∉ block := by
    exact ⟨fun hmem => (hvalued _ (of_mem_splitOnP hgroup _ hmem).1).1 rfl,
      fun hmem => (hvalued _ (of_mem_splitOnP hgroup _ hmem).1).2 rfl⟩
  have hid : ∀ value, idLine value ∈ block → value = blockId block := by
    intro value hvalue
    rcases eq_nil_or_last hreadable.ids value (mem_ids.mpr hvalue) with rfl | hlast
    · exact absurd hvalue hlines.1
    · exact hlast
  have hstate : ∀ value, stateLine value ∈ block → value = blockState block := by
    intro value hvalue
    rcases eq_nil_or_last hreadable.states value (mem_states.mpr hvalue) with rfl | hlast
    · exact absurd hvalue hlines.2
    · exact hlast
  have hgives : (blockId block, blockState block) ≠ ([], []) := by
    intro hempty
    rw [Prod.mk.injEq] at hempty
    obtain ⟨hidEmpty, hstateEmpty⟩ := hempty
    obtain ⟨line, hline⟩ := List.exists_mem_of_ne_nil block (of_decide_eq_true hne)
    obtain ⟨value, rfl | rfl⟩ := hreadable.formed line hline
    · rw [hid value hline] at hline
      rw [hidEmpty] at hline
      exact hlines.1 hline
    · rw [hstate value hline] at hline
      rw [hstateEmpty] at hline
      exact hlines.2 hline
  have hgiven := mem_given.mpr ⟨⟨block, hblock, rfl⟩, hgives⟩
  have hunit : blockId block ≠ [] := by
    intro hempty
    exact hunits (hempty ▸ h.units.mem_iff.mp (List.mem_map_of_mem hgiven))
  refine ⟨blockId block, blockState block, ?_, h.states _ hgiven,
    mem_states.mp ((last_mem _).resolve_left (h.states _ hgiven))⟩
  intro value
  constructor
  · exact hid value
  · rintro rfl
    exact mem_ids.mp ((last_mem _).resolve_left hunit)

/-- The parser accepts exactly the complete listings unless the text is one only apart from its
lines without a value, and these leave a block that does not name one unit with a state. -/
theorem parseWorkloadActivity_exact_iff (hdistinct : (unitsOf targets).Nodup)
    (hsize : raw.length ≤ maxAdminBytes) :
    (ExactOn targets raw ↔
      ¬ (Accepted targets raw ∧ ∃ block ∈ blocks raw, ¬ Named block)) ∧
    ([] ∉ unitsOf targets → Valued raw → ExactOn targets raw) := by
  refine ⟨?_, ?_⟩
  · rw [exactOn_iff hdistinct hsize]
    push Not
    rfl
  · intro hunits hvalued
    exact (exactOn_iff hdistinct hsize).mpr fun haccepted block hblock =>
      haccepted.named hunits hvalued hblock

end Exactly

/-- A watched unit. -/
def sidecarTarget : DeclaredTarget :=
  { unit := str "caddy.service", identity := str "spiffe://example.org/caddy",
    source := str "caddy", address := str "127.0.0.1:9443" }

def blocklessText : Bytes := str "Id=\n\nId=caddy.service\nActiveState=active\n"

/-- A first block with an empty name and no state is passed over. -/
theorem parseWorkloadActivity_passes_over :
    (unitsOf [sidecarTarget]).Nodup ∧ blocklessText.length ≤ maxAdminBytes ∧
      ¬ ExactOn [sidecarTarget] blocklessText := by
  refine ⟨by decide, by decide +kernel, ?_⟩
  intro hclaim
  have hfacts : [str "Id="] ∈ blocks blocklessText ∧
      (parseWorkloadActivity blocklessText [sidecarTarget]).isOk = true := by
    decide +kernel
  obtain ⟨hblock, hok⟩ := hfacts
  have hlacks : ∀ value, stateLine value ∉ [str "Id="] := by
    intro value hvalue
    rw [List.mem_singleton] at hvalue
    exact idLine_ne_stateLine [] value hvalue.symm
  obtain ⟨e, he⟩ := hclaim.strict (malformed_of_lacking hblock (Or.inr hlacks))
  rw [he] at hok
  cases hok

theorem named_pair (unit : Bytes) {state : Bytes} (h : state ≠ []) :
    Named [idLine unit, stateLine state] := by
  refine ⟨unit, state, ?_, h, List.mem_cons_of_mem _ (List.mem_singleton_self _)⟩
  intro value
  simp [idLine_inj, idLine_ne_stateLine]

def sidecarText : Bytes := str "Id=caddy.service\nActiveState=active\n"

theorem parseWorkloadActivity_exact_sidecar :
    (unitsOf [sidecarTarget]).Nodup ∧ sidecarText.length ≤ maxAdminBytes ∧
      (parseWorkloadActivity sidecarText [sidecarTarget]).isOk = true ∧
      ExactOn [sidecarTarget] sidecarText := by
  have hdistinct : (unitsOf [sidecarTarget]).Nodup := by decide
  have hfacts : sidecarText.length ≤ maxAdminBytes ∧
      (parseWorkloadActivity sidecarText [sidecarTarget]).isOk = true ∧
      blocks sidecarText = [[idLine (str "caddy.service"), stateLine (str "active")]] := by
    decide +kernel
  obtain ⟨hsize, hok, hblocks⟩ := hfacts
  refine ⟨hdistinct, hsize, hok, (parseWorkloadActivity_exact_iff hdistinct hsize).1.mpr ?_⟩
  rintro ⟨-, block, hblock, hnot⟩
  rw [hblocks, List.mem_singleton] at hblock
  rw [hblock] at hnot
  exact hnot (named_pair _ (by decide))

end RealmFormal.IdentityMetrics

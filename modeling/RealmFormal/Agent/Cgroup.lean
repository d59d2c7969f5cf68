import RealmFormal.Agent.Egress
import RealmFormal.Agent.Gate

/-!
# Units that the host manages

What `workloadCgroup` finds in a path: the unit below nothing but slices. The
result depends on the components up to the unit only, so it is its own result and
that of every path below.
-/

namespace RealmFormal.Agent
open Go Filepath
set_option autoImplicit false

/-- What stands between the slashes of a path. -/
def components (path : Bytes) : List Bytes := split (trimPrefix path (str "/")) (chr '/')

/-- An absolute, clean path other than the root. -/
def DedicatedGroup (path : Bytes) : Prop :=
  hasPrefix path (str "/") = true ∧ clean path = path ∧ path ≠ str "/"

def AllSlices (names : List Bytes) : Prop := ∀ name ∈ names, hasSuffix name (str ".slice") = true

/-- The part of a path up to a component that is the unit and has slices before it only. -/
def UnitPath (unit path found : Bytes) : Prop :=
  ∃ slices below, components path = slices ++ unit :: below ∧ AllSlices slices ∧
    found = str "/" ++ join (slices ++ [unit]) (chr '/')

/-- `path'` continues `path` by at least one component. -/
def Below (path path' : Bytes) : Prop := ∃ rest, path' = path ++ str "/" ++ rest

/-! ## The walk -/

theorem walkToUnit_some {unit : Bytes} {parts found : List Bytes}
    (h : walkToUnit unit parts = some found) :
    ∃ slices below, parts = slices ++ unit :: below ∧ AllSlices slices ∧
      found = slices ++ [unit] := by
  induction parts generalizing found with
  | nil => cases h
  | cons part rest ih =>
    rw [walkToUnit] at h
    split at h
    · rename_i heq
      cases h
      exact ⟨[], rest, by rw [heq, List.nil_append], List.forall_mem_nil _, by rw [heq]; rfl⟩
    · split at h
      · rename_i hslice
        obtain ⟨found', hfound', rfl⟩ := Option.map_eq_some_iff.mp h
        obtain ⟨slices, below, rfl, hslices, rfl⟩ := ih hfound'
        exact ⟨part :: slices, below, rfl, List.forall_mem_cons.mpr ⟨hslice, hslices⟩, rfl⟩
      · cases h

theorem walkToUnit_append {unit : Bytes} (hunit : hasSuffix unit (str ".slice") = false)
    {slices : List Bytes} (hslices : AllSlices slices) (below : List Bytes) :
    walkToUnit unit (slices ++ unit :: below) = some (slices ++ [unit]) := by
  induction slices with
  | nil => simp [walkToUnit]
  | cons part slices ih =>
    obtain ⟨hslice, hslices⟩ := List.forall_mem_cons.mp hslices
    have hne : part ≠ unit := by
      rintro rfl
      rw [hunit] at hslice
      cases hslice
    rw [List.cons_append, walkToUnit, if_neg hne, if_pos hslice, ih hslices]
    rfl

/-! ## Accepted paths -/

theorem components_rooted {names : List Bytes} (hne : names ≠ [])
    (hproper : ∀ name ∈ names, Proper name) : components (rooted names) = names := by
  rw [components, show rooted names = str "/" ++ join names (chr '/') from rfl, trimPrefix_append]
  exact split_join hne fun name hname => (hproper name hname).2.2.2

theorem DedicatedGroup.rooted {path : Bytes} (h : DedicatedGroup path) :
    path = rooted (components path) ∧ components path ≠ [] ∧
      ∀ name ∈ components path, Proper name := by
  obtain ⟨habs, hclean, hroot⟩ := h
  have hpath : path = Filepath.rooted (cleanElements true path) :=
    hclean.symm.trans (clean_of_isAbs habs)
  have hproper := cleanElements_proper path
  have hne : cleanElements true path ≠ [] := by
    intro hnil
    rw [hnil] at hpath
    exact hroot hpath
  have hcomponents : components path = cleanElements true path := by
    conv_lhs => rw [hpath]
    exact components_rooted hne hproper
  rw [hcomponents]
  exact ⟨hpath, hne, hproper⟩

theorem dedicatedGroup_rooted {names : List Bytes} (hne : names ≠ [])
    (hproper : ∀ name ∈ names, Proper name) : DedicatedGroup (rooted names) := by
  refine ⟨isAbs_rooted names, clean_rooted hproper, fun hroot => hne ?_⟩
  have hnames := congrArg (cleanElements true) hroot
  rw [cleanElements_rooted hproper] at hnames
  exact hnames.trans (by decide)

theorem DedicatedGroup.below {path path' : Bytes} (hbelow : Below path path')
    (h : DedicatedGroup path) (hclean : clean path' = path') : DedicatedGroup path' := by
  obtain ⟨rest, rfl⟩ := hbelow
  obtain ⟨habs, -, hroot⟩ := h
  obtain ⟨tail, rfl⟩ := List.isPrefixOf_iff_prefix.mp habs
  refine ⟨?_, hclean, ?_⟩
  · rw [List.append_assoc, List.append_assoc]
    exact hasPrefix_append _ _
  · intro heq
    have hlength := congrArg List.length heq
    simp [str] at hlength

theorem components_below {path path' : Bytes} (hbelow : Below path path')
    (h : DedicatedGroup path) : ∃ rest, components path' = components path ++ rest := by
  obtain ⟨rest, rfl⟩ := hbelow
  obtain ⟨tail, rfl⟩ := List.isPrefixOf_iff_prefix.mp h.1
  refine ⟨split rest (chr '/'), ?_⟩
  rw [components, components, trimPrefix_append, List.append_assoc, List.append_assoc,
    trimPrefix_append]
  exact split_append_cons tail rest (chr '/')

theorem dedicatedGroup_iff {path : Bytes} :
    DedicatedGroup path ↔ ¬ (path = [] ∨ path = str "/" ∨ ¬ hasPrefix path (str "/") ∨
      clean path ≠ path) := by
  constructor
  · rintro ⟨habs, hclean, hroot⟩ (rfl | h | h | h)
    · exact absurd habs (by decide)
    · exact hroot h
    · exact h habs
    · exact h hclean
  · intro h
    push Not at h
    exact ⟨h.2.2.1, h.2.2.2, h.2.1⟩

section Selected
variable {path unit found : Bytes} (hunit : hasSuffix unit (str ".slice") = false)
include hunit

theorem workloadCgroup_eq_ok :
    workloadCgroup path unit = .ok found ↔ DedicatedGroup path ∧
      (unit = [] ∧ found = path ∨ unit ≠ [] ∧ UnitPath unit path found) := by
  rw [workloadCgroup, dedicatedGroup_iff]
  split
  · rename_i hbad
    exact iff_of_false (fun h => by cases h) fun h => h.1 hbad
  · rename_i hgood
    rw [and_iff_right hgood]
    by_cases hempty : unit = []
    · rw [if_pos hempty]
      simp [hempty, eq_comm]
    · rw [if_neg hempty]
      simp only [hempty, false_and, ne_eq, not_false_eq_true, true_and, false_or]
      constructor
      · intro h
        split at h
        · rename_i parts hwalk
          cases h
          obtain ⟨slices, below, hparts, hslices, rfl⟩ := walkToUnit_some hwalk
          exact ⟨slices, below, hparts, hslices, rfl⟩
        · cases h
      · rintro ⟨slices, below, hparts, hslices, rfl⟩
        have hwalk : walkToUnit unit (split (trimPrefix path (str "/")) (chr '/')) =
            some (slices ++ [unit]) := by
          rw [← components, hparts]
          exact walkToUnit_append hunit hslices below
        rw [hwalk]

theorem UnitPath.unique {found' : Bytes} (h : UnitPath unit path found)
    (h' : UnitPath unit path found') : found = found' := by
  obtain ⟨slices, below, hparts, hslices, rfl⟩ := h
  obtain ⟨slices', below', hparts', hslices', rfl⟩ := h'
  have hwalk := walkToUnit_append hunit hslices below
  rw [← hparts, hparts', walkToUnit_append hunit hslices' below'] at hwalk
  rw [Option.some.inj hwalk]

omit hunit in
theorem UnitPath.below {path' : Bytes} (hpath : DedicatedGroup path) (hbelow : Below path path')
    (h : UnitPath unit path found) : UnitPath unit path' found := by
  obtain ⟨slices, below, hparts, hslices, rfl⟩ := h
  obtain ⟨rest, hrest⟩ := components_below hbelow hpath
  exact ⟨slices, below ++ rest, by rw [hrest, hparts]; simp, hslices, rfl⟩

omit hunit in
/-- The path of the unit is a path of its own, with the same components as far as it goes. -/
theorem UnitPath.self (hpath : DedicatedGroup path) (h : UnitPath unit path found) :
    DedicatedGroup found ∧ UnitPath unit found found ∧ (found = path ∨ Below found path) := by
  obtain ⟨slices, below, hparts, hslices, rfl⟩ := h
  obtain ⟨heq, -, hproper⟩ := hpath.rooted
  rw [hparts] at heq hproper
  have hne : slices ++ [unit] ≠ [] := by simp
  have hown : ∀ name ∈ slices ++ [unit], Proper name := by
    intro name hname
    apply hproper
    rcases List.mem_append.mp hname with hname | hname
    · exact List.mem_append_left _ hname
    · rw [List.mem_singleton.mp hname]
      exact List.mem_append_right _ List.mem_cons_self
  refine ⟨dedicatedGroup_rooted hne hown, ⟨slices, [], ?_, hslices, rfl⟩, ?_⟩
  · exact components_rooted hne hown
  · by_cases hbelow : below = []
    · left
      rw [heq, hbelow]
      rfl
    · right
      refine ⟨join below (chr '/'), ?_⟩
      rw [heq, show slices ++ unit :: below = (slices ++ [unit]) ++ below by simp,
        rooted_append _ _ hne hbelow]
      simp [rooted, str, chr]

end Selected

theorem accepted_unit_not_slice {parseURL : Bytes → Option Url} {w v : Workload}
    (h : w.validate parseURL = .ok v) : hasSuffix v.unit (str ".slice") = false := by
  rcases (validate_accepted h).unit with hempty | hservice
  · rw [hempty]
    decide
  · exact isServiceName_not_slice hservice

/-- A path is accepted when it is dedicated and leads to the unit through slices. The result is
the path of the unit, which is the same for all that lies below. -/
theorem workloadCgroup_selects {parseURL : Bytes → Option Url} {w v : Workload}
    (h : w.validate parseURL = .ok v) (path : Bytes) :
    (∀ found, workloadCgroup path v.unit = .ok found ↔ DedicatedGroup path ∧
      (v.unit = [] ∧ found = path ∨ v.unit ≠ [] ∧ UnitPath v.unit path found)) ∧
    (∀ found found', UnitPath v.unit path found → UnitPath v.unit path found' →
      found = found') ∧
    ∀ found, workloadCgroup path v.unit = .ok found →
      (found = path ∨ Below found path) ∧
      workloadCgroup found v.unit = .ok found ∧
      (v.unit ≠ [] → ∀ path', Below path path' → clean path' = path' →
        workloadCgroup path' v.unit = .ok found) := by
  have hunit := accepted_unit_not_slice h
  refine ⟨fun found => workloadCgroup_eq_ok hunit,
    fun found found' hfound hfound' => hfound.unique hunit hfound', fun found hok => ?_⟩
  obtain ⟨hpath, hcase⟩ := (workloadCgroup_eq_ok hunit).mp hok
  rcases hcase with ⟨hempty, rfl⟩ | ⟨hne, hfound⟩
  · exact ⟨Or.inl rfl, hok, fun hne => absurd hempty hne⟩
  · obtain ⟨hdedicated, hself, hancestor⟩ := hfound.self hpath
    refine ⟨hancestor, (workloadCgroup_eq_ok hunit).mpr ⟨hdedicated, Or.inr ⟨hne, hself⟩⟩, ?_⟩
    intro _ path' hbelow hclean
    exact (workloadCgroup_eq_ok hunit).mpr
      ⟨hpath.below hbelow hclean, Or.inr ⟨hne, hfound.below hpath hbelow⟩⟩

def unitEgress : Workload := { sampleEgress with unit := str "app.service" }

theorem unitEgress_accepted :
    unitEgress.validate sampleUpstream = .ok unitEgress.withDefaults := by
  have hcheck : unitEgress.check sampleUpstream = none := by decide +kernel
  rw [Workload.validate, hcheck]

/-- A helper group of the unit leads to the unit, a unit of another manager to nothing. -/
theorem workloadCgroup_selects_unitEgress :
    workloadCgroup (str "/system.slice/app.service/.control") (str "app.service") =
        .ok (str "/system.slice/app.service") ∧
      ∀ found, workloadCgroup (str "/user.slice/user@1.service/app.service")
        (str "app.service") ≠ .ok found := by
  have hgroup := (workloadCgroup_selects unitEgress_accepted
    (str "/system.slice/app.service")).2.2 (str "/system.slice/app.service") (by decide +kernel)
  refine ⟨hgroup.2.2 (by decide) _ ⟨str ".control", by decide⟩ (by decide), fun found hok => ?_⟩
  revert hok
  rw [show workloadCgroup (str "/user.slice/user@1.service/app.service") (str "app.service") =
    .error ("peer does not belong to system unit " ++ text (str "app.service")) by decide +kernel]
  intro hok
  cases hok

end RealmFormal.Agent

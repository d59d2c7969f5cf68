import RealmFormal.Agent.Egress
import RealmFormal.Go.Sorted

/-!
# Directories of the egress sockets

`workerSocketDirectories`: the directories that the sandbox of a worker shows, one
for each place where an egress socket lies. The socket paths are arbitrary; what
is compared are the names left after cleaning.
-/

namespace RealmFormal.Agent
open Go Filepath
set_option autoImplicit false

/-- A directory that no egress socket may lie in. -/
def sharedDirectory (dir : Bytes) : Bool :=
  decide (dir = str "/" ∨ dir = str "/run" ∨ dir = str "/var" ∨ dir = str "/var/run" ∨
    dir = str "/tmp" ∨ dir = str "/etc" ∨
    dir = str "/nix" ∨ hasPrefix dir (str "/nix/") ∨
    dir = str "/proc" ∨ hasPrefix dir (str "/proc/") ∨
    dir = str "/sys" ∨ hasPrefix dir (str "/sys/") ∨
    dir = str "/dev" ∨ hasPrefix dir (str "/dev/") ∨
    dir = str "/run/realm-agent" ∨ hasPrefix dir (str "/run/realm-agent/"))

/-- The loop of `workerSocketDirectories` with the directories found so far. -/
def gatherDirectories (directories : List Bytes) : List Bytes → Except String (List Bytes)
  | [] => .ok directories
  | socket :: rest =>
    if socket = [] then gatherDirectories directories rest
    else if sharedDirectory (dir socket) then
      .error ("egress socket needs a dedicated directory: " ++ text socket)
    else gatherDirectories (directories ++ [dir socket]) rest

def workerSocketDirectories (w : Workload) : Except String (List Bytes) :=
  match gatherDirectories [] (w.internetSocket :: w.routes.map Route.socket) with
  | .error e => .error e
  | .ok directories => .ok (compact (sort directories))

/-! ## What is gathered -/

theorem gatherDirectories_ok {directories sockets found : List Bytes}
    (h : gatherDirectories directories sockets = .ok found) :
    (∀ d, d ∈ found ↔ d ∈ directories ∨ ∃ socket ∈ sockets, socket ≠ [] ∧ d = dir socket) ∧
      ∀ socket ∈ sockets, socket ≠ [] → sharedDirectory (dir socket) = false := by
  induction sockets generalizing directories with
  | nil =>
    cases h
    simp
  | cons socket rest ih =>
    rw [gatherDirectories] at h
    split at h
    · rename_i hempty
      obtain ⟨hmem, hapart⟩ := ih h
      constructor
      · intro d
        rw [hmem]
        simp [hempty]
      · intro s hs hne
        rcases List.mem_cons.mp hs with rfl | hs
        · exact absurd hempty hne
        · exact hapart s hs hne
    · rename_i hempty
      split at h
      · cases h
      · rename_i hshared
        obtain ⟨hmem, hapart⟩ := ih h
        constructor
        · intro d
          rw [hmem, List.mem_append, List.mem_singleton, or_assoc]
          simp [hempty]
        · intro s hs hne
          rcases List.mem_cons.mp hs with rfl | hs
          · simpa using hshared
          · exact hapart s hs hne

/-! ## Trees that stay hidden -/

/-- The names of the trees that no exposed directory may touch. -/
def hiddenTrees : List (List Bytes) :=
  [[str "nix"], [str "proc"], [str "sys"], [str "dev"], [str "run", str "realm-agent"]]

/-- One of the two contains the other, or they are equal. -/
def Overlaps (tree d : Bytes) : Prop := Within tree d ∨ Within d tree

theorem hiddenTrees_proper : ∀ tree ∈ hiddenTrees, tree ≠ [] ∧ ∀ name ∈ tree, Proper name := by
  unfold hiddenTrees Proper
  decide

/-- A tree is refused together with all that contains it. -/
theorem shared_of_above : ∀ tree ∈ hiddenTrees, ∀ above ∈ tree.inits,
    sharedDirectory (rooted above) = true := by
  decide

theorem shared_of_below {tree : List Bytes} (htree : tree ∈ hiddenTrees) (rest : Bytes) :
    sharedDirectory (rooted tree ++ chr '/' :: rest) = true := by
  have hbelow : hasPrefix (rooted tree ++ chr '/' :: rest) (rooted tree ++ [chr '/']) = true := by
    simp [hasPrefix]
  generalize rooted tree ++ chr '/' :: rest = d at hbelow
  rw [sharedDirectory, decide_eq_true_eq]
  simp only [hiddenTrees, List.mem_cons, List.not_mem_nil, or_false] at htree
  rcases htree with rfl | rfl | rfl | rfl | rfl
  · rw [show rooted [str "nix"] ++ [chr '/'] = str "/nix/" by decide] at hbelow
    simp [hbelow]
  · rw [show rooted [str "proc"] ++ [chr '/'] = str "/proc/" by decide] at hbelow
    simp [hbelow]
  · rw [show rooted [str "sys"] ++ [chr '/'] = str "/sys/" by decide] at hbelow
    simp [hbelow]
  · rw [show rooted [str "dev"] ++ [chr '/'] = str "/dev/" by decide] at hbelow
    simp [hbelow]
  · rw [show rooted [str "run", str "realm-agent"] ++ [chr '/'] = str "/run/realm-agent/" by
      decide] at hbelow
    simp [hbelow]

theorem shared_of_overlaps {names tree : List Bytes} (hnames : ∀ name ∈ names, Proper name)
    (htree : tree ∈ hiddenTrees) (h : Overlaps (rooted tree) (rooted names)) :
    sharedDirectory (rooted names) = true := by
  obtain ⟨hne, hproper⟩ := hiddenTrees_proper tree htree
  rcases h with h | h
  · obtain ⟨rest, rfl⟩ := (within_rooted hproper hnames).mp h
    by_cases hrest : rest = []
    · rw [hrest, List.append_nil]
      exact shared_of_above tree htree tree ((List.mem_inits _ _).mpr (List.prefix_refl _))
    · rw [rooted_append tree rest hne hrest]
      exact shared_of_below htree _
  · have habove := (within_rooted hnames hproper).mp h
    exact shared_of_above tree htree names ((List.mem_inits _ _).mpr habove)

/-! ## The exposed directories -/

/-- The declared sockets through which the worker leaves. -/
def Workload.EgressSocket (w : Workload) (socket : Bytes) : Prop :=
  (socket = w.internetSocket ∧ socket ≠ []) ∨ ∃ r ∈ w.routes, socket = r.socket

section Exposed
variable {parseURL : Bytes → Option Url} {w v : Workload}

theorem egressSocket_isAbs (h : w.validate parseURL = .ok v) {socket : Bytes}
    (hsocket : v.EgressSocket socket) : isAbs socket = true := by
  have haccepted := validate_accepted h
  rcases hsocket with ⟨rfl, hne⟩ | ⟨r, hr, rfl⟩
  · rcases haccepted.internetSocket with hempty | habs
    · exact absurd hempty hne
    · exact habs
  · have hroute := haccepted.routes r hr
    unfold checkRoute at hroute
    split at hroute
    · cases hroute
    · split at hroute
      · cases hroute
      · rename_i hgood
        rw [not_or, not_not] at hgood
        exact hgood.2

theorem egressSocket_iff (h : w.validate parseURL = .ok v) {socket : Bytes} :
    v.EgressSocket socket ↔
      socket ∈ v.internetSocket :: v.routes.map Route.socket ∧ socket ≠ [] := by
  have hne : v.EgressSocket socket → socket ≠ [] := by
    rintro hsocket rfl
    exact absurd (egressSocket_isAbs h hsocket) (by decide)
  constructor
  · intro hsocket
    refine ⟨?_, hne hsocket⟩
    rcases hsocket with ⟨rfl, -⟩ | ⟨r, hr, rfl⟩
    · exact List.mem_cons_self
    · exact List.mem_cons_of_mem _ (List.mem_map_of_mem hr)
  · rintro ⟨hmem, hnil⟩
    rcases List.mem_cons.mp hmem with rfl | hmem
    · exact Or.inl ⟨rfl, hnil⟩
    · obtain ⟨r, hr, rfl⟩ := List.mem_map.mp hmem
      exact Or.inr ⟨r, hr, rfl⟩

theorem workerSocketDirectories_ok {directories : List Bytes}
    (h : workerSocketDirectories v = .ok directories) :
    ∃ found, gatherDirectories [] (v.internetSocket :: v.routes.map Route.socket) = .ok found ∧
      directories = compact (sort found) := by
  unfold workerSocketDirectories at h
  split at h
  · cases h
  · rename_i found hfound
    cases h
    exact ⟨found, hfound, rfl⟩

/-- In increasing order a directory stands before what lies below it. -/
theorem idxOf_lt_of_within {directories : List Bytes} (hsorted : directories.Pairwise (· < ·))
    {d d' : Bytes} (hd : d ∈ directories) (hd' : d' ∈ directories) (hne : d ≠ d')
    (hbelow : d <+: d') : directories.idxOf d < directories.idxOf d' := by
  by_contra hge
  have hlt : directories.idxOf d' < directories.idxOf d := by
    refine Nat.lt_of_le_of_ne (Nat.not_lt.mp hge) fun heq => hne ?_
    exact (List.idxOf_inj hd).mp heq.symm
  have hwrong := List.pairwise_iff_getElem.mp hsorted _ _ (List.idxOf_lt_length_of_mem hd')
    (List.idxOf_lt_length_of_mem hd) hlt
  rw [List.getElem_idxOf, List.getElem_idxOf] at hwrong
  exact List.not_le.mpr hwrong hbelow.le

theorem egressSocket_dir (h : w.validate parseURL = .ok v) {socket : Bytes}
    (hsocket : v.EgressSocket socket) :
    ∃ names, (∀ name ∈ names, Proper name) ∧ dir socket = rooted names :=
  dir_of_isAbs (egressSocket_isAbs h hsocket)

theorem shared_of_socket (h : w.validate parseURL = .ok v) {socket : Bytes}
    (hsocket : v.EgressSocket socket) {tree : List Bytes} (htree : tree ∈ hiddenTrees)
    (hoverlaps : Overlaps (rooted tree) (dir socket)) : sharedDirectory (dir socket) = true := by
  obtain ⟨names, hproper, hdir⟩ := egressSocket_dir h hsocket
  rw [hdir] at hoverlaps ⊢
  exact shared_of_overlaps hproper htree hoverlaps

section Directories
variable {directories : List Bytes} (hok : workerSocketDirectories v = .ok directories)
include hok

theorem exposed_sorted : directories.Pairwise (· < ·) := by
  obtain ⟨found, -, rfl⟩ := workerSocketDirectories_ok hok
  exact compact_pairwise (sort_pairwise found)

theorem mem_exposed_iff (h : w.validate parseURL = .ok v) (d : Bytes) :
    d ∈ directories ↔ ∃ socket, v.EgressSocket socket ∧ d = dir socket := by
  obtain ⟨found, hfound, rfl⟩ := workerSocketDirectories_ok hok
  rw [mem_compact, mem_sort, (gatherDirectories_ok hfound).1]
  simp only [List.not_mem_nil, false_or, egressSocket_iff h, and_assoc]

theorem exposed_apart (h : w.validate parseURL = .ok v) {socket : Bytes}
    (hsocket : v.EgressSocket socket) {tree : List Bytes} (htree : tree ∈ hiddenTrees) :
    ¬ Overlaps (rooted tree) (dir socket) := by
  intro hoverlaps
  obtain ⟨found, hfound, -⟩ := workerSocketDirectories_ok hok
  obtain ⟨hin, hne⟩ := (egressSocket_iff h).mp hsocket
  have hshared := shared_of_socket h hsocket htree hoverlaps
  rw [(gatherDirectories_ok hfound).2 socket hin hne] at hshared
  cases hshared

theorem exposed_parents_first (h : w.validate parseURL = .ok v) {d d' : Bytes}
    (hd : d ∈ directories) (hd' : d' ∈ directories) (hne : d ≠ d') (hbelow : Within d d') :
    directories.idxOf d < directories.idxOf d' := by
  apply idxOf_lt_of_within (exposed_sorted hok) hd hd' hne
  obtain ⟨socket, hsocket, rfl⟩ := (mem_exposed_iff hok h d).mp hd
  obtain ⟨socket', hsocket', rfl⟩ := (mem_exposed_iff hok h d').mp hd'
  obtain ⟨names, hproper, hdir⟩ := egressSocket_dir h hsocket
  obtain ⟨names', hproper', hdir'⟩ := egressSocket_dir h hsocket'
  rw [hdir, hdir'] at hbelow ⊢
  exact rooted_prefix ((within_rooted hproper hproper').mp hbelow)

end Directories

/-- The directories shown to the worker are those of the declared sockets, each once, parents
first, and none of them touches a hidden tree. -/
theorem exposed_directories (h : w.validate parseURL = .ok v) :
    (∀ directories, workerSocketDirectories v = .ok directories →
      directories.Pairwise (· < ·) ∧
      (∀ d, d ∈ directories ↔ ∃ socket, v.EgressSocket socket ∧ d = dir socket) ∧
      (∀ d ∈ directories, ∀ d' ∈ directories, d ≠ d' → Within d d' →
        directories.idxOf d < directories.idxOf d') ∧
      ∀ d ∈ directories, ∀ tree ∈ hiddenTrees, ¬ Overlaps (rooted tree) d) ∧
    ∀ socket, v.EgressSocket socket →
      (∃ tree ∈ hiddenTrees, Overlaps (rooted tree) (dir socket)) →
        ∃ e, workerSocketDirectories v = .error e := by
  constructor
  · intro directories hok
    refine ⟨exposed_sorted hok, mem_exposed_iff hok h, ?_, ?_⟩
    · intro d hd d' hd' hne hbelow
      exact exposed_parents_first hok h hd hd' hne hbelow
    · intro d hd tree htree
      obtain ⟨socket, hsocket, rfl⟩ := (mem_exposed_iff hok h d).mp hd
      exact exposed_apart hok h hsocket htree
  · rintro socket hsocket ⟨tree, htree, hoverlaps⟩
    cases hok : workerSocketDirectories v with
    | error e => exact ⟨e, rfl⟩
    | ok directories => exact absurd hoverlaps (exposed_apart hok h hsocket htree)

end Exposed

/-- Two sockets whose paths take detours, one below the directory of the other. -/
def scatteredEgress : Workload :=
  { sampleEgress with
    internetSocket := str "/srv/a/../b/./c//internet.sock"
    routes := [⟨str "10.0.0.0/8", 443, str "/srv//b/x/../service.sock"⟩] }

theorem scatteredEgress_accepted :
    scatteredEgress.validate sampleUpstream = .ok scatteredEgress.withDefaults := by
  have hcheck : scatteredEgress.check sampleUpstream = none := by decide +kernel
  rw [Workload.validate, hcheck]

theorem exposed_directories_scatteredEgress :
    workerSocketDirectories scatteredEgress.withDefaults =
        .ok [str "/srv/b", str "/srv/b/c"] ∧
      ∀ d ∈ [str "/srv/b", str "/srv/b/c"], ∀ tree ∈ hiddenTrees, ¬ Overlaps (rooted tree) d := by
  have hok : workerSocketDirectories scatteredEgress.withDefaults =
      .ok [str "/srv/b", str "/srv/b/c"] := by decide +kernel
  exact ⟨hok, ((exposed_directories scatteredEgress_accepted).1 _ hok).2.2.2⟩

end RealmFormal.Agent

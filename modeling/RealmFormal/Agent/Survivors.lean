import RealmFormal.Agent.Lifecycle

/-!
# Which survivors recovery finds

`recover` on a tree of cgroups with its live processes. Capture and the
populated check concern a whole subtree; the search reads the processes of one
cgroup only, and of the listing and of the state file only the beginning.
-/

namespace RealmFormal.Agent
open Go Go.Json
set_option autoImplicit false

/-- A live process. `owner` is the user of its directory in `/proc`. -/
structure Member where
  pid : Nat
  owner : UInt32
  cgroup : Bytes
  netns : Nat
  pid_lt : pid < 2 ^ 22

/-- Cgroups by their path below the mount point, and the processes in them in the order in
which the kernel lists them. -/
structure Tree where
  inode : Bytes → Option Nat
  members : List Member
  hostNetns : Nat
  distinct : (members.map Member.pid).Nodup

/-- What `processNetwork` finds under the directory of a live process. -/
def Tree.process (t : Tree) (m : Member) : Process where
  cgroupFile := .ok (str "0::" ++ m.cgroup ++ str "\n")
  cgroupInode := fun path =>
    match t.inode path with
    | some n => .ok n
    | none => .error "no such file or directory"
  netnsInode := .ok m.netns
  hostInode := .ok (some t.hostNetns)

/-- The content of `cgroup.procs`: the processes of this cgroup, without those of its
descendants. -/
def Tree.procsFile (t : Tree) (path : Bytes) : Bytes :=
  (t.members.filter fun m => decide (m.cgroup = path)).flatMap fun m =>
    natDigits m.pid ++ [chr '\n']

/-- `strings.Fields` on ASCII text. -/
def fields (s : Bytes) : List Bytes :=
  (s.splitOnP fun b => decide (b = chr ' ' ∨ 9 ≤ b.toNat ∧ b.toNat ≤ 13)).filter
    fun f => decide (f ≠ [])

/-- The fields that the loop of `recover` visits. -/
def Tree.listed (t : Tree) (path : Bytes) : List Bytes := fields ((t.procsFile path).take (2 ^ 20))

/-- `os.Open` of the directory of a PID. -/
def Tree.find (t : Tree) (pid : Bytes) : Option Member :=
  t.members.find? fun m => decide (natDigits m.pid = pid)

/-- What `recover` meets on this tree when no system call fails, and `start` ends in
`start`. -/
def Tree.recovery (t : Tree) (start : Option String) : Recovery where
  openState := none
  removeState := none
  directory := fun path =>
    match t.inode path with
    | none => .missing
    | some _ => .found (.ok (t.listed path))
  process := fun pid => (t.find pid).map fun m => (some m.owner, t.process m)
  start := start

/-- The process is in this cgroup or below it. -/
def Member.Below (m : Member) (path : Bytes) : Prop :=
  m.cgroup = path ∨ hasPrefix m.cgroup (path ++ str "/") = true

instance (m : Member) (path : Bytes) : Decidable (m.Below path) :=
  inferInstanceAs (Decidable (_ ∨ _))

/-- The process belongs to the workload that was captured under `key`. -/
def Tree.Belongs (t : Tree) (c : Controller) (key : Bytes) (m : Member) : Prop :=
  (m.owner.toNat : Int) = c.uid ∧ processNetwork (t.process m) c.workload.unit = .ok key

/-- `recover` has set an instance with this key, or has returned the error of `start`. -/
def Restored (key : Bytes) (start : Option String) (r : Except String Unit × State) : Prop :=
  (∃ i, r.2.current = some i ∧ i.key = key) ∨ ∃ e, start = some e ∧ r.1 = .error e

/-- `recover` opens the directory of this saved path. -/
def Tree.Opens (t : Tree) (path : Bytes) : Prop :=
  path ≠ str "/" ∧ hasPrefix path (str "/") = true ∧ Filepath.clean path = path ∧
    (t.inode path).isSome

/-! ## The listing -/

theorem natDigits_injective {m n : Nat} (h : natDigits m = natDigits n) : m = n := by
  have hm := digitsValue_natDigits m
  rw [h, digitsValue_natDigits] at hm
  exact (Option.some.inj hm).symm

theorem fields_line {word : Bytes} (hne : word ≠ []) (hword : ∀ b ∈ word, isDigit b = true)
    (rest : Bytes) : fields (word ++ chr '\n' :: rest) = word :: fields rest := by
  have hspace : ∀ b ∈ word, decide (b = chr ' ' ∨ 9 ≤ b.toNat ∧ b.toNat ≤ 13) = false := by
    intro b hb
    have hdigit : 48 ≤ b.toNat ∧ b.toNat ≤ 57 := by simpa [isDigit] using hword b hb
    rw [decide_eq_false_iff_not]
    intro hbad
    rcases hbad with hbad | hbad
    · rw [hbad] at hdigit
      exact absurd hdigit (by decide)
    · omega
  unfold fields
  rw [List.splitOnP_append_cons_of_forall_mem hspace _ (by decide)]
  simp [hne]

theorem fields_lines (ns : List Nat) :
    fields (ns.flatMap fun n => natDigits n ++ [chr '\n']) = ns.map natDigits := by
  induction ns with
  | nil => rfl
  | cons n ns ih =>
    rw [List.flatMap_cons, List.append_assoc, List.singleton_append,
      fields_line (natDigits_ne_nil n) (natDigits_isDigit n), ih, List.map_cons]

/-- A listing that is read to its end names the processes of the cgroup. -/
theorem Tree.listed_eq {t : Tree} {path : Bytes} (hfits : (t.procsFile path).length ≤ 2 ^ 20) :
    t.listed path =
      (t.members.filter fun m => decide (m.cgroup = path)).map fun m => natDigits m.pid := by
  rw [Tree.listed, List.take_of_length_le hfits]
  have hlines := fields_lines ((t.members.filter fun m => decide (m.cgroup = path)).map Member.pid)
  rw [List.flatMap_map, List.map_map] at hlines
  exact hlines

theorem Tree.find_some {t : Tree} {m : Member} {pid : Bytes} (h : t.find pid = some m) :
    m ∈ t.members ∧ natDigits m.pid = pid :=
  ⟨List.mem_of_find?_eq_some h, by simpa using List.find?_some h⟩

theorem Tree.find_eq {t : Tree} {m : Member} (hm : m ∈ t.members) :
    t.find (natDigits m.pid) = some m := by
  cases hfind : t.find (natDigits m.pid) with
  | none =>
    have hnone := List.find?_eq_none.mp hfind m hm
    simp at hnone
  | some m' =>
    obtain ⟨hm', hpid⟩ := Tree.find_some hfind
    rw [List.inj_on_of_nodup_map t.distinct hm' hm (natDigits_injective hpid)]

/-! ## The search -/

theorem toOption_eq_some {α : Type} {r : Except String α} {a : α} :
    r.toOption = some a ↔ r = .ok a := by
  cases r with
  | error e =>
    constructor
    · intro h
      cases h
    · intro h
      cases h
  | ok b => simp [Except.toOption]

theorem survivor_iff (c : Controller) (t : Tree) (start : Option String) (pid key : Bytes) :
    c.survivor (t.recovery start) pid = some key ↔
      ∃ m ∈ t.members, natDigits m.pid = pid ∧ t.Belongs c key m := by
  constructor
  · intro h
    unfold Controller.survivor at h
    split at h
    · split at h
      · rename_i uid p hprocess
        obtain ⟨m, hfind, hm⟩ := Option.map_eq_some_iff.mp hprocess
        cases hm
        obtain ⟨hmem, hpid⟩ := Tree.find_some hfind
        split at h
        · cases h
        · rename_i howner
          exact ⟨m, hmem, hpid, not_not.mp howner, toOption_eq_some.mp h⟩
      · cases h
    · cases h
  · intro h
    obtain ⟨m, hm, hpid, howner, hkey⟩ := h
    subst hpid
    have hnumber : (digitsValue (natDigits m.pid)).any fun n => decide (n < 2 ^ 32) := by
      have hlt := m.pid_lt
      simp only [digitsValue_natDigits, Option.any_some, decide_eq_true_eq]
      omega
    have hprocess : (t.recovery start).process (natDigits m.pid) =
        some (some m.owner, t.process m) := by
      simp [Tree.recovery, Tree.find_eq hm]
    unfold Controller.survivor
    rw [if_pos hnumber, hprocess]
    simp [howner, hkey, Except.toOption]

theorem revive_restored_iff (c : Controller) (r : Recovery) {key : Bytes} {s : State}
    (hnone : s.current = none) (pids : List Bytes) :
    Restored key r.start (c.revive r key s pids) ↔ ∃ pid ∈ pids, c.survivor r pid = some key := by
  induction pids with
  | nil => simp [Controller.revive, Restored, hnone]
  | cons pid pids ih =>
    rw [Controller.revive]
    by_cases hkey : c.survivor r pid = some key
    · rw [if_pos hkey]
      apply iff_of_true
      · cases hstart : r.start with
        | none => exact Or.inl ⟨_, rfl, rfl⟩
        | some e => exact Or.inr ⟨e, rfl, rfl⟩
      · exact ⟨pid, List.mem_cons_self, hkey⟩
    · rw [if_neg hkey, ih]
      simp [hkey]

/-- Up to the search, `recover` only reads the file and opens the directory. -/
theorem recover_opens {c : Controller} {t : Tree} {start : Option String} {s : State}
    {saved read : SavedState} (hfile : s.file = some (encodeSaved saved))
    (hread : readSaved (encodeSaved saved) = some read) (hopens : t.Opens read.cgroup) :
    c.recover (t.recovery start) s =
      c.revive (t.recovery start) read.key s (t.listed read.cgroup) := by
  obtain ⟨hroot, hslash, hclean, hinode⟩ := hopens
  obtain ⟨n, hn⟩ := Option.isSome_iff_exists.mp hinode
  have hdirectory : (t.recovery start).directory read.cgroup =
      .found (.ok (t.listed read.cgroup)) := by
    simp [Tree.recovery, hn]
  unfold Controller.recover
  simp only [hfile, hread]
  rw [if_neg (by simp [hroot, hslash, hclean]), hdirectory]
  rfl

theorem recover_current {c : Controller} {t : Tree} {start : Option String} {s : State}
    {saved : SavedState} {i : Instance} (hfile : s.file = some (encodeSaved saved))
    (hnone : s.current = none) (hi : (c.recover (t.recovery start) s).2.current = some i) :
    ∃ read, readSaved (encodeSaved saved) = some read ∧ t.Opens read.cgroup := by
  unfold Controller.recover at hi
  simp only [hfile, Tree.recovery] at hi
  split at hi
  · exact absurd (hnone.symm.trans hi) (by simp)
  · rename_i read hread
    refine ⟨read, hread, ?_⟩
    split at hi
    · exact absurd (hnone.symm.trans hi) (by simp)
    · rename_i hpath
      push Not at hpath
      refine ⟨hpath.1, hpath.2.1, hpath.2.2, ?_⟩
      cases hinode : t.inode read.cgroup with
      | some n => rfl
      | none =>
        simp only [hinode] at hi
        exact absurd (hnone.symm.trans hi) (by simp)

/-- `recover` restores a capture, or hands on the error of `start`, exactly when the file still
decodes, its cgroup exists, and a process of the workload is listed in that cgroup itself. -/
theorem recover_restores_iff (c : Controller) (t : Tree) {saved : SavedState} {s : State}
    {cgroup netns : Nat} (hfile : s.file = some (encodeSaved saved))
    (hkey : saved.key = instanceKey cgroup netns) (hnone : s.current = none) :
    (∀ start, Restored saved.key start (c.recover (t.recovery start) s)) ↔
      ∃ read, readSaved (encodeSaved saved) = some read ∧ t.Opens read.cgroup ∧
        ∃ m ∈ t.members, natDigits m.pid ∈ t.listed read.cgroup ∧ t.Belongs c saved.key m := by
  have hplain : PlainString saved.key := hkey ▸ plainString_instanceKey cgroup netns
  have hsearch : ∀ {read}, readSaved (encodeSaved saved) = some read → t.Opens read.cgroup →
      ∀ start, Restored saved.key start (c.recover (t.recovery start) s) ↔
        ∃ m ∈ t.members, natDigits m.pid ∈ t.listed read.cgroup ∧ t.Belongs c saved.key m := by
    intro read hread hopens start
    rw [recover_opens hfile hread hopens, readSaved_key hplain hread]
    refine (revive_restored_iff c (t.recovery start) hnone _).trans ?_
    simp only [survivor_iff]
    constructor
    · intro h
      obtain ⟨pid, hlisted, m, hm, rfl, hbelongs⟩ := h
      exact ⟨m, hm, hlisted, hbelongs⟩
    · intro h
      obtain ⟨m, hm, hlisted, hbelongs⟩ := h
      exact ⟨_, hlisted, m, hm, rfl, hbelongs⟩
  constructor
  · intro h
    rcases h none with ⟨i, hi, -⟩ | ⟨e, he, -⟩
    · obtain ⟨read, hread, hopens⟩ := recover_current hfile hnone hi
      exact ⟨read, hread, hopens, (hsearch hread hopens none).mp (h none)⟩
    · cases he
  · intro h start
    obtain ⟨read, hread, hopens, hlisted⟩ := h
    exact (hsearch hread hopens start).mpr hlisted

/-- In a flat cgroup nobody is overlooked: every process of a listing that fits is visited. -/
theorem Tree.listed_direct {t : Tree} {m : Member} (hm : m ∈ t.members)
    (hfits : (t.procsFile m.cgroup).length ≤ 2 ^ 20) : natDigits m.pid ∈ t.listed m.cgroup := by
  rw [Tree.listed_eq hfits]
  exact List.mem_map_of_mem (List.mem_filter.mpr ⟨hm, by simp⟩)

/-! ## A unit with a cgroup below its own -/

def unitController : Controller :=
  { sampleController with
    workload := { sampleController.workload with unit := str "app.service" } }

def unitPath : Bytes := str "/system.slice/app.service"

/-- The unit's cgroup has inode 5, the one below it inode 6; `cgroup` is where its only
process lives. -/
def unitTree (cgroup : Bytes) : Tree where
  inode := fun path =>
    if path = unitPath then some 5 else if path = unitPath ++ str "/main" then some 6 else none
  members := [⟨42, 1000, cgroup, 7, by decide⟩]
  hostNetns := 1
  distinct := by simp

def unitSaved : SavedState := ⟨unitPath, instanceKey 5 7⟩

def unitState : State := ⟨none, some (encodeSaved unitSaved)⟩

/-- The process is alive below the saved cgroup and has the saved key, and `recover` returns
success without an instance. -/
theorem survivor_below_overlooked :
    ∃ m ∈ (unitTree (unitPath ++ str "/main")).members, m.Below unitSaved.cgroup ∧
      (unitTree (unitPath ++ str "/main")).Belongs unitController unitSaved.key m ∧
      (unitTree (unitPath ++ str "/main")).Opens unitSaved.cgroup ∧
      unitController.recover ((unitTree (unitPath ++ str "/main")).recovery none) unitState =
        (.ok (), unitState) ∧ unitState.current = none := by
  refine ⟨_, List.mem_singleton_self _, by decide +kernel, ⟨rfl, by decide +kernel⟩, ?_, ?_, rfl⟩
  · exact ⟨by decide +kernel, by decide +kernel, by decide +kernel, by decide +kernel⟩
  · decide +kernel

theorem recover_restores_iff_unitState :
    readSaved (encodeSaved unitSaved) = some unitSaved ∧
      ∀ start, Restored unitSaved.key start
        (unitController.recover ((unitTree unitPath).recovery start) unitState) := by
  have hread : readSaved (encodeSaved unitSaved) = some unitSaved := by decide +kernel
  refine ⟨hread, ?_⟩
  refine (recover_restores_iff unitController (unitTree unitPath) (s := unitState) rfl rfl rfl).mpr
    ⟨unitSaved, hread, ?_, _, List.mem_singleton_self _, ?_, rfl, by decide +kernel⟩
  · exact ⟨by decide +kernel, by decide +kernel, by decide +kernel, by decide +kernel⟩
  · exact Tree.listed_direct (List.mem_singleton_self _) (by decide +kernel)

end RealmFormal.Agent

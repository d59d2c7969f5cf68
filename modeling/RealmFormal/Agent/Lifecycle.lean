import RealmFormal.Agent.Controller

/-!
# Captures over time

What a controller keeps over whole runs: the state file always holds the key of
the current instance, and how long an instance that was answered READY survives
an empty cgroup.
-/

namespace RealmFormal.Agent
open Go Go.Json Transition
set_option autoImplicit false

/-! ## What the steps do -/

theorem launch_cases (g : Gate) (key : Bytes) (s : State) :
    (∃ e, launch g key s = (.error e, { s with current := none })) ∨
      ∃ cgroup, launch g key s =
        (.ok (), ⟨some (.started key), some (encodeSaved ⟨cgroup, key⟩)⟩) := by
  unfold launch
  cases g.start with
  | some e => exact Or.inl ⟨e, rfl⟩
  | none =>
    cases g.save with
    | error e => exact Or.inl ⟨e, rfl⟩
    | ok path => exact Or.inr ⟨_, rfl⟩

/-- How `prepare` can end. -/
inductive Prepared (c : Controller) (g : Gate) (s : State) : Except String Unit × State → Prop where
  | refused (e : String) (s' : State) (file : s'.file = s.file)
      (current : s'.current = s.current ∨ s'.current = none) : Prepared c g s (.error e, s')
  | kept (i : Instance) (current : s.current = some i) (running : i.exited = false)
      (same : c.identify g.peer = .ok i.key) : Prepared c g s (.ok (), s)
  | launched (key cgroup : Bytes) (peer : c.identify g.peer = .ok key) :
      Prepared c g s (.ok (), ⟨some (.started key), some (encodeSaved ⟨cgroup, key⟩)⟩)

theorem prepared_launch {c : Controller} {g : Gate} {s : State} {key : Bytes}
    (h : c.identify g.peer = .ok key) : Prepared c g s (launch g key s) := by
  rcases launch_cases g key s with ⟨e, he⟩ | ⟨cgroup, hok⟩
  · rw [he]
    exact .refused e _ rfl (Or.inr rfl)
  · rw [hok]
    exact .launched key cgroup h

theorem prepare_prepared (c : Controller) (g : Gate) (s : State) :
    Prepared c g s (c.prepare g s) := by
  unfold Controller.prepare
  split
  · exact .refused _ s rfl (Or.inl rfl)
  · rename_i key hkey
    split
    · exact prepared_launch hkey
    · rename_i i hi
      split
      · exact prepared_launch hkey
      · rename_i hrunning
        split
        · rename_i hsame
          subst hsame
          exact .kept i hi (by simpa using hrunning) hkey
        · split
          · exact .refused _ s rfl (Or.inl rfl)
          · exact prepared_launch hkey

/-- How a round can stand before `recover`. -/
inductive Examined (r : Round) (s : State) : Option Bytes × State → Prop where
  | absent (current : s.current = none) : Examined r s (none, s)
  | exited (i : Instance) (current : s.current = some i) (exited : i.exited = true) :
      Examined r s (none, { s with current := none })
  | polled (i i' : Instance) (current : s.current = some i) (running : i.exited = false)
      (poll : i.expiredEmpty r.populated r.now = (false, i')) :
      Examined r s (none, { s with current := some i' })
  | released (i i' : Instance) (file : Option Bytes) (current : s.current = some i)
      (running : i.exited = false) (poll : i.expiredEmpty r.populated r.now = (true, i'))
      (old : ∀ raw, file = some raw → s.file = some raw) : Examined r s (some i'.key, ⟨none, file⟩)

theorem examine_examined (r : Round) (s : State) : Examined r s (examine r s) := by
  unfold examine
  split
  · exact .absent ‹_›
  · rename_i i hi
    split
    · exact .exited i hi ‹_›
    · rename_i hrunning
      have hrunning : i.exited = false := by simpa using hrunning
      split
      · exact .polled i _ hi hrunning ‹_›
      · refine .released i _ _ hi hrunning ‹_› ?_
        intro raw hraw
        split at hraw
        · cases hraw
        · exact hraw

/-- How `recover` can leave the state. -/
inductive Recovered (r : Recovery) (s : State) : State → Prop where
  | unchanged : Recovered r s s
  | missing (raw : Bytes) (saved : SavedState) (file : s.file = some raw)
      (read : readSaved raw = some saved) (gone : r.directory saved.cgroup = .missing) :
      Recovered r s { s with file := none }
  | revived (raw : Bytes) (saved : SavedState) (file : s.file = some raw)
      (read : readSaved raw = some saved) :
      Recovered r s { s with current := some (.started saved.key) }

theorem revive_cases (c : Controller) (r : Recovery) (key : Bytes) (s : State) (pids : List Bytes) :
    (c.revive r key s pids).2 = s ∨
      (c.revive r key s pids).2 = { s with current := some (.started key) } := by
  induction pids with
  | nil => exact Or.inl rfl
  | cons pid pids ih =>
    rw [Controller.revive]
    split
    · split
      · exact Or.inl rfl
      · exact Or.inr rfl
    · exact ih

theorem recover_recovered (c : Controller) (r : Recovery) (s : State) :
    Recovered r s (c.recover r s).2 := by
  unfold Controller.recover
  split
  · exact .unchanged
  · rename_i raw hfile
    split
    · exact .unchanged
    · split
      · exact .unchanged
      · rename_i saved hread
        split
        · exact .unchanged
        · split
          · rename_i hgone
            split
            · exact .unchanged
            · exact .missing raw saved hfile hread hgone
          · exact .unchanged
          · exact .unchanged
          · rename_i pids _
            rcases revive_cases c r saved.key s pids with h | h
            · rw [h]
              exact .unchanged
            · rw [h]
              exact .revived raw saved hfile hread

theorem Instance.expiredEmpty_key {i i' : Instance} {populated expired : Bool} {now : Int}
    (h : i.expiredEmpty populated now = (expired, i')) : i'.key = i.key := by
  unfold Instance.expiredEmpty at h
  repeat' split at h
  all_goals cases h; rfl

/-! ## The state file -/

/-- The state file holds the key. -/
def HoldsKey (file : Option Bytes) (key : Bytes) : Prop :=
  ∃ cgroup, file = some (encodeSaved ⟨cgroup, key⟩)

/-- The state file is missing or holds a key that survives its encoding. -/
def FileWritten (file : Option Bytes) : Prop :=
  ∀ raw, file = some raw → ∃ saved, raw = encodeSaved saved ∧ PlainString saved.key

theorem unmarshalSaved_reread (s : SavedState) :
    unmarshalSaved [reread s.value] = some ⟨requote s.cgroup, requote s.key⟩ := by
  have hcgroup : requote (str "cgroup") = str "cgroup" := requote_plain (plainString_str (by decide))
  have hkey : requote (str "key") = str "key" := requote_plain (plainString_str (by decide))
  simp only [SavedState.value, reread, rereadMembers, hcgroup, hkey]
  rfl

/-- However much of the file is read, its key is the one that was saved. -/
theorem readSaved_key {s saved : SavedState} (hplain : PlainString s.key)
    (h : readSaved (encodeSaved s) = some saved) : saved.key = s.key := by
  obtain ⟨⟨v, r⟩, hparse, hv⟩ := Option.bind_eq_some_iff.mp h
  have hnumber : ∀ l, v ≠ .number l := by
    rintro l rfl
    cases hv
  have hintegral : Integral s.value := ⟨trivial, trivial, trivial⟩
  obtain ⟨rfl, -⟩ := parseValue_take hintegral (numberEnds_cons (by decide)) 8192 hnumber hparse
  have hsaved := (unmarshalSaved_reread s).symm.trans hv
  rw [requote_plain hplain] at hsaved
  cases hsaved
  rfl

theorem plainString_instanceKey (cgroup netns : Nat) : PlainString (instanceKey cgroup netns) :=
  plainString_append (plainString_append (plainString_natDigits cgroup)
    (plainString_str (by decide))) (plainString_natDigits netns)

/-- A process with a key has a cgroup that the unit admits. -/
theorem processNetwork_ok {p : Process} {unit key : Bytes} (h : processNetwork p unit = .ok key) :
    PlainString key ∧
      ∃ raw, p.cgroupFile = .ok raw ∧ (workloadCgroup (cgroupPath raw) unit).isOk := by
  obtain ⟨raw, hraw, h⟩ := bind_ok h
  obtain ⟨path, hpath, h⟩ := bind_ok h
  obtain ⟨cgroup, -, h⟩ := bind_ok h
  obtain ⟨netns, -, h⟩ := bind_ok h
  obtain ⟨host, -, h⟩ := bind_ok h
  refine ⟨?_, raw, hraw, by rw [hpath]; rfl⟩
  repeat' split at h
  all_goals cases h
  exact plainString_instanceKey cgroup netns

/-- Who gets past `identify` is admitted by the gate. -/
theorem Controller.identify_ok {c : Controller} {peer : Except String GatePeer} {key : Bytes}
    (h : c.identify peer = .ok key) :
    PlainString key ∧ ∃ p raw, peer = .ok p ∧ p.process.cgroupFile = .ok raw ∧
      (c.accepts p.uid (cgroupPath raw)).isOk := by
  obtain ⟨p, hp, h⟩ := bind_ok h
  split at h
  · cases h
  · rename_i huid
    obtain ⟨hplain, raw, hraw, hok⟩ := processNetwork_ok h
    exact ⟨hplain, p, raw, hp, hraw, by rwa [Controller.accepts, if_neg huid]⟩

/-- The invariant of a controller: the file was written by it, and holds the key of the
current instance. -/
structure Consistent (s : State) : Prop where
  written : FileWritten s.file
  current : ∀ i, s.current = some i → HoldsKey s.file i.key

theorem HoldsKey.written {file : Option Bytes} {key : Bytes} (h : HoldsKey file key)
    (hplain : PlainString key) : FileWritten file := by
  obtain ⟨cgroup, rfl⟩ := h
  rintro raw hraw
  cases hraw
  exact ⟨_, rfl, hplain⟩

theorem Consistent.prepare {c : Controller} {s : State} (h : Consistent s) (g : Gate) :
    Consistent (c.prepare g s).2 := by
  have hp := prepare_prepared c g s
  generalize c.prepare g s = result at hp
  cases hp with
  | refused e s' file current =>
    refine ⟨file ▸ h.written, fun i hi => ?_⟩
    rcases current with hsame | hnone
    · rw [file]
      exact h.current i (hsame ▸ hi)
    · rw [hnone] at hi
      cases hi
  | kept i current running same => exact h
  | launched key cgroup peer =>
    have hholds : HoldsKey (some (encodeSaved ⟨cgroup, key⟩)) key := ⟨cgroup, rfl⟩
    refine ⟨hholds.written (Controller.identify_ok peer).1, fun i hi => ?_⟩
    cases hi
    exact hholds

theorem Consistent.examine {s : State} (h : Consistent s) (r : Round) :
    Consistent (examine r s).2 := by
  have he := examine_examined r s
  generalize Agent.examine r s = result at he
  cases he with
  | absent current => exact h
  | exited i current exited => exact ⟨h.written, nofun⟩
  | polled i i' current running poll =>
    refine ⟨h.written, fun j hj => ?_⟩
    cases hj
    rw [Instance.expiredEmpty_key poll]
    exact h.current i current
  | released i i' file current running poll old =>
    exact ⟨fun raw hraw => h.written raw (old raw hraw), nofun⟩

theorem Consistent.recover {c : Controller} {s : State} (h : Consistent s)
    (hnone : s.current = none) (r : Recovery) : Consistent (c.recover r s).2 := by
  have hr := recover_recovered c r s
  generalize (c.recover r s).2 = result at hr
  cases hr with
  | unchanged => exact h
  | missing raw saved file read gone =>
    refine ⟨nofun, fun i hi => ?_⟩
    rw [hnone] at hi
    cases hi
  | revived raw saved file read =>
    refine ⟨h.written, fun i hi => ?_⟩
    cases hi
    obtain ⟨written, rfl, hplain⟩ := h.written raw file
    rw [file, Instance.started, readSaved_key hplain read]
    exact ⟨written.cgroup, rfl⟩

theorem reconcile_eq (c : Controller) (r : Round) (s : State) :
    ((examine r s).2.current ≠ none ∧ c.reconcile r s = examine r s) ∨
      ((examine r s).2.current = none ∧
        c.reconcile r s = ((examine r s).1, (c.recover r.recovery (examine r s).2).2)) := by
  unfold Controller.reconcile
  generalize examine r s = e
  obtain ⟨released, s'⟩ := e
  dsimp only
  split
  · rename_i hi
    exact Or.inl ⟨by simp [hi], rfl⟩
  · exact Or.inr ⟨‹_›, rfl⟩

/-- Only a current instance whose worker runs can exit, and nothing else changes. -/
theorem step_exit {c : Controller} {s t : State} (h : c.step s .exit = some t) :
    ∃ i, s.current = some i ∧ t = { s with current := some { i with exited := true } } := by
  simp only [Controller.step] at h
  split at h
  · rename_i i hi
    obtain ⟨-, heq⟩ := Option.ite_none_left_eq_some.mp h
    exact ⟨i, hi, (Option.some.inj heq).symm⟩
  · cases h

theorem Consistent.step {c : Controller} {s t : State} {l : Label} (h : Consistent s)
    (hstep : c.step s l = some t) : Consistent t := by
  cases l with
  | gate time g =>
    cases hstep
    exact h.prepare g
  | round r =>
    cases hstep
    rcases reconcile_eq c r s with ⟨-, heq⟩ | ⟨hnone, heq⟩
    · rw [heq]
      exact h.examine r
    · rw [heq]
      exact (h.examine r).recover hnone r.recovery
  | exit =>
    obtain ⟨i, hi, rfl⟩ := step_exit hstep
    refine ⟨h.written, fun j hj => ?_⟩
    cases hj
    exact h.current i hi
  | restart =>
    cases hstep
    exact ⟨h.written, nofun⟩

theorem Consistent.initial : Consistent State.initial := ⟨nofun, nofun⟩

/-- The saved cgroup directory is there when a round looks for it. -/
def DirectoryKept (s : State) : Label → Prop
  | .round r => ∀ raw saved, s.file = some raw → readSaved raw = some saved →
    r.recovery.directory saved.cgroup ≠ .missing
  | _ => True

/-- The step neither releases an empty instance nor answers READY for another key. -/
def Controller.Quiet (c : Controller) (key : Bytes) (s : State) (l : Label) : Prop :=
  DirectoryKept s l ∧ ∀ e, c.event s l = some e → e = .ready key

theorem event_gate {c : Controller} {s : State} {time : Int} {g : Gate} {key : Bytes} :
    c.event s (.gate time g) = some (.ready key) ↔
      c.identify g.peer = .ok key ∧ (c.prepare g s).1 = .ok () := by
  simp only [Controller.event]
  split
  · rename_i k hk hok
    simp [hk, hok]
  · rename_i hnot
    simp only [reduceCtorEq, false_iff, not_and]
    exact fun hk hok => hnot key hk hok

/-- Right after READY the state file holds the key. -/
theorem holds_of_ready {c : Controller} {s t : State} {time : Int} {g : Gate} {key : Bytes}
    (h : Consistent s) (hready : c.event s (.gate time g) = some (.ready key))
    (hstep : c.step s (.gate time g) = some t) : HoldsKey t.file key := by
  cases hstep
  obtain ⟨hkey, hok⟩ := event_gate.mp hready
  have hp := prepare_prepared c g s
  generalize c.prepare g s = result at hp hok
  cases hp with
  | refused e s' file current => cases hok
  | kept i current running same =>
    cases same.symm.trans hkey
    exact h.current i current
  | launched key' cgroup peer =>
    cases peer.symm.trans hkey
    exact ⟨cgroup, rfl⟩

theorem reconcile_released (c : Controller) (r : Round) (s : State) :
    (c.reconcile r s).1 = (examine r s).1 := by
  rcases reconcile_eq c r s with ⟨-, heq⟩ | ⟨-, heq⟩ <;> rw [heq]

theorem examine_file {r : Round} {s : State} (h : (examine r s).1 = none) :
    (examine r s).2.file = s.file := by
  have he := examine_examined r s
  generalize examine r s = result at he h
  cases he with
  | absent current => rfl
  | exited i current exited => rfl
  | polled i i' current running poll => rfl
  | released i i' file current running poll old => cases h

theorem holds_step {c : Controller} {s t : State} {l : Label} {key : Bytes}
    (h : HoldsKey s.file key) (hquiet : c.Quiet key s l) (hstep : c.step s l = some t) :
    HoldsKey t.file key := by
  cases l with
  | gate time g =>
    cases hstep
    have hp := prepare_prepared c g s
    have hready : ∀ k, c.identify g.peer = .ok k ∧ (c.prepare g s).1 = .ok () →
        Notice.ready k = .ready key := fun k hk => hquiet.2 _ (event_gate.mpr hk)
    generalize c.prepare g s = result at hp hready
    cases hp with
    | refused e s' file current => exact file ▸ h
    | kept i current running same => exact h
    | launched key' cgroup peer =>
      cases hready key' ⟨peer, rfl⟩
      exact ⟨cgroup, rfl⟩
  | round r =>
    cases hstep
    have hnone : (examine r s).1 = none := by
      rw [← reconcile_released c]
      by_contra hsome
      obtain ⟨k, hk⟩ := Option.ne_none_iff_exists'.mp hsome
      cases hquiet.2 (.released k) (by simp [Controller.event, hk])
    have hfile := examine_file hnone
    rcases reconcile_eq c r s with ⟨-, heq⟩ | ⟨-, heq⟩
    · rw [heq, hfile]
      exact h
    · rw [heq]
      have hr := recover_recovered c r.recovery (examine r s).2
      generalize (c.recover r.recovery (examine r s).2).2 = result at hr
      cases hr with
      | unchanged => exact hfile ▸ h
      | missing raw saved file read gone =>
        exact absurd gone (hquiet.1 raw saved (hfile ▸ file) read)
      | revived raw saved file read => exact hfile ▸ h
  | exit =>
    obtain ⟨i, -, rfl⟩ := step_exit hstep
    exact h
  | restart =>
    cases hstep
    exact h

/-- READY is durable. Whenever an instance is current, the state file holds its key; and from
a READY for `key` on, as long as no empty instance is released, no READY is answered for
another key and the saved directory exists, the state file holds `key`. -/
theorem ready_durable (c : Controller) {labels : List Label} {s : State}
    (hrun : exec c.step .initial labels = some s) :
    (∀ i, s.current = some i → HoldsKey s.file i.key) ∧
      ∀ before time g after s₀ s₁ key, labels = before ++ .gate time g :: after →
        exec c.step .initial before = some s₀ → c.step s₀ (.gate time g) = some s₁ →
        c.event s₀ (.gate time g) = some (.ready key) → Along c.step (c.Quiet key) s₁ after →
        HoldsKey s.file key := by
  refine ⟨(exec_preserves Consistent.step Consistent.initial hrun).current, ?_⟩
  intro before time g after s₀ s₁ key hlabels hbefore hstep hready hquiet
  subst hlabels
  obtain ⟨m, hm, hrest⟩ := exec_append_iff.mp hrun
  obtain ⟨m', hm', hrest⟩ := exec_cons_iff.mp hrest
  cases hbefore.symm.trans hm
  cases hstep.symm.trans hm'
  have hconsistent := exec_preserves Consistent.step Consistent.initial hbefore
  exact exec_along holds_step (holds_of_ready hconsistent hready hstep) hquiet hrest

/-- A container without a unit of its own. -/
def sampleController : Controller where
  workload :=
    { name := str "app", unit := [], user := str "app", group := str "app",
      workerUser := str "worker", socket := str "/run/app/gate", internetSocket := [],
      internetPorts := [], dnsUpstream := [], dnsHosts := Table.empty, routes := [],
      tcpPort := 15001, dnsBase := 15053, maxConnections := 256, workerMemoryMiB := 128,
      workerTasks := 64, workerCPUQuota := 100 }
  uid := 1000
  gid := 1000
  workerUID := 999

/-- A gate request of a process in cgroup 5 and namespace 7, for which everything works. -/
def sampleGate : Gate where
  peer := .ok ⟨1000, .ok (str "0::/app.slice/app.scope\n"), fun _ => .ok 5, .ok 7, .ok (some 1)⟩
  populated := false
  start := none
  save := .ok (str "/sys/fs/cgroup/app.slice/app.scope")

theorem event_sampleGate :
    sampleController.event .initial (.gate 0 sampleGate) = some (.ready (str "5:7")) := by
  decide +kernel

theorem ready_durable_sampleGate :
    ∃ s, exec sampleController.step .initial [.gate 0 sampleGate, .exit, .restart] = some s ∧
      HoldsKey s.file (str "5:7") := by
  obtain ⟨s, hs⟩ : ∃ s, exec sampleController.step .initial [.gate 0 sampleGate, .exit, .restart] =
      some s := Option.isSome_iff_exists.mp (by decide +kernel)
  refine ⟨s, hs, (ready_durable sampleController hs).2 [] 0 sampleGate [.exit, .restart] _ _ _ rfl
    rfl rfl event_sampleGate ?_⟩
  exact ⟨⟨trivial, nofun⟩, fun _ _ => ⟨⟨trivial, nofun⟩, fun _ _ => trivial⟩⟩

/-! ## The gap between the gate and the application -/

/-- The instance of `key`, if it is current, was not found empty before time `t`. -/
def EmptyFrom (key : Bytes) (t : Int) (s : State) : Prop :=
  ∀ i, s.current = some i → i.key = key → ∀ since, i.emptySince = some since → t ≤ since

theorem expiredEmpty_since {i i' : Instance} {populated expired : Bool} {now since : Int}
    (h : i.expiredEmpty populated now = (expired, i')) (hsince : i'.emptySince = some since) :
    i.emptySince = some since ∨ since = now := by
  unfold Instance.expiredEmpty at h
  repeat' split at h
  · cases h
    cases hsince
  · cases h
    cases hsince
    exact Or.inr rfl
  · cases h
    exact Or.inl hsince

theorem expiredEmpty_true {i i' : Instance} {populated : Bool} {now : Int}
    (h : i.expiredEmpty populated now = (true, i')) :
    ∃ since, i.emptySince = some since ∧ now - since ≥ emptyGrace := by
  unfold Instance.expiredEmpty at h
  repeat' split at h
  · cases h
  · cases h
  · rename_i since hsince
    simp only [Prod.mk.injEq, decide_eq_true_eq] at h
    exact ⟨since, hsince, h.1⟩

theorem EmptyFrom.started (key k : Bytes) (t : Int) (file : Option Bytes) :
    EmptyFrom key t ⟨some (.started k), file⟩ := by
  intro i hi _ since hsince
  cases hi
  cases hsince

theorem EmptyFrom.none (key : Bytes) (t : Int) {s : State} (h : s.current = none) :
    EmptyFrom key t s := by
  intro i hi
  rw [h] at hi
  cases hi

theorem EmptyFrom.prepare {c : Controller} {key : Bytes} {t : Int} {s : State}
    (h : EmptyFrom key t s) (g : Gate) : EmptyFrom key t (c.prepare g s).2 := by
  have hp := prepare_prepared c g s
  generalize c.prepare g s = result at hp
  cases hp with
  | refused e s' file current =>
    rcases current with hsame | hnone
    · intro i hi
      exact h i (hsame ▸ hi)
    · exact .none key t hnone
  | kept i current running same => exact h
  | launched k cgroup peer => exact .started key k t _

theorem EmptyFrom.examine {key : Bytes} {t : Int} {s : State} (h : EmptyFrom key t s) {r : Round}
    (hr : t ≤ r.now) : EmptyFrom key t (examine r s).2 := by
  have he := examine_examined r s
  generalize Agent.examine r s = result at he
  cases he with
  | absent current => exact h
  | exited i current exited => exact .none key t rfl
  | polled i i' current running poll =>
    intro j hj hkey since hsince
    cases hj
    rcases expiredEmpty_since poll hsince with hold | rfl
    · exact h i current (Instance.expiredEmpty_key poll ▸ hkey) since hold
    · exact hr
  | released i i' file current running poll old => exact .none key t rfl

theorem EmptyFrom.recover {c : Controller} {key : Bytes} {t : Int} {s : State}
    (h : EmptyFrom key t s) (r : Recovery) : EmptyFrom key t (c.recover r s).2 := by
  have hr := recover_recovered c r s
  generalize (c.recover r s).2 = result at hr
  cases hr with
  | unchanged => exact h
  | missing raw saved file read gone => exact h
  | revived raw saved file read => exact .started key saved.key t s.file

theorem EmptyFrom.step {c : Controller} {key : Bytes} {t : Int} {s s' : State} {l : Label}
    (h : EmptyFrom key t s) (hl : ∀ time, l.time = some time → t ≤ time)
    (hstep : c.step s l = some s') : EmptyFrom key t s' := by
  cases l with
  | gate time g =>
    cases hstep
    exact h.prepare g
  | round r =>
    cases hstep
    have he := h.examine (hl r.now rfl)
    rcases reconcile_eq c r s with ⟨-, heq⟩ | ⟨-, heq⟩
    · rwa [heq]
    · rw [heq]
      exact he.recover r.recovery
  | exit =>
    obtain ⟨i, hi, rfl⟩ := step_exit hstep
    intro j hj
    cases hj
    exact h i hi
  | restart =>
    cases hstep
    exact .none key t rfl

/-- The step is no round before time `t` that releases the instance of `key` as empty. -/
def Controller.Retains (c : Controller) (key : Bytes) (t : Int) (s : State) (l : Label) : Prop :=
  ∀ r, l = .round r → r.now < t → c.event s l ≠ some (.released key)

theorem EmptyFrom.retains {c : Controller} {key : Bytes} {t : Int} {s : State}
    (h : EmptyFrom key t s) (l : Label) : c.Retains key (t + emptyGrace) s l := by
  rintro r rfl hnow hevent
  simp only [Controller.event, reconcile_released] at hevent
  have he := examine_examined r s
  generalize Agent.examine r s = result at he hevent
  cases he with
  | released i i' file current running poll old =>
    simp only [Option.map_some, Option.some.injEq, Notice.released.injEq] at hevent
    obtain ⟨since, hsince, hgrace⟩ := expiredEmpty_true poll
    have hkey : i.key = key := (Instance.expiredEmpty_key poll).symm.trans hevent
    have := h i current hkey since hsince
    omega
  | _ => cases hevent

theorem prepare_kept {c : Controller} {g : Gate} {s : State} {i : Instance}
    (hcurrent : s.current = some i) (hrunning : i.exited = false)
    (hkey : c.identify g.peer = .ok i.key) : c.prepare g s = (.ok (), s) := by
  simp [Controller.prepare, hkey, hcurrent, hrunning]

/-- A round that finds nothing but an empty cgroup. -/
def emptyRound (now : Int) : Round :=
  ⟨now, false, true, ⟨none, none, fun _ => .missing, fun _ => none, none⟩⟩

theorem event_emptyRound {c : Controller} {s : State} {i : Instance} {since now : Int}
    (hcurrent : s.current = some i) (hrunning : i.exited = false)
    (hsince : i.emptySince = some since) (hnow : now - since ≥ emptyGrace) :
    c.event s (.round (emptyRound now)) = some (.released i.key) := by
  simp [Controller.event, reconcile_released, examine, emptyRound, hcurrent, hrunning,
    Instance.expiredEmpty, hsince, hnow]

/-- An instance answered READY at time `t` is retained for thirty seconds, whatever the steps
after `t` are, exactly when a running instance of this key is not being counted as empty since
before `t`. A round that finds the cgroup populated ends the count, so earlier empty rounds alone
do no harm. -/
theorem startup_gap_iff {c : Controller} {s s' : State} {t : Int} {g : Gate} {key : Bytes}
    (hready : c.event s (.gate t g) = some (.ready key))
    (hstep : c.step s (.gate t g) = some s') :
    (∀ after, (t :: after.filterMap Label.time).Pairwise (· ≤ ·) →
      Along c.step (c.Retains key (t + emptyGrace)) s' after) ↔
    ∀ i, s.current = some i → i.exited = false → i.key = key →
      ∀ since, i.emptySince = some since → t ≤ since := by
  obtain ⟨hkey, hok⟩ := event_gate.mp hready
  cases hstep
  constructor
  · intro hretains i hcurrent hrunning hi since hsince
    by_contra hlate
    rw [prepare_kept hcurrent hrunning (hi ▸ hkey)] at hretains
    have hround := (hretains [.round (emptyRound (max t (since + emptyGrace)))]
      (by simp [Label.time, emptyRound])).1 _ rfl
    refine hround ?_ (hi ▸ event_emptyRound hcurrent hrunning hsince ?_)
    · simp only [emptyRound, emptyGrace]
      omega
    · simp only [emptyGrace]
      omega
  · intro hearly after htimes
    have hfresh : EmptyFrom key t (c.prepare g s).2 := by
      have hp := prepare_prepared c g s
      generalize c.prepare g s = result at hp hok
      cases hp with
      | refused e s' file current => cases hok
      | kept i current running same =>
        intro j hj hk
        cases current.symm.trans hj
        exact hearly i current running hk
      | launched k cgroup peer => exact .started key k t _
    refine along_of_invariant EmptyFrom.step (fun h _ => h.retains _) hfresh fun l hl time htime => ?_
    exact (List.pairwise_cons.mp htimes).1 time (List.mem_filterMap.mpr ⟨l, hl, htime⟩)

theorem startup_gap_iff_sampleGate :
    ∃ s, sampleController.step .initial (.gate 0 sampleGate) = some s ∧
      Along sampleController.step (sampleController.Retains (str "5:7") (0 + emptyGrace)) s
        [.round (emptyRound 2000000000), .round (emptyRound 4000000000)] := by
  refine ⟨_, rfl, (startup_gap_iff event_sampleGate rfl).mpr nofun _ ?_⟩
  decide

/-- The cgroup is empty from the first round on; a second READY at 31 seconds does not keep the
round at 32 seconds from releasing the instance. -/
theorem released_after_second_ready :
    let polls := (List.range 15).map fun n => Label.round (emptyRound (2000000000 * (n + 1)))
    let second := Label.gate 31000000000 sampleGate
    ((exec sampleController.step .initial (.gate 0 sampleGate :: polls)).bind fun s =>
        sampleController.event s second) = some (.ready (str "5:7")) ∧
      ((exec sampleController.step .initial (.gate 0 sampleGate :: polls ++ [second])).bind fun s =>
        sampleController.event s (.round (emptyRound 32000000000))) =
          some (.released (str "5:7")) := by
  decide +kernel

end RealmFormal.Agent

import RealmFormal.Lib.Transition
import Mathlib.Data.List.Perm.Basic
import Mathlib.Algebra.Ring.Nat

/-!
# A pool of workers

Jobs wait in a queue that nobody adds to. A worker takes a job, finishes it, which
changes the shared state, and delivers the result over a channel to one receiver,
which waits for as many results as there are jobs. The order of the steps is the
choice of the run. The result of a job depends on the job alone; its effect also
reads the shared state.
-/

namespace WorkerPool
open Transition
set_option autoImplicit false

universe u v w

inductive Worker (J : Type u) (R : Type v) where
  | idle
  | working (job : J)
  | delivering (result : R)
  | stopped

structure Task (J : Type u) (R : Type v) (S : Type w) where
  effect : S → J → S
  result : J → R

/-- `finished` and `received` keep the order in which jobs took effect and results arrived. -/
structure Pool (J : Type u) (R : Type v) (S : Type w) where
  queue : List J
  workers : List (Worker J R)
  channel : List R
  finished : List J
  received : List R
  shared : S

/-- A label names the worker that moves. -/
inductive Label where
  | take (i : Nat)
  | finish (i : Nat)
  | deliver (i : Nat)
  | stop (i : Nat)
  | receive

section Pool
variable {J : Type u} {R : Type v} {S : Type w}

def Worker.jobs : Worker J R → List J
  | .working j => [j]
  | _ => []

def Worker.results : Worker J R → List R
  | .delivering r => [r]
  | _ => []

def start (jobs : List J) (workers : Nat) (shared : S) : Pool J R S :=
  ⟨jobs, List.replicate workers .idle, [], [], [], shared⟩

/-- The queue is closed, so an idle worker stops when it is empty. The channel holds `capacity`
results, and the receiver waits for `capacity` of them. -/
def step (task : Task J R S) (capacity : Nat) (p : Pool J R S) : Label → Option (Pool J R S)
  | .take i =>
    match p.workers[i]?, p.queue with
    | some .idle, j :: rest =>
      some { p with queue := rest, workers := p.workers.set i (.working j) }
    | _, _ => none
  | .finish i =>
    match p.workers[i]? with
    | some (.working j) =>
      some { p with
        workers := p.workers.set i (.delivering (task.result j))
        finished := p.finished ++ [j]
        shared := task.effect p.shared j }
    | _ => none
  | .deliver i =>
    match p.workers[i]? with
    | some (.delivering r) =>
      if p.channel.length < capacity then
        some { p with workers := p.workers.set i .idle, channel := p.channel ++ [r] }
      else none
    | _ => none
  | .stop i =>
    match p.workers[i]?, p.queue with
    | some .idle, [] => some { p with workers := p.workers.set i .stopped }
    | _, _ => none
  | .receive =>
    match p.channel with
    | r :: rest =>
      if p.received.length < capacity then
        some { p with channel := rest, received := p.received ++ [r] }
      else none
    | [] => none

/-- What a step can do, with the moving worker singled out. -/
inductive Move (task : Task J R S) : Pool J R S → Pool J R S → Prop where
  | take (a b : List (Worker J R)) (j : J) (rest : List J) (channel received : List R)
      (finished : List J) (shared : S) :
      Move task ⟨j :: rest, a ++ .idle :: b, channel, finished, received, shared⟩
        ⟨rest, a ++ .working j :: b, channel, finished, received, shared⟩
  | finish (a b : List (Worker J R)) (j : J) (queue : List J) (channel received : List R)
      (finished : List J) (shared : S) :
      Move task ⟨queue, a ++ .working j :: b, channel, finished, received, shared⟩
        ⟨queue, a ++ .delivering (task.result j) :: b, channel, finished ++ [j], received,
          task.effect shared j⟩
  | deliver (a b : List (Worker J R)) (r : R) (queue : List J) (channel received : List R)
      (finished : List J) (shared : S) :
      Move task ⟨queue, a ++ .delivering r :: b, channel, finished, received, shared⟩
        ⟨queue, a ++ .idle :: b, channel ++ [r], finished, received, shared⟩
  | stop (a b : List (Worker J R)) (channel received : List R) (finished : List J) (shared : S) :
      Move task ⟨[], a ++ .idle :: b, channel, finished, received, shared⟩
        ⟨[], a ++ .stopped :: b, channel, finished, received, shared⟩
  | receive (workers : List (Worker J R)) (r : R) (queue : List J) (rest received : List R)
      (finished : List J) (shared : S) :
      Move task ⟨queue, workers, r :: rest, finished, received, shared⟩
        ⟨queue, workers, rest, finished, received ++ [r], shared⟩

theorem split_at {α : Type u} {l : List α} {i : Nat} {x : α} (h : l[i]? = some x) :
    ∃ a b, l = a ++ x :: b ∧ ∀ y, l.set i y = a ++ y :: b := by
  induction l generalizing i with
  | nil => cases h
  | cons z l ih =>
    cases i with
    | zero =>
      cases h
      exact ⟨[], l, rfl, fun _ => rfl⟩
    | succ i =>
      obtain ⟨a, b, hl, hset⟩ := ih h
      refine ⟨z :: a, b, by rw [hl, List.cons_append], ?_⟩
      intro y
      rw [List.set_cons_succ, hset, List.cons_append]

theorem step_move {task : Task J R S} {capacity : Nat} {p q : Pool J R S} {l : Label}
    (h : step task capacity p l = some q) : Move task p q := by
  obtain ⟨queue, workers, channel, finished, received, shared⟩ := p
  cases l with
  | take i =>
    simp only [step] at h
    split at h
    · rename_i hi
      obtain ⟨a, b, rfl, hset⟩ := split_at hi
      cases h
      rw [hset]
      exact .take a b _ _ _ _ _ _
    · cases h
  | finish i =>
    simp only [step] at h
    split at h
    · rename_i hi
      obtain ⟨a, b, rfl, hset⟩ := split_at hi
      cases h
      rw [hset]
      exact .finish a b _ _ _ _ _ _
    · cases h
  | deliver i =>
    simp only [step] at h
    split at h
    · rename_i hi
      obtain ⟨a, b, rfl, hset⟩ := split_at hi
      split at h
      · cases h
        rw [hset]
        exact .deliver a b _ _ _ _ _ _
      · cases h
    · cases h
  | stop i =>
    simp only [step] at h
    split at h
    · rename_i hi
      obtain ⟨a, b, rfl, hset⟩ := split_at hi
      cases h
      rw [hset]
      exact .stop a b _ _ _ _
    · cases h
  | receive =>
    simp only [step] at h
    split at h
    · split at h
      · cases h
        exact .receive _ _ _ _ _ _ _
      · cases h
    · cases h

/-! ## Nothing is lost or done twice -/

structure Inv (task : Task J R S) (jobs : List J) (size : Nat) (shared : S) (p : Pool J R S) :
    Prop where
  jobs_perm : (p.queue ++ (p.workers.flatMap Worker.jobs ++ p.finished)).Perm jobs
  results_perm : (p.workers.flatMap Worker.results ++ (p.channel ++ p.received)).Perm
    (p.finished.map task.result)
  shared_eq : p.shared = p.finished.foldl task.effect shared
  size_eq : p.workers.length = size
  stopped : Worker.stopped ∈ p.workers → p.queue = []

variable {task : Task J R S} {jobs : List J} {size : Nat} {shared : S} {p q : Pool J R S}

theorem inv_start : Inv task jobs size shared (start jobs size shared : Pool J R S) where
  jobs_perm := by
    have hidle : (List.replicate size (.idle : Worker J R)).flatMap Worker.jobs = [] := by
      simp [Worker.jobs]
    rw [start, hidle, List.nil_append, List.append_nil]
  results_perm := by
    have hidle : (List.replicate size (.idle : Worker J R)).flatMap Worker.results = [] := by
      simp [Worker.results]
    rw [start, hidle]
    exact .nil
  shared_eq := rfl
  size_eq := List.length_replicate
  stopped := by
    intro h
    cases List.eq_of_mem_replicate h

/-- Another worker in the place of one that has not stopped. -/
theorem stopped_of_split {a b : List (Worker J R)} {w w' : Worker J R} {queue : List J}
    (hw : w' ≠ .stopped) (h : .stopped ∈ a ++ w :: b → queue = [])
    (hs : .stopped ∈ a ++ w' :: b) : queue = [] := by
  apply h
  simp only [List.mem_append, List.mem_cons] at hs ⊢
  rcases hs with ha | heq | hb
  · exact .inl ha
  · exact absurd heq.symm hw
  · exact .inr (.inr hb)

theorem Inv.move (h : Inv task jobs size shared p) (hm : Move task p q) :
    Inv task jobs size shared q := by
  obtain ⟨hjobs, hresults, hshared, hsize, hstopped⟩ := h
  classical
  -- only the places of one job or result change, so both permutations are counted
  cases hm with
  | take a b j rest channel received finished shared =>
    refine ⟨?_, ?_, hshared, by simpa using hsize, ?_⟩
    · rw [List.perm_iff_count] at hjobs ⊢
      intro x
      have hx := hjobs x
      simp only [List.flatMap_append, List.flatMap_cons, Worker.jobs, List.count_append,
        List.count_cons, List.count_nil] at hx ⊢
      omega
    · simpa [Worker.results] using hresults
    · intro hs
      have hnil := stopped_of_split (by nofun) hstopped hs
      cases hnil
  | finish a b j queue channel received finished shared =>
    refine ⟨?_, ?_, ?_, by simpa using hsize, stopped_of_split (by nofun) hstopped⟩
    · rw [List.perm_iff_count] at hjobs ⊢
      intro x
      have hx := hjobs x
      simp only [List.flatMap_append, List.flatMap_cons, Worker.jobs, List.count_append,
        List.count_cons, List.count_nil] at hx ⊢
      omega
    · rw [List.perm_iff_count] at hresults ⊢
      intro x
      have hx := hresults x
      simp only [List.flatMap_append, List.flatMap_cons, Worker.results, List.count_append,
        List.count_cons, List.count_nil, List.map_append, List.map_cons, List.map_nil] at hx ⊢
      omega
    · rw [List.foldl_append, ← hshared]
      rfl
  | deliver a b r queue channel received finished shared =>
    refine ⟨by simpa [Worker.jobs] using hjobs, ?_, hshared, by simpa using hsize,
      stopped_of_split (by nofun) hstopped⟩
    rw [List.perm_iff_count] at hresults ⊢
    intro x
    have hx := hresults x
    simp only [List.flatMap_append, List.flatMap_cons, Worker.results, List.count_append,
      List.count_cons, List.count_nil] at hx ⊢
    omega
  | stop a b channel received finished shared =>
    exact ⟨by simpa [Worker.jobs] using hjobs, by simpa [Worker.results] using hresults, hshared,
      by simpa using hsize, fun _ => rfl⟩
  | receive workers r queue rest received finished shared =>
    refine ⟨hjobs, ?_, hshared, hsize, hstopped⟩
    rw [List.perm_iff_count] at hresults ⊢
    intro x
    have hx := hresults x
    simp only [List.count_append, List.count_cons, List.count_nil] at hx ⊢
    omega

theorem Inv.run {capacity : Nat} {labels : List Label}
    (h : exec (step task capacity) (start jobs size shared) labels = some p) :
    Inv task jobs size shared p :=
  exec_preserves (fun hinv hstep => hinv.move (step_move hstep)) inv_start h

/-- When the last result has arrived, every job has been finished once. -/
theorem Inv.returned (h : Inv task jobs size shared p) (hall : p.received.length = jobs.length) :
    p.finished.Perm jobs ∧ p.received.Perm (jobs.map task.result) := by
  have hjobs := h.jobs_perm.length_eq
  have hresults := h.results_perm.length_eq
  simp only [List.length_append, List.length_map] at hjobs hresults
  have hqueue : p.queue = [] := List.length_eq_zero_iff.mp (by omega)
  have hworking : p.workers.flatMap Worker.jobs = [] := List.length_eq_zero_iff.mp (by omega)
  have hdelivering : p.workers.flatMap Worker.results = [] :=
    List.length_eq_zero_iff.mp (by omega)
  have hchannel : p.channel = [] := List.length_eq_zero_iff.mp (by omega)
  have hfinished : p.finished.Perm jobs := by
    have hperm := h.jobs_perm
    rwa [hqueue, hworking, List.nil_append, List.nil_append] at hperm
  refine ⟨hfinished, ?_⟩
  have hperm := h.results_perm
  rw [hdelivering, hchannel, List.nil_append, List.nil_append] at hperm
  exact hperm.trans (hfinished.map task.result)

/-! ## Every run ends with all results -/

def Worker.weight : Worker J R → Nat
  | .idle => 1
  | .working _ => 4
  | .delivering _ => 3
  | .stopped => 0

/-- The number of steps that are left. -/
def Pool.measure (p : Pool J R S) : Nat :=
  4 * p.queue.length + (p.workers.map Worker.weight).sum + p.channel.length

theorem Move.measure (hm : Move task p q) : p.measure = q.measure + 1 := by
  cases hm <;>
    simp only [Pool.measure, List.length_cons, List.length_append, List.map_append, List.map_cons,
      List.sum_append, List.sum_cons, Worker.weight, List.length_nil] <;>
    omega

theorem exec_measure {capacity : Nat} {labels : List Label}
    (h : exec (step task capacity) p labels = some q) :
    p.measure = labels.length + q.measure := by
  induction labels generalizing p with
  | nil =>
    cases h
    rw [List.length_nil, Nat.zero_add]
  | cons l labels ih =>
    obtain ⟨m, hm, ht⟩ := exec_cons_iff.mp h
    rw [(step_move hm).measure, ih ht, List.length_cons]
    omega

theorem measure_start : (start jobs size shared : Pool J R S).measure = 4 * jobs.length + size := by
  simp [Pool.measure, start, Worker.weight]

/-- As long as a result is missing, somebody can move. -/
theorem Inv.progress (h : Inv task jobs size shared p) (hsize : jobs ≠ [] → 0 < size)
    (hmissing : p.received.length < jobs.length) :
    ∃ l, (step task jobs.length p l).isSome = true := by
  cases hchannel : p.channel with
  | cons r rest => exact ⟨.receive, by simp [step, hchannel, hmissing]⟩
  | nil =>
    by_cases hdelivering : ∃ r, Worker.delivering r ∈ p.workers
    · obtain ⟨r, hr⟩ := hdelivering
      obtain ⟨i, hi⟩ := List.mem_iff_getElem?.mp hr
      have hroom : p.channel.length < jobs.length := by
        rw [hchannel, List.length_nil]
        omega
      exact ⟨.deliver i, by simp [step, hi, hroom]⟩
    by_cases hworking : ∃ j, Worker.working j ∈ p.workers
    · obtain ⟨j, hj⟩ := hworking
      obtain ⟨i, hi⟩ := List.mem_iff_getElem?.mp hj
      exact ⟨.finish i, by simp [step, hi]⟩
    cases hqueue : p.queue with
    | nil =>
      -- every job is finished and every result has arrived
      have hjobs := h.jobs_perm.length_eq
      have hresults := h.results_perm.length_eq
      have hnojobs : p.workers.flatMap Worker.jobs = [] := by
        apply List.flatMap_eq_nil_iff.mpr
        intro w hw
        cases w with
        | working j => exact absurd ⟨j, hw⟩ hworking
        | _ => rfl
      have hnoresults : p.workers.flatMap Worker.results = [] := by
        apply List.flatMap_eq_nil_iff.mpr
        intro w hw
        cases w with
        | delivering r => exact absurd ⟨r, hw⟩ hdelivering
        | _ => rfl
      rw [hqueue, hnojobs] at hjobs
      rw [hnoresults, hchannel] at hresults
      simp only [List.nil_append, List.length_map] at hjobs hresults
      omega
    | cons j rest =>
      have hpos : 0 < p.workers.length := by
        rw [h.size_eq]
        apply hsize
        rintro rfl
        cases hmissing
      obtain ⟨w, hw⟩ : ∃ w, p.workers[0]? = some w := ⟨_, List.getElem?_eq_getElem hpos⟩
      have hmem : w ∈ p.workers := List.mem_of_getElem? hw
      cases w with
      | idle => exact ⟨.take 0, by simp [step, hw, hqueue]⟩
      | working j => exact absurd ⟨j, hmem⟩ hworking
      | delivering r => exact absurd ⟨r, hmem⟩ hdelivering
      | stopped =>
        have hnil := h.stopped hmem
        rw [hqueue] at hnil
        cases hnil

end Pool

end WorkerPool

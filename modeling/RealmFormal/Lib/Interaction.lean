import Mathlib.Data.List.Basic

/-!
# Programs that ask their environment

A program returns or makes a request and goes on with the answer. An environment
answers the request of every step, so a run is a finite trace of requests with
their answers, and a result. `Sat` speaks about all runs at once and is computed
along the program; `Blind` says that a program treats some answers alike.
-/

namespace Interaction
set_option autoImplicit false

/-- A program with requests `Op`, answered in `Ans`. -/
inductive Prog (Op : Type) (Ans : Op → Type) (A : Type) where
  | ret (a : A)
  | ask (op : Op) (next : Ans op → Prog Op Ans A)

/-- A request with its answer. -/
abbrev Event (Op : Type) (Ans : Op → Type) := Σ op, Ans op

namespace Prog
variable {Op : Type} {Ans : Op → Type} {A B : Type}

def bind : Prog Op Ans A → (A → Prog Op Ans B) → Prog Op Ans B
  | ret a, f => f a
  | ask op next, f => ask op fun x => (next x).bind f

instance : Monad (Prog Op Ans) where
  pure := ret
  bind := bind

def request (op : Op) : Prog Op Ans (Ans op) := ask op ret

/-- The trace and the result when `env n` answers the request of step `n`. -/
def run (env : Nat → (op : Op) → Ans op) : Nat → Prog Op Ans A → List (Event Op Ans) × A
  | _, ret a => ([], a)
  | n, ask op next =>
    let rest := run env (n + 1) (next (env n op))
    (⟨op, env n op⟩ :: rest.1, rest.2)

/-- Every run ends with a trace and a result in `Q`. -/
def Sat : Prog Op Ans A → (List (Event Op Ans) → A → Prop) → Prop
  | ret a, Q => Q [] a
  | ask op next, Q => ∀ x, (next x).Sat fun t a => Q (⟨op, x⟩ :: t) a

theorem Sat.run {p : Prog Op Ans A} {Q : List (Event Op Ans) → A → Prop} (h : p.Sat Q)
    (env : Nat → (op : Op) → Ans op) (n : Nat) : Q (p.run env n).1 (p.run env n).2 := by
  induction p generalizing Q n with
  | ret a => exact h
  | ask op next ih => exact ih (env n op) (h (env n op)) (n + 1)

theorem Sat.mono {p : Prog Op Ans A} {Q R : List (Event Op Ans) → A → Prop} (h : p.Sat Q)
    (hQR : ∀ t a, Q t a → R t a) : p.Sat R := by
  induction p generalizing Q R with
  | ret a => exact hQR [] a h
  | ask op next ih => exact fun x => ih x (h x) fun t a => hQR (⟨op, x⟩ :: t) a

theorem sat_of_forall {p : Prog Op Ans A} {Q : List (Event Op Ans) → A → Prop}
    (h : ∀ t a, Q t a) : p.Sat Q := by
  induction p generalizing Q with
  | ret a => exact h [] a
  | ask op next ih => exact fun x => ih x fun t a => h (⟨op, x⟩ :: t) a

/-- What holds of every answer of the environment holds along the trace. -/
theorem forall_mem_run {p : Prog Op Ans A} {env : Nat → (op : Op) → Ans op}
    {P : Event Op Ans → Prop} (h : ∀ n op, P ⟨op, env n op⟩) (n : Nat) :
    ∀ e ∈ (p.run env n).1, P e := by
  induction p generalizing n with
  | ret a => exact List.forall_mem_nil _
  | ask op next ih => exact List.forall_mem_cons.mpr ⟨h n op, ih (env n op) (n + 1)⟩

theorem sat_pure {a : A} {Q : List (Event Op Ans) → A → Prop} :
    (pure a : Prog Op Ans A).Sat Q ↔ Q [] a :=
  Iff.rfl

theorem sat_bind {p : Prog Op Ans A} {f : A → Prog Op Ans B} {Q : List (Event Op Ans) → B → Prop} :
    (p >>= f).Sat Q ↔ p.Sat fun t a => (f a).Sat fun u b => Q (t ++ u) b := by
  induction p generalizing Q with
  | ret a => exact Iff.rfl
  | ask op next ih => exact forall_congr' fun x => ih x

theorem sat_request_bind {op : Op} {f : Ans op → Prog Op Ans B}
    {Q : List (Event Op Ans) → B → Prop} :
    (request op >>= f).Sat Q ↔ ∀ x, (f x).Sat fun u b => Q (⟨op, x⟩ :: u) b :=
  Iff.rfl

/-- Compose two programs by what their traces are like. -/
theorem Sat.bind {p : Prog Op Ans A} {f : A → Prog Op Ans B} {R : List (Event Op Ans) → A → Prop}
    {Q : List (Event Op Ans) → B → Prop} (hp : p.Sat R)
    (hf : ∀ t a, R t a → (f a).Sat fun u b => Q (t ++ u) b) : (p >>= f).Sat Q :=
  sat_bind.mpr (hp.mono hf)

/-! ## Answers that make no difference -/

/-- Answers that are `same` lead to one continuation. -/
def Blind (same : (op : Op) → Ans op → Ans op → Prop) : Prog Op Ans A → Prop
  | ret _ => True
  | ask op next => (∀ x y, same op x y → next x = next y) ∧ ∀ x, (next x).Blind same

variable {same : (op : Op) → Ans op → Ans op → Prop}

theorem blind_pure (a : A) : (pure a : Prog Op Ans A).Blind same := trivial

theorem blind_bind {p : Prog Op Ans A} {f : A → Prog Op Ans B} (hp : p.Blind same)
    (hf : ∀ a, (f a).Blind same) : (p >>= f).Blind same := by
  induction p with
  | ret a => exact hf a
  | ask op next ih =>
    refine ⟨?_, fun x => ih x (hp.2 x)⟩
    intro x y hxy
    exact congrArg (fun q => Prog.bind q f) (hp.1 x y hxy)

theorem blind_request {op : Op} (h : ∀ x y, same op x y → x = y) :
    (request op : Prog Op Ans (Ans op)).Blind same :=
  ⟨fun x y hxy => congrArg ret (h x y hxy), fun _ => trivial⟩

/-- A request whose equivalent answers lead to one continuation. -/
theorem blind_request_bind {op : Op} {f : Ans op → Prog Op Ans B}
    (h : ∀ x y, same op x y → f x = f y) (hf : ∀ x, (f x).Blind same) :
    (request op >>= f).Blind same :=
  ⟨h, hf⟩

/-- A request whose equivalent answers are equal. -/
theorem blind_ask {op : Op} {f : Ans op → Prog Op Ans B} (h : ∀ x y, same op x y → x = y)
    (hf : ∀ x, (f x).Blind same) : (request op >>= f).Blind same :=
  blind_bind (blind_request h) hf

/-- Environments with equivalent answers lead a blind program to one result. -/
theorem Blind.run_eq {p : Prog Op Ans A} (h : p.Blind same)
    {env env' : Nat → (op : Op) → Ans op} (hsame : ∀ n op, same op (env n op) (env' n op))
    (n : Nat) : (p.run env n).2 = (p.run env' n).2 := by
  induction p generalizing n with
  | ret a => rfl
  | ask op next ih =>
    have hnext := h.1 _ _ (hsame n op)
    calc ((next (env n op)).run env (n + 1)).2
        = ((next (env n op)).run env' (n + 1)).2 := ih _ (h.2 _) (n + 1)
      _ = ((next (env' n op)).run env' (n + 1)).2 := by rw [hnext]

end Prog

end Interaction

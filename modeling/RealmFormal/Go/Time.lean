import Mathlib.Algebra.Ring.Int.Defs
import Mathlib.Algebra.Ring.Nat
import Mathlib.Data.Int.Order.Basic
import Mathlib.Tactic.Common

/-!
# Instants

`time.Time` as wall clock nanoseconds since 1970, with the monotonic reading that
`time.Now` adds. Differences and comparisons use the monotonic readings when both
sides have one.
-/

namespace Go
set_option autoImplicit false

structure Time where
  wall : Int
  mono : Option Int
  deriving DecidableEq, Repr

def second : Int := 1000000000

/-- The zero value, midnight of January 1 of year 1. -/
def Time.zero : Time := ⟨-62135596800 * second, none⟩

def Time.isZero (t : Time) : Bool := decide (t.wall = Time.zero.wall)

/-- `Time.Unix`, of clock readings and certificate dates. Of a time that `ofUnix` has wrapped
around, `Time.Unix` wraps back to the second it came from, and this does not; such times are only
compared. -/
def Time.unix (t : Time) : Int := t.wall / second

/-- `time.Unix(sec, 0)`. A time holds its seconds since the zero value in 64 bits, and the sum
wraps around. -/
def Time.ofUnix (sec : Int) : Time :=
  ⟨(Int.bmod (sec + 62135596800) (2 ^ 64) - 62135596800) * second, none⟩

/-- `t - u` on the clock that both have. -/
def Time.diff (t u : Time) : Int :=
  match t.mono, u.mono with
  | some a, some b => a - b
  | _, _ => t.wall - u.wall

/-- `Time.Sub`; a duration is limited to 64 bits. -/
def Time.sub (t u : Time) : Int := max (-2 ^ 63) (min (t.diff u) (2 ^ 63 - 1))

/-- `Time.Before`. -/
def Time.before (t u : Time) : Bool := decide (t.diff u < 0)

/-- `Time.After`. -/
def Time.after (t u : Time) : Bool := u.before t

/-- A later reading of the same clocks. -/
def Time.Precedes (t u : Time) : Prop :=
  t.wall ≤ u.wall ∧
    (t.mono = none ∧ u.mono = none ∨ ∃ a b, t.mono = some a ∧ u.mono = some b ∧ a ≤ b)

theorem Time.Precedes.diff_le {t u : Time} (h : t.Precedes u) (v : Time) : t.diff v ≤ u.diff v := by
  obtain ⟨hwall, hmono⟩ := h
  unfold Time.diff
  rcases hmono with ⟨ht, hu⟩ | ⟨a, b, ht, hu, hab⟩
  · rw [ht, hu]
    exact Int.sub_le_sub_right hwall _
  · rw [ht, hu]
    cases v.mono with
    | none => exact Int.sub_le_sub_right hwall _
    | some c => exact Int.sub_le_sub_right hab _

theorem Time.Precedes.sub_le {t u : Time} (h : t.Precedes u) (v : Time) : t.sub v ≤ u.sub v := by
  have hdiff := h.diff_le v
  unfold Time.sub
  omega

theorem Time.Precedes.before {t u v : Time} (h : t.Precedes u) (hu : u.before v = true) :
    t.before v = true := by
  have hdiff := h.diff_le v
  simp only [Time.before, decide_eq_true_eq] at hu ⊢
  omega

theorem Time.Precedes.unix_le {t u : Time} (h : t.Precedes u) : t.unix ≤ u.unix :=
  Int.ediv_le_ediv (by decide) h.1

/-- Without a monotonic reading on one side the wall clocks are compared. -/
theorem Time.before_iff_wall {t u : Time} (h : u.mono = none) :
    t.before u = true ↔ t.wall < u.wall := by
  have hdiff : t.diff u = t.wall - u.wall := by
    rw [Time.diff, h]
    cases t.mono <;> rfl
  rw [Time.before, decide_eq_true_eq, hdiff]
  omega

/-- An instant within an earlier second is before a whole second. -/
theorem Time.wall_lt {t : Time} {seconds : Int} (h : t.unix < seconds) :
    t.wall < seconds * second := (Int.ediv_lt_iff_lt_mul (by decide)).mp h

/-- The last second that `time.Unix` keeps. -/
def lastUnix : Int := 2 ^ 63 - 1 - 62135596800

theorem Time.ofUnix_wall_iff {sec : Int} (h : -(2 ^ 63) ≤ sec ∧ sec < 2 ^ 63) :
    (Time.ofUnix sec).wall = sec * second ↔ sec ≤ lastUnix := by
  unfold Time.ofUnix lastUnix second
  dsimp only
  rw [Int.bmod_def]
  split <;> omega

end Go

import Mathlib.Data.List.Basic
import Mathlib.Tactic.Ring

/-!
# Little-endian layouts

Fixed-width numbers as bytes in memory. A byte swap is the reversal of the
layout, so network order needs no arithmetic of its own.
-/

namespace LittleEndian
set_option autoImplicit false

/-- The `n` bytes of `x`, lowest first. -/
def bytes : Nat → Nat → List UInt8
  | 0, _ => []
  | n + 1, x => UInt8.ofNat (x % 256) :: bytes n (x / 256)

/-- The number that bytes in memory stand for. -/
def value : List UInt8 → Nat
  | [] => 0
  | b :: bs => b.toNat + 256 * value bs

/-- Byte swap of an `n`-byte number. -/
def swap (n x : Nat) : Nat := value (bytes n x).reverse

@[simp] theorem bytes_length (n x : Nat) : (bytes n x).length = n := by
  induction n generalizing x with
  | zero => rfl
  | succ n ih => simp [bytes, ih]

theorem value_lt (bs : List UInt8) : value bs < 256 ^ bs.length := by
  induction bs with
  | nil => simp [value]
  | cons b bs ih =>
    have hb : b.toNat < 256 := b.toNat_lt
    simp only [value, List.length_cons, pow_succ]
    omega

theorem value_bytes {n x : Nat} (h : x < 256 ^ n) : value (bytes n x) = x := by
  induction n generalizing x with
  | zero =>
    have : x = 0 := by simpa using h
    simp [bytes, value, this]
  | succ n ih =>
    have hdiv : x / 256 < 256 ^ n := by
      rw [pow_succ] at h
      omega
    have hmod : x % 256 % 256 = x % 256 := Nat.mod_mod x 256
    simp only [bytes, value, ih hdiv, UInt8.toNat_ofNat', hmod]
    omega

theorem bytes_value (bs : List UInt8) : bytes bs.length (value bs) = bs := by
  induction bs with
  | nil => rfl
  | cons b bs ih =>
    have hb : b.toNat < 256 := b.toNat_lt
    have hmod : (b.toNat + 256 * value bs) % 256 = b.toNat := by omega
    have hdiv : (b.toNat + 256 * value bs) / 256 = value bs := by omega
    simp [bytes, value, hmod, hdiv, ih]

theorem bytes_value_of_length {n : Nat} {bs : List UInt8} (h : bs.length = n) :
    bytes n (value bs) = bs := h ▸ bytes_value bs

theorem bytes_injective {n x y : Nat} (hx : x < 256 ^ n) (hy : y < 256 ^ n)
    (h : bytes n x = bytes n y) : x = y := by
  rw [← value_bytes hx, ← value_bytes hy, h]

theorem swap_value {n : Nat} {bs : List UInt8} (h : bs.length = n) :
    swap n (value bs) = value bs.reverse := by
  rw [swap, bytes_value_of_length h]

theorem swap_swap {n x : Nat} (h : x < 256 ^ n) : swap n (swap n x) = x := by
  rw [swap, swap, bytes_value_of_length (by simp), List.reverse_reverse, value_bytes h]

theorem swap_lt (n x : Nat) : swap n x < 256 ^ n := by
  have := value_lt (bytes n x).reverse
  simpa [swap] using this

end LittleEndian

import RealmFormal.Go.Bytes

/-!
# Escaped URL paths

`URL.EscapedPath` of a path that was given without an encoding of its own.
-/

namespace Go.Url
set_option autoImplicit false

/-- `shouldEscape` for paths. -/
def shouldEscape (b : UInt8) : Bool :=
  !(isLower b || isUpper b || isDigit b || decide (b ∈ str "-_.~$&+,/:;=@"))

def hexUpper (n : Nat) : UInt8 := UInt8.ofNat (if n < 10 then 48 + n else 55 + n)

def escape (s : Bytes) : Bytes :=
  s.flatMap fun b =>
    if shouldEscape b then [chr '%', hexUpper (b.toNat / 16), hexUpper (b.toNat % 16)] else [b]

/-- The path of `OPTIONS *` stays as it is. -/
def escapePath (path : Bytes) : Bytes := if path = str "*" then str "*" else escape path

example : escapePath (str "/a b?c") = str "/a%20b%3Fc" := by decide

theorem escape_of_safe {s : Bytes} (h : ∀ b ∈ s, shouldEscape b = false) : escape s = s := by
  induction s with
  | nil => rfl
  | cons b s ih =>
    obtain ⟨hb, hs⟩ := List.forall_mem_cons.mp h
    simp only [escape, List.flatMap_cons, hb] at ih ⊢
    rw [ih hs]
    rfl

theorem escapePath_of_safe {path : Bytes} (h : ∀ b ∈ path, shouldEscape b = false) :
    escapePath path = path := by
  unfold escapePath
  split
  · rename_i hstar
    exact hstar.symm
  · exact escape_of_safe h

end Go.Url

import RealmFormal.Go.Json

/-!
# Quoted strings

`strconv.Quote` and `hex.EncodeToString`. The table of printable runes beyond ASCII
is the parameter `isPrint`.
-/

namespace Go
open Json
set_option autoImplicit false

def hexPair (b : UInt8) : Bytes := [hexLower (b.toNat / 16), hexLower (b.toNat % 16)]

/-- `hex.EncodeToString`. -/
def encodeToString (bs : Bytes) : Bytes := bs.flatMap hexPair

/-- The code of a rune from its bytes in UTF-8. -/
def runeCode : Bytes → Nat
  | [b0] => b0.toNat
  | [b0, b1] => (b0.toNat % 0x20) * 0x40 + b1.toNat % 0x40
  | [b0, b1, b2] => (b0.toNat % 0x10) * 0x1000 + (b1.toNat % 0x40) * 0x40 + b2.toNat % 0x40
  | [b0, b1, b2, b3] =>
    (b0.toNat % 0x08) * 0x40000 + (b1.toNat % 0x40) * 0x1000 + (b2.toNat % 0x40) * 0x40 +
      b3.toNat % 0x40
  | _ => 0

/-- The code in `width` hexadecimal digits. -/
def hexCode (width code : Nat) : Bytes :=
  (List.range width).reverse.map fun i => hexLower ((code >>> (4 * i)) % 16)

/-- An ASCII byte inside the quotes. -/
def quoteAscii (b : UInt8) : Bytes :=
  if b = chr '"' ∨ b = chr '\\' then [chr '\\', b]
  else if 0x20 ≤ b.toNat ∧ b.toNat < 0x7F then [b]
  else
    match b.toNat with
    | 7 => str "\\a"
    | 8 => str "\\b"
    | 12 => str "\\f"
    | 10 => str "\\n"
    | 13 => str "\\r"
    | 9 => str "\\t"
    | 11 => str "\\v"
    | _ => str "\\x" ++ hexPair b

section Quote
variable (isPrint : Nat → Bool)

def quoteRune (rune : Bytes) : Bytes :=
  match rune with
  | [b] => quoteAscii b
  | _ =>
    if isPrint (runeCode rune) then rune
    else if runeCode rune < 0x10000 then str "\\u" ++ hexCode 4 (runeCode rune)
    else str "\\U" ++ hexCode 8 (runeCode rune)

/-- The text between the quotes. The first argument counts the bytes left of a rune. -/
def quoteBody : Nat → Bytes → Bytes
  | _, [] => []
  | n + 1, _ :: t => quoteBody n t
  | 0, b :: t =>
    match runeLength (b :: t) with
    | 0 => str "\\x" ++ hexPair b ++ quoteBody 0 t
    | n + 1 => quoteRune isPrint ((b :: t).take (n + 1)) ++ quoteBody n t

def quote (s : Bytes) : Bytes := chr '"' :: quoteBody isPrint 0 s ++ [chr '"']

end Quote

/-- A byte that stands for itself between quotes. -/
def isVerbatim (b : UInt8) : Bool :=
  decide (0x20 ≤ b.toNat ∧ b.toNat < 0x7F ∧ b ≠ chr '"' ∧ b ≠ chr '\\')

def Verbatim (s : Bytes) : Prop := ∀ b ∈ s, isVerbatim b = true

instance (s : Bytes) : Decidable (Verbatim s) :=
  inferInstanceAs (Decidable (∀ b ∈ s, isVerbatim b = true))

theorem Verbatim.append {s t : Bytes} (hs : Verbatim s) (ht : Verbatim t) : Verbatim (s ++ t) :=
  List.forall_mem_append.mpr ⟨hs, ht⟩

theorem quoteBody_verbatim (isPrint : Nat → Bool) {s : Bytes} (h : Verbatim s) :
    quoteBody isPrint 0 s = s := by
  induction s with
  | nil => rfl
  | cons b t ih =>
    obtain ⟨hb, ht⟩ := List.forall_mem_cons.mp h
    simp only [isVerbatim, decide_eq_true_eq] at hb
    obtain ⟨hlow, hhigh, hquote, hslash⟩ := hb
    have hlength : runeLength (b :: t) = 1 := by
      simp [runeLength, show b.toNat < 0x80 by omega]
    have hself : quoteAscii b = [b] := by
      rw [quoteAscii, if_neg (by simp [hquote, hslash]), if_pos ⟨hlow, hhigh⟩]
    rw [quoteBody, hlength]
    show quoteAscii b ++ quoteBody isPrint 0 t = b :: t
    rw [hself, ih ht]
    rfl

/-- No escape is added. -/
theorem quote_verbatim (isPrint : Nat → Bool) {s : Bytes} (h : Verbatim s) :
    quote isPrint s = chr '"' :: s ++ [chr '"'] := by
  rw [quote, quoteBody_verbatim isPrint h]

theorem encodeToString_verbatim (bs : Bytes) : Verbatim (encodeToString bs) := by
  have hdigit : ∀ n < 16, isVerbatim (hexLower n) = true := by decide
  intro b hb
  obtain ⟨c, -, hc⟩ := List.mem_flatMap.mp hb
  have hlt := c.toNat_lt
  rcases List.mem_cons.mp hc with rfl | hc
  · exact hdigit _ (by omega)
  · rw [List.mem_singleton.mp hc]
    exact hdigit _ (by omega)

end Go

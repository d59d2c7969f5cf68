import RealmFormal.Go.Bytes

/-!
# Unpadded base64url

`base64.RawURLEncoding`, and its `Strict` decoder: bits left over in the last
group must be zero, while carriage returns and line feeds are skipped anywhere.
-/

namespace Go.Base64
set_option autoImplicit false

/-- The letter of a six-bit value. -/
def letter (v : Nat) : UInt8 :=
  UInt8.ofNat (if v < 26 then 65 + v else if v < 52 then 71 + v else if v < 62 then v - 4
    else if v = 62 then 45 else 95)

/-- The six-bit value of a letter. -/
def sextet (b : UInt8) : Option Nat :=
  let n := b.toNat
  if 65 ≤ n ∧ n ≤ 90 then some (n - 65)
  else if 97 ≤ n ∧ n ≤ 122 then some (n - 71)
  else if 48 ≤ n ∧ n ≤ 57 then some (n + 4)
  else if n = 45 then some 62
  else if n = 95 then some 63
  else none

/-- The sextets of a byte string, the last one padded with zero bits. -/
def sextets : Bytes → List Nat
  | [] => []
  | [a] => [a.toNat / 4, a.toNat % 4 * 16]
  | [a, b] => [a.toNat / 4, a.toNat % 4 * 16 + b.toNat / 16, b.toNat % 16 * 4]
  | a :: b :: c :: t =>
    a.toNat / 4 :: (a.toNat % 4 * 16 + b.toNat / 16) :: (b.toNat % 16 * 4 + c.toNat / 64) ::
      (c.toNat % 64) :: sextets t

/-- The bytes of complete and partial groups of four sextets. -/
def octets : List Nat → Option Bytes
  | [] => some []
  | [_] => none
  | [x, y] => if y % 16 = 0 then some [UInt8.ofNat (x * 4 + y / 16)] else none
  | [x, y, z] =>
    if z % 4 = 0 then
      some [UInt8.ofNat (x * 4 + y / 16), UInt8.ofNat (y % 16 * 16 + z / 4)]
    else none
  | x :: y :: z :: w :: t =>
    (octets t).map fun bs =>
      UInt8.ofNat (x * 4 + y / 16) :: UInt8.ofNat (y % 16 * 16 + z / 4) ::
        UInt8.ofNat (z % 4 * 64 + w) :: bs

def encodeToString (s : Bytes) : Bytes := (sextets s).map letter

def isNewline (b : UInt8) : Bool := decide (b = 10 ∨ b = 13)

/-- `RawURLEncoding.Strict().DecodeString`. -/
def decodeString (s : Bytes) : Option Bytes :=
  ((s.filter fun b => !isNewline b).mapM sextet).bind octets

/-- The letters of the alphabet. -/
def isLetter (b : UInt8) : Bool :=
  isUpper b || isLower b || isDigit b || decide (b = 45) || decide (b = 95)

theorem sextets_lt (s : Bytes) : ∀ v ∈ sextets s, v < 64 := by
  fun_induction sextets s with
  | case1 => simp
  | case2 a =>
    have ha := a.toNat_lt
    intro v hv
    simp only [List.mem_cons, List.not_mem_nil, or_false] at hv
    omega
  | case3 a b =>
    have ha := a.toNat_lt
    have hb := b.toNat_lt
    intro v hv
    simp only [List.mem_cons, List.not_mem_nil, or_false] at hv
    omega
  | case4 a b c t ih =>
    have ha := a.toNat_lt
    have hb := b.toNat_lt
    have hc := c.toNat_lt
    intro v hv
    simp only [List.mem_cons] at hv
    rcases hv with hv | hv | hv | hv | hv
    · omega
    · omega
    · omega
    · omega
    · exact ih v hv

theorem octets_sextets (s : Bytes) : octets (sextets s) = some s := by
  fun_induction sextets s with
  | case1 => rfl
  | case2 a =>
    have ha := a.toNat_lt
    have h1 : a.toNat / 4 * 4 + a.toNat % 4 * 16 / 16 = a.toNat := by omega
    simp only [octets, h1, ofNat_toNat, Nat.mul_mod_left, if_true]
  | case3 a b =>
    have ha := a.toNat_lt
    have hb := b.toNat_lt
    have h1 : a.toNat / 4 * 4 + (a.toNat % 4 * 16 + b.toNat / 16) / 16 = a.toNat := by omega
    have h2 : (a.toNat % 4 * 16 + b.toNat / 16) % 16 * 16 + b.toNat % 16 * 4 / 4 = b.toNat := by
      omega
    simp only [octets, h1, h2, ofNat_toNat, Nat.mul_mod_left, if_true]
  | case4 a b c t ih =>
    have ha := a.toNat_lt
    have hb := b.toNat_lt
    have hc := c.toNat_lt
    have h1 : a.toNat / 4 * 4 + (a.toNat % 4 * 16 + b.toNat / 16) / 16 = a.toNat := by omega
    have h2 : (a.toNat % 4 * 16 + b.toNat / 16) % 16 * 16 +
        (b.toNat % 16 * 4 + c.toNat / 64) / 4 = b.toNat := by omega
    have h3 : (b.toNat % 16 * 4 + c.toNat / 64) % 4 * 64 + c.toNat % 64 = c.toNat := by omega
    simp only [octets, ih, Option.map_some, h1, h2, h3, ofNat_toNat]

theorem sextet_letter : ∀ v < 64, sextet (letter v) = some v := by decide

theorem isLetter_letter : ∀ v < 64, isLetter (letter v) = true := by decide

theorem letter_not_newline {b : UInt8} (h : isLetter b = true) : isNewline b = false := by
  simp only [isNewline, decide_eq_false_iff_not]
  rintro (rfl | rfl)
  · exact absurd h (by decide)
  · exact absurd h (by decide)

theorem encodeToString_isLetter (s : Bytes) : ∀ b ∈ encodeToString s, isLetter b = true := by
  intro b hb
  obtain ⟨v, hv, rfl⟩ := List.mem_map.mp hb
  exact isLetter_letter v (sextets_lt s v hv)

theorem mapM_sextet_letters (vs : List Nat) (h : ∀ v ∈ vs, v < 64) :
    (vs.map letter).mapM sextet = some vs := by
  induction vs with
  | nil => rfl
  | cons v vs ih =>
    rw [List.map_cons, List.mapM_cons, sextet_letter v (h v List.mem_cons_self),
      ih fun x hx => h x (List.mem_cons_of_mem v hx)]
    rfl

/-- Decoding undoes encoding. -/
theorem decodeString_encodeToString (s : Bytes) : decodeString (encodeToString s) = some s := by
  have hkeep : (encodeToString s).filter (fun b => !isNewline b) = encodeToString s := by
    apply List.filter_eq_self.mpr
    intro b hb
    rw [letter_not_newline (encodeToString_isLetter s b hb)]
    rfl
  unfold decodeString
  rw [hkeep, encodeToString, mapM_sextet_letters _ (sextets_lt s), Option.bind_some,
    octets_sextets]

theorem encodeToString_length (s : Bytes) :
    (encodeToString s).length = (4 * s.length + 2) / 3 := by
  simp only [encodeToString, List.length_map]
  fun_induction sextets s with
  | case1 => rfl
  | case2 a => simp
  | case3 a b => simp
  | case4 a b c t ih =>
    simp only [List.length_cons, ih]
    omega

end Go.Base64

import RealmFormal.Go.Json

/-!
# Strings of JSON text

What the scanner reads back from the text that the encoder writes for a string.
`requote` is the round trip: strings that are not valid UTF-8 do not survive it,
plain ones (printable ASCII that the encoder copies) do.
-/

namespace Go.Json
set_option autoImplicit false

/-- What the scanner reads for one escaped ASCII byte. -/
def asciiToken (b : UInt8) : Token :=
  if isPlain b = true ∨ b = chr '"' ∨ b = chr '\\' ∨ b = 8 ∨ b = 12 ∨ b = 10 ∨ b = 13 ∨ b = 9 then
    .byte b
  else .unit b.toNat

/-- What the scanner reads for the text that `escape` writes. -/
def tokens : Rune → Bytes → List Token
  | _, [] => []
  | .copy (n + 1), b :: t => .byte b :: tokens (.copy n) t
  | .skip (n + 1), _ :: t => tokens (.skip n) t
  | _, b :: t =>
    if b.toNat < 0x80 then asciiToken b :: tokens .start t
    else if [0xE2, 0x80, 0xA8].isPrefixOf (b :: t) then .unit 0x2028 :: tokens (.skip 2) t
    else if [0xE2, 0x80, 0xA9].isPrefixOf (b :: t) then .unit 0x2029 :: tokens (.skip 2) t
    else
      match runeLength (b :: t) with
      | 0 => .unit 0xFFFD :: tokens .start t
      | n + 1 => .byte b :: tokens (.copy n) t

theorem isPlain_facts {b : UInt8} (h : isPlain b = true) :
    32 ≤ b.toNat ∧ b.toNat < 128 ∧ b ≠ chr '"' ∧ b ≠ chr '\\' := by
  simp only [isPlain, decide_eq_true_eq] at h
  exact ⟨h.1, h.2.1, h.2.2.1, h.2.2.2.1⟩

theorem hexDigit_hexLower {n : Nat} (h : n < 16) : hexDigit (hexLower n) = some n := by
  revert n
  decide

/-- A byte that stands for itself in a string literal. -/
theorem scanString_byte {b : UInt8} (hlo : 32 ≤ b.toNat) (hq : b ≠ chr '"') (he : b ≠ chr '\\')
    (t : Bytes) :
    scanString .plain (b :: t) = (scanString .plain t).map fun r => (.byte b :: r.1, r.2) := by
  have hlt : ¬ b.toNat < 32 := by omega
  simp [scanString, hq, he, hlt]

/-- A one-letter escape. -/
theorem scanString_letter {c b : UInt8} (hu : c ≠ chr 'u') (hc : escapeByte c = some b) (t : Bytes) :
    scanString .plain (chr '\\' :: c :: t) =
      (scanString .plain t).map fun r => (.byte b :: r.1, r.2) := by
  have hq : chr '\\' ≠ chr '"' := by decide
  simp [scanString, hq, hu, hc]

/-- A `\u` escape. -/
theorem scanString_unit {a b c d : UInt8} {i j k l : Nat} (ha : hexDigit a = some i)
    (hb : hexDigit b = some j) (hc : hexDigit c = some k) (hd : hexDigit d = some l) (t : Bytes) :
    scanString .plain (chr '\\' :: chr 'u' :: a :: b :: c :: d :: t) =
      (scanString .plain t).map fun r => (.unit (((i * 16 + j) * 16 + k) * 16 + l) :: r.1, r.2) := by
  have hq : chr '\\' ≠ chr '"' := by decide
  simp [scanString, hq, ha, hb, hc, hd]

theorem scanString_escapeAscii {b : UInt8} (hb : b.toNat < 128) (t : Bytes) :
    scanString .plain (escapeAscii b ++ t) =
      (scanString .plain t).map fun r => (asciiToken b :: r.1, r.2) := by
  by_cases hplain : isPlain b = true
  · obtain ⟨hlo, -, hq, he⟩ := isPlain_facts hplain
    simpa [escapeAscii, asciiToken, hplain] using scanString_byte hlo hq he t
  by_cases hletter :
      b = chr '"' ∨ b = chr '\\' ∨ b = 8 ∨ b = 12 ∨ b = 10 ∨ b = 13 ∨ b = 9
  · rcases hletter with rfl | rfl | rfl | rfl | rfl | rfl | rfl <;>
      exact scanString_letter (by decide) (by decide) t
  · have hzero : hexDigit (chr '0') = some 0 := by decide
    have hhi := hexDigit_hexLower (show b.toNat / 16 < 16 by omega)
    have hlo := hexDigit_hexLower (show b.toNat % 16 < 16 by omega)
    have hunit := scanString_unit hzero hzero hhi hlo t
    have hvalue : ((0 * 16 + 0) * 16 + b.toNat / 16) * 16 + b.toNat % 16 = b.toNat := by omega
    rw [hvalue] at hunit
    rw [asciiToken, if_neg (by simp [hplain, hletter])]
    simp only [not_or] at hletter
    have htext : escapeAscii b =
        str "\\u00" ++ [hexLower (b.toNat / 16), hexLower (b.toNat % 16)] := by
      simp [escapeAscii, hplain, hletter]
    rw [htext]
    exact hunit

theorem runeLength_tail {b : UInt8} {t : Bytes} {n : Nat} (h : runeLength (b :: t) = n + 1) :
    ∀ c ∈ t.take n, 128 ≤ c.toNat := by
  have hsecond : ∀ x y : UInt8, secondInRange x y = true → 128 ≤ y.toNat := by
    intro x y hxy
    simp only [secondInRange, decide_eq_true_eq] at hxy
    split at hxy <;> (try split at hxy) <;> omega
  have htail : ∀ y : UInt8, isTail y = true → 128 ≤ y.toNat := by
    intro y hy
    simp only [isTail, decide_eq_true_eq] at hy
    omega
  simp only [runeLength] at h
  split at h
  · obtain rfl : n = 0 := by omega
    simp
  split at h
  · split at h
    · split at h
      · obtain rfl : n = 1 := by omega
        simpa using htail _ ‹_›
      · cases h
    · cases h
  split at h
  · split at h
    · split at h
      · rename_i hok
        obtain rfl : n = 2 := by omega
        rw [Bool.and_eq_true] at hok
        simpa using ⟨hsecond _ _ hok.1, htail _ hok.2⟩
      · cases h
    · cases h
  split at h
  · split at h
    · split at h
      · rename_i hok
        obtain rfl : n = 3 := by omega
        simp only [Bool.and_eq_true] at hok
        simpa using ⟨hsecond _ _ hok.1.1, htail _ hok.1.2, htail _ hok.2⟩
      · cases h
    · cases h
  · cases h

/-- Bytes that are copied as part of a rune are not ASCII. -/
def Copyable : Rune → Bytes → Prop
  | .copy n, s => ∀ c ∈ s.take n, 128 ≤ c.toNat
  | _, _ => True

theorem scanString_high {b : UInt8} (h : 128 ≤ b.toNat) (t : Bytes) :
    scanString .plain (b :: t) = (scanString .plain t).map fun r => (.byte b :: r.1, r.2) := by
  refine scanString_byte (by omega) ?_ ?_ t
  · rintro rfl
    exact absurd h (by decide)
  · rintro rfl
    exact absurd h (by decide)

/-- An encoded string is scanned to its closing quote. -/
theorem scanString_escape (state : Rune) (s : Bytes) (h : Copyable state s) (rest : Bytes) :
    scanString .plain (escape state s ++ chr '"' :: rest) = some (tokens state s, rest) := by
  fun_induction escape state s with
  | case1 => simp [scanString, tokens]
  | case2 n b t ih =>
    have hcopy : (∀ c ∈ t.take n, 128 ≤ c.toNat) ∧ 128 ≤ b.toNat := by
      simpa [Copyable, and_comm] using h
    rw [List.cons_append, scanString_high hcopy.2, ih hcopy.1]
    simp [tokens]
  | case3 n b t ih =>
    rw [ih trivial]
    simp [tokens]
  | case4 state b t hcopy hskip hascii ih =>
    rw [List.append_assoc, scanString_escapeAscii hascii, ih trivial]
    rw [tokens]
    · simp [hascii]
    · exact hcopy
    · exact hskip
  | case5 state b t hcopy hskip hascii hsep ih =>
    have hunit := scanString_unit (a := chr '2') (b := chr '0') (c := chr '2') (d := chr '8')
      (i := 2) (j := 0) (k := 2) (l := 8) (by decide) (by decide) (by decide) (by decide)
      (escape (.skip 2) t ++ chr '"' :: rest)
    rw [ih trivial] at hunit
    rw [tokens, if_neg hascii, if_pos hsep]
    · exact hunit
    · exact hcopy
    · exact hskip
  | case6 state b t hcopy hskip hascii hsep hpar ih =>
    have hunit := scanString_unit (a := chr '2') (b := chr '0') (c := chr '2') (d := chr '9')
      (i := 2) (j := 0) (k := 2) (l := 9) (by decide) (by decide) (by decide) (by decide)
      (escape (.skip 2) t ++ chr '"' :: rest)
    rw [ih trivial] at hunit
    rw [tokens, if_neg hascii, if_neg hsep, if_pos hpar]
    · exact hunit
    · exact hcopy
    · exact hskip
  | case7 state b t hcopy hskip hascii hsep hpar hbad ih =>
    have hunit := scanString_unit (a := chr 'f') (b := chr 'f') (c := chr 'f') (d := chr 'd')
      (i := 15) (j := 15) (k := 15) (l := 13) (by decide) (by decide) (by decide) (by decide)
      (escape .start t ++ chr '"' :: rest)
    rw [ih trivial] at hunit
    rw [tokens, if_neg hascii, if_neg hsep, if_neg hpar, hbad]
    · exact hunit
    · exact hcopy
    · exact hskip
  | case8 state b t hcopy hskip hascii hsep hpar n hrune ih =>
    rw [List.cons_append, scanString_high (by omega), ih (runeLength_tail hrune)]
    rw [tokens, if_neg hascii, if_neg hsep, if_neg hpar, hrune]
    · rfl
    · exact hcopy
    · exact hskip

/-- A string after it was encoded and decoded. -/
def requote (s : Bytes) : Bytes := unquote (tokens .start s)

/-! ## Plain strings -/

def PlainString (s : Bytes) : Prop := ∀ b ∈ s, isPlain b = true

theorem plainString_cons {b : UInt8} {s : Bytes} :
    PlainString (b :: s) ↔ isPlain b = true ∧ PlainString s := List.forall_mem_cons

theorem plainString_append {s t : Bytes} (hs : PlainString s) (ht : PlainString t) :
    PlainString (s ++ t) := by
  intro b hb
  rcases List.mem_append.mp hb with hb | hb
  · exact hs b hb
  · exact ht b hb

theorem plainString_str {s : String} (h : (str s).all isPlain = true) : PlainString (str s) :=
  List.all_eq_true.mp h

theorem joinTokens_bytes (s : Bytes) : joinTokens none (s.map .byte) = s := by
  induction s with
  | nil => rfl
  | cons b s ih => simp [joinTokens, ih]

theorem sanitize_ascii {s : Bytes} (h : ∀ b ∈ s, b.toNat < 128) : sanitize 0 s = s := by
  induction s with
  | nil => rfl
  | cons b s ih =>
    have hb : b.toNat < 0x80 := h b List.mem_cons_self
    simp [sanitize, runeLength, hb, ih fun c hc => h c (List.mem_cons_of_mem b hc)]

theorem unquote_plain {s : Bytes} (h : PlainString s) : unquote (s.map .byte) = s := by
  rw [unquote, joinTokens_bytes]
  exact sanitize_ascii fun b hb => (isPlain_facts (h b hb)).2.1

theorem isPlain_of_isDigit {b : UInt8} : isDigit b = true → isPlain b = true :=
  byte_forall (P := fun b => isDigit b = true → isPlain b = true) (by decide +kernel) b

theorem plainString_natDigits (n : Nat) : PlainString (natDigits n) := fun b hb =>
  isPlain_of_isDigit (natDigits_isDigit n b hb)

theorem tokens_plain {s : Bytes} (h : PlainString s) : tokens .start s = s.map .byte := by
  induction s with
  | nil => rfl
  | cons b s ih =>
    obtain ⟨hb, hs⟩ := plainString_cons.mp h
    simp [tokens, (isPlain_facts hb).2.1, asciiToken, hb, ih hs]

theorem requote_plain {s : Bytes} (h : PlainString s) : requote s = s := by
  rw [requote, tokens_plain h]
  exact unquote_plain h

theorem escape_plain {s : Bytes} (h : PlainString s) : escape .start s = s := by
  induction s with
  | nil => rfl
  | cons b s ih =>
    obtain ⟨hb, hs⟩ := plainString_cons.mp h
    simp [escape, (isPlain_facts hb).2.1, escapeAscii, hb, ih hs]

theorem encodeString_plain {s : Bytes} (h : PlainString s) :
    encodeString s = chr '"' :: (s ++ [chr '"']) := by
  simp [encodeString, escape_plain h]

theorem encodeString_length {s : Bytes} (h : PlainString s) :
    (encodeString s).length = s.length + 2 := by
  rw [encodeString_plain h]
  simp

end Go.Json

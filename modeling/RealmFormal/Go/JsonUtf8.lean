import RealmFormal.Go.JsonRoundTrip

/-!
# Text that was decoded once

`unquote` replaces whatever is not UTF-8, so a decoded string has nothing left to
replace. Such a string is read back as it was, whichever of its characters the
encoder escapes, and so is a document all of whose strings were decoded.
-/

namespace Go.Json
set_option autoImplicit false

/-- Valid UTF-8: there is nothing to replace. -/
def Utf8 (s : Bytes) : Prop := sanitize 0 s = s

/-! ## Strings -/

theorem sanitize_eq (n : Nat) (s : Bytes) : sanitize n s = s.take n ++ sanitize 0 (s.drop n) := by
  induction s generalizing n with
  | nil => simp [sanitize]
  | cons b t ih =>
    cases n with
    | zero => rfl
    | succ n => simp [sanitize, ih n]

theorem length_le_sanitize (n : Nat) (s : Bytes) : s.length ≤ (sanitize n s).length := by
  fun_induction sanitize n s with
  | case1 => simp
  | case2 n b t ih => simpa using ih
  | case3 b t h ih =>
    simp only [List.length_cons, List.length_append, replacement]
    omega
  | case4 b t n h ih => simpa using ih

/-- The length of a rune depends on its own bytes only. -/
theorem runeLength_take {b : UInt8} {t : Bytes} {n : Nat} (h : runeLength (b :: t) = n + 1)
    (u : Bytes) : runeLength (b :: (t.take n ++ u)) = n + 1 := by
  simp only [runeLength] at h
  split at h
  · rename_i hascii
    obtain rfl : n = 0 := by omega
    simp only [runeLength, if_pos hascii]
  rename_i hascii
  split at h
  · rename_i htwo
    split at h
    · split at h
      · rename_i htail
        obtain rfl : n = 1 := by omega
        simp only [runeLength, List.take_succ_cons, List.cons_append, if_neg hascii, if_pos htwo,
          if_pos htail]
      · cases h
    · cases h
  rename_i htwo
  split at h
  · rename_i hthree
    split at h
    · split at h
      · rename_i htail
        obtain rfl : n = 2 := by omega
        simp only [runeLength, List.take_succ_cons, List.cons_append, if_neg hascii, if_neg htwo,
          if_pos hthree, if_pos htail]
      · cases h
    · cases h
  rename_i hthree
  split at h
  · rename_i hfour
    split at h
    · split at h
      · rename_i htail
        obtain rfl : n = 3 := by omega
        simp only [runeLength, List.take_succ_cons, List.cons_append, if_neg hascii, if_neg htwo,
          if_neg hthree, if_pos hfour, if_pos htail]
      · cases h
    · cases h
  · cases h

theorem sanitize_replacement (s : Bytes) :
    sanitize 0 (replacement ++ s) = replacement ++ sanitize 0 s := rfl

/-- Nothing is left to replace. -/
theorem sanitize_sanitize (n : Nat) (s : Bytes) : sanitize n (sanitize n s) = sanitize n s := by
  fun_induction sanitize n s with
  | case1 n => simp [sanitize]
  | case2 n b t ih => simp [sanitize, ih]
  | case3 b t h ih => rw [sanitize_replacement, ih]
  | case4 b t n h ih =>
    have hlength : runeLength (b :: sanitize n t) = n + 1 := by
      rw [sanitize_eq]
      exact runeLength_take h _
    rw [sanitize, hlength]
    exact congrArg (b :: ·) ih

theorem unquote_utf8 (ts : List Token) : Utf8 (unquote ts) := sanitize_sanitize 0 _

theorem Utf8.of_plain {s : Bytes} (h : PlainString s) : Utf8 s :=
  sanitize_ascii fun b hb => (isPlain_facts (h b hb)).2.1

theorem utf8_str {s : String} (h : (str s).all isPlain = true) : Utf8 (str s) :=
  .of_plain (plainString_str h)

/-- In valid UTF-8 every rune is complete. -/
theorem Utf8.rune {b : UInt8} {t : Bytes} (h : Utf8 (b :: t)) :
    ∃ n, runeLength (b :: t) = n + 1 ∧ sanitize n t = t := by
  unfold Utf8 at h
  rw [sanitize] at h
  split at h
  · have hlength := congrArg List.length h
    have hle := length_le_sanitize 0 t
    simp only [replacement, List.length_append, List.length_cons, List.length_nil] at hlength
    omega
  · rename_i n hn
    exact ⟨n, hn, (List.cons.inj h).2⟩

/-- The bytes left of the current rune. -/
def Rune.left : Rune → Nat
  | .start => 0
  | .copy n => n
  | .skip n => n

/-- The bytes that a token already stands for. -/
def Rune.skipped : Rune → Nat
  | .skip n => n
  | _ => 0

theorem joinTokens_asciiToken {b : UInt8} (hb : b.toNat < 128) (ts : List Token) :
    joinTokens none (asciiToken b :: ts) = b :: joinTokens none ts := by
  unfold asciiToken
  split
  · rfl
  · have hhigh : isHighSurrogate b.toNat = false := by
      simp only [isHighSurrogate, decide_eq_false_iff_not]
      omega
    have hlow : isLowSurrogate b.toNat = false := by
      simp only [isLowSurrogate, decide_eq_false_iff_not]
      omega
    simp [joinTokens, hhigh, hlow, encodeRune, hb]

/-- A separator is escaped, and its three bytes come back. -/
theorem joinTokens_separator {code : Nat} {last b : UInt8} {t : Bytes} {ts : List Token}
    (hcode : isHighSurrogate code = false ∧ isLowSurrogate code = false ∧
      encodeRune code = [0xE2, 0x80, last])
    (hrune : ∀ u, runeLength (0xE2 :: 0x80 :: last :: u) = 3)
    (hsep : [0xE2, 0x80, last].isPrefixOf (b :: t) = true) (hutf8 : Utf8 (b :: t))
    (hts : sanitize 2 t = t → joinTokens none ts = t.drop 2) :
    joinTokens none (.unit code :: ts) = b :: t := by
  obtain ⟨n, hn, ht⟩ := hutf8.rune
  obtain ⟨u, hu⟩ := List.isPrefixOf_iff_prefix.mp hsep
  cases hu
  obtain rfl : n = 2 := Nat.succ.inj (hn.symm.trans (hrune u))
  simp [joinTokens, hcode, hts ht]

/-- Between two runes nothing is left to copy or to skip. -/
theorem Rune.between {state : Rune} {b : UInt8} {t : Bytes}
    (hcopy : ∀ n, state = .copy (n + 1) → False) (hskip : ∀ n, state = .skip (n + 1) → False)
    (h : sanitize state.left (b :: t) = b :: t) :
    Utf8 (b :: t) ∧ (b :: t).drop state.skipped = b :: t := by
  cases state with
  | start => exact ⟨h, rfl⟩
  | copy n =>
    cases n with
    | zero => exact ⟨h, rfl⟩
    | succ n => exact (hcopy n rfl).elim
  | skip n =>
    cases n with
    | zero => exact ⟨h, rfl⟩
    | succ n => exact (hskip n rfl).elim

theorem joinTokens_tokens (state : Rune) (s : Bytes) (h : sanitize state.left s = s) :
    joinTokens none (tokens state s) = s.drop state.skipped := by
  fun_induction tokens state s with
  | case1 => simp [joinTokens]
  | case2 n b t ih =>
    have ht : sanitize n t = t := (List.cons.inj h).2
    simpa [joinTokens, Rune.skipped] using ih ht
  | case3 n b t ih => exact ih (List.cons.inj h).2
  | case4 state b t hcopy hskip hascii ih =>
    obtain ⟨hutf8, hdrop⟩ := Rune.between hcopy hskip h
    obtain ⟨n, hn, ht⟩ := hutf8.rune
    obtain rfl : n = 0 := by simpa [runeLength, hascii] using hn.symm
    rw [joinTokens_asciiToken hascii, ih ht, hdrop]
    rfl
  | case5 state b t hcopy hskip hascii hsep ih =>
    obtain ⟨hutf8, hdrop⟩ := Rune.between hcopy hskip h
    rw [hdrop]
    exact joinTokens_separator (by decide) (fun _ => rfl) hsep hutf8 ih
  | case6 state b t hcopy hskip hascii hsep hpar ih =>
    obtain ⟨hutf8, hdrop⟩ := Rune.between hcopy hskip h
    rw [hdrop]
    exact joinTokens_separator (by decide) (fun _ => rfl) hpar hutf8 ih
  | case7 state b t hcopy hskip hascii hsep hpar hbad ih =>
    obtain ⟨hutf8, -⟩ := Rune.between hcopy hskip h
    obtain ⟨n, hn, -⟩ := hutf8.rune
    omega
  | case8 state b t hcopy hskip hascii hsep hpar n hrune ih =>
    obtain ⟨hutf8, hdrop⟩ := Rune.between hcopy hskip h
    obtain ⟨m, hm, ht⟩ := hutf8.rune
    obtain rfl : m = n := by omega
    rw [hdrop]
    exact congrArg (b :: ·) (ih ht)

/-- Valid UTF-8 is read back as it was. -/
theorem requote_utf8 {s : Bytes} (h : Utf8 s) : requote s = s := by
  have hjoin : joinTokens none (tokens .start s) = s := joinTokens_tokens .start s h
  rw [requote, unquote, hjoin]
  exact h

/-! ## Documents -/

/- Every string in the value is valid UTF-8. -/
mutual
def Valid : Value → Prop
  | .null => True
  | .bool _ => True
  | .number _ => True
  | .string s => Utf8 s
  | .array vs => ValidElements vs
  | .object ms => ValidMembers ms
def ValidElements : List Value → Prop
  | [] => True
  | v :: vs => Valid v ∧ ValidElements vs
def ValidMembers : List (Bytes × Value) → Prop
  | [] => True
  | (k, v) :: ms => Utf8 k ∧ Valid v ∧ ValidMembers ms
end

theorem validElements_iff {vs : List Value} : ValidElements vs ↔ ∀ v ∈ vs, Valid v := by
  induction vs with
  | nil => simp [ValidElements]
  | cons v vs ih => simp [ValidElements, ih]

theorem validMembers_iff {ms : List (Bytes × Value)} :
    ValidMembers ms ↔ ∀ m ∈ ms, Utf8 m.1 ∧ Valid m.2 := by
  induction ms with
  | nil => simp [ValidMembers]
  | cons m ms ih => simp [ValidMembers, ih, and_assoc]

mutual
theorem reread_valid (v : Value) (h : Valid v) : reread v = v := by
  match v with
  | .null => rfl
  | .bool _ => rfl
  | .number _ => rfl
  | .string s => exact congrArg Value.string (requote_utf8 h)
  | .array vs => exact congrArg Value.array (rereadElements_valid vs h)
  | .object ms => exact congrArg Value.object (rereadMembers_valid ms h)
theorem rereadElements_valid (vs : List Value) (h : ValidElements vs) : rereadElements vs = vs := by
  match vs with
  | [] => rfl
  | v :: vs => rw [rereadElements, reread_valid v h.1, rereadElements_valid vs h.2]
theorem rereadMembers_valid (ms : List (Bytes × Value)) (h : ValidMembers ms) :
    rereadMembers ms = ms := by
  match ms with
  | [] => rfl
  | (k, v) :: ms =>
    rw [rereadMembers, requote_utf8 h.1, reread_valid v h.2.1, rereadMembers_valid ms h.2.2]
end

theorem scanScalar_valid {s : Bytes} {r : Value × Bytes} (h : scanScalar s = some r) :
    Valid r.1 := by
  unfold scanScalar at h
  split at h
  · cases h
    trivial
  · split at h
    · cases h
      trivial
    · split at h
      · cases h
        trivial
      · obtain ⟨p, -, rfl⟩ := Option.map_eq_some_iff.mp h
        trivial

/-- Reading with fuel `n` gives valid strings only. -/
structure Decodes (n : Nat) : Prop where
  value : ∀ {s : Bytes} {r : Value × Bytes}, parseValue n s = some r → Valid r.1
  elements : ∀ {s : Bytes} {r : List Value × Bytes}, parseElements n s = some r →
    ValidElements r.1
  members : ∀ {s : Bytes} {r : List (Bytes × Value) × Bytes}, parseMembers n s = some r →
    ValidMembers r.1

theorem Decodes.value_succ {n : Nat} (ih : Decodes n) {s : Bytes} {r : Value × Bytes}
    (h : parseValue (n + 1) s = some r) : Valid r.1 := by
  rw [parseValue] at h
  split at h
  · cases h
  split at h
  · obtain ⟨p, -, rfl⟩ := Option.map_eq_some_iff.mp h
    exact unquote_utf8 p.1
  split at h
  · split at h
    · cases h
    split at h
    · cases h
      trivial
    · obtain ⟨p, hp, rfl⟩ := Option.map_eq_some_iff.mp h
      exact ih.elements hp
  split at h
  · split at h
    · cases h
    split at h
    · cases h
      trivial
    · obtain ⟨p, hp, rfl⟩ := Option.map_eq_some_iff.mp h
      exact ih.members hp
  · exact scanScalar_valid h

theorem Decodes.elements_succ {n : Nat} (ih : Decodes n) {s : Bytes} {r : List Value × Bytes}
    (h : parseElements (n + 1) s = some r) : ValidElements r.1 := by
  rw [parseElements] at h
  obtain ⟨v, hv, h⟩ := Option.bind_eq_some_iff.mp h
  split at h
  · cases h
  split at h
  · obtain ⟨p, hp, rfl⟩ := Option.map_eq_some_iff.mp h
    exact ⟨ih.value hv, ih.elements hp⟩
  split at h
  · cases h
    exact ⟨ih.value hv, trivial⟩
  · cases h

theorem Decodes.members_succ {n : Nat} (ih : Decodes n) {s : Bytes}
    {r : List (Bytes × Value) × Bytes} (h : parseMembers (n + 1) s = some r) :
    ValidMembers r.1 := by
  rw [parseMembers] at h
  split at h
  · cases h
  split at h
  · obtain ⟨k, -, h⟩ := Option.bind_eq_some_iff.mp h
    split at h
    · cases h
    split at h
    · obtain ⟨v, hv, h⟩ := Option.bind_eq_some_iff.mp h
      split at h
      · cases h
      split at h
      · obtain ⟨p, hp, rfl⟩ := Option.map_eq_some_iff.mp h
        exact ⟨unquote_utf8 k.1, ih.value hv, ih.members hp⟩
      split at h
      · cases h
        exact ⟨unquote_utf8 k.1, ih.value hv, trivial⟩
      · cases h
    · cases h
  · cases h

theorem decodes (n : Nat) : Decodes n := by
  induction n with
  | zero => exact ⟨nofun, nofun, nofun⟩
  | succ n ih => exact ⟨ih.value_succ, ih.elements_succ, ih.members_succ⟩

end Go.Json

import RealmFormal.Go.NetipText
import RealmFormal.Lib.Regex

/-!
# Literal addresses

`isIPv4` and `isIPv6` of the HTTP attestation module, which check the addresses of a
node before the plugin parses them. The check of an IPv6 address replaces a dotted
tail by two groups, splits the text and counts. A string is its bytes; none is zero.
-/

namespace RealmFormal.Nix.LiteralIP
open Go Go.Netip RegularExpression
set_option autoImplicit false

/-! ## Strings -/

/-- `splitFrom sep n s` leaves out `n` bytes of `s`, the rest of a separator. -/
def splitFrom (sep : Bytes) : Nat → Bytes → List Bytes
  | _, [] => [[]]
  | 0, b :: s =>
    if sep.isPrefixOf (b :: s) then [] :: splitFrom sep (sep.length - 1) s
    else (splitFrom sep 0 s).modifyHead (b :: ·)
  | n + 1, _ :: s => splitFrom sep n s

/-- `lib.splitString`. -/
def splitString (sep s : Bytes) : List Bytes := splitFrom sep 0 s

def zeroToNine : List UInt8 := str "0123456789"

def oneToNine : List UInt8 := str "123456789"

def hexDigits : List UInt8 := str "0123456789abcdefABCDEF"

def anyByte : List UInt8 := (List.range 256).map UInt8.ofNat

/-- `0|[1-9][0-9]{0,2}` -/
def octetRegex : RegularExpression UInt8 :=
  char (chr '0') + Regex.oneOf oneToNine * Regex.upTo (Regex.oneOf zeroToNine) 2

/-- `(0|[1-9][0-9]{0,2})(\.(0|[1-9][0-9]{0,2})){3}` -/
def dottedRegex : RegularExpression UInt8 :=
  octetRegex * Regex.times (char (chr '.') * octetRegex) 3

/-- `[0-9a-fA-F]{1,4}` -/
def groupRegex : RegularExpression UInt8 :=
  Regex.oneOf hexDigits * Regex.upTo (Regex.oneOf hexDigits) 3

/-- `.*:` -/
def headRegex : RegularExpression UInt8 := star (Regex.oneOf anyByte) * char (chr ':')

/-- `[0-9.]+` -/
def tailRegex : RegularExpression UInt8 :=
  Regex.oneOf (zeroToNine ++ str ".") * star (Regex.oneOf (zeroToNine ++ str "."))

/-! ## The check -/

/-- The number of a part, by `builtins.fromJSON`; the match before it leaves decimal digits. -/
def fromJSON (part : Bytes) : Option Nat := digitsValue part

def isIPv4 (value : Bytes) : Bool :=
  dottedRegex.rmatch value &&
    (splitString (str ".") value).all fun part => (fromJSON part).any fun n => decide (n ≤ 255)

def embedded (value : Bytes) : Option (Bytes × Bytes) :=
  if chr '.' ∈ value then Regex.matchPair headRegex tailRegex value else none

def normalized (value : Bytes) : Bytes :=
  match embedded value with
  | some parts => parts.1 ++ str "0:0"
  | none => value

def halves (normalized : Bytes) : List Bytes := splitString (str "::") normalized

def groups (part : Bytes) : List Bytes := if part = [] then [] else splitString (str ":") part

def pieces (normalized : Bytes) : List Bytes := (halves normalized).flatMap groups

def isIPv6 (value : Bytes) : Bool :=
  ((embedded value).all fun parts => isIPv4 parts.2) &&
    (pieces (normalized value)).all (fun part => groupRegex.rmatch part) &&
    if (halves (normalized value)).length = 1 then
      decide ((pieces (normalized value)).length = 8)
    else
      decide ((halves (normalized value)).length = 2) &&
        decide ((pieces (normalized value)).length < 8)

/-- The check of the type `literalIP`. -/
def literalIP (value : Bytes) : Bool := isIPv4 value || isIPv6 value

/-! ## Splitting -/

section Split
variable {sep s : Bytes} {c : UInt8}

theorem splitFrom_ne_nil (sep : Bytes) (n : Nat) (s : Bytes) : splitFrom sep n s ≠ [] := by
  induction s generalizing n with
  | nil =>
    rw [splitFrom]
    exact List.cons_ne_nil _ _
  | cons b s ih =>
    cases n with
    | zero =>
      rw [splitFrom]
      split
      · exact List.cons_ne_nil _ _
      · obtain ⟨first, rest, heq⟩ := List.exists_cons_of_ne_nil (ih 0)
        rw [heq]
        exact List.cons_ne_nil _ _
    | succ n =>
      rw [splitFrom]
      exact ih n

theorem splitFrom_drop (sep : Bytes) (n : Nat) (s : Bytes) :
    splitFrom sep n s = splitFrom sep 0 (s.drop n) := by
  induction s generalizing n with
  | nil =>
    rw [List.drop_nil, splitFrom, splitFrom]
  | cons b s ih =>
    cases n with
    | zero => rfl
    | succ n =>
      rw [splitFrom, List.drop_succ_cons]
      exact ih n

/-- One byte separates as it does in `strings.Split`. -/
theorem splitString_singleton (c : UInt8) (s : Bytes) : splitString [c] s = split s c := by
  unfold splitString split List.splitOn
  induction s with
  | nil => rfl
  | cons b s ih =>
    rw [splitFrom, List.splitOnP_cons_eq_if_modifyHead, ← ih]
    by_cases hb : b = c
    · subst hb
      simp
    · simp [hb, Ne.symm hb]

theorem intercalate_nil_cons {parts : List Bytes} (hne : parts ≠ []) :
    sep.intercalate ([] :: parts) = sep ++ sep.intercalate parts := by
  obtain ⟨part, parts, rfl⟩ := List.exists_cons_of_ne_nil hne
  rfl

theorem intercalate_modifyHead (b : UInt8) {parts : List Bytes} (hne : parts ≠ []) :
    sep.intercalate (parts.modifyHead (b :: ·)) = b :: sep.intercalate parts := by
  obtain ⟨part, parts, rfl⟩ := List.exists_cons_of_ne_nil hne
  cases parts with
  | nil => rfl
  | cons next parts => rfl

theorem intercalate_splitFrom (hsep : sep ≠ []) (n : Nat) (s : Bytes) :
    sep.intercalate (splitFrom sep n s) = s.drop n := by
  induction s generalizing n with
  | nil =>
    rw [splitFrom, List.drop_nil]
    rfl
  | cons b s ih =>
    cases n with
    | zero =>
      rw [splitFrom]
      split
      · rename_i hprefix
        obtain ⟨t, ht⟩ := List.isPrefixOf_iff_prefix.mp hprefix
        obtain ⟨c, rest, rfl⟩ := List.exists_cons_of_ne_nil hsep
        cases ht
        rw [intercalate_nil_cons (splitFrom_ne_nil _ _ _), ih]
        simp
      · rw [intercalate_modifyHead b (splitFrom_ne_nil _ _ _), ih]
        rfl
    | succ n =>
      rw [splitFrom, List.drop_succ_cons]
      exact ih n

/-- The parts with the separator between them are the text. -/
theorem intercalate_splitString (hsep : sep ≠ []) (s : Bytes) :
    sep.intercalate (splitString sep s) = s :=
  intercalate_splitFrom hsep 0 s

theorem splitString_cons {b : UInt8} (h : ¬ sep.isPrefixOf (b :: s) = true) :
    splitString sep (b :: s) = (splitString sep s).modifyHead (b :: ·) := by
  rw [splitString, splitFrom, if_neg h]
  rfl

theorem splitString_colons (s : Bytes) :
    splitString (str "::") (str "::" ++ s) = [] :: splitString (str "::") s := by
  have hcolons : str "::" ++ s = chr ':' :: chr ':' :: s := rfl
  have hprefix : (str "::").isPrefixOf (chr ':' :: chr ':' :: s) = true :=
    List.isPrefixOf_iff_prefix.mpr (List.prefix_append (str "::") s)
  rw [hcolons, splitString, splitFrom, if_pos hprefix, splitFrom_drop]
  rfl

/-- A `::` starts with two colons. -/
theorem not_colons_of_ne {b : UInt8} (hb : b ≠ chr ':') :
    ¬ (str "::").isPrefixOf (b :: s) = true ∧ ¬ (str "::").isPrefixOf (chr ':' :: b :: s) = true := by
  have hcolons : str "::" = [chr ':', chr ':'] := rfl
  rw [hcolons]
  simp [List.isPrefixOf_cons_cons, Ne.symm hb]

/-- Bytes other than a colon belong to the first part. -/
theorem splitString_append {g : Bytes} (hg : chr ':' ∉ g) (s : Bytes) :
    splitString (str "::") (g ++ s) = (splitString (str "::") s).modifyHead (g ++ ·) := by
  induction g with
  | nil =>
    rw [List.nil_append]
    exact (List.modifyHead_id).symm ▸ rfl
  | cons b g ih =>
    rw [List.mem_cons, not_or] at hg
    obtain ⟨hb, hg⟩ := hg
    rw [List.cons_append, splitString_cons (not_colons_of_ne (Ne.symm hb)).1, ih hg,
      List.modifyHead_modifyHead]
    rfl

/-- Groups with colons between them belong to the first part. -/
theorem splitString_join {gs : List Bytes} (hgs : ∀ g ∈ gs, IsGroup g) (s : Bytes) :
    splitString (str "::") (join gs (chr ':') ++ s) =
      (splitString (str "::") s).modifyHead (join gs (chr ':') ++ ·) := by
  induction gs with
  | nil => exact splitString_append (g := []) (List.not_mem_nil) s
  | cons g gs ih =>
    obtain ⟨hg, hgs⟩ := List.forall_mem_cons.mp hgs
    have hcolon : chr ':' ∉ g := hg.not_mem (by decide)
    by_cases hnil : gs = []
    · subst hnil
      rw [join_singleton]
      exact splitString_append hcolon s
    · -- the text after the colon starts with a digit
      obtain ⟨b, u, hbu, hb⟩ := (body_of_groups true (.hex hgs) hnil).exists_cons
      have hne := not_hex_colon hb
      rw [join_cons g hnil, List.append_assoc, splitString_append hcolon, List.cons_append, hbu,
        List.cons_append, splitString_cons (not_colons_of_ne hne).2, ← List.cons_append, ← hbu,
        ih hgs, List.modifyHead_modifyHead, List.modifyHead_modifyHead]
      congr 1
      funext t
      simp

theorem groups_join {gs : List Bytes} (hgs : ∀ g ∈ gs, IsGroup g) :
    groups (join gs (chr ':')) = gs := by
  unfold groups
  by_cases hnil : gs = []
  · subst hnil
    rfl
  · obtain ⟨b, u, hbu, -⟩ := (body_of_groups true (.hex hgs) hnil).exists_cons
    rw [if_neg (by rw [hbu]; exact List.cons_ne_nil b u)]
    show splitString [chr ':'] _ = _
    rw [splitString_singleton, split_join hnil fun g hg => (hgs g hg).not_mem (by decide)]

theorem join_groups (part : Bytes) : join (groups part) (chr ':') = part := by
  unfold groups
  split
  · rename_i hnil
    rw [hnil]
    rfl
  · show join (splitString [chr ':'] _) _ = _
    rw [splitString_singleton, join_split]

end Split

/-! ## Groups -/

theorem mem_hexDigits_iff (b : UInt8) : b ∈ hexDigits ↔ isHex b = true :=
  byte_forall (P := fun b => b ∈ hexDigits ↔ isHex b = true) (by decide +kernel) b

theorem groupRegex_iff (part : Bytes) : groupRegex.rmatch part = true ↔ IsGroup part := by
  rw [groupRegex, mul_rmatch_iff]
  constructor
  · rintro ⟨t, u, rfl, ht, hu⟩
    obtain ⟨c, hc, rfl⟩ := Regex.oneOf_rmatch_iff.mp ht
    obtain ⟨hlen, hmem⟩ := Regex.upTo_oneOf_rmatch_iff.mp hu
    refine ⟨List.cons_ne_nil c u, ?_, ?_⟩
    · rw [List.singleton_append, List.length_cons]
      omega
    · refine List.all_eq_true.mpr (List.forall_mem_cons.mpr ⟨(mem_hexDigits_iff c).mp hc, ?_⟩)
      intro d hd
      exact (mem_hexDigits_iff d).mp (hmem d hd)
  · rintro ⟨hne, hlen, hall⟩
    obtain ⟨c, u, rfl⟩ := List.exists_cons_of_ne_nil hne
    obtain ⟨hc, hu⟩ := List.forall_mem_cons.mp (List.all_eq_true.mp hall)
    refine ⟨[c], u, rfl, Regex.oneOf_rmatch_iff.mpr ⟨c, (mem_hexDigits_iff c).mpr hc, rfl⟩, ?_⟩
    refine Regex.upTo_oneOf_rmatch_iff.mpr ⟨?_, fun d hd => (mem_hexDigits_iff d).mpr (hu d hd)⟩
    rw [List.length_cons] at hlen
    omega

/-- An address of hexadecimal groups only. -/
def IsHex (s : Bytes) : Prop :=
  (∃ gs, (∀ g ∈ gs, IsGroup g) ∧ gs.length = 8 ∧ s = join gs (chr ':')) ∨
    ∃ left right, (∀ g ∈ left, IsGroup g) ∧ (∀ g ∈ right, IsGroup g) ∧
      left.length + right.length < 8 ∧ s = join left (chr ':') ++ str "::" ++ join right (chr ':')

/-- The check of the pieces and their number. -/
def counted (s : Bytes) : Bool :=
  (pieces s).all (fun part => groupRegex.rmatch part) &&
    if (halves s).length = 1 then decide ((pieces s).length = 8)
    else decide ((halves s).length = 2) && decide ((pieces s).length < 8)

theorem all_groupRegex_iff (parts : List Bytes) :
    (parts.all fun part => groupRegex.rmatch part) = true ↔ ∀ g ∈ parts, IsGroup g := by
  simp only [List.all_eq_true, groupRegex_iff]

theorem counted_of_half {s part : Bytes} (h : halves s = [part]) :
    counted s = true ↔ (∀ g ∈ groups part, IsGroup g) ∧ (groups part).length = 8 := by
  have hpieces : pieces s = groups part := by
    rw [pieces, h]
    simp
  rw [counted, hpieces, h, Bool.and_eq_true_iff, all_groupRegex_iff]
  simp

theorem counted_of_halves {s l r : Bytes} (h : halves s = [l, r]) :
    counted s = true ↔ (∀ g ∈ groups l, IsGroup g) ∧ (∀ g ∈ groups r, IsGroup g) ∧
      (groups l).length + (groups r).length < 8 := by
  have hpieces : pieces s = groups l ++ groups r := by
    rw [pieces, h]
    simp
  rw [counted, hpieces, h, Bool.and_eq_true_iff, all_groupRegex_iff, List.forall_mem_append]
  simp [and_assoc]

/-- The check counts the halves. -/
theorem halves_of_counted {s : Bytes} (h : counted s = true) :
    (∃ part, halves s = [part]) ∨ ∃ l r, halves s = [l, r] := by
  obtain ⟨-, hcount⟩ := Bool.and_eq_true_iff.mp h
  split at hcount
  · rename_i hone
    exact Or.inl (List.length_eq_one_iff.mp hone)
  · obtain ⟨htwo, -⟩ := Bool.and_eq_true_iff.mp hcount
    exact Or.inr (List.length_eq_two.mp (of_decide_eq_true htwo))

theorem intercalate_halves (s : Bytes) : (str "::").intercalate (halves s) = s :=
  intercalate_splitString (by decide) s

theorem halves_join {gs : List Bytes} (hgs : ∀ g ∈ gs, IsGroup g) :
    halves (join gs (chr ':')) = [join gs (chr ':')] := by
  have hsplit := splitString_join hgs []
  rw [List.append_nil] at hsplit
  rw [halves, hsplit]
  show [join gs (chr ':') ++ []] = _
  rw [List.append_nil]

theorem halves_sides {left right : List Bytes} (hleft : ∀ g ∈ left, IsGroup g)
    (hright : ∀ g ∈ right, IsGroup g) :
    halves (join left (chr ':') ++ str "::" ++ join right (chr ':')) =
      [join left (chr ':'), join right (chr ':')] := by
  have hlast := halves_join hright
  rw [halves] at hlast ⊢
  rw [List.append_assoc, splitString_join hleft, splitString_colons, hlast]
  show [join left (chr ':') ++ [], _] = _
  rw [List.append_nil]

theorem counted_iff (s : Bytes) : counted s = true ↔ IsHex s := by
  constructor
  · intro h
    have htext := intercalate_halves s
    rcases halves_of_counted h with ⟨part, hhalves⟩ | ⟨l, r, hhalves⟩
    · obtain ⟨hgroups, hlen⟩ := (counted_of_half hhalves).mp h
      refine Or.inl ⟨groups part, hgroups, hlen, ?_⟩
      rw [join_groups, ← htext, hhalves]
      simp
    · obtain ⟨hl, hr, hlen⟩ := (counted_of_halves hhalves).mp h
      refine Or.inr ⟨groups l, groups r, hl, hr, hlen, ?_⟩
      rw [join_groups, join_groups, ← htext, hhalves]
      simp
  · rintro (⟨gs, hgs, hlen, rfl⟩ | ⟨left, right, hleft, hright, hlen, rfl⟩)
    · rw [counted_of_half (halves_join hgs), groups_join hgs]
      exact ⟨hgs, hlen⟩
    · rw [counted_of_halves (halves_sides hleft hright), groups_join hleft, groups_join hright]
      exact ⟨hleft, hright, hlen⟩

/-! ## Dotted decimal -/

theorem mem_zeroToNine_iff (b : UInt8) : b ∈ zeroToNine ↔ isDigit b = true :=
  byte_forall (P := fun b => b ∈ zeroToNine ↔ isDigit b = true) (by decide +kernel) b

theorem mem_oneToNine_iff (b : UInt8) : b ∈ oneToNine ↔ isDigit b = true ∧ b ≠ chr '0' :=
  byte_forall (P := fun b => b ∈ oneToNine ↔ isDigit b = true ∧ b ≠ chr '0') (by decide +kernel) b

theorem octetRegex_iff (part : Bytes) :
    octetRegex.rmatch part = true ↔
      part ≠ [] ∧ part.length ≤ 3 ∧ part.all isDigit = true ∧
        ¬ (1 < part.length ∧ part.head? = some (chr '0')) := by
  rw [octetRegex, add_rmatch_iff, char_rmatch_iff, mul_rmatch_iff]
  constructor
  · rintro (rfl | ⟨t, u, rfl, ht, hu⟩)
    · decide
    · obtain ⟨c, hc, rfl⟩ := Regex.oneOf_rmatch_iff.mp ht
      obtain ⟨hlen, hmem⟩ := Regex.upTo_oneOf_rmatch_iff.mp hu
      obtain ⟨hdigit, hzero⟩ := (mem_oneToNine_iff c).mp hc
      refine ⟨List.cons_ne_nil c u, ?_, ?_, ?_⟩
      · rw [List.singleton_append, List.length_cons]
        omega
      · refine List.all_eq_true.mpr (List.forall_mem_cons.mpr ⟨hdigit, ?_⟩)
        intro d hd
        exact (mem_zeroToNine_iff d).mp (hmem d hd)
      · rintro ⟨-, hhead⟩
        exact hzero (Option.some.inj hhead)
  · rintro ⟨hne, hlen, hall, hzero⟩
    obtain ⟨c, u, rfl⟩ := List.exists_cons_of_ne_nil hne
    obtain ⟨hc, hu⟩ := List.forall_mem_cons.mp (List.all_eq_true.mp hall)
    by_cases hc0 : c = chr '0'
    · subst hc0
      have hnil : u = [] := by
        rcases u with _ | ⟨d, u⟩
        · rfl
        · exact absurd ⟨by simp, rfl⟩ hzero
      rw [hnil]
      exact Or.inl rfl
    · refine Or.inr ⟨[c], u, rfl, ?_, ?_⟩
      · exact Regex.oneOf_rmatch_iff.mpr ⟨c, (mem_oneToNine_iff c).mpr ⟨hc, hc0⟩, rfl⟩
      · refine Regex.upTo_oneOf_rmatch_iff.mpr ⟨?_, fun d hd => (mem_zeroToNine_iff d).mpr (hu d hd)⟩
        rw [List.length_cons] at hlen
        omega

/-- A part that matches and is in the range is an octet. -/
theorem isOctet_iff (part : Bytes) :
    (octetRegex.rmatch part = true ∧ ((fromJSON part).any fun n => decide (n ≤ 255)) = true) ↔
      IsOctet part := by
  constructor
  · rintro ⟨hmatch, hrange⟩
    obtain ⟨-, -, -, hzero⟩ := (octetRegex_iff part).mp hmatch
    cases hn : fromJSON part with
    | none =>
      rw [hn] at hrange
      cases hrange
    | some n =>
      rw [hn, Option.any_some] at hrange
      exact ⟨n, of_decide_eq_true hrange, natDigits_of_digitsValue hn hzero⟩
  · intro h
    have hlen := h.length_le
    have hne := h.ne_nil
    obtain ⟨n, hn, rfl⟩ := h
    refine ⟨(octetRegex_iff _).mpr ⟨hne, hlen, ?_, natDigits_no_leading_zero n⟩, ?_⟩
    · exact List.all_eq_true.mpr (natDigits_isDigit n)
    · rw [fromJSON, digitsValue_natDigits, Option.any_some]
      exact decide_eq_true hn

theorem dottedRegex_iff (s : Bytes) :
    dottedRegex.rmatch s = true ↔
      ∃ a b c d, octetRegex.rmatch a = true ∧ octetRegex.rmatch b = true ∧
        octetRegex.rmatch c = true ∧ octetRegex.rmatch d = true ∧ s = join [a, b, c, d] (chr '.') := by
  have hpart : ∀ t, (char (chr '.') * octetRegex).rmatch t = true ↔
      ∃ a, octetRegex.rmatch a = true ∧ t = chr '.' :: a := by
    intro t
    rw [mul_rmatch_iff]
    constructor
    · rintro ⟨u, a, rfl, hu, ha⟩
      rw [char_rmatch_iff] at hu
      exact ⟨a, ha, by rw [hu]; rfl⟩
    · rintro ⟨a, ha, rfl⟩
      exact ⟨[chr '.'], a, rfl, by rw [char_rmatch_iff], ha⟩
  rw [dottedRegex, mul_rmatch_iff]
  constructor
  · rintro ⟨a, t, rfl, ha, ht⟩
    obtain ⟨parts, hlen, hparts, rfl⟩ := Regex.times_rmatch_iff.mp ht
    obtain ⟨x, y, z, rfl⟩ := List.length_eq_three.mp hlen
    obtain ⟨b, hb, rfl⟩ := (hpart x).mp (hparts x (by simp))
    obtain ⟨c, hc, rfl⟩ := (hpart y).mp (hparts y (by simp))
    obtain ⟨d, hd, rfl⟩ := (hpart z).mp (hparts z (by simp))
    exact ⟨a, b, c, d, ha, hb, hc, hd, by simp [join]⟩
  · rintro ⟨a, b, c, d, ha, hb, hc, hd, rfl⟩
    refine ⟨a, chr '.' :: b ++ (chr '.' :: c ++ chr '.' :: d), by simp [join], ha, ?_⟩
    refine Regex.times_rmatch_iff.mpr ⟨[chr '.' :: b, chr '.' :: c, chr '.' :: d], rfl, ?_, by simp⟩
    intro part hmem
    simp only [List.mem_cons, List.not_mem_nil, or_false] at hmem
    rcases hmem with rfl | rfl | rfl
    · exact (hpart _).mpr ⟨b, hb, rfl⟩
    · exact (hpart _).mpr ⟨c, hc, rfl⟩
    · exact (hpart _).mpr ⟨d, hd, rfl⟩

theorem not_dot_of_octetRegex {part : Bytes} (h : octetRegex.rmatch part = true) :
    chr '.' ∉ part := by
  obtain ⟨-, -, hall, -⟩ := (octetRegex_iff part).mp h
  intro hmem
  have hdigit := List.all_eq_true.mp hall _ hmem
  revert hdigit
  decide

theorem isIPv4_iff (s : Bytes) : isIPv4 s = true ↔ IsIPv4 s := by
  have hparts : ∀ {a b c d : Bytes}, octetRegex.rmatch a = true → octetRegex.rmatch b = true →
      octetRegex.rmatch c = true → octetRegex.rmatch d = true →
      splitString (str ".") (join [a, b, c, d] (chr '.')) = [a, b, c, d] := by
    intro a b c d ha hb hc hd
    show splitString [chr '.'] _ = _
    rw [splitString_singleton]
    refine split_join (List.cons_ne_nil _ _) ?_
    simp [not_dot_of_octetRegex ha, not_dot_of_octetRegex hb, not_dot_of_octetRegex hc,
      not_dot_of_octetRegex hd]
  rw [isIPv4, Bool.and_eq_true_iff, dottedRegex_iff]
  constructor
  · rintro ⟨⟨a, b, c, d, ha, hb, hc, hd, rfl⟩, hrange⟩
    rw [hparts ha hb hc hd] at hrange
    simp only [List.all_cons, List.all_nil, Bool.and_true, Bool.and_eq_true_iff] at hrange
    obtain ⟨ra, rb, rc, rd⟩ := hrange
    exact ⟨a, b, c, d, (isOctet_iff a).mp ⟨ha, ra⟩, (isOctet_iff b).mp ⟨hb, rb⟩,
      (isOctet_iff c).mp ⟨hc, rc⟩, (isOctet_iff d).mp ⟨hd, rd⟩, rfl⟩
  · rintro ⟨a, b, c, d, ha, hb, hc, hd, rfl⟩
    obtain ⟨ha, ra⟩ := (isOctet_iff a).mpr ha
    obtain ⟨hb, rb⟩ := (isOctet_iff b).mpr hb
    obtain ⟨hc, rc⟩ := (isOctet_iff c).mpr hc
    obtain ⟨hd, rd⟩ := (isOctet_iff d).mpr hd
    refine ⟨⟨a, b, c, d, ha, hb, hc, hd, rfl⟩, ?_⟩
    rw [hparts ha hb hc hd]
    simp only [List.all_cons, List.all_nil, Bool.and_true, Bool.and_eq_true_iff]
    exact ⟨ra, rb, rc, rd⟩

/-! ## A dotted tail -/

/-- A text that `[0-9.]+` matches. -/
def IsTail (t : Bytes) : Prop := t ≠ [] ∧ ∀ b ∈ t, isDigit b = true ∨ b = chr '.'

theorem headRegex_iff (s : Bytes) : headRegex.rmatch s = true ↔ ∃ pre, s = pre ++ [chr ':'] := by
  rw [headRegex, mul_rmatch_iff]
  constructor
  · rintro ⟨pre, t, rfl, -, ht⟩
    rw [char_rmatch_iff] at ht
    exact ⟨pre, by rw [ht]⟩
  · rintro ⟨pre, rfl⟩
    refine ⟨pre, [chr ':'], rfl, Regex.star_oneOf_rmatch_iff.mpr ?_, by rw [char_rmatch_iff]⟩
    intro b _
    exact List.mem_map.mpr ⟨b.toNat, List.mem_range.mpr b.toNat_lt, ofNat_toNat b⟩

theorem tailRegex_iff (t : Bytes) : tailRegex.rmatch t = true ↔ IsTail t := by
  have hclass : ∀ b, b ∈ zeroToNine ++ str "." ↔ isDigit b = true ∨ b = chr '.' := by
    intro b
    rw [List.mem_append, mem_zeroToNine_iff]
    exact or_congr_right List.mem_singleton
  rw [tailRegex, mul_rmatch_iff]
  constructor
  · rintro ⟨u, v, rfl, hu, hv⟩
    obtain ⟨c, hc, rfl⟩ := Regex.oneOf_rmatch_iff.mp hu
    refine ⟨List.cons_ne_nil c v, List.forall_mem_cons.mpr ⟨(hclass c).mp hc, ?_⟩⟩
    intro b hb
    exact (hclass b).mp (Regex.star_oneOf_rmatch_iff.mp hv b hb)
  · rintro ⟨hne, hall⟩
    obtain ⟨c, v, rfl⟩ := List.exists_cons_of_ne_nil hne
    obtain ⟨hc, hv⟩ := List.forall_mem_cons.mp hall
    refine ⟨[c], v, rfl, Regex.oneOf_rmatch_iff.mpr ⟨c, (hclass c).mpr hc, rfl⟩, ?_⟩
    exact Regex.star_oneOf_rmatch_iff.mpr fun b hb => (hclass b).mpr (hv b hb)

theorem split_of_not_mem {s : Bytes} {c : UInt8} (h : c ∉ s) : split s c = [s] := by
  have hsplit : split (join [s] c) c = [s] :=
    split_join (List.cons_ne_nil s []) (List.forall_mem_singleton.mpr h)
  rwa [join_singleton] at hsplit

/-- The last occurrence of a byte divides a text in one way. -/
theorem last_unique {c : UInt8} {p q s t : Bytes} (hs : c ∉ s) (ht : c ∉ t)
    (h : p ++ c :: s = q ++ c :: t) : p = q ∧ s = t := by
  have hsplit : split p c ++ [s] = split q c ++ [t] := by
    rw [← split_of_not_mem hs, ← split_of_not_mem ht, ← split_append_cons, ← split_append_cons, h]
  obtain ⟨hpq, hst⟩ := List.append_inj' hsplit rfl
  refine ⟨?_, List.singleton_inj.mp hst⟩
  rw [← join_split p c, hpq, join_split]

theorem IsTail.not_colon {t : Bytes} (h : IsTail t) : chr ':' ∉ t := by
  intro hmem
  rcases h.2 _ hmem with hdigit | hdot
  · revert hdigit
    decide
  · revert hdot
    decide

theorem isTail_of_isIPv4 {t : Bytes} (h : IsIPv4 t) : IsTail t := by
  obtain ⟨a, b, c, d, ha, hb, hc, hd, rfl⟩ := h
  have hoctet : ∀ {s : Bytes}, IsOctet s → ∀ b ∈ s, isDigit b = true ∨ b = chr '.' := by
    rintro s ⟨n, -, rfl⟩ b hb
    exact Or.inl (natDigits_isDigit n b hb)
  refine ⟨by simp [join], ?_⟩
  intro x hx
  simp only [join, List.intercalate, List.intersperse, List.flatten_cons, List.flatten_nil,
    List.append_nil, List.mem_append, List.mem_singleton] at hx
  rcases hx with hx | hx | hx | hx | hx | hx | hx
  · exact hoctet ha x hx
  · exact Or.inr hx
  · exact hoctet hb x hx
  · exact Or.inr hx
  · exact hoctet hc x hx
  · exact Or.inr hx
  · exact hoctet hd x hx

theorem matchPair_iff (s p t : Bytes) :
    Regex.matchPair headRegex tailRegex s = some (p, t) ↔
      ∃ pre, p = pre ++ [chr ':'] ∧ s = pre ++ chr ':' :: t ∧ IsTail t := by
  constructor
  · intro h
    obtain ⟨rfl, hhead, htail⟩ := Regex.of_matchPair_eq_some h
    obtain ⟨pre, rfl⟩ := (headRegex_iff p).mp hhead
    exact ⟨pre, rfl, by simp, (tailRegex_iff t).mp htail⟩
  · rintro ⟨pre, rfl, rfl, ht⟩
    have hsome := Regex.matchPair_isSome ((headRegex_iff _).mpr ⟨pre, rfl⟩) ((tailRegex_iff t).mpr ht)
    obtain ⟨⟨q, u⟩, hqu⟩ := Option.isSome_iff_exists.mp hsome
    obtain ⟨heq, hhead, htail⟩ := Regex.of_matchPair_eq_some hqu
    obtain ⟨pre', rfl⟩ := (headRegex_iff q).mp hhead
    rw [List.append_assoc, List.append_assoc] at heq
    obtain ⟨rfl, rfl⟩ := last_unique ht.not_colon ((tailRegex_iff u).mp htail).not_colon heq
    rw [List.append_assoc] at hqu
    exact hqu

/-! ## The tail replaced by two groups -/

theorem isGroup_zero : IsGroup (str "0") := ⟨by decide, by decide, by decide⟩

theorem join_zeros : join [str "0", str "0"] (chr ':') = str "0:0" := by decide

theorem not_mem_join {gs : List Bytes} {c : UInt8} (hgs : ∀ g ∈ gs, c ∉ g) (hc : c ≠ chr ':') :
    c ∉ join gs (chr ':') := by
  induction gs with
  | nil => exact List.not_mem_nil
  | cons g gs ih =>
    obtain ⟨hg, hgs⟩ := List.forall_mem_cons.mp hgs
    by_cases hnil : gs = []
    · subst hnil
      rwa [join_singleton]
    · rw [join_cons g hnil, List.mem_append, List.mem_cons]
      rintro (hmem | hmem | hmem)
      · exact hg hmem
      · exact hc hmem
      · exact ih hgs hmem

theorem not_dot_of_groups {gs : List Bytes} (hgs : ∀ g ∈ gs, IsGroup g) :
    chr '.' ∉ join gs (chr ':') :=
  not_mem_join (fun g hg => (hgs g hg).not_mem (by decide)) (by decide)

theorem not_dot_of_sides {left right : Bytes} (hleft : chr '.' ∉ left) (hright : chr '.' ∉ right) :
    chr '.' ∉ left ++ str "::" ++ right := by
  have hcolons : chr '.' ∉ str "::" := by decide
  simp [hleft, hright, hcolons]

theorem IsHex.not_dot {s : Bytes} (h : IsHex s) : chr '.' ∉ s := by
  rcases h with ⟨gs, hgs, -, rfl⟩ | ⟨left, right, hleft, hright, -, rfl⟩
  · exact not_dot_of_groups hgs
  · exact not_dot_of_sides (not_dot_of_groups hleft) (not_dot_of_groups hright)

theorem IsHex.isIPv6 {s : Bytes} (h : IsHex s) : IsIPv6 s := by
  rcases h with ⟨gs, hgs, hlen, rfl⟩ | ⟨left, right, hleft, hright, hlen, rfl⟩
  · refine Or.inl ⟨gs, ?_, rfl⟩
    rw [← hlen]
    exact .hex hgs
  · exact Or.inr ⟨left, right, right.length, hleft, .hex hright, by omega, rfl⟩

theorem isGroups_cases {gs : List Bytes} {n : Nat} (h : IsGroups gs n) :
    ((∀ g ∈ gs, IsGroup g) ∧ gs.length = n) ∨
      ∃ init t, (∀ g ∈ init, IsGroup g) ∧ IsIPv4 t ∧ gs = init ++ [t] ∧ init.length + 2 = n := by
  cases h with
  | hex h => exact Or.inl ⟨h, rfl⟩
  | @tail init t h ht => exact Or.inr ⟨init, t, h, ht, rfl, rfl⟩

theorem forall_isGroup_zeros {gs : List Bytes} (h : ∀ g ∈ gs, IsGroup g) :
    ∀ g ∈ gs ++ [str "0", str "0"], IsGroup g := by
  refine List.forall_mem_append.mpr ⟨h, ?_⟩
  simp [isGroup_zero]

theorem mem_join {gs : List Bytes} {g : Bytes} {c : UInt8} (hg : g ∈ gs) (hc : c ∈ g) :
    c ∈ join gs (chr ':') := by
  induction gs with
  | nil => cases hg
  | cons first gs ih =>
    by_cases hnil : gs = []
    · subst hnil
      rw [join_singleton, ← List.mem_singleton.mp hg]
      exact hc
    · rw [join_cons first hnil, List.mem_append, List.mem_cons]
      rcases List.mem_cons.mp hg with rfl | hg
      · exact Or.inl hc
      · exact Or.inr (Or.inr (ih hg))

theorem dot_mem_join_tail {init : List Bytes} {t : Bytes} (ht : IsIPv4 t) :
    chr '.' ∈ join (init ++ [t]) (chr ':') := by
  refine mem_join (List.mem_append_right init List.mem_cons_self) ?_
  obtain ⟨a, rest, -, rfl⟩ := ht.exists_octet
  exact List.mem_append_right a List.mem_cons_self

theorem isHex_of_not_dot {s : Bytes} (h : IsIPv6 s) (hdot : chr '.' ∉ s) : IsHex s := by
  rcases h with ⟨gs, hgs, rfl⟩ | ⟨left, right, n, hleft, hright, hle, rfl⟩
  · rcases isGroups_cases hgs with ⟨hhex, hlen⟩ | ⟨init, t, -, ht, rfl, -⟩
    · exact Or.inl ⟨gs, hhex, hlen, rfl⟩
    · exact absurd (dot_mem_join_tail ht) hdot
  · rcases isGroups_cases hright with ⟨hhex, hlen⟩ | ⟨init, t, -, ht, rfl, -⟩
    · exact Or.inr ⟨left, right, hleft, hhex, by omega, rfl⟩
    · exact absurd (List.mem_append_right _ (dot_mem_join_tail ht)) hdot

/-- An address with a dotted tail, and the address with two groups in its place. -/
theorem exists_tail_of_isIPv6 {s : Bytes} (h : IsIPv6 s) (hdot : chr '.' ∈ s) :
    ∃ pre t, s = pre ++ chr ':' :: t ∧ IsIPv4 t ∧ IsHex (pre ++ chr ':' :: str "0:0") := by
  rcases h with ⟨gs, hgs, rfl⟩ | ⟨left, right, n, hleft, hright, hle, rfl⟩
  · rcases isGroups_cases hgs with ⟨hhex, -⟩ | ⟨init, t, hinit, ht, rfl, hlen⟩
    · exact absurd hdot (not_dot_of_groups hhex)
    · have hne : init ≠ [] := by
        rintro rfl
        simp at hlen
      refine ⟨join init (chr ':'), t, ?_, ht, Or.inl ⟨init ++ [str "0", str "0"], ?_, ?_, ?_⟩⟩
      · rw [join_append hne (List.cons_ne_nil t []), join_singleton]
      · exact forall_isGroup_zeros hinit
      · simpa using hlen
      · rw [join_append hne (List.cons_ne_nil _ _), join_zeros]
  · rcases isGroups_cases hright with ⟨hhex, -⟩ | ⟨init, t, hinit, ht, rfl, hlen⟩
    · exact absurd hdot (not_dot_of_sides (not_dot_of_groups hleft) (not_dot_of_groups hhex))
    · have hcount : left.length + (init ++ [str "0", str "0"]).length < 8 := by
        simp only [List.length_append, List.length_cons, List.length_nil]
        omega
      by_cases hnil : init = []
      · subst hnil
        refine ⟨join left (chr ':') ++ [chr ':'], t, ?_, ht, Or.inr ⟨left, [str "0", str "0"],
          hleft, forall_isGroup_zeros hinit, hcount, ?_⟩⟩
        · rw [List.nil_append, join_singleton, List.append_assoc, List.append_assoc]
          rfl
        · rw [join_zeros, List.append_assoc, List.append_assoc]
          rfl
      · refine ⟨join left (chr ':') ++ str "::" ++ join init (chr ':'), t, ?_, ht,
          Or.inr ⟨left, init ++ [str "0", str "0"], hleft, forall_isGroup_zeros hinit, hcount, ?_⟩⟩
        · rw [join_append hnil (List.cons_ne_nil t []), join_singleton]
          simp
        · rw [join_append hnil (List.cons_ne_nil _ _), join_zeros]
          simp

/-- Fields that end in two zeros, cut after an empty one. -/
theorem exists_append_zeros {fields first right : List Bytes}
    (h : fields ++ [str "0", str "0"] = first ++ [] :: right) :
    ∃ init, right = init ++ [str "0", str "0"] ∧ fields = first ++ [] :: init := by
  rcases List.eq_nil_or_concat' right with rfl | ⟨right, x, rfl⟩
  · have hlast : fields ++ [str "0"] ++ [str "0"] = first ++ [[]] := by simpa using h
    cases (List.append_inj' hlast rfl).2
  · have hlast : fields ++ [str "0"] ++ [str "0"] = (first ++ [] :: right) ++ [x] := by simpa using h
    obtain ⟨hrest, hx⟩ := List.append_inj' hlast rfl
    cases hx
    rcases List.eq_nil_or_concat' right with rfl | ⟨right, y, rfl⟩
    · cases (List.append_inj' hrest rfl).2
    · have hnext : fields ++ [str "0"] = (first ++ [] :: right) ++ [y] := by simpa using hrest
      obtain ⟨hfields, hy⟩ := List.append_inj' hnext rfl
      cases hy
      exact ⟨right, by simp, hfields⟩

theorem split_join_groups {gs : List Bytes} (hgs : ∀ g ∈ gs, IsGroup g) (hne : gs ≠ []) :
    split (join gs (chr ':')) (chr ':') = gs :=
  split_join hne fun g hg => (hgs g hg).not_mem (by decide)

theorem split_pre_zeros (pre : Bytes) :
    split (pre ++ chr ':' :: str "0:0") (chr ':') = split pre (chr ':') ++ [str "0", str "0"] := by
  rw [split_append_cons]
  congr 1

theorem split_ne_nil (s : Bytes) (c : UInt8) : split s c ≠ [] := List.splitOnP_ne_nil _ _

theorem append_tail_eq_join (pre t : Bytes) :
    pre ++ chr ':' :: t = join (split pre (chr ':') ++ [t]) (chr ':') := by
  rw [join_append (split_ne_nil pre _) (List.cons_ne_nil t []), join_split, join_singleton]

theorem isIPv6_of_tail {pre t : Bytes} (ht : IsIPv4 t) (h : IsHex (pre ++ chr ':' :: str "0:0")) :
    IsIPv6 (pre ++ chr ':' :: t) := by
  rcases h with ⟨gs, hgs, hlen, heq⟩ | ⟨left, right, hleft, hright, hlen, heq⟩
  · have hfields : split pre (chr ':') ++ [str "0", str "0"] = gs := by
      have hne : gs ≠ [] := by
        rintro rfl
        simp at hlen
      rw [← split_pre_zeros, heq, split_join_groups hgs hne]
    subst hfields
    obtain ⟨hpre, -⟩ := List.forall_mem_append.mp hgs
    refine Or.inl ⟨split pre (chr ':') ++ [t], ?_, append_tail_eq_join pre t⟩
    have hgroups := IsGroups.tail hpre ht
    rw [List.length_append] at hlen
    rwa [show (split pre (chr ':')).length + 2 = 8 from hlen] at hgroups
  · -- the text after the `::` is not empty, so its fields are the groups on the right
    have hsides : split pre (chr ':') ++ [str "0", str "0"] =
        split (join left (chr ':')) (chr ':') ++ [] :: split (join right (chr ':')) (chr ':') := by
      have hcolons : join left (chr ':') ++ str "::" ++ join right (chr ':') =
          join left (chr ':') ++ chr ':' :: ([] ++ chr ':' :: join right (chr ':')) := by
        rw [List.append_assoc]
        rfl
      rw [← split_pre_zeros, heq, hcolons, split_append_cons, split_append_cons]
      rfl
    obtain ⟨init, hinit, hfields⟩ := exists_append_zeros hsides
    have hne : right ≠ [] := by
      rintro rfl
      have hempty : split (join ([] : List Bytes) (chr ':')) (chr ':') = [[]] := rfl
      rw [hempty] at hinit
      have hlength := congrArg List.length hinit
      simp at hlength
    rw [split_join_groups hright hne] at hinit
    subst hinit
    obtain ⟨hgroups, -⟩ := List.forall_mem_append.mp hright
    refine Or.inr ⟨left, init ++ [t], init.length + 2, hleft, .tail hgroups ht, ?_, ?_⟩
    · rw [List.length_append] at hlen
      simp at hlen
      omega
    · rw [append_tail_eq_join, hfields, List.append_assoc,
        join_append (split_ne_nil _ _) (by simp), join_split, List.cons_append,
        join_cons [] (by simp), List.append_assoc]
      rfl

/-! ## The check and the text forms -/

theorem isIPv6_eq (s : Bytes) :
    isIPv6 s = (((embedded s).all fun parts => isIPv4 parts.2) && counted (normalized s)) := by
  rw [isIPv6, counted, Bool.and_assoc]

theorem isIPv6_of_not_embedded {s : Bytes} (h : embedded s = none) :
    isIPv6 s = true ↔ IsHex s := by
  rw [isIPv6_eq, normalized, h, ← counted_iff]
  simp

theorem isIPv6_iff (s : Bytes) : isIPv6 s = true ↔ IsIPv6 s := by
  by_cases hdot : chr '.' ∈ s
  · cases hmatch : Regex.matchPair headRegex tailRegex s with
    | none =>
      have hnone : embedded s = none := by rw [embedded, if_pos hdot, hmatch]
      rw [isIPv6_of_not_embedded hnone]
      refine iff_of_false (fun h => h.not_dot hdot) ?_
      intro h
      obtain ⟨pre, t, heq, ht, -⟩ := exists_tail_of_isIPv6 h hdot
      have hsome := (matchPair_iff s _ t).mpr ⟨pre, rfl, heq, isTail_of_isIPv4 ht⟩
      rw [hmatch] at hsome
      cases hsome
    | some parts =>
      obtain ⟨p, t⟩ := parts
      obtain ⟨pre, rfl, heq, htail⟩ := (matchPair_iff s p t).mp hmatch
      have hsome : embedded s = some (pre ++ [chr ':'], t) := by rw [embedded, if_pos hdot, hmatch]
      have hnormal : normalized s = pre ++ chr ':' :: str "0:0" := by
        rw [normalized, hsome]
        exact List.append_assoc _ _ _
      have hcheck : isIPv6 s = true ↔ IsIPv4 t ∧ IsHex (pre ++ chr ':' :: str "0:0") := by
        rw [isIPv6_eq, hnormal, hsome, Option.all_some, Bool.and_eq_true_iff, isIPv4_iff,
          counted_iff]
      rw [hcheck]
      constructor
      · rintro ⟨ht, hhex⟩
        rw [heq]
        exact isIPv6_of_tail ht hhex
      · intro h
        obtain ⟨pre', t', heq', ht', hhex⟩ := exists_tail_of_isIPv6 h hdot
        obtain ⟨rfl, rfl⟩ := last_unique htail.not_colon (isTail_of_isIPv4 ht').not_colon
          (heq.symm.trans heq')
        exact ⟨ht', hhex⟩
  · have hnone : embedded s = none := if_neg hdot
    rw [isIPv6_of_not_embedded hnone]
    exact ⟨IsHex.isIPv6, fun h => isHex_of_not_dot h hdot⟩

/-- The check accepts the textual IPv4 and IPv6 addresses, which are the texts `ParseAddr` accepts
without a zone. -/
theorem literalIP_iff (s : Bytes) :
    (literalIP s = true ↔ IsIPv4 s ∨ IsIPv6 s) ∧
      (literalIP s = true ↔ ∃ a, parseAddr s = some a ∧ a.zone = []) := by
  have hcheck : literalIP s = true ↔ IsIPv4 s ∨ IsIPv6 s := by
    rw [literalIP, Bool.or_eq_true_iff, isIPv4_iff, isIPv6_iff]
  exact ⟨hcheck, hcheck.trans (parseAddr_iff s).symm⟩

end RealmFormal.Nix.LiteralIP

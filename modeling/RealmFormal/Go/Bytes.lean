import Mathlib.Data.Nat.Digits.Defs
import Mathlib.Data.Nat.Digits.Lemmas
import Mathlib.Tactic.Linarith

/-!
# Byte strings

A Go string is a sequence of bytes, not of characters, so both `string` and
`[]byte` are lists of bytes here. Literals are written with `str` and are ASCII.
-/

namespace Go
set_option autoImplicit false

abbrev Bytes := List UInt8

instance : LawfulBEq Bytes := inferInstanceAs (LawfulBEq (List UInt8))

/-- An ASCII literal. -/
def str (s : String) : Bytes := s.toList.map fun c => UInt8.ofNat c.toNat

/-- A byte string inside an error text. -/
def text (s : Bytes) : String := String.ofList (s.map fun b => Char.ofNat b.toNat)

/-- The byte of an ASCII character. -/
def chr (c : Char) : UInt8 := UInt8.ofNat c.toNat

def hasPrefix (s p : Bytes) : Bool := p.isPrefixOf s

def hasSuffix (s p : Bytes) : Bool := p.isSuffixOf s

def trimPrefix (s p : Bytes) : Bytes := if hasPrefix s p then s.drop p.length else s

/-- `strings.Split` by one byte. -/
def split (s : Bytes) (sep : UInt8) : List Bytes := s.splitOn sep

/-- `strings.Join` by one byte. -/
def join (parts : List Bytes) (sep : UInt8) : Bytes := [sep].intercalate parts

@[simp] theorem hasPrefix_append (p s : Bytes) : hasPrefix (p ++ s) p = true := by
  simp [hasPrefix]

@[simp] theorem trimPrefix_append (p s : Bytes) : trimPrefix (p ++ s) p = s := by
  simp [trimPrefix]

/-- A piece of a split is taken from the list and has no separator. -/
theorem of_mem_splitOnP {α : Type} {p : α → Bool} {l piece : List α} (h : piece ∈ l.splitOnP p) :
    ∀ x ∈ piece, x ∈ l ∧ p x = false := by
  induction l generalizing piece with
  | nil =>
    rw [List.splitOnP_nil, List.mem_singleton] at h
    simp [h]
  | cons y l ih =>
    have hlater : ∀ {later}, later ∈ l.splitOnP p → ∀ x ∈ later, x ∈ y :: l ∧ p x = false :=
      fun hmem x hx => (ih hmem x hx).imp_left (List.mem_cons_of_mem y)
    rw [List.splitOnP_cons_eq_if_modifyHead] at h
    split at h
    · rcases List.mem_cons.mp h with rfl | h
      · simp
      · exact hlater h
    · rename_i hy
      obtain ⟨first, rest, heq⟩ := List.exists_cons_of_ne_nil (List.splitOnP_ne_nil p l)
      rw [heq] at h hlater
      rcases List.mem_cons.mp h with rfl | h
      · exact List.forall_mem_cons.mpr
          ⟨⟨List.mem_cons_self, Bool.eq_false_iff.mpr hy⟩, hlater List.mem_cons_self⟩
      · exact hlater (List.mem_cons_of_mem _ h)

/-- What is no separator is in one of the pieces. -/
theorem exists_mem_splitOnP {α : Type} {p : α → Bool} {l : List α} {x : α} (hx : x ∈ l)
    (hp : p x = false) : ∃ piece ∈ l.splitOnP p, x ∈ piece := by
  induction l with
  | nil => cases hx
  | cons y l ih =>
    rw [List.splitOnP_cons_eq_if_modifyHead]
    obtain ⟨first, rest, heq⟩ := List.exists_cons_of_ne_nil (List.splitOnP_ne_nil p l)
    split
    · rename_i hy
      rcases List.mem_cons.mp hx with rfl | hx
      · rw [hp] at hy
        cases hy
      · obtain ⟨piece, hpiece, hmem⟩ := ih hx
        exact ⟨piece, List.mem_cons_of_mem _ hpiece, hmem⟩
    · rw [heq, List.modifyHead_cons]
      rcases List.mem_cons.mp hx with rfl | hx
      · exact ⟨_, List.mem_cons_self, List.mem_cons_self⟩
      · obtain ⟨piece, hpiece, hmem⟩ := ih hx
        rw [heq] at hpiece
        rcases List.mem_cons.mp hpiece with rfl | hpiece
        · exact ⟨_, List.mem_cons_self, List.mem_cons_of_mem _ hmem⟩
        · exact ⟨piece, List.mem_cons_of_mem _ hpiece, hmem⟩

theorem not_mem_of_mem_split {s part : Bytes} {sep : UInt8} (h : part ∈ split s sep) :
    sep ∉ part := by
  intro hsep
  have hne := (of_mem_splitOnP h sep hsep).2
  simp at hne

theorem join_split (s : Bytes) (sep : UInt8) : join (split s sep) sep = s :=
  List.intercalate_splitOn sep

theorem split_join {parts : List Bytes} {sep : UInt8} (hne : parts ≠ [])
    (h : ∀ part ∈ parts, sep ∉ part) : split (join parts sep) sep = parts :=
  List.splitOn_intercalate sep h hne

theorem split_append_cons (s t : Bytes) (sep : UInt8) :
    split (s ++ sep :: t) sep = split s sep ++ split t sep :=
  List.splitOnP_append_cons s t (beq_self_eq_true sep)

theorem join_append {parts rest : List Bytes} {sep : UInt8} (hparts : parts ≠ [])
    (hrest : rest ≠ []) : join (parts ++ rest) sep = join parts sep ++ sep :: join rest sep := by
  unfold join
  induction parts with
  | nil => exact absurd rfl hparts
  | cons part parts ih =>
    rw [List.cons_append, List.intercalate_cons_of_ne_nil (by simp [hrest])]
    cases parts with
    | nil => simp
    | cons next parts =>
      rw [ih (List.cons_ne_nil _ _), List.intercalate_cons_of_ne_nil (List.cons_ne_nil _ _)]
      simp only [List.append_assoc]

def isDigit (b : UInt8) : Bool := decide (48 ≤ b.toNat ∧ b.toNat ≤ 57)

def isLower (b : UInt8) : Bool := decide (97 ≤ b.toNat ∧ b.toNat ≤ 122)

def isUpper (b : UInt8) : Bool := decide (65 ≤ b.toNat ∧ b.toNat ≤ 90)

theorem toNat_ofNat {n : Nat} (h : n < 256) : (UInt8.ofNat n).toNat = n := by
  simp [Nat.mod_eq_of_lt h]

theorem ofNat_toNat (b : UInt8) : UInt8.ofNat b.toNat = b := by simp

/-- A fact about bytes is a fact about 256 numbers. -/
theorem byte_forall {P : UInt8 → Prop} (h : ∀ n < 256, P (UInt8.ofNat n)) (b : UInt8) : P b := by
  have := h b.toNat b.toNat_lt
  rwa [ofNat_toNat] at this

/-- Decimal digits, most significant first, as `strconv.Itoa` writes them. -/
def natDigits (n : Nat) : Bytes :=
  if n = 0 then [48] else (Nat.digits 10 n).reverse.map fun d => UInt8.ofNat (48 + d)

/-- `strconv.FormatInt` in base ten. -/
def itoa (n : Int) : Bytes :=
  match n with
  | .ofNat k => natDigits k
  | .negSucc k => chr '-' :: natDigits (k + 1)

/-- The value of a nonempty digit string. -/
def digitsValue (s : Bytes) : Option Nat :=
  if s ≠ [] ∧ s.all isDigit = true then
    some (s.foldl (fun v b => 10 * v + (b.toNat - 48)) 0)
  else none

/-- `strconv.ParseInt` with base ten and 64 bits, on text without underscores. -/
def parseInt64 (s : Bytes) : Option Int :=
  match s with
  | [] => none
  | c :: t =>
    if c = chr '-' then
      (digitsValue t).bind fun v => if v ≤ 2 ^ 63 then some (-(v : Int)) else none
    else if c = chr '+' then
      (digitsValue t).bind fun v => if v < 2 ^ 63 then some (v : Int) else none
    else (digitsValue s).bind fun v => if v < 2 ^ 63 then some (v : Int) else none

theorem natDigits_ne_nil (n : Nat) : natDigits n ≠ [] := by
  unfold natDigits
  split
  · simp
  · rename_i h
    simpa [Nat.digits_ne_nil_iff_ne_zero] using h

theorem natDigits_isDigit (n : Nat) : ∀ b ∈ natDigits n, isDigit b = true := by
  intro b hb
  unfold natDigits at hb
  split at hb
  · simp only [List.mem_singleton] at hb
    subst hb
    decide
  · obtain ⟨d, hd, rfl⟩ := List.mem_map.mp hb
    have hlt : d < 10 := Nat.digits_lt_base (by omega) (List.mem_reverse.mp hd)
    simp only [isDigit, toNat_ofNat (show 48 + d < 256 by omega), decide_eq_true_eq]
    omega

/-- A positive number has no leading zero. -/
theorem natDigits_head {n : Nat} (h : n ≠ 0) :
    ∃ b t, natDigits n = b :: t ∧ 49 ≤ b.toNat ∧ b.toNat ≤ 57 := by
  have hne : Nat.digits 10 n ≠ [] := Nat.digits_ne_nil_iff_ne_zero.mpr h
  obtain ⟨ds, d, hd⟩ : ∃ ds d, Nat.digits 10 n = ds ++ [d] :=
    ⟨_, _, (List.dropLast_append_getLast hne).symm⟩
  have hlast : d ≠ 0 := by
    have hz := Nat.getLast_digit_ne_zero 10 h
    simpa [hd] using hz
  have hlt : d < 10 := Nat.digits_lt_base (b := 10) (m := n) (by omega) (by simp [hd])
  refine ⟨UInt8.ofNat (48 + d), (ds.reverse.map fun d => UInt8.ofNat (48 + d)), ?_, ?_⟩
  · simp [natDigits, h, hd]
  · rw [toNat_ofNat (by omega)]
    omega

theorem natDigits_length {n k : Nat} (hk : 0 < k) (h : n < 10 ^ k) : (natDigits n).length ≤ k := by
  unfold natDigits
  split
  · simp only [List.length_singleton]
    omega
  · simpa using (Nat.digits_length_le_iff (by omega) n).mpr h

theorem foldl_digits (ds : List Nat) (h : ∀ d ∈ ds, d < 10) :
    (ds.reverse.map fun d => UInt8.ofNat (48 + d)).foldl (fun v b => 10 * v + (b.toNat - 48)) 0 =
      Nat.ofDigits 10 ds := by
  induction ds with
  | nil => rfl
  | cons d ds ih =>
    have hd : d < 10 := h d List.mem_cons_self
    simp only [List.reverse_cons, List.map_append, List.map_cons, List.map_nil, List.foldl_append,
      List.foldl_cons, List.foldl_nil, ih fun x hx => h x (List.mem_cons_of_mem d hx),
      toNat_ofNat (show 48 + d < 256 by omega), Nat.ofDigits_cons]
    omega

theorem digitsValue_natDigits (n : Nat) : digitsValue (natDigits n) = some n := by
  have hall : (natDigits n).all isDigit = true := List.all_eq_true.mpr (natDigits_isDigit n)
  unfold digitsValue
  rw [if_pos ⟨natDigits_ne_nil n, hall⟩]
  unfold natDigits
  split
  · rename_i h
    subst h
    rfl
  · rw [foldl_digits _ fun d hd => Nat.digits_lt_base (by omega) hd, Nat.ofDigits_digits]

/-- The range of a Go `int64`. -/
def FitsInt64 (n : Int) : Prop := -(2 ^ 63) ≤ n ∧ n < 2 ^ 63

instance (n : Int) : Decidable (FitsInt64 n) := inferInstanceAs (Decidable (_ ∧ _))

theorem parseInt64_fits {s : Bytes} {n : Int} (h : parseInt64 s = some n) : FitsInt64 n := by
  unfold FitsInt64
  cases s with
  | nil => cases h
  | cons c t =>
    rw [parseInt64] at h
    split at h
    · obtain ⟨v, -, hv⟩ := Option.bind_eq_some_iff.mp h
      split at hv <;> cases hv
      omega
    · split at h
      all_goals
        obtain ⟨v, -, hv⟩ := Option.bind_eq_some_iff.mp h
        split at hv <;> cases hv
        omega

theorem digit_ne_sign {b : UInt8} (h : isDigit b = true) : b ≠ chr '-' ∧ b ≠ chr '+' := by
  simp only [isDigit, decide_eq_true_eq] at h
  constructor
  · rintro rfl
    exact absurd h (by decide)
  · rintro rfl
    exact absurd h (by decide)

theorem itoa_length {n : Int} (h : FitsInt64 n) : (itoa n).length ≤ 20 := by
  obtain ⟨hlo, hhi⟩ := h
  cases n with
  | ofNat k =>
    have hk : (k : Int) < 2 ^ 63 := hhi
    have hdigits : (natDigits k).length ≤ 19 := natDigits_length (by decide) (by omega)
    simp only [itoa]
    omega
  | negSucc k =>
    have hdigits : (natDigits (k + 1)).length ≤ 19 := natDigits_length (by decide) (by omega)
    simp only [itoa, List.length_cons]
    omega

/-- Formatting and parsing agree on the whole range. -/
theorem parseInt64_itoa {n : Int} (h : FitsInt64 n) : parseInt64 (itoa n) = some n := by
  obtain ⟨hlo, hhi⟩ := h
  cases n with
  | ofNat k =>
    have hk : k < 2 ^ 63 := by
      have : (k : Int) < 2 ^ 63 := hhi
      exact_mod_cast this
    have hv := digitsValue_natDigits k
    obtain ⟨b, t, hbt⟩ := List.exists_cons_of_ne_nil (natDigits_ne_nil k)
    have hb := digit_ne_sign (natDigits_isDigit k b (by simp [hbt]))
    simp only [itoa, parseInt64, hbt, if_neg hb.1, if_neg hb.2]
    rw [← hbt, hv, Option.bind_some, if_pos hk]
    rfl
  | negSucc k =>
    have hk : k + 1 ≤ 2 ^ 63 := by
      have : -(2 ^ 63) ≤ Int.negSucc k := hlo
      omega
    simp only [itoa, parseInt64, if_pos, digitsValue_natDigits, Option.bind_some, if_pos hk]
    rfl

end Go

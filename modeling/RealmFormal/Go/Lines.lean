import RealmFormal.Go.Bufio
import RealmFormal.Go.JsonString
import RealmFormal.Go.Quote

/-!
# Printed lines

A text that is printed line by line has these lines when it is read, if nothing that
is printed into a line has a newline. Quoted strings have none: `strconv.Quote`
escapes it.
-/

namespace Go.Lines
open Bufio Json
set_option autoImplicit false

def OneLine (s : Bytes) : Prop := (10 : UInt8) ∉ s

instance (s : Bytes) : Decidable (OneLine s) := inferInstanceAs (Decidable ((10 : UInt8) ∉ s))

theorem OneLine.append {s t : Bytes} (hs : OneLine s) (ht : OneLine t) : OneLine (s ++ t) := by
  intro h
  rcases List.mem_append.mp h with h | h
  · exact hs h
  · exact ht h

theorem OneLine.cons {b : UInt8} {s : Bytes} (hb : b ≠ 10) (hs : OneLine s) : OneLine (b :: s) := by
  intro h
  rcases List.mem_cons.mp h with h | h
  · exact hb h.symm
  · exact hs h

theorem OneLine.join {parts : List Bytes} {sep : UInt8} (hsep : sep ≠ 10)
    (h : ∀ part ∈ parts, OneLine part) : OneLine (join parts sep) := by
  induction parts with
  | nil => exact List.not_mem_nil
  | cons part parts ih =>
    obtain ⟨hpart, hparts⟩ := List.forall_mem_cons.mp h
    cases parts with
    | nil => simpa [Go.join] using hpart
    | cons next parts =>
      have hjoin : Go.join (part :: next :: parts) sep =
          part ++ sep :: Go.join (next :: parts) sep := by
        simp [Go.join, List.intercalate]
      rw [hjoin]
      exact hpart.append (.cons hsep (ih hparts))

/-! ## Literals

A literal is its list of characters by definition, so that what has to be computed about
its bytes is computed on this list. -/

theorem str_ofList (l : List Char) : str (String.ofList l) = l.map chr := by
  rw [str, String.toList_ofList]
  rfl

theorem forall_mem_str {s : String} {l : List Char} (h : s = String.ofList l) {P : UInt8 → Prop}
    (hl : ∀ c ∈ l, P (chr c)) : ∀ b ∈ str s, P b := by
  rw [h, str_ofList]
  exact List.forall_mem_map.mpr hl

theorem oneLine_str {s : String} {l : List Char} (h : s = String.ofList l)
    (hl : (l.all fun c => chr c != 10) = true) : OneLine (str s) := by
  have hbytes : ∀ b ∈ str s, b ≠ 10 :=
    forall_mem_str h fun c hc => bne_iff_ne.mp (List.all_eq_true.mp hl c hc)
  exact fun hmem => hbytes 10 hmem rfl

theorem head_str {s : String} {c : Char} {l : List Char} (h : s = String.ofList (c :: l)) :
    (str s).head? = some (chr c) := by
  rw [h, str_ofList, List.map_cons, List.head?_cons]

theorem str_ne {s t : String} {l k : List Char} (hs : s = String.ofList l)
    (ht : t = String.ofList k) (h : l.map chr ≠ k.map chr) : str s ≠ str t := by
  rwa [hs, ht, str_ofList, str_ofList]

/-! ## Numbers and quoted strings -/

theorem natDigits_oneLine (n : Nat) : OneLine (natDigits n) := by
  intro h
  have hdigit := natDigits_isDigit n _ h
  revert hdigit
  decide

theorem itoa_oneLine (n : Int) : OneLine (itoa n) := by
  cases n with
  | ofNat k => exact natDigits_oneLine k
  | negSucc k => exact .cons (by decide) (natDigits_oneLine (k + 1))

theorem hexLower_ne_newline {n : Nat} (h : n < 16) : hexLower n ≠ 10 := by
  revert n
  decide

theorem hexPair_oneLine (b : UInt8) : OneLine (hexPair b) := by
  have hlt := b.toNat_lt
  exact .cons (hexLower_ne_newline (by omega)) (.cons (hexLower_ne_newline (by omega))
    List.not_mem_nil)

theorem hexCode_oneLine (width code : Nat) : OneLine (hexCode width code) := by
  intro h
  obtain ⟨i, -, hi⟩ := List.mem_map.mp h
  exact hexLower_ne_newline (Nat.mod_lt _ (by decide)) hi

theorem quoteAscii_oneLine (b : UInt8) : OneLine (quoteAscii b) := by
  have hall : ∀ n < 256, OneLine (quoteAscii (UInt8.ofNat n)) := by decide +kernel
  have hb := hall b.toNat b.toNat_lt
  rwa [UInt8.ofNat_toNat] at hb

section Quote
variable (isPrint : Nat → Bool)

/-- A rune of more than one byte has no ASCII byte. -/
theorem quoteRune_oneLine {b : UInt8} {t : Bytes} {n : Nat} (h : runeLength (b :: t) = n + 1) :
    OneLine (quoteRune isPrint ((b :: t).take (n + 1))) := by
  unfold quoteRune
  split
  · exact quoteAscii_oneLine _
  · rename_i hlong
    split
    · intro hmem
      rw [List.take_succ_cons] at hmem
      rcases List.mem_cons.mp hmem with hb | ht
      · have hone : n = 0 := by simpa [runeLength, ← hb] using h.symm
        subst hone
        exact hlong b rfl
      · exact absurd (runeLength_tail h _ ht) (by decide)
    · split
      · exact OneLine.append (by decide) (hexCode_oneLine _ _)
      · exact OneLine.append (by decide) (hexCode_oneLine _ _)

theorem quoteBody_oneLine (n : Nat) (s : Bytes) : OneLine (quoteBody isPrint n s) := by
  fun_induction quoteBody isPrint n s with
  | case1 => exact List.not_mem_nil
  | case2 n b t ih => exact ih
  | case3 b t hzero ih =>
    have hmark : OneLine (str "\\x") := by decide
    exact (hmark.append (hexPair_oneLine b)).append ih
  | case4 b t n hrune ih => exact (quoteRune_oneLine isPrint hrune).append ih

theorem quote_oneLine (s : Bytes) : OneLine (quote isPrint s) :=
  OneLine.append (.cons (by decide) (quoteBody_oneLine isPrint 0 s)) (by decide)

end Quote

/-! ## Printing -/

/-- The text is printed as these lines, each with its newline. -/
structure Printed (text : Bytes) (parts : List Bytes) : Prop where
  flatten : text = parts.flatten
  whole : ∀ line ∈ parts, cutLine line = some (line, [])

theorem Printed.lines {text : Bytes} {parts : List Bytes} (h : Printed text parts) :
    lines text = parts := by
  rw [h.flatten]
  exact lines_flatten h.whole

theorem Printed.nil : Printed [] [] := ⟨rfl, by simp⟩

theorem Printed.append {s t : Bytes} {xs ys : List Bytes} (hs : Printed s xs) (ht : Printed t ys) :
    Printed (s ++ t) (xs ++ ys) where
  flatten := by rw [hs.flatten, ht.flatten, List.flatten_append]
  whole := List.forall_mem_append.mpr ⟨hs.whole, ht.whole⟩

theorem Printed.flatMap {A : Type} {xs : List A} {f : A → Bytes} {g : A → List Bytes}
    (h : ∀ x ∈ xs, Printed (f x) (g x)) : Printed (xs.flatMap f) (xs.flatMap g) := by
  induction xs with
  | nil => exact .nil
  | cons x xs ih =>
    obtain ⟨hx, hxs⟩ := List.forall_mem_cons.mp h
    rw [List.flatMap_cons, List.flatMap_cons]
    exact hx.append (ih hxs)

theorem cutLine_of_oneLine {s : Bytes} (h : OneLine s) :
    cutLine (s ++ [10]) = some (s ++ [10], []) := by
  induction s with
  | nil => rfl
  | cons b s ih =>
    obtain ⟨hb, hs⟩ := not_or.mp (mt List.mem_cons.mpr h)
    rw [List.cons_append, cutLine, if_neg (Ne.symm hb), ih hs]
    rfl

/-- The text is printed as lines that all have the property. -/
def PrintedAll (Q : Bytes → Prop) (text : Bytes) : Prop :=
  ∃ parts, Printed text parts ∧ ∀ line ∈ parts, Q line

section PrintedAll
variable {Q : Bytes → Prop}

theorem PrintedAll.nil : PrintedAll Q [] := ⟨[], .nil, by simp⟩

theorem PrintedAll.imp {R : Bytes → Prop} (h : ∀ line, Q line → R line) {text : Bytes}
    (htext : PrintedAll Q text) : PrintedAll R text := by
  obtain ⟨parts, hparts, hall⟩ := htext
  exact ⟨parts, hparts, fun line hline => h line (hall line hline)⟩

theorem PrintedAll.append {s t : Bytes} (hs : PrintedAll Q s) (ht : PrintedAll Q t) :
    PrintedAll Q (s ++ t) := by
  obtain ⟨xs, hxs, hQs⟩ := hs
  obtain ⟨ys, hys, hQt⟩ := ht
  exact ⟨xs ++ ys, hxs.append hys, List.forall_mem_append.mpr ⟨hQs, hQt⟩⟩

theorem PrintedAll.flatMap {A : Type} {xs : List A} {f : A → Bytes}
    (h : ∀ x ∈ xs, PrintedAll Q (f x)) : PrintedAll Q (xs.flatMap f) := by
  induction xs with
  | nil => exact .nil
  | cons x xs ih =>
    obtain ⟨hx, hxs⟩ := List.forall_mem_cons.mp h
    rw [List.flatMap_cons]
    exact hx.append (ih hxs)

end PrintedAll

theorem OneLine.printed {s : Bytes} (h : OneLine s) : Printed (s ++ [10]) [s ++ [10]] where
  flatten := by simp
  whole := List.forall_mem_singleton.mpr (cutLine_of_oneLine h)

theorem OneLine.printedAll {Q : Bytes → Prop} {s : Bytes} (h : OneLine s) (hQ : Q (s ++ [10])) :
    PrintedAll Q (s ++ [10]) :=
  ⟨[s ++ [10]], h.printed, List.forall_mem_singleton.mpr hQ⟩

/-- The lines that are kept of a printed text. -/
def Selected (keep : Bytes → Bool) (text : Bytes) (kept : List Bytes) : Prop :=
  ∃ parts, Printed text parts ∧ parts.filter keep = kept

section Selected
variable {keep : Bytes → Bool}

theorem Selected.lines {text : Bytes} {kept : List Bytes} (h : Selected keep text kept) :
    (lines text).filter keep = kept := by
  obtain ⟨parts, hparts, hkept⟩ := h
  rw [hparts.lines, hkept]

theorem Selected.append {s t : Bytes} {xs ys : List Bytes} (hs : Selected keep s xs)
    (ht : Selected keep t ys) : Selected keep (s ++ t) (xs ++ ys) := by
  obtain ⟨ps, hps, hxs⟩ := hs
  obtain ⟨qs, hqs, hys⟩ := ht
  exact ⟨ps ++ qs, hps.append hqs, by rw [List.filter_append, hxs, hys]⟩

theorem Selected.flatMap {A : Type} {xs : List A} {f : A → Bytes} {g : A → List Bytes}
    (h : ∀ x ∈ xs, Selected keep (f x) (g x)) : Selected keep (xs.flatMap f) (xs.flatMap g) := by
  induction xs with
  | nil => exact ⟨[], .nil, rfl⟩
  | cons x xs ih =>
    obtain ⟨hx, hxs⟩ := List.forall_mem_cons.mp h
    rw [List.flatMap_cons, List.flatMap_cons]
    exact hx.append (ih hxs)

theorem PrintedAll.selected_nil {text : Bytes}
    (h : PrintedAll (fun line => keep line = false) text) : Selected keep text [] := by
  obtain ⟨parts, hparts, hall⟩ := h
  refine ⟨parts, hparts, List.filter_eq_nil_iff.mpr ?_⟩
  intro line hline
  rw [hall line hline]
  exact Bool.false_ne_true

theorem Printed.selected {text : Bytes} {parts : List Bytes} (h : Printed text parts)
    (hall : ∀ line ∈ parts, keep line = true) : Selected keep text parts :=
  ⟨parts, h, List.filter_eq_self.mpr hall⟩

end Selected

end Go.Lines

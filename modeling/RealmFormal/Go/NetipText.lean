import RealmFormal.Go.Netip

/-!
# The texts `netip.ParseAddr` accepts

The text forms of IP addresses as a grammar, and that `ParseAddr` accepts exactly
these when there is no zone. Between the grammar and the loop of the parser stands
`Body`, which has a rule for each way around the loop.
-/

namespace Go.Netip
set_option autoImplicit false

/-! ## The grammar -/

/-- A decimal number up to 255 without leading zeros. -/
def IsOctet (s : Bytes) : Prop := ∃ n, n ≤ 255 ∧ s = natDigits n

/-- Dotted decimal. -/
def IsIPv4 (s : Bytes) : Prop :=
  ∃ a b c d, IsOctet a ∧ IsOctet b ∧ IsOctet c ∧ IsOctet d ∧ s = join [a, b, c, d] (chr '.')

/-- One to four hexadecimal digits. -/
def IsGroup (s : Bytes) : Prop := s ≠ [] ∧ s.length ≤ 4 ∧ s.all isHex = true

/-- Texts between colons, and the number of groups of sixteen bits they stand for. A dotted IPv4
address may stand in place of the last two. -/
inductive IsGroups : List Bytes → Nat → Prop where
  | hex {groups : List Bytes} (h : ∀ g ∈ groups, IsGroup g) : IsGroups groups groups.length
  | tail {groups : List Bytes} {t : Bytes} (h : ∀ g ∈ groups, IsGroup g) (ht : IsIPv4 t) :
      IsGroups (groups ++ [t]) (groups.length + 2)

/-- Eight groups, or fewer with one `::` for the rest. -/
def IsIPv6 (s : Bytes) : Prop :=
  (∃ groups, IsGroups groups 8 ∧ s = join groups (chr ':')) ∨
    ∃ left right n, (∀ g ∈ left, IsGroup g) ∧ IsGroups right n ∧ left.length + n ≤ 7 ∧
      s = join left (chr ':') ++ str "::" ++ join right (chr ':')

/-! ## Dotted decimal -/

/-- The digits of a text, from the last one, and the text again. -/
theorem map_digits {s : Bytes} (hdigit : ∀ b ∈ s, 48 ≤ b.toNat ∧ b.toNat ≤ 57) :
    ((s.map fun b => b.toNat - 48).reverse.reverse.map fun d => UInt8.ofNat (48 + d)) = s := by
  rw [List.reverse_reverse, List.map_map, List.map_congr_left (g := id), List.map_id]
  intro b hb
  have hle := (hdigit b hb).1
  rw [Function.comp_apply, Nat.add_sub_cancel' hle, ofNat_toNat, id]

/-- A text of digits without a leading zero is the text of its value. -/
theorem natDigits_of_digitsValue {s : Bytes} {n : Nat} (h : digitsValue s = some n)
    (hzero : ¬ (1 < s.length ∧ s.head? = some (chr '0'))) : s = natDigits n := by
  unfold digitsValue at h
  obtain ⟨⟨hne, hall⟩, hn⟩ := Option.ite_none_right_eq_some.mp h
  have hdigit : ∀ b ∈ s, 48 ≤ b.toNat ∧ b.toNat ≤ 57 := by
    intro b hb
    simpa [isDigit] using List.all_eq_true.mp hall b hb
  obtain ⟨b, t, rfl⟩ := List.exists_cons_of_ne_nil hne
  by_cases hb : b = chr '0'
  · subst hb
    have ht : t = [] := by
      rcases t with _ | ⟨c, t⟩
      · rfl
      · exact absurd ⟨by simp, rfl⟩ hzero
    subst ht
    cases hn
    rfl
  · have hlt : ∀ d ∈ ((b :: t).map fun b => b.toNat - 48).reverse, d < 10 := by
      intro d hd
      obtain ⟨c, hc, rfl⟩ := List.mem_map.mp (List.mem_reverse.mp hd)
      have hle := (hdigit c hc).2
      omega
    have hlast : ∀ hnil : ((b :: t).map fun b => b.toNat - 48).reverse ≠ [],
        ((b :: t).map fun b => b.toNat - 48).reverse.getLast hnil ≠ 0 := by
      intro hnil hlast
      have hval : b.toNat - 48 = 0 := by simpa using hlast
      have hge := (hdigit b List.mem_cons_self).1
      exact hb (UInt8.toNat_inj.mp (by simp only [chr]; rw [toNat_ofNat (by decide)]; simp; omega))
    have hvalue : n = Nat.ofDigits 10 ((b :: t).map fun b => b.toNat - 48).reverse := by
      rw [← foldl_digits _ hlt, map_digits hdigit]
      exact (Option.some.inj hn).symm
    have hdigits := Nat.digits_ofDigits 10 (by omega) _ hlt hlast
    have hpos : n ≠ 0 := by
      intro h0
      rw [← hvalue, h0] at hdigits
      simp at hdigits
    rw [natDigits, if_neg hpos, hvalue, hdigits, map_digits hdigit]

theorem natDigits_no_leading_zero (n : Nat) :
    ¬ (1 < (natDigits n).length ∧ (natDigits n).head? = some (chr '0')) := by
  rintro ⟨hlen, hhead⟩
  by_cases h0 : n = 0
  · subst h0
    simp [natDigits] at hlen
  · obtain ⟨b, t, heq, hb, -⟩ := natDigits_head h0
    rw [heq, List.head?_cons, Option.some.injEq] at hhead
    subst hhead
    revert hb
    decide

theorem parseOctet_isSome_iff (s : Bytes) : (parseOctet s).isSome ↔ IsOctet s := by
  unfold parseOctet
  constructor
  · intro h
    split at h
    · cases h
    · rename_i hzero
      obtain ⟨v, hv⟩ := Option.isSome_iff_exists.mp h
      obtain ⟨n, hn, hle⟩ := Option.bind_eq_some_iff.mp hv
      obtain ⟨hle, -⟩ := Option.ite_none_right_eq_some.mp hle
      exact ⟨n, hle, natDigits_of_digitsValue hn hzero⟩
  · rintro ⟨n, hn, rfl⟩
    rw [if_neg (natDigits_no_leading_zero n), digitsValue_natDigits, Option.bind_some, if_pos hn]
    rfl

theorem not_dot_of_isOctet {s : Bytes} (h : IsOctet s) : chr '.' ∉ s := by
  obtain ⟨n, -, rfl⟩ := h
  intro hdot
  have hdigit := natDigits_isDigit n _ hdot
  revert hdigit
  decide

theorem mapM_forall₂ {α β : Type} {f : α → Option β} {xs : List α} {ys : List β}
    (h : xs.mapM f = some ys) : List.Forall₂ (fun x y => f x = some y) xs ys := by
  induction xs generalizing ys with
  | nil =>
    cases h
    exact .nil
  | cons x xs ih =>
    rw [List.mapM_cons] at h
    obtain ⟨y, hy, h⟩ := Option.bind_eq_some_iff.mp h
    obtain ⟨rest, hrest, h⟩ := Option.bind_eq_some_iff.mp h
    cases h
    exact .cons hy (ih hrest)

theorem isOctet_of_parseOctet {s : Bytes} {b : UInt8} (h : parseOctet s = some b) : IsOctet s :=
  (parseOctet_isSome_iff s).mp (Option.isSome_of_eq_some h)

theorem exists_parseOctet {s : Bytes} (h : IsOctet s) : ∃ b, parseOctet s = some b :=
  Option.isSome_iff_exists.mp ((parseOctet_isSome_iff s).mpr h)

theorem parseIPv4Fields_isSome_iff (s : Bytes) : (parseIPv4Fields s).isSome ↔ IsIPv4 s := by
  unfold parseIPv4Fields
  constructor
  · intro h
    split at h
    · rename_i hfields
      have hparts := mapM_forall₂ hfields
      generalize hsplit : split s (chr '.') = parts at hparts
      obtain _ | ⟨ha, _ | ⟨hb, _ | ⟨hc, _ | ⟨hd, _ | _⟩⟩⟩⟩ := hparts
      refine ⟨_, _, _, _, isOctet_of_parseOctet ha, isOctet_of_parseOctet hb,
        isOctet_of_parseOctet hc, isOctet_of_parseOctet hd, ?_⟩
      rw [← hsplit, join_split]
    · cases h
  · rintro ⟨a, b, c, d, ha, hb, hc, hd, rfl⟩
    have hdots : ∀ part ∈ [a, b, c, d], chr '.' ∉ part := by
      simp [not_dot_of_isOctet ha, not_dot_of_isOctet hb, not_dot_of_isOctet hc,
        not_dot_of_isOctet hd]
    obtain ⟨a', ha'⟩ := exists_parseOctet ha
    obtain ⟨b', hb'⟩ := exists_parseOctet hb
    obtain ⟨c', hc'⟩ := exists_parseOctet hc
    obtain ⟨d', hd'⟩ := exists_parseOctet hd
    have hfields : [a, b, c, d].mapM parseOctet = some [a', b', c', d'] := by
      simp [ha', hb', hc', hd']
    rw [split_join (by simp) hdots, hfields]
    rfl

/-! ## Groups -/

/-- What is left of an address when a group starts: whether there was a `::`, the text, its number
of groups and whether there is a `::` at the end. -/
inductive Body : Bool → Bytes → Nat → Bool → Prop where
  | last {seen : Bool} {g : Bytes} (hg : IsGroup g) : Body seen g 1 seen
  | tail {seen : Bool} {t : Bytes} (ht : IsIPv4 t) : Body seen t 2 seen
  | colon {seen after : Bool} {g s : Bytes} {n : Nat} (hg : IsGroup g) (hs : Body seen s n after) :
      Body seen (g ++ chr ':' :: s) (n + 1) after
  | ends {g : Bytes} (hg : IsGroup g) : Body false (g ++ [chr ':', chr ':']) 1 true
  | ellipsis {g s : Bytes} {n : Nat} (hg : IsGroup g) (hs : Body true s n true) :
      Body false (g ++ chr ':' :: chr ':' :: s) (n + 1) true

section Groups
variable {seen after : Bool} {g s t rest : Bytes} {m n : Nat} {groups left right : List Bytes}

theorem isHex_of_isDigit {b : UInt8} (h : isDigit b = true) : isHex b = true := by
  rw [isHex, h]
  rfl

theorem IsOctet.hex_of_mem {b : UInt8} (h : IsOctet s) (hb : b ∈ s) : isHex b = true := by
  obtain ⟨n, -, rfl⟩ := h
  exact isHex_of_isDigit (natDigits_isDigit n b hb)

theorem IsOctet.ne_nil (h : IsOctet s) : s ≠ [] := by
  obtain ⟨n, -, rfl⟩ := h
  exact natDigits_ne_nil n

theorem IsOctet.length_le (h : IsOctet s) : s.length ≤ 3 := by
  obtain ⟨n, hn, rfl⟩ := h
  exact natDigits_length (by omega) (by omega)

/-- A dotted address starts with an octet and a dot. -/
theorem IsIPv4.exists_octet (h : IsIPv4 t) : ∃ a rest, IsOctet a ∧ t = a ++ chr '.' :: rest := by
  obtain ⟨a, b, c, d, ha, -, -, -, rfl⟩ := h
  refine ⟨a, join [b, c, d] (chr '.'), ha, ?_⟩
  simp [join]

theorem exists_cons_of_all {p : UInt8 → Bool} (hne : g ≠ []) (hall : ∀ b ∈ g, p b = true) :
    ∃ b u, g = b :: u ∧ p b = true := by
  obtain ⟨b, u, rfl⟩ := List.exists_cons_of_ne_nil hne
  exact ⟨b, u, rfl, hall b List.mem_cons_self⟩

theorem IsGroup.hex_of_mem {b : UInt8} (h : IsGroup g) (hb : b ∈ g) : isHex b = true :=
  List.all_eq_true.mp h.2.2 b hb

/-- What is left starts with a digit. -/
theorem Body.exists_cons (h : Body seen s n after) : ∃ b u, s = b :: u ∧ isHex b = true := by
  have hgroup : ∀ {g rest : Bytes}, IsGroup g → ∃ b u, g ++ rest = b :: u ∧ isHex b = true := by
    intro g rest hg
    obtain ⟨b, u, rfl, hb⟩ := exists_cons_of_all hg.1 fun b hb => hg.hex_of_mem hb
    exact ⟨b, u ++ rest, rfl, hb⟩
  cases h with
  | last hg =>
    rw [← List.append_nil s]
    exact hgroup hg
  | tail ht =>
    obtain ⟨a, rest, ha, rfl⟩ := ht.exists_octet
    obtain ⟨b, u, rfl, hb⟩ := exists_cons_of_all ha.ne_nil fun b hb => ha.hex_of_mem hb
    exact ⟨b, u ++ chr '.' :: rest, rfl, hb⟩
  | colon hg hs => exact hgroup hg
  | ends hg => exact hgroup hg
  | ellipsis hg hs => exact hgroup hg

/-- A second `::` is no rule. -/
theorem Body.seen_after (h : Body seen s n after) (hseen : seen = true) : after = true := by
  induction h with
  | last hg => exact hseen
  | tail ht => exact hseen
  | colon hg hs ih => exact ih hseen
  | ends hg => rfl
  | ellipsis hg hs ih => rfl

/-- The digits of a group end before a byte that is none. -/
theorem takeWhile_isHex (hall : ∀ b ∈ g, isHex b = true)
    (hrest : ∀ b ∈ rest.head?, isHex b = false) :
    (g ++ rest).takeWhile isHex = g ∧ (g ++ rest).dropWhile isHex = rest := by
  have hnil : rest.takeWhile isHex = [] ∧ rest.dropWhile isHex = rest := by
    cases rest with
    | nil => exact ⟨rfl, rfl⟩
    | cons b rest =>
      have hb : isHex b = false := hrest b rfl
      simp [hb]
  rw [List.takeWhile_append_of_pos hall, List.dropWhile_append_of_pos hall, hnil.1, hnil.2,
    List.append_nil]
  exact ⟨rfl, rfl⟩

theorem IsGroup.fits (h : IsGroup g) : ¬ (g = [] ∨ 4 < g.length) := by
  rintro (hnil | hlong)
  · exact h.1 hnil
  · exact absurd h.2.1 (Nat.not_le_of_lt hlong)

/-- A text the loop accepts starts with a group. -/
theorem exists_group_of_parseGroups {st : Groups} {r : Groups × Bytes}
    (h : parseGroups (n + 1) st s = some r) :
    ∃ g rest, s = g ++ rest ∧ IsGroup g ∧ ∀ b ∈ rest.head?, isHex b = false := by
  refine ⟨s.takeWhile isHex, s.dropWhile isHex, (List.takeWhile_append_dropWhile).symm, ?_, ?_⟩
  · rw [parseGroups] at h
    split at h
    · cases h
    · rename_i hgroup
      refine ⟨fun hnil => hgroup (Or.inl hnil), ?_, List.all_takeWhile⟩
      exact Nat.le_of_not_lt fun hlong => hgroup (Or.inr hlong)
  · intro b hb
    have hdrop := List.head?_dropWhile_not isHex s
    rw [Option.mem_def.mp hb] at hdrop
    exact hdrop

/-- What the loop accepts is a `Body`. -/
theorem body_of_parseGroups {st st' : Groups} (hs : s ≠ [])
    (h : parseGroups n st s = some (st', [])) :
    ∃ m, Body st.ellipsis.isSome s m st'.ellipsis.isSome ∧
      st'.bytes.length = st.bytes.length + 2 * m := by
  induction n generalizing st s with
  | zero =>
    cases h
    exact absurd rfl hs
  | succ n ih =>
    obtain ⟨g, rest, rfl, hg, hrest⟩ := exists_group_of_parseGroups h
    obtain ⟨htake, hdrop⟩ := takeWhile_isHex (fun b hb => hg.hex_of_mem hb) hrest
    rw [parseGroups, htake, hdrop, if_neg hg.fits] at h
    split at h
    · -- a dotted tail
      split at h
      · cases h
      · split at h
        · cases h
        · obtain ⟨v, hv, heq⟩ := Option.map_eq_some_iff.mp h
          cases heq
          refine ⟨2, .tail ((parseIPv4Fields_isSome_iff _).mp (Option.isSome_of_eq_some hv)), ?_⟩
          simp
    · split at h
      · cases h
        rw [List.append_nil]
        exact ⟨1, .last hg, by simp⟩
      · cases h
      · rename_i c d t _
        split at h
        · cases h
        · rename_i hc
          have hcolon : c = chr ':' := not_not.mp hc
          subst hcolon
          split at h
          · rename_i hd
            subst hd
            split at h
            · cases h
            · rename_i hnone
              have hellipsis : st.ellipsis = none := not_not.mp hnone
              rw [hellipsis]
              split at h
              · rename_i ht
                subst ht
                cases h
                exact ⟨1, .ends hg, by simp⟩
              · rename_i ht
                obtain ⟨m, hbody, hlen⟩ := ih ht h
                have hafter := hbody.seen_after rfl
                rw [hafter] at hbody ⊢
                refine ⟨m + 1, .ellipsis hg hbody, ?_⟩
                rw [hlen]
                simp
                omega
          · obtain ⟨m, hbody, hlen⟩ := ih (List.cons_ne_nil d t) h
            refine ⟨m + 1, .colon hg hbody, ?_⟩
            rw [hlen]
            simp
            omega

theorem IsOctet.isGroup (h : IsOctet s) : IsGroup s :=
  ⟨h.ne_nil, Nat.le_succ_of_le h.length_le, List.all_eq_true.mpr fun _ hb => h.hex_of_mem hb⟩

/-- The digits of a group that a colon follows. -/
theorem takeWhile_colon (hg : IsGroup g) (s : Bytes) :
    (g ++ chr ':' :: s).takeWhile isHex = g ∧
      (g ++ chr ':' :: s).dropWhile isHex = chr ':' :: s := by
  refine takeWhile_isHex (fun b hb => hg.hex_of_mem hb) ?_
  intro b hb
  cases hb
  decide

theorem colon_ne_dot : ¬ (some (chr ':') = some (chr '.')) := by decide

theorem parseGroups_last (st : Groups) (hg : IsGroup g) :
    ∃ w, w.length = 2 ∧ parseGroups (n + 1) st g = some (⟨st.bytes ++ w, st.ellipsis⟩, []) := by
  have hend : ∀ b ∈ ([] : Bytes).head?, isHex b = false := by
    intro b hb
    cases hb
  obtain ⟨htake, hdrop⟩ := takeWhile_isHex (fun b hb => hg.hex_of_mem hb) hend
  rw [List.append_nil] at htake hdrop
  rw [parseGroups, htake, hdrop, if_neg hg.fits]
  exact ⟨_, rfl, rfl⟩

theorem parseGroups_tail {st : Groups} (ht : IsIPv4 t)
    (hplace : ¬ (st.ellipsis = none ∧ st.bytes.length ≠ 12)) (hroom : ¬ 16 < st.bytes.length + 4) :
    ∃ w, w.length = 4 ∧ parseGroups (n + 1) st t = some (⟨st.bytes ++ w, st.ellipsis⟩, []) := by
  obtain ⟨v, hv⟩ := Option.isSome_iff_exists.mp ((parseIPv4Fields_isSome_iff t).mpr ht)
  obtain ⟨a, rest, ha, rfl⟩ := ht.exists_octet
  obtain ⟨htake, hdrop⟩ : (a ++ chr '.' :: rest).takeWhile isHex = a ∧
      (a ++ chr '.' :: rest).dropWhile isHex = chr '.' :: rest := by
    refine takeWhile_isHex (fun b hb => ha.hex_of_mem hb) ?_
    intro b hb
    cases hb
    decide
  rw [parseGroups, htake, hdrop, if_neg ha.isGroup.fits, List.head?_cons, if_pos rfl,
    if_neg hplace, if_neg hroom, hv]
  exact ⟨_, v.toList_length, rfl⟩

theorem parseGroups_colon (st : Groups) (hg : IsGroup g) {b : UInt8} (hb : b ≠ chr ':')
    (u : Bytes) :
    ∃ w, w.length = 2 ∧ parseGroups (n + 1) st (g ++ chr ':' :: b :: u) =
      parseGroups n ⟨st.bytes ++ w, st.ellipsis⟩ (b :: u) := by
  obtain ⟨htake, hdrop⟩ := takeWhile_colon hg (b :: u)
  rw [parseGroups, htake, hdrop, if_neg hg.fits, List.head?_cons, if_neg colon_ne_dot]
  simp only [ne_eq, not_true_eq_false, if_false, if_neg hb]
  exact ⟨_, rfl, rfl⟩

theorem parseGroups_ends {st : Groups} (hg : IsGroup g) (hnone : st.ellipsis = none) :
    ∃ w, w.length = 2 ∧ parseGroups (n + 1) st (g ++ [chr ':', chr ':']) =
      some (⟨st.bytes ++ w, some (st.bytes ++ w).length⟩, []) := by
  obtain ⟨htake, hdrop⟩ := takeWhile_colon hg [chr ':']
  rw [parseGroups, htake, hdrop, if_neg hg.fits, List.head?_cons, if_neg colon_ne_dot]
  simp only [ne_eq, not_true_eq_false, if_false, if_true, hnone]
  exact ⟨_, rfl, rfl⟩

theorem parseGroups_ellipsis {st : Groups} (hg : IsGroup g) (hnone : st.ellipsis = none)
    (hs : s ≠ []) :
    ∃ w, w.length = 2 ∧ parseGroups (n + 1) st (g ++ chr ':' :: chr ':' :: s) =
      parseGroups n ⟨st.bytes ++ w, some (st.bytes ++ w).length⟩ s := by
  obtain ⟨htake, hdrop⟩ := takeWhile_colon hg (chr ':' :: s)
  rw [parseGroups, htake, hdrop, if_neg hg.fits, List.head?_cons, if_neg colon_ne_dot]
  simp only [ne_eq, not_true_eq_false, if_false, if_true, hnone, if_neg hs]
  exact ⟨_, rfl, rfl⟩

theorem not_hex_colon {b : UInt8} (hb : isHex b = true) : b ≠ chr ':' := by
  rintro rfl
  revert hb
  decide

theorem ellipsis_none {st : Groups} (h : st.ellipsis.isSome = false) : st.ellipsis = none :=
  Option.isNone_iff_eq_none.mp (Option.isSome_eq_false_iff.mp h)

/-- The loop accepts a `Body` that has room. -/
theorem parseGroups_of_body (st : Groups) (hbody : Body seen s m after)
    (hseen : st.ellipsis.isSome = seen) (hn : st.bytes.length + 2 * n = 16)
    (hfits : st.bytes.length + 2 * m ≤ 16)
    (hfull : after = false → st.bytes.length + 2 * m = 16) :
    ∃ st', parseGroups n st s = some (st', []) ∧ st'.ellipsis.isSome = after ∧
      st'.bytes.length = st.bytes.length + 2 * m := by
  induction hbody generalizing st n with
  | last hg =>
    obtain ⟨n, rfl⟩ : ∃ k, n = k + 1 := Nat.exists_eq_succ_of_ne_zero (by omega)
    obtain ⟨w, hw, heq⟩ := parseGroups_last (n := n) st hg
    exact ⟨_, heq, hseen, by simp [hw]⟩
  | @tail seen t ht =>
    obtain ⟨n, rfl⟩ : ∃ k, n = k + 1 := Nat.exists_eq_succ_of_ne_zero (by omega)
    have hplace : ¬ (st.ellipsis = none ∧ st.bytes.length ≠ 12) := by
      rintro ⟨hnone, hlen⟩
      rw [hnone] at hseen
      have hall := hfull hseen.symm
      omega
    obtain ⟨w, hw, heq⟩ := parseGroups_tail (n := n) ht hplace (by omega)
    exact ⟨_, heq, hseen, by simp [hw]⟩
  | colon hg hs ih =>
    obtain ⟨n, rfl⟩ : ∃ k, n = k + 1 := Nat.exists_eq_succ_of_ne_zero (by omega)
    obtain ⟨b, u, rfl, hb⟩ := hs.exists_cons
    obtain ⟨w, hw, heq⟩ := parseGroups_colon (n := n) st hg (not_hex_colon hb) u
    rw [heq]
    obtain ⟨st', hst', hafter, hlen⟩ := ih (n := n) ⟨st.bytes ++ w, st.ellipsis⟩ hseen
      (by simp [hw]; omega) (by simp [hw]; omega)
      (by intro hafter; have hall := hfull hafter; simp [hw]; omega)
    exact ⟨st', hst', hafter, by rw [hlen]; simp [hw]; omega⟩
  | ends hg =>
    obtain ⟨n, rfl⟩ : ∃ k, n = k + 1 := Nat.exists_eq_succ_of_ne_zero (by omega)
    obtain ⟨w, hw, heq⟩ := parseGroups_ends (n := n) hg (ellipsis_none hseen)
    exact ⟨_, heq, rfl, by simp [hw]⟩
  | ellipsis hg hs ih =>
    obtain ⟨n, rfl⟩ : ∃ k, n = k + 1 := Nat.exists_eq_succ_of_ne_zero (by omega)
    obtain ⟨b, u, rfl, hb⟩ := hs.exists_cons
    obtain ⟨w, hw, heq⟩ := parseGroups_ellipsis (n := n) hg (ellipsis_none hseen)
      (List.cons_ne_nil b u)
    rw [heq]
    obtain ⟨st', hst', hafter, hlen⟩ := ih (n := n)
      ⟨st.bytes ++ w, some (st.bytes ++ w).length⟩ rfl
      (by simp [hw]; omega) (by simp [hw]; omega)
      (by intro hafter; have hall := hfull hafter; simp [hw]; omega)
    exact ⟨st', hst', hafter, by rw [hlen]; simp [hw]; omega⟩

/-! ## The loop and the grammar -/

theorem join_cons (g : Bytes) (hne : groups ≠ []) :
    join (g :: groups) (chr ':') = g ++ chr ':' :: join groups (chr ':') := by
  have hjoin : join ([g] ++ groups) (chr ':') = _ := join_append (List.cons_ne_nil g []) hne
  simpa [join] using hjoin

theorem join_singleton (g : Bytes) (sep : UInt8) : join [g] sep = g := by simp [join]

theorem IsGroups.cons (hg : IsGroup g) (h : IsGroups groups n) :
    IsGroups (g :: groups) (n + 1) := by
  cases h with
  | hex h => exact .hex (List.forall_mem_cons.mpr ⟨hg, h⟩)
  | @tail groups t h ht =>
    have htail := IsGroups.tail (List.forall_mem_cons.mpr ⟨hg, h⟩) ht
    rw [List.cons_append, List.length_cons] at htail
    rwa [show groups.length + 2 + 1 = groups.length + 1 + 2 by omega]

theorem isGroups_nil (h : IsGroups groups n) : groups = [] ↔ n = 0 := by
  cases h with
  | hex h => exact List.length_eq_zero_iff.symm
  | tail h ht => simp

/-- Without a `::` in it, what is left are groups with colons between them. -/
theorem Body.exists_groups (h : Body seen s n after) (hsame : seen = after) :
    ∃ groups, groups ≠ [] ∧ IsGroups groups n ∧ s = join groups (chr ':') := by
  induction h with
  | @last _ g hg =>
    refine ⟨[g], List.cons_ne_nil g [], .hex (List.forall_mem_singleton.mpr hg), ?_⟩
    rw [join_singleton]
  | @tail _ t ht =>
    have hgroups : IsGroups ([] ++ [t]) 2 := .tail (List.forall_mem_nil _) ht
    refine ⟨[t], List.cons_ne_nil t [], hgroups, ?_⟩
    rw [join_singleton]
  | @colon _ _ g _ _ hg hs ih =>
    obtain ⟨groups, hne, hgroups, rfl⟩ := ih hsame
    exact ⟨g :: groups, List.cons_ne_nil g groups, hgroups.cons hg, (join_cons g hne).symm⟩
  | ends hg => cases hsame
  | ellipsis hg hs ih => cases hsame

theorem body_of_hex (h : ∀ g ∈ groups, IsGroup g) (hs : Body seen s n after) :
    Body seen (groups.foldr (fun g s => g ++ chr ':' :: s) s) (groups.length + n) after := by
  induction groups with
  | nil => simpa using hs
  | cons g groups ih =>
    obtain ⟨hg, hgroups⟩ := List.forall_mem_cons.mp h
    rw [List.foldr_cons, List.length_cons, Nat.add_right_comm]
    exact .colon hg (ih hgroups)

/-- Groups that a text follows after a colon. -/
theorem join_append_foldr (groups : List Bytes) {rest : List Bytes} (hne : rest ≠ []) :
    join (groups ++ rest) (chr ':') =
      groups.foldr (fun g s => g ++ chr ':' :: s) (join rest (chr ':')) := by
  induction groups with
  | nil => rfl
  | cons g groups ih =>
    rw [List.cons_append, join_cons g (by simp [hne]), ih, List.foldr_cons]

theorem body_of_groups (seen : Bool) (h : IsGroups groups n) (hne : groups ≠ []) :
    Body seen (join groups (chr ':')) n seen := by
  cases h with
  | hex h =>
    obtain ⟨init, g, rfl⟩ := (List.eq_nil_or_concat' groups).resolve_left hne
    obtain ⟨hinit, hg⟩ := List.forall_mem_append.mp h
    have hlast : Body seen g 1 seen := .last (hg g List.mem_cons_self)
    have hbody := body_of_hex hinit hlast
    rw [join_append_foldr init (List.cons_ne_nil g []), join_singleton, List.length_append,
      List.length_singleton]
    exact hbody
  | @tail groups t h ht =>
    have htail : Body seen t 2 seen := .tail ht
    have hbody := body_of_hex h htail
    rw [join_append_foldr groups (List.cons_ne_nil t []), join_singleton]
    exact hbody

/-- With a `::` in it, what is left are groups on both sides of it. -/
theorem Body.exists_sides (h : Body seen s n after) (hseen : seen = false) (hafter : after = true) :
    ∃ left right k, left ≠ [] ∧ (∀ g ∈ left, IsGroup g) ∧ IsGroups right k ∧
      n = left.length + k ∧ s = join left (chr ':') ++ str "::" ++ join right (chr ':') := by
  induction h with
  | last hg =>
    rw [hseen] at hafter
    cases hafter
  | tail ht =>
    rw [hseen] at hafter
    cases hafter
  | @colon _ _ g _ _ hg hs ih =>
    obtain ⟨left, right, k, hne, hleft, hright, rfl, rfl⟩ := ih hseen hafter
    refine ⟨g :: left, right, k, List.cons_ne_nil g left, List.forall_mem_cons.mpr ⟨hg, hleft⟩,
      hright, ?_, ?_⟩
    · rw [List.length_cons]
      omega
    · rw [join_cons g hne]
      simp
  | @ends g hg =>
    refine ⟨[g], [], 0, List.cons_ne_nil g [], List.forall_mem_singleton.mpr hg,
      .hex (List.forall_mem_nil _), rfl, ?_⟩
    rw [join_singleton]
    simp [join]
    rfl
  | @ellipsis g _ n hg hs ih =>
    obtain ⟨right, -, hright, rfl⟩ := hs.exists_groups rfl
    refine ⟨[g], right, n, List.cons_ne_nil g [], List.forall_mem_singleton.mpr hg, hright,
      Nat.add_comm n 1, ?_⟩
    rw [join_singleton, List.append_assoc]
    rfl

theorem foldr_colon_append (groups : List Bytes) (s t : Bytes) :
    groups.foldr (fun g s => g ++ chr ':' :: s) s ++ t =
      groups.foldr (fun g s => g ++ chr ':' :: s) (s ++ t) := by
  induction groups with
  | nil => rfl
  | cons g groups ih => simp [ih]

theorem body_of_sides (hne : left ≠ []) (hleft : ∀ g ∈ left, IsGroup g) (hright : IsGroups right n) :
    Body false (join left (chr ':') ++ str "::" ++ join right (chr ':')) (left.length + n) true := by
  obtain ⟨init, g, rfl⟩ := (List.eq_nil_or_concat' left).resolve_left hne
  obtain ⟨hinit, hg⟩ := List.forall_mem_append.mp hleft
  have hg := hg g List.mem_cons_self
  have hend : Body false (g ++ (str "::" ++ join right (chr ':'))) (1 + n) true := by
    by_cases hnil : right = []
    · have hn := (isGroups_nil hright).mp hnil
      subst hnil hn
      exact .ends hg
    · rw [Nat.add_comm 1 n]
      exact .ellipsis hg (body_of_groups true hright hnil)
  rw [join_append_foldr init (List.cons_ne_nil g []), join_singleton, List.append_assoc,
    foldr_colon_append, List.length_append, List.length_singleton, Nat.add_assoc]
  exact body_of_hex hinit hend

/-- The texts of IPv6 addresses in the parts the parser reads. -/
theorem isIPv6_iff_body (s : Bytes) :
    IsIPv6 s ↔ Body false s 8 false ∨ (∃ m, m ≤ 7 ∧ Body false s m true) ∨ s = str "::" ∨
      ∃ t m, m ≤ 7 ∧ Body true t m true ∧ s = str "::" ++ t := by
  constructor
  · rintro (⟨groups, hgroups, rfl⟩ | ⟨left, right, n, hleft, hright, hle, rfl⟩)
    · have hne : groups ≠ [] := fun hnil => by
        have hzero := (isGroups_nil hgroups).mp hnil
        omega
      exact Or.inl (body_of_groups false hgroups hne)
    · by_cases hnil : left = []
      · subst hnil
        by_cases hrnil : right = []
        · subst hrnil
          exact Or.inr (Or.inr (Or.inl rfl))
        · refine Or.inr (Or.inr (Or.inr ⟨join right (chr ':'), n, ?_, ?_, rfl⟩))
          · simpa using hle
          · exact body_of_groups true hright hrnil
      · exact Or.inr (Or.inl ⟨left.length + n, hle, body_of_sides hnil hleft hright⟩)
  · rintro (hbody | ⟨m, hle, hbody⟩ | rfl | ⟨t, m, hle, hbody, rfl⟩)
    · obtain ⟨groups, -, hgroups, heq⟩ := hbody.exists_groups rfl
      exact Or.inl ⟨groups, hgroups, heq⟩
    · obtain ⟨left, right, k, -, hleft, hright, rfl, heq⟩ := hbody.exists_sides rfl rfl
      exact Or.inr ⟨left, right, k, hleft, hright, hle, heq⟩
    · exact Or.inr ⟨[], [], 0, List.forall_mem_nil _, .hex (List.forall_mem_nil _), by simp, rfl⟩
    · obtain ⟨right, -, hright, rfl⟩ := hbody.exists_groups rfl
      exact Or.inr ⟨[], right, m, List.forall_mem_nil _, hright, by simpa using hle, rfl⟩

end Groups

/-! ## `ParseAddr` -/

theorem expandGroups_isSome_iff (st : Groups) :
    (expandGroups st).isSome ↔
      (st.ellipsis.isSome = false ∧ st.bytes.length = 16) ∨
        (st.ellipsis.isSome = true ∧ st.bytes.length < 16) := by
  unfold expandGroups
  cases st.ellipsis with
  | none =>
    by_cases hlen : st.bytes.length = 16
    · simp [hlen]
      rfl
    · simp [hlen]
  | some e =>
    have hfull (h : st.bytes.length < 16) : (st.bytes.take e ++
        List.replicate (16 - st.bytes.length) 0 ++ st.bytes.drop e).length = 16 := by
      simp only [List.length_append, List.length_take, List.length_replicate, List.length_drop]
      omega
    by_cases hlen : st.bytes.length < 16
    · simp only [if_neg (show ¬ (some e ≠ none ∧ 16 ≤ st.bytes.length) by omega), dif_pos (hfull hlen)]
      simp [hlen]
      rfl
    · simp [hlen, Nat.not_lt.mp hlen]

theorem IsGroup.not_mem {g : Bytes} (h : IsGroup g) {b : UInt8} (hb : isHex b = false) : b ∉ g := by
  intro hmem
  rw [h.hex_of_mem hmem] at hb
  cases hb

theorem IsIPv4.not_percent {t : Bytes} (h : IsIPv4 t) : chr '%' ∉ t := by
  obtain ⟨a, b, c, d, ha, hb, hc, hd, rfl⟩ := h
  have hnot : ∀ {s : Bytes}, IsOctet s → chr '%' ∉ s := fun h => h.isGroup.not_mem (by decide)
  have hdot : chr '%' ≠ chr '.' := by decide
  simp [join, hnot ha, hnot hb, hnot hc, hnot hd, hdot]

theorem Body.not_percent {seen after : Bool} {s : Bytes} {n : Nat} (h : Body seen s n after) :
    chr '%' ∉ s := by
  have hnot : ∀ {g : Bytes}, IsGroup g → chr '%' ∉ g := fun h => h.not_mem (by decide)
  have hcolon : chr '%' ≠ chr ':' := by decide
  induction h with
  | last hg => exact hnot hg
  | tail ht => exact ht.not_percent
  | colon hg hs ih => simp [hnot hg, ih, hcolon]
  | ends hg => simp [hnot hg, hcolon]
  | ellipsis hg hs ih => simp [hnot hg, ih, hcolon]

/-- The loop and the expansion, from what there is before the loop. -/
theorem parseGroups_expand_iff (st : Groups) {s : Bytes} (hs : s ≠ []) (hempty : st.bytes = []) :
    (∃ st', parseGroups 8 st s = some (st', []) ∧ (expandGroups st').isSome) ↔
      (Body st.ellipsis.isSome s 8 false) ∨ ∃ m, m ≤ 7 ∧ Body st.ellipsis.isSome s m true := by
  constructor
  · rintro ⟨st', hparse, hexpand⟩
    obtain ⟨m, hbody, hlen⟩ := body_of_parseGroups hs hparse
    rw [hempty, List.length_nil] at hlen
    rcases (expandGroups_isSome_iff st').mp hexpand with ⟨hafter, hfull⟩ | ⟨hafter, hlt⟩
    · rw [hafter] at hbody
      obtain rfl : m = 8 := by omega
      exact Or.inl hbody
    · rw [hafter] at hbody
      exact Or.inr ⟨m, by omega, hbody⟩
  · rintro (hbody | ⟨m, hle, hbody⟩)
    · obtain ⟨st', hparse, hafter, hlen⟩ := parseGroups_of_body (n := 8) st hbody rfl
        (by simp [hempty]) (by simp [hempty]) (by simp [hempty])
      refine ⟨st', hparse, (expandGroups_isSome_iff st').mpr (Or.inl ⟨hafter, ?_⟩)⟩
      rw [hlen, hempty]
      rfl
    · obtain ⟨st', hparse, hafter, hlen⟩ := parseGroups_of_body (n := 8) st hbody rfl
        (by simp [hempty]) (by simp [hempty]; omega) (by intro hafter; cases hafter)
      refine ⟨st', hparse, (expandGroups_isSome_iff st').mpr (Or.inr ⟨hafter, ?_⟩)⟩
      rw [hlen, hempty, List.length_nil]
      omega

/-- The start of the loop, after a `::` at the start of the text. -/
def start (s : Bytes) : Groups × Bytes :=
  if hasPrefix s (str "::") then (⟨[], some 0⟩, s.drop 2) else (⟨[], none⟩, s)

/-- `parseIPv6` of a text without zone, with the zone in the result. -/
def parseBody (s zone : Bytes) : Option Addr :=
  if (start s).2 = [] ∧ (start s).1.ellipsis ≠ none then
    (expandGroups (start s).1).map fun v => .v6 v zone
  else
    (parseGroups 8 (start s).1 (start s).2).bind fun r =>
      if r.2 = [] then (expandGroups r.1).map fun v => .v6 v zone else none

theorem parseIPv6_eq (s : Bytes) :
    parseIPv6 s =
      if chr '%' ∈ s ∧ (s.dropWhile fun b => decide (b ≠ chr '%')).drop 1 = [] then none
      else parseBody (s.takeWhile fun b => decide (b ≠ chr '%'))
        ((s.dropWhile fun b => decide (b ≠ chr '%')).drop 1) := rfl

theorem parseBody_zone {s zone : Bytes} {a : Addr} (h : parseBody s zone = some a) :
    a.zone = zone := by
  unfold parseBody at h
  split at h
  · obtain ⟨v, -, rfl⟩ := Option.map_eq_some_iff.mp h
    rfl
  · obtain ⟨r, -, h⟩ := Option.bind_eq_some_iff.mp h
    obtain ⟨-, h⟩ := Option.ite_none_right_eq_some.mp h
    obtain ⟨v, -, rfl⟩ := Option.map_eq_some_iff.mp h
    rfl

theorem parseIPv6_of_not_percent {s : Bytes} (h : chr '%' ∉ s) : parseIPv6 s = parseBody s [] := by
  have hall : ∀ b ∈ s, decide (b ≠ chr '%') = true := by
    intro b hb
    rw [decide_eq_true_eq]
    rintro rfl
    exact h hb
  have htake : (s.takeWhile fun b => decide (b ≠ chr '%')) = s := by
    have happend : (s ++ []).takeWhile _ = s ++ _ := List.takeWhile_append_of_pos hall
    simpa using happend
  have hdrop : (s.dropWhile fun b => decide (b ≠ chr '%')) = [] := by
    have happend : (s ++ []).dropWhile _ = _ := List.dropWhile_append_of_pos hall
    simpa using happend
  rw [parseIPv6_eq, htake, hdrop, if_neg fun hzone => h hzone.1]
  rfl

/-- A text with a zone gives an address with a zone. -/
theorem parseIPv6_zone {s : Bytes} {a : Addr} (h : parseIPv6 s = some a) (hzone : a.zone = []) :
    chr '%' ∉ s := by
  intro hmem
  rw [parseIPv6_eq] at h
  obtain ⟨hnot, hbody⟩ := Option.ite_none_left_eq_some.mp h
  exact hnot ⟨hmem, (parseBody_zone hbody).symm.trans hzone⟩

theorem bind_expand_isSome_iff (o : Option (Groups × Bytes)) :
    (o.bind fun r => if r.2 = [] then (expandGroups r.1).map fun v => Addr.v6 v [] else none).isSome ↔
      ∃ st, o = some (st, []) ∧ (expandGroups st).isSome := by
  cases o with
  | none => simp
  | some r =>
    obtain ⟨st, rest⟩ := r
    by_cases hrest : rest = []
    · simp [hrest]
    · simp [hrest]

/-- A `Body` does not start with a colon. -/
theorem Body.not_hasPrefix {seen after : Bool} {s : Bytes} {n : Nat} (h : Body seen s n after) :
    hasPrefix s (str "::") = false := by
  obtain ⟨b, u, rfl, hb⟩ := h.exists_cons
  have hne := not_hex_colon hb
  have hprefix : str "::" = [chr ':', chr ':'] := rfl
  rw [hasPrefix, hprefix, List.isPrefixOf_cons_cons]
  simp [Ne.symm hne]

theorem start_append (t : Bytes) : start (str "::" ++ t) = (⟨[], some 0⟩, t) := by
  rw [start, if_pos (hasPrefix_append _ _)]
  rfl

/-- A text after the `::` at the start, or `::` alone. -/
theorem parseBody_append_isSome_iff (t : Bytes) :
    (parseBody (str "::" ++ t) []).isSome ↔
      t = [] ∨ ∃ m, m ≤ 7 ∧ Body true t m true := by
  rw [parseBody, start_append]
  by_cases ht : t = []
  · subst ht
    rw [if_pos ⟨rfl, Option.some_ne_none 0⟩, Option.isSome_map, expandGroups_isSome_iff]
    exact iff_of_true (Or.inr ⟨rfl, by decide⟩) (Or.inl rfl)
  · rw [if_neg fun hnil => ht hnil.1, bind_expand_isSome_iff,
      parseGroups_expand_iff ⟨[], some 0⟩ ht rfl]
    constructor
    · rintro (hbody | hbody)
      · cases hbody.seen_after rfl
      · exact Or.inr hbody
    · rintro (hnil | hbody)
      · exact absurd hnil ht
      · exact Or.inr hbody

theorem parseBody_isSome_iff {s : Bytes} (hstart : ¬ hasPrefix s (str "::") = true) :
    (parseBody s []).isSome ↔ Body false s 8 false ∨ ∃ m, m ≤ 7 ∧ Body false s m true := by
  rw [parseBody, start, if_neg hstart, if_neg (by simp), bind_expand_isSome_iff]
  by_cases hs : s = []
  · subst hs
    constructor
    · rintro ⟨st, hparse, -⟩
      cases hparse
    · rintro (hbody | ⟨m, -, hbody⟩)
      · obtain ⟨b, u, heq, -⟩ := hbody.exists_cons
        cases heq
      · obtain ⟨b, u, heq, -⟩ := hbody.exists_cons
        cases heq
  · exact parseGroups_expand_iff ⟨[], none⟩ hs rfl

theorem parseBody_isSome_iff_isIPv6 (s : Bytes) : (parseBody s []).isSome ↔ IsIPv6 s := by
  rw [isIPv6_iff_body]
  by_cases hprefix : hasPrefix s (str "::") = true
  · obtain ⟨t, rfl⟩ := List.isPrefixOf_iff_prefix.mp hprefix
    rw [parseBody_append_isSome_iff]
    constructor
    · rintro (rfl | ⟨m, hle, hbody⟩)
      · exact Or.inr (Or.inr (Or.inl rfl))
      · exact Or.inr (Or.inr (Or.inr ⟨t, m, hle, hbody, rfl⟩))
    · rintro (hbody | ⟨m, -, hbody⟩ | heq | ⟨u, m, hle, hbody, heq⟩)
      · rw [hbody.not_hasPrefix] at hprefix
        cases hprefix
      · rw [hbody.not_hasPrefix] at hprefix
        cases hprefix
      · exact Or.inl (by simpa using heq)
      · cases List.append_cancel_left heq
        exact Or.inr ⟨m, hle, hbody⟩
  · rw [parseBody_isSome_iff hprefix]
    constructor
    · rintro (hbody | hbody)
      · exact Or.inl hbody
      · exact Or.inr (Or.inl hbody)
    · rintro (hbody | hbody | rfl | ⟨u, m, -, -, rfl⟩)
      · exact Or.inl hbody
      · exact Or.inr hbody
      · exact absurd rfl hprefix
      · exact absurd (hasPrefix_append _ _) hprefix

theorem IsIPv6.not_percent {s : Bytes} (h : IsIPv6 s) : chr '%' ∉ s := by
  rcases (isIPv6_iff_body s).mp h with hbody | ⟨m, -, hbody⟩ | rfl | ⟨t, m, -, hbody, rfl⟩
  · exact hbody.not_percent
  · exact hbody.not_percent
  · decide
  · rw [List.mem_append]
    rintro (hmem | hmem)
    · revert hmem
      decide
    · exact hbody.not_percent hmem

theorem parseIPv6_iff (s : Bytes) : (∃ a, parseIPv6 s = some a ∧ a.zone = []) ↔ IsIPv6 s := by
  constructor
  · rintro ⟨a, ha, hzone⟩
    rw [parseIPv6_of_not_percent (parseIPv6_zone ha hzone)] at ha
    exact (parseBody_isSome_iff_isIPv6 s).mp (Option.isSome_of_eq_some ha)
  · intro h
    obtain ⟨a, ha⟩ := Option.isSome_iff_exists.mp ((parseBody_isSome_iff_isIPv6 s).mpr h)
    refine ⟨a, ?_, parseBody_zone ha⟩
    rw [parseIPv6_of_not_percent h.not_percent, ha]

/-- The bytes by which `ParseAddr` tells the two kinds apart. -/
def isSeparator (b : UInt8) : Bool := decide (b = chr '.' ∨ b = chr ':' ∨ b = chr '%')

theorem not_isSeparator_of_isHex {b : UInt8} (h : isHex b = true) : isSeparator b = false := by
  rw [isSeparator, decide_eq_false_iff_not]
  rintro (rfl | rfl | rfl) <;> revert h <;> decide

/-- The first separator comes after a group. -/
theorem find_separator {g rest : Bytes} {b : UInt8} (hg : ∀ c ∈ g, isHex c = true)
    (hb : isSeparator b = true) : (g ++ b :: rest).find? isSeparator = some b := by
  have hnone : g.find? isSeparator = none :=
    List.find?_eq_none.mpr fun c hc => by simp [not_isSeparator_of_isHex (hg c hc)]
  rw [List.find?_append, hnone, List.find?_cons, hb]
  rfl

theorem IsIPv4.find_separator {s : Bytes} (h : IsIPv4 s) : s.find? isSeparator = some (chr '.') := by
  obtain ⟨a, rest, ha, rfl⟩ := h.exists_octet
  exact Netip.find_separator (fun c hc => ha.hex_of_mem hc) (by decide)

/-- More than a group or a dotted tail starts with a group and a colon. -/
theorem Body.exists_colon {seen after : Bool} {s : Bytes} {n : Nat} (h : Body seen s n after)
    (hmore : seen ≠ after ∨ 2 < n) : ∃ g rest, IsGroup g ∧ s = g ++ chr ':' :: rest := by
  cases h with
  | last hg => simp at hmore
  | tail ht => simp at hmore
  | colon hg hs => exact ⟨_, _, hg, rfl⟩
  | ends hg => exact ⟨_, _, hg, rfl⟩
  | ellipsis hg hs => exact ⟨_, _, hg, rfl⟩

theorem IsIPv6.find_separator {s : Bytes} (h : IsIPv6 s) : s.find? isSeparator = some (chr ':') := by
  have hgroup : ∀ {s : Bytes}, (∃ g rest, IsGroup g ∧ s = g ++ chr ':' :: rest) →
      s.find? isSeparator = some (chr ':') := by
    rintro s ⟨g, rest, hg, rfl⟩
    exact Netip.find_separator (fun c hc => hg.hex_of_mem hc) (by decide)
  rcases (isIPv6_iff_body s).mp h with hbody | ⟨m, -, hbody⟩ | rfl | ⟨t, m, -, hbody, rfl⟩
  · exact hgroup (hbody.exists_colon (Or.inr (by omega)))
  · exact hgroup (hbody.exists_colon (Or.inl Bool.false_ne_true))
  · decide
  · exact Netip.find_separator (g := []) (List.forall_mem_nil _) (by decide)

theorem parseAddr_eq (s : Bytes) :
    parseAddr s = (s.find? isSeparator).bind fun b =>
      if b = chr '.' then (parseIPv4Fields s).map .v4
      else if b = chr ':' then parseIPv6 s else none := by
  unfold parseAddr
  show _ = (s.find? fun b => decide (b = chr '.' ∨ b = chr ':' ∨ b = chr '%')).bind _
  cases s.find? fun b => decide (b = chr '.' ∨ b = chr ':' ∨ b = chr '%') with
  | none => rfl
  | some b => rfl

/-- `ParseAddr` accepts the two text forms, and nothing else without a zone. -/
theorem parseAddr_iff (s : Bytes) :
    (∃ a, parseAddr s = some a ∧ a.zone = []) ↔ IsIPv4 s ∨ IsIPv6 s := by
  rw [parseAddr_eq]
  constructor
  · rintro ⟨a, ha, hzone⟩
    obtain ⟨b, -, ha⟩ := Option.bind_eq_some_iff.mp ha
    split at ha
    · obtain ⟨v, hv, -⟩ := Option.map_eq_some_iff.mp ha
      exact Or.inl ((parseIPv4Fields_isSome_iff s).mp (Option.isSome_of_eq_some hv))
    · obtain ⟨-, ha⟩ := Option.ite_none_right_eq_some.mp ha
      exact Or.inr ((parseIPv6_iff s).mp ⟨a, ha, hzone⟩)
  · rintro (h | h)
    · obtain ⟨v, hv⟩ := Option.isSome_iff_exists.mp ((parseIPv4Fields_isSome_iff s).mpr h)
      rw [h.find_separator, Option.bind_some, if_pos rfl, hv]
      exact ⟨_, rfl, rfl⟩
    · rw [h.find_separator, Option.bind_some, if_neg (by decide), if_pos rfl]
      exact (parseIPv6_iff s).mpr h

end Go.Netip

import RealmFormal.Go.JsonRoundTrip

/-!
# Reading a value from a stream

A value that was read completely is read the same way when more text follows it.
Numbers are the exception, because more digits may follow: something else has to
come after them first. A truncated document is therefore refused or read like
the whole one.
-/

namespace Go.Json
set_option autoImplicit false

theorem scanString_append {mode : Mode} {s : Bytes} {ts : List Token} {r : Bytes}
    (h : scanString mode s = some (ts, r)) (t : Bytes) :
    scanString mode (s ++ t) = some (ts, r ++ t) := by
  induction s generalizing mode ts r with
  | nil => cases mode <;> simp [scanString] at h
  | cons c s ih =>
    cases mode with
    | plain =>
      simp only [scanString, List.cons_append] at h ⊢
      split at h
      · cases h
        rw [if_pos ‹_›]
      · split at h
        · rw [if_neg ‹_›, if_pos ‹_›]
          exact ih h
        · split at h
          · cases h
          · rw [if_neg ‹_›, if_neg ‹_›, if_neg ‹_›]
            obtain ⟨p, hp, heq⟩ := Option.map_eq_some_iff.mp h
            cases heq
            rw [ih hp]
            rfl
    | escape =>
      simp only [scanString, List.cons_append] at h ⊢
      split at h
      · rw [if_pos ‹_›]
        exact ih h
      · rw [if_neg ‹_›]
        obtain ⟨b, hb, h⟩ := Option.bind_eq_some_iff.mp h
        obtain ⟨p, hp, heq⟩ := Option.map_eq_some_iff.mp h
        cases heq
        rw [hb, Option.bind_some, ih hp]
        rfl
    | hex left code =>
      obtain ⟨d, hd, h⟩ := Option.bind_eq_some_iff.mp h
      cases left with
      | zero =>
        obtain ⟨p, hp, heq⟩ := Option.map_eq_some_iff.mp h
        cases heq
        simp [scanString, hd, ih hp]
      | succ n =>
        simp [scanString, hd, ih h]

theorem skipSpace_append {s : Bytes} {c : UInt8} {r : Bytes} (h : skipSpace s = c :: r) (t : Bytes) :
    skipSpace (s ++ t) = c :: (r ++ t) := by
  unfold skipSpace at h ⊢
  rw [List.dropWhile_append, h]
  simp

theorem digits_append {s : Bytes} (h : s.dropWhile isDigit ≠ []) (t : Bytes) :
    (s ++ t).takeWhile isDigit = s.takeWhile isDigit ∧
      (s ++ t).dropWhile isDigit = s.dropWhile isDigit ++ t := by
  induction s with
  | nil => exact absurd rfl h
  | cons c s ih =>
    by_cases hc : isDigit c = true
    · simp only [List.dropWhile_cons_of_pos hc] at h
      simp [hc, ih h]
    · simp [hc]

theorem scanMinus_append {s : Bytes} (h : s ≠ []) (t : Bytes) :
    scanMinus (s ++ t) = ((scanMinus s).1, (scanMinus s).2 ++ t) := by
  cases s with
  | nil => exact absurd rfl h
  | cons c s =>
    simp only [scanMinus, List.cons_append]
    split <;> rfl

theorem scanSign_append {s : Bytes} (h : s ≠ []) (t : Bytes) :
    scanSign (s ++ t) = ((scanSign s).1, (scanSign s).2 ++ t) := by
  cases s with
  | nil => exact absurd rfl h
  | cons c s =>
    simp only [scanSign, List.cons_append]
    split <;> rfl

theorem scanInteger_append {s i r : Bytes} (h : scanInteger s = some (i, r)) (hr : r ≠ [])
    (t : Bytes) : scanInteger (s ++ t) = some (i, r ++ t) := by
  cases s with
  | nil => cases h
  | cons c s =>
    simp only [scanInteger, List.cons_append] at h ⊢
    split at h
    · cases h
      rw [if_pos ‹_›]
    · split at h
      · cases h
        rw [if_neg ‹_›, if_pos ‹_›, (digits_append hr t).1, (digits_append hr t).2]
      · cases h

theorem scanFraction_append {s f r : Bytes} (h : scanFraction s = some (f, r)) (hr : r ≠ [])
    (t : Bytes) : scanFraction (s ++ t) = some (f, r ++ t) := by
  cases s with
  | nil =>
    cases h
    exact absurd rfl hr
  | cons c s =>
    simp only [scanFraction, List.cons_append] at h ⊢
    split at h
    · split at h
      · cases h
      · cases h
        rw [if_pos ‹_›, (digits_append hr t).1, (digits_append hr t).2, if_neg ‹_›]
    · cases h
      rw [if_neg ‹_›]
      rfl

theorem scanExponent_append {s e r : Bytes} (h : scanExponent s = some (e, r)) (hr : r ≠ [])
    (t : Bytes) : scanExponent (s ++ t) = some (e, r ++ t) := by
  cases s with
  | nil =>
    cases h
    exact absurd rfl hr
  | cons c s =>
    simp only [scanExponent, List.cons_append] at h ⊢
    split at h
    · split at h
      · cases h
      · rename_i hdigits
        cases h
        have hs : s ≠ [] := by
          rintro rfl
          exact hr rfl
        rw [if_pos ‹_›, scanSign_append hs t]
        rw [(digits_append hr t).1, (digits_append hr t).2, if_neg hdigits]
    · cases h
      rw [if_neg ‹_›]
      rfl

theorem scanFraction_rest {s f r : Bytes} (h : scanFraction s = some (f, r)) (hr : r ≠ []) :
    s ≠ [] := by
  rintro rfl
  cases h
  exact hr rfl

theorem scanExponent_rest {s e r : Bytes} (h : scanExponent s = some (e, r)) (hr : r ≠ []) :
    s ≠ [] := by
  rintro rfl
  cases h
  exact hr rfl

theorem scanNumber_append {s l r : Bytes} (h : scanNumber s = some (l, r)) (hr : r ≠ [])
    (t : Bytes) : scanNumber (s ++ t) = some (l, r ++ t) := by
  unfold scanNumber at h ⊢
  obtain ⟨i, hi, h⟩ := Option.bind_eq_some_iff.mp h
  obtain ⟨f, hf, h⟩ := Option.bind_eq_some_iff.mp h
  obtain ⟨e, he, h⟩ := Option.map_eq_some_iff.mp h
  cases h
  have hs : s ≠ [] := by
    rintro rfl
    cases hi
  have hf2 := scanExponent_rest he hr
  have hi2 := scanFraction_rest hf hf2
  rw [scanMinus_append hs]
  simp [scanInteger_append hi hi2 t, scanFraction_append hf hf2 t, scanExponent_append he hr t]

/-- A value that more text cannot change: one that is not a number, or that is followed by
something else already. -/
def Closed (v : Value) (rest : Bytes) : Prop := rest ≠ [] ∨ ∀ l, v ≠ .number l

theorem scanScalar_append {s : Bytes} {v : Value} {r : Bytes} (h : scanScalar s = some (v, r))
    (hr : Closed v r) (t : Bytes) : scanScalar (s ++ t) = some (v, r ++ t) := by
  unfold scanScalar at h
  split at h
  · rename_i hword
    cases h
    obtain ⟨u, rfl⟩ := List.isPrefixOf_iff_prefix.mp hword
    exact scanScalar_true (u ++ t)
  · split at h
    · rename_i hword
      cases h
      obtain ⟨u, rfl⟩ := List.isPrefixOf_iff_prefix.mp hword
      exact scanScalar_false (u ++ t)
    · split at h
      · rename_i hword
        cases h
        obtain ⟨u, rfl⟩ := List.isPrefixOf_iff_prefix.mp hword
        exact scanScalar_null (u ++ t)
      · obtain ⟨p, hp, heq⟩ := Option.map_eq_some_iff.mp h
        cases heq
        have hne : p.2 ≠ [] := hr.resolve_right fun hnum => hnum p.1 rfl
        exact scanScalar_number (scanNumber_append hp hne t)

/-- What is inside a pair of brackets, read by `f` and with more text by `g`. -/
theorem bracket_append {α : Type} {f g : Bytes → Option (α × Bytes)} {t : Bytes}
    (hfg : ∀ s a r, f s = some (a, r) → g (s ++ t) = some (a, r ++ t)) (close : UInt8)
    (empty : Value) (make : α → Value) {s : Bytes} {v : Value} {r : Bytes}
    (h : (match skipSpace s with
      | [] => none
      | d :: s => if d = close then some (empty, s)
        else (f (d :: s)).map fun r => (make r.1, r.2)) = some (v, r)) :
    (match skipSpace (s ++ t) with
      | [] => none
      | d :: s => if d = close then some (empty, s)
        else (g (d :: s)).map fun r => (make r.1, r.2)) = some (v, r ++ t) := by
  split at h
  · cases h
  · rename_i d rest hd
    rw [skipSpace_append hd t]
    dsimp only
    split at h
    · cases h
      rw [if_pos ‹_›]
    · rw [if_neg ‹_›]
      obtain ⟨p, hp, heq⟩ := Option.map_eq_some_iff.mp h
      cases heq
      rw [← List.cons_append, hfg _ _ _ hp]
      rfl

/-- Reading with fuel `n` is not changed by more fuel and more text. -/
structure Stable (n : Nat) : Prop where
  value : ∀ {s : Bytes} {v : Value} {r : Bytes}, parseValue n s = some (v, r) → Closed v r →
    ∀ {m : Nat}, n ≤ m → ∀ t, parseValue m (s ++ t) = some (v, r ++ t)
  elements : ∀ {s : Bytes} {vs : List Value} {r : Bytes}, parseElements n s = some (vs, r) →
    ∀ {m : Nat}, n ≤ m → ∀ t, parseElements m (s ++ t) = some (vs, r ++ t)
  members : ∀ {s : Bytes} {ms : List (Bytes × Value)} {r : Bytes},
    parseMembers n s = some (ms, r) →
      ∀ {m : Nat}, n ≤ m → ∀ t, parseMembers m (s ++ t) = some (ms, r ++ t)

theorem Stable.value_succ {n : Nat} (ih : Stable n) {s : Bytes} {v : Value} {r : Bytes}
    (h : parseValue (n + 1) s = some (v, r)) (hr : Closed v r) {m : Nat} (hm : n ≤ m) (t : Bytes) :
    parseValue (m + 1) (s ++ t) = some (v, r ++ t) := by
  rw [parseValue] at h ⊢
  split at h
  · cases h
  · rename_i c rest hc
    rw [skipSpace_append hc t]
    dsimp only
    split at h
    · rw [if_pos ‹_›]
      obtain ⟨p, hp, heq⟩ := Option.map_eq_some_iff.mp h
      cases heq
      rw [scanString_append hp t]
      rfl
    · rw [if_neg ‹_›]
      split at h
      · rw [if_pos ‹_›]
        exact bracket_append (fun _ _ _ hp => ih.elements hp hm t) _ _ _ h
      · rw [if_neg ‹_›]
        split at h
        · rw [if_pos ‹_›]
          exact bracket_append (fun _ _ _ hp => ih.members hp hm t) _ _ _ h
        · rw [if_neg ‹_›]
          exact scanScalar_append h hr t

/-- A value with something other than space after it is closed. -/
theorem closed_of_skipSpace {v : Value} {r : Bytes} {c : UInt8} {rest : Bytes}
    (h : skipSpace r = c :: rest) : Closed v r := by
  left
  rintro rfl
  cases h

theorem Stable.elements_succ {n : Nat} (ih : Stable n) {s : Bytes} {vs : List Value} {r : Bytes}
    (h : parseElements (n + 1) s = some (vs, r)) {m : Nat} (hm : n ≤ m) (t : Bytes) :
    parseElements (m + 1) (s ++ t) = some (vs, r ++ t) := by
  rw [parseElements] at h ⊢
  obtain ⟨v, hv, h⟩ := Option.bind_eq_some_iff.mp h
  split at h
  · cases h
  · rename_i c rest hc
    rw [ih.value hv (closed_of_skipSpace hc) hm t, Option.bind_some, skipSpace_append hc t]
    dsimp only
    split at h
    · rw [if_pos ‹_›]
      obtain ⟨p, hp, heq⟩ := Option.map_eq_some_iff.mp h
      cases heq
      rw [ih.elements hp hm t]
      rfl
    · split at h
      · rw [if_neg ‹_›, if_pos ‹_›]
        cases h
        rfl
      · cases h

theorem Stable.members_succ {n : Nat} (ih : Stable n) {s : Bytes} {ms : List (Bytes × Value)}
    {r : Bytes} (h : parseMembers (n + 1) s = some (ms, r)) {m : Nat} (hm : n ≤ m) (t : Bytes) :
    parseMembers (m + 1) (s ++ t) = some (ms, r ++ t) := by
  rw [parseMembers] at h ⊢
  split at h
  · cases h
  · rename_i q rest hq
    rw [skipSpace_append hq t]
    dsimp only
    split at h
    · rw [if_pos ‹_›]
      obtain ⟨k, hk, h⟩ := Option.bind_eq_some_iff.mp h
      rw [scanString_append hk t, Option.bind_some]
      split at h
      · cases h
      · rename_i d rest' hd
        rw [skipSpace_append hd t]
        dsimp only
        split at h
        · rw [if_pos ‹_›]
          obtain ⟨v, hv, h⟩ := Option.bind_eq_some_iff.mp h
          split at h
          · cases h
          · rename_i c rest'' hc
            rw [ih.value hv (closed_of_skipSpace hc) hm t, Option.bind_some, skipSpace_append hc t]
            dsimp only
            split at h
            · rw [if_pos ‹_›]
              obtain ⟨p, hp, heq⟩ := Option.map_eq_some_iff.mp h
              cases heq
              rw [ih.members hp hm t]
              rfl
            · split at h
              · rw [if_neg ‹_›, if_pos ‹_›]
                cases h
                rfl
              · cases h
        · cases h
    · cases h

theorem stable (n : Nat) : Stable n := by
  induction n with
  | zero => exact ⟨nofun, nofun, nofun⟩
  | succ n ih =>
    have hsucc : ∀ {m : Nat}, n + 1 ≤ m → ∃ k, m = k + 1 ∧ n ≤ k :=
      fun {m} hm => ⟨m - 1, by omega, by omega⟩
    constructor
    · intro s v r h hr m hm t
      obtain ⟨k, rfl, hk⟩ := hsucc hm
      exact ih.value_succ h hr hk t
    · intro s vs r h m hm t
      obtain ⟨k, rfl, hk⟩ := hsucc hm
      exact ih.elements_succ h hk t
    · intro s ms r h m hm t
      obtain ⟨k, rfl, hk⟩ := hsucc hm
      exact ih.members_succ h hk t

/-- The first `limit` bytes of an encoded object give the object or nothing, and what is left of
them belongs to the text after it. -/
theorem parseValue_take {members : List (Bytes × Value)} (h : Integral (.object members))
    {rest : Bytes} (hr : NumberEnds rest) (limit : Nat) {v : Value} {r : Bytes}
    (hv : ∀ l, v ≠ .number l)
    (hparse : parseValue (((encode (.object members) ++ rest).take limit).length + 1)
      ((encode (.object members) ++ rest).take limit) = some (v, r)) :
    v = reread (.object members) ∧ r ++ (encode (.object members) ++ rest).drop limit = rest := by
  have hlen : ((encode (.object members) ++ rest).take limit).length + 1 ≤
      (encode (.object members) ++ rest).length + 1 := by
    rw [List.length_take]
    omega
  have hwhole := (stable _).value hparse (Or.inr hv) hlen
    ((encode (.object members) ++ rest).drop limit)
  rw [List.take_append_drop, parseValue_document h hr] at hwhole
  simp only [Option.some.injEq, Prod.mk.injEq] at hwhole
  exact ⟨hwhole.1.symm, hwhole.2.symm⟩

end Go.Json

import RealmFormal.Go.JsonString

/-!
# Parsing what the encoder wrote

The round trip for documents whose numbers are integers. Strings come back as
`requote` leaves them, so a document of plain strings comes back as it was. Fuel
is only a bound: the length of the text is always enough.
-/

namespace Go.Json
set_option autoImplicit false

/- Every number in the value is an integer. -/
mutual
def Integral : Value → Prop
  | .null => True
  | .bool _ => True
  | .number l => ∃ n : Int, l = itoa n
  | .string _ => True
  | .array vs => IntegralElements vs
  | .object ms => IntegralMembers ms
def IntegralElements : List Value → Prop
  | [] => True
  | v :: vs => Integral v ∧ IntegralElements vs
def IntegralMembers : List (Bytes × Value) → Prop
  | [] => True
  | (_, v) :: ms => Integral v ∧ IntegralMembers ms
end

/- The value after it was encoded and decoded. -/
mutual
def reread : Value → Value
  | .null => .null
  | .bool b => .bool b
  | .number l => .number l
  | .string s => .string (requote s)
  | .array vs => .array (rereadElements vs)
  | .object ms => .object (rereadMembers ms)
def rereadElements : List Value → List Value
  | [] => []
  | v :: vs => reread v :: rereadElements vs
def rereadMembers : List (Bytes × Value) → List (Bytes × Value)
  | [] => []
  | (k, v) :: ms => (requote k, reread v) :: rereadMembers ms
end

/-- The bytes that can follow a number without becoming part of it. -/
def NumberEnds (rest : Bytes) : Prop :=
  ∀ c t, rest = c :: t →
    isDigit c = false ∧ c ≠ chr '.' ∧ c ≠ chr 'e' ∧ c ≠ chr 'E'

theorem takeWhile_digits {ds rest : Bytes} (hd : ∀ b ∈ ds, isDigit b = true)
    (hr : NumberEnds rest) : (ds ++ rest).takeWhile isDigit = ds ∧
      (ds ++ rest).dropWhile isDigit = rest := by
  induction ds with
  | nil =>
    cases rest with
    | nil => exact ⟨rfl, rfl⟩
    | cons c t => simp [(hr c t rfl).1]
  | cons d ds ih =>
    have ih := ih fun b hb => hd b (List.mem_cons_of_mem d hb)
    simp [hd d List.mem_cons_self, ih]

theorem scanInteger_natDigits (n : Nat) {rest : Bytes} (hr : NumberEnds rest) :
    scanInteger (natDigits n ++ rest) = some (natDigits n, rest) := by
  by_cases h : n = 0
  · subst h
    rfl
  · obtain ⟨b, t, hbt, hlo, hhi⟩ := natDigits_head h
    have hdig := natDigits_isDigit n
    rw [hbt] at hdig ⊢
    have hb : b ≠ chr '0' := by
      rintro rfl
      exact absurd hlo (by decide)
    have ht := takeWhile_digits (fun c hc => hdig c (List.mem_cons_of_mem b hc)) hr
    simp [scanInteger, hb, hdig b List.mem_cons_self, ht.1, ht.2]

theorem scanFraction_none {rest : Bytes} (hr : NumberEnds rest) :
    scanFraction rest = some ([], rest) := by
  cases rest with
  | nil => rfl
  | cons c t => simp [scanFraction, (hr c t rfl).2.1]

theorem scanExponent_none {rest : Bytes} (hr : NumberEnds rest) :
    scanExponent rest = some ([], rest) := by
  cases rest with
  | nil => rfl
  | cons c t => simp [scanExponent, (hr c t rfl).2.2.1, (hr c t rfl).2.2.2]

theorem scanMinus_digits {ds : Bytes} (hne : ds ≠ []) (hd : ∀ b ∈ ds, isDigit b = true)
    (rest : Bytes) :
    scanMinus (ds ++ rest) = ([], ds ++ rest) := by
  cases ds with
  | nil => exact absurd rfl hne
  | cons d ds => simp [scanMinus, (digit_ne_sign (hd d List.mem_cons_self)).1]

theorem scanNumber_itoa (n : Int) {rest : Bytes} (hr : NumberEnds rest) :
    scanNumber (itoa n ++ rest) = some (itoa n, rest) := by
  cases n with
  | ofNat k =>
    have hm := scanMinus_digits (natDigits_ne_nil k) (natDigits_isDigit k) rest
    simp [scanNumber, itoa, hm, scanInteger_natDigits k hr, scanFraction_none hr,
      scanExponent_none hr]
  | negSucc k =>
    simp [scanNumber, itoa, scanMinus, scanInteger_natDigits (k + 1) hr, scanFraction_none hr,
      scanExponent_none hr]

/-- The first byte of an integer: never a space, a bracket, a quote or a letter. -/
theorem itoa_head (n : Int) : ∃ b t, itoa n = b :: t ∧ (isDigit b = true ∨ b = chr '-') := by
  cases n with
  | ofNat k =>
    obtain ⟨b, t, hbt⟩ := List.exists_cons_of_ne_nil (natDigits_ne_nil k)
    exact ⟨b, t, hbt, Or.inl (natDigits_isDigit k b (by simp [hbt]))⟩
  | negSucc k => exact ⟨_, _, rfl, Or.inr rfl⟩

theorem skipSpace_of_head {b : UInt8} {t : Bytes} (h : isSpace b = false) :
    skipSpace (b :: t) = b :: t := by simp [skipSpace, h]

theorem number_head_facts {b : UInt8} (h : isDigit b = true ∨ b = chr '-') :
    isSpace b = false ∧ b ≠ chr '"' ∧ b ≠ chr '[' ∧ b ≠ chr '\x7b' ∧
      b ≠ chr 't' ∧ b ≠ chr 'f' ∧ b ≠ chr 'n' := by
  rcases h with h | rfl
  · simp only [isDigit, decide_eq_true_eq] at h
    have key : ∀ c : UInt8, ¬ (48 ≤ c.toNat ∧ c.toNat ≤ 57) → b ≠ c := by
      rintro c hc rfl
      exact hc h
    refine ⟨?_, key _ (by decide), key _ (by decide), key _ (by decide), key _ (by decide),
      key _ (by decide), key _ (by decide)⟩
    simp only [isSpace, decide_eq_false_iff_not, not_or]
    exact ⟨key _ (by decide), key _ (by decide), key _ (by decide), key _ (by decide)⟩
  · decide

/-- None of the words starts like a number. -/
theorem hasPrefix_word_of_number {c : UInt8} (h : isDigit c = true ∨ c = chr '-') (s : Bytes) :
    hasPrefix (c :: s) (str "true") = false ∧ hasPrefix (c :: s) (str "false") = false ∧
      hasPrefix (c :: s) (str "null") = false := by
  obtain ⟨-, -, -, -, ht, hf, hn⟩ := number_head_facts h
  have hne : ∀ (d : UInt8) (w : Bytes), c ≠ d → hasPrefix (c :: s) (d :: w) = false := by
    intro d w hd
    simp [hasPrefix, List.isPrefixOf, Ne.symm hd]
  exact ⟨hne _ _ ht, hne _ _ hf, hne _ _ hn⟩

/-- A number starts with a digit or a minus sign. -/
theorem scanNumber_head {s : Bytes} {p : Bytes × Bytes} (h : scanNumber s = some p) :
    ∃ c t, s = c :: t ∧ (isDigit c = true ∨ c = chr '-') := by
  cases s with
  | nil => cases h
  | cons c t =>
    refine ⟨c, t, rfl, ?_⟩
    by_contra hc
    push Not at hc
    obtain ⟨hdigit, hminus⟩ := hc
    have hzero : c ≠ chr '0' := by
      rintro rfl
      exact hdigit (by decide)
    simp [scanNumber, scanMinus, hminus, scanInteger, hzero, hdigit] at h

theorem scanScalar_number {s : Bytes} {p : Bytes × Bytes} (h : scanNumber s = some p) :
    scanScalar s = some (.number p.1, p.2) := by
  obtain ⟨c, t, rfl, hc⟩ := scanNumber_head h
  obtain ⟨h1, h2, h3⟩ := hasPrefix_word_of_number hc t
  simp [scanScalar, h1, h2, h3, h]

theorem scanScalar_itoa (n : Int) {rest : Bytes} (hr : NumberEnds rest) :
    scanScalar (itoa n ++ rest) = some (.number (itoa n), rest) :=
  scanScalar_number (scanNumber_itoa n hr)

theorem parseValue_itoa (n : Int) {rest : Bytes} (hr : NumberEnds rest) (k : Nat) :
    parseValue (k + 1) (itoa n ++ rest) = some (.number (itoa n), rest) := by
  have hscan := scanScalar_itoa n hr
  obtain ⟨b, t, hbt, hb⟩ := itoa_head n
  rw [hbt] at hscan ⊢
  obtain ⟨hs, hq, hl, ho, _⟩ := number_head_facts hb
  rw [List.cons_append] at hscan ⊢
  simp only [parseValue, skipSpace_of_head hs, if_neg hq, if_neg hl, if_neg ho, hscan]

theorem parseValue_string (s rest : Bytes) (k : Nat) :
    parseValue (k + 1) (encodeString s ++ rest) = some (.string (requote s), rest) := by
  have hs : skipSpace (chr '"' :: (escape .start s ++ chr '"' :: rest)) =
      chr '"' :: (escape .start s ++ chr '"' :: rest) := skipSpace_of_head (by decide)
  have hscan := scanString_escape .start s trivial rest
  simp [encodeString, parseValue, hs, hscan, requote]

theorem parseValue_word {w rest : Bytes} {v : Value} {b : UInt8} {t : Bytes} (hw : w = b :: t)
    (hb : isSpace b = false ∧ b ≠ chr '"' ∧ b ≠ chr '[' ∧ b ≠ chr '\x7b')
    (hscan : scanScalar (w ++ rest) = some (v, rest)) (k : Nat) :
    parseValue (k + 1) (w ++ rest) = some (v, rest) := by
  subst hw
  rw [List.cons_append] at hscan ⊢
  simp only [parseValue, skipSpace_of_head hb.1, if_neg hb.2.1, if_neg hb.2.2.1, if_neg hb.2.2.2,
    hscan]

theorem scanScalar_null (rest : Bytes) : scanScalar (str "null" ++ rest) = some (.null, rest) := rfl

theorem scanScalar_true (rest : Bytes) :
    scanScalar (str "true" ++ rest) = some (.bool true, rest) := rfl

theorem scanScalar_false (rest : Bytes) :
    scanScalar (str "false" ++ rest) = some (.bool false, rest) := rfl

theorem numberEnds_cons {c : UInt8} {t : Bytes}
    (h : isDigit c = false ∧ c ≠ chr '.' ∧ c ≠ chr 'e' ∧ c ≠ chr 'E') : NumberEnds (c :: t) := by
  intro d s heq
  cases heq
  exact h

theorem encodeElements_ends (vs : List Value) (rest : Bytes) :
    NumberEnds (encodeElements vs ++ rest) := by
  cases vs with
  | nil => exact numberEnds_cons (by decide)
  | cons v vs => exact numberEnds_cons (by decide)

theorem encodeMembers_ends (ms : List (Bytes × Value)) (rest : Bytes) :
    NumberEnds (encodeMembers ms ++ rest) := by
  cases ms with
  | nil => exact numberEnds_cons (by decide)
  | cons m ms => exact numberEnds_cons (by decide)

/-- The text of a value starts with a byte that is neither space nor a closing bracket. -/
theorem encode_head {v : Value} (h : Integral v) :
    ∃ b t, encode v = b :: t ∧ isSpace b = false ∧ b ≠ chr ']' := by
  cases v with
  | null => exact ⟨_, _, rfl, by decide, by decide⟩
  | bool b => cases b <;> exact ⟨_, _, rfl, by decide, by decide⟩
  | number l =>
    obtain ⟨n, rfl⟩ := h
    obtain ⟨b, t, hbt, hb⟩ := itoa_head n
    refine ⟨b, t, hbt, (number_head_facts hb).1, ?_⟩
    rcases hb with hb | rfl
    · rintro rfl
      exact absurd hb (by decide)
    · decide
  | string s => exact ⟨_, _, rfl, by decide, by decide⟩
  | array vs => cases vs <;> exact ⟨_, _, rfl, by decide, by decide⟩
  | object ms => cases ms <;> exact ⟨_, _, rfl, by decide, by decide⟩

theorem encode_length_pos {v : Value} (h : Integral v) : 0 < (encode v).length := by
  obtain ⟨b, t, hbt, _⟩ := encode_head h
  simp [hbt]

mutual
theorem parseValue_encode (v : Value) (h : Integral v) (n : Nat) (hn : (encode v).length ≤ n)
    (rest : Bytes) (hr : NumberEnds rest) :
    parseValue n (encode v ++ rest) = some (reread v, rest) := by
  have hpos := encode_length_pos h
  obtain ⟨k, rfl⟩ : ∃ k, n = k + 1 := ⟨n - 1, by omega⟩
  match v with
  | .null => exact parseValue_word rfl (by decide) (scanScalar_null rest) k
  | .bool true => exact parseValue_word rfl (by decide) (scanScalar_true rest) k
  | .bool false => exact parseValue_word rfl (by decide) (scanScalar_false rest) k
  | .number l =>
    obtain ⟨i, rfl⟩ := h
    exact parseValue_itoa i hr k
  | .string s => exact parseValue_string s rest k
  | .array [] => rfl
  | .array (v :: vs) =>
    obtain ⟨b, t, hbt, hs, hb⟩ := encode_head h.1
    have hlen : (encode v).length + (encodeElements vs).length ≤ k := by
      simp only [encode, List.length_cons, List.length_append] at hn
      omega
    have hrec := parseElements_encode v vs h.1 h.2 k hlen rest
    have hopen : skipSpace (chr '[' :: (encode v ++ (encodeElements vs ++ rest))) =
        chr '[' :: (encode v ++ (encodeElements vs ++ rest)) := skipSpace_of_head (by decide)
    simp only [encode, List.cons_append, List.append_assoc, parseValue, hopen]
    rw [hbt] at hrec ⊢
    rw [List.cons_append] at hrec ⊢
    simp only [skipSpace_of_head hs, if_neg hb, hrec]
    rfl
  | .object [] => rfl
  | .object ((key, v) :: ms) =>
    have hlen : (encodeString key).length + 1 + (encode v).length + (encodeMembers ms).length ≤ k := by
      simp only [encode, List.length_cons, List.length_append] at hn
      omega
    have hrec := parseMembers_encode key v ms h.1 h.2 k hlen rest
    have hopen : ∀ s, skipSpace (chr '\x7b' :: s) = chr '\x7b' :: s :=
      fun s => skipSpace_of_head (by decide)
    have hquote : ∀ s, skipSpace (chr '"' :: s) = chr '"' :: s :=
      fun s => skipSpace_of_head (by decide)
    simp only [encode, List.cons_append, List.append_assoc, parseValue, hopen]
    simp only [encodeString, List.cons_append] at hrec ⊢
    simp only [hquote, hrec]
    rfl
termination_by n
theorem parseElements_encode (v : Value) (vs : List Value) (hv : Integral v)
    (hvs : IntegralElements vs) (n : Nat)
    (hn : (encode v).length + (encodeElements vs).length ≤ n) (rest : Bytes) :
    parseElements n (encode v ++ (encodeElements vs ++ rest)) =
      some (rereadElements (v :: vs), rest) := by
  have hpos := encode_length_pos hv
  obtain ⟨k, rfl⟩ : ∃ k, n = k + 1 := ⟨n - 1, by omega⟩
  have htail : 0 < (encodeElements vs).length := by cases vs <;> simp [encodeElements]
  have hfirst := parseValue_encode v hv k (by omega) (encodeElements vs ++ rest)
    (encodeElements_ends vs rest)
  simp only [parseElements, hfirst, Option.bind_some]
  match vs with
  | [] => rfl
  | w :: ws =>
    have hlen : (encode w).length + (encodeElements ws).length ≤ k := by
      simp only [encodeElements, List.length_cons, List.length_append] at hn
      omega
    have hrec := parseElements_encode w ws hvs.1 hvs.2 k hlen rest
    have hcomma : ∀ s, skipSpace (chr ',' :: s) = chr ',' :: s :=
      fun s => skipSpace_of_head (by decide)
    simp only [encodeElements, List.cons_append, List.append_assoc, hcomma, if_true, hrec]
    rfl
termination_by n
theorem parseMembers_encode (key : Bytes) (v : Value) (ms : List (Bytes × Value))
    (hv : Integral v) (hms : IntegralMembers ms) (n : Nat)
    (hn : (encodeString key).length + 1 + (encode v).length + (encodeMembers ms).length ≤ n)
    (rest : Bytes) :
    parseMembers n (encodeString key ++ chr ':' :: (encode v ++ (encodeMembers ms ++ rest))) =
      some (rereadMembers ((key, v) :: ms), rest) := by
  obtain ⟨k, rfl⟩ : ∃ k, n = k + 1 := ⟨n - 1, by omega⟩
  have hfirst := parseValue_encode v hv k (by omega) (encodeMembers ms ++ rest)
    (encodeMembers_ends ms rest)
  have hquote : ∀ s, skipSpace (chr '"' :: s) = chr '"' :: s :=
    fun s => skipSpace_of_head (by decide)
  have hcolon : ∀ s, skipSpace (chr ':' :: s) = chr ':' :: s :=
    fun s => skipSpace_of_head (by decide)
  simp only [encodeString, List.cons_append, List.append_assoc, List.nil_append, parseMembers,
    hquote, if_true, scanString_escape .start key trivial, Option.bind_some, hcolon, hfirst]
  match ms with
  | [] => rfl
  | (key', w) :: ms' =>
    have hlen : (encodeString key').length + 1 + (encode w).length +
        (encodeMembers ms').length ≤ k := by
      simp only [encodeMembers, List.length_cons, List.length_append] at hn
      omega
    have hrec := parseMembers_encode key' w ms' hms.1 hms.2 k hlen rest
    have hcomma : ∀ s, skipSpace (chr ',' :: s) = chr ',' :: s :=
      fun s => skipSpace_of_head (by decide)
    simp only [encodeMembers, List.cons_append, List.append_assoc, hcomma, if_true, hrec]
    rfl
termination_by n
end

theorem parseValue_document {v : Value} (h : Integral v) {rest : Bytes} (hr : NumberEnds rest) :
    parseValue ((encode v ++ rest).length + 1) (encode v ++ rest) = some (reread v, rest) :=
  parseValue_encode v h _ (by simp only [List.length_append]; omega) rest hr

/-! ## Plain documents -/

mutual
def Plain : Value → Prop
  | .null => True
  | .bool _ => True
  | .number l => ∃ n : Int, l = itoa n
  | .string s => PlainString s
  | .array vs => PlainElements vs
  | .object ms => PlainMembers ms
def PlainElements : List Value → Prop
  | [] => True
  | v :: vs => Plain v ∧ PlainElements vs
def PlainMembers : List (Bytes × Value) → Prop
  | [] => True
  | (k, v) :: ms => PlainString k ∧ Plain v ∧ PlainMembers ms
end

mutual
theorem Plain.reread_eq {v : Value} (h : Plain v) : Integral v ∧ reread v = v := by
  match v with
  | .null => exact ⟨trivial, rfl⟩
  | .bool _ => exact ⟨trivial, rfl⟩
  | .number _ => exact ⟨h, rfl⟩
  | .string s => exact ⟨trivial, congrArg Value.string (requote_plain h)⟩
  | .array vs =>
    obtain ⟨hi, hr⟩ := PlainElements.reread_eq h
    exact ⟨hi, congrArg Value.array hr⟩
  | .object ms =>
    obtain ⟨hi, hr⟩ := PlainMembers.reread_eq h
    exact ⟨hi, congrArg Value.object hr⟩
theorem PlainElements.reread_eq {vs : List Value} (h : PlainElements vs) :
    IntegralElements vs ∧ rereadElements vs = vs := by
  match vs with
  | [] => exact ⟨trivial, rfl⟩
  | v :: vs =>
    obtain ⟨hv, hvr⟩ := Plain.reread_eq h.1
    obtain ⟨hvs, hvsr⟩ := PlainElements.reread_eq h.2
    exact ⟨⟨hv, hvs⟩, by rw [rereadElements, hvr, hvsr]⟩
theorem PlainMembers.reread_eq {ms : List (Bytes × Value)} (h : PlainMembers ms) :
    IntegralMembers ms ∧ rereadMembers ms = ms := by
  match ms with
  | [] => exact ⟨trivial, rfl⟩
  | (k, v) :: ms =>
    obtain ⟨hv, hvr⟩ := Plain.reread_eq h.2.1
    obtain ⟨hms, hmsr⟩ := PlainMembers.reread_eq h.2.2
    exact ⟨⟨hv, hms⟩, by rw [rereadMembers, requote_plain h.1, hvr, hmsr]⟩
end

/-- A plain document is parsed back to the value it was written from. -/
theorem parseValue_plain {v : Value} (h : Plain v) :
    parseValue ((encode v).length + 1) (encode v) = some (v, []) := by
  obtain ⟨hi, hr⟩ := h.reread_eq
  have hp := parseValue_document hi (show NumberEnds [] by nofun)
  rwa [List.append_nil, hr] at hp

theorem parseDocument_encode {v : Value} (h : Plain v) : parseDocument (encode v) = some v := by
  simp [parseDocument, parseValue_plain h, skipSpace]

theorem encodeMembers_length {ms : List (Bytes × Value)} (h : PlainMembers ms) :
    (encodeMembers ms).length =
      (ms.map fun m => m.1.length + (encode m.2).length + 4).sum + 1 := by
  induction ms with
  | nil => rfl
  | cons m ms ih =>
    obtain ⟨hkey, -, hms⟩ := h
    simp only [encodeMembers, List.length_cons, List.length_append, encodeString_length hkey,
      ih hms, List.map_cons, List.sum_cons]
    omega

/-- The opening brace is as long as the comma before a later member. -/
theorem encode_object_length {m : Bytes × Value} {ms : List (Bytes × Value)}
    (h : Plain (.object (m :: ms))) :
    (encode (.object (m :: ms))).length =
      ((m :: ms).map fun m => m.1.length + (encode m.2).length + 4).sum + 1 := by
  rw [← encodeMembers_length h]
  simp only [encode, encodeMembers, List.length_cons]

end Go.Json

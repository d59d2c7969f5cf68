import RealmFormal.Go.JsonRoundTrip
import RealmFormal.Lib.Table

/-!
# Decoding JSON values into typed targets

`encoding/json` decodes members one after another onto the same target, so a
member given twice is decoded twice onto one field: a scalar is overwritten, a
nested struct keeps what the second value does not mention. A target is
therefore decoded from the list of all values aimed at it, in order. Type errors
do not stop the decoder but make it fail in the end, which is `none` here.
-/

namespace Go.Json
set_option autoImplicit false

/-- `foldName`: ASCII letters become upper case, and so do the two other runes
that fold to ASCII, U+017F and U+212A. No other rune folds to ASCII, so the rest
is left alone. The first argument counts bytes to drop. -/
def foldName : Nat → Bytes → Bytes
  | _, [] => []
  | n + 1, _ :: t => foldName n t
  | 0, b :: t =>
    if isLower b then UInt8.ofNat (b.toNat - 32) :: foldName 0 t
    else if [0xC5, 0xBF].isPrefixOf (b :: t) then chr 'S' :: foldName 1 t
    else if [0xE2, 0x84, 0xAA].isPrefixOf (b :: t) then chr 'K' :: foldName 2 t
    else b :: foldName 0 t

/-- The field a key selects: an exact name first, then a name equal under folding. -/
def fieldOf (names : List Bytes) (key : Bytes) : Option Bytes :=
  if key ∈ names then some key
  else names.find? fun n => decide (foldName 0 n = foldName 0 key)

/-- The members of all objects aimed at one struct; `null` leaves it unchanged. -/
def members : List Value → Option (List (Bytes × Value))
  | [] => some []
  | .null :: vs => members vs
  | .object ms :: vs => (members vs).map fun rest => ms ++ rest
  | _ :: _ => none

/-- The values aimed at the field `name`. -/
def fieldValues (names : List Bytes) (ms : List (Bytes × Value)) (name : Bytes) : List Value :=
  ms.filterMap fun m => if fieldOf names m.1 = some name then some m.2 else none

/-- `DisallowUnknownFields`: every key selects a field. -/
def allKnown (names : List Bytes) (ms : List (Bytes × Value)) : Bool :=
  ms.all fun m => (fieldOf names m.1).isSome

/-- The members of a struct target, refused when a key is unknown. -/
def strictMembers (names : List Bytes) (vs : List Value) : Option (List (Bytes × Value)) :=
  (members vs).bind fun ms => if allKnown names ms then some ms else none

/-- One value onto a `string` that holds `cur`. -/
def ontoText (cur : Bytes) : Value → Option Bytes
  | .null => some cur
  | .string s => some s
  | _ => none

/-- A `string` target. -/
def toText (vs : List Value) : Option Bytes := vs.foldlM ontoText []

/-- An `int` or `int64` target. -/
def toInt (vs : List Value) : Option Int :=
  vs.foldlM (fun cur v =>
    match v with
    | .null => some cur
    | .number l => parseInt64 l
    | _ => none) 0

/-- A `bool` target. -/
def toBool (vs : List Value) : Option Bool :=
  vs.foldlM (fun cur v =>
    match v with
    | .null => some cur
    | .bool b => some b
    | _ => none) false

/-- A `uint16` target. -/
def toUint16 (vs : List Value) : Option UInt16 :=
  vs.foldlM (fun cur v =>
    match v with
    | .null => some cur
    | .number l => (digitsValue l).bind fun n => if n < 65536 then some (UInt16.ofNat n) else none
    | _ => none) 0

/-- The elements of an array onto the cells of a slice, each cell being the values aimed at
it. Cells past the new length keep their content, where a later and longer array finds it
again. -/
def ontoCells {α : Type} (decode : List Value → Option α) :
    List (List Value) → List Value → Option (List (List Value))
  | cells, [] => some cells
  | cells, v :: vs =>
    (decode (cells.headD [] ++ [v])).bind fun _ =>
      (ontoCells decode cells.tail vs).map fun rest => (cells.headD [] ++ [v]) :: rest

/-- One value onto a slice: the cells of its backing array, and its length. -/
def ontoSlice {α : Type} (decode : List Value → Option α) (cur : List (List Value) × Nat) :
    Value → Option (List (List Value) × Nat)
  | .null => some ([], 0)
  | .array [] => some ([], 0)
  | .array vs => (ontoCells decode cur.1 vs).map fun cells => (cells, vs.length)
  | _ => none

/-- A slice target. -/
def toSlice {α : Type} (decode : List Value → Option α) (vs : List Value) : Option (List α) :=
  (vs.foldlM (ontoSlice decode) ([], 0)).bind fun r => (r.1.take r.2).mapM decode

/-- A `[]string` target. -/
def toTexts (vs : List Value) : Option (List Bytes) := toSlice toText vs

/-- One value onto a map: every member is decoded on its own, and a later one replaces an
earlier one. -/
def ontoMap {V : Type} (decode : Value → Option V) (cur : Table Bytes V) :
    Value → Option (Table Bytes V)
  | .null => some Table.empty
  | .object ms => ms.foldlM (fun t m => (decode m.2).map fun v => t.put m.1 v) cur
  | _ => none

/-- A map target. -/
def toMap {V : Type} (decode : Value → Option V) (vs : List Value) : Option (Table Bytes V) :=
  vs.foldlM (ontoMap decode) Table.empty

@[simp] theorem toText_string (s : Bytes) : toText [.string s] = some s := rfl

theorem toInt_itoa {n : Int} (h : FitsInt64 n) : toInt [.number (itoa n)] = some n := by
  simp [toInt, parseInt64_itoa h]

@[simp] theorem members_object (ms : List (Bytes × Value)) : members [.object ms] = some ms := by
  simp [members]

theorem toUint16_itoa (p : UInt16) : toUint16 [.number (itoa p.toNat)] = some p := by
  have hdigits : digitsValue (itoa p.toNat) = some p.toNat := digitsValue_natDigits p.toNat
  have hlt : p.toNat < 65536 := p.toNat_lt
  simp [toUint16, hdigits, hlt]

section Slice
variable {α : Type} {decode : List Value → Option α} {value : α → Value}

theorem ontoCells_map {as : List α} (h : ∀ a ∈ as, decode [value a] = some a) :
    ontoCells decode [] (as.map value) = some (as.map fun a => [value a]) := by
  induction as with
  | nil => rfl
  | cons a as ih =>
    obtain ⟨ha, has⟩ := List.forall_mem_cons.mp h
    simp [ontoCells, ha, ih has]

theorem mapM_cells {as : List α} (h : ∀ a ∈ as, decode [value a] = some a) :
    (as.map fun a => [value a]).mapM decode = some as := by
  induction as with
  | nil => rfl
  | cons a as ih =>
    obtain ⟨ha, has⟩ := List.forall_mem_cons.mp h
    simp [List.mapM_cons, ha, ih has]

/-- A slice whose elements are read back is read back. -/
theorem toSlice_array {as : List α} (h : ∀ a ∈ as, decode [value a] = some a) :
    toSlice decode [.array (as.map value)] = some as := by
  cases as with
  | nil => rfl
  | cons a as =>
    have hcells := ontoCells_map h
    have hall : ((a :: as).map fun a => [value a]).take (as.length + 1) =
        (a :: as).map fun a => [value a] :=
      List.take_of_length_le (by simp)
    rw [List.map_cons] at hcells
    simp only [toSlice, List.map_cons, List.foldlM_cons, ontoSlice, hcells, Option.map_some,
      List.length_cons, List.length_map, Option.bind_eq_bind, Option.bind_some, List.foldlM_nil,
      Option.pure_def]
    rw [List.map_cons] at hall
    rw [hall]
    exact mapM_cells h

end Slice

/-- A list of strings is read back as it was. -/
theorem toTexts_array (ss : List Bytes) : toTexts [.array (ss.map Value.string)] = some ss :=
  toSlice_array fun s _ => toText_string s

end Go.Json

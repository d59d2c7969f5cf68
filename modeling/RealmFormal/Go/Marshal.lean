import RealmFormal.Go.JsonUtf8
import RealmFormal.Go.JsonStream
import RealmFormal.Go.Unmarshal
import Mathlib.Data.List.Sort

/-!
# Structs, slices and maps as JSON

What `encoding/json` writes for typed values, and that the decoder finds them
again. Strings are the only values that do not always survive; those that came
out of a decoder do.
-/

namespace Go.Json
set_option autoImplicit false

/-! ## Encoding -/

/-- The members of a struct. A field without a value is left out, as `omitempty` does. -/
def record (names : List Bytes) (values : List (Option Value)) : List (Bytes × Value) :=
  (names.zip values).filterMap fun m => m.2.map fun v => (m.1, v)

/-- A `string` field with `omitempty`. -/
def nonEmpty (s : Bytes) : Option Value := if s = [] then none else some (.string s)

/-- A slice; a nil slice is `null`. -/
def sliceValue (isNil : Bool) (vs : List Value) : Value :=
  if vs.isEmpty && isNil then .null else .array vs

def sortedEntries {V : Type} (t : Table Bytes V) : List (Bytes × V) :=
  t.entries.insertionSort fun a b => a.1 ≤ b.1

/-- A map, sorted by key; a nil map is `null`. -/
def mapValue {V : Type} (isNil : Bool) (value : Bytes × V → Value) (t : Table Bytes V) : Value :=
  if t.entries.isEmpty && isNil then .null
  else .object ((sortedEntries t).map fun e => (e.1, value e))

/-- What `json.Encoder` writes. -/
def encodeLine (v : Value) : Bytes := encode v ++ [10]

/-! ## Values that are read back -/

/-- Integers and valid strings only. -/
def Writable (v : Value) : Prop := Integral v ∧ Valid v

theorem writable_null : Writable .null := ⟨trivial, trivial⟩

theorem writable_number (n : Int) : Writable (.number (itoa n)) := ⟨⟨n, rfl⟩, trivial⟩

theorem writable_string {s : Bytes} (h : Utf8 s) : Writable (.string s) := ⟨trivial, h⟩

theorem integralElements_iff {vs : List Value} : IntegralElements vs ↔ ∀ v ∈ vs, Integral v := by
  induction vs with
  | nil => simp [IntegralElements]
  | cons v vs ih => simp [IntegralElements, ih]

theorem integralMembers_iff {ms : List (Bytes × Value)} :
    IntegralMembers ms ↔ ∀ m ∈ ms, Integral m.2 := by
  induction ms with
  | nil => simp [IntegralMembers]
  | cons m ms ih => simp [IntegralMembers, ih]

theorem writable_array {vs : List Value} (h : ∀ v ∈ vs, Writable v) : Writable (.array vs) :=
  ⟨integralElements_iff.mpr fun v hv => (h v hv).1, validElements_iff.mpr fun v hv => (h v hv).2⟩

theorem writable_object {ms : List (Bytes × Value)} (h : ∀ m ∈ ms, Utf8 m.1 ∧ Writable m.2) :
    Writable (.object ms) :=
  ⟨integralMembers_iff.mpr fun m hm => (h m hm).2.1,
    validMembers_iff.mpr fun m hm => ⟨(h m hm).1, (h m hm).2.2⟩⟩

theorem mem_record {names : List Bytes} {values : List (Option Value)} {m : Bytes × Value}
    (h : m ∈ record names values) : m.1 ∈ names ∧ some m.2 ∈ values := by
  obtain ⟨p, hp, hm⟩ := List.mem_filterMap.mp h
  obtain ⟨v, hv, rfl⟩ := Option.map_eq_some_iff.mp hm
  have hzip := List.of_mem_zip hp
  exact ⟨hzip.1, hv ▸ hzip.2⟩

theorem writable_record {names : List Bytes} {values : List (Option Value)}
    (hnames : ∀ n ∈ names, Utf8 n) (hvalues : ∀ v ∈ values, ∀ x ∈ v, Writable x) :
    Writable (.object (record names values)) := by
  apply writable_object
  intro m hm
  obtain ⟨hname, hvalue⟩ := mem_record hm
  exact ⟨hnames m.1 hname, hvalues _ hvalue m.2 rfl⟩

theorem writable_nonEmpty {s : Bytes} (h : Utf8 s) : ∀ x ∈ nonEmpty s, Writable x := by
  intro x hx
  unfold nonEmpty at hx
  split at hx
  · cases hx
  · cases hx
    exact writable_string h

theorem writable_sliceValue {isNil : Bool} {vs : List Value} (h : ∀ v ∈ vs, Writable v) :
    Writable (sliceValue isNil vs) := by
  unfold sliceValue
  split
  · exact writable_null
  · exact writable_array h

theorem mem_sortedEntries {V : Type} {t : Table Bytes V} {e : Bytes × V} :
    e ∈ sortedEntries t ↔ e ∈ t.entries := List.mem_insertionSort _

theorem writable_mapValue {V : Type} {isNil : Bool} {value : Bytes × V → Value}
    {t : Table Bytes V} (h : ∀ e ∈ t.entries, Utf8 e.1 ∧ Writable (value e)) :
    Writable (mapValue isNil value t) := by
  unfold mapValue
  split
  · exact writable_null
  · apply writable_object
    intro m hm
    obtain ⟨e, he, rfl⟩ := List.mem_map.mp hm
    exact h e (mem_sortedEntries.mp he)

theorem parseValue_encodeLine {v : Value} (h : Writable v) :
    parseValue ((encodeLine v).length + 1) (encodeLine v) = some (v, [10]) := by
  have hparse := parseValue_document h.1 (show NumberEnds [10] from numberEnds_cons (by decide))
  rwa [reread_valid v h.2] at hparse

/-- The first `limit` bytes of an encoded object are read as the object when it ends among
them. -/
theorem parseValue_encodeLine_take {ms : List (Bytes × Value)} (h : Writable (.object ms))
    {limit : Nat} (hlimit : (encode (.object ms)).length ≤ limit) :
    ∃ rest, parseValue (((encodeLine (.object ms)).take limit).length + 1)
      ((encodeLine (.object ms)).take limit) = some (.object ms, rest) := by
  obtain ⟨rest, htake, hends⟩ : ∃ rest, (encodeLine (.object ms)).take limit =
      encode (.object ms) ++ rest ∧ NumberEnds rest := by
    refine ⟨[10].take (limit - (encode (.object ms)).length), ?_, ?_⟩
    · rw [encodeLine, List.take_append, List.take_of_length_le hlimit]
    · cases limit - (encode (.object ms)).length with
      | zero => exact nofun
      | succ k => exact numberEnds_cons (by decide)
  have hparse := parseValue_document h.1 hends
  rw [reread_valid _ h.2] at hparse
  rw [htake]
  exact ⟨rest, hparse⟩

/-- When it does not, nothing but a number can be read from them. -/
theorem parseValue_encodeLine_cut {ms : List (Bytes × Value)} (h : Writable (.object ms))
    {limit : Nat} (hlimit : limit < (encode (.object ms)).length) {v : Value} {r : Bytes}
    (hparse : parseValue (((encodeLine (.object ms)).take limit).length + 1)
      ((encodeLine (.object ms)).take limit) = some (v, r)) : ∃ l, v = .number l := by
  by_contra hv
  push Not at hv
  obtain ⟨-, hrest⟩ := parseValue_take h.1 (numberEnds_cons (by decide)) limit hv hparse
  -- the text after the value would be longer than the line end
  have hlength := congrArg List.length hrest
  simp only [List.length_append, List.length_drop, List.length_cons, List.length_nil] at hlength
  omega

/-! ## Decoding -/

theorem fieldOf_mem {names : List Bytes} {key : Bytes} (h : key ∈ names) :
    fieldOf names key = some key := if_pos h

theorem fieldValues_absent {all names : List Bytes} {values : List (Option Value)} {name : Bytes}
    (hall : ∀ n ∈ names, n ∈ all) (hname : name ∉ names) :
    fieldValues all (record names values) name = [] := by
  apply List.filterMap_eq_nil_iff.mpr
  intro m hm
  obtain ⟨hkey, -⟩ := mem_record hm
  rw [fieldOf_mem (hall _ hkey), if_neg]
  intro heq
  exact hname (Option.some.inj heq ▸ hkey)

theorem record_cons (name : Bytes) (names : List Bytes) (value : Option Value)
    (values : List (Option Value)) :
    record (name :: names) (value :: values) =
      (value.map fun v => (name, v)).toList ++ record names values := by
  cases value <;> rfl

theorem fieldValues_append (all : List Bytes) (ms ms' : List (Bytes × Value)) (name : Bytes) :
    fieldValues all (ms ++ ms') name = fieldValues all ms name ++ fieldValues all ms' name :=
  List.filterMap_append

/-- Each field of a struct finds its own value. -/
theorem fieldValues_sub {all names : List Bytes} (hall : ∀ n ∈ names, n ∈ all)
    (hnodup : names.Nodup) {values : List (Option Value)} {i : Nat} {name : Bytes}
    (hi : names[i]? = some name) :
    fieldValues all (record names values) name = ((values[i]?).bind id).toList := by
  induction names generalizing values i with
  | nil => cases hi
  | cons n names ih =>
    obtain ⟨hn, hnodup⟩ := List.nodup_cons.mp hnodup
    obtain ⟨hmem, hall⟩ := List.forall_mem_cons.mp hall
    cases values with
    | nil => rfl
    | cons value values =>
      rw [record_cons, fieldValues_append]
      cases i with
      | zero =>
        obtain rfl : n = name := Option.some.inj hi
        rw [fieldValues_absent hall hn, List.append_nil]
        cases value <;> simp [fieldValues, fieldOf_mem hmem]
      | succ i =>
        have hne : n ≠ name := by
          rintro rfl
          exact hn (List.mem_of_getElem? hi)
        rw [ih hall hnodup hi]
        cases value <;> simp [fieldValues, fieldOf_mem hmem, hne]

theorem fieldValues_record {names : List Bytes} (hnodup : names.Nodup)
    (values : List (Option Value)) (i : Nat) {name : Bytes} (hi : names[i]? = some name) :
    fieldValues names (record names values) name = ((values[i]?).bind id).toList :=
  fieldValues_sub (fun _ h => h) hnodup hi

theorem toText_nonEmpty (s : Bytes) : toText (nonEmpty s).toList = some s := by
  unfold nonEmpty
  split
  · rename_i h
    rw [h]
    rfl
  · rfl

theorem toSlice_sliceValue {α : Type} {decode : List Value → Option α} {value : α → Value}
    {as : List α} (isNil : Bool) (h : ∀ a ∈ as, decode [value a] = some a) :
    toSlice decode [sliceValue isNil (as.map value)] = some as := by
  unfold sliceValue
  split
  · rename_i hnil
    have hempty : as = [] := by simpa using (Bool.and_eq_true_iff.mp hnil).1
    rw [hempty]
    rfl
  · exact toSlice_array h

/-- Members with distinct keys are put into the map one by one. -/
theorem ontoMap_members {V : Type} {decode : Value → Option V} {value : Bytes × V → Value}
    {es : List (Bytes × V)} (hdecode : ∀ e ∈ es, decode (value e) = some e.2)
    (hnodup : (es.map Prod.fst).Nodup) (cur : Table Bytes V)
    (hcur : ∀ e ∈ es, cur.get e.1 = none) :
    ∃ t, ontoMap decode cur (.object (es.map fun e => (e.1, value e))) = some t ∧
      ∀ k v, t.get k = some v ↔ cur.get k = some v ∨ (k, v) ∈ es := by
  induction es generalizing cur with
  | nil => exact ⟨cur, rfl, by simp⟩
  | cons e es ih =>
    obtain ⟨he, hes⟩ := List.forall_mem_cons.mp hdecode
    obtain ⟨hnew, hnodup⟩ := List.nodup_cons.mp hnodup
    obtain ⟨hnone, hcur⟩ := List.forall_mem_cons.mp hcur
    have hput : ∀ x ∈ es, (cur.put e.1 e.2).get x.1 = none := by
      intro x hx
      have hne : x.1 ≠ e.1 := fun heq => hnew (heq ▸ List.mem_map_of_mem hx)
      rw [Table.get_put, if_neg hne]
      exact hcur x hx
    obtain ⟨t, ht, hget⟩ := ih hes hnodup _ hput
    refine ⟨t, ?_, fun k v => ?_⟩
    · simpa [ontoMap, he] using ht
    · rw [hget, Table.get_put, List.mem_cons]
      by_cases hk : k = e.1
      · subst hk
        have hout : (e.1, v) ∉ es := fun hmem => hnew (List.mem_map.mpr ⟨_, hmem, rfl⟩)
        simp [hnone, hout, Prod.ext_iff, eq_comm]
      · simp [hk, Prod.ext_iff]

theorem toMap_mapValue {V : Type} (decode : Value → Option V) (value : Bytes × V → Value)
    (isNil : Bool) {t : Table Bytes V} (h : ∀ e ∈ t.entries, decode (value e) = some e.2) :
    ∃ t', toMap decode [mapValue isNil value t] = some t' ∧ ∀ k, t'.get k = t.get k := by
  unfold mapValue
  split
  · rename_i hnil
    have hempty : t.entries = [] := by simpa using (Bool.and_eq_true_iff.mp hnil).1
    exact ⟨Table.empty, rfl, fun k => by simp [Table.get, Table.empty, hempty]⟩
  · have hperm := List.perm_insertionSort (fun a b : Bytes × V => a.1 ≤ b.1) t.entries
    have hsorted : ∀ e ∈ sortedEntries t, decode (value e) = some e.2 :=
      fun e he => h e (mem_sortedEntries.mp he)
    obtain ⟨t', ht', hget⟩ := ontoMap_members hsorted ((hperm.map _).nodup_iff.mpr t.distinct)
      Table.empty fun _ _ => rfl
    refine ⟨t', by simpa [toMap] using ht', fun k => ?_⟩
    apply Option.ext
    intro v
    rw [hget, mem_sortedEntries, Table.get_empty, Table.get_eq_some_iff]
    simp

/-! ## What decoding preserves -/

theorem foldlM_invariant {α β : Type} {P : β → Prop} {f : β → α → Option β} {xs : List α}
    (hstep : ∀ x ∈ xs, ∀ b b', P b → f b x = some b' → P b') {b c : β} (hb : P b)
    (h : xs.foldlM f b = some c) : P c := by
  induction xs generalizing b with
  | nil =>
    cases h
    exact hb
  | cons x xs ih =>
    rw [List.foldlM_cons] at h
    obtain ⟨b', hb', h⟩ := Option.bind_eq_some_iff.mp h
    obtain ⟨hx, hxs⟩ := List.forall_mem_cons.mp hstep
    exact ih hxs (hx b b' hb hb') h

/-- Values whose strings are valid. -/
def AllValid (vs : List Value) : Prop := ∀ v ∈ vs, Valid v

theorem members_valid {vs : List Value} {ms : List (Bytes × Value)} (hvs : AllValid vs)
    (h : members vs = some ms) : ValidMembers ms := by
  fun_induction members vs generalizing ms with
  | case1 =>
    cases h
    trivial
  | case2 vs ih => exact ih (List.forall_mem_cons.mp hvs).2 h
  | case3 first vs ih =>
    obtain ⟨rest, hrest, rfl⟩ := Option.map_eq_some_iff.mp h
    obtain ⟨hfirst, hvs⟩ := List.forall_mem_cons.mp hvs
    apply validMembers_iff.mpr
    intro m hm
    rcases List.mem_append.mp hm with hm | hm
    · exact validMembers_iff.mp hfirst m hm
    · exact validMembers_iff.mp (ih hvs hrest) m hm
  | case4 => cases h

theorem strictMembers_valid {names : List Bytes} {vs : List Value} {ms : List (Bytes × Value)}
    (hvs : AllValid vs) (h : strictMembers names vs = some ms) : ValidMembers ms := by
  obtain ⟨ms', hms, h⟩ := Option.bind_eq_some_iff.mp h
  split at h
  · cases h
    exact members_valid hvs hms
  · cases h

theorem fieldValues_valid {names : List Bytes} {ms : List (Bytes × Value)} (h : ValidMembers ms)
    (name : Bytes) : AllValid (fieldValues names ms name) := by
  intro v hv
  obtain ⟨m, hm, heq⟩ := List.mem_filterMap.mp hv
  split at heq
  · cases heq
    exact (validMembers_iff.mp h m hm).2
  · cases heq

theorem toText_utf8 {vs : List Value} {s : Bytes} (hvs : AllValid vs) (h : toText vs = some s) :
    Utf8 s := by
  refine foldlM_invariant (P := Utf8) ?_ (show Utf8 [] from rfl) h
  intro v hv cur s' hcur hs
  cases v with
  | null =>
    cases hs
    exact hcur
  | string t =>
    cases hs
    exact hvs _ hv
  | _ => cases hs

section Slice
variable {α : Type} {P : α → Prop} {decode : List Value → Option α}

theorem ontoCells_valid {cells out : List (List Value)} {vs : List Value}
    (hcells : ∀ c ∈ cells, AllValid c) (hvs : AllValid vs)
    (h : ontoCells decode cells vs = some out) : ∀ c ∈ out, AllValid c := by
  induction vs generalizing cells out with
  | nil =>
    cases h
    exact hcells
  | cons v vs ih =>
    obtain ⟨hv, hvs⟩ := List.forall_mem_cons.mp hvs
    rw [ontoCells] at h
    obtain ⟨-, -, h⟩ := Option.bind_eq_some_iff.mp h
    obtain ⟨rest, hrest, rfl⟩ := Option.map_eq_some_iff.mp h
    have hhead : AllValid (cells.headD []) := by
      cases cells with
      | nil => exact List.forall_mem_nil _
      | cons c cells => exact hcells c List.mem_cons_self
    refine List.forall_mem_cons.mpr ⟨?_, ?_⟩
    · intro x hx
      rcases List.mem_append.mp hx with hx | hx
      · exact hhead x hx
      · cases List.mem_singleton.mp hx
        exact hv
    · exact ih (fun c hc => hcells c (List.mem_of_mem_tail hc)) hvs hrest

theorem mapM_forall {cells : List (List Value)} {as : List α}
    (hdecode : ∀ c ∈ cells, ∀ a, decode c = some a → P a) (h : cells.mapM decode = some as) :
    ∀ a ∈ as, P a := by
  induction cells generalizing as with
  | nil =>
    cases h
    exact List.forall_mem_nil _
  | cons c cells ih =>
    obtain ⟨hc, hcells⟩ := List.forall_mem_cons.mp hdecode
    rw [List.mapM_cons] at h
    obtain ⟨a, ha, h⟩ := Option.bind_eq_some_iff.mp h
    obtain ⟨rest, hrest, h⟩ := Option.bind_eq_some_iff.mp h
    cases h
    exact List.forall_mem_cons.mpr ⟨hc a ha, ih hcells hrest⟩

/-- What valid values decode to holds of every element of a slice. -/
theorem toSlice_forall {vs : List Value} {as : List α} (hvs : AllValid vs)
    (hdecode : ∀ us, AllValid us → ∀ a, decode us = some a → P a)
    (h : toSlice decode vs = some as) : ∀ a ∈ as, P a := by
  obtain ⟨r, hr, h⟩ := Option.bind_eq_some_iff.mp h
  have hcells : ∀ c ∈ r.1, AllValid c := by
    refine foldlM_invariant (P := fun r => ∀ c ∈ r.1, AllValid c) ?_ (by simp) hr
    intro v hv cur r' hcur hstep
    unfold ontoSlice at hstep
    split at hstep
    · cases hstep
      exact List.forall_mem_nil _
    · cases hstep
      exact List.forall_mem_nil _
    · obtain ⟨cells, hcells, rfl⟩ := Option.map_eq_some_iff.mp hstep
      exact ontoCells_valid hcur (validElements_iff.mp (hvs _ hv)) hcells
    · cases hstep
  exact mapM_forall (fun c hc a ha => hdecode c (hcells c (List.mem_of_mem_take hc)) a ha) h

end Slice

/-- What valid values decode to holds of every entry of a map. -/
theorem toMap_forall {V : Type} {P : V → Prop} {decode : Value → Option V} {vs : List Value}
    {t : Table Bytes V} (hvs : AllValid vs) (hdecode : ∀ v, Valid v → ∀ a, decode v = some a → P a)
    (h : toMap decode vs = some t) : ∀ k v, t.get k = some v → Utf8 k ∧ P v := by
  refine foldlM_invariant (P := fun t => ∀ k v, t.get k = some v → Utf8 k ∧ P v) ?_ (by simp) h
  intro value hvalue cur t' hcur hstep
  unfold ontoMap at hstep
  split at hstep
  · cases hstep
    simp
  · rename_i ms
    refine foldlM_invariant (P := fun t => ∀ k v, t.get k = some v → Utf8 k ∧ P v) ?_ hcur hstep
    intro m hm cur t' hcur hstep
    obtain ⟨a, ha, rfl⟩ := Option.map_eq_some_iff.mp hstep
    obtain ⟨hkey, hvalid⟩ := validMembers_iff.mp (hvs _ hvalue) m hm
    intro k v hget
    rw [Table.get_put] at hget
    split at hget
    · rename_i hk
      cases hget
      exact ⟨hk ▸ hkey, hdecode _ hvalid _ ha⟩
    · exact hcur k v hget
  · cases hstep

end Go.Json

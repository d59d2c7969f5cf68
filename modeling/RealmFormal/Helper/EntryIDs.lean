import RealmFormal.Helper.Settled

/-!
# Entry IDs

When two declarations of a manifest share an entry ID. Node and name are joined by
a colon before they are hashed, and a manifest may have colons in both, so the ID
is that of the joined text and not of the pair.
-/

namespace RealmFormal.Helper
open Go Go.Json
set_option autoImplicit false

/-- The input of SHA-1. -/
def hashedName (node name : Bytes) : Bytes :=
  entryNamespace ++ (str "nyaw-realm:" ++ node ++ str ":" ++ name)

/-- The bits of a digest that the UUID keeps: 128 without version and variant. -/
def keptBits (message : Bytes) : Bytes :=
  (((Sha.sum1 message).take 16).modify 6 (· &&& 0x0f)).modify 8 (· &&& 0x3f)

/-- The hash tells the declarations of the manifest apart as far as their inputs differ. -/
def HashInjective (m : Manifest) : Prop :=
  ∀ d ∈ declarations m, ∀ e ∈ declarations m,
    keptBits (hashedName d.node d.name) = keptBits (hashedName e.node e.name) →
      hashedName d.node d.name = hashedName e.node e.name

instance (m : Manifest) : Decidable (HashInjective m) :=
  inferInstanceAs (Decidable (∀ d ∈ declarations m, ∀ e ∈ declarations m, _ → _))

/-! ## The text of a UUID -/

def stamp (sum : Bytes) : Bytes :=
  (sum.modify 6 fun b => b &&& 0x0f ||| 0x50).modify 8 fun b => b &&& 0x3f ||| 0x80

def uuidText (id : Bytes) : Bytes :=
  hex (id.take 4) ++ str "-" ++ hex ((id.drop 4).take 2) ++ str "-" ++ hex ((id.drop 6).take 2) ++
    str "-" ++ hex ((id.drop 8).take 2) ++ str "-" ++ hex (id.drop 10)

theorem spireEntryID_eq (node name : Bytes) :
    spireEntryID node name = uuidText (stamp ((Sha.sum1 (hashedName node name)).take 16)) := rfl

theorem hexByte_injective {b c : UInt8} (h : hexByte b = hexByte c) : b = c := by
  obtain ⟨hhigh, hlow⟩ : hexLower (b.toNat / 16) = hexLower (c.toNat / 16) ∧
      hexLower (b.toNat % 16) = hexLower (c.toNat % 16) := by
    simpa [hexByte] using h
  have hb := b.toNat_lt
  have hc := c.toNat_lt
  have hdigit : ∀ m n, m < 16 → n < 16 → hexLower m = hexLower n → m = n := by
    intro m n hm hn heq
    have hvalue := congrArg hexDigit heq
    rw [hexDigit_hexLower hm, hexDigit_hexLower hn] at hvalue
    exact Option.some.inj hvalue
  have hhigh := hdigit _ _ (by omega) (by omega) hhigh
  have hlow := hdigit _ _ (by omega) (by omega) hlow
  apply UInt8.toNat_inj.mp
  omega

theorem hex_length (bs : Bytes) : (hex bs).length = 2 * bs.length := by
  induction bs with
  | nil => rfl
  | cons b bs ih =>
    rw [hex, List.flatMap_cons, List.length_append, ← hex, ih]
    simp [hexByte]
    omega

theorem hex_injective {bs cs : Bytes} (h : hex bs = hex cs) : bs = cs := by
  induction bs generalizing cs with
  | nil =>
    have hlength := congrArg List.length h
    rw [hex_length, hex_length] at hlength
    exact (List.length_eq_zero_iff.mp (by simpa using hlength.symm)).symm
  | cons b bs ih =>
    cases cs with
    | nil =>
      have hlength := congrArg List.length h
      simp [hex_length] at hlength
    | cons c cs =>
      obtain ⟨hhead, htail⟩ := List.append_inj h rfl
      rw [hexByte_injective hhead, ih htail]

/-- A list of sixteen bytes is given by the groups in which it is printed. -/
theorem eq_of_groups {id id' : Bytes} (h4 : id.take 4 = id'.take 4)
    (h6 : (id.drop 4).take 2 = (id'.drop 4).take 2) (h8 : (id.drop 6).take 2 = (id'.drop 6).take 2)
    (h10 : (id.drop 8).take 2 = (id'.drop 8).take 2) (hrest : id.drop 10 = id'.drop 10) :
    id = id' := by
  have hgroup : ∀ n, ∀ l : Bytes, (l.drop n).take 2 ++ l.drop (n + 2) = l.drop n := by
    intro n l
    rw [← List.drop_drop]
    exact List.take_append_drop 2 _
  calc id = id.take 4 ++ id.drop 4 := (List.take_append_drop 4 id).symm
    _ = id'.take 4 ++ id'.drop 4 := by
      rw [h4, ← hgroup 4 id, ← hgroup 6 id, ← hgroup 8 id, h6, h8, h10, hrest, hgroup 8 id',
        hgroup 6 id', hgroup 4 id']
    _ = id' := List.take_append_drop 4 id'

theorem uuidText_injective {id id' : Bytes} (hlength : id.length = id'.length)
    (h : uuidText id = uuidText id') : id = id' := by
  unfold uuidText at h
  have hgroup : ∀ bs cs : Bytes, bs.length = cs.length → (hex bs).length = (hex cs).length := by
    intro bs cs h
    rw [hex_length, hex_length, h]
  obtain ⟨h, hrest⟩ := List.append_inj' h (hgroup _ _ (by simp [hlength]))
  obtain ⟨h, h10⟩ := List.append_inj' (List.append_cancel_right h) (hgroup _ _ (by simp [hlength]))
  obtain ⟨h, h8⟩ := List.append_inj' (List.append_cancel_right h) (hgroup _ _ (by simp [hlength]))
  obtain ⟨h, h6⟩ := List.append_inj' (List.append_cancel_right h) (hgroup _ _ (by simp [hlength]))
  have h4 := List.append_cancel_right h
  exact eq_of_groups (hex_injective h4) (hex_injective h6) (hex_injective h8) (hex_injective h10)
    (hex_injective hrest)

theorem stamp_version {b c : UInt8} (h : b &&& 0x0f ||| 0x50 = c &&& 0x0f ||| 0x50) :
    b &&& 0x0f = c &&& 0x0f := by
  have hkept : ∀ b : UInt8, (b &&& 0x0f ||| 0x50) &&& 0x0f = b &&& 0x0f :=
    byte_forall (by decide +kernel)
  rw [← hkept b, h, hkept c]

theorem stamp_variant {b c : UInt8} (h : b &&& 0x3f ||| 0x80 = c &&& 0x3f ||| 0x80) :
    b &&& 0x3f = c &&& 0x3f := by
  have hkept : ∀ b : UInt8, (b &&& 0x3f ||| 0x80) &&& 0x3f = b &&& 0x3f :=
    byte_forall (by decide +kernel)
  rw [← hkept b, h, hkept c]

theorem kept_of_stamp {sum sum' : Bytes} (h : stamp sum = stamp sum') :
    (sum.modify 6 (· &&& 0x0f)).modify 8 (· &&& 0x3f) =
      (sum'.modify 6 (· &&& 0x0f)).modify 8 (· &&& 0x3f) := by
  apply List.ext_getElem?
  intro i
  have hi := congrArg (fun l => l[i]?) h
  simp only [stamp, List.getElem?_modify] at hi ⊢
  by_cases h6 : 6 = i
  · subst h6
    cases hsum : sum[6]? <;> cases hsum' : sum'[6]? <;> simp [hsum, hsum'] at hi ⊢
    exact stamp_version hi
  · by_cases h8 : 8 = i
    · subst h8
      cases hsum : sum[8]? <;> cases hsum' : sum'[8]? <;> simp [hsum, hsum'] at hi ⊢
      exact stamp_variant hi
    · simpa [h6, h8] using hi

theorem keptBits_of_spireEntryID {node name node' name' : Bytes}
    (h : spireEntryID node name = spireEntryID node' name') :
    keptBits (hashedName node name) = keptBits (hashedName node' name') := by
  rw [spireEntryID_eq, spireEntryID_eq] at h
  apply kept_of_stamp
  refine uuidText_injective ?_ h
  simp [stamp, Sha.sum1_length]

/-! ## Shared IDs -/

/-- What the hash gets of a key. -/
def joinedKey (node name : Bytes) : Bytes := node ++ str ":" ++ name

theorem hashedName_inj {node name node' name' : Bytes} :
    hashedName node name = hashedName node' name' ↔
      joinedKey node name = joinedKey node' name' := by
  unfold hashedName joinedKey
  simp only [List.append_assoc, List.append_cancel_left_eq]

theorem takeWhile_joinedKey {node name : Bytes} (h : chr ':' ∉ node) :
    (joinedKey node name).takeWhile (fun b => decide (b ≠ chr ':')) = node := by
  have hall : ∀ b ∈ node, decide (b ≠ chr ':') = true := by
    intro b hb
    apply decide_eq_true
    rintro rfl
    exact h hb
  rw [joinedKey, List.append_assoc, List.takeWhile_append_of_pos hall]
  simp [str, chr]

/-- Keys whose nodes have no colon still differ when joined. -/
theorem joinedKey_ne {node name node' name' : Bytes} (hnode : chr ':' ∉ node)
    (hnode' : chr ':' ∉ node') (hkeys : (node, name) ≠ (node', name')) :
    joinedKey node name ≠ joinedKey node' name' := by
  intro h
  have heq := congrArg (List.takeWhile fun b => decide (b ≠ chr ':')) h
  rw [takeWhile_joinedKey hnode, takeWhile_joinedKey hnode'] at heq
  subst heq
  exact hkeys (by rw [List.append_cancel_left h])

section Shared
variable {m : Manifest} (hash : HashInjective m) {d e : Declaration} (hd : d ∈ declarations m)
  (he : e ∈ declarations m)
include hash hd he

theorem spireEntryID_eq_iff :
    spireEntryID d.node d.name = spireEntryID e.node e.name ↔
      joinedKey d.node d.name = joinedKey e.node e.name := by
  constructor
  · intro h
    exact hashedName_inj.mp (hash d hd e he (keptBits_of_spireEntryID h))
  · intro h
    rw [spireEntryID_eq, spireEntryID_eq, hashedName_inj.mpr h]

/-- Two declarations have different IDs exactly if their keys still differ when joined, and
different keys do when no node has a colon. -/
theorem entryIDs_differ_iff :
    (spireEntryID d.node d.name ≠ spireEntryID e.node e.name ↔
      joinedKey d.node d.name ≠ joinedKey e.node e.name) ∧
    (chr ':' ∉ d.node → chr ':' ∉ e.node → (d.node, d.name) ≠ (e.node, e.name) →
      spireEntryID d.node d.name ≠ spireEntryID e.node e.name) := by
  have hiff := not_congr (spireEntryID_eq_iff hash hd he)
  refine ⟨hiff, ?_⟩
  intro hnode hnode' hkeys
  exact hiff.mpr (joinedKey_ne hnode hnode' hkeys)

end Shared

/-- The manifest is accepted, the hash tells its inputs apart, and it has these two keys. -/
def declares (raw : Bytes) (key key' : Bytes × Bytes) : Bool :=
  match readManifest (.ok raw) with
  | .error _ => false
  | .ok m => decide (HashInjective m ∧ (∃ d ∈ declarations m, (d.node, d.name) = key) ∧
      ∃ d ∈ declarations m, (d.node, d.name) = key')

theorem declares_iff {raw : Bytes} {key key' : Bytes × Bytes} (h : declares raw key key' = true) :
    ∃ m, readManifest (.ok raw) = .ok m ∧ HashInjective m ∧
      (∃ d ∈ declarations m, (d.node, d.name) = key) ∧
        ∃ d ∈ declarations m, (d.node, d.name) = key' := by
  unfold declares at h
  split at h
  · cases h
  · rename_i m hm
    exact ⟨m, hm, of_decide_eq_true h⟩

def entryText (spiffeID : String) : Bytes :=
  str "\x7b\"parentID\":\"p\",\"spiffeID\":\"" ++ str spiffeID ++
    str "\",\"selectors\":[\"u\"]\x7d"

/-- Entry `c` of node `a:b`, and entry `b:c` of node `a`. -/
def colonManifest : Bytes :=
  str "\x7b\"a:b\":\x7b\"c\":" ++ entryText "s" ++ str "\x7d,\"a\":\x7b\"b:c\":" ++
    entryText "t" ++ str "\x7d\x7d"

/-- Two entries of one node. -/
def pairManifest : Bytes :=
  str "\x7b\"n\":\x7b\"a\":" ++ entryText "s" ++ str ",\"b\":" ++ entryText "t" ++
    str "\x7d\x7d"

theorem colonManifest_shares_id :
    ∃ m, readManifest (.ok colonManifest) = .ok m ∧ HashInjective m ∧
      ∃ d ∈ declarations m, ∃ e ∈ declarations m, (d.node, d.name) ≠ (e.node, e.name) ∧
        spireEntryID d.node d.name = spireEntryID e.node e.name := by
  have hdeclares : declares colonManifest (str "a:b", str "c") (str "a", str "b:c") = true := by
    decide +kernel
  obtain ⟨m, hm, hash, ⟨d, hd, hkey⟩, e, he, hkey'⟩ := declares_iff hdeclares
  refine ⟨m, hm, hash, d, hd, e, he, ?_, ?_⟩
  · rw [hkey, hkey']
    decide
  · obtain ⟨hnode, hname⟩ := Prod.mk.inj hkey
    obtain ⟨hnode', hname'⟩ := Prod.mk.inj hkey'
    rw [hnode, hname, hnode', hname', spireEntryID_eq, spireEntryID_eq]
    congr 3

theorem entryIDs_differ_iff_pairManifest :
    spireEntryID (str "n") (str "a") ≠ spireEntryID (str "n") (str "b") := by
  have hdeclares : declares pairManifest (str "n", str "a") (str "n", str "b") = true := by
    decide +kernel
  obtain ⟨m, -, hash, ⟨d, hd, hkey⟩, e, he, hkey'⟩ := declares_iff hdeclares
  obtain ⟨hnode, hname⟩ := Prod.mk.inj hkey
  obtain ⟨hnode', hname'⟩ := Prod.mk.inj hkey'
  have hiff := (entryIDs_differ_iff hash hd he).1
  rw [hnode, hname, hnode', hname'] at hiff
  exact hiff.mpr (by decide)

end RealmFormal.Helper

import RealmFormal.NodeAttest.Protocol

/-!
# Round trips of the protocol documents

Every document of the protocol consists of bytes that JSON copies, decodes to the
value it was encoded from, and has a length that its fields determine.
-/

namespace RealmFormal.NodeAttest
open Go Go.Json
set_option autoImplicit false

/-! ## Strings that need no escape -/

theorem isPlain_of_isLetter {b : UInt8} : Base64.isLetter b = true → isPlain b = true :=
  byte_forall (P := fun b => Base64.isLetter b = true → isPlain b = true)
    (by decide +kernel) b

theorem plainString_base64 (s : Bytes) : PlainString (Base64.encodeToString s) := fun b hb =>
  isPlain_of_isLetter (Base64.encodeToString_isLetter s b hb)

/-- The bytes of a label. -/
def isHostByte (b : UInt8) : Bool := isLabelByte b || decide (b = chr '-')

theorem isPlain_of_isHostByte {b : UInt8} : isHostByte b = true → isPlain b = true :=
  byte_forall (P := fun b => isHostByte b = true → isPlain b = true)
    (by decide +kernel) b

theorem isLabel_bytes {s : Bytes} (h : isLabel s = true) :
    ∀ b ∈ s, isHostByte b = true := by
  cases s with
  | nil => simp
  | cons a t =>
    simp only [isLabel, Bool.and_eq_true] at h
    obtain ⟨ha, ht⟩ := h
    intro b hb
    rcases List.mem_cons.mp hb with rfl | hb
    · simp [isHostByte, ha]
    · have hne : t ≠ [] := List.ne_nil_of_mem hb
      rw [List.getLast?_eq_some_getLast hne] at ht
      simp only [Bool.and_eq_true, List.all_eq_true] at ht
      rw [← List.dropLast_append_getLast hne] at hb
      rcases List.mem_append.mp hb with hb | hb
      · exact ht.2 b hb
      · cases List.mem_singleton.mp hb
        simp [isHostByte, ht.1.1]

theorem mem_join {parts : List Bytes} {sep b : UInt8} (h : b ∈ join parts sep) :
    b = sep ∨ ∃ p ∈ parts, b ∈ p := by
  induction parts with
  | nil => simp [join] at h
  | cons p parts ih =>
    cases parts with
    | nil => exact Or.inr ⟨p, by simp, by simpa [join] using h⟩
    | cons q parts =>
      simp only [join, List.intercalate_cons_cons, List.mem_append, List.mem_singleton] at h ih
      rcases h with (h | h) | h
      · exact Or.inr ⟨p, by simp, h⟩
      · exact Or.inl h
      · rcases ih h with h | ⟨r, hr, hb⟩
        · exact Or.inl h
        · exact Or.inr ⟨r, List.mem_cons_of_mem _ hr, hb⟩

theorem validFQDN_facts {value : Bytes} (h : validFQDN value = true) :
    value.length ≤ 253 ∧ chr '.' ∈ value ∧ ∀ p ∈ split value (chr '.'), isLabel p = true := by
  unfold validFQDN at h
  split at h
  · cases h
  rename_i hgood
  push Not at hgood
  exact ⟨hgood.1, hgood.2, List.all_eq_true.mp h⟩

theorem plainString_fqdn {value : Bytes} (h : validFQDN value = true) : PlainString value := by
  obtain ⟨-, -, hlabels⟩ := validFQDN_facts h
  intro b hb
  rw [← join_split value (chr '.')] at hb
  rcases mem_join hb with rfl | ⟨p, hp, hb⟩
  · decide
  · exact isPlain_of_isHostByte (isLabel_bytes (hlabels p hp) b hb)

theorem plainString_serverID {domain : Bytes} (h : validFQDN domain = true) :
    PlainString (serverID domain) :=
  plainString_append (plainString_append (plainString_str (by decide)) (plainString_fqdn h))
    (plainString_str (by decide))

/-! ## Decoding what was encoded -/

theorem decodeJSON_encode {α : Type} {unmarshal : List Value → Option α} {v : Value} {a : α}
    (hplain : Plain v) (hsize : (encode v).length ≤ maxDocumentSize)
    (h : unmarshal [v] = some a) : decodeJSON unmarshal (encode v) = .ok a := by
  have hpos := encode_length_pos hplain.reread_eq.1
  have hlen : ¬ ((encode v).length = 0 ∨ (encode v).length > maxDocumentSize) := by omega
  rw [decodeJSON, if_neg hlen]
  simp [parseValue_plain hplain, h, skipSpace]

theorem unmarshalJWK_value (j : PublicJWK) : unmarshalJWK [j.value] = some j := by
  simp [unmarshalJWK, PublicJWK.value, strictMembers, allKnown, fieldValues, fieldOf, jwkNames, str]

theorem unmarshalRequest_value {r : Request} (h : FitsInt64 r.version) :
    unmarshalRequest [r.value] = some r := by
  simp [unmarshalRequest, Request.value, strictMembers, allKnown, fieldValues, fieldOf,
    requestNames, str, toInt_itoa h, unmarshalJWK_value]

theorem unmarshalChallenge_value {c : Challenge} (hv : FitsInt64 c.version)
    (he : FitsInt64 c.expiresAt) : unmarshalChallenge [c.value] = some c := by
  simp [unmarshalChallenge, Challenge.value, strictMembers, allKnown, fieldValues, fieldOf,
    challengeNames, str, toInt_itoa hv, toInt_itoa he]

theorem unmarshalReady_value {r : Ready} (h : FitsInt64 r.version) :
    unmarshalReady [r.value] = some r := by
  simp [unmarshalReady, Ready.value, strictMembers, allKnown, fieldValues, fieldOf, readyNames,
    str, toInt_itoa h]

theorem unmarshalProof_value (d : ProofDocument) : unmarshalProof [d.value] = some d := by
  simp [unmarshalProof, ProofDocument.value, strictMembers, allKnown, fieldValues, fieldOf,
    proofNames, str, unmarshalJWK_value]

theorem randomValue_length (bytes : List.Vector UInt8 32) : (randomValue bytes).length = 43 := by
  simp [randomValue, Base64.encodeToString_length]

/-- The text of a challenge of version 1 up to its identifier. -/
def challengeHead : Bytes := str "\x7b\"version\":1,\"challenge_id\":\""

theorem encode_challenge_head {c : Challenge} (hv : c.version = 1) (hid : PlainString c.id) :
    ∃ tail, encode c.value = challengeHead ++ (c.id ++ tail) := by
  simp only [Challenge.value, encode, encodeMembers, hv, encodeString_plain hid]
  exact ⟨_, by simp only [List.cons_append, List.append_assoc]; rfl⟩

/-- Equal challenge texts have equal identifiers. -/
theorem encode_challenge_id {c d : Challenge} {i j : List.Vector UInt8 32}
    (hc : c.version = 1) (hd : d.version = 1) (hi : c.id = randomValue i)
    (hj : d.id = randomValue j) (h : encode c.value = encode d.value) : c.id = d.id := by
  obtain ⟨tc, hc⟩ := encode_challenge_head hc (hi ▸ plainString_base64 _)
  obtain ⟨td, hd⟩ := encode_challenge_head hd (hj ▸ plainString_base64 _)
  rw [hc, hd] at h
  have hlen : c.id.length = d.id.length := by rw [hi, hj, randomValue_length, randomValue_length]
  exact (List.append_inj (List.append_cancel_left h) hlen).1

/-! ## Well-formed challenges -/

theorem validRandom_iff {value : Bytes} :
    validRandom value = true ↔ ∃ bytes : List.Vector UInt8 32, value = randomValue bytes := by
  constructor
  · intro h
    unfold validRandom at h
    split at h
    · cases h
    rename_i decoded _
    rw [Bool.and_eq_true, decide_eq_true_iff, decide_eq_true_iff] at h
    exact ⟨⟨decoded, h.1⟩, h.2.symm⟩
  · rintro ⟨bytes, rfl⟩
    simp [validRandom, randomValue, Base64.decodeString_encodeToString]

theorem validRandom_facts {value : Bytes} (h : validRandom value = true) :
    PlainString value ∧ value.length = 43 := by
  obtain ⟨bytes, rfl⟩ := validRandom_iff.mp h
  exact ⟨plainString_base64 _, randomValue_length bytes⟩

theorem thumbprint_valid (j : PublicJWK) : validRandom j.thumbprint = true :=
  validRandom_iff.mpr ⟨⟨Sha.sum256 j.canonical, Sha.sum256_length _⟩, rfl⟩

theorem jwkFor_key {key : Bytes} (h : key.length = 32) : (jwkFor key).key = .ok key := by
  simp [PublicJWK.key, jwkFor, Base64.decodeString_encodeToString, h]

/-- What `validateChallenge` demands at any time. -/
structure Challenge.WellFormed (c : Challenge) : Prop where
  version : c.version = 1
  id : validRandom c.id = true
  nonce : validRandom c.nonce = true
  fqdn : validFQDN c.fqdn = true
  trustDomain : validFQDN c.trustDomain = true
  serverID : c.serverID = NodeAttest.serverID c.trustDomain
  keyThumbprint : validRandom c.keyThumbprint = true

theorem unix_add_challengeTTL (t : Int) : unix (t + challengeTTL) = unix t + 120 :=
  Int.add_mul_ediv_right t 120 (by decide)

/-- The window is open at its end: a challenge is refused in the second in which it expires. -/
theorem validateChallenge_iff {c : Challenge} {now : Int} :
    validateChallenge c now = .ok () ↔
      c.WellFormed ∧ unix now < c.expiresAt ∧ c.expiresAt ≤ unix now + 120 := by
  unfold validateChallenge
  rw [unix_add_challengeTTL]
  constructor
  · intro h
    split at h
    · cases h
    rename_i hform
    split at h
    · cases h
    rename_i hwindow
    push Not at hform hwindow
    obtain ⟨hversion, hid, hnonce, hfqdn, hdomain, hserver, hkey⟩ := hform
    exact ⟨⟨hversion, hid, hnonce, hfqdn, hdomain, hserver, hkey⟩, hwindow⟩
  · rintro ⟨h, hlive, hend⟩
    rw [if_neg (by simp [h.version, h.id, h.nonce, h.fqdn, h.trustDomain, h.serverID,
      h.keyThumbprint]), if_neg (by omega)]

/-! ## Plain documents and their sizes -/

theorem encode_string_length {s : Bytes} (h : PlainString s) :
    (encode (.string s)).length = s.length + 2 :=
  encodeString_length h

theorem jwkFor_plain (key : Bytes) : Plain (jwkFor key).value :=
  ⟨plainString_str (by decide), plainString_str (by decide), plainString_str (by decide),
    plainString_str (by decide), plainString_str (by decide), plainString_base64 key, trivial⟩

theorem jwkFor_length (key : Bytes) :
    (encode (jwkFor key).value).length = (4 * key.length + 2) / 3 + 36 := by
  rw [PublicJWK.value, encode_object_length (jwkFor_plain key)]
  simp only [jwkFor, List.map_cons, List.map_nil, List.sum_cons, List.sum_nil]
  rw [encode_string_length (plainString_base64 key), Base64.encodeToString_length,
    encode_string_length (plainString_str (by decide)),
    encode_string_length (plainString_str (by decide))]
  simp [str]
  omega

/-- The request for a valid name and a public key decodes to itself. -/
theorem decodeJSON_request {fqdn key : Bytes} (hf : validFQDN fqdn = true)
    (hk : key.length = 32) :
    decodeJSON unmarshalRequest (encode (Request.value ⟨1, fqdn, jwkFor key⟩)) =
      .ok ⟨1, fqdn, jwkFor key⟩ := by
  have hplain : Plain (Request.value ⟨1, fqdn, jwkFor key⟩) :=
    ⟨plainString_str (by decide), ⟨1, rfl⟩, plainString_str (by decide), plainString_fqdn hf,
      plainString_str (by decide), jwkFor_plain key, trivial⟩
  have hfqdn := (validFQDN_facts hf).1
  have hone : FitsInt64 1 := by decide
  have hversion := itoa_length hone
  refine decodeJSON_encode hplain ?_ (unmarshalRequest_value hone)
  rw [Request.value, encode_object_length hplain]
  simp only [List.map_cons, List.map_nil, List.sum_cons, List.sum_nil]
  rw [encode_string_length (plainString_fqdn hf), jwkFor_length, hk]
  simp [str, encode, maxDocumentSize]
  omega

theorem Challenge.WellFormed.plain {c : Challenge} (h : c.WellFormed) : Plain c.value :=
  ⟨plainString_str (by decide), ⟨c.version, rfl⟩, plainString_str (by decide),
    (validRandom_facts h.id).1, plainString_str (by decide), (validRandom_facts h.nonce).1,
    plainString_str (by decide), plainString_fqdn h.fqdn, plainString_str (by decide),
    plainString_fqdn h.trustDomain, plainString_str (by decide),
    h.serverID ▸ plainString_serverID h.trustDomain, plainString_str (by decide),
    (validRandom_facts h.keyThumbprint).1, plainString_str (by decide), ⟨c.expiresAt, rfl⟩, trivial⟩

theorem Challenge.WellFormed.length {c : Challenge} (h : c.WellFormed)
    (he : FitsInt64 c.expiresAt) : (encode c.value).length ≤ 1078 := by
  have hversion := itoa_length (show FitsInt64 c.version by rw [h.version]; decide)
  have hexpires := itoa_length he
  have hfqdn := (validFQDN_facts h.fqdn).1
  have hdomain := (validFQDN_facts h.trustDomain).1
  obtain ⟨hid, hidLen⟩ := validRandom_facts h.id
  obtain ⟨hnonce, hnonceLen⟩ := validRandom_facts h.nonce
  obtain ⟨hkey, hkeyLen⟩ := validRandom_facts h.keyThumbprint
  rw [Challenge.value, encode_object_length h.plain]
  simp only [List.map_cons, List.map_nil, List.sum_cons, List.sum_nil]
  rw [encode_string_length hid, encode_string_length hnonce, encode_string_length hkey,
    encode_string_length (plainString_fqdn h.fqdn),
    encode_string_length (plainString_fqdn h.trustDomain), h.serverID,
    encode_string_length (plainString_serverID h.trustDomain), hidLen, hnonceLen, hkeyLen]
  simp [str, encode, NodeAttest.serverID]
  omega

theorem decodeJSON_challenge {c : Challenge} (h : c.WellFormed) (he : FitsInt64 c.expiresAt) :
    decodeJSON unmarshalChallenge (encode c.value) = .ok c := by
  have hsize := h.length he
  exact decodeJSON_encode h.plain (by unfold maxDocumentSize; omega)
    (unmarshalChallenge_value (by rw [h.version]; decide) he)

theorem decodeJSON_ready {id : Bytes} (h : validRandom id = true) :
    decodeJSON unmarshalReady (encode (Ready.value ⟨1, id⟩)) = .ok ⟨1, id⟩ := by
  obtain ⟨hid, hlen⟩ := validRandom_facts h
  have hplain : Plain (Ready.value ⟨1, id⟩) :=
    ⟨plainString_str (by decide), ⟨1, rfl⟩, plainString_str (by decide), hid, trivial⟩
  have hone : FitsInt64 1 := by decide
  have hversion := itoa_length hone
  refine decodeJSON_encode hplain ?_ (unmarshalReady_value hone)
  rw [Ready.value, encode_object_length hplain]
  simp only [List.map_cons, List.map_nil, List.sum_cons, List.sum_nil]
  rw [encode_string_length hid, hlen]
  simp [str, encode, maxDocumentSize]
  omega

theorem decodeJSON_proof {key compact : Bytes} (hk : key.length = 32)
    (hplain : PlainString compact) (hlen : compact.length ≤ 8000) :
    decodeJSON unmarshalProof (encode (ProofDocument.value ⟨jwkFor key, compact⟩)) =
      .ok ⟨jwkFor key, compact⟩ := by
  have hvalue : Plain (ProofDocument.value ⟨jwkFor key, compact⟩) :=
    ⟨plainString_str (by decide), jwkFor_plain key, plainString_str (by decide), hplain, trivial⟩
  refine decodeJSON_encode hvalue ?_ (unmarshalProof_value _)
  rw [ProofDocument.value, encode_object_length hvalue]
  simp only [List.map_cons, List.map_nil, List.sum_cons, List.sum_nil]
  rw [encode_string_length hplain, jwkFor_length, hk]
  simp [str, maxDocumentSize]
  omega

/-! ## A sample session -/

/-- A stand-in for go-jose that signs with zero bytes and accepts every signature. -/
def sampleJose : Jose where
  sign _ payload := some (Base64.encodeToString
      (str "\x7b\"alg\":\"EdDSA\",\"typ\":\"spire-http-node-attestation+jws\"\x7d") ++ str "." ++
    Base64.encodeToString payload ++ str "." ++ Base64.encodeToString (List.replicate 64 0))
  parseSigned proof :=
    match split proof (chr '.') with
    | [_, payload, _] =>
      (Base64.decodeString payload).map fun payload =>
        ⟨[some proofType], fun _ => some payload⟩
    | _ => none

def sampleRandom (b : UInt8) : List.Vector UInt8 32 := ⟨List.replicate 32 b, rfl⟩

def sampleRequest : Request := ⟨1, str "alpha.test", jwkFor (List.replicate 32 7)⟩

/-- The challenge for the sample request at time zero. -/
def sampleChallenge : Challenge where
  version := 1
  id := randomValue (sampleRandom 1)
  nonce := randomValue (sampleRandom 2)
  fqdn := str "alpha.test"
  trustDomain := str "realm.test"
  serverID := serverID (str "realm.test")
  keyThumbprint := sampleRequest.bootstrapJWK.thumbprint
  expiresAt := 120

def sampleBody : Bytes :=
  encode (ProofDocument.value ⟨sampleRequest.bootstrapJWK,
    (sampleJose.sign [] (encode sampleChallenge.value)).getD []⟩)

end RealmFormal.NodeAttest

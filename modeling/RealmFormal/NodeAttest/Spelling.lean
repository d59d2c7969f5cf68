import RealmFormal.NodeAttest.Honest

/-!
# One spelling for identifiers and keys

The strict decoder skips line breaks, so one value has many texts that decode to it.
Only the text that encoding gives back is accepted.
-/

namespace RealmFormal.NodeAttest
open Go
set_option autoImplicit false

theorem encodeToString_inj {s t : Bytes} :
    Base64.encodeToString s = Base64.encodeToString t ↔ s = t := by
  constructor
  · intro h
    have hdecoded := congrArg Base64.decodeString h
    rw [Base64.decodeString_encodeToString, Base64.decodeString_encodeToString] at hdecoded
    exact Option.some.inj hdecoded
  · intro h
    rw [h]

theorem validRandom_iff_unique {v : Bytes} :
    validRandom v = true ↔
      ∃! bytes : List.Vector UInt8 32, v = Base64.encodeToString bytes.toList := by
  rw [validRandom_iff]
  constructor
  · rintro ⟨bytes, rfl⟩
    refine ⟨bytes, rfl, ?_⟩
    intro other hother
    exact List.Vector.eq _ _ (encodeToString_inj.mp hother).symm
  · rintro ⟨bytes, hbytes, -⟩
    exact ⟨bytes, hbytes⟩

theorem decodeString_of_validRandom {v : Bytes} (h : validRandom v = true) :
    ∃ bytes : List.Vector UInt8 32, v = randomValue bytes ∧
      Base64.decodeString v = some bytes.toList := by
  obtain ⟨bytes, rfl⟩ := validRandom_iff.mp h
  exact ⟨bytes, rfl, Base64.decodeString_encodeToString _⟩

/-- Accepted identifiers are equal when the bytes they stand for are. -/
theorem validRandom_eq_iff {v w : Bytes} (hv : validRandom v = true) (hw : validRandom w = true) :
    v = w ↔ Base64.decodeString v = Base64.decodeString w := by
  constructor
  · intro h
    rw [h]
  · intro h
    obtain ⟨bytes, rfl, hbytes⟩ := decodeString_of_validRandom hv
    obtain ⟨other, rfl, hother⟩ := decodeString_of_validRandom hw
    rw [hbytes, hother] at h
    rw [randomValue, randomValue, Option.some.inj h]

theorem key_eq_ok_iff {j : PublicJWK} {key : Bytes} :
    j.key = .ok key ↔ j.kty = str "OKP" ∧ j.crv = str "Ed25519" ∧ key.length = 32 ∧
      j.x = Base64.encodeToString key := by
  constructor
  · intro h
    unfold PublicJWK.key at h
    split at h
    · cases h
    rename_i hkind
    rw [not_or, not_not, not_not] at hkind
    split at h
    · cases h
    split at h
    · cases h
    rename_i hkey
    rw [not_or, not_not, not_not] at hkey
    cases h
    exact ⟨hkind.1, hkind.2, hkey.1, hkey.2.symm⟩
  · rintro ⟨hkty, hcrv, hlength, hx⟩
    have hj : j = jwkFor key := by
      cases j
      cases hkty
      cases hcrv
      cases hx
      rfl
    rw [hj]
    exact jwkFor_key hlength

/-- The control and the public path of an accepted identifier are their own escaped forms, and
both handlers read the identifier back. -/
theorem paths_of_validRandom {v : Bytes} (h : validRandom v = true) :
    v.length = 43 ∧ (∀ b ∈ v, Url.shouldEscape b = false) ∧
      Url.escapePath (controlPrefix ++ v) = controlPrefix ++ v ∧
      Url.escapePath (pathPrefix ++ v) = pathPrefix ++ v ∧
      ∀ start, proofID (start ++ v) start = some v := by
  obtain ⟨bytes, rfl⟩ := validRandom_iff.mp h
  refine ⟨randomValue_length bytes, ?_, ?_, ?_, ?_⟩
  · intro b hb
    exact shouldEscape_of_isLetter (Base64.encodeToString_isLetter _ b hb)
  · exact escapePath_id (show ∀ b ∈ controlPrefix, _ from by decide +kernel) bytes
  · exact escapePath_id (show ∀ b ∈ pathPrefix, _ from by decide +kernel) bytes
  · intro start
    exact proofID_append start bytes

/-- An accepted identifier is the encoding of 32 bytes, and of no other 32 bytes; an accepted key
is the decoding of its one text. Identifiers go through both URL paths unchanged. -/
theorem accepted_one_spelling :
    (∀ v, validRandom v = true ↔
      ∃! bytes : List.Vector UInt8 32, v = Base64.encodeToString bytes.toList) ∧
    (∀ (j : PublicJWK) key, j.key = .ok key ↔
      j.kty = str "OKP" ∧ j.crv = str "Ed25519" ∧ key.length = 32 ∧
        j.x = Base64.encodeToString key) ∧
    (∀ v w, validRandom v = true → validRandom w = true →
      (v = w ↔ Base64.decodeString v = Base64.decodeString w)) ∧
    (∀ (j k : PublicJWK) key other, j.key = .ok key → k.key = .ok other →
      (j.x = k.x ↔ key = other)) ∧
    ∀ v, validRandom v = true →
      v.length = 43 ∧ (∀ b ∈ v, Url.shouldEscape b = false) ∧
        Url.escapePath (controlPrefix ++ v) = controlPrefix ++ v ∧
        Url.escapePath (pathPrefix ++ v) = pathPrefix ++ v ∧
        ∀ start, proofID (start ++ v) start = some v := by
  refine ⟨fun v => validRandom_iff_unique, fun j key => key_eq_ok_iff, ?_, ?_, ?_⟩
  · intro v w hv hw
    exact validRandom_eq_iff hv hw
  · intro j k key other hj hk
    rw [(key_eq_ok_iff.mp hj).2.2.2, (key_eq_ok_iff.mp hk).2.2.2]
    exact encodeToString_inj
  · intro v hv
    exact paths_of_validRandom hv

/-- The decoder takes a line break at the end of an identifier, which is no second spelling. -/
example : Base64.decodeString (List.replicate 43 (chr 'A') ++ [chr '\n']) =
      Base64.decodeString (List.replicate 43 (chr 'A')) ∧
    validRandom (List.replicate 43 (chr 'A')) = true ∧
    validRandom (List.replicate 43 (chr 'A') ++ [chr '\n']) = false := by decide +kernel

end RealmFormal.NodeAttest

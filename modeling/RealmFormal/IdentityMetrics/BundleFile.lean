import RealmFormal.Go.Base64
import RealmFormal.Go.Pem
import RealmFormal.Go.Sha
import RealmFormal.IdentityMetrics.WellFormed

/-!
# The file of the bundle

`loadBundle` on the bytes of the file. `pem.Decode` skips what it does not take for a
block, so the loop checks that the block it gets is all that was consumed. A file
that is accepted is a sequence of certificate blocks with white space between them,
and the result has the first certificate of each fingerprint, in the order of the file.
-/

namespace RealmFormal.IdentityMetrics
open Go
set_option autoImplicit false

/-! ## Reading the file -/

/-- An open file: what `Stat` says, and what `ReadAll` returns of its content. -/
structure PublicFile where
  regular : Bool
  size : Nat
  content : Option Bytes

/-- `readPublicFile`; a file that cannot be opened, or for which `Stat` fails, is `none`. The file
may grow after `Stat`. -/
def readPublicFile (file : Option PublicFile) (limit : Nat) : Option Bytes :=
  match file with
  | none => none
  | some f =>
    if f.regular = false ∨ f.size > limit then none
    else
      match f.content with
      | none => none
      | some content =>
        let raw := content.take (limit + 1)
        if raw.length > limit then none else some raw

def maxBundleBytes : Nat := 1048576

/-- What is read is the whole content. -/
theorem readPublicFile_content {file : Option PublicFile} {limit : Nat} {raw : Bytes}
    (h : readPublicFile file limit = some raw) :
    ∃ f, file = some f ∧ f.content = some raw ∧ raw.length ≤ limit := by
  unfold readPublicFile at h
  split at h
  · cases h
  rename_i f
  split at h
  · cases h
  split at h
  · cases h
  rename_i content hcontent
  dsimp only at h
  split at h
  · cases h
  rename_i hlimit
  cases h
  have hwhole : content.take (limit + 1) = content := by
    rw [List.length_take] at hlimit
    exact List.take_of_length_le (by omega)
  refine ⟨f, rfl, ?_, Nat.le_of_not_gt hlimit⟩
  rw [hwhole]
  exact hcontent

/-! ## The loop -/

def isSpace (b : UInt8) : Bool :=
  b == chr ' ' || b == chr '\r' || b == chr '\n' || b == chr '\t'

def trimSpace (raw : Bytes) : Bytes := raw.dropWhile isSpace

def fingerprint (cert : X509Certificate) : Bytes := encodeToString (Sha.sum256 cert.raw)

def certificateLine : Bytes := str "-----BEGIN CERTIFICATE-----"

/-- One more certificate, unless its fingerprint has been seen. -/
def addCertificate (certs : List X509Certificate) (seen : List Bytes) (cert : X509Certificate) :
    List X509Certificate × List Bytes :=
  let fp := fingerprint cert
  if fp ∈ seen then (certs, seen) else (certs ++ [cert], fp :: seen)

section Load
variable (pem : PemDecoder) (x509 : X509Parser)

/-- The loop body up to the certificate and what follows it; `none` is the end of the file. -/
def nextCertificate (raw : Bytes) : Option (Except String (X509Certificate × Bytes)) :=
  let raw := trimSpace raw
  if raw.length = 0 then none
  else if hasPrefix raw certificateLine = false then some (.error "bundle_format")
  else
    match pem.decode raw with
    | none => some (.error "bundle_format")
    | some (block, rest) =>
      if block.type ≠ str "CERTIFICATE" ∨ block.headers.size ≠ 0 ∨
          count (raw.take (raw.length - rest.length)) beginMark ≠ 1 then
        some (.error "bundle_format")
      else
        match x509.parse block.bytes with
        | none => some (.error "bundle_certificate")
        | some cert =>
          if cert.isCA = false ∨ cert.basicConstraintsValid = false ∨
              cert.keyUsage &&& keyUsageCertSign = 0 then
            some (.error "bundle_certificate")
          else some (.ok (cert, rest))

/-- The loop, which may run `fuel` times; `none` is a loop that has not ended by then. -/
def loadFrom : Nat → List X509Certificate → List Bytes → Bytes →
    Option (Except String (List X509Certificate))
  | 0, _, _, _ => none
  | fuel + 1, certs, seen, raw =>
    match nextCertificate pem x509 raw with
    | none => some (if certs.length = 0 then .error "bundle_empty" else .ok certs)
    | some (.error e) => some (.error e)
    | some (.ok (cert, rest)) =>
      let next := addCertificate certs seen cert
      if next.1.length > 64 then some (.error "bundle_limit")
      else loadFrom fuel next.1 next.2 rest

/-- `loadBundle` -/
def loadBundleFile (fuel : Nat) (file : Option PublicFile) :
    Option (Except String (List X509Certificate)) :=
  match readPublicFile file maxBundleBytes with
  | none => some (.error "bundle_read")
  | some raw => loadFrom pem x509 fuel [] [] raw

/-! ## One certificate -/

/-- A certificate in the file, with the white space before it. -/
structure Entry where
  space : Bytes
  text : Bytes
  block : PemBlock
  cert : X509Certificate

/-- The text is a certificate block without headers, and it holds an authority that signs
certificates. -/
structure Entry.Valid (e : Entry) : Prop where
  space : ∀ b ∈ e.space, isSpace b = true
  text : pem.WellFormed e.text e.block
  type : e.block.type = str "CERTIFICATE"
  headers : e.block.headers.size = 0
  cert : x509.parse e.block.bytes = some e.cert
  isCA : e.cert.isCA = true
  constraints : e.cert.basicConstraintsValid = true
  usage : e.cert.keyUsage &&& keyUsageCertSign ≠ 0

def Entry.bytes (e : Entry) : Bytes := e.space ++ e.text

theorem trimSpace_split (raw : Bytes) :
    ∃ space, (∀ b ∈ space, isSpace b = true) ∧ raw = space ++ trimSpace raw := by
  refine ⟨raw.takeWhile isSpace, List.all_eq_true.mp List.all_takeWhile, ?_⟩
  exact List.takeWhile_append_dropWhile.symm

variable {pem x509}

/-- The end of the file is reached when only white space is left. -/
theorem nextCertificate_none {raw : Bytes} (h : nextCertificate pem x509 raw = none) :
    ∀ b ∈ raw, isSpace b = true := by
  obtain ⟨space, hspace, hraw⟩ := trimSpace_split raw
  have hempty : trimSpace raw = [] := by
    unfold nextCertificate at h
    dsimp only at h
    split at h
    · rename_i hlength
      exact List.length_eq_zero_iff.mp hlength
    · repeat' split at h
      all_goals cases h
  rw [hempty, List.append_nil] at hraw
  rw [hraw]
  exact hspace

theorem certificateLine_begins : beginMark <+: certificateLine := by decide

theorem hasPrefix_iff {s p : Bytes} : hasPrefix s p = true ↔ p <+: s :=
  List.isPrefixOf_iff_prefix

/-- A certificate is the next text of the file: nothing but white space was skipped. -/
theorem nextCertificate_ok {raw rest : Bytes} {cert : X509Certificate}
    (h : nextCertificate pem x509 raw = some (.ok (cert, rest))) :
    ∃ e : Entry, e.Valid pem x509 ∧ e.cert = cert ∧ raw = e.bytes ++ rest := by
  obtain ⟨space, hspace, hraw⟩ := trimSpace_split raw
  unfold nextCertificate at h
  dsimp only at h
  split at h
  · cases h
  split at h
  · cases h
  rename_i hline
  split at h
  · cases h
  rename_i block rest' hdecode
  split at h
  · cases h
  rename_i hblock
  push Not at hblock
  split at h
  · cases h
  rename_i cert' hcert
  split at h
  · cases h
  rename_i hsigns
  push Not at hsigns
  cases h
  have hmark : beginMark <+: trimSpace raw := by
    rw [Bool.not_eq_false, hasPrefix_iff] at hline
    exact certificateLine_begins.trans hline
  obtain ⟨text, htext, hwell⟩ := pem.decode_first hdecode hmark hblock.2.2
  refine ⟨⟨space, text, block, cert⟩, ⟨hspace, hwell, hblock.1, hblock.2.1, hcert, ?_, ?_,
    hsigns.2.2⟩, rfl, ?_⟩
  · exact Bool.not_eq_false _ ▸ hsigns.1
  · exact Bool.not_eq_false _ ▸ hsigns.2.1
  rw [Entry.bytes, List.append_assoc, ← htext]
  exact hraw

theorem Entry.Valid.bytes_pos {e : Entry} (h : e.Valid pem x509) : 0 < e.bytes.length := by
  have hmark := (pem.begins h.text).length_le
  have hlength : beginMark.length = 11 := by decide
  rw [Entry.bytes, List.length_append]
  omega

/-! ## The first of each fingerprint -/

/-- The first certificate of each fingerprint, in order. -/
def firstOfEach (certs : List X509Certificate) : List X509Certificate :=
  certs.eraseDupsBy fun a b => decide (fingerprint a = fingerprint b)

/-- The certificates whose fingerprint is not one of `certs`. -/
def unseen (certs l : List X509Certificate) : List X509Certificate :=
  l.filter fun c => decide (fingerprint c ∉ certs.map fingerprint)

theorem firstOfEach_cons (c : X509Certificate) (l : List X509Certificate) :
    firstOfEach (c :: l) =
      c :: firstOfEach (l.filter fun d => decide (fingerprint d ≠ fingerprint c)) := by
  rw [firstOfEach, List.eraseDupsBy_cons]
  congr 2
  apply List.filter_congr
  intro d _
  rw [decide_eq_decide, decide_eq_false_iff_not]

theorem unseen_concat (certs l : List X509Certificate) (cert : X509Certificate) :
    unseen (certs ++ [cert]) l =
      (unseen certs l).filter fun d => decide (fingerprint d ≠ fingerprint cert) := by
  unfold unseen
  rw [List.filter_filter]
  apply List.filter_congr
  intro d _
  simp [and_comm]

/-- The set of fingerprints is that of the certificates. -/
def Tracks (seen : List Bytes) (certs : List X509Certificate) : Prop :=
  ∀ fp, fp ∈ seen ↔ fp ∈ certs.map fingerprint

theorem tracks_nil : Tracks [] [] := fun _ => Iff.rfl

theorem Tracks.add {seen : List Bytes} {certs : List X509Certificate} (h : Tracks seen certs)
    (cert : X509Certificate) :
    Tracks (addCertificate certs seen cert).2 (addCertificate certs seen cert).1 := by
  unfold addCertificate
  dsimp only
  split
  · exact h
  · intro fp
    rw [List.mem_cons, h, List.map_append, List.mem_append, List.map_singleton,
      List.mem_singleton, or_comm]

/-- What `addCertificate` does to the result. -/
theorem Tracks.firstOfEach_add {seen : List Bytes} {certs : List X509Certificate}
    (h : Tracks seen certs) (cert : X509Certificate) (l : List X509Certificate) :
    certs ++ firstOfEach (unseen certs (cert :: l)) =
      (addCertificate certs seen cert).1 ++
        firstOfEach (unseen (addCertificate certs seen cert).1 l) := by
  unfold addCertificate
  dsimp only
  rw [unseen, List.filter_cons]
  by_cases hold : fingerprint cert ∈ seen
  · rw [if_pos hold, if_neg (by simpa using (h _).mp hold)]
    rfl
  · rw [if_neg hold, if_pos (decide_eq_true (mt (h _).mpr hold)), firstOfEach_cons, ← unseen,
      ← unseen_concat, List.append_assoc]
    rfl

/-- Certificates that their fingerprints tell apart: only repetitions are left out. -/
theorem firstOfEach_eq_eraseDups {l : List X509Certificate}
    (h : ∀ a ∈ l, ∀ b ∈ l, fingerprint a = fingerprint b → a = b) :
    firstOfEach l = l.eraseDups := by
  -- both functions go on with a part of the tail
  induction hlength : l.length using Nat.strong_induction_on generalizing l with
  | _ n ih =>
    subst hlength
    cases l with
    | nil => rfl
    | cons c l =>
      have hsame : (l.filter fun d => decide (fingerprint d ≠ fingerprint c)) =
          l.filter fun d => !d == c := by
        apply List.filter_congr
        intro d hd
        have hiff : fingerprint d = fingerprint c ↔ d = c :=
          ⟨h d (List.mem_cons_of_mem _ hd) c List.mem_cons_self, congrArg fingerprint⟩
        simp [hiff, beq_eq_decide]
      rw [firstOfEach_cons, List.eraseDups_cons, hsame]
      congr 1
      refine ih _ ?_ ?_ rfl
      · exact Nat.lt_succ_of_le (List.length_filter_le _ _)
      · intro a ha b hb
        exact h a (List.mem_cons_of_mem _ (List.mem_of_mem_filter ha)) b
          (List.mem_cons_of_mem _ (List.mem_of_mem_filter hb))

/-! ## The whole file -/

variable (pem x509) in
/-- The bytes are those of the entries, with white space after the last. -/
structure Laid (raw : Bytes) (entries : List Entry) : Prop where
  valid : ∀ e ∈ entries, e.Valid pem x509
  bytes : ∃ tail, (∀ b ∈ tail, isSpace b = true) ∧ raw = entries.flatMap Entry.bytes ++ tail

theorem Laid.cons {raw : Bytes} {entries : List Entry} (h : Laid pem x509 raw entries) {e : Entry}
    (he : e.Valid pem x509) : Laid pem x509 (e.bytes ++ raw) (e :: entries) := by
  obtain ⟨tail, htail, hraw⟩ := h.bytes
  refine ⟨List.forall_mem_cons.mpr ⟨he, h.valid⟩, tail, htail, ?_⟩
  rw [List.flatMap_cons, List.append_assoc, ← hraw]

variable (pem x509) in
/-- The loop ends, and a result accounts for every byte. -/
theorem loadFrom_laid {fuel : Nat} {certs : List X509Certificate} {seen : List Bytes} {raw : Bytes}
    (hfuel : raw.length < fuel) (hseen : Tracks seen certs)
    (hlimit : certs.length ≤ 64) :
    ∃ result, loadFrom pem x509 fuel certs seen raw = some result ∧
      ∀ loaded, result = .ok loaded → ∃ entries, Laid pem x509 raw entries ∧
        loaded = certs ++ firstOfEach (unseen certs (entries.map Entry.cert)) ∧
        0 < loaded.length ∧ loaded.length ≤ 64 := by
  induction fuel generalizing certs seen raw with
  | zero => exact absurd hfuel (Nat.not_lt_zero _)
  | succ fuel ih =>
    rw [loadFrom]
    split
    · rename_i hnext
      refine ⟨_, rfl, ?_⟩
      intro loaded hloaded
      split at hloaded
      · cases hloaded
      · rename_i hlength
        cases hloaded
        refine ⟨[], ⟨List.forall_mem_nil _, raw, nextCertificate_none hnext, rfl⟩, ?_, ?_, hlimit⟩
        · exact (List.append_nil certs).symm
        · exact Nat.pos_of_ne_zero hlength
    · exact ⟨_, rfl, fun loaded hloaded => by cases hloaded⟩
    · rename_i cert rest hnext
      obtain ⟨e, he, rfl, rfl⟩ := nextCertificate_ok hnext
      have hrest : rest.length < fuel := by
        have hpos := he.bytes_pos
        rw [List.length_append] at hfuel
        omega
      have hadd := hseen.firstOfEach_add e.cert
      have hseen' := hseen.add e.cert
      dsimp only
      generalize addCertificate certs seen e.cert = next at hadd hseen' ⊢
      split
      · exact ⟨_, rfl, fun loaded hloaded => by cases hloaded⟩
      · rename_i hlength
        obtain ⟨result, hrun, hresult⟩ := ih hrest hseen' (Nat.le_of_not_gt hlength)
        refine ⟨result, hrun, ?_⟩
        intro loaded hloaded
        obtain ⟨entries, hlaid, hfirst, hbounds⟩ := hresult loaded hloaded
        refine ⟨e :: entries, hlaid.cons he, ?_, hbounds⟩
        rw [List.map_cons, hadd]
        exact hfirst

/-- More turns than the loop needs do not change its result. -/
theorem loadFrom_mono {fuel more : Nat} (hmore : fuel ≤ more) {certs : List X509Certificate}
    {seen : List Bytes} {raw : Bytes} {result : Except String (List X509Certificate)}
    (h : loadFrom pem x509 fuel certs seen raw = some result) :
    loadFrom pem x509 more certs seen raw = some result := by
  induction fuel generalizing more certs seen raw with
  | zero => cases h
  | succ fuel ih =>
    obtain ⟨more, rfl⟩ := Nat.exists_eq_add_of_le' hmore
    rw [← Nat.add_assoc, loadFrom]
    rw [loadFrom] at h
    split at h
    · exact h
    · exact h
    · dsimp only at h ⊢
      split at h
      · rename_i hlimit
        rw [if_pos hlimit]
        exact h
      · rename_i hlimit
        rw [if_neg hlimit]
        exact ih (Nat.le_add_left _ _) h

variable (pem x509) in
/-- Whatever blocks the decoder finds and skips: `loadBundle` ends, and a bundle that it returns
has the certificates of the whole file. -/
theorem loadBundle_accounts (file : Option PublicFile) :
    ∃ result, (∀ fuel, maxBundleBytes < fuel → loadBundleFile pem x509 fuel file = some result) ∧
      ∀ certs, result = .ok certs → ∃ f raw entries,
        file = some f ∧ f.content = some raw ∧ Laid pem x509 raw entries ∧
        certs = firstOfEach (entries.map Entry.cert) ∧
        1 ≤ certs.length ∧ certs.length ≤ 64 ∧
        ((∀ e ∈ entries, ∀ e' ∈ entries,
            fingerprint e.cert = fingerprint e'.cert → e.cert.raw = e'.cert.raw) →
          certs = (entries.map Entry.cert).eraseDups) := by
  unfold loadBundleFile
  cases hread : readPublicFile file maxBundleBytes with
  | none => exact ⟨_, fun fuel _ => rfl, fun certs hcerts => by cases hcerts⟩
  | some raw =>
    obtain ⟨f, hfile, hcontent, hlength⟩ := readPublicFile_content hread
    obtain ⟨result, hrun, hresult⟩ := loadFrom_laid pem x509 (Nat.lt_succ_self raw.length)
      tracks_nil (Nat.zero_le _)
    refine ⟨result, fun fuel hfuel => loadFrom_mono (by omega) hrun, ?_⟩
    intro certs hcerts
    obtain ⟨entries, hlaid, hfirst, hpos, hlimit⟩ := hresult certs hcerts
    have hall : certs = firstOfEach (entries.map Entry.cert) := by
      rw [hfirst]
      simp [unseen]
    refine ⟨f, raw, entries, hfile, hcontent, hlaid, hall, hpos, hlimit, ?_⟩
    intro hapart
    rw [hall]
    apply firstOfEach_eq_eraseDups
    intro a ha b hb hab
    obtain ⟨e, he, rfl⟩ := List.mem_map.mp ha
    obtain ⟨e', he', rfl⟩ := List.mem_map.mp hb
    have hraw := hapart e he e' he' hab
    have hcert := (hlaid.valid e he).cert
    have hcert' := (hlaid.valid e' he').cert
    rw [x509.raw hcert, x509.raw hcert'] at hraw
    rw [hraw, hcert'] at hcert
    exact (Option.some.inj hcert).symm

def certificateEnd : Bytes := str "-----END CERTIFICATE-----\n"

/-- A certificate block with this text between its lines. -/
def certificateBlock (body : String) : Bytes := certificateLine ++ (str body ++ certificateEnd)

/-- A body in the standard alphabet, with its padding and line breaks. -/
def decodeBody (body : Bytes) : Option Bytes :=
  let text := body.filter fun b => !Base64.isNewline b
  let bare := (text.reverse.dropWhile fun b => b == chr '=').reverse
  if text.length % 4 = 0 ∧ text.length ≤ bare.length + 2 ∧ chr '_' ∉ text then
    Base64.decodeString (bare.map fun b =>
      if b = chr '+' then chr '-' else if b = chr '/' then chr '_' else b)
  else none

/-- A block without headers, as far as the next dash. -/
def blockParse (data : Bytes) : Option (PemBlock × Bytes) :=
  let body := (data.drop certificateLine.length).takeWhile fun b => b != chr '-'
  let rest := (data.drop certificateLine.length).dropWhile fun b => b != chr '-'
  if hasPrefix data certificateLine ∧ hasPrefix rest certificateEnd then
    (decodeBody body).map fun der =>
      (⟨str "CERTIFICATE", .empty, der⟩, rest.drop certificateEnd.length)
  else none

theorem blockParse_begins {data rest : Bytes} {block : PemBlock}
    (h : blockParse data = some (block, rest)) :
    ∃ text, data = text ++ rest ∧ beginMark <+: text := by
  unfold blockParse at h
  dsimp only at h
  split at h
  · rename_i hframe
    obtain ⟨der, -, heq⟩ := Option.map_eq_some_iff.mp h
    cases heq
    obtain ⟨⟨body, rfl⟩, ⟨rest, hrest⟩⟩ := And.imp hasPrefix_iff.mp hasPrefix_iff.mp hframe
    rw [List.drop_left] at hrest ⊢
    refine ⟨certificateLine ++ ((body.takeWhile fun b => b != chr '-') ++ certificateEnd), ?_, ?_⟩
    · rw [← hrest, List.drop_left, List.append_assoc, List.append_assoc, hrest,
        List.takeWhile_append_dropWhile]
    · exact certificateLine_begins.trans (List.prefix_append _ _)
  · cases h

def blockDecoder : PemDecoder := BlockParser.decoder ⟨blockParse, blockParse_begins⟩

/-- Every body is an authority. -/
def plainAuthority (der : Bytes) : X509Certificate := ⟨der, true, true, keyUsageCertSign, 0, 0⟩

def plainX509 : X509Parser where
  parse der := some (plainAuthority der)
  raw h := by
    cases h
    rfl

theorem loadBundleFile_mono {fuel more : Nat} (hmore : fuel ≤ more) {file : Option PublicFile}
    {result : Except String (List X509Certificate)}
    (h : loadBundleFile pem x509 fuel file = some result) :
    loadBundleFile pem x509 more file = some result := by
  unfold loadBundleFile at h ⊢
  split at h
  · exact h
  · exact loadFrom_mono hmore h

/-- Three blocks with spaces between them, of which the last repeats the first. -/
def threeBlocks : Bytes :=
  certificateBlock "\nMAA=\n" ++ str " \t" ++ certificateBlock "\nMAEB\n" ++
    certificateBlock "\nMA\nA=\n"

theorem loadBundle_accounts_threeBlocks :
    ∃ entries, Laid blockDecoder plainX509 threeBlocks entries ∧
      firstOfEach (entries.map Entry.cert) =
        [plainAuthority [0x30, 0], plainAuthority [0x30, 1, 1]] := by
  have hload : loadBundleFile blockDecoder plainX509 200 (some ⟨true, 0, some threeBlocks⟩) =
      some (.ok [plainAuthority [0x30, 0], plainAuthority [0x30, 1, 1]]) := by
    decide +kernel
  obtain ⟨result, hresult, haccounts⟩ :=
    loadBundle_accounts blockDecoder plainX509 (some ⟨true, 0, some threeBlocks⟩)
  have hsame := (loadBundleFile_mono (by decide) hload).symm.trans
    (hresult (maxBundleBytes + 1) (Nat.lt_succ_self _))
  cases hsame
  obtain ⟨f, raw, entries, hfile, hcontent, hlaid, hcerts, -⟩ := haccounts _ rfl
  cases hfile
  cases hcontent
  exact ⟨entries, hlaid, hcerts.symm⟩

-- the decoder skips the line without a block and returns the block after it
example :
    loadBundleFile blockDecoder plainX509 200
      (some ⟨true, 0, some (certificateLine ++ certificateBlock "\nMAA=\n")⟩) =
      some (.error "bundle_format") := by
  decide +kernel

/-! ## The blocks of the file -/

/-- What the samples use of a certificate. -/
def certificateOf (cert : X509Certificate) : Certificate :=
  ⟨cert.notBefore, cert.notAfter, fingerprint cert⟩

variable (pem x509) in
/-- The blocks that `loadBlocks` starts from. -/
def blocksFrom : Nat → Bytes → List (Except String Certificate)
  | 0, _ => []
  | fuel + 1, raw =>
    match nextCertificate pem x509 raw with
    | none => []
    | some (.error e) => [.error e]
    | some (.ok (cert, rest)) => .ok (certificateOf cert) :: blocksFrom fuel rest

theorem blocksFrom_hashed {fuel : Nat} {raw : Bytes} {cert : Certificate}
    (h : .ok cert ∈ blocksFrom pem x509 fuel raw) : cert.Hashed := by
  induction fuel generalizing raw with
  | zero => cases h
  | succ fuel ih =>
    rw [blocksFrom] at h
    split at h
    · cases h
    · cases List.mem_singleton.mp h
    · rename_i found rest hnext
      rcases List.mem_cons.mp h with heq | h
      · cases heq
        exact ⟨found.raw, rfl⟩
      · exact ih h

theorem Tracks.any_fingerprint {seen : List Bytes} {certs : List X509Certificate}
    (h : Tracks seen certs) (cert : X509Certificate) :
    ((certs.map certificateOf).any fun c =>
      decide (c.fingerprint = (certificateOf cert).fingerprint)) = true ↔
        fingerprint cert ∈ seen := by
  rw [h, List.any_eq_true]
  constructor
  · rintro ⟨c, hc, heq⟩
    obtain ⟨known, hknown, rfl⟩ := List.mem_map.mp hc
    exact List.mem_map.mpr ⟨known, hknown, of_decide_eq_true heq⟩
  · intro hmem
    obtain ⟨known, hknown, heq⟩ := List.mem_map.mp hmem
    exact ⟨certificateOf known, List.mem_map_of_mem hknown, decide_eq_true heq⟩

theorem Tracks.map_add {seen : List Bytes} {certs : List X509Certificate}
    (h : Tracks seen certs) (cert : X509Certificate) :
    (addCertificate certs seen cert).1.map certificateOf =
      if (certs.map certificateOf).any fun c =>
          decide (c.fingerprint = (certificateOf cert).fingerprint) then certs.map certificateOf
      else certs.map certificateOf ++ [certificateOf cert] := by
  unfold addCertificate
  dsimp only
  by_cases hold : fingerprint cert ∈ seen
  · rw [if_pos hold, if_pos ((h.any_fingerprint cert).mpr hold)]
  · rw [if_neg hold, if_neg (mt (h.any_fingerprint cert).mp hold), List.map_append]
    rfl

/-- The loop over the bytes is the loop over the blocks. -/
theorem loadFrom_blocks {fuel : Nat} {certs : List X509Certificate} {seen : List Bytes}
    {raw : Bytes} {result : Except String (List X509Certificate)}
    (h : loadFrom pem x509 fuel certs seen raw = some result) (hseen : Tracks seen certs) :
    result.map (List.map certificateOf) =
      loadBlocks (certs.map certificateOf) (blocksFrom pem x509 fuel raw) := by
  induction fuel generalizing certs seen raw with
  | zero => cases h
  | succ fuel ih =>
    rw [loadFrom] at h
    rw [blocksFrom]
    split at h
    · cases h
      rw [loadBlocks, List.length_map]
      split <;> rfl
    · cases h
      rfl
    · rename_i cert rest hnext
      dsimp only at h ⊢
      rw [loadBlocks, ← hseen.map_add, List.length_map]
      split at h
      · rename_i hlimit
        cases h
        rw [if_pos hlimit]
        rfl
      · rename_i hlimit
        rw [if_neg hlimit]
        exact ih h (hseen.add cert)

/-- The outcome of `collectBootstrap` for a file. -/
theorem bundleFile_built {fuel : Nat} {file : Option PublicFile}
    {result : Except String (List X509Certificate)}
    (h : loadBundleFile pem x509 fuel file = some result) (c : Settings) (now : Time) :
    Built c (bundleOutcome c.node (result.map (List.map certificateOf)) now) := by
  have hblocks : result.map (List.map certificateOf) =
      loadBundle ((readPublicFile file maxBundleBytes).map (blocksFrom pem x509 fuel)) := by
    unfold loadBundleFile at h
    split at h
    · rename_i hread
      cases h
      rw [hread]
      rfl
    · rename_i raw hread
      rw [hread]
      exact loadFrom_blocks h tracks_nil
  rw [hblocks]
  refine .bundle _ now ?_
  intro blocks cert hfile hcert
  obtain ⟨raw, -, rfl⟩ := Option.map_eq_some_iff.mp hfile
  exact blocksFrom_hashed hcert

end Load

end RealmFormal.IdentityMetrics

import RealmFormal.Go.Bytes
import RealmFormal.Go.Count
import RealmFormal.Lib.Table

/-!
# PEM blocks and certificates

What a caller may rely on of `pem.Decode` and `x509.ParseCertificate`. A decoder may
skip any text before the block it returns, and it consumes the text of the block; the
parser returns the bytes it has parsed as the raw bytes of the certificate.
-/

namespace Go
set_option autoImplicit false

/-- `pem.Block` -/
structure PemBlock where
  type : Bytes
  headers : Table Bytes Bytes
  bytes : Bytes

def beginMark : Bytes := str "-----BEGIN "

/-- `pem.Decode`, for any notion of a well-formed block: which block is returned is left open,
and a block starts with the mark. -/
structure PemDecoder where
  WellFormed : Bytes → PemBlock → Prop
  decode : Bytes → Option (PemBlock × Bytes)
  begins : ∀ {text block}, WellFormed text block → beginMark <+: text
  sound : ∀ {data block rest}, decode data = some (block, rest) →
    ∃ skipped text, data = skipped ++ (text ++ rest) ∧ WellFormed text block

theorem beginMark_unbordered : Unbordered beginMark := by
  unfold Unbordered
  decide

/-- Data that start with the mark, and of which the decoder consumed the mark only once: the block
is their first text. -/
theorem PemDecoder.decode_first (pem : PemDecoder) {data rest : Bytes} {block : PemBlock}
    (h : pem.decode data = some (block, rest)) (hmark : beginMark <+: data)
    (hcount : count (data.take (data.length - rest.length)) beginMark = 1) :
    ∃ text, data = text ++ rest ∧ pem.WellFormed text block := by
  obtain ⟨skipped, text, rfl, htext⟩ := pem.sound h
  have hconsumed : (skipped ++ (text ++ rest)).take
      ((skipped ++ (text ++ rest)).length - rest.length) = skipped ++ text := by
    rw [← List.append_assoc, List.length_append, Nat.add_sub_cancel, List.take_left]
  rw [hconsumed] at hcount
  have hbegins := pem.begins htext
  have hprefix : beginMark <+: skipped ++ text := by
    rw [← List.append_assoc] at hmark
    refine List.prefix_of_prefix_length_le hmark (List.prefix_append _ rest) ?_
    have hlength := hbegins.length_le
    rw [List.length_append]
    omega
  have hskipped := beginMark_unbordered.eq_nil_of_count (by decide) hprefix hbegins hcount
  subst hskipped
  exact ⟨text, rfl, htext⟩

/-- A parser of a block at the head of the data. -/
structure BlockParser where
  parse : Bytes → Option (PemBlock × Bytes)
  begins : ∀ {data block rest}, parse data = some (block, rest) →
    ∃ text, data = text ++ rest ∧ beginMark <+: text

/-- The first block that the parser accepts, wherever it begins. -/
def BlockParser.scan (p : BlockParser) : Bytes → Option (PemBlock × Bytes)
  | [] => none
  | b :: data =>
    match p.parse (b :: data) with
    | some found => some found
    | none => p.scan data

theorem BlockParser.scan_sound (p : BlockParser) {data rest : Bytes} {block : PemBlock}
    (h : p.scan data = some (block, rest)) :
    ∃ skipped text, data = skipped ++ (text ++ rest) ∧ beginMark <+: text ∧
      p.parse (text ++ rest) = some (block, rest) := by
  induction data with
  | nil => cases h
  | cons b data ih =>
    rw [scan] at h
    split at h
    · rename_i found hfound
      cases h
      obtain ⟨text, htext, hmark⟩ := p.begins hfound
      rw [htext] at hfound
      exact ⟨[], text, htext, hmark, hfound⟩
    · obtain ⟨skipped, text, rfl, hfound⟩ := ih h
      exact ⟨b :: skipped, text, rfl, hfound⟩

/-- The decoder that returns the first block. -/
def BlockParser.decoder (p : BlockParser) : PemDecoder where
  WellFormed text block := beginMark <+: text ∧ ∃ rest, p.parse (text ++ rest) = some (block, rest)
  decode := p.scan
  begins h := h.1
  sound h := by
    obtain ⟨skipped, text, hdata, hmark, hfound⟩ := p.scan_sound h
    exact ⟨skipped, text, hdata, hmark, _, hfound⟩

/-- `x509.Certificate`; times are in nanoseconds. -/
structure X509Certificate where
  raw : Bytes
  isCA : Bool
  basicConstraintsValid : Bool
  keyUsage : Nat
  notBefore : Int
  notAfter : Int
  deriving DecidableEq

/-- `x509.KeyUsageCertSign` -/
def keyUsageCertSign : Nat := 32

/-- `x509.ParseCertificate` -/
structure X509Parser where
  parse : Bytes → Option X509Certificate
  raw : ∀ {der cert}, parse der = some cert → cert.raw = der

end Go

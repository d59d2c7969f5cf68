import RealmFormal.Go.Bufio
import RealmFormal.Go.Http

/-!
# The CONNECT tunnel

`dialTunnel` reads lines from the proxy until one is CRLF, gives a copy of them to
`http.ReadResponse`, and returns the connection with the rest of its buffer. Two
parsers decide where the head of the response ends. They agree unless a blank line
that is a bare LF ends it: `ReadResponse` stops there, the loop reads on.
-/

namespace RealmFormal.Agent
open Go Go.Bufio Go.Http
set_option autoImplicit false

/-! ## The code -/

inductive TunnelError where
  | authority
  | dial (text : String)
  | write (text : String)
  | read (e : ReadError)
  | headersTooLarge
  | response (e : ResponseError)
  | status (code : Int)
  deriving DecidableEq

def crlf : Bytes := [13, 10]

/-- The loop over the lines of the response. A turn that does not end it adds a byte to `header`,
so that there are no more turns than the limit allows. -/
def readHeader : Nat → Reader → Bytes → Except TunnelError Bytes × Reader
  | 0, r, _ => (.error .headersTooLarge, r)
  | turns + 1, r, header =>
    match r.readSlice with
    | (_, some e, r) => (.error (.read e), r)
    | (line, none, r) =>
      let header := header ++ line
      if header.length > 32768 then (.error .headersTooLarge, r)
      else if line = crlf then (.ok header, r)
      else readHeader turns r header

/-- The proxy: the errors of dialling and writing, and the connection. -/
structure Proxy where
  dial : Option String
  write : Option String
  conn : Conn

/-- `dialTunnel`, and the reader of the connection that it returns or closes. -/
def dialTunnel (readTransfer : Head → Option String) (authority : Bytes) (proxy : Proxy) :
    Except TunnelError Unit × Reader :=
  let br := newReaderSize proxy.conn 4096
  if authority.any fun b => decide (b ∈ str "\r\n \t") then (.error .authority, br)
  else
    match proxy.dial, proxy.write with
    | some e, _ => (.error (.dial e), br)
    | none, some e => (.error (.write e), br)
    | none, none =>
      match readHeader 32769 br [] with
      | (.error e, br) => (.error e, br)
      | (.ok header, br) =>
        match readResponse readTransfer (lines header) with
        | .error e => (.error (.response e), br)
        | .ok (head, _) =>
          if head.statusCode ≠ 200 then (.error (.status head.statusCode), br) else (.ok (), br)

/-! ## What the loop makes of the bytes -/

/-- The loop over the lines of the whole stream. -/
def scanLines (final : String) : List Bytes → Bytes → Except TunnelError (Bytes × List Bytes)
  | [], _ => .error (.read (.conn final))
  | line :: rest, header =>
    if cutLine line = some (line, []) then
      if line.length > 4096 then .error (.read .bufferFull)
      else if header.length + line.length > 32768 then .error .headersTooLarge
      else if line = crlf then .ok (header ++ line, rest)
      else scanLines final rest (header ++ line)
    else if line.length ≥ 4096 then .error (.read .bufferFull)
    else .error (.read (.conn final))

section Scan
variable {final : String} {s : Bytes}

theorem scan_error (header : Bytes) {e : ReadError} (h : (sliceOf 4096 final s).2.1 = some e) :
    scanLines final (lines s) header = .error (.read e) := by
  unfold sliceOf at h
  split at h
  · rename_i line rest hcut
    split at h
    · cases h
    · rename_i hlong
      cases h
      rw [lines_of_cut hcut, scanLines, if_pos (cutLine_line hcut), if_pos (by omega)]
  · rename_i hcut
    rw [lines_of_no_cut hcut]
    split at h
    · rename_i hlong
      cases h
      have hne : s ≠ [] := by
        rintro rfl
        cases hlong
      rw [if_neg hne, scanLines, if_neg (by rw [hcut]; nofun), if_pos hlong]
    · rename_i hshort
      cases h
      split
      · rfl
      · rw [scanLines, if_neg (by rw [hcut]; nofun), if_neg hshort]

theorem scan_line (header : Bytes) (h : (sliceOf 4096 final s).2.1 = none) :
    scanLines final (lines s) header =
      if header.length + (sliceOf 4096 final s).1.length > 32768 then .error .headersTooLarge
      else if (sliceOf 4096 final s).1 = crlf then
        .ok (header ++ (sliceOf 4096 final s).1, lines (sliceOf 4096 final s).2.2)
      else
        scanLines final (lines (sliceOf 4096 final s).2.2)
          (header ++ (sliceOf 4096 final s).1) := by
  have hslice := h
  unfold sliceOf at h
  split at h
  · rename_i line rest hcut
    split at h
    · rename_i hfits
      have heq : sliceOf 4096 final s = (line, none, rest) := by
        simp only [sliceOf, hcut, if_pos hfits]
      rw [heq, lines_of_cut hcut, scanLines, if_pos (cutLine_line hcut), if_neg (by omega)]
    · cases h
  · split at h <;> cases h

/-- The header is a number of lines of the stream, the last of them CRLF and no other. -/
theorem scanLines_ok {input rest : List Bytes} {header block : Bytes}
    (h : scanLines final input header = .ok (block, rest)) :
    ∃ body, input = body ++ crlf :: rest ∧ crlf ∉ body ∧
      block = header ++ (body ++ [crlf]).flatten ∧ block.length ≤ 32768 ∧
      ∀ line ∈ body, cutLine line = some (line, []) ∧ line.length ≤ 4096 := by
  induction input generalizing header with
  | nil => cases h
  | cons line input ih =>
    rw [scanLines] at h
    split at h
    · rename_i hline
      split at h
      · cases h
      rename_i hlong
      split at h
      · cases h
      rename_i hlarge
      split at h
      · rename_i hcrlf
        cases h
        rw [hcrlf] at hlarge ⊢
        refine ⟨[], rfl, List.not_mem_nil, rfl, ?_, nofun⟩
        rw [List.length_append]
        omega
      · rename_i hother
        obtain ⟨body, rfl, hbody, rfl, hlen, hlines⟩ := ih h
        refine ⟨line :: body, rfl, ?_, ?_, hlen, ?_⟩
        · rw [List.mem_cons, not_or]
          exact ⟨Ne.symm hother, hbody⟩
        · rw [List.cons_append, List.flatten_cons, List.append_assoc]
        · intro l hl
          rcases List.mem_cons.mp hl with rfl | hrest
          · exact ⟨hline, by omega⟩
          · exact hlines l hrest
    · split at h <;> cases h

theorem scanLines_first {body rest : List Bytes} {header : Bytes}
    (hbody : ∀ line ∈ body, cutLine line = some (line, []) ∧ line.length ≤ 4096)
    (hfirst : crlf ∉ body) (hsmall : header.length + (body ++ [crlf]).flatten.length ≤ 32768) :
    scanLines final (body ++ crlf :: rest) header =
      .ok (header ++ (body ++ [crlf]).flatten, rest) := by
  induction body generalizing header with
  | nil =>
    have hcrlf : cutLine crlf = some (crlf, []) := rfl
    have hfits : ¬ header.length + crlf.length > 32768 := Nat.not_lt.mpr hsmall
    rw [List.nil_append, scanLines, if_pos hcrlf, if_neg (by decide), if_neg hfits, if_pos rfl]
    rfl
  | cons line body ih =>
    obtain ⟨⟨hline, hlong⟩, hbody⟩ := List.forall_mem_cons.mp hbody
    obtain ⟨hother, hfirst⟩ := not_or.mp (mt List.mem_cons.mpr hfirst)
    rw [List.cons_append, List.flatten_cons, List.length_append] at hsmall
    rw [List.cons_append, scanLines, if_pos hline, if_neg (Nat.not_lt.mpr hlong),
      if_neg (by omega), if_neg (Ne.symm hother), ih hbody hfirst]
    · rw [List.cons_append, List.flatten_cons, List.append_assoc]
    · rw [List.length_append]
      omega

end Scan

/-- The loop has done what `scanLines` says of the bytes, and has not read far beyond. -/
structure Scanned (r : Reader) (header : Bytes) (result : Except TunnelError Bytes × Reader) :
    Prop where
  outcome : result.1 = (scanLines r.conn.final (lines r.content) header).map Prod.fst
  content : ∀ block rest, scanLines r.conn.final (lines r.content) header = .ok (block, rest) →
    lines result.2.content = rest
  size : result.2.size = r.size
  pending : result.2.pending = false
  bounded : header.length + r.content.length ≤ 36864 + result.2.conn.unread.length

theorem scanned_error {r q : Reader} {header : Bytes} {e : TunnelError}
    (h : scanLines r.conn.final (lines r.content) header = .error e) (hsize : q.size = r.size)
    (hpending : q.pending = false)
    (hbounded : header.length + r.content.length ≤ 36864 + q.conn.unread.length) :
    Scanned r header (.error e, q) where
  outcome := by rw [h]; rfl
  content := by
    intro block rest hok
    rw [h] at hok
    cases hok
  size := hsize
  pending := hpending
  bounded := hbounded

theorem readHeader_scanned {turns : Nat} {r : Reader} {header : Bytes} (hsize : r.size = 4096)
    (hfits : r.buffered.length ≤ r.size) (hpending : r.pending = false)
    (hheader : header.length ≤ 32768) (hturns : 32768 < turns + header.length) :
    Scanned r header (readHeader turns r header) := by
  induction turns generalizing r header with
  | zero => omega
  | succ turns ih =>
    have hsliced := readSlice_sliced hfits hpending
    obtain ⟨hlength, hbeyond⟩ := hsliced.length
    rw [readHeader]
    rcases hslice : r.readSlice with ⟨line, err, q⟩
    rw [hslice] at hsliced hlength hbeyond
    obtain ⟨hline, herr, hcontent, hqsize, hfinal, hqpending, hqfits⟩ := hsliced
    rw [hsize] at hline herr hcontent hqfits hbeyond
    dsimp only at hline herr hcontent hqsize hfinal hqpending hqfits hlength hbeyond ⊢
    have hread : header.length + r.content.length ≤ 36864 + q.conn.unread.length := by omega
    cases err with
    | some e => exact scanned_error (scan_error header herr.symm) hqsize hqpending hread
    | none =>
      have hscan := scan_line header herr.symm
      rw [← hline, ← hcontent, ← List.length_append] at hscan
      dsimp only
      split
      · rename_i hlarge
        rw [if_pos hlarge] at hscan
        exact scanned_error hscan hqsize hqpending hread
      rename_i hsmall
      rw [if_neg hsmall] at hscan
      split
      · rename_i hcrlf
        rw [if_pos hcrlf] at hscan
        refine ⟨by rw [hscan]; rfl, ?_, hqsize, hqpending, hread⟩
        intro block rest hok
        rw [hscan] at hok
        cases hok
        rfl
      · rename_i hother
        rw [if_neg hother] at hscan
        have hmore : 0 < line.length := hline ▸ sliceOf_line herr.symm
        have hnext : Scanned q (header ++ line) (readHeader turns q (header ++ line)) := by
          apply ih (hqsize.trans hsize) (by omega) hqpending (by omega)
          rw [List.length_append]
          omega
        obtain ⟨houtcome, hrest, hsize', hpending', hbounded⟩ := hnext
        rw [hfinal, ← hscan] at houtcome hrest
        refine ⟨houtcome, hrest, hsize'.trans hqsize, hpending', ?_⟩
        rw [List.length_append] at hbounded
        omega

/-! ## The tunnel -/

section Tunnel
variable (readTransfer : Head → Option String) (authority : Bytes)

/-- `dialTunnel` on the lines of the whole stream, with the lines of the tunnel. -/
def tunnelLines (proxy : Proxy) : Except TunnelError (List Bytes) :=
  if authority.any fun b => decide (b ∈ str "\r\n \t") then .error .authority
  else
    match proxy.dial, proxy.write with
    | some e, _ => .error (.dial e)
    | none, some e => .error (.write e)
    | none, none =>
      match scanLines proxy.conn.final (lines proxy.conn.unread) [] with
      | .error e => .error e
      | .ok (block, rest) =>
        match readResponse readTransfer (lines block) with
        | .error e => .error (.response e)
        | .ok (head, _) =>
          if head.statusCode ≠ 200 then .error (.status head.statusCode) else .ok rest

/-- The result of `dialTunnel` in terms of the stream. -/
structure Dialled (proxy : Proxy) (result : Except TunnelError Unit × Reader) : Prop where
  outcome : result.1 = (tunnelLines readTransfer authority proxy).map fun _ => ()
  content : ∀ rest, tunnelLines readTransfer authority proxy = .ok rest →
    lines result.2.content = rest
  size : result.2.size = 4096
  pending : result.2.pending = false
  bounded : proxy.conn.unread.length ≤ 36864 + result.2.conn.unread.length

theorem dialled_error {proxy : Proxy} {e : TunnelError} {br : Reader}
    (h : tunnelLines readTransfer authority proxy = .error e) (hsize : br.size = 4096)
    (hpending : br.pending = false)
    (hbounded : proxy.conn.unread.length ≤ 36864 + br.conn.unread.length) :
    Dialled readTransfer authority proxy (.error e, br) where
  outcome := by rw [h]; rfl
  content := by
    intro rest hok
    rw [h] at hok
    cases hok
  size := hsize
  pending := hpending
  bounded := hbounded

theorem dialTunnel_dialled (proxy : Proxy) :
    Dialled readTransfer authority proxy (dialTunnel readTransfer authority proxy) := by
  have hscanned : Scanned (newReaderSize proxy.conn 4096) []
      (readHeader 32769 (newReaderSize proxy.conn 4096) []) :=
    readHeader_scanned rfl (Nat.zero_le _) rfl (Nat.zero_le _) (by decide)
  unfold dialTunnel
  dsimp only
  generalize readHeader 32769 (newReaderSize proxy.conn 4096) [] = result at hscanned ⊢
  obtain ⟨outcome, br⟩ := result
  obtain ⟨houtcome, hcontent, hsize, hpending, hbounded⟩ := hscanned
  have hstream : (newReaderSize proxy.conn 4096).content = proxy.conn.unread := rfl
  have hfinal : (newReaderSize proxy.conn 4096).conn.final = proxy.conn.final := rfl
  rw [hstream, hfinal] at houtcome hcontent
  rw [hstream, List.length_nil, Nat.zero_add] at hbounded
  have hearly (e : TunnelError) (h : tunnelLines readTransfer authority proxy = .error e) :
      Dialled readTransfer authority proxy (.error e, newReaderSize proxy.conn 4096) :=
    dialled_error _ _ h rfl rfl (Nat.le_add_left _ _)
  by_cases hauthority : (authority.any fun b => decide (b ∈ str "\r\n \t")) = true
  · rw [if_pos hauthority]
    exact hearly _ (by rw [tunnelLines, if_pos hauthority])
  rw [if_neg hauthority]
  cases hdial : proxy.dial with
  | some e => exact hearly _ (by simp only [tunnelLines, if_neg hauthority, hdial])
  | none =>
  cases hwrite : proxy.write with
  | some e => exact hearly _ (by simp only [tunnelLines, if_neg hauthority, hdial, hwrite])
  | none =>
  cases hscan : scanLines proxy.conn.final (lines proxy.conn.unread) [] with
  | error e =>
    rw [hscan] at houtcome
    cases houtcome
    refine dialled_error _ _ ?_ hsize hpending hbounded
    simp only [tunnelLines, if_neg hauthority, hdial, hwrite, hscan]
  | ok scanned =>
    obtain ⟨block, rest⟩ := scanned
    rw [hscan] at houtcome
    cases houtcome
    dsimp only
    cases hresponse : readResponse readTransfer (lines block) with
    | error e =>
      refine dialled_error _ _ ?_ hsize hpending hbounded
      simp only [tunnelLines, if_neg hauthority, hdial, hwrite, hscan, hresponse]
    | ok response =>
      obtain ⟨head, unused⟩ := response
      have htunnel : tunnelLines readTransfer authority proxy =
          if head.statusCode ≠ 200 then .error (.status head.statusCode) else .ok rest := by
        simp only [tunnelLines, if_neg hauthority, hdial, hwrite, hscan, hresponse]
      dsimp only
      split
      · rename_i hstatus
        rw [if_pos hstatus] at htunnel
        exact dialled_error _ _ htunnel hsize hpending hbounded
      · rename_i hstatus
        rw [if_neg hstatus] at htunnel
        refine ⟨by rw [htunnel]; rfl, ?_, hsize, hpending, hbounded⟩
        intro rest' hrest
        rw [htunnel] at hrest
        cases hrest
        exact hcontent block rest hscan

/-- The proxy opens a tunnel: `body` stands before the first CRLF line of the stream, within the
limits, and `ReadResponse` finds status 200 in it and the CRLF line. -/
structure Opens (proxy : Proxy) (body : List Bytes) (head : Head) (unused rest : List Bytes) :
    Prop where
  authority : ∀ b ∈ authority, b ∉ str "\r\n \t"
  dial : proxy.dial = none
  write : proxy.write = none
  stream : lines proxy.conn.unread = body ++ crlf :: rest
  first : crlf ∉ body
  response : readResponse readTransfer (body ++ [crlf]) = .ok (head, unused)
  status : head.statusCode = 200
  short : ∀ line ∈ body, line.length ≤ 4096
  small : (body ++ [crlf]).flatten.length ≤ 32768

variable {readTransfer authority} {proxy : Proxy} {body : List Bytes} {head : Head}
  {unused rest : List Bytes}

theorem lines_header (hbody : ∀ line ∈ body, cutLine line = some (line, [])) :
    lines (body ++ [crlf]).flatten = body ++ [crlf] := by
  apply lines_flatten
  intro line hline
  rcases List.mem_append.mp hline with hmem | hlast
  · exact hbody line hmem
  · rw [List.mem_singleton.mp hlast]
    rfl

theorem authority_ok (h : ∀ b ∈ authority, b ∉ str "\r\n \t") :
    ¬ (authority.any fun b => decide (b ∈ str "\r\n \t")) = true := by
  intro hany
  obtain ⟨b, hb, hbad⟩ := List.any_eq_true.mp hany
  exact h b hb (of_decide_eq_true hbad)

theorem Opens.tunnelLines (h : Opens readTransfer authority proxy body head unused rest) :
    tunnelLines readTransfer authority proxy = .ok rest := by
  have hbody := cutLine_of_lines h.stream
  have hscan : scanLines proxy.conn.final (lines proxy.conn.unread) [] =
      .ok ((body ++ [crlf]).flatten, rest) := by
    rw [h.stream]
    apply scanLines_first _ h.first (by simpa using h.small)
    intro line hline
    exact ⟨hbody line hline, h.short line hline⟩
  have hstatus : ¬ head.statusCode ≠ 200 := not_not.mpr h.status
  simp only [Agent.tunnelLines, if_neg (authority_ok h.authority), h.dial, h.write, hscan,
    lines_header hbody, h.response, if_neg hstatus]

theorem tunnelLines_opens (h : tunnelLines readTransfer authority proxy = .ok rest) :
    ∃ body head unused, Opens readTransfer authority proxy body head unused rest := by
  unfold tunnelLines at h
  split at h
  · cases h
  rename_i hauthority
  split at h
  · cases h
  · cases h
  rename_i hdial hwrite
  split at h
  · cases h
  rename_i block rest' hscan
  split at h
  · cases h
  rename_i head unused hresponse
  split at h
  · cases h
  rename_i hstatus
  cases h
  obtain ⟨body, hstream, hfirst, rfl, hsmall, hbody⟩ := scanLines_ok hscan
  rw [List.nil_append] at hresponse hsmall
  rw [lines_header fun line hline => (hbody line hline).1] at hresponse
  refine ⟨body, head, unused, ?_, hdial, hwrite, hstream, hfirst, hresponse, not_not.mp hstatus,
    fun line hline => (hbody line hline).2, hsmall⟩
  intro b hb hbad
  exact hauthority (List.any_eq_true.mpr ⟨b, hb, decide_eq_true hbad⟩)

/-- The tunnel of a stream that opens one starts after the CRLF line. -/
theorem Opens.dialTunnel (h : Opens readTransfer authority proxy body head unused rest) :
    (dialTunnel readTransfer authority proxy).1 = .ok () ∧
      (dialTunnel readTransfer authority proxy).2.content = rest.flatten := by
  have hdialled := dialTunnel_dialled readTransfer authority proxy
  have htunnel := h.tunnelLines
  constructor
  · rw [hdialled.outcome, htunnel]
    rfl
  · rw [← hdialled.content rest htunnel, flatten_lines]

theorem dialTunnel_opens (h : (Agent.dialTunnel readTransfer authority proxy).1 = .ok ()) :
    ∃ body head unused rest, Opens readTransfer authority proxy body head unused rest := by
  have houtcome := (dialTunnel_dialled readTransfer authority proxy).outcome
  rw [h] at houtcome
  cases htunnel : tunnelLines readTransfer authority proxy with
  | error e =>
    rw [htunnel] at houtcome
    cases houtcome
  | ok rest =>
    obtain ⟨body, head, unused, hopens⟩ := tunnelLines_opens htunnel
    exact ⟨body, head, unused, rest, hopens⟩

/-- `ReadResponse` on the whole stream finds the same head. -/
theorem Opens.whole (h : Opens readTransfer authority proxy body head unused rest) :
    readResponse readTransfer (lines proxy.conn.unread) = .ok (head, unused ++ rest) := by
  have happend := readResponse_append h.response rest
  rwa [List.append_assoc, List.singleton_append, ← h.stream] at happend

/-- Unless the blank line is a bare LF, it is the CRLF at which the loop stops. -/
theorem Opens.blank (h : Opens readTransfer authority proxy body head unused rest) :
    unused = [] ∨ ∃ block lost, body = block ++ [10] :: lost ∧ unused = lost ++ [crlf] := by
  obtain ⟨block, blank, hsplit, -, hblank, -⟩ := readResponse_split h.response
  rcases List.eq_nil_or_concat unused with hnil | ⟨lost, last, rfl⟩
  · exact .inl hnil
  right
  have hconcat : body ++ [crlf] = (block ++ blank :: lost) ++ [last] := by
    rw [hsplit]
    simp
  obtain ⟨rfl, hlast⟩ := List.append_inj' hconcat rfl
  obtain ⟨rfl, -⟩ := List.cons.inj hlast
  -- the blank line stands before the first CRLF line
  have hmem : blank ∈ lines proxy.conn.unread := by
    rw [h.stream]
    simp
  rcases (stripEnd_eq_nil (ne_nil_of_mem_lines hmem)).mp hblank with rfl | hcrlf
  · exact ⟨block, lost, rfl, List.concat_eq_append⟩
  · exact absurd (by rw [hcrlf]; simp [crlf]) h.first

variable (readTransfer) (authority)

/-- A bare LF ends the head of a response that opens a tunnel, and the first CRLF line of the stream
comes later: `lost` stands between them. -/
structure Swallows (proxy : Proxy) (head : Head) (block lost rest : List Bytes) : Prop where
  authority : ∀ b ∈ authority, b ∉ str "\r\n \t"
  dial : proxy.dial = none
  write : proxy.write = none
  stream : lines proxy.conn.unread = block ++ [10] :: (lost ++ crlf :: rest)
  first : crlf ∉ block ++ lost
  response : readResponse readTransfer (lines proxy.conn.unread) = .ok (head, lost ++ crlf :: rest)
  status : head.statusCode = 200
  short : ∀ line ∈ block ++ lost, line.length ≤ 4096
  small : (block ++ [10] :: (lost ++ [crlf])).flatten.length ≤ 32768

variable {readTransfer authority} {block lost : List Bytes}

theorem mem_around {line : Bytes} :
    line ∈ block ++ [10] :: lost ↔ line = [10] ∨ line ∈ block ++ lost := by
  simp only [List.mem_append, List.mem_cons]
  tauto

theorem Swallows.opens (h : Swallows readTransfer authority proxy head block lost rest) :
    Opens readTransfer authority proxy (block ++ [10] :: lost) head (lost ++ [crlf]) rest where
  authority := h.authority
  dial := h.dial
  write := h.write
  stream := by rw [h.stream]; simp
  first := by
    rw [mem_around, not_or]
    exact ⟨by decide, h.first⟩
  response := by
    have hresponse := h.response
    have hleft : lost ++ crlf :: rest = (lost ++ [crlf]) ++ rest := by simp
    have hall : block ++ [10] :: (lost ++ crlf :: rest) =
        (block ++ [10] :: lost ++ [crlf]) ++ rest := by simp
    rw [h.stream, hall, hleft] at hresponse
    exact readResponse_of_append hresponse
  status := h.status
  short := by
    intro line hline
    rcases mem_around.mp hline with rfl | hmem
    · decide
    · exact h.short line hmem
  small := by simpa using h.small

theorem Opens.swallows
    (h : Opens readTransfer authority proxy (block ++ [10] :: lost) head (lost ++ [crlf]) rest) :
    Swallows readTransfer authority proxy head block lost rest where
  authority := h.authority
  dial := h.dial
  write := h.write
  stream := by rw [h.stream]; simp
  first := fun hmem => h.first (mem_around.mpr (.inr hmem))
  response := by rw [h.whole]; simp
  status := h.status
  short := fun line hline => h.short line (mem_around.mpr (.inr hline))
  small := by simpa using h.small

variable (readTransfer) (authority)

/-- The property of the tunnel: one result for all ways in which the stream arrives; on success
status 200 and the bytes after the head as `ReadResponse` delimits it; no success with a line that
exceeds the buffer or a head that exceeds the limit; a bounded number of bytes read. -/
structure Faithful (proxy : Proxy) : Prop where
  same : ∀ sizes reads,
    (dialTunnel readTransfer authority
      { proxy with conn := { proxy.conn with sizes, reads } }).1 =
        (dialTunnel readTransfer authority proxy).1
  tunnel : (dialTunnel readTransfer authority proxy).1 = .ok () →
    ∃ head rest, readResponse readTransfer (lines proxy.conn.unread) = .ok (head, rest) ∧
      head.statusCode = 200 ∧
      (dialTunnel readTransfer authority proxy).2.Delivers rest.flatten
  limits : ∀ head block rest,
    readResponse readTransfer (lines proxy.conn.unread) = .ok (head, rest) →
    lines proxy.conn.unread = block ++ rest →
    (∃ line ∈ block, 4096 < line.length) ∨ 32768 < block.flatten.length →
    (dialTunnel readTransfer authority proxy).1 ≠ .ok ()
  bounded : proxy.conn.unread.length ≤
    36864 + (dialTunnel readTransfer authority proxy).2.conn.unread.length

variable {readTransfer authority}

theorem tunnel_limits
    (hresponse : readResponse readTransfer (lines proxy.conn.unread) = .ok (head, rest))
    (hblock : lines proxy.conn.unread = block ++ rest)
    (h : (dialTunnel readTransfer authority proxy).1 = .ok ()) :
    (∀ line ∈ block, line.length ≤ 4096) ∧ block.flatten.length ≤ 32768 := by
  obtain ⟨body, head', unused, rest', hopens⟩ := dialTunnel_opens h
  cases hresponse.symm.trans hopens.whole
  have hstream : (body ++ [crlf]) ++ rest' = (block ++ unused) ++ rest' := by
    rw [List.append_assoc, List.append_assoc, ← hblock, hopens.stream, List.singleton_append]
  have hparts : body ++ [crlf] = block ++ unused := List.append_cancel_right hstream
  have hsmall := hopens.small
  rw [hparts, List.flatten_append, List.length_append] at hsmall
  refine ⟨?_, by omega⟩
  intro line hline
  have hmem : line ∈ body ++ [crlf] := hparts ▸ List.mem_append_left _ hline
  rcases List.mem_append.mp hmem with hbody | hlast
  · exact hopens.short line hbody
  · rw [List.mem_singleton.mp hlast]
    decide

variable (readTransfer authority)

/-- The tunnel is faithful exactly for the streams in which no bare LF ends the head of a response
that opens it. -/
theorem tunnel_faithful_iff (proxy : Proxy) :
    Faithful readTransfer authority proxy ↔
      ¬ ∃ head block lost rest, Swallows readTransfer authority proxy head block lost rest := by
  have hdialled := dialTunnel_dialled readTransfer authority proxy
  have hdelivers : ∀ s, (dialTunnel readTransfer authority proxy).2.Delivers s ↔
      s = (dialTunnel readTransfer authority proxy).2.content := by
    intro s
    exact delivers_iff (by rw [hdialled.size]; decide) hdialled.pending
  constructor
  · rintro hfaithful ⟨head, block, lost, rest, hswallows⟩
    obtain ⟨hok, hcontent⟩ := hswallows.opens.dialTunnel
    obtain ⟨head', rest', hresponse, -, hdelivered⟩ := hfaithful.tunnel hok
    cases hswallows.response.symm.trans hresponse
    -- the CRLF line is not delivered
    rw [hdelivers, hcontent, List.flatten_append, List.flatten_cons] at hdelivered
    have hlength := congrArg List.length hdelivered
    have hcrlf : crlf.length = 2 := rfl
    rw [List.length_append, List.length_append] at hlength
    omega
  · intro hnot
    refine ⟨?_, ?_, ?_, hdialled.bounded⟩
    · intro sizes reads
      rw [(dialTunnel_dialled readTransfer authority _).outcome, hdialled.outcome]
      rfl
    · intro hok
      obtain ⟨body, head, unused, rest, hopens⟩ := dialTunnel_opens hok
      refine ⟨head, unused ++ rest, hopens.whole, hopens.status, ?_⟩
      rw [hdelivers, hopens.dialTunnel.2]
      rcases hopens.blank with rfl | ⟨block, lost, rfl, rfl⟩
      · rfl
      · exact absurd ⟨head, block, lost, rest, hopens.swallows⟩ hnot
    · intro head block rest hresponse hblock hexceeds hok
      obtain ⟨hshort, hsmall⟩ := tunnel_limits hresponse hblock hok
      rcases hexceeds with ⟨line, hline, hlong⟩ | hlarge
      · have hle := hshort line hline
        omega
      · omega

end Tunnel

/-- The head ends in CRLF, and the first bytes of the tunnel arrive with it. -/
def helloProxy : Proxy :=
  ⟨none, none, ⟨str "HTTP/1.1 200 OK\r\n\r\nhello", "EOF", fun _ => 7, 0⟩⟩

theorem tunnel_faithful_iff_helloProxy :
    Faithful (fun _ => none) (str "host:443") helloProxy ∧
      (dialTunnel (fun _ => none) (str "host:443") helloProxy).1 = .ok () ∧
      (dialTunnel (fun _ => none) (str "host:443") helloProxy).2.Delivers (str "hello") := by
  have hlines : lines helloProxy.conn.unread = [str "HTTP/1.1 200 OK\r\n", crlf, str "hello"] := by
    decide
  have hbare : [10] ∉ lines helloProxy.conn.unread := by
    rw [hlines]
    decide
  have hfaithful : Faithful (fun _ => none) (str "host:443") helloProxy := by
    rw [tunnel_faithful_iff]
    rintro ⟨head, block, lost, rest, hswallows⟩
    apply hbare
    rw [hswallows.stream]
    simp
  have hok : (dialTunnel (fun _ => none) (str "host:443") helloProxy).1 = .ok () := by
    have htunnel : tunnelLines (fun _ => none) (str "host:443") helloProxy = .ok [str "hello"] := by
      decide
    rw [(dialTunnel_dialled (fun _ => none) (str "host:443") helloProxy).outcome, htunnel]
    rfl
  obtain ⟨head, rest, hresponse, -, hdelivers⟩ := hfaithful.tunnel hok
  have hrest : (readResponse (fun _ => none) (lines helloProxy.conn.unread)).map Prod.snd =
      .ok [str "hello"] := by
    decide
  rw [hresponse] at hrest
  cases hrest
  exact ⟨hfaithful, hok, hdelivers⟩

/-- A head that ends in a bare LF, and tunnel bytes with a CRLF line in them. -/
def bareProxy : Proxy :=
  ⟨none, none, ⟨str "HTTP/1.1 200 OK\n\nhello\r\n\r\nworld", "EOF", fun _ => 7, 0⟩⟩

/-- The tunnel opens without its first nine bytes. -/
theorem bare_blank_loses_bytes :
    (dialTunnel (fun _ => none) (str "host:443") bareProxy).1 = .ok () ∧
      readResponse (fun _ => none) (lines bareProxy.conn.unread) =
        .ok (⟨str "HTTP/1.1", str "200 OK", 200, (1, 1), []⟩,
          [str "hello\r\n", str "\r\n", str "world"]) ∧
      (dialTunnel (fun _ => none) (str "host:443") bareProxy).2.Delivers (str "world") ∧
      ¬ (dialTunnel (fun _ => none) (str "host:443") bareProxy).2.Delivers
        (str "hello\r\n\r\nworld") := by
  have hdialled := dialTunnel_dialled (fun _ => none) (str "host:443") bareProxy
  have htunnel : tunnelLines (fun _ => none) (str "host:443") bareProxy = .ok [str "world"] := by
    decide
  have hcontent : (dialTunnel (fun _ => none) (str "host:443") bareProxy).2.content =
      str "world" := by
    have hlines := hdialled.content _ htunnel
    rw [← flatten_lines (dialTunnel (fun _ => none) (str "host:443") bareProxy).2.content, hlines]
    decide
  have hdelivers := @delivers_iff (dialTunnel (fun _ => none) (str "host:443") bareProxy).2
    (by rw [hdialled.size]; decide) hdialled.pending
  refine ⟨?_, by decide, hdelivers.mpr hcontent.symm, ?_⟩
  · rw [hdialled.outcome, htunnel]
    rfl
  · rw [hdelivers, hcontent]
    decide

end RealmFormal.Agent

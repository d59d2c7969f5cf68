import RealmFormal.Go.Bytes

/-!
# The head of an HTTP response

`http.ReadResponse` over the lines of its input: the status line, the header fields
with their continuation lines, and the blank line that ends them. A line ends in
CRLF or in a bare LF. `readTransfer` looks at the finished head only, so it is an
argument.
-/

namespace Go.Http
set_option autoImplicit false

/-- `strings.Cut` at one byte. -/
def cut : Bytes → UInt8 → Option (Bytes × Bytes)
  | [], _ => none
  | b :: s, sep =>
    if b = sep then some ([], s) else (cut s sep).map fun parts => (b :: parts.1, parts.2)

theorem cut_some {s key value : Bytes} {sep : UInt8} (h : cut s sep = some (key, value)) :
    s = key ++ sep :: value := by
  induction s generalizing key with
  | nil => cases h
  | cons b s ih =>
    rw [cut] at h
    split at h
    · rename_i heq
      cases h
      rw [heq]
      rfl
    · obtain ⟨parts, hparts, heq⟩ := Option.map_eq_some_iff.mp h
      cases heq
      rw [ih hparts]
      rfl

theorem cut_append {key : Bytes} {sep : UInt8} (h : sep ∉ key) (value : Bytes) :
    cut (key ++ sep :: value) sep = some (key, value) := by
  induction key with
  | nil => simp [cut]
  | cons b key ih =>
    rw [List.mem_cons, not_or] at h
    rw [List.cons_append, cut, if_neg (Ne.symm h.1), ih h.2]
    rfl

def isSpace (b : UInt8) : Bool := decide (b = 32 ∨ b = 9)

/-- Without spaces and tabs on either side. -/
def trim (s : Bytes) : Bytes := ((s.dropWhile isSpace).reverse.dropWhile isSpace).reverse

/-- `bufio.Reader.ReadLine` returns a line without its end. -/
def stripEnd (line : Bytes) : Bytes :=
  match line.reverse with
  | 10 :: 13 :: rest => rest.reverse
  | 10 :: rest => rest.reverse
  | _ => line

inductive ResponseError where
  | unexpectedEOF
  | malformedResponse (line : Bytes)
  | malformedStatusCode (code : Bytes)
  | malformedVersion (proto : Bytes)
  | malformedInitialLine (line : Bytes)
  | missingColon (line : Bytes)
  | malformedLine (line : Bytes)
  | transfer (text : String)
  deriving DecidableEq

structure Head where
  proto : Bytes
  status : Bytes
  statusCode : Int
  version : Nat × Nat
  header : List (Bytes × Bytes)
  deriving DecidableEq

def parseHTTPVersion (proto : Bytes) : Option (Nat × Nat) :=
  if proto = str "HTTP/1.1" then some (1, 1)
  else if proto = str "HTTP/1.0" then some (1, 0)
  else if hasPrefix proto (str "HTTP/") then
    match proto.drop 5 with
    | [major, dot, minor] =>
      if dot = chr '.' ∧ isDigit major ∧ isDigit minor then
        some (major.toNat - 48, minor.toNat - 48)
      else none
    | _ => none
  else none

def parseStatusLine (line : Bytes) : Except ResponseError Head :=
  match cut line 32 with
  | none => .error (.malformedResponse line)
  | some (proto, rest) =>
    let status := rest.dropWhile fun b => decide (b = 32)
    let code := ((cut status 32).map Prod.fst).getD status
    match if code.length = 3 then parseInt64 code else none with
    | none => .error (.malformedStatusCode code)
    | some statusCode =>
      if statusCode < 0 then .error (.malformedStatusCode code)
      else
        match parseHTTPVersion proto with
        | none => .error (.malformedVersion proto)
        | some version => .ok ⟨proto, status, statusCode, version, []⟩

/-- A token byte of RFC 7230. -/
def validFieldByte (b : UInt8) : Bool :=
  isUpper b || isLower b || isDigit b || decide (b ∈ str "!#$%&'*+-.^_\x60|~")

def validValueByte (b : UInt8) : Bool :=
  decide (b = 9 ∨ (32 ≤ b.toNat ∧ b.toNat ≤ 126) ∨ 128 ≤ b.toNat)

/-- Upper case at the start and after a dash, lower case elsewhere. -/
def canonicalKey : Bool → Bytes → Bytes
  | _, [] => []
  | upper, b :: s =>
    let c := if upper && isLower b then b - 32 else if !upper && isUpper b then b + 32 else b
    c :: canonicalKey (decide (b = chr '-')) s

/-- A key with a space is taken as it is. -/
def canonicalMIMEHeaderKey (key : Bytes) : Option Bytes :=
  if key = [] ∨ ¬ key.all fun b => validFieldByte b || decide (b = 32) then none
  else if 32 ∈ key then some key
  else some (canonicalKey true key)

def headerField (kv : Bytes) : Except ResponseError (Bytes × Bytes) :=
  match cut kv (chr ':') with
  | none => .error (.malformedLine kv)
  | some (k, v) =>
    match canonicalMIMEHeaderKey k with
    | none => .error (.malformedLine kv)
    | some key =>
      if v.all validValueByte then .ok (key, v.dropWhile isSpace) else .error (.malformedLine kv)

def startsWithSpace (line : Bytes) : Bool := line.head?.any isSpace

/-- Add the field that the lines so far make up. -/
def addField (pending : Option Bytes) (header : List (Bytes × Bytes)) :
    Except ResponseError (List (Bytes × Bytes)) :=
  match pending with
  | none => .ok header
  | some kv =>
    match headerField kv with
    | .error e => .error e
    | .ok field => .ok (header ++ [field])

/-- The loop of `ReadMIMEHeader`, with the field that may still be continued. -/
def readFields (pending : Option Bytes) (header : List (Bytes × Bytes)) :
    List Bytes → Except ResponseError (List (Bytes × Bytes) × List Bytes)
  | [] =>
    match addField pending header with
    | .error e => .error e
    | .ok _ => .error .unexpectedEOF
  | line :: rest =>
    if pending.isSome ∧ startsWithSpace line then
      readFields (some (pending.getD [] ++ [32] ++ trim (stripEnd (line.dropWhile isSpace)))) header
        rest
    else
      match addField pending header with
      | .error e => .error e
      | .ok header =>
        let text := stripEnd line
        if text = [] then .ok (header, rest)
        else if chr ':' ∉ text then .error (.missingColon text)
        else readFields (some (trim text)) header rest

def readMIMEHeader : List Bytes → Except ResponseError (List (Bytes × Bytes) × List Bytes)
  | [] => readFields none [] []
  | line :: rest =>
    if startsWithSpace line then .error (.malformedInitialLine (stripEnd line))
    else readFields none [] (line :: rest)

/-- `ReadResponse`, and the lines that it leaves. -/
def readResponse (readTransfer : Head → Option String) :
    List Bytes → Except ResponseError (Head × List Bytes)
  | [] => .error .unexpectedEOF
  | first :: rest =>
    match parseStatusLine (stripEnd first) with
    | .error e => .error e
    | .ok head =>
      match readMIMEHeader rest with
      | .error e => .error e
      | .ok (header, rest) =>
        match readTransfer { head with header } with
        | some e => .error (.transfer e)
        | none => .ok ({ head with header }, rest)

example : readFields none [] [str "Via: a\r\n", str " b\n", str "x-y:z\n", str "\n", str "rest"] =
    .ok ([(str "Via", str "a b"), (str "X-Y", str "z")], [str "rest"]) := by decide

/-! ## Where the head ends -/

/-- A blank line is one of two. -/
theorem stripEnd_eq_nil {line : Bytes} (hline : line ≠ []) :
    stripEnd line = [] ↔ line = [10] ∨ line = [13, 10] := by
  unfold stripEnd
  split
  · rename_i rest hrev
    have heq : line = rest.reverse ++ [13, 10] := by
      rw [← List.reverse_reverse line, hrev]
      simp
    constructor
    · intro hnil
      rw [heq, hnil]
      exact .inr rfl
    · intro hblank
      have hlen : line.length ≤ 2 := by rcases hblank with rfl | rfl <;> decide
      rw [heq, List.length_append, List.length_cons, List.length_singleton] at hlen
      exact List.length_eq_zero_iff.mp (by omega)
  · rename_i rest hcrlf hrev
    have heq : line = rest.reverse ++ [10] := by
      rw [← List.reverse_reverse line, hrev]
      simp
    constructor
    · intro hnil
      rw [heq, hnil]
      exact .inl rfl
    · rintro (hlf | hboth)
      · simpa [heq] using hlf
      · rw [hboth] at hrev
        cases hrev
        exact absurd rfl (hcrlf [])
  · rename_i hcrlf hlf
    constructor
    · intro hnil
      exact absurd hnil hline
    · rintro (heq | heq)
      · exact absurd (congrArg List.reverse heq) (hlf [])
      · exact absurd (congrArg List.reverse heq) (hcrlf [])

/-- The lines after the head do not matter to it. -/
theorem readFields_append {pending : Option Bytes} {header fields : List (Bytes × Bytes)}
    {input rest : List Bytes} (h : readFields pending header input = .ok (fields, rest))
    (more : List Bytes) :
    readFields pending header (input ++ more) = .ok (fields, rest ++ more) := by
  induction input generalizing pending header with
  | nil =>
    rw [readFields] at h
    split at h <;> cases h
  | cons line input ih =>
    rw [List.cons_append, readFields]
    rw [readFields] at h
    split
    · rename_i hcontinued
      rw [if_pos hcontinued] at h
      exact ih h
    · rename_i hfresh
      rw [if_neg hfresh] at h
      split at h
      · cases h
      · rename_i header' hadd
        dsimp only at h ⊢
        split
        · rename_i hblank
          rw [if_pos hblank] at h
          cases h
          rfl
        · rename_i htext
          rw [if_neg htext] at h
          split
          · rename_i hcolon
            rw [if_pos hcolon] at h
            cases h
          · rename_i hcolon
            rw [if_neg hcolon] at h
            exact ih h

/-- The head ends in a blank line, and is read off the lines up to it. -/
theorem readFields_split {pending : Option Bytes} {header fields : List (Bytes × Bytes)}
    {input rest : List Bytes} (h : readFields pending header input = .ok (fields, rest)) :
    ∃ block blank, input = block ++ blank :: rest ∧ stripEnd blank = [] ∧
      readFields pending header (block ++ [blank]) = .ok (fields, []) := by
  induction input generalizing pending header with
  | nil =>
    rw [readFields] at h
    split at h <;> cases h
  | cons line input ih =>
    rw [readFields] at h
    split at h
    · rename_i hcontinued
      obtain ⟨block, blank, rfl, hblank, hread⟩ := ih h
      refine ⟨line :: block, blank, rfl, hblank, ?_⟩
      rw [List.cons_append, readFields, if_pos hcontinued, hread]
    · rename_i hfresh
      split at h
      · cases h
      rename_i header' hadd
      dsimp only at h
      split at h
      · rename_i hblank
        cases h
        refine ⟨[], line, rfl, hblank, ?_⟩
        rw [List.nil_append, readFields, if_neg hfresh, hadd]
        dsimp only
        rw [if_pos hblank]
      · rename_i htext
        split at h
        · cases h
        rename_i hcolon
        obtain ⟨block, blank, rfl, hblank, hread⟩ := ih h
        refine ⟨line :: block, blank, rfl, hblank, ?_⟩
        rw [List.cons_append, readFields, if_neg hfresh, hadd]
        dsimp only
        rw [if_neg htext, if_neg hcolon, hread]

section Response
variable {readTransfer : Head → Option String} {input rest : List Bytes} {head : Head}

theorem readMIMEHeader_eq {fields : List (Bytes × Bytes)}
    (h : readMIMEHeader input = .ok (fields, rest)) :
    readFields none [] input = .ok (fields, rest) ∧
      ∀ more, readMIMEHeader (input ++ more) = readFields none [] (input ++ more) := by
  cases input with
  | nil => cases h
  | cons line input =>
    rw [readMIMEHeader] at h
    split at h
    · cases h
    · rename_i hfirst
      exact ⟨h, fun more => by rw [List.cons_append, readMIMEHeader, if_neg hfirst]⟩

theorem readMIMEHeader_split {fields : List (Bytes × Bytes)}
    (h : readMIMEHeader input = .ok (fields, rest)) :
    ∃ block blank, input = block ++ blank :: rest ∧ stripEnd blank = [] ∧
      readMIMEHeader (block ++ [blank]) = .ok (fields, []) := by
  cases input with
  | nil => cases h
  | cons line input =>
    rw [readMIMEHeader] at h
    split at h
    · cases h
    rename_i hfirst
    obtain ⟨block, blank, hinput, hblank, hread⟩ := readFields_split h
    refine ⟨block, blank, hinput, hblank, ?_⟩
    -- the first line of the block is the one that was looked at
    cases block with
    | nil =>
      obtain ⟨rfl, -⟩ := List.cons.inj hinput
      rw [List.nil_append, readMIMEHeader, if_neg hfirst]
      exact hread
    | cons first block =>
      obtain ⟨rfl, -⟩ := List.cons.inj hinput
      rw [List.cons_append, readMIMEHeader, if_neg hfirst]
      exact hread

theorem readResponse_append (h : readResponse readTransfer input = .ok (head, rest))
    (more : List Bytes) :
    readResponse readTransfer (input ++ more) = .ok (head, rest ++ more) := by
  cases input with
  | nil => cases h
  | cons first input =>
    rw [readResponse] at h
    rw [List.cons_append, readResponse]
    split at h
    · cases h
    split at h
    · cases h
    · rename_i header rest' hheader
      obtain ⟨hfields, hmore⟩ := readMIMEHeader_eq hheader
      rw [hmore, readFields_append hfields]
      dsimp only at h ⊢
      split at h
      · cases h
      · cases h
        rfl

theorem readResponse_split (h : readResponse readTransfer input = .ok (head, rest)) :
    ∃ block blank, input = block ++ blank :: rest ∧ block ≠ [] ∧ stripEnd blank = [] ∧
      readResponse readTransfer (block ++ [blank]) = .ok (head, []) := by
  cases input with
  | nil => cases h
  | cons first input =>
    rw [readResponse] at h
    split at h
    · cases h
    rename_i status hstatus
    split at h
    · cases h
    rename_i header rest' hheader
    obtain ⟨block, blank, rfl, hblank, hread⟩ := readMIMEHeader_split hheader
    split at h
    · cases h
    rename_i htransfer
    cases h
    refine ⟨first :: block, blank, rfl, List.cons_ne_nil _ _, hblank, ?_⟩
    rw [List.cons_append, readResponse, hstatus]
    dsimp only
    rw [hread]
    dsimp only
    rw [htransfer]

/-- Lines that are left over do not matter to the head. -/
theorem readResponse_of_append {more : List Bytes}
    (h : readResponse readTransfer (input ++ more) = .ok (head, rest ++ more)) :
    readResponse readTransfer input = .ok (head, rest) := by
  obtain ⟨block, blank, hinput, -, -, hread⟩ := readResponse_split h
  have hboth : input ++ more = ((block ++ [blank]) ++ rest) ++ more := by
    rw [hinput]
    simp
  rw [List.append_cancel_right hboth]
  exact readResponse_append hread rest

end Response

end Go.Http

import RealmFormal.Go.Bytes

/-!
# JSON text

The syntax accepted by `encoding/json` and the text written by its compact
encoder. String contents follow `unquote`: escapes are resolved, unpaired
surrogates and invalid UTF-8 become U+FFFD. A number keeps its literal, because
its meaning depends on the target it is decoded into.
-/

namespace Go.Json
set_option autoImplicit false

inductive Value where
  | null
  | bool (b : Bool)
  | number (literal : Bytes)
  | string (s : Bytes)
  | array (elements : List Value)
  | object (members : List (Bytes × Value))

def isSpace (b : UInt8) : Bool := decide (b = 32 ∨ b = 9 ∨ b = 10 ∨ b = 13)

def skipSpace (s : Bytes) : Bytes := s.dropWhile isSpace

/-- One decoded unit of a string literal: a byte, or the code of a `\u` escape. -/
inductive Token where
  | byte (b : UInt8)
  | unit (code : Nat)
  deriving DecidableEq

/-- Where the scanner stands inside a string literal. -/
inductive Mode where
  | plain
  | escape
  | hex (left code : Nat)
  deriving DecidableEq

def hexDigit (b : UInt8) : Option Nat :=
  let n := b.toNat
  if 48 ≤ n ∧ n ≤ 57 then some (n - 48)
  else if 97 ≤ n ∧ n ≤ 102 then some (n - 87)
  else if 65 ≤ n ∧ n ≤ 70 then some (n - 55)
  else none

/-- The byte that a one-letter escape denotes. -/
def escapeByte (b : UInt8) : Option UInt8 :=
  if b = chr '"' ∨ b = chr '\\' ∨ b = chr '/' then some b
  else if b = chr 'b' then some 8
  else if b = chr 'f' then some 12
  else if b = chr 'n' then some 10
  else if b = chr 'r' then some 13
  else if b = chr 't' then some 9
  else none

/-- Reads a string literal after its opening quote. -/
def scanString : Mode → Bytes → Option (List Token × Bytes)
  | _, [] => none
  | .plain, c :: t =>
    if c = chr '"' then some ([], t)
    else if c = chr '\\' then scanString .escape t
    else if c.toNat < 32 then none
    else (scanString .plain t).map fun r => (.byte c :: r.1, r.2)
  | .escape, c :: t =>
    if c = chr 'u' then scanString (.hex 3 0) t
    else (escapeByte c).bind fun b =>
      (scanString .plain t).map fun r => (.byte b :: r.1, r.2)
  | .hex left code, c :: t =>
    (hexDigit c).bind fun d =>
      match left with
      | 0 => (scanString .plain t).map fun r => (.unit (code * 16 + d) :: r.1, r.2)
      | n + 1 => scanString (.hex n (code * 16 + d)) t

/-- `utf8.AppendRune` of a scalar value. -/
def encodeRune (c : Nat) : Bytes :=
  if c < 0x80 then [UInt8.ofNat c]
  else if c < 0x800 then [UInt8.ofNat (0xC0 + c / 64), UInt8.ofNat (0x80 + c % 64)]
  else if c < 0x10000 then
    [UInt8.ofNat (0xE0 + c / 4096), UInt8.ofNat (0x80 + c / 64 % 64), UInt8.ofNat (0x80 + c % 64)]
  else
    [UInt8.ofNat (0xF0 + c / 262144), UInt8.ofNat (0x80 + c / 4096 % 64),
      UInt8.ofNat (0x80 + c / 64 % 64), UInt8.ofNat (0x80 + c % 64)]

def replacement : Bytes := [0xEF, 0xBF, 0xBD]

def isHighSurrogate (c : Nat) : Bool := decide (0xD800 ≤ c ∧ c < 0xDC00)

def isLowSurrogate (c : Nat) : Bool := decide (0xDC00 ≤ c ∧ c < 0xE000)

/-- Joins the tokens. The first argument is a high surrogate waiting for its pair. -/
def joinTokens : Option Nat → List Token → Bytes
  | none, [] => []
  | some _, [] => replacement
  | none, .byte b :: ts => b :: joinTokens none ts
  | some _, .byte b :: ts => replacement ++ b :: joinTokens none ts
  | none, .unit c :: ts =>
    if isHighSurrogate c then joinTokens (some c) ts
    else if isLowSurrogate c then replacement ++ joinTokens none ts
    else encodeRune c ++ joinTokens none ts
  | some h, .unit c :: ts =>
    if isLowSurrogate c then
      encodeRune (0x10000 + (h - 0xD800) * 1024 + (c - 0xDC00)) ++ joinTokens none ts
    else if isHighSurrogate c then replacement ++ joinTokens (some c) ts
    else replacement ++ (encodeRune c ++ joinTokens none ts)

def isTail (b : UInt8) : Bool := decide (0x80 ≤ b.toNat ∧ b.toNat ≤ 0xBF)

def secondInRange (b0 b1 : UInt8) : Bool :=
  let lo := if b0 = 0xE0 then 0xA0 else if b0 = 0xF0 then 0x90 else 0x80
  let hi := if b0 = 0xED then 0x9F else if b0 = 0xF4 then 0x8F else 0xBF
  decide (lo ≤ b1.toNat ∧ b1.toNat ≤ hi)

/-- The size `utf8.DecodeRune` reports for the first rune, or zero when it is invalid. -/
def runeLength (s : Bytes) : Nat :=
  match s with
  | [] => 0
  | b0 :: t =>
    let n := b0.toNat
    if n < 0x80 then 1
    else if 0xC2 ≤ n ∧ n ≤ 0xDF then
      match t with
      | b1 :: _ => if isTail b1 then 2 else 0
      | _ => 0
    else if 0xE0 ≤ n ∧ n ≤ 0xEF then
      match t with
      | b1 :: b2 :: _ => if secondInRange b0 b1 && isTail b2 then 3 else 0
      | _ => 0
    else if 0xF0 ≤ n ∧ n ≤ 0xF4 then
      match t with
      | b1 :: b2 :: b3 :: _ => if secondInRange b0 b1 && isTail b2 && isTail b3 then 4 else 0
      | _ => 0
    else 0

/-- Replaces every invalid byte by U+FFFD. The first argument counts the bytes
left in the current valid rune. -/
def sanitize : Nat → Bytes → Bytes
  | _, [] => []
  | n + 1, b :: t => b :: sanitize n t
  | 0, b :: t =>
    match runeLength (b :: t) with
    | 0 => replacement ++ sanitize 0 t
    | n + 1 => b :: sanitize n t

def unquote (ts : List Token) : Bytes := sanitize 0 (joinTokens none ts)

def scanInteger (s : Bytes) : Option (Bytes × Bytes) :=
  match s with
  | [] => none
  | c :: t =>
    if c = chr '0' then some ([c], t)
    else if isDigit c then some (c :: t.takeWhile isDigit, t.dropWhile isDigit)
    else none

def scanFraction (s : Bytes) : Option (Bytes × Bytes) :=
  match s with
  | [] => some ([], [])
  | c :: t =>
    if c = chr '.' then
      if t.takeWhile isDigit = [] then none
      else some (c :: t.takeWhile isDigit, t.dropWhile isDigit)
    else some ([], s)

def scanSign (s : Bytes) : Bytes × Bytes :=
  match s with
  | [] => ([], [])
  | c :: t => if c = chr '+' ∨ c = chr '-' then ([c], t) else ([], s)

def scanExponent (s : Bytes) : Option (Bytes × Bytes) :=
  match s with
  | [] => some ([], [])
  | c :: t =>
    if c = chr 'e' ∨ c = chr 'E' then
      let r := scanSign t
      if r.2.takeWhile isDigit = [] then none
      else some (c :: r.1 ++ r.2.takeWhile isDigit, r.2.dropWhile isDigit)
    else some ([], s)

def scanMinus (s : Bytes) : Bytes × Bytes :=
  match s with
  | [] => ([], [])
  | c :: t => if c = chr '-' then ([c], t) else ([], s)

/-- A number literal and the rest. -/
def scanNumber (s : Bytes) : Option (Bytes × Bytes) :=
  (scanInteger (scanMinus s).2).bind fun i =>
    (scanFraction i.2).bind fun f =>
      (scanExponent f.2).map fun e => ((scanMinus s).1 ++ i.1 ++ f.1 ++ e.1, e.2)

/-- The words `true`, `false` and `null`, and numbers. -/
def scanScalar (s : Bytes) : Option (Value × Bytes) :=
  if hasPrefix s (str "true") then some (.bool true, s.drop 4)
  else if hasPrefix s (str "false") then some (.bool false, s.drop 5)
  else if hasPrefix s (str "null") then some (.null, s.drop 4)
  else (scanNumber s).map fun r => (.number r.1, r.2)

/- The first argument bounds the number of nested values and elements; the input
length plus one is always enough. -/
mutual
def parseValue : Nat → Bytes → Option (Value × Bytes)
  | 0, _ => none
  | n + 1, s =>
    match skipSpace s with
    | [] => none
    | c :: t =>
      if c = chr '"' then (scanString .plain t).map fun r => (.string (unquote r.1), r.2)
      else if c = chr '[' then
        match skipSpace t with
        | [] => none
        | d :: t' =>
          if d = chr ']' then some (.array [], t')
          else (parseElements n (d :: t')).map fun r => (.array r.1, r.2)
      else if c = chr '\x7b' then
        match skipSpace t with
        | [] => none
        | d :: t' =>
          if d = chr '\x7d' then some (.object [], t')
          else (parseMembers n (d :: t')).map fun r => (.object r.1, r.2)
      else scanScalar (c :: t)
def parseElements : Nat → Bytes → Option (List Value × Bytes)
  | 0, _ => none
  | n + 1, s =>
    (parseValue n s).bind fun v =>
      match skipSpace v.2 with
      | [] => none
      | c :: t =>
        if c = chr ',' then (parseElements n t).map fun r => (v.1 :: r.1, r.2)
        else if c = chr ']' then some ([v.1], t)
        else none
def parseMembers : Nat → Bytes → Option (List (Bytes × Value) × Bytes)
  | 0, _ => none
  | n + 1, s =>
    match skipSpace s with
    | [] => none
    | q :: s =>
      if q = chr '"' then
        (scanString .plain s).bind fun k =>
          match skipSpace k.2 with
          | [] => none
          | d :: t =>
            if d = chr ':' then
              (parseValue n t).bind fun v =>
                match skipSpace v.2 with
                | [] => none
                | c :: t =>
                  if c = chr ',' then
                    (parseMembers n t).map fun r => ((unquote k.1, v.1) :: r.1, r.2)
                  else if c = chr '\x7d' then some ([(unquote k.1, v.1)], t)
                  else none
            else none
      else none
end

/-- One value and nothing but white space after it. -/
def parseDocument (s : Bytes) : Option Value :=
  (parseValue (s.length + 1) s).bind fun r => if skipSpace r.2 = [] then some r.1 else none

def hexLower (n : Nat) : UInt8 := UInt8.ofNat (if n < 10 then 48 + n else 87 + n)

/-- Bytes the encoder copies: printable ASCII except the quote, the backslash and
the three characters escaped for HTML. -/
def isPlain (b : UInt8) : Bool :=
  decide (0x20 ≤ b.toNat ∧ b.toNat < 0x80 ∧ b ≠ chr '"' ∧ b ≠ chr '\\' ∧
    b ≠ chr '<' ∧ b ≠ chr '>' ∧ b ≠ chr '&')

def escapeAscii (b : UInt8) : Bytes :=
  if isPlain b then [b]
  else if b = chr '"' ∨ b = chr '\\' then [chr '\\', b]
  else if b = 8 then str "\\b"
  else if b = 12 then str "\\f"
  else if b = 10 then str "\\n"
  else if b = 13 then str "\\r"
  else if b = 9 then str "\\t"
  else str "\\u00" ++ [hexLower (b.toNat / 16), hexLower (b.toNat % 16)]

/-- What the encoder does with the remaining bytes of the current rune. -/
inductive Rune where
  | start
  | copy (n : Nat)
  | skip (n : Nat)

def escape : Rune → Bytes → Bytes
  | _, [] => []
  | .copy (n + 1), b :: t => b :: escape (.copy n) t
  | .skip (n + 1), _ :: t => escape (.skip n) t
  | _, b :: t =>
    if b.toNat < 0x80 then escapeAscii b ++ escape .start t
    else if [0xE2, 0x80, 0xA8].isPrefixOf (b :: t) then str "\\u2028" ++ escape (.skip 2) t
    else if [0xE2, 0x80, 0xA9].isPrefixOf (b :: t) then str "\\u2029" ++ escape (.skip 2) t
    else
      match runeLength (b :: t) with
      | 0 => str "\\ufffd" ++ escape .start t
      | n + 1 => b :: escape (.copy n) t

def encodeString (s : Bytes) : Bytes := chr '"' :: escape .start s ++ [chr '"']

/- The compact text of a value, as `json.Marshal` writes it. -/
mutual
def encode : Value → Bytes
  | .null => str "null"
  | .bool b => if b then str "true" else str "false"
  | .number l => l
  | .string s => encodeString s
  | .array [] => str "[]"
  | .array (v :: vs) => chr '[' :: (encode v ++ encodeElements vs)
  | .object [] => [chr '\x7b', chr '\x7d']
  | .object ((k, v) :: ms) =>
    chr '\x7b' :: (encodeString k ++ chr ':' :: (encode v ++ encodeMembers ms))
def encodeElements : List Value → Bytes
  | [] => [chr ']']
  | v :: vs => chr ',' :: (encode v ++ encodeElements vs)
def encodeMembers : List (Bytes × Value) → Bytes
  | [] => [chr '\x7d']
  | (k, v) :: ms => chr ',' :: (encodeString k ++ chr ':' :: (encode v ++ encodeMembers ms))
end

end Go.Json

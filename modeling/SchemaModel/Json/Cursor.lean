import SchemaModel.Json.Value
import SchemaModel.Json.Fault
import SchemaModel.Decimal.Binary
/-!
# Reading JSON tokens

A cursor is the unread rest of the text and the byte offset reached. This module reads the
tokens of JSON at a cursor: blanks, the words `null`, `true` and `false`, strings with their
escapes, and numbers.

A fault is reported either *here*, at the offset reached, or *ahead*, one byte further while
text remains. Numbers follow the usual decimal reading with 64-bit limits: an integer keeps up to
`2^64 - 1` exactly and further digits only scale it; a fraction keeps the digits that fit and
drops the rest; the value is the kept significand times a power of ten computed in doubles by
repeated multiplication or division with the doubles nearest to `10^k`. A negative integer stays
an integer from `-1` down to `-2^63`; `-0` and anything further down become doubles.
-/

namespace SchemaModel.Json

open SchemaModel.Decimal

/-- Unread text and the byte offset already read. -/
structure Cursor where
  rest : List Char
  offset : Nat

namespace Cursor

/-- A cursor at the start of a text. -/
def start (text : String) : Cursor := ⟨text.toList, 0⟩

/-- The next character. -/
def peek? (c : Cursor) : Option Char := c.rest.head?

/-- Past the next character. -/
def bump (c : Cursor) : Cursor :=
  match c.rest with
  | [] => c
  | ch :: rest => ⟨rest, c.offset + ch.utf8Size⟩

/-- A fault at the offset reached. -/
def here (c : Cursor) (f : Fault) : Failure := ⟨f, c.offset⟩

/-- A fault one byte further, while text remains. -/
def ahead (c : Cursor) (f : Fault) : Failure :=
  ⟨f, if c.rest.isEmpty then c.offset else c.offset + 1⟩

/-- Whether a character is a JSON blank: space, newline, tab or carriage return. -/
def isBlank (ch : Char) : Bool :=
  ch = ' ' || ch = '\n' || ch = '\t' || ch = '\r'

/-- Skips blanks. -/
def skipBlanks : List Char → Nat → Cursor
  | [], offset => ⟨[], offset⟩
  | ch :: rest, offset =>
    if isBlank ch then skipBlanks rest (offset + 1) else ⟨ch :: rest, offset⟩

/-- The cursor past any blanks. -/
def blank (c : Cursor) : Cursor := skipBlanks c.rest c.offset

/-- Reads the remaining letters of a word whose first letter was read. -/
def expectWord (c : Cursor) : List Char → Except Failure Cursor
  | [] => .ok c
  | w :: ws =>
    match c.rest with
    | [] => .error (c.here .eofInValue)
    | ch :: _ =>
      if ch = w then (c.bump).expectWord ws
      else .error ⟨.expectedIdent, c.offset + 1⟩

/-- The byte count of the first four characters, which reaches four exactly when at least four
bytes remain. -/
def fourBytesLeft (rest : List Char) : Bool :=
  ((rest.take 4).map Char.utf8Size).foldl (· + ·) 0 ≥ 4

/-- The value of a hexadecimal digit. -/
def hexValue? (ch : Char) : Option Nat :=
  if '0' ≤ ch ∧ ch ≤ '9' then some (ch.toNat - '0'.toNat)
  else if 'a' ≤ ch ∧ ch ≤ 'f' then some (ch.toNat - 'a'.toNat + 10)
  else if 'A' ≤ ch ∧ ch ≤ 'F' then some (ch.toNat - 'A'.toNat + 10)
  else none

/-- Reads the four hexadecimal digits of a `\u` escape. -/
def hexQuad (c : Cursor) : Except Failure (Nat × Cursor) :=
  if fourBytesLeft c.rest then
    match c.rest with
    | a :: b :: d :: e :: rest =>
      match hexValue? a, hexValue? b, hexValue? d, hexValue? e with
      | some x, some y, some z, some w =>
        .ok (((x * 16 + y) * 16 + z) * 16 + w, ⟨rest, c.offset + 4⟩)
      | _, _, _, _ => .error ⟨.invalidEscape, c.offset + 4⟩
    | _ => .error ⟨.invalidEscape, c.offset + 4⟩
  else .error ⟨.eofInString, c.offset + (c.rest.map Char.utf8Size).foldl (· + ·) 0⟩

/-- Whether a UTF-16 unit leads a surrogate pair. -/
def isLeadingSurrogate (n : Nat) : Bool := 0xD800 ≤ n && n ≤ 0xDBFF

/-- Whether a UTF-16 unit trails a surrogate pair. -/
def isTrailingSurrogate (n : Nat) : Bool := 0xDC00 ≤ n && n ≤ 0xDFFF

/-- Reads what follows `\u`: one code point, or a surrogate pair written as two escapes. -/
def unicodeEscape (c : Cursor) : Except Failure (Char × Cursor) := do
  let (n, c) ← c.hexQuad
  if isTrailingSurrogate n then .error (c.here .loneSurrogate)
  else if !isLeadingSurrogate n then .ok (Char.ofNat n, c)
  else
    match c.rest with
    | [] => .error (c.here .eofInString)
    | '\\' :: rest =>
      let c : Cursor := ⟨rest, c.offset + 1⟩
      match c.rest with
      | [] => .error (c.here .eofInString)
      | 'u' :: rest =>
        let (n2, c) ← (Cursor.mk rest (c.offset + 1)).hexQuad
        if isTrailingSurrogate n2 then
          .ok (Char.ofNat (((n - 0xD800) * 0x400 + (n2 - 0xDC00)) + 0x10000), c)
        else .error (c.here .loneSurrogate)
      | _ :: _ => .error ⟨.unexpectedEndOfEscape, c.offset + 1⟩
    | _ :: _ => .error ⟨.unexpectedEndOfEscape, c.offset + 1⟩

/-- Reads what follows a backslash in a string. -/
def escape (c : Cursor) : Except Failure (Char × Cursor) :=
  match c.rest with
  | [] => .error (c.here .eofInString)
  | ch :: rest =>
    let next : Cursor := ⟨rest, c.offset + ch.utf8Size⟩
    match ch with
    | '"' => .ok ('"', next)
    | '\\' => .ok ('\\', next)
    | '/' => .ok ('/', next)
    | 'b' => .ok ('\x08', next)
    | 'f' => .ok ('\x0c', next)
    | 'n' => .ok ('\n', next)
    | 'r' => .ok ('\r', next)
    | 't' => .ok ('\t', next)
    | 'u' => unicodeEscape next
    | _ => .error ⟨.invalidEscape, c.offset + 1⟩

/-- Reads string characters up to the closing quote; each round reads at least one character,
so the length of the rest bounds the rounds. -/
def stringBody : Nat → Cursor → List Char → Except Failure (String × Cursor)
  | 0, c, _ => .error (c.here .eofInString)
  | fuel + 1, c, acc =>
    match c.rest with
    | [] => .error (c.here .eofInString)
    | ch :: rest =>
      if ch = '"' then .ok (String.ofList acc.reverse, ⟨rest, c.offset + 1⟩)
      else if ch = '\\' then
        match escape ⟨rest, c.offset + 1⟩ with
        | .ok (e, c') => stringBody fuel c' (e :: acc)
        | .error f => .error f
      else if ch.toNat < 0x20 then .error ⟨.controlCharacter, c.offset + 1⟩
      else stringBody fuel ⟨rest, c.offset + ch.utf8Size⟩ (ch :: acc)

/-- Reads a string whose opening quote was read. -/
def string (c : Cursor) : Except Failure (String × Cursor) :=
  stringBody (c.rest.length + 1) c []

/-! ## Numbers -/

/-- Whether `a * 10 + b` exceeds `bound`. -/
def overflows (a b bound : Nat) : Bool :=
  a ≥ bound / 10 && (a > bound / 10 || b > bound % 10)

/-- The largest signed 32-bit integer, the bound of a decimal exponent. -/
def int32Max : Int := (Nat.pow 2 31 : Int) - 1

/-- Clamps to the signed 32-bit range. -/
def clampInt32 (n : Int) : Int := max (-(Nat.pow 2 31 : Int)) (min int32Max n)

/-- The digit value of a decimal digit. -/
def digit? (ch : Char) : Option Nat :=
  if '0' ≤ ch ∧ ch ≤ '9' then some (ch.toNat - '0'.toNat) else none

/-- Divides by `10^308` until the exponent is within the table, or the value is zero. -/
def scaleDown (table : Array Float) : Nat → Float → Int → Float
  | 0, f, _ => f
  | fuel + 1, f, exp =>
    if exp.natAbs ≤ 308 then f / table.getD exp.natAbs 1
    else if f == 0 then f
    else scaleDown table fuel (f / table.getD 308 1) (exp + 308)

/-- The double `±significand · 10^exp`, computed in doubles; a positive exponent too large for
the table or a product that overflows is out of range. -/
def fromParts (c : Cursor) (positive : Bool) (significand : Nat) (exp : Int) :
    Except Failure Number :=
  let table := powTenTable
  let f := significand.toUInt64.toFloat
  let f? : Option Float :=
    if exp ≥ 0 then
      if exp.natAbs ≤ 308 then
        let g := f * table.getD exp.natAbs 1
        if g.isInf then none else some g
      else if f == 0 then some f
      else none
    else some (scaleDown table ((-exp).toNat / 308 + 1) f exp)
  match f? with
  | some g => .ok (.float (if positive then g else -g))
  | none => .error (c.here .numberOutOfRange)

/-- Skips decimal digits. -/
def skipDigits : List Char → Nat → Cursor
  | [], offset => ⟨[], offset⟩
  | ch :: rest, offset =>
    if ch.isDigit then skipDigits rest (offset + 1) else ⟨ch :: rest, offset⟩

/-- After an exponent overflowed at the cursor: a positive exponent of a non-zero significand is
out of range, anything else is a zero once the remaining digits are skipped. -/
def exponentOverflow (c : Cursor) (positive zeroSignificand positiveExp : Bool) :
    Except Failure (Number × Cursor) :=
  if !zeroSignificand && positiveExp then .error (c.here .numberOutOfRange)
  else .ok (.float (if positive then 0.0 else -0.0), skipDigits c.rest c.offset)

/-- Accumulates exponent digits. -/
def exponentDigits (positive : Bool) (significand : Nat) (start : Int) (positiveExp : Bool) :
    List Char → Nat → Nat → Except Failure (Number × Cursor)
  | rest, offset, exp =>
    match rest with
    | ch :: more =>
      match digit? ch with
      | some d =>
        if overflows exp d int32Max.toNat then
          exponentOverflow ⟨more, offset + 1⟩ positive (significand == 0) positiveExp
        else exponentDigits positive significand start positiveExp more (offset + 1) (exp * 10 + d)
      | none => finish rest offset exp
    | [] => finish rest offset exp
where
  finish (rest : List Char) (offset : Nat) (exp : Nat) : Except Failure (Number × Cursor) :=
    let final := clampInt32 (if positiveExp then start + exp else start - exp)
    let c : Cursor := ⟨rest, offset⟩
    (fromParts c positive significand final).map (·, c)

/-- Reads an exponent; the cursor stands on `e` or `E`. -/
def exponent (c : Cursor) (positive : Bool) (significand : Nat) (start : Int) :
    Except Failure (Number × Cursor) :=
  let c := c.bump
  let (positiveExp, c) :=
    match c.rest with
    | '+' :: _ => (true, c.bump)
    | '-' :: _ => (false, c.bump)
    | _ => (true, c)
  match c.rest with
  | [] => .error (c.here .eofInValue)
  | ch :: rest =>
    match digit? ch with
    | some d => exponentDigits positive significand start positiveExp rest (c.offset + 1) d
    | none => .error ⟨.invalidNumber, c.offset + 1⟩

/-- The digits after a fraction's kept digits are dropped; an exponent may follow. -/
def fractionOverflow (c : Cursor) (positive : Bool) (significand : Nat) (exp : Int) :
    Except Failure (Number × Cursor) :=
  let c := skipDigits c.rest c.offset
  match c.rest with
  | 'e' :: _ | 'E' :: _ => exponent c positive significand exp
  | _ => (fromParts c positive significand exp).map (·, c)

/-- Accumulates fraction digits; `after` counts the digits kept after the point. -/
def fractionDigits (positive : Bool) (before : Int) :
    List Char → Nat → Nat → Nat → Except Failure (Number × Cursor)
  | rest, offset, significand, after =>
    match rest with
    | ch :: more =>
      match digit? ch with
      | some d =>
        if overflows significand d Number.uint64Max then
          fractionOverflow ⟨rest, offset⟩ positive significand (before - after)
        else fractionDigits positive before more (offset + 1) (significand * 10 + d) (after + 1)
      | none => finish rest offset significand after
    | [] => finish rest offset significand after
where
  finish (rest : List Char) (offset : Nat) (significand after : Nat) :
      Except Failure (Number × Cursor) :=
    let c : Cursor := ⟨rest, offset⟩
    if after = 0 then
      if rest.isEmpty then .error (c.ahead .eofInValue) else .error (c.ahead .invalidNumber)
    else
      match rest with
      | 'e' :: _ | 'E' :: _ => exponent c positive significand (before - after)
      | _ => (fromParts c positive significand (before - after)).map (·, c)

/-- Reads a fraction; the cursor stands on the point. -/
def fraction (c : Cursor) (positive : Bool) (significand : Nat) (before : Int) :
    Except Failure (Number × Cursor) :=
  let c := c.bump
  fractionDigits positive before c.rest c.offset significand 0

/-- An integer with more digits than 64 bits hold: further digits scale the kept ones. -/
def longInteger (positive : Bool) (significand : Nat) :
    List Char → Nat → Nat → Except Failure (Number × Cursor)
  | rest, offset, exp =>
    let c : Cursor := ⟨rest, offset⟩
    match rest with
    | ch :: more =>
      if ch.isDigit then longInteger positive significand more (offset + 1) (exp + 1)
      else if ch = '.' then fraction c positive significand exp
      else if ch = 'e' || ch = 'E' then exponent c positive significand exp
      else (fromParts c positive significand exp).map (·, c)
    | [] => (fromParts c positive significand exp).map (·, c)

/-- What follows the integer digits: a fraction, an exponent, or the end of the number. -/
def afterInteger (c : Cursor) (positive : Bool) (significand : Nat) :
    Except Failure (Number × Cursor) :=
  match c.rest with
  | '.' :: _ => fraction c positive significand 0
  | 'e' :: _ | 'E' :: _ => exponent c positive significand 0
  | _ =>
    if positive then .ok (.natural significand, c)
    else if 1 ≤ significand ∧ significand ≤ Nat.pow 2 63 then .ok (.negative (-(significand : Int)), c)
    else .ok (.float (-significand.toUInt64.toFloat), c)

/-- Accumulates integer digits while they fit in 64 bits. -/
def integerDigits (positive : Bool) : List Char → Nat → Nat → Except Failure (Number × Cursor)
  | rest, offset, significand =>
    match rest with
    | ch :: more =>
      match digit? ch with
      | some d =>
        if overflows significand d Number.uint64Max then
          longInteger positive significand rest offset 0
        else integerDigits positive more (offset + 1) (significand * 10 + d)
      | none => afterInteger ⟨rest, offset⟩ positive significand
    | [] => afterInteger ⟨rest, offset⟩ positive significand

/-- Reads a number; a minus sign, if any, was read and `positive` says whether there was none. -/
def number (c : Cursor) (positive : Bool) : Except Failure (Number × Cursor) :=
  match c.rest with
  | [] => .error (c.here .eofInValue)
  | ch :: rest =>
    if ch = '0' then
      let c : Cursor := ⟨rest, c.offset + 1⟩
      match rest with
      | next :: _ => if next.isDigit then .error (c.ahead .invalidNumber) else afterInteger c positive 0
      | [] => afterInteger c positive 0
    else match digit? ch with
      | some d => integerDigits positive rest (c.offset + 1) d
      | none => .error ⟨.invalidNumber, c.offset + 1⟩

end Cursor

end SchemaModel.Json

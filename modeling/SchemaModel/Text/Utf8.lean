/-!
# UTF-8 bytes

The bytes of a character in UTF-8, and the strict reading of a byte sequence as UTF-8
(RFC 3629 §4): no overlong forms, no surrogates, nothing above `U+10FFFF`, no truncated
sequence.
-/

namespace SchemaModel.Utf8

/-- Whether a byte continues a multi-byte sequence and lies in `[lo, hi]`. -/
def within (lo hi b : Nat) : Bool := lo ≤ b && b ≤ hi

/-- The code point of a two-byte sequence. -/
def two (a b : Nat) : Nat := (a % 0x20) * 0x40 + b % 0x40

/-- The code point of a three-byte sequence. -/
def three (a b c : Nat) : Nat := ((a % 0x10) * 0x40 + b % 0x40) * 0x40 + c % 0x40

/-- The code point of a four-byte sequence. -/
def four (a b c d : Nat) : Nat :=
  (((a % 0x08) * 0x40 + b % 0x40) * 0x40 + c % 0x40) * 0x40 + d % 0x40

/-- The lower and upper bound of the second byte after a leading byte of a three- or four-byte
sequence. -/
def secondRange (a : Nat) : Nat × Nat :=
  if a = 0xE0 then (0xA0, 0xBF)
  else if a = 0xED then (0x80, 0x9F)
  else if a = 0xF0 then (0x90, 0xBF)
  else if a = 0xF4 then (0x80, 0x8F)
  else (0x80, 0xBF)

/-- The characters a byte sequence encodes in UTF-8, or nothing when it is not UTF-8. -/
def decode? : List Nat → Option (List Char)
  | [] => some []
  | a :: rest =>
    if a < 0x80 then (decode? rest).map (Char.ofNat a :: ·)
    else if within 0xC2 0xDF a then
      match rest with
      | b :: rest =>
        if within 0x80 0xBF b then (decode? rest).map (Char.ofNat (two a b) :: ·) else none
      | [] => none
    else if within 0xE0 0xEF a then
      match rest with
      | b :: c :: rest =>
        if within (secondRange a).1 (secondRange a).2 b && within 0x80 0xBF c then
          (decode? rest).map (Char.ofNat (three a b c) :: ·)
        else none
      | _ => none
    else if within 0xF0 0xF4 a then
      match rest with
      | b :: c :: d :: rest =>
        if within (secondRange a).1 (secondRange a).2 b && within 0x80 0xBF c &&
            within 0x80 0xBF d then
          (decode? rest).map (Char.ofNat (four a b c d) :: ·)
        else none
      | _ => none
    else none

/-- The UTF-8 bytes of a character. -/
def encode (c : Char) : List Nat :=
  let n := c.toNat
  if n < 0x80 then [n]
  else if n < 0x800 then [0xC0 + n / 0x40, 0x80 + n % 0x40]
  else if n < 0x10000 then [0xE0 + n / 0x1000, 0x80 + n / 0x40 % 0x40, 0x80 + n % 0x40]
  else [0xF0 + n / 0x40000, 0x80 + n / 0x1000 % 0x40, 0x80 + n / 0x40 % 0x40, 0x80 + n % 0x40]

end SchemaModel.Utf8

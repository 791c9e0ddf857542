import SchemaModel.Text.Utf8
import SchemaModel.Text.Blank
/-!
# Percent escapes in path segments

A path segment may write characters as `%XX` escapes of bytes. Consecutive escapes form a run
whose text is handed to a `RunReader` for its bytes, which are read together in the segment's
`Encoding`: as UTF-8, or one character per byte in ISO-8859-1. Characters outside escapes stand
for themselves, except that `+` stands for a space. A `%` that does not start two hexadecimal digits, or a run that is not valid in the
encoding, makes the segment undecodable.
-/

namespace SchemaModel

/-- How the bytes of percent escapes are read. -/
inductive Encoding where
  | utf8
  | latin1
  deriving DecidableEq, Repr, Inhabited

/-- The standard name of an encoding. -/
def Encoding.name : Encoding → String
  | .utf8 => "UTF-8"
  | .latin1 => "ISO-8859-1"

/-- The encoding a name designates. Case, blanks around the name, hyphens and underscores do
not matter: `utf8`, `UTF-8` and ` utf_8 ` are UTF-8, and `ISO-8859-1` and `latin1` are
ISO-8859-1. -/
def Encoding.ofName? (name : String) : Option Encoding :=
  let key := (Blank.trim name).toList.map Char.toLower |>.filter (fun c => c ≠ '-' ∧ c ≠ '_')
  if key = "utf8".toList then some .utf8
  else if key = "iso88591".toList || key = "latin1".toList then some .latin1
  else none

/-- The characters a run of escaped bytes stands for in the encoding. -/
def Encoding.decodeRun? : Encoding → List Nat → Option (List Char)
  | .utf8, bytes => Utf8.decode? bytes
  | .latin1, bytes => some (bytes.map Char.ofNat)

namespace Percent

/-- The value of a hexadecimal digit. -/
def hexDigit? (c : Char) : Option Nat :=
  if '0' ≤ c ∧ c ≤ '9' then some (c.toNat - '0'.toNat)
  else if 'a' ≤ c ∧ c ≤ 'f' then some (c.toNat - 'a'.toNat + 10)
  else if 'A' ≤ c ∧ c ≤ 'F' then some (c.toNat - 'A'.toNat + 10)
  else none

/-- The character a literal stands for: `+` is a space. -/
def formChar (c : Char) : Char := if c = '+' then ' ' else c

/-- A run of `%XX` escapes and the bytes it writes, with hexadecimal digits of either case. -/
inductive EscapeRun : List Char → List Nat → Prop
  | nil : EscapeRun [] []
  | escape {a b : Char} {x y : Nat} {text : List Char} {bytes : List Nat} :
      hexDigit? a = some x → hexDigit? b = some y → EscapeRun text bytes →
      EscapeRun ('%' :: a :: b :: text) ((x * 16 + y) :: bytes)

/-- What turns the text of a run of escapes into bytes. Segments leave this to a URL-encoding
library and rely on one thing only: a run of well-formed escapes reads as the bytes it writes. -/
structure RunReader where
  read : List Char → List Nat
  read_run : ∀ {text bytes}, EscapeRun text bytes → read text = bytes

/-- The URL-encoding library's reading of a text: an escape gives its byte, a `%` that starts no
escape stands for itself, and any other character for its UTF-8 bytes. -/
def hexBytes : List Char → List Nat
  | [] => []
  | '%' :: a :: b :: rest =>
    match hexDigit? a, hexDigit? b with
    | some x, some y => (x * 16 + y) :: hexBytes rest
    | _, _ => '%'.toNat :: hexBytes (a :: b :: rest)
  | c :: rest => Utf8.encode c ++ hexBytes rest

theorem hexBytes_run {text : List Char} {bytes : List Nat} (h : EscapeRun text bytes) :
    hexBytes text = bytes := by
  induction h with
  | nil => rfl
  | escape ha hb _ ih => simp [hexBytes, ha, hb, ih]

/-- The reader of escapes that the paths of a store use. -/
def RunReader.hex : RunReader := ⟨hexBytes, hexBytes_run⟩

/-- The characters a run of escapes stands for in the encoding; no escapes stand for nothing. -/
def readRun (reader : RunReader) (enc : Encoding) (run : List Char) : Option (List Char) :=
  if run.isEmpty then some [] else enc.decodeRun? (reader.read run)

/-- Decodes the rest of a segment; `run` holds the text of the escapes met since the last literal
character, which is read as one run when a literal character or the end follows. -/
def readRuns (reader : RunReader) (enc : Encoding) : List Char → List Char → Option (List Char)
  | [], run => readRun reader enc run
  | '%' :: a :: b :: rest, run =>
    match hexDigit? a, hexDigit? b with
    | some _, some _ => readRuns reader enc rest (run ++ ['%', a, b])
    | _, _ => none
  | '%' :: _, _ => none
  | c :: rest, run =>
    match readRun reader enc run, readRuns reader enc rest [] with
    | some chars, some tail => some (chars ++ formChar c :: tail)
    | _, _ => none

/-- The characters a segment stands for, or nothing when it cannot be decoded. -/
def decode? (reader : RunReader) (enc : Encoding) (raw : String) : Option String :=
  (readRuns reader enc raw.toList []).map String.ofList

end Percent

end SchemaModel

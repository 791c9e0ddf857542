/-!
# Reading faults and where they are reported

What can go wrong while reading JSON text, and the line and column a fault is reported at. A
position is a byte offset into the text; its line is one more than the newlines before it and
its column is its distance in bytes from the start of its line. Faults that concern the meaning
of a well-formed value (a wrong type for a setting, an unknown key) are `data` faults carrying
their own wording.
-/

namespace SchemaModel.Json

/-- A reason why JSON text cannot be read. -/
inductive Fault where
  | eofInList
  | eofInObject
  | eofInString
  | eofInValue
  | expectedColon
  | expectedListCommaOrEnd
  | expectedObjectCommaOrEnd
  | expectedIdent
  | expectedValue
  | invalidEscape
  | invalidNumber
  | numberOutOfRange
  | controlCharacter
  | keyNotString
  | loneSurrogate
  | trailingComma
  | trailingCharacters
  | unexpectedEndOfEscape
  | depthExceeded
  /-- The text is well formed but its value does not fit what is read from it. -/
  | data (message : String)
  deriving Repr, Inhabited

/-- The wording of a fault. -/
def Fault.message : Fault → String
  | .eofInList => "EOF while parsing a list"
  | .eofInObject => "EOF while parsing an object"
  | .eofInString => "EOF while parsing a string"
  | .eofInValue => "EOF while parsing a value"
  | .expectedColon => "expected `:`"
  | .expectedListCommaOrEnd => "expected `,` or `]`"
  | .expectedObjectCommaOrEnd => "expected `,` or `\x7d`"
  | .expectedIdent => "expected ident"
  | .expectedValue => "expected value"
  | .invalidEscape => "invalid escape"
  | .invalidNumber => "invalid number"
  | .numberOutOfRange => "number out of range"
  | .controlCharacter => "control character (\\u0000-\\u001F) found while parsing a string"
  | .keyNotString => "key must be a string"
  | .loneSurrogate => "lone leading surrogate in hex escape"
  | .trailingComma => "trailing comma"
  | .trailingCharacters => "trailing characters"
  | .unexpectedEndOfEscape => "unexpected end of hex escape"
  | .depthExceeded => "recursion limit exceeded"
  | .data message => message

/-- A fault at a byte offset of the text being read. -/
structure Failure where
  fault : Fault
  offset : Nat
  deriving Repr, Inhabited

/-- A fault with the line and column it is reported at. -/
structure ReadError where
  fault : Fault
  line : Nat
  column : Nat
  deriving Repr, Inhabited

/-- How a read error is shown: the fault, then its line and column. -/
def ReadError.message (e : ReadError) : String :=
  s!"{e.fault.message} at line {e.line} column {e.column}"

/-- Walks the text up to byte `offset`, counting newlines and remembering where the current line
starts. -/
def locateFrom : List Char → Nat → Nat → Nat → Nat → Nat × Nat
  | [], _, line, start, offset => (line, offset - start)
  | c :: rest, here, line, start, offset =>
    if here < offset then
      if c = '\n' then locateFrom rest (here + 1) (line + 1) (here + 1) offset
      else locateFrom rest (here + c.utf8Size) line start offset
    else (line, offset - start)

/-- The line and column of byte `offset` of `text`. -/
def locate (text : List Char) (offset : Nat) : Nat × Nat :=
  locateFrom text 0 1 0 offset

/-- The failure placed in `text`. -/
def Failure.locate (f : Failure) (text : List Char) : ReadError :=
  let (line, column) := Json.locate text f.offset
  ⟨f.fault, line, column⟩

end SchemaModel.Json

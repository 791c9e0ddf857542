import SchemaModel.Settings.Basic
import SchemaModel.Json.Cursor
import SchemaModel.Decimal.Notation
import SchemaModel.Text.Escape
/-!
# Reading settings from JSON text

Settings are written as a JSON object whose keys are setting names, or as an array giving the
settings in declared order; a missing setting keeps its default and an unknown key is refused.
Reading stops at the first problem and reports it with the path to the value that caused it:
`decode_policy`, `reserved_identifiers[2]`, `?` for a key that could not be read, nothing for a
problem with the whole text. Text after the settings value is not looked at.

A problem found by the token reader is placed where the reader found it. A problem with the
meaning of a well-formed value (a wrong type, an unknown key or variant, a repeated key) is placed
where reading stands when the problem reaches the enclosing value; the innermost path that a
problem passes keeps it. The colon after a key belongs to the object, not to the key's value, so a
missing colon is a problem of the object.
-/

namespace SchemaModel.Settings

open Json Decimal

/-- A step of the path to a value of the settings text. -/
inductive Step where
  | key (name : String)
  | index (i : Nat)
  | unknown
  deriving Repr, Inhabited

/-- How a path is written: keys joined by dots, indices in brackets, `.` for the whole text. -/
def pathText : List Step → String
  | [] => "."
  | steps =>
    let (text, _) := steps.foldl (fun (acc : String × Bool) step =>
      let (text, first) := acc
      match step with
      | .index i => (text ++ "[" ++ toString i ++ "]", false)
      | .key k => (text ++ (if first then "" else ".") ++ k, false)
      | .unknown => (text ++ (if first then "" else ".") ++ "?", false)) ("", true)
    text

/-- A problem found while reading settings: the fault, where it is placed once known, and the
path to the value it concerns once known. -/
structure Problem where
  fault : Fault
  offset : Option Nat
  path : Option (List Step)
  deriving Repr, Inhabited

/-- Reading with a cursor that stays where it stood when a problem arose. -/
abbrev Reader := ExceptT Problem (StateM Cursor)

/-- What a value turned out to be, for a message about a wrong type. -/
inductive Found where
  | unit
  | bool (b : Bool)
  | number (n : Number)
  | str (s : String)
  | seq
  | map

/-- A character as written inside a quoted text of a message. -/
def debugChar (c : Char) : String :=
  let n := c.toNat
  if c = '"' then "\\\""
  else if c = '\\' then "\\\\"
  else if c = '\n' then "\\n"
  else if c = '\r' then "\\r"
  else if c = '\t' then "\\t"
  else if n = 0 then "\\0"
  else if Escape.escaped c then
    "\\u" ++ "\x7b" ++ String.ofList (Nat.toDigits 16 n) ++ "\x7d"
  else c.toString

/-- A text in quotes, as a message quotes it. -/
def debugQuote (s : String) : String :=
  s.foldl (fun acc c => acc ++ debugChar c) "\"" ++ "\""

/-- How a message names what a value turned out to be. -/
def Found.describe : Found → String
  | .unit => "null"
  | .bool b => "boolean `" ++ (if b then "true" else "false") ++ "`"
  | .number (.natural n) => "integer `" ++ toString n ++ "`"
  | .number (.negative n) => "integer `" ++ toString n ++ "`"
  | .number (.float x) => "floating point `" ++ (Notation.json.spell? x).getD "NaN" ++ "`"
  | .str s => "string " ++ debugQuote s
  | .seq => "sequence"
  | .map => "map"

/-- Names a list of alternatives: `a`, `a` or `b`, one of `a`, `b`, `c`. -/
def oneOf : List String → String
  | [a] => "`" ++ a ++ "`"
  | [a, b] => "`" ++ a ++ "` or `" ++ b ++ "`"
  | names => "one of " ++ ", ".intercalate (names.map fun n => "`" ++ n ++ "`")

/-- A problem not yet placed nor on a path. -/
def Problem.ofMessage (message : String) : Problem := ⟨.data message, none, none⟩

/-- A value of the wrong type. -/
def wrongType (found : Found) (expected : String) : Problem :=
  .ofMessage ("invalid type: " ++ found.describe ++ ", expected " ++ expected)

/-- A value of the right type that is out of range. -/
def wrongValue (found : Found) (expected : String) : Problem :=
  .ofMessage ("invalid value: " ++ found.describe ++ ", expected " ++ expected)

namespace Reader

/-- The next character after blanks. -/
def peek : Reader (Option Char) := do
  modify Cursor.blank
  return (← get).peek?

/-- Past the next character. -/
def advance : Reader Unit := modify Cursor.bump

/-- A fault at a byte offset. -/
def failAt {α : Type} (f : Fault) (offset : Nat) : Reader α := throw ⟨f, some offset, none⟩

/-- A fault where reading stands. -/
def failHere {α : Type} (f : Fault) : Reader α := do failAt f (← get).offset

/-- A fault one byte ahead of where reading stands. -/
def failAhead {α : Type} (f : Fault) : Reader α := do failAt f ((← get).ahead f).offset

/-- Runs a token reader of the cursor. -/
def token {α : Type} (r : Cursor → Except Failure (α × Cursor)) : Reader α := do
  match r (← get) with
  | .ok (a, c) => set c; pure a
  | .error f => failAt f.fault f.offset

/-- Reads the rest of a word. -/
def word (rest : String) : Reader Unit := do
  match (← get).expectWord rest.toList with
  | .ok c => set c
  | .error f => failAt f.fault f.offset

/-- Places a problem not yet placed where reading stands. -/
def place (p : Problem) : Reader Problem := do
  match p.offset with
  | some _ => pure p
  | none => pure { p with offset := some (← get).offset }

/-- Places any problem of `r` that is not yet placed where reading stands when it fails. -/
def placed {α : Type} (r : Reader α) : Reader α :=
  tryCatch r fun p => do throw (← place p)

/-- Puts any problem of `r` that is on no path yet on `path`. -/
def within {α : Type} (path : List Step) (r : Reader α) : Reader α :=
  tryCatch r fun p => throw (if p.path.isSome then p else { p with path := some path })

/-- The outcome of `r`, keeping the cursor where `r` left it. -/
def attempt {α : Type} (r : Reader α) : Reader (Except Problem α) :=
  tryCatch (Except.ok <$> r) fun p => pure (.error p)

/-- Reads the contents of a bracketed value and then its closing bracket; the closing is read
even after a problem, and a problem of the contents wins. -/
def bracketed {α : Type} (contents : Reader α) (close : Reader Unit) : Reader α := do
  let v ← attempt contents
  let e ← attempt close
  match v, e with
  | .error p, _ => throw p
  | .ok _, .error p => throw p
  | .ok a, .ok () => pure a

/-- Reads the value where reading stands only to refuse it as not what was expected. -/
def refuse {α : Type} (expected : String) : Reader α := do
  match (← get).peek? with
  | some 'n' => advance; word "ull"; throw (← place (wrongType .unit expected))
  | some 't' => advance; word "rue"; throw (← place (wrongType (.bool true) expected))
  | some 'f' => advance; word "alse"; throw (← place (wrongType (.bool false) expected))
  | some '-' =>
    advance
    let n ← token (·.number false)
    throw (← place (wrongType (.number n) expected))
  | some '"' =>
    advance
    let s ← token Cursor.string
    throw (← place (wrongType (.str s) expected))
  | some '[' => throw (← place (wrongType .seq expected))
  | some '{' => throw (← place (wrongType .map expected))
  | some ch =>
    if ch.isDigit then
      let n ← token (·.number true)
      throw (← place (wrongType (.number n) expected))
    else failAhead .expectedValue
  | none => failAhead .expectedValue

/-- A flag. -/
def flag : Reader Bool := placed do
  match ← peek with
  | none => failAhead .eofInValue
  | some 't' => advance; word "rue"; pure true
  | some 'f' => advance; word "alse"; pure false
  | some _ => refuse "a boolean"

/-- A text; `expected` names what is expected in a message. -/
def text (expected : String) : Reader String := placed do
  match ← peek with
  | none => failAhead .eofInValue
  | some '"' => advance; token Cursor.string
  | some _ => refuse expected

/-- A signed 64-bit integer. -/
def integer : Reader Int := placed do
  let visit : Number → Reader Int
    | .negative n => pure n
    | .natural n =>
      if n ≤ Number.int64Max then pure n else throw (wrongValue (.number (.natural n)) "i64")
    | .float x => throw (wrongType (.number (.float x)) "i64")
  match ← peek with
  | none => failAhead .eofInValue
  | some '-' => advance; visit (← token (·.number false))
  | some ch => if ch.isDigit then visit (← token (·.number true)) else refuse "i64"

/-- Whether another element follows in an array. -/
def nextElement (first : Bool) : Reader Bool := do
  match ← peek with
  | none => failAhead .eofInList
  | some ']' => pure false
  | some ch =>
    if first then pure true
    else if ch = ',' then
      advance
      match ← peek with
      | some ']' => failAhead .trailingComma
      | some _ => pure true
      | none => failAhead .eofInValue
    else failAhead .expectedListCommaOrEnd

/-- The closing bracket of an array. -/
def closeArray : Reader Unit := do
  match ← peek with
  | some ']' => advance
  | some ',' =>
    advance
    match ← peek with
    | some ']' => failAhead .trailingComma
    | _ => failAhead .trailingCharacters
  | some _ => failAhead .trailingCharacters
  | none => failAhead .eofInList

/-- The closing brace of an object. -/
def closeObject : Reader Unit := do
  match ← peek with
  | some '}' => advance
  | some ',' => failAhead .trailingComma
  | some _ => failAhead .trailingCharacters
  | none => failAhead .eofInObject

/-- The colon after a key. -/
def colon : Reader Unit := do
  match ← peek with
  | some ':' => advance
  | some _ => failAhead .expectedColon
  | none => failAhead .eofInObject

/-- The texts of an array; `fuel` bounds the elements, as each takes at least a character. -/
def textItems (path : List Step) : Nat → Nat → List String → Reader (List String)
  | 0, _, acc => pure acc.reverse
  | fuel + 1, i, acc => do
    if ← within path (nextElement (i == 0)) then
      let s ← within (path ++ [.index i]) (text "a string")
      textItems path fuel (i + 1) (s :: acc)
    else pure acc.reverse

/-- An array of texts at `path`. -/
def texts (path : List Step) : Reader (List String) := placed do
  match ← peek with
  | none => failAhead .eofInValue
  | some '[' =>
    advance
    let fuel := (← get).rest.length + 1
    bracketed (textItems path fuel 0 []) closeArray
  | some _ => refuse "a sequence"

/-- The name of one of `names`, given as a text. -/
def variantName (names : List String) : Reader String := placed do
  match ← peek with
  | none => failAhead .eofInValue
  | some '"' =>
    advance
    let s ← token Cursor.string
    if s ∈ names then pure s
    else throw (.ofMessage ("unknown variant `" ++ s ++ "`, expected " ++ oneOf names))
  | some _ => refuse "variant identifier"

/-- The null that a named alternative without data carries. -/
def unit : Reader Unit := placed do
  match ← peek with
  | none => failAhead .eofInValue
  | some 'n' => advance; word "ull"
  | some _ => refuse "unit"

/-- One of `names`: the name as a text, or an object holding the name as its only key with a
null value. The object's key must be a text, and an empty object lacks a value. -/
def choice (path : List Step) (names : List String) : Reader String := do
  match ← peek with
  | some '{' =>
    advance
    match ← peek with
    | some '"' => pure ()
    | some '}' => failAhead .expectedValue
    | some _ => failAhead .keyNotString
    | none => failAhead .eofInObject
    let v ← variantName names
    colon
    within (path ++ [.key v]) unit
    match ← peek with
    | some '}' => advance; pure v
    | some _ => failHere .expectedValue
    | none => failHere .eofInObject
  | some '"' => variantName names
  | some _ => failAhead .expectedValue
  | none => failAhead .eofInValue

end Reader

open Reader

/-- The setting names, in declared order. -/
def fieldNames : List String :=
  ["include_accessors", "generate_builders", "include_constraints", "target_package",
    "property_word_delimiters", "reserved_identifiers", "ref_encoding", "decode_policy",
    "default_property_order", "annotator"]

/-- Reads the value of a setting at `path` and sets it. -/
def readField (name : String) (path : List Step) : Reader (Settings → Settings) :=
  match name with
  | "include_accessors" => do let b ← flag; pure fun s => { s with includeAccessors := b }
  | "generate_builders" => do let b ← flag; pure fun s => { s with generateBuilders := b }
  | "include_constraints" => do let b ← flag; pure fun s => { s with includeConstraints := b }
  | "target_package" => do let t ← text "a string"; pure fun s => { s with targetPackage := t }
  | "property_word_delimiters" => do
    let t ← text "a string"
    pure fun s => { s with wordDelimiters := t }
  | "reserved_identifiers" => do
    let ts ← texts path
    pure fun s => { s with reservedIdentifiers := ts }
  | "ref_encoding" => do let t ← text "a string"; pure fun s => { s with refEncoding := t }
  | "decode_policy" => do
    let v ← choice path ["lenient", "strict"]
    pure fun s => { s with decodePolicy := if v = "strict" then .strict else .lenient }
  | "default_property_order" => do
    let i ← integer
    pure fun s => { s with defaultPropertyOrder := i }
  | _ => do
    let v ← choice path ["none", "json_editor"]
    pure fun s => { s with annotator := if v = "none" then .none else .formEditor }

/-- The settings given as an array, in declared order. -/
def fromArray : List String → Nat → Settings → Reader Settings
  | [], _, s => pure s
  | name :: rest, i, s => do
    if ← within [] (nextElement (i == 0)) then
      let update ← within [.index i] (readField name [.index i])
      fromArray rest (i + 1) (update s)
    else fromArray rest (i + 1) s

/-- Whether another key follows in an object. -/
def nextKey (first : Bool) : Reader Bool := do
  match ← peek with
  | none => failAhead .eofInObject
  | some '}' => pure false
  | some ch =>
    if first then
      if ch = '"' then pure true else failAhead .keyNotString
    else if ch = ',' then
      advance
      match ← peek with
      | some '"' => pure true
      | some '}' => failAhead .trailingComma
      | some _ => failAhead .keyNotString
      | none => failAhead .eofInValue
    else failAhead .expectedObjectCommaOrEnd

/-- The settings given as an object; `seen` holds the keys read so far. -/
def fromObject : Nat → List String → Settings → Reader Settings
  | 0, _, s => pure s
  | fuel + 1, seen, s => do
    if ← within [.unknown] (nextKey seen.isEmpty) then
      let key ← within [.unknown] (do advance; token Cursor.string)
      unless key ∈ fieldNames do
        throw { Problem.ofMessage ("unknown field `" ++ key ++ "`, expected " ++ oneOf fieldNames)
          with path := some [.key key] }
      if key ∈ seen then throw (.ofMessage ("duplicate field `" ++ key ++ "`"))
      colon
      let update ← within [.key key] (readField key [.key key])
      fromObject fuel (key :: seen) (update s)
    else pure s

/-- The settings value of a text. -/
def whole : Reader Settings := within [] <| placed do
  match ← peek with
  | none => failAhead .eofInValue
  | some '[' => advance; bracketed (fromArray fieldNames 0 {}) closeArray
  | some '{' =>
    advance
    let fuel := (← get).rest.length + 1
    bracketed (fromObject fuel [] {}) closeObject
  | some _ => refuse "struct GenerationConfig"

/-- The message of a problem in `text`: the fault and its place, after the path when there is
one. -/
def Problem.reason (p : Problem) (text : String) : String :=
  let (line, column) := Json.locate text.toList (p.offset.getD 0)
  let inner := ReadError.message ⟨p.fault, line, column⟩
  match p.path.getD [] with
  | [] => inner
  | steps => "at JSON path " ++ pathText steps ++ " → " ++ inner

/-- The settings a text gives; `origin` names the text in an error. A known encoding name is
required of the result. -/
def parse (origin text : String) : Except ConfigurationError Settings :=
  match (whole.run (Cursor.start text)).run with
  | (.ok s, _) =>
    match s.encoding with
    | .ok _ => .ok s
    | .error e => .error e
  | (.error p, _) => .error (.invalid origin (p.reason text))

end SchemaModel.Settings

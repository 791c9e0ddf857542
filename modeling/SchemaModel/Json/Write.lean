import SchemaModel.Json.Value
import SchemaModel.Decimal.Notation
/-!
# Writing JSON values

The compact form puts no blank anywhere; the pretty form puts each element and member on a line
of its own, indented by two spaces per level, with `": "` after a key, and writes an empty array
or object as `[]` or `{}`. Strings escape the quote, the backslash and the control characters
(the usual short escapes where there is one, `\u00xx` with lower-case digits otherwise) and
write every other character as it is. Integers are written in decimal and doubles in
`Notation.json`.
-/

namespace SchemaModel

open Decimal

/-- Four lower-case hexadecimal digits of a code unit below `0x10000`. -/
def hex4 (n : Nat) : String :=
  let d (k : Nat) : Char := "0123456789abcdef".toList.getD (n / Nat.pow 16 k % 16) '0'
  String.ofList [d 3, d 2, d 1, d 0]

/-- A character as it stands inside a written string. -/
def escapeChar (c : Char) : String :=
  if c = '"' then "\\\""
  else if c = '\\' then "\\\\"
  else if c = '\n' then "\\n"
  else if c = '\r' then "\\r"
  else if c = '\t' then "\\t"
  else if c = '\x08' then "\\b"
  else if c = '\x0c' then "\\f"
  else if c.toNat < 0x20 then "\\u" ++ hex4 c.toNat
  else c.toString

/-- A string written in quotes. -/
def quote (s : String) : String :=
  s.foldl (fun acc c => acc ++ escapeChar c) "\"" ++ "\""

/-- The text of a number. -/
def Number.write : Number → String
  | .negative n => toString n
  | .natural n => toString n
  | .float x => (Notation.json.spell? x).getD "null"

mutual

/-- The compact text of a value. -/
def Value.compact : Value → String
  | .null => "null"
  | .bool b => if b then "true" else "false"
  | .number n => n.write
  | .string s => quote s
  | .array items => "[" ++ compactItems items ++ "]"
  | .object fields => "\x7b" ++ compactFields fields ++ "\x7d"

/-- Array elements, comma separated. -/
def compactItems : List Value → String
  | [] => ""
  | [v] => v.compact
  | v :: rest => v.compact ++ "," ++ compactItems rest

/-- Object members, comma separated. -/
def compactFields : List (String × Value) → String
  | [] => ""
  | [(k, v)] => quote k ++ ":" ++ v.compact
  | (k, v) :: rest => quote k ++ ":" ++ v.compact ++ "," ++ compactFields rest

end

/-- Two spaces per level. -/
def indent (level : Nat) : String := String.ofList (List.replicate (2 * level) ' ')

mutual

/-- The pretty text of a value nested `level` deep. -/
def Value.prettyAt (level : Nat) : Value → String
  | .array [] => "[]"
  | .object [] => "\x7b\x7d"
  | .array items => "[\n" ++ prettyItems (level + 1) items ++ "\n" ++ indent level ++ "]"
  | .object fields =>
    "\x7b\n" ++ prettyFields (level + 1) fields ++ "\n" ++ indent level ++ "\x7d"
  | v => v.compact

/-- Array elements, one per line. -/
def prettyItems (level : Nat) : List Value → String
  | [] => ""
  | [v] => indent level ++ v.prettyAt level
  | v :: rest => indent level ++ v.prettyAt level ++ ",\n" ++ prettyItems level rest

/-- Object members, one per line. -/
def prettyFields (level : Nat) : List (String × Value) → String
  | [] => ""
  | [(k, v)] => indent level ++ quote k ++ ": " ++ v.prettyAt level
  | (k, v) :: rest =>
    indent level ++ quote k ++ ": " ++ v.prettyAt level ++ ",\n" ++ prettyFields level rest

end

/-- The pretty text of a value. -/
def Value.pretty (v : Value) : String := v.prettyAt 0

end SchemaModel

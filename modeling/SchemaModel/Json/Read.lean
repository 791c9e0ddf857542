import SchemaModel.Json.Cursor
/-!
# Reading JSON values

`Value.read` reads a whole text as one value. Arrays and objects nest at most 127 deep; a key
repeated in an object keeps its first place and takes its last value. After an array's first
element every further one is announced by a comma, and a comma right before the closing bracket
is a fault of its own; objects likewise. Text after the value other than blanks is refused.

The readers recurse on a budget that the text's length bounds: every call reads at least one
character before it calls again, so twice the length never runs out.
-/

namespace SchemaModel.Json

namespace Cursor

/-- The colon between a key and its value. -/
def colon (c : Cursor) : Except Failure Cursor :=
  let c := c.blank
  match c.rest with
  | ':' :: _ => .ok c.bump
  | _ :: _ => .error (c.ahead .expectedColon)
  | [] => .error (c.ahead .eofInObject)

mutual

/-- Reads one value; `depth` is the nesting still allowed plus one. -/
def value : Nat → Nat → Cursor → Except Failure (Value × Cursor)
  | 0, _, c => .error (c.here .depthExceeded)
  | fuel + 1, depth, c =>
    let c := c.blank
    match c.rest with
    | [] => .error (c.ahead .eofInValue)
    | ch :: _ =>
      if ch = 'n' then (c.bump.expectWord "ull".toList).map (.null, ·)
      else if ch = 't' then (c.bump.expectWord "rue".toList).map (.bool true, ·)
      else if ch = 'f' then (c.bump.expectWord "alse".toList).map (.bool false, ·)
      else if ch = '-' then (c.bump.number false).map fun (n, c) => (.number n, c)
      else if ch.isDigit then (c.number true).map fun (n, c) => (.number n, c)
      else if ch = '"' then (c.bump.string).map fun (s, c) => (.string s, c)
      else if ch = '[' then
        if depth ≤ 1 then .error (c.ahead .depthExceeded)
        else (elements fuel (depth - 1) [] true c.bump).map fun (vs, c) => (.array vs, c)
      else if ch = '{' then
        if depth ≤ 1 then .error (c.ahead .depthExceeded)
        else (members fuel (depth - 1) [] true c.bump).map fun (fs, c) => (.object fs, c)
      else .error (c.ahead .expectedValue)

/-- Reads array elements up to and including the closing bracket. -/
def elements : Nat → Nat → List Value → Bool → Cursor → Except Failure (List Value × Cursor)
  | 0, _, _, _, c => .error (c.here .eofInList)
  | fuel + 1, depth, acc, first, c =>
    let c := c.blank
    match c.rest with
    | [] => .error (c.ahead .eofInList)
    | ch :: _ =>
      if ch = ']' then .ok (acc.reverse, c.bump)
      else if first then
        match value fuel depth c with
        | .ok (v, c) => elements fuel depth (v :: acc) false c
        | .error f => .error f
      else if ch = ',' then
        let c := c.bump.blank
        match c.rest with
        | [] => .error (c.ahead .eofInValue)
        | ']' :: _ => .error (c.ahead .trailingComma)
        | _ :: _ =>
          match value fuel depth c with
          | .ok (v, c) => elements fuel depth (v :: acc) false c
          | .error f => .error f
      else .error (c.ahead .expectedListCommaOrEnd)

/-- Reads object members up to and including the closing brace. -/
def members : Nat → Nat → List (String × Value) → Bool → Cursor →
    Except Failure (List (String × Value) × Cursor)
  | 0, _, _, _, c => .error (c.here .eofInObject)
  | fuel + 1, depth, acc, first, c =>
    let c := c.blank
    match c.rest with
    | [] => .error (c.ahead .eofInObject)
    | ch :: _ =>
      if ch = '}' then .ok (acc, c.bump)
      else if first then
        if ch = '"' then member fuel depth acc c
        else .error (c.ahead .keyNotString)
      else if ch = ',' then
        let c := c.bump.blank
        match c.rest with
        | [] => .error (c.ahead .eofInValue)
        | '"' :: _ => member fuel depth acc c
        | '}' :: _ => .error (c.ahead .trailingComma)
        | _ :: _ => .error (c.ahead .keyNotString)
      else .error (c.ahead .expectedObjectCommaOrEnd)

/-- Reads one member, the cursor on its key's opening quote, and the members after it. -/
def member : Nat → Nat → List (String × Value) → Cursor →
    Except Failure (List (String × Value) × Cursor)
  | 0, _, _, c => .error (c.here .eofInObject)
  | fuel + 1, depth, acc, c =>
    match c.bump.string with
    | .error f => .error f
    | .ok (key, c) =>
      match c.colon with
      | .error f => .error f
      | .ok c =>
        match value fuel depth c with
        | .ok (v, c) => members fuel depth (Fields.insert acc key v) false c
        | .error f => .error f

end

end Cursor

/-- The nesting allowed to arrays and objects, plus one. -/
def depthLimit : Nat := 128

end SchemaModel.Json

namespace SchemaModel

open Json

/-- Reads a text holding exactly one JSON value. -/
def Value.readAt (text : String) : Except Failure Value :=
  let c := Cursor.start text
  match Cursor.value (2 * c.rest.length + 8) depthLimit c with
  | .error f => .error f
  | .ok (v, c) =>
    let c := c.blank
    if c.rest.isEmpty then .ok v else .error (c.ahead .trailingCharacters)

/-- Reads a text holding exactly one JSON value, placing a fault at its line and column. -/
def Value.read (text : String) : Except ReadError Value :=
  (Value.readAt text).mapError (·.locate text.toList)

end SchemaModel

import SchemaModel.Json.Value
import SchemaModel.Text.Percent
import SchemaModel.Error
/-!
# Paths into a document

A path such as `#/definitions/a%20b/items/0` names a node of a JSON tree. It is cut at every
`#`, `/` and `.`, empty pieces are dropped, and each piece is percent-decoded into a segment.
A piece that cannot be decoded is kept as written under the lenient policy and refused under
the strict one. The segments are then walked from the root: an object is entered at the key, an
array at the index the segment spells (decimal digits, an optional leading `+`, below `2^64`).
-/

namespace SchemaModel

/-- What happens to a path piece that cannot be percent-decoded. -/
inductive DecodePolicy where
  /-- The piece is used as written. -/
  | lenient
  /-- The path is refused. -/
  | strict
  deriving DecidableEq, Repr, Inhabited

namespace Pointer

/-- The characters that cut a path into pieces. -/
def isSeparator (c : Char) : Bool := c = '#' || c = '/' || c = '.'

/-- The non-empty runs of non-separators; `cur` is the current run, reversed. -/
def piecesFrom : List Char → List Char → List String
  | [], cur => if cur.isEmpty then [] else [String.ofList cur.reverse]
  | c :: rest, cur =>
    if isSeparator c then
      if cur.isEmpty then piecesFrom rest [] else String.ofList cur.reverse :: piecesFrom rest []
    else piecesFrom rest (c :: cur)

/-- The pieces of a path, before decoding. -/
def pieces (path : String) : List String := piecesFrom path.toList []

/-- The segment a piece stands for. -/
def decodePiece (enc : Encoding) (policy : DecodePolicy) (raw : String) :
    Except ResolutionError String :=
  match Percent.decode? .hex enc raw, policy with
  | some s, _ => .ok s
  | none, .lenient => .ok raw
  | none, .strict => .error (.undecodableSegment raw enc.name)

/-- The decoded segments of a path; the first piece that is refused stops it. -/
def segments (enc : Encoding) (policy : DecodePolicy) (path : String) :
    Except ResolutionError (List String) :=
  (pieces path).mapM (decodePiece enc policy)

/-- The value of a string of decimal digits, if it has at least one and nothing else. -/
def digitsValue? : List Char → Option Nat
  | [] => none
  | cs =>
    if cs.all Char.isDigit then some (cs.foldl (fun n c => 10 * n + (c.toNat - '0'.toNat)) 0)
    else none

/-- The array index a segment spells: digits with an optional leading `+`, below `2^64`. -/
def index? (segment : String) : Option Nat :=
  let digits := match segment.toList with
    | '+' :: rest => rest
    | cs => cs
  match digitsValue? digits with
  | some n => if n < Nat.pow 2 64 then some n else none
  | none => none

/-- The child of a node at one segment. -/
def step (node : Value) (segment : String) : Except ResolutionError Value :=
  match node with
  | .array items =>
    match index? segment with
    | some i =>
      match items[i]? with
      | some v => .ok v
      | none => .error (.invalidIndex segment)
    | none => .error (.invalidIndex segment)
  | .object fields =>
    match fields.lookup segment with
    | some v => .ok v
    | none => .error (.pathNotPresent segment)
  | _ => .error (.pathNotPresent segment)

/-- The node reached by walking decoded segments from a tree's root. -/
def walk : Value → List String → Except ResolutionError Value
  | node, [] => .ok node
  | node, s :: rest =>
    match step node s with
    | .ok child => walk child rest
    | .error e => .error e

/-- The node a path names in a tree. -/
def resolve (enc : Encoding) (policy : DecodePolicy) (tree : Value) (path : String) :
    Except ResolutionError Value := do
  walk tree (← segments enc policy path)

end Pointer

end SchemaModel

import SchemaModel.Error
import SchemaModel.Model.Type
import SchemaModel.Text.Upper
/-!
# Identifiers from schema names

How the names in a schema become identifiers of generated code. Every character outside
`[0-9A-Za-z_$]` becomes `_`; the word delimiters of the settings are then dropped, and a
character after a delimiter is upper-cased unless it starts the name. A property name starts in
lower case (unless its second character is upper case, as in `URL`), a class name in upper case;
a name starting with a digit gets a leading `_`. Accessors and builders prefix the capitalised
property name with `get`/`is`, `set` and `with`.
-/

namespace SchemaModel

/-- The settings that naming reads: the word delimiters and the reserved words. -/
structure Naming where
  delimiters : List Char
  reserved : List String
  deriving Inhabited

namespace Naming

/-- Whether a character may stand in an identifier: an ASCII letter or digit, `_` or `$`. -/
def isIdentChar (c : Char) : Bool :=
  c.isAlphanum || c = '_' || c = '$'

/-- Every character that may not stand in an identifier becomes `_`. -/
def replaceIllegal (s : String) : String :=
  String.ofList (s.toList.map fun c => if isIdentChar c then c else '_')

/-- Drops delimiters and upper-cases each character that follows one, except at the start. -/
def joinWords (delims : List Char) : List Char → Bool → Bool → List Char
  | [], _, _ => []
  | c :: rest, atStart, afterDelim =>
    if c ∈ delims then joinWords delims rest false true
    else if !atStart && afterDelim then Upper.upper c ++ joinWords delims rest false false
    else c :: joinWords delims rest false false

/-- Drops the word delimiters and upper-cases the first character of every word after the
first; a name without delimiters is kept as it is. -/
def capitalizeWords (n : Naming) (s : String) : String :=
  if s.toList.any (· ∈ n.delimiters) then String.ofList (joinWords n.delimiters s.toList true false)
  else s

/-- The first character upper-cased. -/
def capitalize (s : String) : String :=
  match s.toList with
  | [] => ""
  | c :: rest => String.ofList (Upper.upper c ++ rest)

/-- The first character lower-cased, unless the second is upper case. -/
def decapitalize (s : String) : String :=
  match s.toList with
  | [] => ""
  | [c] => String.ofList [c.toLower]
  | c :: d :: rest => if d.isUpper then s else String.ofList (c.toLower :: d :: rest)

/-- A leading `_` before a name that starts with a digit. -/
def guardDigit (s : String) : String :=
  match s.toList with
  | c :: _ => if c.isDigit then "_" ++ s else s
  | [] => s

/-- The identifier of a property; empty and reserved identifiers are refused. -/
def propertyName (n : Naming) (name : String) : Except ConfigurationError String :=
  let id := guardDigit (decapitalize (n.capitalizeWords (replaceIllegal name)))
  if id.isEmpty then .error (.emptyIdentifier name)
  else if id ∈ n.reserved then .error (.reservedIdentifier name id)
  else .ok id

/-- The getter of a property: `is` for a boolean, `get` otherwise. -/
def getterName (n : Naming) (name : String) (ty : MemberType) : Except ConfigurationError String :=
  return (if ty.isBoolean then "is" else "get") ++ capitalize (← n.propertyName name)

/-- The setter of a property. -/
def setterName (n : Naming) (name : String) : Except ConfigurationError String :=
  return "set" ++ capitalize (← n.propertyName name)

/-- The builder method of a member. -/
def builderName (n : Naming) (member : String) : String :=
  "with" ++ capitalize (n.capitalizeWords (replaceIllegal member))

/-- The name of a class; an empty one is `Unnamed`. -/
def className (n : Naming) (hint : String) : String :=
  let name := capitalize (n.capitalizeWords (replaceIllegal hint))
  if name.isEmpty then "Unnamed" else guardDigit name

end Naming

/-- The singular of an English plural: `-ies` becomes `-y`, a final `s` (but not `ss`) goes. -/
def singular (s : String) : String :=
  let cs := s.toList
  if cs.length > 3 ∧ cs.drop (cs.length - 3) = "ies".toList then
    String.ofList (cs.take (cs.length - 3)) ++ "y"
  else if cs.getLast? = some 's' ∧ !(cs.length ≥ 2 ∧ cs.drop (cs.length - 2) = "ss".toList) ∧
      s.utf8ByteSize > 1 then
    String.ofList (cs.take (cs.length - 1))
  else s

end SchemaModel

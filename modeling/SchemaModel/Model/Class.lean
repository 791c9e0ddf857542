import SchemaModel.Model.Type
import SchemaModel.Model.Tag
import SchemaModel.Error
/-!
# Generated classes

A generated class has a name, a package, members in the order they were added, the order in
which a form presents its properties, and the type of any additional properties. A member keeps
the schema name it came from, its identifier, its type, its accessors and builder method, its
position in the class, the schema's default value and its metadata. No two members of a class
share an identifier: adding one whose identifier is taken is refused.
-/

namespace SchemaModel

/-- Whether an accessor reads or writes. -/
inductive AccessorKind where
  | getter
  | setter
  deriving DecidableEq, Repr, Inhabited

/-- A getter or setter of a member. -/
structure Accessor where
  kind : AccessorKind
  name : String
  doc : String
  tags : TagSet
  deriving Inhabited

/-- A builder method that sets a member and returns the builder. -/
structure Builder where
  name : String
  parameter : MemberType
  returns : String
  deriving Inhabited

/-- Whether a member can be seen from outside its class. -/
inductive Visibility where
  /-- Seen from outside. -/
  | exported
  /-- Reached only through accessors. -/
  | internal
  deriving DecidableEq, Repr, Inhabited

/-- A member of a generated class. -/
structure Member where
  sourceName : String
  targetName : String
  type : MemberType
  visibility : Visibility
  immutable : Bool := false
  getter : Option Accessor := none
  setter : Option Accessor := none
  builder : Option Builder := none
  order : Nat := 0
  defaultValue : Option Value := none
  tags : TagSet := .empty
  deriving Inhabited

/-- A generated class. -/
structure ClassModel where
  name : String
  package : String
  members : List Member := []
  presentationOrder : List String := []
  additional : Option MemberType := none
  deriving Inhabited

namespace ClassModel

/-- The name with its package, or the name alone in the empty package. -/
def qualifiedName (c : ClassModel) : String :=
  if c.package.isEmpty then c.name else c.package ++ "." ++ c.name

/-- The member that came from a schema name. -/
def member? (c : ClassModel) (sourceName : String) : Option Member :=
  c.members.find? (·.sourceName == sourceName)

/-- Whether a member has the identifier. -/
def hasMember (c : ClassModel) (targetName : String) : Bool :=
  c.members.any (·.targetName == targetName)

/-- Adds a member at the end, numbering it by its position; a taken identifier is refused. -/
def addMember (c : ClassModel) (m : Member) : Except ConfigurationError ClassModel :=
  if c.hasMember m.targetName then .error (.duplicateMember c.name m.targetName)
  else .ok { c with members := c.members ++ [{ m with order := c.members.length }] }

/-- Changes the member that came from a schema name. -/
def updateMember (c : ClassModel) (sourceName : String) (f : Member → Member) : ClassModel :=
  match c.members.findIdx? (·.sourceName == sourceName) with
  | some i => { c with members := c.members.modify i f }
  | none => c

end ClassModel

/-- The JSON form of an accessor. -/
def Accessor.toValue (a : Accessor) : Value :=
  .object [("kind", .string (match a.kind with | .getter => "getter" | .setter => "setter")),
    ("name", .string a.name), ("doc", .string a.doc), ("metadata", a.tags.toValue)]

/-- The JSON form of a builder method. -/
def Builder.toValue (b : Builder) : Value :=
  .object [("name", .string b.name), ("parameter", b.parameter.toValue),
    ("returns", .string b.returns)]

/-- The JSON form of a member. -/
def Member.toValue (m : Member) : Value :=
  .object [("source_name", .string m.sourceName), ("target_name", .string m.targetName),
    ("type", m.type.toValue),
    ("visibility", .string (match m.visibility with | .exported => "public" | .internal => "private")),
    ("immutable", .bool m.immutable),
    ("getter", (m.getter.map Accessor.toValue).getD .null),
    ("setter", (m.setter.map Accessor.toValue).getD .null),
    ("builder", (m.builder.map Builder.toValue).getD .null),
    ("order", .number (.natural m.order)),
    ("default_value", m.defaultValue.getD .null),
    ("metadata", m.tags.toValue)]

/-- The JSON form of a class. -/
def ClassModel.toValue (c : ClassModel) : Value :=
  .object [("name", .string c.name), ("package", .string c.package),
    ("properties", .array (c.members.map Member.toValue)),
    ("presentation_order", .array (c.presentationOrder.map .string)),
    ("additional_properties", (c.additional.map MemberType.toValue).getD .null)]

end SchemaModel

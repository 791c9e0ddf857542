import SchemaModel.Compile.Lower
import SchemaModel.Compile.Constraint
/-!
# Compiling a member

A property of a class schema becomes a member. Its identifier comes from the property name and
must be new in the class; its type is the lowered property schema. The property schema is then
followed through its `$ref`s (its own, or else its `items`' one) to the schema that describes the
value, whose title, description and `required` flag tag the member and its accessors, whose
form keywords the annotator reads, and whose constraints become tags. With accessors the member
is private and gets a getter and a setter documented by the description (or `The {name}`);
without, it is public. A builder method is added when the settings ask for builders.
-/

namespace SchemaModel

namespace Session

/-- Follows references from `node`, each read relative to the schema the previous one reached;
`visited` holds the schemas reached, and reaching one twice is a cyclic reference. -/
def chase : Nat → Value → Nat → List Nat → StoreM Value
  | 0, node, _, _ => pure node
  | fuel + 1, node, context, visited => do
    match Keyword.indirectionOf node with
    | none => pure node
    | some ref =>
      let target ← Store.create context ref
      let sc ← Store.schema target
      if target ∈ visited then throw (.cyclicReference sc.reference)
      chase fuel sc.content target (target :: visited)

/-- The schema that describes a property's value: `node` followed through its references. -/
def resolveRefs (node : Value) (enclosing : Nat) : CompileM Value := do
  let (targets, _) := (← get).reach node
  liftStore (chase (targets + 2) node enclosing [])

end Session

namespace Compiler

/-- The tags a member and its accessors share: title, description and a `required` flag. -/
def coreTags (node : Value) : TagSet :=
  let title := (Keyword.nonEmptyText node "title").map Tag.title
  let description := (Keyword.nonEmptyText node "description").map Tag.description
  let required := match node.get? "required" with
    | some (.bool b) => some (Tag.required b)
    | _ => none
  TagSet.empty.insertAll ([title, description, required].filterMap id)

/-- Adds the member of property `name` with schema `node` to a class of schema `enclosing`. -/
def compileMember (c : Compiler) (name : String) (node : Value) (cls : ClassModel)
    (enclosing : Nat) : CompileM ClassModel := do
  let naming := c.naming
  let target ← Session.liftNaming (naming.propertyName name)
  if cls.hasMember target then throw (.configuration (.duplicateMember cls.name target))
  let ty ← Session.typeFor naming name node enclosing
  let resolved ← Session.resolveRefs node enclosing
  let core := coreTags resolved
  let member : Member := {
    sourceName := name, targetName := target, type := ty,
    visibility := if c.settings.includeAccessors then .internal else .exported,
    immutable := name == Keyword.localId,
    tags := c.annotator.annotate core resolved }
  let member ← if c.settings.includeAccessors then do
      let doc := (Keyword.nonEmptyText resolved "description").getD ("The " ++ name)
      let getter ← Session.liftNaming (naming.getterName name ty)
      let setter ← Session.liftNaming (naming.setterName name)
      pure { member with getter := some ⟨.getter, getter, doc, core⟩,
                         setter := some ⟨.setter, setter, doc, core⟩ }
    else pure member
  let member := if c.settings.generateBuilders then
      { member with builder := some ⟨naming.builderName target, ty, cls.name⟩ }
    else member
  let member := Constraint.apply c.settings member resolved
  Session.liftNaming (cls.addMember member)

end Compiler

end SchemaModel

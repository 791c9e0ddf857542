import SchemaModel.Compile.Session
import SchemaModel.Keyword
/-!
# The member type of a schema node

A schema node becomes a member type by its declared type. A `$ref` is followed to its target: a
target already bound to a class gives that class, a target met again on the same walk is a cyclic
reference, and any other target is lowered in its place, named after the last segment of its
path (or its document's stem) and bound to the class it may become. An object schema, or a schema
with `properties` and no declared type, becomes a new class named by its `title` or the name at
hand; one with no `properties` whose `additionalProperties` is an object becomes a map of that
schema instead. An array becomes a collection of its object `items`, named by the singular of the
name at hand, or of `any`. The scalar types name primitives, and anything else is `any`.
-/

namespace SchemaModel

namespace Session

/-- The member type of a node; `trail` holds the `$ref` targets followed on this walk, and
`identity` the target whose content the node is. `fuel` bounds the walk. -/
def lower (naming : Naming) : Nat → String → Value → Nat → Option Nat → List Nat →
    CompileM MemberType
  | 0, _, _, context, _, _ => do
    let sc ← liftStore (Store.schema context)
    throw (.resolution (.cyclicReference sc.reference))
  | fuel + 1, hint, node, context, identity, trail => do
    match Keyword.refOf node with
    | some ref =>
      let target ← liftStore (Store.create context ref)
      match (← get).registry.bound target with
      | some name => pure (.reference name)
      | none =>
        let sc ← liftStore (Store.schema target)
        if target ∈ trail then throw (.resolution (.cyclicReference sc.reference))
        let hint := sc.reference.fragment.getLast?.getD (Document.stem sc.reference.document)
        lower naming fuel hint sc.content target (some target) (target :: trail)
    | none =>
      let declared := Keyword.declaredType node
      let objectLike := declared == some "object" || (declared.isNone && (node.get? "properties").isSome)
      if objectLike then
        match node.get? "properties", node.get? "additionalProperties" with
        | none, some values@(.object _) =>
          return .map (← lower naming fuel (hint ++ "Property") values context none trail)
        | _, _ =>
          let preferred := (Keyword.nonEmptyText node "title").getD hint
          return .reference (← schedule (naming.className preferred) node context identity)
      else if declared == some "array" then
        match node.get? "items" with
        | some items@(.object _) =>
          return .collection (← lower naming fuel (singular hint) items context none trail)
        | _ => pure (.collection .any)
      else
        match declared with
        | some t =>
          if t ∈ ["string", "integer", "number", "boolean"] then pure (.primitive t) else pure .any
        | none => pure .any

/-- The member type of a node found under the name `hint` in the schema `enclosing`. -/
def typeFor (naming : Naming) (hint : String) (node : Value) (enclosing : Nat) :
    CompileM MemberType := do
  let (targets, deepest) := (← get).reach node
  lower naming ((targets + 1) * (deepest + 2) + 1) hint node enclosing none []

end Session

end SchemaModel

import SchemaModel.Compile.Member
/-!
# Compiling classes and documents

A queued class is compiled from its schema node: each property becomes a member, in document
order, and an error is placed at the property where it arose; the names in `required` mark their
members (and accessors) as required; the annotator orders the properties; and
`additionalProperties` gives the type of extra properties: none for `false`, the lowered schema
for an object, `any` otherwise. Compiling a document queues its root class, named by the class
name asked for or else the document's stem, and then compiles queued classes until none is left.
The queue can grow without end, so the run has a budget, and running out of it is an answer of
its own.
-/

namespace SchemaModel

namespace Compiler

/-- Marks the member of a property name as required, and its accessors too. -/
def markRequired (cls : ClassModel) (name : String) : ClassModel :=
  let mark (t : TagSet) : TagSet := (t.erase (.required false)).insert (.required true)
  cls.updateMember name fun m =>
    { m with tags := mark m.tags,
             getter := m.getter.map fun a => { a with tags := mark a.tags },
             setter := m.setter.map fun a => { a with tags := mark a.tags } }

/-- The members of a queued class: one for each property, in document order, with an error placed
at the property where it arose. -/
def compileMembers (c : Compiler) (p : Pending) : CompileM ClassModel :=
  let cls : ClassModel := { name := p.name, package := c.settings.targetPackage }
  match p.node.get? "properties" with
  | some (.object fields) =>
    fields.foldlM (fun cls (name, node) =>
      Session.atMember p.name name (c.compileMember name node cls p.context)) cls
  | _ => pure cls

/-- The type of the additional properties of a queued class: none for `false`, the lowered schema
for an object, `any` otherwise. -/
def additionalType (c : Compiler) (p : Pending) : CompileM (Option MemberType) :=
  match p.node.get? "additionalProperties" with
  | some (.bool false) => pure none
  | some values@(.object _) =>
    some <$> Session.atMember p.name "additionalProperties"
      (Session.typeFor c.naming (p.name ++ "Property") values p.context)
  | _ => pure (some .any)

/-- Compiles a queued class. -/
def compileClass (c : Compiler) (p : Pending) : CompileM ClassModel := do
  let cls ← c.compileMembers p
  let cls := match p.node.get? "required" with
    | some (.array names) => (names.filterMap Value.asString?).foldl markRequired cls
    | _ => cls
  let cls := match p.node.get? "properties" with
    | some props => { cls with presentationOrder := c.annotator.propertyOrder props }
    | none => cls
  let additional ← c.additionalType p
  pure { cls with additional }

/-- Compiles queued classes, at most `budget` of them; `none` when classes are still queued once
the budget is spent. -/
def drain (c : Compiler) : Nat → List ClassModel → CompileM (Option (List ClassModel))
  | 0, _ => pure none
  | budget + 1, done => do
    match ← Session.next with
    | none => pure (some done.reverse)
    | some p =>
      let cls ← c.compileClass p
      c.drain budget (cls :: done)

/-- The budget of a document's compilation: two to the number of values in the source. A class
queues at most one copy of an inline class per property, and each further level of copies costs
the source several values of its own (a property, its reference and the array it leads to), so a
compilation that drains its queue compiles far fewer classes than this. -/
def budget (sess : Session) : Nat :=
  Nat.pow 2 ((sess.store.source.trees.map Value.size).foldl (· + ·) 0)

/-- Compiles a document and every class it leads to, the root class first. -/
def compileDocument (c : Compiler) (doc : String) (className : Option String) :
    CompileM (Option (List ClassModel)) := do
  let root ← Session.liftStore (Store.root doc)
  let name := c.naming.className (className.getD (Document.stem doc))
  let node := (← Session.liftStore (Store.schema root)).content
  let _ ← Session.schedule name node root (some root)
  c.drain (budget (← get)) []

end Compiler

/-- Compiles a single schema tree as the document `{className}.json`. -/
def compileValue (tree : Value) (className : String) (settings : Settings) :
    Except CompileError (Option (List ClassModel)) := do
  let c := Compiler.ofSettings settings
  let doc := className ++ ".json"
  match c.session (.ofDocuments [(doc, tree)]) with
  | .error e => throw (.configuration e)
  | .ok sess => ((c.compileDocument doc (some className)).run.run sess).1

end SchemaModel

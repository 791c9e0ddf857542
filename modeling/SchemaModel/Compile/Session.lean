import SchemaModel.Store.Basic
import SchemaModel.Registry
import SchemaModel.Settings.Basic
/-!
# Compilation sessions

A session is the store of schemas reached and the registry of classes found, shared by every
step of a compilation. Steps run in `CompileM`: a step may fail, and what it changed in the
session before failing stays changed. A compiler is the settings and the annotator a compilation
runs with.
-/

namespace SchemaModel

/-- The schemas reached and the classes found by a compilation. -/
structure Session where
  store : Store
  registry : Registry := {}
  deriving Inhabited

/-- Steps of a compilation. -/
abbrev CompileM := ExceptT CompileError (StateM Session)

/-- The settings and the annotator of a compilation. -/
structure Compiler where
  settings : Settings
  annotator : Annotator
  deriving Inhabited

namespace Compiler

/-- The compiler of some settings, with the annotator they ask for. -/
def ofSettings (s : Settings) : Compiler := ⟨s, s.annotatorOf⟩

/-- The naming rules of the compiler's settings. -/
def naming (c : Compiler) : Naming := c.settings.naming

/-- A fresh session over a source; an unknown fragment encoding is refused. -/
def session (c : Compiler) (source : Source) : Except ConfigurationError Session := do
  let enc ← c.settings.encoding
  pure ⟨Store.empty source enc c.settings.decodePolicy, {}⟩

end Compiler

namespace Session

/-- Runs a store operation on the session's store. -/
def liftStore {α : Type} (m : StoreM α) : CompileM α := do
  let sess ← get
  let (r, store) := (m.run).run sess.store
  set { sess with store := store }
  match r with
  | .ok a => pure a
  | .error e => throw (.resolution e)

/-- Fails with a configuration error, or goes on with the value. -/
def liftNaming {α : Type} : Except ConfigurationError α → CompileM α
  | .ok a => pure a
  | .error e => throw (.configuration e)

/-- Places any error of `m` at a member of a class. -/
def atMember {α : Type} (className member : String) (m : CompileM α) : CompileM α :=
  tryCatch m fun e => throw (e.placeAt className member)

/-- Queues a class in the registry and gives its unique name. -/
def schedule (name : String) (node : Value) (context : Nat) (identity : Option Nat) :
    CompileM String :=
  modifyGet fun sess =>
    let (u, registry) := sess.registry.schedule name node context identity
    (u, { sess with registry := registry })

/-- Takes the class that has waited longest. -/
def next : CompileM (Option Pending) :=
  modifyGet fun sess =>
    let (p, registry) := sess.registry.next
    (p, { sess with registry := registry })

/-- A bound on the distinct schemas and the nesting a walk from `node` can meet: the documents of
the source times the texts that could be references, and the largest tree. -/
def reach (sess : Session) (node : Value) : Nat × Nat :=
  let trees := sess.store.source.trees
  let docs := sess.store.source.entries.length + 1
  let texts := node.textCount + (trees.map Value.textCount).foldl (· + ·) 0 + 1
  let deepest := (trees.map Value.size).foldl max node.size
  (docs * texts, deepest)

end Session

end SchemaModel

import SchemaModel.Pointer
import SchemaModel.Document
/-!
# The schema store

A store holds every schema a compilation has reached, numbered from zero in the order they were
first reached. A schema is a reference (a document and a decoded path into it), the node the
reference designates, and the schema whose `$ref` led to it. Reaching a reference a second time
gives the number it got the first time. Documents are taken from a source the first time they are
needed and kept from then on, even if the path into them turns out to be wrong.
-/

namespace SchemaModel

/-- Where documents come from: each known document name with its tree, or with the reason it
cannot be had. A name the source does not know is a document that is not found. -/
structure Source where
  entries : List (String × Except ResolutionError Value)
  deriving Inhabited

namespace Source

/-- A source of documents held in memory. -/
def ofDocuments (docs : List (String × Value)) : Source := ⟨docs.map fun (n, v) => (n, .ok v)⟩

/-- The tree of a document. -/
def fetch (src : Source) (doc : String) : Except ResolutionError Value :=
  match src.entries.lookup doc with
  | some r => r
  | none => .error (.documentNotFound doc)

/-- The trees the source holds. -/
def trees (src : Source) : List Value :=
  src.entries.filterMap fun (_, r) => match r with
    | .ok v => some v
    | .error _ => none

end Source

/-- A schema reached by a compilation. -/
structure Schema where
  reference : Reference
  content : Value
  parent : Option Nat
  deriving Inhabited

/-- The schemas reached so far, with the documents loaded to reach them. -/
structure Store where
  source : Source
  encoding : Encoding
  policy : DecodePolicy
  documents : List (String × Value) := []
  schemas : List Schema := []
  deriving Inhabited

/-- Store operations: they may fail, and keep what they changed before failing. -/
abbrev StoreM := ExceptT ResolutionError (StateM Store)

namespace Store

/-- An empty store over a source. -/
def empty (source : Source) (encoding : Encoding) (policy : DecodePolicy) : Store :=
  ⟨source, encoding, policy, [], []⟩

/-- The number of schemas. -/
def size (s : Store) : Nat := s.schemas.length

/-- The number of documents loaded. -/
def documentCount (s : Store) : Nat := s.documents.length

/-- The schema with a number. -/
def get? (s : Store) (id : Nat) : Option Schema := s.schemas[id]?

/-- The number of the schema with a reference. -/
def lookup (s : Store) (r : Reference) : Option Nat := s.schemas.findIdx? (·.reference == r)

/-- The schema whose reference led to a schema. -/
def parentOf? (s : Store) (id : Nat) : Option Schema :=
  (s.get? id).bind fun sc => sc.parent.bind s.get?

/-- The tree of a document, loaded from the source the first time. -/
def load (doc : String) : StoreM Value := do
  match (← get).documents.lookup doc with
  | some v => pure v
  | none =>
    let v ← MonadExcept.ofExcept ((← get).source.fetch doc)
    modify fun s => { s with documents := s.documents ++ [(doc, v)] }
    pure v

/-- The number of the schema a reference designates, adding the schema when it is new. -/
def intern (r : Reference) (parent : Option Nat) : StoreM Nat := do
  match (← get).lookup r with
  | some id => pure id
  | none =>
    let tree ← load r.document
    let content ← MonadExcept.ofExcept (Pointer.walk tree r.fragment)
    let id := (← get).size
    modify fun s => { s with schemas := s.schemas ++ [⟨r, content, parent⟩] }
    pure id

/-- The schema of a whole document. -/
def root (doc : String) : StoreM Nat := intern ⟨doc, []⟩ none

/-- The document part and the fragment part of a reference text, cut at its first `#`. -/
def splitRef (ref : String) : String × String :=
  let cs := ref.toList
  (String.ofList (cs.takeWhile (· ≠ '#')), String.ofList (cs.dropWhile (· ≠ '#')))

/-- The schema a reference text designates, read relative to the schema `parent`. -/
def create (parent : Nat) (ref : String) : StoreM Nat := do
  let s ← get
  let (locator, fragment) := splitRef ref
  let base := ((s.get? parent).map (·.reference.document)).getD ""
  let document := if locator.isEmpty then base else Document.join base locator
  let segments ← MonadExcept.ofExcept (Pointer.segments s.encoding s.policy fragment)
  intern ⟨document, segments⟩ (some parent)

/-- The schema with a number; a number the store does not hold reads as the first schema. -/
def schema (id : Nat) : StoreM Schema := do
  return ((← get).get? id).getD default

end Store

end SchemaModel

/-!
# Errors

Why a reference cannot be resolved, why a setting or a name is refused, and how an error met
while compiling one member of a class names that member. Each error carries the data its
message needs; `message` gives the wording.
-/

namespace SchemaModel

/-- A document together with the decoded path to a node of it. -/
structure Reference where
  document : String
  fragment : List String
  deriving DecidableEq, Repr, Inhabited

/-- How a reference is written: `{document}#/{segments joined by /}`. -/
def Reference.text (r : Reference) : String :=
  r.document ++ "#/" ++ "/".intercalate r.fragment

/-- Why the node a reference designates cannot be found. -/
inductive ResolutionError where
  | pathNotPresent (segment : String)
  | invalidIndex (segment : String)
  | cyclicReference (reference : Reference)
  | undecodableSegment (segment : String) (encoding : String)
  | documentNotFound (document : String)
  | documentLoad (document : String) (reason : String)
  deriving Repr, Inhabited, DecidableEq

/-- The wording of a resolution error. -/
def ResolutionError.message : ResolutionError → String
  | .pathNotPresent s => s!"path not present: {s}"
  | .invalidIndex s => s!"not a valid array index: {s}"
  | .cyclicReference r => s!"cyclic reference: {r.text} is already on the resolution path"
  | .undecodableSegment s e => "could not decode path segment `" ++ s ++ "` from " ++ e
  | .documentNotFound d => s!"document not found: {d}"
  | .documentLoad d reason => s!"failed to load document {d}: {reason}"

/-- Why a name, a member or a setting is refused. -/
inductive ConfigurationError where
  | emptyIdentifier (property : String)
  | reservedIdentifier (property : String) (identifier : String)
  | duplicateMember (className : String) (name : String)
  | unsupportedEncoding (encoding : String)
  | invalid (path : String) (reason : String)
  deriving Repr, Inhabited, DecidableEq

/-- The wording of a configuration error. -/
def ConfigurationError.message : ConfigurationError → String
  | .emptyIdentifier p => "property `" ++ p ++ "` produces an empty identifier"
  | .reservedIdentifier p i =>
    "property `" ++ p ++ "` produces the reserved identifier `" ++ i ++ "`"
  | .duplicateMember c n => "class `" ++ c ++ "` already has a member named `" ++ n ++ "`"
  | .unsupportedEncoding e => s!"unsupported character encoding: {e}"
  | .invalid p reason => s!"invalid configuration {p}: {reason}"

/-- An error of compiling schemas: a resolution or configuration error, possibly placed at the
member of a class where it arose. -/
inductive CompileError where
  | resolution (e : ResolutionError)
  | configuration (e : ConfigurationError)
  | inMember (className : String) (member : String) (e : CompileError)
  deriving Repr, Inhabited, DecidableEq

namespace CompileError

/-- The wording: a placed error is prefixed `{Class}.{member}: `. -/
def message : CompileError → String
  | .resolution e => e.message
  | .configuration e => e.message
  | .inMember c m e => s!"{c}.{m}: {e.message}"

/-- Places an error at a member, unless it is placed already: the innermost place is kept. -/
def placeAt (e : CompileError) (className member : String) : CompileError :=
  match e with
  | .inMember .. => e
  | _ => .inMember className member e

/-- The error without its place. -/
def cause : CompileError → CompileError
  | .inMember _ _ e => e.cause
  | e => e

/-- The chain of messages from the outermost error to its cause, as a command line reports
them. -/
def chain : CompileError → List String
  | .inMember c m e => s!"{c}.{m}: {e.message}" :: e.chain
  | e => [e.message]

end CompileError

instance : Coe ResolutionError CompileError := ⟨.resolution⟩
instance : Coe ConfigurationError CompileError := ⟨.configuration⟩

end SchemaModel

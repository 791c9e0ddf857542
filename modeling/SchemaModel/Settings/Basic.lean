import SchemaModel.Naming
import SchemaModel.Annotator
import SchemaModel.Pointer
import SchemaModel.Json.Value
/-!
# Generation settings

What a compilation can be told: whether members get accessors and builders, whether schema
constraints become metadata, the package of generated classes, the word delimiters and reserved
words of naming, how reference fragments are decoded, the default presentation order and which
annotator to use. Every setting has a default, and the defaults are what a compilation without
settings uses.
-/

namespace SchemaModel

/-- Which annotator the settings ask for. -/
inductive AnnotatorChoice where
  | none
  | formEditor
  deriving DecidableEq, Repr, Inhabited

/-- The words no generated identifier may be: the keywords and literals of the target language. -/
def reservedWords : List String :=
  ["abstract", "assert", "boolean", "break", "byte", "case", "catch", "char", "class", "const",
    "continue", "default", "do", "double", "else", "enum", "extends", "false", "final",
    "finally", "float", "for", "goto", "if", "implements", "import", "instanceof", "int",
    "interface", "long", "native", "new", "null", "package", "private", "protected", "public",
    "return", "short", "static", "strictfp", "super", "switch", "synchronized", "this", "throw",
    "throws", "transient", "true", "try", "void", "volatile", "while"]

/-- The settings of a compilation. -/
structure Settings where
  includeAccessors : Bool := true
  generateBuilders : Bool := false
  includeConstraints : Bool := true
  targetPackage : String := ""
  wordDelimiters : String := "- _"
  reservedIdentifiers : List String := reservedWords
  refEncoding : String := "UTF-8"
  decodePolicy : DecodePolicy := .lenient
  defaultPropertyOrder : Int := defaultPropertyOrder
  annotator : AnnotatorChoice := .formEditor
  deriving Repr, Inhabited

namespace Settings

/-- The naming rules the settings give. -/
def naming (s : Settings) : Naming := ⟨s.wordDelimiters.toList, s.reservedIdentifiers⟩

/-- The encoding of reference fragments, refused when its name is unknown. -/
def encoding (s : Settings) : Except ConfigurationError Encoding :=
  match Encoding.ofName? s.refEncoding with
  | some e => .ok e
  | none => .error (.unsupportedEncoding s.refEncoding)

/-- The annotator the settings ask for. -/
def annotatorOf (s : Settings) : Annotator :=
  match s.annotator with
  | .none => .none
  | .formEditor => .formEditor s.defaultPropertyOrder

/-- The name of a decode policy in settings. -/
def policyName : DecodePolicy → String
  | .lenient => "lenient"
  | .strict => "strict"

/-- The name of an annotator choice in settings. -/
def annotatorName : AnnotatorChoice → String
  | .none => "none"
  | .formEditor => "json_editor"

/-- The JSON form of the settings, under their setting names. -/
def toValue (s : Settings) : Value :=
  .object [
    ("include_accessors", .bool s.includeAccessors),
    ("generate_builders", .bool s.generateBuilders),
    ("include_constraints", .bool s.includeConstraints),
    ("target_package", .string s.targetPackage),
    ("property_word_delimiters", .string s.wordDelimiters),
    ("reserved_identifiers", .array (s.reservedIdentifiers.map .string)),
    ("ref_encoding", .string s.refEncoding),
    ("decode_policy", .string (policyName s.decodePolicy)),
    ("default_property_order",
      .number (if s.defaultPropertyOrder < 0 then .negative s.defaultPropertyOrder
        else .natural s.defaultPropertyOrder.toNat)),
    ("annotator", .string (annotatorName s.annotator))]

end Settings

end SchemaModel

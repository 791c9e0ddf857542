import SchemaModel.Json.Value
/-!
# Member metadata

Tags describe a generated member for a form: its title and description, whether it is required,
how a form shows it, and the constraints its schema declares. A member holds a set of tags,
ordered by kind (in the order of the constructors of `Tag`) and then by value: strings by code
point, `false` before `true`, numbers by size with `-0.0` equal to `0.0`, field kinds in their
declared order. Adding a tag equal to one already present changes nothing.
-/

namespace SchemaModel

/-- How a form field shows a member. -/
inductive FieldKind where
  | text | textarea | number | checkbox | select | radio | date | dateTime | time | email
  | url | password | color | image | file | hidden
  deriving DecidableEq, Repr, Inhabited

namespace FieldKind

/-- Every field kind, in declared order. -/
def all : List FieldKind :=
  [.text, .textarea, .number, .checkbox, .select, .radio, .date, .dateTime, .time, .email, .url,
    .password, .color, .image, .file, .hidden]

/-- The upper-case name of a field kind. -/
def name : FieldKind → String
  | .text => "TEXT"
  | .textarea => "TEXTAREA"
  | .number => "NUMBER"
  | .checkbox => "CHECKBOX"
  | .select => "SELECT"
  | .radio => "RADIO"
  | .date => "DATE"
  | .dateTime => "DATE_TIME"
  | .time => "TIME"
  | .email => "EMAIL"
  | .url => "URL"
  | .password => "PASSWORD"
  | .color => "COLOR"
  | .image => "IMAGE"
  | .file => "FILE"
  | .hidden => "HIDDEN"

/-- The field kind of exactly this name; case matters. -/
def ofName? (s : String) : Option FieldKind := all.find? (·.name == s)

/-- The position in declared order. -/
def rank (k : FieldKind) : Nat := (all.idxOf k)

end FieldKind

/-- A metadata tag of a member or an accessor. -/
inductive Tag where
  | title (text : String)
  | pluralTitle (text : String)
  | description (text : String)
  | required (value : Bool)
  | multiple (value : Bool)
  | fieldKind (kind : FieldKind)
  | hidden (value : Bool)
  | pattern (text : String)
  | minimum (value : Float)
  | maximum (value : Float)
  | minItems (value : Nat)
  | maxItems (value : Nat)
  | minLength (value : Nat)
  | maxLength (value : Nat)
  | valid
  deriving Inhabited

/-- The kinds of tags, in order. -/
inductive TagKind where
  | title | pluralTitle | description | required | multiple | fieldKind | hidden | pattern
  | minimum | maximum | minItems | maxItems | minLength | maxLength | valid
  deriving DecidableEq, Repr, Inhabited

namespace TagKind

/-- Every kind, in order. -/
def all : List TagKind :=
  [.title, .pluralTitle, .description, .required, .multiple, .fieldKind, .hidden, .pattern,
    .minimum, .maximum, .minItems, .maxItems, .minLength, .maxLength, .valid]

/-- The name of a kind. -/
def name : TagKind → String
  | .title => "title"
  | .pluralTitle => "plural_title"
  | .description => "description"
  | .required => "required"
  | .multiple => "multiple"
  | .fieldKind => "field_kind"
  | .hidden => "hidden"
  | .pattern => "pattern"
  | .minimum => "minimum"
  | .maximum => "maximum"
  | .minItems => "min_items"
  | .maxItems => "max_items"
  | .minLength => "min_length"
  | .maxLength => "max_length"
  | .valid => "valid"

/-- The position of a kind in order. -/
def rank (k : TagKind) : Nat := all.idxOf k

end TagKind

namespace Tag

/-- The kind of a tag. -/
def kind : Tag → TagKind
  | .title _ => .title
  | .pluralTitle _ => .pluralTitle
  | .description _ => .description
  | .required _ => .required
  | .multiple _ => .multiple
  | .fieldKind _ => .fieldKind
  | .hidden _ => .hidden
  | .pattern _ => .pattern
  | .minimum _ => .minimum
  | .maximum _ => .maximum
  | .minItems _ => .minItems
  | .maxItems _ => .maxItems
  | .minLength _ => .minLength
  | .maxLength _ => .maxLength
  | .valid => .valid

/-- Two doubles in order by size, `-0.0` equal to `0.0`. -/
def compareFloat (a b : Float) : Ordering :=
  if a < b then .lt else if b < a then .gt else .eq

/-- Two flags in order, `false` first. -/
def compareBool (a b : Bool) : Ordering :=
  match a, b with
  | false, true => .lt
  | true, false => .gt
  | _, _ => .eq

/-- The order of tags: by kind, then by value. -/
def compare (a b : Tag) : Ordering :=
  match a, b with
  | .title x, .title y | .pluralTitle x, .pluralTitle y | .description x, .description y
  | .pattern x, .pattern y => Ord.compare x y
  | .required x, .required y | .multiple x, .multiple y | .hidden x, .hidden y => compareBool x y
  | .fieldKind x, .fieldKind y => Ord.compare x.rank y.rank
  | .minimum x, .minimum y | .maximum x, .maximum y => compareFloat x y
  | .minItems x, .minItems y | .maxItems x, .maxItems y | .minLength x, .minLength y
  | .maxLength x, .maxLength y => Ord.compare x y
  | _, _ => Ord.compare a.kind.rank b.kind.rank

end Tag

/-- A set of tags, kept in tag order without two equal tags. -/
structure TagSet where
  tags : List Tag
  deriving Inhabited

namespace TagSet

/-- No tags. -/
def empty : TagSet := ⟨[]⟩

/-- Adds a tag into an ordered list, unless an equal tag is there. -/
def insertInto (t : Tag) : List Tag → List Tag
  | [] => [t]
  | u :: rest =>
    match Tag.compare t u with
    | .lt => t :: u :: rest
    | .eq => u :: rest
    | .gt => u :: insertInto t rest

/-- Adds a tag, unless an equal tag is present. -/
def insert (s : TagSet) (t : Tag) : TagSet := ⟨insertInto t s.tags⟩

/-- Adds every tag of a list, in order. -/
def insertAll (s : TagSet) (ts : List Tag) : TagSet := ts.foldl insert s

/-- Removes the tag equal to `t`, if present. -/
def erase (s : TagSet) (t : Tag) : TagSet :=
  ⟨s.tags.filter fun u => Tag.compare t u != .eq⟩

/-- Whether a tag equal to `t` is present. -/
def contains (s : TagSet) (t : Tag) : Bool :=
  s.tags.any fun u => Tag.compare t u == .eq

/-- The first tag of a kind. -/
def find? (s : TagSet) (k : TagKind) : Option Tag :=
  s.tags.find? (·.kind == k)

/-- The tags of the set whose kind satisfies `p`. -/
def filter (s : TagSet) (p : TagKind → Bool) : TagSet := ⟨s.tags.filter (p ·.kind)⟩

end TagSet

/-- The JSON form of a tag: its kind and, but for `valid`, its value. -/
def Tag.toValue (t : Tag) : Value :=
  let kind := ("kind", Value.string t.kind.name)
  match t with
  | .title s | .pluralTitle s | .description s | .pattern s =>
    .object [kind, ("value", .string s)]
  | .required b | .multiple b | .hidden b => .object [kind, ("value", .bool b)]
  | .fieldKind k => .object [kind, ("value", .string k.name)]
  | .minimum x | .maximum x => .object [kind, ("value", .number (.float x))]
  | .minItems n | .maxItems n | .minLength n | .maxLength n =>
    .object [kind, ("value", .number (.natural n))]
  | .valid => .object [kind]

/-- The JSON form of a tag set: its tags in order. -/
def TagSet.toValue (s : TagSet) : Value := .array (s.tags.map Tag.toValue)

end SchemaModel

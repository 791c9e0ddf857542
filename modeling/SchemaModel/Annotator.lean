import SchemaModel.OrderTable
import SchemaModel.Model.Tag
/-!
# Annotators

An annotator adds form metadata to generated members and decides the order in which a form
presents a class's properties. The form-editor annotator reads the keywords of a form editor
(`title`, `plural_title`, `multiple`, `fieldType`, `options.hidden`, `description`,
`propertyOrder`); the empty annotator adds nothing and orders nothing. A composite runs its parts
in turn for metadata and takes the first non-empty order.
-/

namespace SchemaModel

/-- The default presentation order of a property without `propertyOrder`. -/
def defaultPropertyOrder : Int := 1000

/-- What adds form metadata and presentation order to generated classes. -/
inductive Annotator where
  /-- Adds nothing. -/
  | none
  /-- Reads form-editor keywords; properties without an order get `defaultOrder`. -/
  | formEditor (defaultOrder : Int)
  /-- Runs each part in turn. -/
  | composite (parts : List Annotator)
  deriving Inhabited, Repr

namespace Annotator

/-- The form-editor tags of a property schema, in the order they are added. -/
def formTags (node : Value) : List Tag :=
  let title := (Keyword.nonEmptyText node "title").map Tag.title
  let plural := (Keyword.nonEmptyText node "plural_title").map Tag.pluralTitle
  let multiple := (node.get? "multiple").map (Tag.multiple ∘ Keyword.boolean)
  let kind := (node.get? "fieldType").bind fun v => (FieldKind.ofName? (Keyword.text v)).map Tag.fieldKind
  let hidden := ((node.get? "options").bind (·.get? "hidden")).map (Tag.hidden ∘ Keyword.boolean)
  let description := (Keyword.nonEmptyText node "description").map Tag.description
  [title, plural, multiple, kind, hidden, description].filterMap id

mutual

/-- Adds the annotator's tags for a property schema to a member's tags. -/
def annotate : Annotator → TagSet → Value → TagSet
  | .none, tags, _ => tags
  | .formEditor _, tags, node => tags.insertAll (formTags node)
  | .composite parts, tags, node => annotateAll parts tags node

/-- Runs each annotator in turn. -/
def annotateAll : List Annotator → TagSet → Value → TagSet
  | [], tags, _ => tags
  | a :: rest, tags, node => annotateAll rest (a.annotate tags node) node

end

mutual

/-- The presentation order of a `properties` value. -/
def propertyOrder : Annotator → Value → List String
  | .none, _ => []
  | .formEditor d, props => (OrderTable.ofProperties props d).names
  | .composite parts, props => firstOrder parts props

/-- The first non-empty order of a list of annotators. -/
def firstOrder : List Annotator → Value → List String
  | [], _ => []
  | a :: rest, props =>
    match a.propertyOrder props with
    | [] => firstOrder rest props
    | order => order

end

end Annotator

end SchemaModel

import SchemaModel.Proofs.Members
import SchemaModel.Proofs.RefChains
import Mathlib
/-!
# The graph of classes a document leads to

A compilation queues classes, each a schema node read in a schema of the store, and compiling one
queues more. What a class queues does not depend on when it is compiled: only on its node, the key
of the schema it is read in, and the source. This module says it without running anything.

A reference text read in a document designates a key and the node there (`Source.target?`).
Lowering a node lands on a class of its own read where it stands, on the class of a target (the
root, or a target whose content is a class of its own), on no class, or fails (`Source.Lands`);
resolving a node's references comes to a node without one, or fails (`Source.Resolves`). A class
compiles when each of its properties names an identifier not taken before, lands and resolves
without failing, and so do its additional properties (`Source.ClassLands`); its landings are the
classes it queues.

So the classes form a graph on pairs of a node and a key: a class leads to each inline class it
lands on (`Source.Spawns`) and to the class of each target it lands on (`Source.Leads`).
`Source.Reachable` is what the root of a document leads to, and `Source.OnInlineCycle` holds of a
class that spawns itself again through inline classes alone.
-/

namespace SchemaModel

/-- A node that becomes a class of its own wherever lowering reaches it: it has no `$ref`, and it
is an object with `properties`, or one without map values. -/
def Value.IsClass (node : Value) : Prop := Keyword.refOf node = none ∧ node.makesClass = true

instance : DecidablePred Value.IsClass := fun _ => inferInstanceAs (Decidable (_ ∧ _))

/-- The values of the additional properties of a class schema, when they are an object. -/
def Value.additionalValues? (node : Value) : Option Value :=
  match node.get? "additionalProperties" with
  | some values@(.object _) => some values
  | _ => none

/-- The key a reference text designates when read in the document `base`: the document named
before the first `#`, joined to `base` (or `base` itself when none is named there), and the
decoded segments of the rest. -/
def Reference.ofText (enc : Encoding) (policy : DecodePolicy) (base ref : String) :
    Except ResolutionError Reference :=
  let locator := String.ofList (ref.toList.takeWhile (· ≠ '#'))
  (Pointer.segments enc policy (String.ofList (ref.toList.dropWhile (· ≠ '#')))).map
    fun segs => ⟨if locator.isEmpty then base else Document.join base locator, segs⟩

namespace Source

/-- The node a key designates in the source. -/
def contentAt (src : Source) (key : Reference) : Except ResolutionError Value := do
  Pointer.walk (← src.fetch key.document) key.fragment

/-- Where a reference text read in the document `base` leads: its key, and the node there. -/
def target? (src : Source) (enc : Encoding) (policy : DecodePolicy) (base ref : String) :
    Except ResolutionError (Reference × Value) := do
  let key ← Reference.ofText enc policy base ref
  return (key, ← src.contentAt key)

/-- Where lowering a node ends. -/
inductive Landing where
  /-- A reference that cannot be followed, or a target met again on the same walk. -/
  | fails
  /-- A type that names no class. -/
  | leaf
  /-- A class of the node, read in the schema of the key, and bound to no schema. -/
  | inline (node : Value) (context : Reference)
  /-- The class of the target with the key. -/
  | bound (key : Reference)
  deriving Inhabited

section Walks

variable (src : Source) (enc : Encoding) (policy : DecodePolicy)

/-- Where lowering `node`, read in the schema of key `context` with the targets of `trail` followed
on the way, lands. `root` is the key of the document compiled, whose class exists from the start.
A target that is the root, or whose content is a class of its own, ends the walk at its class; any
other target is followed in its place, unless the walk met it before. Without a `$ref`, a class of
its own ends the walk, and map values or array items are lowered in the node's place. -/
inductive Lands (root : Reference) : Value → Reference → List Reference → Landing → Prop
  | failed {node : Value} {context : Reference} {trail : List Reference} {ref : String}
      {e : ResolutionError} :
      Keyword.refOf node = some ref → src.target? enc policy context.document ref = .error e →
      Lands root node context trail .fails
  | bound {node : Value} {context key : Reference} {trail : List Reference} {ref : String}
      {content : Value} :
      Keyword.refOf node = some ref →
      src.target? enc policy context.document ref = .ok (key, content) →
      key = root ∨ content.IsClass → Lands root node context trail (.bound key)
  | cyclic {node : Value} {context key : Reference} {trail : List Reference} {ref : String}
      {content : Value} :
      Keyword.refOf node = some ref →
      src.target? enc policy context.document ref = .ok (key, content) →
      key ≠ root → ¬ content.IsClass → key ∈ trail → Lands root node context trail .fails
  | follow {node : Value} {context key : Reference} {trail : List Reference} {ref : String}
      {content : Value} {landing : Landing} :
      Keyword.refOf node = some ref →
      src.target? enc policy context.document ref = .ok (key, content) →
      key ≠ root → ¬ content.IsClass → key ∉ trail →
      Lands root content key (key :: trail) landing → Lands root node context trail landing
  | inline {node : Value} {context : Reference} {trail : List Reference} :
      node.IsClass → Lands root node context trail (.inline node context)
  | element {node e : Value} {context : Reference} {trail : List Reference} {landing : Landing} :
      Keyword.refOf node = none → node.makesClass = false → node.element? = some e →
      Lands root e context trail landing → Lands root node context trail landing
  | leaf {node : Value} {context : Reference} {trail : List Reference} :
      Keyword.refOf node = none → node.makesClass = false → node.element? = none →
      Lands root node context trail .leaf

/-- Whether following the references of `node` (its own `$ref`, or else that of its `items`),
read in the schema of key `context` with the targets of `visited` reached before, comes to a node
without one (`true`) or fails (`false`). -/
inductive Resolves : Value → Reference → List Reference → Bool → Prop
  | resolved {node : Value} {context : Reference} {visited : List Reference} :
      Keyword.indirectionOf node = none → Resolves node context visited true
  | failed {node : Value} {context : Reference} {visited : List Reference} {ref : String}
      {e : ResolutionError} :
      Keyword.indirectionOf node = some ref → src.target? enc policy context.document ref = .error e →
      Resolves node context visited false
  | revisited {node : Value} {context key : Reference} {visited : List Reference} {ref : String}
      {content : Value} :
      Keyword.indirectionOf node = some ref →
      src.target? enc policy context.document ref = .ok (key, content) → key ∈ visited →
      Resolves node context visited false
  | hop {node : Value} {context key : Reference} {visited : List Reference} {ref : String}
      {content : Value} {ok : Bool} :
      Keyword.indirectionOf node = some ref →
      src.target? enc policy context.document ref = .ok (key, content) → key ∉ visited →
      Resolves content key (key :: visited) ok → Resolves node context visited ok

variable {src enc policy}

theorem target_congr {o : Option String} {base ref ref' : String}
    {a b : Except ResolutionError (Reference × Value)} (href : o = some ref) (href' : o = some ref')
    (ha : src.target? enc policy base ref = a) (hb : src.target? enc policy base ref' = b) : a = b := by
  rw [href] at href'
  cases href'
  exact ha.symm.trans hb

/-- A walk has one landing: each rule is a function of where the walk stands. -/
theorem Lands.unique {root : Reference} {node : Value} {context : Reference}
    {trail : List Reference} {landing landing' : Landing}
    (hlands : Lands src enc policy root node context trail landing)
    (hlands' : Lands src enc policy root node context trail landing') : landing = landing' := by
  induction hlands generalizing landing' with
  | failed href htarget =>
    cases hlands' with
    | failed => rfl
    | bound href' htarget' | cyclic href' htarget' | follow href' htarget' =>
      cases target_congr href href' htarget htarget'
    | inline hclass => cases href.symm.trans hclass.1
    | element hnoref | leaf hnoref => cases href.symm.trans hnoref
  | bound href htarget hend =>
    cases hlands' with
    | failed href' htarget' => cases target_congr href href' htarget htarget'
    | bound href' htarget' => cases target_congr href href' htarget htarget'; rfl
    | cyclic href' htarget' hroot hclass | follow href' htarget' hroot hclass =>
      cases target_congr href href' htarget htarget'
      exact (hend.elim hroot hclass).elim
    | inline hclass => cases href.symm.trans hclass.1
    | element hnoref | leaf hnoref => cases href.symm.trans hnoref
  | cyclic href htarget hroot hclass hmem =>
    cases hlands' with
    | failed => rfl
    | cyclic => rfl
    | bound href' htarget' hend =>
      cases target_congr href href' htarget htarget'
      exact (hend.elim hroot hclass).elim
    | follow href' htarget' _ _ hnot =>
      cases target_congr href href' htarget htarget'
      exact (hnot hmem).elim
    | inline hclass' => cases href.symm.trans hclass'.1
    | element hnoref | leaf hnoref => cases href.symm.trans hnoref
  | follow href htarget hroot hclass hnot _ ih =>
    cases hlands' with
    | failed href' htarget' => cases target_congr href href' htarget htarget'
    | bound href' htarget' hend =>
      cases target_congr href href' htarget htarget'
      exact (hend.elim hroot hclass).elim
    | cyclic href' htarget' _ _ hmem =>
      cases target_congr href href' htarget htarget'
      exact (hnot hmem).elim
    | follow href' htarget' _ _ _ hrest =>
      cases target_congr href href' htarget htarget'
      exact ih hrest
    | inline hclass' => cases href.symm.trans hclass'.1
    | element hnoref | leaf hnoref => cases href.symm.trans hnoref
  | inline hclass =>
    cases hlands' with
    | failed href | bound href | cyclic href | follow href => cases href.symm.trans hclass.1
    | inline => rfl
    | element _ hmakes | leaf _ hmakes => cases hclass.2.symm.trans hmakes
  | element hnoref hmakes helement _ ih =>
    cases hlands' with
    | failed href | bound href | cyclic href | follow href => cases href.symm.trans hnoref
    | inline hclass => cases hclass.2.symm.trans hmakes
    | element _ _ helement' hrest =>
      cases helement.symm.trans helement'
      exact ih hrest
    | leaf _ _ hnone => cases helement.symm.trans hnone
  | leaf hnoref hmakes hnone =>
    cases hlands' with
    | failed href | bound href | cyclic href | follow href => cases href.symm.trans hnoref
    | inline hclass => cases hclass.2.symm.trans hmakes
    | element _ _ helement => cases hnone.symm.trans helement
    | leaf => rfl

/-- Resolving has one outcome. -/
theorem Resolves.unique {node : Value} {context : Reference} {visited : List Reference}
    {ok ok' : Bool} (hres : Resolves src enc policy node context visited ok)
    (hres' : Resolves src enc policy node context visited ok') : ok = ok' := by
  induction hres generalizing ok' with
  | resolved hnone =>
    cases hres' with
    | resolved => rfl
    | failed href | revisited href | hop href => cases hnone.symm.trans href
  | failed href htarget =>
    cases hres' with
    | resolved hnone => cases href.symm.trans hnone
    | failed => rfl
    | revisited href' htarget' | hop href' htarget' => cases target_congr href href' htarget htarget'
  | revisited href htarget hmem =>
    cases hres' with
    | resolved hnone => cases href.symm.trans hnone
    | failed => rfl
    | revisited => rfl
    | hop href' htarget' hnot =>
      cases target_congr href href' htarget htarget'
      exact (hnot hmem).elim
  | hop href htarget hnot _ ih =>
    cases hres' with
    | resolved hnone => cases href.symm.trans hnone
    | failed href' htarget' => cases target_congr href href' htarget htarget'
    | revisited href' htarget' hmem =>
      cases target_congr href href' htarget htarget'
      exact (hnot hmem).elim
    | hop href' htarget' _ hrest =>
      cases target_congr href href' htarget htarget'
      exact ih hrest

end Walks

section Classes

variable (src : Source) (enc : Encoding) (policy : DecodePolicy)

/-- The landings of the properties `fields` of a class read in the schema of key `context`, after
properties whose identifiers are `taken`: each property's name gives an identifier not taken
before it, its node lands without failing, and its references resolve. -/
inductive PropertiesLand (naming : Naming) (root context : Reference) :
    List String → List (String × Value) → List Landing → Prop
  | nil {taken : List String} : PropertiesLand naming root context taken [] []
  | cons {taken : List String} {name id : String} {node : Value} {fields : List (String × Value)}
      {landing : Landing} {rest : List Landing} :
      naming.propertyName name = .ok id → id ∉ taken →
      Lands src enc policy root node context [] landing → landing ≠ .fails →
      Resolves src enc policy node context [] true →
      PropertiesLand naming root context (taken ++ [id]) fields rest →
      PropertiesLand naming root context taken ((name, node) :: fields) (landing :: rest)

/-- The landing of the additional properties of a class schema: none when they are no object, and
otherwise where their values land, which must not fail. -/
inductive ExtraLands (root context : Reference) : Value → List Landing → Prop
  | none {node : Value} : node.additionalValues? = none → ExtraLands root context node []
  | some {node values : Value} {landing : Landing} :
      node.additionalValues? = some values → Lands src enc policy root values context [] landing →
      landing ≠ .fails → ExtraLands root context node [landing]

/-- Compiling the class of `node`, read in the schema of key `context`, succeeds, and lowering its
properties and then its additional properties lands on `landings`. -/
def ClassLands (naming : Naming) (root : Reference) (node : Value) (context : Reference)
    (landings : List Landing) : Prop :=
  ∃ props extra, PropertiesLand src enc policy naming root context [] (Compiler.propertyFields node)
    props ∧ ExtraLands src enc policy root context node extra ∧ landings = props ++ extra

variable {src enc policy}

theorem PropertiesLand.unique {naming : Naming} {root context : Reference} {taken : List String}
    {fields : List (String × Value)} {landings landings' : List Landing}
    (hprops : PropertiesLand src enc policy naming root context taken fields landings)
    (hprops' : PropertiesLand src enc policy naming root context taken fields landings') :
    landings = landings' := by
  induction hprops generalizing landings' with
  | nil => cases hprops'; rfl
  | cons hname _ hlands _ _ _ ih =>
    cases hprops' with
    | cons hname' _ hlands' _ _ hrest =>
      rw [hname] at hname'
      cases hname'
      rw [hlands.unique hlands', ih hrest]

theorem ExtraLands.unique {root context : Reference} {node : Value}
    {landings landings' : List Landing} (hextra : ExtraLands src enc policy root context node landings)
    (hextra' : ExtraLands src enc policy root context node landings') : landings = landings' := by
  cases hextra with
  | none hnone =>
    cases hextra' with
    | none => rfl
    | some hsome => rw [hnone] at hsome; cases hsome
  | some hsome hlands _ =>
    cases hextra' with
    | none hnone => rw [hnone] at hsome; cases hsome
    | some hsome' hlands' =>
      rw [hsome] at hsome'
      cases hsome'
      rw [hlands.unique hlands']

/-- A class that compiles lands on one list of landings. -/
theorem ClassLands.unique {naming : Naming} {root : Reference} {node : Value} {context : Reference}
    {landings landings' : List Landing} (hclass : ClassLands src enc policy naming root node context landings)
    (hclass' : ClassLands src enc policy naming root node context landings') : landings = landings' := by
  obtain ⟨props, extra, hprops, hextra, rfl⟩ := hclass
  obtain ⟨props', extra', hprops', hextra', rfl⟩ := hclass'
  rw [hprops.unique hprops', hextra.unique hextra']

end Classes

section Graph

variable (src : Source) (enc : Encoding) (policy : DecodePolicy) (naming : Naming)

/-- Compiling the class `p` queues the inline class `q`. -/
def Spawns (root : Reference) (p q : Value × Reference) : Prop :=
  ∃ landings, ClassLands src enc policy naming root p.1 p.2 landings ∧
    Landing.inline q.1 q.2 ∈ landings

/-- Compiling the class `p` queues the class `q`, inline or as the class of a target. -/
def Leads (root : Reference) (p q : Value × Reference) : Prop :=
  ∃ landings, ClassLands src enc policy naming root p.1 p.2 landings ∧
    (Landing.inline q.1 q.2 ∈ landings ∨ Landing.bound q.2 ∈ landings ∧ src.contentAt q.2 = .ok q.1)

/-- The classes compiling the document `doc` leads to: its root class, read in itself, and
whatever a class it leads to leads to. -/
inductive Reachable (doc : String) : Value × Reference → Prop
  | root {node : Value} : src.contentAt ⟨doc, []⟩ = .ok node → Reachable doc (node, ⟨doc, []⟩)
  | step {p q : Value × Reference} : Reachable doc p → Leads src enc policy naming ⟨doc, []⟩ p q →
      Reachable doc q

/-- The class `p` spawns itself again through inline classes alone. -/
def OnInlineCycle (root : Reference) (p : Value × Reference) : Prop :=
  Relation.TransGen (Spawns src enc policy naming root) p p

variable {src enc policy naming}

theorem Spawns.leads {root : Reference} {p q : Value × Reference}
    (hspawns : Spawns src enc policy naming root p q) : Leads src enc policy naming root p q := by
  obtain ⟨landings, hclass, hmem⟩ := hspawns
  exact ⟨landings, hclass, .inl hmem⟩

/-- A class on an inline cycle spawns one that is on it too. -/
theorem OnInlineCycle.next {root : Reference} {p : Value × Reference}
    (hcycle : OnInlineCycle src enc policy naming root p) :
    ∃ q, Spawns src enc policy naming root p q ∧ OnInlineCycle src enc policy naming root q := by
  obtain ⟨q, hpq, hqp⟩ := Relation.TransGen.head'_iff.mp hcycle
  exact ⟨q, hpq, Relation.TransGen.tail' hqp hpq⟩

end Graph

end Source

end SchemaModel

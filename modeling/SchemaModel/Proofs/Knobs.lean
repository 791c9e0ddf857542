import SchemaModel.Proofs.TagKinds
import SchemaModel.Proofs.Discovery
/-!
# Settings that only decorate the classes

Four choices of a compilation add to the classes it generates without shaping them: the
annotator (form metadata and the presentation order), whether schema constraints become tags,
whether members get accessors, and whether they get builder methods. Changing one of them
changes nothing but its own outputs. Two compilations that differ in one such knob fail with the
same error or succeed with classes that are equal once that knob's outputs are erased, and they
leave the session in the same state. Class names and their order, and the members' names,
types, positions and default values, depend on none of the four.

Each knob has a neutral value (`Knob.reset`) and an erasure of its outputs (`Knob.eraseClass`),
and erasing a knob's outputs from a compilation gives the compilation with the knob reset
(`compileDocument_reset`). The one step that reads the knobs is the construction of a member
(`memberOf`). Its accessor names fail only where the member's own name failed first, and the
annotator's and the constraints' tags are left out again cleanly from a tag set sorted by kind.
The steps around it (the member fold, the required marks, the presentation order, the queue)
pass the erasure through.
-/

namespace SchemaModel

namespace TagKind

/-- The kinds the form-editor annotator adds beyond the title and description a member has
anyway. -/
def isForm : TagKind → Bool
  | .pluralTitle | .multiple | .fieldKind | .hidden => true
  | _ => false

/-- The kinds of the tags schema constraints become. -/
def isConstraint : TagKind → Bool
  | .pattern | .minimum | .maximum | .minItems | .maxItems | .minLength | .maxLength | .valid => true
  | _ => false

end TagKind

namespace Annotator

/-- The kinds of the form-editor annotator's tags: title, plural title, `multiple`, field kind,
`hidden` and description. -/
theorem kind_of_mem_formTags {node : Value} {t : Tag} (ht : t ∈ formTags node) :
    t.kind.isConstraint = false ∧ (t.kind.isForm = false → t.kind = .title ∨ t.kind = .description) := by
  simp only [formTags, List.mem_filterMap, List.mem_cons, List.not_mem_nil, or_false, id_eq,
    exists_eq_or_imp, exists_eq_left] at ht
  rcases ht with ht | ht | ht | ht | ht | ht
  · rw [Tag.kind_of_mem_map Tag.title (fun _ => rfl) ht]
    simp [TagKind.isConstraint]
  · rw [Tag.kind_of_mem_map Tag.pluralTitle (fun _ => rfl) ht]
    simp [TagKind.isConstraint, TagKind.isForm]
  · rw [Tag.kind_of_mem_map (Tag.multiple ∘ Keyword.boolean) (fun _ => rfl) ht]
    simp [TagKind.isConstraint, TagKind.isForm]
  · obtain ⟨v, -, hkind⟩ := Option.bind_eq_some_iff.mp ht
    rw [Tag.kind_of_mem_map Tag.fieldKind (fun _ => rfl) hkind]
    simp [TagKind.isConstraint, TagKind.isForm]
  · rw [Tag.kind_of_mem_map (Tag.hidden ∘ Keyword.boolean) (fun _ => rfl) ht]
    simp [TagKind.isConstraint, TagKind.isForm]
  · rw [Tag.kind_of_mem_map Tag.description (fun _ => rfl) ht]
    simp [TagKind.isConstraint]

/-- The annotator's tags, but for the title and description a member has anyway, leave out
cleanly from the shared tags of a member. -/
theorem filter_annotate_coreTags_form (a : Annotator) (node : Value) :
    (a.annotate (Compiler.coreTags node) node).filter (fun k => !k.isForm) =
      Compiler.coreTags node := by
  obtain ⟨ts, hts, hannotate⟩ := exists_annotate_eq node a
  have hcore : (Compiler.coreTags node).filter (fun k => !k.isForm) = Compiler.coreTags node :=
    TagSet.filter_eq_self _ fun t ht => by
      rcases Compiler.kind_of_mem_coreTags ht with h | h | h <;> simp [h, TagKind.isForm]
  rw [hannotate, TagSet.filter_insertAll _ _ (Compiler.sorted_coreTags node), hcore]
  apply TagSet.insertAll_eq_self
  intro t ht
  obtain ⟨hform, hkeep⟩ := List.mem_filter.mp ht
  exact Compiler.insert_coreTags (hts t hform)
    ((kind_of_mem_formTags (hts t hform)).2 (by simpa using hkeep))

/-- The annotator adds no constraint tags to the shared tags of a member. -/
theorem filter_annotate_coreTags_constraint (a : Annotator) (node : Value) :
    (a.annotate (Compiler.coreTags node) node).filter (fun k => !k.isConstraint) =
      a.annotate (Compiler.coreTags node) node := by
  apply TagSet.filter_eq_self
  intro t ht
  obtain ⟨ts, hts, hannotate⟩ := exists_annotate_eq node a
  rw [hannotate] at ht
  rcases TagSet.mem_insertAll ts ht with ht | ht
  · rcases Compiler.kind_of_mem_coreTags ht with h | h | h <;> simp [h, TagKind.isConstraint]
  · simp [(kind_of_mem_formTags (hts t ht)).1]

end Annotator

namespace Constraint

theorem kind_of_mem_tags {node : Value} {t : Tag} (ht : t ∈ tags node) :
    t.kind.isConstraint = true ∧ t.kind.isForm = false := by
  simp only [tags, List.mem_filterMap, List.mem_cons, List.not_mem_nil, or_false, id_eq,
    exists_eq_or_imp, exists_eq_left] at ht
  rcases ht with ht | ht | ht | ht | ht | ht | ht | ht
  · rw [Tag.kind_of_mem_map Tag.pattern (fun _ => rfl) ht]
    simp [TagKind.isConstraint, TagKind.isForm]
  · rw [Tag.kind_of_mem_map Tag.minimum (fun _ => rfl) ht]
    simp [TagKind.isConstraint, TagKind.isForm]
  · rw [Tag.kind_of_mem_map Tag.maximum (fun _ => rfl) ht]
    simp [TagKind.isConstraint, TagKind.isForm]
  · rw [Tag.kind_of_mem_map Tag.minItems (fun _ => rfl) ht]
    simp [TagKind.isConstraint, TagKind.isForm]
  · rw [Tag.kind_of_mem_map Tag.maxItems (fun _ => rfl) ht]
    simp [TagKind.isConstraint, TagKind.isForm]
  · rw [Tag.kind_of_mem_map Tag.minLength (fun _ => rfl) ht]
    simp [TagKind.isConstraint, TagKind.isForm]
  · rw [Tag.kind_of_mem_map Tag.maxLength (fun _ => rfl) ht]
    simp [TagKind.isConstraint, TagKind.isForm]
  · split at ht
    · obtain rfl := Option.some.inj ht
      simp [Tag.kind, TagKind.isConstraint, TagKind.isForm]
    · cases ht

end Constraint

/-- A setting that decorates generated classes without shaping them. -/
inductive Knob where
  /-- The annotator: form metadata and the presentation order. -/
  | annotator
  /-- Whether schema constraints become tags. -/
  | constraints
  /-- Whether members get a getter and a setter. -/
  | accessors
  /-- Whether members get a builder method. -/
  | builders
  deriving DecidableEq, Repr

namespace Knob

/-- The compiler with the knob at its neutral value: no annotator, no constraint tags, no
accessors, or no builders. The annotator's settings only choose the annotator, so they are reset
with it. -/
def reset : Knob → Compiler → Compiler
  | .annotator, c =>
    { annotator := .none, settings := { c.settings with annotator := .none, defaultPropertyOrder := 0 } }
  | .constraints, c => { c with settings := { c.settings with includeConstraints := false } }
  | .accessors, c => { c with settings := { c.settings with includeAccessors := false } }
  | .builders, c => { c with settings := { c.settings with generateBuilders := false } }

/-- A member without what the knob adds to it. -/
def eraseMember : Knob → Member → Member
  | .annotator, m => { m with tags := m.tags.filter fun k => !k.isForm }
  | .constraints, m => { m with tags := m.tags.filter fun k => !k.isConstraint }
  | .accessors, m => { m with visibility := .exported, getter := none, setter := none }
  | .builders, m => { m with builder := none }

/-- A class without what the knob adds to it: its members erased, and for the annotator no
presentation order. -/
def eraseClass (k : Knob) (cls : ClassModel) : ClassModel :=
  { cls with members := cls.members.map k.eraseMember,
             presentationOrder := if k = .annotator then [] else cls.presentationOrder }

/-- Every knob at its neutral value. -/
def resetAll (c : Compiler) : Compiler :=
  annotator.reset (constraints.reset (accessors.reset (builders.reset c)))

end Knob

namespace Compiler

/-- The member a property becomes once its identifier, type and resolved schema are known; only
its accessor names can fail. -/
def memberOf (c : Compiler) (name target : String) (ty : MemberType) (resolved : Value)
    (owner : String) : Except ConfigurationError Member := do
  let core := coreTags resolved
  let member : Member := {
    sourceName := name, targetName := target, type := ty,
    visibility := if c.settings.includeAccessors then .internal else .exported,
    immutable := name == Keyword.localId,
    tags := c.annotator.annotate core resolved }
  let member ← if c.settings.includeAccessors then do
      let doc := (Keyword.nonEmptyText resolved "description").getD ("The " ++ name)
      let getter ← c.naming.getterName name ty
      let setter ← c.naming.setterName name
      pure { member with getter := some ⟨.getter, getter, doc, core⟩,
                         setter := some ⟨.setter, setter, doc, core⟩ }
    else pure member
  let member := if c.settings.generateBuilders then
      { member with builder := some ⟨c.naming.builderName target, ty, owner⟩ }
    else member
  pure (Constraint.apply c.settings member resolved)

theorem liftNaming_ok {α : Type} (a : α) :
    Session.liftNaming (.ok a : Except ConfigurationError α) = pure a := rfl

theorem liftNaming_bind {α β : Type} (x : Except ConfigurationError α)
    (f : α → Except ConfigurationError β) :
    Session.liftNaming (x >>= f) = Session.liftNaming x >>= fun a => Session.liftNaming (f a) := by
  cases x <;> rfl

/-- Compiling a member names it, checks the name is new, lowers its type, resolves its schema
and then builds the member in one pure step. -/
theorem compileMember_eq (c : Compiler) (name : String) (node : Value) (cls : ClassModel)
    (enclosing : Nat) :
    c.compileMember name node cls enclosing = (do
      let target ← Session.liftNaming (c.naming.propertyName name)
      if cls.hasMember target then throw (.configuration (.duplicateMember cls.name target))
      let ty ← Session.typeFor c.naming name node enclosing
      let resolved ← Session.resolveRefs node enclosing
      Session.liftNaming (c.memberOf name target ty resolved cls.name >>= cls.addMember)) := by
  cases haccessors : c.settings.includeAccessors <;>
    simp only [compileMember, memberOf, haccessors, liftNaming_bind, bind_assoc, pure_bind,
      if_true, Bool.false_eq_true, if_false]

/-- The member `memberOf` builds, field by field: each field reads at most one knob. -/
def memberSpec (c : Compiler) (name target : String) (ty : MemberType) (resolved : Value)
    (owner : String) : Member :=
  let core := coreTags resolved
  let doc := (Keyword.nonEmptyText resolved "description").getD ("The " ++ name)
  let annotated := c.annotator.annotate core resolved
  { sourceName := name, targetName := target, type := ty
    visibility := if c.settings.includeAccessors then .internal else .exported
    immutable := name == Keyword.localId
    getter := if c.settings.includeAccessors then
        some ⟨.getter, (if ty.isBoolean then "is" else "get") ++ Naming.capitalize target, doc, core⟩
      else none
    setter := if c.settings.includeAccessors then
        some ⟨.setter, "set" ++ Naming.capitalize target, doc, core⟩
      else none
    builder := if c.settings.generateBuilders then
        some ⟨c.naming.builderName target, ty, owner⟩
      else none
    defaultValue := resolved.get? "default"
    tags := if c.settings.includeConstraints then annotated.insertAll (Constraint.tags resolved)
      else annotated }

/-- The tags of a member marked required: `required false` gives way to `required true`. -/
def markTags (t : TagSet) : TagSet := (t.erase (.required false)).insert (.required true)

/-- A member and its accessors marked required. -/
def markMember (m : Member) : Member :=
  { m with tags := markTags m.tags,
           getter := m.getter.map fun a => { a with tags := markTags a.tags },
           setter := m.setter.map fun a => { a with tags := markTags a.tags } }

theorem markRequired_eq (cls : ClassModel) (name : String) :
    markRequired cls name = cls.updateMember name markMember := rfl

/-- The members a schema's `required` list names, marked required. -/
def markAll (node : Value) (cls : ClassModel) : ClassModel :=
  match node.get? "required" with
  | some (.array names) => (names.filterMap Value.asString?).foldl markRequired cls
  | _ => cls

/-- A class given the annotator's presentation order of a schema's properties. -/
def orderBy (a : Annotator) (node : Value) (cls : ClassModel) : ClassModel :=
  match node.get? "properties" with
  | some props => { cls with presentationOrder := a.propertyOrder props }
  | none => cls

theorem compileClass_eq (c : Compiler) (p : Pending) :
    c.compileClass p = (do
      let cls ← c.compileMembers p
      let additional ← c.additionalType p
      pure { orderBy c.annotator p.node (markAll p.node cls) with additional }) := rfl

end Compiler

theorem List.forall_mem_modify {α : Type} (P : α → Prop) {f : α → α} (hf : ∀ x, P x → P (f x)) :
    ∀ (l : List α) (i : Nat), (∀ x ∈ l, P x) → ∀ x ∈ l.modify i f, P x
  | [], _, _ => by simp
  | a :: l, 0, h => by
    rw [List.modify_zero_cons]
    exact List.forall_mem_cons.mpr ⟨hf a (h a List.mem_cons_self), fun x hx => h x (List.mem_cons_of_mem a hx)⟩
  | a :: l, i + 1, h => by
    rw [List.modify_succ_cons]
    exact List.forall_mem_cons.mpr
      ⟨h a List.mem_cons_self, List.forall_mem_modify P hf l i fun x hx => h x (List.mem_cons_of_mem a hx)⟩

theorem List.map_modify {α β : Type} {f : α → α} {f' : β → β} {g : α → β} :
    ∀ (l : List α) (i : Nat), (∀ x ∈ l, g (f x) = f' (g x)) → (l.modify i f).map g = (l.map g).modify i f'
  | [], _, _ => by simp
  | a :: l, 0, h => by
    rw [List.modify_zero_cons, List.map_cons, List.map_cons, List.modify_zero_cons, h a List.mem_cons_self]
  | a :: l, i + 1, h => by
    rw [List.modify_succ_cons, List.map_cons, List.map_cons, List.modify_succ_cons,
      List.map_modify l i fun x hx => h x (List.mem_cons_of_mem a hx)]

/-- Every member's tags are sorted by kind. -/
def ClassModel.TagsSorted (cls : ClassModel) : Prop := ∀ m ∈ cls.members, m.tags.Sorted

namespace Naming

/-- A getter is named after the member, so it is named whenever the member is. -/
theorem getterName_of_propertyName {n : Naming} {name target : String}
    (hname : n.propertyName name = .ok target) (ty : MemberType) :
    n.getterName name ty = .ok ((if ty.isBoolean then "is" else "get") ++ capitalize target) := by
  rw [getterName, hname]
  rfl

theorem setterName_of_propertyName {n : Naming} {name target : String}
    (hname : n.propertyName name = .ok target) :
    n.setterName name = .ok ("set" ++ capitalize target) := by
  rw [setterName, hname]
  rfl

end Naming

namespace Constraint

/-- Applying the constraints sets the default value and, when asked for, adds the constraint
tags; nothing else of the member changes. -/
theorem apply_eq (settings : Settings) (m : Member) (node : Value) :
    apply settings m node =
      { m with
        defaultValue := (node.get? "default").or m.defaultValue
        tags := if settings.includeConstraints then m.tags.insertAll (tags node) else m.tags } := by
  unfold apply
  split <;> rename_i hdefault <;> rw [hdefault] <;> split <;> rfl

end Constraint

namespace Compiler

/-- Once the member's own name is formed, building the member succeeds: the accessor names are
formed from it. -/
theorem memberOf_eq_ok {c : Compiler} {name target : String}
    (hname : c.naming.propertyName name = .ok target) (ty : MemberType) (resolved : Value)
    (owner : String) :
    c.memberOf name target ty resolved owner = .ok (c.memberSpec name target ty resolved owner) := by
  have hgetter := Naming.getterName_of_propertyName hname ty
  have hsetter := Naming.setterName_of_propertyName hname
  unfold memberOf memberSpec
  cases haccessors : c.settings.includeAccessors <;> cases hbuilders : c.settings.generateBuilders <;>
    simp only [hgetter, hsetter, Constraint.apply_eq, if_true, if_false,
      Bool.false_eq_true, pure_bind, Option.or_none] <;> rfl

end Compiler

namespace Knob

section Reset

variable (k : Knob) (c : Compiler)

@[simp] theorem naming_reset : (k.reset c).naming = c.naming := by
  cases k <;> rfl

@[simp] theorem targetPackage_reset :
    (k.reset c).settings.targetPackage = c.settings.targetPackage := by
  cases k <;> rfl

/-- A knob's neutral value builds the member with the knob's outputs erased. -/
theorem memberSpec_reset (name target : String) (ty : MemberType) (resolved : Value)
    (owner : String) :
    (k.reset c).memberSpec name target ty resolved owner =
      k.eraseMember (c.memberSpec name target ty resolved owner) := by
  have hsorted := Annotator.sorted_annotate c.annotator (Compiler.sorted_coreTags resolved) resolved
  cases k with
  | annotator =>
    -- the constraint tags are kept, and the annotator's own tags leave out of the shared ones
    have hnone : Annotator.none.annotate (Compiler.coreTags resolved) resolved =
        Compiler.coreTags resolved := rfl
    simp only [reset, eraseMember, Compiler.memberSpec, hnone]
    congr 1
    by_cases hconstraints : c.settings.includeConstraints = true
    · have hkept : (Constraint.tags resolved).filter (fun t => !t.kind.isForm) =
          Constraint.tags resolved :=
        List.filter_eq_self.mpr fun t ht => by simp [(Constraint.kind_of_mem_tags ht).2]
      rw [if_pos hconstraints, if_pos hconstraints, TagSet.filter_insertAll _ _ hsorted,
        Annotator.filter_annotate_coreTags_form, hkept]
    · rw [if_neg hconstraints, if_neg hconstraints, Annotator.filter_annotate_coreTags_form]
  | constraints =>
    -- the constraint tags are all that leaves
    simp only [reset, eraseMember, Compiler.memberSpec, Bool.false_eq_true, if_false]
    congr 1
    by_cases hconstraints : c.settings.includeConstraints = true
    · have hdropped : (Constraint.tags resolved).filter (fun t => !t.kind.isConstraint) = [] :=
        List.filter_eq_nil_iff.mpr fun t ht => by simp [(Constraint.kind_of_mem_tags ht).1]
      rw [if_pos hconstraints, TagSet.filter_insertAll _ _ hsorted,
        Annotator.filter_annotate_coreTags_constraint, hdropped]
      rfl
    · rw [if_neg hconstraints, Annotator.filter_annotate_coreTags_constraint]
  | accessors => rfl
  | builders => rfl

/-- Building a member with a knob at its neutral value is building it and erasing the knob's
outputs; the accessor names it drops could only fail where the member's own name failed. -/
theorem memberOf_reset {name target : String} (hname : c.naming.propertyName name = .ok target)
    (ty : MemberType) (resolved : Value) (owner : String) :
    (k.reset c).memberOf name target ty resolved owner =
      k.eraseMember <$> c.memberOf name target ty resolved owner := by
  have hname' : (k.reset c).naming.propertyName name = .ok target := by rwa [naming_reset]
  rw [Compiler.memberOf_eq_ok hname', Compiler.memberOf_eq_ok hname, memberSpec_reset]
  rfl

/-! ### Erasing a knob's outputs -/

variable {k}

@[simp] theorem sourceName_eraseMember (m : Member) : (k.eraseMember m).sourceName = m.sourceName := by
  cases k <;> rfl

@[simp] theorem targetName_eraseMember (m : Member) : (k.eraseMember m).targetName = m.targetName := by
  cases k <;> rfl

theorem eraseMember_order (m : Member) (n : Nat) :
    k.eraseMember { m with order := n } = { k.eraseMember m with order := n } := by
  cases k <;> rfl

@[simp] theorem name_eraseClass (cls : ClassModel) : (k.eraseClass cls).name = cls.name := rfl

@[simp] theorem hasMember_eraseClass (cls : ClassModel) (target : String) :
    (k.eraseClass cls).hasMember target = cls.hasMember target := by
  simp [eraseClass, ClassModel.hasMember, List.any_map, Function.comp_def]

theorem eraseClass_addMember (cls : ClassModel) (m : Member) :
    (k.eraseClass cls).addMember (k.eraseMember m) = k.eraseClass <$> cls.addMember m := by
  unfold ClassModel.addMember
  rw [targetName_eraseMember, hasMember_eraseClass]
  split
  · rfl
  · show Except.ok _ = Except.ok (k.eraseClass _)
    simp only [eraseClass, List.map_append, List.map_singleton, List.length_map, eraseMember_order,
      targetName_eraseMember]

theorem map_liftNaming {α β : Type} (f : α → β) (x : Except ConfigurationError α) :
    f <$> Session.liftNaming x = Session.liftNaming (f <$> x) := by
  cases x <;> rfl

theorem map_throw_bind {α β γ : Type} (f : β → γ) (e : CompileError) (g : α → CompileM β) :
    f <$> (throw e >>= g) = (throw e >>= fun a => f <$> g a : CompileM γ) := by
  apply ext_run
  intro s
  simp only [run_map, run_bind, run_throw]

/-- Compiling a member with a knob at its neutral value is compiling it and erasing the knob's
outputs: the name, the duplicate check, the type and the resolved schema read no knob. -/
theorem compileMember_reset (name : String) (node : Value) (cls : ClassModel) (enclosing : Nat) :
    k.eraseClass <$> c.compileMember name node cls enclosing =
      (k.reset c).compileMember name node (k.eraseClass cls) enclosing := by
  rw [Compiler.compileMember_eq, Compiler.compileMember_eq, naming_reset, name_eraseClass]
  cases hname : c.naming.propertyName name with
  | error e =>
    apply ext_run
    intro s
    simp only [Session.liftNaming, run_map, run_bind, run_throw]
  | ok target =>
    simp only [Compiler.liftNaming_ok, pure_bind, hasMember_eraseClass]
    split
    · exact map_throw_bind _ _ _
    · simp only [map_bind]
      refine bind_congr fun ty => bind_congr fun resolved => ?_
      rw [map_liftNaming, memberOf_reset k c hname, Compiler.memberOf_eq_ok hname]
      exact congrArg Session.liftNaming (eraseClass_addMember cls _).symm

/-! ### The steps around a member -/

theorem map_atMember {α β : Type} (f : α → β) (className member : String) (m : CompileM α) :
    f <$> Session.atMember className member m = Session.atMember className member (f <$> m) := by
  apply ext_run
  intro s
  rw [run_map, Session.atMember_run, Session.atMember_run, run_map]
  rcases m.run.run s with ⟨_ | a, s'⟩ <;> rfl

theorem map_foldlM {m : Type → Type} [Monad m] [LawfulMonad m] {α β γ : Type}
    {f : β → α → m β} {f' : γ → α → m γ} (g : β → γ)
    (hstep : ∀ b a, g <$> f b a = f' (g b) a) :
    ∀ (l : List α) (b : β), g <$> l.foldlM f b = l.foldlM f' (g b)
  | [], b => by simp
  | a :: l, b => by
    rw [List.foldlM_cons, List.foldlM_cons, map_bind, ← hstep, bind_map_left]
    exact bind_congr fun b' => map_foldlM g hstep l b'

theorem compileMembers_reset (p : Pending) :
    k.eraseClass <$> c.compileMembers p = (k.reset c).compileMembers p := by
  unfold Compiler.compileMembers
  rw [targetPackage_reset]
  have hempty : k.eraseClass { name := p.name, package := c.settings.targetPackage } =
      { name := p.name, package := c.settings.targetPackage } := by
    simp [eraseClass]
  split
  · rw [map_foldlM k.eraseClass, hempty]
    rintro cls ⟨name, node⟩
    rw [map_atMember, compileMember_reset]
  · rw [map_pure, hempty]

end Reset

end Knob

namespace Compiler

theorem sorted_memberSpec (c : Compiler) (name target : String) (ty : MemberType)
    (resolved : Value) (owner : String) : (c.memberSpec name target ty resolved owner).tags.Sorted := by
  have hsorted := Annotator.sorted_annotate c.annotator (sorted_coreTags resolved) resolved
  simp only [memberSpec]
  split
  · exact TagSet.sorted_insertAll _ hsorted
  · exact hsorted

/-- A compiled member's tags are sorted by kind, and the members before it are kept. -/
theorem compileMember_tagsSorted {c : Compiler} {name : String} {node : Value}
    {cls cls' : ClassModel} {enclosing : Nat} {s s' : Session} (hsorted : cls.TagsSorted)
    (hrun : (c.compileMember name node cls enclosing).run.run s = (.ok cls', s')) :
    cls'.TagsSorted := by
  rw [compileMember_eq] at hrun
  obtain ⟨target, s₁, htarget, hrest⟩ := run_bind_eq_ok.mp hrun
  obtain ⟨hname, rfl⟩ := Session.liftNaming_eq_ok htarget
  split at hrest
  · obtain ⟨_, _, hthrow, _⟩ := run_bind_eq_ok.mp hrest
    exact absurd hthrow (run_throw_ne_ok _ _ _ _)
  obtain ⟨ty, s₂, -, hrest⟩ := run_bind_eq_ok.mp hrest
  obtain ⟨resolved, s₃, -, hadd⟩ := run_bind_eq_ok.mp hrest
  obtain ⟨hadded, -⟩ := Session.liftNaming_eq_ok hadd
  rw [memberOf_eq_ok hname] at hadded
  rw [addMember_eq_ok hadded]
  intro m hm
  rcases List.mem_append.mp hm with hm | hm
  · exact hsorted m hm
  · rw [List.mem_singleton.mp hm]
    exact sorted_memberSpec c name target ty resolved cls.name

theorem compileMembers_tagsSorted {c : Compiler} {p : Pending} {s s' : Session}
    {cls : ClassModel} (hrun : (c.compileMembers p).run.run s = (.ok cls, s')) : cls.TagsSorted := by
  unfold compileMembers at hrun
  split at hrun
  · refine foldlM_ok_of_step ClassModel.TagsSorted ?_ _ _ (fun m hm => by cases hm) hrun
    rintro cls ⟨name, node⟩ s cls' s' hsorted hstep
    exact compileMember_tagsSorted hsorted (Session.atMember_eq_ok.mp hstep)
  · obtain ⟨rfl, -⟩ := run_pure_eq_ok.mp hrun
    intro m hm
    cases hm

theorem sorted_markTags {t : TagSet} (ht : t.Sorted) : (markTags t).Sorted :=
  TagSet.sorted_insert (TagSet.sorted_erase ht _) _

/-- Marking commutes with a filter that keeps the `required` tags. -/
theorem filter_markTags (p : TagKind → Bool) (hp : p .required = true) {t : TagSet}
    (ht : t.Sorted) : (markTags t).filter p = markTags (t.filter p) := by
  have hkeep : p (Tag.required true).kind = true := hp
  rw [markTags, TagSet.filter_insert p (TagSet.sorted_erase ht _), TagSet.filter_erase, if_pos hkeep,
    markTags]

theorem tagsSorted_markRequired {cls : ClassModel} (hsorted : cls.TagsSorted) (name : String) :
    (markRequired cls name).TagsSorted := by
  rw [markRequired_eq]
  unfold ClassModel.updateMember
  split
  · exact List.forall_mem_modify (fun m : Member => m.tags.Sorted) (fun _ hm => sorted_markTags hm) _ _ hsorted
  · exact hsorted

end Compiler

namespace Knob

variable {k : Knob}

theorem eraseMember_markMember {m : Member} (hs : m.tags.Sorted) :
    k.eraseMember (Compiler.markMember m) = Compiler.markMember (k.eraseMember m) := by
  cases k
  · simp only [eraseMember, Compiler.markMember, Compiler.filter_markTags (fun k => !k.isForm) rfl hs]
  · simp only [eraseMember, Compiler.markMember,
      Compiler.filter_markTags (fun k => !k.isConstraint) rfl hs]
  · rfl
  · rfl

theorem eraseClass_markRequired {cls : ClassModel} (hsorted : cls.TagsSorted) (name : String) :
    k.eraseClass (Compiler.markRequired cls name) = Compiler.markRequired (k.eraseClass cls) name := by
  rw [Compiler.markRequired_eq, Compiler.markRequired_eq]
  unfold ClassModel.updateMember
  have hfind : (k.eraseClass cls).members.findIdx? (·.sourceName == name) =
      cls.members.findIdx? (·.sourceName == name) := by
    simp only [eraseClass, List.findIdx?_map, Function.comp_def, sourceName_eraseMember]
  rw [hfind]
  split
  · simp only [eraseClass]
    rw [List.map_modify _ _ fun m hm => eraseMember_markMember (hsorted m hm)]
  · rfl

theorem eraseClass_foldl_markRequired (names : List String) :
    ∀ {cls : ClassModel}, cls.TagsSorted →
      k.eraseClass (names.foldl Compiler.markRequired cls) =
        names.foldl Compiler.markRequired (k.eraseClass cls) := by
  induction names with
  | nil => exact fun _ => rfl
  | cons name names ih =>
    intro cls hsorted
    rw [List.foldl_cons, List.foldl_cons, ih (Compiler.tagsSorted_markRequired hsorted name),
      eraseClass_markRequired hsorted]

theorem additionalType_reset (c : Compiler) (p : Pending) :
    (k.reset c).additionalType p = c.additionalType p := by
  unfold Compiler.additionalType
  rw [naming_reset]

@[simp] theorem eraseClass_additional (cls : ClassModel) (additional : Option MemberType) :
    k.eraseClass { cls with additional } = { k.eraseClass cls with additional } := rfl

theorem eraseClass_markAll {cls : ClassModel} (hsorted : cls.TagsSorted) (node : Value) :
    k.eraseClass (Compiler.markAll node cls) = Compiler.markAll node (k.eraseClass cls) := by
  unfold Compiler.markAll
  split
  · exact eraseClass_foldl_markRequired _ hsorted
  · rfl

/-- The presentation order is the annotator's: without one it is empty, as the erasure leaves it. -/
theorem eraseClass_orderBy (c : Compiler) (node : Value) (cls : ClassModel) :
    k.eraseClass (Compiler.orderBy c.annotator node cls) =
      Compiler.orderBy (k.reset c).annotator node (k.eraseClass cls) := by
  unfold Compiler.orderBy
  split <;> cases k <;> rfl

theorem compileClass_reset (c : Compiler) (p : Pending) :
    k.eraseClass <$> c.compileClass p = (k.reset c).compileClass p := by
  rw [Compiler.compileClass_eq, Compiler.compileClass_eq, ← compileMembers_reset, map_bind,
    bind_map_left]
  refine bind_congr_of_ok ClassModel.TagsSorted (fun _ _ _ h => Compiler.compileMembers_tagsSorted h)
    fun cls hsorted => ?_
  rw [additionalType_reset, map_bind]
  refine bind_congr fun additional => ?_
  rw [map_pure, eraseClass_additional, eraseClass_orderBy, eraseClass_markAll hsorted]

theorem drain_reset (c : Compiler) : ∀ (budget : Nat) (done : List ClassModel),
    Option.map (List.map k.eraseClass) <$> c.drain budget done =
      (k.reset c).drain budget (done.map k.eraseClass)
  | 0, done => by simp only [Compiler.drain, map_pure, Option.map_none]
  | budget + 1, done => by
    simp only [Compiler.drain, map_bind]
    refine bind_congr fun next => ?_
    cases next with
    | none => simp only [map_pure, Option.map_some, List.map_reverse]
    | some p =>
      dsimp only
      rw [map_bind, ← compileClass_reset, bind_map_left]
      refine bind_congr fun cls => ?_
      rw [drain_reset c budget (cls :: done), List.map_cons]

theorem compileDocument_reset (c : Compiler) (doc : String) (className : Option String) :
    Option.map (List.map k.eraseClass) <$> c.compileDocument doc className =
      (k.reset c).compileDocument doc className := by
  simp only [Compiler.compileDocument, map_bind, naming_reset, drain_reset, List.map_nil]

end Knob

/-- What no knob changes in a class: its name, and for each member its schema name, identifier,
type, position and default value. -/
def ClassModel.shape (cls : ClassModel) :
    String × List (String × String × MemberType × Nat × Option Value) :=
  (cls.name, cls.members.map fun m => (m.sourceName, m.targetName, m.type, m.order, m.defaultValue))

namespace Knob

variable {k : Knob}

@[simp] theorem shape_eraseClass (cls : ClassModel) : (k.eraseClass cls).shape = cls.shape := by
  simp only [ClassModel.shape, eraseClass, List.map_map]
  congr 2
  funext m
  cases k <;> rfl

theorem shapes_reset (c : Compiler) (doc : String) (className : Option String) :
    Option.map (List.map ClassModel.shape) <$> (k.reset c).compileDocument doc className =
      Option.map (List.map ClassModel.shape) <$> c.compileDocument doc className := by
  rw [← compileDocument_reset, ← comp_map]
  congr 1
  funext classes
  cases classes <;> simp [Function.comp_def, List.map_map]

theorem shapes_resetAll (c : Compiler) (doc : String) (className : Option String) :
    Option.map (List.map ClassModel.shape) <$> (resetAll c).compileDocument doc className =
      Option.map (List.map ClassModel.shape) <$> c.compileDocument doc className := by
  rw [resetAll, shapes_reset, shapes_reset, shapes_reset, shapes_reset]

/-- Two compilers that differ in one knob compile a document alike from every session: the same
error, or classes equal once that knob's outputs are erased, and the same session after. What
shapes the classes (their names and order, and each member's names, type, position and default)
depends on no knob at all. -/
theorem compileDocument_agrees_up_to_knob (doc : String) (className : Option String)
    (c₁ c₂ : Compiler) :
    (∀ k : Knob, k.reset c₁ = k.reset c₂ →
      Option.map (List.map k.eraseClass) <$> c₁.compileDocument doc className =
        Option.map (List.map k.eraseClass) <$> c₂.compileDocument doc className) ∧
    (resetAll c₁ = resetAll c₂ →
      Option.map (List.map ClassModel.shape) <$> c₁.compileDocument doc className =
        Option.map (List.map ClassModel.shape) <$> c₂.compileDocument doc className) := by
  constructor
  · intro k hreset
    rw [compileDocument_reset, compileDocument_reset, hreset]
  · intro hreset
    rw [← shapes_resetAll c₁, ← shapes_resetAll c₂, hreset]

/-- The default compiler compiles like the one without an annotator up to form tags and order,
and like one with builders, no accessors and no annotator up to shape. -/
theorem default_compiler_agrees_with_bare :
    Option.map (List.map annotator.eraseClass) <$>
        (Compiler.ofSettings {}).compileDocument "Root.json" none =
      Option.map (List.map annotator.eraseClass) <$>
        (⟨{}, .none⟩ : Compiler).compileDocument "Root.json" none ∧
    Option.map (List.map ClassModel.shape) <$>
        (Compiler.ofSettings {}).compileDocument "Root.json" none =
      Option.map (List.map ClassModel.shape) <$>
        (⟨{ generateBuilders := true, includeAccessors := false }, .none⟩ : Compiler).compileDocument
          "Root.json" none :=
  ⟨(compileDocument_agrees_up_to_knob "Root.json" none _ _).1 .annotator rfl,
    (compileDocument_agrees_up_to_knob "Root.json" none _ _).2 rfl⟩

end Knob

end SchemaModel

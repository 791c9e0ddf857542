import SchemaModel.Proofs.Members
/-!
# The tags a member shares with its accessors

With accessors on, a member gets a getter and a setter, and the three carry tags from different
writers. The member's own tags are the title, description and `required` flag of the schema its
property resolves to, then the annotator's form tags and the constraint tags; the accessors get
the first three alone. Afterwards the class marks the members its `required` array lists, in all
three sets.

The accessors still hold exactly the member's tags of the shared kinds (`TagKind.isShared`). When
the member is built, the annotator can add a title or a description only as the ones already
there, and the constraint tags are of other kinds (`filter_shared_memberSpec`). Marking commutes
with leaving out the other kinds, and since no two members come from one property name, the
marks reach exactly the listed members (`markRequired_members`).

Each of the three sets then holds at most one `required` tag, fixed by two facts
(`RequiredAs`): whether the class lists the property as required, and the `required` flag of the
resolved schema (`ResolvesAt`). A listed property is `required true`, and otherwise that flag
stands.
-/

namespace SchemaModel

namespace TagKind

/-- The kinds a member shares with its accessors: title, description and `required`. -/
def isShared : TagKind → Bool
  | .title | .description | .required => true
  | _ => false

theorem isForm_of_isShared {k : TagKind} (h : k.isShared = true) : k.isForm = false := by
  cases k <;> simp [isShared, isForm] at h ⊢

theorem isShared_of_isConstraint {k : TagKind} (h : k.isConstraint = true) : k.isShared = false := by
  cases k <;> simp [isShared, isConstraint] at h ⊢

-- a `required` tag is one of the shared ones
theorem required_and_isShared (k : TagKind) : ((k == .required) && k.isShared) = (k == .required) := by
  cases k <;> rfl

end TagKind

namespace Compiler

/-- The property names a class schema's `required` array lists; an entry that is no string names
nothing. -/
def requiredNames (node : Value) : List String :=
  match node.get? "required" with
  | some (.array names) => names.filterMap Value.asString?
  | _ => []

theorem markAll_eq (node : Value) (cls : ClassModel) :
    markAll node cls = (requiredNames node).foldl markRequired cls := by
  unfold markAll requiredNames
  rcases node.get? "required" with _ | _ | _ | _ | _ | names | _ <;> rfl

/-- The `required` tags of a member: `required true` when its property is listed as required,
and otherwise the flag of the schema the property resolves to, if it has one. -/
def requiredTags (listed : Bool) (resolved : Value) : List Tag :=
  if listed then [.required true] else (requiredTag? resolved).toList

theorem mem_requiredTags {listed : Bool} {resolved : Value} {b : Bool} :
    Tag.required b ∈ requiredTags listed resolved ↔
      if listed then b = true else resolved.get? "required" = some (.bool b) := by
  cases listed with
  | true => simp [requiredTags]
  | false =>
    simp only [requiredTags, Bool.false_eq_true, if_false]
    unfold requiredTag?
    split
    · rename_i b' hb'
      simp [hb', eq_comm]
    · rename_i hnot
      simp only [Option.toList_none, List.not_mem_nil, false_iff]
      exact hnot b

/-- How a set of tags holds the `required` flag of a member: at most once; `true` where the
property is listed as required or its schema says `required: true`; `false` where it is not
listed and its schema says `required: false`. -/
structure RequiredAs (listed : Bool) (resolved : Value) (ts : TagSet) : Prop where
  at_most_one : (ts.filter (· == .required)).tags.length ≤ 1
  required_true : Tag.required true ∈ ts.tags ↔
    listed = true ∨ resolved.get? "required" = some (.bool true)
  required_false : Tag.required false ∈ ts.tags ↔
    listed = false ∧ resolved.get? "required" = some (.bool false)

theorem RequiredAs.of_filter {listed : Bool} {resolved : Value} {ts : TagSet}
    (h : (ts.filter (· == .required)).tags = requiredTags listed resolved) :
    RequiredAs listed resolved ts := by
  -- a `required` tag is in the set exactly when it is among its `required` tags
  have hmem : ∀ b, Tag.required b ∈ ts.tags ↔ Tag.required b ∈ requiredTags listed resolved := by
    intro b
    rw [← h]
    simp [TagSet.filter, List.mem_filter, Tag.kind]
  refine ⟨?_, ?_, ?_⟩
  · rw [h, requiredTags]
    split
    · simp
    · cases requiredTag? resolved <;> simp
  · rw [hmem, mem_requiredTags]
    cases listed <;> simp
  · rw [hmem, mem_requiredTags]
    cases listed <;> simp

/-- What a member and its accessors hold once accessors are on, for a property `listed` as
required or not, resolving to `resolved`: tags sorted by kind, accessors tagged with the
member's shared tags, and the `required` tags `requiredTags` gives. -/
structure SharesTags (listed : Bool) (resolved : Value) (m : Member) : Prop where
  sorted : m.tags.Sorted
  getter : m.getter.map Accessor.tags = some (m.tags.filter TagKind.isShared)
  setter : m.setter.map Accessor.tags = some (m.tags.filter TagKind.isShared)
  required : (m.tags.filter (· == .required)).tags = requiredTags listed resolved

theorem filter_required_of_shared (ts : TagSet) :
    (ts.filter TagKind.isShared).filter (· == .required) = ts.filter (· == .required) := by
  simp only [TagSet.filter, List.filter_filter, TagKind.required_and_isShared]

-- of the annotator's tags only the title and the description are shared, and the member has both
theorem filter_shared_annotate (a : Annotator) (node : Value) :
    (a.annotate (coreTags node) node).filter TagKind.isShared = coreTags node := by
  obtain ⟨ts, hts, hannotate⟩ := Annotator.exists_annotate_eq node a
  have hcore : (coreTags node).filter TagKind.isShared = coreTags node :=
    TagSet.filter_eq_self _ fun t ht => by
      rcases kind_of_mem_coreTags ht with h | h | h <;> simp [h, TagKind.isShared]
  rw [hannotate, TagSet.filter_insertAll _ _ (sorted_coreTags node), hcore]
  apply TagSet.insertAll_eq_self
  intro t ht
  obtain ⟨hform, hshared⟩ := List.mem_filter.mp ht
  exact insert_coreTags (hts t hform)
    ((Annotator.kind_of_mem_formTags (hts t hform)).2 (TagKind.isForm_of_isShared hshared))

theorem filter_shared_memberSpec (c : Compiler) (name target : String) (ty : MemberType)
    (resolved : Value) (owner : String) :
    (c.memberSpec name target ty resolved owner).tags.filter TagKind.isShared = coreTags resolved := by
  have hannotated := filter_shared_annotate c.annotator resolved
  simp only [memberSpec]
  split
  · -- the constraint tags are of kinds that are not shared
    have hnone : (Constraint.tags resolved).filter (TagKind.isShared ·.kind) = [] :=
      List.filter_eq_nil_iff.mpr fun t ht => by
        simp [TagKind.isShared_of_isConstraint (Constraint.kind_of_mem_tags ht).1]
    rw [TagSet.filter_insertAll _ _ (Annotator.sorted_annotate _ (sorted_coreTags resolved) _),
      hannotated, hnone]
    rfl
  · exact hannotated

theorem filter_required_coreTags (node : Value) :
    ((coreTags node).filter (· == .required)).tags = (requiredTag? node).toList := by
  simp only [TagSet.filter, coreTags_tags]
  -- the title and the description are of other kinds
  unfold requiredTag?
  split <;> cases Keyword.nonEmptyText node "title" <;> cases Keyword.nonEmptyText node "description" <;>
    simp [Tag.kind]

theorem sharesTags_memberSpec {c : Compiler} (haccessors : c.settings.includeAccessors = true)
    (name target : String) (ty : MemberType) (resolved : Value) (owner : String) :
    SharesTags false resolved (c.memberSpec name target ty resolved owner) where
  sorted := sorted_memberSpec c name target ty resolved owner
  getter := by
    rw [filter_shared_memberSpec]
    simp [memberSpec, haccessors]
  setter := by
    rw [filter_shared_memberSpec]
    simp [memberSpec, haccessors]
  required := by
    rw [← filter_required_of_shared, filter_shared_memberSpec, filter_required_coreTags]
    rfl

theorem tags_markAccessor (o : Option Accessor) :
    (o.map fun a => { a with tags := markTags a.tags }).map Accessor.tags =
      (o.map Accessor.tags).map markTags := by
  cases o <;> rfl

theorem markTags_requiredTags (listed : Bool) (resolved : Value) :
    (markTags ⟨requiredTags listed resolved⟩).tags = requiredTags true resolved := by
  cases listed with
  | true => rfl
  | false =>
    simp only [requiredTags, Bool.false_eq_true, if_false]
    unfold requiredTag?
    split
    · rename_i b _
      cases b <;> rfl
    · rfl

theorem SharesTags.markMember {listed : Bool} {resolved : Value} {m : Member}
    (h : SharesTags listed resolved m) : SharesTags true resolved (markMember m) where
  sorted := sorted_markTags h.sorted
  getter := by
    show (m.getter.map _).map Accessor.tags = some ((markTags m.tags).filter TagKind.isShared)
    rw [tags_markAccessor, h.getter, filter_markTags _ rfl h.sorted]
    rfl
  setter := by
    show (m.setter.map _).map Accessor.tags = some ((markTags m.tags).filter TagKind.isShared)
    rw [tags_markAccessor, h.setter, filter_markTags _ rfl h.sorted]
    rfl
  required := by
    show ((markTags m.tags).filter (· == .required)).tags = _
    have hset : m.tags.filter (· == .required) = ⟨requiredTags listed resolved⟩ := by
      rw [← h.required]
    rw [filter_markTags _ rfl h.sorted, hset, markTags_requiredTags]

theorem SharesTags.withOrder {listed : Bool} {resolved : Value} {m : Member}
    (h : SharesTags listed resolved m) (n : Nat) : SharesTags listed resolved { m with order := n } :=
  ⟨h.sorted, h.getter, h.setter, h.required⟩

-- a name that no two members share marks exactly the member of that name
theorem markRequired_members {cls : ClassModel} (hnodup : (cls.members.map Member.sourceName).Nodup)
    (name : String) :
    (markRequired cls name).members =
      cls.members.map fun m => if m.sourceName = name then markMember m else m := by
  rw [markRequired_eq]
  unfold ClassModel.updateMember
  split
  · rename_i i hi
    obtain ⟨hlt, hname, -⟩ := List.findIdx?_eq_some_iff_getElem.mp hi
    have hiname : cls.members[i].sourceName = name := by simpa using hname
    apply List.ext_getElem?
    intro j
    rw [List.getElem?_modify, List.getElem?_map]
    rcases hj : cls.members[j]? with _ | m
    · rfl
    obtain ⟨hjlt, rfl⟩ := List.getElem?_eq_some_iff.mp hj
    by_cases hij : i = j
    · subst hij
      simp [hiname]
    · -- the member at `j` has another name, since no name is taken twice
      have hne : cls.members[j].sourceName ≠ name := by
        intro hjname
        have hi' : i < (cls.members.map Member.sourceName).length := by simpa using hlt
        have hj' : j < (cls.members.map Member.sourceName).length := by simpa using hjlt
        have hsame : (cls.members.map Member.sourceName)[i] = (cls.members.map Member.sourceName)[j] := by
          simp [hiname, hjname]
        exact hij ((List.Nodup.getElem_inj_iff hnodup).mp hsame)
      simp [hij, hne]
  · rename_i hnone
    have hall := List.findIdx?_eq_none_iff.mp hnone
    show cls.members = _
    conv_lhs => rw [← List.map_id cls.members]
    exact List.map_congr_left fun m hm => (if_neg (by simpa using hall m hm)).symm

/-- Marking names one after the other keeps, at each position, whatever a member keeps when it
is marked; a member counts as listed once one of the names marked so far is its own. -/
theorem foldl_markRequired (Q : Nat → Bool → Member → Prop)
    (hmark : ∀ i listed m, Q i listed m → Q i true (markMember m)) (names : List String) :
    ∀ (done : List String) (cls : ClassModel), (cls.members.map Member.sourceName).Nodup →
      (∀ i m, cls.members[i]? = some m → Q i (decide (m.sourceName ∈ done)) m) →
      ∀ i m, (names.foldl markRequired cls).members[i]? = some m →
        Q i (decide (m.sourceName ∈ done ++ names)) m := by
  induction names with
  | nil =>
    intro done cls _ hQ
    simpa using hQ
  | cons name names ih =>
    intro done cls hnodup hQ
    have hnodup' : ((markRequired cls name).members.map Member.sourceName).Nodup := by
      rw [sourceName_markRequired]
      exact hnodup
    have hstep : ∀ i m, (markRequired cls name).members[i]? = some m →
        Q i (decide (m.sourceName ∈ done ++ [name])) m := by
      intro i m hm
      rw [markRequired_members hnodup, List.getElem?_map] at hm
      obtain ⟨m₀, hm₀, rfl⟩ := Option.map_eq_some_iff.mp hm
      by_cases hname : m₀.sourceName = name
      · -- the member of this name is marked, and is listed from now on
        have hsource : (markMember m₀).sourceName = name := hname
        rw [if_pos hname, hsource, decide_eq_true (List.mem_append_right done (List.mem_singleton_self name))]
        exact hmark i _ m₀ (hQ i m₀ hm₀)
      · rw [if_neg hname]
        simp only [List.mem_append, List.mem_singleton, hname, or_false]
        exact hQ i m₀ hm₀
    intro i m hm
    rw [List.foldl_cons] at hm
    simpa using ih (done ++ [name]) _ hnodup' hstep i m hm

/-- The schema the property at position `i` resolves to when its member is compiled from session
`s`: the members before it compile, its type is lowered, and its references are followed. -/
def ResolvesAt (c : Compiler) (p : Pending) (s : Session) (i : Nat) (resolved : Value) : Prop :=
  ∃ field cls s₁ ty s₂ s₃, (propertyFields p.node)[i]? = some field ∧
    (((propertyFields p.node).take i).foldlM (c.memberStep p) (c.emptyClass p)).run.run s =
      (.ok cls, s₁) ∧
    (Session.typeFor c.naming field.1 field.2 p.context).run.run s₁ = (.ok ty, s₂) ∧
    (Session.resolveRefs field.2 p.context).run.run s₂ = (.ok resolved, s₃)

-- the members the loop has built so far, none of them listed yet; the induction is on how many
-- properties it has compiled, so that each member is met with the run of the ones before it
theorem foldlM_take_sharesTags {c : Compiler} {p : Pending}
    (haccessors : c.settings.includeAccessors = true) (s : Session) (k : Nat) :
    ∀ cls s', (((propertyFields p.node).take k).foldlM (c.memberStep p) (c.emptyClass p)).run.run s =
        (.ok cls, s') →
      ∀ i m, cls.members[i]? = some m → ∃ resolved, ResolvesAt c p s i resolved ∧
        SharesTags false resolved m := by
  induction k with
  | zero =>
    intro cls s' hrun i m hm
    rw [List.take_zero, List.foldlM_nil] at hrun
    obtain ⟨rfl, -⟩ := run_pure_eq_ok.mp hrun
    simp [emptyClass] at hm
  | succ k ih =>
    intro cls s' hrun i m hm
    rw [List.take_add_one, List.foldlM_append] at hrun
    obtain ⟨cls₀, s₀, hprefix, hrest⟩ := run_bind_eq_ok.mp hrun
    rcases hfield : (propertyFields p.node)[k]? with _ | field
    · rw [hfield, Option.toList_none, List.foldlM_nil] at hrest
      obtain ⟨rfl, -⟩ := run_pure_eq_ok.mp hrest
      exact ih cls₀ s₀ hprefix i m hm
    simp only [hfield, Option.toList_some, List.foldlM_cons, List.foldlM_nil, bind_pure] at hrest
    obtain ⟨target, ty, resolved, s₁, -, -, hty, hresolved, rfl⟩ := memberStep_ok hrest
    -- the members before are those of the first `k` properties
    have hlength : cls₀.members.length = k := by
      have hmembers := (foldlM_membersOf _ [] _ (membersOf_emptyClass c.naming c p) hprefix).1
      have hk : k < (propertyFields p.node).length := (List.getElem?_eq_some_iff.mp hfield).1
      rw [hmembers.length_members, List.nil_append, List.length_take]
      omega
    rcases Nat.lt_or_ge i k with hi | hi
    · rw [ClassModel.appendMember, List.getElem?_append_left (hlength ▸ hi)] at hm
      exact ih cls₀ s₀ hprefix i m hm
    · -- the new member is the last one, at position `k`
      rw [ClassModel.appendMember, List.getElem?_append_right (hlength ▸ hi)] at hm
      obtain ⟨hn, hx⟩ := List.getElem?_eq_some_iff.mp hm
      have hik : i = k := by simp at hn; omega
      rw [List.getElem_singleton] at hx
      subst hx hik
      exact ⟨resolved, ⟨field, cls₀, s₀, ty, s₁, s', hfield, hprefix, hty, hresolved⟩,
        (sharesTags_memberSpec haccessors _ _ _ _ _).withOrder _⟩

/-- With accessors on, every member of a compiled class shares its title, description and
`required` tags with its accessors; the property is listed as required when the schema's
`required` array names it. -/
theorem compileClass_sharesTags {c : Compiler} {p : Pending} {s s' : Session} {cls : ClassModel}
    (haccessors : c.settings.includeAccessors = true)
    (hrun : (c.compileClass p).run.run s = (.ok cls, s')) :
    ∀ i m, cls.members[i]? = some m → ∃ resolved, ResolvesAt c p s i resolved ∧
      SharesTags (decide (m.sourceName ∈ requiredNames p.node)) resolved m := by
  rw [compileClass_eq] at hrun
  obtain ⟨cls₁, s₁, hmembers, hrest⟩ := run_bind_eq_ok.mp hrun
  obtain ⟨additional, s₂, -, hfinish⟩ := run_bind_eq_ok.mp hrest
  obtain ⟨rfl, -⟩ := run_pure_eq_ok.mp hfinish
  have hnodup := (compileMembers_membersOf hmembers).1.sources_nodup
  rw [compileMembers_eq, ← List.take_length (l := propertyFields p.node)] at hmembers
  have hbuilt := foldlM_take_sharesTags haccessors s _ _ _ hmembers
  intro i m hm
  -- the presentation order and the additional type leave the members as marked
  have hmarked : ((requiredNames p.node).foldl markRequired cls₁).members[i]? = some m := by
    rw [← markAll_eq, ← members_orderBy c.annotator p.node]
    exact hm
  have := foldl_markRequired (fun i listed m => ∃ resolved, ResolvesAt c p s i resolved ∧
      SharesTags listed resolved m)
    (fun _ _ _ ⟨resolved, hat, hshares⟩ => ⟨resolved, hat, hshares.markMember⟩)
    (requiredNames p.node) [] cls₁ hnodup (by simpa using hbuilt) i m hmarked
  simpa using this

/-- With accessors on, each member of a compiled class and its two accessors agree on the shared
tags: each accessor holds exactly the member's title, description and `required` tags, whatever
the annotator and the constraints add to the member. Each of the three sets holds at most one
`required` tag: `required true` when the class schema's `required` array names the property or
the schema the property resolves to says `required: true`, and `required false` when neither
holds and that schema says `required: false`. -/
theorem accessors_share_core_tags (c : Compiler) (p : Pending)
    (haccessors : c.settings.includeAccessors = true) {s s' : Session} {cls : ClassModel}
    (hrun : (c.compileClass p).run.run s = (.ok cls, s')) :
    ∀ i m, cls.members[i]? = some m → ∃ resolved, ResolvesAt c p s i resolved ∧
      m.getter.map Accessor.tags = some (m.tags.filter TagKind.isShared) ∧
      m.setter.map Accessor.tags = some (m.tags.filter TagKind.isShared) ∧
      RequiredAs (decide (m.sourceName ∈ requiredNames p.node)) resolved m.tags ∧
      RequiredAs (decide (m.sourceName ∈ requiredNames p.node)) resolved
        (m.tags.filter TagKind.isShared) := by
  intro i m hm
  obtain ⟨resolved, hat, hshares⟩ := compileClass_sharesTags haccessors hrun i m hm
  have haccessorRequired := hshares.required
  rw [← filter_required_of_shared] at haccessorRequired
  exact ⟨resolved, hat, hshares.getter, hshares.setter, .of_filter hshares.required,
    .of_filter haccessorRequired⟩

/-- A property the class lists as required, whose own schema says `required: false`, beside one
whose schema says `required: true`: under the default settings the class compiles, and both
members and their accessors hold `required true` alone. -/
theorem listed_and_flagged_members_are_required :
    let c := Compiler.ofSettings {}
    let p : Pending := ⟨"Person", .object [
      ("properties", .object [
        ("name", .object [("type", .string "string"), ("title", .string "Name"),
          ("required", .bool false), ("maxLength", .number (.natural 20))]),
        ("age", .object [("type", .string "integer"), ("required", .bool true)])]),
      ("required", .array [.string "name"])], 0⟩
    let s : Session := ⟨Store.empty (.ofDocuments []) .utf8 .lenient, {}⟩
    ∃ cls s', (c.compileClass p).run.run s = (.ok cls, s') ∧
      ∀ i m, cls.members[i]? = some m → ∃ resolved, ResolvesAt c p s i resolved ∧
        m.getter.map Accessor.tags = some (m.tags.filter TagKind.isShared) ∧
        m.setter.map Accessor.tags = some (m.tags.filter TagKind.isShared) ∧
        RequiredAs (decide (m.sourceName ∈ requiredNames p.node)) resolved m.tags ∧
        RequiredAs (decide (m.sourceName ∈ requiredNames p.node)) resolved
          (m.tags.filter TagKind.isShared) := by
  intro c p s
  have hok : ((c.compileClass p).run.run s).1.toBool = true := by
    dsimp only [c, p, s]
    decide +kernel
  obtain ⟨cls, hrun⟩ := exists_ok_of_toBool hok
  exact ⟨cls, _, hrun, accessors_share_core_tags c p rfl hrun⟩

end Compiler

end SchemaModel

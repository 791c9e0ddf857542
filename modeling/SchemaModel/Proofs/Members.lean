import SchemaModel.Proofs.Knobs
/-!
# The member loop

A queued class gets its members from the `properties` of its schema, one after the other, each
appended to the class the previous ones built. The loop is a fold of one step per property
(`memberStep`); each step names the member by the identifier of its property's name, refuses an
identifier the class has taken, and appends the member. The step checks the identifier itself
before anything else can change the class, so the check that adding a member makes again never
fails (`compileMember_appends`).

What the loop keeps is `MembersOf`: the members are those of the properties compiled so far, in
order, named by their identifiers, numbered by their positions, no identifier twice. Marking the
required members and ordering the presentation keep it, since they change neither where a
member comes from nor its identifier or position. A property whose identifier was taken before
it stops the class there.
-/

namespace SchemaModel

/-- A class with a member added at the end, numbered by its position. -/
def ClassModel.appendMember (cls : ClassModel) (m : Member) : ClassModel :=
  { cls with members := cls.members ++ [{ m with order := cls.members.length }] }

theorem ClassModel.addMember_of_fresh {cls : ClassModel} {m : Member}
    (hfresh : cls.hasMember m.targetName = false) : cls.addMember m = .ok (cls.appendMember m) := by
  unfold addMember
  rw [if_neg (by simp [hfresh])]
  rfl

/-- The property a member comes from, its identifier and its position. -/
def Member.place (m : Member) : String × String × Nat := (m.sourceName, m.targetName, m.order)

namespace Compiler

/-- The properties of a class schema: the fields of its `properties` object, and none when it
has no such object. -/
def propertyFields (node : Value) : List (String × Value) :=
  match node.get? "properties" with
  | some (.object fields) => fields
  | _ => []

/-- A queued class before any member. -/
def emptyClass (c : Compiler) (p : Pending) : ClassModel :=
  { name := p.name, package := c.settings.targetPackage }

/-- One turn of the member loop: the member of a property, its errors placed at the property. -/
def memberStep (c : Compiler) (p : Pending) (cls : ClassModel) (field : String × Value) :
    CompileM ClassModel :=
  Session.atMember p.name field.1 (c.compileMember field.1 field.2 cls p.context)

theorem compileMembers_eq (c : Compiler) (p : Pending) :
    c.compileMembers p = (propertyFields p.node).foldlM (c.memberStep p) (c.emptyClass p) := by
  unfold compileMembers propertyFields
  rcases p.node.get? "properties" with _ | _ | _ | _ | _ | _ | fields <;> rfl

/-- Compiling a member appends it: once the identifier is checked to be new, adding the member
cannot be refused. -/
theorem compileMember_appends (c : Compiler) (name : String) (node : Value) (cls : ClassModel)
    (enclosing : Nat) :
    c.compileMember name node cls enclosing = (do
      let target ← Session.liftNaming (c.naming.propertyName name)
      if cls.hasMember target then throw (.configuration (.duplicateMember cls.name target))
      let ty ← Session.typeFor c.naming name node enclosing
      let resolved ← Session.resolveRefs node enclosing
      pure (cls.appendMember (c.memberSpec name target ty resolved cls.name))) := by
  rw [compileMember_eq]
  cases hname : c.naming.propertyName name with
  | error e => rfl
  | ok target =>
    simp only [liftNaming_ok, pure_bind]
    split
    · rfl
    · rename_i hfresh
      refine bind_congr fun ty => bind_congr fun resolved => ?_
      have hadd : cls.addMember (c.memberSpec name target ty resolved cls.name) =
          .ok (cls.appendMember (c.memberSpec name target ty resolved cls.name)) :=
        ClassModel.addMember_of_fresh (by show cls.hasMember target = false; simpa using hfresh)
      rw [memberOf_eq_ok hname]
      show Session.liftNaming (cls.addMember _) = _
      rw [hadd]
      rfl

/-- The members of a class are those of the properties `fields`, in order: one for each, from its
name, named by the identifier of that name, numbered by its position, no identifier twice. -/
structure MembersOf (naming : Naming) (fields : List (String × Value)) (cls : ClassModel) : Prop where
  sources : cls.members.map Member.sourceName = fields.map Prod.fst
  named : ∀ m ∈ cls.members, naming.propertyName m.sourceName = .ok m.targetName
  numbered : cls.members.map Member.order = List.range fields.length
  distinct : (cls.members.map Member.targetName).Nodup

section Members

variable {naming : Naming} {pre : List (String × Value)} {cls : ClassModel}

theorem membersOf_emptyClass (naming : Naming) (c : Compiler) (p : Pending) :
    MembersOf naming [] (c.emptyClass p) :=
  ⟨rfl, fun _ hm => absurd hm List.not_mem_nil, rfl, List.nodup_nil⟩

theorem MembersOf.hasMember (h : MembersOf naming pre cls) {field : String × Value}
    (hfield : field ∈ pre) {target : String} (htarget : naming.propertyName field.1 = .ok target) :
    cls.hasMember target = true := by
  have hsource : field.1 ∈ cls.members.map Member.sourceName := by
    rw [h.sources]
    exact List.mem_map_of_mem hfield
  obtain ⟨m, hm, hname⟩ := List.mem_map.mp hsource
  have hnamed := h.named m hm
  rw [hname, htarget] at hnamed
  cases hnamed
  exact List.any_eq_true.mpr ⟨m, hm, beq_self_eq_true _⟩

theorem MembersOf.length_members (h : MembersOf naming pre cls) : cls.members.length = pre.length := by
  rw [← List.length_map Member.sourceName, h.sources, List.length_map]

theorem MembersOf.appendMember (h : MembersOf naming pre cls) {name target : String}
    (hname : naming.propertyName name = .ok target) (hfresh : cls.hasMember target = false)
    {m : Member} (hsource : m.sourceName = name) (htarget : m.targetName = target) (node : Value) :
    MembersOf naming (pre ++ [(name, node)]) (cls.appendMember m) := by
  have hlength := h.length_members
  refine ⟨?_, ?_, ?_, ?_⟩
  · simp [ClassModel.appendMember, h.sources, hsource]
  · intro m' hm'
    rcases List.mem_append.mp hm' with hm' | hm'
    · exact h.named m' hm'
    · rw [List.mem_singleton.mp hm', hsource, htarget]
      exact hname
  · simp [ClassModel.appendMember, h.numbered, List.range_succ, hlength]
  · -- the new identifier is not taken
    have hnot : target ∉ cls.members.map Member.targetName := by
      intro hmem
      obtain ⟨m', hm', hm'name⟩ := List.mem_map.mp hmem
      have : cls.hasMember target = true := List.any_eq_true.mpr ⟨m', hm', by simp [hm'name]⟩
      rw [hfresh] at this
      cases this
    simp only [ClassModel.appendMember, List.map_append, List.map_singleton]
    exact List.nodup_append.mpr ⟨h.distinct, List.nodup_singleton _,
      fun a ha b hb => by rw [List.mem_singleton.mp hb, htarget]; exact fun heq => hnot (heq ▸ ha)⟩

-- an identifier is formed from its name, so members of distinct identifiers have distinct names
theorem MembersOf.sources_nodup (h : MembersOf naming pre cls) :
    (cls.members.map Member.sourceName).Nodup := by
  have hmap : cls.members.map Member.targetName =
      (cls.members.map Member.sourceName).map fun n => (naming.propertyName n).toOption.getD "" := by
    rw [List.map_map]
    apply List.map_congr_left
    intro m hm
    simp [h.named m hm, Except.toOption]
  exact List.Nodup.of_map _ (hmap ▸ h.distinct)

end Members

/-- What a turn of the member loop that succeeds did: it named the property by a fresh identifier,
lowered its type and followed its references, in that order, and appended the member. -/
theorem memberStep_ok {c : Compiler} {p : Pending} {cls cls' : ClassModel} {field : String × Value}
    {s s' : Session} (hrun : (c.memberStep p cls field).run.run s = (.ok cls', s')) :
    ∃ target ty resolved s₁, c.naming.propertyName field.1 = .ok target ∧
      cls.hasMember target = false ∧
      (Session.typeFor c.naming field.1 field.2 p.context).run.run s = (.ok ty, s₁) ∧
      (Session.resolveRefs field.2 p.context).run.run s₁ = (.ok resolved, s') ∧
      cls' = cls.appendMember (c.memberSpec field.1 target ty resolved cls.name) := by
  rw [memberStep, Session.atMember_eq_ok, compileMember_appends] at hrun
  obtain ⟨target, s₀, htarget, hrest⟩ := run_bind_eq_ok.mp hrun
  obtain ⟨hname, rfl⟩ := Session.liftNaming_eq_ok htarget
  cases hfresh : cls.hasMember target
  · rw [if_neg (by simp [hfresh])] at hrest
    obtain ⟨ty, s₁, hty, hrest⟩ := run_bind_eq_ok.mp hrest
    obtain ⟨resolved, s₂, hresolved, hadd⟩ := run_bind_eq_ok.mp hrest
    obtain ⟨rfl, rfl⟩ := run_pure_eq_ok.mp hadd
    exact ⟨target, ty, resolved, s₁, hname, hfresh, hty, hresolved, rfl⟩
  · rw [if_pos hfresh] at hrest
    obtain ⟨_, _, hthrow, -⟩ := run_bind_eq_ok.mp hrest
    exact absurd hthrow (run_throw_ne_ok _ _ _ _)

theorem memberStep_membersOf {c : Compiler} {p : Pending} {pre : List (String × Value)}
    {cls cls' : ClassModel} {field : String × Value} {s s' : Session}
    (h : MembersOf c.naming pre cls)
    (hrun : (c.memberStep p cls field).run.run s = (.ok cls', s')) :
    MembersOf c.naming (pre ++ [field]) cls' ∧ cls'.name = cls.name := by
  obtain ⟨target, ty, resolved, s₁, hname, hfresh, -, -, rfl⟩ := memberStep_ok hrun
  exact ⟨h.appendMember hname hfresh rfl rfl field.2, rfl⟩

theorem foldlM_membersOf {c : Compiler} {p : Pending} (fields : List (String × Value)) :
    ∀ (pre : List (String × Value)) (cls : ClassModel) {cls' : ClassModel} {s s' : Session},
      MembersOf c.naming pre cls →
      (fields.foldlM (c.memberStep p) cls).run.run s = (.ok cls', s') →
      MembersOf c.naming (pre ++ fields) cls' ∧ cls'.name = cls.name := by
  induction fields with
  | nil =>
    intro pre cls cls' s s' h hrun
    obtain ⟨rfl, -⟩ := run_pure_eq_ok.mp hrun
    exact ⟨by rw [List.append_nil]; exact h, rfl⟩
  | cons field fields ih =>
    intro pre cls cls' s s' h hrun
    rw [List.foldlM_cons] at hrun
    obtain ⟨cls₁, s₁, hfirst, hrest⟩ := run_bind_eq_ok.mp hrun
    obtain ⟨h₁, hname₁⟩ := memberStep_membersOf h hfirst
    obtain ⟨hall, hname⟩ := ih _ cls₁ h₁ hrest
    rw [List.append_assoc, List.singleton_append] at hall
    exact ⟨hall, hname.trans hname₁⟩

theorem compileMembers_membersOf {c : Compiler} {p : Pending} {cls : ClassModel} {s s' : Session}
    (hrun : (c.compileMembers p).run.run s = (.ok cls, s')) :
    MembersOf c.naming (propertyFields p.node) cls ∧ cls.name = p.name := by
  rw [compileMembers_eq] at hrun
  exact foldlM_membersOf _ [] _ (membersOf_emptyClass c.naming c p) hrun

theorem place_markRequired (cls : ClassModel) (name : String) :
    (markRequired cls name).members.map Member.place = cls.members.map Member.place := by
  rw [markRequired_eq]
  unfold ClassModel.updateMember
  split
  · dsimp only
    rw [@List.map_modify Member _ markMember id Member.place cls.members _ fun _ _ => rfl,
      List.modify_id]
  · rfl

theorem place_markAll (node : Value) (cls : ClassModel) :
    (markAll node cls).members.map Member.place = cls.members.map Member.place := by
  unfold markAll
  split
  · rename_i names _
    induction (names.filterMap Value.asString?) generalizing cls with
    | nil => rfl
    | cons name names ih => rw [List.foldl_cons, ih, place_markRequired]
  · rfl

theorem members_orderBy (a : Annotator) (node : Value) (cls : ClassModel) :
    (orderBy a node cls).members = cls.members := by
  unfold orderBy
  split <;> rfl

theorem map_place {β : Type} (g : String × String × Nat → β) (members : List Member) :
    (members.map Member.place).map g = members.map (fun m => g m.place) := by
  rw [List.map_map]
  rfl

theorem sourceName_markRequired (cls : ClassModel) (name : String) :
    (markRequired cls name).members.map Member.sourceName = cls.members.map Member.sourceName := by
  have h := congrArg (List.map Prod.fst) (place_markRequired cls name)
  rw [map_place, map_place] at h
  exact h

-- `MembersOf` reads each member only through its place
theorem MembersOf.of_place {naming : Naming} {fields : List (String × Value)} {cls cls' : ClassModel}
    (h : MembersOf naming fields cls)
    (hplace : cls'.members.map Member.place = cls.members.map Member.place) :
    MembersOf naming fields cls' := by
  have hmap : ∀ {β : Type} (g : String × String × Nat → β),
      cls'.members.map (fun m => g m.place) = cls.members.map (fun m => g m.place) := by
    intro β g
    rw [← map_place, hplace, map_place]
  refine ⟨?_, ?_, ?_, ?_⟩
  · rw [← h.sources]
    exact hmap Prod.fst
  · intro m' hm'
    obtain ⟨m, hm, hsame⟩ := List.mem_map.mp (hplace ▸ List.mem_map_of_mem hm' : m'.place ∈ _)
    simp only [Member.place, Prod.mk.injEq] at hsame
    rw [← hsame.1, ← hsame.2.1]
    exact h.named m hm
  · rw [← h.numbered]
    exact hmap fun x => x.2.2
  · show (cls'.members.map fun m => m.place.2.1).Nodup
    rw [hmap fun x => x.2.1]
    exact h.distinct

theorem compileClass_membersOf {c : Compiler} {p : Pending} {cls : ClassModel} {s s' : Session}
    (hrun : (c.compileClass p).run.run s = (.ok cls, s')) :
    MembersOf c.naming (propertyFields p.node) cls := by
  rw [compileClass_eq] at hrun
  obtain ⟨cls₁, s₁, hmembers, hrest⟩ := run_bind_eq_ok.mp hrun
  obtain ⟨additional, s₂, -, hfinish⟩ := run_bind_eq_ok.mp hrest
  obtain ⟨rfl, -⟩ := run_pure_eq_ok.mp hfinish
  -- the required marks and the presentation order leave the members in place
  refine (compileMembers_membersOf hmembers).1.of_place ?_
  exact (congrArg (List.map Member.place) (members_orderBy _ _ _)).trans (place_markAll _ _)

theorem memberStep_taken {c : Compiler} {p : Pending} {cls : ClassModel} {name target : String}
    (hname : c.naming.propertyName name = .ok target) (htaken : cls.hasMember target = true)
    (node : Value) (s : Session) :
    (c.memberStep p cls (name, node)).run.run s =
      (.error (.inMember p.name name (.configuration (.duplicateMember cls.name target))), s) := by
  have hthrow : (c.compileMember name node cls p.context).run.run s =
      (.error (.configuration (.duplicateMember cls.name target)), s) := by
    rw [compileMember_appends, run_bind, hname, liftNaming_ok, run_pure]
    dsimp only
    rw [if_pos htaken, run_bind, run_throw]
  rw [memberStep, Session.atMember_run, hthrow]
  rfl

/-- Where a property's identifier is that of an earlier property, compiling the class fails:
with the members before it compiled, at that property; else with the earlier failure. -/
theorem compileClass_of_taken {c : Compiler} {p : Pending} {pre post : List (String × Value)}
    {name target : String} {node : Value}
    (hprops : propertyFields p.node = pre ++ (name, node) :: post)
    (hname : c.naming.propertyName name = .ok target)
    (htaken : ∃ field ∈ pre, c.naming.propertyName field.1 = .ok target) (s : Session) :
    (∀ cls s₁, (pre.foldlM (c.memberStep p) (c.emptyClass p)).run.run s = (.ok cls, s₁) →
      (c.compileClass p).run.run s =
        (.error (.inMember p.name name (.configuration (.duplicateMember p.name target))), s₁)) ∧
    (∀ e s₁, (pre.foldlM (c.memberStep p) (c.emptyClass p)).run.run s = (.error e, s₁) →
      (c.compileClass p).run.run s = (.error e, s₁)) := by
  have hclass : c.compileClass p = (do
      let cls ← pre.foldlM (c.memberStep p) (c.emptyClass p)
      let cls ← ((name, node) :: post).foldlM (c.memberStep p) cls
      let additional ← c.additionalType p
      pure { orderBy c.annotator p.node (markAll p.node cls) with additional }) := by
    rw [compileClass_eq, compileMembers_eq, hprops, List.foldlM_append, bind_assoc]
  constructor
  · intro cls s₁ hpre
    -- the members before it are those of `pre`, one of which took the identifier
    obtain ⟨hmembers, hclassName⟩ := foldlM_membersOf pre [] _ (membersOf_emptyClass c.naming c p) hpre
    obtain ⟨field, hfield, htarget⟩ := htaken
    have htakenHere := hmembers.hasMember hfield htarget
    rw [hclass, run_bind, hpre]
    dsimp only
    rw [List.foldlM_cons, bind_assoc, run_bind, memberStep_taken hname htakenHere node s₁, hclassName]
    rfl
  · intro e s₁ hpre
    rw [hclass, run_bind, hpre]

-- a run that succeeds, taken apart without naming its value
theorem exists_ok_of_toBool {ε α σ : Type} {r : Except ε α × σ} (h : r.1.toBool = true) :
    ∃ a, r = (.ok a, r.2) := by
  obtain ⟨_ | a, s⟩ := r
  · cases h
  · exact ⟨a, rfl⟩

/-- A class compiled from a schema has one member for each property of its `properties` object,
and none if that is no object: in document order, each named by the identifier of its property's
name and numbered by its position, no identifier twice. Where a property's identifier is that of
an earlier property, the class fails at that property, unless a property before it failed first;
so adding a member, after the loop checked its identifier, is never refused. -/
theorem members_follow_properties (c : Compiler) (p : Pending) :
    (∀ s cls s', (c.compileClass p).run.run s = (.ok cls, s') →
      MembersOf c.naming (propertyFields p.node) cls) ∧
    (∀ pre name node post target, propertyFields p.node = pre ++ (name, node) :: post →
      c.naming.propertyName name = .ok target →
      (∃ field ∈ pre, c.naming.propertyName field.1 = .ok target) → ∀ s,
      (∀ cls s₁, (pre.foldlM (c.memberStep p) (c.emptyClass p)).run.run s = (.ok cls, s₁) →
        (c.compileClass p).run.run s =
          (.error (.inMember p.name name (.configuration (.duplicateMember p.name target))), s₁)) ∧
      (∀ e s₁, (pre.foldlM (c.memberStep p) (c.emptyClass p)).run.run s = (.error e, s₁) →
        (c.compileClass p).run.run s = (.error e, s₁))) ∧
    (∀ name node cls enclosing, c.compileMember name node cls enclosing = (do
      let target ← Session.liftNaming (c.naming.propertyName name)
      if cls.hasMember target then throw (.configuration (.duplicateMember cls.name target))
      let ty ← Session.typeFor c.naming name node enclosing
      let resolved ← Session.resolveRefs node enclosing
      pure (cls.appendMember (c.memberSpec name target ty resolved cls.name)))) :=
  ⟨fun _ _ _ hrun => compileClass_membersOf hrun,
    fun _ _ _ _ _ hprops hname htaken => compileClass_of_taken hprops hname htaken,
    compileMember_appends c⟩

/-- Two spellings of one identifier: the second property stops the class, once the first one
has been compiled. -/
theorem spellings_of_one_identifier_collide :
    let c := Compiler.ofSettings {}
    let p : Pending := ⟨"Person", .object [("properties", .object [("first-name", .object []),
      ("first_name", .object [])])], 0⟩
    let s : Session := ⟨Store.empty (.ofDocuments []) .utf8 .lenient, {}⟩
    let pre : List (String × Value) := [("first-name", .object [])]
    let run := (pre.foldlM (c.memberStep p) (c.emptyClass p)).run.run s
    propertyFields p.node = pre ++ [("first_name", .object [])] ∧
      c.naming.propertyName "first_name" = .ok "firstName" ∧
      (∃ field ∈ pre, c.naming.propertyName field.1 = .ok "firstName") ∧
      run.1.toBool = true ∧
      (c.compileClass p).run.run s = (.error (.inMember "Person" "first_name"
        (.configuration (.duplicateMember "Person" "firstName"))), run.2) := by
  intro c p s pre run
  have hprops : propertyFields p.node = pre ++ [("first_name", .object [])] := rfl
  have hname : c.naming.propertyName "first_name" = .ok "firstName" := by
    dsimp only [c]
    decide +kernel
  have htaken : ∃ field ∈ pre, c.naming.propertyName field.1 = .ok "firstName" := by
    refine ⟨_, List.mem_singleton_self _, ?_⟩
    dsimp only [c]
    decide +kernel
  have hok : run.1.toBool = true := by
    dsimp only [run, pre, p, c, s]
    decide +kernel
  refine ⟨hprops, hname, htaken, hok, ?_⟩
  -- the member before it compiles, so the class stops at the second spelling
  obtain ⟨cls, hrun⟩ := exists_ok_of_toBool hok
  exact ((members_follow_properties c p).2.1 pre "first_name" (.object []) [] "firstName" hprops hname
    htaken s).1 cls run.2 hrun

end Compiler

end SchemaModel

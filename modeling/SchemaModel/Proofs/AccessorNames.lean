import SchemaModel.Proofs.AccessorTags
import SchemaModel.Proofs.Identifiers
/-!
# Accessor and builder names

A member's getter is named `get` (or `is`, for a boolean) followed by the member's identifier
capitalised, its setter `set` followed by the same, and its builder `with` followed by the
identifier capitalised after its words are joined. The member loop keeps identifiers distinct, and
nothing else: two identifiers that differ only in the case of their first letter, such as `aB`
(from `a_b`) and `AB`, are both accepted and get one getter, one setter and one builder name.

So the accessor names of a compiled class are distinct exactly when the capitalised identifiers
are (for getters, together with whether the member is boolean). With no letter or digit among the
word delimiters, the same holds of builder names: joining words only drops the `_` that guards a
leading digit, and capitalising puts it back (`Naming.builderName_eq_iff`).
-/

namespace SchemaModel

/-- Mapped lists are free of repeats alike when the two maps tell the same elements apart. -/
theorem List.nodup_map_iff_of_eq_iff {α β γ : Type} {l : List α} {f : α → β} {g : α → γ}
    (h : ∀ a ∈ l, ∀ b ∈ l, f a = f b ↔ g a = g b) : (l.map f).Nodup ↔ (l.map g).Nodup := by
  rw [List.nodup_iff_pairwise_ne, List.nodup_iff_pairwise_ne, List.pairwise_map, List.pairwise_map]
  exact List.Pairwise.iff_of_mem fun ha hb => not_congr (h _ ha _ hb)

namespace Compiler

/-- The accessors and the builder of a member are named after its identifier, when the settings
ask for them. -/
structure NamedAfter (c : Compiler) (m : Member) : Prop where
  getter : c.settings.includeAccessors = true →
    m.getter.map Accessor.name =
      some ((if m.type.isBoolean then "is" else "get") ++ Naming.capitalize m.targetName)
  setter : c.settings.includeAccessors = true →
    m.setter.map Accessor.name = some ("set" ++ Naming.capitalize m.targetName)
  builder : c.settings.generateBuilders = true →
    m.builder.map Builder.name = some (c.naming.builderName m.targetName)

section Named

variable {c : Compiler}

theorem namedAfter_memberSpec (name target : String) (ty : MemberType) (resolved : Value)
    (owner : String) : NamedAfter c (c.memberSpec name target ty resolved owner) where
  getter h := by simp [memberSpec, h]
  setter h := by simp [memberSpec, h]
  builder h := by simp [memberSpec, h]

theorem NamedAfter.withOrder {m : Member} (h : NamedAfter c m) (k : Nat) :
    NamedAfter c { m with order := k } :=
  ⟨h.getter, h.setter, h.builder⟩

/-- Marking a member required changes its tags only. -/
theorem NamedAfter.markMember {m : Member} (h : NamedAfter c m) : NamedAfter c (markMember m) where
  getter hacc := by
    show (m.getter.map fun a => { a with tags := markTags a.tags }).map Accessor.name =
      some ((if m.type.isBoolean then "is" else "get") ++ Naming.capitalize m.targetName)
    rw [Option.map_map]
    exact h.getter hacc
  setter hacc := by
    show (m.setter.map fun a => { a with tags := markTags a.tags }).map Accessor.name =
      some ("set" ++ Naming.capitalize m.targetName)
    rw [Option.map_map]
    exact h.setter hacc
  builder := h.builder

theorem namedAfter_markRequired {cls : ClassModel} (hcls : ∀ m ∈ cls.members, NamedAfter c m)
    (name : String) : ∀ m ∈ (markRequired cls name).members, NamedAfter c m := by
  rw [markRequired_eq]
  unfold ClassModel.updateMember
  split
  · exact List.forall_mem_modify _ (fun _ hm => hm.markMember) _ _ hcls
  · exact hcls

theorem namedAfter_markAll {cls : ClassModel} (hcls : ∀ m ∈ cls.members, NamedAfter c m)
    (node : Value) : ∀ m ∈ (markAll node cls).members, NamedAfter c m := by
  rw [markAll_eq]
  induction requiredNames node generalizing cls with
  | nil => exact hcls
  | cons name names ih => exact ih (namedAfter_markRequired hcls name)

/-- Each turn of the member loop appends a member named after its identifier. -/
theorem foldlM_namedAfter {p : Pending} (fields : List (String × Value)) :
    ∀ (cls : ClassModel) {cls' : ClassModel} {s s' : Session},
      (∀ m ∈ cls.members, NamedAfter c m) →
      (fields.foldlM (c.memberStep p) cls).run.run s = (.ok cls', s') →
      ∀ m ∈ cls'.members, NamedAfter c m := by
  induction fields with
  | nil =>
    intro cls cls' s s' hcls hrun
    obtain ⟨rfl, -⟩ := run_pure_eq_ok.mp hrun
    exact hcls
  | cons field fields ih =>
    intro cls cls' s s' hcls hrun
    rw [List.foldlM_cons] at hrun
    obtain ⟨cls₁, s₁, hfirst, hrest⟩ := run_bind_eq_ok.mp hrun
    obtain ⟨target, ty, resolved, -, -, -, -, -, rfl⟩ := memberStep_ok hfirst
    refine ih _ (fun m hm => ?_) hrest
    rcases List.mem_append.mp hm with hm | hm
    · exact hcls m hm
    · rw [List.mem_singleton.mp hm]
      exact (namedAfter_memberSpec _ _ _ _ _).withOrder _

theorem compileClass_namedAfter {p : Pending} {s s' : Session} {cls : ClassModel}
    (hrun : (c.compileClass p).run.run s = (.ok cls, s')) : ∀ m ∈ cls.members, NamedAfter c m := by
  rw [compileClass_eq] at hrun
  obtain ⟨cls₁, s₁, hmembers, hrest⟩ := run_bind_eq_ok.mp hrun
  obtain ⟨additional, s₂, -, hfinish⟩ := run_bind_eq_ok.mp hrest
  obtain ⟨rfl, -⟩ := run_pure_eq_ok.mp hfinish
  rw [compileMembers_eq] at hmembers
  have hbuilt := foldlM_namedAfter _ _ (fun _ hm => absurd hm List.not_mem_nil) hmembers
  -- the required marks keep the names, and the presentation order keeps the members
  intro m hm
  rw [members_orderBy] at hm
  exact namedAfter_markAll hbuilt p.node m hm

end Named

/-! ### When names clash -/

theorem getterPrefix_append_inj {b b' : Bool} {t t' : String}
    (h : (if b then "is" else "get") ++ t = (if b' then "is" else "get") ++ t') : b = b' ∧ t = t' := by
  -- `is` and `get` start with different letters
  have hhead := congrArg (fun s : String => s.toList.head?) h
  cases b <;> cases b' <;> simp [String.toList_append] at h hhead ⊢ <;> exact h

/-- With accessors on, two getters of a compiled class share a name exactly when the members agree
on being boolean and on their identifier capitalised, and two setters exactly when the members'
identifiers capitalised agree. -/
theorem accessor_names_eq_iff {c : Compiler} {p : Pending} {s s' : Session} {cls : ClassModel}
    (hrun : (c.compileClass p).run.run s = (.ok cls, s'))
    (haccessors : c.settings.includeAccessors = true) {m m' : Member} (hm : m ∈ cls.members)
    (hm' : m' ∈ cls.members) :
    (m.getter.map Accessor.name = m'.getter.map Accessor.name ↔
      (m.type.isBoolean, Naming.capitalize m.targetName) =
        (m'.type.isBoolean, Naming.capitalize m'.targetName)) ∧
    (m.setter.map Accessor.name = m'.setter.map Accessor.name ↔
      Naming.capitalize m.targetName = Naming.capitalize m'.targetName) := by
  have hnamed := compileClass_namedAfter hrun
  rw [(hnamed m hm).getter haccessors, (hnamed m' hm').getter haccessors,
    (hnamed m hm).setter haccessors, (hnamed m' hm').setter haccessors, Option.some_inj,
    Option.some_inj, String.append_right_inj, Prod.mk.injEq]
  refine ⟨⟨getterPrefix_append_inj, ?_⟩, Iff.rfl⟩
  rintro ⟨hboolean, hcapital⟩
  rw [hboolean, hcapital]

/-- With builders on and no letter or digit among the delimiters, two builders of a compiled
class share a name exactly when the members' identifiers capitalised agree. -/
theorem builder_names_eq_iff {c : Compiler} {p : Pending} {s s' : Session} {cls : ClassModel}
    (hrun : (c.compileClass p).run.run s = (.ok cls, s'))
    (hbuilders : c.settings.generateBuilders = true)
    (hdelims : ∀ d ∈ c.naming.delimiters, d.isAlphanum = false) {m m' : Member}
    (hm : m ∈ cls.members) (hm' : m' ∈ cls.members) :
    m.builder.map Builder.name = m'.builder.map Builder.name ↔
      Naming.capitalize m.targetName = Naming.capitalize m'.targetName := by
  have hnamed := compileClass_namedAfter hrun
  have hmembers := compileClass_membersOf hrun
  rw [(hnamed m hm).builder hbuilders, (hnamed m' hm').builder hbuilders, Option.some_inj]
  exact Naming.builderName_eq_iff c.naming hdelims (hmembers.named m hm) (hmembers.named m' hm')

/-- The accessors and builders of a compiled class are named after the members' identifiers, and
only the identifiers are kept distinct. With accessors on, each getter is `get` (`is` for a
boolean) and each setter `set` followed by the identifier capitalised; the getters are distinct
exactly when the members' pairs of boolean-ness and capitalised identifier are, and the setters
exactly when the capitalised identifiers are. With builders on, each builder is named from the
identifier, and, when no delimiter is a letter or digit, the builders are distinct exactly when
the capitalised identifiers are. -/
theorem accessor_names_distinct_iff_capitals (c : Compiler) (p : Pending) {s s' : Session}
    {cls : ClassModel} (hrun : (c.compileClass p).run.run s = (.ok cls, s')) :
    (c.settings.includeAccessors = true →
      (∀ m ∈ cls.members,
        m.getter.map Accessor.name =
          some ((if m.type.isBoolean then "is" else "get") ++ Naming.capitalize m.targetName) ∧
        m.setter.map Accessor.name = some ("set" ++ Naming.capitalize m.targetName)) ∧
      ((cls.members.map fun m => m.getter.map Accessor.name).Nodup ↔
        (cls.members.map fun m => (m.type.isBoolean, Naming.capitalize m.targetName)).Nodup) ∧
      ((cls.members.map fun m => m.setter.map Accessor.name).Nodup ↔
        (cls.members.map fun m => Naming.capitalize m.targetName).Nodup)) ∧
    (c.settings.generateBuilders = true →
      (∀ m ∈ cls.members, m.builder.map Builder.name = some (c.naming.builderName m.targetName)) ∧
      ((∀ d ∈ c.naming.delimiters, d.isAlphanum = false) →
        ((cls.members.map fun m => m.builder.map Builder.name).Nodup ↔
          (cls.members.map fun m => Naming.capitalize m.targetName).Nodup))) := by
  have hnamed := compileClass_namedAfter hrun
  refine ⟨fun haccessors => ⟨fun m hm => ⟨(hnamed m hm).getter haccessors,
      (hnamed m hm).setter haccessors⟩, ?_, ?_⟩,
    fun hbuilders => ⟨fun m hm => (hnamed m hm).builder hbuilders, fun hdelims => ?_⟩⟩
  · exact List.nodup_map_iff_of_eq_iff fun m hm m' hm' =>
      (accessor_names_eq_iff hrun haccessors hm hm').1
  · exact List.nodup_map_iff_of_eq_iff fun m hm m' hm' =>
      (accessor_names_eq_iff hrun haccessors hm hm').2
  · exact List.nodup_map_iff_of_eq_iff fun m hm m' hm' =>
      builder_names_eq_iff hrun hbuilders hdelims hm hm'

/-- Two properties whose identifiers differ only in the case of their first letter: `a_b` gives
`aB` and `AB` gives `AB`. With builders on, the class compiles, and both members get the getter
`getAB`, the setter `setAB` and the builder `withAB`. -/
theorem case_twins_share_accessor_names :
    let c := Compiler.ofSettings { generateBuilders := true }
    let p : Pending := ⟨"Root", .object [("properties", .object [
      ("a_b", .object [("type", .string "string")]), ("AB", .object [("type", .string "string")])])], 0⟩
    let s : Session := ⟨Store.empty (.ofDocuments []) .utf8 .lenient, {}⟩
    ∃ cls s', (c.compileClass p).run.run s = (.ok cls, s') ∧
      cls.members.map Member.targetName = ["aB", "AB"] ∧
      cls.members.map (fun m => m.getter.map Accessor.name) = [some "getAB", some "getAB"] ∧
      cls.members.map (fun m => m.setter.map Accessor.name) = [some "setAB", some "setAB"] ∧
      cls.members.map (fun m => m.builder.map Builder.name) = [some "withAB", some "withAB"] := by
  intro c p s
  have hsummary : ((c.compileClass p).run.run s).1.toOption.map (fun cls =>
      (cls.members.map Member.targetName, cls.members.map fun m => m.getter.map Accessor.name,
        cls.members.map fun m => m.setter.map Accessor.name,
        cls.members.map fun m => m.builder.map Builder.name)) =
      some (["aB", "AB"], [some "getAB", some "getAB"], [some "setAB", some "setAB"],
        [some "withAB", some "withAB"]) := by
    dsimp only [c, p, s]
    decide +kernel
  rcases hrun : (c.compileClass p).run.run s with ⟨_ | cls, s'⟩
  · rw [hrun] at hsummary
    cases hsummary
  · rw [hrun] at hsummary
    simp only [Except.toOption, Option.map_some, Option.some.injEq, Prod.mk.injEq] at hsummary
    exact ⟨cls, s', rfl, hsummary⟩

/-- The same two properties under the default settings: the class compiles, and its getters and
setters are named after the capitalised identifiers. -/
theorem case_twins_accessors_follow_capitals :
    let c := Compiler.ofSettings {}
    let p : Pending := ⟨"Root", .object [("properties", .object [
      ("a_b", .object [("type", .string "string")]), ("AB", .object [("type", .string "string")])])], 0⟩
    let s : Session := ⟨Store.empty (.ofDocuments []) .utf8 .lenient, {}⟩
    ∃ cls s', (c.compileClass p).run.run s = (.ok cls, s') ∧
    ((c.settings.includeAccessors = true →
      (∀ m ∈ cls.members,
        m.getter.map Accessor.name =
          some ((if m.type.isBoolean then "is" else "get") ++ Naming.capitalize m.targetName) ∧
        m.setter.map Accessor.name = some ("set" ++ Naming.capitalize m.targetName)) ∧
      ((cls.members.map fun m => m.getter.map Accessor.name).Nodup ↔
        (cls.members.map fun m => (m.type.isBoolean, Naming.capitalize m.targetName)).Nodup) ∧
      ((cls.members.map fun m => m.setter.map Accessor.name).Nodup ↔
        (cls.members.map fun m => Naming.capitalize m.targetName).Nodup)) ∧
    (c.settings.generateBuilders = true →
      (∀ m ∈ cls.members, m.builder.map Builder.name = some (c.naming.builderName m.targetName)) ∧
      ((∀ d ∈ c.naming.delimiters, d.isAlphanum = false) →
        ((cls.members.map fun m => m.builder.map Builder.name).Nodup ↔
          (cls.members.map fun m => Naming.capitalize m.targetName).Nodup)))) := by
  intro c p s
  have hok : ((c.compileClass p).run.run s).1.toBool = true := by
    dsimp only [c, p, s]
    decide +kernel
  obtain ⟨cls, hrun⟩ := exists_ok_of_toBool hok
  exact ⟨cls, _, hrun, accessor_names_distinct_iff_capitals c p hrun⟩

end Compiler

end SchemaModel

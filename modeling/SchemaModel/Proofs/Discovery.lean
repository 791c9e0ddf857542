import SchemaModel.Proofs.Lowering
import SchemaModel.Proofs.Registry
/-!
# Classes in the order they are discovered

A compilation queues a class each time a schema that becomes a class is met, and compiles the
queued classes first come, first served. The classes it returns are therefore those the root class
leads to, each once, in the order their names are first mentioned: by the root, then by the member
types, builder parameters and additional-property types of the classes before them.

Each step is described by `Registry.Discovers`: lowering a schema to a type queues the class the
type names if that name is new, and nothing else; compiling a member, a class, and the members of
a class one after the other compose these. Draining the queue keeps `Tracks`: the names of the
classes compiled, followed by the names still queued, are the names mentioned so far without
repeats. When the queue is empty the compiled classes are all of them.
-/

namespace SchemaModel

/-- The class a member type names, looking through collections and maps. -/
def MemberType.refs (t : MemberType) : List String := t.referencedClass.toList

@[simp] theorem MemberType.refs_primitive (name : String) : (primitive name).refs = [] := rfl

@[simp] theorem MemberType.refs_reference (name : String) : (reference name).refs = [name] := rfl

@[simp] theorem MemberType.refs_collection (t : MemberType) : (collection t).refs = t.refs := rfl

@[simp] theorem MemberType.refs_map (t : MemberType) : (map t).refs = t.refs := rfl

/-- The classes a member names: by its type, then by its builder's parameter. -/
def Member.refs (m : Member) : List String :=
  m.type.refs ++ m.builder.toList.flatMap fun b => b.parameter.refs

/-- The classes a class names: by its members in order, then by the type of its additional
properties. -/
def ClassModel.refs (c : ClassModel) : List String :=
  c.members.flatMap Member.refs ++ c.additional.toList.flatMap MemberType.refs

namespace Session

section Lowering

open Registry

/-- Lowering a schema queues the class its type names when that class is new, and nothing
otherwise: a reference to a bound schema names a class given out before, a schema that becomes
a class is queued under a fresh name, and maps and collections name what their values name. The
induction is on the fuel, which every recursive call spends. -/
theorem lower_discovers (naming : Naming) (fuel : Nat) :
    ∀ (hint : String) (node : Value) (context : Nat) (identity : Option Nat) (trail : List Nat)
      {s s' : Session} {t : MemberType},
      (lower naming fuel hint node context identity trail).run.run s = (.ok t, s') →
      s.registry.Discovers s'.registry t.refs := by
  induction fuel with
  | zero =>
    intro hint node context identity trail s s' t hrun
    exact absurd hrun (lower_zero_ne_ok _ _ _ _ _ _ _ _ _)
  | succ fuel ih =>
    intro hint node context identity trail s s' t hrun
    rcases lower_succ_eq_ok hrun with
      ⟨ref, target, st, -, -, ⟨name, hbound, rfl, rfl⟩ | ⟨-, hint', hlower⟩⟩ |
        ⟨-, ⟨e, hint', v, -, hlower, hrefs⟩ | ⟨-, name, rfl, rfl⟩ | ⟨rfl, hnone⟩⟩
    · -- a reference to a bound schema names the class it is bound to
      exact Discovers.of_bound hbound
    · -- the target of a reference is lowered in its place, the store grown and the registry kept
      have htarget := ih _ _ _ _ _ hlower
      exact htarget
    · -- map values and array items name what their type names
      rw [MemberType.refs, hrefs]
      exact ih _ _ _ _ _ hlower
    · exact Discovers.schedule _ _ _ _ _
    · rw [MemberType.refs, hnone]
      exact Discovers.refl _

theorem typeFor_discovers {naming : Naming} {hint : String} {node : Value} {enclosing : Nat}
    {s s' : Session} {t : MemberType}
    (hrun : (typeFor naming hint node enclosing).run.run s = (.ok t, s')) :
    s.registry.Discovers s'.registry t.refs := by
  simp only [typeFor, run_bind, run_get] at hrun
  exact lower_discovers naming _ _ _ _ _ _ hrun

end Lowering

end Session

namespace Compiler

open Registry Session

section Members

@[simp] theorem type_apply (settings : Settings) (m : Member) (node : Value) :
    (Constraint.apply settings m node).type = m.type := by
  unfold Constraint.apply
  split <;> split <;> rfl

@[simp] theorem builder_apply (settings : Settings) (m : Member) (node : Value) :
    (Constraint.apply settings m node).builder = m.builder := by
  unfold Constraint.apply
  split <;> split <;> rfl

theorem addMember_eq_ok {cls cls' : ClassModel} {m : Member} (hadd : cls.addMember m = .ok cls') :
    cls' = { cls with members := cls.members ++ [{ m with order := cls.members.length }] } := by
  unfold ClassModel.addMember at hadd
  split at hadd
  · cases hadd
  · cases hadd
    rfl

/-- A compiled member is appended to its class. It names the class its type names, once more if
it has a builder, whose parameter has the same type. -/
theorem compileMember_eq_ok {c : Compiler} {name : String} {node : Value} {cls cls' : ClassModel}
    {enclosing : Nat} {s s' : Session}
    (hrun : (c.compileMember name node cls enclosing).run.run s = (.ok cls', s')) :
    ∃ ty s1 m, (typeFor c.naming name node enclosing).run.run s = (.ok ty, s1) ∧
      (∃ resolved, (resolveRefs node enclosing).run.run s1 = (.ok resolved, s')) ∧
      cls' = { cls with members := cls.members ++ [m] } ∧
      m.refs = ty.refs ++ (if c.settings.generateBuilders then ty.refs else []) := by
  unfold compileMember at hrun
  dsimp only at hrun
  obtain ⟨target, s0, htarget, hchecked⟩ := run_bind_eq_ok.mp hrun
  obtain ⟨_, rfl⟩ := liftNaming_eq_ok htarget
  by_cases hdup : cls.hasMember target = true
  · rw [if_pos hdup, run_bind, run_throw] at hchecked
    cases hchecked
  rw [if_neg hdup] at hchecked
  obtain ⟨ty, s1, hty, htyped⟩ := run_bind_eq_ok.mp hchecked
  obtain ⟨resolved, s2, hresolved, hbuilt⟩ := run_bind_eq_ok.mp htyped
  by_cases haccessors : c.settings.includeAccessors = true
  · -- with accessors: their names are checked, the type is the same
    rw [if_pos haccessors] at hbuilt
    obtain ⟨getter, s3, hgetter, hnamed⟩ := run_bind_eq_ok.mp hbuilt
    obtain ⟨_, rfl⟩ := liftNaming_eq_ok hgetter
    obtain ⟨setter, s4, hsetter, hnamed'⟩ := run_bind_eq_ok.mp hnamed
    obtain ⟨_, rfl⟩ := liftNaming_eq_ok hsetter
    obtain ⟨member, s5, hmember, hadded⟩ := run_bind_eq_ok.mp hnamed'
    obtain ⟨rfl, rfl⟩ := run_pure_eq_ok.mp hmember
    obtain ⟨hadd, rfl⟩ := liftNaming_eq_ok hadded
    refine ⟨ty, s1, _, hty, ⟨resolved, hresolved⟩, addMember_eq_ok hadd, ?_⟩
    split <;> simp [Member.refs]
  · rw [if_neg haccessors] at hbuilt
    obtain ⟨member, s3, hmember, hadded⟩ := run_bind_eq_ok.mp hbuilt
    rw [run_pure] at hmember
    cases hmember
    obtain ⟨hadd, rfl⟩ := liftNaming_eq_ok hadded
    refine ⟨ty, s1, _, hty, ⟨resolved, hresolved⟩, addMember_eq_ok hadd, ?_⟩
    split <;> simp [Member.refs]

theorem compileMember_discovers {c : Compiler} {name : String} {node : Value}
    {cls cls' : ClassModel} {enclosing : Nat} {s s' : Session}
    (hrun : (c.compileMember name node cls enclosing).run.run s = (.ok cls', s')) :
    ∃ m, cls' = { cls with members := cls.members ++ [m] } ∧
      s.registry.Discovers s'.registry m.refs := by
  obtain ⟨ty, s1, m, hty, ⟨_, hresolved⟩, rfl, hrefs⟩ := compileMember_eq_ok hrun
  refine ⟨m, rfl, ?_⟩
  rw [registry_resolveRefs hresolved, hrefs]
  apply (typeFor_discovers hty).append_of_subset
  intro x hx
  split at hx
  · exact hx
  · cases hx

/-- Compiling members one after the other appends them in order and discovers what they name in
that order. -/
theorem foldlM_discovers {f : ClassModel → String × Value → CompileM ClassModel}
    (hstep : ∀ cls field s cls' s', (f cls field).run.run s = (.ok cls', s') →
      ∃ m, cls' = { cls with members := cls.members ++ [m] } ∧
        s.registry.Discovers s'.registry m.refs)
    (fields : List (String × Value)) :
    ∀ (cls : ClassModel) {s s' : Session} {cls' : ClassModel},
      (fields.foldlM f cls).run.run s = (.ok cls', s') →
      ∃ added, cls' = { cls with members := cls.members ++ added } ∧
        s.registry.Discovers s'.registry (added.flatMap Member.refs) := by
  induction fields with
  | nil =>
    intro cls s s' cls' hrun
    rw [List.foldlM_nil] at hrun
    obtain ⟨rfl, rfl⟩ := run_pure_eq_ok.mp hrun
    exact ⟨[], by simp, Discovers.refl _⟩
  | cons field fields ih =>
    intro cls s s' cls' hrun
    rw [List.foldlM_cons] at hrun
    obtain ⟨cls1, s1, hfirst, hrest⟩ := run_bind_eq_ok.mp hrun
    obtain ⟨m, rfl, hm⟩ := hstep _ _ _ _ _ hfirst
    obtain ⟨added, rfl, hadded⟩ := ih _ hrest
    exact ⟨m :: added, by simp, hm.trans hadded⟩

end Members

section Classes

theorem flatMap_modify {f : Member → Member} (hf : ∀ m, (f m).refs = m.refs) :
    ∀ (members : List Member) (i : Nat),
      (members.modify i f).flatMap Member.refs = members.flatMap Member.refs
  | [], _ => by simp
  | m :: members, 0 => by simp [hf]
  | m :: members, i + 1 => by simp [flatMap_modify hf members i]

@[simp] theorem name_markRequired (cls : ClassModel) (name : String) :
    (markRequired cls name).name = cls.name := by
  unfold markRequired ClassModel.updateMember
  split <;> rfl

/-- Marking a member required keeps its type and builder. -/
@[simp] theorem memberRefs_markRequired (cls : ClassModel) (name : String) :
    (markRequired cls name).members.flatMap Member.refs = cls.members.flatMap Member.refs := by
  unfold markRequired ClassModel.updateMember
  dsimp only
  split
  · apply flatMap_modify
    intro m
    rfl
  · rfl

@[simp] theorem name_foldl_markRequired (names : List String) (cls : ClassModel) :
    (names.foldl markRequired cls).name = cls.name := by
  induction names generalizing cls with
  | nil => rfl
  | cons name names ih => rw [List.foldl_cons, ih, name_markRequired]

@[simp] theorem memberRefs_foldl_markRequired (names : List String) (cls : ClassModel) :
    (names.foldl markRequired cls).members.flatMap Member.refs = cls.members.flatMap Member.refs := by
  induction names generalizing cls with
  | nil => rfl
  | cons name names ih => rw [List.foldl_cons, ih, memberRefs_markRequired]

/-- The members of a class are compiled in document order into a class of the queued name. -/
theorem compileMembers_discovers {c : Compiler} {p : Pending} {s s' : Session} {cls : ClassModel}
    (hrun : (c.compileMembers p).run.run s = (.ok cls, s')) :
    cls.name = p.name ∧ s.registry.Discovers s'.registry (cls.members.flatMap Member.refs) := by
  unfold compileMembers at hrun
  split at hrun
  · have hstep : ∀ cls field s cls' s',
        ((fun cls (field : String × Value) =>
          atMember p.name field.1 (c.compileMember field.1 field.2 cls p.context)) cls field).run.run
            s = (.ok cls', s') →
        ∃ m, cls' = { cls with members := cls.members ++ [m] } ∧
          s.registry.Discovers s'.registry m.refs := by
      intro cls field s cls' s' hfield
      exact compileMember_discovers (atMember_eq_ok.mp hfield)
    obtain ⟨added, rfl, hadded⟩ := foldlM_discovers hstep _ _ hrun
    exact ⟨rfl, by simpa using hadded⟩
  · obtain ⟨rfl, rfl⟩ := run_pure_eq_ok.mp hrun
    exact ⟨rfl, Discovers.refl _⟩

theorem additionalType_discovers {c : Compiler} {p : Pending} {s s' : Session}
    {additional : Option MemberType}
    (hrun : (c.additionalType p).run.run s = (.ok additional, s')) :
    s.registry.Discovers s'.registry (additional.toList.flatMap MemberType.refs) := by
  unfold additionalType at hrun
  split at hrun
  · obtain ⟨rfl, rfl⟩ := run_pure_eq_ok.mp hrun
    exact Discovers.refl _
  · obtain ⟨t, ht, rfl⟩ := run_map_eq_ok.mp hrun
    simpa using typeFor_discovers (atMember_eq_ok.mp ht)
  · obtain ⟨rfl, rfl⟩ := run_pure_eq_ok.mp hrun
    exact Discovers.refl _

/-- A compiled class has the name it was queued under, and discovers what its members name in
order, then what the type of its additional properties names. -/
theorem compileClass_discovers {c : Compiler} {p : Pending} {s s' : Session} {cls : ClassModel}
    (hrun : (c.compileClass p).run.run s = (.ok cls, s')) :
    cls.name = p.name ∧ s.registry.Discovers s'.registry cls.refs := by
  unfold compileClass at hrun
  obtain ⟨withMembers, s1, hmembers, hrest⟩ := run_bind_eq_ok.mp hrun
  obtain ⟨additional, s2, hadditional, hfinish⟩ := run_bind_eq_ok.mp hrest
  obtain ⟨rfl, rfl⟩ := run_pure_eq_ok.mp hfinish
  obtain ⟨hname, hfirst⟩ := compileMembers_discovers hmembers
  have hsecond := additionalType_discovers hadditional
  -- marking required members and ordering the properties keep the name and the member types
  constructor
  · split <;> split <;> simp [hname]
  · unfold ClassModel.refs
    split <;> split <;> simpa using hfirst.trans hsecond

end Classes

end Compiler

namespace Registry

section Tracking

/-- While the queue is drained: the names of the classes compiled, followed by the names still
queued, are the names given out, and they are the root and the names the compiled classes
mention, each once, in the order first mentioned. -/
structure Tracks (root : String) (done : List ClassModel) (r : Registry) : Prop where
  issued : r.Issued (done.map ClassModel.name ++ r.queue.map Pending.name)
  order : done.map ClassModel.name ++ r.queue.map Pending.name =
    (root :: done.flatMap ClassModel.refs).eraseDups

theorem Issued.congr {r r' : Registry} {issued : List String} (hissued : r.Issued issued)
    (hnames : r'.names = r.names) (hbindings : r'.bindings = r.bindings) : r'.Issued issued :=
  ⟨fun x => hnames ▸ hissued.names_iff x, fun p hp => hissued.bound_mem p (hbindings ▸ hp)⟩

theorem Tracks.congr {root : String} {done : List ClassModel} {r r' : Registry}
    (htracks : r.Tracks root done) (hnames : r'.names = r.names)
    (hbindings : r'.bindings = r.bindings) (hqueue : r'.queue = r.queue) :
    r'.Tracks root done := by
  constructor
  · rw [hqueue]
    exact htracks.issued.congr hnames hbindings
  · rw [hqueue]
    exact htracks.order

/-- The first class queued, the root, starts the tracking. -/
theorem Tracks.start (name : String) (node : Value) (context : Nat) (identity : Option Nat) :
    (({} : Registry).schedule name node context identity).2.Tracks name [] := by
  have hempty : ({} : Registry).Issued [] := by
    constructor
    · intro x
      simp
    · intro p hp
      cases hp
  obtain ⟨hissued, hqueue⟩ := Discovers.schedule {} name node context identity [] hempty
  have hnew : newNames [] [({} : Registry).unique name] = [name] := by
    simp [newNames, unique_empty, List.eraseDups_cons]
  rw [hnew] at hissued hqueue
  have hlisted : ([] : List ClassModel).map ClassModel.name ++
      (({} : Registry).schedule name node context identity).2.queue.map Pending.name = [name] := by
    rw [hqueue]
    rfl
  constructor
  · rw [hlisted]
    exact hissued
  · rw [hlisted]
    simp [List.eraseDups_cons]

/-- Compiling the class at the head of the queue moves its name from the queue to the classes
compiled, and queues the names it mentions that are new, as the next ones to be mentioned. -/
theorem Tracks.step {root : String} {done : List ClassModel} {r r' : Registry} {p : Pending}
    {cls : ClassModel} (htracks : r.Tracks root done) (hnext : r.next.1 = some p)
    (hname : cls.name = p.name) (hcompiled : r.next.2.Discovers r' cls.refs) :
    r'.Tracks root (done ++ [cls]) := by
  have hqueue : r.queue = p :: r.next.2.queue := by
    rw [next_fst] at hnext
    obtain ⟨rest, hrest⟩ := List.head?_eq_some_iff.mp hnext
    rw [queue_next, hrest, List.tail_cons]
  have hissued : r.next.2.Issued (done.map ClassModel.name ++ r.queue.map Pending.name) :=
    htracks.issued.congr (names_next r) (bindings_next r)
  obtain ⟨hissued', hqueue'⟩ := hcompiled _ hissued
  have hlisted : (done ++ [cls]).map ClassModel.name ++ r'.queue.map Pending.name =
      done.map ClassModel.name ++ r.queue.map Pending.name ++
        newNames (done.map ClassModel.name ++ r.queue.map Pending.name) cls.refs := by
    have hnames : r.queue.map Pending.name = p.name :: r.next.2.queue.map Pending.name := by
      rw [hqueue, List.map_cons]
    rw [hqueue', List.map_append, List.map_singleton, hname, hnames]
    simp
  constructor
  · rw [hlisted]
    exact hissued'
  · rw [hlisted, htracks.order, ← eraseDups_append_newNames, List.flatMap_append,
      List.flatMap_singleton, List.cons_append]

end Tracking

end Registry

namespace Compiler

open Registry Session

section Draining

/-- Draining the queue keeps `Tracks`; a drain that returns its classes has emptied the queue.
The induction is on the budget, one class per step. -/
theorem drain_tracks (c : Compiler) (root : String) (budget : Nat) :
    ∀ (done : List ClassModel) {s s' : Session} {classes : List ClassModel},
      s.registry.Tracks root done.reverse →
      (c.drain budget done).run.run s = (.ok (some classes), s') →
      s'.registry.Tracks root classes ∧ s'.registry.queue = [] := by
  induction budget with
  | zero =>
    intro done s s' classes _ hrun
    rw [drain] at hrun
    obtain ⟨hnone, _⟩ := run_pure_eq_ok.mp hrun
    cases hnone
  | succ budget ih =>
    intro done s s' classes htracks hrun
    rw [drain] at hrun
    obtain ⟨taken, s1, hnext, hrest⟩ := run_bind_eq_ok.mp hrun
    rw [Session.next_run] at hnext
    cases hnext
    split at hrest
    · -- nothing is queued: the classes compiled are all of them
      rename_i hnone
      obtain ⟨hsome, rfl⟩ := run_pure_eq_ok.mp hrest
      cases hsome
      have hqueue : s.registry.queue = [] := by
        rw [next_fst] at hnone
        exact List.head?_eq_none_iff.mp hnone
      have hqueue' : s.registry.next.2.queue = s.registry.queue := by
        rw [queue_next, hqueue, List.tail_nil]
      refine ⟨htracks.congr (names_next _) (bindings_next _) hqueue', ?_⟩
      rw [hqueue', hqueue]
    · rename_i p hp
      obtain ⟨cls, s2, hcls, hdrain⟩ := run_bind_eq_ok.mp hrest
      obtain ⟨hname, hdiscovers⟩ := compileClass_discovers hcls
      have htracks' := htracks.step hp hname hdiscovers
      rw [← List.reverse_cons] at htracks'
      exact ih (cls :: done) htracks' hdrain

/-- A compilation that returns its classes started by queueing the root class under the name
asked for and ended with an empty queue. -/
theorem compileDocument_tracks {c : Compiler} {doc : String} {className : Option String}
    {store : Store} {classes : List ClassModel} {sess' : Session}
    (hrun : (c.compileDocument doc className).run.run { store } = (.ok (some classes), sess')) :
    sess'.registry.Tracks (c.naming.className (className.getD (Document.stem doc))) classes ∧
      sess'.registry.queue = [] := by
  unfold compileDocument at hrun
  obtain ⟨root, s1, hroot, hschema⟩ := run_bind_eq_ok.mp hrun
  have hs1 : s1.registry = {} := by
    have hkept := registry_liftStore (Store.root doc) { store }
    rwa [hroot] at hkept
  obtain ⟨sc, s2, hsc, hschedule⟩ := run_bind_eq_ok.mp hschema
  have hs2 : s2.registry = {} := by
    have hkept := registry_liftStore (Store.schema root) s1
    rwa [hsc, hs1] at hkept
  obtain ⟨u, s3, hqueued, hdrain⟩ := run_bind_eq_ok.mp hschedule
  rw [schedule_run] at hqueued
  cases hqueued
  obtain ⟨s4, s5, hget, hdrained⟩ := run_bind_eq_ok.mp hdrain
  rw [run_get] at hget
  cases hget
  apply drain_tracks c _ _ [] _ hdrained
  have hstart := Tracks.start (c.naming.className (className.getD (Document.stem doc))) sc.content
    root (some root)
  rw [← hs2] at hstart
  exact hstart

/-- A compilation that returns its classes returns those its root leads to, in the order their
names are first mentioned: by the root, then by the member types, builder parameters and
additional-property types of the classes before them. Hence the root class comes first, no two
classes share a name, every class a class mentions is among them, and they are exactly the
classes the registry gave names to. -/
theorem classes_in_discovery_order (c : Compiler) (doc : String) (className : Option String)
    (store : Store) {classes : List ClassModel} {sess' : Session}
    (hrun : (c.compileDocument doc className).run.run { store } = (.ok (some classes), sess')) :
    classes.map ClassModel.name =
        (c.naming.className (className.getD (Document.stem doc)) ::
          classes.flatMap ClassModel.refs).eraseDups ∧
      (classes.map ClassModel.name).Nodup ∧
      (classes.map ClassModel.name).head? =
        some (c.naming.className (className.getD (Document.stem doc))) ∧
      (∀ cls ∈ classes, ∀ name ∈ cls.refs, ∃ target ∈ classes, target.name = name) ∧
      (∀ name, sess'.registry.names.contains name = true ↔ name ∈ classes.map ClassModel.name) := by
  obtain ⟨htracks, hempty⟩ := compileDocument_tracks hrun
  have horder := htracks.order
  have hnames := htracks.issued.names_iff
  rw [hempty, List.map_nil, List.append_nil] at horder hnames
  refine ⟨horder, horder ▸ nodup_eraseDups _, by rw [horder, List.eraseDups_cons]; rfl, ?_, hnames⟩
  intro cls hcls name hname
  have hmem : name ∈ classes.map ClassModel.name := by
    rw [horder, List.mem_eraseDups]
    exact List.mem_cons_of_mem _ (List.mem_flatMap.mpr ⟨cls, hcls, hname⟩)
  obtain ⟨target, htarget, rfl⟩ := List.mem_map.mp hmem
  exact ⟨target, htarget, rfl⟩

/-- A root with an inline class, a definition referred to twice and an array of it, where the
definition has an inline class of the same name and refers back to the root: four classes, the
second inline class renamed, each named by the class before it that first mentions it. -/
theorem classes_discovered_with_references :
    let c := Compiler.ofSettings {}
    let inline (field : String) (type : String) : Value :=
      .object [("properties", .object [(field, .object [("type", .string type)])])]
    let src := Source.ofDocuments [("Root.json", .object [
      ("properties", .object [("item", inline "x" "string"),
        ("shared", .object [("$ref", .string "#/definitions/shared")]),
        ("many", .object [("type", .string "array"),
          ("items", .object [("$ref", .string "#/definitions/shared")])])]),
      ("definitions", .object [("shared", .object [("properties", .object
        [("item", inline "y" "integer"), ("root", .object [("$ref", .string "#")])])])])])]
    let run := (c.compileDocument "Root.json" none).run.run { store := Store.empty src .utf8 .lenient }
    ∃ classes sess', run = (.ok (some classes), sess') ∧
      classes.map ClassModel.name = ["Root", "Item", "Shared", "Item_1"] ∧
      classes.map ClassModel.refs = [["Item", "Shared", "Shared"], [], ["Item_1", "Root"], []] ∧
      classes.map ClassModel.name =
        (c.naming.className ((none : Option String).getD (Document.stem "Root.json")) ::
          classes.flatMap ClassModel.refs).eraseDups ∧
      (classes.map ClassModel.name).Nodup ∧
      (classes.map ClassModel.name).head? =
        some (c.naming.className ((none : Option String).getD (Document.stem "Root.json"))) ∧
      (∀ cls ∈ classes, ∀ name ∈ cls.refs, ∃ target ∈ classes, target.name = name) ∧
      (∀ name, sess'.registry.names.contains name = true ↔ name ∈ classes.map ClassModel.name) := by
  intro c inline src run
  have hresult : run.1.map (·.map fun classes => (classes.map ClassModel.name,
      classes.map ClassModel.refs)) = .ok (some (["Root", "Item", "Shared", "Item_1"],
        [["Item", "Shared", "Shared"], [], ["Item_1", "Root"], []])) := by
    decide +kernel
  rcases hrun : run with ⟨_ | _ | classes, sess'⟩ <;> rw [hrun] at hresult
  · cases hresult
  · cases hresult
  obtain ⟨hnames, hrefs⟩ := Prod.mk.inj (Option.some.inj (Except.ok.inj hresult))
  exact ⟨classes, sess', rfl, hnames, hrefs,
    classes_in_discovery_order c "Root.json" none _ hrun⟩

end Draining

end Compiler

end SchemaModel

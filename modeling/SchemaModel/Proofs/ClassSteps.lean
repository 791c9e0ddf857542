import SchemaModel.Proofs.ClassGraph
import SchemaModel.Proofs.Dispatch
/-!
# Compiling a class follows the class graph

`ClassGraph` says, without running anything, where each class of a compilation lands. Here the
compiler is shown to do just that, from any session of the compilation of a document
(`Session.Compiling`): its store is coherent over the source, the document's root is schema 0
and bound to a class, and every other schema bound to a class has a class of its own for content.

Lowering a node ends as its landing says (`Dispatch.lands`): with an error exactly when the landing
fails, and otherwise having queued what the landing names (`Queues`): an inline class, the class of
a target bound to nothing, or nothing. A bound target in the session is a bound landing in the
graph because of that invariant; a target bound to nothing whose content is a class is bound on
the spot. Resolving a node's references ends as `Resolves` says (`Chain.resolves`). So compiling a
queued class returns a class exactly when its class lands, queues its landings in order, and keeps
the session one of the compilation (`compileClass_lands`).
-/

namespace SchemaModel

namespace Value

theorem makesClass_of_objectLike {node : Value} (h : node.objectLike = false) :
    node.makesClass = false := by
  simp [makesClass, h]

theorem makesClass_of_mapValues? {node values : Value} (h : node.mapValues? = some values) :
    node.makesClass = false := by
  simp [makesClass, h]

theorem element?_of_mapValues? {node values : Value} (hobject : node.objectLike = true)
    (h : node.mapValues? = some values) : node.element? = some values := by
  simp [element?, hobject, h]

theorem element?_of_arrayItems? {node items : Value} (hobject : node.objectLike = false)
    (harray : Keyword.declaredType node = some "array") (h : node.arrayItems? = some items) :
    node.element? = some items := by
  simp [element?, hobject, harray, h]

theorem element?_of_leaf {node : Value} (hobject : node.objectLike = false)
    (hitems : Keyword.declaredType node = some "array" → node.arrayItems? = none) :
    node.element? = none := by
  by_cases harray : Keyword.declaredType node = some "array"
  · simp [element?, hobject, harray, hitems harray]
  · simp [element?, hobject, harray]

theorem additionalValues?_of_object {node : Value} {fields : List (String × Value)}
    (h : node.get? "additionalProperties" = some (.object fields)) :
    node.additionalValues? = some (.object fields) := by
  simp [additionalValues?, h]

theorem additionalValues?_of_not_object {node : Value}
    (h : ∀ fields, node.get? "additionalProperties" ≠ some (.object fields)) :
    node.additionalValues? = none := by
  unfold additionalValues?
  split
  · rename_i fields hget
    exact absurd hget (h fields)
  · rfl

end Value

theorem ClassModel.hasMember_eq_false_iff {cls : ClassModel} {target : String} :
    cls.hasMember target = false ↔ target ∉ cls.members.map Member.targetName := by
  simp [ClassModel.hasMember]

theorem ClassModel.targetNames_appendMember (cls : ClassModel) (m : Member) :
    (cls.appendMember m).members.map Member.targetName =
      cls.members.map Member.targetName ++ [m.targetName] := by
  simp [ClassModel.appendMember]

namespace Store

open Source

/-! ### Targets in the store and in the graph -/

theorem keyOf_of_get? {s : Store} {parent : Nat} {sc : Schema} (hget : s.get? parent = some sc)
    (ref : String) :
    s.keyOf parent ref = Reference.ofText s.encoding s.policy sc.reference.document ref := by
  simp only [keyOf, Reference.ofText, hget, Option.map_some, Option.getD_some]

theorem Consistent.contentAt {s : Store} (hs : s.Consistent) {i : Nat} {sc : Schema}
    (hget : s.get? i = some sc) : s.source.contentAt sc.reference = .ok sc.content := by
  obtain ⟨tree, hfetch, hwalk⟩ := hs.content_walk sc (List.mem_of_getElem? hget)
  rw [Source.contentAt, hfetch]
  exact hwalk

theorem load_fetch_ok {s s₁ : Store} (hs : s.Consistent) {d : String} {tree : Value}
    (hload : (load d).run.run s = (.ok tree, s₁)) : s.source.fetch d = .ok tree := by
  rcases load_cases s d with ⟨v, hcache, hrun⟩ | ⟨-, v, hfetch, hrun⟩ | ⟨-, e, -, hrun⟩ <;>
    rw [hrun] at hload
  · obtain rfl := Except.ok.inj (Prod.mk.inj hload).1
    exact hs.documents_fetched d v (Value.mem_of_lookup hcache)
  · obtain rfl := Except.ok.inj (Prod.mk.inj hload).1
    exact hfetch
  · cases (Prod.mk.inj hload).1

theorem load_fetch_error {s s₁ : Store} {d : String} {e : ResolutionError}
    (hload : (load d).run.run s = (.error e, s₁)) : s.source.fetch d = .error e := by
  rcases load_cases s d with ⟨v, -, hrun⟩ | ⟨-, v, -, hrun⟩ | ⟨-, e', hfetch, hrun⟩ <;>
    rw [hrun] at hload
  · cases (Prod.mk.inj hload).1
  · cases (Prod.mk.inj hload).1
  · obtain rfl := Except.error.inj (Prod.mk.inj hload).1
    exact hfetch

/-- A `create` that succeeds reaches the key and the node the reference text designates in the
graph, read in the document of the schema it is read in. -/
theorem create_target? {s s' : Store} (hs : s.Consistent) {context target : Nat} {csc : Schema}
    (hctx : s.get? context = some csc) {ref : String}
    (hrun : (create context ref).run.run s = (.ok target, s')) :
    Extends s s' ∧ ∃ sc, s'.get? target = some sc ∧
      s.source.target? s.encoding s.policy csc.reference.document ref =
        .ok (sc.reference, sc.content) := by
  have hext := create_extends_of_run hs (List.getElem?_eq_some_iff.mp hctx).1 hrun
  obtain ⟨sc, hget, hkey⟩ := create_target hrun
  rw [keyOf_of_get? hctx] at hkey
  have hcontent := hext.consistent.contentAt hget
  rw [hext.source_eq] at hcontent
  refine ⟨hext, sc, hget, ?_⟩
  rw [Source.target?, hkey]
  show (s.source.contentAt sc.reference >>= fun content => pure (sc.reference, content)) = _
  rw [hcontent]
  rfl

/-- A `create` that fails reads a reference text that designates no node in the graph: its key
cannot be formed, or its document or its path is missing. -/
theorem create_target?_error {s s' : Store} (hs : s.Consistent) {context : Nat} {csc : Schema}
    (hctx : s.get? context = some csc) {ref : String} {e : ResolutionError}
    (hrun : (create context ref).run.run s = (.error e, s')) :
    ∃ e', s.source.target? s.encoding s.policy csc.reference.document ref = .error e' := by
  rw [create_eq] at hrun
  rcases hkey : s.keyOf context ref with e₁ | key <;> rw [hkey] at hrun <;> dsimp only at hrun
  · rw [keyOf_of_get? hctx] at hkey
    exact ⟨e₁, by rw [Source.target?, hkey]; rfl⟩
  rw [keyOf_of_get? hctx] at hkey
  have htarget : s.source.target? s.encoding s.policy csc.reference.document ref =
      (s.source.contentAt key).map fun content => (key, content) := by
    rw [Source.target?, hkey]
    show (s.source.contentAt key >>= fun content => pure (key, content)) = _
    cases s.source.contentAt key <;> rfl
  rw [htarget]
  -- the key is new, and then its document or its path fails
  rcases intern_cases s key (some context) with ⟨i, -, hfound⟩ | ⟨-, tree, s₁, hload, hrest⟩ |
      ⟨-, e₁, s₁, hload, -⟩
  · rw [hfound] at hrun
    cases (Prod.mk.inj hrun).1
  · rcases hrest with ⟨content, -, hok⟩ | ⟨e₁, hwalk, -⟩
    · rw [hok] at hrun
      cases (Prod.mk.inj hrun).1
    · refine ⟨e₁, ?_⟩
      rw [Source.contentAt, load_fetch_ok hs hload]
      show (Pointer.walk tree key.fragment).map _ = _
      rw [hwalk]
      rfl
  · refine ⟨e₁, ?_⟩
    rw [Source.contentAt, load_fetch_error hload]
    rfl

/-! ### Targets named in order -/

/-- The schemas numbered `ids` are held under the keys `keys`, in order, and each has `P`. -/
def Names (P : Schema → Prop) (s : Store) (ids : List Nat) (keys : List Reference) : Prop :=
  List.Forall₂ (fun i key => ∃ sc, s.get? i = some sc ∧ sc.reference = key ∧ P sc) ids keys

section Names

variable {P : Schema → Prop} {s : Store} {ids : List Nat} {keys : List Reference}

theorem Names.extend (h : Names P s ids keys) {s' : Store} (hext : Extends s s') :
    Names P s' ids keys :=
  h.imp fun _ _ ⟨sc, hget, hkey, hp⟩ => ⟨sc, hext.get? hget, hkey, hp⟩

theorem Names.cons (h : Names P s ids keys) {i : Nat} {sc : Schema} (hget : s.get? i = some sc)
    (hp : P sc) : Names P s (i :: ids) (sc.reference :: keys) :=
  List.Forall₂.cons ⟨sc, hget, rfl, hp⟩ h

/-- In a coherent store a schema is among `ids` exactly when its key is among `keys`: each key
is held once. -/
theorem Names.mem_iff (h : Names P s ids keys) (hs : s.Consistent) {i : Nat} {sc : Schema}
    (hget : s.get? i = some sc) : i ∈ ids ↔ sc.reference ∈ keys := by
  induction h with
  | nil => simp
  | @cons j key ids keys hj _ ih =>
    obtain ⟨sc', hget', hkey, -⟩ := hj
    have hsame : i = j ↔ sc.reference = key := by
      constructor
      · rintro rfl
        obtain rfl := Option.some.inj (hget.symm.trans hget')
        exact hkey
      · intro hkey'
        have hi := lookup_get_of_nodup hs.references_nodup hget
        rw [hkey', ← hkey, lookup_get_of_nodup hs.references_nodup hget'] at hi
        exact (Option.some.inj hi).symm
    rw [List.mem_cons, List.mem_cons, hsame, ih]

theorem Names.prop (h : Names P s ids keys) {i : Nat} (hi : i ∈ ids) {sc : Schema}
    (hget : s.get? i = some sc) : P sc := by
  induction h with
  | nil => cases hi
  | cons hj _ ih =>
    rcases List.mem_cons.mp hi with rfl | hi
    · obtain ⟨sc', hget', -, hp⟩ := hj
      rw [Option.some.inj (hget.symm.trans hget')]
      exact hp
    · exact ih hi

end Names

end Store

namespace Session

open Store Source

variable {src : Source} {enc : Encoding} {policy : DecodePolicy} {doc : String}

/-! ### Sessions of a compilation -/

/-- A session of the compilation of the document `doc` over a source: its store is coherent and
reads the source, the document's root is schema 0 and bound to a class, every other schema bound to a
class has a class of its own for content, and the classes queued are read in schemas the store
holds. -/
structure Compiling (src : Source) (enc : Encoding) (policy : DecodePolicy) (doc : String)
    (s : Session) : Prop where
  consistent : s.store.Consistent
  source_eq : s.store.source = src
  encoding_eq : s.store.encoding = enc
  policy_eq : s.store.policy = policy
  root : ∃ sc, s.store.get? 0 = some sc ∧ sc.reference = ⟨doc, []⟩
  root_bound : s.registry.bound 0 ≠ none
  bound_class : ∀ i name, s.registry.bound i = some name →
    i = 0 ∨ ∃ sc, s.store.get? i = some sc ∧ sc.content.IsClass
  queued_held : ∀ p ∈ s.registry.queue, p.context < s.store.size

theorem Compiling.extend {s : Session} (hc : s.Compiling src enc policy doc) {st : Store}
    (hext : Extends s.store st) : ({ s with store := st } : Session).Compiling src enc policy doc := by
  obtain ⟨sc, hget, hroot⟩ := hc.root
  refine ⟨hext.consistent, hext.source_eq.trans hc.source_eq,
    hext.encoding_eq.trans hc.encoding_eq, hext.policy_eq.trans hc.policy_eq,
    ⟨sc, hext.get? hget, hroot⟩, hc.root_bound, fun i name hbound => ?_,
    fun p hp => Nat.lt_of_lt_of_le (hc.queued_held p hp) hext.size_le⟩
  rcases hc.bound_class i name hbound with rfl | ⟨sc', hget', hclass⟩
  · exact .inl rfl
  · exact .inr ⟨sc', hext.get? hget', hclass⟩

/-- A schema bound to nothing is not the root: the root is bound from the start. -/
theorem Compiling.ne_root {s : Session} (hc : s.Compiling src enc policy doc) {i : Nat}
    {sc : Schema} (hget : s.store.get? i = some sc) (hunbound : s.registry.bound i = none) :
    sc.reference ≠ ⟨doc, []⟩ := by
  intro hroot
  obtain ⟨rsc, hrget, hrref⟩ := hc.root
  have hi := lookup_get_of_nodup hc.consistent.references_nodup hget
  rw [hroot, ← hrref, lookup_get_of_nodup hc.consistent.references_nodup hrget] at hi
  obtain rfl := Option.some.inj hi
  exact hc.root_bound hunbound

theorem Compiling.target? {s : Session} (hc : s.Compiling src enc policy doc) {context target : Nat}
    {csc : Schema} (hctx : s.store.get? context = some csc) {ref : String} {st : Store}
    (hrun : (create context ref).run.run s.store = (.ok target, st)) :
    Extends s.store st ∧ ∃ sc, st.get? target = some sc ∧
      src.target? enc policy csc.reference.document ref = .ok (sc.reference, sc.content) := by
  have h := create_target? hc.consistent hctx hrun
  rwa [hc.source_eq, hc.encoding_eq, hc.policy_eq] at h

theorem Compiling.target?_error {s : Session} (hc : s.Compiling src enc policy doc)
    {context : Nat} {csc : Schema} (hctx : s.store.get? context = some csc) {ref : String}
    {e : ResolutionError} {st : Store}
    (hrun : (create context ref).run.run s.store = (.error e, st)) :
    ∃ e', src.target? enc policy csc.reference.document ref = .error e' := by
  have h := create_target?_error hc.consistent hctx hrun
  rwa [hc.source_eq, hc.encoding_eq, hc.policy_eq] at h

/-! ### What a landing queues -/

/-- What lowering a node that lands on `landing` does to the registry, the keys read in the store
`st`: nothing for a leaf or a target already bound, the inline class where the walk stands, or the
class of a target bound to nothing, bound to it. -/
inductive Queues (st : Store) : Registry → Landing → Registry → Prop
  | leaf {r : Registry} : Queues st r .leaf r
  | inline {r : Registry} {name : String} {node : Value} {context : Nat} {sc : Schema} :
      st.get? context = some sc →
      Queues st r (.inline node sc.reference) (r.schedule name node context none).2
  | bound {r : Registry} {target : Nat} {sc : Schema} {name : String} :
      st.get? target = some sc → r.bound target = some name → Queues st r (.bound sc.reference) r
  | bind {r : Registry} {target : Nat} {sc : Schema} {name : String} :
      st.get? target = some sc → r.bound target = none → sc.content.IsClass →
      Queues st r (.bound sc.reference) (r.schedule name sc.content target (some target)).2

/-- What lowering nodes that land on `landings`, one after the other, does to the registry. -/
inductive QueuesAll (st : Store) : Registry → List Landing → Registry → Prop
  | nil {r : Registry} : QueuesAll st r [] r
  | cons {r r₁ r' : Registry} {landing : Landing} {landings : List Landing} :
      Queues st r landing r₁ → QueuesAll st r₁ landings r' → QueuesAll st r (landing :: landings) r'

theorem Queues.extend {st st' : Store} {r r' : Registry} {landing : Landing}
    (hq : Queues st r landing r') (hext : Extends st st') : Queues st' r landing r' := by
  cases hq with
  | leaf => exact .leaf
  | inline hget => exact .inline (hext.get? hget)
  | bound hget hbound => exact .bound (hext.get? hget) hbound
  | bind hget hunbound hclass => exact .bind (hext.get? hget) hunbound hclass

theorem QueuesAll.extend {st st' : Store} {r r' : Registry} {landings : List Landing}
    (hq : QueuesAll st r landings r') (hext : Extends st st') : QueuesAll st' r landings r' := by
  induction hq with
  | nil => exact .nil
  | cons hfirst _ ih => exact .cons (hfirst.extend hext) ih

theorem QueuesAll.append {st : Store} {r r₁ r' : Registry} {landings landings' : List Landing}
    (hfirst : QueuesAll st r landings r₁) (hsecond : QueuesAll st r₁ landings' r') :
    QueuesAll st r (landings ++ landings') r' := by
  induction hfirst with
  | nil => exact hsecond
  | cons hq _ ih => exact .cons hq (ih hsecond)

theorem bound_schedule_self (r : Registry) (name : String) (node : Value) (context id : Nat) :
    (r.schedule name node context (some id)).2.bound id = some (r.unique name) := by
  simp [Registry.bound, Registry.schedule, Registry.unique]

/-- Queueing what a landing names keeps the session one of the compilation: an inline class binds
nothing, and a target bound on the spot has a class for content. -/
theorem Compiling.queues {s : Session} (hc : s.Compiling src enc policy doc) {landing : Landing}
    {r' : Registry} (hq : Queues s.store s.registry landing r') :
    ({ s with registry := r' } : Session).Compiling src enc policy doc := by
  cases hq with
  | leaf => exact hc
  | bound => exact hc
  | @inline name node context sc hget =>
    refine ⟨hc.consistent, hc.source_eq, hc.encoding_eq, hc.policy_eq, hc.root, hc.root_bound,
      hc.bound_class, fun p hp => ?_⟩
    rw [Registry.queue_schedule] at hp
    rcases List.mem_append.mp hp with hp | hp
    · exact hc.queued_held p hp
    · rw [List.mem_singleton.mp hp]
      exact (List.getElem?_eq_some_iff.mp hget).1
  | @bind target sc name hget hunbound hclass =>
    -- the target is not the root, which is bound
    have htarget : 0 ≠ target := fun h => hc.root_bound (h ▸ hunbound)
    refine ⟨hc.consistent, hc.source_eq, hc.encoding_eq, hc.policy_eq, hc.root, ?_,
      fun i n hbound => ?_, fun p hp => ?_⟩
    · rw [Registry.bound_schedule_of_ne htarget]
      exact hc.root_bound
    · by_cases hi : i = target
      · subst hi
        exact .inr ⟨sc, hget, hclass⟩
      · rw [Registry.bound_schedule_of_ne hi] at hbound
        exact hc.bound_class i n hbound
    · rw [Registry.queue_schedule] at hp
      rcases List.mem_append.mp hp with hp | hp
      · exact hc.queued_held p hp
      · rw [List.mem_singleton.mp hp]
        exact (List.getElem?_eq_some_iff.mp hget).1

/-- A step that extends the store and queues landings keeps the session one of the compilation. -/
theorem Compiling.step {s s' : Session} (hc : s.Compiling src enc policy doc)
    (hext : Extends s.store s'.store) {landings : List Landing}
    (hq : QueuesAll s'.store s.registry landings s'.registry) : s'.Compiling src enc policy doc := by
  -- queue the landings one at a time over the final store
  have hall : ∀ {r r' : Registry} {landings : List Landing},
      ({ s' with registry := r } : Session).Compiling src enc policy doc →
      QueuesAll s'.store r landings r' →
      ({ s' with registry := r' } : Session).Compiling src enc policy doc := by
    intro r r' landings hr hq
    induction hq with
    | nil => exact hr
    | cons hfirst _ ih => exact ih (hr.queues hfirst)
  exact hall (hc.extend hext) hq

/-! ### Lowering lands -/

/-- How a walk that lands on `landing` ends: with an error when the landing fails, and otherwise
with a value, having taken the registry from `r` to `r'` as the landing says. -/
def WalkEnds {α : Type} (st : Store) (r : Registry) (landing : Landing)
    (result : Except CompileError α) (r' : Registry) : Prop :=
  (landing = .fails ∧ ∃ e, result = .error e) ∨
    (landing ≠ .fails ∧ ∃ a, result = .ok a ∧ Queues st r landing r')

theorem WalkEnds.map {α β : Type} {st : Store} {r r' : Registry} {landing : Landing}
    {result : Except CompileError α} (f : α → β) (h : WalkEnds st r landing result r') :
    WalkEnds st r landing (result.map f) r' := by
  rcases h with ⟨hfails, e, rfl⟩ | ⟨hne, a, rfl, hq⟩
  · exact .inl ⟨hfails, e, rfl⟩
  · exact .inr ⟨hne, f a, rfl, hq⟩

/-- The walk lowering a node ends as the node's landing in the graph says. The induction is on
the walk; it carries the trail, named in order by the keys of the graph walk, each with content
that is no class of its own (a followed target whose content is a class ends the walk at once).
The node is bound to no schema unless it is no class of its own either. -/
theorem Dispatch.lands {naming : Naming} {hint : String} {node : Value} {context : Nat}
    {identity : Option Nat} {trail : List Nat} {sess : Session}
    {result : Except CompileError MemberType} {sess' : Session}
    (hwalk : Dispatch naming hint node context identity trail sess result sess')
    (hc : sess.Compiling src enc policy doc) {csc : Schema}
    (hctx : sess.store.get? context = some csc) (hidentity : ∀ t, identity = some t → ¬ node.IsClass)
    {keys : List Reference}
    (htrail : Names (fun sc => ¬ sc.content.IsClass) sess.store trail keys) :
    ∃ landing, src.Lands enc policy ⟨doc, []⟩ node csc.reference keys landing ∧
      WalkEnds sess'.store sess.registry landing result sess'.registry := by
  induction hwalk generalizing csc keys with
  | refFailed href hcreate =>
    obtain ⟨e, htarget⟩ := hc.target?_error hctx hcreate
    exact ⟨.fails, .failed href htarget, .inl ⟨rfl, _, rfl⟩⟩
  | refBound href hcreate hbound =>
    obtain ⟨hext, sc, hget, htarget⟩ := hc.target? hctx hcreate
    -- a bound target is the root, or its content is a class of its own
    have hend : sc.reference = ⟨doc, []⟩ ∨ sc.content.IsClass := by
      rcases hc.bound_class _ _ hbound with rfl | ⟨sc', hget', hclass⟩
      · obtain ⟨rsc, hrget, hroot⟩ := hc.root
        rw [Option.some.inj ((hext.get? hrget).symm.trans hget)] at hroot
        exact .inl hroot
      · rw [← Option.some.inj ((hext.get? hget').symm.trans hget)]
        exact .inr hclass
    exact ⟨.bound sc.reference, .bound href htarget hend,
      .inr ⟨nofun, _, rfl, .bound hget hbound⟩⟩
  | refCyclic href hcreate hunbound hget hmem =>
    obtain ⟨hext, sc, hget', htarget⟩ := hc.target? hctx hcreate
    obtain rfl := Option.some.inj (hget'.symm.trans hget)
    have htrail' := htrail.extend hext
    exact ⟨.fails, .cyclic href htarget ((hc.extend hext).ne_root hget hunbound)
      (htrail'.prop hmem hget) ((htrail'.mem_iff hext.consistent hget).mp hmem),
      .inl ⟨rfl, _, rfl⟩⟩
  | refFollow href hcreate hunbound hget hfresh hrest ih =>
    obtain ⟨hext, sc, hget', htarget⟩ := hc.target? hctx hcreate
    obtain rfl := Option.some.inj (hget'.symm.trans hget)
    have hc' := hc.extend hext
    have htrail' := htrail.extend hext
    have hnot : sc.reference ∉ keys := fun hkey =>
      hfresh ((htrail'.mem_iff hext.consistent hget).mpr hkey)
    by_cases hclass : sc.content.IsClass
    · -- the content is a class of its own: lowering it binds the target to its class
      obtain ⟨rfl, rfl⟩ := Dispatch.unique hrest (Dispatch.classOf hclass.1 hclass.2)
      exact ⟨.bound sc.reference, .bound href htarget (.inr hclass),
        .inr ⟨nofun, _, rfl, .bind hget hunbound hclass⟩⟩
    · obtain ⟨landing, hlands, hends⟩ :=
        ih hc' hget (fun _ _ => hclass) (htrail'.cons hget hclass)
      exact ⟨landing, .follow href htarget (hc'.ne_root hget hunbound) hclass hnot hlands, hends⟩
  | mapOf hnoref hobject hvalues _ ih =>
    obtain ⟨landing, hlands, hends⟩ := ih hc hctx (fun _ h => nomatch h) htrail
    exact ⟨landing, .element hnoref (Value.makesClass_of_mapValues? hvalues)
      (Value.element?_of_mapValues? hobject hvalues) hlands, hends.map _⟩
  | classOf hnoref hmakes =>
    rename_i identity _ _
    cases identity with
    | some t => exact absurd ⟨hnoref, hmakes⟩ (hidentity t rfl)
    | none => exact ⟨_, .inline ⟨hnoref, hmakes⟩, .inr ⟨nofun, _, rfl, .inline hctx⟩⟩
  | collectionOf hnoref hobject harray hitems _ ih =>
    obtain ⟨landing, hlands, hends⟩ := ih hc hctx (fun _ h => nomatch h) htrail
    exact ⟨landing, .element hnoref (Value.makesClass_of_objectLike hobject)
      (Value.element?_of_arrayItems? hobject harray hitems) hlands, hends.map _⟩
  | leaf hnoref hobject hitems =>
    exact ⟨.leaf, .leaf hnoref (Value.makesClass_of_objectLike hobject)
      (Value.element?_of_leaf hobject hitems), .inr ⟨nofun, _, rfl, .leaf⟩⟩

/-- `typeFor` ends as the landing of the node, read in the schema `context`, says. -/
theorem typeFor_lands (naming : Naming) (hint : String) (node : Value) {sess : Session}
    (hc : sess.Compiling src enc policy doc) {context : Nat} {csc : Schema}
    (hctx : sess.store.get? context = some csc) :
    ∃ result sess', (typeFor naming hint node context).run.run sess = (result, sess') ∧
      Extends sess.store sess'.store ∧
      ∃ landing, src.Lands enc policy ⟨doc, []⟩ node csc.reference [] landing ∧
        WalkEnds sess'.store sess.registry landing result sess'.registry := by
  obtain ⟨result, sess', hrun, hwalk, hext⟩ :=
    typeFor_lowersAs naming hint node hc.consistent (List.getElem?_eq_some_iff.mp hctx).1
  exact ⟨result, sess', by rw [typeFor, run_bind, run_get]; exact hrun, hext,
    hwalk.lands hc hctx (fun _ h => nomatch h) .nil⟩

/-! ### Resolving references -/

/-- A chase of references ends as `Resolves` says, the targets visited named in order by the
keys of the graph walk. -/
theorem Chain.resolves {s st : Store} {node : Value} {context : Nat} {visited : List Nat}
    {result : Except ResolutionError Value} (hchain : Chain s node context visited result st)
    (hs : s.Consistent) {csc : Schema} (hctx : s.get? context = some csc) {keys : List Reference}
    (hvisited : Names (fun _ => True) s visited keys) :
    s.source.Resolves s.encoding s.policy node csc.reference keys result.toBool := by
  induction hchain generalizing csc keys with
  | resolved hnone => exact .resolved hnone
  | failed href hcreate =>
    obtain ⟨e, htarget⟩ := create_target?_error hs hctx hcreate
    exact .failed href htarget
  | revisited href hcreate hget hmem =>
    obtain ⟨hext, sc, hget', htarget⟩ := create_target? hs hctx hcreate
    obtain rfl := Option.some.inj (hget'.symm.trans hget)
    exact .revisited href htarget (((hvisited.extend hext).mem_iff hext.consistent hget).mp hmem)
  | hop href hcreate hget hfresh _ ih =>
    obtain ⟨hext, sc, hget', htarget⟩ := create_target? hs hctx hcreate
    obtain rfl := Option.some.inj (hget'.symm.trans hget)
    have hvisited' := hvisited.extend hext
    have hnot : sc.reference ∉ keys := fun hkey =>
      hfresh ((hvisited'.mem_iff hext.consistent hget).mpr hkey)
    have hrest := ih hext.consistent hget (hvisited'.cons hget trivial)
    rw [hext.source_eq, hext.encoding_eq, hext.policy_eq] at hrest
    exact .hop href htarget hnot hrest

/-- `resolveRefs` resolves as the graph says, and leaves the classes alone. -/
theorem resolveRefs_resolves (node : Value) {sess : Session} (hc : sess.Compiling src enc policy doc)
    {context : Nat} {csc : Schema} (hctx : sess.store.get? context = some csc) :
    ∃ result sess', (resolveRefs node context).run.run sess = (result, sess') ∧
      sess'.registry = sess.registry ∧ Extends sess.store sess'.store ∧
      src.Resolves enc policy node csc.reference [] result.toBool := by
  obtain ⟨result, st, hrun, hchain, hext⟩ :=
    chase_reach_chain hc.consistent node (List.getElem?_eq_some_iff.mp hctx).1
  have hres := hchain.resolves hc.consistent hctx .nil
  rw [hc.source_eq, hc.encoding_eq, hc.policy_eq] at hres
  rw [resolveRefs_run, liftStore_run, hrun]
  cases result with
  | error e => exact ⟨_, _, rfl, rfl, hext, hres⟩
  | ok v => exact ⟨_, _, rfl, rfl, hext, hres⟩

end Session

namespace Compiler

open Store Source Session

variable {src : Source} {enc : Encoding} {policy : DecodePolicy} {doc : String}

/-- How a step of a compilation whose landings would satisfy `lands` ends: with a value, having
queued some landings that do and extended the store, or with an error when none do. -/
def RunLands {α : Type} (lands : List Landing → Prop) (s : Session) (result : Except CompileError α)
    (s' : Session) : Prop :=
  ((∃ a, result = .ok a) ∧ ∃ landings, lands landings ∧
      QueuesAll s'.store s.registry landings s'.registry ∧ Extends s.store s'.store) ∨
    ((∃ e, result = .error e) ∧ ¬ ∃ landings, lands landings)

/-! ### The member loop -/

section Members

variable {c : Compiler} {p : Pending} {s : Session} {csc : Schema}

/-- A turn of the member loop that succeeds: the property's identifier is fresh, its node lands
without failing and resolves, and the member is appended under that identifier. -/
theorem memberStep_lands (hc : s.Compiling src enc policy doc)
    (hctx : s.store.get? p.context = some csc) {cls cls' : ClassModel} {name : String}
    {node : Value} {s' : Session} (hrun : (c.memberStep p cls (name, node)).run.run s = (.ok cls', s')) :
    ∃ id landing, c.naming.propertyName name = .ok id ∧ id ∉ cls.members.map Member.targetName ∧
      src.Lands enc policy ⟨doc, []⟩ node csc.reference [] landing ∧ landing ≠ .fails ∧
      src.Resolves enc policy node csc.reference [] true ∧
      Queues s'.store s.registry landing s'.registry ∧ Extends s.store s'.store ∧
      cls'.members.map Member.targetName = cls.members.map Member.targetName ++ [id] := by
  obtain ⟨id, ty, resolved, s₁, hname, hfresh, hty, hresolved, rfl⟩ := memberStep_ok hrun
  obtain ⟨result, s₁', hty', hext₁, landing, hlands, hends⟩ := typeFor_lands c.naming name node hc hctx
  rw [hty] at hty'
  obtain ⟨rfl, rfl⟩ := Prod.mk.inj hty'
  rcases hends with ⟨-, e, he⟩ | ⟨hne, _, -, hqueues⟩
  · cases he
  have hc₁ : s₁.Compiling src enc policy doc := hc.step hext₁ (.cons hqueues .nil)
  obtain ⟨result', s₂, hres, hregistry, hext₂, hresolves⟩ :=
    resolveRefs_resolves node hc₁ (hext₁.get? hctx)
  rw [hresolved] at hres
  obtain ⟨rfl, rfl⟩ := Prod.mk.inj hres
  refine ⟨id, landing, hname, ClassModel.hasMember_eq_false_iff.mp hfresh, hlands, hne, hresolves,
    ?_, hext₁.trans hext₂, ClassModel.targetNames_appendMember _ _⟩
  rw [hregistry]
  exact hqueues.extend hext₂

/-- A property whose identifier is fresh, whose node lands without failing and resolves, passes its
turn of the member loop. -/
theorem memberStep_ok_of_lands (hc : s.Compiling src enc policy doc)
    (hctx : s.store.get? p.context = some csc) {cls : ClassModel} {name id : String} {node : Value}
    {landing : Landing} (hname : c.naming.propertyName name = .ok id)
    (hfresh : id ∉ cls.members.map Member.targetName)
    (hlands : src.Lands enc policy ⟨doc, []⟩ node csc.reference [] landing)
    (hne : landing ≠ .fails) (hresolves : src.Resolves enc policy node csc.reference [] true) :
    ∃ cls' s', (c.memberStep p cls (name, node)).run.run s = (.ok cls', s') := by
  obtain ⟨result, s₁, hty, hext₁, landing', hlands', hends⟩ := typeFor_lands c.naming name node hc hctx
  rcases hends with ⟨hfails, -⟩ | ⟨-, ty, rfl, hqueues⟩
  · exact absurd ((hlands.unique hlands').trans hfails) hne
  have hc₁ : s₁.Compiling src enc policy doc := hc.step hext₁ (.cons hqueues .nil)
  obtain ⟨result', s₂, hres, -, -, hresolves'⟩ := resolveRefs_resolves node hc₁ (hext₁.get? hctx)
  obtain ⟨v, rfl⟩ : ∃ v, result' = .ok v := by
    cases result' with
    | error e => cases hresolves.unique hresolves'
    | ok v => exact ⟨v, rfl⟩
  have hfresh' : cls.hasMember id = false := ClassModel.hasMember_eq_false_iff.mpr hfresh
  refine ⟨cls.appendMember (c.memberSpec name id ty v cls.name), s₂, ?_⟩
  rw [memberStep, atMember_eq_ok, compileMember_appends, run_bind, hname, liftNaming_ok, run_pure]
  dsimp only
  rw [if_neg (by simp [hfresh']), run_bind, hty]
  dsimp only
  rw [run_bind, hres]
  rfl

/-- The member loop over `fields` ends as the properties' landings say, after the identifiers the
class has taken. -/
theorem foldlM_memberStep_lands (fields : List (String × Value)) :
    ∀ (cls : ClassModel) {s s' : Session} {result : Except CompileError ClassModel},
      s.Compiling src enc policy doc → s.store.get? p.context = some csc →
      (fields.foldlM (c.memberStep p) cls).run.run s = (result, s') →
      RunLands (src.PropertiesLand enc policy c.naming ⟨doc, []⟩ csc.reference
        (cls.members.map Member.targetName) fields) s result s' := by
  induction fields with
  | nil =>
    intro cls s s' result hc _ hrun
    rw [List.foldlM_nil, run_pure] at hrun
    obtain ⟨rfl, rfl⟩ := Prod.mk.inj hrun
    exact .inl ⟨⟨cls, rfl⟩, [], .nil, .nil, Extends.refl hc.consistent⟩
  | cons field fields ih =>
    obtain ⟨name, node⟩ := field
    intro cls s s' result hc hctx hrun
    rw [List.foldlM_cons, run_bind] at hrun
    rcases hstep : (c.memberStep p cls (name, node)).run.run s with ⟨_ | cls₁, s₁⟩ <;>
      rw [hstep] at hrun
    · -- the member fails, and so does the class: had its property landed, it would have passed
      obtain ⟨rfl, rfl⟩ := Prod.mk.inj hrun
      refine .inr ⟨⟨_, rfl⟩, ?_⟩
      rintro ⟨_, hprops⟩
      cases hprops with
      | cons hname hfresh hlands hne hresolves _ =>
        obtain ⟨_, _, hok⟩ := memberStep_ok_of_lands hc hctx hname hfresh hlands hne hresolves
        rw [hstep] at hok
        cases (Prod.mk.inj hok).1
    · obtain ⟨id, landing, hname, hfresh, hlands, hne, hresolves, hqueues, hext, htaken⟩ :=
        memberStep_lands hc hctx hstep
      have hc₁ : s₁.Compiling src enc policy doc := hc.step hext (.cons hqueues .nil)
      rcases ih cls₁ hc₁ (hext.get? hctx) hrun with
        ⟨hok, landings, hprops, hall, hext'⟩ | ⟨herr, hnot⟩
      · rw [htaken] at hprops
        exact .inl ⟨hok, landing :: landings, .cons hname hfresh hlands hne hresolves hprops,
          .cons (hqueues.extend hext') hall, hext.trans hext'⟩
      · refine .inr ⟨herr, ?_⟩
        rintro ⟨_, hprops⟩
        cases hprops with
        | cons hname' _ _ _ _ hrest =>
          obtain rfl := Except.ok.inj (hname'.symm.trans hname)
          exact hnot ⟨_, htaken ▸ hrest⟩

end Members

section Classes

variable {c : Compiler} {p : Pending} {s : Session} {csc : Schema}

/-- The type of a class's additional properties ends as their landing says. -/
theorem additionalType_lands (hc : s.Compiling src enc policy doc)
    (hctx : s.store.get? p.context = some csc) {result : Except CompileError (Option MemberType)}
    {s' : Session} (hrun : (c.additionalType p).run.run s = (result, s')) :
    RunLands (src.ExtraLands enc policy ⟨doc, []⟩ csc.reference p.node) s result s' := by
  unfold additionalType at hrun
  split at hrun
  · -- `false`: nothing is lowered
    rename_i hget
    rw [run_pure] at hrun
    obtain ⟨rfl, rfl⟩ := Prod.mk.inj hrun
    exact .inl ⟨⟨_, rfl⟩, [], .none (Value.additionalValues?_of_not_object (by simp [hget])), .nil,
      Extends.refl hc.consistent⟩
  · rename_i fields hget
    obtain ⟨res, s₁, hty, hext, landing, hlands, hends⟩ :=
      typeFor_lands c.naming (p.name ++ "Property") (.object fields) hc hctx
    have hvalues := Value.additionalValues?_of_object hget
    rw [run_map, atMember_run, hty] at hrun
    rcases hends with ⟨hfails, e, rfl⟩ | ⟨hne, ty, rfl, hq⟩
    · obtain ⟨rfl, rfl⟩ := Prod.mk.inj hrun
      refine .inr ⟨⟨_, rfl⟩, ?_⟩
      rintro ⟨_, hextra⟩
      cases hextra with
      | none hnone => cases hvalues.symm.trans hnone
      | some hsome hlands' hne' =>
        cases hvalues.symm.trans hsome
        exact hne' ((hlands.unique hlands').symm.trans hfails)
    · obtain ⟨rfl, rfl⟩ := Prod.mk.inj hrun
      exact .inl ⟨⟨_, rfl⟩, [landing], .some hvalues hlands hne, .cons hq .nil, hext⟩
  · -- anything else: extra properties of any type, nothing lowered
    rename_i hobject
    rw [run_pure] at hrun
    obtain ⟨rfl, rfl⟩ := Prod.mk.inj hrun
    exact .inl ⟨⟨_, rfl⟩, [], .none (Value.additionalValues?_of_not_object fun fields h =>
      hobject fields h), .nil, Extends.refl hc.consistent⟩

/-- Compiling a queued class, from a session of the compilation, returns a class exactly when the
class lands in the graph; it then queues its landings, in order, and extends the store. -/
theorem compileClass_lands (hc : s.Compiling src enc policy doc)
    (hctx : s.store.get? p.context = some csc) {result : Except CompileError ClassModel}
    {s' : Session} (hrun : (c.compileClass p).run.run s = (result, s')) :
    RunLands (src.ClassLands enc policy c.naming ⟨doc, []⟩ p.node csc.reference) s result s' := by
  rw [compileClass_eq, run_bind] at hrun
  rcases hmembers : (c.compileMembers p).run.run s with ⟨_ | cls, s₁⟩ <;> rw [hmembers] at hrun <;>
    rw [compileMembers_eq] at hmembers <;> dsimp only at hrun
  · -- a property fails: no landings of the properties
    obtain ⟨rfl, rfl⟩ := Prod.mk.inj hrun
    rcases foldlM_memberStep_lands _ _ hc hctx hmembers with ⟨⟨_, hok⟩, -⟩ | ⟨-, hnot⟩
    · cases hok
    · refine .inr ⟨⟨_, rfl⟩, ?_⟩
      rintro ⟨_, props, _, hprops, -⟩
      exact hnot ⟨props, hprops⟩
  rcases foldlM_memberStep_lands _ _ hc hctx hmembers with ⟨-, props, hprops, hq₁, hext₁⟩ |
    ⟨⟨_, herr⟩, -⟩
  swap
  · cases herr
  have hc₁ : s₁.Compiling src enc policy doc := hc.step hext₁ hq₁
  rw [run_bind] at hrun
  rcases hadd : (c.additionalType p).run.run s₁ with ⟨_ | additional, s₂⟩ <;> rw [hadd] at hrun <;>
    dsimp only at hrun
  · -- the additional properties fail
    obtain ⟨rfl, rfl⟩ := Prod.mk.inj hrun
    rcases additionalType_lands hc₁ (hext₁.get? hctx) hadd with ⟨⟨_, hok⟩, -⟩ | ⟨-, hnot⟩
    · cases hok
    · refine .inr ⟨⟨_, rfl⟩, ?_⟩
      rintro ⟨_, _, extra, _, hextra, -⟩
      exact hnot ⟨extra, hextra⟩
  · rw [run_pure] at hrun
    obtain ⟨rfl, rfl⟩ := Prod.mk.inj hrun
    rcases additionalType_lands hc₁ (hext₁.get? hctx) hadd with ⟨-, extra, hextra, hq₂, hext₂⟩ |
      ⟨⟨_, herr⟩, -⟩
    · exact .inl ⟨⟨_, rfl⟩, props ++ extra, ⟨props, extra, hprops, hextra, rfl⟩,
        (hq₁.extend hext₂).append hq₂, hext₁.trans hext₂⟩
    · cases herr

end Classes

end Compiler

end SchemaModel

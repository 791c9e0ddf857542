import SchemaModel.Proofs.Lowering
import SchemaModel.Proofs.Registry
import SchemaModel.Proofs.Store
import SchemaModel.Proofs.Subtree
/-!
# Bounded compilations

A compilation over a source only ever holds what the source gives. Its store holds schemas whose
references are keys the source can form: a document of the source with the empty path or with
the path of one of its reference texts. Its registry binds each schema at most once, and every
schema not bound to a class is one a reference of the source designates. Its queue holds nodes
that lie within the documents of the source. A bounded session is where the potential of
`Capacity` is counted: queueing, taking and binding classes keep it bounded.
-/

namespace SchemaModel

namespace Source

/-- The reference texts the documents of a source hold. -/
def refTexts (src : Source) : List String := src.trees.flatMap Value.refTexts

/-- A node lies within a document of the source. -/
def Holds (src : Source) (v : Value) : Prop := ∃ tree ∈ src.trees, v.Within tree

/-- The nodes a reference of the source can designate: where the fragment of one of its
reference texts leads in one of its documents. -/
def RefTarget (src : Source) (enc : Encoding) (policy : DecodePolicy) (node : Value) : Prop :=
  ∃ t ∈ src.refTexts, ∃ doc tree segs, src.fetch doc = .ok tree ∧
    Pointer.segments enc policy (Store.splitRef t).2 = .ok segs ∧ Pointer.walk tree segs = .ok node

/-- The keys a compilation over the source can give schemas: a document of the source with the
empty path, or with the path of one of its reference texts. -/
def keys (src : Source) (enc : Encoding) (policy : DecodePolicy) : List Reference :=
  src.entries.flatMap fun entry => ⟨entry.1, []⟩ ::
    src.refTexts.filterMap fun t =>
      (Pointer.segments enc policy (Store.splitRef t).2).toOption.map (Reference.mk entry.1)

theorem mem_of_fetch {src : Source} {doc : String} {tree : Value}
    (hfetch : src.fetch doc = .ok tree) : (doc, .ok tree) ∈ src.entries ∧ tree ∈ src.trees := by
  unfold fetch at hfetch
  split at hfetch
  · rename_i r hlookup
    cases hfetch
    have hmem := Value.mem_of_lookup hlookup
    exact ⟨hmem, List.mem_filterMap.mpr ⟨_, hmem, rfl⟩⟩
  · cases hfetch

theorem holds_of_walk {src : Source} {doc : String} {tree node : Value} {segs : List String}
    (hfetch : src.fetch doc = .ok tree) (hwalk : Pointer.walk tree segs = .ok node) :
    src.Holds node :=
  ⟨tree, (mem_of_fetch hfetch).2, Value.within_of_walk hwalk⟩

theorem Holds.refTexts_subset {src : Source} {v : Value} (hv : src.Holds v) :
    ∀ t ∈ v.refTexts, t ∈ src.refTexts := by
  obtain ⟨tree, htree, hwithin⟩ := hv
  intro t ht
  exact List.mem_flatMap.mpr ⟨tree, htree, hwithin.refTexts_subset t ht⟩

theorem Holds.get? {src : Source} {v w : Value} {key : String} (hv : src.Holds v)
    (hget : v.get? key = some w) : src.Holds w := by
  obtain ⟨tree, htree, hwithin⟩ := hv
  exact ⟨tree, htree, (Value.within_of_get? hget).trans hwithin⟩

theorem Holds.field {src : Source} {fields : List (String × Value)} {field : String × Value}
    (hv : src.Holds (.object fields)) (hmem : field ∈ fields) : src.Holds field.2 := by
  obtain ⟨tree, htree, hwithin⟩ := hv
  exact ⟨tree, htree, (Value.Within.field hmem .refl).trans hwithin⟩

end Source

namespace Store

open Source

section Bounded

variable {src : Source} {enc : Encoding} {policy : DecodePolicy}

/-- A store of a compilation over `src`: coherent, reading `src` with the encoding and policy
given, and holding only keys the source can give. -/
structure Bounded (src : Source) (enc : Encoding) (policy : DecodePolicy) (st : Store) : Prop where
  consistent : st.Consistent
  source_eq : st.source = src
  encoding_eq : st.encoding = enc
  policy_eq : st.policy = policy
  keys : ∀ sc ∈ st.schemas, sc.reference ∈ src.keys enc policy

/-- A step from `st` to `st'` that appends schemas designated by references of the source and keeps
the store bounded. -/
def Grows (src : Source) (enc : Encoding) (policy : DecodePolicy) (st st' : Store) : Prop :=
  st'.Bounded src enc policy ∧
    ∃ added, st'.schemas = st.schemas ++ added ∧ ∀ sc ∈ added, src.RefTarget enc policy sc.content

theorem Grows.refl {st : Store} (hst : st.Bounded src enc policy) : Grows src enc policy st st :=
  ⟨hst, [], by simp, by simp⟩

theorem Grows.trans {st st' st'' : Store} (hfirst : Grows src enc policy st st')
    (hsecond : Grows src enc policy st' st'') : Grows src enc policy st st'' := by
  obtain ⟨-, added, hadded, htargets⟩ := hfirst
  obtain ⟨hbounded, added', hadded', htargets'⟩ := hsecond
  refine ⟨hbounded, added ++ added', by rw [hadded', hadded, List.append_assoc], ?_⟩
  intro sc hsc
  rcases List.mem_append.mp hsc with hsc | hsc
  · exact htargets sc hsc
  · exact htargets' sc hsc

theorem Grows.size_le {st st' : Store} (hgrows : Grows src enc policy st st') : st.size ≤ st'.size := by
  obtain ⟨-, added, hadded, -⟩ := hgrows
  simp [size, hadded]

theorem Grows.get? {st st' : Store} (hgrows : Grows src enc policy st st') {i : Nat}
    (hi : i < st.size) : st'.get? i = st.get? i := by
  obtain ⟨-, added, hadded, -⟩ := hgrows
  simp only [Store.get?, hadded]
  exact List.getElem?_append_left hi

/-- A schema a store gains is designated by a reference of the source. -/
theorem Grows.refTarget {st st' : Store} (hgrows : Grows src enc policy st st') {i : Nat}
    {sc : Schema} (hget : st'.get? i = some sc) (hi : st.size ≤ i) :
    src.RefTarget enc policy sc.content := by
  obtain ⟨-, added, hadded, htargets⟩ := hgrows
  simp only [Store.get?, hadded] at hget
  rw [List.getElem?_append_right hi] at hget
  exact htargets sc (List.mem_of_getElem? hget)

/-- The store holds no more schemas than the source has keys: its references are distinct. -/
theorem Bounded.size_le {st : Store} (hst : st.Bounded src enc policy) :
    st.size ≤ (src.keys enc policy).length := by
  have hsub : st.schemas.map (·.reference) ⊆ src.keys enc policy := by
    intro r hr
    obtain ⟨sc, hsc, rfl⟩ := List.mem_map.mp hr
    exact hst.keys sc hsc
  have hlen := List.Nodup.length_le_of_subset hst.consistent.references_nodup hsub
  simpa [size] using hlen

theorem Bounded.holds {st : Store} (hst : st.Bounded src enc policy) {i : Nat} {sc : Schema}
    (hget : st.get? i = some sc) : src.Holds sc.content := by
  obtain ⟨tree, hfetch, hwalk⟩ := hst.consistent.content_walk sc (List.mem_of_getElem? hget)
  rw [hst.source_eq] at hfetch
  exact holds_of_walk hfetch hwalk

theorem intern_frame (s : Store) (r : Reference) (parent : Option Nat) :
    ∃ docs schemas, ((intern r parent).run.run s).2 =
      { s with documents := docs, schemas := schemas } := by
  rcases intern_cases s r parent with ⟨_, -, hrun⟩ | ⟨-, tree, s₁, hload, hrest⟩ |
      ⟨-, _, s₁, hload, hrun⟩
  · rw [hrun]
    exact ⟨s.documents, s.schemas, rfl⟩
  · obtain ⟨docs, hframe⟩ := load_frame s r.document
    rw [hload] at hframe
    subst hframe
    rcases hrest with ⟨content, -, hrun⟩ | ⟨_, -, hrun⟩ <;> rw [hrun]
    · exact ⟨docs, s.schemas ++ [⟨r, content, parent⟩], rfl⟩
    · exact ⟨docs, s.schemas, rfl⟩
  · obtain ⟨docs, hframe⟩ := load_frame s r.document
    rw [hload] at hframe
    subst hframe
    rw [hrun]
    exact ⟨docs, s.schemas, rfl⟩

theorem create_frame (s : Store) (parent : Nat) (ref : String) :
    ∃ docs schemas, ((create parent ref).run.run s).2 =
      { s with documents := docs, schemas := schemas } := by
  rw [create_eq]
  rcases keyOf s parent ref with _ | key
  · exact ⟨s.documents, s.schemas, rfl⟩
  · exact intern_frame s key (some parent)

theorem keyOf_fragment {s : Store} {parent : Nat} {ref : String} {key : Reference}
    (hkey : keyOf s parent ref = .ok key) :
    Pointer.segments s.encoding s.policy (splitRef ref).2 = .ok key.fragment := by
  unfold keyOf at hkey
  rcases hsegs : Pointer.segments s.encoding s.policy
    (String.ofList (ref.toList.dropWhile (· ≠ '#'))) with e | segs
  · rw [hsegs] at hkey
    cases hkey
  · rw [hsegs] at hkey
    cases hkey
    exact hsegs

/-- The key of a reference text of the source, in a document the source gives, is one of its
keys, and the node it designates is a reference target. -/
theorem keyOf_bounded {s : Store} (hs : s.Bounded src enc policy) {parent : Nat} {ref : String}
    (href : ref ∈ src.refTexts) {key : Reference} (hkey : keyOf s parent ref = .ok key)
    {tree content : Value} (hfetch : src.fetch key.document = .ok tree)
    (hwalk : Pointer.walk tree key.fragment = .ok content) :
    key ∈ src.keys enc policy ∧ src.RefTarget enc policy content := by
  have hsegs := keyOf_fragment hkey
  rw [hs.encoding_eq, hs.policy_eq] at hsegs
  refine ⟨?_, ref, href, key.document, tree, key.fragment, hfetch, hsegs, hwalk⟩
  obtain ⟨hentry, -⟩ := mem_of_fetch hfetch
  refine List.mem_flatMap.mpr ⟨_, hentry, List.mem_cons_of_mem _ ?_⟩
  refine List.mem_filterMap.mpr ⟨ref, href, ?_⟩
  rw [hsegs]
  rfl

/-- A `create` reading a reference text of the source in a schema the store holds grows the
store, and the number it returns is held. -/
theorem create_grows {s : Store} (hs : s.Bounded src enc policy) {parent : Nat} {ref : String}
    (hparent : parent < s.size) (href : ref ∈ src.refTexts) :
    Grows src enc policy s ((create parent ref).run.run s).2 ∧
      ∀ id, ((create parent ref).run.run s).1 = .ok id → id < ((create parent ref).run.run s).2.size := by
  have hconsistent : ((create parent ref).run.run s).2.Consistent := by
    rw [create_eq]
    rcases keyOf s parent ref with _ | key
    · exact hs.consistent
    · exact hs.consistent.intern key (fun p hp => by cases hp; exact hparent)
  obtain ⟨docs, schemas, hframe⟩ := create_frame s parent ref
  have hout := create_outcome s parent ref
  generalize (create parent ref).run.run s = result at hconsistent hframe hout ⊢
  obtain ⟨res, s'⟩ := result
  simp only at hconsistent hframe ⊢
  subst hframe
  unfold CreateOutcome at hout
  rcases hkey : keyOf s parent ref with e | key <;> simp only [hkey] at hout
  · -- the key could not be formed: nothing changed
    obtain ⟨rfl, hsame⟩ := hout
    rw [hsame]
    exact ⟨Grows.refl hs, fun id hid => by cases hid⟩
  obtain ⟨-, hlookup⟩ := hout
  rcases hi : s.lookup key with _ | i <;> simp only [hi] at hlookup
  swap
  · -- the key is held
    obtain ⟨rfl, hsame⟩ := hlookup
    rw [hsame]
    refine ⟨Grows.refl hs, fun id hid => ?_⟩
    cases hid
    obtain ⟨sc, hget, -⟩ := lookup_eq_some hi
    exact (List.getElem?_eq_some_iff.mp hget).1
  rcases hlookup with ⟨rfl, content, hschemas⟩ | ⟨e, rfl, hschemas⟩
  · -- a schema is appended for the key
    have hnew : ⟨key, content, some parent⟩ ∈ schemas := by simp [hschemas]
    obtain ⟨tree, hfetch, hwalk⟩ := hconsistent.content_walk _ hnew
    rw [show ({ s with documents := docs, schemas := schemas } : Store).source = src from
      hs.source_eq] at hfetch
    obtain ⟨hkeyed, htarget⟩ := keyOf_bounded hs href hkey hfetch hwalk
    refine ⟨⟨⟨hconsistent, hs.source_eq, hs.encoding_eq, hs.policy_eq, ?_⟩, [⟨key, content, some parent⟩],
      hschemas, by simpa using htarget⟩, fun id hid => ?_⟩
    · intro sc hsc
      rw [hschemas] at hsc
      rcases List.mem_append.mp hsc with hold | hlast
      · exact hs.keys sc hold
      · rw [List.mem_singleton.mp hlast]
        exact hkeyed
    · cases hid
      simp [size, hschemas]
  · -- the walk or the load failed: the schemas are as they were
    refine ⟨⟨⟨hconsistent, hs.source_eq, hs.encoding_eq, hs.policy_eq, ?_⟩, [], by simp [hschemas], by simp⟩,
      fun id hid => by cases hid⟩
    rw [hschemas]
    exact hs.keys

/-- Following references to the schema that describes a value grows the store: each reference
followed is one the source holds, read in a schema the store holds. -/
theorem chase_grows (fuel : Nat) :
    ∀ {node : Value} {context : Nat} {visited : List Nat} {s : Store},
      s.Bounded src enc policy → src.Holds node → context < s.size →
      Grows src enc policy s ((Session.chase fuel node context visited).run.run s).2 := by
  induction fuel with
  | zero =>
    intro node context visited s hs _ _
    exact Grows.refl hs
  | succ fuel ih =>
    intro node context visited s hs hnode hcontext
    rw [Session.chase]
    split
    · exact Grows.refl hs
    rename_i ref href
    have hcreate := create_grows hs hcontext
      (hnode.refTexts_subset ref (Value.indirectionOf_mem_refTexts href))
    rw [run_bind]
    rcases hc : (create context ref).run.run s with ⟨_ | target, s₁⟩ <;> rw [hc] at hcreate
    · exact hcreate.1
    obtain ⟨hgrows, hid⟩ := hcreate
    have htarget : target < s₁.size := hid target rfl
    obtain ⟨sc, hget⟩ : ∃ sc, s₁.get? target = some sc :=
      ⟨_, List.getElem?_eq_getElem htarget⟩
    simp only [run_bind, schema_run, hget, Option.getD_some]
    split
    · exact hgrows
    · exact hgrows.trans (ih hgrows.1 (hgrows.1.holds hget) htarget)

theorem chase_grows_of_run {fuel : Nat} {node : Value} {context : Nat} {visited : List Nat}
    {s st : Store} {result : Except ResolutionError Value} (hs : s.Bounded src enc policy)
    (hnode : src.Holds node) (hcontext : context < s.size)
    (hrun : (Session.chase fuel node context visited).run.run s = (result, st)) :
    Grows src enc policy s st := by
  have hgrows : Grows src enc policy s ((Session.chase fuel node context visited).run.run s).2 :=
    chase_grows fuel hs hnode hcontext
  rwa [hrun] at hgrows

/-- The root of a document, read into an empty store, is its only schema. -/
theorem root_empty {doc : String} {id : Nat} {st : Store}
    (hrun : (root doc).run.run (Store.empty src enc policy) = (.ok id, st)) :
    st.Bounded src enc policy ∧ id = 0 ∧ st.size = 1 := by
  have hconsistent : ((intern ⟨doc, []⟩ none).run.run (Store.empty src enc policy)).2.Consistent :=
    (Consistent.empty src enc policy).intern _ (fun p hp => by cases hp)
  unfold root at hrun
  rw [hrun] at hconsistent
  rcases intern_cases (Store.empty src enc policy) ⟨doc, []⟩ none with
    ⟨i, hlookup, -⟩ | ⟨-, tree, s₁, hload, hrest⟩ | ⟨-, e, s₁, -, hfail⟩
  · cases hlookup
  · rcases hrest with ⟨content, -, hintern⟩ | ⟨e, -, hfail⟩
    · obtain ⟨docs, hframe⟩ := load_frame (Store.empty src enc policy) (⟨doc, []⟩ : Reference).document
      rw [hload] at hframe
      subst hframe
      rw [hintern] at hrun
      cases hrun
      refine ⟨⟨hconsistent, rfl, rfl, rfl, fun sc hsc => ?_⟩, rfl, rfl⟩
      -- the one schema is the document's root, whose key every document the source gives has
      obtain ⟨tree', hfetch, -⟩ := hconsistent.content_walk sc hsc
      simp only [Store.empty, List.nil_append, List.mem_singleton] at hsc
      subst hsc
      obtain ⟨hentry, -⟩ := mem_of_fetch hfetch
      exact List.mem_flatMap.mpr ⟨_, hentry, List.mem_cons_self⟩
    · rw [hfail] at hrun
      cases hrun
  · rw [hfail] at hrun
    cases hrun

end Bounded

end Store

namespace Registry

/-- The sizes of the nodes of the classes waiting. -/
def queuedSize (r : Registry) : Nat := Value.sizeItems (r.queue.map Pending.node)

theorem queuedSize_schedule (r : Registry) (name : String) (node : Value) (context : Nat)
    (identity : Option Nat) :
    (r.schedule name node context identity).2.queuedSize = r.queuedSize + node.size := by
  simp only [queuedSize, queue_schedule, List.map_append, List.map_singleton,
    Value.sizeItems_append, Value.sizeItems, Nat.add_zero]

theorem queuedSize_next {r : Registry} {p : Pending} (hnext : r.next.1 = some p) :
    r.next.2.queuedSize + p.node.size = r.queuedSize := by
  rw [next_fst] at hnext
  obtain ⟨rest, hrest⟩ := List.head?_eq_some_iff.mp hnext
  simp only [queuedSize, queue_next, hrest, List.tail_cons, List.map_cons, Value.sizeItems]
  omega

theorem bindings_schedule_of_unbound {r : Registry} {id : Nat} (hunbound : r.bound id = none)
    (name : String) (node : Value) (context : Nat) :
    (r.schedule name node context (some id)).2.bindings = (id, r.unique name) :: r.bindings := by
  have hkeep : r.bindings.filter (·.1 != id) = r.bindings := by
    apply List.filter_eq_self.mpr
    intro p hp
    have hne := List.lookup_eq_none_iff.mp hunbound p hp
    simp only [bne_iff_ne, ne_eq]
    intro heq
    simp [heq] at hne
  simp only [schedule, hkeep]
  rfl

theorem lookup_filter_of_ne {id i : Nat} (hne : i ≠ id) (bindings : List (Nat × String)) :
    (bindings.filter (·.1 != id)).lookup i = bindings.lookup i := by
  induction bindings with
  | nil => rfl
  | cons p rest ih =>
    rw [List.filter_cons]
    by_cases hp : p.1 = id
    · have hbne : (p.1 != id) = false := by simpa using hp
      have hip : (i == p.1) = false := by simpa [hp] using hne
      rw [hbne, if_neg Bool.false_ne_true, ih, List.lookup_cons, hip]
    · have hbne : (p.1 != id) = true := by simpa using hp
      rw [hbne, if_pos rfl, List.lookup_cons, List.lookup_cons, ih]

theorem bound_schedule_of_ne {r : Registry} {id i : Nat} (hne : i ≠ id) (name : String)
    (node : Value) (context : Nat) :
    (r.schedule name node context (some id)).2.bound i = r.bound i := by
  have hne' : (i == id) = false := by simpa using hne
  simp only [bound, schedule]
  rw [List.lookup_cons, hne']
  exact lookup_filter_of_ne hne r.bindings

end Registry


namespace Session

open Store Source

section Bounded

variable {src : Source} {enc : Encoding} {policy : DecodePolicy}

/-- A session of a compilation over `src`: its store is bounded, a schema bound to no class is
designated by a reference of the source, each schema is bound at most once and is held, and the
classes waiting lie within the source and were found in schemas the store holds. -/
structure Bounded (src : Source) (enc : Encoding) (policy : DecodePolicy) (s : Session) :
    Prop where
  store : s.store.Bounded src enc policy
  targets : ∀ i sc, s.store.get? i = some sc → s.registry.bound i = none →
    src.RefTarget enc policy sc.content
  bindings_nodup : (s.registry.bindings.map Prod.fst).Nodup
  bindings_lt : ∀ p ∈ s.registry.bindings, p.1 < s.store.size
  queued : ∀ p ∈ s.registry.queue, src.Holds p.node ∧ p.context < s.store.size

theorem Bounded.grow {s : Session} (hs : s.Bounded src enc policy) {st : Store}
    (hgrows : Grows src enc policy s.store st) : { s with store := st }.Bounded src enc policy := by
  have hsize := hgrows.size_le
  refine ⟨hgrows.1, fun i sc hget hunbound => ?_, hs.bindings_nodup,
    fun p hp => Nat.lt_of_lt_of_le (hs.bindings_lt p hp) hsize,
    fun p hp => ⟨(hs.queued p hp).1, Nat.lt_of_lt_of_le (hs.queued p hp).2 hsize⟩⟩
  rcases Nat.lt_or_ge i s.store.size with hi | hi
  · rw [hgrows.get? hi] at hget
    exact hs.targets i sc hget hunbound
  · exact hgrows.refTarget hget hi

/-- Queueing a class for a node keeps the session bounded when the node lies within the source
and its schema, if any, is held and bound to nothing. -/
theorem Bounded.schedule {s : Session} (hs : s.Bounded src enc policy) {node : Value}
    {context : Nat} {identity : Option Nat} (hnode : src.Holds node)
    (hcontext : context < s.store.size)
    (hidentity : ∀ id, identity = some id → s.registry.bound id = none ∧ id < s.store.size)
    (name : String) :
    { s with registry := (s.registry.schedule name node context identity).2 }.Bounded
      src enc policy := by
  refine ⟨hs.store, fun i sc hget hunbound => ?_, ?_, ?_, ?_⟩
  · cases identity with
    | none => exact hs.targets i sc hget hunbound
    | some id =>
      by_cases hi : i = id
      · subst hi
        simp [Registry.bound, Registry.schedule] at hunbound
      · exact hs.targets i sc hget (by rwa [Registry.bound_schedule_of_ne hi] at hunbound)
  · cases identity with
    | none => exact hs.bindings_nodup
    | some id =>
      obtain ⟨hunbound, -⟩ := hidentity id rfl
      rw [Registry.bindings_schedule_of_unbound hunbound, List.map_cons, List.nodup_cons]
      refine ⟨fun hmem => ?_, hs.bindings_nodup⟩
      obtain ⟨p, hp, hid⟩ := List.mem_map.mp hmem
      have hne := List.lookup_eq_none_iff.mp hunbound p hp
      simp [hid] at hne
  · cases identity with
    | none => exact hs.bindings_lt
    | some id =>
      obtain ⟨hunbound, hid⟩ := hidentity id rfl
      rw [Registry.bindings_schedule_of_unbound hunbound]
      intro p hp
      rcases List.mem_cons.mp hp with rfl | hp
      · exact hid
      · exact hs.bindings_lt p hp
  · intro p hp
    simp only [Registry.queue_schedule, List.mem_append, List.mem_singleton] at hp
    rcases hp with hp | rfl
    · exact hs.queued p hp
    · exact ⟨hnode, hcontext⟩

theorem Bounded.next {s : Session} (hs : s.Bounded src enc policy) :
    { s with registry := s.registry.next.2 }.Bounded src enc policy := by
  have hbound : ∀ i, s.registry.next.2.bound i = s.registry.bound i := fun i => by
    simp only [Registry.bound, Registry.bindings_next]
  refine ⟨hs.store, fun i sc hget hunbound => hs.targets i sc hget ((hbound i).symm.trans hunbound),
    ?_, ?_, ?_⟩
  · change (s.registry.next.2.bindings.map Prod.fst).Nodup
    rw [Registry.bindings_next]
    exact hs.bindings_nodup
  · change ∀ p ∈ s.registry.next.2.bindings, p.1 < s.store.size
    rw [Registry.bindings_next]
    exact hs.bindings_lt
  · change ∀ p ∈ s.registry.next.2.queue, src.Holds p.node ∧ p.context < s.store.size
    rw [Registry.queue_next]
    exact fun p hp => hs.queued p (List.mem_of_mem_tail hp)

/-- A compilation starts bounded: the root is the one schema, bound to the one class queued. -/
theorem Bounded.start {st : Store} (hst : st.Bounded src enc policy) (hsize : st.size = 1)
    {sc : Schema} (hget : st.get? 0 = some sc) (name : String) :
    ({ store := st, registry := (({} : Registry).schedule name sc.content 0 (some 0)).2 } :
      Session).Bounded src enc policy := by
  refine ⟨hst, fun i sc' hget' hunbound => ?_, ?_, fun p hp => ?_, fun p hp => ?_⟩
  · have hi : i < st.size := (List.getElem?_eq_some_iff.mp hget').1
    obtain rfl : i = 0 := by omega
    simp [Registry.bound, Registry.schedule] at hunbound
  · simp [Registry.schedule]
  · simp only [Registry.schedule, List.mem_cons] at hp
    rcases hp with rfl | hp
    · simp only
      omega
    · simp at hp
  · change p ∈ (({} : Registry).schedule name sc.content 0 (some 0)).2.queue at hp
    rw [Registry.queue_schedule] at hp
    simp only [Registry.queue, List.nil_append, List.reverse_nil, List.mem_singleton] at hp
    subst hp
    exact ⟨hst.holds hget, by simp only; omega⟩

end Bounded

end Session

end SchemaModel

import SchemaModel.Proofs.RefChains
import SchemaModel.Proofs.Lowering
/-!
# The lowering walk ends

`Session.lower` finds the member type of a schema node by a walk: it follows a `$ref` to the
content of its target, the object `items` of an array, and the object `additionalProperties` of
an object without `properties`. The walk stops at a target already bound to a class, at a schema
that becomes a class of its own, and at any other schema without `$ref`; a target reached again
on the same walk is a cyclic reference. The `$ref` is read first, so a schema with both a `$ref`
and `properties` is followed, not made a class.

`Dispatch` is that walk with no bound on its length. The walk is not structural: a `$ref` jumps
to any content of any document. It ends all the same, for the same reason a chain of references
does (`RefChains`): the targets on its trail are distinct schemas held under the keys of the
chain, and between two `$ref`s it only descends into smaller nodes. So the measure
`(keys - trail) * (deepest + 2) + size` drops at each step, and the fuel `typeFor` gives is more
than it: `typeFor` ends as the walk does, and never runs out of fuel, which it would report as a
cyclic reference. The trail is an argument of each step, so what one step pushes is gone when it
returns, whether it returns a type or an error.
-/

namespace SchemaModel

namespace Value

/-- The type of a node the walk stops at without a class: an array whose items are no object is
a collection of anything, the scalar types name primitives, and anything else is `any`. -/
def leafType (node : Value) : MemberType :=
  if Keyword.declaredType node == some "array" then .collection .any
  else match Keyword.declaredType node with
    | some t => if t ∈ ["string", "integer", "number", "boolean"] then .primitive t else .any
    | none => .any

end Value

namespace Session

open Store Source

/-- The type lowering gives `node`, read in the schema `context`, with `trail` the targets
followed on the way and `identity` the target whose content `node` is, and the session after. -/
inductive Dispatch (naming : Naming) :
    String → Value → Nat → Option Nat → List Nat → Session →
      Except CompileError MemberType → Session → Prop
  /-- The `create` of the node's `$ref` fails. -/
  | refFailed {hint : String} {node : Value} {context : Nat} {identity : Option Nat}
      {trail : List Nat} {sess : Session} {ref : String} {e : ResolutionError} {st : Store} :
      Keyword.refOf node = some ref → (create context ref).run.run sess.store = (.error e, st) →
      Dispatch naming hint node context identity trail sess (.error (.resolution e))
        { sess with store := st }
  /-- The target is bound to a class: the walk ends with that class. -/
  | refBound {hint : String} {node : Value} {context : Nat} {identity : Option Nat}
      {trail : List Nat} {sess : Session} {ref : String} {target : Nat} {st : Store}
      {name : String} :
      Keyword.refOf node = some ref → (create context ref).run.run sess.store = (.ok target, st) →
      sess.registry.bound target = some name →
      Dispatch naming hint node context identity trail sess (.ok (.reference name))
        { sess with store := st }
  /-- The target is on the trail: a cyclic reference. -/
  | refCyclic {hint : String} {node : Value} {context : Nat} {identity : Option Nat}
      {trail : List Nat} {sess : Session} {ref : String} {target : Nat} {st : Store}
      {sc : Schema} :
      Keyword.refOf node = some ref → (create context ref).run.run sess.store = (.ok target, st) →
      sess.registry.bound target = none → st.get? target = some sc → target ∈ trail →
      Dispatch naming hint node context identity trail sess
        (.error (.resolution (.cyclicReference sc.reference))) { sess with store := st }
  /-- The walk goes on with the target's content, bound to the target and named after the last
  segment of its path. -/
  | refFollow {hint : String} {node : Value} {context : Nat} {identity : Option Nat}
      {trail : List Nat} {sess : Session} {ref : String} {target : Nat} {st : Store}
      {sc : Schema} {result : Except CompileError MemberType} {sess' : Session} :
      Keyword.refOf node = some ref → (create context ref).run.run sess.store = (.ok target, st) →
      sess.registry.bound target = none → st.get? target = some sc → target ∉ trail →
      Dispatch naming (sc.reference.fragment.getLast?.getD (Document.stem sc.reference.document))
        sc.content target (some target) (target :: trail) { sess with store := st } result sess' →
      Dispatch naming hint node context identity trail sess result sess'
  /-- A map: the walk goes on with its values. -/
  | mapOf {hint : String} {node : Value} {context : Nat} {identity : Option Nat}
      {trail : List Nat} {sess : Session} {values : Value}
      {result : Except CompileError MemberType} {sess' : Session} :
      Keyword.refOf node = none → node.objectLike = true → node.mapValues? = some values →
      Dispatch naming (hint ++ "Property") values context none trail sess result sess' →
      Dispatch naming hint node context identity trail sess (result.map .map) sess'
  /-- A class of its own, queued and bound to `identity`. -/
  | classOf {hint : String} {node : Value} {context : Nat} {identity : Option Nat}
      {trail : List Nat} {sess : Session} :
      Keyword.refOf node = none → node.makesClass = true →
      Dispatch naming hint node context identity trail sess
        (.ok (.reference (sess.registry.schedule
          (naming.className ((Keyword.nonEmptyText node "title").getD hint)) node context
            identity).1))
        { sess with registry := (sess.registry.schedule
          (naming.className ((Keyword.nonEmptyText node "title").getD hint)) node context
            identity).2 }
  /-- An array of object items: the walk goes on with its items. -/
  | collectionOf {hint : String} {node : Value} {context : Nat} {identity : Option Nat}
      {trail : List Nat} {sess : Session} {items : Value}
      {result : Except CompileError MemberType} {sess' : Session} :
      Keyword.refOf node = none → node.objectLike = false →
      Keyword.declaredType node = some "array" → node.arrayItems? = some items →
      Dispatch naming (singular hint) items context none trail sess result sess' →
      Dispatch naming hint node context identity trail sess (result.map .collection) sess'
  /-- Any other node: the walk ends with a type that names no class. -/
  | leaf {hint : String} {node : Value} {context : Nat} {identity : Option Nat}
      {trail : List Nat} {sess : Session} :
      Keyword.refOf node = none → node.objectLike = false →
      (Keyword.declaredType node = some "array" → node.arrayItems? = none) →
      Dispatch naming hint node context identity trail sess (.ok node.leafType) sess

/-- The walk has one outcome: each rule is a function of the session it starts from. -/
theorem Dispatch.unique {naming : Naming} {hint : String} {node : Value} {context : Nat}
    {identity : Option Nat} {trail : List Nat} {sess : Session}
    {result result' : Except CompileError MemberType} {sess' sess'' : Session}
    (hwalk : Dispatch naming hint node context identity trail sess result sess')
    (hwalk' : Dispatch naming hint node context identity trail sess result' sess'') :
    result = result' ∧ sess' = sess'' := by
  induction hwalk generalizing result' sess'' with
  | refFailed href hc =>
    cases hwalk' with
    | refFailed href' hc' =>
      cases create_run_congr href href' hc hc'
      exact ⟨rfl, rfl⟩
    | refBound href' hc' | refCyclic href' hc' | refFollow href' hc' =>
      cases create_run_congr href href' hc hc'
    | mapOf hnoref | classOf hnoref | collectionOf hnoref | leaf hnoref =>
      rw [href] at hnoref; cases hnoref
  | refBound href hc hbound =>
    cases hwalk' with
    | refBound href' hc' hbound' =>
      cases create_run_congr href href' hc hc'
      rw [hbound] at hbound'; cases hbound'
      exact ⟨rfl, rfl⟩
    | refFailed href' hc' => cases create_run_congr href href' hc hc'
    | refCyclic href' hc' hunbound' | refFollow href' hc' hunbound' =>
      cases create_run_congr href href' hc hc'
      rw [hbound] at hunbound'; cases hunbound'
    | mapOf hnoref | classOf hnoref | collectionOf hnoref | leaf hnoref =>
      rw [href] at hnoref; cases hnoref
  | refCyclic href hc hunbound hget hmem =>
    cases hwalk' with
    | refCyclic href' hc' _ hget' =>
      cases create_run_congr href href' hc hc'
      rw [hget] at hget'; cases hget'
      exact ⟨rfl, rfl⟩
    | refFailed href' hc' => cases create_run_congr href href' hc hc'
    | refBound href' hc' hbound' =>
      cases create_run_congr href href' hc hc'
      rw [hunbound] at hbound'; cases hbound'
    | refFollow href' hc' _ _ hfresh' =>
      cases create_run_congr href href' hc hc'
      exact absurd hmem hfresh'
    | mapOf hnoref | classOf hnoref | collectionOf hnoref | leaf hnoref =>
      rw [href] at hnoref; cases hnoref
  | refFollow href hc hunbound hget hfresh _ ih =>
    cases hwalk' with
    | refFollow href' hc' _ hget' _ hrest =>
      cases create_run_congr href href' hc hc'
      rw [hget] at hget'; cases hget'
      exact ih hrest
    | refFailed href' hc' => cases create_run_congr href href' hc hc'
    | refBound href' hc' hbound' =>
      cases create_run_congr href href' hc hc'
      rw [hunbound] at hbound'; cases hbound'
    | refCyclic href' hc' _ _ hmem' =>
      cases create_run_congr href href' hc hc'
      exact absurd hmem' hfresh
    | mapOf hnoref | classOf hnoref | collectionOf hnoref | leaf hnoref =>
      rw [href] at hnoref; cases hnoref
  | mapOf hnoref hobject hvalues _ ih =>
    cases hwalk' with
    | mapOf _ _ hvalues' hrest =>
      rw [hvalues] at hvalues'; cases hvalues'
      obtain ⟨rfl, rfl⟩ := ih hrest
      exact ⟨rfl, rfl⟩
    | refFailed href | refBound href | refCyclic href | refFollow href =>
      rw [hnoref] at href; cases href
    | classOf _ hclass => simp [Value.makesClass, hobject, hvalues] at hclass
    | collectionOf _ hnotobject | leaf _ hnotobject => rw [hobject] at hnotobject; cases hnotobject
  | classOf hnoref hclass =>
    -- a class of its own is object-like, with no map values
    simp only [Value.makesClass, Bool.and_eq_true, Option.isNone_iff_eq_none] at hclass
    cases hwalk' with
    | classOf => exact ⟨rfl, rfl⟩
    | refFailed href | refBound href | refCyclic href | refFollow href =>
      rw [hnoref] at href; cases href
    | mapOf _ _ hvalues => rw [hvalues] at hclass; cases hclass.2
    | collectionOf _ hnotobject | leaf _ hnotobject =>
      rw [hclass.1] at hnotobject; cases hnotobject
  | collectionOf hnoref hnotobject harray hitems _ ih =>
    cases hwalk' with
    | collectionOf _ _ _ hitems' hrest =>
      rw [hitems] at hitems'; cases hitems'
      obtain ⟨rfl, rfl⟩ := ih hrest
      exact ⟨rfl, rfl⟩
    | refFailed href | refBound href | refCyclic href | refFollow href =>
      rw [hnoref] at href; cases href
    | mapOf _ hobject => rw [hnotobject] at hobject; cases hobject
    | classOf _ hclass => simp [Value.makesClass, hnotobject] at hclass
    | leaf _ _ hnotitems => rw [hnotitems harray] at hitems; cases hitems
  | leaf hnoref hnotobject hnotitems =>
    cases hwalk' with
    | leaf => exact ⟨rfl, rfl⟩
    | refFailed href | refBound href | refCyclic href | refFollow href =>
      rw [hnoref] at href; cases href
    | mapOf _ hobject => rw [hnotobject] at hobject; cases hobject
    | classOf _ hclass => simp [Value.makesClass, hnotobject] at hclass
    | collectionOf _ _ harray hitems => rw [hnotitems harray] at hitems; cases hitems

/-! ### What the walk keeps -/

/-- What holds at every node the walk reaches, for the reference texts `texts` and the size
bound `deepest`: the store is coherent and holds the schema the node is read in; the targets on
the trail are distinct and held under the chain's keys; the node's reference texts and those of
the source are among `texts`; and the node and the documents are no larger than `deepest`. -/
structure WalkState (texts : List String) (deepest : Nat) (sess : Session) (node : Value)
    (context : Nat) (trail : List Nat) : Prop where
  consistent : sess.store.Consistent
  context_lt : context < sess.store.size
  trail_nodup : trail.Nodup
  trail_held : ∀ i ∈ trail, sess.store.HeldIn (sess.store.chainKeys texts) i
  node_texts : ∀ t ∈ node.refTexts, t ∈ texts
  source_texts : ∀ t ∈ sess.store.source.refTexts, t ∈ texts
  node_size : node.size ≤ deepest
  trees_size : ∀ tree ∈ sess.store.source.trees, tree.size ≤ deepest

/-- The fuel the walk from `node` needs at most: a round of `deepest + 2` for each key not yet on
the trail, and the node's size for the descent before the next `$ref`. -/
def need (texts : List String) (deepest : Nat) (sess : Session) (node : Value) (trail : List Nat) :
    Nat :=
  ((sess.store.chainKeys texts).length - trail.length) * (deepest + 2) + node.size + 1

/-- Lowering `node` with `fuel` ends as the walk does, in a store that extends the one given. -/
def LowersAs (naming : Naming) (fuel : Nat) (hint : String) (node : Value) (context : Nat)
    (identity : Option Nat) (trail : List Nat) (sess : Session) : Prop :=
  ∃ result sess', (lower naming fuel hint node context identity trail).run.run sess =
      (result, sess') ∧
    Dispatch naming hint node context identity trail sess result sess' ∧ Extends sess.store sess'.store

section Walk

variable {texts : List String} {deepest : Nat}

/-- Descending into the values of a map or the items of an array keeps what the walk keeps, and
the fuel the smaller node needs is less. -/
theorem WalkState.child {sess : Session} {node child : Value} {context : Nat} {trail : List Nat}
    {key : String} (hw : WalkState texts deepest sess node context trail)
    (hchild : node.get? key = some child) :
    WalkState texts deepest sess child context trail ∧
      need texts deepest sess child trail < need texts deepest sess node trail := by
  have hsize := Value.size_lt_of_get? hchild
  refine ⟨⟨hw.consistent, hw.context_lt, hw.trail_nodup, hw.trail_held, fun t ht =>
    hw.node_texts t ((Value.within_of_get? hchild).refTexts_subset t ht), hw.source_texts,
    by have := hw.node_size; omega, hw.trees_size⟩, ?_⟩
  unfold need
  omega

/-- Following a `$ref` to a fresh target keeps what the walk keeps, with the target on the trail,
and the fuel its content needs is less: one key fewer is left, and the content is no larger than
`deepest`. -/
theorem WalkState.follow {sess : Session} {node : Value} {context target : Nat}
    {trail : List Nat} {st : Store} {sc : Schema} (hw : WalkState texts deepest sess node context trail)
    (hext : Extends sess.store st) (hheld : st.HeldIn (sess.store.chainKeys texts) target)
    (hget : st.get? target = some sc) (hfresh : target ∉ trail) :
    WalkState texts deepest { sess with store := st } sc.content target (target :: trail) ∧
      need texts deepest { sess with store := st } sc.content (target :: trail) <
        need texts deepest sess node trail := by
  have hkeys := hext.chainKeys_eq texts
  have hheld' := hext.heldIn_cons hheld hw.trail_held
  have hnodup : (target :: trail).Nodup := List.nodup_cons.mpr ⟨hfresh, hw.trail_nodup⟩
  -- the content lies in a document of the source
  have hholds := hext.holds hget
  have hcontent : sc.content.size ≤ deepest := by
    obtain ⟨tree, htree, hwithin⟩ := hholds
    exact Nat.le_trans hwithin.size_le (hw.trees_size tree htree)
  refine ⟨⟨hext.consistent, (List.getElem?_eq_some_iff.mp hget).1, hnodup, hheld',
    fun t ht => hw.source_texts t (hholds.refTexts_subset t ht),
    by rw [hext.source_eq]; exact hw.source_texts, hcontent,
    by rw [hext.source_eq]; exact hw.trees_size⟩, ?_⟩
  -- the trail with the target is no longer than the chain's keys
  have hcount := length_le_of_heldIn hext.consistent hnodup hheld'
  rw [hkeys, List.length_cons] at hcount
  simp only [need, hkeys, List.length_cons]
  obtain ⟨left, hleft⟩ : ∃ left, (sess.store.chainKeys texts).length - trail.length = left + 1 :=
    ⟨(sess.store.chainKeys texts).length - trail.length - 1, by omega⟩
  have hround : (left + 1) * (deepest + 2) = left * (deepest + 2) + (deepest + 2) := Nat.succ_mul _ _
  rw [hleft, hround, show (sess.store.chainKeys texts).length - (trail.length + 1) = left by omega]
  omega

/-- Lowering with at least the fuel the walk needs ends as the walk does. The induction is on
the fuel; each step is one of `Dispatch`'s rules, and `need` drops along every rule that goes on. -/
theorem lower_lowersAs (naming : Naming) (fuel : Nat) :
    ∀ {hint : String} {node : Value} {context : Nat} {identity : Option Nat} {trail : List Nat}
      {sess : Session}, WalkState texts deepest sess node context trail →
      need texts deepest sess node trail ≤ fuel →
      LowersAs naming fuel hint node context identity trail sess := by
  induction fuel with
  | zero =>
    intro hint node context identity trail sess _ hneed
    simp only [need] at hneed
    omega
  | succ fuel ih =>
    intro hint node context identity trail sess hw hneed
    unfold LowersAs
    rw [lower]
    split
    · -- a `$ref`: its target is bound, on the trail, or followed
      rename_i ref href
      have hreftext : ref ∈ texts := hw.node_texts ref (Value.refOf_mem_refTexts href)
      have hcreate := create_extends hw.consistent hw.context_lt ref
      rw [run_bind, liftStore_run]
      rcases hc : (create context ref).run.run sess.store with ⟨_ | target, st⟩
      · rw [hc] at hcreate
        exact ⟨_, _, rfl, .refFailed href hc, hcreate⟩
      obtain ⟨hext, sc, hget, hkey⟩ := create_heldIn hw.consistent hw.context_lt hreftext hc
      simp only [run_bind, run_get]
      split
      · rename_i name hbound
        exact ⟨_, _, rfl, .refBound href hc hbound, hext⟩
      rename_i hunbound
      simp only [run_bind, liftStore_schema, hget, Option.getD_some]
      split
      · exact ⟨_, _, rfl, .refCyclic href hc hunbound hget ‹_›, hext⟩
      rename_i hfresh
      obtain ⟨hw', hless⟩ := hw.follow hext ⟨sc, hget, hkey⟩ hget hfresh
      obtain ⟨result, sess', hrun, hdispatch, hext'⟩ := ih hw' (by omega)
      exact ⟨result, sess', hrun, .refFollow href hc hunbound hget hfresh hdispatch,
        hext.trans hext'⟩
    · -- no `$ref`: a map, a class, an array of objects, or a leaf
      rename_i hnoref
      dsimp only
      split
      · rename_i hobject
        have hobject : node.objectLike = true := hobject
        split
        · rename_i fields hprops hadditional
          have hvalues : node.mapValues? = some (.object fields) := by
            simp only [Value.mapValues?, hprops, hadditional]
          obtain ⟨hw', hless⟩ := hw.child hadditional
          obtain ⟨result, sess', hrun, hdispatch, hext⟩ := @ih (hint ++ "Property") _ context none
            trail sess hw' (by omega)
          refine ⟨_, _, ?_, .mapOf hnoref hobject hvalues hdispatch, hext⟩
          rw [run_bind_pure, hrun]
        · rename_i hnotmap
          have hclass : node.makesClass = true := by
            simp only [Value.makesClass, hobject, Value.mapValues?_eq_none hnotmap,
              Option.isNone_none, Bool.and_self]
          exact ⟨_, _, rfl, .classOf hnoref hclass, Extends.refl hw.consistent⟩
      · rename_i hnotobject
        have hnotobject : node.objectLike = false := Bool.eq_false_iff.mpr hnotobject
        split
        · rename_i harray
          have harray : Keyword.declaredType node = some "array" := by simpa using harray
          split
          · rename_i fields hitems
            have hitems' : node.arrayItems? = some (.object fields) := by
              simp only [Value.arrayItems?, hitems]
            obtain ⟨hw', hless⟩ := hw.child hitems
            obtain ⟨result, sess', hrun, hdispatch, hext⟩ := @ih (singular hint) _ context none
              trail sess hw' (by omega)
            refine ⟨_, _, ?_, .collectionOf hnoref hnotobject harray hitems' hdispatch, hext⟩
            rw [run_bind_pure, hrun]
          · rename_i hnotitems
            have hnone : node.arrayItems? = none := by
              unfold Value.arrayItems?
              split
              · exact absurd ‹_› (hnotitems _)
              · rfl
            have hleaf : node.leafType = .collection .any := by
              simp [Value.leafType, harray]
            refine ⟨_, _, ?_, .leaf hnoref hnotobject fun _ => hnone, Extends.refl hw.consistent⟩
            rw [hleaf]
            rfl
        · rename_i hnotarray
          have hne : Keyword.declaredType node ≠ some "array" := fun h => hnotarray (by simp [h])
          have hleaf : ∀ ty, node.leafType = ty →
              (pure ty : CompileM MemberType).run.run sess = (.ok node.leafType, sess) := by
            intro ty hty
            rw [hty]
            rfl
          refine ⟨_, _, ?_, .leaf hnoref hnotobject (fun h => absurd h hne),
            Extends.refl hw.consistent⟩
          split
          · rename_i t hdeclared
            split
            · exact hleaf _ (by simp_all [Value.leafType])
            · exact hleaf _ (by simp_all [Value.leafType])
          · rename_i hdeclared
            exact hleaf _ (by simp [Value.leafType, hdeclared])

end Walk

/-! ### The fuel `typeFor` gives -/

theorem le_foldl_max : ∀ (l : List Nat) (a : Nat), a ≤ l.foldl max a ∧ ∀ x ∈ l, x ≤ l.foldl max a
  | [], a => ⟨Nat.le_refl a, by simp⟩
  | b :: l, a => by
    obtain ⟨hinit, hrest⟩ := le_foldl_max l (max a b)
    refine ⟨Nat.le_trans (Nat.le_max_left a b) hinit, fun x hx => ?_⟩
    rcases List.mem_cons.mp hx with rfl | hx
    · exact Nat.le_trans (Nat.le_max_right a x) hinit
    · exact hrest x hx

/-- At the start of `typeFor`, the walk from `node` keeps what it should, for the texts of its
chain and the largest tree `reach` gives. -/
theorem walkState_start {sess : Session} (hs : sess.store.Consistent) (node : Value)
    {enclosing : Nat} (henclosing : enclosing < sess.store.size) :
    WalkState (chainTexts sess.store node) (sess.reach node).2 sess node enclosing [] := by
  obtain ⟨hnode, htrees⟩ := le_foldl_max (sess.store.source.trees.map Value.size) node.size
  refine ⟨hs, henclosing, List.nodup_nil, by simp, fun t ht => List.mem_append_left _ ht,
    fun t ht => List.mem_append_right _ ht, hnode, fun tree htree => ?_⟩
  exact htrees tree.size (List.mem_map_of_mem htree)

/-- The fuel `typeFor` gives lowering covers the walk from the node: a round for each key a chain
from it can reach, each round the size of the deepest tree of the source. -/
theorem typeFor_lowersAs (naming : Naming) (hint : String) (node : Value) {sess : Session}
    (hs : sess.store.Consistent) {enclosing : Nat} (henclosing : enclosing < sess.store.size) :
    LowersAs naming (((sess.reach node).1 + 1) * ((sess.reach node).2 + 2) + 1) hint node enclosing
      none [] sess := by
  have hw := walkState_start hs node henclosing
  have hkeys := length_chainKeys_le sess node
  have hnode : node.size ≤ (sess.reach node).2 := hw.node_size
  -- the keys of the chain are no more than `reach` counts, so the fuel covers the walk's need
  have hneed : need (chainTexts sess.store node) (sess.reach node).2 sess node [] ≤
      ((sess.reach node).1 + 1) * ((sess.reach node).2 + 2) + 1 := by
    have hmul := Nat.mul_le_mul_right ((sess.reach node).2 + 2) hkeys
    have hsucc : ((sess.reach node).1 + 1) * ((sess.reach node).2 + 2) =
        (sess.reach node).1 * ((sess.reach node).2 + 2) + ((sess.reach node).2 + 2) :=
      Nat.succ_mul _ _
    simp only [need, List.length_nil, Nat.sub_zero]
    omega
  exact lower_lowersAs naming _ hw hneed

/-- Lowering a node from any coherent store, in a schema the store holds, ends as the walk from
the node does: `typeFor` never runs out of fuel, so it reports a cyclic reference only where the
walk reaches a target on its trail again. The store it leaves only extends the one given. -/
theorem typeFor_ends_as_walk (naming : Naming) (hint : String) (node : Value) {sess : Session}
    (hs : sess.store.Consistent) {enclosing : Nat} (henclosing : enclosing < sess.store.size) :
    ∃ result sess', (typeFor naming hint node enclosing).run.run sess = (result, sess') ∧
      Dispatch naming hint node enclosing none [] sess result sess' ∧
        Extends sess.store sess'.store := by
  obtain ⟨result, sess', hrun, hdispatch, hext⟩ := typeFor_lowersAs naming hint node hs henclosing
  exact ⟨result, sess', by rw [typeFor, run_bind, run_get]; exact hrun, hdispatch, hext⟩

/-- A definition whose property refers back to it, read in the root of its document: the walk
follows the `$ref` once and ends at the class the definition becomes. -/
theorem self_referring_definition_lowers :
    let src := Source.ofDocuments [("main.json", .object [("definitions", .object
      [("node", .object [("properties", .object
        [("next", .object [("$ref", .string "#/definitions/node")])])])])])]
    let sess : Session := { store := ((root "main.json").run.run (Store.empty src .utf8 .lenient)).2 }
    let node : Value := .object [("$ref", .string "#/definitions/node")]
    sess.store.Consistent ∧ 0 < sess.store.size ∧
      ∃ result sess', (typeFor ({} : Settings).naming "next" node 0).run.run sess = (result, sess') ∧
        Dispatch ({} : Settings).naming "next" node 0 none [] sess result sess' ∧
          Extends sess.store sess'.store := by
  intro src sess node
  have hs : sess.store.Consistent :=
    (Reachable.root "main.json" Reachable.empty : Reachable src .utf8 .lenient _).consistent.1
  have hsize : 0 < sess.store.size := by decide
  exact ⟨hs, hsize, typeFor_ends_as_walk _ "next" node hs hsize⟩

/-- A definition with properties whose own `$ref` points back to it: its content would make a
class, but the walk reads the `$ref` first, comes back to the definition and fails as a cyclic
reference. -/
theorem ref_first_loop_fails_cyclic :
    let U : Value := .object [("$ref", .string "#/d/U"),
      ("properties", .object [("x", .object [("type", .string "string")])])]
    let src := Source.ofDocuments [("Root.json", .object [("d", .object [("U", U)])])]
    let sess : Session := { store := ((root "Root.json").run.run (Store.empty src .utf8 .lenient)).2 }
    U.makesClass = true ∧
      ((typeFor ({} : Settings).naming "a" (.object [("$ref", .string "#/d/U")]) 0).run.run sess).1 =
        .error (.resolution (.cyclicReference ⟨"Root.json", ["d", "U"]⟩)) := by
  intro U src sess
  exact ⟨by decide, by decide +kernel⟩

end Session

end SchemaModel

import SchemaModel.Proofs.Knobs
import SchemaModel.Proofs.Dispatch
import SchemaModel.Proofs.StoreIdentity
/-!
# Schemas bound to classes

A schema that becomes a class is bound to the class's name in the registry, so that every later
`$ref` to it names that class and it is compiled once. Only two steps bind: the root of a
document, seeded on a fresh session, and lowering, which binds the target of a `$ref` whose
content becomes a class, right after finding the target bound to nothing. So no step changes a
binding once made (`KeepsBindings`), however it ends.

A `$ref` is followed through targets bound to nothing whose content has a `$ref` of its own, to
the last target of its chain (`RefsLead`). When the content of that target becomes a class, the
`$ref` lowers to the class the target is bound to, bound there by this very lowering or by an
earlier one. A target met on the way whose content has both a `$ref` and `properties` is
followed, not bound: only the last target of the chain counts.
-/

namespace SchemaModel

namespace Registry

/-- Every binding of `r` is one of `r'`. -/
def Keeps (r r' : Registry) : Prop := ∀ id name, r.bound id = some name → r'.bound id = some name

theorem Keeps.refl (r : Registry) : r.Keeps r := fun _ _ hbound => hbound

theorem Keeps.trans {r r' r'' : Registry} (hfirst : r.Keeps r') (hsecond : r'.Keeps r'') :
    r.Keeps r'' :=
  fun id name hbound => hsecond id name (hfirst id name hbound)

/-- Queueing a class keeps every binding when the schema it binds, if any, is bound to nothing. -/
theorem keeps_schedule (r : Registry) (name : String) (node : Value) (context : Nat)
    {identity : Option Nat} (hfresh : ∀ id, identity = some id → r.bound id = none) :
    r.Keeps (r.schedule name node context identity).2 := by
  intro i n hbound
  cases identity with
  | none => exact hbound
  | some id =>
    have hne : i ≠ id := by
      rintro rfl
      rw [hfresh i rfl] at hbound
      cases hbound
    rw [bound_schedule_of_ne hne]
    exact hbound

theorem keeps_next (r : Registry) : r.Keeps r.next.2 := by
  intro i n hbound
  simp only [bound, bindings_next]
  exact hbound

end Registry

namespace Session

open Registry Store

/-! ### Steps that keep every binding -/

/-- Every run of `m`, failed or not, keeps the bindings of the session it starts from. -/
def KeepsBindings {α : Type} (m : CompileM α) : Prop :=
  ∀ s : Session, s.registry.Keeps (m.run.run s).2.registry

section Keeping

variable {α β : Type}

theorem KeepsBindings.pure (a : α) : KeepsBindings (pure a : CompileM α) :=
  fun s => Keeps.refl s.registry

theorem KeepsBindings.throw (e : CompileError) : KeepsBindings (throw e : CompileM α) :=
  fun s => Keeps.refl s.registry

theorem KeepsBindings.get : KeepsBindings (get : CompileM Session) :=
  fun s => Keeps.refl s.registry

theorem KeepsBindings.bind {m : CompileM α} {f : α → CompileM β} (hm : KeepsBindings m)
    (hf : ∀ a, KeepsBindings (f a)) : KeepsBindings (m >>= f) := by
  intro s
  have hfirst := hm s
  rw [run_bind]
  rcases hrun : m.run.run s with ⟨_ | a, s'⟩ <;> rw [hrun] at hfirst
  · exact hfirst
  · exact hfirst.trans (hf a s')

theorem KeepsBindings.map {m : CompileM α} (f : α → β) (hm : KeepsBindings m) :
    KeepsBindings (f <$> m) := by
  intro s
  have hfirst := hm s
  rw [run_map]
  rcases hrun : m.run.run s with ⟨_ | a, s'⟩ <;> rw [hrun] at hfirst <;> exact hfirst

theorem KeepsBindings.liftStore (m : StoreM α) : KeepsBindings (liftStore m) := by
  intro s
  rw [registry_liftStore]
  exact Keeps.refl s.registry

theorem KeepsBindings.liftNaming (x : Except ConfigurationError α) :
    KeepsBindings (liftNaming x) := by
  cases x with
  | error e => exact KeepsBindings.throw _
  | ok a => exact KeepsBindings.pure a

theorem KeepsBindings.atMember {m : CompileM α} (className member : String)
    (hm : KeepsBindings m) : KeepsBindings (atMember className member m) := by
  intro s
  have hfirst := hm s
  rw [atMember_run]
  rcases hrun : m.run.run s with ⟨_ | a, s'⟩ <;> rw [hrun] at hfirst <;> exact hfirst

theorem KeepsBindings.foldlM {γ : Type} {f : α → γ → CompileM α} (hf : ∀ a x, KeepsBindings (f a x)) :
    ∀ (xs : List γ) (a : α), KeepsBindings (xs.foldlM f a)
  | [], a => KeepsBindings.pure a
  | x :: xs, a => by
    rw [List.foldlM_cons]
    exact KeepsBindings.bind (hf a x) fun a' => KeepsBindings.foldlM hf xs a'

theorem KeepsBindings.next : KeepsBindings next := fun s => keeps_next s.registry

end Keeping

/-- Lowering keeps every binding when the schema it may bind, `identity`, is bound to nothing:
it binds a `$ref` target only right after finding it bound to nothing. The induction is on the
fuel; the registry changes only where a class is queued. -/
theorem lower_keeps (naming : Naming) (fuel : Nat) :
    ∀ (hint : String) (node : Value) (context : Nat) (identity : Option Nat) (trail : List Nat)
      (s : Session), (∀ id, identity = some id → s.registry.bound id = none) →
      s.registry.Keeps ((lower naming fuel hint node context identity trail).run.run s).2.registry := by
  induction fuel with
  | zero =>
    intro hint node context identity trail s _
    rw [lower]
    exact KeepsBindings.bind (KeepsBindings.liftStore _) (fun _ => KeepsBindings.throw _) s
  | succ fuel ih =>
    -- lowering bound to no schema keeps every binding, from any session
    have hfree : ∀ hint node context trail,
        KeepsBindings (lower naming fuel hint node context none trail) :=
      fun hint node context trail s => ih hint node context none trail s (by simp)
    intro hint node context identity trail s hfresh
    rw [lower]
    split
    · -- a `$ref`: the store grows, and a target bound to nothing is lowered bound to itself
      rename_i ref href
      rw [run_bind, liftStore_run]
      rcases hc : (create context ref).run.run s.store with ⟨_ | target, st⟩
      · exact Keeps.refl s.registry
      simp only [run_bind, run_get]
      split
      · exact Keeps.refl s.registry
      rename_i hunbound
      simp only [run_bind, liftStore_schema]
      split
      · exact Keeps.refl s.registry
      · exact ih _ _ _ _ _ { s with store := st } fun id hid => by cases hid; exact hunbound
    · -- no `$ref`: only a class of its own binds, and it binds `identity`
      dsimp only
      split
      · split
        · exact KeepsBindings.bind (hfree _ _ _ _) (fun _ => KeepsBindings.pure _) s
        · exact keeps_schedule _ _ _ _ hfresh
      · split
        · split
          · exact KeepsBindings.bind (hfree _ _ _ _) (fun _ => KeepsBindings.pure _) s
          · exact Keeps.refl s.registry
        · split
          · split <;> exact Keeps.refl s.registry
          · exact Keeps.refl s.registry

theorem KeepsBindings.typeFor (naming : Naming) (hint : String) (node : Value) (enclosing : Nat) :
    KeepsBindings (typeFor naming hint node enclosing) :=
  KeepsBindings.bind KeepsBindings.get fun s' s => lower_keeps naming _ _ _ _ none [] s (by simp)

theorem KeepsBindings.resolveRefs (node : Value) (enclosing : Nat) :
    KeepsBindings (resolveRefs node enclosing) :=
  KeepsBindings.bind KeepsBindings.get fun _ => KeepsBindings.liftStore _

/-! ### Where a `$ref` leads -/

/-- The `$ref`s from `node`, read in `context` against the store `s` while the registry is
`registry`, lead to the target `target`: through targets bound to nothing whose content has a
`$ref` of its own, to a target bound to a class or whose content has no `$ref`. `st` is the
store after the last hop. -/
inductive RefsLead (registry : Registry) : Store → Value → Nat → Nat → Store → Prop
  | last {s st : Store} {node : Value} {context target : Nat} {ref : String} :
      Keyword.refOf node = some ref → (create context ref).run.run s = (.ok target, st) →
      (registry.bound target ≠ none ∨
        ∃ sc, st.get? target = some sc ∧ Keyword.refOf sc.content = none) →
      RefsLead registry s node context target st
  | next {s s₁ st : Store} {node : Value} {context via target : Nat} {ref ref' : String}
      {sc : Schema} :
      Keyword.refOf node = some ref → (create context ref).run.run s = (.ok via, s₁) →
      registry.bound via = none → s₁.get? via = some sc → Keyword.refOf sc.content = some ref' →
      RefsLead registry s₁ sc.content via target st → RefsLead registry s node context target st

/-- One hop of a chain of `$ref`s: the content of `u`, held in `s`, has a `$ref`, which `create`
reads to `w`; `w` is bound to nothing and its content has a `$ref` of its own. -/
def Hop (registry : Registry) (s : Store) (u w : Nat) (s' : Store) : Prop :=
  ∃ sc ref, s.get? u = some sc ∧ Keyword.refOf sc.content = some ref ∧
    (create u ref).run.run s = (.ok w, s') ∧ registry.bound w = none ∧
    ∃ sc', s'.get? w = some sc' ∧ (Keyword.refOf sc'.content).isSome = true

/-- Hops from `u` to `x`, each read in a store the one before grows into. -/
inductive Path (registry : Registry) : Nat → Store → Nat → Store → Prop
  | refl (u : Nat) (s : Store) : Path registry u s u s
  | hop {u w x : Nat} {s s₀ s₁ s₂ : Store} : Extends s s₀ → Hop registry s₀ u w s₁ →
      Path registry w s₁ x s₂ → Path registry u s x s₂

section Chains

variable {registry : Registry}

theorem Hop.extends {s s' : Store} {u w : Nat} (hhop : Hop registry s u w s') (hs : s.Consistent) :
    Extends s s' := by
  obtain ⟨sc, ref, hget, -, hc, -⟩ := hhop
  exact create_extends_of_run hs (List.getElem?_eq_some_iff.mp hget).1 hc

/-- A hop read again in a store its first reading grows into leads to the same schema. -/
theorem Hop.target_eq {s₀ s₁ s s' : Store} {u w w' : Nat} (hhop : Hop registry s₀ u w s₁)
    (hs₀ : s₀.Consistent) (hext : Extends s₁ s) {sc : Schema} {ref : String}
    (hget : s.get? u = some sc) (href : Keyword.refOf sc.content = some ref)
    (hc : (create u ref).run.run s = (.ok w', s')) : w' = w := by
  have hext₀ := (hhop.extends hs₀).trans hext
  obtain ⟨sc₀, ref₀, hget₀, href₀, hc₀, -⟩ := hhop
  rw [hext₀.get? hget₀] at hget
  cases hget
  rw [href₀] at href
  cases href
  exact create_ok_eq_of_extends hs₀ (List.getElem?_eq_some_iff.mp hget₀).1 hc₀ hext hc

/-- The target of a hop is no last target of a chain: it is bound to nothing and its content has a
`$ref`, in every store its hop's store grows into. -/
theorem Hop.not_last {s₀ s₁ st : Store} {u w : Nat} (hhop : Hop registry s₀ u w s₁)
    (hext : Extends s₁ st)
    (hend : registry.bound w ≠ none ∨ ∃ sc, st.get? w = some sc ∧ Keyword.refOf sc.content = none) :
    False := by
  obtain ⟨-, -, -, -, -, hunbound, sc', hget', href'⟩ := hhop
  rcases hend with hbound | ⟨sc, hget, hnoref⟩
  · exact hbound hunbound
  · rw [hext.get? hget'] at hget
    cases hget
    rw [hnoref] at href'
    cases href'

theorem Path.snoc {u x y : Nat} {s s₂ s₃ s₄ : Store} (hpath : Path registry u s x s₂)
    (hext : Extends s₂ s₃) (hhop : Hop registry s₃ x y s₄) : Path registry u s y s₄ := by
  induction hpath with
  | refl u s => exact .hop hext hhop (.refl y s₄)
  | hop hext' hhop' _ ih => exact .hop hext' hhop' (ih hext hhop)

theorem Path.extends {u x : Nat} {s s' : Store} (hpath : Path registry u s x s')
    (hs : s.Consistent) : Extends s s' := by
  induction hpath with
  | refl u s => exact Extends.refl hs
  | hop hext hhop _ ih =>
    have hhopped := hhop.extends hext.consistent
    exact hext.trans (hhopped.trans (ih hhopped.consistent))

/-- A cycle of hops through `ctx`, all grown into `s`, turned to start where the hop `s` reads
from `ctx` leads: that target is reached by a hop, and hops lead from it back to `ctx`. -/
theorem Path.rotate {ctx x w : Nat} {s s' s₀ s₁ s₂ s₃ : Store} (hpath : Path registry ctx s₀ x s₁)
    (hext : Extends s₁ s₂) (hclose : Hop registry s₂ x ctx s₃) (hext' : Extends s₃ s)
    {sc : Schema} {ref : String} (hget : s.get? ctx = some sc)
    (href : Keyword.refOf sc.content = some ref) (hc : (create ctx ref).run.run s = (.ok w, s')) :
    ∃ u t₀ t₁ t₂, Hop registry t₀ u w t₁ ∧ Extends t₁ s ∧ Path registry w t₁ ctx t₂ ∧
      Extends t₂ s := by
  cases hpath with
  | refl =>
    cases hclose.target_eq hext.consistent hext' hget href hc
    exact ⟨_, _, _, _, hclose, hext', .refl _ _, hext'⟩
  | hop hext₀ hhop hrest =>
    have hclosed := hclose.extends hext.consistent
    have hpathed := hrest.extends (hhop.extends hext₀.consistent).consistent
    have hlater := hpathed.trans (hext.trans (hclosed.trans hext'))
    cases hhop.target_eq hext₀.consistent hlater hget href hc
    exact ⟨_, _, _, _, hhop, hlater, hrest.snoc hext hclose, hext'⟩

/-- A chain that ends never comes back to a schema it left: were the hops from `ctx` to lead back
to `ctx`, the chain, read in a store they all grow into, would follow them round again and never
reach its last target. The induction is on the chain; each hop turns the cycle by one. -/
theorem RefsLead.not_cycle {s st : Store} {node : Value} {ctx target : Nat}
    (hlead : RefsLead registry s node ctx target st) :
    ∀ {sc : Schema} {x : Nat} {s₀ s₁ s₂ s₃ : Store}, s.Consistent → s.get? ctx = some sc →
      sc.content = node → Path registry ctx s₀ x s₁ → Extends s₁ s₂ → Hop registry s₂ x ctx s₃ →
      Extends s₃ s → False := by
  induction hlead with
  | @last s st node ctx target ref href hc hend =>
    intro sc x s₀ s₁ s₂ s₃ hs hget hnode hpath hext hclose hext'
    subst hnode
    -- the chain's one hop is the first hop of the cycle, so its target is no last target
    have hst : Extends s st := create_extends_of_run hs (List.getElem?_eq_some_iff.mp hget).1 hc
    obtain ⟨_, _, _, _, hhop, hlater, -, -⟩ := hpath.rotate hext hclose hext' hget href hc
    exact hhop.not_last (hlater.trans hst) hend
  | @next s s₁ st node ctx via target ref ref' sc' href hc hunbound hget' hnext _ ih =>
    intro sc x s₀ s₁' s₂ s₃ hs hget hnode hpath hext hclose hext'
    subst hnode
    have hs₁ : Extends s s₁ := create_extends_of_run hs (List.getElem?_eq_some_iff.mp hget).1 hc
    -- the chain's own hop, from `ctx` to `via`, closes the cycle turned to start at `via`
    have hstep : Hop registry s ctx via s₁ :=
      ⟨sc, ref, hget, href, hc, hunbound, sc', hget', by rw [hnext]; rfl⟩
    obtain ⟨_, _, _, _, -, -, hturned, hext₂⟩ := hpath.rotate hext hclose hext' hget href hc
    exact ih hs₁.consistent hget' rfl hturned hext₂ hstep (Extends.refl hs₁.consistent)

end Chains

/-- Every schema on `trail` is bound to nothing, has a `$ref` in its content, and leads by hops
to `ctx`, the schema followed last. -/
def TrailLeads (registry : Registry) (s : Store) (trail : List Nat) (ctx : Nat) : Prop :=
  ∀ v ∈ trail, registry.bound v = none ∧
    (∃ sc, s.get? v = some sc ∧ (Keyword.refOf sc.content).isSome = true) ∧
    ∃ s₀ s₁, Path registry v s₀ ctx s₁ ∧ Extends s₁ s

/-- The walk along a `$ref` chain that leads to a target whose content becomes a class ends with
that class, bound to the target then. The induction is on the chain, with the walk's trail made of
the schemas the chain passed: none of them comes back (`RefsLead.not_cycle`), so the walk follows
the chain to its last target and finds it bound there, or binds it. -/
theorem Dispatch.refsLead_reference {naming : Naming} {registry : Registry} {s st : Store}
    {node : Value} {ctx target : Nat} (hlead : RefsLead registry s node ctx target st)
    (hclass : ∃ sc, st.get? target = some sc ∧ sc.content.makesClass = true) :
    ∀ {hint : String} {identity : Option Nat} {trail : List Nat} {sess : Session}
      {result : Except CompileError MemberType} {sess' : Session},
      Dispatch naming hint node ctx identity trail sess result sess' → sess.registry = registry →
      sess.store = s → s.Consistent → ctx < s.size → TrailLeads registry s trail ctx →
      (trail ≠ [] → ∃ sc, s.get? ctx = some sc ∧ sc.content = node) →
      ∃ name, result = .ok (.reference name) ∧ sess'.registry.bound target = some name := by
  induction hlead with
  | @last s st node ctx target ref href hc hend =>
    intro hint identity trail sess result sess' hwalk hregistry hstore hs hctx htrail _
    subst hstore
    have hst : Extends sess.store st := create_extends_of_run hs hctx hc
    cases hwalk with
    | refFailed href' hc' => cases create_run_congr href href' hc hc'
    | refBound href' hc' hbound =>
      cases create_run_congr href href' hc hc'
      exact ⟨_, rfl, hbound⟩
    | refCyclic href' hc' hunbound hget hmem =>
      -- the last target would be on the trail, whose schemas all have a `$ref`
      cases create_run_congr href href' hc hc'
      obtain ⟨-, ⟨sc, hget₀, href₀⟩, -⟩ := htrail _ hmem
      rcases hend with hbound | ⟨sc', hget', hnoref⟩
      · exact (hbound (hregistry ▸ hunbound)).elim
      · rw [hst.get? hget₀] at hget'
        cases hget'
        rw [hnoref] at href₀
        cases href₀
    | refFollow href' hc' hunbound hget hnot hrest =>
      cases create_run_congr href href' hc hc'
      obtain ⟨sc, hget', hmakes⟩ := hclass
      rw [hget] at hget'
      obtain rfl := (Option.some.inj hget').symm
      -- bound to nothing, the last target has no `$ref`: its content becomes its class
      have hnoref : Keyword.refOf sc.content = none := by
        rcases hend with hbound | ⟨sc', hget', hnoref⟩
        · exact absurd (hregistry ▸ hunbound) hbound
        · rw [hget] at hget'
          cases hget'
          exact hnoref
      obtain ⟨rfl, rfl⟩ := Dispatch.unique hrest (.classOf hnoref hmakes)
      refine ⟨_, rfl, ?_⟩
      simp [Registry.bound, bindings_schedule_of_unbound hunbound]
    | mapOf hnoref | classOf hnoref | collectionOf hnoref | leaf hnoref =>
      rw [href] at hnoref
      cases hnoref
  | @next s s₁ st node ctx via target ref ref' sc href hc hunbound hget hnext htail ih =>
    intro hint identity trail sess result sess' hwalk hregistry hstore hs hctx htrail hhead
    subst hstore
    have hs₁ : Extends sess.store s₁ := create_extends_of_run hs hctx hc
    -- the chain's hop from the schema followed last, once there is one
    have hstep : trail ≠ [] → Hop registry sess.store ctx via s₁ := by
      intro hne
      obtain ⟨scc, hgetc, rfl⟩ := hhead hne
      exact ⟨scc, ref, hgetc, href, hc, hunbound, sc, hget, by rw [hnext]; rfl⟩
    cases hwalk with
    | refFailed href' hc' => cases create_run_congr href href' hc hc'
    | refBound href' hc' hbound =>
      cases create_run_congr href href' hc hc'
      rw [hregistry, hunbound] at hbound
      cases hbound
    | refCyclic href' hc' hunbound' hget' hmem =>
      -- `via` on the trail would close a cycle the rest of the chain goes round for ever
      cases create_run_congr href href' hc hc'
      obtain ⟨-, -, s₀, s₂, hpath, hext⟩ := htrail _ hmem
      exact (htail.not_cycle hs₁.consistent hget rfl hpath hext
        (hstep (List.ne_nil_of_mem hmem)) (Extends.refl hs₁.consistent)).elim
    | refFollow href' hc' hunbound' hget' hnot hrest =>
      cases create_run_congr href href' hc hc'
      rw [hget] at hget'
      obtain rfl := Option.some.inj hget'
      refine ih hclass hrest hregistry rfl hs₁.consistent (List.getElem?_eq_some_iff.mp hget).1
        ?_ fun _ => ⟨sc, hget, rfl⟩
      intro v hv
      rcases List.mem_cons.mp hv with rfl | hv
      · exact ⟨hunbound, ⟨sc, hget, by rw [hnext]; rfl⟩, s₁, s₁, .refl v s₁,
          Extends.refl hs₁.consistent⟩
      · obtain ⟨hunbound_v, ⟨scv, hgetv, hrefv⟩, s₀, s₂, hpath, hext⟩ := htrail v hv
        exact ⟨hunbound_v, ⟨scv, hs₁.get? hgetv, hrefv⟩, s₀, s₁,
          hpath.snoc hext (hstep (List.ne_nil_of_mem hv)), Extends.refl hs₁.consistent⟩
    | mapOf hnoref | classOf hnoref | collectionOf hnoref | leaf hnoref =>
      rw [href] at hnoref
      cases hnoref

end Session

namespace Compiler

open Session

theorem keepsBindings_compileMember (c : Compiler) (name : String) (node : Value)
    (cls : ClassModel) (enclosing : Nat) :
    KeepsBindings (c.compileMember name node cls enclosing) := by
  rw [compileMember_eq]
  refine KeepsBindings.bind (KeepsBindings.liftNaming _) fun target => ?_
  -- the rest of the member, after the check that its identifier is new
  have hrest : KeepsBindings (do
      let ty ← typeFor c.naming name node enclosing
      let resolved ← resolveRefs node enclosing
      liftNaming (c.memberOf name target ty resolved cls.name >>= cls.addMember)) :=
    KeepsBindings.bind (KeepsBindings.typeFor _ _ _ _) fun _ =>
      KeepsBindings.bind (KeepsBindings.resolveRefs _ _) fun _ => KeepsBindings.liftNaming _
  split
  · exact KeepsBindings.bind (KeepsBindings.throw _) fun _ => hrest
  · exact hrest

theorem keepsBindings_compileMembers (c : Compiler) (p : Pending) :
    KeepsBindings (c.compileMembers p) := by
  unfold compileMembers
  split
  · exact KeepsBindings.foldlM (fun cls field => KeepsBindings.atMember _ _
      (keepsBindings_compileMember c _ _ cls _)) _ _
  · exact KeepsBindings.pure _

theorem keepsBindings_additionalType (c : Compiler) (p : Pending) :
    KeepsBindings (c.additionalType p) := by
  unfold additionalType
  split
  · exact KeepsBindings.pure _
  · exact KeepsBindings.map _ (KeepsBindings.atMember _ _ (KeepsBindings.typeFor _ _ _ _))
  · exact KeepsBindings.pure _

theorem keepsBindings_compileClass (c : Compiler) (p : Pending) :
    KeepsBindings (c.compileClass p) := by
  rw [compileClass_eq]
  exact KeepsBindings.bind (keepsBindings_compileMembers c p) fun _ =>
    KeepsBindings.bind (keepsBindings_additionalType c p) fun _ => KeepsBindings.pure _

theorem keepsBindings_drain (c : Compiler) :
    ∀ (budget : Nat) (done : List ClassModel), KeepsBindings (c.drain budget done)
  | 0, _ => KeepsBindings.pure _
  | budget + 1, done => by
    rw [drain]
    refine KeepsBindings.bind KeepsBindings.next fun next => ?_
    cases next with
    | none => exact KeepsBindings.pure _
    | some p =>
      exact KeepsBindings.bind (keepsBindings_compileClass c p) fun cls =>
        keepsBindings_drain c budget (cls :: done)

/-- Compiling classes never changes a binding, however the compilation ends. A `$ref` whose chain
leads to a target whose content becomes a class lowers, from any coherent store, to the class
bound to that target after: `typeFor` finds it bound, or binds it then. So a definition that any
number of properties, classes or documents refer to becomes one class. -/
theorem bindings_kept_and_refs_name_bound_class (c : Compiler) (naming : Naming) (hint : String)
    (node : Value) (enclosing target : Nat) (sess : Session) (st : Store) :
    (∀ (budget : Nat) (done : List ClassModel), KeepsBindings (c.drain budget done)) ∧
    (sess.store.Consistent → enclosing < sess.store.size →
      RefsLead sess.registry sess.store node enclosing target st →
      (∃ sc, st.get? target = some sc ∧ sc.content.makesClass = true) →
      ∃ name sess', (typeFor naming hint node enclosing).run.run sess = (.ok (.reference name), sess') ∧
        sess'.registry.bound target = some name) := by
  refine ⟨keepsBindings_drain c, fun hs henclosing hlead hclass => ?_⟩
  obtain ⟨result, sess', hrun, hwalk, -⟩ := typeFor_ends_as_walk naming hint node hs henclosing
  obtain ⟨name, rfl, hbound⟩ := Dispatch.refsLead_reference hlead hclass hwalk rfl rfl hs henclosing
    (fun _ hv => absurd hv List.not_mem_nil) (fun hne => absurd rfl hne)
  exact ⟨name, sess', hrun, hbound⟩

/-- A property's `$ref` to a definition no class is bound to yet: the lowering queues the
definition's class and binds the definition to it. -/
theorem ref_to_definition_binds_its_class :
    let src := Source.ofDocuments [("main.json", .object [("definitions", .object
      [("node", .object [("properties", .object [("x", .object [("type", .string "string")])])])])])]
    let sess : Session := { store := ((Store.root "main.json").run.run
      (Store.empty src .utf8 .lenient)).2 }
    let node : Value := .object [("$ref", .string "#/definitions/node")]
    let st := ((Store.create 0 "#/definitions/node").run.run sess.store).2
    sess.registry.bound 1 = none ∧ sess.store.Consistent ∧ 0 < sess.store.size ∧
      RefsLead sess.registry sess.store node 0 1 st ∧
      (∃ sc, st.get? 1 = some sc ∧ sc.content.makesClass = true) ∧
      ∃ name sess', (typeFor ({} : Settings).naming "x" node 0).run.run sess =
        (.ok (.reference name), sess') ∧ sess'.registry.bound 1 = some name := by
  intro src sess node st
  have hs : sess.store.Consistent :=
    (Store.Reachable.root "main.json" Store.Reachable.empty :
      Store.Reachable src .utf8 .lenient _).consistent.1
  have hcreate : (Store.create 0 "#/definitions/node").run.run sess.store = (.ok 1, st) :=
    Prod.ext (by decide +kernel) rfl
  have htarget : (st.get? 1).map (fun sc => (Keyword.refOf sc.content, sc.content.makesClass)) =
      some (none, true) := by
    decide +kernel
  obtain ⟨sc, hget, hsc⟩ := Option.map_eq_some_iff.mp htarget
  have hlead : RefsLead sess.registry sess.store node 0 1 st :=
    .last rfl hcreate (.inr ⟨sc, hget, (Prod.mk.inj hsc).1⟩)
  have hclass : ∃ sc, st.get? 1 = some sc ∧ sc.content.makesClass = true :=
    ⟨sc, hget, (Prod.mk.inj hsc).2⟩
  exact ⟨rfl, hs, by decide +kernel, hlead, hclass,
    (bindings_kept_and_refs_name_bound_class (Compiler.ofSettings {}) _ "x" node 0 1 sess st).2
      hs (by decide +kernel) hlead hclass⟩

/-- A definition with properties whose own `$ref` points on to another: the `$ref` is read first,
so a property referring to the first definition becomes a reference to the class of the second,
and the first is bound to nothing, although its content would make a class. -/
theorem ref_through_definition_names_last_class :
    let U : Value := .object [("$ref", .string "#/d/V"),
      ("properties", .object [("x", .object [("type", .string "string")])])]
    let V : Value := .object [("properties", .object [("y", .object [("type", .string "string")])])]
    let src := Source.ofDocuments [("Root.json", .object [
      ("properties", .object [("a", .object [("$ref", .string "#/d/U")])]),
      ("d", .object [("U", U), ("V", V)])])]
    let run := ((Compiler.ofSettings {}).compileDocument "Root.json" none).run.run
      { store := Store.empty src .utf8 .lenient }
    U.makesClass = true ∧
      run.1.map (·.map (·.map fun cls => (cls.name, cls.members.map (·.type)))) =
        .ok (some [("Root", [.reference "V"]), ("V", [.primitive "string"])]) ∧
      (run.2.store.get? 1).map (·.reference) = some ⟨"Root.json", ["d", "U"]⟩ ∧
      run.2.registry.bound 1 = none := by
  intro U V src run
  exact ⟨by decide, by decide +kernel, by decide +kernel, by decide +kernel⟩

end Compiler

end SchemaModel

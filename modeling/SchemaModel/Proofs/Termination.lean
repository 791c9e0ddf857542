import SchemaModel.Proofs.Capacity
import SchemaModel.Proofs.Discovery
/-!
# When a compilation finishes

Draining the class queue need not end. A `$ref` target that is an array of inline objects, or a
map of them, is bound to no class: each reference to it lowers it again and queues a fresh class
for its items, and when those items refer back to the target the queue never empties.

It does end when no such target exists: when every node a reference of the source can designate
lowers its map values or array items without queueing a class (`InlineFree`) until a further
`$ref` is followed. Every class is then bound to a schema of the store, of which there are
finitely many, or lies inline within the class that queued it, and smaller than it. So the
potential of a bounded session (`Session.potential`) drops with every class drained; it starts at
the capacity of the source, below the budget `compileDocument` gives, so that budget drains the
whole queue (`compilation_finishes_of_targetsInlineFree`).
-/

namespace SchemaModel

namespace Value

/-- Lowering a node bound to no schema queues no class until it follows a `$ref`: through map
values and array items it meets no schema that becomes a class. -/
inductive InlineFree : Value → Prop
  | reference {node : Value} {ref : String} : Keyword.refOf node = some ref → InlineFree node
  | element {node : Value} : Keyword.refOf node = none → node.makesClass = false →
      (∀ e, node.element? = some e → InlineFree e) → InlineFree node

/-- Lowering a node bound to its own schema queues no class for its map values or array items
until it follows a `$ref`. -/
def ElementsInlineFree (node : Value) : Prop :=
  Keyword.refOf node = none → ∀ e, node.element? = some e → e.InlineFree

/-- Checks `InlineFree`, going down at most `fuel` map values or array items. -/
def inlineFreeWithin : Nat → Value → Bool
  | 0, _ => false
  | fuel + 1, node =>
    match Keyword.refOf node with
    | some _ => true
    | none =>
      !node.makesClass &&
        match node.element? with
        | none => true
        | some e => inlineFreeWithin fuel e

/-- Checks `ElementsInlineFree`: each value or item goes down through smaller nodes, so the size
of the node is fuel enough. -/
def elementsInlineFree? (node : Value) : Bool :=
  match Keyword.refOf node, node.element? with
  | none, some e => inlineFreeWithin e.size e
  | _, _ => true

theorem inlineFree_of_inlineFreeWithin :
    ∀ (fuel : Nat) (node : Value), inlineFreeWithin fuel node = true → node.InlineFree
  | 0, _, h => by cases h
  | fuel + 1, node, h => by
    unfold inlineFreeWithin at h
    split at h
    · exact .reference ‹_›
    · rename_i hnoref
      simp only [Bool.and_eq_true, Bool.not_eq_eq_eq_not, Bool.not_true] at h
      refine .element hnoref h.1 fun e he => ?_
      rw [he] at h
      exact inlineFree_of_inlineFreeWithin fuel e h.2

theorem elementsInlineFree_of_check {node : Value} (h : elementsInlineFree? node = true) :
    node.ElementsInlineFree := by
  intro hnoref e he
  unfold elementsInlineFree? at h
  rw [hnoref, he] at h
  exact inlineFree_of_inlineFreeWithin _ _ h

end Value

namespace Source

/-- Every node a reference of the source can designate lowers its map values or array items
without queueing a class until a further `$ref` is followed. -/
def TargetsInlineFree (src : Source) (enc : Encoding) (policy : DecodePolicy) : Prop :=
  ∀ node, src.RefTarget enc policy node → node.ElementsInlineFree

/-- Checks `TargetsInlineFree`: for every reference text and every document, the node the text's
path leads to, if any. -/
def targetsInlineFree? (src : Source) (enc : Encoding) (policy : DecodePolicy) : Bool :=
  src.refTexts.all fun t => src.entries.all fun entry =>
    match entry.2, Pointer.segments enc policy (Store.splitRef t).2 with
    | .ok tree, .ok segs =>
      match Pointer.walk tree segs with
      | .ok node => node.elementsInlineFree?
      | .error _ => true
    | _, _ => true

theorem targetsInlineFree_of_check {src : Source} {enc : Encoding} {policy : DecodePolicy}
    (h : src.targetsInlineFree? enc policy = true) : src.TargetsInlineFree enc policy := by
  rintro node ⟨t, ht, doc, tree, segs, hfetch, hsegs, hwalk⟩
  have hentry := (mem_of_fetch hfetch).1
  have hcheck := List.all_eq_true.mp (List.all_eq_true.mp h t ht) _ hentry
  simp only [hsegs, hwalk] at hcheck
  exact Value.elementsInlineFree_of_check hcheck

end Source

namespace Session

open Store Source

/-- What lowering a node may queue, for a potential rise of at most `allowance`: bound to no
schema, the node is `InlineFree` or no larger than the allowance; bound to a schema, that schema
is bound to no class yet and the node is its content, whose map values or array items are
`InlineFree`. -/
def Allows (s : Session) (node : Value) (allowance : Nat) : Option Nat → Prop
  | none => node.InlineFree ∨ node.size ≤ allowance
  | some id => s.registry.bound id = none ∧ (∃ sc, s.store.get? id = some sc ∧ sc.content = node) ∧
      node.ElementsInlineFree

/-- Lowering goes on with the map values or array items bound to no schema, within the same
allowance. -/
theorem Allows.element {s : Session} {node e : Value} {allowance : Nat} {identity : Option Nat}
    (hallows : s.Allows node allowance identity) (hnoref : Keyword.refOf node = none)
    (helement : node.element? = some e) (hsmaller : e.size < node.size) :
    s.Allows e allowance none := by
  cases identity with
  | none =>
    rcases hallows with hfree | hsize
    · cases hfree with
      | reference href => rw [hnoref] at href; cases href
      | element _ _ helements => exact .inl (helements e helement)
    · exact .inr (by omega)
  | some id => exact .inl (hallows.2.2 hnoref e helement)

section Spending

variable {src : Source} {enc : Encoding} {policy : DecodePolicy}

/-- A stretch of a compilation from `s` to `s'` that keeps the session bounded and every schema
held, and raises the potential by at most `allowance`. -/
structure Spends (src : Source) (enc : Encoding) (policy : DecodePolicy) (allowance : Nat)
    (s s' : Session) : Prop where
  bounded : s'.Bounded src enc policy
  size_le : s.store.size ≤ s'.store.size
  potential_le : s'.potential src enc policy ≤ s.potential src enc policy + allowance

theorem Spends.refl {s : Session} (hs : s.Bounded src enc policy) (allowance : Nat) :
    Spends src enc policy allowance s s :=
  ⟨hs, Nat.le_refl _, Nat.le_add_right _ _⟩

theorem Spends.trans {a b : Nat} {s s₁ s₂ : Session} (hfirst : Spends src enc policy a s s₁)
    (hsecond : Spends src enc policy b s₁ s₂) : Spends src enc policy (a + b) s s₂ := by
  have hpot₁ := hfirst.potential_le
  have hpot₂ := hsecond.potential_le
  exact ⟨hsecond.bounded, Nat.le_trans hfirst.size_le hsecond.size_le, by omega⟩

theorem Spends.mono {a b : Nat} {s s' : Session} (hspends : Spends src enc policy a s s')
    (hle : a ≤ b) : Spends src enc policy b s s' := by
  have hpot := hspends.potential_le
  exact ⟨hspends.bounded, hspends.size_le, by omega⟩

theorem Spends.grow {s : Session} (hs : s.Bounded src enc policy) {st : Store}
    (hgrows : Grows src enc policy s.store st) : Spends src enc policy 0 s { s with store := st } :=
  ⟨hs.grow hgrows, hgrows.size_le, (potential_grow hs hgrows).le⟩

/-- Queueing the class of a node spends no more than lowering the node allows. -/
theorem Spends.schedule {s : Session} (hs : s.Bounded src enc policy) {node : Value}
    {context allowance : Nat} {identity : Option Nat} (hnode : src.Holds node)
    (hcontext : context < s.store.size) (hallows : s.Allows node allowance identity)
    (hnoref : Keyword.refOf node = none) (hclass : node.makesClass = true) (name : String) :
    Spends src enc policy allowance s
      { s with registry := (s.registry.schedule name node context identity).2 } := by
  cases identity with
  | none =>
    -- an inline class: the node is not `InlineFree`, so it fits the allowance
    have hsize : node.size ≤ allowance := by
      rcases hallows with hfree | hsize
      · cases hfree with
        | reference href => rw [hnoref] at href; cases href
        | element _ hinline _ => rw [hclass] at hinline; cases hinline
      · exact hsize
    refine ⟨hs.schedule hnode hcontext (fun id hid => by cases hid) name, Nat.le_refl _, ?_⟩
    rw [potential_schedule_none]
    omega
  | some id =>
    -- a class bound to its schema: the size of its content moves to the nodes waiting
    obtain ⟨hunbound, ⟨sc, hget, rfl⟩, -⟩ := hallows
    have hbounded : ({ s with registry := (s.registry.schedule name sc.content context (some id)).2 } :
        Session).Bounded src enc policy :=
      hs.schedule hnode hcontext
        (fun id' hid' => by cases hid'; exact ⟨hunbound, (List.getElem?_eq_some_iff.mp hget).1⟩) name
    refine ⟨hbounded, Nat.le_refl _, ?_⟩
    rw [potential_schedule_unbound hunbound hget hbounded.boundSize_le]
    exact Nat.le_add_right _ _

end Spending

section Lowering

variable {src : Source} {enc : Encoding} {policy : DecodePolicy}

/-- Lowering a node spends at most what it allows: a reference grows the store and goes on with
its target bound to its own schema, maps and arrays go on with their values and items, and a
class is queued within the allowance. -/
theorem lower_spends (hsafe : src.TargetsInlineFree enc policy) (naming : Naming) (fuel : Nat) :
    ∀ (hint : String) (node : Value) (context : Nat) (identity : Option Nat) (trail : List Nat)
      (allowance : Nat) {s s' : Session} {t : MemberType},
      s.Bounded src enc policy → src.Holds node → context < s.store.size →
      s.Allows node allowance identity →
      (lower naming fuel hint node context identity trail).run.run s = (.ok t, s') →
      Spends src enc policy allowance s s' := by
  induction fuel with
  | zero =>
    intro hint node context identity trail allowance s s' t _ _ _ _ hrun
    exact absurd hrun (lower_zero_ne_ok _ _ _ _ _ _ _ _ _)
  | succ fuel ih =>
    intro hint node context identity trail allowance s s' t hs hnode hcontext hallows hrun
    rcases lower_succ_eq_ok hrun with
      ⟨ref, target, st, href, hcreate, hbranch⟩ |
        ⟨hnoref, ⟨e, hint', v, helement, hlower, -⟩ | ⟨hclass, name, rfl, rfl⟩ | ⟨rfl, -⟩⟩
    · -- a reference grows the store; an unbound target is lowered bound to its own schema
      have hcreated := create_grows hs.store hcontext
        (hnode.refTexts_subset ref (Value.refOf_mem_refTexts href))
      rw [hcreate] at hcreated
      obtain ⟨hgrows, hid⟩ := hcreated
      have hfirst := Spends.grow hs hgrows
      have htarget : target < st.size := hid target rfl
      rcases hbranch with ⟨name, -, -, rfl⟩ | ⟨hunbound, hint', hlower⟩
      · exact hfirst.mono (Nat.zero_le _)
      obtain ⟨entry, hentry⟩ : ∃ entry, st.get? target = some entry :=
        ⟨_, List.getElem?_eq_getElem htarget⟩
      rw [hentry, Option.getD_some] at hlower
      have hs₁ := hfirst.bounded
      -- the target is bound to nothing, so the source designates it and it lowers inline
      have hallows' : ({ s with store := st } : Session).Allows entry.content 0 (some target) :=
        ⟨hunbound, ⟨entry, hentry, rfl⟩, hsafe _ (hs₁.targets _ _ hentry hunbound)⟩
      exact (hfirst.trans (ih _ _ _ _ _ 0 hs₁ (hs₁.store.holds hentry) htarget hallows'
        hlower)).mono (Nat.zero_le _)
    · -- map values and array items are lowered bound to no schema, within the same allowance
      obtain ⟨key, hget⟩ := Value.exists_get?_of_element? helement
      exact ih _ _ _ _ _ allowance hs (hnode.get? hget) hcontext
        (hallows.element hnoref helement (Value.size_lt_of_get? hget)) hlower
    · exact Spends.schedule hs hnode hcontext hallows hnoref hclass _
    · exact Spends.refl hs allowance

theorem typeFor_spends (hsafe : src.TargetsInlineFree enc policy) {naming : Naming}
    {hint : String} {node : Value} {enclosing : Nat} {s s' : Session} {t : MemberType}
    (hs : s.Bounded src enc policy) (hnode : src.Holds node) (henclosing : enclosing < s.store.size)
    (hrun : (typeFor naming hint node enclosing).run.run s = (.ok t, s')) :
    Spends src enc policy node.size s s' := by
  simp only [typeFor, run_bind, run_get] at hrun
  exact lower_spends hsafe naming _ _ _ _ none _ _ hs hnode henclosing (Or.inr (Nat.le_refl _)) hrun

theorem resolveRefs_spends {node : Value} {enclosing : Nat} {s s' : Session} {v : Value}
    (hs : s.Bounded src enc policy) (hnode : src.Holds node) (henclosing : enclosing < s.store.size)
    (hrun : (resolveRefs node enclosing).run.run s = (.ok v, s')) :
    Spends src enc policy 0 s s' := by
  simp only [resolveRefs, run_bind, run_get] at hrun
  obtain ⟨st, hst, rfl⟩ := liftStore_eq_ok hrun
  exact Spends.grow hs (chase_grows_of_run hs.store hnode henclosing hst)

end Lowering

end Session

namespace Compiler

open Store Source Session

/-- `compileDocument` with a budget of the caller's choosing: at most `budget` classes are
compiled, and `none` says the queue was not empty when the budget ran out. -/
def compileDocumentWithin (c : Compiler) (budget : Nat) (doc : String)
    (className : Option String) : CompileM (Option (List ClassModel)) := do
  let root ← Session.liftStore (Store.root doc)
  let name := c.naming.className (className.getD (Document.stem doc))
  let node := (← Session.liftStore (Store.schema root)).content
  let _ ← Session.schedule name node root (some root)
  c.drain budget []

/-- `compileDocument` drains the queue within the budget its session's source sets. -/
theorem compileDocument_run (c : Compiler) (doc : String) (className : Option String)
    (s : Session) :
    (c.compileDocument doc className).run.run s =
      (c.compileDocumentWithin (budget s) doc className).run.run s := by
  unfold compileDocument compileDocumentWithin
  rw [run_bind, run_bind]
  rcases hroot : (liftStore (root doc)).run.run s with ⟨_ | root, s₁⟩
  · rfl
  · obtain ⟨st, hst, rfl⟩ := liftStore_eq_ok hroot
    have hsource : st.source = s.store.source := by
      have hkept := intern_source s.store ⟨doc, []⟩ none
      change ((Store.root doc).run.run s.store).2.source = _ at hkept
      rwa [hst] at hkept
    simp only [run_bind, liftStore_schema, schedule_run, run_get, budget, hsource]

section Finishing

variable {src : Source} {enc : Encoding} {policy : DecodePolicy}

theorem compileMember_spends (hsafe : src.TargetsInlineFree enc policy) {c : Compiler}
    {name : String} {node : Value} {cls cls' : ClassModel} {enclosing : Nat} {s s' : Session}
    (hs : s.Bounded src enc policy) (hnode : src.Holds node) (henclosing : enclosing < s.store.size)
    (hrun : (c.compileMember name node cls enclosing).run.run s = (.ok cls', s')) :
    Spends src enc policy node.size s s' := by
  obtain ⟨ty, s₁, m, hty, ⟨resolved, hresolved⟩, -, -⟩ := compileMember_eq_ok hrun
  have htyped := typeFor_spends hsafe hs hnode henclosing hty
  exact htyped.trans (resolveRefs_spends htyped.bounded hnode
    (Nat.lt_of_lt_of_le henclosing htyped.size_le) hresolved)

theorem foldlM_spends {f : ClassModel → String × Value → CompileM ClassModel} {context : Nat}
    (fields : List (String × Value)) :
    (∀ cls field s cls' s', field ∈ fields → s.Bounded src enc policy →
      context < s.store.size → (f cls field).run.run s = (.ok cls', s') →
      Spends src enc policy field.2.size s s') →
    ∀ (cls : ClassModel) {s s' : Session} {cls' : ClassModel}, s.Bounded src enc policy →
      context < s.store.size → (fields.foldlM f cls).run.run s = (.ok cls', s') →
      Spends src enc policy (Value.sizeFields fields) s s' := by
  induction fields with
  | nil =>
    intro _ cls s s' cls' hs _ hrun
    rw [List.foldlM_nil] at hrun
    obtain ⟨rfl, rfl⟩ := run_pure_eq_ok.mp hrun
    exact Spends.refl hs _
  | cons field fields ih =>
    obtain ⟨key, value⟩ := field
    intro hstep cls s s' cls' hs hcontext hrun
    rw [List.foldlM_cons] at hrun
    obtain ⟨cls₁, s₁, hfirst, hrest⟩ := run_bind_eq_ok.mp hrun
    have hspent := hstep _ _ _ _ _ List.mem_cons_self hs hcontext hfirst
    have hrestspent := ih (fun cls field s cls' s' hmem => hstep cls field s cls' s'
      (List.mem_cons_of_mem _ hmem)) _ hspent.bounded
      (Nat.lt_of_lt_of_le hcontext hspent.size_le) hrest
    exact hspent.trans hrestspent

theorem compileMembers_spends (hsafe : src.TargetsInlineFree enc policy) {c : Compiler}
    {p : Pending} {s s' : Session} {cls : ClassModel} (hs : s.Bounded src enc policy)
    (hnode : src.Holds p.node) (hcontext : p.context < s.store.size)
    (hrun : (c.compileMembers p).run.run s = (.ok cls, s')) :
    Spends src enc policy (p.node.fieldSize "properties") s s' := by
  unfold compileMembers at hrun
  split at hrun
  · rename_i fields hprops
    have hstep : ∀ cls field s cls' s', field ∈ fields → s.Bounded src enc policy →
        p.context < s.store.size →
        ((fun cls (field : String × Value) =>
          atMember p.name field.1 (c.compileMember field.1 field.2 cls p.context)) cls field).run.run
            s = (.ok cls', s') →
        Spends src enc policy field.2.size s s' := by
      intro cls field s cls' s' hmem hs hcontext hfield
      exact compileMember_spends hsafe hs ((hnode.get? hprops).field hmem) hcontext
        (atMember_eq_ok.mp hfield)
    have hsize : Value.sizeFields fields ≤ p.node.fieldSize "properties" := by
      simp only [Value.fieldSize, hprops, Option.map_some, Option.getD_some, Value.size]
      omega
    exact (foldlM_spends fields hstep _ hs hcontext hrun).mono hsize
  · obtain ⟨rfl, rfl⟩ := run_pure_eq_ok.mp hrun
    exact Spends.refl hs _

theorem additionalType_spends (hsafe : src.TargetsInlineFree enc policy) {c : Compiler}
    {p : Pending} {s s' : Session} {additional : Option MemberType}
    (hs : s.Bounded src enc policy) (hnode : src.Holds p.node) (hcontext : p.context < s.store.size)
    (hrun : (c.additionalType p).run.run s = (.ok additional, s')) :
    Spends src enc policy (p.node.fieldSize "additionalProperties") s s' := by
  unfold additionalType at hrun
  split at hrun
  · obtain ⟨rfl, rfl⟩ := run_pure_eq_ok.mp hrun
    exact Spends.refl hs _
  · rename_i fields hvalues
    obtain ⟨t, ht, rfl⟩ := run_map_eq_ok.mp hrun
    have hsize : p.node.fieldSize "additionalProperties" = (Value.object fields).size := by
      simp only [Value.fieldSize, hvalues, Option.map_some, Option.getD_some]
    rw [hsize]
    exact typeFor_spends hsafe hs (hnode.get? hvalues) hcontext (atMember_eq_ok.mp ht)
  · obtain ⟨rfl, rfl⟩ := run_pure_eq_ok.mp hrun
    exact Spends.refl hs _

/-- A class spends less than the size of its node: its properties and its additional properties
are separate parts of it. -/
theorem compileClass_spends (hsafe : src.TargetsInlineFree enc policy) {c : Compiler}
    {p : Pending} {s s' : Session} {cls : ClassModel} (hs : s.Bounded src enc policy)
    (hnode : src.Holds p.node) (hcontext : p.context < s.store.size)
    (hrun : (c.compileClass p).run.run s = (.ok cls, s')) :
    Spends src enc policy (p.node.size - 1) s s' := by
  unfold compileClass at hrun
  obtain ⟨withMembers, s₁, hmembers, hrest⟩ := run_bind_eq_ok.mp hrun
  obtain ⟨additional, s₂, hadditional, hfinish⟩ := run_bind_eq_ok.mp hrest
  obtain ⟨rfl, rfl⟩ := run_pure_eq_ok.mp hfinish
  have hfirst := compileMembers_spends hsafe hs hnode hcontext hmembers
  have hsecond := additionalType_spends hsafe hfirst.bounded hnode
    (Nat.lt_of_lt_of_le hcontext hfirst.size_le) hadditional
  have hsplit := p.node.fieldSize_add_fieldSize_lt
    (show "properties" ≠ "additionalProperties" by decide)
  exact (hfirst.trans hsecond).mono (by omega)

/-- Each class drained lowers the potential, so a budget above it drains the whole queue. -/
theorem drain_finishes (hsafe : src.TargetsInlineFree enc policy) (c : Compiler) (budget : Nat) :
    ∀ (done : List ClassModel) {s s' : Session}, s.Bounded src enc policy →
      s.potential src enc policy < budget →
      (c.drain budget done).run.run s ≠ (.ok none, s') := by
  induction budget with
  | zero =>
    intro done s s' _ hpotential
    exact absurd hpotential (Nat.not_lt_zero _)
  | succ budget ih =>
    intro done s s' hs hpotential hrun
    rw [drain] at hrun
    obtain ⟨_, _, hnext, hrest⟩ := run_bind_eq_ok.mp hrun
    rw [next_run] at hnext
    cases hnext
    split at hrest
    · obtain ⟨hsome, -⟩ := run_pure_eq_ok.mp hrest
      cases hsome
    · rename_i p hp
      obtain ⟨cls, s₂, hclass, hdrain⟩ := run_bind_eq_ok.mp hrest
      have hmem : p ∈ s.registry.queue := by
        rw [Registry.next_fst] at hp
        exact List.mem_of_mem_head? hp
      have hqueued := hs.queued p hmem
      have hspent := compileClass_spends hsafe hs.next hqueued.1 hqueued.2 hclass
      have hpot := hspent.potential_le
      have hdrop : ({ s with registry := s.registry.next.2 } : Session).potential src enc policy +
          p.node.size = s.potential src enc policy := potential_next hp
      have hpos := Value.size_pos p.node
      exact ih _ hspent.bounded (by omega) hdrain

/-- With a budget above the capacity of the source, the queue is drained before the budget runs
out, when no node a reference designates is a map or an array that queues inline classes. -/
theorem compileDocumentWithin_finishes (c : Compiler) (hsafe : src.TargetsInlineFree enc policy)
    (doc : String) (className : Option String) {budget : Nat}
    (hbudget : src.capacity enc policy < budget) :
    ((c.compileDocumentWithin budget doc className).run.run
      { store := Store.empty src enc policy }).1 ≠ .ok none := by
  intro hnone
  rcases hrun : (c.compileDocumentWithin budget doc className).run.run
    { store := Store.empty src enc policy } with ⟨result, sess'⟩
  rw [hrun] at hnone
  subst hnone
  unfold compileDocumentWithin at hrun
  obtain ⟨root, s₁, hroot, hrest⟩ := run_bind_eq_ok.mp hrun
  obtain ⟨st, hst, rfl⟩ := liftStore_eq_ok hroot
  obtain ⟨hbounded, rfl, hsize⟩ := root_empty hst
  obtain ⟨sc, s₂, hschema, hrest⟩ := run_bind_eq_ok.mp hrest
  rw [liftStore_schema] at hschema
  obtain ⟨hsc, rfl⟩ := Prod.mk.inj hschema
  obtain rfl := Except.ok.inj hsc
  obtain ⟨entry, hentry⟩ : ∃ entry, st.get? 0 = some entry :=
    ⟨_, List.getElem?_eq_getElem (by simp only [Store.size] at hsize; omega)⟩
  obtain ⟨_, s₃, hschedule, hdrain⟩ := run_bind_eq_ok.mp hrest
  rw [schedule_run] at hschedule
  obtain ⟨-, rfl⟩ := Prod.mk.inj hschedule
  simp only [hentry, Option.getD_some] at hdrain
  -- the root is queued bound to its schema, and the potential starts at the capacity
  have hstart := Bounded.start hbounded hsize hentry
    (c.naming.className (className.getD (Document.stem doc)))
  have hpotential := potential_start hentry _ hstart.boundSize_le
  exact drain_finishes hsafe c budget [] hstart (hpotential ▸ hbudget) hdrain

theorem foldl_add_map_size : ∀ (trees : List Value) (acc : Nat),
    (trees.map Value.size).foldl (· + ·) acc = acc + Value.sizeItems trees
  | [], acc => rfl
  | tree :: rest, acc => by
    rw [List.map_cons, List.foldl_cons, foldl_add_map_size rest, Value.sizeItems]
    omega

/-- The budget of a compilation over a source: two to the number of its values. -/
theorem budget_empty (src : Source) (enc : Encoding) (policy : DecodePolicy) :
    budget ({ store := Store.empty src enc policy } : Session) = 2 ^ Value.sizeItems src.trees := by
  rw [budget, foldl_add_map_size, Nat.zero_add]
  rfl

/-- A compilation finishes when no node a reference designates is a map or an array that queues
inline classes: the queue is drained within the budget `compileDocument` gives, which is above the
capacity of the source. -/
theorem compilation_finishes_of_targetsInlineFree (c : Compiler)
    (hsafe : src.TargetsInlineFree enc policy) (doc : String) (className : Option String) :
    ((c.compileDocument doc className).run.run { store := Store.empty src enc policy }).1 ≠
      .ok none := by
  rw [compileDocument_run, budget_empty]
  exact compileDocumentWithin_finishes c hsafe doc className (capacity_lt_two_pow src enc policy)

end Finishing

/-- A root whose properties refer to definitions: two classes each referred to more than once,
one referring back to the root, an array of strings and a map of one of the classes. The check
finds every target's values or items free of inline classes, and the compilation finishes. -/
example :
    let ref (path : String) : Value := .object [("$ref", .string path)]
    let src := Source.ofDocuments [("Root.json", .object [
      ("properties", .object [("a", ref "#/definitions/A"),
        ("list", .object [("type", .string "array"), ("items", ref "#/definitions/A")]),
        ("names", ref "#/definitions/Names"), ("index", ref "#/definitions/Index")]),
      ("definitions", .object [
        ("A", .object [("properties", .object [("b", ref "#/definitions/B")])]),
        ("B", .object [("properties", .object [("up", ref "#")])]),
        ("Names", .object [("type", .string "array"),
          ("items", .object [("type", .string "string")])]),
        ("Index", .object [("type", .string "object"),
          ("additionalProperties", ref "#/definitions/B")])])])]
    let run := ((Compiler.ofSettings {}).compileDocument "Root.json" none).run.run
      { store := Store.empty src .utf8 .lenient }
    src.TargetsInlineFree .utf8 .lenient ∧ run.1 ≠ .ok none ∧
      run.1.map (·.map (·.map ClassModel.name)) = .ok (some ["Root", "A", "B"]) := by
  intro ref src run
  have hsafe : src.TargetsInlineFree .utf8 .lenient :=
    Source.targetsInlineFree_of_check (by decide +kernel)
  exact ⟨hsafe, compilation_finishes_of_targetsInlineFree _ hsafe "Root.json" none,
    by decide +kernel⟩

end Compiler

end SchemaModel

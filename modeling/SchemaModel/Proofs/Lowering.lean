import SchemaModel.Compile.Class
import SchemaModel.Proofs.Steps
/-!
# One step of a compilation

What each operation of a session does to the session when it succeeds, and what lowering a
schema does in one step: follow a `$ref` to its target, which names the class the target is bound
to or is lowered bound to its own schema; go on with the values of a map or the items of an
array; queue a class of its own; or stop at a scalar.
-/

namespace SchemaModel

namespace Value

/-- Whether lowering takes a node with no `$ref` for an object: declared so, or holding
`properties` with no declared type. -/
def objectLike (node : Value) : Bool :=
  let declared := Keyword.declaredType node
  declared == some "object" || (declared.isNone && (node.get? "properties").isSome)

/-- The schema of the values of a map: `additionalProperties` when it is an object and there are
no `properties`. -/
def mapValues? (node : Value) : Option Value :=
  match node.get? "properties", node.get? "additionalProperties" with
  | none, some values@(.object _) => some values
  | _, _ => none

/-- The schema of the items of an array, when it is an object. -/
def arrayItems? (node : Value) : Option Value :=
  match node.get? "items" with
  | some items@(.object _) => some items
  | _ => none

/-- The node lowering goes on with, bound to no schema, from a node with no `$ref`: the values
of a map or the items of an array. -/
def element? (node : Value) : Option Value :=
  if node.objectLike then node.mapValues?
  else if Keyword.declaredType node == some "array" then node.arrayItems?
  else none

/-- Whether lowering makes a node with no `$ref` a class of its own. -/
def makesClass (node : Value) : Bool := node.objectLike && node.mapValues?.isNone

theorem mapValues?_eq_none {node : Value}
    (hnot : ∀ fields, node.get? "properties" = none →
      node.get? "additionalProperties" = some (.object fields) → False) :
    node.mapValues? = none := by
  unfold mapValues?
  split
  · exact absurd ‹_› (hnot _ ‹_›)
  · rfl

theorem exists_get?_of_element? {node e : Value} (h : node.element? = some e) :
    ∃ key, node.get? key = some e := by
  unfold element? at h
  split at h
  · unfold mapValues? at h
    split at h
    · cases h
      exact ⟨_, ‹_›⟩
    · cases h
  · split at h
    · unfold arrayItems? at h
      split at h
      · cases h
        exact ⟨_, ‹_›⟩
      · cases h
    · cases h

end Value

namespace Store

theorem schema_run (id : Nat) (s : Store) :
    (schema id).run.run s = (.ok ((s.get? id).getD default), s) := rfl

end Store

namespace Session

section Effects

variable {α : Type}

theorem liftStore_run (m : StoreM α) (sess : Session) :
    (liftStore m).run.run sess =
      match m.run.run sess.store with
      | (.ok a, st) => (.ok a, { sess with store := st })
      | (.error e, st) => (.error (.resolution e), { sess with store := st }) := by
  simp only [liftStore, run_bind, run_get]
  rcases m.run.run sess.store with ⟨_ | _, _⟩ <;> rfl

/-- Store operations leave the registry alone. -/
theorem registry_liftStore (m : StoreM α) (sess : Session) :
    ((liftStore m).run.run sess).2.registry = sess.registry := by
  rw [liftStore_run]
  rcases m.run.run sess.store with ⟨_ | _, _⟩ <;> rfl

theorem liftNaming_eq_ok {x : Except ConfigurationError α} {s s' : Session} {a : α}
    (hrun : (liftNaming x).run.run s = (.ok a, s')) : x = .ok a ∧ s' = s := by
  cases x with
  | error e => exact absurd hrun (run_throw_ne_ok _ _ _ _)
  | ok b =>
    obtain ⟨rfl, rfl⟩ := run_pure_eq_ok.mp hrun
    exact ⟨rfl, rfl⟩

theorem schedule_run (name : String) (node : Value) (context : Nat) (identity : Option Nat)
    (sess : Session) :
    (schedule name node context identity).run.run sess =
      (.ok (sess.registry.schedule name node context identity).1,
        { sess with registry := (sess.registry.schedule name node context identity).2 }) :=
  rfl

theorem next_run (sess : Session) :
    next.run.run sess = (.ok sess.registry.next.1, { sess with registry := sess.registry.next.2 }) :=
  rfl

theorem atMember_run (className member : String) (m : CompileM α) (s : Session) :
    (atMember className member m).run.run s =
      match m.run.run s with
      | (.ok a, s') => (.ok a, s')
      | (.error e, s') => (.error (e.placeAt className member), s') := by
  simp only [atMember, tryCatch, tryCatchThe, MonadExceptOf.tryCatch, ExceptT.tryCatch,
    ExceptT.run_mk, StateT.run_bind]
  change (StateT.run m.run s >>= _) = _
  rcases m.run.run s with ⟨_ | _, _⟩ <;> rfl

/-- Placing errors at a member changes nothing about a run that succeeds. -/
theorem atMember_eq_ok {className member : String} {m : CompileM α} {s s' : Session} {a : α} :
    (atMember className member m).run.run s = (.ok a, s') ↔ m.run.run s = (.ok a, s') := by
  rw [atMember_run]
  rcases m.run.run s with ⟨_ | _, _⟩
  · constructor
    · intro h
      cases h
    · intro h
      cases h
  · rfl

theorem registry_resolveRefs {node : Value} {enclosing : Nat} {s s' : Session} {v : Value}
    (hrun : (resolveRefs node enclosing).run.run s = (.ok v, s')) : s'.registry = s.registry := by
  simp only [resolveRefs, run_bind, run_get] at hrun
  rw [← registry_liftStore _ s, hrun]

theorem liftStore_eq_ok {m : StoreM α} {s s' : Session} {a : α}
    (hrun : (liftStore m).run.run s = (.ok a, s')) :
    ∃ st, m.run.run s.store = (.ok a, st) ∧ s' = { s with store := st } := by
  rw [liftStore_run] at hrun
  rcases hm : m.run.run s.store with ⟨_ | b, st⟩ <;> rw [hm] at hrun
  · cases hrun
  · cases hrun
    exact ⟨st, rfl, rfl⟩

theorem liftStore_schema (id : Nat) (s : Session) :
    (liftStore (Store.schema id)).run.run s = (.ok ((s.store.get? id).getD default), s) := by
  rw [liftStore_run, Store.schema_run]

end Effects

section Lowering

theorem lower_zero_ne_ok (naming : Naming) (hint : String) (node : Value) (context : Nat)
    (identity : Option Nat) (trail : List Nat) (s s' : Session) (t : MemberType) :
    (lower naming 0 hint node context identity trail).run.run s ≠ (.ok t, s') := by
  intro hrun
  rw [lower] at hrun
  obtain ⟨_, _, _, hthrow⟩ := run_bind_eq_ok.mp hrun
  exact run_throw_ne_ok _ _ _ _ hthrow

/-- One step of lowering that succeeds: a reference grows the store and names the class its
target is bound to, or lowers the target bound to its own schema; a node with no reference goes
on with its map values or array items, queues a class of its own, or stops with a type that
names no class. -/
theorem lower_succ_eq_ok {naming : Naming} {fuel : Nat} {hint : String} {node : Value}
    {context : Nat} {identity : Option Nat} {trail : List Nat} {s s' : Session} {t : MemberType}
    (hrun : (lower naming (fuel + 1) hint node context identity trail).run.run s = (.ok t, s')) :
    (∃ ref target st, Keyword.refOf node = some ref ∧
      (Store.create context ref).run.run s.store = (.ok target, st) ∧
      ((∃ name, s.registry.bound target = some name ∧ t = .reference name ∧
          s' = { s with store := st }) ∨
        (s.registry.bound target = none ∧ ∃ hint',
          (lower naming fuel hint' ((st.get? target).getD default).content target (some target)
            (target :: trail)).run.run { s with store := st } = (.ok t, s')))) ∨
    (Keyword.refOf node = none ∧
      ((∃ e hint' v, node.element? = some e ∧
          (lower naming fuel hint' e context none trail).run.run s = (.ok v, s') ∧
          t.referencedClass = v.referencedClass) ∨
        (node.makesClass = true ∧ ∃ name,
          t = .reference (s.registry.schedule name node context identity).1 ∧
          s' = { s with registry := (s.registry.schedule name node context identity).2 }) ∨
        (s' = s ∧ t.referencedClass = none))) := by
  rw [lower] at hrun
  split at hrun
  · -- a reference: the target is bound already, or lowered in its place
    rename_i ref href
    obtain ⟨target, s₁, hcreate, hrun⟩ := run_bind_eq_ok.mp hrun
    obtain ⟨st, hst, rfl⟩ := liftStore_eq_ok hcreate
    refine .inl ⟨ref, target, st, href, hst, ?_⟩
    obtain ⟨_, _, hget, hrun⟩ := run_bind_eq_ok.mp hrun
    rw [run_get] at hget
    cases hget
    split at hrun
    · rename_i name hbound
      obtain ⟨rfl, rfl⟩ := run_pure_eq_ok.mp hrun
      exact .inl ⟨name, hbound, rfl, rfl⟩
    · rename_i hunbound
      obtain ⟨sc, s₂, hschema, hrun⟩ := run_bind_eq_ok.mp hrun
      rw [liftStore_schema] at hschema
      cases hschema
      split at hrun
      · obtain ⟨_, _, hthrow, _⟩ := run_bind_eq_ok.mp hrun
        exact absurd hthrow (run_throw_ne_ok _ _ _ _)
      · exact .inr ⟨hunbound, _, hrun⟩
  · -- no reference: a map, a class of its own, an array or a scalar
    rename_i hnoref
    refine .inr ⟨hnoref, ?_⟩
    dsimp only at hrun
    split at hrun
    · rename_i hobject
      have hobject : node.objectLike = true := hobject
      split at hrun
      · rename_i fields hprops hadditional
        obtain ⟨v, s₁, hvalues, hrun⟩ := run_bind_eq_ok.mp hrun
        obtain ⟨rfl, rfl⟩ := run_pure_eq_ok.mp hrun
        refine .inl ⟨_, _, v, ?_, hvalues, rfl⟩
        simp only [Value.element?, hobject, if_true, Value.mapValues?, hprops, hadditional]
      · rename_i hnotmap
        obtain ⟨_, s₁, hschedule, hrun⟩ := run_bind_eq_ok.mp hrun
        obtain ⟨rfl, rfl⟩ := run_pure_eq_ok.mp hrun
        rw [schedule_run] at hschedule
        cases hschedule
        refine .inr (.inl ⟨?_, _, rfl, rfl⟩)
        simp only [Value.makesClass, hobject, Value.mapValues?_eq_none hnotmap,
          Option.isNone_none, Bool.and_self]
    · rename_i hnotobject
      have hnotobject : ¬node.objectLike = true := hnotobject
      split at hrun
      · rename_i harray
        split at hrun
        · rename_i fields hitems
          obtain ⟨v, s₁, hitem, hrun⟩ := run_bind_eq_ok.mp hrun
          obtain ⟨rfl, rfl⟩ := run_pure_eq_ok.mp hrun
          refine .inl ⟨_, _, v, ?_, hitem, rfl⟩
          rw [Value.element?, if_neg hnotobject, if_pos harray, Value.arrayItems?, hitems]
        · obtain ⟨rfl, rfl⟩ := run_pure_eq_ok.mp hrun
          exact .inr (.inr ⟨rfl, rfl⟩)
      · split at hrun
        · split at hrun <;>
          · obtain ⟨rfl, rfl⟩ := run_pure_eq_ok.mp hrun
            exact .inr (.inr ⟨rfl, rfl⟩)
        · obtain ⟨rfl, rfl⟩ := run_pure_eq_ok.mp hrun
          exact .inr (.inr ⟨rfl, rfl⟩)

end Lowering

end Session

end SchemaModel

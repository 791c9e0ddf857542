import SchemaModel.Proofs.ClassSteps
import SchemaModel.Proofs.ClassRanks
import SchemaModel.Proofs.Bindings
/-!
# Turns of the compilation loop

`drain` takes the class that waited longest and compiles it, over and over (`Compiler.turn`); it
answers `none` exactly when every turn of its budget finds a class that compiles
(`drain_eq_ok_none_iff`). By `ClassSteps`, a turn from a session of the compilation of a document
compiles the class exactly when the class lands in the graph, and then appends to the queue what
its landings name (`QueuesAll.appends`) and binds the targets it lands on.

When no class reached lies on an inline cycle, each turn lowers a potential of the session
(`turn_potential_lt`): a class waiting weighs one more than the number of values of the source to
the power of its rank, and each key of the source bound to no class weighs as much as any class
can. A turn takes one class off and queues inline classes of lower rank, fewer than the source has
values, and binding a key pays for its class. So the loop stops within the potential of its first
session (`not_runs_of_acyclic`).
-/

namespace SchemaModel

namespace Store

/-- The key of the schema numbered `i`, and the default key where the store holds none. -/
def keyAt (st : Store) (i : Nat) : Reference := ((st.get? i).map (·.reference)).getD default

theorem keyAt_of_get? {st : Store} {i : Nat} {sc : Schema} (h : st.get? i = some sc) :
    st.keyAt i = sc.reference := by
  simp [keyAt, h]

theorem Extends.keyAt {st st' : Store} (hext : Extends st st') {i : Nat} (hi : i < st.size) :
    st'.keyAt i = st.keyAt i := by
  obtain ⟨sc, hget⟩ : ∃ sc, st.get? i = some sc := ⟨_, List.getElem?_eq_getElem hi⟩
  rw [keyAt_of_get? hget, keyAt_of_get? (hext.get? hget)]

end Store

/-- The class a queued class stands for in the graph: its node, read in the key of its schema. -/
def Pending.pair (st : Store) (p : Pending) : Value × Reference := (p.node, st.keyAt p.context)

theorem Pending.pair_extend {st st' : Store} (hext : Store.Extends st st') {p : Pending}
    (hp : p.context < st.size) : p.pair st' = p.pair st := by
  simp only [pair, hext.keyAt hp]

namespace Registry

/-- A schema under `key`, read in the store `st`, is bound to a class. -/
def Binds (r : Registry) (st : Store) (key : Reference) : Prop :=
  ∃ i sc name, st.get? i = some sc ∧ sc.reference = key ∧ r.bound i = some name

theorem Binds.keeps {r r' : Registry} {st : Store} {key : Reference} (h : r.Binds st key)
    (hkeeps : r.Keeps r') : r'.Binds st key := by
  obtain ⟨i, sc, name, hget, hkey, hbound⟩ := h
  exact ⟨i, sc, name, hget, hkey, hkeeps i name hbound⟩

theorem Binds.extend {r : Registry} {st st' : Store} {key : Reference} (h : r.Binds st key)
    (hext : Store.Extends st st') : r.Binds st' key := by
  obtain ⟨i, sc, name, hget, hkey, hbound⟩ := h
  exact ⟨i, sc, name, hext.get? hget, hkey, hbound⟩

/-- Where every bound schema is held already, a larger store binds no more keys. -/
theorem binds_of_extend {r : Registry} {st st' : Store} {key : Reference}
    (h : r.Binds st' key) (hext : Store.Extends st st')
    (hheld : ∀ i name, r.bound i = some name → i < st.size) : r.Binds st key := by
  obtain ⟨i, sc, name, hget, hkey, hbound⟩ := h
  obtain ⟨sc', hget'⟩ : ∃ sc', st.get? i = some sc' :=
    ⟨_, List.getElem?_eq_getElem (hheld i name hbound)⟩
  obtain rfl := Option.some.inj ((hext.get? hget').symm.trans hget)
  exact ⟨i, _, name, hget', hkey, hbound⟩

/-- No schema under the key of a schema bound to nothing is bound: a key names one schema. -/
theorem not_binds_of_unbound {r : Registry} {st : Store} (hs : st.Consistent) {target : Nat}
    {sc : Schema} (hget : st.get? target = some sc) (hunbound : r.bound target = none) :
    ¬ r.Binds st sc.reference := by
  rintro ⟨i, sc', name, hget', href, hbound⟩
  have hi := Store.lookup_get_of_nodup hs.references_nodup hget'
  rw [href, Store.lookup_get_of_nodup hs.references_nodup hget] at hi
  obtain rfl := Option.some.inj hi
  rw [hunbound] at hbound
  cases hbound

/-- Binding a schema bound to nothing binds its key and no other. -/
theorem binds_schedule_iff {r : Registry} {st : Store} {target : Nat} {sc : Schema}
    (hget : st.get? target = some sc) (hunbound : r.bound target = none) (name : String)
    (node : Value) (context : Nat) {key : Reference} :
    (r.schedule name node context (some target)).2.Binds st key ↔
      r.Binds st key ∨ key = sc.reference := by
  constructor
  · rintro ⟨i, sc', name', hget', href, hbound⟩
    by_cases hi : i = target
    · subst hi
      obtain rfl := Option.some.inj (hget'.symm.trans hget)
      exact .inr href.symm
    · rw [bound_schedule_of_ne hi] at hbound
      exact .inl ⟨i, sc', name', hget', href, hbound⟩
  · rintro (h | rfl)
    · exact h.keeps (keeps_schedule _ _ _ _ fun _ h => by cases h; exact hunbound)
    · exact ⟨target, sc, _, hget, rfl, Session.bound_schedule_self _ _ _ _ _⟩

end Registry

namespace Session

open Store Source Registry

variable {src : Source} {enc : Encoding} {policy : DecodePolicy} {doc : String}

theorem Compiling.bound_held {s : Session} (hc : s.Compiling src enc policy doc) {i : Nat}
    {name : String} (hbound : s.registry.bound i = some name) : i < s.store.size := by
  rcases hc.bound_class i name hbound with rfl | ⟨sc, hget, -⟩
  · obtain ⟨sc, hget, -⟩ := hc.root
    exact (List.getElem?_eq_some_iff.mp hget).1
  · exact (List.getElem?_eq_some_iff.mp hget).1

theorem Compiling.binds_root {s : Session} (hc : s.Compiling src enc policy doc) :
    s.registry.Binds s.store ⟨doc, []⟩ := by
  obtain ⟨sc, hget, hroot⟩ := hc.root
  obtain ⟨name, hbound⟩ := Option.ne_none_iff_exists'.mp hc.root_bound
  exact ⟨0, sc, name, hget, hroot, hbound⟩

/-- Taking a class off the queue keeps the session one of the compilation. -/
theorem Compiling.next {s : Session} (hc : s.Compiling src enc policy doc) :
    ({ s with registry := s.registry.next.2 } : Session).Compiling src enc policy doc := by
  have hbound : ∀ i, s.registry.next.2.bound i = s.registry.bound i := fun i => by
    simp only [Registry.bound, Registry.bindings_next]
  refine ⟨hc.consistent, hc.source_eq, hc.encoding_eq, hc.policy_eq, hc.root,
    by rw [hbound]; exact hc.root_bound, fun i name h => hc.bound_class i name (by rwa [← hbound]),
    fun p hp => hc.queued_held p ?_⟩
  rw [Registry.queue_next] at hp
  exact List.mem_of_mem_tail hp

/-! ### What a turn appends -/

section Added

variable {st : Store}

/-- Queueing what a landing names keeps every binding. -/
theorem Queues.keeps {r r' : Registry} {landing : Landing} (hq : Queues st r landing r') :
    r.Keeps r' := by
  cases hq with
  | leaf | bound => exact Keeps.refl r
  | inline => exact keeps_schedule _ _ _ _ fun _ h => nomatch h
  | bind _ hunbound => exact keeps_schedule _ _ _ _ fun _ h => by cases h; exact hunbound

theorem QueuesAll.keeps {r r' : Registry} {landings : List Landing}
    (hq : QueuesAll st r landings r') : r.Keeps r' := by
  induction hq with
  | nil => exact Keeps.refl _
  | cons hfirst _ ih => exact hfirst.keeps.trans ih

/-- A bound landing leaves its target bound. -/
theorem Queues.binds {r r' : Registry} {key : Reference} (hq : Queues st r (.bound key) r') :
    r'.Binds st key := by
  cases hq with
  | bound hget hbound => exact ⟨_, _, _, hget, rfl, hbound⟩
  | bind hget => exact ⟨_, _, _, hget, rfl, bound_schedule_self _ _ _ _ _⟩

theorem QueuesAll.binds {r r' : Registry} {landings : List Landing}
    (hq : QueuesAll st r landings r') {key : Reference} (hmem : Landing.bound key ∈ landings) :
    r'.Binds st key := by
  induction hq with
  | nil => cases hmem
  | cons hfirst hrest ih =>
    rcases List.mem_cons.mp hmem with rfl | hmem
    · exact hfirst.binds.keeps hrest.keeps
    · exact ih hmem

/-- What queueing the landings `landings` appends to the queue: classes read in schemas the store
holds, each an inline landing or the class of a bound landing's target, and among them every inline
landing; and a schema bound afterwards was bound before, or its class is among them. -/
def Appends (st : Store) (r : Registry) (landings : List Landing) (r' : Registry)
    (added : List Pending) : Prop :=
  r'.queue = r.queue ++ added ∧
    (∀ a ∈ added, a.context < st.size ∧
      (Landing.inline (a.pair st).1 (a.pair st).2 ∈ landings ∨
        Landing.bound (a.pair st).2 ∈ landings ∧ st.source.contentAt (a.pair st).2 = .ok (a.pair st).1)) ∧
    (∀ n c, Landing.inline n c ∈ landings → (n, c) ∈ added.map (Pending.pair st)) ∧
    (∀ i sc name, st.get? i = some sc → r'.bound i = some name →
      (∃ name', r.bound i = some name') ∨ (sc.content, sc.reference) ∈ added.map (Pending.pair st))

/-- Landings with no inline class among them append nothing where they bind nothing. -/
theorem appends_nil {r : Registry} {landings : List Landing}
    (hinline : ∀ n c, Landing.inline n c ∉ landings) : Appends st r landings r [] :=
  ⟨(List.append_nil _).symm, fun _ h => absurd h List.not_mem_nil,
    fun n c h => absurd h (hinline n c), fun _ _ name _ h => .inl ⟨name, h⟩⟩

theorem Queues.appends (hs : st.Consistent) {r r' : Registry} {landing : Landing}
    (hq : Queues st r landing r') : ∃ added, Appends st r [landing] r' added := by
  cases hq with
  | leaf => exact ⟨[], appends_nil fun _ _ h => nomatch List.mem_singleton.mp h⟩
  | bound => exact ⟨[], appends_nil fun _ _ h => nomatch List.mem_singleton.mp h⟩
  | @inline name node context sc hget =>
    refine ⟨[⟨r.unique name, node, context⟩], Registry.queue_schedule _ _ _ _ _, fun a ha => ?_,
      fun n c h => ?_, fun _ _ name' _ h => .inl ⟨name', h⟩⟩
    · rw [List.mem_singleton.mp ha]
      refine ⟨(List.getElem?_eq_some_iff.mp hget).1, .inl ?_⟩
      simp [Pending.pair, keyAt_of_get? hget]
    · obtain ⟨rfl, rfl⟩ := Landing.inline.inj (List.mem_singleton.mp h)
      simp [Pending.pair, keyAt_of_get? hget]
  | @bind target sc name hget hunbound hclass =>
    refine ⟨[⟨r.unique name, sc.content, target⟩], Registry.queue_schedule _ _ _ _ _, fun a ha => ?_,
      fun _ _ h => ?_, fun i sc' name' hget' h => ?_⟩
    · rw [List.mem_singleton.mp ha]
      refine ⟨(List.getElem?_eq_some_iff.mp hget).1, .inr ⟨?_, ?_⟩⟩
      · simp [Pending.pair, keyAt_of_get? hget]
      · simp only [Pending.pair, keyAt_of_get? hget]
        exact hs.contentAt hget
    · cases List.mem_singleton.mp h
    · by_cases hi : i = target
      · subst hi
        obtain rfl := Option.some.inj (hget'.symm.trans hget)
        exact .inr (by simp [Pending.pair, keyAt_of_get? hget])
      · rw [bound_schedule_of_ne hi] at h
        exact .inl ⟨name', h⟩

theorem Appends.append {r r₁ r' : Registry} {landings landings' : List Landing}
    {added added' : List Pending} (hfirst : Appends st r landings r₁ added)
    (hsecond : Appends st r₁ landings' r' added') :
    Appends st r (landings ++ landings') r' (added ++ added') := by
  obtain ⟨hq, hfrom, hinline, hbound⟩ := hfirst
  obtain ⟨hq', hfrom', hinline', hbound'⟩ := hsecond
  refine ⟨by rw [hq', hq, List.append_assoc], fun a ha => ?_, fun n c h => ?_,
    fun i sc name hget h => ?_⟩
  · rcases List.mem_append.mp ha with ha | ha
    · obtain ⟨hlt, hwhy⟩ := hfrom a ha
      refine ⟨hlt, ?_⟩
      rcases hwhy with hmem | ⟨hmem, hcontent⟩
      · exact .inl (List.mem_append_left _ hmem)
      · exact .inr ⟨List.mem_append_left _ hmem, hcontent⟩
    · obtain ⟨hlt, hwhy⟩ := hfrom' a ha
      refine ⟨hlt, ?_⟩
      rcases hwhy with hmem | ⟨hmem, hcontent⟩
      · exact .inl (List.mem_append_right _ hmem)
      · exact .inr ⟨List.mem_append_right _ hmem, hcontent⟩
  · rw [List.map_append]
    rcases List.mem_append.mp h with h | h
    · exact List.mem_append_left _ (hinline n c h)
    · exact List.mem_append_right _ (hinline' n c h)
  · rw [List.map_append]
    rcases hbound' i sc name hget h with ⟨name', h'⟩ | hmem
    · rcases hbound i sc name' hget h' with hold | hmem
      · exact .inl hold
      · exact .inr (List.mem_append_left _ hmem)
    · exact .inr (List.mem_append_right _ hmem)

theorem QueuesAll.appends (hs : st.Consistent) {r r' : Registry} {landings : List Landing}
    (hq : QueuesAll st r landings r') : ∃ added, Appends st r landings r' added := by
  induction hq with
  | nil => exact ⟨[], appends_nil fun _ _ h => absurd h List.not_mem_nil⟩
  | cons hfirst _ ih =>
    obtain ⟨added, happ⟩ := hfirst.appends hs
    obtain ⟨added', happ'⟩ := ih
    exact ⟨_, happ.append happ'⟩

end Added

end Session

namespace Compiler

open Store Source Session Registry

variable {src : Source} {enc : Encoding} {policy : DecodePolicy} {doc : String}

/-! ### One turn of the loop -/

/-- One turn of the loop: the session after compiling the class that waited longest, when a class
waits and it compiles. -/
def turn (c : Compiler) (s : Session) : Option Session :=
  s.registry.next.1.bind fun p =>
    let run := (c.compileClass p).run.run { s with registry := s.registry.next.2 }
    run.1.toOption.map fun _ => run.2

/-- The loop runs `k` turns from a session, each finding a class that compiles. -/
inductive Runs (c : Compiler) : Nat → Session → Prop
  | zero {s : Session} : Runs c 0 s
  | succ {k : Nat} {s s' : Session} : c.turn s = some s' → Runs c k s' → Runs c (k + 1) s

theorem runs_succ_iff {c : Compiler} {k : Nat} {s : Session} :
    c.Runs (k + 1) s ↔ ∃ s', c.turn s = some s' ∧ c.Runs k s' := by
  constructor
  · intro h
    cases h with
    | succ hturn hrest => exact ⟨_, hturn, hrest⟩
  · rintro ⟨s', hturn, hrest⟩
    exact .succ hturn hrest

theorem turn_of_queue_nil (c : Compiler) {s : Session} (h : s.registry.queue = []) :
    c.turn s = none := by
  simp [turn, Registry.next_fst, h]

theorem turn_of_queue_cons (c : Compiler) {s : Session} {p : Pending} {rest : List Pending}
    (h : s.registry.queue = p :: rest) {result : Except CompileError ClassModel} {s' : Session}
    (hrun : (c.compileClass p).run.run { s with registry := s.registry.next.2 } = (result, s')) :
    c.turn s = result.toOption.map fun _ => s' := by
  simp only [turn, Registry.next_fst, h, List.head?_cons, Option.bind_some, hrun]

/-- `drain` answers `none` exactly when every turn of its budget finds a class that compiles. -/
theorem drain_eq_ok_none_iff (c : Compiler) (budget : Nat) :
    ∀ (done : List ClassModel) (s : Session),
      ((c.drain budget done).run.run s).1 = .ok none ↔ c.Runs budget s := by
  induction budget with
  | zero => exact fun _ _ => ⟨fun _ => .zero, fun _ => rfl⟩
  | succ budget ih =>
    intro done s
    rw [runs_succ_iff, drain, run_bind, next_run]
    dsimp only
    rcases hqueue : s.registry.queue with _ | ⟨p, rest⟩
    · -- nothing waits: the loop answers with the classes done
      have hnone : s.registry.next.1 = none := by rw [Registry.next_fst, hqueue]; rfl
      rw [hnone, run_pure, turn_of_queue_nil c hqueue]
      constructor
      · intro h
        cases h
      · rintro ⟨_, h, -⟩
        cases h
    · have hsome : s.registry.next.1 = some p := by rw [Registry.next_fst, hqueue]; rfl
      rw [hsome, run_bind]
      rcases hrun : (c.compileClass p).run.run { s with registry := s.registry.next.2 } with
        ⟨_ | cls, s'⟩
      · rw [turn_of_queue_cons c hqueue hrun]
        constructor
        · intro h
          cases h
        · rintro ⟨_, h, -⟩
          cases h
      · rw [turn_of_queue_cons c hqueue hrun, ih]
        constructor
        · intro h
          exact ⟨s', rfl, h⟩
        · rintro ⟨_, h, hruns⟩
          cases h
          exact hruns

/-- A turn from a session of the compilation, with `p` waiting longest: it compiles the class
exactly when the class lands, and then queues the landings and extends the store. -/
theorem turn_lands (c : Compiler) {s : Session} (hc : s.Compiling src enc policy doc)
    {p : Pending} {rest : List Pending} (hqueue : s.registry.queue = p :: rest) :
    (∃ s' landings, c.turn s = some s' ∧
      src.ClassLands enc policy c.naming ⟨doc, []⟩ (p.pair s.store).1 (p.pair s.store).2 landings ∧
      QueuesAll s'.store s.registry.next.2 landings s'.registry ∧ Extends s.store s'.store) ∨
    (c.turn s = none ∧
      ¬ ∃ landings, src.ClassLands enc policy c.naming ⟨doc, []⟩ (p.pair s.store).1
        (p.pair s.store).2 landings) := by
  have hc₁ := hc.next
  obtain ⟨csc, hctx⟩ : ∃ csc, s.store.get? p.context = some csc :=
    ⟨_, List.getElem?_eq_getElem (hc.queued_held p (by rw [hqueue]; exact List.mem_cons_self))⟩
  have hpair : p.pair s.store = (p.node, csc.reference) := by
    simp only [Pending.pair, keyAt_of_get? hctx]
  rw [hpair]
  rcases hrun : (c.compileClass p).run.run { s with registry := s.registry.next.2 } with
    ⟨result, s'⟩
  rw [turn_of_queue_cons c hqueue hrun]
  rcases compileClass_lands hc₁ hctx hrun with ⟨⟨cls, rfl⟩, landings, hclass, hq, hext⟩ |
    ⟨⟨e, rfl⟩, hnot⟩
  · exact .inl ⟨s', landings, rfl, hclass, hq, hext⟩
  · exact .inr ⟨rfl, hnot⟩

end Compiler

/-! ### The potential of a compilation without inline cycles -/

namespace Source

open Store Session Registry

section Potential

variable (src : Source) (enc : Encoding) (policy : DecodePolicy) (naming : Naming) (doc : String)

/-- A bound on the landings of a class of the source: the sizes of the nodes that stand in it. -/
def breadth : Nat := Value.sizeItems ((src.pairs enc policy).map Prod.fst)

/-- The weight of a class: one more than the breadth, to the power of its rank. -/
noncomputable def weight (q : Value × Reference) : Nat :=
  (src.breadth enc policy + 1) ^ src.rank enc policy naming doc q

/-- The weight of the classes of a queue, read in the store `st`. -/
noncomputable def queueWeight (st : Store) : List Pending → Nat
  | [] => 0
  | p :: rest => src.weight enc policy naming doc (p.pair st) + queueWeight st rest

/-- The weight of the inline classes a class lands on. -/
noncomputable def landingsWeight : List Landing → Nat
  | [] => 0
  | .inline n c :: rest => src.weight enc policy naming doc (n, c) + landingsWeight rest
  | _ :: rest => landingsWeight rest

open Classical in
/-- The keys of the source no bound schema has. -/
noncomputable def unboundKeys (r : Registry) (st : Store) : Nat :=
  ((src.keys enc policy).toFinset.filter fun key => ¬ r.Binds st key).card

/-- What a compilation may still queue: the weight of the classes waiting, and for each key of the
source bound to no class, as much as any class weighs. -/
noncomputable def classPotential (r : Registry) (st : Store) : Nat :=
  src.queueWeight enc policy naming doc st r.queue +
    (src.breadth enc policy + 1) ^ (src.pairs enc policy).length * src.unboundKeys enc policy r st

variable {src enc policy naming doc}

theorem weight_le (q : Value × Reference) :
    src.weight enc policy naming doc q ≤ (src.breadth enc policy + 1) ^ (src.pairs enc policy).length :=
  Nat.pow_le_pow_right (Nat.succ_pos _) (rank_le q)

theorem queueWeight_append (st : Store) (queue added : List Pending) :
    src.queueWeight enc policy naming doc st (queue ++ added) =
      src.queueWeight enc policy naming doc st queue +
        src.queueWeight enc policy naming doc st added := by
  induction queue with
  | nil => simp [queueWeight]
  | cons p rest ih => simp only [List.cons_append, queueWeight, ih, Nat.add_assoc]

theorem queueWeight_extend {st st' : Store} (hext : Extends st st') :
    ∀ {queue : List Pending}, (∀ q ∈ queue, q.context < st.size) →
      src.queueWeight enc policy naming doc st' queue = src.queueWeight enc policy naming doc st queue
  | [], _ => rfl
  | q :: rest, hheld => by
    simp only [queueWeight, Pending.pair_extend hext (hheld q List.mem_cons_self),
      queueWeight_extend hext fun q' hq' => hheld q' (List.mem_cons_of_mem _ hq')]

theorem unboundKeys_congr {r r' : Registry} {st st' : Store}
    (h : ∀ key, r'.Binds st' key ↔ r.Binds st key) :
    src.unboundKeys enc policy r' st' = src.unboundKeys enc policy r st := by
  unfold unboundKeys
  congr 1
  ext key
  simp only [Finset.mem_filter, h]

/-- Binding one more key of the source leaves one key fewer bound to nothing. -/
theorem unboundKeys_bind {r r' : Registry} {st : Store} {key : Reference}
    (hbinds : ∀ k, r'.Binds st k ↔ r.Binds st k ∨ k = key) (hmem : key ∈ src.keys enc policy)
    (hnot : ¬ r.Binds st key) :
    src.unboundKeys enc policy r' st + 1 = src.unboundKeys enc policy r st := by
  classical
  have hset : ((src.keys enc policy).toFinset.filter fun k => ¬ r'.Binds st k) =
      ((src.keys enc policy).toFinset.filter fun k => ¬ r.Binds st k).erase key := by
    ext k
    simp only [Finset.mem_filter, Finset.mem_erase, hbinds]
    tauto
  unfold unboundKeys
  rw [hset, Finset.card_erase_add_one (Finset.mem_filter.mpr ⟨List.mem_toFinset.mpr hmem, hnot⟩)]

/-- Taking the class that waited longest takes its weight off the potential. -/
theorem classPotential_next {r : Registry} {st : Store} {p : Pending} {rest : List Pending}
    (hqueue : r.queue = p :: rest) :
    src.classPotential enc policy naming doc r st =
      src.weight enc policy naming doc (p.pair st) +
        src.classPotential enc policy naming doc r.next.2 st := by
  have hbinds : ∀ key, r.next.2.Binds st key ↔ r.Binds st key := fun key => by
    simp only [Registry.Binds, Registry.bound, Registry.bindings_next]
  simp only [classPotential, Registry.queue_next, hqueue, List.tail_cons, queueWeight,
    unboundKeys_congr hbinds, Nat.add_assoc]

/-- A larger store changes no class waiting and no key bound, where each is held already. -/
theorem classPotential_extend {s : Session} (hc : s.Compiling src enc policy doc) {st : Store}
    (hext : Extends s.store st) :
    src.classPotential enc policy naming doc s.registry st =
      src.classPotential enc policy naming doc s.registry s.store := by
  have hbinds : ∀ key, s.registry.Binds st key ↔ s.registry.Binds s.store key := fun key =>
    ⟨fun h => binds_of_extend h hext fun _ _ h => hc.bound_held h, fun h => h.extend hext⟩
  simp only [classPotential, queueWeight_extend hext hc.queued_held, unboundKeys_congr hbinds]

theorem weight_pos (q : Value × Reference) : 0 < src.weight enc policy naming doc q :=
  pow_pos (Nat.succ_pos _) _

theorem landingsWeight_cons (landing : Landing) (rest : List Landing) :
    src.landingsWeight enc policy naming doc (landing :: rest) =
      src.landingsWeight enc policy naming doc [landing] +
        src.landingsWeight enc policy naming doc rest := by
  cases landing <;> simp only [landingsWeight, Nat.zero_add, Nat.add_zero]

/-- Where every inline landing weighs at most `w` once scaled by `m`, the landings weigh at most
`w` apiece once scaled by `m`. -/
theorem landingsWeight_mul_le {m w : Nat} {landings : List Landing}
    (h : ∀ n c, Landing.inline n c ∈ landings → src.weight enc policy naming doc (n, c) * m ≤ w) :
    src.landingsWeight enc policy naming doc landings * m ≤ landings.length * w := by
  induction landings with
  | nil => simp only [landingsWeight, Nat.zero_mul, Nat.zero_le]
  | cons landing rest ih =>
    have hrest := ih fun n c hmem => h n c (List.mem_cons_of_mem _ hmem)
    rw [landingsWeight_cons, List.length_cons, Nat.add_mul, Nat.succ_mul]
    cases landing with
    | inline n c =>
      have hfirst := h n c List.mem_cons_self
      simp only [landingsWeight, Nat.add_zero]
      omega
    | _ =>
      simp only [landingsWeight, Nat.zero_mul]
      omega

theorem Placed.size_le_breadth {p : Value × Reference} (h : src.Placed enc policy p) :
    p.1.size ≤ src.breadth enc policy :=
  Value.size_le_sizeItems (List.mem_map_of_mem h.mem_pairs)

theorem PropertiesLand.length_eq {root context : Reference} {taken : List String}
    {fields : List (String × Value)} {props : List Landing}
    (h : src.PropertiesLand enc policy naming root context taken fields props) :
    props.length = fields.length := by
  induction h with
  | nil => rfl
  | cons _ _ _ _ _ _ ih => simp only [List.length_cons, ih]

/-- A class lands on no more places than its node has values. -/
theorem ClassLands.length_le {root context : Reference} {node : Value} {landings : List Landing}
    (h : src.ClassLands enc policy naming root node context landings) :
    landings.length ≤ node.size := by
  obtain ⟨props, extra, hprops, hextra, rfl⟩ := h
  have hextra : extra.length ≤ 1 := by
    cases hextra with
    | none => exact Nat.zero_le _
    | some => exact Nat.le_refl _
  have hfields := Value.length_propertyFields_lt node
  rw [List.length_append, hprops.length_eq]
  omega

/-- The inline classes a class reached lands on weigh less than it: each has a lower rank, and
there are fewer of them than the source has values. -/
theorem landingsWeight_lt (hacyclic : src.InlineAcyclic enc policy naming doc)
    {p : Value × Reference} (hp : src.Reachable enc policy naming doc p) {landings : List Landing}
    (hclass : src.ClassLands enc policy naming ⟨doc, []⟩ p.1 p.2 landings) :
    src.landingsWeight enc policy naming doc landings < src.weight enc policy naming doc p := by
  have hlen : landings.length ≤ src.breadth enc policy :=
    hclass.length_le.trans hp.placed.size_le_breadth
  have hshare : ∀ n c, Landing.inline n c ∈ landings →
      src.weight enc policy naming doc (n, c) * (src.breadth enc policy + 1) ≤
        src.weight enc policy naming doc p := by
    intro n c hmem
    have hspawns : src.Spawns enc policy naming ⟨doc, []⟩ p (n, c) := ⟨landings, hclass, hmem⟩
    have hlt := rank_lt_of_spawns hacyclic hp hspawns
    calc src.weight enc policy naming doc (n, c) * (src.breadth enc policy + 1)
        = (src.breadth enc policy + 1) ^ (src.rank enc policy naming doc (n, c) + 1) :=
          (Nat.pow_succ _ _).symm
      _ ≤ src.weight enc policy naming doc p := Nat.pow_le_pow_right (Nat.succ_pos _) hlt
  have hpos : 0 < src.weight enc policy naming doc p := weight_pos p
  have hmul : src.landingsWeight enc policy naming doc landings * (src.breadth enc policy + 1) <
      src.weight enc policy naming doc p * (src.breadth enc policy + 1) := calc
    src.landingsWeight enc policy naming doc landings * (src.breadth enc policy + 1)
      ≤ landings.length * src.weight enc policy naming doc p := landingsWeight_mul_le hshare
    _ ≤ src.breadth enc policy * src.weight enc policy naming doc p := Nat.mul_le_mul_right _ hlen
    _ < src.weight enc policy naming doc p * (src.breadth enc policy + 1) := by
      rw [Nat.mul_succ, Nat.mul_comm]
      omega
  exact Nat.lt_of_mul_lt_mul_right hmul

end Potential

end Source

namespace Session

open Store Source Registry

variable {src : Source} {enc : Encoding} {policy : DecodePolicy} {naming : Naming} {doc : String}

/-- Queueing what a landing names raises the potential by at most the weight of an inline class:
binding a target of the source takes its key off the keys bound to nothing, which weighs as much
as the class it queues. -/
theorem Queues.classPotential_le {st : Store} (hs : st.Consistent) {r r' : Registry}
    {landing : Landing} (hq : Queues st r landing r')
    (hkey : ∀ key, landing = .bound key → r.Binds st key ∨ key ∈ src.keys enc policy) :
    src.classPotential enc policy naming doc r' st ≤
      src.classPotential enc policy naming doc r st +
        src.landingsWeight enc policy naming doc [landing] := by
  cases hq with
  | leaf | bound => exact Nat.le_add_right _ _
  | @inline name node context sc hget =>
    have hbinds : ∀ key, (r.schedule name node context none).2.Binds st key ↔ r.Binds st key :=
      fun key => Iff.rfl
    simp only [classPotential, Registry.queue_schedule, queueWeight_append, queueWeight,
      Pending.pair, keyAt_of_get? hget, unboundKeys_congr hbinds, landingsWeight]
    omega
  | @bind target sc name hget hunbound hclass =>
    -- binding the target takes its key off the keys bound to nothing, which pays for its class
    have hnot := not_binds_of_unbound hs hget hunbound
    have hcount := unboundKeys_bind (fun _ => binds_schedule_iff hget hunbound name sc.content target)
      ((hkey _ rfl).resolve_left hnot) hnot
    have hweight : src.weight enc policy naming doc (sc.content, sc.reference) ≤ _ := weight_le _
    simp only [classPotential, Registry.queue_schedule, queueWeight_append, queueWeight,
      Pending.pair, keyAt_of_get? hget, landingsWeight]
    rw [← hcount, Nat.mul_add, Nat.mul_one]
    omega

theorem QueuesAll.classPotential_le {st : Store} (hs : st.Consistent) {r r' : Registry}
    {landings : List Landing} (hq : QueuesAll st r landings r')
    (hkey : ∀ key, Landing.bound key ∈ landings → r.Binds st key ∨ key ∈ src.keys enc policy) :
    src.classPotential enc policy naming doc r' st ≤
      src.classPotential enc policy naming doc r st +
        src.landingsWeight enc policy naming doc landings := by
  induction hq with
  | nil => exact Nat.le_add_right _ _
  | cons hfirst hrest ih =>
    have hone : src.classPotential enc policy naming doc _ st ≤
        src.classPotential enc policy naming doc _ st + src.landingsWeight enc policy naming doc _ :=
      hfirst.classPotential_le hs fun key h => hkey key (h ▸ List.mem_cons_self)
    -- a key bound before the first landing stays bound after it
    have hrest := ih fun key hmem =>
      (hkey key (List.mem_cons_of_mem _ hmem)).imp_left fun hbinds => hbinds.keeps hfirst.keeps
    rw [landingsWeight_cons]
    omega

end Session

/-! ### Turns of a compilation -/

namespace Compiler

open Store Source Session Registry

variable {src : Source} {enc : Encoding} {policy : DecodePolicy} {doc : String}

theorem exists_queue_cons_of_turn {c : Compiler} {s s' : Session} (hturn : c.turn s = some s') :
    ∃ p rest, s.registry.queue = p :: rest := by
  rcases hqueue : s.registry.queue with _ | ⟨p, rest⟩
  · rw [turn_of_queue_nil c hqueue] at hturn
    cases hturn
  · exact ⟨p, rest, rfl⟩

/-- A turn that compiles its class: the class lands, the store grows, and the registry queues the
landings after taking the class off. -/
theorem turn_some (c : Compiler) {s s' : Session} (hc : s.Compiling src enc policy doc)
    {p : Pending} {rest : List Pending} (hqueue : s.registry.queue = p :: rest)
    (hturn : c.turn s = some s') :
    ∃ landings, src.ClassLands enc policy c.naming ⟨doc, []⟩ (p.pair s.store).1 (p.pair s.store).2
        landings ∧
      QueuesAll s'.store s.registry.next.2 landings s'.registry ∧ Extends s.store s'.store := by
  rcases turn_lands c hc hqueue with ⟨s'', landings, hturn', hclass, hq, hext⟩ | ⟨hnone, -⟩
  · obtain rfl := Option.some.inj (hturn'.symm.trans hturn)
    exact ⟨landings, hclass, hq, hext⟩
  · rw [hnone] at hturn
    cases hturn

/-- A turn keeps the session one of the compilation, and every class waiting one the compilation
reaches: the classes that waited stay where they stood, and those queued are classes the class
compiled leads to. -/
theorem turn_reachable (c : Compiler) {s s' : Session} (hc : s.Compiling src enc policy doc)
    (hreach : ∀ q ∈ s.registry.queue, src.Reachable enc policy c.naming doc (q.pair s.store))
    (hturn : c.turn s = some s') :
    s'.Compiling src enc policy doc ∧
      ∀ q ∈ s'.registry.queue, src.Reachable enc policy c.naming doc (q.pair s'.store) := by
  obtain ⟨p, rest, hqueue⟩ := exists_queue_cons_of_turn hturn
  obtain ⟨landings, hclass, hq, hext⟩ := turn_some c hc hqueue hturn
  have hc' : s'.Compiling src enc policy doc := hc.next.step hext hq
  obtain ⟨added, hqueue', hfrom, -, -⟩ := hq.appends hc'.consistent
  refine ⟨hc', fun q hq' => ?_⟩
  rw [hqueue', Registry.queue_next, hqueue, List.tail_cons] at hq'
  rcases List.mem_append.mp hq' with hold | hnew
  · have hmem : q ∈ s.registry.queue := by
      rw [hqueue]
      exact List.mem_cons_of_mem _ hold
    rw [Pending.pair_extend hext (hc.queued_held q hmem)]
    exact hreach q hmem
  · obtain ⟨-, hwhy⟩ := hfrom q hnew
    rw [hc'.source_eq] at hwhy
    exact .step (hreach p (by rw [hqueue]; exact List.mem_cons_self)) ⟨landings, hclass, hwhy⟩

/-- With no class reached on an inline cycle, a turn lowers the potential: the class compiled
weighs more than the inline classes it queues, and each target it binds pays for its own class. -/
theorem turn_potential_lt (c : Compiler) (hacyclic : src.InlineAcyclic enc policy c.naming doc)
    {s s' : Session} (hc : s.Compiling src enc policy doc)
    (hreach : ∀ q ∈ s.registry.queue, src.Reachable enc policy c.naming doc (q.pair s.store))
    (hturn : c.turn s = some s') :
    src.classPotential enc policy c.naming doc s'.registry s'.store <
      src.classPotential enc policy c.naming doc s.registry s.store := by
  obtain ⟨p, rest, hqueue⟩ := exists_queue_cons_of_turn hturn
  obtain ⟨landings, hclass, hq, hext⟩ := turn_some c hc hqueue hturn
  have hc' : s'.Compiling src enc policy doc := hc.next.step hext hq
  have hp := hreach p (by rw [hqueue]; exact List.mem_cons_self)
  -- a target landed on is the root, bound from the start, or a key of the source
  have hkey : ∀ key, Landing.bound key ∈ landings →
      s.registry.next.2.Binds s'.store key ∨ key ∈ src.keys enc policy := by
    intro key hmem
    refine ((hclass.placed hp.placed).2 key hmem).imp_left fun hroot => ?_
    rw [hroot]
    obtain ⟨i, sc, name, hget, href, hbound⟩ := hc.binds_root
    refine ⟨i, sc, name, hext.get? hget, href, ?_⟩
    rwa [Registry.bound, Registry.bindings_next]
  have hnext : src.classPotential enc policy c.naming doc s.registry s.store =
      src.weight enc policy c.naming doc (p.pair s.store) +
        src.classPotential enc policy c.naming doc s.registry.next.2 s.store :=
    classPotential_next hqueue
  have hstore : src.classPotential enc policy c.naming doc s.registry.next.2 s'.store =
      src.classPotential enc policy c.naming doc s.registry.next.2 s.store :=
    classPotential_extend hc.next hext
  have hstep : src.classPotential enc policy c.naming doc s'.registry s'.store ≤
      src.classPotential enc policy c.naming doc s.registry.next.2 s'.store +
        src.landingsWeight enc policy c.naming doc landings :=
    hq.classPotential_le hc'.consistent hkey
  have hless := landingsWeight_lt hacyclic hp hclass
  omega

/-- With no class reached on an inline cycle, the loop runs no more turns than the potential of
its session. -/
theorem not_runs_of_acyclic (c : Compiler) (hacyclic : src.InlineAcyclic enc policy c.naming doc)
    (k : Nat) :
    ∀ {s : Session}, s.Compiling src enc policy doc →
      (∀ q ∈ s.registry.queue, src.Reachable enc policy c.naming doc (q.pair s.store)) →
      src.classPotential enc policy c.naming doc s.registry s.store < k → ¬ c.Runs k s := by
  -- each turn lowers the potential, which starts below `k`
  induction k with
  | zero => exact fun _ _ hlt => absurd hlt (Nat.not_lt_zero _)
  | succ k ih =>
    intro s hc hreach hlt hruns
    obtain ⟨s', hturn, hruns'⟩ := runs_succ_iff.mp hruns
    have hless := turn_potential_lt c hacyclic hc hreach hturn
    obtain ⟨hc', hreach'⟩ := turn_reachable c hc hreach hturn
    exact ih hc' hreach' (by omega) hruns'

end Compiler

end SchemaModel

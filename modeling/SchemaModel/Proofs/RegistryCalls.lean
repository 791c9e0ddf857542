import SchemaModel.Proofs.Bounds
/-!
# Any sequence of registry calls

A registry is used through two calls: `schedule` queues a class and gives it a name, binding a
schema to it when one is given, and `next` takes the class that has waited longest. Run from the
empty registry, every sequence of calls behaves as seen from outside:

* each name given is new, and it is the name asked for when that is free, and otherwise the name
  with `_N` for the least `N ≥ 1` that is free;
* the classes taken are the classes queued, in the order they were queued, each once, and the
  number waiting is the number queued less the number taken;
* a schema is bound to the name given by the last call that bound it.

The invariant `Reflects` reads the registry's fields off what the calls were seen to do; each call
keeps it (`Reflects.call`), so every run does (`run_reflects`). The name search resumes where the last
search for the same name stopped, so the invariant also says that every candidate it skips is
taken: that is what makes the name it finds the least free one.
-/

namespace SchemaModel

namespace Registry

/-- A call on a registry: queue a class under a name, bound to a schema or not, or take the class
that has waited longest. -/
inductive Call where
  | schedule (name : String) (node : Value) (context : Nat) (identity : Option Nat)
  | next

/-- What a call was seen to do: a class queued under the name it was given, with the schema bound
to it, or the class taken, if one was waiting. -/
inductive Event where
  | queued (p : Pending) (identity : Option Nat)
  | took (p : Option Pending)

namespace Event

/-- The class an event queued. -/
def queuedClass? : Event → Option Pending
  | .queued p _ => some p
  | .took _ => none

/-- The class an event took. -/
def takenClass? : Event → Option Pending
  | .queued _ _ => none
  | .took p => p

/-- The name an event bound the schema `id` to. -/
def binding? (id : Nat) : Event → Option String
  | .queued p (some id') => if id' = id then some p.name else none
  | _ => none

end Event

/-- The classes queued, in order. -/
def queuedAll (events : List Event) : List Pending := events.filterMap Event.queuedClass?

/-- The classes taken, in order. -/
def takenAll (events : List Event) : List Pending := events.filterMap Event.takenClass?

/-- The names given out, in order. -/
def issued (events : List Event) : List String := (queuedAll events).map Pending.name

/-- The name given by the last call that bound the schema `id`. -/
def lastBound (events : List Event) (id : Nat) : Option String :=
  (events.filterMap (Event.binding? id)).getLast?

/-- Makes a call, with what it was seen to do. -/
def call (r : Registry) : Call → Event × Registry
  | .schedule name node context identity =>
    let (u, r') := r.schedule name node context identity
    (.queued ⟨u, node, context⟩ identity, r')
  | .next =>
    let (p, r') := r.next
    (.took p, r')

/-- Makes calls in order, collecting what each was seen to do. -/
def run (r : Registry) : List Call → List Event × Registry
  | [] => ([], r)
  | c :: rest =>
    let (e, r') := r.call c
    let (es, r'') := r'.run rest
    (e :: es, r'')

/-! ### The observations of a run -/

section Observations

variable (events : List Event) (p : Pending) (identity : Option Nat) (taken : Option Pending)

@[simp] theorem queuedAll_queued :
    queuedAll (events ++ [.queued p identity]) = queuedAll events ++ [p] := by
  simp [queuedAll, Event.queuedClass?]

@[simp] theorem queuedAll_took : queuedAll (events ++ [.took taken]) = queuedAll events := by
  simp [queuedAll, Event.queuedClass?]

@[simp] theorem takenAll_queued : takenAll (events ++ [.queued p identity]) = takenAll events := by
  simp [takenAll, Event.takenClass?]

@[simp] theorem takenAll_took : takenAll (events ++ [.took taken]) = takenAll events ++ taken.toList := by
  cases taken <;> simp [takenAll, Event.takenClass?]

@[simp] theorem issued_queued : issued (events ++ [.queued p identity]) = issued events ++ [p.name] := by
  simp [issued]

@[simp] theorem issued_took : issued (events ++ [.took taken]) = issued events := by
  simp [issued]

theorem lastBound_append_of_none {events : List Event} {e : Event} {id : Nat}
    (hnone : e.binding? id = none) : lastBound (events ++ [e]) id = lastBound events id := by
  simp [lastBound, List.filterMap_append, hnone]

theorem lastBound_queued_self (events : List Event) (p : Pending) (id : Nat) :
    lastBound (events ++ [.queued p (some id)]) id = some p.name := by
  simp [lastBound, List.filterMap_append, Event.binding?]

end Observations

theorem run_append (r : Registry) (calls calls' : List Call) :
    r.run (calls ++ calls') =
      ((r.run calls).1 ++ ((r.run calls).2.run calls').1, ((r.run calls).2.run calls').2) := by
  induction calls generalizing r with
  | nil => rfl
  | cons c rest ih => simp only [List.cons_append, run, ih]

theorem run_concat (r : Registry) (calls : List Call) (c : Call) :
    r.run (calls ++ [c]) =
      ((r.run calls).1 ++ [((r.run calls).2.call c).1], ((r.run calls).2.call c).2) := by
  rw [run_append]
  rfl

/-! ### What a run keeps -/

@[simp] theorem resume_next (r : Registry) : r.next.2.resume = r.resume := by
  unfold next
  split
  · rfl
  · split <;> rfl

theorem pendingCount_eq_length_queue (r : Registry) : r.pendingCount = r.queue.length := by
  simp [pendingCount, queue]

/-- What a registry reached through `events` holds, read off the events: the names given out,
each once; every candidate a name search will skip, which is taken; the classes waiting, which
are those queued and not taken; and the bindings, each the last one made. -/
structure Reflects (r : Registry) (events : List Event) : Prop where
  names_iff : ∀ x, r.names.contains x = true ↔ x ∈ issued events
  issued_nodup : (issued events).Nodup
  skipped_taken : ∀ name k, k < r.resume.getD name 0 → candidate name k ∈ issued events
  queue_eq : takenAll events ++ r.queue = queuedAll events
  bound_eq : ∀ id, r.bound id = lastBound events id

theorem Reflects.empty : Reflects ({} : Registry) [] where
  names_iff := by simp [issued, queuedAll]
  issued_nodup := List.nodup_nil
  skipped_taken := by simp
  queue_eq := rfl
  bound_eq := fun _ => rfl

/-- The candidates before the one a search finds are all taken: those before the search's start
because the registry tracks them, the others because the search passed them. -/
theorem Reflects.candidate_taken {r : Registry} {events : List Event} (h : Reflects r events)
    (name : String) {k : Nat} (hk : k < r.freeNumber name) : candidate name k ∈ issued events := by
  by_cases hskipped : k < r.resume.getD name 0
  · exact h.skipped_taken name k hskipped
  obtain ⟨-, -, hbefore, -⟩ := firstFree_spec r.names name (r.names.size + 1) (r.resume.getD name 0)
  exact (h.names_iff _).mp (hbefore k (by omega) hk)

theorem Reflects.unique_not_mem {r : Registry} {events : List Event} (h : Reflects r events)
    (name : String) : r.unique name ∉ issued events := by
  rw [← h.names_iff, unique_fresh]
  exact Bool.false_ne_true

theorem Reflects.schedule {r : Registry} {events : List Event} (h : Reflects r events)
    (name : String) (node : Value) (context : Nat) (identity : Option Nat) :
    Reflects (r.schedule name node context identity).2
      (events ++ [.queued ⟨r.unique name, node, context⟩ identity]) where
  names_iff := by
    intro x
    rw [names_schedule, Std.TreeSet.contains_insert, Bool.or_eq_true, h.names_iff, issued_queued,
      List.mem_append, List.mem_singleton, beq_iff_eq, Std.LawfulEqCmp.compare_eq_iff_eq, eq_comm]
    exact Or.comm
  issued_nodup := by
    rw [issued_queued]
    refine List.nodup_append.mpr ⟨h.issued_nodup, List.nodup_singleton _, fun x hx y hy hxy => ?_⟩
    have hy' : y = r.unique name := List.mem_singleton.mp hy
    exact h.unique_not_mem name (hy' ▸ hxy ▸ hx)
  skipped_taken := by
    intro name' k hk
    rw [issued_queued, List.mem_append, List.mem_singleton]
    simp only [Registry.schedule, Std.TreeMap.getD_insert] at hk
    split_ifs at hk with hname
    · -- the search for `name` now resumes after the candidate it found
      have hsame : name = name' := Std.LawfulEqCmp.compare_eq_iff_eq.mp hname
      subst hsame
      rcases Nat.lt_succ_iff_lt_or_eq.mp hk with hk | rfl
      · exact .inl (h.candidate_taken name hk)
      · exact .inr rfl
    · exact .inl (h.skipped_taken name' k hk)
  queue_eq := by
    rw [queue_schedule, takenAll_queued, queuedAll_queued, ← h.queue_eq, List.append_assoc]
  bound_eq := by
    intro i
    cases identity with
    | none =>
      rw [lastBound_append_of_none rfl, ← h.bound_eq]
      rfl
    | some id =>
      by_cases hi : i = id
      · subst hi
        rw [lastBound_queued_self]
        simp [bound, Registry.schedule, unique]
      · have hnone : (Event.queued ⟨r.unique name, node, context⟩ (some id)).binding? i = none := by
          simp [Event.binding?, Ne.symm hi]
        rw [bound_schedule_of_ne hi, lastBound_append_of_none hnone, h.bound_eq]

theorem Reflects.next {r : Registry} {events : List Event} (h : Reflects r events) :
    Reflects r.next.2 (events ++ [.took r.next.1]) where
  names_iff := by
    intro x
    rw [names_next, issued_took]
    exact h.names_iff x
  issued_nodup := by
    rw [issued_took]
    exact h.issued_nodup
  skipped_taken := by
    rw [resume_next, issued_took]
    exact h.skipped_taken
  queue_eq := by
    -- the class taken is the head of the queue, and the tail waits
    rw [takenAll_took, queuedAll_took, next_fst, queue_next, ← h.queue_eq, List.append_assoc]
    cases r.queue <;> rfl
  bound_eq := by
    intro i
    rw [lastBound_append_of_none rfl, ← h.bound_eq]
    unfold bound
    rw [bindings_next]

theorem Reflects.call {r : Registry} {events : List Event} (h : Reflects r events) (c : Call) :
    Reflects (r.call c).2 (events ++ [(r.call c).1]) := by
  cases c with
  | schedule name node context identity => exact h.schedule name node context identity
  | next => exact h.next

/-- Every run from the empty registry is tracked by what its calls were seen to do. -/
theorem run_reflects (calls : List Call) :
    Reflects (({} : Registry).run calls).2 (({} : Registry).run calls).1 := by
  induction calls using List.reverseRecOn with
  | nil => exact Reflects.empty
  | append_singleton calls c ih =>
    rw [run_concat]
    exact ih.call c

/-! ### The names a search finds -/

/-- The name a search finds is the least candidate not given out. -/
theorem Reflects.unique_least {r : Registry} {events : List Event} (h : Reflects r events)
    (name : String) :
    ∃ N, r.unique name = candidate name N ∧ candidate name N ∉ issued events ∧
      ∀ M < N, candidate name M ∈ issued events :=
  ⟨r.freeNumber name, rfl, h.unique_not_mem name, fun _ hM => h.candidate_taken name hM⟩

/-- In the words of names: the name asked for when it is free, and otherwise the name with `_N`
for the least `N ≥ 1` that is free. -/
theorem Reflects.unique_eq {r : Registry} {events : List Event} (h : Reflects r events)
    (name : String) :
    (name ∉ issued events → r.unique name = name) ∧
    (name ∈ issued events → ∃ N, 1 ≤ N ∧ r.unique name = name ++ "_" ++ toString N ∧
      name ++ "_" ++ toString N ∉ issued events ∧
      ∀ M, 1 ≤ M → M < N → name ++ "_" ++ toString M ∈ issued events) := by
  obtain ⟨N, hunique, hfree, hbefore⟩ := h.unique_least name
  have hsuffix : ∀ M, 1 ≤ M → candidate name M = name ++ "_" ++ toString M := by
    intro M hM
    simp [candidate, Nat.pos_iff_ne_zero.mp hM]
  constructor
  · intro hname
    -- were the name itself skipped, it would have been given out
    rcases Nat.eq_zero_or_pos N with rfl | hN
    · exact hunique
    · exact absurd (hbefore 0 hN) hname
  · intro hname
    have hN : 1 ≤ N := by
      rcases Nat.eq_zero_or_pos N with rfl | hN
      · exact absurd hname hfree
      · exact hN
    refine ⟨N, hN, hunique.trans (hsuffix N hN), hsuffix N hN ▸ hfree, fun M hM hMN => ?_⟩
    exact hsuffix M hM ▸ hbefore M hMN

/-- Any sequence of `schedule` and `next` calls on a fresh registry. The names given out are
pairwise distinct, and a further `schedule` gives the name asked for when it was never given out,
and otherwise that name with `_N` for the least `N ≥ 1` never given out. The classes taken are
the first ones queued, in order, each once; the rest wait, and their number is the number queued
less the number taken. Every schema is bound to the name given by the last call that bound it. -/
theorem run_fresh_names_fifo_last_binding (calls : List Call) (name : String) (node : Value)
    (context : Nat) (identity : Option Nat) :
    let events := (({} : Registry).run calls).1
    let r := (({} : Registry).run calls).2
    let given := (r.schedule name node context identity).1
    (issued events).Nodup ∧
    (name ∉ issued events → given = name) ∧
    (name ∈ issued events → ∃ N, 1 ≤ N ∧ given = name ++ "_" ++ toString N ∧
      name ++ "_" ++ toString N ∉ issued events ∧
      ∀ M, 1 ≤ M → M < N → name ++ "_" ++ toString M ∈ issued events) ∧
    takenAll events ++ r.queue = queuedAll events ∧
    r.next.1 = ((queuedAll events).drop (takenAll events).length).head? ∧
    r.pendingCount = (queuedAll events).length - (takenAll events).length ∧
    ∀ id, r.bound id = lastBound events id := by
  intro events r given
  have h : Reflects r events := run_reflects calls
  obtain ⟨hfree, htaken⟩ := h.unique_eq name
  have hrest : (queuedAll events).drop (takenAll events).length = r.queue := by
    rw [← h.queue_eq, List.drop_left]
  refine ⟨h.issued_nodup, hfree, htaken, h.queue_eq, ?_, ?_, h.bound_eq⟩
  · rw [next_fst, hrest]
  · rw [pendingCount_eq_length_queue, ← h.queue_eq, List.length_append]
    omega

end Registry

end SchemaModel

import SchemaModel.Proofs.LoopTurns
import SchemaModel.Proofs.Termination
/-!
# Which compilations run forever

Compiling a document runs its loop forever exactly when some class it reaches lies on a cycle of
inline classes and every class it reaches compiles (`compilation_terminates_iff`).

One way round is `not_runs_of_acyclic`. For the other, the loop is followed turn by turn with the
classes it compiled (`Progress`), and `Progress.Sound` is what every state of it keeps: each class
compiled landed in the graph, and what it landed on is seen after it (queued later) or bound, and
the class of each bound schema is seen. Two facts then settle the rest.

* The queue is first in, first out, so along a run that never stops every class ever seen is
  compiled in its turn; every class the compilation reaches is seen, so each one compiles
  (`lands_of_runs`).
* A run that stops with every class it meets compiling stops with an empty queue. What it has seen
  is then closed under the graph and holds every class reached; but the last class seen on an
  inline cycle queues a class on the cycle after it, so no class reached lies on one
  (`not_onInlineCycle_of_stops`).
-/

namespace SchemaModel

theorem List.getElem?_of_prefix {α : Type} {l₁ l₂ : List α} (h : l₁ <+: l₂) {i : Nat} {a : α}
    (hi : l₁[i]? = some a) : l₂[i]? = some a := by
  obtain ⟨t, rfl⟩ := h
  rw [List.getElem?_append_left (List.getElem?_eq_some_iff.mp hi).1]
  exact hi

namespace Compiler

open Store Source Session Registry

/-- The loop after some turns: its session, and the classes compiled so far, oldest first. -/
structure Progress where
  session : Session
  compiled : List (Value × Reference)

/-- Every class compiled or waiting, in the order the loop queued them. -/
def Progress.seen (x : Progress) : List (Value × Reference) :=
  x.compiled ++ x.session.registry.queue.map (Pending.pair x.session.store)

/-- One turn, recording the class it compiles. -/
def advance (c : Compiler) (x : Progress) : Option Progress :=
  (c.turn x.session).map fun s' =>
    ⟨s', x.compiled ++ (x.session.registry.queue.take 1).map (Pending.pair x.session.store)⟩

/-- The loop after `k` turns from `x`, while each turn compiles its class. -/
def progress (c : Compiler) (x : Progress) : Nat → Option Progress
  | 0 => some x
  | k + 1 => (c.progress x k).bind c.advance

theorem progress_succ' (c : Compiler) (k : Nat) :
    ∀ x, c.progress x (k + 1) = (c.advance x).bind fun y => c.progress y k := by
  induction k with
  | zero =>
    intro x
    simp only [progress, Option.bind_some]
    cases c.advance x <;> rfl
  | succ k ih =>
    intro x
    rw [progress, ih, Option.bind_assoc]
    rfl

theorem progress_add (c : Compiler) (x : Progress) (k j : Nat) :
    c.progress x (k + j) = (c.progress x k).bind fun y => c.progress y j := by
  induction j with
  | zero => cases c.progress x k <;> rfl
  | succ j ih => rw [← Nat.add_assoc, progress, ih, Option.bind_assoc]; rfl

/-- The loop runs `k` turns exactly when the record of its first `k` turns exists. -/
theorem runs_iff_isSome_progress (c : Compiler) (k : Nat) :
    ∀ x, c.Runs k x.session ↔ (c.progress x k).isSome := by
  induction k with
  | zero => exact fun x => iff_of_true .zero rfl
  | succ k ih =>
    intro x
    rw [runs_succ_iff, progress_succ']
    rcases hturn : c.turn x.session with _ | s'
    · simp only [advance, hturn, Option.map_none, Option.bind_none, Option.isSome_none,
        reduceCtorEq, false_and, exists_false, Bool.false_eq_true]
    · simp only [advance, hturn, Option.map_some, Option.bind_some, Option.some.injEq,
        exists_eq_left', ← ih]

/-- A run that stops stops at a state whose turn compiles nothing. -/
theorem exists_stuck (c : Compiler) (x : Progress) :
    ∀ k, c.progress x k = none → ∃ j y, c.progress x j = some y ∧ c.advance y = none := by
  intro k
  induction k with
  | zero => exact fun h => nomatch h
  | succ k ih =>
    intro h
    rcases hk : c.progress x k with _ | y
    · exact ih hk
    · rw [progress, hk, Option.bind_some] at h
      exact ⟨k, y, hk, h⟩

theorem advance_eq_some {c : Compiler} {x y : Progress} (h : c.advance x = some y) :
    ∃ p rest, x.session.registry.queue = p :: rest ∧ c.turn x.session = some y.session ∧
      y.compiled = x.compiled ++ [p.pair x.session.store] := by
  rcases hturn : c.turn x.session with _ | s'
  · rw [advance, hturn, Option.map_none] at h
    cases h
  · obtain ⟨p, rest, hqueue⟩ := exists_queue_cons_of_turn hturn
    simp only [advance, hturn, hqueue, Option.map_some, List.take_succ_cons, List.take_zero,
      List.map_cons, List.map_nil, Option.some.injEq] at h
    subst h
    exact ⟨p, rest, hqueue, rfl, rfl⟩

variable {src : Source} {enc : Encoding} {policy : DecodePolicy} {doc : String}

/-- A turn of the loop from a session of the compilation: the class `p` that waited longest landed
on `landings`, and queueing them appended `added` to what the loop has seen. -/
theorem advance_appends {c : Compiler} {x y : Progress}
    (hc : x.session.Compiling src enc policy doc) (h : c.advance x = some y) :
    ∃ p rest landings added, x.session.registry.queue = p :: rest ∧
      src.ClassLands enc policy c.naming ⟨doc, []⟩ (p.pair x.session.store).1
        (p.pair x.session.store).2 landings ∧
      QueuesAll y.session.store x.session.registry.next.2 landings y.session.registry ∧
      Extends x.session.store y.session.store ∧
      Appends y.session.store x.session.registry.next.2 landings y.session.registry added ∧
      y.compiled = x.compiled ++ [p.pair x.session.store] ∧
      y.seen = x.seen ++ added.map (Pending.pair y.session.store) := by
  obtain ⟨p, rest, hqueue, hturn, hcompiled⟩ := advance_eq_some h
  obtain ⟨landings, hclass, hq, hext⟩ := turn_some c hc hqueue hturn
  have hc' : y.session.Compiling src enc policy doc := hc.next.step hext hq
  obtain ⟨added, hqueue', happends⟩ := hq.appends hc'.consistent
  refine ⟨p, rest, landings, added, hqueue, hclass, hq, hext, ⟨hqueue', happends⟩, hcompiled, ?_⟩
  -- the classes that waited keep their place in the graph, and the new ones come last
  have hrest : rest.map (Pending.pair y.session.store) = rest.map (Pending.pair x.session.store) :=
    List.map_congr_left fun q hq => Pending.pair_extend hext
      (hc.queued_held q (by rw [hqueue]; exact List.mem_cons_of_mem _ hq))
  simp only [Progress.seen, hcompiled, hqueue', Registry.queue_next, hqueue, List.tail_cons,
    List.map_append, hrest, List.map_cons, List.append_assoc, List.cons_append, List.nil_append]

/-- What holds of the loop's state in a compilation of `doc`: the session is one of the
compilation, every class waiting is one it reaches, every class compiled landed, with its inline
landings seen after it and its targets bound, and the class of every bound schema is seen. -/
structure Progress.Sound (src : Source) (enc : Encoding) (policy : DecodePolicy)
    (naming : Naming) (doc : String) (x : Progress) : Prop where
  compiling : x.session.Compiling src enc policy doc
  reachable : ∀ q ∈ x.session.registry.queue,
    src.Reachable enc policy naming doc (q.pair x.session.store)
  landed : ∀ i < x.compiled.length, ∃ q landings, x.seen[i]? = some q ∧
    src.ClassLands enc policy naming ⟨doc, []⟩ q.1 q.2 landings ∧
    (∀ n c, Landing.inline n c ∈ landings → ∃ j, i < j ∧ x.seen[j]? = some (n, c)) ∧
    ∀ key, Landing.bound key ∈ landings → x.session.registry.Binds x.session.store key
  bound_seen : ∀ i sc name, x.session.store.get? i = some sc →
    x.session.registry.bound i = some name → (sc.content, sc.reference) ∈ x.seen

namespace Progress.Sound

variable {naming : Naming} {x : Progress}

/-- A key bound in a sound state has its class seen. -/
theorem mem_of_binds (hx : x.Sound src enc policy naming doc) {key : Reference} {v : Value}
    (hbinds : x.session.registry.Binds x.session.store key) (hcontent : src.contentAt key = .ok v) :
    (v, key) ∈ x.seen := by
  obtain ⟨i, sc, name, hget, rfl, hbound⟩ := hbinds
  have hsc := hx.compiling.consistent.contentAt hget
  rw [hx.compiling.source_eq, hcontent] at hsc
  obtain rfl := Except.ok.inj hsc
  exact hx.bound_seen i sc name hget hbound

theorem root_mem (hx : x.Sound src enc policy naming doc) {v : Value}
    (hcontent : src.contentAt ⟨doc, []⟩ = .ok v) : (v, ⟨doc, []⟩) ∈ x.seen :=
  hx.mem_of_binds hx.compiling.binds_root hcontent

/-- Whatever a class compiled leads to is seen. -/
theorem leads_mem (hx : x.Sound src enc policy naming doc) {i : Nat} (hi : i < x.compiled.length)
    {q q' : Value × Reference} (hq : x.seen[i]? = some q)
    (hleads : src.Leads enc policy naming ⟨doc, []⟩ q q') : q' ∈ x.seen := by
  obtain ⟨q₀, landings, hq₀, hclass, hinline, hbound⟩ := hx.landed i hi
  obtain rfl := Option.some.inj (hq₀.symm.trans hq)
  obtain ⟨landings', hclass', hnext⟩ := hleads
  obtain rfl := hclass.unique hclass'
  rcases hnext with hmem | ⟨hmem, hcontent⟩
  · obtain ⟨j, -, hj⟩ := hinline _ _ hmem
    exact List.mem_iff_getElem?.mpr ⟨j, hj⟩
  · exact hx.mem_of_binds (hbound _ hmem) hcontent

/-- A turn keeps the state sound, and adds to what it has seen. -/
theorem advance {c : Compiler} (hx : x.Sound src enc policy c.naming doc) {y : Progress}
    (h : c.advance x = some y) :
    y.Sound src enc policy c.naming doc ∧ x.seen <+: y.seen ∧
      y.compiled.length = x.compiled.length + 1 := by
  obtain ⟨p, rest, landings, added, hqueue, hclass, hq, hext, ⟨-, hfrom, hinline, hbound⟩,
    hcompiled, hseen⟩ := advance_appends hx.compiling h
  obtain ⟨-, -, -, hturn, -⟩ := advance_eq_some h
  obtain ⟨hc', hreach'⟩ := turn_reachable c hx.compiling hx.reachable hturn
  have hprefix : x.seen <+: y.seen := hseen ▸ List.prefix_append _ _
  have hkeeps : x.session.registry.Keeps y.session.registry := (keeps_next _).trans hq.keeps
  -- the class compiled sits where the queue began
  have hlen : x.compiled.length < x.seen.length := by
    simp only [Progress.seen, hqueue, List.length_append, List.length_map, List.length_cons]
    omega
  have hp : y.seen[x.compiled.length]? = some (p.pair x.session.store) := by
    rw [hseen, List.getElem?_append_left hlen]
    simp only [Progress.seen, hqueue, List.map_cons, List.getElem?_append_right (Nat.le_refl _),
      Nat.sub_self, List.getElem?_cons_zero]
  refine ⟨⟨hc', hreach', fun i hi => ?_, fun i sc name hget hbound' => ?_⟩, hprefix, by
    simp only [hcompiled, List.length_append, List.length_singleton]⟩
  · rw [hcompiled, List.length_append, List.length_singleton] at hi
    rcases Nat.lt_succ_iff_lt_or_eq.mp hi with hi | rfl
    · -- a class compiled before: its facts carry over to the longer record
      obtain ⟨q, landings, hq', hclass, hinline, hbinds⟩ := hx.landed i hi
      refine ⟨q, landings, List.getElem?_of_prefix hprefix hq', hclass, fun n c hmem => ?_,
        fun key hmem => ((hbinds key hmem).keeps hkeeps).extend hext⟩
      obtain ⟨j, hij, hj⟩ := hinline n c hmem
      exact ⟨j, hij, List.getElem?_of_prefix hprefix hj⟩
    · -- the class compiled now: its inline landings are among those appended
      refine ⟨_, landings, hp, hclass, fun n c hmem => ?_, fun key hmem => hq.binds hmem⟩
      obtain ⟨k, hk⟩ := List.mem_iff_getElem?.mp (hinline n c hmem)
      refine ⟨x.seen.length + k, by omega, ?_⟩
      rw [hseen, List.getElem?_append_right (Nat.le_add_right _ _), Nat.add_sub_cancel_left]
      exact hk
  · rcases hbound i sc name hget hbound' with ⟨name', hold⟩ | hnew
    · -- a schema bound before was held, with its class seen already
      rw [Registry.bound, Registry.bindings_next, ← Registry.bound] at hold
      obtain ⟨sc', hget'⟩ : ∃ sc', x.session.store.get? i = some sc' :=
        ⟨_, List.getElem?_eq_getElem (hx.compiling.bound_held hold)⟩
      obtain rfl := Option.some.inj ((hext.get? hget').symm.trans hget)
      exact hprefix.subset (hx.bound_seen i _ name' hget' hold)
    · rw [hseen]
      exact List.mem_append_right _ hnew

/-- Along the loop's record from a sound state, every state is sound, has one more class
compiled per turn, and extends what the earlier states have seen. -/
theorem progress {c : Compiler} (hx : x.Sound src enc policy c.naming doc) (k : Nat) :
    ∀ {y}, c.progress x k = some y →
      y.Sound src enc policy c.naming doc ∧ x.seen <+: y.seen ∧
        y.compiled.length = x.compiled.length + k := by
  induction k with
  | zero =>
    intro y h
    obtain rfl := Option.some.inj h
    exact ⟨hx, List.prefix_refl _, rfl⟩
  | succ k ih =>
    intro y h
    rw [Compiler.progress] at h
    rcases hk : c.progress x k with _ | z
    · rw [hk] at h
      cases h
    rw [hk, Option.bind_some] at h
    obtain ⟨hz, hxz, hlenz⟩ := ih hk
    obtain ⟨hy, hzy, hleny⟩ := hz.advance h
    exact ⟨hy, hxz.trans hzy, by omega⟩

end Progress.Sound

/-! ### Runs that never stop -/

section Forever

variable {c : Compiler} {x : Progress}

/-- The queue is first in, first out: on a run that never stops, a class seen in some state is
compiled in a later one. -/
theorem compiled_of_runs (hx : x.Sound src enc policy c.naming doc)
    (hruns : ∀ k, (c.progress x k).isSome) {k : Nat} {y : Progress} (hy : c.progress x k = some y)
    {q : Value × Reference} (hq : q ∈ y.seen) :
    ∃ j z i, c.progress x j = some z ∧ i < z.compiled.length ∧ z.seen[i]? = some q := by
  obtain ⟨i, hi⟩ := List.mem_iff_getElem?.mp hq
  obtain ⟨z, hz⟩ := Option.isSome_iff_exists.mp (hruns (k + (i + 1)))
  -- the later state extends the earlier one, and by then the class at `i` has had its turn
  have hyz : c.progress y (i + 1) = some z := by rw [← hz, progress_add c x k, hy, Option.bind_some]
  obtain ⟨hysound, -, -⟩ := hx.progress k hy
  obtain ⟨-, hprefix, hlen⟩ := hysound.progress (i + 1) hyz
  exact ⟨k + (i + 1), z, i, hz, by omega, List.getElem?_of_prefix hprefix hi⟩

/-- On a run that never stops, every class the compilation reaches is seen. -/
theorem seen_of_runs (hx : x.Sound src enc policy c.naming doc)
    (hruns : ∀ k, (c.progress x k).isSome) {q : Value × Reference}
    (hq : src.Reachable enc policy c.naming doc q) :
    ∃ k y, c.progress x k = some y ∧ q ∈ y.seen := by
  induction hq with
  | root hcontent => exact ⟨0, x, rfl, hx.root_mem hcontent⟩
  | step _ hleads ih =>
    obtain ⟨k, y, hy, hmem⟩ := ih
    obtain ⟨j, z, i, hz, hi, hzi⟩ := compiled_of_runs hx hruns hy hmem
    exact ⟨j, z, hz, (hx.progress j hz).1.leads_mem hi hzi hleads⟩

/-- On a run that never stops, every class the compilation reaches compiles. -/
theorem lands_of_runs (hx : x.Sound src enc policy c.naming doc)
    (hruns : ∀ k, c.Runs k x.session) {q : Value × Reference}
    (hq : src.Reachable enc policy c.naming doc q) :
    ∃ landings, src.ClassLands enc policy c.naming ⟨doc, []⟩ q.1 q.2 landings := by
  have hsome : ∀ k, (c.progress x k).isSome := fun k => (runs_iff_isSome_progress c k x).mp (hruns k)
  obtain ⟨k, y, hy, hmem⟩ := seen_of_runs hx hsome hq
  obtain ⟨j, z, i, hz, hi, hzi⟩ := compiled_of_runs hx hsome hy hmem
  obtain ⟨q', landings, hq', hclass, -⟩ := (hx.progress j hz).1.landed i hi
  obtain rfl := Option.some.inj (hq'.symm.trans hzi)
  exact ⟨landings, hclass⟩

end Forever

/-! ### Runs that stop -/

section Stops

variable {c : Compiler} {x : Progress}

namespace Progress.Sound

/-- A sound state whose turn compiles nothing, while every class the compilation reaches
compiles, has nothing waiting: the class at the head would compile. -/
theorem queue_eq_nil_of_stuck (hx : x.Sound src enc policy c.naming doc)
    (hstuck : c.advance x = none)
    (hlands : ∀ p, src.Reachable enc policy c.naming doc p →
      ∃ landings, src.ClassLands enc policy c.naming ⟨doc, []⟩ p.1 p.2 landings) :
    x.session.registry.queue = [] := by
  rcases hqueue : x.session.registry.queue with _ | ⟨p, rest⟩
  · rfl
  · have hturn : c.turn x.session = none := Option.map_eq_none_iff.mp hstuck
    have hp := hx.reachable p (by rw [hqueue]; exact List.mem_cons_self)
    rcases turn_lands c hx.compiling hqueue with ⟨s', -, hsome, -⟩ | ⟨-, hnot⟩
    · rw [hturn] at hsome
      cases hsome
    · exact absurd (hlands _ hp) hnot

theorem seen_eq_compiled (hqueue : x.session.registry.queue = []) : x.seen = x.compiled := by
  simp only [Progress.seen, hqueue, List.map_nil, List.append_nil]

/-- With nothing waiting, what a sound state has seen holds every class the compilation
reaches: every class seen was compiled, and what it leads to is seen. -/
theorem reachable_mem (hx : x.Sound src enc policy c.naming doc)
    (hqueue : x.session.registry.queue = []) {q : Value × Reference}
    (hq : src.Reachable enc policy c.naming doc q) : q ∈ x.seen := by
  induction hq with
  | root hcontent => exact hx.root_mem hcontent
  | step _ hleads ih =>
    obtain ⟨i, hi⟩ := List.mem_iff_getElem?.mp ih
    have hlt : i < x.compiled.length := by
      rw [← seen_eq_compiled hqueue]
      exact (List.getElem?_eq_some_iff.mp hi).1
    exact hx.leads_mem hlt hi hleads

/-- With nothing waiting, a class seen on an inline cycle has a class of a cycle seen after it:
the one it spawns on the cycle. -/
theorem later_onInlineCycle (hx : x.Sound src enc policy c.naming doc)
    (hqueue : x.session.registry.queue = []) {i : Nat} {q : Value × Reference}
    (hi : x.seen[i]? = some q) (hcycle : src.OnInlineCycle enc policy c.naming ⟨doc, []⟩ q) :
    ∃ j q', i < j ∧ x.seen[j]? = some q' ∧ src.OnInlineCycle enc policy c.naming ⟨doc, []⟩ q' := by
  have hlt : i < x.compiled.length := by
    rw [← seen_eq_compiled hqueue]
    exact (List.getElem?_eq_some_iff.mp hi).1
  obtain ⟨q₀, landings, hq₀, hclass, hinline, -⟩ := hx.landed i hlt
  obtain rfl := Option.some.inj (hq₀.symm.trans hi)
  obtain ⟨q', ⟨landings', hclass', hmem⟩, hcycle'⟩ := hcycle.next
  obtain rfl := hclass.unique hclass'
  obtain ⟨j, hij, hj⟩ := hinline _ _ hmem
  exact ⟨j, q', hij, hj, hcycle'⟩

/-- With nothing waiting, no class a sound state has seen lies on an inline cycle: from the last
one seen, the cycle would go on to one seen later. -/
theorem not_onInlineCycle (hx : x.Sound src enc policy c.naming doc)
    (hqueue : x.session.registry.queue = []) {q : Value × Reference} (hq : q ∈ x.seen) :
    ¬ src.OnInlineCycle enc policy c.naming ⟨doc, []⟩ q := by
  -- induction on how far the position lies from the end of the record
  have hnone : ∀ d i q, x.seen.length - i ≤ d → x.seen[i]? = some q →
      ¬ src.OnInlineCycle enc policy c.naming ⟨doc, []⟩ q := by
    intro d
    induction d with
    | zero =>
      intro i q hd hi
      have := (List.getElem?_eq_some_iff.mp hi).1
      omega
    | succ d ih =>
      intro i q hd hi hcycle
      obtain ⟨j, q', hij, hj, hcycle'⟩ := hx.later_onInlineCycle hqueue hi hcycle
      exact ih j q' (by omega) hj hcycle'
  obtain ⟨i, hi⟩ := List.mem_iff_getElem?.mp hq
  exact hnone _ i q (Nat.le_refl _) hi

end Progress.Sound

/-- A run from a sound state that stops while every class the compilation reaches compiles
reaches no class on an inline cycle. -/
theorem not_onInlineCycle_of_stops (hx : x.Sound src enc policy c.naming doc) {k : Nat}
    (hstop : ¬ c.Runs k x.session)
    (hlands : ∀ p, src.Reachable enc policy c.naming doc p →
      ∃ landings, src.ClassLands enc policy c.naming ⟨doc, []⟩ p.1 p.2 landings)
    {p : Value × Reference} (hp : src.Reachable enc policy c.naming doc p) :
    ¬ src.OnInlineCycle enc policy c.naming ⟨doc, []⟩ p := by
  have hnone : c.progress x k = none := by
    rw [runs_iff_isSome_progress] at hstop
    exact Option.not_isSome_iff_eq_none.mp hstop
  obtain ⟨j, y, hy, hstuck⟩ := exists_stuck c x k hnone
  have hsound := (hx.progress j hy).1
  have hqueue := hsound.queue_eq_nil_of_stuck hstuck hlands
  exact hsound.not_onInlineCycle hqueue (hsound.reachable_mem hqueue hp)

end Stops

/-! ### The compilation of a document -/

/-- Reading the root of a document into an empty store puts its schema first. -/
theorem root_empty_get? {doc : String} {id : Nat} {st : Store}
    (hrun : (Store.root doc).run.run (Store.empty src enc policy) = (.ok id, st)) :
    ∃ content, st.get? 0 = some ⟨⟨doc, []⟩, content, none⟩ := by
  unfold Store.root at hrun
  rcases intern_cases (Store.empty src enc policy) ⟨doc, []⟩ none with
    ⟨i, hlookup, -⟩ | ⟨-, tree, s₁, hload, ⟨content, -, hintern⟩ | ⟨e, -, hfail⟩⟩ |
      ⟨-, e, s₁, -, hfail⟩
  · cases hlookup
  · obtain ⟨docs, hframe⟩ := load_frame (Store.empty src enc policy) doc
    rw [hload] at hframe
    subst hframe
    rw [hintern] at hrun
    obtain ⟨-, rfl⟩ := Prod.mk.inj hrun
    exact ⟨content, rfl⟩
  · rw [hfail] at hrun
    cases hrun
  · rw [hfail] at hrun
    cases hrun

/-- A document whose root cannot be read has no node in the source. -/
theorem contentAt_ne_of_root_error {doc : String} {e : ResolutionError} {st : Store}
    (hrun : (Store.root doc).run.run (Store.empty src enc policy) = (.error e, st)) (v : Value) :
    src.contentAt ⟨doc, []⟩ ≠ .ok v := by
  intro hcontent
  obtain ⟨tree, hfetch, hwalk⟩ := contentAt_eq_ok.mp hcontent
  unfold Store.root at hrun
  rcases intern_cases (Store.empty src enc policy) ⟨doc, []⟩ none with
    ⟨i, hlookup, -⟩ | ⟨-, tree', s₁, hload, ⟨content, -, hintern⟩ | ⟨e', hwalk', -⟩⟩ |
      ⟨-, e', s₁, hload, -⟩
  · cases hlookup
  · rw [hintern] at hrun
    cases hrun
  · -- the document was fetched, and its empty path walked to nothing
    have hfetch' := load_fetch_ok (Consistent.empty src enc policy) hload
    obtain rfl := Except.ok.inj (hfetch'.symm.trans hfetch)
    rw [hwalk] at hwalk'
    cases hwalk'
  · have hfetch' : src.fetch doc = .error e' := load_fetch_error hload
    rw [hfetch'] at hfetch
    cases hfetch

/-- The loop starts sound: the root is the one schema, bound to the one class queued. -/
theorem Progress.Sound.start {naming : Naming} {st : Store} (hst : st.Bounded src enc policy)
    (hsize : st.size = 1) {content : Value} (hget : st.get? 0 = some ⟨⟨doc, []⟩, content, none⟩)
    (name : String) :
    Progress.Sound src enc policy naming doc
      ⟨{ store := st, registry := (({} : Registry).schedule name content 0 (some 0)).2 }, []⟩ := by
  have hcontent : src.contentAt ⟨doc, []⟩ = .ok content := by
    have h := hst.consistent.contentAt hget
    rwa [hst.source_eq] at h
  -- the root alone is bound, and its class alone waits
  have honly : ∀ i name', (({} : Registry).schedule name content 0 (some 0)).2.bound i =
      some name' → i = 0 := by
    intro i name' h
    by_contra hi
    rw [bound_schedule_of_ne hi] at h
    cases h
  have hqueue : (({} : Registry).schedule name content 0 (some 0)).2.queue =
      [⟨({} : Registry).unique name, content, 0⟩] := by
    rw [Registry.queue_schedule]
    rfl
  have hpair : Pending.pair st ⟨({} : Registry).unique name, content, 0⟩ = (content, ⟨doc, []⟩) := by
    simp only [Pending.pair, keyAt_of_get? hget]
  refine ⟨⟨hst.consistent, hst.source_eq, hst.encoding_eq, hst.policy_eq, ⟨_, hget, rfl⟩,
    by rw [bound_schedule_self]; exact Option.some_ne_none _,
    fun i name' h => .inl (honly i name' h), fun q hq => ?_⟩, fun q hq => ?_,
    fun i hi => absurd hi (Nat.not_lt_zero _), fun i sc name' hget' h => ?_⟩
  · rw [hqueue, List.mem_singleton] at hq
    subst hq
    simp only [hsize, Nat.zero_lt_one]
  · rw [hqueue, List.mem_singleton] at hq
    subst hq
    rw [hpair]
    exact .root hcontent
  · obtain rfl := honly i name' h
    obtain rfl := Option.some.inj (hget'.symm.trans hget)
    simp only [Progress.seen, hqueue, List.map_cons, List.map_nil, List.nil_append, hpair,
      List.mem_singleton]

/-- Compiling a document from an empty store fails at once when the source has no such document,
and otherwise starts the loop from a sound state: the document's root class waits, bound to its
schema. -/
theorem compileDocumentWithin_start (c : Compiler) (doc : String) (className : Option String) :
    ((∀ v, src.contentAt ⟨doc, []⟩ ≠ .ok v) ∧ ∀ budget, ∃ e,
        ((c.compileDocumentWithin budget doc className).run.run
          { store := Store.empty src enc policy }).1 = .error e) ∨
      ∃ s₀ : Session, Progress.Sound src enc policy c.naming doc ⟨s₀, []⟩ ∧ ∀ budget,
        (c.compileDocumentWithin budget doc className).run.run
          { store := Store.empty src enc policy } = (c.drain budget []).run.run s₀ := by
  rcases hroot : (Store.root doc).run.run (Store.empty src enc policy) with ⟨e | id, st⟩
  · refine .inl ⟨contentAt_ne_of_root_error hroot, fun budget => ⟨.resolution e, ?_⟩⟩
    simp only [compileDocumentWithin, run_bind, liftStore_run, hroot]
  obtain ⟨hbounded, rfl, hsize⟩ := root_empty hroot
  obtain ⟨content, hget⟩ := root_empty_get? hroot
  refine .inr ⟨_, .start hbounded hsize hget (c.naming.className (className.getD (Document.stem doc))),
    fun budget => ?_⟩
  simp only [compileDocumentWithin, run_bind, liftStore_run, hroot, Store.schema_run, hget,
    Option.getD_some, schedule_run]

/-- Compiling a document from an empty store stops, within some budget, exactly when no class it
reaches lies on a cycle of inline classes, or some class it reaches does not compile. -/
theorem compilation_terminates_iff (c : Compiler) (doc : String) (className : Option String) :
    (∃ budget, ((c.compileDocumentWithin budget doc className).run.run
        { store := Store.empty src enc policy }).1 ≠ .ok none) ↔
      src.InlineAcyclic enc policy c.naming doc ∨
        ∃ p, src.Reachable enc policy c.naming doc p ∧
          ¬ ∃ landings, src.ClassLands enc policy c.naming ⟨doc, []⟩ p.1 p.2 landings := by
  rcases compileDocumentWithin_start c doc className with ⟨hmissing, herror⟩ | ⟨s₀, hsound, hrun⟩
  · -- without the document the compilation fails at once, and reaches nothing
    refine iff_of_true ⟨0, fun h => ?_⟩ (.inl fun p hp => absurd hp.root_content ?_)
    · obtain ⟨e, he⟩ := herror 0
      rw [he] at h
      cases h
    · rintro ⟨v, hv⟩
      exact hmissing v hv
  · simp only [hrun, ne_eq, drain_eq_ok_none_iff]
    constructor
    · rintro ⟨budget, hstop⟩
      by_cases hlands : ∀ p, src.Reachable enc policy c.naming doc p →
          ∃ landings, src.ClassLands enc policy c.naming ⟨doc, []⟩ p.1 p.2 landings
      · exact .inl fun p hp => not_onInlineCycle_of_stops hsound hstop hlands hp
      · simp only [not_forall, exists_prop] at hlands
        exact .inr hlands
    · rintro (hacyclic | ⟨p, hp, hfails⟩)
      · exact ⟨_, not_runs_of_acyclic c hacyclic _ hsound.compiling hsound.reachable
          (Nat.lt_succ_self _)⟩
      · by_contra hruns
        exact hfails (lands_of_runs hsound (fun k => not_not.mp fun h => hruns ⟨k, h⟩) hp)

end Compiler

end SchemaModel

import SchemaModel.Registry
import Mathlib.Data.List.Nodup
import Mathlib.Data.List.Induction
/-!
# Names and the queue of the class registry

A new class takes the first candidate for its name that is not taken: the name itself, then the
name with `_1`, `_2`, …. The candidates are pairwise distinct, so of the `size + 1` candidates the
search tries at least one is free, and the name it returns is never one given out before.

Queueing appends at the back and taking removes from the front, so the registry hands classes out
in the order they were queued. `Discovers` says what a step of a compilation did to the registry
in terms of the class names its result mentions: the names that were new are queued, each once, in
the order they are first mentioned, and nothing else changes. Steps compose by `Discovers.trans`,
so a whole compilation is described by the names its classes mention.
-/

namespace SchemaModel

section Discovery

/-- The names of `refs` that `issued` lacks, each once, in the order they first appear. -/
def newNames (issued refs : List String) : List String := (refs.removeAll issued).eraseDups

theorem mem_removeAll_iff {x : String} {xs ys : List String} :
    x ∈ xs.removeAll ys ↔ x ∈ xs ∧ x ∉ ys := by
  simp [List.removeAll]

theorem mem_newNames {x : String} {issued refs : List String} :
    x ∈ newNames issued refs ↔ x ∈ refs ∧ x ∉ issued := by
  rw [newNames, List.mem_eraseDups, mem_removeAll_iff]

theorem newNames_eq_nil {issued refs : List String} (hold : ∀ x ∈ refs, x ∈ issued) :
    newNames issued refs = [] := by
  rw [newNames, List.eq_nil_iff_forall_not_mem]
  intro x hx
  rw [List.mem_eraseDups, mem_removeAll_iff] at hx
  exact hx.2 (hold x hx.1)

/-- Only membership in `issued` matters. -/
theorem newNames_congr {issued issued' : List String} (refs : List String)
    (hsame : ∀ x, x ∈ issued ↔ x ∈ issued') : newNames issued refs = newNames issued' refs := by
  unfold newNames List.removeAll
  congr 1
  apply List.filter_congr
  intro x _
  simp only [List.elem_eq_mem, hsame]

/-- The new names of two lists of references: those of the first, then those of the second that
neither `issued` nor the first had. -/
theorem newNames_append (issued refs refs' : List String) :
    newNames issued (refs ++ refs') =
      newNames issued refs ++ newNames (issued ++ newNames issued refs) refs' := by
  have hsecond : (refs'.removeAll issued).removeAll (refs.removeAll issued) =
      refs'.removeAll (issued ++ newNames issued refs) := by
    unfold List.removeAll
    rw [List.filter_filter]
    apply List.filter_congr
    intro x _
    have hnew := @mem_newNames x issued refs
    simp only [List.elem_eq_mem, List.mem_append, List.mem_filter, hnew] at *
    by_cases hissued : x ∈ issued <;> simp [hissued]
  have hsplit : (refs ++ refs').removeAll issued = refs.removeAll issued ++ refs'.removeAll issued := by
    unfold List.removeAll
    exact List.filter_append _ _
  unfold newNames
  rw [hsplit, List.eraseDups_append, hsecond]
  rfl

theorem newNames_append_of_subset {issued refs refs' : List String}
    (hsub : ∀ x ∈ refs', x ∈ refs) :
    newNames issued (refs ++ refs') = newNames issued refs := by
  have hnone : newNames (issued ++ newNames issued refs) refs' = [] := by
    apply newNames_eq_nil
    intro x hx
    rw [List.mem_append]
    by_cases hissued : x ∈ issued
    · exact Or.inl hissued
    · exact Or.inr (mem_newNames.mpr ⟨hsub x hx, hissued⟩)
  rw [newNames_append, hnone, List.append_nil]

/-- Removing duplicates from the front of a list and then the new names of the rest is removing
duplicates from the whole. -/
theorem eraseDups_append_newNames (front refs : List String) :
    (front ++ refs).eraseDups = front.eraseDups ++ newNames front.eraseDups refs := by
  rw [List.eraseDups_append, newNames_congr refs (fun x => List.mem_eraseDups)]
  rfl

theorem nodup_eraseDups (l : List String) : l.eraseDups.Nodup := by
  induction l using List.reverseRecOn with
  | nil => exact List.nodup_nil
  | append_singleton front x ih =>
    rw [List.eraseDups_append]
    by_cases hx : x ∈ front
    · have hnone : [x].removeAll front = [] := by
        simp [List.removeAll, hx]
      rw [hnone, List.eraseDups_nil, List.append_nil]
      exact ih
    · have hone : [x].removeAll front = [x] := by
        simp [List.removeAll, hx]
      rw [hone]
      refine List.nodup_append.mpr ⟨ih, List.nodup_singleton x, ?_⟩
      intro y hy z hz
      rw [List.eraseDups_cons, List.filter_nil, List.eraseDups_nil, List.mem_singleton] at hz
      rw [List.mem_eraseDups] at hy
      rintro rfl
      exact hx (hz ▸ hy)

end Discovery

namespace Registry

section Names

theorem toString_injective : Function.Injective (toString : Nat → String) := by
  intro n m h
  have hdigits : Nat.toDigits 10 n = Nat.toDigits 10 m := by
    have hchars := congrArg String.toList h
    simpa using hchars
  rw [← Nat.ofDigitChars_ten_toDigits (n := n), ← Nat.ofDigitChars_ten_toDigits (n := m), hdigits]

/-- Different numbers give different candidates: the suffixed ones differ in their digits, and the
name itself is shorter than all of them. -/
theorem candidate_injective (name : String) : Function.Injective (candidate name) := by
  intro n m h
  have hlen := congrArg (fun s => s.toList.length) h
  rcases Nat.eq_zero_or_pos n with rfl | hn <;> rcases Nat.eq_zero_or_pos m with rfl | hm
  · rfl
  · simp [candidate, Nat.pos_iff_ne_zero.mp hm] at hlen
  · simp [candidate, Nat.pos_iff_ne_zero.mp hn] at hlen
  · simp only [candidate, if_neg (Nat.pos_iff_ne_zero.mp hn),
      if_neg (Nat.pos_iff_ne_zero.mp hm)] at h
    have hsuffix : toString n = toString m := by
      have hchars := congrArg String.toList h
      simp only [String.toList_append, List.append_assoc] at hchars
      exact String.toList_inj.mp (List.append_cancel_left (List.append_cancel_left hchars))
    exact toString_injective hsuffix

/-- The search from `start` with `fuel` tries stops at the first free candidate, or after `fuel`
taken ones. -/
theorem firstFree_spec (taken : Std.TreeSet String compare) (name : String) (fuel start : Nat) :
    start ≤ firstFree taken name fuel start ∧ firstFree taken name fuel start ≤ start + fuel ∧
      (∀ k, start ≤ k → k < firstFree taken name fuel start →
        taken.contains (candidate name k) = true) ∧
      (firstFree taken name fuel start < start + fuel →
        taken.contains (candidate name (firstFree taken name fuel start)) = false) := by
  induction fuel generalizing start with
  | zero =>
    simp only [firstFree, Nat.add_zero]
    exact ⟨Nat.le_refl _, Nat.le_refl _, fun k hk hkn => absurd hkn (by omega),
      fun h => absurd h (Nat.lt_irrefl _)⟩
  | succ fuel ih =>
    by_cases htaken : taken.contains (candidate name start) = true
    · obtain ⟨hlow, hhigh, hbefore, hfree⟩ := ih (start + 1)
      rw [firstFree, if_pos htaken]
      refine ⟨by omega, by omega, fun k hk hkn => ?_, fun hn => hfree (by omega)⟩
      rcases Nat.eq_or_lt_of_le hk with rfl | hk
      · exact htaken
      · exact hbefore k hk hkn
    · rw [firstFree, if_neg htaken]
      exact ⟨Nat.le_refl _, by omega, fun k hk hkn => absurd hkn (by omega),
        fun _ => Bool.eq_false_iff.mpr htaken⟩

/-- The name search always ends on a free name: of `size + 1` distinct candidates, at most `size`
are taken. -/
theorem unique_fresh (r : Registry) (name : String) : r.names.contains (r.unique name) = false := by
  obtain ⟨hlow, hhigh, hbefore, hfree⟩ :=
    firstFree_spec r.names name (r.names.size + 1) (r.resume.getD name 0)
  simp only [unique, freeNumber]
  by_cases hlt : firstFree r.names name (r.names.size + 1) (r.resume.getD name 0) <
      r.resume.getD name 0 + (r.names.size + 1)
  · exact hfree hlt
  -- otherwise all `size + 1` candidates from the start are taken, which the set cannot hold
  exfalso
  let tried := (List.range (r.names.size + 1)).map fun i => candidate name (r.resume.getD name 0 + i)
  have hnodup : tried.Nodup :=
    (List.nodup_range).map fun i j h => by simpa using candidate_injective name h
  have hsub : tried ⊆ r.names.toList := by
    intro x hx
    obtain ⟨i, hi, rfl⟩ := List.mem_map.mp hx
    rw [Std.TreeSet.mem_toList, Std.TreeSet.mem_iff_contains]
    exact hbefore _ (by omega) (by simp at hi; omega)
  have hlen := List.Nodup.length_le_of_subset hnodup hsub
  simp only [tried, List.length_map, List.length_range, Std.TreeSet.length_toList] at hlen
  omega

/-- The first class of a registry gets the name asked for. -/
theorem unique_empty (name : String) : ({} : Registry).unique name = name := by
  simp [unique, freeNumber, firstFree, candidate]

end Names

section Queue

variable (r : Registry) (name : String) (node : Value) (context : Nat) (identity : Option Nat)

@[simp] theorem schedule_fst : (r.schedule name node context identity).1 = r.unique name := rfl

@[simp] theorem names_schedule :
    (r.schedule name node context identity).2.names = r.names.insert (r.unique name) := rfl

@[simp] theorem queue_schedule :
    (r.schedule name node context identity).2.queue =
      r.queue ++ [⟨r.unique name, node, context⟩] := by
  simp [schedule, queue, unique]

/-- A binding after queueing a class is an old one or names the new class. -/
theorem mem_bindings_schedule {p : Nat × String}
    (hp : p ∈ (r.schedule name node context identity).2.bindings) :
    p ∈ r.bindings ∨ p.2 = r.unique name := by
  cases identity with
  | none => exact Or.inl hp
  | some id =>
    rcases List.mem_cons.mp hp with rfl | hp
    · exact Or.inr rfl
    · exact Or.inl (List.mem_filter.mp hp).1

theorem mem_bindings_of_bound {id : Nat} {name : String} (hbound : r.bound id = some name) :
    (id, name) ∈ r.bindings := by
  obtain ⟨before, after, hsplit, _⟩ := List.lookup_eq_some_iff.mp hbound
  rw [hsplit]
  exact List.mem_append_right _ List.mem_cons_self

/-- Taking a class takes the one at the head of the queue. -/
@[simp] theorem next_fst : r.next.1 = r.queue.head? := by
  unfold next queue
  split
  · simp_all
  · split <;> simp_all

@[simp] theorem queue_next : r.next.2.queue = r.queue.tail := by
  unfold next queue
  split
  · simp_all
  · split <;> simp_all

@[simp] theorem names_next : r.next.2.names = r.names := by
  unfold next
  split
  · rfl
  · split <;> rfl

@[simp] theorem bindings_next : r.next.2.bindings = r.bindings := by
  unfold next
  split
  · rfl
  · split <;> rfl

end Queue

section Issued

/-- The names a registry has given out are `issued`, and every bound schema names one of them. -/
structure Issued (r : Registry) (issued : List String) : Prop where
  names_iff : ∀ x, r.names.contains x = true ↔ x ∈ issued
  bound_mem : ∀ p ∈ r.bindings, p.2 ∈ issued

/-- A step from `r` to `r'` whose result mentions the classes `refs` queues exactly the names of
`refs` not given out yet, each once, in the order they are first mentioned. -/
def Discovers (r r' : Registry) (refs : List String) : Prop :=
  ∀ issued, r.Issued issued →
    r'.Issued (issued ++ newNames issued refs) ∧
      r'.queue.map Pending.name = r.queue.map Pending.name ++ newNames issued refs

theorem Discovers.refl (r : Registry) : r.Discovers r [] := by
  intro issued hissued
  simp only [newNames, List.nil_removeAll, List.eraseDups_nil, List.append_nil]
  exact ⟨hissued, trivial⟩

/-- A reference to a class a schema is bound to queues nothing. -/
theorem Discovers.of_bound {r : Registry} {id : Nat} {name : String} (hbound : r.bound id = some name) :
    r.Discovers r [name] := by
  intro issued hissued
  have hmem : name ∈ issued := hissued.bound_mem _ (mem_bindings_of_bound r hbound)
  rw [newNames_eq_nil (by simpa using hmem), List.append_nil, List.append_nil]
  exact ⟨hissued, Eq.refl _⟩

/-- Queueing a class mentions its name, which is new. -/
theorem Discovers.schedule (r : Registry) (name : String) (node : Value) (context : Nat)
    (identity : Option Nat) :
    r.Discovers (r.schedule name node context identity).2 [r.unique name] := by
  intro issued hissued
  have hfresh : r.unique name ∉ issued := by
    rw [← hissued.names_iff, unique_fresh]
    exact Bool.false_ne_true
  have hnew : newNames issued [r.unique name] = [r.unique name] := by
    simp [newNames, List.removeAll, hfresh, List.eraseDups_cons]
  rw [hnew]
  refine ⟨⟨fun x => ?_, fun p hp => ?_⟩, by simp⟩
  · rw [names_schedule, Std.TreeSet.contains_insert, Bool.or_eq_true, hissued.names_iff,
      List.mem_append, List.mem_singleton, beq_iff_eq, Std.LawfulEqCmp.compare_eq_iff_eq, eq_comm]
    exact Or.comm
  · rcases mem_bindings_schedule r name node context identity hp with hold | hnewest
    · exact List.mem_append_left _ (hissued.bound_mem p hold)
    · exact List.mem_append_right _ (List.mem_singleton.mpr hnewest)

theorem Discovers.trans {r r' r'' : Registry} {refs refs' : List String}
    (hfirst : r.Discovers r' refs) (hsecond : r'.Discovers r'' refs') :
    r.Discovers r'' (refs ++ refs') := by
  intro issued hissued
  obtain ⟨hissued', hqueue'⟩ := hfirst issued hissued
  obtain ⟨hissued'', hqueue''⟩ := hsecond _ hissued'
  rw [newNames_append, ← List.append_assoc]
  exact ⟨hissued'', by rw [hqueue'', hqueue', List.append_assoc]⟩

/-- Mentioning again what a step already mentioned changes nothing. -/
theorem Discovers.append_of_subset {r r' : Registry} {refs refs' : List String}
    (hstep : r.Discovers r' refs) (hsub : ∀ x ∈ refs', x ∈ refs) :
    r.Discovers r' (refs ++ refs') := by
  intro issued hissued
  rw [newNames_append_of_subset hsub]
  exact hstep issued hissued

end Issued

end Registry

end SchemaModel

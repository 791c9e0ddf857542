import SchemaModel.Proofs.Steps
import Mathlib.Data.List.Nodup
import Mathlib.Tactic.SplitIfs
/-!
# The store keeps one number per reference

A store reached by any sequence of `root` and `create` calls, failed ones included, is coherent:
its schemas have distinct references, so `lookup` and the numbering are inverse to each other;
each schema holds the node its reference designates in the source; a schema's parent was reached
before it; and the document cache holds each document once, as the source gives it, and only
grows. `create` itself forms the key of a reference text (the document named before the first
`#`, or the parent's own, and the decoded segments after it), returns the number of a key already
held without touching the store, and otherwise appends exactly one schema or fails with the
schemas unchanged.

The operations are read through one case lemma each (`load_cases`, `intern_cases`,
`create_eq`), and coherence (`Consistent`) is shown preserved by each of them; the claim about
every reachable store is then an induction over `Reachable`.
-/

namespace SchemaModel

namespace Store

/-! ### What each operation does -/

theorem load_cases (s : Store) (d : String) :
    (∃ v, s.documents.lookup d = some v ∧ (load d).run.run s = (.ok v, s)) ∨
    (s.documents.lookup d = none ∧ ∃ v, s.source.fetch d = .ok v ∧
      (load d).run.run s = (.ok v, { s with documents := s.documents ++ [(d, v)] })) ∨
    (s.documents.lookup d = none ∧ ∃ e, s.source.fetch d = .error e ∧
      (load d).run.run s = (.error e, s)) := by
  rcases hcache : s.documents.lookup d with _ | v
  · rcases hfetch : s.source.fetch d with e | v
    · refine .inr (.inr ⟨rfl, e, rfl, ?_⟩)
      simp only [load, run_bind, run_get, hcache, run_ofExcept, hfetch]
    · refine .inr (.inl ⟨rfl, v, rfl, ?_⟩)
      simp only [load, run_bind, run_get, hcache, run_ofExcept, hfetch, run_modify, run_pure]
  · exact .inl ⟨v, rfl, by simp only [load, run_bind, run_get, hcache, run_pure]⟩

/-- Loading changes the document cache and nothing else. -/
theorem load_frame (s : Store) (d : String) :
    ∃ docs, ((load d).run.run s).2 = { s with documents := docs } := by
  rcases load_cases s d with ⟨_, _, hrun⟩ | ⟨_, v, _, hrun⟩ | ⟨_, _, _, hrun⟩ <;> rw [hrun]
  · exact ⟨s.documents, rfl⟩
  · exact ⟨s.documents ++ [(d, v)], rfl⟩
  · exact ⟨s.documents, rfl⟩

theorem intern_cases (s : Store) (r : Reference) (parent : Option Nat) :
    (∃ i, s.lookup r = some i ∧ (intern r parent).run.run s = (.ok i, s)) ∨
    (s.lookup r = none ∧ ∃ tree s₁, (load r.document).run.run s = (.ok tree, s₁) ∧
      ((∃ content, Pointer.walk tree r.fragment = .ok content ∧
          (intern r parent).run.run s =
            (.ok s₁.size, { s₁ with schemas := s₁.schemas ++ [⟨r, content, parent⟩] })) ∨
        (∃ e, Pointer.walk tree r.fragment = .error e ∧
          (intern r parent).run.run s = (.error e, s₁)))) ∨
    (s.lookup r = none ∧ ∃ e s₁, (load r.document).run.run s = (.error e, s₁) ∧
      (intern r parent).run.run s = (.error e, s₁)) := by
  rcases hlookup : s.lookup r with _ | i
  · rcases hload : (load r.document).run.run s with ⟨_ | tree, s₁⟩
    · refine .inr (.inr ⟨rfl, _, s₁, rfl, ?_⟩)
      simp only [intern, run_bind, run_get, hlookup, hload]
    · refine .inr (.inl ⟨rfl, tree, s₁, rfl, ?_⟩)
      rcases hwalk : Pointer.walk tree r.fragment with e | content
      · refine .inr ⟨e, rfl, ?_⟩
        simp only [intern, run_bind, run_get, hlookup, hload, run_ofExcept, hwalk]
      · refine .inl ⟨content, rfl, ?_⟩
        simp only [intern, run_bind, run_get, hlookup, hload, run_ofExcept, hwalk, run_modify,
          run_pure]
  · exact .inl ⟨i, rfl, by simp only [intern, run_bind, run_get, hlookup, run_pure]⟩

/-- The reference a reference text designates when read in the schema `parent`: the document
named before the first `#` (the parent's own when nothing is named there), and the decoded
segments of the rest. -/
def keyOf (s : Store) (parent : Nat) (ref : String) : Except ResolutionError Reference :=
  let locator := String.ofList (ref.toList.takeWhile (· ≠ '#'))
  let base := ((s.get? parent).map (·.reference.document)).getD ""
  (Pointer.segments s.encoding s.policy (String.ofList (ref.toList.dropWhile (· ≠ '#')))).map
    fun segs => ⟨if locator.isEmpty then base else Document.join base locator, segs⟩

theorem create_eq (s : Store) (parent : Nat) (ref : String) :
    (create parent ref).run.run s =
      match keyOf s parent ref with
      | .ok key => (intern key (some parent)).run.run s
      | .error e => (.error e, s) := by
  rcases hsegs : Pointer.segments s.encoding s.policy
    (String.ofList (ref.toList.dropWhile (· ≠ '#'))) with e | segs
  · simp only [create, splitRef, keyOf, run_bind, run_get, run_ofExcept, hsegs]
    rfl
  · simp only [create, splitRef, keyOf, run_bind, run_get, run_ofExcept, hsegs]
    rfl

/-! ### Lookup -/

/-- A lookup names a schema with the reference looked up, and the first such. -/
theorem lookup_eq_some {s : Store} {r : Reference} {i : Nat} (h : s.lookup r = some i) :
    ∃ sc, s.get? i = some sc ∧ sc.reference = r := by
  obtain ⟨hi, hfound, -⟩ := List.findIdx?_eq_some_iff_getElem.mp h
  exact ⟨s.schemas[i], List.getElem?_eq_getElem hi, by simpa using hfound⟩

theorem lookup_eq_none {s : Store} {r : Reference} :
    s.lookup r = none ↔ r ∉ s.schemas.map (·.reference) := by
  simp [lookup, List.findIdx?_eq_none_iff]

theorem lookup_push (s : Store) (sc : Schema) (r : Reference) :
    ({ s with schemas := s.schemas ++ [sc] } : Store).lookup r =
      (s.lookup r).or (if sc.reference = r then some s.size else none) := by
  simp only [lookup, List.findIdx?_append, size]
  by_cases hr : sc.reference = r <;> simp [hr]

/-- With distinct references, each schema is found again under its own reference. -/
theorem lookup_get_of_nodup {s : Store} (hnodup : (s.schemas.map (·.reference)).Nodup)
    {i : Nat} {sc : Schema} (h : s.get? i = some sc) : s.lookup sc.reference = some i := by
  obtain ⟨hi, rfl⟩ := List.getElem?_eq_some_iff.mp h
  refine List.findIdx?_eq_some_iff_getElem.mpr ⟨hi, by simp, fun j hj heq => ?_⟩
  -- an earlier schema with the same reference would repeat it in the list of references
  have hj' : j < (s.schemas.map (·.reference)).length := by simp; omega
  have hi' : i < (s.schemas.map (·.reference)).length := by simpa using hi
  have hsame : (s.schemas.map (·.reference))[j] = (s.schemas.map (·.reference))[i] := by
    simpa using heq
  have := (List.Nodup.getElem_inj_iff hnodup).mp hsame
  omega

/-! ### Coherence -/

/-- What every reachable store keeps: distinct references, contents read from the source, parents
reached first, and a cache holding each document once, as the source gives it. -/
structure Consistent (s : Store) : Prop where
  references_nodup : (s.schemas.map (·.reference)).Nodup
  content_walk : ∀ sc ∈ s.schemas, ∃ tree, s.source.fetch sc.reference.document = .ok tree ∧
    Pointer.walk tree sc.reference.fragment = .ok sc.content
  parent_lt : ∀ i sc p, s.get? i = some sc → sc.parent = some p → p < i
  documents_nodup : (s.documents.map Prod.fst).Nodup
  documents_fetched : ∀ d v, (d, v) ∈ s.documents → s.source.fetch d = .ok v

theorem Consistent.empty (src : Source) (enc : Encoding) (policy : DecodePolicy) :
    Consistent (Store.empty src enc policy) where
  references_nodup := List.nodup_nil
  content_walk := by simp [Store.empty]
  parent_lt := by simp [Store.empty, get?]
  documents_nodup := List.nodup_nil
  documents_fetched := by simp [Store.empty]

/-- Caching a document the source gives, under a name not cached yet, keeps coherence. -/
theorem Consistent.cache {s : Store} (hs : Consistent s) {d : String} {v : Value}
    (hnew : s.documents.lookup d = none) (hfetch : s.source.fetch d = .ok v) :
    Consistent { s with documents := s.documents ++ [(d, v)] } where
  references_nodup := hs.references_nodup
  content_walk := hs.content_walk
  parent_lt := hs.parent_lt
  documents_nodup := by
    have hfresh : ∀ d' w, (d', w) ∈ s.documents → d' ≠ d := by
      intro d' w hmem heq
      have := List.lookup_eq_none_iff.mp hnew (d', w) hmem
      simp [heq] at this
    simpa [List.nodup_append] using ⟨hs.documents_nodup, hfresh⟩
  documents_fetched := by
    intro d' v' hmem
    rcases List.mem_append.mp hmem with hmem | hmem
    · exact hs.documents_fetched d' v' hmem
    · obtain ⟨rfl, rfl⟩ := by simpa using hmem
      exact hfetch

/-- Appending a schema for a new reference, with the node it designates and a parent already held,
keeps coherence. -/
theorem Consistent.push {s : Store} (hs : Consistent s) {r : Reference} {tree content : Value}
    {parent : Option Nat} (hnew : s.lookup r = none)
    (hfetch : s.source.fetch r.document = .ok tree)
    (hwalk : Pointer.walk tree r.fragment = .ok content)
    (hparent : ∀ p, parent = some p → p < s.size) :
    Consistent { s with schemas := s.schemas ++ [⟨r, content, parent⟩] } where
  references_nodup := by
    have hfresh : ∀ sc ∈ s.schemas, sc.reference ≠ r := by
      intro sc hmem heq
      exact lookup_eq_none.mp hnew (List.mem_map.mpr ⟨sc, hmem, heq⟩)
    simpa [List.nodup_append] using ⟨hs.references_nodup, hfresh⟩
  content_walk := by
    intro sc hmem
    rcases List.mem_append.mp hmem with hmem | hmem
    · exact hs.content_walk sc hmem
    · obtain rfl := List.mem_singleton.mp hmem
      exact ⟨tree, hfetch, hwalk⟩
  parent_lt := by
    intro i sc p hget hp
    rcases Nat.lt_or_ge i s.size with hi | hi
    · have hold : s.get? i = some sc := by
        simpa [get?, List.getElem?_append_left hi] using hget
      exact hs.parent_lt i sc p hold hp
    · -- the new schema is the last one, numbered `s.size`
      simp only [get?, size] at hget hi
      rw [List.getElem?_append_right hi, List.getElem?_singleton] at hget
      split_ifs at hget with hlast
      obtain rfl := Option.some.inj hget
      have hsize : i = s.size := by simp only [size]; omega
      exact hsize ▸ hparent p hp
  documents_nodup := hs.documents_nodup
  documents_fetched := hs.documents_fetched

theorem Consistent.load {s : Store} (hs : Consistent s) (d : String) :
    Consistent ((load d).run.run s).2 ∧
      ∀ tree, ((load d).run.run s).1 = .ok tree → s.source.fetch d = .ok tree := by
  rcases load_cases s d with ⟨v, hcache, hrun⟩ | ⟨hnew, v, hfetch, hrun⟩ | ⟨_, e, _, hrun⟩ <;>
    rw [hrun]
  · refine ⟨hs, fun tree htree => ?_⟩
    obtain rfl := Except.ok.inj htree
    obtain ⟨before, after, hdocs, -⟩ := List.lookup_eq_some_iff.mp hcache
    exact hs.documents_fetched d v (by simp [hdocs])
  · refine ⟨hs.cache hnew hfetch, fun tree htree => ?_⟩
    obtain rfl := Except.ok.inj htree
    exact hfetch
  · exact ⟨hs, fun tree htree => by cases htree⟩

theorem Consistent.intern {s : Store} (hs : Consistent s) (r : Reference) {parent : Option Nat}
    (hparent : ∀ p, parent = some p → p < s.size) :
    Consistent ((intern r parent).run.run s).2 := by
  rcases intern_cases s r parent with ⟨i, -, hrun⟩ | ⟨hnew, tree, s₁, hload, hrest⟩ |
      ⟨-, e, s₁, hload, hrun⟩
  · rw [hrun]; exact hs
  · obtain ⟨hs₁, hfetch⟩ := hs.load r.document
    obtain ⟨docs, hframe⟩ := load_frame s r.document
    rw [hload] at hs₁ hfetch hframe
    -- loading keeps the schemas and the source, so the key is still new in `s₁`
    subst hframe
    rcases hrest with ⟨content, hwalk, hrun⟩ | ⟨e, -, hrun⟩ <;> rw [hrun]
    · exact hs₁.push hnew (hfetch tree rfl) hwalk hparent
    · exact hs₁
  · obtain ⟨hs₁, -⟩ := hs.load r.document
    rw [hload] at hs₁
    rw [hrun]; exact hs₁

/-! ### Frames -/

theorem load_documents (s : Store) (d : String) :
    ((load d).run.run s).2.documents = s.documents ∨
      (s.documents.lookup d = none ∧ ∃ v, s.source.fetch d = .ok v ∧
        ((load d).run.run s).2.documents = s.documents ++ [(d, v)]) := by
  rcases load_cases s d with ⟨_, _, hrun⟩ | ⟨hnew, v, hfetch, hrun⟩ | ⟨_, _, _, hrun⟩ <;>
    rw [hrun]
  · exact .inl rfl
  · exact .inr ⟨hnew, v, hfetch, rfl⟩
  · exact .inl rfl

theorem intern_source (s : Store) (r : Reference) (parent : Option Nat) :
    ((intern r parent).run.run s).2.source = s.source := by
  obtain ⟨docs, hframe⟩ := load_frame s r.document
  rcases intern_cases s r parent with ⟨_, _, hrun⟩ | ⟨_, tree, s₁, hload, hrest⟩ |
      ⟨_, _, s₁, hload, hrun⟩
  · rw [hrun]
  · rw [hload] at hframe
    subst hframe
    rcases hrest with ⟨_, _, hrun⟩ | ⟨_, _, hrun⟩ <;> rw [hrun]
  · rw [hload] at hframe
    subst hframe
    rw [hrun]

theorem create_source (s : Store) (parent : Nat) (ref : String) :
    ((create parent ref).run.run s).2.source = s.source := by
  rw [create_eq]
  rcases keyOf s parent ref with _ | key
  · rfl
  · exact intern_source s key (some parent)

/-! ### `create` -/

/-- What a `create` call does to a store. It fails without touching the store when the key cannot
be formed. Otherwise it returns the number of a key already held and changes nothing, or appends
exactly one schema for the key, or fails with the schemas unchanged; the cache gains at most the
key's document, and only when the source gives it. -/
def CreateOutcome (s : Store) (parent : Nat) (ref : String) :
    Except ResolutionError Nat × Store → Prop
  | (res, s') =>
    match keyOf s parent ref with
    | .error e => res = .error e ∧ s' = s
    | .ok key =>
      (s'.documents = s.documents ∨
        s.documents.lookup key.document = none ∧ ∃ v, s.source.fetch key.document = .ok v ∧
          s'.documents = s.documents ++ [(key.document, v)]) ∧
      match s.lookup key with
      | some i => res = .ok i ∧ s' = s
      | none =>
        (res = .ok s.size ∧ ∃ content, s'.schemas = s.schemas ++ [⟨key, content, some parent⟩]) ∨
          (∃ e, res = .error e ∧ s'.schemas = s.schemas)

theorem create_outcome (s : Store) (parent : Nat) (ref : String) :
    CreateOutcome s parent ref ((create parent ref).run.run s) := by
  rw [create_eq]
  rcases hkey : keyOf s parent ref with e | key
  · simp only [CreateOutcome, hkey, and_self]
  simp only [CreateOutcome, hkey]
  obtain ⟨docs, hframe⟩ := load_frame s key.document
  have hdocs := load_documents s key.document
  rcases intern_cases s key (some parent) with ⟨i, hlookup, hrun⟩ | ⟨hnew, tree, s₁, hload, hrest⟩ |
      ⟨hnew, e, s₁, hload, hrun⟩
  · simp [hrun, hlookup]
  · rw [hload] at hframe hdocs
    subst hframe
    -- loading kept the schemas, so the number given is the old size
    rcases hrest with ⟨content, -, hrun⟩ | ⟨e, -, hrun⟩ <;> rw [hrun, hnew]
    · exact ⟨hdocs, .inl ⟨rfl, content, rfl⟩⟩
    · exact ⟨hdocs, .inr ⟨e, rfl, rfl⟩⟩
  · rw [hload] at hframe hdocs
    subst hframe
    rw [hrun, hnew]
    exact ⟨hdocs, .inr ⟨e, rfl, rfl⟩⟩

/-! ### Every reachable store -/

/-- The stores reachable from the empty store over a source by `root` and `create` calls, failed
calls included; each `create` reads a reference inside a schema the store holds. -/
inductive Reachable (src : Source) (enc : Encoding) (policy : DecodePolicy) : Store → Prop
  | empty : Reachable src enc policy (Store.empty src enc policy)
  | root {s : Store} (doc : String) :
      Reachable src enc policy s → Reachable src enc policy ((root doc).run.run s).2
  | create {s : Store} {parent : Nat} (ref : String) :
      Reachable src enc policy s → parent < s.size →
        Reachable src enc policy ((create parent ref).run.run s).2

theorem Reachable.consistent {src : Source} {enc : Encoding} {policy : DecodePolicy} {s : Store}
    (h : Reachable src enc policy s) : Consistent s ∧ s.source = src := by
  induction h with
  | empty => exact ⟨Consistent.empty src enc policy, rfl⟩
  | root doc _ ih =>
    refine ⟨ih.1.intern _ (fun p hp => by cases hp), ?_⟩
    rw [Store.root, intern_source, ih.2]
  | @create s parent ref _ hparent ih =>
    refine ⟨?_, by rw [create_source, ih.2]⟩
    rw [create_eq]
    rcases keyOf s parent ref with _ | key
    · exact ih.1
    · exact ih.1.intern key (fun p hp => by cases hp; exact hparent)

/-- Every store reached by `root` and `create` calls is coherent. Lookup and the numbering are
inverse to each other, each schema holds the node its reference designates in the source, a
parent is numbered before its child, and the document cache holds each document once, as the
source gives it. A further `create` returns the number of its key when the key is held and
leaves the store as it is, appends exactly one schema when the key is new, and otherwise fails
with the schemas unchanged. -/
theorem reachable_store_coherent {src : Source} {enc : Encoding} {policy : DecodePolicy}
    {s : Store} (h : Reachable src enc policy s) :
    (∀ i sc, s.get? i = some sc → s.lookup sc.reference = some i) ∧
    (∀ r i, s.lookup r = some i → ∃ sc, s.get? i = some sc ∧ sc.reference = r) ∧
    (∀ i sc, s.get? i = some sc → ∃ tree, src.fetch sc.reference.document = .ok tree ∧
      Pointer.walk tree sc.reference.fragment = .ok sc.content) ∧
    (∀ i sc p, s.get? i = some sc → sc.parent = some p → p < i) ∧
    (s.documents.map Prod.fst).Nodup ∧ (∀ d v, (d, v) ∈ s.documents → src.fetch d = .ok v) ∧
    ∀ parent ref, CreateOutcome s parent ref ((create parent ref).run.run s) := by
  obtain ⟨hs, hsource⟩ := h.consistent
  subst hsource
  refine ⟨fun i sc hget => lookup_get_of_nodup hs.references_nodup hget,
    fun r i hlookup => lookup_eq_some hlookup, fun i sc hget => ?_, hs.parent_lt,
    hs.documents_nodup, hs.documents_fetched, create_outcome s⟩
  exact hs.content_walk sc (List.mem_of_getElem? hget)

/-- A root and one reference into it, read from a document of two definitions. -/
theorem root_then_definition_coherent :
    let src := Source.ofDocuments [("main.json", .object [("definitions",
      .object [("a", .object [("type", .string "string")]), ("b", .array [.null])])])]
    let s := ((create 0 "#/definitions/a").run.run
      ((root "main.json").run.run (Store.empty src .utf8 .lenient)).2).2
    Reachable src .utf8 .lenient s ∧
    ((∀ i sc, s.get? i = some sc → s.lookup sc.reference = some i) ∧
    (∀ r i, s.lookup r = some i → ∃ sc, s.get? i = some sc ∧ sc.reference = r) ∧
    (∀ i sc, s.get? i = some sc → ∃ tree, src.fetch sc.reference.document = .ok tree ∧
      Pointer.walk tree sc.reference.fragment = .ok sc.content) ∧
    (∀ i sc p, s.get? i = some sc → sc.parent = some p → p < i) ∧
    (s.documents.map Prod.fst).Nodup ∧ (∀ d v, (d, v) ∈ s.documents → src.fetch d = .ok v) ∧
    ∀ parent ref, CreateOutcome s parent ref ((create parent ref).run.run s)) := by
  intro src s
  have hreach : Reachable src .utf8 .lenient s :=
    .create _ (.root _ .empty) (by decide)
  exact ⟨hreach, reachable_store_coherent hreach⟩

end Store

end SchemaModel

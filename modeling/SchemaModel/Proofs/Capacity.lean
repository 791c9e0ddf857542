import SchemaModel.Proofs.RefChains
import Mathlib
/-!
# What binding the schemas of a source can cost

A compilation binds each schema that becomes a class at most once, and queues its content when it
binds it. The potential of a session (`Session.potential`) adds the sizes of the nodes waiting to
what binding the rest of the keys of the source could still cost: the sizes of the nodes those keys
designate (`Source.capacity`), less the sizes of the contents already bound. Binding a schema moves
its size from the second part to the first, queueing an inline class raises the first part by the
size of its node, and taking a class lowers it by the size of the node taken.

A compilation starts at the capacity of its source, which is below `2 ^ size`, the budget
`compileDocument` gives: each document counts once under its root key and at most once more for
each reference text, and a reference text's path designates a node strictly inside the document,
so the capacity is at most `S + (S - 1) ^ 2` for a source of `S` values, of which at most `S - 1`
are reference texts.
-/

namespace SchemaModel

namespace Value

theorem size_lt_of_step {node child : Value} {segment : String}
    (h : Pointer.step node segment = .ok child) : child.size < node.size := by
  unfold Pointer.step at h
  split at h
  · split at h
    · split at h
      · cases h
        have hitem := size_le_sizeItems (List.mem_of_getElem? (by assumption))
        simp only [size]
        omega
      · cases h
    · cases h
  · split at h
    · cases h
      have hfield := size_le_sizeFields (mem_of_lookup (by assumption))
      simp only [size]
      omega
    · cases h
  · cases h

/-- A path of at least one segment leads strictly inside the tree. -/
theorem size_lt_of_walk_cons {tree node : Value} {segment : String} {rest : List String}
    (h : Pointer.walk tree (segment :: rest) = .ok node) : node.size < tree.size := by
  unfold Pointer.walk at h
  split at h
  · rename_i child hstep
    exact Nat.lt_of_le_of_lt (within_of_walk h).size_le (size_lt_of_step hstep)
  · cases h

mutual

theorem textCount_le_size : ∀ v : Value, v.textCount ≤ v.size
  | .null | .bool _ | .number _ | .string _ => by simp [textCount, size]
  | .array items => by
    have hitems := textCountItems_le_sizeItems items
    simp only [textCount, size]
    omega
  | .object fields => by
    have hfields := textCountFields_le_sizeFields fields
    simp only [textCount, size]
    omega

theorem textCountItems_le_sizeItems :
    ∀ items : List Value, textCountItems items ≤ sizeItems items
  | [] => Nat.le_refl 0
  | v :: rest => by
    have hv := textCount_le_size v
    have hrest := textCountItems_le_sizeItems rest
    simp only [textCountItems, sizeItems]
    omega

theorem textCountFields_le_sizeFields :
    ∀ fields : List (String × Value), textCountFields fields ≤ sizeFields fields
  | [] => Nat.le_refl 0
  | (_, v) :: rest => by
    have hv := textCount_le_size v
    have hrest := textCountFields_le_sizeFields rest
    simp only [textCountFields, sizeFields]
    omega

end

/-- A tree holds fewer reference texts than values: each text is a string inside an object. -/
theorem length_refTexts_lt_size (v : Value) : v.refTexts.length < v.size := by
  cases v with
  | array items =>
    have hitems := length_refTextsItems_le items
    have hcount := textCountItems_le_sizeItems items
    simp only [refTexts, size]
    omega
  | object fields =>
    have hfields := length_refTextsFields_le fields
    have hcount := textCountFields_le_sizeFields fields
    simp only [refTexts, size]
    omega
  | _ => simp [refTexts, size]

end Value

namespace Source

/-- The size of the node a key designates in the source, and zero where it designates none. -/
def keyWeight (src : Source) (key : Reference) : Nat :=
  match src.fetch key.document with
  | .ok tree =>
    match Pointer.walk tree key.fragment with
    | .ok node => node.size
    | .error _ => 0
  | .error _ => 0

/-- What binding every key of the source could cost: the sizes of the nodes they designate, each
key once. -/
def capacity (src : Source) (enc : Encoding) (policy : DecodePolicy) : Nat :=
  ∑ key ∈ (src.keys enc policy).toFinset, src.keyWeight key

/-- The size of a document of the source, and zero for a name it gives no tree for. -/
def docSize (src : Source) (doc : String) : Nat := src.keyWeight ⟨doc, []⟩

theorem keyWeight_of_walk {src : Source} {key : Reference} {tree node : Value}
    (hfetch : src.fetch key.document = .ok tree) (hwalk : Pointer.walk tree key.fragment = .ok node) :
    src.keyWeight key = node.size := by
  simp only [keyWeight, hfetch, hwalk]

/-- A key with a path designates a node strictly inside its document. -/
theorem keyWeight_le_docSize_sub_one (src : Source) (doc : String) {fragment : List String}
    (hne : fragment ≠ []) : src.keyWeight ⟨doc, fragment⟩ ≤ src.docSize doc - 1 := by
  obtain ⟨segment, rest, rfl⟩ := List.exists_cons_of_ne_nil hne
  unfold docSize keyWeight
  dsimp only
  split
  · rename_i tree _
    split
    · rename_i node hwalk
      have hlt := Value.size_lt_of_walk_cons hwalk
      simp only [Pointer.walk]
      omega
    · exact Nat.zero_le _
  · exact Nat.zero_le _

theorem fetch_cons (entry : String × Except ResolutionError Value)
    (rest : List (String × Except ResolutionError Value)) (doc : String) :
    (Source.mk (entry :: rest)).fetch doc = if doc = entry.1 then entry.2 else (Source.mk rest).fetch doc := by
  obtain ⟨name, result⟩ := entry
  by_cases h : doc = name
  · simp [fetch, h]
  · have hne : (doc == name) = false := by simpa using h
    simp only [fetch, List.lookup_cons, hne, if_neg h]

/-- Each document counts once, with the tree the source gives first for its name: the sizes of
the documents add up to at most the size of the source. -/
theorem sum_docSize_le (entries : List (String × Except ResolutionError Value)) :
    ∑ doc ∈ (entries.map Prod.fst).toFinset, (Source.mk entries).docSize doc ≤
      Value.sizeItems (Source.mk entries).trees := by
  induction entries with
  | nil => simp
  | cons entry rest ih =>
    -- the first entry's name has the first entry's tree; every other name is read in the rest
    have hfirst : (Source.mk (entry :: rest)).docSize entry.1 =
        match entry.2 with
        | .ok tree => tree.size
        | .error _ => 0 := by
      unfold docSize keyWeight
      rw [fetch_cons, if_pos rfl]
      cases entry.2 <;> rfl
    have hrest : ∀ doc ≠ entry.1, (Source.mk (entry :: rest)).docSize doc =
        (Source.mk rest).docSize doc := by
      intro doc hdoc
      unfold docSize keyWeight
      rw [fetch_cons, if_neg hdoc]
    have htrees : Value.sizeItems (Source.mk (entry :: rest)).trees =
        (match entry.2 with
          | .ok tree => tree.size
          | .error _ => 0) + Value.sizeItems (Source.mk rest).trees := by
      obtain ⟨name, result⟩ := entry
      cases result <;> simp [trees, Value.sizeItems]
    have hsplit := Finset.add_sum_erase ((entry :: rest).map Prod.fst).toFinset
      (Source.mk (entry :: rest)).docSize
      (show entry.1 ∈ ((entry :: rest).map Prod.fst).toFinset by simp)
    have herase : ∑ doc ∈ (((entry :: rest).map Prod.fst).toFinset.erase entry.1),
        (Source.mk (entry :: rest)).docSize doc ≤
          ∑ doc ∈ (rest.map Prod.fst).toFinset, (Source.mk rest).docSize doc := by
      calc ∑ doc ∈ (((entry :: rest).map Prod.fst).toFinset.erase entry.1),
            (Source.mk (entry :: rest)).docSize doc
          = ∑ doc ∈ (((entry :: rest).map Prod.fst).toFinset.erase entry.1),
            (Source.mk rest).docSize doc :=
            Finset.sum_congr rfl fun doc hdoc => hrest doc (Finset.ne_of_mem_erase hdoc)
        _ ≤ ∑ doc ∈ (rest.map Prod.fst).toFinset, (Source.mk rest).docSize doc := by
            apply Finset.sum_le_sum_of_subset
            intro doc hdoc
            obtain ⟨hne, hmem⟩ := Finset.mem_erase.mp hdoc
            simp only [List.map_cons, List.toFinset_cons, Finset.mem_insert] at hmem
            exact hmem.resolve_left hne
    omega

/-- A tree's values are fewer than its reference texts plus one, so the texts of a source are
fewer than its values, unless it has none. -/
theorem length_refTexts_add_length_trees_le (trees : List Value) :
    (trees.flatMap Value.refTexts).length + trees.length ≤ Value.sizeItems trees := by
  induction trees with
  | nil => simp
  | cons tree rest ih =>
    have htree := Value.length_refTexts_lt_size tree
    simp only [List.flatMap_cons, List.length_append, List.length_cons, Value.sizeItems]
    omega

theorem sum_sub_one_le (s : Finset String) (f : String → Nat) :
    ∑ x ∈ s, (f x - 1) ≤ (∑ x ∈ s, f x) - 1 := by
  induction s using Finset.induction_on with
  | empty => simp
  | insert x s hx ih =>
    rw [Finset.sum_insert hx, Finset.sum_insert hx]
    omega

theorem add_sq_lt_two_pow (n : Nat) : n + (n - 1) * (n - 1) < 2 ^ n := by
  induction n with
  | zero => decide
  | succ n ih =>
    rcases Nat.lt_or_ge n 3 with hsmall | hlarge
    · interval_cases n <;> decide
    · rw [Nat.pow_succ]
      have hstep : (n + 1) + n * n ≤ 2 * (n + (n - 1) * (n - 1)) := by
        obtain ⟨k, rfl⟩ : ∃ k, n = k + 1 := ⟨n - 1, by omega⟩
        simp only [Nat.add_sub_cancel]
        nlinarith
      simp only [Nat.add_sub_cancel]
      omega

/-- The keys of a source are its documents with the empty path, or with the path of one of its
reference texts; the ones with a path designate nodes strictly inside their documents. -/
theorem capacity_le (src : Source) (enc : Encoding) (policy : DecodePolicy) :
    src.capacity enc policy ≤
      ∑ doc ∈ (src.entries.map Prod.fst).toFinset,
        (src.docSize doc + src.refTexts.length * (src.docSize doc - 1)) := by
  let paths := (src.refTexts.filterMap fun t =>
    (Pointer.segments enc policy (Store.splitRef t).2).toOption).toFinset.filter (· ≠ [])
  -- the keys of one document: its root, and the paths of the reference texts
  let around (doc : String) : Finset Reference :=
    insert ⟨doc, []⟩ (paths.image (Reference.mk doc))
  have hdocument : ∀ doc key, key ∈ around doc → key.document = doc := by
    intro doc key hkey
    simp only [around, Finset.mem_insert, Finset.mem_image] at hkey
    rcases hkey with rfl | ⟨path, -, rfl⟩ <;> rfl
  have hsub : (src.keys enc policy).toFinset ⊆ (src.entries.map Prod.fst).toFinset.biUnion around := by
    intro key hkey
    simp only [List.mem_toFinset, keys, List.mem_flatMap, List.mem_cons, List.mem_filterMap,
      Option.map_eq_some_iff] at hkey
    obtain ⟨entry, hentry, rfl | ⟨t, ht, segs, hsegs, rfl⟩⟩ := hkey
    · exact Finset.mem_biUnion.mpr ⟨entry.1, List.mem_toFinset.mpr (List.mem_map_of_mem hentry),
        Finset.mem_insert_self _ _⟩
    refine Finset.mem_biUnion.mpr ⟨entry.1, List.mem_toFinset.mpr (List.mem_map_of_mem hentry), ?_⟩
    by_cases hnil : segs = []
    · subst hnil
      exact Finset.mem_insert_self _ _
    · refine Finset.mem_insert_of_mem (Finset.mem_image.mpr ⟨segs, ?_, rfl⟩)
      simp only [paths, Finset.mem_filter, List.mem_toFinset, List.mem_filterMap]
      exact ⟨⟨t, ht, hsegs⟩, hnil⟩
  have hdisjoint : Set.PairwiseDisjoint ↑(src.entries.map Prod.fst).toFinset around := by
    intro doc _ doc' _ hne
    exact Finset.disjoint_left.mpr fun key hkey hkey' =>
      hne ((hdocument doc key hkey).symm.trans (hdocument doc' key hkey'))
  have hpaths : paths.card ≤ src.refTexts.length :=
    (Finset.card_filter_le _ _).trans
      ((List.toFinset_card_le _).trans (List.length_filterMap_le _ _))
  have haround : ∀ doc, ∑ key ∈ around doc, src.keyWeight key ≤
      src.docSize doc + src.refTexts.length * (src.docSize doc - 1) := by
    intro doc
    have hroot : (⟨doc, []⟩ : Reference) ∉ paths.image (Reference.mk doc) := by
      simp [paths]
    have hpathed : ∑ path ∈ paths, src.keyWeight ⟨doc, path⟩ ≤ paths.card * (src.docSize doc - 1) :=
      calc ∑ path ∈ paths, src.keyWeight ⟨doc, path⟩
          ≤ ∑ _path ∈ paths, (src.docSize doc - 1) := Finset.sum_le_sum fun path hpath =>
            keyWeight_le_docSize_sub_one src doc (Finset.mem_filter.mp hpath).2
        _ = paths.card * (src.docSize doc - 1) := by rw [Finset.sum_const, smul_eq_mul]
    have hmul := Nat.mul_le_mul_right (src.docSize doc - 1) hpaths
    rw [Finset.sum_insert hroot, Finset.sum_image fun a _ b _ h => (Reference.mk.inj h).2]
    change src.docSize doc + _ ≤ _
    omega
  calc src.capacity enc policy
      ≤ ∑ key ∈ (src.entries.map Prod.fst).toFinset.biUnion around, src.keyWeight key :=
        Finset.sum_le_sum_of_subset hsub
    _ = ∑ doc ∈ (src.entries.map Prod.fst).toFinset, ∑ key ∈ around doc, src.keyWeight key :=
        Finset.sum_biUnion hdisjoint
    _ ≤ _ := Finset.sum_le_sum fun doc _ => haround doc

/-- The capacity of a source is below two to the number of its values. -/
theorem capacity_lt_two_pow (src : Source) (enc : Encoding) (policy : DecodePolicy) :
    src.capacity enc policy < 2 ^ Value.sizeItems src.trees := by
  obtain ⟨entries⟩ := src
  have hdocs := sum_docSize_le entries
  have htexts := length_refTexts_add_length_trees_le (Source.mk entries).trees
  set S := Value.sizeItems (Source.mk entries).trees
  set X := ∑ doc ∈ (entries.map Prod.fst).toFinset, (Source.mk entries).docSize doc
  set R := (Source.mk entries).refTexts.length
  -- at most `S - 1` reference texts: none without trees, and each tree has more values than texts
  have hR : R ≤ S - 1 := by
    have hpos : (Source.mk entries).trees = [] ∨ 1 ≤ (Source.mk entries).trees.length := by
      cases (Source.mk entries).trees <;> simp
    rcases hpos with hnil | hone
    · have : R = 0 := by simp [R, refTexts, hnil]
      omega
    · change (Source.mk entries).refTexts.length + _ ≤ S at htexts
      omega
  have hbound := capacity_le (Source.mk entries) enc policy
  rw [Finset.sum_add_distrib, ← Finset.mul_sum] at hbound
  have hsub := sum_sub_one_le (entries.map Prod.fst).toFinset (Source.mk entries).docSize
  calc (Source.mk entries).capacity enc policy
      ≤ X + R * (X - 1) := hbound.trans (Nat.add_le_add_left (Nat.mul_le_mul_left R hsub) X)
    _ ≤ S + (S - 1) * (S - 1) :=
        Nat.add_le_add hdocs (Nat.mul_le_mul hR (Nat.sub_le_sub_right hdocs 1))
    _ < 2 ^ S := add_sq_lt_two_pow S

end Source

namespace Session

open Store Source

/-- The sizes of the contents of the schemas `bindings` binds, read in the store `st`. -/
def boundSizeOf (st : Store) : List (Nat × String) → Nat
  | [] => 0
  | (id, _) :: rest => ((st.get? id).map (·.content.size)).getD 0 + boundSizeOf st rest

/-- The sizes of the contents of the schemas bound to a class. -/
def boundSize (s : Session) : Nat := boundSizeOf s.store s.registry.bindings

/-- The potential of a compilation over a source: the sizes of the nodes waiting, and what binding
the keys of the source not bound yet could still cost. -/
def potential (src : Source) (enc : Encoding) (policy : DecodePolicy) (s : Session) : Nat :=
  s.registry.queuedSize + (src.capacity enc policy - s.boundSize)

section Potential

variable {src : Source} {enc : Encoding} {policy : DecodePolicy}

theorem boundSizeOf_eq_sum {st : Store} :
    ∀ {bindings : List (Nat × String)}, (bindings.map Prod.fst).Nodup →
      boundSizeOf st bindings =
        ∑ id ∈ (bindings.map Prod.fst).toFinset, ((st.get? id).map (·.content.size)).getD 0
  | [], _ => rfl
  | (id, _) :: rest, hnodup => by
    rw [List.map_cons, List.nodup_cons] at hnodup
    rw [boundSizeOf, List.map_cons, List.toFinset_cons,
      Finset.sum_insert (by simpa using hnodup.1), boundSizeOf_eq_sum hnodup.2]

/-- Binding costs no more than the capacity: the schemas bound are held under distinct keys of the
source, each of the size of the node its key designates. -/
theorem Bounded.boundSize_le {s : Session} (hs : s.Bounded src enc policy) :
    s.boundSize ≤ src.capacity enc policy := by
  let ids := (s.registry.bindings.map Prod.fst).toFinset
  let reference : Nat → Reference := fun i => ((s.store.get? i).map (·.reference)).getD default
  have hheld : ∀ i ∈ ids, ∃ sc, s.store.get? i = some sc := by
    intro i hi
    obtain ⟨p, hp, rfl⟩ := List.mem_map.mp (List.mem_toFinset.mp hi)
    exact ⟨_, List.getElem?_eq_getElem (hs.bindings_lt p hp)⟩
  -- a held schema's content is the node its reference designates
  have hweight : ∀ i ∈ ids, ((s.store.get? i).map (·.content.size)).getD 0 =
      src.keyWeight (reference i) := by
    intro i hi
    obtain ⟨sc, hget⟩ := hheld i hi
    obtain ⟨tree, hfetch, hwalk⟩ := hs.store.consistent.content_walk sc (List.mem_of_getElem? hget)
    rw [hs.store.source_eq] at hfetch
    simp only [reference, hget, Option.map_some, Option.getD_some]
    exact (keyWeight_of_walk hfetch hwalk).symm
  have hinj : Set.InjOn reference ids := by
    intro i hi j hj heq
    obtain ⟨sc, hget⟩ := hheld i hi
    obtain ⟨sc', hget'⟩ := hheld j hj
    simp only [reference, hget, hget', Option.map_some, Option.getD_some] at heq
    have hlookup := lookup_get_of_nodup hs.store.consistent.references_nodup hget
    rw [heq, lookup_get_of_nodup hs.store.consistent.references_nodup hget'] at hlookup
    exact (Option.some.inj hlookup).symm
  have hkeys : ids.image reference ⊆ (src.keys enc policy).toFinset := by
    intro key hkey
    obtain ⟨i, hi, rfl⟩ := Finset.mem_image.mp hkey
    obtain ⟨sc, hget⟩ := hheld i hi
    simp only [reference, hget, Option.map_some, Option.getD_some, List.mem_toFinset]
    exact hs.store.keys sc (List.mem_of_getElem? hget)
  calc s.boundSize
      = ∑ i ∈ ids, ((s.store.get? i).map (·.content.size)).getD 0 :=
        boundSizeOf_eq_sum hs.bindings_nodup
    _ = ∑ i ∈ ids, src.keyWeight (reference i) := Finset.sum_congr rfl hweight
    _ = ∑ key ∈ ids.image reference, src.keyWeight key := (Finset.sum_image hinj).symm
    _ ≤ src.capacity enc policy := Finset.sum_le_sum_of_subset hkeys

theorem boundSizeOf_grow {st st' : Store} (hgrows : Grows src enc policy st st') :
    ∀ {bindings : List (Nat × String)}, (∀ p ∈ bindings, p.1 < st.size) →
      boundSizeOf st' bindings = boundSizeOf st bindings
  | [], _ => rfl
  | (id, _) :: rest, hlt => by
    rw [boundSizeOf, boundSizeOf, hgrows.get? (hlt _ List.mem_cons_self),
      boundSizeOf_grow hgrows fun p hp => hlt p (List.mem_cons_of_mem _ hp)]

/-- Growing the store changes no bound schema. -/
theorem potential_grow {s : Session} (hs : s.Bounded src enc policy) {st : Store}
    (hgrows : Grows src enc policy s.store st) :
    ({ s with store := st } : Session).potential src enc policy = s.potential src enc policy := by
  simp only [potential, boundSize, boundSizeOf_grow hgrows hs.bindings_lt]

/-- Queueing an inline class costs the size of its node. -/
theorem potential_schedule_none (s : Session) (name : String) (node : Value) (context : Nat) :
    ({ s with registry := (s.registry.schedule name node context none).2 } : Session).potential
      src enc policy = s.potential src enc policy + node.size := by
  have hbindings : (s.registry.schedule name node context none).2.bindings = s.registry.bindings :=
    rfl
  simp only [potential, boundSize, Registry.queuedSize_schedule, hbindings]
  omega

/-- Queueing the class of a schema bound to nothing moves the size of its content from what
binding may still cost to the nodes waiting. -/
theorem potential_schedule_unbound {s : Session} {id : Nat} {sc : Schema}
    (hunbound : s.registry.bound id = none) (hget : s.store.get? id = some sc)
    (hroom : ({ s with registry := (s.registry.schedule name sc.content context (some id)).2 } :
      Session).boundSize ≤ src.capacity enc policy) :
    ({ s with registry := (s.registry.schedule name sc.content context (some id)).2 } :
      Session).potential src enc policy = s.potential src enc policy := by
  have hbound : ({ s with registry := (s.registry.schedule name sc.content context (some id)).2 } :
      Session).boundSize = sc.content.size + s.boundSize := by
    simp only [boundSize, Registry.bindings_schedule_of_unbound hunbound, boundSizeOf, hget,
      Option.map_some, Option.getD_some]
  rw [hbound] at hroom
  simp only [potential, Registry.queuedSize_schedule, hbound]
  omega

/-- Taking a class lowers the potential by the size of its node. -/
theorem potential_next {s : Session} {p : Pending} (hnext : s.registry.next.1 = some p) :
    ({ s with registry := s.registry.next.2 } : Session).potential src enc policy + p.node.size =
      s.potential src enc policy := by
  have hqueued := Registry.queuedSize_next hnext
  simp only [potential, boundSize, Registry.bindings_next]
  omega

/-- A compilation starts at the capacity: its root is bound and queued. -/
theorem potential_start {st : Store} {sc : Schema} (hget : st.get? 0 = some sc) (name : String)
    (hroom : ({ store := st, registry := (({} : Registry).schedule name sc.content 0 (some 0)).2 } :
      Session).boundSize ≤ src.capacity enc policy) :
    ({ store := st, registry := (({} : Registry).schedule name sc.content 0 (some 0)).2 } :
      Session).potential src enc policy = src.capacity enc policy := by
  have hempty : ({ store := st } : Session).potential src enc policy = src.capacity enc policy := by
    simp [potential, boundSize, boundSizeOf, Registry.queuedSize, Registry.queue,
      Value.sizeItems]
  have hunbound : ({ store := st } : Session).registry.bound 0 = none := rfl
  have hstep := potential_schedule_unbound hunbound hget hroom
  rw [← hempty, ← hstep]

end Potential

end Session

end SchemaModel

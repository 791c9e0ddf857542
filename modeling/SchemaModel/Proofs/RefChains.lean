import SchemaModel.Proofs.Bounds
/-!
# Following references to the schema of a value

`Session.resolveRefs` follows a node's references, its own `$ref` or else that of its `items`,
each read in the schema the previous one reached, until it comes to a node with neither. Such a
chain can cross documents and mix the two kinds of hop, and nothing in a reference text bounds
how far it goes. What ends it is that every target is a schema of the store, and a target
reached a second time stops the chain with a cyclic reference.

`Chain` says what following a node's references gives, with no bound on the number of hops. The
targets of a chain are distinct schemas, and the reference of each pairs a document of the source
with the fragment of a reference text the chain met (`Source.targetKeys`). A chain thus reaches
at most as many targets as there are such pairs, and the bound `Session.reach` gives is larger:
`resolveRefs` always ends where the chain ends, and the store it leaves only extends the one it
was given.
-/

namespace SchemaModel

namespace Value

mutual

theorem length_refTexts_le : ∀ v : Value, v.refTexts.length ≤ v.textCount
  | .null | .bool _ | .number _ | .string _ => by simp [refTexts, textCount]
  | .array items => by simpa only [refTexts, textCount] using length_refTextsItems_le items
  | .object fields => by simpa only [refTexts, textCount] using length_refTextsFields_le fields

theorem length_refTextsItems_le :
    ∀ items : List Value, (refTextsItems items).length ≤ textCountItems items
  | [] => Nat.le_refl 0
  | v :: rest => by
    have hv := length_refTexts_le v
    have hrest := length_refTextsItems_le rest
    simp only [refTextsItems, textCountItems, List.length_append]
    omega

theorem length_refTextsFields_le :
    ∀ fields : List (String × Value), (refTextsFields fields).length ≤ textCountFields fields
  | [] => Nat.le_refl 0
  | (key, v) :: rest => by
    have hv := length_refTexts_le v
    -- the text of a `$ref` field is the one string value it holds
    have htext : v.asString?.toList.length + v.refTexts.length ≤ v.textCount := by
      cases v <;> simp_all [asString?, refTexts, textCount]
    have hrest := length_refTextsFields_le rest
    simp only [refTextsFields, textCountFields, List.length_append]
    split
    · omega
    · simp only [List.length_nil]
      omega

end

end Value

namespace Source

theorem length_flatMap_refTexts_le : ∀ (trees : List Value) (acc : Nat),
    (trees.flatMap Value.refTexts).length + acc ≤ (trees.map Value.textCount).foldl (· + ·) acc
  | [], acc => by simp
  | v :: rest, acc => by
    have hv := Value.length_refTexts_le v
    have hrest := length_flatMap_refTexts_le rest (acc + v.textCount)
    rw [List.flatMap_cons, List.length_append, List.map_cons, List.foldl_cons]
    omega

/-- The references the targets of a chain reading `texts` can have: a document of the source,
with the fragment one of the texts spells. -/
def targetKeys (src : Source) (enc : Encoding) (policy : DecodePolicy) (texts : List String) :
    List Reference :=
  src.entries.flatMap fun entry => texts.filterMap fun t =>
    (Pointer.segments enc policy (Store.splitRef t).2).toOption.map (Reference.mk entry.1)

theorem length_targetKeys_le (src : Source) (enc : Encoding) (policy : DecodePolicy)
    (texts : List String) :
    (src.targetKeys enc policy texts).length ≤ src.entries.length * texts.length := by
  unfold targetKeys
  induction src.entries with
  | nil => simp
  | cons entry rest ih =>
    rw [List.flatMap_cons, List.length_append, List.length_cons, Nat.succ_mul]
    have hfirst := List.length_filterMap_le (fun t =>
      (Pointer.segments enc policy (Store.splitRef t).2).toOption.map (Reference.mk entry.1)) texts
    omega

end Source

namespace Store

open Source

/-! ### Stores a chain passes through -/

/-- A store that `s` can become by following references: coherent, over the same source, encoding
and policy, and holding the schemas of `s` first. -/
structure Extends (s s' : Store) : Prop where
  consistent : s'.Consistent
  source_eq : s'.source = s.source
  encoding_eq : s'.encoding = s.encoding
  policy_eq : s'.policy = s.policy
  schemas_prefix : s.schemas <+: s'.schemas

theorem Extends.refl {s : Store} (hs : s.Consistent) : Extends s s :=
  ⟨hs, rfl, rfl, rfl, List.prefix_refl _⟩

theorem Extends.trans {s s' s'' : Store} (hfirst : Extends s s') (hsecond : Extends s' s'') :
    Extends s s'' :=
  ⟨hsecond.consistent, hsecond.source_eq.trans hfirst.source_eq,
    hsecond.encoding_eq.trans hfirst.encoding_eq, hsecond.policy_eq.trans hfirst.policy_eq,
    hfirst.schemas_prefix.trans hsecond.schemas_prefix⟩

theorem Extends.get? {s s' : Store} (hext : Extends s s') {i : Nat} {sc : Schema}
    (hget : s.get? i = some sc) : s'.get? i = some sc := by
  obtain ⟨added, hadded⟩ := hext.schemas_prefix
  have hi : i < s.schemas.length := (List.getElem?_eq_some_iff.mp hget).1
  simp only [Store.get?, ← hadded, List.getElem?_append_left hi]
  exact hget

theorem Extends.size_le {s s' : Store} (hext : Extends s s') : s.size ≤ s'.size :=
  hext.schemas_prefix.length_le

/-- The keys of a chain reading `texts`, over the store's source, encoding and policy. -/
def chainKeys (s : Store) (texts : List String) : List Reference :=
  s.source.targetKeys s.encoding s.policy texts

theorem Extends.chainKeys_eq {s s' : Store} (hext : Extends s s') (texts : List String) :
    s'.chainKeys texts = s.chainKeys texts := by
  rw [chainKeys, chainKeys, hext.source_eq, hext.encoding_eq, hext.policy_eq]

/-- The schema numbered `i` is held, and its reference is one of `keys`. -/
def HeldIn (s : Store) (keys : List Reference) (i : Nat) : Prop :=
  ∃ sc, s.get? i = some sc ∧ sc.reference ∈ keys

theorem Extends.heldIn {s s' : Store} (hext : Extends s s') {keys : List Reference} {i : Nat}
    (hheld : s.HeldIn keys i) : s'.HeldIn keys i := by
  obtain ⟨sc, hget, hkey⟩ := hheld
  exact ⟨sc, hext.get? hget, hkey⟩

/-- Distinct numbers of schemas whose references are among `keys` are no more than the keys: a
coherent store holds each reference once. -/
theorem length_le_of_heldIn {s : Store} (hs : s.Consistent) {keys : List Reference}
    {ids : List Nat} (hids : ids.Nodup) (hheld : ∀ i ∈ ids, s.HeldIn keys i) :
    ids.length ≤ keys.length := by
  let reference : Nat → Reference := fun i => ((s.get? i).map (·.reference)).getD default
  have hinj : ∀ i ∈ ids, ∀ j ∈ ids, reference i = reference j → i = j := by
    intro i hi j hj heq
    obtain ⟨sc, hget, -⟩ := hheld i hi
    obtain ⟨sc', hget', -⟩ := hheld j hj
    simp only [reference, hget, hget', Option.map_some, Option.getD_some] at heq
    have hlookup := lookup_get_of_nodup hs.references_nodup hget
    rw [heq, lookup_get_of_nodup hs.references_nodup hget'] at hlookup
    exact (Option.some.inj hlookup).symm
  have hsub : ids.map reference ⊆ keys := by
    intro r hr
    obtain ⟨i, hi, rfl⟩ := List.mem_map.mp hr
    obtain ⟨sc, hget, hkey⟩ := hheld i hi
    simpa [reference, hget] using hkey
  simpa using (hids.map_on hinj).length_le_of_subset hsub

theorem Consistent.holds {s : Store} (hs : s.Consistent) {i : Nat} {sc : Schema}
    (hget : s.get? i = some sc) : s.source.Holds sc.content := by
  obtain ⟨tree, hfetch, hwalk⟩ := hs.content_walk sc (List.mem_of_getElem? hget)
  exact holds_of_walk hfetch hwalk

/-! ### One hop -/

theorem create_extends {s : Store} (hs : s.Consistent) {context : Nat} (hcontext : context < s.size)
    (ref : String) : Extends s ((create context ref).run.run s).2 := by
  have hconsistent : ((create context ref).run.run s).2.Consistent := by
    rw [create_eq]
    rcases keyOf s context ref with _ | key
    · exact hs
    · exact hs.intern key (fun p hp => by cases hp; exact hcontext)
  obtain ⟨docs, schemas, hframe⟩ := create_frame s context ref
  refine ⟨hconsistent, by rw [hframe], by rw [hframe], by rw [hframe], ?_⟩
  have hout := create_outcome s context ref
  generalize (create context ref).run.run s = result at hout ⊢
  obtain ⟨res, s'⟩ := result
  unfold CreateOutcome at hout
  rcases hkey : keyOf s context ref with e | key <;> simp only [hkey] at hout
  · obtain ⟨-, rfl⟩ := hout
    exact List.prefix_refl _
  obtain ⟨-, hlookup⟩ := hout
  rcases hi : s.lookup key with _ | i <;> simp only [hi] at hlookup
  · rcases hlookup with ⟨-, content, hschemas⟩ | ⟨e, -, hschemas⟩
    · exact ⟨_, hschemas.symm⟩
    · exact ⟨[], by rw [hschemas, List.append_nil]⟩
  · obtain ⟨-, rfl⟩ := hlookup
    exact List.prefix_refl _

/-- A `create` that succeeds gives a held schema, whose reference is the key of the text read in
the schema `context`. -/

theorem create_extends_of_run {s s' : Store} (hs : s.Consistent) {context : Nat}
    (hcontext : context < s.size) {ref : String} {result : Except ResolutionError Nat}
    (hc : (create context ref).run.run s = (result, s')) : Extends s s' := by
  have hext := create_extends hs hcontext ref
  rwa [hc] at hext
theorem create_target {s s' : Store} {context target : Nat} {ref : String}
    (hrun : (create context ref).run.run s = (.ok target, s')) :
    ∃ sc, s'.get? target = some sc ∧ keyOf s context ref = .ok sc.reference := by
  have hout := create_outcome s context ref
  rw [hrun] at hout
  unfold CreateOutcome at hout
  rcases hkey : keyOf s context ref with e | key <;> simp only [hkey] at hout
  · cases hout.1
  obtain ⟨-, hlookup⟩ := hout
  rcases hi : s.lookup key with _ | i <;> simp only [hi] at hlookup
  · rcases hlookup with ⟨htarget, content, hschemas⟩ | ⟨e, he, -⟩
    · cases htarget
      refine ⟨⟨key, content, some context⟩, ?_, rfl⟩
      simp [Store.get?, hschemas, size]
    · cases he
  · obtain ⟨htarget, rfl⟩ := hlookup
    cases htarget
    obtain ⟨sc, hget, hsc⟩ := lookup_eq_some hi
    exact ⟨sc, hget, by rw [hsc]⟩

theorem mem_chainKeys_of_keyOf {s : Store} {context : Nat} {ref : String} {r : Reference}
    {texts : List String} (hkey : keyOf s context ref = .ok r) (href : ref ∈ texts) {tree : Value}
    (hfetch : s.source.fetch r.document = .ok tree) : r ∈ s.chainKeys texts := by
  have hsegs := keyOf_fragment hkey
  obtain ⟨hentry, -⟩ := mem_of_fetch hfetch
  refine List.mem_flatMap.mpr ⟨_, hentry, List.mem_filterMap.mpr ⟨ref, href, ?_⟩⟩
  rw [hsegs]
  rfl

/-- The target of a hop that reads one of `texts` is held under one of the chain's keys. -/
theorem create_heldIn {s s' : Store} (hs : s.Consistent) {context target : Nat}
    (hcontext : context < s.size) {ref : String} {texts : List String} (href : ref ∈ texts)
    (hrun : (create context ref).run.run s = (.ok target, s')) :
    Extends s s' ∧ s'.HeldIn (s.chainKeys texts) target := by
  have hext : Extends s s' := by
    have := create_extends hs hcontext ref
    rwa [hrun] at this
  obtain ⟨sc, hget, hkey⟩ := create_target hrun
  obtain ⟨tree, hfetch, -⟩ := hext.consistent.content_walk sc (List.mem_of_getElem? hget)
  rw [hext.source_eq] at hfetch
  exact ⟨hext, sc, hget, mem_chainKeys_of_keyOf hkey href hfetch⟩

theorem create_run_congr {o : Option String} {context : Nat} {s : Store} {ref ref' : String}
    {a b : Except ResolutionError Nat × Store} (href : o = some ref) (href' : o = some ref')
    (hc : (create context ref).run.run s = a) (hc' : (create context ref').run.run s = b) :
    a = b := by
  rw [href] at href'
  cases href'
  exact hc.symm.trans hc'

theorem Extends.holds {s s' : Store} (hext : Extends s s') {i : Nat} {sc : Schema}
    (hget : s'.get? i = some sc) : s.source.Holds sc.content := by
  rw [← hext.source_eq]
  exact hext.consistent.holds hget

theorem Extends.heldIn_cons {s s' : Store} (hext : Extends s s') {texts : List String}
    {target : Nat} {trail : List Nat} (htarget : s'.HeldIn (s.chainKeys texts) target)
    (htrail : ∀ i ∈ trail, s.HeldIn (s.chainKeys texts) i) :
    ∀ i ∈ target :: trail, s'.HeldIn (s'.chainKeys texts) i := by
  rw [hext.chainKeys_eq texts]
  intro i hi
  rcases List.mem_cons.mp hi with rfl | hi
  · exact htarget
  · exact hext.heldIn (htrail i hi)

end Store

namespace Session

open Store Source

/-! ### Chains -/

/-- Where following the references of `node`, read in the schema `context`, leads, with `visited`
the targets reached before: to `node` itself when it has no indirection, to the failure of the
`create` that reads its reference, to a cyclic reference when that target was reached before, or
on from the target's content. -/
inductive Chain : Store → Value → Nat → List Nat → Except ResolutionError Value → Store → Prop
  | resolved {s : Store} {node : Value} {context : Nat} {visited : List Nat} :
      Keyword.indirectionOf node = none → Chain s node context visited (.ok node) s
  | failed {s s' : Store} {node : Value} {context : Nat} {visited : List Nat} {ref : String}
      {e : ResolutionError} :
      Keyword.indirectionOf node = some ref → (create context ref).run.run s = (.error e, s') →
      Chain s node context visited (.error e) s'
  | revisited {s s' : Store} {node : Value} {context target : Nat} {visited : List Nat}
      {ref : String} {sc : Schema} :
      Keyword.indirectionOf node = some ref → (create context ref).run.run s = (.ok target, s') →
      s'.get? target = some sc → target ∈ visited →
      Chain s node context visited (.error (.cyclicReference sc.reference)) s'
  | hop {s s' s'' : Store} {node : Value} {context target : Nat} {visited : List Nat}
      {ref : String} {sc : Schema} {result : Except ResolutionError Value} :
      Keyword.indirectionOf node = some ref → (create context ref).run.run s = (.ok target, s') →
      s'.get? target = some sc → target ∉ visited →
      Chain s' sc.content target (target :: visited) result s'' →
      Chain s node context visited result s''

/-- A chain has one outcome: each hop is a function of the store it starts from. -/
theorem Chain.unique {s : Store} {node : Value} {context : Nat} {visited : List Nat}
    {result result' : Except ResolutionError Value} {st st' : Store}
    (hchain : Chain s node context visited result st)
    (hchain' : Chain s node context visited result' st') : result = result' ∧ st = st' := by
  induction hchain generalizing result' st' with
  | resolved hnone =>
    cases hchain' with
    | resolved => exact ⟨rfl, rfl⟩
    | failed hsome | revisited hsome | hop hsome => rw [hnone] at hsome; cases hsome
  | failed hsome hrun =>
    cases hchain' with
    | resolved hnone => rw [hnone] at hsome; cases hsome
    | failed hsome' hrun' =>
      cases create_run_congr hsome hsome' hrun hrun'
      exact ⟨rfl, rfl⟩
    | revisited hsome' hrun' | hop hsome' hrun' => cases create_run_congr hsome hsome' hrun hrun'
  | revisited hsome hrun hget hmem =>
    cases hchain' with
    | resolved hnone => rw [hnone] at hsome; cases hsome
    | failed hsome' hrun' => cases create_run_congr hsome hsome' hrun hrun'
    | revisited hsome' hrun' hget' =>
      cases create_run_congr hsome hsome' hrun hrun'
      rw [hget] at hget'
      cases hget'
      exact ⟨rfl, rfl⟩
    | hop hsome' hrun' _ hfresh' =>
      cases create_run_congr hsome hsome' hrun hrun'
      exact absurd hmem hfresh'
  | hop hsome hrun hget hfresh _ ih =>
    cases hchain' with
    | resolved hnone => rw [hnone] at hsome; cases hsome
    | failed hsome' hrun' => cases create_run_congr hsome hsome' hrun hrun'
    | revisited hsome' hrun' _ hmem' =>
      cases create_run_congr hsome hsome' hrun hrun'
      exact absurd hmem' hfresh
    | hop hsome' hrun' hget' _ hrest =>
      cases create_run_congr hsome hsome' hrun hrun'
      rw [hget] at hget'
      cases hget'
      exact ih hrest

theorem Chain.indirectionOf_eq_none {s st : Store} {node v : Value} {context : Nat}
    {visited : List Nat} (hchain : Chain s node context visited (.ok v) st) :
    Keyword.indirectionOf v = none := by
  generalize hresult : (Except.ok v : Except ResolutionError Value) = result at hchain
  induction hchain with
  | resolved hnone => cases hresult; exact hnone
  | failed => cases hresult
  | revisited => cases hresult
  | hop _ _ _ _ _ ih => exact ih hresult

section Chase

variable {texts : List String}

/-- The chase follows the chain while its fuel lasts; fuel beyond the number of keys not yet
reached never runs out. Carried along: the targets reached are distinct and held under the
chain's keys, and every reference the chase can read is one of `texts`. -/
theorem chase_chain (fuel : Nat) : ∀ {node : Value} {context : Nat} {visited : List Nat}
    {s : Store}, s.Consistent → context < s.size → visited.Nodup →
    (∀ i ∈ visited, s.HeldIn (s.chainKeys texts) i) →
    (∀ ref, Keyword.indirectionOf node = some ref → ref ∈ texts) →
    (∀ t ∈ s.source.refTexts, t ∈ texts) →
    (s.chainKeys texts).length < visited.length + fuel →
    ∃ result st, (chase fuel node context visited).run.run s = (result, st) ∧
      Chain s node context visited result st ∧ Extends s st := by
  induction fuel with
  | zero =>
    intro node context visited s hs _ hnodup hheld _ _ hfuel
    have := length_le_of_heldIn hs hnodup hheld
    omega
  | succ fuel ih =>
    intro node context visited s hs hcontext hnodup hheld hnode hsource hfuel
    rw [chase]
    split
    · exact ⟨_, _, rfl, .resolved ‹_›, Extends.refl hs⟩
    rename_i ref href
    rw [run_bind]
    rcases hc : (create context ref).run.run s with ⟨_ | target, s₁⟩
    · have hext : Extends s s₁ := by
        have := create_extends hs hcontext ref
        rwa [hc] at this
      exact ⟨_, _, rfl, .failed href hc, hext⟩
    obtain ⟨hext, sc, hget, hkey⟩ := create_heldIn hs hcontext (hnode ref href) hc
    simp only [run_bind, schema_run, hget, Option.getD_some]
    split
    · exact ⟨_, _, rfl, .revisited href hc hget ‹_›, hext⟩
    rename_i hfresh
    -- one more distinct target under the chain's keys, one less unit of fuel
    have htarget : target < s₁.size := (List.getElem?_eq_some_iff.mp hget).1
    have hcontent : ∀ t, Keyword.indirectionOf sc.content = some t → t ∈ texts := fun t ht =>
      hsource t ((hext.holds hget).refTexts_subset t (Value.indirectionOf_mem_refTexts ht))
    obtain ⟨result, st, hrun, hchain, hext'⟩ := ih hext.consistent htarget
      (List.nodup_cons.mpr ⟨hfresh, hnodup⟩) (hext.heldIn_cons ⟨sc, hget, hkey⟩ hheld) hcontent
      (by rwa [hext.source_eq]) (by rw [hext.chainKeys_eq texts, List.length_cons]; omega)
    exact ⟨result, st, hrun, .hop href hc hget hfresh hchain, hext.trans hext'⟩

end Chase

/-- The reference texts a chain from `node` can read: the node's own and those of the source. -/
def chainTexts (s : Store) (node : Value) : List String := node.refTexts ++ s.source.refTexts

/-- The bound `reach` gives covers the keys of a chain from `node`. -/
theorem length_chainKeys_le (sess : Session) (node : Value) :
    (sess.store.chainKeys (chainTexts sess.store node)).length ≤ (sess.reach node).1 := by
  have hkeys := length_targetKeys_le sess.store.source sess.store.encoding sess.store.policy
    (chainTexts sess.store node)
  have hnode := Value.length_refTexts_le node
  have hsource := length_flatMap_refTexts_le sess.store.source.trees 0
  have htexts : (chainTexts sess.store node).length ≤
      node.textCount + (sess.store.source.trees.map Value.textCount).foldl (· + ·) 0 := by
    simp only [chainTexts, List.length_append, Source.refTexts]
    omega
  simp only [reach, chainKeys] at hkeys ⊢
  calc (sess.store.source.targetKeys sess.store.encoding sess.store.policy
          (chainTexts sess.store node)).length
      ≤ sess.store.source.entries.length * (chainTexts sess.store node).length := hkeys
    _ ≤ (sess.store.source.entries.length + 1) *
          (node.textCount + (sess.store.source.trees.map Value.textCount).foldl (· + ·) 0 + 1) :=
        Nat.mul_le_mul (Nat.le_succ _) (Nat.le_succ_of_le htexts)

/-- The fuel `resolveRefs` gives the chase covers every key a chain from the node can reach. -/
theorem chase_reach_chain {sess : Session} (hs : sess.store.Consistent) (node : Value)
    {enclosing : Nat} (henclosing : enclosing < sess.store.size) :
    ∃ result st, (chase ((sess.reach node).1 + 2) node enclosing []).run.run sess.store =
        (result, st) ∧ Chain sess.store node enclosing [] result st ∧ Extends sess.store st :=
  @chase_chain (chainTexts sess.store node) ((sess.reach node).1 + 2) node enclosing [] _ hs
    henclosing List.nodup_nil (by simp)
    (fun ref href => List.mem_append_left _ (Value.indirectionOf_mem_refTexts href))
    (fun t ht => List.mem_append_right _ ht)
    (by have := length_chainKeys_le sess node; simp only [List.length_nil]; omega)

/-- `resolveRefs` chases the node's references with the fuel `reach` gives. -/
theorem resolveRefs_run (node : Value) (enclosing : Nat) (sess : Session) :
    (resolveRefs node enclosing).run.run sess =
      (liftStore (chase ((sess.reach node).1 + 2) node enclosing [])).run.run sess := by
  simp only [resolveRefs, run_bind, run_get]

/-- Following a node's references from any coherent store ends where its chain ends: the node
itself or the content of the last target, which has no indirection of its own; the error of the
first `create` that fails; or a cyclic reference to the first target reached twice. The store
left only extends the one given, and the classes are untouched. -/
theorem resolveRefs_follows_chain {sess : Session} (hs : sess.store.Consistent) (node : Value)
    {enclosing : Nat} (henclosing : enclosing < sess.store.size) :
    ∃ result st, (resolveRefs node enclosing).run.run sess =
        (result.mapError .resolution, { sess with store := st }) ∧
      Chain sess.store node enclosing [] result st ∧ Extends sess.store st := by
  obtain ⟨result, st, hrun, hchain, hext⟩ := chase_reach_chain hs node henclosing
  refine ⟨result, st, ?_, hchain, hext⟩
  rw [resolveRefs_run, liftStore_run, hrun]
  cases result <;> rfl

/-- A property referring to a definition that refers on to a second one, read in the root of its
document. -/
theorem two_definition_chain_resolves :
    let src := Source.ofDocuments [("main.json", .object [("definitions", .object
      [("a", .object [("$ref", .string "#/definitions/b")]),
        ("b", .object [("type", .string "string")])])])]
    let sess : Session := { store := ((root "main.json").run.run (Store.empty src .utf8 .lenient)).2 }
    let node : Value := .object [("$ref", .string "#/definitions/a")]
    sess.store.Consistent ∧ 0 < sess.store.size ∧
      ∃ result st, (resolveRefs node 0).run.run sess =
          (result.mapError .resolution, { sess with store := st }) ∧
        Chain sess.store node 0 [] result st ∧ Extends sess.store st := by
  intro src sess node
  have hs : sess.store.Consistent :=
    (Reachable.root "main.json" Reachable.empty : Reachable src .utf8 .lenient _).consistent.1
  have hsize : 0 < sess.store.size := by decide
  exact ⟨hs, hsize, resolveRefs_follows_chain hs node hsize⟩

end Session

end SchemaModel

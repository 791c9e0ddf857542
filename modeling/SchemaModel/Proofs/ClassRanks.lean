import SchemaModel.Proofs.ClassGraph
/-!
# Ranks in the class graph

A class stands in the source (`Source.Placed`): its key is one the source can give, and its node
lies within the node that key designates. The root class of a document does, and every class a
class leads to does too, so the classes a compilation reaches are among the finitely many pairs of
a key of the source and a node within its content (`Source.pairs`).

When no class reached lies on an inline cycle, a path of inline spawns from a class reached visits
distinct pairs, so it is shorter than there are pairs. The rank of a class is the length of its
longest such path, and a class reached spawns only classes of lower rank (`rank_lt_of_spawns`):
compiling a class queues inline classes that are closer to the end of every path.
-/

namespace SchemaModel

namespace Value

mutual

/-- The values a value is made of, itself first. -/
def nodes : Value → List Value
  | .array items => .array items :: nodesItems items
  | .object fields => .object fields :: nodesFields fields
  | v => [v]

/-- The values the items of an array are made of. -/
def nodesItems : List Value → List Value
  | [] => []
  | v :: rest => v.nodes ++ nodesItems rest

/-- The values the field values of an object are made of. -/
def nodesFields : List (String × Value) → List Value
  | [] => []
  | (_, v) :: rest => v.nodes ++ nodesFields rest

end

theorem mem_nodes_self (v : Value) : v ∈ v.nodes := by
  cases v <;> simp [nodes]

theorem mem_nodesItems {v w : Value} : ∀ {items : List Value}, w ∈ items → v ∈ w.nodes →
    v ∈ nodesItems items
  | _ :: _, .head _, hv => List.mem_append_left _ hv
  | _ :: _, .tail _ hmem, hv => List.mem_append_right _ (mem_nodesItems hmem hv)

theorem mem_nodesFields {v w : Value} {key : String} :
    ∀ {fields : List (String × Value)}, (key, w) ∈ fields → v ∈ w.nodes → v ∈ nodesFields fields
  | _ :: _, .head _, hv => List.mem_append_left _ hv
  | (_, _) :: _, .tail _ hmem, hv => List.mem_append_right _ (mem_nodesFields hmem hv)

/-- A value within a tree is one of the values the tree is made of. -/
theorem Within.mem_nodes {v tree : Value} (h : v.Within tree) : v ∈ tree.nodes := by
  induction h with
  | refl => exact mem_nodes_self v
  | item hmem _ ih => exact List.mem_cons_of_mem _ (mem_nodesItems hmem ih)
  | field hmem _ ih => exact List.mem_cons_of_mem _ (mem_nodesFields hmem ih)

theorem within_of_element? {node e : Value} (h : node.element? = some e) : e.Within node := by
  unfold element? mapValues? arrayItems? at h
  split at h
  · split at h
    · rename_i hvalues
      cases h
      exact within_of_get? hvalues
    · cases h
  · split at h
    · split at h
      · rename_i hitems
        cases h
        exact within_of_get? hitems
      · cases h
    · cases h

theorem within_of_additionalValues? {node v : Value} (h : node.additionalValues? = some v) :
    v.Within node := by
  unfold additionalValues? at h
  split at h
  · rename_i hget
    cases h
    exact within_of_get? hget
  · cases h

theorem within_of_mem_propertyFields {node v : Value} {name : String}
    (h : (name, v) ∈ Compiler.propertyFields node) : v.Within node := by
  unfold Compiler.propertyFields at h
  split at h
  · rename_i fields hget
    exact (Within.field h .refl).trans (within_of_get? hget)
  · cases h

theorem length_le_sizeFields (fields : List (String × Value)) :
    fields.length ≤ sizeFields fields := by
  induction fields with
  | nil => exact Nat.le_refl 0
  | cons field rest ih =>
    obtain ⟨key, v⟩ := field
    have hv := size_pos v
    simp only [List.length_cons, sizeFields]
    omega

/-- A class has fewer properties than its node has values. -/
theorem length_propertyFields_lt (node : Value) :
    (Compiler.propertyFields node).length < node.size := by
  unfold Compiler.propertyFields
  split
  · rename_i fields hget
    have hsize := (within_of_get? hget).size_le
    have hfields := length_le_sizeFields fields
    simp only [size] at hsize
    omega
  · exact size_pos node

end Value

namespace Source

section Placement

variable (src : Source) (enc : Encoding) (policy : DecodePolicy)

/-- A class stands in the source: its key is one the source can give, and its node lies within the
node that key designates. -/
def Placed (p : Value × Reference) : Prop :=
  p.2 ∈ src.keys enc policy ∧ ∃ v, src.contentAt p.2 = .ok v ∧ p.1.Within v

/-- The pairs of a key of the source with a node within the node it designates. -/
def pairs : List (Value × Reference) :=
  (src.keys enc policy).flatMap fun key =>
    ((src.contentAt key).toOption.map fun v => v.nodes.map fun n => (n, key)).getD []

variable {src enc policy}

theorem Placed.mem_pairs {p : Value × Reference} (h : src.Placed enc policy p) :
    p ∈ src.pairs enc policy := by
  obtain ⟨hkey, v, hcontent, hwithin⟩ := h
  refine List.mem_flatMap.mpr ⟨p.2, hkey, ?_⟩
  rw [hcontent]
  exact List.mem_map.mpr ⟨p.1, hwithin.mem_nodes, rfl⟩

theorem contentAt_eq_ok {key : Reference} {v : Value} :
    src.contentAt key = .ok v ↔ ∃ tree, src.fetch key.document = .ok tree ∧
      Pointer.walk tree key.fragment = .ok v := by
  unfold contentAt
  cases hfetch : src.fetch key.document with
  | error e =>
    constructor
    · intro h
      cases h
    · rintro ⟨_, h, -⟩
      cases h
  | ok tree =>
    constructor
    · intro h
      exact ⟨tree, rfl, h⟩
    · rintro ⟨_, h, hwalk⟩
      cases h
      exact hwalk

theorem Placed.holds {p : Value × Reference} (h : src.Placed enc policy p) : src.Holds p.1 := by
  obtain ⟨-, v, hcontent, hwithin⟩ := h
  obtain ⟨tree, hfetch, hwalk⟩ := contentAt_eq_ok.mp hcontent
  obtain ⟨tree', htree, hwithin'⟩ := holds_of_walk hfetch hwalk
  exact ⟨tree', htree, hwithin.trans hwithin'⟩

theorem Placed.within {n n' : Value} {key : Reference} (h : src.Placed enc policy (n, key))
    (hwithin : n'.Within n) : src.Placed enc policy (n', key) := by
  obtain ⟨hkey, v, hcontent, hn⟩ := h
  exact ⟨hkey, v, hcontent, hwithin.trans hn⟩

/-- A document the source gives is a key of the source, with the empty path. -/
theorem mem_keys_of_contentAt {doc : String} {v : Value} (h : src.contentAt ⟨doc, []⟩ = .ok v) :
    ⟨doc, []⟩ ∈ src.keys enc policy := by
  obtain ⟨tree, hfetch, -⟩ := contentAt_eq_ok.mp h
  exact List.mem_flatMap.mpr ⟨_, (mem_of_fetch hfetch).1, List.mem_cons_self⟩

theorem target?_ok {base ref : String} {key : Reference} {content : Value}
    (h : src.target? enc policy base ref = .ok (key, content)) :
    Reference.ofText enc policy base ref = .ok key ∧ src.contentAt key = .ok content := by
  unfold target? at h
  rcases hkey : Reference.ofText enc policy base ref with e | key' <;> rw [hkey] at h
  · exact nomatch h
  change (src.contentAt key' >>= fun content => pure (key', content)) = _ at h
  rcases hcontent : src.contentAt key' with e | content' <;> rw [hcontent] at h
  · exact nomatch h
  · cases h
    exact ⟨rfl, hcontent⟩

/-- A reference text of the source designates a node that stands in the source under its key. -/
theorem target?_placed {base ref : String} {key : Reference} {content : Value}
    (htarget : src.target? enc policy base ref = .ok (key, content)) (href : ref ∈ src.refTexts) :
    src.Placed enc policy (content, key) := by
  obtain ⟨hkey, hcontent⟩ := target?_ok htarget
  obtain ⟨tree, hfetch, -⟩ := contentAt_eq_ok.mp hcontent
  have hsegs : Pointer.segments enc policy (Store.splitRef ref).2 = .ok key.fragment := by
    unfold Reference.ofText at hkey
    rcases hsegs : Pointer.segments enc policy (String.ofList (ref.toList.dropWhile (· ≠ '#')))
      with e | segs <;> rw [hsegs] at hkey
    · cases hkey
    · cases hkey
      exact hsegs
  refine ⟨List.mem_flatMap.mpr ⟨_, (mem_of_fetch hfetch).1, List.mem_cons_of_mem _ ?_⟩,
    content, hcontent, .refl⟩
  exact List.mem_filterMap.mpr ⟨ref, href, by rw [hsegs]; rfl⟩

/-- Where a walk from a node that stands in the source lands stands in the source too: an inline
class where the walk stands, and a target under a key of the source or the root. -/
theorem Lands.placed {root : Reference} {node : Value} {context : Reference}
    {trail : List Reference} {landing : Landing}
    (hlands : src.Lands enc policy root node context trail landing) :
    src.Placed enc policy (node, context) →
      (∀ n c, landing = .inline n c → src.Placed enc policy (n, c)) ∧
        ∀ key, landing = .bound key → key = root ∨ key ∈ src.keys enc policy := by
  induction hlands with
  | failed | cyclic | leaf => exact fun _ => ⟨fun _ _ => nofun, fun _ => nofun⟩
  | bound href htarget _ =>
    intro hplaced
    have hplaced' := target?_placed htarget
      (hplaced.holds.refTexts_subset _ (Value.refOf_mem_refTexts href))
    refine ⟨fun _ _ => nofun, fun _ h => ?_⟩
    cases h
    exact .inr hplaced'.1
  | follow href htarget _ _ _ _ ih =>
    intro hplaced
    exact ih (target?_placed htarget
      (hplaced.holds.refTexts_subset _ (Value.refOf_mem_refTexts href)))
  | inline =>
    intro hplaced
    refine ⟨fun _ _ h => ?_, fun _ => nofun⟩
    cases h
    exact hplaced
  | element _ _ helement _ ih =>
    intro hplaced
    exact ih (hplaced.within (Value.within_of_element? helement))

/-- The landings of a class that stands in the source stand in it too. -/
theorem ClassLands.placed {naming : Naming} {root : Reference} {node : Value}
    {context : Reference} {landings : List Landing}
    (hclass : src.ClassLands enc policy naming root node context landings)
    (hplaced : src.Placed enc policy (node, context)) :
    (∀ n c, .inline n c ∈ landings → src.Placed enc policy (n, c)) ∧
      ∀ key, .bound key ∈ landings → key = root ∨ key ∈ src.keys enc policy := by
  obtain ⟨props, extra, hprops, hextra, rfl⟩ := hclass
  -- every landing is that of a node within the class's node
  have hall : ∀ landing ∈ props ++ extra, ∃ v trail, v.Within node ∧
      src.Lands enc policy root v context trail landing := by
    intro landing hmem
    rcases List.mem_append.mp hmem with hmem | hmem
    · suffices ∀ {taken fields props}, src.PropertiesLand enc policy naming root context taken
          fields props → (∀ f ∈ fields, f.2.Within node) → landing ∈ props →
          ∃ v trail, v.Within node ∧ src.Lands enc policy root v context trail landing from
        this hprops (fun f hf => Value.within_of_mem_propertyFields hf) hmem
      intro taken fields props hprops hwithin hmem
      induction hprops with
      | nil => cases hmem
      | cons _ _ hlands _ _ _ ih =>
        rcases List.mem_cons.mp hmem with rfl | hmem
        · exact ⟨_, _, hwithin _ List.mem_cons_self, hlands⟩
        · exact ih (fun f hf => hwithin f (List.mem_cons_of_mem _ hf)) hmem
    · cases hextra with
      | none => cases hmem
      | some hvalues hlands _ =>
        rcases List.mem_singleton.mp hmem with rfl
        exact ⟨_, _, Value.within_of_additionalValues? hvalues, hlands⟩
  constructor
  · intro n c hmem
    obtain ⟨v, trail, hwithin, hlands⟩ := hall _ hmem
    exact (hlands.placed (hplaced.within hwithin)).1 n c rfl
  · intro key hmem
    obtain ⟨v, trail, hwithin, hlands⟩ := hall _ hmem
    exact (hlands.placed (hplaced.within hwithin)).2 key rfl

/-- Every class a compilation reaches stands in the source. -/
theorem Reachable.placed {naming : Naming} {doc : String} {p : Value × Reference}
    (hp : src.Reachable enc policy naming doc p) : src.Placed enc policy p := by
  induction hp with
  | root hcontent => exact ⟨mem_keys_of_contentAt hcontent, _, hcontent, .refl⟩
  | step _ hleads ih =>
    obtain ⟨landings, hclass, hnext⟩ := hleads
    have hplaced := hclass.placed ih
    rcases hnext with hinline | ⟨hbound, hcontent⟩
    · exact hplaced.1 _ _ hinline
    · refine ⟨?_, _, hcontent, .refl⟩
      rcases hplaced.2 _ hbound with hroot | hkey
      · rw [hroot] at hcontent ⊢
        exact mem_keys_of_contentAt hcontent
      · exact hkey

/-- A compilation reaches nothing when the document is not in the source. -/
theorem Reachable.root_content {naming : Naming} {doc : String} {p : Value × Reference}
    (hp : src.Reachable enc policy naming doc p) : ∃ v, src.contentAt ⟨doc, []⟩ = .ok v := by
  induction hp with
  | root hcontent => exact ⟨_, hcontent⟩
  | step _ _ ih => exact ih

end Placement

/-! ### Paths of inline spawns -/

section Ranks

variable (src : Source) (enc : Encoding) (policy : DecodePolicy) (naming : Naming) (doc : String)

/-- No class the compilation of `doc` reaches lies on an inline cycle. -/
def InlineAcyclic : Prop :=
  ∀ p, src.Reachable enc policy naming doc p → ¬ src.OnInlineCycle enc policy naming ⟨doc, []⟩ p

/-- There is a path of `d` inline spawns from `p`. -/
def HasPath (p : Value × Reference) (d : Nat) : Prop :=
  ∃ l : List (Value × Reference), l.length = d ∧
    (p :: l).IsChain (src.Spawns enc policy naming ⟨doc, []⟩)

open Classical in
/-- The length of the longest path of inline spawns from `p`, among those shorter than there are
pairs in the source. -/
noncomputable def rank (p : Value × Reference) : Nat :=
  Nat.findGreatest (src.HasPath enc policy naming doc p) (src.pairs enc policy).length

variable {src enc policy naming doc}

theorem Reachable.isChain {p : Value × Reference} (hp : src.Reachable enc policy naming doc p) :
    ∀ {l : List (Value × Reference)}, (p :: l).IsChain (src.Spawns enc policy naming ⟨doc, []⟩) →
      ∀ q ∈ p :: l, src.Reachable enc policy naming doc q := by
  intro l hchain
  induction l generalizing p with
  | nil => exact fun q hq => by rw [List.mem_singleton.mp hq]; exact hp
  | cons r l ih =>
    obtain ⟨hspawns, hrest⟩ := List.isChain_cons_cons.mp hchain
    intro q hq
    rcases List.mem_cons.mp hq with rfl | hq
    · exact hp
    · exact ih (hp.step hspawns.leads) hrest q hq

/-- Without inline cycles among the classes reached, a path of inline spawns from a class reached
visits distinct pairs of the source, so it is shorter than there are pairs. -/
theorem length_lt_of_isChain (hacyclic : src.InlineAcyclic enc policy naming doc)
    {p : Value × Reference} (hp : src.Reachable enc policy naming doc p)
    {l : List (Value × Reference)}
    (hchain : (p :: l).IsChain (src.Spawns enc policy naming ⟨doc, []⟩)) :
    l.length < (src.pairs enc policy).length := by
  have hreach := hp.isChain hchain
  -- a pair met twice on the path would lie on an inline cycle
  have hnodup : (p :: l).Nodup := by
    rw [List.nodup_iff_sublist]
    intro a hsub
    have hcycle : Relation.TransGen (src.Spawns enc policy naming ⟨doc, []⟩) a a := by
      have htrans := (hchain.imp fun _ _ h => Relation.TransGen.single h).sublist hsub
      exact List.isChain_pair.mp htrans
    exact hacyclic a (hreach a (hsub.subset List.mem_cons_self)) hcycle
  have hsub : p :: l ⊆ src.pairs enc policy := fun q hq => (hreach q hq).placed.mem_pairs
  have hlen := hnodup.length_le_of_subset hsub
  rw [List.length_cons] at hlen
  omega

theorem rank_le (p : Value × Reference) :
    src.rank enc policy naming doc p ≤ (src.pairs enc policy).length := by
  classical
  exact Nat.findGreatest_le _

theorem hasPath_rank (p : Value × Reference) :
    src.HasPath enc policy naming doc p (src.rank enc policy naming doc p) := by
  classical
  exact Nat.findGreatest_spec (Nat.zero_le _) ⟨[], rfl, .singleton p⟩

/-- A class reached spawns only classes of lower rank: its longest path goes on from theirs. -/
theorem rank_lt_of_spawns (hacyclic : src.InlineAcyclic enc policy naming doc)
    {p q : Value × Reference} (hp : src.Reachable enc policy naming doc p)
    (hspawns : src.Spawns enc policy naming ⟨doc, []⟩ p q) :
    src.rank enc policy naming doc q < src.rank enc policy naming doc p := by
  obtain ⟨l, hlen, hchain⟩ := hasPath_rank q
  have hpath : (p :: q :: l).IsChain (src.Spawns enc policy naming ⟨doc, []⟩) :=
    .cons_cons hspawns hchain
  have hbound := length_lt_of_isChain hacyclic hp hpath
  rw [List.length_cons, hlen] at hbound
  have hlonger : src.HasPath enc policy naming doc p (src.rank enc policy naming doc q + 1) :=
    ⟨q :: l, by rw [List.length_cons, hlen], hpath⟩
  classical
  exact Nat.lt_of_succ_le (Nat.le_findGreatest (by omega) hlonger)

end Ranks

end Source

end SchemaModel

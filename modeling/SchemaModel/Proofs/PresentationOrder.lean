import SchemaModel.Annotator
/-!
# The presentation order of a form

The form-editor annotator presents the properties of a class sorted by their `propertyOrder`,
read leniently with a default. Properties may share an order, or fall back to the default
together, and none of them may be lost. The table it builds keeps, for each shown property, its
order and its position among the shown ones (`_localId` is never shown); the table presents each
shown property once, at its position and with its order, in rising order and, among equal
orders, in rising position (`Presents`).

The sort compares orders only. Ties come out by position because the sort is stable and the
properties are discovered in rising position: tagging each entry with its place before sorting
(`List.mergeSort_zipIdx`) turns the stable sort into one by order and then tag, and the tag of an
entry is its position.
-/

namespace SchemaModel

namespace OrderTable

/-- The properties a form shows: all but `_localId`, in document order. -/
def shown (fields : List (String × Value)) : List (String × Value) :=
  fields.filter (·.1 != Keyword.localId)

/-- The entry of the property at a position among those shown. -/
def entryAt (d : Int) (i : Nat) (field : String × Value) : OrderEntry :=
  ⟨Keyword.integerOr (field.2.get? "propertyOrder") d, i, field.1⟩

/-- The order of entries a form presents: by order, ties by position. -/
def Precedes (a b : OrderEntry) : Prop :=
  a.order < b.order ∨ a.order = b.order ∧ a.position < b.position

/-- What a table of the properties `fields` with default order `d` presents: every shown property
once, at its position among the shown ones and with its order, in rising order and position. -/
structure Presents (fields : List (String × Value)) (d : Int) (t : OrderTable) : Prop where
  positions : (t.entries.map OrderEntry.position).Perm (List.range (shown fields).length)
  entry_at : ∀ e ∈ t.entries, ∃ node, (shown fields)[e.position]? = some (e.name, node) ∧
    e.order = Keyword.integerOr (node.get? "propertyOrder") d
  names : t.names.Perm ((shown fields).map Prod.fst)
  sorted : t.entries.Pairwise Precedes

theorem discover_getElem? (fields : List (String × Value)) (d : Int) (i : Nat) :
    (discover fields d)[i]? = ((shown fields)[i]?).map (entryAt d i) := by
  simp only [discover, shown, List.getElem?_map, List.zip_eq_zipWith, List.getElem?_zipWith]
  by_cases hi : i < (fields.filter (·.1 != Keyword.localId)).length
  · rw [List.getElem?_range hi]
    cases (fields.filter (·.1 != Keyword.localId))[i]? <;> rfl
  · have hout : (fields.filter (·.1 != Keyword.localId)).length ≤ i := by omega
    rw [List.getElem?_eq_none (by simpa using hout), List.getElem?_eq_none hout]
    rfl

theorem mem_discover {fields : List (String × Value)} {d : Int} {e : OrderEntry}
    (he : e ∈ discover fields d) : ∃ field, (shown fields)[e.position]? = some field ∧
      e = entryAt d e.position field := by
  obtain ⟨i, hi⟩ := List.mem_iff_getElem?.mp he
  rw [discover_getElem?] at hi
  obtain ⟨field, hfield, rfl⟩ := Option.map_eq_some_iff.mp hi
  exact ⟨field, hfield, rfl⟩

theorem map_position_discover (fields : List (String × Value)) (d : Int) :
    (discover fields d).map OrderEntry.position = List.range (shown fields).length := by
  apply List.ext_getElem?
  intro i
  rw [List.getElem?_map, discover_getElem?]
  by_cases hi : i < (shown fields).length
  · rw [List.getElem?_range hi, List.getElem?_eq_getElem hi]
    rfl
  · have hout : (shown fields).length ≤ i := by omega
    rw [List.getElem?_eq_none hout, List.getElem?_eq_none (by simpa using hout)]
    rfl

theorem map_name_discover (fields : List (String × Value)) (d : Int) :
    (discover fields d).map OrderEntry.name = (shown fields).map Prod.fst := by
  apply List.ext_getElem?
  intro i
  rw [List.getElem?_map, List.getElem?_map, discover_getElem?, Option.map_map]
  rfl

/-- Sorting by order alone keeps ties in the order of their positions: the sort is stable, and
the shown properties are discovered in rising position. -/
theorem sorted_mergeSort_discover (fields : List (String × Value)) (d : Int) :
    ((discover fields d).mergeSort fun a b => a.order ≤ b.order).Pairwise Precedes := by
  have htrans : ∀ a b c : OrderEntry, decide (a.order ≤ b.order) = true →
      decide (b.order ≤ c.order) = true → decide (a.order ≤ c.order) = true := by
    intro a b c hab hbc
    simp only [decide_eq_true_eq] at hab hbc ⊢
    omega
  have htotal : ∀ a b : OrderEntry, (decide (a.order ≤ b.order) || decide (b.order ≤ a.order)) = true := by
    intro a b
    simp only [Bool.or_eq_true, decide_eq_true_eq]
    omega
  -- sort the entries tagged with their places; the tags are the positions
  let tagged := (discover fields d).zipIdx
  have hsorted := List.pairwise_mergeSort (List.zipIdxLE_trans htrans) (List.zipIdxLE_total htotal) tagged
  have hdistinct : ((tagged.mergeSort (List.zipIdxLE fun a b => a.order ≤ b.order)).map Prod.snd).Nodup := by
    rw [((List.mergeSort_perm _ _).map Prod.snd).nodup_iff, List.zipIdx_map_snd]
    exact List.nodup_range' 1 Nat.one_pos
  have htag : ∀ p ∈ tagged.mergeSort (List.zipIdxLE fun a b => a.order ≤ b.order),
      p.1.position = p.2 := by
    intro p hp
    have hget := List.mem_zipIdx_iff_getElem?.mp (List.mem_mergeSort.mp hp)
    rw [discover_getElem?] at hget
    obtain ⟨field, -, hfield⟩ := Option.map_eq_some_iff.mp hget
    rw [← hfield]
    rfl
  rw [← List.mergeSort_zipIdx, List.pairwise_map]
  refine (hsorted.and (List.pairwise_map.mp hdistinct)).imp_of_mem ?_
  intro p q hp hq hpq
  obtain ⟨hle, hne⟩ := hpq
  have hpos : p.1.position ≠ q.1.position := by rw [htag p hp, htag q hq]; exact hne
  unfold List.zipIdxLE at hle
  unfold Precedes
  by_cases hpq : p.1.order ≤ q.1.order
  · by_cases hqp : q.1.order ≤ p.1.order
    · -- equal orders leave the tags, which are the positions, to decide
      simp only [hpq, hqp, decide_true, if_true, decide_eq_true_eq] at hle
      rw [← htag p hp, ← htag q hq] at hle
      omega
    · omega
  · simp only [hpq, decide_false, Bool.false_eq_true, if_false] at hle

theorem presents_ofProperties (fields : List (String × Value)) (d : Int) :
    Presents fields d (ofProperties (.object fields) d) where
  positions := by
    rw [ofProperties, ← map_position_discover fields d]
    exact (List.mergeSort_perm _ _).map _
  entry_at := by
    intro e he
    obtain ⟨field, hfield, heq⟩ := mem_discover (List.mem_mergeSort.mp he)
    refine ⟨field.2, ?_, ?_⟩
    · rw [hfield, heq]
      rfl
    · rw [heq]
      rfl
  names := by
    rw [names, ofProperties, ← map_name_discover fields d]
    exact (List.mergeSort_perm _ _).map _
  sorted := sorted_mergeSort_discover fields d

/-- The form-editor annotator presents the names of its order table. A `properties` value other
than an object shows nothing; of an object, the table presents every property but `_localId`
once, by order and then by position, whatever orders collide or fall back to the default. -/
theorem formEditor_presents_shown_properties (d : Int) (P : Value) :
    (Annotator.formEditor d).propertyOrder P = (ofProperties P d).names ∧
      match P with
      | .object fields => Presents fields d (ofProperties (.object fields) d)
      | _ => (ofProperties P d).names = [] := by
  refine ⟨rfl, ?_⟩
  cases P with
  | object fields => exact presents_ofProperties fields d
  | null | bool _ | number _ | string _ | array _ => rfl

end OrderTable

end SchemaModel

import SchemaModel.Pointer
import SchemaModel.Keyword
/-!
# Where a node lies in a tree

`Within v tree` says that `v` is one of the values a tree is made of: the tree itself, or a value
within one of its items or field values. A node within a tree is at most as large as the tree,
and whatever a field lookup or a path walk reaches lies within where it started.

The reference texts of a tree are the strings under its `$ref` keys, at any depth. A node within
a tree refers only to texts the tree holds, by its own `$ref` or by the one of its `items`.
-/

namespace SchemaModel

namespace Value

/-- `v` is the tree itself or lies within one of its items or field values. -/
inductive Within (v : Value) : Value → Prop
  | refl : Within v v
  | item {w : Value} {items : List Value} : w ∈ items → Within v w → Within v (.array items)
  | field {w : Value} {fields : List (String × Value)} {key : String} :
      (key, w) ∈ fields → Within v w → Within v (.object fields)

theorem Within.trans {a b c : Value} (hab : Within a b) (hbc : Within b c) : Within a c := by
  induction hbc with
  | refl => exact hab
  | item hmem _ ih => exact .item hmem ih
  | field hmem _ ih => exact .field hmem ih

theorem mem_of_lookup {α β : Type} [BEq α] [LawfulBEq α] {l : List (α × β)} {k : α} {b : β}
    (h : l.lookup k = some b) : (k, b) ∈ l := by
  obtain ⟨before, after, hsplit, -⟩ := List.lookup_eq_some_iff.mp h
  rw [hsplit]
  exact List.mem_append_right _ List.mem_cons_self

/-- A field's value lies within its object. -/
theorem within_of_get? {v w : Value} {key : String} (h : v.get? key = some w) : Within w v := by
  cases v with
  | object fields => exact .field (mem_of_lookup h) .refl
  | _ => cases h

theorem within_of_step {node child : Value} {segment : String}
    (h : Pointer.step node segment = .ok child) : Within child node := by
  unfold Pointer.step at h
  split at h
  · split at h
    · split at h
      · cases h
        exact .item (List.mem_of_getElem? (by assumption)) .refl
      · cases h
    · cases h
  · split at h
    · cases h
      exact .field (mem_of_lookup (by assumption)) .refl
    · cases h
  · cases h

/-- What a path walk reaches lies within the tree it started from. -/
theorem within_of_walk {tree node : Value} {segments : List String}
    (h : Pointer.walk tree segments = .ok node) : Within node tree := by
  induction segments generalizing tree with
  | nil =>
    cases h
    exact .refl
  | cons segment rest ih =>
    unfold Pointer.walk at h
    split at h
    · rename_i child hstep
      exact (ih h).trans (within_of_step hstep)
    · cases h

section Size

theorem size_le_sizeItems {w : Value} :
    ∀ {items : List Value}, w ∈ items → w.size ≤ sizeItems items
  | _ :: rest, .head _ => by simp only [sizeItems]; omega
  | _ :: rest, .tail _ hmem => by
    have hrest := size_le_sizeItems hmem
    simp only [sizeItems]
    omega

theorem size_le_sizeFields {w : Value} {key : String} :
    ∀ {fields : List (String × Value)}, (key, w) ∈ fields → w.size ≤ sizeFields fields
  | _ :: rest, .head _ => by simp only [sizeFields]; omega
  | (_, _) :: rest, .tail _ hmem => by
    have hrest := size_le_sizeFields hmem
    simp only [sizeFields]
    omega

theorem sizeItems_append (items items' : List Value) :
    sizeItems (items ++ items') = sizeItems items + sizeItems items' := by
  induction items with
  | nil => simp only [List.nil_append, sizeItems, Nat.zero_add]
  | cons v rest ih =>
    simp only [List.cons_append, sizeItems, ih]
    omega

/-- A node is at most as large as a tree it lies within. -/
theorem Within.size_le {v tree : Value} (h : Within v tree) : v.size ≤ tree.size := by
  induction h with
  | refl => exact Nat.le_refl _
  | item hmem _ ih =>
    have hitem := size_le_sizeItems hmem
    simp only [size]
    omega
  | field hmem _ ih =>
    have hfield := size_le_sizeFields hmem
    simp only [size]
    omega

/-- A field's value is smaller than its object. -/
theorem size_lt_of_get? {v w : Value} {key : String} (h : v.get? key = some w) :
    w.size < v.size := by
  cases v with
  | object fields =>
    have hfield := size_le_sizeFields (mem_of_lookup h)
    simp only [size]
    omega
  | _ => cases h

theorem size_pos (v : Value) : 0 < v.size := by
  cases v <;> simp only [size] <;> omega

/-- Two fields of different keys take up separate parts of an object. -/
theorem size_add_size_le_sizeFields {v w : Value} {key key' : String} (hkeys : key ≠ key') :
    ∀ {fields : List (String × Value)}, fields.lookup key = some v →
      fields.lookup key' = some w → v.size + w.size ≤ sizeFields fields
  | [], hv, _ => by cases hv
  | (k, u) :: rest, hv, hw => by
    simp only [List.lookup_cons] at hv hw
    simp only [sizeFields]
    by_cases hk : key = k
    · subst hk
      have hk' : (key' == key) = false := by simpa using Ne.symm hkeys
      rw [beq_self_eq_true] at hv
      rw [hk'] at hw
      cases hv
      have hrest := size_le_sizeFields (mem_of_lookup hw)
      omega
    · have hk : (key == k) = false := by simpa using hk
      rw [hk] at hv
      by_cases hk' : key' = k
      · subst hk'
        rw [beq_self_eq_true] at hw
        cases hw
        have hrest := size_le_sizeFields (mem_of_lookup hv)
        omega
      · have hk' : (key' == k) = false := by simpa using hk'
        rw [hk'] at hw
        have hrest := size_add_size_le_sizeFields hkeys hv hw
        omega

/-- The size of the value under a key; `0` when there is none. -/
def fieldSize (node : Value) (key : String) : Nat := ((node.get? key).map size).getD 0

/-- The values under two different keys take up separate parts of a node. -/
theorem fieldSize_add_fieldSize_lt (node : Value) {key key' : String} (hkeys : key ≠ key') :
    node.fieldSize key + node.fieldSize key' < node.size := by
  have hpos := size_pos node
  cases node with
  | object fields =>
    simp only [fieldSize, get?, size]
    rcases hv : fields.lookup key with _ | v <;> rcases hw : fields.lookup key' with _ | w <;>
      simp only [Option.map_none, Option.map_some, Option.getD_none, Option.getD_some]
    · omega
    · have hwsize := size_le_sizeFields (mem_of_lookup hw)
      omega
    · have hvsize := size_le_sizeFields (mem_of_lookup hv)
      omega
    · have hboth := size_add_size_le_sizeFields hkeys hv hw
      omega
  | _ =>
    simp only [fieldSize, get?, Option.map_none, Option.getD_none]
    omega

end Size

section References

mutual

/-- The strings under the `$ref` keys of a tree, at any depth. -/
def refTexts : Value → List String
  | .array items => refTextsItems items
  | .object fields => refTextsFields fields
  | _ => []

/-- The reference texts of a list of values. -/
def refTextsItems : List Value → List String
  | [] => []
  | v :: rest => v.refTexts ++ refTextsItems rest

/-- The reference texts of the values of a field list, with the text of a `$ref` field. -/
def refTextsFields : List (String × Value) → List String
  | [] => []
  | (key, v) :: rest =>
    (if key = Keyword.refKey then v.asString?.toList else []) ++ v.refTexts ++
      refTextsFields rest

end

theorem refTexts_subset_items {w : Value} :
    ∀ {items : List Value}, w ∈ items → ∀ t ∈ w.refTexts, t ∈ refTextsItems items
  | _ :: rest, .head _, t, ht => by
    simp only [refTextsItems, List.mem_append]
    exact Or.inl ht
  | _ :: rest, .tail _ hmem, t, ht => by
    simp only [refTextsItems, List.mem_append]
    exact Or.inr (refTexts_subset_items hmem t ht)

theorem refTexts_subset_fields {w : Value} {key : String} :
    ∀ {fields : List (String × Value)}, (key, w) ∈ fields → ∀ t ∈ w.refTexts,
      t ∈ refTextsFields fields
  | _ :: rest, .head _, t, ht => by
    simp only [refTextsFields, List.mem_append]
    exact Or.inl (Or.inr ht)
  | (_, _) :: rest, .tail _ hmem, t, ht => by
    simp only [refTextsFields, List.mem_append]
    exact Or.inr (refTexts_subset_fields hmem t ht)

/-- A tree holds the reference texts of every node within it. -/
theorem Within.refTexts_subset {v tree : Value} (h : Within v tree) :
    ∀ t ∈ v.refTexts, t ∈ tree.refTexts := by
  induction h with
  | refl => exact fun t ht => ht
  | item hmem _ ih => exact fun t ht => refTexts_subset_items hmem t (ih t ht)
  | field hmem _ ih => exact fun t ht => refTexts_subset_fields hmem t (ih t ht)

theorem mem_refTextsFields_of_mem {fields : List (String × Value)} {t : String}
    (hmem : (Keyword.refKey, .string t) ∈ fields) : t ∈ refTextsFields fields := by
  induction fields with
  | nil => cases hmem
  | cons field rest ih =>
    obtain ⟨key, v⟩ := field
    simp only [refTextsFields, List.mem_append]
    rcases List.mem_cons.mp hmem with hfirst | hrest
    · cases hfirst
      simp [asString?]
    · exact Or.inr (ih hrest)

/-- The reference a node makes is one of its reference texts. -/
theorem refOf_mem_refTexts {v : Value} {t : String} (h : Keyword.refOf v = some t) :
    t ∈ v.refTexts := by
  unfold Keyword.refOf at h
  cases hget : v.get? Keyword.refKey with
  | none => simp [hget] at h
  | some w =>
    rw [hget] at h
    cases w <;> simp only [Option.bind_some, asString?, reduceCtorEq] at h
    cases h
    cases v with
    | object fields => exact mem_refTextsFields_of_mem (mem_of_lookup hget)
    | _ => cases hget

/-- The reference a node follows to the schema of its value, its own or that of its `items`, is
one of its reference texts. -/
theorem indirectionOf_mem_refTexts {v : Value} {t : String}
    (h : Keyword.indirectionOf v = some t) : t ∈ v.refTexts := by
  unfold Keyword.indirectionOf at h
  split at h
  · cases h
    exact refOf_mem_refTexts (by assumption)
  · cases hitems : v.get? "items" with
    | none => simp [hitems] at h
    | some items =>
      rw [hitems, Option.bind_some] at h
      exact (within_of_get? hitems).refTexts_subset t (refOf_mem_refTexts h)

end References

end Value

end SchemaModel

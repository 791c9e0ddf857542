import SchemaModel.Compile.Member
import Mathlib.Data.List.Pairwise
/-!
# Tag sets in order of kind

A tag set keeps its tags ordered by `Tag.compare`, which orders tags of different kinds by the
rank of their kind and compares values only within a kind. Every set the library builds is
therefore sorted by kind (`TagSet.Sorted`), and on a sorted set leaving out the tags of some
kinds commutes with adding tags: a tag of a kind kept lands where it would have landed anyway,
and a tag of a kind left out disappears again (`TagSet.filter_insertAll`).

Values of different kinds are never compared, so nothing here depends on how doubles compare.

An annotator, whatever its parts, adds a fixed list of the node's form tags
(`Annotator.exists_annotate_eq`); the tags a member shares with its accessors already hold the
node's title and description, so adding those again changes nothing (`insert_coreTags`).
-/

namespace SchemaModel

theorem TagKind.rank_injective : Function.Injective TagKind.rank := by
  intro a b h
  cases a <;> cases b <;> first | rfl | exact absurd h (by decide)

namespace Tag

/-- Tags of different kinds compare by the rank of their kind. -/
theorem compare_of_kind_ne {a b : Tag} (h : a.kind ≠ b.kind) :
    Tag.compare a b = Ord.compare a.kind.rank b.kind.rank := by
  cases a <;> cases b <;> first | rfl | exact absurd rfl h

theorem kind_eq_of_compare_eq {a b : Tag} (h : Tag.compare a b = .eq) : a.kind = b.kind := by
  by_contra hne
  rw [compare_of_kind_ne hne, Nat.compare_eq_eq] at h
  exact hne (TagKind.rank_injective h)

theorem compare_of_rank_lt {a b : Tag} (h : a.kind.rank < b.kind.rank) : Tag.compare a b = .lt := by
  have hne : a.kind ≠ b.kind := fun heq => by rw [heq] at h; exact Nat.lt_irrefl _ h
  rw [compare_of_kind_ne hne]
  exact Nat.compare_eq_lt.mpr h

theorem rank_lt_of_compare_lt {a b : Tag} (hne : a.kind ≠ b.kind) (h : Tag.compare a b = .lt) :
    a.kind.rank < b.kind.rank := by
  rwa [compare_of_kind_ne hne, Nat.compare_eq_lt] at h

theorem kind_of_mem_map {β : Type} (f : β → Tag) {k : TagKind} (hf : ∀ x, (f x).kind = k)
    {o : Option β} {u : Tag} (hu : u ∈ o.map f) : u.kind = k := by
  obtain ⟨x, -, rfl⟩ := Option.map_eq_some_iff.mp hu
  exact hf x

theorem rank_lt_of_compare_gt {a b : Tag} (hne : a.kind ≠ b.kind) (h : Tag.compare a b = .gt) :
    b.kind.rank < a.kind.rank := by
  rwa [compare_of_kind_ne hne, Nat.compare_eq_gt] at h

end Tag

namespace TagSet

/-- The tags of a set in order of kind. -/
def Sorted (s : TagSet) : Prop := s.tags.Pairwise fun a b => a.kind.rank ≤ b.kind.rank

/-! ### Adding one tag -/

section Insert

variable {t : Tag}

theorem mem_insertInto {u : Tag} : ∀ {l : List Tag}, u ∈ insertInto t l → u = t ∨ u ∈ l
  | [], h => by simp [insertInto] at h; exact .inl h
  | v :: rest, h => by
    unfold insertInto at h
    split at h
    · simpa using h
    · exact .inr h
    · rcases List.mem_cons.mp h with rfl | h
      · exact .inr List.mem_cons_self
      · rcases mem_insertInto h with rfl | h
        · exact .inl rfl
        · exact .inr (List.mem_cons_of_mem _ h)

/-- A tag of a kind below every kind present goes first. -/
theorem insertInto_of_rank_lt : ∀ {l : List Tag}, (∀ v ∈ l, t.kind.rank < v.kind.rank) →
    insertInto t l = t :: l
  | [], _ => rfl
  | v :: rest, h => by
    rw [insertInto, Tag.compare_of_rank_lt (h v List.mem_cons_self)]

/-- A tag of a kind above every kind present goes last. -/
theorem insertInto_of_rank_gt : ∀ {l : List Tag}, (∀ v ∈ l, v.kind.rank < t.kind.rank) →
    insertInto t l = l ++ [t]
  | [], _ => rfl
  | v :: rest, h => by
    have hlt := h v List.mem_cons_self
    have hkind : t.kind ≠ v.kind := fun heq => by rw [heq] at hlt; exact Nat.lt_irrefl _ hlt
    rw [insertInto, Tag.compare_of_kind_ne hkind, Nat.compare_eq_gt.mpr hlt,
      insertInto_of_rank_gt fun u hu => h u (List.mem_cons_of_mem _ hu), List.cons_append]

theorem sorted_insertInto : ∀ {l : List Tag}, Sorted ⟨l⟩ → Sorted ⟨insertInto t l⟩
  | [], _ => List.pairwise_singleton _ _
  | u :: rest, h => by
    obtain ⟨hu, hrest⟩ := List.pairwise_cons.mp h
    unfold insertInto
    split
    · -- `t` goes before `u`: its kind is `u`'s or below it
      rename_i hlt
      refine List.Pairwise.cons (fun v hv => ?_) h
      by_cases hkind : t.kind = u.kind
      · rcases List.mem_cons.mp hv with rfl | hv
        · exact Nat.le_of_eq (congrArg TagKind.rank hkind)
        · rw [hkind]; exact hu v hv
      · have := Tag.rank_lt_of_compare_lt hkind hlt
        rcases List.mem_cons.mp hv with rfl | hv
        · omega
        · have := hu v hv; omega
    · exact h
    · -- `t` goes after `u`: its kind is `u`'s or above it
      rename_i hgt
      refine List.Pairwise.cons (fun v hv => ?_) (sorted_insertInto hrest)
      rcases mem_insertInto hv with rfl | hv
      · by_cases hkind : v.kind = u.kind
        · exact Nat.le_of_eq (congrArg TagKind.rank hkind.symm)
        · exact Nat.le_of_lt (Tag.rank_lt_of_compare_gt hkind hgt)
      · exact hu v hv

variable (p : TagKind → Bool)

/-- Leaving out the tags of some kinds commutes with adding a tag of a kind kept. -/
theorem filter_insertInto_of_keep (hkeep : p t.kind = true) :
    ∀ {l : List Tag}, Sorted ⟨l⟩ →
      (insertInto t l).filter (p ·.kind) = insertInto t (l.filter (p ·.kind))
  | [], _ => by simp [insertInto, hkeep]
  | u :: rest, h => by
    obtain ⟨hu, hrest⟩ := List.pairwise_cons.mp h
    rw [insertInto]
    split
    · rename_i hlt
      by_cases hpu : p u.kind = true
      · simp only [List.filter_cons, hkeep, hpu, if_true, insertInto, hlt]
      · -- `u` is left out; the tags kept after it are of kinds above `t`'s
        have hkind : t.kind ≠ u.kind := fun heq => hpu (heq ▸ hkeep)
        have hlt' := Tag.rank_lt_of_compare_lt hkind hlt
        simp only [List.filter_cons, hkeep, hpu, if_true, Bool.false_eq_true, if_false]
        rw [insertInto_of_rank_lt]
        intro v hv
        have := hu v (List.mem_filter.mp hv).1
        omega
    · rename_i heq
      have hpu : p u.kind = true := Tag.kind_eq_of_compare_eq heq ▸ hkeep
      simp only [List.filter_cons, hpu, if_true, insertInto, heq]
    · rename_i hgt
      rw [List.filter_cons, filter_insertInto_of_keep hkeep hrest]
      by_cases hpu : p u.kind = true
      · simp only [List.filter_cons, hpu, if_true, insertInto, hgt]
      · simp only [List.filter_cons, hpu, Bool.false_eq_true, if_false]

/-- A tag of a kind left out disappears again. -/
theorem filter_insertInto_of_drop (hdrop : p t.kind = false) :
    ∀ l : List Tag, (insertInto t l).filter (p ·.kind) = l.filter (p ·.kind)
  | [] => by simp [insertInto, hdrop]
  | u :: rest => by
    rw [insertInto]
    split
    · simp only [List.filter_cons, hdrop, Bool.false_eq_true, if_false]
    · rfl
    · rw [List.filter_cons, List.filter_cons, filter_insertInto_of_drop hdrop rest]

end Insert

/-! ### Sets built by adding, erasing and leaving out -/

theorem sorted_empty : TagSet.empty.Sorted := List.Pairwise.nil

theorem sorted_insert {s : TagSet} (hs : s.Sorted) (t : Tag) : (s.insert t).Sorted :=
  sorted_insertInto hs

theorem sorted_insertAll (ts : List Tag) : ∀ {s : TagSet}, s.Sorted → (s.insertAll ts).Sorted := by
  induction ts with
  | nil => intro s hs; exact hs
  | cons t ts ih => intro s hs; exact ih (sorted_insert hs t)

theorem sorted_filter {s : TagSet} (hs : s.Sorted) (p : TagKind → Bool) : (s.filter p).Sorted :=
  List.Pairwise.filter _ hs

theorem sorted_erase {s : TagSet} (hs : s.Sorted) (t : Tag) : (s.erase t).Sorted :=
  List.Pairwise.filter _ hs

theorem insertAll_append (s : TagSet) (ts ts' : List Tag) :
    s.insertAll (ts ++ ts') = (s.insertAll ts).insertAll ts' := by
  simp only [insertAll, List.foldl_append]

theorem mem_insertAll {u : Tag} (ts : List Tag) : ∀ {s : TagSet}, u ∈ (s.insertAll ts).tags →
    u ∈ s.tags ∨ u ∈ ts := by
  induction ts with
  | nil => intro s h; exact .inl h
  | cons t ts ih =>
    intro s h
    rcases ih h with h | h
    · rcases mem_insertInto h with rfl | h
      · exact .inr List.mem_cons_self
      · exact .inl h
    · exact .inr (List.mem_cons_of_mem _ h)

/-- Adding tags each of which the set holds already changes nothing. -/
theorem insertAll_eq_self {s : TagSet} {ts : List Tag} (hfixed : ∀ t ∈ ts, s.insert t = s) :
    s.insertAll ts = s := by
  induction ts with
  | nil => rfl
  | cons t ts ih =>
    simp only [insertAll, List.foldl_cons] at ih ⊢
    rw [hfixed t List.mem_cons_self]
    exact ih fun u hu => hfixed u (List.mem_cons_of_mem _ hu)

/-- Tags of kinds in rising order, each above every kind present, are added at the end. -/
theorem insertAll_of_ascending : ∀ {ts l : List Tag},
    ts.Pairwise (fun a b => a.kind.rank < b.kind.rank) →
      (∀ v ∈ l, ∀ t ∈ ts, v.kind.rank < t.kind.rank) → ((⟨l⟩ : TagSet).insertAll ts).tags = l ++ ts
  | [], l, _, _ => by simp [insertAll]
  | t :: ts, l, hts, hl => by
    obtain ⟨ht, hts⟩ := List.pairwise_cons.mp hts
    have hfirst : (⟨l⟩ : TagSet).insert t = ⟨l ++ [t]⟩ := by
      simp only [insert]
      rw [insertInto_of_rank_gt fun v hv => hl v hv t List.mem_cons_self]
    have hrest := @insertAll_of_ascending ts (l ++ [t]) hts (by
      intro v hv u hu
      rcases List.mem_append.mp hv with hv | hv
      · exact hl v hv u (List.mem_cons_of_mem _ hu)
      · rw [List.mem_singleton.mp hv]; exact ht u hu)
    simp only [insertAll, List.foldl_cons] at hfirst hrest ⊢
    rw [hfirst, hrest, List.append_assoc, List.singleton_append]

variable (p : TagKind → Bool)

theorem filter_insert {s : TagSet} (hs : s.Sorted) (t : Tag) :
    (s.insert t).filter p = if p t.kind then (s.filter p).insert t else s.filter p := by
  simp only [insert, filter]
  cases hp : p t.kind
  · rw [filter_insertInto_of_drop p hp]
    rfl
  · rw [filter_insertInto_of_keep p hp hs]
    rfl

/-- On a sorted set, leaving out the tags of some kinds commutes with adding tags, those of the
kinds left out being dropped. -/
theorem filter_insertAll (ts : List Tag) : ∀ {s : TagSet}, s.Sorted →
    (s.insertAll ts).filter p = (s.filter p).insertAll (ts.filter (p ·.kind)) := by
  induction ts with
  | nil => intro s _; rfl
  | cons t ts ih =>
    intro s hs
    simp only [insertAll, List.foldl_cons, List.filter_cons] at ih ⊢
    rw [ih (sorted_insert hs t), filter_insert p hs]
    split <;> rfl

theorem filter_erase (s : TagSet) (t : Tag) : (s.erase t).filter p = (s.filter p).erase t := by
  simp only [erase, filter, List.filter_filter, Bool.and_comm]

theorem filter_eq_self {s : TagSet} (hall : ∀ t ∈ s.tags, p t.kind = true) : s.filter p = s := by
  simp only [filter]
  rw [List.filter_eq_self.mpr hall]

end TagSet

namespace Annotator

mutual

/-- Whatever its parts, an annotator adds a fixed list of the node's form tags: the form-editor
annotator adds them once, the empty one never, and a composite adds those of its parts in turn.
The recursion follows the nesting of composites. -/
theorem exists_annotate_eq (node : Value) : ∀ a : Annotator,
    ∃ ts, (∀ t ∈ ts, t ∈ formTags node) ∧ ∀ s, a.annotate s node = s.insertAll ts
  | .none => ⟨[], by simp, fun _ => rfl⟩
  | .formEditor _ => ⟨formTags node, fun _ ht => ht, fun _ => rfl⟩
  | .composite parts => exists_annotateAll_eq node parts

theorem exists_annotateAll_eq (node : Value) : ∀ parts : List Annotator,
    ∃ ts, (∀ t ∈ ts, t ∈ formTags node) ∧ ∀ s, annotateAll parts s node = s.insertAll ts
  | [] => ⟨[], by simp, fun _ => rfl⟩
  | a :: rest => by
    obtain ⟨ts, hts, ha⟩ := exists_annotate_eq node a
    obtain ⟨ts', hts', hrest⟩ := exists_annotateAll_eq node rest
    refine ⟨ts ++ ts', fun t ht => ?_, fun s => ?_⟩
    · rcases List.mem_append.mp ht with ht | ht
      · exact hts t ht
      · exact hts' t ht
    · rw [annotateAll, hrest, ha, TagSet.insertAll_append]

end

theorem sorted_annotate (a : Annotator) {s : TagSet} (hs : s.Sorted) (node : Value) :
    (a.annotate s node).Sorted := by
  obtain ⟨ts, -, hannotate⟩ := exists_annotate_eq node a
  rw [hannotate]
  exact TagSet.sorted_insertAll ts hs

end Annotator

namespace Compiler

/-- A title, a description and a `required` flag, each optional, are of strictly rising kinds. -/
theorem ascending_of_kinds {o₁ o₂ o₃ : Option Tag} (h₁ : ∀ u ∈ o₁, u.kind = .title)
    (h₂ : ∀ u ∈ o₂, u.kind = .description) (h₃ : ∀ u ∈ o₃, u.kind = .required) :
    ([o₁, o₂, o₃].filterMap id).Pairwise (fun a b => a.kind.rank < b.kind.rank) := by
  rcases o₁ with _ | u₁ <;> rcases o₂ with _ | u₂ <;> rcases o₃ with _ | u₃ <;> simp_all <;> decide

/-- The `required` flag of a node, as a tag. -/
def requiredTag? (node : Value) : Option Tag :=
  match node.get? "required" with
  | some (.bool b) => some (Tag.required b)
  | _ => none

theorem kind_of_mem_requiredTag? {node : Value} {u : Tag} (hu : u ∈ requiredTag? node) :
    u.kind = .required := by
  unfold requiredTag? at hu
  split at hu
  · obtain rfl := Option.mem_some_iff.mp hu
    rfl
  · cases hu

theorem coreTags_eq (node : Value) :
    coreTags node = TagSet.empty.insertAll ([(Keyword.nonEmptyText node "title").map Tag.title,
      (Keyword.nonEmptyText node "description").map Tag.description, requiredTag? node].filterMap id) :=
  rfl

/-- The tags a member shares with its accessors: the node's title, its description and its
`required` flag, in that order. -/
theorem coreTags_tags (node : Value) :
    (coreTags node).tags = [(Keyword.nonEmptyText node "title").map Tag.title,
      (Keyword.nonEmptyText node "description").map Tag.description, requiredTag? node].filterMap id := by
  rw [coreTags_eq]
  simp only [TagSet.empty]
  rw [TagSet.insertAll_of_ascending, List.nil_append]
  · exact ascending_of_kinds (fun _ => Tag.kind_of_mem_map Tag.title fun _ => rfl)
      (fun _ => Tag.kind_of_mem_map Tag.description fun _ => rfl) (fun _ => kind_of_mem_requiredTag?)
  · simp

theorem coreTags_ascending (node : Value) :
    (coreTags node).tags.Pairwise (fun a b => a.kind.rank < b.kind.rank) := by
  rw [coreTags_tags]
  exact ascending_of_kinds (fun _ => Tag.kind_of_mem_map Tag.title fun _ => rfl)
    (fun _ => Tag.kind_of_mem_map Tag.description fun _ => rfl) (fun _ => kind_of_mem_requiredTag?)

theorem sorted_coreTags (node : Value) : (coreTags node).Sorted :=
  (coreTags_ascending node).imp Nat.le_of_lt

theorem kind_of_mem_coreTags {node : Value} {t : Tag} (ht : t ∈ (coreTags node).tags) :
    t.kind = .title ∨ t.kind = .description ∨ t.kind = .required := by
  rw [coreTags_tags] at ht
  simp only [List.mem_filterMap, List.mem_cons, List.not_mem_nil, or_false, id_eq,
    exists_eq_or_imp, exists_eq_left] at ht
  rcases ht with ht | ht | ht
  · exact .inl (Tag.kind_of_mem_map Tag.title (fun _ => rfl) ht)
  · exact .inr (.inl (Tag.kind_of_mem_map Tag.description (fun _ => rfl) ht))
  · exact .inr (.inr (kind_of_mem_requiredTag? ht))

/-- In a list of strictly rising kinds, adding a tag equal to one present changes nothing. -/
theorem insertInto_eq_self {u : Tag} : ∀ {l : List Tag},
    l.Pairwise (fun a b => a.kind.rank < b.kind.rank) → ∀ w ∈ l, Tag.compare u w = .eq →
      TagSet.insertInto u l = l
  | [], _, _, hw, _ => absurd hw List.not_mem_nil
  | v :: rest, hl, w, hw, heq => by
    obtain ⟨hv, hrest⟩ := List.pairwise_cons.mp hl
    rw [TagSet.insertInto]
    rcases List.mem_cons.mp hw with rfl | hw
    · rw [heq]
    · -- `w` comes after `v`, so `v` is of a kind below `u`'s
      have hlt : v.kind.rank < u.kind.rank := Tag.kind_eq_of_compare_eq heq ▸ hv w hw
      have hne : u.kind ≠ v.kind := fun h => by rw [h] at hlt; exact Nat.lt_irrefl _ hlt
      rw [Tag.compare_of_kind_ne hne, Nat.compare_eq_gt.mpr hlt, insertInto_eq_self hrest w hw heq]

/-- The form-editor annotator adds a node's title and description again; the tags a member
shares with its accessors hold them already, so nothing changes. -/
theorem insert_coreTags {node : Value} {t : Tag} (ht : t ∈ Annotator.formTags node)
    (hkind : t.kind = .title ∨ t.kind = .description) : (coreTags node).insert t = coreTags node := by
  have hascending := (coreTags_ascending node)
  have htags := coreTags_tags node
  simp only [Annotator.formTags, List.mem_filterMap, List.mem_cons, List.not_mem_nil, or_false,
    id_eq, exists_eq_or_imp, exists_eq_left] at ht
  -- only the title and the description are of these kinds
  rcases ht with ht | ht | ht | ht | ht | ht
  · obtain ⟨x, hx, rfl⟩ := Option.map_eq_some_iff.mp ht
    refine congrArg TagSet.mk (insertInto_eq_self hascending (.title x) ?_ (by simp [Tag.compare]))
    simp [htags, hx]
  · obtain ⟨x, -, rfl⟩ := Option.map_eq_some_iff.mp ht
    simp [Tag.kind] at hkind
  · obtain ⟨x, -, rfl⟩ := Option.map_eq_some_iff.mp ht
    simp [Tag.kind] at hkind
  · obtain ⟨x, -, hx⟩ := Option.bind_eq_some_iff.mp ht
    obtain ⟨k, -, rfl⟩ := Option.map_eq_some_iff.mp hx
    simp [Tag.kind] at hkind
  · obtain ⟨x, -, rfl⟩ := Option.map_eq_some_iff.mp ht
    simp [Tag.kind] at hkind
  · obtain ⟨x, hx, rfl⟩ := Option.map_eq_some_iff.mp ht
    refine congrArg TagSet.mk (insertInto_eq_self hascending (.description x) ?_
      (by simp [Tag.compare]))
    simp [htags, hx]

end Compiler

end SchemaModel

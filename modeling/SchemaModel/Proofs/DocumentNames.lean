import SchemaModel.Document
import Mathlib
/-!
# Reading locators against document names

A relative locator is read against the directory of the document that holds it, and `normalize`
settles the result: empty and `.` components go, and `..` cancels the name before it. This module
proves the laws of that reading for a document named by a plain path or by a URI
`scheme://authority/path`:

* `normalize` is idempotent, so every name a relative locator leads to is a fixed point of it;
* reading hop by hop agrees with reading the combined locator: `b` read against the document that
  `a` leads to is `directory a ++ b` read against the first document, when `a` ends in a name;
* a name under `scheme://authority/` stays under it, whatever `..` components a locator holds.

The proofs follow `normalize` through its three stages. The scheme and authority are cut off at
the first `://` (`splitAuthority_append`). The components of the rest are pushed on a stack whose
invariant, `Settled`, says that a `..` only sits on other `..`s and never in an absolute path.
The kept components are then written back (`pathText`). A settled stack that is written back and
read again is the same stack (`foldl_push_components_dirText_append`); idempotence and the
hop-by-hop law both come from that.
-/

namespace SchemaModel.Document

/-! ### The first `://` -/

/-- A text that is not followed by `/` cannot complete a `://` across the seam. -/
theorem isPrefixOf_schemeSep_append {xs ys : List Char} (hx : xs ≠ [])
    (hy : ys.head? ≠ some '/') :
    "://".toList.isPrefixOf (xs ++ ys) = "://".toList.isPrefixOf xs := by
  rcases xs with _ | ⟨a, _ | ⟨b, _ | ⟨c, xs⟩⟩⟩
  · exact absurd rfl hx
  all_goals cases ys with
    | nil => simp
    | cons y ys => grind [List.isPrefixOf]

/-- Two texts without `://` make none when the second does not start with `/`. -/
theorem infixIndex?_append_eq_none {xs ys : List Char}
    (hx : infixIndex? "://".toList xs = none) (hy : infixIndex? "://".toList ys = none)
    (hys : ys.head? ≠ some '/') : infixIndex? "://".toList (xs ++ ys) = none := by
  induction xs with
  | nil => exact hy
  | cons c xs ih =>
    rw [infixIndex?] at hx
    split at hx
    · cases hx
    · rw [List.cons_append, infixIndex?, ← List.cons_append,
        isPrefixOf_schemeSep_append (List.cons_ne_nil c xs) hys, if_neg ‹_›,
        ih (Option.map_eq_none_iff.1 hx), Option.map_none]

theorem infixIndex?_eq_none_of_not_mem {cs : List Char} (h : '/' ∉ cs) :
    infixIndex? "://".toList cs = none := by
  induction cs with
  | nil => rfl
  | cons c cs ih =>
    have hcs : '/' ∉ cs := fun hmem => h (List.mem_cons_of_mem c hmem)
    have hpre : "://".toList.isPrefixOf (c :: cs) = false := by
      rcases cs with _ | ⟨d, cs⟩
      · simp [List.isPrefixOf]
      · grind [List.isPrefixOf]
    rw [infixIndex?, hpre, if_neg Bool.false_ne_true, ih hcs, Option.map_none]

theorem infixIndex?_eq_none_of_prefix_eq_none {xs ys : List Char} (hpre : xs <+: ys)
    (hy : infixIndex? "://".toList ys = none) : infixIndex? "://".toList xs = none := by
  obtain ⟨zs, rfl⟩ := hpre
  induction xs with
  | nil => rfl
  | cons c xs ih =>
    rw [List.cons_append, infixIndex?] at hy
    split at hy
    · cases hy
    · have hnot : "://".toList.isPrefixOf (c :: xs) = false := by
        rw [Bool.eq_false_iff]
        intro hxs
        exact ‹¬_› (List.isPrefixOf_iff_prefix.2
          ((List.isPrefixOf_iff_prefix.1 hxs).trans (List.prefix_append (c :: xs) zs)))
      rw [infixIndex?, hnot, if_neg Bool.false_ne_true, ih (Option.map_eq_none_iff.1 hy),
        Option.map_none]

/-- The first `://` after a scheme that holds none is the one that ends the scheme. -/
theorem infixIndex?_scheme_append {scheme rest : List Char}
    (h : infixIndex? "://".toList scheme = none) :
    infixIndex? "://".toList (scheme ++ "://".toList ++ rest) = some scheme.length := by
  induction scheme with
  | nil =>
    rw [List.nil_append, infixIndex?.eq_def]
    simp [List.isPrefixOf]
  | cons c scheme ih =>
    rw [infixIndex?] at h
    split at h
    · cases h
    · have hsep : ("://".toList ++ rest).head? ≠ some '/' := by simp
      rw [List.append_assoc, List.cons_append, infixIndex?, ← List.cons_append,
        isPrefixOf_schemeSep_append (List.cons_ne_nil c scheme) hsep, if_neg ‹_›,
        ← List.append_assoc, ih (Option.map_eq_none_iff.1 h), Option.map_some,
        List.length_cons]

/-- Where the first occurrence of a pattern stands, the text before it holds none. -/
theorem infixIndex?_eq_some {pat cs : List Char} {i : Nat} (hpat : pat ≠ [])
    (h : infixIndex? pat cs = some i) :
    cs = cs.take i ++ pat ++ cs.drop (i + pat.length) ∧ infixIndex? pat (cs.take i) = none := by
  induction cs generalizing i with
  | nil =>
    rw [infixIndex?, if_neg (by simpa using hpat)] at h
    cases h
  | cons c cs ih =>
    have hempty : infixIndex? pat [] = none := by
      rw [infixIndex?, if_neg (by simpa using hpat)]
    rw [infixIndex?] at h
    split at h
    · -- the pattern starts the text
      cases h
      obtain ⟨rest, hrest⟩ := List.isPrefixOf_iff_prefix.1 ‹_›
      refine ⟨?_, hempty⟩
      rw [← hrest, List.take_zero, List.nil_append, Nat.zero_add, List.drop_left]
    · obtain ⟨j, hj, rfl⟩ := Option.map_eq_some_iff.1 h
      obtain ⟨hcs, hnone⟩ := ih hj
      refine ⟨?_, ?_⟩
      · rw [List.take_succ_cons, Nat.add_right_comm, List.drop_succ_cons, List.cons_append,
          List.cons_append, ← hcs]
      · -- a match in the shorter text would be a match in the whole one
        have hnot : pat.isPrefixOf (c :: cs.take j) = false := by
          rw [Bool.eq_false_iff]
          intro hpre
          exact ‹¬_› (List.isPrefixOf_iff_prefix.2 ((List.isPrefixOf_iff_prefix.1 hpre).trans
            ((List.prefix_cons_inj c).2 ⟨_, List.take_append_drop j cs⟩)))
        rw [List.take_succ_cons, infixIndex?, hnot, if_neg Bool.false_ne_true, hnone,
          Option.map_none]

/-! ### Cutting off the scheme and authority -/

/-- A text `scheme://authority`: the scheme holds no `://` and the authority no `/`. -/
def IsSchemeAuthority (pre : List Char) : Prop :=
  ∃ scheme authority : List Char, pre = scheme ++ "://".toList ++ authority ∧
    infixIndex? "://".toList scheme = none ∧ '/' ∉ authority

theorem IsSchemeAuthority.ne_nil {pre : List Char} (h : IsSchemeAuthority pre) : pre ≠ [] := by
  obtain ⟨scheme, authority, rfl, -, -⟩ := h
  simp

theorem splitAuthority_of_eq_none {cs : List Char} (h : infixIndex? "://".toList cs = none) :
    splitAuthority cs = ([], cs) := by
  rw [splitAuthority, h]

/-- A scheme and authority followed by nothing or by `/` are cut off whole. -/
theorem splitAuthority_append_of_isSchemeAuthority {pre rest : List Char}
    (hpre : IsSchemeAuthority pre) (hrest : rest = [] ∨ rest.head? = some '/') :
    splitAuthority (pre ++ rest) = (pre, rest) := by
  obtain ⟨scheme, authority, rfl, hscheme, hauth⟩ := hpre
  have hsep : infixIndex? "://".toList (scheme ++ "://".toList ++ (authority ++ rest)) =
      some scheme.length :=
    infixIndex?_scheme_append hscheme
  have hlen : (scheme ++ "://".toList).length = scheme.length + 3 := by simp
  -- the authority runs up to the first `/`, which is the one that starts the rest
  have hwhile : (authority ++ rest).takeWhile (· ≠ '/') = authority := by
    rw [List.takeWhile_append_of_pos (fun c hc => by simpa using ne_of_mem_of_not_mem hc hauth)]
    rcases hrest with rfl | hhead
    · simp
    · obtain ⟨rest', rfl⟩ : ∃ rest', rest = '/' :: rest' := by
        cases rest with
        | nil => cases hhead
        | cons c rest' => exact ⟨rest', by simpa using hhead⟩
      simp
  rw [splitAuthority, List.append_assoc, hsep]
  dsimp only
  rw [← hlen, List.drop_left, hwhile, ← List.length_append, ← List.append_assoc,
    List.take_left, List.drop_left]

theorem dropWhile_ne_slash (cs : List Char) :
    cs.dropWhile (· ≠ '/') = [] ∨ (cs.dropWhile (· ≠ '/')).head? = some '/' := by
  by_cases hnil : cs.dropWhile (· ≠ '/') = []
  · exact Or.inl hnil
  · right
    have hhead := List.head_dropWhile_not (· ≠ '/') hnil
    rw [List.head?_eq_some_head hnil]
    simpa using hhead

/-- `splitAuthority` cuts a text into a scheme-authority part and the rest. The part is empty when
the text holds no `://`; otherwise the rest is empty or starts with `/`. -/
theorem splitAuthority_spec (cs : List Char) :
    cs = (splitAuthority cs).1 ++ (splitAuthority cs).2 ∧
      ((splitAuthority cs).1 = [] ∧ infixIndex? "://".toList cs = none ∨
        IsSchemeAuthority (splitAuthority cs).1 ∧
          ((splitAuthority cs).2 = [] ∨ (splitAuthority cs).2.head? = some '/')) := by
  cases hsep : infixIndex? "://".toList cs with
  | none => simp [splitAuthority_of_eq_none hsep]
  | some i =>
    obtain ⟨hcs, hscheme⟩ := infixIndex?_eq_some (by simp) hsep
    set after := cs.drop (i + "://".toList.length)
    have hpre : IsSchemeAuthority (cs.take i ++ "://".toList ++ after.takeWhile (· ≠ '/')) :=
      ⟨_, _, rfl, hscheme, fun hmem => by simpa using List.mem_takeWhile_imp hmem⟩
    have hcs' : cs = (cs.take i ++ "://".toList ++ after.takeWhile (· ≠ '/')) ++
        after.dropWhile (· ≠ '/') := by
      rw [List.append_assoc, List.takeWhile_append_dropWhile]
      exact hcs
    rw [hcs', splitAuthority_append_of_isSchemeAuthority hpre (dropWhile_ne_slash after)]
    exact ⟨rfl, Or.inr ⟨hpre, dropWhile_ne_slash after⟩⟩

/-- A text whose scheme and authority, if it has them, are closed by a `/` keeps them when more
text follows: the appended text joins the rest. -/
theorem splitAuthority_append {xs ys pre rest : List Char}
    (hsplit : splitAuthority xs = (pre, rest)) (hclosed : pre ≠ [] → rest ≠ [])
    (hy : infixIndex? "://".toList ys = none) (hys : ys.head? ≠ some '/') :
    splitAuthority (xs ++ ys) = (pre, rest ++ ys) := by
  obtain ⟨hxs, hcases⟩ := splitAuthority_spec xs
  rw [hsplit] at hxs hcases
  rcases hcases with ⟨rfl, hnone⟩ | ⟨hpre, hrest⟩
  · rw [List.nil_append] at hxs
    subst hxs
    exact splitAuthority_of_eq_none (infixIndex?_append_eq_none hnone hy hys)
  · have hhead : rest.head? = some '/' := hrest.resolve_left (hclosed hpre.ne_nil)
    have hhead' : (rest ++ ys).head? = some '/' := by
      rw [List.head?_append, hhead, Option.some_or]
    rw [hxs, List.append_assoc]
    exact splitAuthority_append_of_isSchemeAuthority hpre (Or.inr hhead')

/-! ### Components -/

theorem componentsFrom_append_slash (xs ys cur : List Char) :
    componentsFrom (xs ++ '/' :: ys) cur = componentsFrom xs cur ++ componentsFrom ys [] := by
  induction xs generalizing cur with
  | nil => simp [componentsFrom]
  | cons c xs ih => by_cases hc : c = '/' <;> simp [componentsFrom, hc, ih]

theorem components_append_slash (xs ys : List Char) :
    components (xs ++ '/' :: ys) = components xs ++ components ys :=
  componentsFrom_append_slash xs ys []

theorem componentsFrom_of_not_mem {xs : List Char} (h : '/' ∉ xs) (cur : List Char) :
    componentsFrom xs cur = [String.ofList (cur.reverse ++ xs)] := by
  induction xs generalizing cur with
  | nil => simp [componentsFrom]
  | cons c xs ih =>
    have hc : c ≠ '/' := fun hc => h (hc ▸ List.mem_cons_self)
    rw [componentsFrom, if_neg hc, ih (fun hmem => h (List.mem_cons_of_mem c hmem))]
    simp

theorem components_of_not_mem {xs : List Char} (h : '/' ∉ xs) :
    components xs = [String.ofList xs] := by
  rw [components, componentsFrom_of_not_mem h, List.reverse_nil, List.nil_append]

theorem not_mem_of_mem_componentsFrom {cs cur : List Char} {part : String} (hcur : '/' ∉ cur)
    (h : part ∈ componentsFrom cs cur) : '/' ∉ part.toList := by
  induction cs generalizing cur with
  | nil =>
    rw [componentsFrom, List.mem_singleton] at h
    simpa [h] using hcur
  | cons c cs ih =>
    rw [componentsFrom] at h
    split at h
    · rcases List.mem_cons.1 h with rfl | hmem
      · simpa using hcur
      · exact ih List.not_mem_nil hmem
    · have hc : c ≠ '/' := ‹_›
      exact ih (fun hmem => (List.mem_cons.1 hmem).elim (fun h' => hc h'.symm) hcur) h

theorem not_mem_of_mem_components {cs : List Char} {part : String} (h : part ∈ components cs) :
    '/' ∉ part.toList :=
  not_mem_of_mem_componentsFrom List.not_mem_nil h

/-! ### The stack of kept components -/

/-- A stack of kept components, last first, as `push` leaves it: each component is a name without
`/`, neither empty nor `.`, and a `..` only sits on other `..`s, in a relative path. -/
def Settled (absolute : Bool) : List String → Prop
  | [] => True
  | part :: kept => part ≠ "" ∧ part ≠ "." ∧ '/' ∉ part.toList ∧
      (part = ".." → absolute = false ∧ ∀ below ∈ kept, below = "..") ∧
      Settled absolute kept

section Settled

variable {absolute : Bool}

theorem settled_nil : Settled absolute [] := trivial

theorem Settled.tail {part : String} {kept : List String} (h : Settled absolute (part :: kept)) :
    Settled absolute kept :=
  h.2.2.2.2

theorem Settled.mem {kept : List String} (h : Settled absolute kept) :
    ∀ part ∈ kept, part ≠ "" ∧ '/' ∉ part.toList := by
  induction kept with
  | nil => simp
  | cons part kept ih =>
    intro q hq
    rcases List.mem_cons.1 hq with rfl | hq
    · exact ⟨h.1, h.2.2.1⟩
    · exact ih h.tail q hq

theorem Settled.push {kept : List String} {part : String} (h : Settled absolute kept)
    (hpart : '/' ∉ part.toList) : Settled absolute (push absolute kept part) := by
  unfold Document.push
  by_cases hskip : part = "" ∨ part = "."
  · rw [if_pos hskip]
    exact h
  rw [if_neg hskip]
  rw [not_or] at hskip
  by_cases hup : part = ".."
  · subst hup
    rw [if_pos rfl]
    cases kept with
    | nil => cases absolute <;> simp [Settled]
    | cons last rest =>
      dsimp only
      by_cases hlast : last = ".."
      · -- a `..` on a `..` is kept, and the one below was only ever kept in a relative path
        obtain ⟨hrel, hbelow⟩ := h.2.2.2.1 hlast
        rw [if_neg (not_not.2 hlast)]
        refine ⟨by decide, by decide, by decide, fun _ => ⟨hrel, ?_⟩, h⟩
        simpa [hlast] using hbelow
      · rw [if_pos hlast]
        exact h.tail
  · rw [if_neg hup]
    exact ⟨hskip.1, hskip.2, hpart, fun h' => absurd h' hup, h⟩

theorem Settled.foldl_push {kept : List String} (h : Settled absolute kept) {parts : List String}
    (hparts : ∀ part ∈ parts, '/' ∉ part.toList) :
    Settled absolute (parts.foldl (Document.push absolute) kept) := by
  induction parts generalizing kept with
  | nil => exact h
  | cons part parts ih =>
    rw [List.foldl_cons]
    exact ih (h.push (hparts part List.mem_cons_self))
      (fun q hq => hparts q (List.mem_cons_of_mem part hq))

/-- Pushing the top of a settled stack back onto the rest gives the stack again. -/
theorem push_of_settled {part : String} {kept : List String}
    (h : Settled absolute (part :: kept)) : push absolute kept part = part :: kept := by
  obtain ⟨hne, hdot, -, hup, -⟩ := h
  unfold Document.push
  rw [if_neg (by simp [hne, hdot])]
  by_cases hpart : part = ".."
  · obtain ⟨rfl, hbelow⟩ := hup hpart
    subst hpart
    rw [if_pos rfl]
    cases kept with
    | nil => rfl
    | cons last rest => simp [hbelow last List.mem_cons_self]
  · rw [if_neg hpart]

/-- A settled stack, written out in path order and pushed again, is rebuilt as it was. -/
theorem foldl_push_reverse {kept below : List String} (h : Settled absolute (kept ++ below)) :
    kept.reverse.foldl (push absolute) below = kept ++ below := by
  induction kept with
  | nil => rfl
  | cons part kept ih =>
    have htop : Settled absolute (part :: (kept ++ below)) := h
    rw [List.reverse_cons, List.foldl_append, ih htop.tail, List.foldl_cons, List.foldl_nil,
      push_of_settled htop, List.cons_append]

end Settled

/-! ### Writing the stack back -/

/-- The directory text of a stack of kept components, last first: a `/` for an absolute path,
then each component in path order followed by `/`. -/
def dirText (absolute : Bool) (kept : List String) : List Char :=
  (if absolute then ['/'] else []) ++ (kept.reverse.map (·.toList ++ ['/'])).flatten

/-- The text that `normalize` writes for a scheme-authority part, an absolute flag and a stack of
kept components, last first: the directory text of the components below the top, then the top. -/
def pathText (pre : List Char) (absolute : Bool) : List String → List Char
  | [] => pre ++ (if absolute then ['/'] else [])
  | last :: kept => pre ++ dirText absolute kept ++ last.toList

theorem intercalate_append_singleton (parts : List (List Char)) (last : List Char) :
    ['/'].intercalate (parts ++ [last]) = (parts.map (· ++ ['/'])).flatten ++ last := by
  induction parts with
  | nil => simp
  | cons part parts ih =>
    rw [List.cons_append, List.intercalate_cons_of_ne_nil (by simp), ih]
    simp

/-- `normalize` writes the scheme-authority part it cut off and the stack its components left. -/
theorem normalize_toList {path : String} {pre rest : List Char}
    (h : splitAuthority path.toList = (pre, rest)) :
    (normalize path).toList = pathText pre (rest.head? = some '/')
      ((components rest).foldl (push (rest.head? = some '/')) []) := by
  rw [normalize, h]
  dsimp only
  generalize (components rest).foldl (push (rest.head? = some '/')) [] = kept
  cases kept with
  | nil => by_cases habs : rest.head? = some '/' <;> simp [pathText, habs]
  | cons last kept =>
    rw [List.reverse_cons]
    by_cases habs : rest.head? = some '/' <;>
      simp [pathText, dirText, habs, intercalate_append_singleton, Function.comp_def]

theorem components_flatten_append {parts : List String}
    (hparts : ∀ part ∈ parts, '/' ∉ part.toList) (ys : List Char) :
    components ((parts.map (·.toList ++ ['/'])).flatten ++ ys) = parts ++ components ys := by
  induction parts with
  | nil => rfl
  | cons part parts ih =>
    rw [List.map_cons, List.flatten_cons, List.append_assoc, List.append_assoc,
      List.singleton_append, components_append_slash,
      components_of_not_mem (hparts part List.mem_cons_self),
      ih (fun q hq => hparts q (List.mem_cons_of_mem part hq)), String.ofList_toList]
    rfl

theorem head?_ne_slash_of_not_mem {cs : List Char} (h : '/' ∉ cs) : cs.head? ≠ some '/' :=
  fun hhead => h (List.mem_of_mem_head? hhead)

theorem head?_flatten_append_ne {parts : List String}
    (hparts : ∀ part ∈ parts, part ≠ "" ∧ '/' ∉ part.toList) {ys : List Char}
    (hys : ys.head? ≠ some '/') :
    ((parts.map (·.toList ++ ['/'])).flatten ++ ys).head? ≠ some '/' := by
  cases parts with
  | nil => simpa using hys
  | cons part parts =>
    obtain ⟨hne, hslash⟩ := hparts part List.mem_cons_self
    obtain ⟨c, cs, hcs⟩ := List.exists_cons_of_ne_nil (by simpa using hne : part.toList ≠ [])
    have hc : c ≠ '/' := fun hc => hslash (by simp [hcs, hc])
    simp [hcs, hc]

theorem infixIndex?_append_slash {xs : List Char} (h : '/' ∉ xs) :
    infixIndex? "://".toList (xs ++ ['/']) = none := by
  induction xs with
  | nil => simp [infixIndex?, List.isPrefixOf]
  | cons c xs ih =>
    have hxs : '/' ∉ xs := fun hmem => h (List.mem_cons_of_mem c hmem)
    have hpre : "://".toList.isPrefixOf (c :: (xs ++ ['/'])) = false := by
      rcases xs with _ | ⟨d, xs⟩
      · simp [List.isPrefixOf]
      · have hd : d ≠ '/' := fun hd => hxs (hd ▸ List.mem_cons_self)
        grind [List.isPrefixOf]
    rw [List.cons_append, infixIndex?, hpre, if_neg Bool.false_ne_true, ih hxs, Option.map_none]

theorem infixIndex?_flatten_append {parts : List String}
    (hparts : ∀ part ∈ parts, part ≠ "" ∧ '/' ∉ part.toList) {ys : List Char}
    (hy : infixIndex? "://".toList ys = none) (hys : ys.head? ≠ some '/') :
    infixIndex? "://".toList ((parts.map (·.toList ++ ['/'])).flatten ++ ys) = none := by
  induction parts with
  | nil => simpa using hy
  | cons part parts ih =>
    have hrest : ∀ q ∈ parts, q ≠ "" ∧ '/' ∉ q.toList :=
      fun q hq => hparts q (List.mem_cons_of_mem part hq)
    rw [List.map_cons, List.flatten_cons, List.append_assoc]
    exact infixIndex?_append_eq_none (infixIndex?_append_slash (hparts part List.mem_cons_self).2)
      (ih hrest) (head?_flatten_append_ne hrest hys)

section Settled

variable {absolute : Bool} {kept : List String}

theorem Settled.mem_reverse (h : Settled absolute kept) :
    ∀ part ∈ kept.reverse, part ≠ "" ∧ '/' ∉ part.toList :=
  fun part hpart => h.mem part (List.mem_reverse.1 hpart)

/-- A directory text starts with `/` exactly when it is absolute. -/
theorem decide_head?_dirText_append (h : Settled absolute kept) {ys : List Char}
    (hys : ys.head? ≠ some '/') :
    decide ((dirText absolute kept ++ ys).head? = some '/') = absolute := by
  cases absolute with
  | false =>
    rw [dirText, if_neg Bool.false_ne_true, List.nil_append]
    simpa using head?_flatten_append_ne h.mem_reverse hys
  | true => simp [dirText]

theorem infixIndex?_dirText_append (h : Settled absolute kept) {ys : List Char}
    (hy : infixIndex? "://".toList ys = none) (hys : ys.head? ≠ some '/') :
    infixIndex? "://".toList (dirText absolute kept ++ ys) = none := by
  have hflat := infixIndex?_flatten_append h.mem_reverse hy hys
  cases absolute with
  | false =>
    rw [dirText, if_neg Bool.false_ne_true, List.nil_append]
    exact hflat
  | true =>
    have hroot : "://".toList.isPrefixOf
        ('/' :: ((kept.reverse.map (·.toList ++ ['/'])).flatten ++ ys)) = false := by
      simp [List.isPrefixOf]
    rw [dirText, if_pos rfl, List.singleton_append, List.cons_append, infixIndex?, hroot,
      if_neg Bool.false_ne_true, hflat, Option.map_none]

/-- A scheme-authority part and a directory text after it are cut apart again, provided the text is
absolute or empty when there is a scheme. -/
theorem splitAuthority_dirText {pre : List Char} (hpre : pre = [] ∨ IsSchemeAuthority pre)
    (h : Settled absolute kept) (hopen : pre ≠ [] → absolute = true ∨ kept = []) :
    splitAuthority (pre ++ dirText absolute kept) = (pre, dirText absolute kept) := by
  rcases hpre with rfl | hpre
  · have hnone : infixIndex? "://".toList (dirText absolute kept ++ []) = none :=
      infixIndex?_dirText_append h (by simp [infixIndex?]) (by simp)
    rw [List.append_nil] at hnone
    exact splitAuthority_of_eq_none hnone
  · apply splitAuthority_append_of_isSchemeAuthority hpre
    rcases hopen hpre.ne_nil with rfl | rfl
    · right
      simp [dirText]
    · cases absolute <;> simp [dirText]

/-- After a written directory text, a text without `://` that does not start with `/` joins the
rest, provided a scheme is followed by an absolute path. -/
theorem splitAuthority_dirText_append {pre ys : List Char}
    (hpre : pre = [] ∨ IsSchemeAuthority pre) (h : Settled absolute kept)
    (habs : pre ≠ [] → absolute = true) (hy : infixIndex? "://".toList ys = none)
    (hys : ys.head? ≠ some '/') :
    splitAuthority (pre ++ dirText absolute kept ++ ys) = (pre, dirText absolute kept ++ ys) :=
  splitAuthority_append (splitAuthority_dirText hpre h (fun hne => .inl (habs hne)))
    (fun hne => by rw [habs hne]; simp [dirText]) hy hys

/-- Reading a directory text gives back its stack, after an empty component for the leading `/`
of an absolute path. -/
theorem components_dirText_append (h : Settled absolute kept) (ys : List Char) :
    components (dirText absolute kept ++ ys) =
      (if absolute then [""] else []) ++ kept.reverse ++ components ys := by
  have hparts : ∀ part ∈ kept.reverse, '/' ∉ part.toList :=
    fun part hpart => (h.mem_reverse part hpart).2
  cases absolute with
  | false =>
    rw [dirText, if_neg Bool.false_ne_true, List.nil_append, components_flatten_append hparts]
    simp
  | true =>
    have hroot := components_append_slash []
      ((kept.reverse.map (·.toList ++ ['/'])).flatten ++ ys)
    rw [List.nil_append] at hroot
    rw [dirText, if_pos rfl, List.singleton_append, List.cons_append, hroot,
      components_flatten_append hparts]
    simp [components, componentsFrom]

/-- A settled stack that is written out and read again is the stack it was: the components read
after a directory text are pushed onto that text's stack. -/
theorem foldl_push_components_dirText_append (h : Settled absolute kept) (ys : List Char) :
    (components (dirText absolute kept ++ ys)).foldl (push absolute) [] =
      (components ys).foldl (push absolute) kept := by
  have hkept : kept.reverse.foldl (push absolute) [] = kept := by
    simpa using foldl_push_reverse (show Settled absolute (kept ++ []) by rwa [List.append_nil])
  rw [components_dirText_append h, List.foldl_append, List.foldl_append]
  cases absolute <;> simp [hkept, push]

/-- Normalising a written stack reads the same stack back. -/
theorem normalize_pathText {pre : List Char} (hpre : pre = [] ∨ IsSchemeAuthority pre)
    (h : Settled absolute kept) (hopen : pre ≠ [] → absolute = true ∨ kept = []) :
    (normalize (String.ofList (pathText pre absolute kept))).toList =
      pathText pre absolute kept := by
  cases kept with
  | nil =>
    have hsplit : splitAuthority (String.ofList (pathText pre absolute [])).toList =
        (pre, dirText absolute [] ++ []) := by
      have htext : pathText pre absolute [] = pre ++ dirText absolute [] := by
        cases absolute <;> simp [pathText, dirText]
      rw [String.toList_ofList, htext, List.append_nil, splitAuthority_dirText hpre h hopen]
    rw [normalize_toList hsplit, decide_head?_dirText_append h (by simp),
      foldl_push_components_dirText_append h]
    simp [components, componentsFrom, push]
  | cons last kept =>
    have habs : pre ≠ [] → absolute = true :=
      fun hne => (hopen hne).resolve_right (List.cons_ne_nil last kept)
    have hlast : '/' ∉ last.toList := (h.mem last List.mem_cons_self).2
    have hsplit : splitAuthority (String.ofList (pathText pre absolute (last :: kept))).toList =
        (pre, dirText absolute kept ++ last.toList) := by
      rw [String.toList_ofList, pathText]
      exact splitAuthority_dirText_append hpre h.tail habs (infixIndex?_eq_none_of_not_mem hlast)
        (head?_ne_slash_of_not_mem hlast)
    rw [normalize_toList hsplit,
      decide_head?_dirText_append h.tail (head?_ne_slash_of_not_mem hlast),
      foldl_push_components_dirText_append h.tail, components_of_not_mem hlast,
      String.ofList_toList, List.foldl_cons, List.foldl_nil, push_of_settled h]

end Settled

/-- `normalize` is idempotent: what it writes is already settled. -/
theorem normalize_normalize (path : String) : normalize (normalize path) = normalize path := by
  obtain ⟨-, hcases⟩ := splitAuthority_spec path.toList
  set pre := (splitAuthority path.toList).1
  set rest := (splitAuthority path.toList).2
  have hsplit : splitAuthority path.toList = (pre, rest) := rfl
  have hset : Settled (rest.head? = some '/')
      ((components rest).foldl (push (rest.head? = some '/')) []) :=
    settled_nil.foldl_push (fun _ => not_mem_of_mem_components)
  have hpre : pre = [] ∨ IsSchemeAuthority pre := hcases.imp And.left And.left
  -- a scheme is followed by an absolute path or by nothing at all
  have hopen : pre ≠ [] → decide (rest.head? = some '/') = true ∨
      (components rest).foldl (push (rest.head? = some '/')) [] = [] := by
    intro hne
    rcases (hcases.resolve_left (fun h => hne h.1)).2 with hnil | hhead
    · right
      simp [hnil, components, componentsFrom, push]
    · exact .inl (by simpa using hhead)
  have hnorm : normalize path = String.ofList (pathText pre (rest.head? = some '/')
      ((components rest).foldl (push (rest.head? = some '/')) [])) := by
    rw [← normalize_toList hsplit, String.ofList_toList]
  rw [String.ext_iff, hnorm, normalize_pathText hpre hset hopen, String.toList_ofList]

/-! ### Directories and file names -/

/-- A text that is empty or ends in `/`: a directory, after which a component starts. -/
def IsDirectoryText (cs : List Char) : Prop := cs = [] ∨ ∃ r, cs = r ++ ['/']

theorem IsDirectoryText.append {xs ys : List Char} (hx : IsDirectoryText xs)
    (hy : IsDirectoryText ys) : IsDirectoryText (xs ++ ys) := by
  rcases hy with rfl | ⟨r, rfl⟩
  · rwa [List.append_nil]
  · exact .inr ⟨xs ++ r, by rw [List.append_assoc]⟩

theorem IsDirectoryText.components_append {xs : List Char} (hx : IsDirectoryText xs) :
    ∃ parts : List String, (∀ part ∈ parts, '/' ∉ part.toList) ∧
      ∀ ys, components (xs ++ ys) = parts ++ components ys := by
  rcases hx with rfl | ⟨r, rfl⟩
  · exact ⟨[], by simp, fun ys => rfl⟩
  · refine ⟨components r, fun _ => not_mem_of_mem_components, fun ys => ?_⟩
    rw [List.append_assoc, List.singleton_append, components_append_slash]

theorem isDirectoryText_dirText (absolute : Bool) (kept : List String) :
    IsDirectoryText (dirText absolute kept) := by
  have hroot : IsDirectoryText (if absolute then ['/'] else []) := by
    cases absolute
    · exact .inl rfl
    · exact .inr ⟨[], rfl⟩
  refine hroot.append ?_
  rcases List.eq_nil_or_concat kept.reverse with hnil | ⟨parts, last, hlast⟩
  · exact .inl (by simp [hnil])
  · exact .inr ⟨(parts.map (·.toList ++ ['/'])).flatten ++ last.toList, by simp [hlast]⟩

/-- What `normalize` writes before its last component is a directory text, provided a scheme is
followed by an absolute path. -/
theorem isDirectoryText_append_dirText {pre : List Char} {absolute : Bool} {kept : List String}
    (habs : pre ≠ [] → absolute = true) : IsDirectoryText (pre ++ dirText absolute kept) := by
  rcases isDirectoryText_dirText absolute kept with hnil | ⟨r, hr⟩
  · -- an empty directory text is relative, so there is no scheme before it
    have hpre : pre = [] := by
      by_contra hne
      rw [habs hne] at hnil
      simp [dirText] at hnil
    rw [hpre, hnil]
    exact .inl rfl
  · exact .inr ⟨pre ++ r, by rw [hr, List.append_assoc]⟩

/-- The directory part of a text: up to and including its last `/`. -/
def dirOf (cs : List Char) : List Char := (cs.reverse.dropWhile (· ≠ '/')).reverse

@[simp] theorem toList_directory (path : String) : (directory path).toList = dirOf path.toList := by
  simp [directory, dirOf]

/-- The last component of a path: what follows its last `/`. -/
def fileName (path : String) : String :=
  String.ofList (path.toList.reverse.takeWhile (· ≠ '/')).reverse

theorem dirOf_append_fileName (path : String) :
    dirOf path.toList ++ (fileName path).toList = path.toList := by
  rw [dirOf, fileName, String.toList_ofList, ← List.reverse_append,
    List.takeWhile_append_dropWhile, List.reverse_reverse]

theorem not_mem_fileName (path : String) : '/' ∉ (fileName path).toList := by
  intro hmem
  rw [fileName, String.toList_ofList, List.mem_reverse] at hmem
  simpa using List.mem_takeWhile_imp hmem

theorem dirOf_prefix_self (path : String) : dirOf path.toList <+: path.toList :=
  ⟨(fileName path).toList, dirOf_append_fileName path⟩

theorem isDirectoryText_dirOf (cs : List Char) : IsDirectoryText (dirOf cs) := by
  rcases dropWhile_ne_slash cs.reverse with hnil | hhead
  · exact .inl (by rw [dirOf, hnil, List.reverse_nil])
  · obtain ⟨rest, hrest⟩ : ∃ rest, cs.reverse.dropWhile (· ≠ '/') = '/' :: rest := by
      cases hcs : cs.reverse.dropWhile (· ≠ '/') with
      | nil => rw [hcs] at hhead; cases hhead
      | cons c rest => rw [hcs] at hhead; exact ⟨rest, by simpa using hhead⟩
    exact .inr ⟨rest.reverse, by rw [dirOf, hrest, List.reverse_cons]⟩

theorem dirOf_eq_self {cs : List Char} (h : IsDirectoryText cs) : dirOf cs = cs := by
  rcases h with rfl | ⟨r, rfl⟩
  · rfl
  · rw [dirOf, List.reverse_append, List.reverse_singleton, List.singleton_append,
      List.dropWhile_cons_of_neg (by simp), List.reverse_cons, List.reverse_reverse]

theorem dirOf_append_of_not_mem {xs ys : List Char} (hys : '/' ∉ ys) :
    dirOf (xs ++ ys) = dirOf xs := by
  have hdrop : ys.reverse.dropWhile (· ≠ '/') = [] :=
    List.dropWhile_eq_nil_iff.2 (fun c hc => by
      simpa using ne_of_mem_of_not_mem (List.mem_reverse.1 hc) hys)
  rw [dirOf, List.reverse_append, List.dropWhile_append, hdrop, if_pos List.isEmpty_nil, dirOf]

theorem dirOf_append_slash_cons (xs ys : List Char) :
    dirOf (xs ++ '/' :: ys) = xs ++ '/' :: dirOf ys := by
  rw [dirOf, List.reverse_append, List.reverse_cons, List.append_assoc, List.singleton_append,
    List.dropWhile_append]
  split
  · rename_i hempty
    rw [List.dropWhile_cons_of_neg (by simp), List.reverse_cons, List.reverse_reverse, dirOf,
      List.isEmpty_iff.1 hempty, List.reverse_nil]
  · rw [List.reverse_append, List.reverse_cons, List.reverse_reverse, List.append_assoc,
      List.singleton_append, dirOf]

/-! ### Locators and the names they lead to -/

/-- A locator that is read against a document's directory: not empty, not starting with `/`, and
without `://`. -/
def IsRelative (locator : String) : Prop :=
  locator ≠ "" ∧ locator.toList.head? ≠ some '/' ∧
    infixIndex? "://".toList locator.toList = none

/-- A component that names something: neither empty nor `.` nor `..`. -/
def IsName (part : String) : Prop := part ≠ "" ∧ part ≠ "." ∧ part ≠ ".."

/-- A document name without `://`. -/
def IsPlainPath (path : String) : Prop := infixIndex? "://".toList path.toList = none

/-- `base` names a document under `scheme://authority/`: the scheme holds no `://` and the
authority no `/`. -/
def IsUnder (scheme authority base : String) : Prop :=
  infixIndex? "://".toList scheme.toList = none ∧ '/' ∉ authority.toList ∧
    ∃ path : String, base = scheme ++ "://" ++ authority ++ "/" ++ path

/-- A document name of one of the two forms locators are read against: a plain path, or a URI
`scheme://authority/path`. -/
def IsDocumentName (base : String) : Prop :=
  IsPlainPath base ∨ ∃ scheme authority, IsUnder scheme authority base

instance : DecidablePred IsRelative := fun _ => inferInstanceAs (Decidable (_ ∧ _ ∧ _))

instance : DecidablePred IsName := fun _ => inferInstanceAs (Decidable (_ ∧ _ ∧ _))

instance : DecidablePred IsPlainPath := fun _ => inferInstanceAs (Decidable (_ = none))

theorem head?_ne_slash_of_prefix_ne_slash {xs ys : List Char} (hpre : xs <+: ys)
    (hys : ys.head? ≠ some '/') : xs.head? ≠ some '/' := by
  obtain ⟨zs, rfl⟩ := hpre
  cases xs with
  | nil => simp
  | cons c xs => simpa using hys

theorem head?_append_ne_slash {xs ys : List Char} (hxs : xs.head? ≠ some '/')
    (hys : ys.head? ≠ some '/') : (xs ++ ys).head? ≠ some '/' := by
  cases xs with
  | nil => simpa using hys
  | cons c xs => simpa using hxs

theorem toList_uri (scheme authority path : String) :
    (scheme ++ "://" ++ authority ++ "/" ++ path).toList =
      (scheme.toList ++ "://".toList ++ authority.toList) ++ '/' :: path.toList := by
  simp

/-- Under `scheme://authority/`, the directory of a name, and whatever follows it, is cut after the
authority. -/
theorem splitAuthority_dirOf_uri_append {scheme authority : String}
    (hscheme : infixIndex? "://".toList scheme.toList = none) (hauth : '/' ∉ authority.toList)
    (path : String) (ys : List Char) :
    splitAuthority (dirOf (scheme ++ "://" ++ authority ++ "/" ++ path).toList ++ ys) =
      (scheme.toList ++ "://".toList ++ authority.toList, '/' :: (dirOf path.toList ++ ys)) := by
  rw [toList_uri, dirOf_append_slash_cons, List.append_assoc, List.cons_append]
  exact splitAuthority_append_of_isSchemeAuthority ⟨_, _, rfl, hscheme, hauth⟩ (.inr rfl)

/-- A relative locator is read in the directory of the base and normalised. -/
theorem join_of_isRelative {locator : String} (h : IsRelative locator) (base : String) :
    join base locator = normalize (directory base ++ locator) := by
  have hempty : locator.isEmpty = false := by simpa using h.1
  have hrel : isAbsolute locator = false := by
    rw [isAbsolute, h.2.2]
    simp [h.2.1]
  rw [join, hempty, hrel]
  rfl

theorem IsRelative.dirOf_sep {a : String} (ha : IsRelative a) :
    infixIndex? "://".toList (dirOf a.toList) = none :=
  infixIndex?_eq_none_of_prefix_eq_none (dirOf_prefix_self a) ha.2.2

theorem IsRelative.dirOf_head {a : String} (ha : IsRelative a) :
    (dirOf a.toList).head? ≠ some '/' :=
  head?_ne_slash_of_prefix_ne_slash (dirOf_prefix_self a) ha.2.1

/-- The directory of a relative locator, and then a relative locator, is relative. -/
theorem IsRelative.directory_append {a b : String} (ha : IsRelative a) (hb : IsRelative b) :
    IsRelative (directory a ++ b) := by
  refine ⟨fun hnil => hb.1 ?_, ?_, ?_⟩
  · have hlist := congrArg String.toList hnil
    rw [String.toList_append, String.toList_empty, List.append_eq_nil_iff] at hlist
    exact String.toList_eq_nil_iff.1 hlist.2
  · simpa using head?_append_ne_slash ha.dirOf_head hb.2.1
  · simpa using infixIndex?_append_eq_none ha.dirOf_sep hb.2.2 hb.2.1

/-- Every name a relative locator leads to is normalised already. -/
theorem normalize_join {locator : String} (h : IsRelative locator) (base : String) :
    normalize (join base locator) = join base locator := by
  rw [join_of_isRelative h, normalize_normalize]

/-! ### Reading hop by hop -/

/-- Reading against the normalised `xs ++ name` is reading against `xs`. Here `xs` is a directory
text whose scheme and authority, if it has them, are closed by a `/`, and `name` is a name without
`/`: normalising keeps `name` on top of the stack that `xs` leaves, so the directory of the result
is that stack written back, and reading it again rebuilds the stack. -/
theorem normalize_directory_normalize_append {xs pre rest : List Char} {name b : String}
    (hsplit : splitAuthority xs = (pre, rest)) (hclosed : pre ≠ [] → rest.head? = some '/')
    (hrest : IsDirectoryText rest) (hname : IsName name) (hslash : '/' ∉ name.toList)
    (hb : IsRelative b) :
    normalize (directory (normalize (String.ofList (xs ++ name.toList))) ++ b) =
      normalize (String.ofList (xs ++ b.toList)) := by
  have hpre : pre = [] ∨ IsSchemeAuthority pre := by
    have hspec := (splitAuthority_spec xs).2
    rw [hsplit] at hspec
    exact hspec.imp And.left And.left
  have hclosed' : pre ≠ [] → rest ≠ [] := fun hne hnil => by simpa [hnil] using hclosed hne
  obtain ⟨parts, hparts, hcomponents⟩ := hrest.components_append
  -- `name` and `b` both do not start with `/`, so the flag is the one of `rest`
  have habs : decide ((rest ++ b.toList).head? = some '/') =
      decide ((rest ++ name.toList).head? = some '/') := by
    cases rest with
    | nil => simp [hb.2.1, head?_ne_slash_of_not_mem hslash]
    | cons c rest => simp
  set absolute := decide ((rest ++ name.toList).head? = some '/')
  have hopen : pre ≠ [] → absolute = true := fun hne => by
    simp [absolute, List.head?_append, hclosed hne]
  set kept := parts.foldl (push absolute) []
  have hkept : Settled absolute kept := settled_nil.foldl_push hparts
  have htop : Settled absolute (name :: kept) :=
    ⟨hname.1, hname.2.1, hslash, fun h => absurd h hname.2.2, hkept⟩
  -- the document `xs ++ name` leads to, and its directory
  have hfirst : (normalize (String.ofList (xs ++ name.toList))).toList =
      pre ++ dirText absolute kept ++ name.toList := by
    have hsplit_name : splitAuthority (String.ofList (xs ++ name.toList)).toList =
        (pre, rest ++ name.toList) := by
      rw [String.toList_ofList]
      exact splitAuthority_append hsplit hclosed' (infixIndex?_eq_none_of_not_mem hslash)
        (head?_ne_slash_of_not_mem hslash)
    rw [normalize_toList hsplit_name, hcomponents, List.foldl_append, components_of_not_mem hslash,
      String.ofList_toList, List.foldl_cons, List.foldl_nil, push_of_settled htop, pathText]
  have hdir : (directory (normalize (String.ofList (xs ++ name.toList)))).toList =
      pre ++ dirText absolute kept := by
    rw [toList_directory, hfirst, dirOf_append_of_not_mem hslash,
      dirOf_eq_self (isDirectoryText_append_dirText hopen)]
  -- both sides cut off `pre` and read the components of `b` onto `kept`
  have hleft : splitAuthority
      (directory (normalize (String.ofList (xs ++ name.toList))) ++ b).toList =
        (pre, dirText absolute kept ++ b.toList) := by
    rw [String.toList_append, hdir]
    exact splitAuthority_dirText_append hpre hkept hopen hb.2.2 hb.2.1
  have hright :
      splitAuthority (String.ofList (xs ++ b.toList)).toList = (pre, rest ++ b.toList) := by
    rw [String.toList_ofList]
    exact splitAuthority_append hsplit hclosed' hb.2.2 hb.2.1
  rw [String.ext_iff, normalize_toList hleft, normalize_toList hright,
    decide_head?_dirText_append hkept hb.2.1, habs, foldl_push_components_dirText_append hkept,
    hcomponents, List.foldl_append]

/-- Reading `b` against the document that `a` leads to is reading `directory a ++ b` against the
first document, when `a` ends in a name. -/
theorem join_join_eq_join_directory_append {base a b : String} (hbase : IsDocumentName base)
    (ha : IsRelative a) (hb : IsRelative b) (hname : IsName (fileName a)) :
    join (join base a) b = join base (directory a ++ b) := by
  rw [join_of_isRelative hb, join_of_isRelative ha, join_of_isRelative (ha.directory_append hb)]
  set xs := dirOf base.toList ++ dirOf a.toList
  have hleft : directory base ++ a = String.ofList (xs ++ (fileName a).toList) := by
    rw [String.ext_iff, String.toList_ofList, List.append_assoc, dirOf_append_fileName,
      String.toList_append, toList_directory]
  have hright : directory base ++ (directory a ++ b) = String.ofList (xs ++ b.toList) := by
    simp [String.ext_iff, xs]
  rw [hleft, hright]
  -- `xs` has its scheme and authority, if any, closed by the `/` after the authority
  obtain ⟨pre, rest, hsplit, hclosed, hrest⟩ : ∃ pre rest, splitAuthority xs = (pre, rest) ∧
      (pre ≠ [] → rest.head? = some '/') ∧ IsDirectoryText rest := by
    rcases hbase with hplain | ⟨scheme, authority, hscheme, hauth, path, rfl⟩
    · have hsep : infixIndex? "://".toList xs = none :=
        infixIndex?_append_eq_none
          (infixIndex?_eq_none_of_prefix_eq_none (dirOf_prefix_self base) hplain) ha.dirOf_sep
          ha.dirOf_head
      exact ⟨[], xs, splitAuthority_of_eq_none hsep, fun hne => absurd rfl hne,
        (isDirectoryText_dirOf _).append (isDirectoryText_dirOf _)⟩
    · exact ⟨scheme.toList ++ "://".toList ++ authority.toList,
        '/' :: (dirOf path.toList ++ dirOf a.toList),
        splitAuthority_dirOf_uri_append hscheme hauth path _, fun _ => rfl,
        IsDirectoryText.append (.inr ⟨[], rfl⟩)
          ((isDirectoryText_dirOf _).append (isDirectoryText_dirOf _))⟩
  exact normalize_directory_normalize_append hsplit hclosed hrest hname (not_mem_fileName a) hb

/-! ### The scheme and authority stay -/

theorem pathText_true (pre : List Char) (kept : List String) :
    ∃ rest, pathText pre true kept = pre ++ '/' :: rest := by
  cases kept with
  | nil => exact ⟨[], by simp [pathText]⟩
  | cons last kept =>
    exact ⟨(kept.reverse.map (·.toList ++ ['/'])).flatten ++ last.toList,
      by simp [pathText, dirText]⟩

/-- A relative locator read against a name under `scheme://authority/` leads to a name under it:
the authority is cut off before the path, so no `..` reaches it. -/
theorem join_isUnder {scheme authority base locator : String}
    (h : IsUnder scheme authority base) (hl : IsRelative locator) :
    IsUnder scheme authority (join base locator) := by
  obtain ⟨hscheme, hauth, path, rfl⟩ := h
  refine ⟨hscheme, hauth, ?_⟩
  have hsplit : splitAuthority (directory (scheme ++ "://" ++ authority ++ "/" ++ path) ++
      locator).toList = (scheme.toList ++ "://".toList ++ authority.toList,
        '/' :: (dirOf path.toList ++ locator.toList)) := by
    rw [String.toList_append, toList_directory]
    exact splitAuthority_dirOf_uri_append hscheme hauth path locator.toList
  have hflag : decide (('/' :: (dirOf path.toList ++ locator.toList)).head? = some '/') = true := by
    simp
  obtain ⟨rest, hrest⟩ := pathText_true (scheme.toList ++ "://".toList ++ authority.toList)
    ((components ('/' :: (dirOf path.toList ++ locator.toList))).foldl (push true) [])
  refine ⟨String.ofList rest, ?_⟩
  rw [join_of_isRelative hl, String.ext_iff, normalize_toList hsplit, hflag, hrest, toList_uri]
  simp only [String.toList_ofList]

/-- Reading relative locators against document names: every name a locator leads to is normalised,
`normalize` being idempotent; reading hop by hop agrees with reading the combined locator; and a
name under `scheme://authority/` stays under it. -/
theorem join_normalized_hop_by_hop_authority_kept :
    (∀ path, normalize (normalize path) = normalize path) ∧
    (∀ base locator, IsRelative locator → normalize (join base locator) = join base locator) ∧
    (∀ base a b, IsDocumentName base → IsRelative a → IsRelative b → IsName (fileName a) →
      join (join base a) b = join base (directory a ++ b)) ∧
    (∀ scheme authority base locator, IsUnder scheme authority base → IsRelative locator →
      IsUnder scheme authority (join base locator)) :=
  ⟨normalize_normalize, fun base _ hl => normalize_join hl base,
    fun _ _ _ hbase ha hb hname => join_join_eq_join_directory_append hbase ha hb hname,
    fun _ _ _ _ h hl => join_isUnder h hl⟩

/-- The laws at two remote names: `z/c.json` and then `../../d.json` against
`http://h/x/y/b.json` is `z/../../d.json` against it, and `../../../c.json` against
`file:///s/a/b.json` stays under `file://`. -/
theorem join_laws_at_remote_names :
    IsDocumentName "http://h/x/y/b.json" ∧ IsRelative "z/c.json" ∧ IsRelative "../../d.json" ∧
      IsName (fileName "z/c.json") ∧
      join (join "http://h/x/y/b.json" "z/c.json") "../../d.json" =
        join "http://h/x/y/b.json" (directory "z/c.json" ++ "../../d.json") ∧
      IsUnder "file" "" "file:///s/a/b.json" ∧ IsRelative "../../../c.json" ∧
      IsUnder "file" "" (join "file:///s/a/b.json" "../../../c.json") := by
  have hbase : IsDocumentName "http://h/x/y/b.json" :=
    .inr ⟨"http", "h", by decide, by decide, "x/y/b.json", by decide⟩
  have ha : IsRelative "z/c.json" := by decide
  have hb : IsRelative "../../d.json" := by decide
  have hname : IsName (fileName "z/c.json") := by decide
  have hunder : IsUnder "file" "" "file:///s/a/b.json" :=
    ⟨by decide, by decide, "s/a/b.json", by decide⟩
  have hl : IsRelative "../../../c.json" := by decide
  exact ⟨hbase, ha, hb, hname,
    join_normalized_hop_by_hop_authority_kept.2.2.1 _ _ _ hbase ha hb hname, hunder, hl,
    join_normalized_hop_by_hop_authority_kept.2.2.2 _ _ _ _ hunder hl⟩

end SchemaModel.Document

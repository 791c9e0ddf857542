import SchemaModel.Settings.Basic
import Mathlib
/-!
# Identifiers are well formed

Every identifier naming produces is made of ASCII letters and digits, `_` and `$`. The first
step replaces everything else by `_`; what follows only drops delimiters and changes the case of
letters, and the digit guard adds a `_`. The case changes stay inside ASCII because the Unicode
upper case of an ASCII character is its ASCII upper case (`upper_of_lt`).

When no delimiter is a letter or a digit, a property identifier contains no delimiter except a
leading `_` before a digit, and naming it again gives it back: that leading `_` is dropped as a
delimiter and added again by the digit guard. An identifier is empty exactly when the property
name, once cleaned, holds delimiters only. A class name starts with an upper-case letter, `_` or
`$`.
-/

namespace SchemaModel

namespace Naming

/-- Every character is an ASCII letter or digit, `_` or `$`. -/
def IsIdentifier (s : String) : Prop := ∀ c ∈ s.toList, isIdentChar c = true

instance : DecidablePred IsIdentifier := fun s =>
  decidable_of_iff (s.toList.all isIdentChar = true) (by simp [IsIdentifier, List.all_eq_true])

/-! ### Characters by code point -/

section Codes

theorem toNat_ofNat_of_lt {n : Nat} (h : n < 0xD800) : (Char.ofNat n).toNat = n := by
  have hvalid : n.isValidChar := Or.inl h
  simp [Char.ofNat, hvalid, Char.ofNatAux]

theorem isUpper_iff_code {c : Char} : c.isUpper = true ↔ 65 ≤ c.toNat ∧ c.toNat ≤ 90 := by
  simp [Char.isUpper, UInt32.le_iff_toNat_le]

theorem isLower_iff_code {c : Char} : c.isLower = true ↔ 97 ≤ c.toNat ∧ c.toNat ≤ 122 := by
  simp [Char.isLower, UInt32.le_iff_toNat_le]

theorem isDigit_iff_code {c : Char} : c.isDigit = true ↔ 48 ≤ c.toNat ∧ c.toNat ≤ 57 := by
  simp [Char.isDigit, UInt32.le_iff_toNat_le]

theorem isAlphanum_iff_code {c : Char} :
    c.isAlphanum = true ↔
      (65 ≤ c.toNat ∧ c.toNat ≤ 90) ∨ (97 ≤ c.toNat ∧ c.toNat ≤ 122) ∨
        (48 ≤ c.toNat ∧ c.toNat ≤ 57) := by
  rw [Char.isAlphanum, Char.isAlpha, Bool.or_eq_true, Bool.or_eq_true, isUpper_iff_code,
    isLower_iff_code, isDigit_iff_code, or_assoc]

theorem isIdentChar_iff_code {c : Char} :
    isIdentChar c = true ↔
      (65 ≤ c.toNat ∧ c.toNat ≤ 90) ∨ (97 ≤ c.toNat ∧ c.toNat ≤ 122) ∨
        (48 ≤ c.toNat ∧ c.toNat ≤ 57) ∨ c.toNat = 95 ∨ c.toNat = 36 := by
  have hunderscore : c = '_' ↔ c.toNat = 95 := Char.toNat_inj.symm
  have hdollar : c = '$' ↔ c.toNat = 36 := Char.toNat_inj.symm
  simp only [isIdentChar, Bool.or_eq_true, decide_eq_true_eq, isAlphanum_iff_code, hunderscore,
    hdollar, or_assoc]

theorem toNat_toUpper (c : Char) :
    c.toUpper.toNat = if 97 ≤ c.toNat ∧ c.toNat ≤ 122 then c.toNat - 32 else c.toNat := by
  unfold Char.toUpper
  split <;> rename_i h <;> simp [UInt32.le_iff_toNat_le] at h <;> simp [h, UInt32.toNat_add] <;>
    omega

theorem toNat_toLower (c : Char) :
    c.toLower.toNat = if 65 ≤ c.toNat ∧ c.toNat ≤ 90 then c.toNat + 32 else c.toNat := by
  unfold Char.toLower
  split <;> rename_i h <;> simp [UInt32.le_iff_toNat_le] at h <;> simp [h, UInt32.toNat_add] <;>
    omega

end Codes

/-! ### Upper case within ASCII -/

section Upper

/-- No character below `ß` has an upper case of several characters. -/
theorem lookup_expansions_of_lt {n : Nat} (h : n < 0xDF) : Upper.expansions.lookup n = none := by
  have hkeys : ∀ e ∈ Upper.expansions, 0xDF ≤ e.1 := by decide
  rw [List.lookup_eq_none_iff]
  intro e he
  have := hkeys e he
  rw [bne_iff_ne]
  omega

/-- Below `µ` only the ASCII lower-case letters have an upper case, 32 code points lower. -/
theorem offset?_of_lt {n : Nat} (h : n < 0xB5) :
    Upper.offset? n = if 97 ≤ n ∧ n ≤ 122 then some (-32) else none := by
  -- the first range is `a`–`z`; every other range starts at `µ` or above
  have hrest : ∀ r ∈ Upper.ranges.tail, 0xB5 ≤ r.1 := by decide +kernel
  unfold Upper.offset?
  rw [show Upper.ranges = (0x61, 0x7A, -32, 1) :: Upper.ranges.tail from rfl, List.find?_cons,
    List.find?_eq_none.mpr]
  · by_cases hlow : 97 ≤ n ∧ n ≤ 122
    · simp [hlow, Nat.mod_one]
    · have hout : (decide (97 ≤ n) && decide (n ≤ 122)) = false := by
        simp only [Bool.and_eq_false_iff, decide_eq_false_iff_not]
        omega
      simp [hlow, Nat.mod_one, hout]
  · -- no later range reaches below `µ`
    intro r hr
    have := hrest r hr
    simp only [Bool.and_eq_true, decide_eq_true_eq, not_and]
    omega

/-- The Unicode upper case of a character below `µ` is its ASCII upper case. -/
theorem upper_of_lt {c : Char} (h : c.toNat < 0xB5) : Upper.upper c = [c.toUpper] := by
  unfold Upper.upper
  rw [lookup_expansions_of_lt (by omega), offset?_of_lt h]
  by_cases hlow : 97 ≤ c.toNat ∧ c.toNat ≤ 122
  · rw [if_pos hlow, List.cons.injEq, ← Char.toNat_inj, toNat_ofNat_of_lt (by omega),
      toNat_toUpper, if_pos hlow]
    exact ⟨by omega, rfl⟩
  · rw [if_neg hlow, List.cons.injEq, ← Char.toNat_inj, toNat_toUpper, if_neg hlow]
    exact ⟨rfl, rfl⟩

theorem upper_of_isIdentChar {c : Char} (h : isIdentChar c = true) : Upper.upper c = [c.toUpper] :=
  upper_of_lt (by have := isIdentChar_iff_code.mp h; omega)

theorem isIdentChar_toUpper {c : Char} (h : isIdentChar c = true) : isIdentChar c.toUpper = true := by
  have hcode := isIdentChar_iff_code.mp h
  rw [isIdentChar_iff_code, toNat_toUpper]
  split_ifs <;> omega

theorem isIdentChar_toLower {c : Char} (h : isIdentChar c = true) : isIdentChar c.toLower = true := by
  have hcode := isIdentChar_iff_code.mp h
  rw [isIdentChar_iff_code, toNat_toLower]
  split_ifs <;> omega

theorem isDigit_toUpper (c : Char) : c.toUpper.isDigit = c.isDigit := by
  rw [Bool.eq_iff_iff, isDigit_iff_code, isDigit_iff_code, toNat_toUpper]
  split_ifs <;> omega

theorem toUpper_eq_or_isAlphanum (c : Char) : c.toUpper = c ∨ c.toUpper.isAlphanum = true := by
  by_cases hlow : 97 ≤ c.toNat ∧ c.toNat ≤ 122
  · right
    rw [isAlphanum_iff_code, toNat_toUpper, if_pos hlow]
    omega
  · left
    rw [← Char.toNat_inj, toNat_toUpper, if_neg hlow]

theorem toLower_eq_or_isAlphanum (c : Char) : c.toLower = c ∨ c.toLower.isAlphanum = true := by
  by_cases hup : 65 ≤ c.toNat ∧ c.toNat ≤ 90
  · right
    rw [isAlphanum_iff_code, toNat_toLower, if_pos hup]
    omega
  · left
    rw [← Char.toNat_inj, toNat_toLower, if_neg hup]

/-- A change that keeps a character or makes it a letter or digit makes no delimiter of a
character that was none, when no delimiter is a letter or digit. -/
theorem not_mem_of_eq_or_isAlphanum {delims : List Char}
    (hdelims : ∀ d ∈ delims, d.isAlphanum = false) {c c' : Char} (hc : c ∉ delims)
    (hchange : c' = c ∨ c'.isAlphanum = true) : c' ∉ delims := by
  intro hmem
  rcases hchange with rfl | hletter
  · exact hc hmem
  · rw [hdelims _ hmem] at hletter
    exact Bool.false_ne_true hletter

theorem toUpper_not_mem {delims : List Char} (hdelims : ∀ d ∈ delims, d.isAlphanum = false)
    {c : Char} (hc : c ∉ delims) : c.toUpper ∉ delims :=
  not_mem_of_eq_or_isAlphanum hdelims hc (toUpper_eq_or_isAlphanum c)

theorem toLower_not_mem {delims : List Char} (hdelims : ∀ d ∈ delims, d.isAlphanum = false)
    {c : Char} (hc : c ∉ delims) : c.toLower ∉ delims :=
  not_mem_of_eq_or_isAlphanum hdelims hc (toLower_eq_or_isAlphanum c)

end Upper

/-! ### The steps of a name -/

section Steps

theorem toList_replaceIllegal (s : String) :
    (replaceIllegal s).toList = s.toList.map fun c => if isIdentChar c then c else '_' := by
  rw [replaceIllegal, String.toList_ofList]

theorem replaceIllegal_isIdentifier (s : String) : IsIdentifier (replaceIllegal s) := by
  intro c hc
  rw [toList_replaceIllegal, List.mem_map] at hc
  obtain ⟨c', -, rfl⟩ := hc
  split_ifs with hident
  · exact hident
  · rfl

theorem replaceIllegal_of_isIdentifier {s : String} (h : IsIdentifier s) : replaceIllegal s = s := by
  apply String.toList_injective
  rw [toList_replaceIllegal]
  conv => rhs; rw [← List.map_id s.toList]
  exact List.map_congr_left fun c hc => if_pos (h c hc)

/-- Joining words keeps each character that is not a delimiter, upper-cased or not. -/
theorem mem_joinWords {delims cs : List Char} {atStart afterDelim : Bool}
    (hcs : ∀ c ∈ cs, isIdentChar c = true) {u : Char}
    (hu : u ∈ joinWords delims cs atStart afterDelim) :
    ∃ c ∈ cs, c ∉ delims ∧ (u = c ∨ u = c.toUpper) := by
  induction cs generalizing atStart afterDelim with
  | nil => simp [joinWords] at hu
  | cons c rest ih =>
    have hrest : ∀ c ∈ rest, isIdentChar c = true := fun c' hc' => hcs c' (List.mem_cons_of_mem _ hc')
    have hlift : ∀ {a b}, u ∈ joinWords delims rest a b →
        ∃ x ∈ c :: rest, x ∉ delims ∧ (u = x ∨ u = x.toUpper) := fun hu' => by
      obtain ⟨x, hx, hnot, hcase⟩ := ih hrest hu'
      exact ⟨x, List.mem_cons_of_mem _ hx, hnot, hcase⟩
    unfold joinWords at hu
    split_ifs at hu with hdelim hupper
    · exact hlift hu
    · rw [upper_of_isIdentChar (hcs c List.mem_cons_self), List.singleton_append,
        List.mem_cons] at hu
      rcases hu with rfl | hu
      · exact ⟨c, List.mem_cons_self, hdelim, .inr rfl⟩
      · exact hlift hu
    · rcases List.mem_cons.mp hu with rfl | hu
      · exact ⟨u, List.mem_cons_self, hdelim, .inl rfl⟩
      · exact hlift hu

theorem joinWords_eq_nil_iff {delims cs : List Char} {atStart afterDelim : Bool}
    (hcs : ∀ c ∈ cs, isIdentChar c = true) :
    joinWords delims cs atStart afterDelim = [] ↔ ∀ c ∈ cs, c ∈ delims := by
  induction cs generalizing atStart afterDelim with
  | nil => simp [joinWords]
  | cons c rest ih =>
    have hrest : ∀ c ∈ rest, isIdentChar c = true := fun c' hc' => hcs c' (List.mem_cons_of_mem _ hc')
    unfold joinWords
    split_ifs with hdelim hupper
    · rw [ih hrest, List.forall_mem_cons]
      exact ⟨fun h => ⟨hdelim, h⟩, fun h => h.2⟩
    · rw [upper_of_isIdentChar (hcs c List.mem_cons_self)]
      simp [hdelim]
    · simp [hdelim]

/-- Characters that are no delimiters are kept as they are after the first. -/
theorem joinWords_of_not_mem {delims cs : List Char} (hcs : ∀ c ∈ cs, c ∉ delims) :
    joinWords delims cs false false = cs := by
  induction cs with
  | nil => rfl
  | cons c rest ih =>
    rw [joinWords, if_neg (hcs c List.mem_cons_self)]
    simp [ih fun c' hc' => hcs c' (List.mem_cons_of_mem _ hc')]

theorem capitalizeWords_of_not_mem (n : Naming) {s : String} (hs : ∀ c ∈ s.toList, c ∉ n.delimiters) :
    n.capitalizeWords s = s := by
  rw [capitalizeWords, if_neg]
  simpa using hs

theorem mem_capitalizeWords (n : Naming) {s : String} (hs : IsIdentifier s) {u : Char}
    (hu : u ∈ (n.capitalizeWords s).toList) :
    ∃ c ∈ s.toList, c ∉ n.delimiters ∧ (u = c ∨ u = c.toUpper) := by
  unfold capitalizeWords at hu
  split_ifs at hu with hany
  · rw [String.toList_ofList] at hu
    exact mem_joinWords hs hu
  · -- without delimiters the name is kept
    have hnone : ∀ c ∈ s.toList, c ∉ n.delimiters := by simpa using hany
    exact ⟨u, hu, hnone u hu, .inl rfl⟩

theorem capitalizeWords_eq_nil_iff (n : Naming) {s : String} (hs : IsIdentifier s) :
    (n.capitalizeWords s).toList = [] ↔ ∀ c ∈ s.toList, c ∈ n.delimiters := by
  unfold capitalizeWords
  split_ifs with hany
  · rw [String.toList_ofList]
    exact joinWords_eq_nil_iff hs
  · have hnone : ∀ c ∈ s.toList, c ∉ n.delimiters := by simpa using hany
    constructor
    · intro hnil c hc
      rw [hnil] at hc
      cases hc
    · intro hall
      cases hcs : s.toList with
      | nil => rfl
      | cons c rest =>
        have hc : c ∈ s.toList := by rw [hcs]; exact List.mem_cons_self
        exact absurd (hall c hc) (hnone c hc)

theorem decapitalize_nil {s : String} (h : s.toList = []) : decapitalize s = "" := by
  simp [decapitalize, h]

/-- Only the first character changes, and only to its lower case. -/
theorem decapitalize_cons {s : String} {c : Char} {rest : List Char} (h : s.toList = c :: rest) :
    ∃ c', (decapitalize s).toList = c' :: rest ∧ (c' = c ∨ c' = c.toLower) := by
  unfold decapitalize
  rw [h]
  cases rest with
  | nil => exact ⟨c.toLower, String.toList_ofList, .inr rfl⟩
  | cons d rest =>
    dsimp only
    split_ifs
    · exact ⟨c, h, .inl rfl⟩
    · exact ⟨c.toLower, String.toList_ofList, .inr rfl⟩

theorem decapitalize_decapitalize (s : String) : decapitalize (decapitalize s) = decapitalize s := by
  unfold decapitalize
  cases hcs : s.toList with
  | nil => rfl
  | cons c rest =>
    cases rest with
    | nil => simp
    | cons d rest =>
      dsimp only
      split_ifs with hupper
      · simp [hcs, hupper]
      · simp [String.toList_ofList, hupper]

theorem toList_underscore_append {m : String} {cs : List Char} (hcs : m.toList = cs) :
    ("_" ++ m).toList = '_' :: cs := by
  rw [String.toList_append, hcs]
  rfl

theorem guardDigit_of_isDigit {s : String} {c : Char} {rest : List Char} (h : s.toList = c :: rest)
    (hc : c.isDigit = true) : guardDigit s = "_" ++ s := by
  simp [guardDigit, h, hc]

theorem guardDigit_of_not_isDigit {s : String} (h : ∀ c ∈ s.toList.head?, c.isDigit = false) :
    guardDigit s = s := by
  unfold guardDigit
  cases hcs : s.toList with
  | nil => rfl
  | cons c rest =>
    rw [hcs] at h
    simp [h c rfl]

theorem capitalize_nil {s : String} (h : s.toList = []) : capitalize s = "" := by
  simp [capitalize, h]

theorem capitalize_cons {s : String} {c : Char} {rest : List Char} (h : s.toList = c :: rest)
    (hc : isIdentChar c = true) : (capitalize s).toList = c.toUpper :: rest := by
  simp [capitalize, h, upper_of_isIdentChar hc, String.toList_ofList]

end Steps

/-! ### What each step keeps -/

section Keeps

variable (n : Naming)

theorem mem_decapitalize {s : String} {u : Char} (hu : u ∈ (decapitalize s).toList) :
    ∃ c ∈ s.toList, u = c ∨ u = c.toLower := by
  cases hcs : s.toList with
  | nil => simp [decapitalize_nil hcs] at hu
  | cons c rest =>
    obtain ⟨c', hdecap, hc'⟩ := decapitalize_cons hcs
    rw [hdecap, List.mem_cons] at hu
    rcases hu with rfl | hu
    · exact ⟨c, List.mem_cons_self, hc'⟩
    · exact ⟨u, List.mem_cons_of_mem _ hu, .inl rfl⟩

theorem decapitalize_eq_empty_iff (s : String) : decapitalize s = "" ↔ s = "" := by
  rw [← String.toList_eq_nil_iff, ← String.toList_eq_nil_iff (b := s)]
  cases hcs : s.toList with
  | nil => simp [decapitalize_nil hcs]
  | cons c rest =>
    obtain ⟨c', hdecap, -⟩ := decapitalize_cons hcs
    simp [hdecap]

theorem guardDigit_eq_empty_iff (s : String) : guardDigit s = "" ↔ s = "" := by
  unfold guardDigit
  cases hcs : s.toList with
  | nil => rfl
  | cons c rest =>
    have hne : s ≠ "" := fun h => by
      rw [← String.toList_eq_nil_iff, hcs] at h
      exact List.cons_ne_nil c rest h
    dsimp only
    split_ifs
    · rw [← String.toList_eq_nil_iff, String.toList_append]
      simp [hne]
    · simp [hne]

theorem IsIdentifier.capitalizeWords {s : String} (hs : IsIdentifier s) :
    IsIdentifier (n.capitalizeWords s) := by
  intro u hu
  obtain ⟨c, hc, -, rfl | rfl⟩ := mem_capitalizeWords n hs hu
  · exact hs _ hc
  · exact isIdentChar_toUpper (hs _ hc)

theorem IsIdentifier.decapitalize {s : String} (hs : IsIdentifier s) :
    IsIdentifier (decapitalize s) := by
  intro u hu
  obtain ⟨c, hc, rfl | rfl⟩ := mem_decapitalize hu
  · exact hs _ hc
  · exact isIdentChar_toLower (hs _ hc)

theorem IsIdentifier.guardDigit {s : String} (hs : IsIdentifier s) : IsIdentifier (guardDigit s) := by
  unfold Naming.guardDigit
  cases hcs : s.toList with
  | nil => exact hs
  | cons c rest =>
    dsimp only
    split_ifs
    · intro u hu
      rw [String.toList_append, List.mem_append] at hu
      rcases hu with hu | hu
      · rw [show "_".toList = ['_'] from rfl, List.mem_singleton] at hu
        rw [hu]
        rfl
      · exact hs u hu
    · exact hs

/-- The spelling before the digit guard: cleaned, its words joined, its first letter lowered. -/
theorem spelling_isIdentifier (x : String) :
    IsIdentifier (decapitalize (n.capitalizeWords (replaceIllegal x))) :=
  ((replaceIllegal_isIdentifier x).capitalizeWords n).decapitalize

/-- With no letter or digit among the delimiters, the spelling holds no delimiter. -/
theorem spelling_not_mem (hdelims : ∀ d ∈ n.delimiters, d.isAlphanum = false) (x : String) :
    ∀ u ∈ (decapitalize (n.capitalizeWords (replaceIllegal x))).toList, u ∉ n.delimiters := by
  intro u hu
  obtain ⟨c, hc, hcase⟩ := mem_decapitalize hu
  obtain ⟨c₀, -, hnot, hc₀⟩ := mem_capitalizeWords n (replaceIllegal_isIdentifier x) hc
  have hc_not : c ∉ n.delimiters := by
    rcases hc₀ with rfl | rfl
    · exact hnot
    · exact toUpper_not_mem hdelims hnot
  rcases hcase with rfl | rfl
  · exact hc_not
  · exact toLower_not_mem hdelims hc_not

end Keeps

/-! ### Property identifiers -/

section Property

variable (n : Naming)

theorem toUpper_of_isDigit {c : Char} (h : c.isDigit = true) : c.toUpper = c := by
  have hcode := isDigit_iff_code.mp h
  rw [← Char.toNat_inj, toNat_toUpper, if_neg (by omega)]

/-- A leading `_` that is no delimiter keeps a name free of delimiters. -/
theorem underscore_append_plain {m : String} (hplain : ∀ u ∈ m.toList, u ∉ n.delimiters)
    (hunder : '_' ∉ n.delimiters) : ∀ u ∈ ("_" ++ m).toList, u ∉ n.delimiters := by
  rw [toList_underscore_append rfl]
  intro u hu
  rcases List.mem_cons.mp hu with rfl | hu
  · exact hunder
  · exact hplain u hu

/-- A leading `_` that is a delimiter is dropped before a spelling that starts with a digit, and
the digit is kept as it is. -/
theorem capitalizeWords_underscore {m : String} (hm : IsIdentifier m)
    (hplain : ∀ u ∈ m.toList, u ∉ n.delimiters) {c : Char} {rest : List Char}
    (hcs : m.toList = c :: rest) (hdigit : c.isDigit = true) (hunder : '_' ∈ n.delimiters) :
    n.capitalizeWords ("_" ++ m) = m := by
  have hlist : ("_" ++ m).toList = '_' :: c :: rest := toList_underscore_append hcs
  have hc : c ∉ n.delimiters := hplain c (by rw [hcs]; exact List.mem_cons_self)
  have hrest : ∀ u ∈ rest, u ∉ n.delimiters := fun u hu =>
    hplain u (by rw [hcs]; exact List.mem_cons_of_mem _ hu)
  apply String.toList_injective
  rw [capitalizeWords, if_pos (by simp [hlist, hunder]), String.toList_ofList, hlist,
    joinWords, if_pos hunder, joinWords, if_neg hc,
    upper_of_isIdentChar (hm c (by rw [hcs]; exact List.mem_cons_self)), toUpper_of_isDigit hdigit,
    joinWords_of_not_mem hrest, hcs]
  simp

/-- Naming a guarded spelling again gives it back. A leading `_` added before a digit is either a
delimiter, dropped and added again, or kept as it is, and the rest is already joined and
lowered. -/
theorem guardDigit_respelled {m : String}
    (hm : IsIdentifier m) (hplain : ∀ u ∈ m.toList, u ∉ n.delimiters)
    (hfixed : decapitalize m = m) :
    guardDigit (decapitalize (n.capitalizeWords (replaceIllegal (guardDigit m)))) = guardDigit m := by
  rw [replaceIllegal_of_isIdentifier hm.guardDigit]
  cases hcs : m.toList with
  | nil =>
    have hguard : guardDigit m = m := guardDigit_of_not_isDigit (by simp [hcs])
    rw [hguard, capitalizeWords_of_not_mem n hplain, hfixed, hguard]
  | cons c rest =>
    by_cases hdigit : c.isDigit = true
    · have hcode := isDigit_iff_code.mp hdigit
      have hguard : guardDigit m = "_" ++ m := guardDigit_of_isDigit hcs hdigit
      have hlist : ("_" ++ m).toList = '_' :: c :: rest := toList_underscore_append hcs
      rw [hguard]
      by_cases hunder : '_' ∈ n.delimiters
      · -- the guard is dropped as a delimiter and added again
        rw [capitalizeWords_underscore n hm hplain hcs hdigit hunder, hfixed, hguard]
      · -- the guard stays, and a digit after it is no upper-case letter
        have hplain' := underscore_append_plain n hplain hunder
        have hnotUpper : c.isUpper = false := by
          rw [Bool.eq_false_iff, ne_eq, isUpper_iff_code]
          omega
        have hlowered : decapitalize ("_" ++ m) = "_" ++ m := by
          apply String.toList_injective
          simp only [decapitalize, hlist, hnotUpper, Bool.false_eq_true, if_false,
            String.toList_ofList]
          rfl
        rw [capitalizeWords_of_not_mem n hplain', hlowered]
        exact guardDigit_of_not_isDigit (by simp [hlist])
    · have hguard : guardDigit m = m := guardDigit_of_not_isDigit (by simpa [hcs] using hdigit)
      rw [hguard, capitalizeWords_of_not_mem n hplain, hfixed, hguard]

/-- A guarded name that is not empty starts with a character that is no digit. -/
theorem guardDigit_head {m : String} (hne : guardDigit m ≠ "") :
    ∃ c rest, (guardDigit m).toList = c :: rest ∧ c.isDigit = false := by
  cases hcs : m.toList with
  | nil => exact absurd ((guardDigit_eq_empty_iff m).mpr (String.toList_eq_nil_iff.mp hcs)) hne
  | cons c rest =>
    by_cases hdigit : c.isDigit = true
    · rw [guardDigit_of_isDigit hcs hdigit, String.toList_append, hcs]
      exact ⟨'_', c :: rest, rfl, rfl⟩
    · rw [guardDigit_of_not_isDigit (by simpa [hcs] using hdigit), hcs]
      exact ⟨c, rest, rfl, by simpa using hdigit⟩

/-- A property identifier starts with a character that is no digit, is made of identifier
characters, is not reserved, and is its own identifier. -/
theorem propertyName_ok (hdelims : ∀ d ∈ n.delimiters, d.isAlphanum = false) {x id : String}
    (h : n.propertyName x = .ok id) :
    (∃ c rest, id.toList = c :: rest ∧ c.isDigit = false) ∧ IsIdentifier id ∧
      id ∉ n.reserved ∧ n.propertyName id = .ok id := by
  unfold propertyName at h
  dsimp only at h
  split_ifs at h with hempty hreserved
  obtain rfl := Except.ok.inj h
  refine ⟨guardDigit_head (by simpa [String.isEmpty_iff] using hempty),
    (spelling_isIdentifier n x).guardDigit, hreserved, ?_⟩
  · have hfixed := decapitalize_decapitalize (n.capitalizeWords (replaceIllegal x))
    unfold propertyName
    dsimp only
    rw [guardDigit_respelled n (spelling_isIdentifier n x) (spelling_not_mem n hdelims x)
      hfixed, if_neg hempty, if_neg hreserved]

/-- A property name gives the empty identifier exactly when, once cleaned, it holds delimiters
only. -/
theorem propertyName_eq_empty_iff (x : String) :
    n.propertyName x = .error (.emptyIdentifier x) ↔
      ∀ c ∈ (replaceIllegal x).toList, c ∈ n.delimiters := by
  have hkey : (guardDigit (decapitalize (n.capitalizeWords (replaceIllegal x)))).isEmpty = true ↔
      ∀ c ∈ (replaceIllegal x).toList, c ∈ n.delimiters := by
    rw [String.isEmpty_iff, guardDigit_eq_empty_iff, decapitalize_eq_empty_iff,
      ← String.toList_eq_nil_iff]
    exact capitalizeWords_eq_nil_iff n (replaceIllegal_isIdentifier x)
  unfold propertyName
  dsimp only
  split_ifs with hempty hreserved
  · exact iff_of_true rfl (hkey.mp hempty)
  · exact iff_of_false (by simp) (fun hall => hempty (hkey.mpr hall))
  · exact iff_of_false (by simp) (fun hall => hempty (hkey.mpr hall))

/-- A property identifier is the guarded spelling of the property name. -/
theorem eq_guardDigit_of_propertyName {x id : String} (h : n.propertyName x = .ok id) :
    id = guardDigit (decapitalize (n.capitalizeWords (replaceIllegal x))) := by
  unfold propertyName at h
  dsimp only at h
  split_ifs at h
  exact (Except.ok.inj h).symm

/-- Capitalising a guarded spelling and joining its words commute, and capitalising adds back
the guard that joining may have dropped. -/
theorem capitalize_guarded (hdelims : ∀ d ∈ n.delimiters, d.isAlphanum = false) {m : String}
    (hm : IsIdentifier m) (hplain : ∀ u ∈ m.toList, u ∉ n.delimiters) :
    capitalize (n.capitalizeWords (guardDigit m)) = n.capitalizeWords (capitalize (guardDigit m)) ∧
      capitalize (guardDigit m) = guardDigit (capitalize (n.capitalizeWords (guardDigit m))) := by
  cases hcs : m.toList with
  | nil =>
    have hguard : guardDigit m = m := guardDigit_of_not_isDigit (by simp [hcs])
    have hempty : capitalize m = "" := capitalize_nil hcs
    rw [hguard, capitalizeWords_of_not_mem n hplain, hempty,
      capitalizeWords_of_not_mem n (by simp), guardDigit_of_not_isDigit (by simp)]
    exact ⟨rfl, rfl⟩
  | cons c rest =>
    have hc : isIdentChar c = true := hm c (by rw [hcs]; exact List.mem_cons_self)
    by_cases hdigit : c.isDigit = true
    · -- the guard comes first, and capitalising leaves it and the digit after it as they are
      have hlist : ("_" ++ m).toList = '_' :: c :: rest := toList_underscore_append hcs
      have hcapital : capitalize ("_" ++ m) = "_" ++ m := by
        apply String.toList_injective
        rw [capitalize_cons hlist rfl, hlist]
        rfl
      have hcapitalM : capitalize m = m := by
        apply String.toList_injective
        rw [capitalize_cons hcs hc, toUpper_of_isDigit hdigit, hcs]
      rw [guardDigit_of_isDigit hcs hdigit, hcapital]
      by_cases hunder : '_' ∈ n.delimiters
      · rw [capitalizeWords_underscore n hm hplain hcs hdigit hunder, hcapitalM,
          guardDigit_of_isDigit hcs hdigit]
        exact ⟨rfl, rfl⟩
      · rw [capitalizeWords_of_not_mem n (underscore_append_plain n hplain hunder), hcapital,
          guardDigit_of_not_isDigit (by simp [hlist])]
        exact ⟨rfl, rfl⟩
    · -- no guard: the name holds no delimiter, and its capital is no digit and no delimiter
      have hguard : guardDigit m = m := guardDigit_of_not_isDigit (by simpa [hcs] using hdigit)
      have hcap := capitalize_cons hcs hc
      have hcapPlain : ∀ u ∈ (capitalize m).toList, u ∉ n.delimiters := by
        rw [hcap]
        intro u hu
        rcases List.mem_cons.mp hu with rfl | hu
        · exact toUpper_not_mem hdelims (hplain c (by rw [hcs]; exact List.mem_cons_self))
        · exact hplain u (by rw [hcs]; exact List.mem_cons_of_mem _ hu)
      rw [hguard, capitalizeWords_of_not_mem n hplain, capitalizeWords_of_not_mem n hcapPlain,
        guardDigit_of_not_isDigit (by simp [hcap, isDigit_toUpper, hdigit])]
      exact ⟨rfl, rfl⟩

/-- With no letter or digit among the delimiters, two property identifiers get the same builder
name exactly when they are equal once capitalised. -/
theorem builderName_eq_iff (hdelims : ∀ d ∈ n.delimiters, d.isAlphanum = false)
    {x₁ x₂ t₁ t₂ : String} (h₁ : n.propertyName x₁ = .ok t₁) (h₂ : n.propertyName x₂ = .ok t₂) :
    n.builderName t₁ = n.builderName t₂ ↔ capitalize t₁ = capitalize t₂ := by
  have hform : ∀ {x t}, n.propertyName x = .ok t →
      capitalize (n.capitalizeWords (replaceIllegal t)) = n.capitalizeWords (capitalize t) ∧
        capitalize t = guardDigit (capitalize (n.capitalizeWords (replaceIllegal t))) := by
    intro x t h
    have ht := eq_guardDigit_of_propertyName n h
    rw [replaceIllegal_of_isIdentifier (ht ▸ (spelling_isIdentifier n x).guardDigit), ht]
    exact capitalize_guarded n hdelims (spelling_isIdentifier n x) (spelling_not_mem n hdelims x)
  obtain ⟨hjoin₁, hguard₁⟩ := hform h₁
  obtain ⟨hjoin₂, hguard₂⟩ := hform h₂
  rw [builderName, builderName, String.append_right_inj]
  constructor
  · intro hsame
    rw [hguard₁, hguard₂, hsame]
  · intro hsame
    rw [hjoin₁, hjoin₂, hsame]

end Property

/-! ### Class names -/

/-- A class name is made of identifier characters and starts with an upper-case letter, `_` or
`$`. -/
theorem className_shape (n : Naming) (x : String) :
    (∃ c rest, (n.className x).toList = c :: rest ∧ (c.isUpper = true ∨ c = '_' ∨ c = '$')) ∧
      IsIdentifier (n.className x) := by
  have hjoined := (replaceIllegal_isIdentifier x).capitalizeWords n
  unfold className
  dsimp only
  cases hcs : (n.capitalizeWords (replaceIllegal x)).toList with
  | nil =>
    rw [capitalize_nil hcs, if_pos (String.isEmpty_iff.mpr rfl)]
    exact ⟨⟨'U', "nnamed".toList, rfl, .inl rfl⟩, by decide⟩
  | cons c rest =>
    have hc : isIdentChar c = true := hjoined c (by rw [hcs]; exact List.mem_cons_self)
    have hcap := capitalize_cons hcs hc
    have hne : (capitalize (n.capitalizeWords (replaceIllegal x))).isEmpty = false := by
      rw [String.isEmpty_eq_false_iff, ne_eq, ← String.toList_eq_nil_iff, hcap]
      exact List.cons_ne_nil _ _
    have hident : IsIdentifier (capitalize (n.capitalizeWords (replaceIllegal x))) := by
      intro u hu
      rw [hcap, List.mem_cons] at hu
      rcases hu with rfl | hu
      · exact isIdentChar_toUpper hc
      · exact hjoined u (by rw [hcs]; exact List.mem_cons_of_mem _ hu)
    rw [if_neg (by simp [hne])]
    refine ⟨?_, hident.guardDigit⟩
    by_cases hdigit : c.toUpper.isDigit = true
    · rw [guardDigit_of_isDigit hcap hdigit, String.toList_append, hcap]
      exact ⟨'_', _, rfl, .inr (.inl rfl)⟩
    · rw [guardDigit_of_not_isDigit (by simpa [hcap] using hdigit), hcap]
      refine ⟨c.toUpper, rest, rfl, ?_⟩
      -- an upper-cased identifier character that is no digit is a capital, `_` or `$`
      have hcode := isIdentChar_iff_code.mp hc
      have hup := toNat_toUpper c
      have hnotDigit : ¬(48 ≤ c.toUpper.toNat ∧ c.toUpper.toNat ≤ 57) := fun h =>
        hdigit (isDigit_iff_code.mpr h)
      rw [isUpper_iff_code, ← Char.toNat_inj, ← Char.toNat_inj]
      split_ifs at hup <;> simp only [show '_'.toNat = 95 from rfl, show '$'.toNat = 36 from rfl] <;>
        omega

end Naming

/-- Settings whose word delimiters are no letters or digits name well. A property identifier is a
non-empty word of identifier characters that starts with no digit, is not reserved, and is its own
identifier. A property name gives the empty identifier exactly when, once cleaned, it holds
delimiters only. A class name is a word of identifier characters that starts with a capital, `_`
or `$`. -/
theorem Settings.identifiers_well_formed (s : Settings)
    (hdelims : ∀ d ∈ s.wordDelimiters.toList, d.isAlphanum = false) :
    (∀ x id, s.naming.propertyName x = .ok id →
      (∃ c rest, id.toList = c :: rest ∧ c.isDigit = false) ∧ Naming.IsIdentifier id ∧
        id ∉ s.reservedIdentifiers ∧ s.naming.propertyName id = .ok id) ∧
    (∀ x, s.naming.propertyName x = .error (.emptyIdentifier x) ↔
      ∀ c ∈ (Naming.replaceIllegal x).toList, c ∈ s.wordDelimiters.toList) ∧
    ∀ x, (∃ c rest, (s.naming.className x).toList = c :: rest ∧
        (c.isUpper = true ∨ c = '_' ∨ c = '$')) ∧ Naming.IsIdentifier (s.naming.className x) :=
  ⟨fun _ _ h => Naming.propertyName_ok s.naming hdelims h, Naming.propertyName_eq_empty_iff s.naming,
    Naming.className_shape s.naming⟩

/-- The default delimiters `-`, space and `_` name well. -/
theorem Settings.default_identifiers_well_formed :
    let s : Settings := {}
    (∀ d ∈ s.wordDelimiters.toList, d.isAlphanum = false) ∧
    ((∀ x id, s.naming.propertyName x = .ok id →
      (∃ c rest, id.toList = c :: rest ∧ c.isDigit = false) ∧ Naming.IsIdentifier id ∧
        id ∉ s.reservedIdentifiers ∧ s.naming.propertyName id = .ok id) ∧
    (∀ x, s.naming.propertyName x = .error (.emptyIdentifier x) ↔
      ∀ c ∈ (Naming.replaceIllegal x).toList, c ∈ s.wordDelimiters.toList) ∧
    ∀ x, (∃ c rest, (s.naming.className x).toList = c :: rest ∧
        (c.isUpper = true ∨ c = '_' ∨ c = '$')) ∧ Naming.IsIdentifier (s.naming.className x)) :=
  have hdelims : ∀ d ∈ ({} : Settings).wordDelimiters.toList, d.isAlphanum = false := by
    have hlist : ({} : Settings).wordDelimiters.toList = ['-', ' ', '_'] := by simp
    intro d hd
    rw [hlist, List.mem_cons, List.mem_cons, List.mem_singleton] at hd
    rcases hd with rfl | rfl | rfl <;> rfl
  ⟨hdelims, Settings.identifiers_well_formed {} hdelims⟩

end SchemaModel

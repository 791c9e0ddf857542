import SchemaModel.Text.Utf8
import Mathlib.Tactic.SplitIfs
/-!
# Reading UTF-8 back

The strict reader `Utf8.decode?` inverts `Utf8.encode`: the bytes of any character read back as
that character, whatever bytes follow, so the bytes of a whole text read back as the text. Each
width of encoding meets its own branch of the reader, and the branch's guards are arithmetic on
the code point; the second-byte ranges of RFC 3629 are met because a character is a scalar value,
never a surrogate and never above `U+10FFFF`.

UTF-8 also synchronises itself: a character's bytes start with a byte that continues no sequence,
so the reader takes a byte string apart at any such byte (`decode?_append`). A sequence the first
part leaves unfinished is refused at the byte where a continuation was owed, wherever that part
ends.
-/

namespace SchemaModel.Utf8

theorem toNat_scalar (ch : Char) :
    ch.toNat < 0xD800 ∨ 0xDFFF < ch.toNat ∧ ch.toNat < 0x110000 := by
  have hvalid := ch.valid
  simp [UInt32.isValidChar, Nat.isValidChar] at hvalid
  exact hvalid

/-! ### The reader, one branch at a time -/

theorem decode?_one {a : Nat} (ha : a < 0x80) (rest : List Nat) :
    decode? (a :: rest) = (decode? rest).map (Char.ofNat a :: ·) := by
  rw [decode?.eq_def]
  simp [ha]

theorem decode?_two {a b : Nat} (ha : 0xC2 ≤ a ∧ a ≤ 0xDF) (hb : 0x80 ≤ b ∧ b ≤ 0xBF)
    (rest : List Nat) :
    decode? (a :: b :: rest) = (decode? rest).map (Char.ofNat (two a b) :: ·) := by
  rw [decode?.eq_def]
  simp [within, ha, hb, show ¬ a < 0x80 by omega]

theorem decode?_three {a b c : Nat} (ha : 0xE0 ≤ a ∧ a ≤ 0xEF)
    (hb : (secondRange a).1 ≤ b ∧ b ≤ (secondRange a).2) (hc : 0x80 ≤ c ∧ c ≤ 0xBF)
    (rest : List Nat) :
    decode? (a :: b :: c :: rest) = (decode? rest).map (Char.ofNat (three a b c) :: ·) := by
  rw [decode?.eq_def]
  simp [within, ha, hb, hc, show ¬ a < 0x80 by omega, show ¬ (0xC2 ≤ a ∧ a ≤ 0xDF) by omega]

theorem decode?_four {a b c d : Nat} (ha : 0xF0 ≤ a ∧ a ≤ 0xF4)
    (hb : (secondRange a).1 ≤ b ∧ b ≤ (secondRange a).2) (hc : 0x80 ≤ c ∧ c ≤ 0xBF)
    (hd : 0x80 ≤ d ∧ d ≤ 0xBF) (rest : List Nat) :
    decode? (a :: b :: c :: d :: rest) =
      (decode? rest).map (Char.ofNat (four a b c d) :: ·) := by
  rw [decode?.eq_def]
  simp [within, ha, hb, hc, hd, show ¬ a < 0x80 by omega, show ¬ (0xC2 ≤ a ∧ a ≤ 0xDF) by omega,
    show ¬ (0xE0 ≤ a ∧ a ≤ 0xEF) by omega]

/-! ### Round trip -/

/-- A character's UTF-8 bytes read back as the character, whatever follows them. -/
theorem decode?_encode_append (ch : Char) (rest : List Nat) :
    decode? (encode ch ++ rest) = (decode? rest).map (ch :: ·) := by
  have hscalar := toNat_scalar ch
  have hchar : Char.ofNat ch.toNat = ch := Char.ofNat_toNat ch
  by_cases h1 : ch.toNat < 0x80
  · simp only [encode, if_pos h1, List.cons_append, List.nil_append, decode?_one h1, hchar]
  by_cases h2 : ch.toNat < 0x800
  · have hcode : two (0xC0 + ch.toNat / 0x40) (0x80 + ch.toNat % 0x40) = ch.toNat := by
      simp only [two]; omega
    simp only [encode, if_neg h1, if_pos h2, List.cons_append, List.nil_append]
    rw [decode?_two (by omega) (by omega), hcode, hchar]
  by_cases h3 : ch.toNat < 0x10000
  · -- the second byte's range excludes overlong forms below `U+0800` and the surrogates
    have hsecond : (secondRange (0xE0 + ch.toNat / 0x1000)).1 ≤ 0x80 + ch.toNat / 0x40 % 0x40 ∧
        0x80 + ch.toNat / 0x40 % 0x40 ≤ (secondRange (0xE0 + ch.toNat / 0x1000)).2 := by
      simp only [secondRange]; split_ifs <;> omega
    have hcode : three (0xE0 + ch.toNat / 0x1000) (0x80 + ch.toNat / 0x40 % 0x40)
        (0x80 + ch.toNat % 0x40) = ch.toNat := by
      simp only [three]; omega
    simp only [encode, if_neg h1, if_neg h2, if_pos h3, List.cons_append, List.nil_append]
    rw [decode?_three (by omega) hsecond (by omega), hcode, hchar]
  · -- here the second byte's range excludes overlong forms and code points above `U+10FFFF`
    have hsecond : (secondRange (0xF0 + ch.toNat / 0x40000)).1 ≤ 0x80 + ch.toNat / 0x1000 % 0x40 ∧
        0x80 + ch.toNat / 0x1000 % 0x40 ≤ (secondRange (0xF0 + ch.toNat / 0x40000)).2 := by
      simp only [secondRange]; split_ifs <;> omega
    have hcode : four (0xF0 + ch.toNat / 0x40000) (0x80 + ch.toNat / 0x1000 % 0x40)
        (0x80 + ch.toNat / 0x40 % 0x40) (0x80 + ch.toNat % 0x40) = ch.toNat := by
      simp only [four]; omega
    simp only [encode, if_neg h1, if_neg h2, if_neg h3, List.cons_append, List.nil_append]
    rw [decode?_four (by omega) hsecond (by omega) (by omega), hcode, hchar]

/-- The UTF-8 bytes of a text read back as the text. -/
theorem decode?_flatMap_encode (cs : List Char) : decode? (cs.flatMap encode) = some cs := by
  induction cs with
  | nil => rfl
  | cons ch cs ih => rw [List.flatMap_cons, decode?_encode_append, ih]; rfl

/-! ### Reading two byte strings one after the other -/

/-- A byte that continues a multi-byte sequence. -/
def IsContinuation (b : Nat) : Prop := 0x80 ≤ b ∧ b ≤ 0xBF

theorem secondRange_continues (a : Nat) : 0x80 ≤ (secondRange a).1 ∧ (secondRange a).2 ≤ 0xBF := by
  unfold secondRange
  split_ifs <;> decide

theorem within_of_not_continuation {lo hi b : Nat} (hlo : 0x80 ≤ lo) (hhi : hi ≤ 0xBF)
    (hb : ¬ IsContinuation b) : within lo hi b = false := by
  simp only [within, Bool.and_eq_false_iff, decide_eq_false_iff_not]
  unfold IsContinuation at hb
  omega

theorem within_of_lt {lo hi b : Nat} (h : hi < b) : within lo hi b = false := by
  simp only [within, Bool.and_eq_false_iff, decide_eq_false_iff_not]
  omega

theorem decode?_second_not_continuation {a x : Nat} (ha : 0x80 ≤ a) (hx : ¬ IsContinuation x)
    (r : List Nat) : decode? (a :: x :: r) = none := by
  have hsecond := within_of_not_continuation (secondRange_continues a).1 (secondRange_continues a).2 hx
  have hcont := within_of_not_continuation (Nat.le_refl 0x80) (Nat.le_refl 0xBF) hx
  rw [decode?.eq_def]
  rcases r with _ | ⟨c, _ | ⟨d, r⟩⟩ <;> simp [show ¬ a < 0x80 by omega, hsecond, hcont]

theorem decode?_third_not_continuation {a x y : Nat} (ha : 0xE0 ≤ a) (hy : ¬ IsContinuation y)
    (r : List Nat) : decode? (a :: x :: y :: r) = none := by
  have hcont := within_of_not_continuation (Nat.le_refl 0x80) (Nat.le_refl 0xBF) hy
  have hlead : within 194 223 a = false := within_of_lt (by omega)
  rw [decode?.eq_def]
  rcases r with _ | ⟨d, r⟩ <;> simp [show ¬ a < 0x80 by omega, hlead, hcont]

theorem decode?_fourth_not_continuation {a x y z : Nat} (ha : 0xF0 ≤ a) (hz : ¬ IsContinuation z)
    (r : List Nat) : decode? (a :: x :: y :: z :: r) = none := by
  have hcont := within_of_not_continuation (Nat.le_refl 0x80) (Nat.le_refl 0xBF) hz
  have hlead₂ : within 194 223 a = false := within_of_lt (by omega)
  have hlead₃ : within 224 239 a = false := within_of_lt (by omega)
  rw [decode?.eq_def]
  simp [show ¬ a < 0x80 by omega, hlead₂, hlead₃, hcont]

-- a character read before two parts read apart stands in front of the first
theorem map_cons_bind (o t : Option (List Char)) (ch : Char) :
    (o.bind fun cs => t.map (cs ++ ·)).map (ch :: ·) = (o.map (ch :: ·)).bind fun cs => t.map (cs ++ ·) := by
  cases o <;> simp [Function.comp_def]

/-- Reading a byte string whose second part starts with no continuation byte reads the two parts
apart: a sequence the first part leaves unfinished stays unfinished. -/
theorem decode?_append (A : List Nat) {X : List Nat} (hX : ∀ x ∈ X.head?, ¬ IsContinuation x) :
    decode? (A ++ X) = (decode? A).bind fun cs => (decode? X).map (cs ++ ·) := by
  rcases X with _ | ⟨x, X⟩
  · have hnil : decode? [] = some [] := rfl
    rw [List.append_nil]
    cases decode? A <;> simp [hnil]
  -- from here on the second part starts with a byte `x` that continues no sequence
  have hx : ¬ IsContinuation x := hX x rfl
  fun_induction decode? A with
  | case1 => simp
  | case2 a rest ha ih =>
    rw [List.cons_append, decode?_one ha, ih, map_cons_bind]
  | case3 a ha hlead b rest hb ih =>
    rw [List.cons_append, List.cons_append, decode?_two (by simpa [within] using hlead)
      (by simpa [within] using hb), ih, map_cons_bind]
  | case4 a ha hlead b rest hb =>
    rw [List.cons_append, List.cons_append, decode?.eq_def]
    simp [ha, hlead, hb]
  | case5 a ha hlead =>
    exact decode?_second_not_continuation (by omega) hx X
  | case6 a ha hlead₂ hlead b c rest hbc ih =>
    simp only [Bool.and_eq_true] at hbc
    rw [List.cons_append, List.cons_append, List.cons_append,
      decode?_three (by simpa [within] using hlead) (by simpa [within] using hbc.1)
        (by simpa [within] using hbc.2), ih, map_cons_bind]
  | case7 a ha hlead₂ hlead b c rest hbc =>
    rw [List.cons_append, List.cons_append, List.cons_append, decode?.eq_def]
    simp [ha, hlead₂, hlead, hbc]
  | case8 a rest ha hlead₂ hlead hshort =>
    have h224 : 0xE0 ≤ a := by simp [within] at hlead; omega
    rcases rest with _ | ⟨b, _ | ⟨c, rest⟩⟩
    · exact decode?_second_not_continuation (by omega) hx X
    · exact decode?_third_not_continuation h224 hx X
    · exact absurd rfl (hshort b c rest)
  | case9 a ha hlead₂ hlead₃ hlead b c d rest hbcd ih =>
    simp only [Bool.and_eq_true] at hbcd
    rw [List.cons_append, List.cons_append, List.cons_append, List.cons_append,
      decode?_four (by simpa [within] using hlead) (by simpa [within] using hbcd.1.1)
        (by simpa [within] using hbcd.1.2) (by simpa [within] using hbcd.2), ih, map_cons_bind]
  | case10 a ha hlead₂ hlead₃ hlead b c d rest hbcd =>
    rw [List.cons_append, List.cons_append, List.cons_append, List.cons_append, decode?.eq_def]
    simp [ha, hlead₂, hlead₃, hlead, hbcd]
  | case11 a rest ha hlead₂ hlead₃ hlead hshort =>
    have h240 : 0xF0 ≤ a := by simp [within] at hlead; omega
    rcases rest with _ | ⟨b, _ | ⟨c, _ | ⟨d, rest⟩⟩⟩
    · exact decode?_second_not_continuation (by omega) hx X
    · exact decode?_third_not_continuation (by omega) hx X
    · exact decode?_fourth_not_continuation h240 hx X
    · exact absurd rfl (hshort b c d rest)
  | case12 a rest ha hlead₂ hlead₃ hlead =>
    rw [List.cons_append, decode?.eq_def]
    simp [ha, hlead₂, hlead₃, hlead]

/-- The bytes of a character start with a byte that continues no sequence, whatever follows them. -/
theorem head_encode_append (ch : Char) (tail : List Nat) :
    ∀ b ∈ (encode ch ++ tail).head?, ¬ IsContinuation b := by
  intro b hb
  simp only [encode] at hb
  unfold IsContinuation
  split_ifs at hb <;> simp at hb <;> omega

end SchemaModel.Utf8

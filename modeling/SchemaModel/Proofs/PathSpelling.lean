import SchemaModel.Pointer
import SchemaModel.Proofs.PercentRuns
import Mathlib.Data.List.Forall2
/-!
# Every list of segments can be written as a path

Any list of non-empty segments can be written as a path that reads back as exactly those
segments, under either encoding and either decoding policy: `#/`, then the segments joined by `/`,
where each `#`, `/`, `.`, `%` and `+` inside a segment is escaped and every other character is
written as itself or escaped too. An escape writes a character's bytes in the encoding (UTF-8
bytes, or the one ISO-8859-1 byte of a character up to `U+00FF`) as `%XX`, each hexadecimal digit
in either case. So every key and index path of a tree can be addressed by a path, keys holding
separators or `+` included.

`Spells` says how a segment may be written; the reading side is the decoder, taken escape by
escape as `Percent.decodeFrom` does, which any reader of runs agrees with. Escapes
next to each other form one run whose bytes are read together, so the decoder's invariant is that
the bytes waiting in its run are the bytes of whole characters, which read back as those
characters (`decodeFrom_spelled`).
-/

namespace SchemaModel

/-- The bytes an escape of a character writes: its UTF-8 bytes, or its code in ISO-8859-1. -/
def Encoding.escapeBytes : Encoding → Char → List Nat
  | .utf8, ch => Utf8.encode ch
  | .latin1, ch => [ch.toNat]

theorem Encoding.decodeRun?_flatMap_escapeBytes (enc : Encoding) (cs : List Char) :
    enc.decodeRun? (cs.flatMap enc.escapeBytes) = some cs := by
  cases enc with
  | utf8 => exact Utf8.decode?_flatMap_encode cs
  | latin1 =>
    have hcodes : (cs.flatMap Encoding.latin1.escapeBytes).map Char.ofNat = cs := by
      induction cs with
      | nil => rfl
      | cons ch cs ih => simp [Encoding.escapeBytes, ih]
    rw [Encoding.decodeRun?, hcodes]

theorem Encoding.escapeBytes_ne_nil (enc : Encoding) (ch : Char) : enc.escapeBytes ch ≠ [] := by
  cases enc with
  | utf8 => simp only [Encoding.escapeBytes, Utf8.encode]; split_ifs <;> simp
  | latin1 => simp [Encoding.escapeBytes]

namespace Pointer

/-- The characters a segment may not hold as written: the separators, `%` and `+`. -/
def isReserved (ch : Char) : Bool := isSeparator ch || ch == '%' || ch == '+'

/-- A hexadecimal digit of a value below sixteen, in either case. -/
def HexDigitOf (v : Nat) (d : Char) : Prop :=
  v < 16 ∧ (d = Nat.digitChar v ∨ d = (Nat.digitChar v).toUpper)

/-- `%XX` escapes of a list of bytes. -/
inductive Escapes : List Nat → List Char → Prop
  | nil : Escapes [] []
  | cons {b : Nat} {hi lo : Char} {bs : List Nat} {e : List Char} :
      HexDigitOf (b / 16) hi → HexDigitOf (b % 16) lo → Escapes bs e →
      Escapes (b :: bs) ('%' :: hi :: lo :: e)

/-- The ways a segment may be written in a path: a character that is not reserved as itself, and
any character as the escapes of its bytes in the encoding. -/
inductive Spells (enc : Encoding) : List Char → List Char → Prop
  | nil : Spells enc [] []
  | literal {ch : Char} {cs t : List Char} :
      isReserved ch = false → Spells enc cs t → Spells enc (ch :: cs) (ch :: t)
  | escaped {ch : Char} {cs e t : List Char} :
      Escapes (enc.escapeBytes ch) e → Spells enc cs t → Spells enc (ch :: cs) (e ++ t)

/-- A path written for a list of segments: `#/`, then the segments' spellings joined by `/`. -/
def SpellsPath (enc : Encoding) (segs : List String) (path : String) : Prop :=
  ∃ spellings : List (List Char),
    List.Forall₂ (fun seg t => Spells enc seg.toList t) segs spellings ∧
      path = String.ofList ('#' :: '/' :: ['/'].intercalate spellings)

/-! ### Hexadecimal digits -/

theorem hexDigit?_of_hexDigitOf {v : Nat} {d : Char} (h : HexDigitOf v d) :
    Percent.hexDigit? d = some v := by
  have htable : ∀ v < 16, Percent.hexDigit? (Nat.digitChar v) = some v ∧
      Percent.hexDigit? (Nat.digitChar v).toUpper = some v := by
    decide
  obtain ⟨hv, rfl | rfl⟩ := h
  · exact (htable v hv).1
  · exact (htable v hv).2

theorem isSeparator_of_hexDigitOf {v : Nat} {d : Char} (h : HexDigitOf v d) :
    isSeparator d = false := by
  have htable : ∀ v < 16, isSeparator (Nat.digitChar v) = false ∧
      isSeparator (Nat.digitChar v).toUpper = false := by
    decide
  obtain ⟨hv, rfl | rfl⟩ := h
  · exact (htable v hv).1
  · exact (htable v hv).2

/-! ### Shape of a spelling -/

theorem Escapes.no_separator {bs : List Nat} {e : List Char} (h : Escapes bs e) :
    ∀ ch ∈ e, isSeparator ch = false := by
  induction h with
  | nil => simp
  | cons hhi hlo _ ih =>
    intro ch hch
    simp only [List.mem_cons] at hch
    rcases hch with rfl | rfl | rfl | hch
    · rfl
    · exact isSeparator_of_hexDigitOf hhi
    · exact isSeparator_of_hexDigitOf hlo
    · exact ih ch hch

theorem Escapes.ne_nil {bs : List Nat} {e : List Char} (h : Escapes bs e) (hbs : bs ≠ []) :
    e ≠ [] := by
  cases h with
  | nil => exact absurd rfl hbs
  | cons => simp

theorem Spells.no_separator {enc : Encoding} {cs t : List Char} (h : Spells enc cs t) :
    ∀ ch ∈ t, isSeparator ch = false := by
  induction h with
  | nil => simp
  | literal hch _ ih =>
    intro c hc
    rcases List.mem_cons.mp hc with rfl | hc
    · simp only [isReserved, Bool.or_eq_false_iff] at hch
      exact hch.1.1
    · exact ih c hc
  | escaped he _ ih =>
    intro c hc
    rcases List.mem_append.mp hc with hc | hc
    · exact he.no_separator c hc
    · exact ih c hc

theorem Spells.ne_nil {enc : Encoding} {cs t : List Char} (h : Spells enc cs t) (hcs : cs ≠ []) :
    t ≠ [] := by
  cases h with
  | nil => exact absurd rfl hcs
  | literal => simp
  | escaped he => exact List.append_ne_nil_of_left_ne_nil (he.ne_nil (enc.escapeBytes_ne_nil _)) _

/-! ### Decoding a spelled segment -/

theorem decodeFrom_escapes {bs : List Nat} {e : List Char} (h : Escapes bs e) (enc : Encoding)
    (rest : List Char) (run : List Nat) :
    Percent.decodeFrom enc (e ++ rest) run = Percent.decodeFrom enc rest (run ++ bs) := by
  induction h generalizing run with
  | nil => simp
  | @cons b _ _ bs _ hhi hlo _ ih =>
    simp only [List.cons_append]
    rw [Percent.decodeFrom.eq_2, hexDigit?_of_hexDigitOf hhi, hexDigit?_of_hexDigitOf hlo]
    dsimp only
    -- the two digits give back the byte they were written for
    rw [ih, show b / 16 * 16 + b % 16 = b by omega, List.append_assoc, List.singleton_append]

theorem decodeFrom_literal {enc : Encoding} {ch : Char} (hch : isReserved ch = false)
    {rest pre tail : List Char} {run : List Nat} (hrun : enc.decodeRun? run = some pre)
    (hrest : Percent.decodeFrom enc rest [] = some tail) :
    Percent.decodeFrom enc (ch :: rest) run = some (pre ++ ch :: tail) := by
  simp only [isReserved, Bool.or_eq_false_iff, beq_eq_false_iff_ne] at hch
  obtain ⟨⟨_, hpercent⟩, hplus⟩ := hch
  rw [Percent.decodeFrom.eq_4 _ _ _ _ (fun _ _ _ h => absurd h hpercent) hpercent, hrun, hrest]
  simp [Percent.formChar, hplus]

/-- Decoding a spelling while the escaped bytes of the characters `pre` still wait in the run
gives `pre`, then the spelled characters. -/
theorem decodeFrom_spelled {enc : Encoding} {cs t : List Char} (h : Spells enc cs t)
    (pre : List Char) :
    Percent.decodeFrom enc t (pre.flatMap enc.escapeBytes) = some (pre ++ cs) := by
  induction h generalizing pre with
  | nil =>
    rw [Percent.decodeFrom, enc.decodeRun?_flatMap_escapeBytes, List.append_nil]
  | literal hch _ ih =>
    have hrest := ih []
    rw [List.flatMap_nil, List.nil_append] at hrest
    exact decodeFrom_literal hch (enc.decodeRun?_flatMap_escapeBytes pre) hrest
  | @escaped ch cs _ _ he _ ih =>
    -- the character's bytes join the run, which still holds whole characters only
    have hrun : pre.flatMap enc.escapeBytes ++ enc.escapeBytes ch =
        (pre ++ [ch]).flatMap enc.escapeBytes := by
      simp
    rw [decodeFrom_escapes he, hrun, ih]
    simp

theorem decode?_spelled {enc : Encoding} {cs t : List Char} (h : Spells enc cs t)
    (reader : Percent.RunReader) :
    Percent.decode? reader enc (String.ofList t) = some (String.ofList cs) := by
  have hdecode := decodeFrom_spelled h []
  rw [List.flatMap_nil, List.nil_append] at hdecode
  rw [Percent.decode?_eq_decodeFrom, String.toList_ofList, hdecode]
  rfl

/-! ### Cutting the path -/

theorem piecesFrom_separator {c : Char} (hc : isSeparator c = true) (rest cur : List Char) :
    piecesFrom (c :: rest) cur =
      if cur.isEmpty then piecesFrom rest [] else String.ofList cur.reverse :: piecesFrom rest [] := by
  rw [piecesFrom, if_pos hc]

theorem piecesFrom_append {t : List Char} (ht : ∀ ch ∈ t, isSeparator ch = false)
    (rest cur : List Char) :
    piecesFrom (t ++ rest) cur = piecesFrom rest (t.reverse ++ cur) := by
  induction t generalizing cur with
  | nil => rfl
  | cons ch t ih =>
    have hch : isSeparator ch = false := ht ch List.mem_cons_self
    rw [List.cons_append, piecesFrom, if_neg (by simp [hch]),
      ih (fun c hc => ht c (List.mem_cons_of_mem _ hc))]
    simp

theorem piecesFrom_intercalate {ts : List (List Char)}
    (hts : ∀ t ∈ ts, t ≠ [] ∧ ∀ ch ∈ t, isSeparator ch = false) :
    piecesFrom (['/'].intercalate ts) [] = ts.map String.ofList := by
  induction ts with
  | nil => rfl
  | cons t ts ih =>
    obtain ⟨hne, hsep⟩ := hts t List.mem_cons_self
    have hrev : t.reverse.isEmpty = false := by simpa using hne
    cases ts with
    | nil =>
      rw [List.intercalate_singleton, ← List.append_nil t, piecesFrom_append hsep, List.append_nil,
        piecesFrom, hrev]
      simp
    | cons t' ts =>
      -- the piece before the first `/` is `t`; the rest is cut the same way
      rw [List.intercalate_cons_cons, List.append_assoc, piecesFrom_append hsep, List.append_nil,
        List.singleton_append, piecesFrom_separator rfl, hrev, if_neg Bool.false_ne_true,
        ih (fun u hu => hts u (List.mem_cons_of_mem _ hu))]
      simp

theorem pieces_spelled {ts : List (List Char)}
    (hts : ∀ t ∈ ts, t ≠ [] ∧ ∀ ch ∈ t, isSeparator ch = false) :
    pieces (String.ofList ('#' :: '/' :: ['/'].intercalate ts)) = ts.map String.ofList := by
  rw [pieces, String.toList_ofList, piecesFrom_separator rfl, List.isEmpty_nil, if_pos rfl,
    piecesFrom_separator rfl, List.isEmpty_nil, if_pos rfl, piecesFrom_intercalate hts]

theorem spellings_shape {enc : Encoding} {segs : List String} {ts : List (List Char)}
    (hspell : List.Forall₂ (fun seg t => Spells enc seg.toList t) segs ts)
    (hnonempty : ∀ seg ∈ segs, seg ≠ "") :
    ∀ t ∈ ts, t ≠ [] ∧ ∀ ch ∈ t, isSeparator ch = false := by
  induction hspell with
  | nil => simp
  | @cons seg t _ _ hhead _ ih =>
    intro u hu
    rcases List.mem_cons.mp hu with rfl | hu
    · have hseg : seg.toList ≠ [] := by
        simpa using hnonempty seg List.mem_cons_self
      exact ⟨hhead.ne_nil hseg, hhead.no_separator⟩
    · exact ih (fun s hs => hnonempty s (List.mem_cons_of_mem _ hs)) u hu

theorem mapM_decodePiece_spelled {enc : Encoding} (policy : DecodePolicy) {segs : List String}
    {ts : List (List Char)} (hspell : List.Forall₂ (fun seg t => Spells enc seg.toList t) segs ts) :
    (ts.map String.ofList).mapM (decodePiece enc policy) = .ok segs := by
  induction hspell with
  | nil => rfl
  | @cons seg t _ _ hhead _ ih =>
    have hpiece : decodePiece enc policy (String.ofList t) = .ok seg := by
      unfold decodePiece
      rw [decode?_spelled hhead, String.ofList_toList]
    rw [List.map_cons, List.mapM_cons, hpiece, ih]
    rfl

/-- A path written for non-empty segments reads back as those segments, under either encoding and
either policy, and so names in every tree the node those segments lead to. -/
theorem spelled_path_reads_back {enc : Encoding} {segs : List String} {path : String}
    (hnonempty : ∀ seg ∈ segs, seg ≠ "") (hpath : SpellsPath enc segs path)
    (policy : DecodePolicy) :
    segments enc policy path = .ok segs ∧ ∀ tree, resolve enc policy tree path = walk tree segs := by
  obtain ⟨ts, hspell, rfl⟩ := hpath
  have hsegments : segments enc policy (String.ofList ('#' :: '/' :: ['/'].intercalate ts)) =
      .ok segs := by
    rw [segments, pieces_spelled (spellings_shape hspell hnonempty),
      mapM_decodePiece_spelled policy hspell]
  refine ⟨hsegments, fun tree => ?_⟩
  rw [resolve, hsegments]
  rfl

theorem slash_and_accent_path_reads_back :
    (∀ seg ∈ ["a/b", "é+"], seg ≠ "") ∧ SpellsPath .utf8 ["a/b", "é+"] "#/a%2fb/%C3%A9%2B" ∧
      (segments .utf8 .strict "#/a%2fb/%C3%A9%2B" = .ok ["a/b", "é+"] ∧
        ∀ tree, resolve .utf8 .strict tree "#/a%2fb/%C3%A9%2B" = walk tree ["a/b", "é+"]) := by
  have hnonempty : ∀ seg ∈ ["a/b", "é+"], seg ≠ "" := by decide
  have hslash : Escapes (Encoding.utf8.escapeBytes '/') ['%', '2', 'f'] := by
    show Escapes [47] _
    exact .cons ⟨by decide, .inl rfl⟩ ⟨by decide, .inl rfl⟩ .nil
  have hplus : Escapes (Encoding.utf8.escapeBytes '+') ['%', '2', 'B'] := by
    show Escapes [43] _
    exact .cons ⟨by decide, .inl rfl⟩ ⟨by decide, .inr rfl⟩ .nil
  have haccent : Escapes (Encoding.utf8.escapeBytes 'é') ['%', 'C', '3', '%', 'A', '9'] := by
    show Escapes [195, 169] _
    exact .cons ⟨by decide, .inr rfl⟩ ⟨by decide, .inl rfl⟩
      (.cons ⟨by decide, .inr rfl⟩ ⟨by decide, .inl rfl⟩ .nil)
  have hfirst : Spells .utf8 "a/b".toList ['a', '%', '2', 'f', 'b'] := by
    rw [show "a/b".toList = ['a', '/', 'b'] by decide]
    exact .literal rfl (.escaped hslash (.literal rfl .nil))
  have hsecond : Spells .utf8 "é+".toList ['%', 'C', '3', '%', 'A', '9', '%', '2', 'B'] := by
    rw [show "é+".toList = ['é', '+'] by decide]
    exact .escaped haccent (.escaped hplus .nil)
  have hpath : SpellsPath .utf8 ["a/b", "é+"] "#/a%2fb/%C3%A9%2B" :=
    ⟨_, .cons hfirst (.cons hsecond .nil), by decide⟩
  exact ⟨hnonempty, hpath, spelled_path_reads_back hnonempty hpath .strict⟩

end Pointer

end SchemaModel

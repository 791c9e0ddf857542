import SchemaModel.Proofs.Utf8
import SchemaModel.Text.Percent
/-!
# Percent escapes read run by run

`Percent.readRuns` hands the text of each run of consecutive `%XX` escapes to a `RunReader` and
reads the bytes it gets back on their own, as soon as a literal character or the end of the
segment follows the run. Whatever the reader, as long as it reads a run of well-formed escapes as
the bytes they write, this is `Percent.decodeFrom`, which takes each escape's byte as it meets it
(`readRuns_eq_decodeFrom`). The plain reading of a segment
is all at once: cut it into escapes and literal characters (`Percent.tokens?`), put the escapes'
bytes and the UTF-8 bytes of the literal characters, `+` read as a space, into one byte string,
and read that string as UTF-8 (`Percent.wholeDecode?`). The two readings agree on every segment
(`decode?_reads_segment_whole`).

They agree because UTF-8 synchronises itself: the bytes of a literal character start with a byte
that continues no sequence, so a run that is not UTF-8 on its own does not become UTF-8 once the
next character's bytes follow (`Utf8.decode?_append`). The equations are proved for any run still
pending, by induction on the decoder. Under ISO-8859-1 every run reads, and a segment fails
exactly when one of its `%` starts no escape.
-/

namespace SchemaModel

namespace Percent

/-- A piece of a segment: a `%XX` escape of one byte, or a character written as it is. -/
inductive Token where
  | escape (byte : Nat)
  | literal (c : Char)
  deriving DecidableEq, Repr

/-- The bytes a piece stands for: an escape its byte, a literal the UTF-8 bytes of its character. -/
def Token.bytes : Token → List Nat
  | .escape b => [b]
  | .literal c => Utf8.encode (formChar c)

/-- The character a piece stands for in ISO-8859-1. -/
def Token.latin1 : Token → Char
  | .escape b => Char.ofNat b
  | .literal c => formChar c

/-- A segment cut into escapes and literal characters; nothing when a `%` starts no escape. -/
def tokens? : List Char → Option (List Token)
  | [] => some []
  | '%' :: a :: b :: rest =>
    match hexDigit? a, hexDigit? b with
    | some x, some y => (tokens? rest).map (.escape (x * 16 + y) :: ·)
    | _, _ => none
  | '%' :: _ => none
  | c :: rest => (tokens? rest).map (.literal c :: ·)

/-- Whether a text starts with two hexadecimal digits, as what follows the `%` of an escape does. -/
def StartsEscape (cs : List Char) : Prop :=
  ∃ a b rest x y, cs = a :: b :: rest ∧ hexDigit? a = some x ∧ hexDigit? b = some y

/-- Some `%` of a text starts no escape. -/
def HasStrayPercent (cs : List Char) : Prop :=
  ∃ pre post, cs = pre ++ '%' :: post ∧ ¬ StartsEscape post

/-- The plain reading of a segment: the bytes of its escapes and of its literal characters, as one
byte string read as UTF-8. -/
def wholeDecode? (raw : String) : Option String :=
  ((tokens? raw.toList).bind fun ts => Utf8.decode? (ts.flatMap Token.bytes)).map String.ofList

theorem tokens?_escape {a b : Char} {x y : Nat} (hx : hexDigit? a = some x)
    (hy : hexDigit? b = some y) (rest : List Char) :
    tokens? ('%' :: a :: b :: rest) = (tokens? rest).map (.escape (x * 16 + y) :: ·) := by
  simp [tokens?, hx, hy]

theorem tokens?_bad_escape {a b : Char} (hbad : ∀ x y, hexDigit? a = some x → hexDigit? b = some y → False)
    (rest : List Char) : tokens? ('%' :: a :: b :: rest) = none := by
  rw [tokens?.eq_2]
  split
  · rename_i x y hx hy
    exact absurd hy (hbad x y hx)
  · rfl

theorem tokens?_short_escape {tail : List Char} (hshort : ∀ a b rest, tail = a :: b :: rest → False) :
    tokens? ('%' :: tail) = none := by
  rcases tail with _ | ⟨a, _ | ⟨b, rest⟩⟩
  · rfl
  · rfl
  · exact absurd rfl (hshort a b rest)

theorem tokens?_literal {c : Char} (hc : c ≠ '%') (rest : List Char) :
    tokens? (c :: rest) = (tokens? rest).map (.literal c :: ·) :=
  tokens?.eq_4 c rest (fun _ _ _ h => absurd h hc) hc

theorem HasStrayPercent.append_left {cs : List Char} (h : HasStrayPercent cs) (pre : List Char) :
    HasStrayPercent (pre ++ cs) := by
  obtain ⟨pre', post, rfl, hpost⟩ := h
  exact ⟨pre ++ pre', post, (List.append_assoc _ _ _).symm, hpost⟩

theorem hasStrayPercent_of_tokens?_eq_none {cs : List Char} (hnone : tokens? cs = none) :
    HasStrayPercent cs := by
  fun_induction tokens? cs with
  | case1 => cases hnone
  | case2 a b rest x y hy hx ih =>
    exact (ih (Option.map_eq_none_iff.mp hnone)).append_left ['%', a, b]
  | case3 a b rest hbad =>
    refine ⟨[], a :: b :: rest, rfl, ?_⟩
    rintro ⟨a', b', rest', x, y, heq, hx, hy⟩
    simp only [List.cons.injEq] at heq
    obtain ⟨rfl, rfl, -⟩ := heq
    exact hbad x y hx hy
  | case4 tail hshort =>
    refine ⟨[], tail, rfl, ?_⟩
    rintro ⟨a, b, rest, -, -, heq, -⟩
    exact hshort a b rest heq
  | case5 c rest _ _ ih =>
    exact (ih (Option.map_eq_none_iff.mp hnone)).append_left [c]

theorem tokens?_eq_none_of_hasStrayPercent {cs : List Char} (h : HasStrayPercent cs) :
    tokens? cs = none := by
  obtain ⟨pre, post, hsplit, hpost⟩ := h
  fun_induction tokens? cs generalizing pre with
  | case1 => cases pre <;> cases hsplit
  | case2 a b rest x y hy hx ih =>
    -- the stray `%` is after this escape: neither of its digits is a `%`
    rcases pre with _ | ⟨p, _ | ⟨a', _ | ⟨b', pre⟩⟩⟩
    · simp only [List.nil_append, List.cons.injEq] at hsplit
      obtain ⟨-, rfl⟩ := hsplit
      exact absurd ⟨a, b, rest, x, y, rfl, hx, hy⟩ hpost
    · simp only [List.cons_append, List.nil_append, List.cons.injEq] at hsplit
      obtain ⟨-, rfl, -⟩ := hsplit
      simp [hexDigit?] at hx
    · simp only [List.cons_append, List.nil_append, List.cons.injEq] at hsplit
      obtain ⟨-, -, rfl, -⟩ := hsplit
      simp [hexDigit?] at hy
    · simp only [List.cons_append, List.cons.injEq] at hsplit
      obtain ⟨-, -, -, hrest⟩ := hsplit
      rw [ih pre hrest, Option.map_none]
  | case3 => rfl
  | case4 => rfl
  | case5 c rest hnot hc ih =>
    rcases pre with _ | ⟨p, pre⟩
    · simp only [List.nil_append, List.cons.injEq] at hsplit
      exact absurd hsplit.1 hc
    · simp only [List.cons_append, List.cons.injEq] at hsplit
      rw [ih pre hsplit.2, Option.map_none]

theorem tokens?_eq_none_iff (cs : List Char) : tokens? cs = none ↔ HasStrayPercent cs :=
  ⟨hasStrayPercent_of_tokens?_eq_none, tokens?_eq_none_of_hasStrayPercent⟩

theorem decodeRun?_utf8 (bytes : List Nat) : Encoding.utf8.decodeRun? bytes = Utf8.decode? bytes :=
  rfl

theorem decodeRun?_latin1 (bytes : List Nat) :
    Encoding.latin1.decodeRun? bytes = some (bytes.map Char.ofNat) :=
  rfl

/-- The same decoding with the byte of each escape taken as soon as it is read: `run` holds the
bytes of the escapes met since the last literal character. -/
def decodeFrom (enc : Encoding) : List Char → List Nat → Option (List Char)
  | [], run => enc.decodeRun? run
  | '%' :: a :: b :: rest, run =>
    match hexDigit? a, hexDigit? b with
    | some x, some y => decodeFrom enc rest (run ++ [x * 16 + y])
    | _, _ => none
  | '%' :: _, _ => none
  | c :: rest, run =>
    match enc.decodeRun? run, decodeFrom enc rest [] with
    | some chars, some tail => some (chars ++ formChar c :: tail)
    | _, _ => none

theorem EscapeRun.snoc {text : List Char} {bytes : List Nat} (h : EscapeRun text bytes)
    {a b : Char} {x y : Nat} (ha : hexDigit? a = some x) (hb : hexDigit? b = some y) :
    EscapeRun (text ++ ['%', a, b]) (bytes ++ [x * 16 + y]) := by
  induction h with
  | nil => exact .escape ha hb .nil
  | escape ha' hb' _ ih => exact .escape ha' hb' ih

theorem readRun_of_escapeRun (reader : RunReader) (enc : Encoding) {text : List Char}
    {bytes : List Nat} (h : EscapeRun text bytes) :
    readRun reader enc text = enc.decodeRun? bytes := by
  cases h with
  | nil => cases enc <;> rfl
  | escape ha hb hrest => rw [readRun, if_neg (by simp), reader.read_run (.escape ha hb hrest)]

theorem decodeFrom_bad_escape {enc : Encoding} {a b : Char}
    (hbad : ∀ x y, hexDigit? a = some x → hexDigit? b = some y → False) (rest : List Char)
    (run : List Nat) : decodeFrom enc ('%' :: a :: b :: rest) run = none := by
  rw [decodeFrom.eq_2]
  split
  · rename_i x y hx hy
    exact absurd hy (hbad x y hx)
  · rfl

theorem decodeFrom_short_escape {enc : Encoding} {tail : List Char}
    (hshort : ∀ a b rest, tail = a :: b :: rest → False) (run : List Nat) :
    decodeFrom enc ('%' :: tail) run = none := by
  rcases tail with _ | ⟨a, _ | ⟨b, rest⟩⟩
  · rfl
  · rfl
  · exact absurd rfl (hshort a b rest)

/-- Handing the text of each run to a reader that reads well-formed runs as their bytes decodes a
segment as taking the byte of each escape as it is read does. -/
theorem readRuns_eq_decodeFrom (reader : RunReader) (enc : Encoding) (cs : List Char)
    {text : List Char} {bytes : List Nat} (h : EscapeRun text bytes) :
    readRuns reader enc cs text = decodeFrom enc cs bytes := by
  fun_induction readRuns reader enc cs text generalizing bytes with
  | case1 run => rw [readRun_of_escapeRun reader enc h, decodeFrom.eq_1]
  | case2 a b rest run x y hy hx ih =>
    rw [ih (h.snoc hx hy), decodeFrom.eq_2]
    simp only [hx, hy]
  | case3 a b rest run hbad => rw [decodeFrom_bad_escape hbad]
  | case4 tail run hshort => rw [decodeFrom_short_escape hshort]
  | case5 c rest run _ hc chars tail hrun hrest ih =>
    rw [decodeFrom.eq_4 _ _ _ _ (fun _ _ _ h => absurd h hc) hc, ← readRun_of_escapeRun reader enc h,
      ← ih .nil, hrun, hrest]
  | case6 c rest run _ hc hfail ih =>
    rw [decodeFrom.eq_4 _ _ _ _ (fun _ _ _ h => absurd h hc) hc, ← readRun_of_escapeRun reader enc h,
      ← ih .nil]
    split
    · rename_i chars tail hrun hrest
      exact (hfail chars tail hrun hrest).elim
    · rfl

theorem decode?_eq_decodeFrom (reader : RunReader) (enc : Encoding) (raw : String) :
    decode? reader enc raw = (decodeFrom enc raw.toList []).map String.ofList := by
  rw [decode?, readRuns_eq_decodeFrom reader enc _ .nil]

/-- Reading a literal character after a pending run of escaped bytes under UTF-8: the run is read
on its own, and the character's bytes and what follows them are read on their own. -/
theorem decode?_run_literal (run tail : List Nat) (c : Char) :
    Utf8.decode? (run ++ (Token.literal c).bytes ++ tail) =
      (Utf8.decode? run).bind fun chars => (Utf8.decode? tail).map (chars ++ formChar c :: ·) := by
  rw [List.append_assoc, Token.bytes, Utf8.decode?_append run (Utf8.head_encode_append _ tail),
    Utf8.decode?_encode_append]
  cases Utf8.decode? run <;> cases Utf8.decode? tail <;> rfl

/-- Under UTF-8, decoding with a pending run of escaped bytes reads the run, the bytes of the
escapes and the bytes of the literal characters as one byte string. -/
theorem decodeFrom_utf8 (cs : List Char) (run : List Nat) :
    decodeFrom .utf8 cs run = (tokens? cs).bind fun ts => Utf8.decode? (run ++ ts.flatMap Token.bytes) := by
  fun_induction decodeFrom .utf8 cs run with
  | case1 run => simp [decodeRun?_utf8, tokens?]
  | case2 a b rest run x y hy hx ih =>
    rw [ih, tokens?_escape hx hy, Option.bind_map]
    simp only [Function.comp_def, List.flatMap_cons, Token.bytes, List.append_assoc, List.singleton_append]
  | case3 a b rest run hbad => rw [tokens?_bad_escape hbad, Option.bind_none]
  | case4 tail run hshort => rw [tokens?_short_escape hshort, Option.bind_none]
  | case5 c rest run _ hc chars tail hrest hrun ih =>
    obtain ⟨ts, htokens, hbytes⟩ := Option.bind_eq_some_iff.mp (ih ▸ hrest)
    rw [tokens?_literal hc, htokens, Option.map_some, Option.bind_some, List.flatMap_cons,
      ← List.append_assoc, decode?_run_literal, ← decodeRun?_utf8, hrun, Option.bind_some,
      ← List.nil_append (List.flatMap _ _), hbytes]
    rfl
  | case6 c rest run _ hc hfail ih =>
    rw [tokens?_literal hc]
    cases htokens : tokens? rest with
    | none => rfl
    | some ts =>
      rw [Option.map_some, Option.bind_some, List.flatMap_cons, ← List.append_assoc,
        decode?_run_literal]
      cases hrun : Utf8.decode? run with
      | none => rfl
      | some chars =>
        -- the run reads, so the rest cannot
        cases hbytes : Utf8.decode? (ts.flatMap Token.bytes) with
        | none => rfl
        | some tail =>
          refine absurd ?_ (hfail chars tail hrun)
          rw [ih, htokens, Option.bind_some, List.nil_append, hbytes]

/-- Under ISO-8859-1, every run of escaped bytes reads, so decoding fails only where the text
cannot be cut into escapes and literal characters. -/
theorem decodeFrom_latin1 (cs : List Char) (run : List Nat) :
    decodeFrom .latin1 cs run = (tokens? cs).map fun ts => run.map Char.ofNat ++ ts.map Token.latin1 := by
  fun_induction decodeFrom .latin1 cs run with
  | case1 run => simp [decodeRun?_latin1, tokens?]
  | case2 a b rest run x y hy hx ih =>
    rw [ih, tokens?_escape hx hy, Option.map_map]
    simp [Function.comp_def, Token.latin1]
  | case3 a b rest run hbad => rw [tokens?_bad_escape hbad, Option.map_none]
  | case4 tail run hshort => rw [tokens?_short_escape hshort, Option.map_none]
  | case5 c rest run _ hc chars tail hrest hrun ih =>
    obtain ⟨ts, htokens, rfl⟩ := Option.map_eq_some_iff.mp (ih ▸ hrest)
    rw [decodeRun?_latin1] at hrun
    cases hrun
    rw [tokens?_literal hc, htokens]
    simp [Token.latin1, formChar]
  | case6 c rest run _ hc hfail ih =>
    -- the run reads, so the rest cannot be cut into pieces
    have hrest : decodeFrom .latin1 rest [] = none := by
      cases hdecode : decodeFrom .latin1 rest [] with
      | none => rfl
      | some tail => exact absurd hdecode (hfail _ tail (decodeRun?_latin1 run))
    rw [ih, Option.map_eq_none_iff] at hrest
    rw [tokens?_literal hc, hrest, Option.map_none, Option.map_none]

/-- Decoding a segment run by run agrees with reading it whole, through any reader of runs that
reads well-formed escapes as their bytes: under UTF-8, the bytes of its
escapes and of its literal characters read as one byte string give the same text, and either
reading fails where the other does; the segment cannot be cut into escapes and literal characters
exactly when one of its `%` starts no escape. Under ISO-8859-1 that is the only way to fail, and
otherwise every escape stands for the character of its byte and every literal character for
itself, `+` for a space. -/
theorem decode?_reads_segment_whole (reader : RunReader) (raw : String) :
    decode? reader .utf8 raw = wholeDecode? raw ∧
      (tokens? raw.toList = none ↔ HasStrayPercent raw.toList) ∧
      decode? reader .latin1 raw =
        (tokens? raw.toList).map (fun ts => String.ofList (ts.map Token.latin1)) ∧
      (decode? reader .latin1 raw = none ↔ HasStrayPercent raw.toList) := by
  have hlatin1 : decode? reader .latin1 raw =
      (tokens? raw.toList).map (fun ts => String.ofList (ts.map Token.latin1)) := by
    rw [decode?_eq_decodeFrom, decodeFrom_latin1, Option.map_map]
    rfl
  refine ⟨?_, tokens?_eq_none_iff _, hlatin1, ?_⟩
  · rw [decode?_eq_decodeFrom, decodeFrom_utf8, wholeDecode?]
    rfl
  · rw [hlatin1, Option.map_eq_none_iff, tokens?_eq_none_iff]

end Percent

end SchemaModel

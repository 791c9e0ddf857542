import SchemaModel.Decimal.Shortest
/-!
# Writing shortest digits

How a double is spelled once its shortest digits are known. Let `e` be the decimal exponent of the
leading digit, as in `d.ddd × 10^e`. A `Notation` says for which `e` the number is written in
plain positional form, whether an integral plain number keeps a `.0`, whether a non-negative
exponent carries a `+`, and where ties of the digit search go. Zero is `0.0` or `-0.0` in every
notation here.
-/

namespace SchemaModel.Decimal

/-- The decisions of a number format on top of the shortest digits. -/
structure Notation where
  /-- The least decimal exponent written in plain form. -/
  plainFrom : Int
  /-- The first decimal exponent, above `plainFrom`, written with an exponent again. -/
  plainBelow : Int
  /-- An integral number in plain form ends in `.0`. -/
  pointZero : Bool
  /-- A non-negative exponent is written with a `+`. -/
  exponentPlus : Bool
  tie : Tie

/-- Numbers in JSON output and in messages: plain for `-5 ≤ e < 16` with `.0` on integers,
otherwise `1e+16`, `1.5e-7`; a tie goes to the even digit. -/
def Notation.json : Notation := ⟨-5, 16, true, true, .even⟩

/-- `n` zeros. -/
def zeros (n : Nat) : String :=
  String.ofList (List.replicate n '0')

/-- The decimal digits of a natural number. -/
def natDigits (n : Nat) : String :=
  String.ofList (Nat.toDigits 10 n)

/-- The spelling of `d · 10^k` (no sign) in the notation. -/
def Notation.spellDigits (nt : Notation) (d : Digits) : String :=
  let s := natDigits d.digits
  let n := s.length
  let e := d.exponent + (n : Int) - 1
  if nt.plainFrom ≤ e ∧ e < nt.plainBelow then
    if d.exponent ≥ 0 then
      s ++ zeros d.exponent.toNat ++ (if nt.pointZero then ".0" else "")
    else if e ≥ 0 then
      String.ofList (s.toList.take (e.toNat + 1)) ++ "." ++ String.ofList (s.toList.drop (e.toNat + 1))
    else
      "0." ++ zeros ((-e).toNat - 1) ++ s
  else
    let lead := String.ofList (s.toList.take 1)
    let rest := String.ofList (s.toList.drop 1)
    let mantissa := if rest.isEmpty then lead else lead ++ "." ++ rest
    let sign := if e < 0 then "-" else if nt.exponentPlus then "+" else ""
    mantissa ++ "e" ++ sign ++ natDigits e.natAbs

/-- The spelling of a double, or `none` for an infinity or a NaN. -/
def Notation.spell? (nt : Notation) (x : Float) : Option String :=
  match Binary.ofFloat? x with
  | none => none
  | some b =>
    let sign := if b.negative then "-" else ""
    if b.mantissa = 0 then some (sign ++ "0.0")
    else some (sign ++ nt.spellDigits (b.shortest nt.tie))

end SchemaModel.Decimal

/-!
# Doubles as integers times powers of two

A finite double is `±m · 2^q` with an integer mantissa `m < 2^53`. This module reads that form off
the bit pattern, builds the double nearest to `n · 2^e` for a positive integer `n`, and gives the
exact integer views of a double that the keyword readers need: its truncation toward zero, whether
it is integral, and the saturating conversions to 64-bit integers. All of it is exact `Nat` and
`Int` arithmetic on the bits, so none of it depends on how a platform rounds.
-/

namespace SchemaModel.Decimal

/-- A finite double: sign, integer mantissa and binary exponent. -/
structure Binary where
  negative : Bool
  mantissa : Nat
  exponent : Int
  /-- The mantissa is a power of two above the smallest normal one, so the double below is
  nearer than the double above. -/
  lowerCloser : Bool
  deriving Repr

namespace Binary

/-- The parts of a double's encoding, or nothing for an infinity or a NaN. -/
def ofFloat? (x : Float) : Option Binary :=
  let bits : Nat := x.toBits.toNat
  let negative := bits / Nat.pow 2 63 % 2 == 1
  let field : Nat := bits / Nat.pow 2 52 % Nat.pow 2 11
  let fraction : Nat := bits % Nat.pow 2 52
  if field = 2047 then none
  else if field = 0 then some ⟨negative, fraction, -1074, false⟩
  else some ⟨negative, fraction + Nat.pow 2 52, (field : Int) - 1075, fraction == 0 && field > 1⟩

/-- The magnitude rounded toward zero. -/
def truncMagnitude (b : Binary) : Nat :=
  if b.exponent ≥ 0 then b.mantissa * Nat.pow 2 b.exponent.toNat
  else b.mantissa / Nat.pow 2 (-b.exponent).toNat

/-- The value rounded toward zero. -/
def trunc (b : Binary) : Int :=
  if b.negative then -(b.truncMagnitude : Int) else b.truncMagnitude

/-- Whether the value is an integer. -/
def isIntegral (b : Binary) : Bool :=
  b.exponent ≥ 0 || b.mantissa % Nat.pow 2 (-b.exponent).toNat == 0

end Binary

/-- The number of binary digits of `n`; zero has none. -/
def bitLength (n : Nat) : Nat :=
  if n = 0 then 0 else n.log2 + 1

/-- The double nearest to `n · 2^e`, ties to an even mantissa, for a positive `n` whose value lies
in the range of normal doubles. -/
def nearestNormal (n : Nat) (e : Int) : Float :=
  let len := bitLength n
  let (mant, exp) :=
    if len ≤ 53 then (n * Nat.pow 2 (53 - len), e - ((53 - len : Nat) : Int))
    else
      let shift := len - 53
      let kept := n / Nat.pow 2 shift
      let rest := n % Nat.pow 2 shift
      let half := Nat.pow 2 shift / 2
      let up := rest > half || (rest == half && kept % 2 == 1)
      let kept := if up then kept + 1 else kept
      if kept = Nat.pow 2 53 then (Nat.pow 2 52, e + ((shift + 1 : Nat) : Int))
      else (kept, e + (shift : Int))
  let field := exp + 52 + 1023
  Float.ofBits (field.toNat * Nat.pow 2 52 + (mant - Nat.pow 2 52)).toUInt64

/-- The double nearest to `10^k`, for `k ≤ 308`. -/
def powTen (k : Nat) : Float :=
  nearestNormal (Nat.pow 5 k) k

/-- The doubles nearest to `10^0`, …, `10^308`. -/
def powTenTable : Array Float :=
  (List.range 309).toArray.map powTen

/-- A double rounded toward zero and clamped to the signed 64-bit range; NaN gives zero. -/
def truncToInt64 (x : Float) : Int :=
  match Binary.ofFloat? x with
  | some b => max (-(Nat.pow 2 63 : Int)) (min ((Nat.pow 2 63 : Int) - 1) b.trunc)
  | none => if x.isNaN then 0 else if x > 0 then (Nat.pow 2 63 : Int) - 1 else -(Nat.pow 2 63 : Int)

/-- A double rounded toward zero and clamped to the unsigned 64-bit range; NaN gives zero. -/
def truncToUInt64 (x : Float) : Nat :=
  match Binary.ofFloat? x with
  | some b => if b.negative then 0 else min (Nat.pow 2 64 - 1) b.truncMagnitude
  | none => if x.isNaN then 0 else if x > 0 then Nat.pow 2 64 - 1 else 0

/-- Whether a double is finite with no fractional part. -/
def isIntegral (x : Float) : Bool :=
  match Binary.ofFloat? x with
  | some b => b.isIntegral
  | none => false

end SchemaModel.Decimal

import SchemaModel.Decimal.Binary
/-!
# Shortest decimal digits of a double

The fewest decimal digits that read back as a given double. The reals that round to a double
`m · 2^q` form an interval around it, whose ends belong to it exactly when `m` is even (reading
rounds a tie to the even mantissa). On the decimal grids `10^k`, from coarse to fine, the first
grid with a point inside the interval gives the digits; of its two points nearest the value the
nearer one wins, and an exact tie goes as the caller's `Tie` says. A grid point inside the
interval implies one of the value's two neighbours on that grid is inside, so testing the two
neighbours is enough. All comparisons are exact products of naturals.
-/

namespace SchemaModel.Decimal

/-- Where an exact tie between two equally near candidates goes. -/
inductive Tie where
  /-- To the larger candidate. -/
  | up
  /-- To the candidate whose last digit is even. -/
  | even
  deriving Repr, DecidableEq

/-- A positive decimal `digits · 10^exponent` with no trailing zero in `digits`. -/
structure Digits where
  digits : Nat
  exponent : Int
  deriving Repr, DecidableEq

/-- The exact picture of a double and of a grid `10^k`, scaled to a common integer unit: the
value, the ends of its rounding interval, and one grid step. -/
structure Grid where
  value : Nat
  low : Nat
  high : Nat
  step : Nat
  inclusive : Bool

/-- The double `b` against the grid `10^k`. The interval is `[4m - 1 or 2, 4m + 2]` in units of
`2^(q-2)`; both sides are multiplied by what makes every quantity an integer. -/
def Grid.make (b : Binary) (k : Int) : Grid :=
  let p := b.exponent - 2
  let scale := Nat.pow 2 p.toNat * Nat.pow 10 (-k).toNat
  let step := Nat.pow 10 k.toNat * Nat.pow 2 (-p).toNat
  let m4 := 4 * b.mantissa
  let below := if b.lowerCloser then 1 else 2
  ⟨m4 * scale, (m4 - below) * scale, (m4 + 2) * scale, step, b.mantissa % 2 == 0⟩

/-- Whether the grid point `d · step` reads back as the double. -/
def Grid.reads (g : Grid) (d : Nat) : Bool :=
  let x := d * g.step
  if g.inclusive then g.low ≤ x && x ≤ g.high else g.low < x && x < g.high

/-- The candidate digits on this grid, if a grid point reads back. -/
def Grid.pick (g : Grid) (tie : Tie) : Option Nat :=
  let lo := g.value / g.step
  let hi := lo + 1
  match g.reads lo, g.reads hi with
  | true, true =>
    let dLo := g.value - lo * g.step
    let dHi := hi * g.step - g.value
    if dLo < dHi then some lo
    else if dHi < dLo then some hi
    else match tie with
      | .up => some hi
      | .even => some (if lo % 2 == 0 then lo else hi)
  | true, false => some lo
  | false, true => some hi
  | false, false => none

/-- A grid exponent whose step exceeds every point of the rounding interval: `10^k > 2^(e+2)`
where `2^e` bounds the value's leading bit. -/
def Binary.coarsest (b : Binary) : Int :=
  let e := b.exponent + (bitLength b.mantissa : Int) + 1
  Int.fdiv (e * 30103) 100000 + 2

/-- Tries the grids `10^k`, `10^(k-1)`, … for at most `fuel` steps. -/
def Binary.search (b : Binary) (tie : Tie) : Nat → Int → Digits
  | 0, k => ⟨(Grid.make b k).value / (Grid.make b k).step, k⟩
  | fuel + 1, k =>
    match (Grid.make b k).pick tie with
    | some d => ⟨d, k⟩
    | none => b.search tie fuel (k - 1)

/-- The shortest digits of a positive double; seventeen significant digits always read back, so
twenty-five grids from the coarsest one suffice. -/
def Binary.shortest (b : Binary) (tie : Tie) : Digits :=
  b.search tie 25 b.coarsest

end SchemaModel.Decimal
